import LedgerLens.Library.Runs
import LedgerLens.Library.Sha256
import LedgerLens.Streaming.AlertLedger
import LedgerLens.Streaming.KafkaWorker

/-!
# Dispatching an alert

`AlertDispatcher.dispatch` checks the threshold and the wallet's cooldown, records its intent
in the ledger, hands the alert to the channel, and records the outcome. What a call does
outside of the process is kept as a list of durable steps here, so that a crash can leave any
prefix of it behind.
-/

namespace LedgerLens.Streaming

open ExactlyOnce Transition

/-- `AlertDispatcher`. -/
structure AlertDispatcher (Score : Type*) where
  /-- `channel`. -/
  channel : AlertChannel := .stdout
  /-- `alert_cooldown_seconds`. -/
  alertCooldownSeconds : ℤ := 3600
  /-- `max_retries`. -/
  maxRetries : ℕ := 3
  /-- Whether there is a delivery ledger. -/
  deliveryLedger : Bool := true
  /-- The entry `score` of a risk score. -/
  score : Score → ℚ
  /-- The same as Python prints it. -/
  scoreText : Score → String

/-- What an HTTP POST to the webhook leads to. -/
inductive WebhookReply where
  /-- A response whose status is no error. -/
  | ok
  /-- `requests.HTTPError` with the response's status. -/
  | httpError (status : ℕ)
  /-- Another `requests.RequestException`. -/
  | requestException
  deriving DecidableEq, Repr

/-- What the environment decides about a call of `dispatch`. -/
structure DispatchInput where
  /-- What `_get_threshold` returns. -/
  threshold : ℚ
  /-- `time.time()`. -/
  now : ℚ
  /-- `time.time_ns()` when the intent, or the suppression, is recorded. -/
  intentNs : ℤ
  /-- The same when the outcome is recorded. -/
  outcomeNs : ℤ
  /-- What the websocket's `send` raises, if it does. -/
  websocketError : Option String := none
  /-- The replies of the webhook, by attempt. -/
  webhook : ℕ → WebhookReply := fun _ => .ok
  /-- What writing to the dead-letter file raises, if it does; it is swallowed. -/
  deadLetterError : Option String := none

/-- A step with effects that outlive the process. -/
inductive DurableStep (Score : Type*) where
  /-- A record is committed to the ledger under its canonical key. -/
  | record (id : String) (r : AlertDeliveryRecord Score)
  /-- An alert is handed to the channel, which takes it or not. -/
  | send (key : String) (taken : Bool)
  /-- An alert is appended to the dead-letter file. -/
  | deadLetter (key : String)

/-- What outlives the process. -/
structure AlertWorld (Score : Type*) where
  /-- The ledger. -/
  ledger : AlertDeliveryLedger Score := UniqueTable.empty
  /-- The keys handed to the channel, with whether it took them. -/
  sends : List (String × Bool) := []
  /-- The keys in the dead-letter file. -/
  deadLetters : List String := []

/-- The world after a durable step. -/
def AlertWorld.apply {Score : Type*} (world : AlertWorld Score) :
    DurableStep Score → AlertWorld Score
  | .record id r => { world with ledger := world.ledger.put id r }
  | .send key taken => { world with sends := world.sends ++ [(key, taken)] }
  | .deadLetter key => { world with deadLetters := world.deadLetters ++ [key] }

/-- The cooldowns: until when alerts of a wallet are suppressed. -/
abbrev Cooldowns := String → Option ℚ

/-- An alert of the wallet is suppressed at the given time. -/
def Cooldowns.active (cooldowns : Cooldowns) (wallet : String) (now : ℚ) : Bool :=
  match cooldowns wallet with
  | none => false
  | some cooldown => decide (now < cooldown)

/-- What a call of `dispatch` does. -/
structure Dispatched (Score : Type*) where
  /-- The cooldowns after the call. -/
  cooldowns : Cooldowns
  /-- Its durable steps, in order. -/
  steps : List (DurableStep Score)
  /-- What it raises, if it does. -/
  raised : Option String

namespace AlertDispatcher

variable {Score : Type*}

/-- `idempotency_key`: the same for the same alert in one cooldown window. -/
def idempotencyKey (d : AlertDispatcher Score) (alert : Alert Score) (now : ℚ) : String :=
  Sha256.hexdigestString (alert.wallet ++ "|" ++ alert.pairId ++ "|" ++ d.scoreText alert.score ++
    "|" ++ toString (now / max d.alertCooldownSeconds 1).floor)

/-- `AlertDeliveryLedger.record`, if there is a ledger. -/
def record (d : AlertDispatcher Score) (alert : Alert Score) (outcome : AlertOutcome)
    (channel : AlertChannel) (key : Option String) (timeNs : ℤ) : List (DurableStep Score) :=
  if d.deliveryLedger then
    [.record
      (alertDeliveryKey alert.wallet alert.pairId (d.scoreText alert.score) timeNs).canonical
      { wallet := alert.wallet
        pairId := alert.pairId
        riskScore := alert.score
        outcome := outcome
        channel := channel
        idempotencyKey := key }]
  else []

/-- `_write_to_dead_letter`. -/
def writeToDeadLetter (d : AlertDispatcher Score) (input : DispatchInput) (alert : Alert Score)
    (key : String) : List (DurableStep Score) :=
  (if input.deadLetterError.isNone then [.deadLetter key] else []) ++
    d.record alert .deadLettered .webhook (some key) input.outcomeNs

/-- `_deliver_webhook` from some attempt on, with a number of retries left. -/
def deliverWebhook (d : AlertDispatcher Score) (input : DispatchInput) (alert : Alert Score)
    (key : String) (attempt : ℕ) : ℕ → List (DurableStep Score)
  | 0 =>
    match input.webhook attempt with
    | .ok => .send key true :: d.record alert .delivered .webhook (some key) input.outcomeNs
    | _ => .send key false :: d.writeToDeadLetter input alert key
  | retries + 1 =>
    match input.webhook attempt with
    | .ok => .send key true :: d.record alert .delivered .webhook (some key) input.outcomeNs
    | .httpError status =>
      if 400 ≤ status ∧ status < 500 then
        .send key false :: d.writeToDeadLetter input alert key
      else .send key false :: d.deliverWebhook input alert key (attempt + 1) retries
    | .requestException =>
      .send key false :: d.deliverWebhook input alert key (attempt + 1) retries

/-- `_deliver`. -/
def deliver (d : AlertDispatcher Score) (input : DispatchInput) (alert : Alert Score)
    (key : String) : List (DurableStep Score) × Option String :=
  match d.channel with
  | .stdout =>
    (.send key true :: d.record alert .delivered .stdout (some key) input.outcomeNs, none)
  | .webhook => (d.deliverWebhook input alert key 0 d.maxRetries, none)
  | .websocket =>
    match input.websocketError with
    | some error => ([], some error)
    | none =>
      (.send key true :: d.record alert .delivered .websocket (some key) input.outcomeNs, none)

/-- `dispatch`. The cooldown starts before anything is delivered. -/
def dispatch (d : AlertDispatcher Score) (input : DispatchInput) (alert : Alert Score)
    (cooldowns : Cooldowns) (ledger : AlertDeliveryLedger Score) : Dispatched Score :=
  if d.score alert.score < input.threshold then ⟨cooldowns, [], none⟩
  else if cooldowns.active alert.wallet input.now then
    ⟨cooldowns, d.record alert .suppressedCooldown d.channel none input.intentNs, none⟩
  else
    let started :=
      Function.update cooldowns alert.wallet (some (input.now + d.alertCooldownSeconds))
    let key := d.idempotencyKey alert input.now
    if d.deliveryLedger && ledger.isDelivered key then ⟨started, [], none⟩
    else
      ⟨started,
        d.record alert .inFlight d.channel (some key) input.intentNs ++
          (d.deliver input alert key).1,
        (d.deliver input alert key).2⟩

/-- What `reconcile_on_startup` does about one intent. -/
def reconcileRecord (d : AlertDispatcher Score) (input : DispatchInput)
    (r : AlertDeliveryRecord Score) : List (DurableStep Score) :=
  if r.channel = .webhook ∧ d.channel = .webhook then
    (d.deliver input ⟨r.wallet, r.riskScore, r.pairId⟩ (r.idempotencyKey.getD "")).1
  else
    d.record ⟨r.wallet, r.riskScore, r.pairId⟩ .reconciledSkipped r.channel r.idempotencyKey
      input.outcomeNs

/-- The durable steps of `reconcile_on_startup`, with an input for each intent. -/
def reconcileOnStartup (d : AlertDispatcher Score) (inputs : ℕ → DispatchInput)
    (ledger : AlertDeliveryLedger Score) : List (DurableStep Score) :=
  if d.deliveryLedger then
    ledger.inFlight.zipIdx.flatMap fun ri => d.reconcileRecord (inputs ri.2) ri.1
  else []

variable {d : AlertDispatcher Score} {input : DispatchInput} {alert : Alert Score}
  {cooldowns : Cooldowns} {ledger : AlertDeliveryLedger Score}

/-- A key is not empty. -/
theorem idempotencyKey_ne_empty (d : AlertDispatcher Score) (alert : Alert Score) (now : ℚ) :
    d.idempotencyKey alert now ≠ "" := by
  intro hempty
  have hlength : (d.idempotencyKey alert now).length = 64 := Sha256.length_hexdigest _
  rw [hempty] at hlength
  exact absurd hlength (by decide)

/-- A score below the threshold is no alert. -/
theorem dispatch_of_below (h : d.score alert.score < input.threshold) :
    d.dispatch input alert cooldowns ledger = ⟨cooldowns, [], none⟩ := by
  simp [dispatch, h]

/-- An alert during the wallet's cooldown is suppressed. -/
theorem dispatch_of_active (h : ¬d.score alert.score < input.threshold)
    (hactive : cooldowns.active alert.wallet input.now = true) :
    d.dispatch input alert cooldowns ledger =
      ⟨cooldowns, d.record alert .suppressedCooldown d.channel none input.intentNs, none⟩ := by
  simp [dispatch, h, hactive]

/-- An alert that the ledger knows is not delivered again. -/
theorem dispatch_of_isDelivered (h : ¬d.score alert.score < input.threshold)
    (hactive : cooldowns.active alert.wallet input.now = false)
    (hdelivered :
      (d.deliveryLedger && ledger.isDelivered (d.idempotencyKey alert input.now)) = true) :
    d.dispatch input alert cooldowns ledger =
      ⟨Function.update cooldowns alert.wallet (some (input.now + d.alertCooldownSeconds)), [],
        none⟩ := by
  simp only [dispatch, if_neg h, hactive, hdelivered, if_true, Bool.false_eq_true, if_false]

/-- Any other alert is recorded and delivered. -/
theorem dispatch_of_new (h : ¬d.score alert.score < input.threshold)
    (hactive : cooldowns.active alert.wallet input.now = false)
    (hnew : (d.deliveryLedger && ledger.isDelivered (d.idempotencyKey alert input.now)) = false) :
    d.dispatch input alert cooldowns ledger =
      ⟨Function.update cooldowns alert.wallet (some (input.now + d.alertCooldownSeconds)),
        d.record alert .inFlight d.channel (some (d.idempotencyKey alert input.now))
            input.intentNs ++
          (d.deliver input alert (d.idempotencyKey alert input.now)).1,
        (d.deliver input alert (d.idempotencyKey alert input.now)).2⟩ := by
  simp only [dispatch, if_neg h, hactive, hnew, Bool.false_eq_true, if_false]

end AlertDispatcher

end LedgerLens.Streaming
