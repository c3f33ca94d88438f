import LedgerLens.Streaming.AlertCrashes
import LedgerLens.Streaming.DeadLetters

/-!
# Alerts that nobody gets

A worker hands the scores of a message to the dispatcher. If the channel raises, the message
fails and is processed again; but the cooldown of the wallet has started by then, and the
second time its alert is suppressed. This file puts the worker and the dispatcher together and
determines when a message is committed with an alert that was not delivered.
-/

namespace LedgerLens.Streaming

open ExactlyOnce Transition

variable {Value Score : Type*}

/-- What becomes of a score that is handed to `dispatch`. -/
inductive AlertFate where
  /-- It does not reach the threshold. -/
  | below
  /-- It is suppressed by a cooldown, whose alert was delivered or not. -/
  | suppressed (wasDelivered : Bool)
  /-- The ledger knows its key, which was delivered or not. -/
  | known (wasDelivered : Bool)
  /-- It is delivered. -/
  | delivered
  /-- The channel raises. -/
  | raised
  deriving DecidableEq, Repr

/-- The score is no alert, its alert was delivered, or one that was keeps it back. -/
def AlertFate.accounted : AlertFate → Bool
  | .below => true
  | .suppressed wasDelivered => wasDelivered
  | .known wasDelivered => wasDelivered
  | .delivered => true
  | .raised => false

/-- A running dispatcher. -/
structure DispatcherState (Score : Type*) where
  /-- The cooldowns. -/
  cooldowns : Cooldowns := fun _ => none
  /-- What is outside of the process. -/
  world : AlertWorld Score := {}
  /-- Whether the alert that started the wallet's cooldown was delivered. -/
  starterDelivered : String → Bool := fun _ => true

namespace DispatcherState

variable (d : AlertDispatcher Score) (input : DispatchInput) (alert : Alert Score)

/-- A call of `dispatch`, as the dispatcher's code does it. -/
def call (ds : DispatcherState Score) : Dispatched Score :=
  d.dispatch input alert ds.cooldowns ds.world.ledger

/-- What becomes of the score. -/
def fate (ds : DispatcherState Score) : AlertFate :=
  if d.score alert.score < input.threshold then .below
  else if ds.cooldowns.active alert.wallet input.now then
    .suppressed (ds.starterDelivered alert.wallet)
  else if d.deliveryLedger && ds.world.ledger.isDelivered (d.idempotencyKey alert input.now) then
    .known (decide ((d.idempotencyKey alert input.now, true) ∈ ds.world.sends))
  else if (ds.call d input alert).raised.isNone then .delivered
  else .raised

/-- The dispatcher after the call. -/
def dispatch (ds : DispatcherState Score) : DispatcherState Score where
  cooldowns := (ds.call d input alert).cooldowns
  world := exec AlertWorld.apply ds.world (ds.call d input alert).steps
  starterDelivered :=
    match ds.fate d input alert with
    | .below => ds.starterDelivered
    | .suppressed _ => ds.starterDelivered
    | fate => Function.update ds.starterDelivered alert.wallet fate.accounted

end DispatcherState

/-- A wallet of a trade, how it is scored, and what happens when its score is dispatched. -/
structure ScoredWallet (Score : Type*) where
  /-- The wallet. -/
  wallet : String
  /-- Its scoring; what `dispatch` raises is decided by the dispatcher. -/
  outcome : WalletOutcome Score
  /-- The environment of the call of `dispatch`. -/
  input : DispatchInput

/-- The same scoring with what `dispatch` raises. -/
def WalletOutcome.withDispatch (outcome : WalletOutcome Score) (raised : Option String) :
    WalletOutcome Score :=
  { outcome with dispatch := raised }

/-- Where the loop over the wallets ends. -/
structure AlertLoop (Score : Type*) where
  /-- The dispatcher. -/
  dispatcher : DispatcherState Score
  /-- How the wallets were scored, with what `dispatch` raised. -/
  outcomes : List (WalletOutcome Score)
  /-- What became of the scores, in order. -/
  fates : List AlertFate

/-- The loop over the wallets of a trade, with the dispatcher's calls. -/
def alertWallets (d : AlertDispatcher Score) (pairId : String) :
    List (ScoredWallet Score) → DispatcherState Score → AlertLoop Score
  | [], ds => ⟨ds, [], []⟩
  | scored :: rest, ds =>
    match scored.outcome.score with
    | .error _ => ⟨ds, scored.outcome :: rest.map ScoredWallet.outcome, []⟩
    | .ok none =>
      let loop := alertWallets d pairId rest ds
      { loop with outcomes := scored.outcome :: loop.outcomes }
    | .ok (some score) =>
      let alert : Alert Score := ⟨scored.wallet, score, pairId⟩
      let outcome := scored.outcome.withDispatch (ds.call d scored.input alert).raised
      if outcome.clean then
        let loop := alertWallets d pairId rest (ds.dispatch d scored.input alert)
        { loop with
          outcomes := outcome :: loop.outcomes
          fates := ds.fate d scored.input alert :: loop.fates }
      else
        ⟨ds.dispatch d scored.input alert, outcome :: rest.map ScoredWallet.outcome,
          [ds.fate d scored.input alert]⟩

/-- A worker with its dispatcher. -/
structure AlertingState (Value Score : Type*) where
  /-- The worker. -/
  worker : WorkerState Value Score
  /-- The dispatcher. -/
  dispatcher : DispatcherState Score := {}
  /-- What became of the scores of each message whose dedup key was committed, in the attempt
  that committed it. -/
  committed : List (List AlertFate) := []

/-- An attempt at a message. -/
structure AlertingAttempt (Value Score : Type*) where
  /-- The message. -/
  msg : KafkaMessage Value
  /-- The environment of the worker. -/
  attempt : Attempt Score
  /-- That of the dispatch for the base account. -/
  baseInput : DispatchInput
  /-- That of the dispatch for the counter account. -/
  counterInput : DispatchInput

namespace AlertingAttempt

/-- The wallets of the message's trade. -/
def wallets (a : AlertingAttempt Value Score) (record : TradeRecord) :
    List (ScoredWallet Score) :=
  [⟨record.baseAccount, a.attempt.base, a.baseInput⟩,
    ⟨record.counterAccount, a.attempt.counter, a.counterInput⟩]

/-- The environment of the worker, with the dispatcher's answers in it. -/
def resolved (a : AlertingAttempt Value Score) (outcomes : List (WalletOutcome Score)) :
    Attempt Score :=
  { a.attempt with
    base := outcomes.getD 0 a.attempt.base
    counter := outcomes.getD 1 a.attempt.counter }

end AlertingAttempt

namespace KafkaWorker

/-- The trade whose wallets an attempt scores, if it gets that far. -/
def tradeToScore (w : KafkaWorker Value) (attempt : Attempt Score) (msg : KafkaMessage Value)
    (redis : Redis) : Option TradeRecord :=
  if w.topic = w.dlqTopic ∨ w.topic = w.deadLetterTopic then none
  else
    match w.decode msg.value with
    | .error _ => none
    | .ok record =>
      match (kafkaDedup.checkAndStage (dedupKey msg record) w.dedupTtlSeconds attempt.claim
          attempt.read redis).2 with
      | .error _ => none
      | .ok .committed => none
      | .ok _ => if attempt.update.isNone then some record else none

/-- An attempt, with the dispatcher's part of it. -/
def attemptWith (w : KafkaWorker Value) (d : AlertDispatcher Score)
    (s : AlertingState Value Score) (a : AlertingAttempt Value Score) :
    AlertingState Value Score :=
  match w.tradeToScore a.attempt a.msg s.worker.redis with
  | none => { s with worker := (w.processMessage a.attempt a.msg s.worker).state }
  | some record =>
    let loop := alertWallets d record.assetPair (a.wallets record) s.dispatcher
    let result := w.processMessage (a.resolved loop.outcomes) a.msg s.worker
    { worker := result.state
      dispatcher := loop.dispatcher
      committed :=
        if result.settled = some .processed then s.committed ++ [loop.fates] else s.committed }

end KafkaWorker

/-- No alert of a committed message has been dropped. -/
def AlertingState.NoneDropped (s : AlertingState Value Score) : Prop :=
  ∀ fates ∈ s.committed, ∀ fate ∈ fates, fate.accounted = true

instance : DecidablePred (AlertingState.NoneDropped : AlertingState Value Score → Prop) := fun s =>
  inferInstanceAs (Decidable (∀ fates ∈ s.committed, ∀ fate ∈ fates, fate.accounted = true))

/-- Before an attempt, one of the scores that it dispatches reaches the threshold and is kept
back by a cooldown whose alert was not delivered. A wallet that has started a new cooldown in
the same attempt does not count. -/
def SuppressedUndelivered (d : AlertDispatcher Score) (ds : DispatcherState Score) :
    List (ScoredWallet Score) → List String → Prop
  | [], _ => False
  | scored :: rest, started =>
    match scored.outcome.score with
    | .ok (some score) =>
      if d.score score < scored.input.threshold ∨ scored.wallet ∈ started then
        SuppressedUndelivered d ds rest started
      else if ds.cooldowns.active scored.wallet scored.input.now then
        ds.starterDelivered scored.wallet = false ∨ SuppressedUndelivered d ds rest started
      else SuppressedUndelivered d ds rest (scored.wallet :: started)
    | _ => SuppressedUndelivered d ds rest started

/-- An attempt that commits the dedup key suppresses no alert by a cooldown whose own alert was
not delivered. -/
def KafkaWorker.SuppressesDelivered (w : KafkaWorker Value) (d : AlertDispatcher Score)
    (s : AlertingState Value Score) (a : AlertingAttempt Value Score) : Prop :=
  ∀ record, w.tradeToScore a.attempt a.msg s.worker.redis = some record →
    w.disposition
        (a.resolved (alertWallets d record.assetPair (a.wallets record) s.dispatcher).outcomes)
        a.msg s.worker.redis = some .processed →
      ¬SuppressedUndelivered d s.dispatcher (a.wallets record) []

/-- The ledger closes only such keys as the channel took. -/
def AlertWorld.Honest (world : AlertWorld Score) : Prop :=
  ∀ key, world.ledger.Closed key → (key, true) ∈ world.sends

/-- A durable step that closes only a key that the channel took. -/
def Vouched (world : AlertWorld Score) : DurableStep Score → Prop
  | .record _ r => r.outcome.terminal = true → ∀ key, r.idempotencyKey = some key →
      (key, true) ∈ world.sends
  | .send _ _ => True
  | .deadLetter _ => True

section Calls

variable {d : AlertDispatcher Score} {input : DispatchInput} {alert : Alert Score}
  {world : AlertWorld Score} {ds first : DispatcherState Score} {pairId : String}

theorem honest_apply {x : DurableStep Score} (h : world.Honest) (hx : Vouched world x) :
    (world.apply x).Honest := by
  cases x with
  | record id r =>
    rintro key ⟨id', row, hfind, hkey, hterminal⟩
    rw [AlertWorld.apply, UniqueTable.find?_put] at hfind
    split_ifs at hfind
    · cases hfind
      exact hx hterminal key hkey
    · exact h key ⟨id', row, hfind, hkey, hterminal⟩
  | send k taken => exact fun key hclosed => List.mem_append_left _ (h key hclosed)
  | deadLetter k => exact h

/-- What a dispatcher records as delivered, it has delivered. -/
theorem vouched_dispatch (hchannel : d.channel ≠ .webhook) (cooldowns : Cooldowns)
    (ledger : AlertDeliveryLedger Score) (world : AlertWorld Score) :
    Meets AlertWorld.apply Vouched world (d.dispatch input alert cooldowns ledger).steps := by
  have hopen (outcome : AlertOutcome) (key : Option String) (timeNs : ℤ)
      (houtcome : outcome.terminal = false) (world : AlertWorld Score) :
      Meets AlertWorld.apply Vouched world (d.record alert outcome d.channel key timeNs) := by
    unfold AlertDispatcher.record
    split_ifs
    · refine ⟨fun hterminal => ?_, trivial⟩
      rw [houtcome] at hterminal
      cases hterminal
    · trivial
  have hdelivered (channel : AlertChannel) (key : String) (world : AlertWorld Score) :
      Meets AlertWorld.apply Vouched world
        (.send key true :: d.record alert .delivered channel (some key) input.outcomeNs) := by
    refine ⟨trivial, ?_⟩
    unfold AlertDispatcher.record
    split_ifs
    · refine ⟨fun _ k hk => ?_, trivial⟩
      cases hk
      simp [AlertWorld.apply]
    · trivial
  by_cases hbelow : d.score alert.score < input.threshold
  · rw [AlertDispatcher.dispatch_of_below hbelow]
    trivial
  · cases hactive : cooldowns.active alert.wallet input.now with
    | true =>
      rw [AlertDispatcher.dispatch_of_active hbelow hactive]
      exact hopen _ _ _ rfl world
    | false =>
      cases hnew : d.deliveryLedger && ledger.isDelivered (d.idempotencyKey alert input.now) with
      | true =>
        rw [AlertDispatcher.dispatch_of_isDelivered hbelow hactive hnew]
        trivial
      | false =>
        rw [AlertDispatcher.dispatch_of_new hbelow hactive hnew, meets_append_iff]
        refine ⟨hopen _ _ _ rfl world, ?_⟩
        unfold AlertDispatcher.deliver
        cases hd : d.channel with
        | webhook => exact absurd hd hchannel
        | stdout => exact hdelivered _ _ _
        | websocket =>
          cases input.websocketError with
          | some error => trivial
          | none => exact hdelivered _ _ _

/-- An honest ledger stays honest. -/
theorem honest_dispatch (hchannel : d.channel ≠ .webhook) (h : ds.world.Honest) :
    (ds.dispatch d input alert).world.Honest :=
  exec_invariant_of_meets AlertWorld.Honest (fun _ _ hs hx => honest_apply hs hx) h
    (vouched_dispatch hchannel _ _ _)

theorem honest_alertWallets (hchannel : d.channel ≠ .webhook) (ws : List (ScoredWallet Score))
    (h : ds.world.Honest) : (alertWallets d pairId ws ds).dispatcher.world.Honest := by
  induction ws generalizing ds with
  | nil => exact h
  | cons scored rest ih =>
    unfold alertWallets
    rcases scored.outcome.score with _ | _ | score
    · exact h
    · exact ih h
    · dsimp only
      split_ifs
      · exact ih (honest_dispatch hchannel h)
      · exact honest_dispatch hchannel h

/-- A score below the threshold changes nothing. -/
theorem dispatch_below (h : d.score alert.score < input.threshold) :
    ds.fate d input alert = .below ∧ (ds.dispatch d input alert).cooldowns = ds.cooldowns ∧
      (ds.dispatch d input alert).starterDelivered = ds.starterDelivered := by
  have hfate : ds.fate d input alert = .below := if_pos h
  refine ⟨hfate, ?_, ?_⟩
  · simp only [DispatcherState.dispatch, DispatcherState.call,
      AlertDispatcher.dispatch_of_below h]
  · simp only [DispatcherState.dispatch, hfate]

/-- Nor does one that is suppressed. -/
theorem dispatch_active (h : ¬d.score alert.score < input.threshold)
    (hactive : ds.cooldowns.active alert.wallet input.now = true) :
    ds.fate d input alert = .suppressed (ds.starterDelivered alert.wallet) ∧
      (ds.dispatch d input alert).cooldowns = ds.cooldowns ∧
      (ds.dispatch d input alert).starterDelivered = ds.starterDelivered := by
  have hfate : ds.fate d input alert = .suppressed (ds.starterDelivered alert.wallet) := by
    simp [DispatcherState.fate, h, hactive]
  refine ⟨hfate, ?_, ?_⟩
  · simp only [DispatcherState.dispatch, DispatcherState.call,
      AlertDispatcher.dispatch_of_active h hactive]
  · simp only [DispatcherState.dispatch, hfate]

/-- Any other score that does not make the channel raise is accounted for, and starts a
cooldown of its wallet. -/
theorem dispatch_started (hhonest : ds.world.Honest)
    (h : ¬d.score alert.score < input.threshold)
    (hactive : ds.cooldowns.active alert.wallet input.now = false)
    (hraised : (ds.call d input alert).raised = none) :
    (ds.fate d input alert).accounted = true ∧
      (∀ wallet ≠ alert.wallet, (ds.dispatch d input alert).cooldowns wallet =
        ds.cooldowns wallet) ∧
      (ds.dispatch d input alert).starterDelivered =
        Function.update ds.starterDelivered alert.wallet true := by
  have hcooldowns : ∀ wallet ≠ alert.wallet, (ds.dispatch d input alert).cooldowns wallet =
      ds.cooldowns wallet := by
    intro wallet hne
    simp only [DispatcherState.dispatch, DispatcherState.call]
    cases hnew : d.deliveryLedger &&
        ds.world.ledger.isDelivered (d.idempotencyKey alert input.now) with
    | true =>
      rw [AlertDispatcher.dispatch_of_isDelivered h hactive hnew]
      exact Function.update_of_ne hne _ _
    | false =>
      rw [AlertDispatcher.dispatch_of_new h hactive hnew]
      exact Function.update_of_ne hne _ _
  have hfate : ds.fate d input alert = .known true ∨ ds.fate d input alert = .delivered := by
    cases hnew : d.deliveryLedger &&
        ds.world.ledger.isDelivered (d.idempotencyKey alert input.now) with
    | true =>
      have hclosed := AlertDeliveryLedger.isDelivered_iff.mp (Bool.and_eq_true_iff.mp hnew).2
      exact Or.inl (by simp [DispatcherState.fate, h, hactive, hnew, hhonest _ hclosed])
    | false => exact Or.inr (by simp [DispatcherState.fate, h, hactive, hnew, hraised])
  refine ⟨?_, hcooldowns, ?_⟩
  · rcases hfate with hfate | hfate <;> rw [hfate] <;> rfl
  · rcases hfate with hfate | hfate <;> simp only [DispatcherState.dispatch, hfate] <;> rfl

/-- What a state has to do with the one before the attempt: only the wallets that have started
a cooldown differ, and theirs are from alerts that were delivered. -/
structure StartedSince (first ds : DispatcherState Score) (started : List String) : Prop where
  /-- The other cooldowns are the same. -/
  cooldowns : ∀ wallet, wallet ∉ started → ds.cooldowns wallet = first.cooldowns wallet
  /-- So is what is known of them. -/
  others : ∀ wallet, wallet ∉ started →
    ds.starterDelivered wallet = first.starterDelivered wallet
  /-- The new ones are from delivered alerts. -/
  delivered : ∀ wallet ∈ started, ds.starterDelivered wallet = true

theorem StartedSince.of_same {ds' : DispatcherState Score} {started : List String}
    (h : StartedSince first ds started) (hcooldowns : ds'.cooldowns = ds.cooldowns)
    (hstarter : ds'.starterDelivered = ds.starterDelivered) : StartedSince first ds' started := by
  refine ⟨?_, ?_, ?_⟩
  · rw [hcooldowns]
    exact h.cooldowns
  · rw [hstarter]
    exact h.others
  · rw [hstarter]
    exact h.delivered

/-- A wallet that starts a cooldown joins the others. -/
theorem StartedSince.start {ds' : DispatcherState Score} {started : List String}
    (h : StartedSince first ds started) {wallet : String}
    (hcooldowns : ∀ w ≠ wallet, ds'.cooldowns w = ds.cooldowns w)
    (hstarter : ds'.starterDelivered = Function.update ds.starterDelivered wallet true) :
    StartedSince first ds' (wallet :: started) := by
  refine ⟨fun w hw => ?_, fun w hw => ?_, fun w hw => ?_⟩
  · rw [List.mem_cons, not_or] at hw
    rw [hcooldowns w hw.1, h.cooldowns w hw.2]
  · rw [List.mem_cons, not_or] at hw
    rw [hstarter, Function.update_of_ne hw.1, h.others w hw.2]
  · rw [hstarter]
    by_cases hsame : w = wallet
    · rw [hsame, Function.update_self]
    · rw [Function.update_of_ne hsame]
      exact h.delivered w ((List.mem_cons.mp hw).resolve_left hsame)

/-- One that starts another stays among them. -/
theorem StartedSince.again {ds' : DispatcherState Score} {started : List String}
    (h : StartedSince first ds started) {wallet : String} (hmem : wallet ∈ started)
    (hcooldowns : ∀ w ≠ wallet, ds'.cooldowns w = ds.cooldowns w)
    (hstarter : ds'.starterDelivered = Function.update ds.starterDelivered wallet true) :
    StartedSince first ds' started := by
  have hgrown := h.start hcooldowns hstarter
  have hsame : ∀ w, w ∉ started → w ∉ wallet :: started := by
    intro w hw hmem'
    rcases List.mem_cons.mp hmem' with rfl | hold
    · exact hw hmem
    · exact hw hold
  exact ⟨fun w hw => hgrown.cooldowns w (hsame w hw), fun w hw => hgrown.others w (hsame w hw),
    fun w hw => hgrown.delivered w (List.mem_cons_of_mem _ hw)⟩

/-- A score that is dispatched without anything raised lets the loop go on. -/
theorem alertWallets_of_clean {scored : ScoredWallet Score} {rest : List (ScoredWallet Score)}
    {score : Score} (hscore : scored.outcome.score = .ok (some score))
    (hclean : ∀ o ∈ (alertWallets d pairId (scored :: rest) ds).outcomes, o.clean = true) :
    let alert : Alert Score := ⟨scored.wallet, score, pairId⟩
    let loop := alertWallets d pairId rest (ds.dispatch d scored.input alert)
    (ds.call d scored.input alert).raised = none ∧
      (∀ o ∈ loop.outcomes, o.clean = true) ∧
      (alertWallets d pairId (scored :: rest) ds).fates =
        ds.fate d scored.input alert :: loop.fates := by
  intro alert loop
  let outcome := scored.outcome.withDispatch (ds.call d scored.input alert).raised
  have hloop : alertWallets d pairId (scored :: rest) ds =
      if outcome.clean then
        { loop with
          outcomes := outcome :: loop.outcomes
          fates := ds.fate d scored.input alert :: loop.fates }
      else
        ⟨ds.dispatch d scored.input alert, outcome :: rest.map ScoredWallet.outcome,
          [ds.fate d scored.input alert]⟩ := by
    rw [alertWallets, hscore]
  have hgoes : outcome.clean = true := by
    by_contra hdirty
    rw [hloop, if_neg hdirty] at hclean
    exact hdirty (hclean outcome List.mem_cons_self)
  rw [hloop, if_pos hgoes] at hclean
  refine ⟨?_, fun o ho => hclean o (List.mem_cons_of_mem _ ho), by rw [hloop, if_pos hgoes]⟩
  simp only [WalletOutcome.clean, outcome, WalletOutcome.withDispatch, hscore, Bool.and_eq_true,
    Option.isNone_iff_eq_none] at hgoes
  exact hgoes.1

/-- A loop over the wallets that nothing interrupts accounts for every score, unless one is
suppressed by a cooldown whose alert was not delivered. -/
theorem accounted_alertWallets (hchannel : d.channel ≠ .webhook) (ws : List (ScoredWallet Score))
    {started : List String} (hhonest : ds.world.Honest) (hsince : StartedSince first ds started)
    (hclean : ∀ outcome ∈ (alertWallets d pairId ws ds).outcomes, outcome.clean = true) :
    (∀ fate ∈ (alertWallets d pairId ws ds).fates, fate.accounted = true) ↔
      ¬SuppressedUndelivered d first ws started := by
  induction ws generalizing ds started with
  | nil => simp [alertWallets, SuppressedUndelivered]
  | cons scored rest ih =>
    rcases hscore : scored.outcome.score with reason | _ | score
    · have hdirty := hclean scored.outcome (by simp [alertWallets, hscore])
      simp [WalletOutcome.clean, hscore] at hdirty
    · simp only [alertWallets, hscore] at hclean ⊢
      simp only [SuppressedUndelivered, hscore]
      exact ih hhonest hsince fun o ho => hclean o (List.mem_cons_of_mem _ ho)
    · let alert : Alert Score := ⟨scored.wallet, score, pairId⟩
      obtain ⟨hraised, hrest, hfates⟩ := alertWallets_of_clean hscore hclean
      have hhonest' : (ds.dispatch d scored.input alert).world.Honest :=
        honest_dispatch hchannel hhonest
      rw [hfates, List.forall_mem_cons]
      simp only [SuppressedUndelivered, hscore]
      by_cases hbelow : d.score score < scored.input.threshold
      · obtain ⟨hfate, hcooldowns, hstarter⟩ :=
          @dispatch_below _ d scored.input alert ds hbelow
        rw [if_pos (Or.inl hbelow), hfate,
          ih hhonest' (hsince.of_same hcooldowns hstarter) hrest]
        simp [AlertFate.accounted]
      · cases hactive : ds.cooldowns.active scored.wallet scored.input.now with
        | true =>
          obtain ⟨hfate, hcooldowns, hstarter⟩ :=
            @dispatch_active _ d scored.input alert ds hbelow hactive
          rw [hfate, ih hhonest' (hsince.of_same hcooldowns hstarter) hrest]
          by_cases hmem : scored.wallet ∈ started
          · rw [if_pos (Or.inr hmem)]
            simp [AlertFate.accounted, alert, hsince.delivered _ hmem]
          · have hthen : first.cooldowns.active scored.wallet scored.input.now = true := by
              unfold Cooldowns.active at hactive ⊢
              rwa [← hsince.cooldowns _ hmem]
            rw [if_neg (by simp [hbelow, hmem]), if_pos hthen, ← hsince.others _ hmem]
            simp [AlertFate.accounted, alert]
        | false =>
          obtain ⟨haccounted, hcooldowns, hstarter⟩ :=
            @dispatch_started _ d scored.input alert ds hhonest hbelow hactive hraised
          rw [eq_true haccounted, true_and]
          by_cases hmem : scored.wallet ∈ started
          · rw [if_pos (Or.inr hmem)]
            exact ih hhonest' (hsince.again hmem hcooldowns hstarter) hrest
          · have hthen : ¬first.cooldowns.active scored.wallet scored.input.now = true := by
              rw [Bool.not_eq_true]
              unfold Cooldowns.active at hactive ⊢
              rwa [← hsince.cooldowns _ hmem]
            rw [if_neg (by simp [hbelow, hmem]), if_neg hthen]
            exact ih hhonest' (hsince.start hcooldowns hstarter) hrest

@[simp] theorem length_outcomes (ws : List (ScoredWallet Score)) :
    (alertWallets d pairId ws ds).outcomes.length = ws.length := by
  induction ws generalizing ds with
  | nil => rfl
  | cons scored rest ih =>
    unfold alertWallets
    rcases scored.outcome.score with _ | _ | score
    · simp
    · simp [ih]
    · dsimp only
      split_ifs
      · simp [ih]
      · simp

end Calls

section Attempts

variable {w : KafkaWorker Value} {d : AlertDispatcher Score} {s : AlertingState Value Score}
  {a : AlertingAttempt Value Score} {record : TradeRecord}

/-- A message is processed only if its wallets are scored and nothing raises. -/
theorem processed_iff {attempt : Attempt Score} {msg : KafkaMessage Value} {redis : Redis} :
    w.disposition attempt msg redis = some .processed ↔
      w.tradeToScore attempt msg redis ≠ none ∧
        KafkaWorker.dispositionOfStaged attempt = some .processed := by
  have hupdate : KafkaWorker.dispositionOfStaged attempt = some .processed →
      attempt.update.isNone = true := by
    unfold KafkaWorker.dispositionOfStaged
    split_ifs with hclean
    · simp only [Bool.and_eq_true] at hclean
      exact fun _ => hclean.1.1
    · exact fun h => by cases h
  unfold KafkaWorker.disposition KafkaWorker.tradeToScore
  by_cases htopic : w.topic = w.dlqTopic ∨ w.topic = w.deadLetterTopic
  · simp [htopic]
  · rw [if_neg htopic, if_neg htopic]
    cases w.decode msg.value with
    | error reason => simp
    | ok record =>
      dsimp only
      rcases (kafkaDedup.checkAndStage (dedupKey msg record) w.dedupTtlSeconds attempt.claim
        attempt.read redis).2 with e | state
      · simp
      · cases state with
        | committed => simp
        | new | staged | failed | ttlExpiredReverify =>
          constructor
          · intro h
            exact ⟨by simp [hupdate h], h⟩
          · exact fun h => h.2

/-- A message that is processed was scored without anything raised. -/
theorem clean_of_processed {attempt : Attempt Score} {msg : KafkaMessage Value} {redis : Redis}
    (h : w.disposition attempt msg redis = some .processed) :
    attempt.base.clean = true ∧ attempt.counter.clean = true := by
  have hstaged := (processed_iff.mp h).2
  unfold KafkaWorker.dispositionOfStaged at hstaged
  split_ifs at hstaged with hclean
  simp only [Bool.and_eq_true] at hclean
  exact hclean.1.2

/-- When a message is processed, all its scorings were clean. -/
theorem clean_outcomes
    (h : w.disposition
      (a.resolved (alertWallets d record.assetPair (a.wallets record) s.dispatcher).outcomes)
      a.msg s.worker.redis = some .processed) :
    ∀ o ∈ (alertWallets d record.assetPair (a.wallets record) s.dispatcher).outcomes,
      o.clean = true := by
  obtain ⟨hbase, hcounter⟩ := clean_of_processed h
  have hlength : (alertWallets d record.assetPair (a.wallets record) s.dispatcher).outcomes.length =
      2 := length_outcomes _
  obtain ⟨base, counter, houtcomes⟩ := List.length_eq_two.mp hlength
  rw [houtcomes] at hbase hcounter ⊢
  intro o ho
  rcases List.mem_cons.mp ho with rfl | ho
  · exact hbase
  · rw [List.mem_singleton.mp ho]
    exact hcounter

/-- An attempt drops an alert exactly if it commits its message with one suppressed by a
cooldown whose alert was not delivered. -/
theorem noneDropped_attemptWith_iff (hchannel : d.channel ≠ .webhook)
    (hhonest : s.dispatcher.world.Honest) :
    (w.attemptWith d s a).NoneDropped ↔ s.NoneDropped ∧ w.SuppressesDelivered d s a := by
  unfold KafkaWorker.SuppressesDelivered KafkaWorker.attemptWith
  cases htrade : w.tradeToScore a.attempt a.msg s.worker.redis with
  | none => simp [AlertingState.NoneDropped]
  | some record =>
    simp only [Option.some.injEq, forall_eq', KafkaWorker.processMessage_settled]
    by_cases hprocessed : w.disposition
        (a.resolved (alertWallets d record.assetPair (a.wallets record) s.dispatcher).outcomes)
        a.msg s.worker.redis = some .processed
    · have hsince : StartedSince s.dispatcher s.dispatcher [] :=
        ⟨fun _ _ => rfl, fun _ _ => rfl, fun _ h => by cases h⟩
      rw [← accounted_alertWallets hchannel (a.wallets record) hhonest hsince
        (clean_outcomes hprocessed)]
      simp only [AlertingState.NoneDropped, hprocessed, if_true, forall_true_left]
      rw [List.forall_mem_append, List.forall_mem_singleton]
    · simp [AlertingState.NoneDropped, hprocessed]

/-- The ledger stays honest. -/
theorem honest_attemptWith (hchannel : d.channel ≠ .webhook)
    (hhonest : s.dispatcher.world.Honest) :
    (w.attemptWith d s a).dispatcher.world.Honest := by
  unfold KafkaWorker.attemptWith
  cases w.tradeToScore a.attempt a.msg s.worker.redis with
  | none => exact hhonest
  | some record => exact honest_alertWallets hchannel _ hhonest

end Attempts

/-- In every run of a worker and its dispatcher on a channel other than the webhook, whichever
messages are processed again and whenever the channel raises: each alert of every committed
message is delivered, or kept back by one that was, exactly when no attempt that commits a
message finds an alert suppressed by a cooldown whose own alert was not delivered. -/
theorem alerts_accounted_iff (w : KafkaWorker Value) {d : AlertDispatcher Score}
    (hchannel : d.channel ≠ .webhook) (redis : Redis)
    (attempts : List (AlertingAttempt Value Score)) :
    Always (w.attemptWith d) AlertingState.NoneDropped { worker := { redis := redis } } attempts ↔
      Meets (w.attemptWith d) (w.SuppressesDelivered d) { worker := { redis := redis } }
        attempts := by
  apply always_iff_meets
    (fun s : AlertingState Value Score => s.NoneDropped ∧ s.dispatcher.world.Honest)
    (fun _ h => h.1)
  · exact fun s a h hcond => ⟨(noneDropped_attemptWith_iff hchannel h.2).mpr ⟨h.1, hcond⟩,
      honest_attemptWith hchannel h.2⟩
  · exact fun s a h hcond hafter =>
      hcond ((noneDropped_attemptWith_iff hchannel h.2).mp hafter).2
  · refine ⟨fun fates hfates => ?_, ?_⟩
    · cases hfates
    · rintro key ⟨id, r, hfind, _⟩
      cases hfind

/-- A dispatcher to a websocket. -/
def websocketDispatcher : AlertDispatcher ℕ := { stdoutDispatcher with channel := .websocket }

/-- An attempt at the first trade, whose base account has a high score, at a given second; the
websocket raises or not. -/
def alertAttempt (second : ℤ) (websocketError : Option String) :
    AlertingAttempt TradeRecord ℕ where
  msg := KafkaWorker.twoTrades.log.head (by decide)
  attempt := KafkaWorker.attemptWithScore (.ok (some 90))
  baseInput :=
    { dispatchAt (second * 1000000000) (second * 1000000000 + 1) (second * 1000000000 + 2) with
      websocketError := websocketError }
  counterInput := dispatchAt 0 0 0

/-- A message whose alert goes through at once. -/
theorem alerts_accounted_at_once :
    Always (KafkaWorker.plainWorker.attemptWith websocketDispatcher) AlertingState.NoneDropped
        { worker := { redis := fun _ => none } } [alertAttempt 0 none] ↔
      Meets (KafkaWorker.plainWorker.attemptWith websocketDispatcher)
        (KafkaWorker.plainWorker.SuppressesDelivered websocketDispatcher)
        { worker := { redis := fun _ => none } } [alertAttempt 0 none] :=
  alerts_accounted_iff KafkaWorker.plainWorker (by decide) (fun _ => none) [alertAttempt 0 none]

/-- The websocket raises; when the message is processed again, its alert is suppressed and the
message is committed. -/
theorem redelivered_alert_dropped :
    ¬Always (KafkaWorker.plainWorker.attemptWith websocketDispatcher) AlertingState.NoneDropped
      { worker := { redis := fun _ => none } }
      [alertAttempt 0 (some "connection lost"), alertAttempt 1 none] := by
  decide +kernel

end LedgerLens.Streaming
