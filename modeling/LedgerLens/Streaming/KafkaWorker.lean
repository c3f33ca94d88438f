import LedgerLens.ExactlyOnce.RedisBackend

/-!
# Processing one Kafka message

`KafkaWorker._process_correlated_message` decodes a message, stages its dedup key, scores
and alerts both wallets, commits the dedup key and then the offset. Anything it calls may
raise; which calls do is the input of an attempt. The worker serves one partition here,
so its per-partition dictionaries have one entry each.
-/

namespace LedgerLens.Streaming

open ExactlyOnce

variable {Value Score : Type*}

/-- The fields of a decoded trade record that the worker reads. -/
structure TradeRecord where
  /-- One wallet of the trade. -/
  baseAccount : String
  /-- The other wallet. -/
  counterAccount : String
  /-- The pair as a string. -/
  assetPair : String
  /-- The ledger, in schemas that have one. -/
  ledgerSequence : Option ℤ := none
  /-- The trade id. -/
  tradeId : Option String := none
  deriving DecidableEq

/-- A message of the partition. -/
structure KafkaMessage (Value : Type*) where
  /-- Its place in the partition. -/
  offset : ℕ
  /-- The encoded record. -/
  value : Value
  deriving DecidableEq

/-- An alert handed to `AlertDispatcher.dispatch`. -/
structure Alert (Score : Type*) where
  /-- The scored wallet. -/
  wallet : String
  /-- Its score. -/
  score : Score
  /-- The pair of the trade that caused it. -/
  pairId : String
  deriving DecidableEq

/-- What happens when one wallet of a trade is scored. -/
structure WalletOutcome (Score : Type*) where
  /-- `score_wallet` raises, or returns a score or `None`. -/
  score : Except String (Option Score)
  /-- The text of what `dispatch` raises, if it does. -/
  dispatch : Option String := none
  /-- The text of what `record_score` raises, if it does. -/
  recordScore : Option String := none

/-- Nothing raises while the wallet is scored. -/
def WalletOutcome.clean (outcome : WalletOutcome Score) : Bool :=
  match outcome.score with
  | .error _ => false
  | .ok none => true
  | .ok (some _) => outcome.dispatch.isNone && outcome.recordScore.isNone

/-- What the environment decides about one attempt at a message: the exceptions that the
called components raise and the replies of Redis and of the Kafka broker. -/
structure Attempt (Score : Type*) where
  /-- `SET NX` of the dedup key. -/
  claim : RedisInput
  /-- `GET` of the dedup key. -/
  read : RedisInput
  /-- `record_to_trade` and `FeatureBuffer.update`. -/
  update : Option String := none
  /-- The base account's scoring. -/
  base : WalletOutcome Score
  /-- The counter account's scoring. -/
  counter : WalletOutcome Score
  /-- `SET committed` of the dedup key. -/
  dedupCommit : RedisInput
  /-- The synchronous offset commit. -/
  offsetCommit : Option String := none
  /-- Producing to the dead-letter topic, whose failure is swallowed. -/
  deadLetterProduce : Option String := none

/-- `KafkaWorker` with its `BackPressureController`, for one partition. -/
structure KafkaWorker (Value : Type*) where
  /-- The partition's topic. -/
  topic : String
  /-- `deserialize` followed by `validate`. -/
  decode : Value → Except String TradeRecord
  /-- The worker's dead-letter queue topic. -/
  dlqTopic : String
  /-- `config.KAFKA_DEAD_LETTER_TOPIC`. -/
  deadLetterTopic : String
  /-- The dedup keys' time to live. -/
  dedupTtlSeconds : ℚ
  /-- Whether there is a `BackPressureController`. -/
  enableBackpressure : Bool := true
  /-- The depth at which the partition is paused. -/
  hwm : ℕ
  /-- The depth at which it is resumed. -/
  lwm : ℕ
  /-- Failures before a message goes to the dead-letter topic. -/
  maxRetries : ℕ

/-- The worker's memory and everything outside that it writes to. -/
structure WorkerState (Value Score : Type*) where
  /-- `_in_flight` of the partition. -/
  inFlight : ℕ := 0
  /-- Whether the partition is paused. -/
  paused : Bool := false
  /-- `_retry_counts` by offset. -/
  retryCounts : ℕ → ℕ := fun _ => 0
  /-- The Redis server of the dedup cache. -/
  redis : Redis
  /-- The alerts dispatched so far. -/
  alerts : List (Alert Score) := []
  /-- What was produced to the dead-letter topic, with the reason header. -/
  deadLetters : List (KafkaMessage Value × String) := []
  /-- The consumer group's committed offset. -/
  committed : ℕ := 0

/-- How a message was dealt with for good. -/
inductive Disposition where
  /-- It is on a dead-letter topic, which is never processed. -/
  | deadLetter
  /-- It does not decode. -/
  | poison
  /-- Its dedup key was committed before. -/
  | duplicate
  /-- Both wallets were scored and alerted and its dedup key is committed. -/
  | processed
  deriving DecidableEq, Repr

/-- The end of an attempt: the state, how the message was dealt with if it was, and the
exception that left `process_message` if one did. -/
structure AttemptResult (Value Score : Type*) where
  /-- The state afterwards. -/
  state : WorkerState Value Score
  /-- How the message was dealt with. -/
  settled : Option Disposition
  /-- The exception. -/
  error : Option String

/-- The dedup backend of `DeduplicationCache`. -/
def kafkaDedup : RedisExactlyOnceBackend := { keyPrefix := "ledgerlens:kafka_dedup:" }

/-- `DeduplicationCache._key` of a record: the ledger sequence defaults to the offset and
the trade id to the empty string. -/
def dedupKey (msg : KafkaMessage Value) (record : TradeRecord) : DedupKey :=
  ⟨"kafka_trade", toString (record.ledgerSequence.getD msg.offset) ++ ":" ++
    record.tradeId.getD "", none⟩

namespace KafkaWorker

/-- `BackPressureController.check_and_apply` at the present depth. -/
def checkAndApply (w : KafkaWorker Value) (s : WorkerState Value Score) :
    WorkerState Value Score :=
  if !w.enableBackpressure then s
  else if w.hwm ≤ s.inFlight ∧ s.paused = false then { s with paused := true }
  else if s.inFlight ≤ w.lwm ∧ s.paused = true then { s with paused := false }
  else s

/-- A message is taken in. -/
def enter (w : KafkaWorker Value) (s : WorkerState Value Score) : WorkerState Value Score :=
  w.checkAndApply { s with inFlight := s.inFlight + 1 }

/-- A message is let go; the count never goes below zero. -/
def leave (s : WorkerState Value Score) : WorkerState Value Score :=
  { s with inFlight := s.inFlight - 1 }

/-- `BackPressureController.record_failure`. -/
def recordFailure (w : KafkaWorker Value) (attempt : Attempt Score) (msg : KafkaMessage Value)
    (reason : String) (s : WorkerState Value Score) : WorkerState Value Score :=
  if !w.enableBackpressure then s
  else if w.maxRetries < s.retryCounts msg.offset + 1 then
    { s with
      retryCounts := Function.update s.retryCounts msg.offset 0
      deadLetters := match attempt.deadLetterProduce with
        | none => s.deadLetters ++ [(msg, reason)]
        | some _ => s.deadLetters }
  else
    { s with
      retryCounts := Function.update s.retryCounts msg.offset (s.retryCounts msg.offset + 1) }

/-- The synchronous offset commit, after which `after` runs; when it raises, nothing else
runs. -/
def commitOffset (attempt : Attempt Score) (msg : KafkaMessage Value) (settled : Disposition)
    (after : WorkerState Value Score → WorkerState Value Score) (s : WorkerState Value Score) :
    AttemptResult Value Score :=
  match attempt.offsetCommit with
  | some reason => ⟨s, some settled, some reason⟩
  | none => ⟨after { s with committed := msg.offset + 1 }, some settled, none⟩

/-- The loop over the wallets of a trade, up to the first exception. -/
def scoreWallets (pairId : String) : List (String × WalletOutcome Score) →
    WorkerState Value Score → WorkerState Value Score × Option String
  | [], s => (s, none)
  | (wallet, outcome) :: rest, s =>
    match outcome.score with
    | .error reason => (s, some reason)
    | .ok none => scoreWallets pairId rest s
    | .ok (some score) =>
      match outcome.dispatch with
      | some reason => (s, some reason)
      | none =>
        match outcome.recordScore with
        | some reason => ({ s with alerts := s.alerts ++ [⟨wallet, score, pairId⟩] }, some reason)
        | none =>
          scoreWallets pairId rest { s with alerts := s.alerts ++ [⟨wallet, score, pairId⟩] }

/-- The part after the dedup check has said that the message must be processed. -/
def processStaged (w : KafkaWorker Value) (attempt : Attempt Score) (msg : KafkaMessage Value)
    (record : TradeRecord) (s : WorkerState Value Score) : AttemptResult Value Score :=
  match attempt.update with
  | some reason => ⟨s, none, some reason⟩
  | none =>
    match scoreWallets record.assetPair
        [(record.baseAccount, attempt.base), (record.counterAccount, attempt.counter)] s with
    | (s, some reason) => ⟨s, none, some reason⟩
    | (s, none) =>
      match kafkaDedup.commit (dedupKey msg record) attempt.dedupCommit s.redis with
      | .error e => ⟨leave s, none, some e.reason⟩
      | .ok redis =>
        commitOffset attempt msg .processed (fun s => w.checkAndApply (leave s))
          { s with redis := redis }

/-- `_process_correlated_message`. -/
def processMessage (w : KafkaWorker Value) (attempt : Attempt Score) (msg : KafkaMessage Value)
    (s : WorkerState Value Score) : AttemptResult Value Score :=
  if w.topic = w.dlqTopic ∨ w.topic = w.deadLetterTopic then
    commitOffset attempt msg .deadLetter id s
  else
    match w.decode msg.value with
    | .error reason =>
      commitOffset attempt msg .poison leave (w.recordFailure attempt msg reason (w.enter s))
    | .ok record =>
      match kafkaDedup.checkAndStage (dedupKey msg record) w.dedupTtlSeconds attempt.claim
          attempt.read s.redis with
      | (redis, .error e) => ⟨leave { w.enter s with redis := redis }, none, some e.reason⟩
      | (redis, .ok .committed) =>
        commitOffset attempt msg .duplicate leave { w.enter s with redis := redis }
      | (redis, .ok _) => w.processStaged attempt msg record { w.enter s with redis := redis }

variable {w : KafkaWorker Value} {attempt : Attempt Score} {msg : KafkaMessage Value}
  {s : WorkerState Value Score}

@[simp] theorem checkAndApply_committed : (w.checkAndApply s).committed = s.committed := by
  unfold checkAndApply
  split_ifs <;> rfl

@[simp] theorem enter_committed : (w.enter s).committed = s.committed := by simp [enter]

@[simp] theorem leave_committed : (leave s).committed = s.committed := rfl

@[simp] theorem recordFailure_committed {reason : String} :
    (w.recordFailure attempt msg reason s).committed = s.committed := by
  unfold recordFailure
  split_ifs <;> rfl

@[simp] theorem scoreWallets_committed (pairId : String)
    (wallets : List (String × WalletOutcome Score)) :
    (scoreWallets pairId wallets s).1.committed = s.committed := by
  induction wallets generalizing s with
  | nil => rfl
  | cons wo rest ih =>
    obtain ⟨wallet, outcome⟩ := wo
    unfold scoreWallets
    split
    · rfl
    · exact ih
    · split
      · rfl
      · split
        · rfl
        · exact ih

/-- The loop over the wallets gets through exactly when no wallet's scoring raises. -/
theorem scoreWallets_eq_none_iff (pairId : String) (wallets : List (String × WalletOutcome Score)) :
    (scoreWallets pairId wallets s).2 = none ↔ wallets.all (fun wo => wo.2.clean) := by
  induction wallets generalizing s with
  | nil => simp [scoreWallets]
  | cons wo rest ih =>
    obtain ⟨wallet, outcome⟩ := wo
    rw [List.all_cons, Bool.and_eq_true, WalletOutcome.clean, scoreWallets]
    rcases hscore : outcome.score with reason | _ | score
    · simp
    · simpa using ih
    · cases outcome.dispatch with
      | some reason => simp
      | none =>
        cases outcome.recordScore with
        | some reason => simp
        | none => simpa using ih

/-- The attempt commits the message's offset: nothing on its way raises. -/
def succeeds (w : KafkaWorker Value) (attempt : Attempt Score) (msg : KafkaMessage Value)
    (s : WorkerState Value Score) : Bool :=
  attempt.offsetCommit.isNone &&
    (decide (w.topic = w.dlqTopic ∨ w.topic = w.deadLetterTopic) ||
      match w.decode msg.value with
      | .error _ => true
      | .ok record =>
        match (kafkaDedup.checkAndStage (dedupKey msg record) w.dedupTtlSeconds attempt.claim
          attempt.read s.redis).2 with
        | .error _ => false
        | .ok .committed => true
        | .ok _ => attempt.update.isNone && attempt.base.clean && attempt.counter.clean &&
            attempt.dedupCommit.outage.isNone)

/-- An attempt that went through: it says how the message was dealt with, and the offset
after the message is committed. -/
structure Advanced (msg : KafkaMessage Value) (result : AttemptResult Value Score) : Prop where
  /-- The message was dealt with. -/
  settled : result.settled ≠ none
  /-- The next offset is committed. -/
  committed : result.state.committed = msg.offset + 1
  /-- Nothing was raised. -/
  error : result.error = none

/-- An attempt that raised: the committed offset is what it was. -/
structure Raised (s : WorkerState Value Score) (result : AttemptResult Value Score) : Prop where
  /-- The committed offset did not move. -/
  committed : result.state.committed = s.committed
  /-- Something was raised. -/
  error : result.error ≠ none

/-- How an attempt ends that succeeds or not. -/
def Ends (ok : Bool) (s : WorkerState Value Score) (msg : KafkaMessage Value)
    (result : AttemptResult Value Score) : Prop :=
  if ok then Advanced msg result else Raised s result

@[simp] theorem ends_true {result : AttemptResult Value Score} :
    Ends true s msg result ↔ Advanced msg result := by simp [Ends]

@[simp] theorem ends_false {result : AttemptResult Value Score} :
    Ends false s msg result ↔ Raised s result := by simp [Ends]

/-- The offset commit settles the attempt. -/
theorem commitOffset_ends {settled : Disposition} {s' : WorkerState Value Score}
    {after : WorkerState Value Score → WorkerState Value Score}
    (hafter : ∀ s, (after s).committed = s.committed) (hs : s'.committed = s.committed) :
    Ends attempt.offsetCommit.isNone s msg (commitOffset attempt msg settled after s') := by
  unfold commitOffset
  cases attempt.offsetCommit with
  | some reason =>
    rw [Option.isNone_some, ends_false]
    exact ⟨hs, by simp⟩
  | none =>
    rw [Option.isNone_none, ends_true]
    exact ⟨by simp, by simp [hafter], rfl⟩

/-- After the dedup check the message goes through exactly when nothing raises. -/
theorem processStaged_ends {record : TradeRecord} {s' : WorkerState Value Score}
    (hs : s'.committed = s.committed) :
    Ends (attempt.offsetCommit.isNone && (attempt.update.isNone && attempt.base.clean &&
        attempt.counter.clean && attempt.dedupCommit.outage.isNone))
      s msg (w.processStaged attempt msg record s') := by
  unfold processStaged
  cases attempt.update with
  | some reason =>
    simp only [Option.isNone_some, Bool.false_and, Bool.and_false, ends_false]
    exact ⟨hs, by simp⟩
  | none =>
    let wallets := [(record.baseAccount, attempt.base), (record.counterAccount, attempt.counter)]
    have hclean := scoreWallets_eq_none_iff (s := s') record.assetPair wallets
    have hcommitted := scoreWallets_committed (s := s') record.assetPair wallets
    have hall : wallets.all (fun wo => wo.2.clean) =
        (attempt.base.clean && attempt.counter.clean) := by simp [wallets]
    rw [hall] at hclean
    change Ends _ s msg (match scoreWallets record.assetPair wallets s' with
      | (s, some reason) => ⟨s, none, some reason⟩
      | (s, none) => _)
    rcases hscored : scoreWallets record.assetPair wallets s' with ⟨s'', _ | reason⟩ <;>
      rw [hscored] at hclean hcommitted
    · have hwallets : (attempt.base.clean && attempt.counter.clean) = true := hclean.mp rfl
      simp only [Option.isNone_none, Bool.true_and, hwallets]
      cases hout : attempt.dedupCommit.outage with
      | some reason =>
        simp only [RedisExactlyOnceBackend.commit, hout, Option.isNone_some, Bool.and_false,
          ends_false]
        exact ⟨hcommitted.trans hs, by simp⟩
      | none =>
        simp only [RedisExactlyOnceBackend.commit_of_reachable hout, Option.isNone_none,
          Bool.and_true]
        exact commitOffset_ends (by simp) (hcommitted.trans hs)
    · have hwallets : (attempt.base.clean && attempt.counter.clean) = false := by
        rw [← Bool.not_eq_true, ← hclean]
        exact Option.some_ne_none reason
      simp only [Option.isNone_none, Bool.true_and, hwallets, Bool.false_and, Bool.and_false,
        ends_false]
      exact ⟨hcommitted.trans hs, by simp⟩

/-- An attempt goes through exactly when nothing on its way raises; then the offset after
the message is committed, and otherwise the committed offset does not move. -/
theorem processMessage_ends (w : KafkaWorker Value) (attempt : Attempt Score)
    (msg : KafkaMessage Value) (s : WorkerState Value Score) :
    Ends (w.succeeds attempt msg s) s msg (w.processMessage attempt msg s) := by
  unfold succeeds processMessage
  by_cases htopic : w.topic = w.dlqTopic ∨ w.topic = w.deadLetterTopic
  · rw [if_pos htopic, decide_eq_true htopic, Bool.true_or, Bool.and_true]
    exact commitOffset_ends (fun _ => rfl) rfl
  · rw [if_neg htopic, decide_eq_false htopic, Bool.false_or]
    cases w.decode msg.value with
    | error reason =>
      rw [Bool.and_true]
      exact commitOffset_ends (fun _ => rfl) (by simp)
    | ok record =>
      dsimp only
      rcases kafkaDedup.checkAndStage (dedupKey msg record) w.dedupTtlSeconds attempt.claim
        attempt.read s.redis with ⟨redis, e | state⟩
      · rw [Bool.and_false, ends_false]
        exact ⟨by simp, by simp⟩
      · cases state with
        | committed =>
          rw [Bool.and_true]
          exact commitOffset_ends (fun _ => rfl) (by simp)
        | new | staged | failed | ttlExpiredReverify => exact processStaged_ends (by simp)

@[simp] theorem checkAndApply_alerts : (w.checkAndApply s).alerts = s.alerts := by
  unfold checkAndApply
  split_ifs <;> rfl

@[simp] theorem enter_alerts : (w.enter s).alerts = s.alerts := by simp [enter]

theorem commitOffset_settled {settled : Disposition}
    {after : WorkerState Value Score → WorkerState Value Score} :
    (commitOffset attempt msg settled after s).settled = some settled := by
  unfold commitOffset
  cases attempt.offsetCommit <;> rfl

end KafkaWorker

end LedgerLens.Streaming
