import LedgerLens.Streaming.OffsetCommits

/-!
# Back-pressure

The worker counts the messages it is processing for each partition, pauses a partition at
the high-water mark and resumes it at the low-water mark. A message is processed in one
call, so each call should leave the count as it was. This file follows the count and the
pause through every way in which a call is left, over all partitions of a worker.
-/

namespace LedgerLens.Streaming

open ExactlyOnce Transition

variable {Value Score : Type*}

/-- How a call of `_process_correlated_message` is left, as far as back-pressure goes. -/
inductive Exit where
  /-- Before the message is counted. -/
  | ignored
  /-- With the message counted off. -/
  | released
  /-- With the message counted off and the pause checked again. -/
  | drained
  /-- With the message still counted. -/
  | leaked
  deriving DecidableEq, Repr

/-- The count after such an exit. -/
def Exit.depth (inFlight : ℕ) : Exit → ℕ
  | .leaked => inFlight + 1
  | .ignored => inFlight
  | .released => inFlight
  | .drained => inFlight

namespace KafkaWorker

/-- Whether a partition is paused after `check_and_apply` at a given depth. -/
def pausedAt (w : KafkaWorker Value) (depth : ℕ) (paused : Bool) : Bool :=
  if !w.enableBackpressure then paused
  else if w.hwm ≤ depth ∧ paused = false then true
  else if depth ≤ w.lwm ∧ paused = true then false
  else paused

/-- Whether it is paused after a call that is left in a given way. -/
def pausedBy (w : KafkaWorker Value) (inFlight : ℕ) (paused : Bool) : Exit → Bool
  | .ignored => paused
  | .released => w.pausedAt (inFlight + 1) paused
  | .drained => w.pausedAt inFlight (w.pausedAt (inFlight + 1) paused)
  | .leaked => w.pausedAt (inFlight + 1) paused

/-- An offset commit that raises leaves the message counted. -/
def exitAfterCommit (attempt : Attempt Score) (exit : Exit) : Exit :=
  match attempt.offsetCommit with
  | some _ => .leaked
  | none => exit

/-- The way in which a message that must be processed leaves the call. -/
def exitOfStaged (attempt : Attempt Score) : Exit :=
  if attempt.update.isNone && (attempt.base.clean && attempt.counter.clean) then
    match attempt.dedupCommit.outage with
    | some _ => .released
    | none => exitAfterCommit attempt .drained
  else .leaked

/-- The way in which a message leaves the call, from what it is and what raises. -/
def exit (w : KafkaWorker Value) (attempt : Attempt Score) (msg : KafkaMessage Value)
    (redis : Redis) : Exit :=
  if w.topic = w.dlqTopic ∨ w.topic = w.deadLetterTopic then .ignored
  else
    match w.decode msg.value with
    | .error _ => exitAfterCommit attempt .released
    | .ok record =>
      match (kafkaDedup.checkAndStage (dedupKey msg record) w.dedupTtlSeconds attempt.claim
          attempt.read redis).2 with
      | .error _ => .released
      | .ok .committed => exitAfterCommit attempt .released
      | .ok _ => exitOfStaged attempt

/-- The count and the pause after a call that is left in a given way. -/
structure LeftBy (w : KafkaWorker Value) (exit : Exit) (s s' : WorkerState Value Score) :
    Prop where
  /-- The count. -/
  inFlight : s'.inFlight = exit.depth s.inFlight
  /-- The pause. -/
  paused : s'.paused = w.pausedBy s.inFlight s.paused exit

variable {w : KafkaWorker Value} {attempt : Attempt Score} {msg : KafkaMessage Value}
  {s s' : WorkerState Value Score}

@[simp] theorem checkAndApply_inFlight : (w.checkAndApply s).inFlight = s.inFlight := by
  unfold checkAndApply
  split_ifs <;> rfl

@[simp] theorem checkAndApply_paused :
    (w.checkAndApply s).paused = w.pausedAt s.inFlight s.paused := by
  unfold checkAndApply pausedAt
  split_ifs <;> rfl

@[simp] theorem enter_inFlight : (w.enter s).inFlight = s.inFlight + 1 := by simp [enter]

@[simp] theorem enter_paused : (w.enter s).paused = w.pausedAt (s.inFlight + 1) s.paused := by
  simp [enter]

@[simp] theorem leave_inFlight : (leave s).inFlight = s.inFlight - 1 := rfl

@[simp] theorem leave_paused : (leave s).paused = s.paused := rfl

@[simp] theorem recordFailure_inFlight {reason : String} :
    (w.recordFailure attempt msg reason s).inFlight = s.inFlight := by
  unfold recordFailure
  split_ifs <;> rfl

@[simp] theorem recordFailure_paused {reason : String} :
    (w.recordFailure attempt msg reason s).paused = s.paused := by
  unfold recordFailure
  split_ifs <;> rfl

/-- The loop over the wallets does nothing but dispatch alerts. -/
theorem scoreWallets_state (pairId : String) (wallets : List (String × WalletOutcome Score))
    (s : WorkerState Value Score) :
    ∃ alerts, (scoreWallets pairId wallets s).1 = { s with alerts := alerts } := by
  induction wallets generalizing s with
  | nil => exact ⟨s.alerts, rfl⟩
  | cons wo rest ih =>
    obtain ⟨wallet, outcome⟩ := wo
    unfold scoreWallets
    rcases outcome.score with reason | _ | score
    · exact ⟨s.alerts, rfl⟩
    · exact ih s
    · cases outcome.dispatch with
      | some reason => exact ⟨s.alerts, rfl⟩
      | none =>
        cases outcome.recordScore with
        | some reason => exact ⟨_, rfl⟩
        | none => exact ih _

/-- Counted, and counted off again by the offset commit unless that raises. -/
theorem commitOffset_leftBy {settled : Disposition} {entered : WorkerState Value Score}
    (hdepth : entered.inFlight = s.inFlight + 1)
    (hpaused : entered.paused = w.pausedAt (s.inFlight + 1) s.paused) :
    w.LeftBy (exitAfterCommit attempt .released) s
      (commitOffset attempt msg settled leave entered).state := by
  unfold exitAfterCommit commitOffset
  cases attempt.offsetCommit with
  | some _ => exact ⟨hdepth, hpaused⟩
  | none => exact ⟨by simp [hdepth, Exit.depth], hpaused⟩

/-- After the dedup check. -/
theorem processStaged_leftBy {record : TradeRecord} {entered : WorkerState Value Score}
    (hdepth : entered.inFlight = s.inFlight + 1)
    (hpaused : entered.paused = w.pausedAt (s.inFlight + 1) s.paused) :
    w.LeftBy (exitOfStaged attempt) s (w.processStaged attempt msg record entered).state := by
  let wallets := [(record.baseAccount, attempt.base), (record.counterAccount, attempt.counter)]
  have hall : wallets.all (fun wo => wo.2.clean) =
      (attempt.base.clean && attempt.counter.clean) := by simp [wallets]
  have hclean := scoreWallets_eq_none_iff (s := entered) record.assetPair wallets
  obtain ⟨alerts, hscored⟩ := scoreWallets_state record.assetPair wallets entered
  rw [hall] at hclean
  unfold exitOfStaged processStaged
  cases attempt.update with
  | some _ => exact ⟨hdepth, hpaused⟩
  | none =>
    have hwallets : wallets = [(record.baseAccount, attempt.base),
      (record.counterAccount, attempt.counter)] := rfl
    rw [← hwallets]
    dsimp only
    rcases hresult : scoreWallets record.assetPair wallets entered with ⟨s'', _ | reason⟩ <;>
      rw [hresult] at hclean hscored
    · rw [Option.isNone_none, Bool.true_and, if_pos (hclean.mp rfl)]
      dsimp only at hscored ⊢
      subst hscored
      cases hout : attempt.dedupCommit.outage with
      | some _ =>
        simp only [RedisExactlyOnceBackend.commit, hout]
        exact ⟨by simp [hdepth, Exit.depth], hpaused⟩
      | none =>
        simp only [RedisExactlyOnceBackend.commit_of_reachable hout, exitAfterCommit, commitOffset]
        cases attempt.offsetCommit with
        | some _ => exact ⟨hdepth, hpaused⟩
        | none => exact ⟨by simp [hdepth, Exit.depth], by simp [hdepth, hpaused, pausedBy]⟩
    · have hdirty : ¬(attempt.base.clean && attempt.counter.clean) = true := by
        rw [← hclean]
        exact Option.some_ne_none reason
      rw [Option.isNone_none, Bool.true_and, if_neg hdirty]
      dsimp only at hscored ⊢
      subst hscored
      exact ⟨hdepth, hpaused⟩

/-- A call leaves the count and the pause as its exit says. -/
theorem processMessage_leftBy (w : KafkaWorker Value) (attempt : Attempt Score)
    (msg : KafkaMessage Value) (s : WorkerState Value Score) :
    w.LeftBy (w.exit attempt msg s.redis) s (w.processMessage attempt msg s).state := by
  unfold exit processMessage
  by_cases htopic : w.topic = w.dlqTopic ∨ w.topic = w.deadLetterTopic
  · rw [if_pos htopic, if_pos htopic]
    unfold commitOffset
    cases attempt.offsetCommit <;> exact ⟨rfl, rfl⟩
  · rw [if_neg htopic, if_neg htopic]
    cases w.decode msg.value with
    | error reason => exact commitOffset_leftBy (by simp) (by simp)
    | ok record =>
      dsimp only
      rcases kafkaDedup.checkAndStage (dedupKey msg record) w.dedupTtlSeconds attempt.claim
        attempt.read s.redis with ⟨redis, e | state⟩
      · exact ⟨by simp [Exit.depth], by simp [pausedBy]⟩
      · cases state with
        | committed => exact commitOffset_leftBy (by simp) (by simp)
        | new | staged | failed | ttlExpiredReverify =>
          exact processStaged_leftBy (by simp) (by simp)

end KafkaWorker

/-- A topic and one of its partitions. -/
abbrev TopicPartition := String × ℕ

/-- A partition's entries in the dictionaries of the worker and of its
`BackPressureController`, and its committed offset. -/
structure PartitionEntries where
  /-- `_in_flight`. -/
  inFlight : ℕ := 0
  /-- Whether it is in `_paused`. -/
  paused : Bool := false
  /-- `_retry_counts` by offset. -/
  retryCounts : ℕ → ℕ := fun _ => 0
  /-- The consumer group's committed offset. -/
  committed : ℕ := 0

/-- A worker that serves any number of partitions. -/
structure PartitionsState (Value Score : Type*) where
  /-- The entries of each partition. -/
  entries : TopicPartition → PartitionEntries := fun _ => {}
  /-- The Redis server of the dedup cache. -/
  redis : Redis
  /-- The alerts dispatched so far. -/
  alerts : List (Alert Score) := []
  /-- What was produced to the dead-letter topic, with the reason header. -/
  deadLetters : List (KafkaMessage Value × String) := []

/-- A message of some partition and what happens when it is handled. -/
structure PartitionDelivery (Value Score : Type*) where
  /-- Its partition. -/
  partition : TopicPartition
  /-- The message. -/
  msg : KafkaMessage Value
  /-- What the called components do. -/
  attempt : Attempt Score

namespace PartitionsState

/-- What a call for one partition sees. -/
def view (s : PartitionsState Value Score) (tp : TopicPartition) : WorkerState Value Score where
  inFlight := (s.entries tp).inFlight
  paused := (s.entries tp).paused
  retryCounts := (s.entries tp).retryCounts
  redis := s.redis
  alerts := s.alerts
  deadLetters := s.deadLetters
  committed := (s.entries tp).committed

/-- What such a call leaves behind. -/
def put (s : PartitionsState Value Score) (tp : TopicPartition) (v : WorkerState Value Score) :
    PartitionsState Value Score where
  entries := Function.update s.entries tp ⟨v.inFlight, v.paused, v.retryCounts, v.committed⟩
  redis := v.redis
  alerts := v.alerts
  deadLetters := v.deadLetters

end PartitionsState

namespace KafkaWorker

/-- The worker as it handles a message of a given topic. -/
def forTopic (w : KafkaWorker Value) (topic : String) : KafkaWorker Value :=
  { w with topic := topic }

/-- `process_message` for a message of any partition. -/
def handle (w : KafkaWorker Value) (s : PartitionsState Value Score)
    (d : PartitionDelivery Value Score) : PartitionsState Value Score :=
  s.put d.partition
    ((w.forTopic d.partition.1).processMessage d.attempt d.msg (s.view d.partition)).state

/-- A call leaves every count as it was, and no partition paused whose count is at or below
the low-water mark. -/
def Restores (w : KafkaWorker Value) (s : PartitionsState Value Score)
    (d : PartitionDelivery Value Score) : Prop :=
  (∀ tp, ((w.handle s d).entries tp).inFlight = (s.entries tp).inFlight) ∧
    ∀ tp, ((w.handle s d).entries tp).inFlight ≤ w.lwm →
      ((w.handle s d).entries tp).paused = false

/-- A message is not left counted: the offset commit, the record's conversion, scoring,
dispatch and `record_score` do not raise where they are reached. And if the call does not
get to the end, counting the message did not take the depth from the low-water mark or below
to the high-water mark or above. -/
def CountedOff (w : KafkaWorker Value) (s : PartitionsState Value Score)
    (d : PartitionDelivery Value Score) : Prop :=
  match (w.forTopic d.partition.1).exit d.attempt d.msg s.redis with
  | .ignored => True
  | .drained => True
  | .released => w.enableBackpressure = true → (s.entries d.partition).inFlight ≤ w.lwm →
      (s.entries d.partition).inFlight + 1 < w.hwm
  | .leaked => False

/-- No partition is paused whose count is at or below the low-water mark. -/
def Flowing (w : KafkaWorker Value) (s : PartitionsState Value Score) : Prop :=
  ∀ tp, (s.entries tp).inFlight ≤ w.lwm → (s.entries tp).paused = false

section Calls

variable {w : KafkaWorker Value} {s : PartitionsState Value Score}
  {d : PartitionDelivery Value Score} {depth : ℕ}

/-- A call does not touch other partitions. -/
theorem handle_of_ne {tp : TopicPartition} (h : tp ≠ d.partition) :
    (w.handle s d).entries tp = s.entries tp := by
  simp [handle, PartitionsState.put, h]

/-- What a call does to its own partition. -/
theorem handle_inFlight : ((w.handle s d).entries d.partition).inFlight =
    ((w.forTopic d.partition.1).exit d.attempt d.msg s.redis).depth
      (s.entries d.partition).inFlight := by
  have hleft := processMessage_leftBy (w.forTopic d.partition.1) d.attempt d.msg
    (s.view d.partition)
  simp only [handle, PartitionsState.put, Function.update_self]
  exact hleft.inFlight

theorem handle_paused : ((w.handle s d).entries d.partition).paused =
    w.pausedBy (s.entries d.partition).inFlight (s.entries d.partition).paused
      ((w.forTopic d.partition.1).exit d.attempt d.msg s.redis) := by
  have hleft := processMessage_leftBy (w.forTopic d.partition.1) d.attempt d.msg
    (s.view d.partition)
  simp only [handle, PartitionsState.put, Function.update_self]
  exact hleft.paused

/-- A partition that flows is paused exactly at the high-water mark. -/
theorem pausedAt_false :
    w.pausedAt depth false = (w.enableBackpressure && decide (w.hwm ≤ depth)) := by
  unfold pausedAt
  cases w.enableBackpressure <;> simp

/-- A partition that flowed before a message was counted flows after it has been drained. -/
theorem pausedAt_drained (h : depth ≤ w.lwm) :
    w.pausedAt depth (w.pausedAt (depth + 1) false) = false := by
  rw [pausedAt_false]
  by_cases hhigh : w.hwm ≤ depth + 1
  · cases henabled : w.enableBackpressure <;> simp [pausedAt, henabled, hhigh, h]
  · have hlow : ¬w.hwm ≤ depth := by omega
    simp [hhigh, pausedAt_false, hlow]

/-- The condition is exactly what makes a call restore the counts and the pauses. -/
theorem restores_iff (hs : w.Flowing s) : w.Restores s d ↔ w.CountedOff s d := by
  have hothers : ∀ tp, tp ≠ d.partition → ((w.handle s d).entries tp).inFlight ≤ w.lwm →
      ((w.handle s d).entries tp).paused = false := by
    intro tp hne
    rw [handle_of_ne hne]
    exact hs tp
  have hown : w.Restores s d ↔
      ((w.handle s d).entries d.partition).inFlight = (s.entries d.partition).inFlight ∧
      (((w.handle s d).entries d.partition).inFlight ≤ w.lwm →
        ((w.handle s d).entries d.partition).paused = false) := by
    constructor
    · rintro ⟨hcounts, hpauses⟩
      exact ⟨hcounts d.partition, hpauses d.partition⟩
    · rintro ⟨hcount, hpause⟩
      refine ⟨fun tp => ?_, fun tp => ?_⟩ <;> by_cases htp : tp = d.partition
      · rwa [htp]
      · rw [handle_of_ne htp]
      · rwa [htp]
      · exact hothers tp htp
  rw [hown, handle_inFlight, handle_paused]
  unfold CountedOff
  cases (w.forTopic d.partition.1).exit d.attempt d.msg s.redis with
  | ignored => simpa [Exit.depth, pausedBy] using hs d.partition
  | drained =>
    simp only [Exit.depth, pausedBy, true_and, iff_true]
    intro hlow
    rw [hs d.partition hlow]
    exact pausedAt_drained hlow
  | released =>
    simp only [Exit.depth, pausedBy, true_and]
    constructor
    · intro hflows henabled hlow
      have hpaused := hflows hlow
      rw [hs d.partition hlow, pausedAt_false, henabled] at hpaused
      simpa using hpaused
    · intro hquiet hlow
      rw [hs d.partition hlow, pausedAt_false]
      cases henabled : w.enableBackpressure with
      | false => rfl
      | true => simpa using hquiet henabled hlow
  | leaked => simp [Exit.depth]

end Calls

/-- In every run of a worker over any partitions, each call leaves the counts as they were and
no partition paused at or below the low-water mark exactly when each message of the run is
counted off. -/
theorem backpressure_restored_iff (w : KafkaWorker Value) (redis : Redis)
    (ds : List (PartitionDelivery Value Score)) :
    Meets w.handle w.Restores { redis := redis } ds ↔
      Meets w.handle w.CountedOff { redis := redis } ds :=
  meets_iff_meets w.Flowing (fun _ _ hs => restores_iff hs)
    (fun _ _ hs hcond => ((restores_iff hs).mpr hcond).2) (fun _ _ => rfl) ds

/-- A message that stays counted adds one for good, and pauses the partition at the
high-water mark. -/
theorem paused_of_leaks {w : KafkaWorker Value} {s : PartitionsState Value Score}
    {tp : TopicPartition} {ds : List (PartitionDelivery Value Score)}
    (hpartition : ∀ d ∈ ds, d.partition = tp)
    (hleaks : Meets w.handle
      (fun s d => (w.forTopic d.partition.1).exit d.attempt d.msg s.redis = .leaked) s ds) :
    ((exec w.handle s ds).entries tp).inFlight = (s.entries tp).inFlight + ds.length ∧
      (w.enableBackpressure = true → w.lwm < w.hwm → ds ≠ [] →
        w.hwm ≤ (s.entries tp).inFlight + ds.length →
          ((exec w.handle s ds).entries tp).paused = true) := by
  induction ds generalizing s with
  | nil => simp
  | cons d ds ih =>
    obtain ⟨hleak, hrest⟩ := hleaks
    obtain rfl := hpartition d List.mem_cons_self
    have hdepth : ((w.handle s d).entries d.partition).inFlight =
        (s.entries d.partition).inFlight + 1 := by rw [handle_inFlight, hleak]; rfl
    obtain ⟨hcount, hpaused⟩ := ih (fun d' hd' => hpartition d' (List.mem_cons_of_mem _ hd')) hrest
    rw [exec_cons]
    refine ⟨by rw [hcount, hdepth, List.length_cons]; omega, fun henabled hmarks _ hhigh => ?_⟩
    rw [List.length_cons] at hhigh
    by_cases hlast : ds = []
    · subst hlast
      simp only [List.length_nil, Nat.zero_add] at hhigh
      rw [exec_nil, handle_paused, hleak]
      have hlow : ¬(s.entries d.partition).inFlight + 1 ≤ w.lwm := by omega
      cases hwas : (s.entries d.partition).paused <;>
        simp [pausedBy, pausedAt, henabled, hhigh, hlow]
    · refine hpaused henabled hmarks hlast ?_
      rw [hdepth]
      omega

/-- Scoring raises for two messages of a partition that is paused at depth 2. -/
theorem failures_pause_partition :
    let w : KafkaWorker TradeRecord := { plainWorker with hwm := 2, lwm := 1 }
    let tp : TopicPartition := ("ledgerlens.trades.XLM", 0)
    let failing : List (PartitionDelivery TradeRecord ℕ) := twoTrades.log.map fun msg =>
      ⟨tp, msg, attemptWithScore (.error "scorer down")⟩
    ¬Meets w.handle w.Restores { redis := fun _ => none } failing ∧
      ((exec w.handle { redis := fun _ => none } failing).entries tp).paused = true := by
  intro w tp failing
  refine ⟨fun hmeets => ?_, by decide +kernel⟩
  have hcount := hmeets.1.1 tp
  revert hcount
  decide +kernel

end KafkaWorker

end LedgerLens.Streaming
