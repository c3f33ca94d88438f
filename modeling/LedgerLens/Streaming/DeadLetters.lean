import LedgerLens.Streaming.BackPressure
import Mathlib.Data.List.Nodup

/-!
# Dead letters

A message that keeps failing should end on the dead-letter topic. `record_failure` counts the
failures of a message and produces it there, but only a message that does not decode gets to
`record_failure`, and its offset is committed at its first failure. This file follows the
deliveries of every message of a partition, over failures, redeliveries and crashes.
-/

namespace LedgerLens.Streaming

open ExactlyOnce Transition

variable {Value Score : Type*}

/-- A consumer, and how often the processing of each message has failed. -/
structure DeliveryHistory (Value Score : Type*) where
  /-- The worker and its place in the partition. -/
  consumer : ConsumerState Value Score
  /-- The failures by offset. -/
  failures : ℕ → ℕ := fun _ => 0

/-- What can happen next. -/
inductive DeliveryEvent (Score : Type*) where
  /-- A message is polled, the partition is reassigned, or the worker crashes. -/
  | consumer (e : ConsumerEvent Score)
  /-- Others write to the Redis server. -/
  | redis (redis : Redis)

namespace DeliveryHistory

/-- A message has been produced to the dead-letter topic. -/
def DeadLettered (s : DeliveryHistory Value Score) (msg : KafkaMessage Value) : Prop :=
  ∃ reason, (msg, reason) ∈ s.consumer.worker.deadLetters

/-- A message has had its side effects, or is on a dead-letter topic itself. -/
def HasEffects (s : DeliveryHistory Value Score) (msg : KafkaMessage Value) : Prop :=
  ∃ disposition, disposition ≠ .poison ∧ (msg.offset, disposition) ∈ s.consumer.handled

instance [DecidableEq Value] (s : DeliveryHistory Value Score) (msg : KafkaMessage Value) :
    Decidable (s.DeadLettered msg) :=
  decidable_of_iff (∃ entry ∈ s.consumer.worker.deadLetters, entry.1 = msg) (by
    constructor
    · rintro ⟨⟨_, reason⟩, hmem, rfl⟩
      exact ⟨reason, hmem⟩
    · rintro ⟨reason, hmem⟩
      exact ⟨_, hmem, rfl⟩)

instance (s : DeliveryHistory Value Score) (msg : KafkaMessage Value) :
    Decidable (s.HasEffects msg) :=
  decidable_of_iff (∃ entry ∈ s.consumer.handled, entry.2 ≠ .poison ∧ entry.1 = msg.offset) (by
    constructor
    · rintro ⟨⟨_, disposition⟩, hmem, hne, rfl⟩
      exact ⟨disposition, hne, hmem⟩
    · rintro ⟨disposition, hne, hmem⟩
      exact ⟨_, hmem, hne, rfl⟩)

/-- A consumer group without commits, whose worker has just started. -/
def start (redis : Redis) : DeliveryHistory Value Score where
  consumer := ConsumerState.start redis

end DeliveryHistory

/-- Messages of a partition with the same offset are the same. -/
theorem Partition.eq_of_offset {partition : Partition Value} {m msg : KafkaMessage Value}
    (hm : m ∈ partition.log) (hmsg : msg ∈ partition.log) (h : m.offset = msg.offset) :
    m = msg := by
  have hnodup : (partition.log.map KafkaMessage.offset).Nodup :=
    List.pairwise_map.mpr (partition.sorted.imp Nat.ne_of_lt)
  exact List.inj_on_of_nodup_map hnodup hm hmsg h

namespace KafkaWorker

/-- How a message that must be processed is dealt with, if nothing raises before its dedup
key is committed. -/
def dispositionOfStaged (attempt : Attempt Score) : Option Disposition :=
  if attempt.update.isNone && (attempt.base.clean && attempt.counter.clean) &&
      attempt.dedupCommit.outage.isNone then
    some .processed
  else none

/-- How a message is dealt with, from what it is and what raises. -/
def disposition (w : KafkaWorker Value) (attempt : Attempt Score) (msg : KafkaMessage Value)
    (redis : Redis) : Option Disposition :=
  if w.topic = w.dlqTopic ∨ w.topic = w.deadLetterTopic then some .deadLetter
  else
    match w.decode msg.value with
    | .error _ => some .poison
    | .ok record =>
      match (kafkaDedup.checkAndStage (dedupKey msg record) w.dedupTtlSeconds attempt.claim
          attempt.read redis).2 with
      | .error _ => none
      | .ok .committed => some .duplicate
      | .ok _ => dispositionOfStaged attempt

/-- The processing of a message fails: it does not decode, or something raises before its
side effects are complete. -/
def Fails (w : KafkaWorker Value) (attempt : Attempt Score) (msg : KafkaMessage Value)
    (redis : Redis) : Prop :=
  w.disposition attempt msg redis = none ∨ w.disposition attempt msg redis = some .poison

instance (w : KafkaWorker Value) (attempt : Attempt Score) (msg : KafkaMessage Value)
    (redis : Redis) : Decidable (w.Fails attempt msg redis) :=
  inferInstanceAs (Decidable (_ ∨ _))

/-- `record_failure` produces a message that does not decode to the dead-letter topic. -/
def DeadLetters (w : KafkaWorker Value) (attempt : Attempt Score) (msg : KafkaMessage Value)
    (s : WorkerState Value Score) : Prop :=
  w.disposition attempt msg s.redis = some .poison ∧ w.enableBackpressure = true ∧
    w.maxRetries < s.retryCounts msg.offset + 1 ∧ attempt.deadLetterProduce = none

/-- One event, with the failures counted. -/
def deliver (w : KafkaWorker Value) (partition : Partition Value)
    (s : DeliveryHistory Value Score) : DeliveryEvent Score → DeliveryHistory Value Score
  | .consumer (.poll attempt) =>
    { consumer := w.step partition s.consumer (.poll attempt)
      failures :=
        match partition.next? s.consumer.position with
        | none => s.failures
        | some msg =>
          if w.Fails attempt msg s.consumer.worker.redis then
            Function.update s.failures msg.offset (s.failures msg.offset + 1)
          else s.failures }
  | .consumer e => { s with consumer := w.step partition s.consumer e }
  | .redis redis =>
    { s with consumer := { s.consumer with worker := { s.consumer.worker with redis := redis } } }

/-- Every message of the partition that has failed more than `max_retries` times is on the
dead-letter topic, and so is every message below the committed offset that has not had its
side effects. -/
def FailuresDeadLettered (w : KafkaWorker Value) (partition : Partition Value)
    (s : DeliveryHistory Value Score) : Prop :=
  ∀ msg ∈ partition.log,
    (w.maxRetries < s.failures msg.offset → s.DeadLettered msg) ∧
      (msg.offset < s.consumer.worker.committed → s.HasEffects msg ∨ s.DeadLettered msg)

instance [DecidableEq Value] (w : KafkaWorker Value) (partition : Partition Value) :
    DecidablePred (w.FailuresDeadLettered partition : DeliveryHistory Value Score → Prop) :=
  fun _ => inferInstanceAs (Decidable (∀ msg ∈ partition.log, (_ → _) ∧ (_ → _)))

/-- A delivery that fails once too often, or fails to decode and is committed, puts the message
on the dead-letter topic or finds it there; and an offset commit passes over such messages only
as have had their side effects or are there. -/
def RoutesFailures (w : KafkaWorker Value) (partition : Partition Value)
    (s : DeliveryHistory Value Score) : DeliveryEvent Score → Prop
  | .consumer (.poll attempt) =>
    ∀ msg, partition.next? s.consumer.position = some msg →
      (w.Fails attempt msg s.consumer.worker.redis →
        (w.maxRetries < s.failures msg.offset + 1 ∨
          (∃ reason, w.decode msg.value = .error reason) ∧ attempt.offsetCommit = none) →
        s.DeadLettered msg ∨ w.DeadLetters attempt msg s.consumer.worker) ∧
      (w.succeeds attempt msg s.consumer.worker →
        ∀ m ∈ partition.log, s.consumer.worker.committed ≤ m.offset → m.offset < msg.offset →
          s.HasEffects m ∨ s.DeadLettered m)
  | _ => True

section Attempts

variable {w : KafkaWorker Value} {attempt : Attempt Score} {msg : KafkaMessage Value}
  {s : WorkerState Value Score}

@[simp] theorem checkAndApply_deadLetters :
    (w.checkAndApply s).deadLetters = s.deadLetters := by
  unfold checkAndApply
  split_ifs <;> rfl

@[simp] theorem checkAndApply_retryCounts :
    (w.checkAndApply s).retryCounts = s.retryCounts := by
  unfold checkAndApply
  split_ifs <;> rfl

@[simp] theorem enter_deadLetters : (w.enter s).deadLetters = s.deadLetters := by simp [enter]

@[simp] theorem enter_retryCounts : (w.enter s).retryCounts = s.retryCounts := by simp [enter]

@[simp] theorem leave_deadLetters : (leave s).deadLetters = s.deadLetters := rfl

/-- The offset commit writes no dead letters. -/
theorem commitOffset_deadLetters {settled : Disposition}
    {after : WorkerState Value Score → WorkerState Value Score}
    (hafter : ∀ s, (after s).deadLetters = s.deadLetters) :
    (commitOffset attempt msg settled after s).state.deadLetters = s.deadLetters := by
  unfold commitOffset
  cases attempt.offsetCommit with
  | some _ => rfl
  | none => rw [hafter]

/-- After the dedup check a message is processed unless something raises, and no dead letter
is written. -/
theorem processStaged_deals {record : TradeRecord} :
    (w.processStaged attempt msg record s).settled = dispositionOfStaged attempt ∧
      (w.processStaged attempt msg record s).state.deadLetters = s.deadLetters := by
  let wallets := [(record.baseAccount, attempt.base), (record.counterAccount, attempt.counter)]
  have hall : wallets.all (fun wo => wo.2.clean) =
      (attempt.base.clean && attempt.counter.clean) := by simp [wallets]
  have hclean := scoreWallets_eq_none_iff (s := s) record.assetPair wallets
  obtain ⟨alerts, hscored⟩ := scoreWallets_state record.assetPair wallets s
  rw [hall] at hclean
  unfold processStaged dispositionOfStaged
  cases attempt.update with
  | some _ => exact ⟨rfl, rfl⟩
  | none =>
    have hwallets : wallets = [(record.baseAccount, attempt.base),
      (record.counterAccount, attempt.counter)] := rfl
    rw [← hwallets]
    dsimp only
    rcases hresult : scoreWallets record.assetPair wallets s with ⟨s'', _ | reason⟩ <;>
      rw [hresult] at hclean hscored
    · rw [hclean.mp rfl]
      dsimp only at hscored ⊢
      subst hscored
      cases hout : attempt.dedupCommit.outage with
      | some _ =>
        simp only [RedisExactlyOnceBackend.commit, hout]
        exact ⟨rfl, rfl⟩
      | none =>
        simp only [RedisExactlyOnceBackend.commit_of_reachable hout]
        exact ⟨commitOffset_settled, commitOffset_deadLetters (by simp)⟩
    · have hdirty : (attempt.base.clean && attempt.counter.clean) = false := by
        rw [← Bool.not_eq_true, ← hclean]
        exact Option.some_ne_none reason
      rw [hdirty]
      dsimp only at hscored ⊢
      subst hscored
      exact ⟨rfl, rfl⟩

/-- A message is dealt with as its disposition says. -/
theorem processMessage_settled (w : KafkaWorker Value) (attempt : Attempt Score)
    (msg : KafkaMessage Value) (s : WorkerState Value Score) :
    (w.processMessage attempt msg s).settled = w.disposition attempt msg s.redis := by
  unfold processMessage disposition
  split_ifs
  · exact commitOffset_settled
  · cases w.decode msg.value with
    | error reason => exact commitOffset_settled
    | ok record =>
      dsimp only
      rcases kafkaDedup.checkAndStage (dedupKey msg record) w.dedupTtlSeconds attempt.claim
        attempt.read s.redis with ⟨redis, e | state⟩
      · rfl
      · cases state with
        | committed => exact commitOffset_settled
        | new | staged | failed | ttlExpiredReverify => exact processStaged_deals.1

/-- A message that does not decode is nothing but poison, and the other way round. -/
theorem disposition_eq_poison_iff (attempt : Attempt Score) (msg : KafkaMessage Value)
    (redis : Redis) (htopic : ¬(w.topic = w.dlqTopic ∨ w.topic = w.deadLetterTopic)) :
    w.disposition attempt msg redis = some .poison ↔
      ∃ reason, w.decode msg.value = .error reason := by
  unfold disposition dispositionOfStaged
  rw [if_neg htopic]
  cases w.decode msg.value with
  | error reason => simp
  | ok record =>
    dsimp only
    rcases (kafkaDedup.checkAndStage (dedupKey msg record) w.dedupTtlSeconds attempt.claim
      attempt.read redis).2 with e | state
    · simp
    · cases state with
      | committed => simp
      | new | staged | failed | ttlExpiredReverify =>
        dsimp only
        split_ifs <;> simp

/-- An attempt succeeds when its message is dealt with and the offset commit does not raise. -/
theorem succeeds_eq : w.succeeds attempt msg s =
    (attempt.offsetCommit.isNone && (w.disposition attempt msg s.redis).isSome) := by
  unfold succeeds disposition
  by_cases htopic : w.topic = w.dlqTopic ∨ w.topic = w.deadLetterTopic
  · rw [decide_eq_true htopic, if_pos htopic]
    rfl
  · rw [decide_eq_false htopic, if_neg htopic, Bool.false_or]
    cases w.decode msg.value with
    | error reason => rfl
    | ok record =>
      dsimp only
      rcases (kafkaDedup.checkAndStage (dedupKey msg record) w.dedupTtlSeconds attempt.claim
        attempt.read s.redis).2 with e | state
      · rfl
      · cases state with
        | committed => rfl
        | new | staged | failed | ttlExpiredReverify =>
          have hstaged : (attempt.update.isNone && attempt.base.clean && attempt.counter.clean &&
              attempt.dedupCommit.outage.isNone) = (dispositionOfStaged attempt).isSome := by
            unfold dispositionOfStaged
            rw [Bool.and_assoc attempt.update.isNone]
            split_ifs with hclean
            · exact hclean
            · exact Bool.eq_false_iff.mpr hclean
          rw [hstaged]

/-- What `record_failure` adds to the dead letters. -/
theorem mem_deadLetters_recordFailure {reason : String} {m : KafkaMessage Value} :
    (∃ r, (m, r) ∈ (w.recordFailure attempt msg reason s).deadLetters) ↔
      (∃ r, (m, r) ∈ s.deadLetters) ∨ m = msg ∧ w.enableBackpressure = true ∧
        w.maxRetries < s.retryCounts msg.offset + 1 ∧ attempt.deadLetterProduce = none := by
  unfold recordFailure
  cases w.enableBackpressure with
  | false => simp
  | true =>
    by_cases hretries : w.maxRetries < s.retryCounts msg.offset + 1
    · cases attempt.deadLetterProduce <;> simp [hretries, exists_or]
    · simp [hretries]

/-- An attempt adds its message to the dead letters exactly if `record_failure` does. -/
theorem mem_deadLetters_processMessage {m : KafkaMessage Value} :
    (∃ reason, (m, reason) ∈ (w.processMessage attempt msg s).state.deadLetters) ↔
      (∃ reason, (m, reason) ∈ s.deadLetters) ∨ m = msg ∧ w.DeadLetters attempt msg s := by
  have hsame (h : (w.processMessage attempt msg s).state.deadLetters = s.deadLetters)
      (hnot : w.disposition attempt msg s.redis ≠ some .poison) :
      (∃ reason, (m, reason) ∈ (w.processMessage attempt msg s).state.deadLetters) ↔
        (∃ reason, (m, reason) ∈ s.deadLetters) ∨ m = msg ∧ w.DeadLetters attempt msg s := by
    rw [h]
    simp [DeadLetters, hnot]
  by_cases htopic : w.topic = w.dlqTopic ∨ w.topic = w.deadLetterTopic
  · refine hsame ?_ (by simp [disposition, htopic])
    rw [processMessage, if_pos htopic]
    exact commitOffset_deadLetters fun _ => rfl
  · have hpoison := disposition_eq_poison_iff attempt msg s.redis htopic
    cases hdecode : w.decode msg.value with
    | error reason =>
      have hdisposition := hpoison.mpr ⟨reason, hdecode⟩
      rw [processMessage, if_neg htopic, hdecode]
      dsimp only
      rw [commitOffset_deadLetters fun _ => leave_deadLetters, mem_deadLetters_recordFailure]
      simp [DeadLetters, hdisposition]
    | ok record =>
      refine hsame ?_ (by simp [hpoison, hdecode])
      rw [processMessage, if_neg htopic, hdecode]
      dsimp only
      rcases kafkaDedup.checkAndStage (dedupKey msg record) w.dedupTtlSeconds attempt.claim
        attempt.read s.redis with ⟨redis, e | state⟩
      · simp
      · cases state with
        | committed =>
          rw [commitOffset_deadLetters fun _ => leave_deadLetters]
          exact enter_deadLetters
        | new | staged | failed | ttlExpiredReverify =>
          rw [processStaged_deals.2]
          exact enter_deadLetters

end Attempts

section Deliveries

variable {w : KafkaWorker Value} {partition : Partition Value} {s : DeliveryHistory Value Score}
  {attempt : Attempt Score} {msg m : KafkaMessage Value}

/-- What holds in every state of a run that routes its failures. -/
structure Routed (w : KafkaWorker Value) (partition : Partition Value)
    (s : DeliveryHistory Value Score) : Prop where
  /-- The failures are dead-lettered. -/
  deadLettered : w.FailuresDeadLettered partition s
  /-- What does not decode has no side effects. -/
  poison : ∀ msg ∈ partition.log, ¬(w.topic = w.dlqTopic ∨ w.topic = w.deadLetterTopic) →
    (∃ reason, w.decode msg.value = .error reason) → ¬s.HasEffects msg

/-- A poll that delivers a message, as far as the dead letters, the side effects and the
failures go. -/
theorem deadLettered_poll (hnext : partition.next? s.consumer.position = some msg) :
    (w.deliver partition s (.consumer (.poll attempt))).DeadLettered m ↔
      s.DeadLettered m ∨ m = msg ∧ w.DeadLetters attempt msg s.consumer.worker := by
  unfold DeliveryHistory.DeadLettered
  simp only [deliver, step_poll hnext]
  exact mem_deadLetters_processMessage

theorem hasEffects_poll (hnext : partition.next? s.consumer.position = some msg) :
    (w.deliver partition s (.consumer (.poll attempt))).HasEffects m ↔
      s.HasEffects m ∨ m.offset = msg.offset ∧
        ¬w.Fails attempt msg s.consumer.worker.redis := by
  unfold DeliveryHistory.HasEffects Fails
  simp only [deliver, step_poll hnext, processMessage_settled]
  cases w.disposition attempt msg s.consumer.worker.redis with
  | none => simp
  | some d =>
    simp only [Option.toList_some, List.map_cons, List.map_nil, List.mem_append,
      List.mem_singleton, Prod.mk.injEq, and_or_left, exists_or]
    refine or_congr Iff.rfl ⟨?_, ?_⟩
    · rintro ⟨d', hne, hoffset, rfl⟩
      exact ⟨hoffset, by simpa using hne⟩
    · rintro ⟨hoffset, hne⟩
      exact ⟨d, by simpa using hne, hoffset, rfl⟩

/-- The failures of a message after a poll. -/
theorem failures_poll (hnext : partition.next? s.consumer.position = some msg) (offset : ℕ) :
    (w.deliver partition s (.consumer (.poll attempt))).failures offset =
      s.failures offset +
        if offset = msg.offset ∧ w.Fails attempt msg s.consumer.worker.redis then 1 else 0 := by
  simp only [deliver, hnext]
  by_cases hfails : w.Fails attempt msg s.consumer.worker.redis
  · rw [if_pos hfails, Function.update_apply]
    by_cases hsame : offset = msg.offset
    · rw [if_pos hsame, if_pos ⟨hsame, hfails⟩, hsame]
    · rw [if_neg hsame, if_neg fun hboth => hsame hboth.1, Nat.add_zero]
  · rw [if_neg hfails, if_neg fun hboth => hfails hboth.2, Nat.add_zero]

/-- The committed offset after a poll. -/
theorem committed_poll (hnext : partition.next? s.consumer.position = some msg) :
    (w.deliver partition s (.consumer (.poll attempt))).consumer.worker.committed =
      if w.succeeds attempt msg s.consumer.worker then msg.offset + 1
      else s.consumer.worker.committed := by
  have hends := processMessage_ends w attempt msg s.consumer.worker
  simp only [deliver, step_poll hnext]
  cases hok : w.succeeds attempt msg s.consumer.worker with
  | true =>
    rw [hok, ends_true] at hends
    exact hends.committed
  | false =>
    rw [hok, ends_false] at hends
    exact hends.committed

/-- An event other than a delivery changes nothing about the messages. -/
theorem Routed.of_same (h : Routed w partition s) {s' : DeliveryHistory Value Score}
    (hfailures : s'.failures = s.failures)
    (hletters : s'.consumer.worker.deadLetters = s.consumer.worker.deadLetters)
    (hhandled : s'.consumer.handled = s.consumer.handled)
    (hcommitted : s'.consumer.worker.committed = s.consumer.worker.committed) :
    Routed w partition s' where
  deadLettered := by
    unfold FailuresDeadLettered DeliveryHistory.DeadLettered DeliveryHistory.HasEffects
    rw [hfailures, hletters, hhandled, hcommitted]
    exact h.deadLettered
  poison := by
    unfold DeliveryHistory.HasEffects
    rw [hhandled]
    exact h.poison

/-- An undecodable message still has no side effects after a poll. -/
theorem poison_poll (h : Routed w partition s)
    (hnext : partition.next? s.consumer.position = some msg) (hm : m ∈ partition.log)
    (htopic : ¬(w.topic = w.dlqTopic ∨ w.topic = w.deadLetterTopic))
    (hdecode : ∃ reason, w.decode m.value = .error reason) :
    ¬(w.deliver partition s (.consumer (.poll attempt))).HasEffects m := by
  rw [hasEffects_poll hnext]
  rintro (hold | ⟨hoffset, hfails⟩)
  · exact h.poison m hm htopic hdecode hold
  · obtain rfl := Partition.eq_of_offset hm (Partition.mem_of_next? hnext).1 hoffset
    exact hfails (Or.inr ((disposition_eq_poison_iff attempt m _ htopic).mpr hdecode))

/-- A delivery of an undecodable message that is committed is a failure below the committed
offset. -/
theorem succeeds_of_fails (hfails : w.Fails attempt msg s.consumer.worker.redis) :
    w.succeeds attempt msg s.consumer.worker = true ↔
      (∃ reason, w.decode msg.value = .error reason) ∧ attempt.offsetCommit = none := by
  by_cases htopic : w.topic = w.dlqTopic ∨ w.topic = w.deadLetterTopic
  · simp [Fails, disposition, htopic] at hfails
  · rw [succeeds_eq, ← disposition_eq_poison_iff attempt msg s.consumer.worker.redis htopic,
      Bool.and_eq_true, Option.isNone_iff_eq_none]
    rcases hfails with hnone | hpoison
    · simp [hnone]
    · simp [hpoison]

/-- A poll that routes its failure keeps the failures dead-lettered. -/
theorem failuresDeadLettered_poll (h : Routed w partition s)
    (hnext : partition.next? s.consumer.position = some msg)
    (hcond : w.RoutesFailures partition s (.consumer (.poll attempt))) :
    w.FailuresDeadLettered partition (w.deliver partition s (.consumer (.poll attempt))) := by
  obtain ⟨hroutes, hpasses⟩ := hcond msg hnext
  intro m hm
  obtain ⟨hmany, hbelow⟩ := h.deadLettered m hm
  have hsame (hoffset : m.offset = msg.offset) : m = msg :=
    Partition.eq_of_offset hm (Partition.mem_of_next? hnext).1 hoffset
  rw [failures_poll hnext, committed_poll hnext, deadLettered_poll hnext, hasEffects_poll hnext]
  constructor
  · intro hcount
    by_cases hfails : m.offset = msg.offset ∧ w.Fails attempt msg s.consumer.worker.redis
    · rw [if_pos hfails] at hcount
      obtain rfl := hsame hfails.1
      exact (hroutes hfails.2 (Or.inl hcount)).imp id fun hletters => ⟨rfl, hletters⟩
    · rw [if_neg hfails, Nat.add_zero] at hcount
      exact Or.inl (hmany hcount)
  · intro hlt
    have hkept (hold : s.HasEffects m ∨ s.DeadLettered m) :
        (s.HasEffects m ∨ m.offset = msg.offset ∧
            ¬w.Fails attempt msg s.consumer.worker.redis) ∨
          s.DeadLettered m ∨ m = msg ∧ w.DeadLetters attempt msg s.consumer.worker :=
      hold.imp Or.inl Or.inl
    split_ifs at hlt with hok
    · rcases Nat.lt_or_ge m.offset s.consumer.worker.committed with hold | hnew
      · exact hkept (hbelow hold)
      · rcases Nat.lt_succ_iff_lt_or_eq.mp hlt with hbefore | hoffset
        · exact hkept (hpasses hok m hm hnew hbefore)
        · by_cases hfails : w.Fails attempt msg s.consumer.worker.redis
          · obtain rfl := hsame hoffset
            right
            exact (hroutes hfails (Or.inr ((succeeds_of_fails hfails).mp hok))).imp id
              fun hletters => ⟨rfl, hletters⟩
          · exact Or.inl (Or.inr ⟨hoffset, hfails⟩)
    · exact hkept (hbelow hlt)

/-- A poll after which the failures are dead-lettered has routed its failure. -/
theorem routesFailures_of_poll (h : Routed w partition s)
    (hnext : partition.next? s.consumer.position = some msg)
    (hafter : w.FailuresDeadLettered partition
      (w.deliver partition s (.consumer (.poll attempt)))) :
    w.RoutesFailures partition s (.consumer (.poll attempt)) := by
  have hmsg := (Partition.mem_of_next? hnext).1
  intro polled hpolled
  rw [hnext] at hpolled
  obtain rfl := Option.some.inj hpolled
  refine ⟨fun hfails hcase => ?_, fun hok m hm hcommitted hbefore => ?_⟩
  · have hdead : (w.deliver partition s (.consumer (.poll attempt))).DeadLettered msg := by
      obtain ⟨hmany, hbelow⟩ := hafter msg hmsg
      rcases hcase with hcount | hcommits
      · rw [failures_poll hnext, if_pos ⟨rfl, hfails⟩] at hmany
        exact hmany hcount
      · have hok := (succeeds_of_fails hfails).mpr hcommits
        rw [committed_poll hnext, if_pos hok] at hbelow
        refine (hbelow (Nat.lt_succ_self _)).resolve_left ?_
        have htopic : ¬(w.topic = w.dlqTopic ∨ w.topic = w.deadLetterTopic) := by
          intro htopic
          simp [Fails, disposition, htopic] at hfails
        exact poison_poll h hnext hmsg htopic hcommits.1
    exact ((deadLettered_poll hnext).mp hdead).imp id And.right
  · obtain ⟨_, hbelow⟩ := hafter m hm
    rw [committed_poll hnext, if_pos hok, hasEffects_poll hnext, deadLettered_poll hnext] at hbelow
    have hne : m.offset ≠ msg.offset := hbefore.ne
    rcases hbelow (by omega) with (heffects | ⟨hoffset, _⟩) | (hdead | ⟨rfl, _⟩)
    · exact Or.inl heffects
    · exact absurd hoffset hne
    · exact Or.inr hdead
    · exact absurd rfl hne

/-- A step keeps the failures dead-lettered exactly if it routes its failure. -/
theorem failuresDeadLettered_deliver_iff (h : Routed w partition s) (e : DeliveryEvent Score) :
    w.FailuresDeadLettered partition (w.deliver partition s e) ↔
      w.RoutesFailures partition s e := by
  have hquiet : ∀ s' : DeliveryHistory Value Score, s'.failures = s.failures →
      s'.consumer.worker.deadLetters = s.consumer.worker.deadLetters →
      s'.consumer.handled = s.consumer.handled →
      s'.consumer.worker.committed = s.consumer.worker.committed →
        w.FailuresDeadLettered partition s' := fun _ hf hl hh hc =>
    (h.of_same hf hl hh hc).deadLettered
  cases e with
  | consumer e =>
    cases e with
    | poll attempt =>
      cases hnext : partition.next? s.consumer.position with
      | none =>
        constructor
        · intro _ msg hmsg
          rw [hnext] at hmsg
          cases hmsg
        · intro _
          apply hquiet <;> simp [KafkaWorker.deliver, step, hnext]
      | some msg =>
        exact ⟨routesFailures_of_poll h hnext, failuresDeadLettered_poll h hnext⟩
    | rebalance => exact ⟨fun _ => trivial, fun _ => hquiet _ rfl rfl rfl rfl⟩
    | crash => exact ⟨fun _ => trivial, fun _ => hquiet _ rfl rfl rfl rfl⟩
  | redis redis => exact ⟨fun _ => trivial, fun _ => hquiet _ rfl rfl rfl rfl⟩

/-- A step that routes its failure keeps the invariant. -/
theorem Routed.deliver (h : Routed w partition s) (e : DeliveryEvent Score)
    (hcond : w.RoutesFailures partition s e) : Routed w partition (w.deliver partition s e) := by
  refine ⟨(failuresDeadLettered_deliver_iff h e).mpr hcond, ?_⟩
  intro msg hmsg htopic hdecode
  cases e with
  | consumer e =>
    cases e with
    | poll attempt =>
      cases hnext : partition.next? s.consumer.position with
      | none =>
        have hold := h.poison msg hmsg htopic hdecode
        simpa [DeliveryHistory.HasEffects, KafkaWorker.deliver, step, hnext] using hold
      | some polled => exact poison_poll h hnext hmsg htopic hdecode
    | rebalance => exact h.poison msg hmsg htopic hdecode
    | crash => exact h.poison msg hmsg htopic hdecode
  | redis redis => exact h.poison msg hmsg htopic hdecode

end Deliveries

/-- In every run over a partition, with any failures, redeliveries and crashes, each message
that has failed more than `max_retries` times is on the dead-letter topic, and so is each that
was committed without its side effects, exactly when every delivery routes its failure. -/
theorem failures_deadLettered_iff (w : KafkaWorker Value) (partition : Partition Value)
    (redis : Redis) (es : List (DeliveryEvent Score)) :
    Always (w.deliver partition) (w.FailuresDeadLettered partition)
        (DeliveryHistory.start redis) es ↔
      Meets (w.deliver partition) (w.RoutesFailures partition) (DeliveryHistory.start redis)
        es := by
  apply always_iff_meets (Routed w partition) (fun _ h => h.deadLettered)
  · exact fun _ e h hcond => h.deliver e hcond
  · exact fun _ e h hcond hafter => hcond ((failuresDeadLettered_deliver_iff h e).mp hafter)
  · refine ⟨fun msg _ => ⟨fun hcount => ?_, fun hlt => ?_⟩, fun msg _ _ _ heffects => ?_⟩
    · exact absurd hcount (Nat.not_lt_zero _)
    · exact absurd hlt (Nat.not_lt_zero _)
    · obtain ⟨_, _, hmem⟩ := heffects
      cases hmem

/-- A worker over messages that decode or do not, which retries three times. -/
def retryingWorker : KafkaWorker (Except String TradeRecord) where
  topic := "ledgerlens.trades.XLM"
  decode := id
  dlqTopic := "ledgerlens.dlq"
  deadLetterTopic := "ledgerlens.dead_letter"
  dedupTtlSeconds := 86400
  hwm := 100
  lwm := 20
  maxRetries := 3

/-- A partition with one message. -/
def oneMessage (value : Except String TradeRecord) : Partition (Except String TradeRecord) where
  log := [⟨0, value⟩]
  sorted := by simp

/-- A message that does not decode is committed at its first delivery and is on no dead-letter
topic. A message whose scoring raises is redelivered after each crash of the worker, and is
not there either after four failures. -/
theorem failures_not_deadLettered :
    ¬Always (retryingWorker.deliver (oneMessage (.error "bad magic")))
        (retryingWorker.FailuresDeadLettered (oneMessage (.error "bad magic")))
        (DeliveryHistory.start fun _ => none)
        [.consumer (.poll (attemptWithScore (.ok none)))] ∧
      ¬Always (retryingWorker.deliver (oneMessage (.ok (twoTrades.log.head (by decide)).value)))
        (retryingWorker.FailuresDeadLettered
          (oneMessage (.ok (twoTrades.log.head (by decide)).value)))
        (DeliveryHistory.start fun _ => none)
        ((List.replicate 4 [.consumer (.poll (attemptWithScore (.error "scorer down"))),
          .consumer .crash]).flatten) := by
  decide +kernel

end KafkaWorker

end LedgerLens.Streaming
