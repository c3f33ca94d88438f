import LedgerLens.Library.Runs
import LedgerLens.Streaming.KafkaWorker

/-!
# The poll loop of a Kafka worker

`KafkaWorker.run` polls one message after another. An attempt that raises leaves the
offset uncommitted, and the loop goes on with the next message. An offset commit is
cumulative: it also covers the messages before it that failed. This file determines in
which runs that loses a message.
-/

namespace LedgerLens.Streaming

open ExactlyOnce Transition

variable {Value Score : Type*}

/-- A partition: its messages in strictly increasing order of offset, perhaps with gaps. -/
structure Partition (Value : Type*) where
  /-- The messages. -/
  log : List (KafkaMessage Value)
  /-- Offsets increase along the log. -/
  sorted : log.Pairwise fun m m' => m.offset < m'.offset

/-- A worker together with its consumer's place in the partition. -/
structure ConsumerState (Value Score : Type*) where
  /-- The worker's memory and what it writes to. -/
  worker : WorkerState Value Score
  /-- The offset from which the next poll reads. -/
  position : ℕ := 0
  /-- How the messages were dealt with so far, by offset. -/
  handled : List (ℕ × Disposition) := []

/-- What can happen next. -/
inductive ConsumerEvent (Score : Type*) where
  /-- The next message is polled and attempted. -/
  | poll (attempt : Attempt Score)
  /-- The partition is assigned again to the running worker. -/
  | rebalance
  /-- The worker crashes and a new one starts. -/
  | crash

namespace Partition

/-- The message that a poll from a position returns. -/
def next? (partition : Partition Value) (position : ℕ) : Option (KafkaMessage Value) :=
  partition.log.find? fun msg => position ≤ msg.offset

/-- A polled message is in the log, at or after the position. -/
theorem mem_of_next? {partition : Partition Value} {position : ℕ} {msg : KafkaMessage Value}
    (h : partition.next? position = some msg) : msg ∈ partition.log ∧ position ≤ msg.offset :=
  ⟨List.mem_of_find?_eq_some h, by simpa using List.find?_some h⟩

end Partition

namespace ConsumerState

/-- A message was dealt with for good. -/
def Settled (s : ConsumerState Value Score) (msg : KafkaMessage Value) : Prop :=
  ∃ disposition, (msg.offset, disposition) ∈ s.handled

instance (s : ConsumerState Value Score) (msg : KafkaMessage Value) : Decidable (s.Settled msg) :=
  decidable_of_iff (∃ entry ∈ s.handled, entry.1 = msg.offset) (by
    constructor
    · rintro ⟨⟨_, disposition⟩, hmem, rfl⟩
      exact ⟨disposition, hmem⟩
    · rintro ⟨disposition, hmem⟩
      exact ⟨_, hmem, rfl⟩)

/-- No message is lost: everything below the committed offset was dealt with. -/
def NoLoss (partition : Partition Value) (s : ConsumerState Value Score) : Prop :=
  ∀ msg ∈ partition.log, msg.offset < s.worker.committed → s.Settled msg

instance (partition : Partition Value) :
    DecidablePred (NoLoss partition : ConsumerState Value Score → Prop) :=
  fun _ => inferInstanceAs (Decidable (∀ msg ∈ partition.log, _ → _))

/-- The consumer goes back to the committed offset. -/
def resume (s : ConsumerState Value Score) : ConsumerState Value Score :=
  { s with position := s.worker.committed }

/-- A consumer group without commits reads the partition from its first message. -/
def start (redis : Redis) : ConsumerState Value Score := { worker := { redis := redis } }

@[simp] theorem settled_handled_append {s : ConsumerState Value Score}
    {msg m : KafkaMessage Value} {worker : WorkerState Value Score} {position : ℕ}
    {settled : Option Disposition} :
    Settled { worker := worker, position := position
              handled := s.handled ++ settled.toList.map (msg.offset, ·) } m ↔
      s.Settled m ∨ m.offset = msg.offset ∧ settled ≠ none := by
  cases settled with
  | none => simp [Settled]
  | some disposition =>
    simp [Settled, exists_or]

end ConsumerState

/-- A fresh process: what was only in memory is gone. -/
def WorkerState.restarted (s : WorkerState Value Score) : WorkerState Value Score :=
  { s with inFlight := 0, paused := false, retryCounts := fun _ => 0 }

namespace KafkaWorker

open ConsumerState

/-- One turn of `run`, or a reassignment. Whatever an attempt raises is logged, and the
next poll reads on behind the message. -/
def step (w : KafkaWorker Value) (partition : Partition Value) (s : ConsumerState Value Score) :
    ConsumerEvent Score → ConsumerState Value Score
  | .poll attempt =>
    match partition.next? s.position with
    | none => s
    | some msg =>
      { worker := (w.processMessage attempt msg s.worker).state
        position := msg.offset + 1
        handled := s.handled ++
          (w.processMessage attempt msg s.worker).settled.toList.map (msg.offset, ·) }
  | .rebalance => s.resume
  | .crash => { s with worker := s.worker.restarted }.resume

/-- An attempt that goes through finds every message between the committed offset and its
own dealt with. -/
def CommitsOverSettled (w : KafkaWorker Value) (partition : Partition Value)
    (s : ConsumerState Value Score) : ConsumerEvent Score → Prop
  | .poll attempt =>
    ∀ msg, partition.next? s.position = some msg → w.succeeds attempt msg s.worker →
      ∀ m ∈ partition.log, s.worker.committed ≤ m.offset → m.offset < msg.offset → s.Settled m
  | .rebalance => True
  | .crash => True

variable {w : KafkaWorker Value} {partition : Partition Value} {s : ConsumerState Value Score}
  {attempt : Attempt Score} {msg : KafkaMessage Value}

/-- A poll that delivers a message. -/
theorem step_poll (h : partition.next? s.position = some msg) :
    w.step partition s (.poll attempt) =
      { worker := (w.processMessage attempt msg s.worker).state
        position := msg.offset + 1
        handled := s.handled ++
          (w.processMessage attempt msg s.worker).settled.toList.map (msg.offset, ·) } := by
  simp [step, h]

/-- A step that commits over settled messages only loses nothing. -/
theorem noLoss_step {e : ConsumerEvent Score} (hs : NoLoss partition s)
    (hcond : w.CommitsOverSettled partition s e) : NoLoss partition (w.step partition s e) := by
  cases e with
  | poll attempt =>
    cases hnext : partition.next? s.position with
    | none => simpa [step, hnext] using hs
    | some polled =>
      have hends := processMessage_ends w attempt polled s.worker
      intro m hm hlt
      rw [step_poll hnext] at hlt ⊢
      rw [settled_handled_append]
      dsimp only at hlt
      cases hok : w.succeeds attempt polled s.worker with
      | true =>
        rw [hok, ends_true] at hends
        rw [hends.committed] at hlt
        rcases Nat.lt_or_ge m.offset s.worker.committed with hold | hnew
        · exact Or.inl (hs m hm hold)
        · rcases Nat.lt_succ_iff_lt_or_eq.mp hlt with hbefore | hsame
          · exact Or.inl (hcond polled hnext hok m hm hnew hbefore)
          · exact Or.inr ⟨hsame, hends.settled⟩
      | false =>
        rw [hok, ends_false] at hends
        rw [hends.committed] at hlt
        exact Or.inl (hs m hm hlt)
  | rebalance => exact hs
  | crash => exact hs

/-- A commit over a message that was not dealt with loses it. -/
theorem not_noLoss_step {e : ConsumerEvent Score} (hcond : ¬w.CommitsOverSettled partition s e) :
    ¬NoLoss partition (w.step partition s e) := by
  cases e with
  | poll attempt =>
    simp only [CommitsOverSettled, not_forall] at hcond
    obtain ⟨polled, hnext, hok, m, hm, _, hbefore, hnot⟩ := hcond
    have hends := processMessage_ends w attempt polled s.worker
    rw [hok, ends_true] at hends
    intro hloss
    have hsettled := hloss m hm (by
      rw [step_poll hnext, hends.committed]
      omega)
    rw [step_poll hnext, settled_handled_append] at hsettled
    rcases hsettled with hsettled | ⟨hsame, _⟩
    · exact hnot hsettled
    · omega
  | rebalance => exact absurd trivial hcond
  | crash => exact absurd trivial hcond

/-- No state of a run has lost a message exactly when no attempt of the run commits over
a message that was not dealt with. -/
theorem no_loss_iff (w : KafkaWorker Value) (partition : Partition Value) (redis : Redis)
    (es : List (ConsumerEvent Score)) :
    Always (w.step partition) (NoLoss partition) (start redis) es ↔
      Meets (w.step partition) (w.CommitsOverSettled partition) (start redis) es :=
  always_iff_meets (NoLoss partition) (fun _ h => h) (fun _ _ => noLoss_step)
    (fun _ _ _ => not_noLoss_step) (fun _ _ h => absurd h (Nat.not_lt_zero _)) es

/-- A worker for the examples, over records that need no decoding. -/
def plainWorker : KafkaWorker TradeRecord where
  topic := "ledgerlens.trades.XLM"
  decode := .ok
  dlqTopic := "ledgerlens.dlq"
  deadLetterTopic := "ledgerlens.dead_letter"
  dedupTtlSeconds := 86400
  hwm := 100
  lwm := 20
  maxRetries := 3

/-- Two trades, at offsets 0 and 1. -/
def twoTrades : Partition TradeRecord where
  log := [⟨0, { baseAccount := "GA", counterAccount := "GB", assetPair := "XLM/USDC"
                ledgerSequence := some 7, tradeId := some "a" }⟩,
    ⟨1, { baseAccount := "GC", counterAccount := "GD", assetPair := "XLM/USDC"
          ledgerSequence := some 7, tradeId := some "b" }⟩]
  sorted := by decide

/-- An attempt in which scoring the base account ends as given and all else goes well. -/
def attemptWithScore (score : Except String (Option ℕ)) : Attempt ℕ where
  claim := ⟨0, none⟩
  read := ⟨0, none⟩
  base := { score := score }
  counter := { score := .ok none }
  dedupCommit := ⟨0, none⟩

/-- The first message fails, the second goes through, and the committed offset is past
both. -/
theorem failed_message_lost :
    ¬Always (plainWorker.step twoTrades) (NoLoss twoTrades) (start fun _ => none)
      [.poll (attemptWithScore (.error "scorer down")), .poll (attemptWithScore (.ok none))] := by
  decide +kernel

end KafkaWorker

end LedgerLens.Streaming
