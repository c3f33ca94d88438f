import LedgerLens.Library.LineFile
import LedgerLens.Library.Runs
import Mathlib.Algebra.Order.Ring.Rat
import Mathlib.Data.Finset.Basic
import Mathlib.Logic.Function.Basic

/-!
# The dead letters of the router

`PubSubRouter.deliver` gives a message up after some attempts and puts it into the
`DeadLetterStore`; `replay_dead_letters` takes entries out again, first from the file and then
to their handler. Any number of threads do this, one step at a time, and the process can crash
at any point. This file says in which runs no message is lost.
-/

namespace LedgerLens.Streaming

open Transition

/-- An entry of the store. -/
structure DeadLetter (Message : Type*) where
  /-- `id`. -/
  id : String
  /-- `client_id`. -/
  clientId : String
  /-- `channel`. -/
  channel : String
  /-- `message`. -/
  message : Message
  /-- `error`. -/
  error : String
  /-- `retry_count`. -/
  retryCount : ℕ
  /-- `first_failure_at`. -/
  firstFailureAt : Option ℚ
  /-- `dead_lettered_at`. -/
  deadLetteredAt : ℚ
  /-- Which message this is: the number of the call of `deliver` that was made for it, not
  counting those that a replay makes. -/
  origin : ℕ

/-- A call of `deliver` that is going on. -/
structure RouterDelivery (Message : Type*) where
  /-- `client_id`. -/
  clientId : String
  /-- `channel`. -/
  channel : String
  /-- `message`. -/
  message : Message
  /-- Which message this is. -/
  origin : ℕ
  /-- How many attempts have failed. -/
  failures : ℕ := 0
  /-- `first_failure`. -/
  firstFailure : Option ℚ := none
  /-- The type and the text of `last_error`. -/
  lastError : String := "NoneType: None"

/-- The loop of a replay over the entries it has selected. -/
structure ReplayLoop (Message : Type*) where
  /-- The entries that are left. -/
  rest : List (DeadLetter Message)
  /-- `ok`. -/
  ok : ℕ := 0
  /-- How many entries there were. -/
  total : ℕ

/-- How a call has ended. -/
inductive DeliveryOutcome where
  /-- `deliver` has returned. -/
  | delivered (success : Bool)
  /-- `replay_dead_letters` has returned. -/
  | replayed (replayed failed : ℕ)
  /-- The store could not be read. -/
  | raised

/-- Where a thread is. -/
inductive DeliveryPhase (Message : Type*) where
  /-- In no call; how the last one has ended. -/
  | idle (outcome : Option DeliveryOutcome)
  /-- In `deliver`, possibly within a replay. -/
  | delivering (d : RouterDelivery Message) (replay : Option (ReplayLoop Message))
  /-- In `replay_dead_letters`, before it reads the entries. -/
  | selecting (entryIds : Option (List String))
  /-- In `remove`, before it reads the entries. -/
  | removing (selected : List (DeadLetter Message))
  /-- In `remove`, before or while it rewrites the file. -/
  | keeping (selected keep : List (DeadLetter Message))

/-- What a thread that has the lock is writing to the file. -/
inductive StoreWrite (Message : Type*) where
  /-- An entry at its end. -/
  | append (entry : DeadLetter Message)
  /-- The entries to keep, into the file that was emptied. -/
  | rewrite (keep : List (DeadLetter Message))

/-- The dead-letter store with the threads that use it. -/
structure DeadLetterSystem (Thread Message : Type*) where
  /-- Where each thread is. -/
  phase : Thread → DeliveryPhase Message := fun _ => .idle none
  /-- The file, as it was before what is being written to it. -/
  file : LineFile (DeadLetter Message) := {}
  /-- The thread that has the lock to write, and what it writes. -/
  writer : Option (Thread × StoreWrite Message) := none
  /-- How many messages there are. -/
  messages : ℕ := 0
  /-- The messages that were put into the store. -/
  deadLettered : Finset ℕ := ∅
  /-- The messages with which a handler was invoked that returned. -/
  delivered : Finset ℕ := ∅

/-- One step of a thread, or a crash. -/
inductive StoreEvent (Thread Message : Type*) where
  /-- A call of `deliver`. -/
  | deliver (t : Thread) (clientId channel : String) (message : Message)
  /-- A call of `replay_dead_letters`. -/
  | replay (t : Thread) (entryIds : Option (List String))
  /-- The handler returns, or raises this error at this time. -/
  | handle (t : Thread) (raised : Option String) (now : ℚ)
  /-- `append` takes the lock and opens the file. -/
  | append (t : Thread) (timeNs : ℕ) (now : ℚ)
  /-- `entries` reads the file. -/
  | read (t : Thread)
  /-- `remove` takes the lock and empties the file. -/
  | rewrite (t : Thread)
  /-- What was written is in the file, and the lock is released. -/
  | close (t : Thread)
  /-- The process crashes. If something is being written, the file has the first `n` of the lines
  to write, and the next one is cut off. -/
  | crash (n : ℕ) (cut : Cut)

section Code

variable {Thread Message : Type*}

/-- `max_delivery_attempts` as the constructor takes it. -/
def deliveryAttempts (maxDeliveryAttempts : ℤ) : ℕ := (max 1 maxDeliveryAttempts).toNat

/-- `first_failure or time.time()`. -/
def firstFailureOr (firstFailure : Option ℚ) (now : ℚ) : ℚ :=
  match firstFailure with
  | none => now
  | some t => if t = 0 then now else t

/-- A delivery after one more attempt has failed. -/
def RouterDelivery.fail (d : RouterDelivery Message) (error : String) (now : ℚ) :
    RouterDelivery Message :=
  { d with
    failures := d.failures + 1
    firstFailure := some (firstFailureOr d.firstFailure now)
    lastError := error }

/-- The entry of a message that is given up. -/
def RouterDelivery.entry (d : RouterDelivery Message) (attempts timeNs : ℕ) (now : ℚ) :
    DeadLetter Message where
  id := d.clientId ++ ":" ++ d.channel ++ ":" ++ toString timeNs
  clientId := d.clientId
  channel := d.channel
  message := d.message
  error := d.lastError
  retryCount := attempts
  firstFailureAt := d.firstFailure
  deadLetteredAt := now
  origin := d.origin

/-- The delivery of an entry that is replayed. -/
def DeadLetter.delivery (e : DeadLetter Message) : RouterDelivery Message where
  clientId := e.clientId
  channel := e.channel
  message := e.message
  origin := e.origin

/-- What a replay does next. -/
def ReplayLoop.resume (loop : ReplayLoop Message) : DeliveryPhase Message :=
  match loop.rest with
  | [] => .idle (some (.replayed loop.ok (loop.total - loop.ok)))
  | e :: es => .delivering e.delivery (some { loop with rest := es })

/-- What comes after `deliver` has returned. -/
def afterDelivery (success : Bool) : Option (ReplayLoop Message) → DeliveryPhase Message
  | none => .idle (some (.delivered success))
  | some loop => ReplayLoop.resume { loop with ok := if success then loop.ok + 1 else loop.ok }

/-- What comes after the file was written. -/
def DeliveryPhase.afterWrite : DeliveryPhase Message → DeliveryPhase Message
  | delivering _ replay => afterDelivery false replay
  | keeping selected _ => ReplayLoop.resume { rest := selected, total := selected.length }
  | phase => phase

/-- What comes after the file was read: the entries to replay, or those to keep. -/
def DeliveryPhase.afterRead (read : Option (List (DeadLetter Message))) :
    DeliveryPhase Message → DeliveryPhase Message
  | selecting entryIds =>
    match read with
    | none => .idle (some .raised)
    | some entries => .removing (entries.filter fun e => entryIds.all fun ids => e.id ∈ ids)
  | removing selected =>
    match read with
    | none => .idle (some .raised)
    | some entries => .keeping selected (entries.filter fun e => e.id ∉ selected.map DeadLetter.id)
  | phase => phase

/-- The file after what was written to it. -/
def StoreWrite.written (file : LineFile (DeadLetter Message)) :
    StoreWrite Message → LineFile (DeadLetter Message)
  | append e => file.append e
  | rewrite keep => .ofRecords keep

/-- The file after a crash. -/
def StoreWrite.cutOff (file : LineFile (DeadLetter Message)) (n : ℕ) (cut : Cut) :
    StoreWrite Message → LineFile (DeadLetter Message)
  | append e => file.appendPart e cut
  | rewrite keep => .writePart keep n cut

/-- The messages that are in the store once this is written, besides those that were. -/
def StoreWrite.stored : StoreWrite Message → Finset ℕ
  | append e => {e.origin}
  | rewrite _ => ∅

end Code

namespace DeadLetterSystem

section Properties

variable {Thread Message : Type*}

/-- The system after a crash. -/
def crashed (s : DeadLetterSystem Thread Message) (n : ℕ) (cut : Cut) :
    DeadLetterSystem Thread Message :=
  { s with
    phase := fun _ => .idle none
    file := s.writer.elim s.file fun tw => tw.2.cutOff s.file n cut
    writer := none }

/-- A message that was put into the store and that no handler has taken since. -/
def Owed (s : DeadLetterSystem Thread Message) (m : ℕ) : Prop :=
  m ∈ s.deadLettered ∧ m ∉ s.delivered

instance (s : DeadLetterSystem Thread Message) (m : ℕ) : Decidable (s.Owed m) :=
  inferInstanceAs (Decidable (_ ∧ _))

/-- A message of which `entries` returns an entry. -/
def InStore (s : DeadLetterSystem Thread Message) (m : ℕ) : Prop :=
  s.file.Holds fun e => e.origin = m

/-- No message is lost: whenever the store can be locked, it has every message that is owed. -/
def NothingLost (s : DeadLetterSystem Thread Message) : Prop :=
  s.writer = none → ∀ m, s.Owed m → s.InStore m

/-- The condition under which what was written can be closed. An entry is appended to a file that
can be read and ends in a newline; and `remove` keeps an entry of each message that is owed, that
is, it has read one that was not selected. -/
def ClosesWell (s : DeadLetterSystem Thread Message) : StoreWrite Message → Prop
  | .append e => s.file.Intact ∨ ∀ m, ¬(m ∈ insert e.origin s.deadLettered ∧ m ∉ s.delivered)
  | .rewrite keep => ∀ m, s.Owed m → ∃ e ∈ keep, e.origin = m

/-- The condition under which a crash does no harm. An entry that is being appended is not torn
and follows a newline, unless nothing of it is written; and of the entries to keep those for the
messages that are owed are written, without a torn line after them. -/
def CrashesWell (s : DeadLetterSystem Thread Message) (n : ℕ) (cut : Cut) :
    StoreWrite Message → Prop
  | .append _ => cut = .before ∨ (s.file.rest = none ∧ cut ≠ .torn) ∨ ∀ m, ¬s.Owed m
  | .rewrite keep => ∀ m, s.Owed m → (LineFile.writePart keep n cut).Holds fun e => e.origin = m

/-- The condition under which an event loses no message. -/
def KeepsOwed (s : DeadLetterSystem Thread Message) (event : StoreEvent Thread Message) : Prop :=
  match event with
  | .close t => ∀ w, s.writer = some (t, w) → s.ClosesWell w
  | .crash n cut => ∀ t w, s.writer = some (t, w) → s.CrashesWell n cut w
  | _ => True

/-- The invariant: the file that was there before what is being written has every message that is
owed. -/
def Stored (s : DeadLetterSystem Thread Message) : Prop := ∀ m, s.Owed m → s.InStore m

variable {s s' : DeadLetterSystem Thread Message}

/-- Messages that are delivered are owed no longer. -/
theorem Stored.of_frame (hstored : s.Stored) (hfile : s'.file = s.file)
    (hdead : s'.deadLettered = s.deadLettered) (hdelivered : s.delivered ⊆ s'.delivered) :
    s'.Stored := by
  rintro m ⟨hm, hnot⟩
  have hholds := hstored m ⟨hdead ▸ hm, fun hmem => hnot (hdelivered hmem)⟩
  unfold InStore at hholds ⊢
  rw [hfile]
  exact hholds

/-- The messages that are owed after a crash during a write. -/
theorem stored_crashed_iff (hstored : s.Stored) (n : ℕ) (cut : Cut) {t : Thread}
    {w : StoreWrite Message} (hwriter : s.writer = some (t, w)) :
    (s.crashed n cut).Stored ↔ s.CrashesWell n cut w := by
  unfold crashed
  rw [hwriter, Option.elim]
  cases w with
  | append e =>
    constructor
    · intro hafter
      by_contra hnot
      obtain ⟨hbefore, hnot⟩ := not_or.mp hnot
      obtain ⟨hspoilt, howed⟩ := not_or.mp hnot
      push Not at howed
      obtain ⟨m, howed⟩ := howed
      exact LineFile.not_holds (LineFile.read?_appendPart hbefore hspoilt) (hafter m howed)
    · rintro (rfl | ⟨hrest, hcut⟩ | hnothing) m howed
      · exact hstored m howed
      · exact LineFile.holds_appendPart hrest hcut (hstored m howed)
      · exact absurd howed (hnothing m)
  | rewrite keep => exact Iff.rfl

end Properties

variable {Thread Message : Type*} [DecidableEq Thread]

/-- The system with a thread in another place. -/
def goto (s : DeadLetterSystem Thread Message) (t : Thread) (phase : DeliveryPhase Message) :
    DeadLetterSystem Thread Message :=
  { s with phase := Function.update s.phase t phase }

/-- The system after a thread has closed the file. -/
def closed (s : DeadLetterSystem Thread Message) (t : Thread) (w : StoreWrite Message) :
    DeadLetterSystem Thread Message :=
  { s.goto t (s.phase t).afterWrite with
    file := w.written s.file
    writer := none
    deadLettered := s.deadLettered ∪ w.stored }

/-- One event, with the number of attempts; an event that is not possible changes nothing. -/
def step (attempts : ℕ) (s : DeadLetterSystem Thread Message) (event : StoreEvent Thread Message) :
    DeadLetterSystem Thread Message :=
  match event with
  | .deliver t clientId channel message =>
    match s.phase t with
    | .idle _ =>
      let d : RouterDelivery Message :=
        { clientId := clientId, channel := channel, message := message, origin := s.messages }
      { s.goto t (.delivering d none) with messages := s.messages + 1 }
    | _ => s
  | .replay t entryIds =>
    match s.phase t with
    | .idle _ => s.goto t (.selecting entryIds)
    | _ => s
  | .handle t raised now =>
    match s.phase t with
    | .delivering d replay =>
      if d.failures < attempts then
        match raised with
        | none =>
          { s.goto t (afterDelivery true replay) with delivered := insert d.origin s.delivered }
        | some error => s.goto t (.delivering (d.fail error now) replay)
      else s
    | _ => s
  | .append t timeNs now =>
    match s.phase t with
    | .delivering d _ =>
      if attempts ≤ d.failures ∧ s.writer.isNone then
        { s with writer := some (t, .append (d.entry attempts timeNs now)) }
      else s
    | _ => s
  | .read t => if s.writer.isNone then s.goto t ((s.phase t).afterRead s.file.read?) else s
  | .rewrite t =>
    match s.phase t with
    | .keeping _ keep => if s.writer.isNone then { s with writer := some (t, .rewrite keep) } else s
    | _ => s
  | .close t =>
    match s.writer with
    | some (t', w) =>
      if t' = t then s.closed t w else s
    | none => s
  | .crash n cut => s.crashed n cut

variable {s : DeadLetterSystem Thread Message} {attempts : ℕ}

/-- Events that do not end a write leave the file as it is. -/
theorem Stored.step_other (hstored : s.Stored) {event : StoreEvent Thread Message}
    (hclose : ∀ t, event ≠ .close t) (hcrash : ∀ n cut, event ≠ .crash n cut) :
    (s.step attempts event).Stored := by
  cases event with
  | deliver t clientId channel message =>
    unfold step
    dsimp only
    split
    · exact hstored.of_frame rfl rfl subset_rfl
    · exact hstored
  | replay t entryIds =>
    unfold step
    dsimp only
    split
    · exact hstored.of_frame rfl rfl subset_rfl
    · exact hstored
  | handle t raised now =>
    unfold step
    dsimp only
    split
    · split_ifs
      · cases raised with
        | none => exact hstored.of_frame rfl rfl (Finset.subset_insert _ _)
        | some error => exact hstored.of_frame rfl rfl subset_rfl
      · exact hstored
    · exact hstored
  | append t timeNs now =>
    unfold step
    dsimp only
    split
    · split_ifs
      · exact hstored.of_frame rfl rfl subset_rfl
      · exact hstored
    · exact hstored
  | read t =>
    unfold step
    dsimp only
    split_ifs
    · exact hstored.of_frame rfl rfl subset_rfl
    · exact hstored
  | rewrite t =>
    unfold step
    dsimp only
    split
    · split_ifs
      · exact hstored.of_frame rfl rfl subset_rfl
      · exact hstored
    · exact hstored
  | close t => exact absurd rfl (hclose t)
  | crash n cut => exact absurd rfl (hcrash n cut)

/-- The messages that are owed after a write. -/
theorem stored_closed_iff (hstored : s.Stored) (t : Thread) (w : StoreWrite Message) :
    (s.closed t w).Stored ↔ s.ClosesWell w := by
  cases w with
  | append e =>
    have hunion : s.deadLettered ∪ StoreWrite.stored (.append e) =
        insert e.origin s.deadLettered := by
      rw [Finset.union_comm]
      rfl
    constructor
    · intro hafter
      by_contra hnot
      obtain ⟨hspoilt, howed⟩ := not_or.mp hnot
      push Not at howed
      obtain ⟨m, hm, hundelivered⟩ := howed
      rw [← hunion] at hm
      exact LineFile.not_holds (LineFile.read?_append_of_not_intact hspoilt)
        (hafter m ⟨hm, hundelivered⟩)
    · rintro (hintact | hnothing)
      · obtain ⟨hrest, hread⟩ := hintact
        obtain ⟨records, hread⟩ := Option.ne_none_iff_exists'.mp hread
        have hread' := LineFile.read?_append (r := e) hrest hread
        rintro m ⟨hm, hundelivered⟩
        have hm : m ∈ s.deadLettered ∪ StoreWrite.stored (.append e) := hm
        rw [hunion, Finset.mem_insert] at hm
        refine ⟨records ++ [e], hread', ?_⟩
        obtain rfl | hm := hm
        · exact ⟨e, by simp, rfl⟩
        · obtain ⟨records', hread'', e', he', horigin⟩ := hstored m ⟨hm, hundelivered⟩
          obtain rfl := Option.some.inj (hread.symm.trans hread'')
          exact ⟨e', List.mem_append_left _ he', horigin⟩
      · rintro m ⟨hm, hundelivered⟩
        have hm : m ∈ s.deadLettered ∪ StoreWrite.stored (.append e) := hm
        rw [hunion] at hm
        exact absurd ⟨hm, hundelivered⟩ (hnothing m)
  | rewrite keep =>
    have hsame : s.deadLettered ∪ StoreWrite.stored (.rewrite keep) = s.deadLettered :=
      by simp [StoreWrite.stored]
    have howed (m : ℕ) : (s.closed t (.rewrite keep)).Owed m ↔ s.Owed m :=
      and_congr_left' (by rw [← hsame]; rfl)
    constructor
    · intro hafter m hm
      exact LineFile.holds_ofRecords_iff.mp (hafter m ((howed m).mpr hm))
    · intro hkeep m hm
      exact LineFile.holds_ofRecords_iff.mpr (hkeep m ((howed m).mp hm))

/-- An event that meets the condition leaves every message that is owed in the store. -/
theorem Stored.step (hstored : s.Stored) (event : StoreEvent Thread Message)
    (hkeeps : s.KeepsOwed event) : (s.step attempts event).Stored := by
  cases event with
  | close t =>
    unfold DeadLetterSystem.step
    dsimp only
    split
    case h_1 t' w hwriter =>
      split_ifs with ht
      · subst ht
        exact (stored_closed_iff hstored t' w).mpr (hkeeps w hwriter)
      · exact hstored
    case h_2 => exact hstored
  | crash n cut =>
    cases hwriter : s.writer with
    | none =>
      refine hstored.of_frame ?_ rfl subset_rfl
      simp only [DeadLetterSystem.step, crashed, hwriter, Option.elim]
    | some tw => exact (stored_crashed_iff hstored n cut hwriter).mpr (hkeeps tw.1 tw.2 hwriter)
  | _ => exact hstored.step_other (fun _ h => nomatch h) fun _ _ h => nomatch h

/-- An event that does not meet the condition loses a message. -/
theorem Stored.not_nothingLost (hstored : s.Stored) (event : StoreEvent Thread Message)
    (hkeeps : ¬s.KeepsOwed event) : ¬(s.step attempts event).NothingLost := by
  cases event with
  | close t =>
    unfold KeepsOwed at hkeeps
    push Not at hkeeps
    obtain ⟨w, hwriter, hnot⟩ := hkeeps
    have hclosed : s.step attempts (.close t) = s.closed t w := by
      simp only [DeadLetterSystem.step, hwriter, if_true]
    rw [hclosed]
    exact fun hlost => hnot ((stored_closed_iff hstored t w).mp (hlost rfl))
  | crash n cut =>
    unfold KeepsOwed at hkeeps
    push Not at hkeeps
    obtain ⟨t, w, hwriter, hnot⟩ := hkeeps
    exact fun hlost => hnot ((stored_crashed_iff hstored n cut hwriter).mp (hlost rfl))
  | _ => exact absurd trivial hkeeps

/-- For every number of threads, handlers that fail at any time and crashes at any point: no
message is ever lost in exactly the runs in which every rewrite keeps, and every crash leaves,
an entry of each message that no handler has taken, and in which nothing is appended to a file
that a crash has spoilt. -/
theorem always_nothingLost_iff (attempts : ℕ) (events : List (StoreEvent Thread Message)) :
    Always (step attempts) NothingLost ({} : DeadLetterSystem Thread Message) events ↔
      Meets (step attempts) KeepsOwed ({} : DeadLetterSystem Thread Message) events :=
  always_iff_meets (P := NothingLost) Stored (fun _ hstored _ => hstored)
    (fun _ event hstored hkeeps => hstored.step event hkeeps)
    (fun _ event hstored hkeeps => hstored.not_nothingLost event hkeeps)
    (fun _ howed => absurd howed.1 (Finset.notMem_empty _)) events

/-- The only attempt to deliver a message fails; a replay then removes it from the store and the
process crashes. -/
private def crashedReplay : List (StoreEvent Unit Unit) :=
  [.deliver () "GCLIENT" "all" (), .handle () (some "ConnectionError: closed") 1, .append () 1 1,
    .close (), .replay () none, .read (), .read (), .rewrite (), .close (), .crash 0 .before]

/-- The message is in the store no more, though no handler has taken it. -/
theorem message_lost_in_replay :
    (exec (step (deliveryAttempts 1)) {} crashedReplay).Owed 0 ∧
      ((exec (step (deliveryAttempts 1)) {} crashedReplay).file.read?.map List.length) = some 0 ∧
      ¬Always (step (deliveryAttempts 1)) NothingLost {} crashedReplay := by
  have howed : (exec (step (deliveryAttempts 1)) {} crashedReplay).Owed 0 := by decide +kernel
  have hempty : (exec (step (deliveryAttempts 1)) {} crashedReplay).file.read?.map List.length =
      some 0 := by decide +kernel
  refine ⟨howed, hempty, fun halways => ?_⟩
  obtain ⟨records, hread, e, he, -⟩ := halways.last rfl 0 howed
  rw [hread, Option.map_some, Option.some.injEq, List.length_eq_zero_iff] at hempty
  rw [hempty] at he
  cases he

end DeadLetterSystem

end LedgerLens.Streaming
