import LedgerLens.ExactlyOnce.SqlBackend

/-!
# The calls on an SQL backend over time

`check_and_stage`, `commit` and `mark_failed` of `SqlExactlyOnceBackend`, called one after
another by any number of workers. A committed record is believed for `ttl_hours` and is to
be reverified afterwards. `mark_failed` sets the state FAILED without a look at the state
before, and a FAILED record is staged anew. This file shows that nothing else makes a
backend forget a commit.
-/

namespace LedgerLens.ExactlyOnce

open Transition

variable {Payload : Type*}

/-- What the environment decides about one call. -/
structure SqlCallInput where
  /-- `datetime.now(UTC)`, which each attempt at a call reads for one purpose, or for
  `committed_at` where it reads it twice. -/
  now : ℚ
  /-- The reading for `staged_at` where `commit` inserts the row itself. -/
  stagedNow : ℚ := now
  /-- The attempts that fail with an `OperationalError`. -/
  transientErrors : ℕ := 0
  deriving DecidableEq

/-- `_with_retry`: the fifth `OperationalError` leaves the call, and an attempt that fails
changes nothing. -/
def withRetry {α : Type*} (input : SqlCallInput) (table : DedupTable Payload)
    (attempt : DedupTable Payload → DedupTable Payload × Except SqlError α) :
    DedupTable Payload × Except SqlError α :=
  if input.transientErrors < 5 then attempt table else (table, .error .operationalError)

/-- The outcome of a call of `check_and_stage` in its last phase. -/
def Phase.outcome : Phase Payload → Except SqlError (DedupDecision Payload)
  | .answered decision => .ok decision
  | .raised error => .error error
  | _ => .error .assertionError

namespace SqlExactlyOnceBackend

/-- `_check_and_stage_impl` with nobody in between: its statements one after another, at
most four of them. -/
def checkAndStageImpl (backend : SqlExactlyOnceBackend) (key : DedupKey) (now : ℚ)
    (table : DedupTable Payload) :
    DedupTable Payload × Except SqlError (DedupDecision Payload) :=
  let statement := fun c : DedupTable Payload × Phase Payload =>
    backend.statement key now c.1 c.2
  let last := statement (statement (statement (statement (table, .select))))
  (last.1, last.2.outcome)

/-- A row as `commit` leaves it. -/
def committedRow (now : ℚ) (payload : Option Payload) (row : DedupRecord Payload) :
    DedupRecord Payload where
  state := .committed
  payloadJson := payload.or row.payloadJson
  stagedAt := row.stagedAt
  committedAt := some now

/-- `_commit_impl`. A row that another caller has inserted meanwhile is updated instead. -/
def commitImpl (key : DedupKey) (payload : Option Payload) (input : SqlCallInput)
    (table : DedupTable Payload) : DedupTable Payload × Except SqlError Unit :=
  match table.find? key.canonical with
  | some _ => (table.modify key.canonical (committedRow input.now payload), .ok ())
  | none =>
    match table.insert? key.canonical
        (committedRow input.now payload ⟨.staged, none, input.stagedNow, none⟩) with
    | some table' => (table', .ok ())
    | none =>
      match table.find? key.canonical with
      | some _ => (table.modify key.canonical (committedRow input.now payload), .ok ())
      | none => (table, .error .assertionError)

/-- `_mark_failed_impl`. -/
def markFailedImpl (key : DedupKey) (table : DedupTable Payload) :
    DedupTable Payload × Except SqlError Unit :=
  match table.find? key.canonical with
  | some _ => (table.modify key.canonical fun row => { row with state := .failed }, .ok ())
  | none => (table, .ok ())

/-- `check_and_stage`. -/
def checkAndStage (backend : SqlExactlyOnceBackend) (key : DedupKey) (input : SqlCallInput)
    (table : DedupTable Payload) :
    DedupTable Payload × Except SqlError (DedupDecision Payload) :=
  withRetry input table (backend.checkAndStageImpl key input.now)

/-- `commit`. -/
def commit (key : DedupKey) (payload : Option Payload) (input : SqlCallInput)
    (table : DedupTable Payload) : DedupTable Payload × Except SqlError Unit :=
  withRetry input table (commitImpl key payload input)

/-- `mark_failed`. -/
def markFailed (key : DedupKey) (input : SqlCallInput) (table : DedupTable Payload) :
    DedupTable Payload × Except SqlError Unit :=
  withRetry input table (markFailedImpl key)

end SqlExactlyOnceBackend

open SqlExactlyOnceBackend

/-- The operations. -/
inductive SqlOp (Payload : Type*) where
  | checkAndStage
  | commit (payload : Option Payload)
  | markFailed

/-- One call on the backend. -/
structure SqlEvent (Payload : Type*) where
  /-- The key it is made with. -/
  key : DedupKey
  /-- The operation. -/
  op : SqlOp Payload
  /-- The environment. -/
  input : SqlCallInput

/-- The table, and what has happened to one key. -/
structure SqlHistory (Payload : Type*) where
  /-- The table. -/
  table : DedupTable Payload
  /-- The time at which the last successful commit of the key was made. -/
  committedSince : Option ℚ := none
  /-- Whether the key has been marked failed after that. -/
  failedSince : Bool := false
  /-- If the last call was a `check_and_stage` of the key that answered: its clock reading
  and its answer. -/
  answer : Option (ℚ × DedupDecision Payload) := none

namespace SqlHistory

/-- After a `check_and_stage`, of the key or not. -/
def afterCheck (s : SqlHistory Payload) (same : Bool) (now : ℚ) :
    DedupTable Payload × Except SqlError (DedupDecision Payload) → SqlHistory Payload
  | (table, .ok decision) =>
    { s with table := table, answer := if same then some (now, decision) else none }
  | (table, .error _) => { s with table := table, answer := none }

/-- After a `commit`. -/
def afterCommit (s : SqlHistory Payload) (same : Bool) (now : ℚ) :
    DedupTable Payload × Except SqlError Unit → SqlHistory Payload
  | (table, .ok _) =>
    if same then { table := table, committedSince := some now }
    else { s with table := table, answer := none }
  | (table, .error _) => { s with table := table, answer := none }

/-- After a `mark_failed`. -/
def afterMarkFailed (s : SqlHistory Payload) (same : Bool) :
    DedupTable Payload × Except SqlError Unit → SqlHistory Payload
  | (table, .ok _) =>
    { s with table := table, failedSince := s.failedSince || same, answer := none }
  | (table, .error _) => { s with table := table, answer := none }

end SqlHistory

/-- One call, watched for a key. -/
def SqlExactlyOnceBackend.watch (backend : SqlExactlyOnceBackend) (key : DedupKey)
    (s : SqlHistory Payload) : SqlEvent Payload → SqlHistory Payload
  | ⟨k, .checkAndStage, input⟩ =>
    s.afterCheck (decide (k.canonical = key.canonical)) input.now
      (backend.checkAndStage k input s.table)
  | ⟨k, .commit payload, input⟩ =>
    s.afterCommit (decide (k.canonical = key.canonical)) input.now
      (SqlExactlyOnceBackend.commit k payload input s.table)
  | ⟨k, .markFailed, input⟩ =>
    s.afterMarkFailed (decide (k.canonical = key.canonical))
      (SqlExactlyOnceBackend.markFailed k input s.table)

/-- The answer that a key committed at some time deserves: COMMITTED within `ttl_hours`,
TTL_EXPIRED_REVERIFY afterwards. -/
def SqlExactlyOnceBackend.due (backend : SqlExactlyOnceBackend) (committedSince now : ℚ) :
    DedupState :=
  if backend.ttlHours < (now - committedSince) / 3600 then .ttlExpiredReverify else .committed

/-- Once the key has been committed, it is answered so. -/
def SqlExactlyOnceBackend.AnswersCommitted (backend : SqlExactlyOnceBackend)
    (s : SqlHistory Payload) : Prop :=
  ∀ since ∈ s.committedSince, ∀ answer ∈ s.answer, answer.2.state = backend.due since answer.1

instance (backend : SqlExactlyOnceBackend) :
    DecidablePred (backend.AnswersCommitted : SqlHistory Payload → Prop) :=
  fun _ => inferInstanceAs (Decidable (∀ since ∈ _, ∀ answer ∈ _, _))

/-- A `check_and_stage` of the committed key that gets through comes before the key is
marked failed, or after it has been committed once more. -/
def ChecksUnfailed (key : DedupKey) (s : SqlHistory Payload) (e : SqlEvent Payload) : Prop :=
  match e.op with
  | .checkAndStage =>
    e.key.canonical = key.canonical → e.input.transientErrors < 5 → s.committedSince ≠ none →
      s.failedSince = false
  | _ => True

/-- What the row of the key has to do with its history: committed at the time of the last
commit, or FAILED when the key has been marked failed since. -/
def Remembers (key : DedupKey) (s : SqlHistory Payload) : Prop :=
  ∀ since ∈ s.committedSince, ∃ row, s.table.find? key.canonical = some row ∧
    if s.failedSince then row.state = .failed
    else row.state = .committed ∧ row.committedAt = some since

section Calls

variable {backend : SqlExactlyOnceBackend} {key : DedupKey} {now : ℚ} {table : DedupTable Payload}
  {row : DedupRecord Payload}

/-- A key without a row is staged and answered NEW. -/
theorem checkAndStageImpl_of_none (h : table.find? key.canonical = none) :
    backend.checkAndStageImpl key now table =
      (table.insert key.canonical ⟨.staged, none, now, none⟩ h, .ok ⟨.new, none⟩) := by
  have hinsert : table.insert? key.canonical (⟨.staged, none, now, none⟩ : DedupRecord Payload) =
      some (table.insert key.canonical ⟨.staged, none, now, none⟩ h) := by
    unfold UniqueTable.insert?
    rw [dif_pos h]
  simp [checkAndStageImpl, statement, afterSelect, h, hinsert, Phase.outcome]

/-- A committed row is answered by its age, and left alone. -/
theorem checkAndStageImpl_of_committed {since : ℚ} (h : table.find? key.canonical = some row)
    (hstate : row.state = .committed) (hsince : row.committedAt = some since) :
    backend.checkAndStageImpl key now table =
      (table, .ok ⟨backend.due since now, row.payloadJson⟩) := by
  have hphase : backend.answerCommitted now row =
      .answered ⟨backend.due since now, row.payloadJson⟩ := by
    unfold answerCommitted due
    rw [hsince]
    dsimp only
    split_ifs <;> rfl
  simp [checkAndStageImpl, statement, afterSelect, h, hstate, hphase, Phase.outcome]

/-- A FAILED row is staged anew and answered NEW. -/
theorem checkAndStageImpl_of_failed (h : table.find? key.canonical = some row)
    (hstate : row.state = .failed) :
    backend.checkAndStageImpl key now table =
      (table.modify key.canonical fun row => { row with state := .staged, stagedAt := now },
        .ok ⟨.new, none⟩) := by
  simp [checkAndStageImpl, statement, afterSelect, h, hstate, Phase.outcome]

/-- `check_and_stage` touches no row but its own. -/
theorem find?_checkAndStageImpl (backend : SqlExactlyOnceBackend) (now : ℚ)
    (table : DedupTable Payload) {name : String} (hne : name ≠ key.canonical) :
    (backend.checkAndStageImpl key now table).1.find? name = table.find? name := by
  cases hfind : table.find? key.canonical with
  | none =>
    rw [checkAndStageImpl_of_none hfind, UniqueTable.find?_insert, if_neg hne]
  | some row =>
    by_cases hcommitted : row.state = .committed
    · cases hsince : row.committedAt <;>
        simp only [checkAndStageImpl, statement, afterSelect, hfind, hcommitted, if_true,
          answerCommitted, hsince]
      split_ifs <;> rfl
    · by_cases hfailed : row.state = .failed
      · rw [checkAndStageImpl_of_failed hfind hfailed, UniqueTable.find?_modify, if_neg hne]
      · simp [checkAndStageImpl, statement, afterSelect, hfind, hcommitted, hfailed]

/-- `commit` succeeds and leaves its row committed at the present time. -/
theorem commitImpl_spec (key : DedupKey) (payload : Option Payload) (input : SqlCallInput)
    (table : DedupTable Payload) :
    (commitImpl key payload input table).2 = .ok () ∧
      (∃ row, (commitImpl key payload input table).1.find? key.canonical = some row ∧
        row.state = .committed ∧ row.committedAt = some input.now) ∧
      ∀ name, name ≠ key.canonical →
        (commitImpl key payload input table).1.find? name = table.find? name := by
  unfold commitImpl
  cases hfind : table.find? key.canonical with
  | some row =>
    refine ⟨rfl, ⟨committedRow input.now payload row, ?_, rfl, rfl⟩, fun name hne => ?_⟩
    · simp [hfind]
    · rw [UniqueTable.find?_modify, if_neg hne]
  | none =>
    let row := committedRow input.now payload ⟨.staged, none, input.stagedNow, none⟩
    have hinsert : table.insert? key.canonical row =
        some (table.insert key.canonical row hfind) := by
      unfold UniqueTable.insert?
      rw [dif_pos hfind]
    simp only [row] at hinsert
    simp only [hinsert]
    refine ⟨trivial, ⟨row, ?_, rfl, rfl⟩, fun name hne => ?_⟩
    · rw [UniqueTable.find?_insert, if_pos rfl]
    · rw [UniqueTable.find?_insert, if_neg hne]

/-- `mark_failed` leaves a row FAILED if there is one. -/
theorem markFailedImpl_spec (key : DedupKey) (table : DedupTable Payload) :
    (markFailedImpl key table).2 = .ok () ∧
      (∀ row, table.find? key.canonical = some row →
        (markFailedImpl key table).1.find? key.canonical =
          some { row with state := .failed }) ∧
      ∀ name, name ≠ key.canonical →
        (markFailedImpl key table).1.find? name = table.find? name := by
  unfold markFailedImpl
  cases hfind : table.find? key.canonical with
  | some row =>
    refine ⟨rfl, fun row' hrow => ?_, fun name hne => ?_⟩
    · cases hrow
      simp [hfind]
    · rw [UniqueTable.find?_modify, if_neg hne]
  | none => exact ⟨rfl, fun _ hrow => (by cases hrow), fun _ _ => rfl⟩

end Calls

section Watching

open SqlHistory

variable {backend : SqlExactlyOnceBackend} {key : DedupKey} {s : SqlHistory Payload}
  {e : SqlEvent Payload}

/-- A call that gives up, or that is made with another key, is as if it had not been made,
as far as the key is concerned. -/
theorem Remembers.of_find?_eq {s' : SqlHistory Payload} (h : Remembers key s)
    (hfind : s'.table.find? key.canonical = s.table.find? key.canonical)
    (hsince : s'.committedSince = s.committedSince) (hfailed : s'.failedSince = s.failedSince) :
    Remembers key s' := by
  unfold Remembers at h ⊢
  rwa [hfind, hsince, hfailed]

/-- A `check_and_stage` that finds the key unfailed answers as it should and forgets
nothing. -/
theorem watch_check {k : DedupKey} {input : SqlCallInput} (h : Remembers key s)
    (hcond : ChecksUnfailed key s ⟨k, .checkAndStage, input⟩) :
    Remembers key (backend.watch key s ⟨k, .checkAndStage, input⟩) ∧
      backend.AnswersCommitted (backend.watch key s ⟨k, .checkAndStage, input⟩) := by
  simp only [watch, checkAndStage, withRetry]
  by_cases hretry : input.transientErrors < 5
  · rw [if_pos hretry]
    by_cases hkey : k.canonical = key.canonical
    · cases hsince : s.committedSince with
      | none =>
        cases backend.checkAndStageImpl k input.now s.table with
        | mk table result =>
          cases result <;> simp [afterCheck, Remembers, AnswersCommitted, hsince]
      | some since =>
        have hunfailed : s.failedSince = false := hcond hkey hretry (by simp [hsince])
        obtain ⟨row, hrow, hrest⟩ := h since hsince
        rw [hunfailed, if_neg (by simp)] at hrest
        rw [← hkey] at hrow
        rw [checkAndStageImpl_of_committed hrow hrest.1 hrest.2]
        refine ⟨h.of_find?_eq rfl rfl rfl, ?_⟩
        simp [afterCheck, AnswersCommitted, hkey, hsince]
    · have hfind := find?_checkAndStageImpl backend input.now s.table
        (fun heq : key.canonical = k.canonical => hkey heq.symm)
      cases hcall : backend.checkAndStageImpl k input.now s.table with
      | mk table result =>
        rw [hcall] at hfind
        cases result <;>
          exact ⟨h.of_find?_eq hfind rfl rfl, by simp [afterCheck, AnswersCommitted, hkey]⟩
  · rw [if_neg hretry]
    exact ⟨h.of_find?_eq rfl rfl rfl, by simp [afterCheck, AnswersCommitted]⟩

/-- The first `check_and_stage` after the committed key was marked failed is answered NEW. -/
theorem watch_check_failed {k : DedupKey} {input : SqlCallInput} (h : Remembers key s)
    (hcond : ¬ChecksUnfailed key s ⟨k, .checkAndStage, input⟩) :
    ¬backend.AnswersCommitted (backend.watch key s ⟨k, .checkAndStage, input⟩) := by
  simp only [ChecksUnfailed, not_forall, Bool.not_eq_false] at hcond
  obtain ⟨hkey, hretry, hsince, hfailed⟩ := hcond
  obtain ⟨since, hsince⟩ := Option.ne_none_iff_exists'.mp hsince
  obtain ⟨row, hrow, hstate⟩ := h since hsince
  rw [hfailed, if_pos rfl] at hstate
  rw [← hkey] at hrow
  intro hanswers
  have hdue := hanswers since (by
    simp [watch, afterCheck, checkAndStage, withRetry, hretry,
      checkAndStageImpl_of_failed hrow hstate, hsince]) (input.now, ⟨.new, none⟩) (by
    simp [watch, afterCheck, checkAndStage, withRetry, hretry,
      checkAndStageImpl_of_failed hrow hstate, hkey])
  unfold due at hdue
  split_ifs at hdue

/-- A `commit` that succeeds makes the key committed now, and no other call touches it. -/
theorem watch_commit {k : DedupKey} {payload : Option Payload} {input : SqlCallInput}
    (h : Remembers key s) :
    Remembers key (backend.watch key s ⟨k, .commit payload, input⟩) ∧
      backend.AnswersCommitted (backend.watch key s ⟨k, .commit payload, input⟩) := by
  simp only [watch, SqlExactlyOnceBackend.commit, withRetry]
  by_cases hretry : input.transientErrors < 5
  · obtain ⟨hok, ⟨row, hrow, hstate, hnow⟩, hothers⟩ := commitImpl_spec k payload input s.table
    rw [if_pos hretry]
    cases hcall : commitImpl k payload input s.table with
    | mk table result =>
      rw [hcall] at hok hrow hothers
      obtain rfl : result = .ok () := hok
      by_cases hkey : k.canonical = key.canonical
      · simp only [afterCommit, hkey, decide_true, if_true]
        refine ⟨?_, by simp [AnswersCommitted]⟩
        rintro since ⟨⟩
        exact ⟨row, by rwa [← hkey], by simp [hstate, hnow]⟩
      · simp only [afterCommit, hkey, decide_false, Bool.false_eq_true, if_false]
        exact ⟨h.of_find?_eq (hothers _ fun heq => hkey heq.symm) rfl rfl,
          by simp [AnswersCommitted]⟩
  · rw [if_neg hretry]
    exact ⟨h.of_find?_eq rfl rfl rfl, by simp [afterCommit, AnswersCommitted]⟩

/-- A `mark_failed` answers nothing. -/
theorem watch_markFailed {k : DedupKey} {input : SqlCallInput} (h : Remembers key s) :
    Remembers key (backend.watch key s ⟨k, .markFailed, input⟩) ∧
      backend.AnswersCommitted (backend.watch key s ⟨k, .markFailed, input⟩) := by
  simp only [watch, SqlExactlyOnceBackend.markFailed, withRetry]
  by_cases hretry : input.transientErrors < 5
  · obtain ⟨hok, hown, hothers⟩ := markFailedImpl_spec k s.table
    rw [if_pos hretry]
    cases hcall : markFailedImpl k s.table with
    | mk table result =>
      rw [hcall] at hok hown hothers
      obtain rfl : result = .ok () := hok
      refine ⟨?_, by simp [afterMarkFailed, AnswersCommitted]⟩
      by_cases hkey : k.canonical = key.canonical
      · simp only [afterMarkFailed, hkey, decide_true, Bool.or_true]
        intro since hsince
        obtain ⟨row, hrow, -⟩ := h since hsince
        rw [← hkey] at hrow
        exact ⟨{ row with state := .failed }, by rw [← hkey]; exact hown row hrow, by simp⟩
      · simp only [afterMarkFailed, hkey, decide_false, Bool.or_false]
        exact h.of_find?_eq (hothers _ fun heq => hkey heq.symm) rfl rfl
  · rw [if_neg hretry]
    exact ⟨h.of_find?_eq rfl rfl rfl, by simp [afterMarkFailed, AnswersCommitted]⟩

end Watching

/-- Over any sequence of calls, with any keys and any clock readings, a key that has been
committed is always answered COMMITTED within `ttl_hours` of its last commit and
TTL_EXPIRED_REVERIFY afterwards, exactly when no `check_and_stage` of it gets through after
it was marked failed and not committed again. -/
theorem committed_answered_iff (backend : SqlExactlyOnceBackend) (key : DedupKey)
    (table : DedupTable Payload) (es : List (SqlEvent Payload)) :
    Always (backend.watch key) backend.AnswersCommitted { table := table } es ↔
      Meets (backend.watch key) (ChecksUnfailed key) { table := table } es := by
  apply always_iff_meets fun s => Remembers key s ∧ backend.AnswersCommitted s
  · exact fun _ h => h.2
  · rintro s ⟨k, op, input⟩ ⟨h, -⟩ hcond
    cases op with
    | checkAndStage => exact watch_check h hcond
    | commit payload => exact watch_commit h
    | markFailed => exact watch_markFailed h
  · rintro s ⟨k, op, input⟩ ⟨h, -⟩ hcond
    cases op with
    | checkAndStage => exact watch_check_failed h hcond
    | commit payload => exact absurd trivial hcond
    | markFailed => exact absurd trivial hcond
  · simp [Remembers, AnswersCommitted]

/-- A worker marks the key failed after another has committed it: the next
`check_and_stage` is answered NEW, within the hour. -/
theorem late_mark_failed_answered_new :
    ¬Always (({} : SqlExactlyOnceBackend).watch ⟨"job", "unit", none⟩)
      ({} : SqlExactlyOnceBackend).AnswersCommitted
      ({ table := UniqueTable.empty } : SqlHistory ℕ)
      [⟨⟨"job", "unit", none⟩, .checkAndStage, { now := 0 }⟩,
        ⟨⟨"job", "unit", none⟩, .commit none, { now := 10 }⟩,
        ⟨⟨"job", "unit", none⟩, .markFailed, { now := 20 }⟩,
        ⟨⟨"job", "unit", none⟩, .checkAndStage, { now := 30 }⟩] := by
  decide +kernel

end LedgerLens.ExactlyOnce
