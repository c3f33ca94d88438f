import LedgerLens.ExactlyOnce.Basic
import LedgerLens.Library.Interleaving
import LedgerLens.Library.UniqueTable
import Mathlib.Algebra.Order.Field.Rat

/-!
# The SQL backend, one database step at a time

`SqlExactlyOnceBackend.check_and_stage` opens a session, selects the row of its key and
then inserts, updates or just answers. Each of these statements is atomic in the
database, and other callers run between them, so the function is modelled as a program
whose steps are those statements. A transient `OperationalError` may hit any step; the
surrounding `_with_retry` then starts over, five attempts in all.
-/

namespace LedgerLens.ExactlyOnce

variable {Payload : Type*}

/-- A row of `exactly_once_dedup`; its UNIQUE key `canonical_key` is the table's key. -/
structure DedupRecord (Payload : Type*) where
  /-- The protocol state. -/
  state : DedupState
  /-- The payload a commit stored. -/
  payloadJson : Option Payload
  /-- When the row was last staged. -/
  stagedAt : ℚ
  /-- When the row was last committed. -/
  committedAt : Option ℚ
  deriving DecidableEq

/-- The dedup table, at most one row for each canonical key. -/
abbrev DedupTable (Payload : Type*) := UniqueTable String (DedupRecord Payload)

/-- `SqlExactlyOnceBackend`: how long a committed record is believed. -/
structure SqlExactlyOnceBackend where
  /-- The `ttl_hours` argument. -/
  ttlHours : ℚ := 48

/-- Why `check_and_stage` raises instead of answering. -/
inductive SqlError where
  /-- The fifth attempt hit a transient error as well. -/
  | operationalError
  /-- The row that caused the conflict was gone when it was selected again. -/
  | assertionError
  /-- A committed row without a commit time was aged. -/
  | attributeError
  /-- The row to update was gone. -/
  | staleDataError
  deriving DecidableEq, Repr

/-- Where a caller stands in `_check_and_stage_impl`: the statement it runs next, or
how the call ended. -/
inductive Phase (Payload : Type*) where
  /-- `_get_row`, the first statement of the session. -/
  | select
  /-- `session.add` and `session.commit` of a new row, none having been seen. -/
  | insert
  /-- `_get_row` again, after the `IntegrityError` and the rollback. -/
  | reselect
  /-- `session.commit` of the FAILED row set back to STAGED. -/
  | reclaim
  /-- The call returned. -/
  | answered (decision : DedupDecision Payload)
  /-- The call raised. -/
  | raised (error : SqlError)
  deriving DecidableEq

/-- A call of `check_and_stage`: the `_with_retry` attempt and the phase within it. -/
structure SqlCall (Payload : Type*) where
  /-- Attempts that already ended in an `OperationalError`. -/
  attempt : ℕ
  /-- The phase of the present attempt. -/
  phase : Phase Payload
  deriving DecidableEq

/-- A call before its first statement. -/
def SqlCall.start : SqlCall Payload := ⟨0, .select⟩

/-- What the environment decides about one step. -/
structure SqlInput where
  /-- `datetime.now(UTC)` as the step reads it. -/
  now : ℚ
  /-- Whether the statement fails with a transient error. -/
  operationalError : Bool
  deriving DecidableEq

/-- The answer to a committed row: expired once older than `ttl_hours`. -/
def SqlExactlyOnceBackend.answerCommitted (backend : SqlExactlyOnceBackend) (now : ℚ)
    (row : DedupRecord Payload) : Phase Payload :=
  match row.committedAt with
  | none => .raised .attributeError
  | some committedAt =>
    if backend.ttlHours < (now - committedAt) / 3600 then
      .answered ⟨.ttlExpiredReverify, row.payloadJson⟩
    else .answered ⟨.committed, row.payloadJson⟩

/-- What the first `_get_row` leads to. -/
def SqlExactlyOnceBackend.afterSelect (backend : SqlExactlyOnceBackend) (now : ℚ) :
    Option (DedupRecord Payload) → Phase Payload
  | none => .insert
  | some row =>
    if row.state = .committed then backend.answerCommitted now row
    else if row.state = .failed then .reclaim
    else .answered ⟨.staged, none⟩

/-- What the second `_get_row` leads to. -/
def afterReselect : Option (DedupRecord Payload) → Phase Payload
  | none => .raised .assertionError
  | some row =>
    if row.state = .committed then .answered ⟨.committed, row.payloadJson⟩
    else .answered ⟨.staged, none⟩

/-- One statement of `_check_and_stage_impl`, when the database executes it. -/
def SqlExactlyOnceBackend.statement (backend : SqlExactlyOnceBackend) (key : DedupKey) (now : ℚ)
    (table : DedupTable Payload) : Phase Payload → DedupTable Payload × Phase Payload
  | .select => (table, backend.afterSelect now (table.find? key.canonical))
  | .insert =>
    match table.insert? key.canonical ⟨.staged, none, now, none⟩ with
    | some table' => (table', .answered ⟨.new, none⟩)
    | none => (table, .reselect)
  | .reselect => (table, afterReselect (table.find? key.canonical))
  | .reclaim =>
    match table.find? key.canonical with
    | none => (table, .raised .staleDataError)
    | some _ =>
      (table.modify key.canonical fun row => { row with state := .staged, stagedAt := now },
        .answered ⟨.new, none⟩)
  | .answered decision => (table, .answered decision)
  | .raised error => (table, .raised error)

/-- `_with_retry` after an `OperationalError`: start over, or give up on the fifth. -/
def SqlCall.retry (call : SqlCall Payload) : SqlCall Payload :=
  if call.attempt = 4 then { call with phase := .raised .operationalError }
  else ⟨call.attempt + 1, .select⟩

/-- Whether the call has ended. -/
def SqlCall.ended (call : SqlCall Payload) : Bool :=
  match call.phase with
  | .answered _ => true
  | .raised _ => true
  | _ => false

/-- One atomic step of `check_and_stage` on one key. -/
def SqlExactlyOnceBackend.step (backend : SqlExactlyOnceBackend) (key : DedupKey)
    (input : SqlInput) (table : DedupTable Payload) (call : SqlCall Payload) :
    DedupTable Payload × SqlCall Payload :=
  if call.ended then (table, call)
  else if input.operationalError then (table, call.retry)
  else
    ((backend.statement key input.now table call.phase).1,
      ⟨call.attempt, (backend.statement key input.now table call.phase).2⟩)

/-- The call has been answered `DedupState.NEW`: its caller goes on to do the work. -/
def SqlCall.AnsweredNew (call : SqlCall Payload) : Prop :=
  ∃ payload, call.phase = .answered ⟨.new, payload⟩

variable {backend : SqlExactlyOnceBackend} {key : DedupKey} {input : SqlInput}
  {table : DedupTable Payload} {call : SqlCall Payload}

/-- A call that has ended stays as it is. -/
theorem step_of_ended (h : call.ended = true) :
    backend.step key input table call = (table, call) := by
  simp [SqlExactlyOnceBackend.step, h]

/-- A transient error leaves the table alone and starts the call over or ends it. -/
theorem step_of_operationalError (h : call.ended = false) (herr : input.operationalError = true) :
    backend.step key input table call = (table, call.retry) := by
  simp [SqlExactlyOnceBackend.step, h, herr]

/-- Otherwise the step is the next statement. -/
theorem step_of_statement (h : call.ended = false) (herr : input.operationalError = false) :
    backend.step key input table call =
      ((backend.statement key input.now table call.phase).1,
        ⟨call.attempt, (backend.statement key input.now table call.phase).2⟩) := by
  simp [SqlExactlyOnceBackend.step, h, herr]

/-- Starting over or giving up answers nothing. -/
theorem retry_phase (call : SqlCall Payload) :
    (call.retry).phase = .select ∨ (call.retry).phase = .raised .operationalError := by
  unfold SqlCall.retry
  by_cases h : call.attempt = 4 <;> simp [h]

end LedgerLens.ExactlyOnce
