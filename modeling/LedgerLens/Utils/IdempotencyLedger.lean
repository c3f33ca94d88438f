import LedgerLens.Library.Interleaving
import LedgerLens.Library.Sha256
import LedgerLens.Library.UniqueTable
import Mathlib.Algebra.Order.Field.Rat

/-!
# The idempotency ledger

`IdempotencyLedger.run` executes a job under a key whose row says what became of it. The
statements of a call are atomic in the database, and other callers run between them, so a
call is a program whose steps are these statements, the readings of the wall clock and the
end of `fn`. All callers here have the same key, the same input payload and one lease.
-/

namespace LedgerLens.Utils.IdempotencyLedger

/-- `JobStatus`. -/
inductive JobStatus where
  /-- `"pending"`. -/
  | pending
  /-- `"success"`. -/
  | success
  /-- `"failed"`. -/
  | failed
  deriving DecidableEq

/-- `JobRecord`, a row of `idempotency_jobs`; its primary key `key` is the table's key. -/
structure JobRecord where
  /-- The status. -/
  status : JobStatus
  /-- The hash of the payload that the key was first used with. -/
  inputHash : String
  /-- The JSON text of the result. -/
  result : Option String
  /-- What the last failure said. -/
  error : Option String
  /-- How often the row was updated. -/
  attempts : ℕ
  /-- When the row was inserted. -/
  createdAt : ℚ
  /-- When the row was last written. -/
  updatedAt : ℚ
  deriving DecidableEq

/-- The table `idempotency_jobs`. -/
abbrev JobTable := UniqueTable String JobRecord

/-- `_hash_payload`, from the canonical JSON text of the payload. -/
def hashPayload (canonical : String) : String := Sha256.hexdigestString canonical

/-- The `INSERT OR IGNORE` of `_begin_attempt`, and whether it made the row. -/
def insertOrIgnore (table : JobTable) (key inputHash : String) (now : ℚ) : JobTable × Bool :=
  match table.insert? key ⟨.pending, inputHash, none, none, 0, now, now⟩ with
  | none => (table, false)
  | some table' => (table', true)

/-- The `UPDATE` of `_touch_pending`. -/
def touchPending (table : JobTable) (key : String) (now : ℚ) : JobTable :=
  table.modify key fun row =>
    { row with status := .pending, attempts := row.attempts + 1, updatedAt := now }

/-- The `UPDATE` of `_mark_success`. -/
def markSuccess (table : JobTable) (key result : String) (now : ℚ) : JobTable :=
  table.modify key fun row =>
    { row with
      status := .success
      result := some result
      error := none
      attempts := row.attempts + 1
      updatedAt := now }

/-- The `UPDATE` of `_mark_failed`. -/
def markFailed (table : JobTable) (key error : String) (now : ℚ) : JobTable :=
  table.modify key fun row =>
    { row with
      status := .failed
      error := some error
      attempts := row.attempts + 1
      updatedAt := now }

/-- The arguments of `run` but for `fn`. -/
structure Call (Result : Type*) where
  /-- `key`. -/
  key : String
  /-- `input_payload` as canonical JSON text. -/
  payload : String
  /-- `lease_seconds`. -/
  leaseSeconds : ℚ
  /-- `json.dumps` of a result, which raises `TypeError` for some. -/
  dumps : Result → Option String

/-- How a call of `run` ends. -/
inductive Outcome (Result : Type*) where
  /-- The result of `fn`. -/
  | returned (result : Result)
  /-- The result that an earlier call stored. -/
  | replayed (result : Option String)
  /-- `IdempotencyConflictError`. -/
  | conflict (expectedHash actualHash : String)
  /-- `ConcurrentExecutionError`. -/
  | concurrent (leaseAge : ℚ)
  /-- The exception of `fn`. -/
  | raised (error : String)
  /-- An exception of `fn` that is no `Exception`. -/
  | interrupted
  /-- The `TypeError` of `json.dumps`. -/
  | typeError
  /-- The row was gone when `_begin_attempt` read it. -/
  | assertionError
  deriving DecidableEq

/-- Where a call stands. From the execution on, `claim` is the stamp that the call itself has
written into the row; there is none after a failed row was taken as it was. -/
inductive Phase (Result : Type*) where
  /-- Before `now = time.time()`. -/
  | called
  /-- Before the `INSERT OR IGNORE`. -/
  | stamped (now : ℚ)
  /-- Before the row is read. -/
  | inserted (created : Bool) (now : ℚ)
  /-- Before the record that was read is looked at. -/
  | hasRead (created : Bool) (now : ℚ) (record : JobRecord)
  /-- Before the `time.time()` of `_touch_pending`. -/
  | reclaiming
  /-- Before the `UPDATE` of `_touch_pending`. -/
  | touching (now : ℚ)
  /-- In `fn`. -/
  | executing (claim : Option ℚ)
  /-- `fn` has returned; before `_mark_success`. -/
  | returned (claim : Option ℚ) (result : Result)
  /-- `fn` has raised; before `_mark_failed`. -/
  | raised (claim : Option ℚ) (error : String)
  /-- The call is over. -/
  | finished (outcome : Outcome Result)
  deriving DecidableEq

/-- What the callers share. -/
structure Ledger where
  /-- The table. -/
  table : JobTable
  /-- What the wall clock shows. -/
  clock : ℚ
  /-- How often `fn` has returned normally. -/
  normalReturns : ℕ

/-- What happens next to a call. -/
inductive Act (Result : Type*) where
  /-- The wall clock is at `now`. -/
  | clock (now : ℚ)
  /-- The next step of `run`, outside `fn`. -/
  | statement
  /-- `fn` returns. -/
  | fnReturns (result : Result)
  /-- `fn` raises an `Exception`. -/
  | fnRaises (error : String)
  /-- `fn` raises something else. -/
  | fnInterrupted
  deriving DecidableEq

namespace Call

variable {Result : Type*} (call : Call Result)

/-- `input_hash`. -/
def inputHash : String := hashPayload call.payload

/-- What `run` decides about the record that it has read, at a time. -/
def check (clock : ℚ) (created : Bool) (now : ℚ) (record : JobRecord) : Phase Result :=
  if record.inputHash ≠ call.inputHash then
    .finished (.conflict record.inputHash call.inputHash)
  else if record.status = .success then .finished (.replayed record.result)
  else if created = false ∧ record.status = .pending then
    if clock - record.updatedAt < call.leaseSeconds then
      .finished (.concurrent (clock - record.updatedAt))
    else .reclaiming
  else .executing (if created then some now else none)

/-- The next step of `run` outside `fn`. -/
def statement (ledger : Ledger) : Phase Result → Ledger × Phase Result
  | .called => (ledger, .stamped ledger.clock)
  | .stamped now =>
    ({ ledger with table := (insertOrIgnore ledger.table call.key call.inputHash now).1 },
      .inserted (insertOrIgnore ledger.table call.key call.inputHash now).2 now)
  | .inserted created now =>
    match ledger.table.find? call.key with
    | none => (ledger, .finished .assertionError)
    | some record => (ledger, .hasRead created now record)
  | .hasRead created now record => (ledger, call.check ledger.clock created now record)
  | .reclaiming => (ledger, .touching ledger.clock)
  | .touching now =>
    ({ ledger with table := touchPending ledger.table call.key now }, .executing (some now))
  | .executing claim => (ledger, .executing claim)
  | .returned _ result =>
    match call.dumps result with
    | none => (ledger, .finished .typeError)
    | some text =>
      ({ ledger with table := markSuccess ledger.table call.key text ledger.clock },
        .finished (.returned result))
  | .raised _ error =>
    ({ ledger with table := markFailed ledger.table call.key error ledger.clock },
      .finished (.raised error))
  | .finished outcome => (ledger, .finished outcome)

/-- What happens next to a call, to the ledger and to where the call stands. -/
def step : Act Result → Ledger → Phase Result → Ledger × Phase Result
  | .clock now, ledger, phase => ({ ledger with clock := now }, phase)
  | .statement, ledger, phase => call.statement ledger phase
  | .fnReturns result, ledger, .executing claim =>
    ({ ledger with normalReturns := ledger.normalReturns + 1 }, .returned claim result)
  | .fnRaises error, ledger, .executing claim => (ledger, .raised claim error)
  | .fnInterrupted, ledger, .executing _ => (ledger, .finished .interrupted)
  | _, ledger, phase => (ledger, phase)

end Call

end LedgerLens.Utils.IdempotencyLedger
