import LedgerLens.Library.UniqueTable
import Mathlib.Data.Rat.Defs

/-!
# The checkpoint store

`CheckpointStore` keeps one row for each stage of each pipeline run. A stage is complete
when its row says so and is not older than the store's time to live. Dates are counted
in microseconds, the resolution of a Python `datetime`; the monotonic clock is in
seconds. Results are stored as JSON text, and the encoder may refuse a value.
-/

namespace LedgerLens.Pipeline

/-- The UNIQUE key of a row. -/
structure CheckpointKey where
  /-- The pipeline run. -/
  runId : String
  /-- The asset pair. -/
  pairId : String
  /-- The stage's name. -/
  stage : String
  deriving DecidableEq

/-- The status column. -/
inductive CheckpointStatus where
  | pending
  | running
  | done
  | failed
  deriving DecidableEq, Repr

/-- `CheckpointRecord`, with its column defaults. -/
structure CheckpointRecord where
  /-- Where the stage stands. -/
  status : CheckpointStatus := .pending
  /-- The encoded result of a completed run. -/
  resultJson : Option String := none
  /-- When the stage last began. -/
  startedAt : Option ℤ := none
  /-- When it last ended. -/
  completedAt : Option ℤ := none
  /-- The last failure. -/
  errorMessage : Option String := none
  deriving DecidableEq

/-- An exception: its type's name, its text, and whether the type derives from
`Exception`, which `KeyboardInterrupt`, `SystemExit` and `GeneratorExit` do not. -/
structure PyException where
  /-- The name of its type. -/
  typeName : String
  /-- Its text. -/
  message : String
  /-- Whether `except Exception` catches it. -/
  isException : Bool
  deriving DecidableEq

/-- `json.dumps` and `json.loads` on result payloads. -/
structure JsonCodec (Payload : Type*) where
  /-- Encoding, which may raise. -/
  dumps : Payload → Except PyException String
  /-- Decoding; `none` stands for `JSONDecodeError`. -/
  loads : String → Option Payload

/-- `CheckpointStore` with its table. -/
structure CheckpointStore where
  /-- The `ttl_hours` argument. -/
  ttlHours : ℤ := 48
  /-- The table of checkpoints. -/
  table : UniqueTable CheckpointKey CheckpointRecord := .empty
  /-- `_last_eviction`, on the monotonic clock. -/
  lastEviction : ℚ := 0

/-- The clock readings of `mark_started`, in order. -/
structure StartTimes where
  /-- The monotonic clock, to see whether an eviction is due. -/
  monotonic : ℚ
  /-- The date of the eviction. -/
  evictAt : ℤ
  /-- The monotonic clock after the eviction. -/
  evictedAt : ℚ
  /-- The date of the start. -/
  startedAt : ℤ

/-- A number of hours in microseconds. -/
def hours (n : ℤ) : ℤ := n * 3600000000

/-- `_EVICTION_INTERVAL_SECONDS`. -/
def evictionIntervalSeconds : ℚ := 3600

namespace CheckpointStore

variable {Payload : Type*}

/-- `_get`. -/
def get (store : CheckpointStore) (key : CheckpointKey) : Option CheckpointRecord :=
  store.table.find? key

/-- The status of a stage, if it has a row. -/
def status (store : CheckpointStore) (key : CheckpointKey) : Option CheckpointStatus :=
  (store.get key).map CheckpointRecord.status

/-- `is_complete`. -/
def isComplete (store : CheckpointStore) (now : ℤ) (key : CheckpointKey) : Bool :=
  match store.get key with
  | none => false
  | some record =>
    decide (record.status = .done) &&
      match record.completedAt with
      | none => false
      | some completedAt => !decide (hours store.ttlHours < now - completedAt)

/-- `get_result`. -/
def getResult (codec : JsonCodec Payload) (store : CheckpointStore) (key : CheckpointKey) :
    Option Payload :=
  (store.get key).bind fun record => record.resultJson.bind codec.loads

/-- Whether `evict_expired` deletes a row; a comparison with NULL does not hold. -/
def expired (cutoff : ℤ) (record : CheckpointRecord) : Bool :=
  match record.completedAt, record.startedAt with
  | some completedAt, _ => decide (completedAt < cutoff)
  | none, some startedAt => decide (startedAt < cutoff)
  | none, none => false

/-- `evict_expired`. -/
def evictExpired (store : CheckpointStore) (now : ℤ) (monotonic : ℚ) : CheckpointStore :=
  { store with
    table := store.table.deleteWhere fun _ record => expired (now - hours store.ttlHours) record
    lastEviction := monotonic }

/-- `_upsert_status`: columns whose argument is `None` keep their value. -/
def upsertStatus (store : CheckpointStore) (key : CheckpointKey) (status : CheckpointStatus)
    (startedAt completedAt : Option ℤ := none) (resultJson errorMessage : Option String := none) :
    CheckpointStore :=
  let record := (store.get key).getD {}
  { store with
    table := store.table.put key
      { status := status
        startedAt := startedAt.or record.startedAt
        completedAt := completedAt.or record.completedAt
        resultJson := resultJson.or record.resultJson
        errorMessage := errorMessage.or record.errorMessage } }

/-- `mark_started`. -/
def markStarted (store : CheckpointStore) (times : StartTimes) (key : CheckpointKey) :
    CheckpointStore :=
  let store := if evictionIntervalSeconds ≤ times.monotonic - store.lastEviction then
    store.evictExpired times.evictAt times.evictedAt else store
  store.upsertStatus key .running (some times.startedAt)

/-- `mark_done`, which raises what the encoder raises and then leaves the store alone. -/
def markDone (codec : JsonCodec Payload) (store : CheckpointStore) (now : ℤ)
    (key : CheckpointKey) (result : Option Payload) : Except PyException CheckpointStore :=
  match result with
  | none => .ok (store.upsertStatus key .done none (some now))
  | some payload =>
    match codec.dumps payload with
    | .error e => .error e
    | .ok text => .ok (store.upsertStatus key .done none (some now) (some text))

/-- `mark_failed`. -/
def markFailed (store : CheckpointStore) (now : ℤ) (key : CheckpointKey) (error : String) :
    CheckpointStore :=
  store.upsertStatus key .failed none (some now) none (some error)

variable {store : CheckpointStore} {key key' : CheckpointKey} {now : ℤ}

@[simp] theorem status_upsertStatus {status : CheckpointStatus}
    {startedAt completedAt : Option ℤ} {resultJson errorMessage : Option String} :
    (store.upsertStatus key status startedAt completedAt resultJson errorMessage).status key' =
      if key' = key then some status else store.status key' := by
  unfold CheckpointStore.status get upsertStatus
  rw [UniqueTable.find?_put]
  split_ifs <;> rfl

@[simp] theorem status_markStarted {times : StartTimes} :
    (store.markStarted times key).status key = some .running := by
  simp [markStarted]

@[simp] theorem status_markFailed {error : String} :
    (store.markFailed now key error).status key = some .failed := by
  simp [markFailed]

/-- The encoder accepts a payload, or there is none to encode. -/
def Encodes (codec : JsonCodec Payload) (result : Option Payload) : Prop :=
  ∀ payload ∈ result, ∃ text, codec.dumps payload = .ok text

/-- `mark_done` goes through exactly when the payload can be encoded, and then the stage
is done. -/
theorem markDone_of_encodes (store : CheckpointStore) (key : CheckpointKey) (now : ℤ)
    {codec : JsonCodec Payload} {result : Option Payload} (h : Encodes codec result) :
    ∃ store', store.markDone codec now key result = .ok store' ∧
      store'.status key = some .done := by
  unfold markDone
  cases result with
  | none => exact ⟨_, rfl, by simp⟩
  | some payload =>
    obtain ⟨text, htext⟩ := h payload rfl
    simp only [htext]
    exact ⟨_, rfl, by simp⟩

theorem markDone_of_not_encodes (store : CheckpointStore) (key : CheckpointKey) (now : ℤ)
    {codec : JsonCodec Payload} {result : Option Payload} (h : ¬Encodes codec result) :
    ∃ e, store.markDone codec now key result = .error e := by
  unfold markDone
  cases result with
  | none => exact absurd (by simp [Encodes]) h
  | some payload =>
    cases hdumps : codec.dumps payload with
    | error e => exact ⟨e, by simp only [hdumps]⟩
    | ok text => exact absurd (fun _ hp => ⟨text, Option.mem_some.mp hp ▸ hdumps⟩) h

/-- A stage is complete if its row says so and is not older than the time to live. -/
theorem isComplete_iff :
    store.isComplete now key = true ↔
      ∃ record completedAt, store.get key = some record ∧ record.status = .done ∧
        record.completedAt = some completedAt ∧ now - completedAt ≤ hours store.ttlHours := by
  unfold isComplete
  cases hget : store.get key with
  | none => simp
  | some record =>
    cases hdate : record.completedAt with
    | none => simp [hdate]
    | some completedAt => simp [hdate, not_lt]

/-- Only a stage whose row says so is complete. -/
theorem status_of_isComplete (h : store.isComplete now key = true) :
    store.status key = some .done := by
  obtain ⟨record, -, hget, hdone, -⟩ := isComplete_iff.mp h
  unfold CheckpointStore.status
  rw [hget]
  exact congrArg some hdone

end CheckpointStore

end LedgerLens.Pipeline
