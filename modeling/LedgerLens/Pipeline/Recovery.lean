import LedgerLens.Pipeline.CheckpointStore
import Mathlib.Logic.Function.Basic

/-!
# Recoverable stages

`PipelineCheckpoint` marks a stage as running when its block is entered and as done or
failed when the block is left. `RecoveryManager.stage` wraps it in a generator that
catches `Exception` to learn how the block ended. Interrupts do not derive from
`Exception`, so that the checkpoint is left as if the block had returned. This file
determines after which ends of a block the record tells the truth.
-/

namespace LedgerLens.Pipeline

variable {Payload : Type*}

/-- `_CheckpointState`: what the block of a stage is given. -/
structure StageContext (Payload : Type*) where
  /-- The stage is complete and the block should not work. -/
  skip : Bool
  /-- The result of the earlier run, when it is skipped. -/
  result : Option Payload

/-- The clock readings on entering a checkpoint. -/
structure EnterTimes where
  /-- The date at which completion is judged. -/
  checkedAt : ℤ
  /-- The readings of `mark_started`. -/
  start : StartTimes

/-- `PipelineCheckpoint`. -/
structure PipelineCheckpoint where
  /-- The stage it wraps. -/
  key : CheckpointKey
  /-- Run the stage even if it is complete. -/
  force : Bool := false

/-- The text under which a failure is recorded. -/
def PyException.describe (e : PyException) : String := e.typeName ++ ": " ++ e.message

namespace PipelineCheckpoint

/-- `__enter__`. -/
def enter (cp : PipelineCheckpoint) (codec : JsonCodec Payload) (times : EnterTimes)
    (store : CheckpointStore) : CheckpointStore × StageContext Payload :=
  if !cp.force && store.isComplete times.checkedAt cp.key then
    (store, ⟨true, store.getResult codec cp.key⟩)
  else (store.markStarted times.start cp.key, ⟨false, none⟩)

/-- `__exit__` with the exception it is told of and the pending result. -/
def exit (cp : PipelineCheckpoint) (codec : JsonCodec Payload) (now : ℤ)
    (context : StageContext Payload) (pending : Option Payload) (told : Option PyException)
    (store : CheckpointStore) : Except PyException CheckpointStore :=
  if context.skip then .ok store
  else
    match told with
    | none => store.markDone codec now cp.key pending
    | some e => .ok (store.markFailed now cp.key e.describe)

end PipelineCheckpoint

/-- `StageSnapshot`: the size and perhaps the checksum of a stage's output. -/
structure StageSnapshot where
  /-- How many records there are. -/
  recordCount : ℤ
  /-- Their checksum. -/
  checksum : Option String := none
  deriving DecidableEq

/-- `ConsistencyCheck`. -/
structure ConsistencyCheck where
  /-- The stage that is compared. -/
  stage : String
  /-- What the source of truth says. -/
  expected : Option StageSnapshot
  /-- What was recovered. -/
  actual : Option StageSnapshot

/-- `ConsistencyCheck.issues`. -/
def ConsistencyCheck.issues (check : ConsistencyCheck) : List String :=
  match check.expected, check.actual with
  | none, _ => ["no expected state recorded"]
  | some _, none => ["stage output missing after recovery"]
  | some expected, some actual =>
    (if expected.recordCount ≠ actual.recordCount then
      ["record count mismatch: expected " ++ toString expected.recordCount ++ ", actual " ++
        toString actual.recordCount] else []) ++
    match expected.checksum, actual.checksum with
    | some want, some got =>
      if want ≠ got then
        ["checksum mismatch: expected " ++ String.ofList (want.toList.take 12) ++ "…, actual " ++
          String.ofList (got.toList.take 12) ++ "…"] else []
    | _, _ => []

/-- `ConsistencyCheck.passed`. -/
def ConsistencyCheck.passed (check : ConsistencyCheck) : Bool := check.issues.isEmpty

/-- `RecoveryReport`, as far as it decides whether stages may run. -/
structure RecoveryReport where
  /-- The comparisons. -/
  checks : List ConsistencyCheck
  /-- Who approved resuming after a failure. -/
  approvedBy : Option String := none

/-- `RecoveryReport.passed`. -/
def RecoveryReport.passed (report : RecoveryReport) : Bool :=
  report.checks.all ConsistencyCheck.passed

/-- `RecoveryReport.resume_allowed`. -/
def RecoveryReport.resumeAllowed (report : RecoveryReport) : Bool :=
  report.passed || report.approvedBy.isSome

/-- The status of a tracked stage. -/
inductive StageStatus where
  | skipped
  | completed
  | failed
  deriving DecidableEq, Repr

/-- `StageResult`: the in-memory record of a stage. -/
structure StageResult (Payload : Type*) where
  /-- The stage's name. -/
  stage : String
  /-- How it went. -/
  status : StageStatus
  /-- How long the block took, in seconds. -/
  wallSeconds : ℚ
  /-- The payload the block set. -/
  resultPayload : Option Payload
  /-- The failure, or the empty text. -/
  error : String

/-- `RecoveryManager`. -/
structure RecoveryManager (Payload : Type*) where
  /-- The durable store. -/
  store : CheckpointStore
  /-- The tracked stages of each run and pair. -/
  trackers : String × String → List (StageResult Payload) := fun _ => []
  /-- The latest verification report of each run and pair. -/
  reports : String × String → Option RecoveryReport := fun _ => none

/-- What the block of a stage does. The store may change meanwhile, by other stages that
run inside the block or next to it, but nobody else completes this very stage. -/
structure StageBody (Payload : Type*) (key : CheckpointKey) where
  /-- The exception that leaves the block; `none` when it returns. -/
  raised : Option PyException
  /-- The last payload given to `set_result`. -/
  pending : Option Payload := none
  /-- What happens to the store meanwhile. -/
  meanwhile : CheckpointStore → CheckpointStore := id
  /-- The stage is not completed meanwhile. -/
  meanwhile_not_done : ∀ store, store.status key ≠ some .done →
    (meanwhile store).status key ≠ some .done := by exact fun _ h => h

/-- The clock readings of one stage. -/
structure StageTimes where
  /-- On entering. -/
  enter : EnterTimes
  /-- The date of the checkpoint's end. -/
  exitAt : ℤ
  /-- The time spent, in seconds. -/
  elapsed : ℚ

/-- How a stage call ended for its caller. -/
inductive StageEnd (Payload : Type*) where
  /-- `RecoveryBlockedError` before anything happened. -/
  | blocked (report : RecoveryReport)
  /-- The block was entered with a context and left; what is raised to the caller. -/
  | left (context : StageContext Payload) (raised : Option PyException)

namespace RecoveryManager

/-- The clause `except Exception`: the exception it catches. -/
def caught (raised : Option PyException) : Option PyException := raised.filter (·.isException)

/-- `stage` for a run that is not blocked. The `finally` clause leaves the checkpoint with
the exception that was caught; what it raises itself takes the place of the block's. -/
def runStage (manager : RecoveryManager Payload) (codec : JsonCodec Payload)
    (cp : PipelineCheckpoint) (times : StageTimes) (body : StageBody Payload cp.key) :
    RecoveryManager Payload × StageEnd Payload :=
  let (store, context) := cp.enter codec times.enter manager.store
  let told := caught body.raised
  match cp.exit codec times.exitAt context body.pending told (body.meanwhile store) with
  | .error e => ({ manager with store := body.meanwhile store }, .left context (some e))
  | .ok store =>
    let result : StageResult Payload :=
      { stage := cp.key.stage
        status := if context.skip then .skipped else if told = none then .completed else .failed
        wallSeconds := times.elapsed
        resultPayload := body.pending
        error := if context.skip then "" else (told.map PyException.describe).getD "" }
    let pair := (cp.key.runId, cp.key.pairId)
    ({ manager with
        store := store
        trackers := Function.update manager.trackers pair (manager.trackers pair ++ [result]) },
      .left context body.raised)

/-- `stage`. -/
def stage (manager : RecoveryManager Payload) (codec : JsonCodec Payload)
    (cp : PipelineCheckpoint) (times : StageTimes) (body : StageBody Payload cp.key) :
    RecoveryManager Payload × StageEnd Payload :=
  match manager.reports (cp.key.runId, cp.key.pairId) with
  | none => manager.runStage codec cp times body
  | some report =>
    if report.resumeAllowed then manager.runStage codec cp times body
    else (manager, .blocked report)

variable {manager : RecoveryManager Payload} {codec : JsonCodec Payload}
  {cp : PipelineCheckpoint} {times : StageTimes} {body : StageBody Payload cp.key}
  {context : StageContext Payload} {raised : Option PyException}

/-- A block that is entered is one of a run that is not blocked. -/
theorem stage_eq_runStage (h : (manager.stage codec cp times body).2 = .left context raised) :
    manager.stage codec cp times body = manager.runStage codec cp times body := by
  unfold stage at h ⊢
  cases hreport : manager.reports (cp.key.runId, cp.key.pairId) with
  | none => rfl
  | some report =>
    rw [hreport] at h
    dsimp only at h ⊢
    by_cases hallowed : report.resumeAllowed = true
    · rw [if_pos hallowed]
    · rw [if_neg hallowed] at h
      cases h

/-- A block that is entered was given the context of its checkpoint. -/
theorem context_of_runStage
    (h : (manager.runStage codec cp times body).2 = .left context raised) :
    context = (cp.enter codec times.enter manager.store).2 := by
  unfold runStage at h
  dsimp only at h
  split at h <;> simp only [StageEnd.left.injEq] at h <;> exact h.1.symm

/-- A checkpoint that does not skip marks the stage as running. -/
theorem status_enter (h : (cp.enter codec times.enter manager.store).2.skip = false) :
    (cp.enter codec times.enter manager.store).1.status cp.key = some .running := by
  unfold PipelineCheckpoint.enter at h ⊢
  by_cases hskip : (!cp.force && manager.store.isComplete times.enter.checkedAt cp.key) = true
  · rw [if_pos hskip] at h
    cases h
  · rw [if_neg hskip]
    exact CheckpointStore.status_markStarted

/-- After a block that was not skipped the stage is done exactly when the checkpoint was
told of no exception and the pending payload can be encoded. -/
theorem runStage_done_iff (h : (cp.enter codec times.enter manager.store).2.skip = false) :
    (manager.runStage codec cp times body).1.store.status cp.key = some .done ↔
      caught body.raised = none ∧ CheckpointStore.Encodes codec body.pending := by
  have hrunning := status_enter h
  unfold runStage
  rcases henter : cp.enter codec times.enter manager.store with ⟨store, context⟩
  rw [henter] at h hrunning
  dsimp only at h hrunning ⊢
  unfold PipelineCheckpoint.exit
  rw [h]
  cases htold : caught body.raised with
  | some e => simp
  | none =>
    by_cases hencodes : CheckpointStore.Encodes codec body.pending
    · obtain ⟨done, hdone, hstatus⟩ := CheckpointStore.markDone_of_encodes
        (body.meanwhile store) cp.key times.exitAt hencodes
      simp only [Bool.false_eq_true, if_false, hdone]
      exact iff_of_true hstatus ⟨trivial, hencodes⟩
    · obtain ⟨e, he⟩ := CheckpointStore.markDone_of_not_encodes
        (body.meanwhile store) cp.key times.exitAt hencodes
      simp only [Bool.false_eq_true, if_false, he]
      have hnot := body.meanwhile_not_done store (by simp [hrunning])
      simpa [hencodes] using hnot

/-- The record of a stage tells how its block ended: it is done exactly when the block
returned, and complete at no time unless the block returned. -/
def RecordTells (store : CheckpointStore) (key : CheckpointKey) (raised : Option PyException) :
    Prop :=
  (store.status key = some .done ↔ raised = none) ∧
    ∀ now, store.isComplete now key = true → raised = none

/-- How a block has to end for the record to tell: it returns with a payload that can be
encoded, or with an exception that `except Exception` catches, or it is interrupted while
a payload is pending that cannot be encoded. -/
def EndsRecordably (codec : JsonCodec Payload) (pending : Option Payload) :
    Option PyException → Prop
  | none => CheckpointStore.Encodes codec pending
  | some e => e.isException = true ∨ ¬CheckpointStore.Encodes codec pending

/-- After a block that was entered and not skipped the record tells how the block ended
exactly when it ended recordably. -/
theorem stage_record_iff (hleft : (manager.stage codec cp times body).2 = .left context raised)
    (hskip : context.skip = false) :
    RecordTells (manager.stage codec cp times body).1.store cp.key body.raised ↔
      EndsRecordably codec body.pending body.raised := by
  have hrun := stage_eq_runStage hleft
  rw [hrun] at hleft ⊢
  have hcontext := context_of_runStage hleft
  have hdone : (manager.runStage codec cp times body).1.store.status cp.key = some .done ↔ _ :=
    runStage_done_iff (hcontext ▸ hskip)
  have hcomplete : ((manager.runStage codec cp times body).1.store.status cp.key = some .done →
      body.raised = none) → ∀ now,
      (manager.runStage codec cp times body).1.store.isComplete now cp.key = true →
        body.raised = none :=
    fun h now hnow => h (CheckpointStore.status_of_isComplete hnow)
  unfold RecordTells
  rw [and_iff_left_of_imp fun h => hcomplete h.mp, hdone]
  cases hraised : body.raised with
  | none => simp [caught, EndsRecordably]
  | some e =>
    cases hexc : e.isException with
    | true => simp [caught, EndsRecordably, hexc, Option.filter_some]
    | false => simp [caught, EndsRecordably, hexc, Option.filter_some]

/-- The codec of the examples, whose payloads are row counts. -/
def countCodec : JsonCodec ℕ := ⟨fun n => .ok (toString n), String.toNat?⟩

/-- The ingestion stage of the examples. -/
def ingestCheckpoint : PipelineCheckpoint := { key := ⟨"run", "XLM/USDC", "ingest"⟩ }

/-- A stage entered at the epoch and left a second later. -/
def oneSecond : StageTimes := ⟨⟨0, ⟨0, 0, 0, 0⟩⟩, 1000000, 1⟩

/-- A manager over an empty store. -/
def freshManager : RecoveryManager ℕ := { store := {} }

/-- The operator interrupts the block. -/
def keyboardInterrupt : StageBody ℕ ingestCheckpoint.key :=
  { raised := some ⟨"KeyboardInterrupt", "", false⟩ }

/-- Ingesting fails with an error. -/
def ingestFails : StageBody ℕ ingestCheckpoint.key :=
  { raised := some ⟨"OSError", "disk full", true⟩ }

/-- The block of a stage that is run on an empty store is interrupted: its record says that
it is done. -/
theorem interrupted_stage_recorded_done :
    (freshManager.stage countCodec ingestCheckpoint oneSecond keyboardInterrupt).2 =
        .left ⟨false, none⟩ keyboardInterrupt.raised ∧
      ¬RecordTells
        (freshManager.stage countCodec ingestCheckpoint oneSecond keyboardInterrupt).1.store
        ingestCheckpoint.key keyboardInterrupt.raised := by
  refine ⟨rfl, fun h => ?_⟩
  have hreturned := h.1.mp (by decide +kernel)
  exact absurd hreturned (by decide)

/-- An error in the block is recorded as such. -/
theorem stage_record_of_error :
    RecordTells
      (freshManager.stage countCodec ingestCheckpoint oneSecond ingestFails).1.store
      ingestCheckpoint.key ingestFails.raised :=
  (stage_record_iff (show _ = StageEnd.left ⟨false, none⟩ ingestFails.raised from rfl) rfl).mpr
    (Or.inl rfl)

end RecoveryManager

end LedgerLens.Pipeline
