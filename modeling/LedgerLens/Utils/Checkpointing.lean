import LedgerLens.Library.Sha256
import LedgerLens.Library.UniqueTable
import Mathlib.Data.String.Basic

/-!
# Checkpointed workflows

`CheckpointStore` keeps one JSON file in a directory for a workflow. A `CheckpointedWorkflow`
holds the record of that file in memory, a `StepCheckpoint` the items of one step that are
done. Files are replaced at once, so a call writes its file or leaves it.

The canonical JSON text of a record is a parameter, and so is what Unicode counts as a letter
or digit beyond ASCII. Retention and the wording of errors are left out.
-/

namespace LedgerLens.Utils.Checkpointing

/-- `CheckpointRecord`. -/
structure CheckpointRecord (Time : Type*) where
  /-- The workflow's id. -/
  workflowId : String
  /-- The version of the file format. -/
  schemaVersion : ℤ
  /-- When it was last saved. -/
  updatedAt : Time
  /-- The steps that finished. -/
  completedSteps : List String
  /-- The items done in each step. -/
  stepProgress : UniqueTable String (List String)

/-- The object in a checkpoint file, without its checksum. A key may be missing. -/
structure CheckpointBody (Time : Type*) where
  /-- `workflow_id`. -/
  workflowId : Option String
  /-- `schema_version`. -/
  schemaVersion : Option ℤ
  /-- `updated_at`. -/
  updatedAt : Option Time
  /-- `completed_steps`. -/
  completedSteps : Option (List String)
  /-- `step_progress`. -/
  stepProgress : Option (UniqueTable String (List String))

/-- What a file of the directory has. -/
inductive CheckpointText (Time : Type*) where
  /-- Text that is not JSON. -/
  | unparsable (reason : String)
  /-- An object with its checksum. -/
  | json (checksum : Option String) (body : CheckpointBody Time)

/-- The files of the store's directory by their names. -/
abbrev Directory (Time : Type*) := UniqueTable String (CheckpointText Time)

/-- What the calls raise. -/
inductive CheckpointError where
  /-- `json.load` raises. -/
  | unparsable (reason : String)
  /-- `CheckpointCorruptionError`. -/
  | corruption (workflowId : String)
  /-- `CheckpointVersionError`. -/
  | version (found : Option ℤ) (workflowId : String)
  /-- `KeyError`. -/
  | missingKey (key : String)
  /-- The file system raises. -/
  | os (reason : String)
  deriving DecidableEq

/-- `SCHEMA_VERSION`. -/
def schemaVersion : ℤ := 1

/-- What the code relies on. -/
structure CheckpointEnv (Time : Type*) where
  /-- `str.isalnum` of a character beyond ASCII. -/
  unicodeAlnum : Char → Bool
  /-- `json.dumps(body, sort_keys=True, separators=(",", ":"))`. -/
  dumps : CheckpointBody Time → String

/-- `StepCheckpoint` of the workflow at hand. -/
structure StepCheckpoint where
  /-- `step_name`. -/
  stepName : String
  /-- `_done`, without repeats. -/
  done : List String
  deriving DecidableEq

/-- `CheckpointedWorkflow`, without its store. -/
structure CheckpointedWorkflow (Time : Type*) where
  /-- `workflow_id`. -/
  workflowId : String
  /-- `_record`. -/
  record : CheckpointRecord Time

variable {Time : Type*} (env : CheckpointEnv Time)

/-- `c.isalnum()`. -/
def isalnum (c : Char) : Bool := if c.toNat < 128 then c.isAlphanum else env.unicodeAlnum c

/-- The file name in `_path`. -/
def fileName (workflowId : String) : String :=
  String.ofList (workflowId.toList.map fun c =>
    if isalnum env c || c ∈ ['-', '_', '.'] then c else '_') ++ ".json"

/-- `_checksum`. -/
def checksum (body : CheckpointBody Time) : String := Sha256.hexdigestString (env.dumps body)

/-- The object that `save` writes, without its checksum. -/
def CheckpointRecord.body (record : CheckpointRecord Time) : CheckpointBody Time where
  workflowId := some record.workflowId
  schemaVersion := some record.schemaVersion
  updatedAt := some record.updatedAt
  completedSteps := some record.completedSteps
  stepProgress := some record.stepProgress

namespace CheckpointStore

/-- `CheckpointStore.load`. -/
def load (directory : Directory Time) (workflowId : String) :
    Except CheckpointError (Option (CheckpointRecord Time)) :=
  match directory.find? (fileName env workflowId) with
  | none => .ok none
  | some (.unparsable reason) => .error (.unparsable reason)
  | some (.json storedChecksum raw) =>
    if storedChecksum ≠ some (checksum env raw) then .error (.corruption workflowId)
    else if raw.schemaVersion ≠ some schemaVersion then
      .error (.version raw.schemaVersion workflowId)
    else
      match raw.workflowId, raw.updatedAt with
      | none, _ => .error (.missingKey "workflow_id")
      | some _, none => .error (.missingKey "updated_at")
      | some storedId, some updatedAt => .ok (some
          ⟨storedId, schemaVersion, updatedAt, raw.completedSteps.getD [],
            raw.stepProgress.getD .empty⟩)

/-- The file from which a record is loaded. -/
theorem file_of_load {env : CheckpointEnv Time} {directory : Directory Time} {workflowId : String}
    {record : CheckpointRecord Time} (h : load env directory workflowId = .ok (some record)) :
    ∃ raw, directory.find? (fileName env workflowId) =
        some (.json (some (checksum env raw)) raw) ∧
      raw.schemaVersion = some schemaVersion ∧ raw.workflowId = some record.workflowId ∧
      raw.updatedAt = some record.updatedAt ∧
      record = ⟨record.workflowId, schemaVersion, record.updatedAt, raw.completedSteps.getD [],
        raw.stepProgress.getD .empty⟩ := by
  unfold load at h
  cases hfile : directory.find? (fileName env workflowId) with
  | none => simp [hfile] at h
  | some text =>
    cases text with
    | unparsable reason => simp [hfile] at h
    | json storedChecksum raw =>
      simp only [hfile] at h
      split_ifs at h with hchecksum hversion
      have hstored := not_not.mp hchecksum
      cases hid : raw.workflowId with
      | none => simp [hid] at h
      | some storedId =>
        cases hdate : raw.updatedAt with
        | none => simp [hid, hdate] at h
        | some updatedAt =>
          simp only [hid, hdate, Except.ok.injEq, Option.some.injEq] at h
          subst h
          exact ⟨raw, by rw [hstored], not_not.mp hversion, hid, hdate, rfl⟩

/-- `CheckpointStore.save` with `_atomic_write_json`. -/
def save (directory : Directory Time) (record : CheckpointRecord Time) (fault : Option String) :
    Except CheckpointError Unit × Directory Time :=
  match fault with
  | some reason => (.error (.os reason), directory)
  | none => (.ok (), directory.put (fileName env record.workflowId)
      (.json (some (checksum env record.body)) record.body))

/-- `CheckpointStore.clear`. -/
def clear (directory : Directory Time) (workflowId : String) (fault : Option String) :
    Except CheckpointError Unit × Directory Time :=
  match fault with
  | some reason => (.error (.os reason), directory)
  | none => (.ok (), directory.erase (fileName env workflowId))

end CheckpointStore

/-- The record of a workflow without progress. -/
def freshRecord (workflowId : String) (now : Time) : CheckpointRecord Time :=
  ⟨workflowId, schemaVersion, now, [], .empty⟩

namespace CheckpointedWorkflow

/-- `CheckpointedWorkflow(store, workflow_id)`. -/
def construct (directory : Directory Time) (workflowId : String) (now : Time) :
    Except CheckpointError (CheckpointedWorkflow Time) :=
  match CheckpointStore.load env directory workflowId with
  | .error e => .error e
  | .ok loaded => .ok ⟨workflowId, loaded.getD (freshRecord workflowId now)⟩

/-- The workflow with another record. -/
def setRecord (workflow : CheckpointedWorkflow Time) (record : CheckpointRecord Time) :
    CheckpointedWorkflow Time :=
  { workflow with record := record }

/-- `is_step_done`. -/
def isStepDone (workflow : CheckpointedWorkflow Time) (stepName : String) : Bool :=
  decide (stepName ∈ workflow.record.completedSteps)

/-- `step`, which makes a `StepCheckpoint`. -/
def step (workflow : CheckpointedWorkflow Time) (stepName : String) : StepCheckpoint :=
  ⟨stepName, ((workflow.record.stepProgress.find? stepName).getD []).dedup⟩

/-- The record when the block of a step ends without an exception. -/
def complete (record : CheckpointRecord Time) (stepName : String) : CheckpointRecord Time :=
  if stepName ∈ record.completedSteps then record
  else { record with completedSteps := record.completedSteps ++ [stepName] }

/-- Completing a step keeps the id and the version of a record. -/
@[simp] theorem complete_workflowId (record : CheckpointRecord Time) (stepName : String) :
    (complete record stepName).workflowId = record.workflowId := by
  unfold complete
  split_ifs <;> rfl

@[simp] theorem complete_schemaVersion (record : CheckpointRecord Time) (stepName : String) :
    (complete record stepName).schemaVersion = record.schemaVersion := by
  unfold complete
  split_ifs <;> rfl

/-- A step is completed once it has been. -/
theorem mem_complete (record : CheckpointRecord Time) (stepName : String) :
    stepName ∈ (complete record stepName).completedSteps := by
  unfold complete
  split_ifs with hmem
  · exact hmem
  · simp

end CheckpointedWorkflow

namespace StepCheckpoint

/-- `is_done` of an item's key. -/
def isDone (checkpoint : StepCheckpoint) (itemKey : String) : Bool :=
  decide (itemKey ∈ checkpoint.done)

/-- `_done.add`. -/
def add (checkpoint : StepCheckpoint) (itemKey : String) : StepCheckpoint :=
  { checkpoint with done := checkpoint.done.insert itemKey }

end StepCheckpoint

/-- The record with the items of a step that are done. -/
def CheckpointRecord.setProgress (record : CheckpointRecord Time) (checkpoint : StepCheckpoint) :
    CheckpointRecord Time :=
  { record with
    stepProgress := record.stepProgress.put checkpoint.stepName
      (checkpoint.done.insertionSort (· ≤ ·)) }

/-- The directory and the objects of the running process. -/
structure Session (Time : Type*) where
  /-- The store's directory. -/
  directory : Directory Time
  /-- The workflow object. -/
  workflow : Option (CheckpointedWorkflow Time)
  /-- Its step checkpoints, in the order they were made. -/
  checkpoints : List StepCheckpoint

/-- One operation on a workflow. -/
inductive WorkflowOp (Time : Type*) where
  /-- A process starts and makes the workflow object. -/
  | construct (now : Time) (fault : Option String)
  /-- `step`: the block of a step begins. -/
  | step (stepName : String)
  /-- `mark_done` on a step checkpoint. -/
  | markDone (checkpoint : ℕ) (itemKey : String) (flush : Bool) (now : Time)
      (fault : Option String)
  /-- The block of a step ends, with an exception or without. -/
  | leave (checkpoint : ℕ) (raised : Bool) (now : Time) (fault : Option String)
  /-- `clear`. -/
  | clear (now : Time) (fault : Option String)
  /-- The process ends. -/
  | crash

namespace Session

/-- `_flush`: the record gets a new date and is saved. -/
def flush (s : Session Time) (workflow : CheckpointedWorkflow Time) (now : Time)
    (fault : Option String) : Session Time :=
  let record := { workflow.record with updatedAt := now }
  { s with
    directory := (CheckpointStore.save env s.directory record fault).2
    workflow := some (workflow.setRecord record) }

/-- A call on the workflow object, if there is one. -/
def onWorkflow (s : Session Time) (call : CheckpointedWorkflow Time → Session Time) :
    Session Time :=
  match s.workflow with
  | none => s
  | some workflow => call workflow

/-- A call on a step checkpoint of the workflow object, if there is one. -/
def onCheckpoint (s : Session Time) (checkpoint : ℕ)
    (call : CheckpointedWorkflow Time → StepCheckpoint → Session Time) : Session Time :=
  s.onWorkflow fun workflow =>
    match s.checkpoints[checkpoint]? with
    | none => s
    | some entry => call workflow entry

/-- `mark_done` before it flushes. -/
def mark (s : Session Time) (workflow : CheckpointedWorkflow Time) (checkpoint : ℕ)
    (entry : StepCheckpoint) : Session Time :=
  { s with
    workflow := some (workflow.setRecord (workflow.record.setProgress entry))
    checkpoints := s.checkpoints.set checkpoint entry }

/-- One operation on the workflow with an id. -/
def perform (workflowId : String) (s : Session Time) : WorkflowOp Time → Session Time
  | .crash => { s with workflow := none, checkpoints := [] }
  | .construct now fault =>
    match fault with
    | some _ => { s with workflow := none, checkpoints := [] }
    | none =>
      { s with
        workflow := (CheckpointedWorkflow.construct env s.directory workflowId now).toOption
        checkpoints := [] }
  | .step stepName => s.onWorkflow fun workflow =>
    { s with checkpoints := s.checkpoints ++ [workflow.step stepName] }
  | .markDone checkpoint itemKey flush now fault =>
    s.onCheckpoint checkpoint fun workflow entry =>
      let entry := entry.add itemKey
      let s := s.mark workflow checkpoint entry
      if flush then
        s.flush env (workflow.setRecord (workflow.record.setProgress entry)) now fault
      else s
  | .leave checkpoint raised now fault =>
    s.onCheckpoint checkpoint fun workflow entry =>
      if raised then s.flush env workflow now fault
      else
        s.flush env (workflow.setRecord
          (CheckpointedWorkflow.complete workflow.record entry.stepName)) now fault
  | .clear now fault => s.onWorkflow fun workflow =>
    match CheckpointStore.clear env s.directory workflow.workflowId fault with
    | (.error _, directory) => { s with directory := directory }
    | (.ok _, directory) =>
      { s with
        directory := directory
        workflow := some (workflow.setRecord (freshRecord workflow.workflowId now)) }

variable {s : Session Time}

/-- A property that a session has and that a call on its workflow object keeps. -/
theorem onWorkflow_of {P : Session Time → Prop} {call : CheckpointedWorkflow Time → Session Time}
    (hs : P s) (hcall : ∀ workflow, s.workflow = some workflow → P (call workflow)) :
    P (s.onWorkflow call) := by
  unfold onWorkflow
  split
  next => exact hs
  next workflow hworkflow => exact hcall workflow hworkflow

/-- A property that a session has and that a call on one of its step checkpoints keeps. -/
theorem onCheckpoint_of {P : Session Time → Prop} {checkpoint : ℕ}
    {call : CheckpointedWorkflow Time → StepCheckpoint → Session Time} (hs : P s)
    (hcall : ∀ workflow entry, s.workflow = some workflow →
      s.checkpoints[checkpoint]? = some entry → P (call workflow entry)) :
    P (s.onCheckpoint checkpoint call) := by
  refine onWorkflow_of hs fun workflow hworkflow => ?_
  split
  next => exact hs
  next entry hentry => exact hcall workflow entry hworkflow hentry

end Session

end LedgerLens.Utils.Checkpointing
