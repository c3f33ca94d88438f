import LedgerLens.Library.Sha256
import LedgerLens.Library.UniqueTable
import Mathlib.Data.String.Basic

/-!
# The checkpoint of a batch pipeline

`PipelineCheckpoint` of `utils.checkpoint` keeps which units of work are completed and which
failed, and writes both to one JSON file after every unit.

What JSON makes of a unit's metadata is a parameter. The wording of errors is left out.
-/

namespace LedgerLens.Utils

/-- What is recorded of a completed unit. -/
structure CompletedUnit (Meta : Type*) where
  /-- When it was completed. -/
  completedAt : String
  /-- Where its result is cached. -/
  artifactPath : Option String
  /-- What the caller adds. -/
  metadata : Meta
  deriving DecidableEq

/-- What is recorded of a failed unit. -/
structure FailedUnit where
  /-- When it last failed. -/
  failedAt : String
  /-- The last error. -/
  error : String
  /-- How often it was recorded as failed. -/
  attempts : ℕ
  deriving DecidableEq

/-- `PipelineCheckpoint`, without its path. -/
structure PipelineCheckpoint (Meta Inputs : Type*) where
  /-- The pipeline's name. -/
  pipeline : String
  /-- The fingerprint of its inputs. -/
  fingerprint : String
  /-- Its inputs. -/
  fingerprintInputs : Inputs
  /-- The units that are done. -/
  completed : UniqueTable String (CompletedUnit Meta)
  /-- The units that failed. -/
  failed : UniqueTable String FailedUnit
  /-- When the run started. -/
  startedAt : String

/-- The object in a checkpoint file. A key may be missing. -/
structure RawCheckpoint (Meta : Type*) where
  /-- `schema_version`. -/
  schemaVersion : Option ℤ
  /-- `pipeline`. -/
  pipeline : Option String
  /-- `fingerprint`. -/
  fingerprint : Option String
  /-- `started_at`. -/
  startedAt : Option String
  /-- `completed`. -/
  completed : Option (UniqueTable String (CompletedUnit Meta))
  /-- `failed`. -/
  failed : Option (UniqueTable String FailedUnit)

/-- What is at the checkpoint's path. -/
inductive CheckpointFile (Meta : Type*) where
  /-- No file. -/
  | absent
  /-- A file that is not JSON. -/
  | unparsable (reason : String)
  /-- A file that `_save` wrote, or another JSON object. -/
  | json (raw : RawCheckpoint Meta)

/-- What the methods raise. -/
inductive CheckpointError where
  /-- `CheckpointCorruptError`: the file cannot be read. -/
  | unreadable (reason : String)
  /-- `CheckpointCorruptError`: the file has another schema version. -/
  | schemaVersion (found : Option ℤ)
  /-- `CheckpointMismatchError`: the file belongs to another pipeline. -/
  | otherPipeline (found : Option String) (expected : String)
  /-- `CheckpointMismatchError`: the run had other inputs. -/
  | otherInputs (found : Option String) (expected : String)
  /-- `_save` raises. -/
  | save (reason : String)
  deriving DecidableEq

/-- `json` on the metadata of units. -/
structure MetadataCodec (Meta : Type*) where
  /-- The empty dictionary. -/
  empty : Meta
  /-- What is read back from what `json.dump(…, sort_keys=True, default=str)` writes, which
  may raise. -/
  reread : Meta → Except String Meta

/-- `CHECKPOINT_SCHEMA_VERSION`. -/
def checkpointSchemaVersion : ℤ := 1

variable {Meta Inputs : Type*}

/-- `compute_fingerprint` of inputs that have a JSON text. -/
def computeFingerprint (dumps : Inputs → String) (inputs : Inputs) : String :=
  String.ofList ((Sha256.hexdigestString (dumps inputs)).toList.take 16)

namespace PipelineCheckpoint

/-- `is_done`. -/
def isDone (ckpt : PipelineCheckpoint Meta Inputs) (unitId : String) : Bool :=
  (ckpt.completed.find? unitId).isSome

/-- `pending`. -/
def pending (ckpt : PipelineCheckpoint Meta Inputs) (unitIds : List String) : List String :=
  unitIds.filter fun unitId => !ckpt.isDone unitId

section Operations

variable (codec : MetadataCodec Meta) (dumps : Inputs → String)

/-- Why the metadata of a row cannot be dumped. -/
def dumpFailure (row : String × CompletedUnit Meta) : Option String :=
  match codec.reread row.2.metadata with
  | .error reason => some reason
  | .ok _ => none

/-- The object that `_save` dumps, as it is read back. -/
def toJson (ckpt : PipelineCheckpoint Meta Inputs) : Except String (RawCheckpoint Meta) :=
  match ckpt.completed.rows.findSome? (dumpFailure codec) with
  | some reason => .error reason
  | none => .ok
    { schemaVersion := some checkpointSchemaVersion
      pipeline := some ckpt.pipeline
      fingerprint := some ckpt.fingerprint
      startedAt := some ckpt.startedAt
      completed := some (ckpt.completed.sortKeys.mapRows fun _ unit =>
        { unit with metadata := (codec.reread unit.metadata).toOption.getD unit.metadata })
      failed := some ckpt.failed.sortKeys }

/-- `_save`: the file is replaced at once, or stays. -/
def save (ckpt : PipelineCheckpoint Meta Inputs) (fault : Option String)
    (file : CheckpointFile Meta) : Except CheckpointError Unit × CheckpointFile Meta :=
  match fault with
  | some reason => (.error (.save reason), file)
  | none =>
    match ckpt.toJson codec with
    | .error reason => (.error (.save reason), file)
    | .ok raw => (.ok (), .json raw)

/-- `load_or_create` when there is no file. -/
def create (pipeline : String) (inputs : Inputs) (now : String) (fault : Option String) :
    Except CheckpointError (PipelineCheckpoint Meta Inputs) × CheckpointFile Meta :=
  let ckpt : PipelineCheckpoint Meta Inputs :=
    ⟨pipeline, computeFingerprint dumps inputs, inputs, .empty, .empty, now⟩
  match ckpt.save codec fault .absent with
  | (.error e, file) => (.error e, file)
  | (.ok _, file) => (.ok ckpt, file)

/-- `load_or_create` when there is a file with an object. -/
def resume (pipeline : String) (inputs : Inputs) (now : String) (raw : RawCheckpoint Meta) :
    Except CheckpointError (PipelineCheckpoint Meta Inputs) :=
  let fingerprint := computeFingerprint dumps inputs
  if raw.schemaVersion ≠ some checkpointSchemaVersion then
    .error (.schemaVersion raw.schemaVersion)
  else if raw.pipeline ≠ some pipeline then
    .error (.otherPipeline raw.pipeline pipeline)
  else if raw.fingerprint ≠ some fingerprint then
    .error (.otherInputs raw.fingerprint fingerprint)
  else
    .ok ⟨pipeline, fingerprint, inputs, raw.completed.getD .empty, raw.failed.getD .empty,
      raw.startedAt.getD now⟩

/-- `load_or_create`. A fault makes the read or the write fail. -/
def loadOrCreate (pipeline : String) (inputs : Inputs) (fresh : Bool) (now : String)
    (fault : Option String) (file : CheckpointFile Meta) :
    Except CheckpointError (PipelineCheckpoint Meta Inputs) × CheckpointFile Meta :=
  match if fresh then .absent else file with
  | .absent => create codec dumps pipeline inputs now fault
  | .unparsable reason => (.error (.unreadable reason), .unparsable reason)
  | .json raw =>
    match fault with
    | some reason => (.error (.unreadable reason), .json raw)
    | none => (resume dumps pipeline inputs now raw, .json raw)

/-- The maps after `record_success`. -/
def markCompleted (ckpt : PipelineCheckpoint Meta Inputs) (unitId : String)
    (artifactPath : Option String) (metadata : Option Meta) (now : String) :
    PipelineCheckpoint Meta Inputs :=
  { ckpt with
    completed := ckpt.completed.put unitId ⟨now, artifactPath, metadata.getD codec.empty⟩
    failed := ckpt.failed.erase unitId }

/-- The maps after `record_failure`. -/
def markFailed (ckpt : PipelineCheckpoint Meta Inputs) (unitId error now : String) :
    PipelineCheckpoint Meta Inputs :=
  let prevAttempts := ((ckpt.failed.find? unitId).map FailedUnit.attempts).getD 0
  { ckpt with failed := ckpt.failed.put unitId ⟨now, error, prevAttempts + 1⟩ }

/-- `record_success`. -/
def recordSuccess (ckpt : PipelineCheckpoint Meta Inputs) (unitId : String)
    (artifactPath : Option String) (metadata : Option Meta) (now : String)
    (fault : Option String) (file : CheckpointFile Meta) :
    Except CheckpointError Unit × PipelineCheckpoint Meta Inputs × CheckpointFile Meta :=
  let ckpt' := ckpt.markCompleted codec unitId artifactPath metadata now
  ((ckpt'.save codec fault file).1, ckpt', (ckpt'.save codec fault file).2)

/-- `record_failure`. -/
def recordFailure (ckpt : PipelineCheckpoint Meta Inputs) (unitId error now : String)
    (fault : Option String) (file : CheckpointFile Meta) :
    Except CheckpointError Unit × PipelineCheckpoint Meta Inputs × CheckpointFile Meta :=
  let ckpt' := ckpt.markFailed unitId error now
  ((ckpt'.save codec fault file).1, ckpt', (ckpt'.save codec fault file).2)

end Operations

end PipelineCheckpoint

end LedgerLens.Utils
