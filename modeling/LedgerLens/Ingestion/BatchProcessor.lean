import LedgerLens.Library.Runs
import Mathlib.Data.List.Sigma

/-!
# Chunked imports with a checkpoint

`BatchProcessor.run` cuts the records of a job into chunks, retries each one, and notes
the index of every chunk that went through in a JSON file, so that a later run can skip
it. A run can end anywhere: the process dies, a write to the checkpoint file fails or the
progress callback raises. The model asks the environment at each of these points.
-/

namespace LedgerLens.Ingestion

variable {T : Type*}

/-- `ChunkOutcome`. -/
structure ChunkOutcome where
  /-- The chunk's place in the run. -/
  chunkIndex : ℕ
  /-- How many records it has. -/
  itemCount : ℕ
  /-- Whether an attempt returned normally. -/
  ok : Bool
  /-- The attempts made. -/
  attempts : ℕ
  /-- The last exception, when none did. -/
  error : Option String := none
  deriving DecidableEq

/-- `BatchSummary`, without the wall-clock duration. -/
structure BatchSummary where
  /-- The job. -/
  jobId : String
  /-- Records seen. -/
  totalItems : ℕ := 0
  /-- Records in chunks that went through or were skipped. -/
  succeededItems : ℕ := 0
  /-- Records in chunks that failed. -/
  failedItems : ℕ := 0
  /-- Chunks attempted. -/
  chunksProcessed : ℕ := 0
  /-- Chunks skipped. -/
  chunksSkippedResume : ℕ := 0
  /-- Chunks that failed. -/
  chunksFailed : ℕ := 0
  /-- Their outcomes. -/
  failures : List ChunkOutcome := []
  deriving DecidableEq

/-- `BatchSummary.ok`. -/
def BatchSummary.ok (summary : BatchSummary) : Bool := summary.chunksFailed == 0

/-- The loop of `_chunks`, with the buffer filled so far. -/
def chunksFrom (size : ℤ) : List T → List T → List (List T)
  | [], buf => if buf.isEmpty then [] else [buf]
  | item :: rest, buf =>
    if size ≤ (buf ++ [item]).length then (buf ++ [item]) :: chunksFrom size rest []
    else chunksFrom size rest (buf ++ [item])

/-- `_chunks`. -/
def chunks (records : List T) (size : ℤ) : Except String (List (List T)) :=
  if size ≤ 0 then .error ("chunk_size must be positive, got " ++ toString size)
  else .ok (chunksFrom size records [])

/-- The chunk indices done, for each job that has an entry. -/
abbrev Completed := String → Option (List ℕ)

/-- What is at the checkpoint path. -/
inductive CheckpointFile where
  /-- No file. -/
  | absent
  /-- A file that is not JSON: it was truncated and never written. -/
  | invalid
  /-- A dictionary. -/
  | saved (completed : Completed)

/-- `_JsonCheckpoint`. -/
structure JsonCheckpoint where
  /-- `path`. -/
  path : Option String
  /-- `_completed`. -/
  completed : Completed := fun _ => none

namespace JsonCheckpoint

/-- A path that counts as given. -/
def usable (path : Option String) : Bool := path.getD "" ≠ ""

/-- `__init__`, which reads the file if there is one. -/
def init (path : Option String) (file : CheckpointFile) : Except String JsonCheckpoint :=
  if usable path then
    match file with
    | .absent => .ok { path := path }
    | .invalid => .error "JSONDecodeError"
    | .saved completed => .ok { path := path, completed := completed }
  else .ok { path := path }

/-- `is_done`. -/
def isDone (checkpoint : JsonCheckpoint) (jobId : String) (chunkIndex : ℕ) : Bool :=
  ((checkpoint.completed jobId).getD []).contains chunkIndex

/-- `mark_done`, up to the `os.replace` that makes it durable. -/
def markDone (checkpoint : JsonCheckpoint) (jobId : String) (chunkIndex : ℕ)
    (file : CheckpointFile) : JsonCheckpoint × CheckpointFile :=
  if usable checkpoint.path then
    let completed := Function.update checkpoint.completed jobId
      (some ((checkpoint.completed jobId).getD [] ++ [chunkIndex]))
    ({ checkpoint with completed := completed }, .saved completed)
  else (checkpoint, file)

/-- The dictionary that `clear` writes. -/
def cleared (checkpoint : JsonCheckpoint) (jobId : String) : Completed :=
  Function.update checkpoint.completed jobId none

/-- `clear` opens the file for writing only if it exists. -/
def rewrites (checkpoint : JsonCheckpoint) (file : CheckpointFile) : Bool :=
  usable checkpoint.path && match file with
    | .absent => false
    | _ => true

end JsonCheckpoint

/-- The points at which a run can end without returning. -/
inductive StopPoint where
  /-- Before a chunk has gone through. -/
  | beforeChunk (chunkIndex : ℕ)
  /-- Its `process_chunk` returned, but its index is not in the file yet. -/
  | afterChunk (chunkIndex : ℕ)
  /-- Its outcome is recorded, and `on_progress` is called. -/
  | afterOutcome (chunkIndex : ℕ)
  /-- After the last chunk. -/
  | afterLoop
  /-- In `clear`, when the file is truncated and not written yet. -/
  | clearing
  /-- After `clear`, if it is called. -/
  | beforeReturn
  deriving DecidableEq

/-- What the environment decides about a run. -/
structure RunEnv where
  /-- The text of what `process_chunk` raises, by chunk index and attempt. -/
  attempt : ℕ → ℕ → Option String
  /-- Whether the run ends at a point. -/
  stop : StopPoint → Bool

/-- What a job leaves behind: its checkpoint file, and the records in chunks for which
`process_chunk` returned normally. -/
structure World (T : Type*) where
  /-- The checkpoint file. -/
  file : CheckpointFile
  /-- The records processed. -/
  processed : List T := []

/-- The variables of a run. -/
structure Progress (T : Type*) where
  /-- What is outside the run. -/
  world : World T
  /-- `checkpoint`. -/
  checkpoint : JsonCheckpoint
  /-- `summary`. -/
  summary : BatchSummary

/-- `BatchProcessor`. -/
structure BatchProcessor where
  /-- `chunk_size`. -/
  chunkSize : ℤ := 500
  /-- `max_retries`. -/
  maxRetries : ℕ := 3
  /-- `checkpoint_path`. -/
  checkpointPath : Option String := none

namespace BatchProcessor

/-- The attempts of `_run_chunk_with_retry`, with how many are left and the exception of
the one before. Without any attempt the assertion at the end fails. -/
def attemptsFrom (maxRetries chunkIndex itemCount : ℕ) (attempt : ℕ → Option String) :
    ℕ → ℕ → Option String → Except String ChunkOutcome
  | 0, _, none => .error "AssertionError"
  | 0, _, some lastError => .ok ⟨chunkIndex, itemCount, false, maxRetries, some lastError⟩
  | left + 1, n, _ =>
    match attempt n with
    | none => .ok ⟨chunkIndex, itemCount, true, n, none⟩
    | some reason => attemptsFrom maxRetries chunkIndex itemCount attempt left (n + 1) (some reason)

/-- `_run_chunk_with_retry`. -/
def runChunkWithRetry (p : BatchProcessor) (attempt : ℕ → Option String) (chunkIndex : ℕ)
    (chunk : List T) : Except String ChunkOutcome :=
  attemptsFrom p.maxRetries chunkIndex chunk.length attempt p.maxRetries 1 none

/-- A chunk is skipped. -/
def skip (chunk : List T) (s : Progress T) : Progress T :=
  { s with summary := { s.summary with
      totalItems := s.summary.totalItems + chunk.length
      chunksSkippedResume := s.summary.chunksSkippedResume + 1
      succeededItems := s.summary.succeededItems + chunk.length } }

/-- `process_chunk` returned normally. -/
def process (chunk : List T) (s : Progress T) : Progress T :=
  { s with world := { s.world with processed := s.world.processed ++ chunk } }

/-- A chunk that went through is counted and marked done. -/
def succeed (jobId : String) (chunkIndex : ℕ) (chunk : List T) (outcome : ChunkOutcome)
    (s : Progress T) : Progress T where
  world := { s.world with file := (s.checkpoint.markDone jobId chunkIndex s.world.file).2 }
  checkpoint := (s.checkpoint.markDone jobId chunkIndex s.world.file).1
  summary := { s.summary with
    totalItems := s.summary.totalItems + chunk.length
    chunksProcessed := s.summary.chunksProcessed + 1
    succeededItems := s.summary.succeededItems + outcome.itemCount }

/-- A chunk that failed is counted. -/
def fail (chunk : List T) (outcome : ChunkOutcome) (s : Progress T) : Progress T :=
  { s with summary := { s.summary with
      totalItems := s.summary.totalItems + chunk.length
      chunksProcessed := s.summary.chunksProcessed + 1
      failedItems := s.summary.failedItems + outcome.itemCount
      chunksFailed := s.summary.chunksFailed + 1
      failures := s.summary.failures ++ [outcome] } }

/-- One turn of the loop of `run`. A run that ends in it leaves the world as it is. -/
def processChunk (p : BatchProcessor) (env : RunEnv) (jobId : String) (resume : Bool)
    (chunkIndex : ℕ) (chunk : List T) (s : Progress T) : Except (World T) (Progress T) :=
  if resume && s.checkpoint.isDone jobId chunkIndex then .ok (skip chunk s)
  else if env.stop (.beforeChunk chunkIndex) then .error s.world
  else
    match p.runChunkWithRetry (env.attempt chunkIndex) chunkIndex chunk with
    | .error _ => .error s.world
    | .ok outcome =>
      if outcome.ok then
        if env.stop (.afterChunk chunkIndex) then .error (process chunk s).world
        else if env.stop (.afterOutcome chunkIndex) then
          .error (succeed jobId chunkIndex chunk outcome (process chunk s)).world
        else .ok (succeed jobId chunkIndex chunk outcome (process chunk s))
      else if env.stop (.afterOutcome chunkIndex) then .error s.world
      else .ok (fail chunk outcome s)

/-- The loop of `run`, from a chunk on. -/
def processChunks (p : BatchProcessor) (env : RunEnv) (jobId : String) (resume : Bool) :
    ℕ → List (List T) → Progress T → Except (World T) (Progress T)
  | _, [], s => .ok s
  | chunkIndex, chunk :: rest, s =>
    match p.processChunk env jobId resume chunkIndex chunk s with
    | .error w => .error w
    | .ok s => processChunks p env jobId resume (chunkIndex + 1) rest s

/-- The end of `run`, after the loop: the entry is cleared if no chunk failed. Clearing
truncates the file before it writes it, if there is one. -/
def finish (env : RunEnv) (jobId : String) (resume : Bool) (s : Progress T) :
    World T × Option BatchSummary :=
  if env.stop .afterLoop then (s.world, none)
  else if s.summary.ok && resume then
    if env.stop .clearing then
      (if s.checkpoint.rewrites s.world.file then { s.world with file := .invalid } else s.world,
        none)
    else
      (if s.checkpoint.rewrites s.world.file then
          { s.world with file := .saved (s.checkpoint.cleared jobId) }
        else s.world,
        if env.stop .beforeReturn then none else some s.summary)
  else (s.world, if env.stop .beforeReturn then none else some s.summary)

/-- `run`: what it leaves behind, and the summary if it returns one. -/
def run (p : BatchProcessor) (env : RunEnv) (records : List T) (jobId : String) (resume : Bool)
    (w : World T) : World T × Option BatchSummary :=
  match JsonCheckpoint.init (if resume then p.checkpointPath else none) w.file with
  | .error _ => (w, none)
  | .ok checkpoint =>
    match chunks records p.chunkSize with
    | .error _ => (w, none)
    | .ok cs =>
      match p.processChunks env jobId resume 0 cs ⟨w, checkpoint, { jobId := jobId }⟩ with
      | .error w => (w, none)
      | .ok s => finish env jobId resume s

end BatchProcessor

end LedgerLens.Ingestion
