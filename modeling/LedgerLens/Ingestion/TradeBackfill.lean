import LedgerLens.Library.CursorPages
import LedgerLens.Utils.PipelineProgress

/-!
# The backfill of a trade history

`backfill_trades` reads the trades of an asset pair in chunks and gives each chunk to a sink,
here `parquet_chunk_sink` with one file per chunk. A checkpoint has the completed chunks, each
with the token of its last record, from which a later run goes on.
-/

namespace LedgerLens.Ingestion

open Utils CursorPages

/-- A trade, as far as it is looked into. -/
structure HorizonTrade (Data : Type*) where
  /-- `ledger_close_time`. -/
  ledgerCloseTime : ℤ
  /-- The rest of it. -/
  data : Data
deriving DecidableEq

/-- A record of Horizon. -/
structure HorizonRecord (Data : Type*) where
  /-- `paging_token`. -/
  pagingToken : String
  /-- What `_to_trade` and `validate_trade` make of it, nothing if one of them rejects it. -/
  trade : Option (HorizonTrade Data)

/-- The records that Horizon has of an asset pair, in ascending order. -/
structure TradeHistory (Data : Type*) where
  /-- The records. -/
  records : List (HorizonRecord Data)
  /-- Every record has a token of its own. -/
  distinct : (records.map HorizonRecord.pagingToken).Nodup
  /-- No token is empty. -/
  named : ∀ record ∈ records, record.pagingToken ≠ ""

/-- `fingerprint_inputs`. -/
structure BackfillInputs where
  /-- `pair`. -/
  pair : String
  /-- `start_time`. -/
  startTime : Option ℤ

/-- What all runs of a backfill have in common. -/
structure BackfillJob (Data : Type*) where
  /-- The history of the pair. -/
  history : TradeHistory Data
  /-- The inputs of the fingerprint. -/
  inputs : BackfillInputs
  /-- `json.dumps` of these inputs. -/
  dumps : BackfillInputs → String

/-- The metadata of a completed chunk. -/
structure ChunkMeta where
  /-- `cursor`. -/
  cursor : String
  /-- `raw_records`. -/
  rawRecords : ℕ
  /-- `trades`. -/
  trades : ℕ
  /-- `last_ledger_close_time`. -/
  lastLedgerCloseTime : Option ℤ

/-- JSON keeps these metadata as they are. -/
def chunkCodec : MetadataCodec ChunkMeta where
  empty := ⟨"", 0, 0, none⟩
  reread := .ok

/-- `BACKFILL_PIPELINE`. -/
def backfillPipeline : String := "historical_backfill"

/-- What is on disk: the checkpoint, and the rows that can be read from each file of the output
directory. -/
structure BackfillDisk (Data : Type*) where
  /-- The checkpoint. -/
  checkpoint : Utils.CheckpointFile ChunkMeta := .absent
  /-- The files. -/
  files : UniqueTable String (List (HorizonTrade Data)) := .empty

/-- What becomes of one chunk of a run. -/
inductive BackfillOutcome where
  /-- The run stops while it reads the records. -/
  | unread
  /-- The process crashes in the sink. If the file was opened, it is left with so many rows. -/
  | crash (left : Option ℕ)
  /-- The sink raises, and the failure is recorded unless that fails. -/
  | raises (left : Option ℕ) (error : String) (saveFault : Option String)
  /-- The sink returns. The chunk is recorded unless that fails, or the process crashes before. -/
  | returns (saveFault : Option String)

/-- A call of `backfill_trades`, with what happens in it. -/
structure BackfillRun where
  /-- `chunk_size`. -/
  chunkSize : ℕ
  /-- `limit_per_page`. -/
  limitPerPage : ℕ
  /-- The time. -/
  now : String
  /-- Why the checkpoint cannot be loaded or created. -/
  loadFault : Option String
  /-- What becomes of its first, second, … chunk. -/
  outcome : ℕ → BackfillOutcome

/-- The variables of `backfill_trades`, with the disk. -/
structure BackfillState (Data : Type*) where
  /-- The disk. -/
  disk : BackfillDisk Data
  /-- `ckpt`. -/
  ckpt : PipelineCheckpoint ChunkMeta BackfillInputs
  /-- `index`. -/
  index : ℕ
  /-- `trades`. -/
  trades : List (HorizonTrade Data) := []
  /-- `raw_count`. -/
  rawCount : ℕ := 0
  /-- `last_token`. -/
  lastToken : String := ""

section Code

variable {Data : Type*}

/-- `_parse_record`. -/
def parseRecord (startTime : Option ℤ) (record : HorizonRecord Data) :
    Option (HorizonTrade Data) :=
  record.trade.filter fun trade => startTime.all fun start => start ≤ trade.ledgerCloseTime

/-- The valid trades of some records. -/
def validTrades (startTime : Option ℤ) (records : List (HorizonRecord Data)) :
    List (HorizonTrade Data) :=
  records.filterMap (parseRecord startTime)

/-- `_iter_records`; Horizon rejects other limits than 1 to 200. -/
def iterRecords (history : TradeHistory Data) (limitPerPage : ℕ) (cursor : Option String) :
    Option (List (HorizonRecord Data)) :=
  if 1 ≤ limitPerPage ∧ limitPerPage ≤ 200 then
    readPages HorizonRecord.pagingToken history.records limitPerPage
      (history.records.length + 1) (cursor.filter fun c => c ≠ "")
  else none

/-- `_chunk_id`. -/
def chunkId (index : ℕ) : String :=
  "chunk-" ++ String.ofList ((Nat.toDigits 10 index).leftpad 6 '0')

/-- `int(unit[len("chunk-"):])` of a unit that starts with `chunk-`. -/
def chunkIndex? (unit : String) : Option ℕ :=
  if "chunk-".toList.isPrefixOf unit.toList then
    some (Nat.ofDigitChars 10 (unit.toList.drop 6) 0)
  else none

/-- `_last_completed_chunk`. -/
def lastCompletedChunk (completed : UniqueTable String (CompletedUnit ChunkMeta)) :
    Option (ℕ × CompletedUnit ChunkMeta) :=
  match (completed.rows.filterMap fun row => chunkIndex? row.1).max? with
  | none => none
  | some index => (completed.find? (chunkId index)).map fun entry => (index, entry)

/-- The file of a chunk. -/
def chunkFile (index : ℕ) : String := chunkId index ++ ".parquet"

/-- `parquet_chunk_sink`: the path it returns, and the files. -/
def parquetChunkSink (files : UniqueTable String (List (HorizonTrade Data))) (index : ℕ)
    (trades : List (HorizonTrade Data)) :
    Option String × UniqueTable String (List (HorizonTrade Data)) :=
  if trades = [] then (none, files)
  else (some (chunkFile index), files.put (chunkFile index) trades)

/-- The files if the sink does not return. -/
def sinkLeaves (files : UniqueTable String (List (HorizonTrade Data))) (index : ℕ)
    (trades : List (HorizonTrade Data)) (left : Option ℕ) :
    UniqueTable String (List (HorizonTrade Data)) :=
  match left with
  | none => files
  | some rows => if trades = [] then files else files.put (chunkFile index) (trades.take rows)

namespace BackfillState

/-- One record more. -/
def read (s : BackfillState Data) (startTime : Option ℤ) (record : HorizonRecord Data) :
    BackfillState Data :=
  { s with
    trades := s.trades ++ (parseRecord startTime record).toList
    rawCount := s.rawCount + 1
    lastToken := record.pagingToken }

/-- The metadata of the chunk. -/
def chunkMeta (s : BackfillState Data) : ChunkMeta where
  cursor := s.lastToken
  rawRecords := s.rawCount
  trades := s.trades.length
  lastLedgerCloseTime := s.trades.getLast?.map HorizonTrade.ledgerCloseTime

/-- `_commit`, and the reset of the variables after it; the disk if the run stops. -/
def commit (s : BackfillState Data) (now : String) (outcome : BackfillOutcome) :
    Except (BackfillDisk Data) (BackfillState Data) :=
  match outcome with
  | .unread => .error s.disk
  | .crash left =>
    .error { s.disk with files := sinkLeaves s.disk.files s.index s.trades left }
  | .raises left error saveFault =>
    let failed := s.ckpt.recordFailure chunkCodec (chunkId s.index) error now saveFault
      s.disk.checkpoint
    .error ⟨failed.2.2, sinkLeaves s.disk.files s.index s.trades left⟩
  | .returns saveFault =>
    let written := parquetChunkSink s.disk.files s.index s.trades
    let saved := s.ckpt.recordSuccess chunkCodec (chunkId s.index) written.1 (some s.chunkMeta) now
      saveFault s.disk.checkpoint
    match saved.1 with
    | .error _ => .error ⟨saved.2.2, written.2⟩
    | .ok _ =>
      .ok { s with
        disk := ⟨saved.2.2, written.2⟩
        ckpt := saved.2.1
        index := s.index + 1
        trades := []
        rawCount := 0 }

end BackfillState

namespace BackfillJob

variable (job : BackfillJob Data) (run : BackfillRun)

/-- `backfill_trades` up to its loop: the variables and the cursor, or the disk if it stops. -/
def openBackfill (disk : BackfillDisk Data) :
    Except (BackfillDisk Data) (BackfillState Data × Option String) :=
  if run.chunkSize < 1 then .error disk
  else
    match PipelineCheckpoint.loadOrCreate chunkCodec job.dumps backfillPipeline job.inputs false
      run.now run.loadFault disk.checkpoint with
    | (.error _, file) => .error { disk with checkpoint := file }
    | (.ok ckpt, file) =>
      match lastCompletedChunk ckpt.completed with
      | none => .ok (⟨{ disk with checkpoint := file }, ckpt, 0, [], 0, ""⟩, none)
      | some (index, entry) =>
        .ok (⟨{ disk with checkpoint := file }, ckpt, index + 1, [], 0, ""⟩,
          some entry.metadata.cursor)

/-- The loop of `backfill_trades` over the records, and the last commit. -/
def backfillLoop : List (HorizonRecord Data) → ℕ → BackfillState Data →
    Except (BackfillDisk Data) (BackfillState Data)
  | [], chunk, s =>
    if s.rawCount = 0 then
      match run.outcome chunk with
      | .unread => .error s.disk
      | _ => .ok s
    else s.commit run.now (run.outcome chunk)
  | record :: records, chunk, s =>
    let s := s.read job.inputs.startTime record
    if s.rawCount = run.chunkSize then
      match s.commit run.now (run.outcome chunk) with
      | .error disk => .error disk
      | .ok s => backfillLoop records (chunk + 1) s
    else backfillLoop records chunk s

/-- `backfill_trades`: the checkpoint of which it returns the summary, if it returns, and the
disk. -/
def backfillTrades (disk : BackfillDisk Data) :
    Option (PipelineCheckpoint ChunkMeta BackfillInputs) × BackfillDisk Data :=
  match job.openBackfill run disk with
  | .error disk => (none, disk)
  | .ok (s, cursor) =>
    match iterRecords job.history run.limitPerPage cursor with
    | none => (none, s.disk)
    | some records =>
      match job.backfillLoop run records 0 s with
      | .error disk => (none, disk)
      | .ok s => (some s.ckpt, s.disk)

end BackfillJob

/-- The rows of all files. -/
def BackfillDisk.rows (disk : BackfillDisk Data) : List (HorizonTrade Data) :=
  disk.files.rows.flatMap Prod.snd

/-- Every valid trade of the history is in the files exactly once. -/
def BackfillDisk.ExactlyOnce (job : BackfillJob Data) (disk : BackfillDisk Data) : Prop :=
  disk.rows.Perm (validTrades job.inputs.startTime job.history.records)

end Code

section ChunkIds

/-- A chunk's index is read back from its id. -/
theorem chunkIndex?_chunkId (index : ℕ) : chunkIndex? (chunkId index) = some index := by
  have hlist : (chunkId index).toList =
      "chunk-".toList ++ (Nat.toDigits 10 index).leftpad 6 '0' := by
    unfold chunkId
    rw [String.toList_append]
    exact congrArg _ String.toList_ofList
  have hstarts : "chunk-".toList.isPrefixOf (chunkId index).toList = true := by
    rw [hlist, List.isPrefixOf_iff_prefix]
    exact List.prefix_append _ _
  have hdrop : (chunkId index).toList.drop 6 = (Nat.toDigits 10 index).leftpad 6 '0' := by
    rw [hlist]
    exact List.drop_left' rfl
  unfold chunkIndex?
  rw [if_pos hstarts, hdrop, List.leftpad, Nat.ofDigitChars_append, Nat.ofDigitChars_replicate_zero,
    Nat.mul_zero, Nat.ofDigitChars_ten_toDigits]

theorem chunkId_inj {i j : ℕ} : chunkId i = chunkId j ↔ i = j := by
  constructor
  · intro h
    have hindex := chunkIndex?_chunkId i
    rw [h, chunkIndex?_chunkId, Option.some.injEq] at hindex
    exact hindex.symm
  · rintro rfl
    rfl

theorem chunkFile_inj {i j : ℕ} : chunkFile i = chunkFile j ↔ i = j := by
  unfold chunkFile
  rw [String.append_left_inj, chunkId_inj]

end ChunkIds

end LedgerLens.Ingestion
