import LedgerLens.Ingestion.TradeBackfill
import LedgerLens.Library.Runs

/-!
# Backfills over several runs

A run that is interrupted can leave a file at the index of a chunk that is not completed. The
next run overwrites it, unless the chunk that it makes of the same index has no valid trades.
This file says after which runs every trade is on disk exactly once.
-/

namespace LedgerLens.Ingestion

open Utils CursorPages Transition

variable {Data : Type*}

/-- The condition under which a run leaves no row of an interrupted run behind: if its first chunk
has no valid trades and is completed, then no file with rows lies at the index of that chunk. -/
def BackfillJob.OverwritesRest (job : BackfillJob Data) (disk : BackfillDisk Data)
    (run : BackfillRun) : Prop :=
  ∀ s cursor records, job.openBackfill run disk = .ok (s, cursor) →
    iterRecords job.history run.limitPerPage cursor = some records → records ≠ [] →
    run.outcome 0 = .returns none →
    validTrades job.inputs.startTime (records.take run.chunkSize) = [] →
    (disk.files.find? (chunkFile s.index)).getD [] = []

section Checkpoints

variable {job : BackfillJob Data} {ckpt ckpt' : PipelineCheckpoint ChunkMeta BackfillInputs}
  {n : ℕ} {past : List (HorizonRecord Data)}

/-- A checkpoint of the job that has the first `n` chunks, which are made of these records. -/
structure CompletedChunks (job : BackfillJob Data)
    (ckpt : PipelineCheckpoint ChunkMeta BackfillInputs) (n : ℕ)
    (past : List (HorizonRecord Data)) : Prop where
  /-- It is the pipeline's. -/
  pipeline : ckpt.pipeline = backfillPipeline
  /-- It has the fingerprint of the inputs. -/
  fingerprint : ckpt.fingerprint = computeFingerprint job.dumps job.inputs
  /-- The completed units are the chunks. -/
  units : ∀ unitId, (ckpt.completed.find? unitId).isSome ↔ ∃ i < n, unitId = chunkId i
  /-- The last of them has the token of the last record. -/
  cursor : ∀ i unit, n = i + 1 → ckpt.completed.find? (chunkId i) = some unit →
    cursorOf HorizonRecord.pagingToken past = some unit.metadata.cursor
  /-- Without a chunk there is no record. -/
  start : n = 0 → past = []

/-- Only the completed units matter. -/
theorem CompletedChunks.of_find? (h : CompletedChunks job ckpt n past)
    (hpipeline : ckpt'.pipeline = ckpt.pipeline)
    (hfingerprint : ckpt'.fingerprint = ckpt.fingerprint)
    (hfind : ∀ unitId, ckpt'.completed.find? unitId = ckpt.completed.find? unitId) :
    CompletedChunks job ckpt' n past where
  pipeline := hpipeline.trans h.pipeline
  fingerprint := hfingerprint.trans h.fingerprint
  units unitId := by rw [hfind, h.units]
  cursor i unit hn hunit := h.cursor i unit hn (by rw [← hfind, hunit])
  start := h.start

/-- The last completed chunk. -/
theorem CompletedChunks.lastCompletedChunk (h : CompletedChunks job ckpt n past) :
    (n = 0 ∧ lastCompletedChunk ckpt.completed = none) ∨
      ∃ i unit, n = i + 1 ∧ lastCompletedChunk ckpt.completed = some (i, unit) ∧
        ckpt.completed.find? (chunkId i) = some unit := by
  have hmem (i : ℕ) : i ∈ (ckpt.completed.rows.filterMap fun row => chunkIndex? row.1) ↔ i < n := by
    rw [List.mem_filterMap]
    constructor
    · rintro ⟨⟨unitId, unit⟩, hrow, hindex⟩
      have hfind := (UniqueTable.find?_eq_some_iff _ _ _).mpr hrow
      obtain ⟨j, hj, rfl⟩ := (h.units unitId).mp (by rw [hfind]; rfl)
      rw [chunkIndex?_chunkId, Option.some.injEq] at hindex
      exact hindex ▸ hj
    · intro hi
      obtain ⟨unit, hunit⟩ := Option.isSome_iff_exists.mp ((h.units (chunkId i)).mpr ⟨i, hi, rfl⟩)
      exact ⟨(chunkId i, unit), (UniqueTable.find?_eq_some_iff _ _ _).mp hunit,
        chunkIndex?_chunkId i⟩
  cases n with
  | zero =>
    refine .inl ⟨rfl, ?_⟩
    have hnone : (ckpt.completed.rows.filterMap fun row => chunkIndex? row.1) = [] := by
      refine List.eq_nil_iff_forall_not_mem.mpr fun i hi => ?_
      exact absurd ((hmem i).mp hi) (Nat.not_lt_zero i)
    unfold Ingestion.lastCompletedChunk
    rw [hnone]
    rfl
  | succ i =>
    have hmax : (ckpt.completed.rows.filterMap fun row => chunkIndex? row.1).max? = some i := by
      rw [List.max?_eq_some_iff]
      exact ⟨(hmem i).mpr (Nat.lt_succ_self i), fun j hj => Nat.lt_succ_iff.mp ((hmem j).mp hj)⟩
    obtain ⟨unit, hunit⟩ := Option.isSome_iff_exists.mp
      ((h.units (chunkId i)).mpr ⟨i, Nat.lt_succ_self i, rfl⟩)
    refine .inr ⟨i, unit, rfl, ?_, hunit⟩
    unfold Ingestion.lastCompletedChunk
    rw [hmax]
    dsimp only
    rw [hunit, Option.map_some]

/-- A chunk more. -/
theorem CompletedChunks.markCompleted (h : CompletedChunks job ckpt n past)
    (artifact : Option String) (metadata : ChunkMeta) (now : String)
    {chunk : List (HorizonRecord Data)}
    (hcursor : cursorOf HorizonRecord.pagingToken (past ++ chunk) = some metadata.cursor) :
    CompletedChunks job (ckpt.markCompleted chunkCodec (chunkId n) artifact (some metadata) now)
      (n + 1) (past ++ chunk) where
  pipeline := h.pipeline
  fingerprint := h.fingerprint
  units unitId := by
    unfold PipelineCheckpoint.markCompleted
    dsimp only
    rw [UniqueTable.find?_put]
    split_ifs with hunit
    · exact ⟨fun _ => ⟨n, Nat.lt_succ_self n, hunit⟩, fun _ => rfl⟩
    · rw [h.units]
      constructor
      · rintro ⟨i, hi, rfl⟩
        exact ⟨i, Nat.lt_succ_of_lt hi, rfl⟩
      · rintro ⟨i, hi, rfl⟩
        obtain hi | rfl := Nat.lt_succ_iff_lt_or_eq.mp hi
        · exact ⟨i, hi, rfl⟩
        · exact absurd rfl hunit
  cursor i unit hn hunit := by
    obtain rfl : n = i := Nat.succ.inj hn
    unfold PipelineCheckpoint.markCompleted at hunit
    dsimp only at hunit
    rw [UniqueTable.find?_put, if_pos rfl, Option.some.injEq] at hunit
    rw [hcursor, ← hunit]
    rfl
  start hn := absurd hn (Nat.succ_ne_zero n)

/-- A failure leaves the completed units. -/
theorem CompletedChunks.markFailed (h : CompletedChunks job ckpt n past)
    (unitId error now : String) : CompletedChunks job (ckpt.markFailed unitId error now) n past :=
  h.of_find? rfl rfl fun _ => rfl

/-- A checkpoint of a backfill can be saved. -/
theorem toJson_chunkCodec (ckpt : PipelineCheckpoint ChunkMeta BackfillInputs) :
    ∃ raw, ckpt.toJson chunkCodec = .ok raw :=
  ⟨_, toJson_ok_iff.mpr ⟨fun _ unit _ => ⟨unit.metadata, rfl⟩, rfl⟩⟩

/-- A file with such a checkpoint, or no file. -/
def HoldsCompleted (job : BackfillJob Data) (file : Utils.CheckpointFile ChunkMeta) (n : ℕ)
    (past : List (HorizonRecord Data)) : Prop :=
  (file = .absent ∧ n = 0 ∧ past = []) ∨
    ∃ ckpt raw, CompletedChunks job ckpt n past ∧ ckpt.toJson chunkCodec = .ok raw ∧
      file = .json raw

/-- Saving a checkpoint. -/
theorem holdsCompleted_save (h : CompletedChunks job ckpt n past) (fault : Option String)
    (file : Utils.CheckpointFile ChunkMeta) :
    (fault = none ∧ (ckpt.save chunkCodec fault file).1 = .ok () ∧
        HoldsCompleted job (ckpt.save chunkCodec fault file).2 n past) ∨
      fault ≠ none ∧ (∃ e, (ckpt.save chunkCodec fault file).1 = .error e) ∧
        (ckpt.save chunkCodec fault file).2 = file := by
  obtain ⟨raw, hfault, hraw, hsave⟩ | ⟨reason, hreason, hsave⟩ :=
    save_cases chunkCodec ckpt fault file
  · rw [hsave]
    exact .inl ⟨hfault, rfl, .inr ⟨ckpt, raw, h, hraw, rfl⟩⟩
  · rw [hsave]
    refine .inr ⟨fun hnone => ?_, ⟨_, rfl⟩, rfl⟩
    obtain ⟨raw, hraw⟩ := toJson_chunkCodec ckpt
    rw [hreason hnone] at hraw
    cases hraw

/-- Loading a checkpoint gives the chunks that the file has, or raises and leaves the file. -/
theorem holdsCompleted_load {file : Utils.CheckpointFile ChunkMeta}
    (h : HoldsCompleted job file n past) (now : String) (fault : Option String) :
    HoldsCompleted job (PipelineCheckpoint.loadOrCreate chunkCodec job.dumps backfillPipeline
        job.inputs false now fault file).2 n past ∧
      ∀ ckpt, (PipelineCheckpoint.loadOrCreate chunkCodec job.dumps backfillPipeline
        job.inputs false now fault file).1 = .ok ckpt → CompletedChunks job ckpt n past := by
  obtain ⟨rfl, rfl, rfl⟩ | ⟨ckpt, raw, hcompleted, hraw, rfl⟩ := h
  · have hnew : CompletedChunks job ⟨backfillPipeline, computeFingerprint job.dumps job.inputs,
        job.inputs, .empty, .empty, now⟩ 0 [] :=
      { pipeline := rfl
        fingerprint := rfl
        units := fun unitId => by simp
        cursor := fun _ _ hn => absurd hn.symm (Nat.succ_ne_zero _)
        start := fun _ => rfl }
    simp only [PipelineCheckpoint.loadOrCreate, PipelineCheckpoint.create, Bool.false_eq_true,
      if_false]
    obtain ⟨-, hok, hfile⟩ | ⟨-, ⟨e, herror⟩, hfile⟩ := holdsCompleted_save hnew fault .absent
    · split
      · next e file hsave => rw [hsave] at hok; cases hok
      · next file hsave =>
        rw [hsave] at hfile
        refine ⟨hfile, fun ckpt hckpt => ?_⟩
        obtain rfl := Except.ok.inj hckpt
        exact hnew
    · split
      · next e' file hsave =>
        rw [hsave] at hfile
        refine ⟨.inl ⟨hfile, rfl, rfl⟩, fun ckpt hckpt => ?_⟩
        cases hckpt
      · next file hsave => rw [hsave] at herror; cases herror
  · obtain ⟨-, rfl⟩ := toJson_ok_iff.mp hraw
    have hholds : HoldsCompleted job (.json ⟨some checkpointSchemaVersion, some ckpt.pipeline,
        some ckpt.fingerprint, some ckpt.startedAt, some (rereadCompleted chunkCodec ckpt),
        some ckpt.failed.sortKeys⟩) n past := .inr ⟨ckpt, _, hcompleted, hraw, rfl⟩
    simp only [PipelineCheckpoint.loadOrCreate, Bool.false_eq_true, if_false]
    cases fault with
    | some reason =>
      refine ⟨hholds, fun ckpt' hckpt' => ?_⟩
      cases hckpt'
    | none =>
      refine ⟨hholds, fun ckpt' hckpt' => ?_⟩
      simp only [PipelineCheckpoint.resume, hcompleted.pipeline, hcompleted.fingerprint, ne_eq,
        not_true_eq_false, if_false, Option.getD_some] at hckpt'
      obtain rfl := Except.ok.inj hckpt'
      refine hcompleted.of_find? hcompleted.pipeline.symm hcompleted.fingerprint.symm ?_
      intro unitId
      simp only [rereadCompleted, UniqueTable.find?_mapRows, UniqueTable.find?_sortKeys]
      cases ckpt.completed.find? unitId with
      | none => rfl
      | some unit => rfl

end Checkpoints

section Files

variable {startTime : Option ℤ} {files : UniqueTable String (List (HorizonTrade Data))} {n : ℕ}
  {past chunk : List (HorizonRecord Data)} {extra : List (HorizonTrade Data)}

/-- The files of a directory. -/
structure Filed (startTime : Option ℤ) (files : UniqueTable String (List (HorizonTrade Data)))
    (n : ℕ) (past : List (HorizonRecord Data)) (extra : List (HorizonTrade Data)) : Prop where
  /-- There are files of the completed chunks, and possibly of the next one. -/
  names : ∀ name, (files.find? name).isSome → ∃ i ≤ n, name = chunkFile i
  /-- Those of the completed chunks have the valid trades of their records, and what has been left
  there by interrupted runs. -/
  rows : ((files.erase (chunkFile n)).rows.flatMap Prod.snd).Perm
    (validTrades startTime past ++ extra)

/-- What an interrupted run has left at the index of the next chunk. -/
def restOf (files : UniqueTable String (List (HorizonTrade Data))) (n : ℕ) :
    List (HorizonTrade Data) :=
  (files.find? (chunkFile n)).getD []

theorem validTrades_append (startTime : Option ℤ) (past chunk : List (HorizonRecord Data)) :
    validTrades startTime (past ++ chunk) =
      validTrades startTime past ++ validTrades startTime chunk :=
  List.filterMap_append

/-- Without a file at the next index all rows are those of completed chunks. -/
theorem Filed.all_rows (h : Filed startTime files n past extra)
    (hnone : files.find? (chunkFile n) = none) :
    (files.rows.flatMap Prod.snd).Perm (validTrades startTime past ++ extra) := by
  have hrows := h.rows
  rw [UniqueTable.erase_of_new hnone] at hrows
  exact hrows

/-- Writing to the file of the next chunk. -/
theorem Filed.put (h : Filed startTime files n past extra) (rows : List (HorizonTrade Data)) :
    Filed startTime (files.put (chunkFile n) rows) n past extra where
  names name hname := by
    rw [UniqueTable.find?_put] at hname
    split_ifs at hname with heq
    · exact ⟨n, le_rfl, heq⟩
    · exact h.names name hname
  rows := by
    rw [UniqueTable.erase_put]
    exact h.rows

/-- A sink that does not return. -/
theorem Filed.of_sinkLeaves (h : Filed startTime files n past extra)
    (trades : List (HorizonTrade Data)) (left : Option ℕ) :
    Filed startTime (sinkLeaves files n trades left) n past extra := by
  unfold sinkLeaves
  cases left with
  | none => exact h
  | some rows =>
    dsimp only
    split_ifs
    · exact h
    · exact h.put _

/-- A sink that returns. -/
theorem Filed.of_parquetChunkSink (h : Filed startTime files n past extra)
    (trades : List (HorizonTrade Data)) :
    Filed startTime (parquetChunkSink files n trades).2 n past extra := by
  unfold parquetChunkSink
  split_ifs
  · exact h
  · exact h.put _

/-- There is no file at the index after the next. -/
theorem Filed.find?_succ (h : Filed startTime files n past extra) :
    files.find? (chunkFile (n + 1)) = none := by
  by_contra hsome
  obtain ⟨i, hi, hname⟩ := h.names _ (Option.isSome_iff_ne_none.mpr hsome)
  have hindex := chunkFile_inj.mp hname
  omega

/-- A chunk is completed. What lies in its file is added, unless the sink has written it. -/
theorem Filed.complete (h : Filed startTime files n past extra)
    (chunk : List (HorizonRecord Data)) :
    Filed startTime (parquetChunkSink files n (validTrades startTime chunk)).2 (n + 1)
      (past ++ chunk)
      (extra ++ if validTrades startTime chunk = [] then restOf files n else []) where
  names name hname := by
    obtain ⟨i, hi, rfl⟩ := (h.of_parquetChunkSink _).names name hname
    exact ⟨i, Nat.le_succ_of_le hi, rfl⟩
  rows := by
    rw [UniqueTable.erase_of_new (h.of_parquetChunkSink _).find?_succ, validTrades_append]
    unfold parquetChunkSink
    split_ifs with hempty
    · rw [hempty, List.append_nil, ← List.append_assoc]
      have hall := (UniqueTable.flatMap_snd_perm files (chunkFile n)).trans (h.rows.append_left _)
      exact hall.trans List.perm_append_comm
    · have hall := UniqueTable.flatMap_snd_perm
        (files.put (chunkFile n) (validTrades startTime chunk)) (chunkFile n)
      rw [UniqueTable.erase_put, UniqueTable.find?_put, if_pos rfl, Option.getD_some] at hall
      rw [List.append_nil, List.append_assoc]
      exact (hall.trans (h.rows.append_left _)).trans (List.perm_append_comm_assoc _ _ _)

end Files

section Runs

variable {job : BackfillJob Data} {run : BackfillRun} {s : BackfillState Data} {n : ℕ}
  {disk : BackfillDisk Data} {past chunk rest : List (HorizonRecord Data)}
  {extra : List (HorizonTrade Data)}

/-- The disk between two runs. -/
structure Stored (job : BackfillJob Data) (disk : BackfillDisk Data) (n : ℕ)
    (past rest : List (HorizonRecord Data)) (extra : List (HorizonTrade Data)) : Prop where
  /-- The records of the completed chunks, and those that are left. -/
  records : job.history.records = past ++ rest
  /-- The checkpoint. -/
  checkpoint : HoldsCompleted job disk.checkpoint n past
  /-- The files. -/
  files : Filed job.inputs.startTime disk.files n past extra
  /-- Where no record is left, no interrupted run has left a file. -/
  settled : rest = [] → disk.files.find? (chunkFile n) = none

/-- The variables while a chunk is read. -/
structure Reading (job : BackfillJob Data) (s : BackfillState Data)
    (past chunk rest : List (HorizonRecord Data)) (extra : List (HorizonTrade Data)) : Prop where
  /-- The disk. -/
  stored : Stored job s.disk s.index past (chunk ++ rest) extra
  /-- `ckpt`. -/
  ckpt : CompletedChunks job s.ckpt s.index past
  /-- `trades`. -/
  trades : s.trades = validTrades job.inputs.startTime chunk
  /-- `raw_count`. -/
  rawCount : s.rawCount = chunk.length
  /-- `last_token`. -/
  lastToken : ∀ record, chunk.getLast? = some record → s.lastToken = record.pagingToken

/-- One record more is read. -/
theorem Reading.read {record : HorizonRecord Data}
    (h : Reading job s past chunk (record :: rest) extra) :
    Reading job (s.read job.inputs.startTime record) past (chunk ++ [record]) rest extra where
  stored := by
    rw [List.append_assoc]
    exact h.stored
  ckpt := h.ckpt
  trades := by
    rw [validTrades_append, ← h.trades]
    cases hparse : parseRecord job.inputs.startTime record <;>
      simp [BackfillState.read, validTrades, hparse]
  rawCount := by
    simp [BackfillState.read, h.rawCount]
  lastToken record' hlast := by
    rw [List.getLast?_concat, Option.some.injEq] at hlast
    rw [← hlast]
    rfl

/-- The last token of a chunk is the cursor from which the chunks after it are read. -/
theorem Reading.cursor (h : Reading job s past chunk rest extra) (hchunk : chunk ≠ []) :
    cursorOf HorizonRecord.pagingToken (past ++ chunk) = some s.lastToken := by
  obtain ⟨last, hlast⟩ := Option.ne_none_iff_exists'.mp
    (fun hnone => hchunk (List.getLast?_eq_none_iff.mp hnone))
  unfold cursorOf
  rw [List.getLast?_append, hlast, Option.some_or, Option.map_some, ← h.lastToken last hlast]

/-- A chunk is either completed, or the run stops and the chunk is still to be done. -/
theorem commit_spec (h : Reading job s past chunk rest extra) (hchunk : chunk ≠ []) (now : String)
    (outcome : BackfillOutcome) :
    (outcome = .returns none ∧ ∃ s', s.commit now outcome = .ok s' ∧
      s'.disk.files.find? (chunkFile s'.index) = none ∧
      Reading job s' (past ++ chunk) [] rest
        (extra ++ if s.trades = [] then restOf s.disk.files s.index else [])) ∨
    (outcome ≠ .returns none ∧ ∃ disk, s.commit now outcome = .error disk ∧
      Stored job disk s.index past (chunk ++ rest) extra) := by
  have hne : chunk ++ rest ≠ [] := fun hnil => hchunk (List.append_eq_nil_iff.mp hnil).1
  have hstops {disk : BackfillDisk Data}
      (hcheckpoint : HoldsCompleted job disk.checkpoint s.index past)
      (hfiles : Filed job.inputs.startTime disk.files s.index past extra) :
      Stored job disk s.index past (chunk ++ rest) extra :=
    ⟨h.stored.records, hcheckpoint, hfiles, fun hnil => absurd hnil hne⟩
  cases outcome with
  | unread => exact .inr ⟨nofun, s.disk, rfl, h.stored⟩
  | crash left =>
    refine .inr ⟨nofun, _, rfl, hstops h.stored.checkpoint ?_⟩
    exact h.stored.files.of_sinkLeaves s.trades left
  | raises left error saveFault =>
    refine .inr ⟨nofun, _, rfl, hstops ?_ (h.stored.files.of_sinkLeaves s.trades left)⟩
    obtain ⟨-, -, hsaved⟩ | ⟨-, -, hsame⟩ :=
      holdsCompleted_save (h.ckpt.markFailed (chunkId s.index) error now) saveFault
        s.disk.checkpoint
    · exact hsaved
    · unfold PipelineCheckpoint.recordFailure
      dsimp only
      rw [hsame]
      exact h.stored.checkpoint
  | returns saveFault =>
    have hcompleted := h.ckpt.markCompleted (parquetChunkSink s.disk.files s.index s.trades).1
      s.chunkMeta now (h.cursor hchunk)
    unfold BackfillState.commit PipelineCheckpoint.recordSuccess
    dsimp only
    obtain ⟨rfl, hok, hsaved⟩ | ⟨hfault, ⟨e, herror⟩, hsame⟩ :=
      holdsCompleted_save hcompleted saveFault s.disk.checkpoint
    · rw [hok]
      have hfiled := h.stored.files.complete chunk
      rw [← h.trades] at hfiled
      have hnone := (h.stored.files.of_parquetChunkSink s.trades).find?_succ
      refine .inl ⟨rfl, _, rfl, hnone, ?_⟩
      exact
        { stored :=
            { records := by rw [h.stored.records, List.append_assoc, List.nil_append]
              checkpoint := hsaved
              files := hfiled
              settled := fun _ => hnone }
          ckpt := hcompleted
          trades := rfl
          rawCount := rfl
          lastToken := fun _ hnil => nomatch hnil }
    · rw [herror]
      refine .inr ⟨?_, _, rfl, hstops ?_ (h.stored.files.of_parquetChunkSink s.trades)⟩
      · rintro ⟨⟩
        exact hfault rfl
      · dsimp only
        rw [hsame]
        exact h.stored.checkpoint

/-- The condition under which the loop leaves no row of an interrupted run behind, at the chunk
that it reads. -/
def OverwritesAt (job : BackfillJob Data) (run : BackfillRun) (s : BackfillState Data)
    (chunk rest : List (HorizonRecord Data)) (i : ℕ) : Prop :=
  chunk ++ rest ≠ [] → run.outcome i = .returns none →
    s.trades ++ validTrades job.inputs.startTime (rest.take (run.chunkSize - chunk.length)) = [] →
    restOf s.disk.files s.index = []

/-- The disk that the loop leaves; if it ends, no record is left. -/
def Leaves (job : BackfillJob Data) (result : Except (BackfillDisk Data) (BackfillState Data))
    (extra : List (HorizonTrade Data)) : Prop :=
  match result with
  | .error disk => ∃ n past rest, Stored job disk n past rest extra
  | .ok s => Stored job s.disk s.index job.history.records [] extra

/-- What is added to the rows of completed chunks where one is completed. -/
theorem added_eq_nil_iff (h : chunk ++ rest ≠ [])
    {i : ℕ} (hreturns : run.outcome i = .returns none)
    {trades : List (HorizonTrade Data)} (htrades : s.trades ++ validTrades job.inputs.startTime
      (rest.take (run.chunkSize - chunk.length)) = trades) :
    (if trades = [] then restOf s.disk.files s.index else []) = [] ↔
      OverwritesAt job run s chunk rest i := by
  unfold OverwritesAt
  rw [htrades]
  split_ifs with hempty
  · exact ⟨fun hrest _ _ _ => hrest, fun hall => hall h hreturns hempty⟩
  · exact iff_of_true rfl fun _ _ hnil => absurd hnil hempty

/-- A run that stops at a chunk adds nothing. -/
theorem leaves_of_stored {disk : BackfillDisk Data} {i : ℕ}
    (hreturns : run.outcome i ≠ .returns none) (hstored : Stored job disk n past rest extra)
    (chunk' rest' : List (HorizonRecord Data)) :
    ∃ added, (added = [] ↔ OverwritesAt job run s chunk' rest' i) ∧
      Leaves job (.error disk) (extra ++ added) := by
  refine ⟨[], iff_of_true rfl fun _ hreturns' => absurd hreturns' hreturns, ?_⟩
  rw [List.append_nil]
  exact ⟨n, past, rest, hstored⟩

/-- What the loop leaves where no record is left. -/
theorem backfillLoop_nil (h : Reading job s past chunk [] extra) (i : ℕ) :
    ∃ added, (added = [] ↔ OverwritesAt job run s chunk [] i) ∧
      Leaves job (job.backfillLoop run [] i s) (extra ++ added) := by
  unfold BackfillJob.backfillLoop
  by_cases hchunk : chunk = []
  · subst hchunk
    have hrecords : job.history.records = past := by
      rw [h.stored.records, List.append_nil, List.append_nil]
    rw [if_pos (show s.rawCount = 0 from h.rawCount)]
    refine ⟨[], iff_of_true rfl fun hne => absurd rfl hne, ?_⟩
    rw [List.append_nil]
    have hstored := h.stored
    split
    · exact ⟨_, _, _, hstored⟩
    · unfold Leaves
      rw [hrecords]
      exact hstored
  · have hraw : s.rawCount ≠ 0 := by
      rw [h.rawCount]
      exact fun hzero => hchunk (List.length_eq_zero_iff.mp hzero)
    rw [if_neg hraw]
    obtain ⟨hreturns, s', hcommit, -, hnext⟩ | ⟨hreturns, disk, hcommit, hstored⟩ :=
      commit_spec h hchunk run.now (run.outcome i)
    · refine ⟨if s.trades = [] then restOf s.disk.files s.index else [],
        added_eq_nil_iff (by simpa using hchunk) hreturns (by simp [validTrades]), ?_⟩
      have hrecords : job.history.records = past ++ chunk := by
        rw [hnext.stored.records, List.append_nil, List.append_nil]
      rw [hcommit]
      unfold Leaves
      rw [hrecords]
      exact hnext.stored
    · rw [hcommit]
      exact leaves_of_stored hreturns hstored chunk []

/-- The trades of the chunk that is read are the same before and after one of its records. -/
theorem overwritesAt_read {record : HorizonRecord Data}
    (h : Reading job s past chunk (record :: rest) extra) (hsize : chunk.length < run.chunkSize)
    (i : ℕ) :
    OverwritesAt job run (s.read job.inputs.startTime record) (chunk ++ [record]) rest i ↔
      OverwritesAt job run s chunk (record :: rest) i := by
  have htrades : (s.read job.inputs.startTime record).trades =
      s.trades ++ validTrades job.inputs.startTime [record] := by
    rw [h.read.trades, validTrades_append, h.trades]
  have hsucc : run.chunkSize - chunk.length =
      (run.chunkSize - (chunk ++ [record]).length) + 1 := by
    rw [List.length_append, List.length_singleton]
    omega
  have htake : (s.read job.inputs.startTime record).trades ++
      validTrades job.inputs.startTime
        (rest.take (run.chunkSize - (chunk ++ [record]).length)) =
      s.trades ++ validTrades job.inputs.startTime
        ((record :: rest).take (run.chunkSize - chunk.length)) := by
    rw [hsucc, List.take_succ_cons, htrades, List.append_assoc, ← validTrades_append]
    rfl
  unfold OverwritesAt
  rw [htake]
  simp [restOf, BackfillState.read]

/-- What the loop leaves. -/
theorem backfillLoop_spec (h : Reading job s past chunk rest extra)
    (hsize : chunk.length < run.chunkSize) (i : ℕ) :
    ∃ added, (added = [] ↔ OverwritesAt job run s chunk rest i) ∧
      Leaves job (job.backfillLoop run rest i s) (extra ++ added) := by
  induction rest generalizing s past chunk extra i with
  | nil => exact backfillLoop_nil h i
  | cons record rest ih =>
    have hread := h.read
    have hraw : (s.read job.inputs.startTime record).rawCount = chunk.length + 1 := by
      rw [hread.rawCount, List.length_append, List.length_singleton]
    rw [← overwritesAt_read h hsize]
    unfold BackfillJob.backfillLoop
    dsimp only
    by_cases hfull : (s.read job.inputs.startTime record).rawCount = run.chunkSize
    · rw [if_pos hfull]
      have hzero : run.chunkSize - (chunk ++ [record]).length = 0 := by
        rw [List.length_append, List.length_singleton]
        omega
      obtain ⟨hreturns, s', hcommit, hnone, hnext⟩ | ⟨hreturns, disk, hcommit, hstored⟩ :=
        commit_spec hread (by simp) run.now (run.outcome i)
      · rw [hcommit]
        obtain ⟨added, hadded, hleaves⟩ := ih hnext (by simp; omega) (i + 1)
        -- No run has left a file at the index of the chunks that follow.
        have hclean : OverwritesAt job run s' [] rest (i + 1) := by
          intro _ _ _
          unfold restOf
          rw [hnone]
          rfl
        obtain rfl := hadded.mpr hclean
        rw [List.append_nil] at hleaves
        refine ⟨_, added_eq_nil_iff (by simp) hreturns ?_, hleaves⟩
        rw [hzero, List.take_zero]
        exact List.append_nil _
      · rw [hcommit]
        exact leaves_of_stored hreturns hstored (chunk ++ [record]) rest
    · rw [if_neg hfull]
      exact ih hread (by simp; omega) i

/-- What is read from a cursor on is what the completed chunks do not have. -/
theorem iterRecords_cursorOf (hrecords : job.history.records = past ++ rest) {limitPerPage : ℕ}
    {records : List (HorizonRecord Data)}
    (h : iterRecords job.history limitPerPage (cursorOf HorizonRecord.pagingToken past) =
      some records) : records = rest := by
  have hcursor : (cursorOf HorizonRecord.pagingToken past).filter (fun c => c ≠ "") =
      cursorOf HorizonRecord.pagingToken past := by
    unfold cursorOf
    cases hlast : past.getLast? with
    | none => rfl
    | some record =>
      have hmem : record ∈ job.history.records := by
        rw [hrecords]
        exact List.mem_append_left _ (List.mem_of_getLast? hlast)
      simp [Option.filter_some, job.history.named record hmem]
  unfold iterRecords at h
  split_ifs at h with hlimit
  have hfuel : rest.length < job.history.records.length + 1 := by
    rw [hrecords, List.length_append]
    omega
  rw [hcursor, readPages_cursorOf job.history.distinct hlimit.1 hrecords hfuel,
    Option.some.injEq] at h
  exact h.symm

/-- A run that is opened goes on where the completed chunks end; or it stops and leaves the
files. -/
theorem openBackfill_spec (h : Stored job disk n past rest extra) (run : BackfillRun) :
    (∃ disk', job.openBackfill run disk = .error disk' ∧ Stored job disk' n past rest extra) ∨
      ∃ s, job.openBackfill run disk =
          .ok (s, cursorOf HorizonRecord.pagingToken past) ∧
        Reading job s past [] rest extra ∧ 1 ≤ run.chunkSize ∧ s.index = n ∧
        s.disk.files = disk.files := by
  unfold BackfillJob.openBackfill
  by_cases hsize : run.chunkSize < 1
  · rw [if_pos hsize]
    exact .inl ⟨disk, rfl, h⟩
  · rw [if_neg hsize]
    obtain ⟨hfile, hckpt⟩ := holdsCompleted_load h.checkpoint run.now run.loadFault
    cases hload : PipelineCheckpoint.loadOrCreate chunkCodec job.dumps backfillPipeline job.inputs
      false run.now run.loadFault disk.checkpoint with
    | mk result file =>
      rw [hload] at hfile hckpt
      cases result with
      | error e => exact .inl ⟨_, rfl, h.records, hfile, h.files, h.settled⟩
      | ok ckpt =>
        have hcompleted := hckpt ckpt rfl
        dsimp only
        obtain ⟨rfl, hlast⟩ | ⟨i, unit, rfl, hlast, hunit⟩ := hcompleted.lastCompletedChunk
        · obtain rfl := hcompleted.start rfl
          rw [hlast]
          refine .inr ⟨_, rfl, ?_, by omega, rfl, rfl⟩
          exact ⟨⟨h.records, hfile, h.files, h.settled⟩, hcompleted, rfl, rfl, nofun⟩
        · rw [hlast, hcompleted.cursor i unit rfl hunit]
          refine .inr ⟨_, rfl, ?_, by omega, rfl, rfl⟩
          exact ⟨⟨h.records, hfile, h.files, h.settled⟩, hcompleted, rfl, rfl, nofun⟩

/-- What a run leaves. Rows of an interrupted run stay behind exactly if it does not meet the
condition; and if it returns, no record is left. -/
theorem backfillTrades_spec (h : Stored job disk n past rest extra) (run : BackfillRun) :
    ∃ added n' past' rest', (added = [] ↔ job.OverwritesRest disk run) ∧
      Stored job (job.backfillTrades run disk).2 n' past' rest' (extra ++ added) ∧
      ((job.backfillTrades run disk).1.isSome → rest' = []) := by
  unfold BackfillJob.backfillTrades BackfillJob.OverwritesRest
  obtain ⟨disk', hopen, hstored⟩ | ⟨s, hopen, hreading, hsize, rfl, hfiles⟩ :=
    openBackfill_spec h run
  · rw [hopen]
    refine ⟨[], n, past, rest, iff_of_true rfl ?_, ?_, ?_⟩
    · intro s' cursor records heq
      cases heq
    · rw [List.append_nil]
      exact hstored
    · intro hsome
      cases hsome
  · rw [hopen]
    dsimp only
    cases hrecords : iterRecords job.history run.limitPerPage
      (cursorOf HorizonRecord.pagingToken past) with
    | none =>
      refine ⟨[], s.index, past, rest, iff_of_true rfl ?_, ?_, nofun⟩
      · intro s' cursor records heq hsome
        obtain ⟨rfl, rfl⟩ := Prod.mk.inj (Except.ok.inj heq)
        rw [hrecords] at hsome
        cases hsome
      · rw [List.append_nil]
        exact hreading.stored
    | some records =>
      obtain rfl := iterRecords_cursorOf h.records hrecords
      obtain ⟨added, hadded, hleaves⟩ := backfillLoop_spec hreading hsize 0
      have hcond : OverwritesAt job run s [] records 0 ↔ ∀ s' cursor records',
          (Except.ok (s, cursorOf HorizonRecord.pagingToken past) :
            Except (BackfillDisk Data) _) = .ok (s', cursor) →
          iterRecords job.history run.limitPerPage cursor = some records' → records' ≠ [] →
          run.outcome 0 = .returns none →
          validTrades job.inputs.startTime (records'.take run.chunkSize) = [] →
          (disk.files.find? (chunkFile s'.index)).getD [] = [] := by
        have htrades : s.trades = [] := hreading.trades
        unfold OverwritesAt restOf
        rw [htrades, hfiles]
        constructor
        · intro hall s' cursor records' heq hsome
          obtain ⟨rfl, rfl⟩ := Prod.mk.inj (Except.ok.inj heq)
          rw [hrecords] at hsome
          obtain rfl := Option.some.inj hsome
          exact hall
        · intro hall
          exact hall s _ records rfl hrecords
      dsimp only
      cases hloop : job.backfillLoop run records 0 s with
      | error disk' =>
        rw [hloop] at hleaves
        obtain ⟨n', past', rest', hstored⟩ := hleaves
        exact ⟨added, n', past', rest', hadded.trans hcond, hstored, nofun⟩
      | ok s' =>
        rw [hloop] at hleaves
        exact ⟨added, _, _, [], hadded.trans hcond, hleaves, fun _ => rfl⟩

/-- The disk after a run. -/
def BackfillJob.step (job : BackfillJob Data) (disk : BackfillDisk Data) (run : BackfillRun) :
    BackfillDisk Data :=
  (job.backfillTrades run disk).2

/-- What several runs leave. -/
theorem runs_spec (h : Stored job disk n past rest extra) (runs : List BackfillRun) :
    ∃ added n' past' rest', (added = [] ↔ Meets job.step job.OverwritesRest disk runs) ∧
      Stored job (exec job.step disk runs) n' past' rest' (extra ++ added) := by
  induction runs generalizing disk n past rest extra with
  | nil =>
    refine ⟨[], n, past, rest, iff_of_true rfl trivial, ?_⟩
    rw [List.append_nil]
    exact h
  | cons run runs ih =>
    obtain ⟨added, n', past', rest', hadded, hstored, -⟩ := backfillTrades_spec h run
    obtain ⟨added', n'', past'', rest'', hadded', hstored'⟩ := ih hstored
    refine ⟨added ++ added', n'', past'', rest'', ?_, ?_⟩
    · rw [List.append_eq_nil_iff, hadded, hadded']
      rfl
    · rw [← List.append_assoc]
      exact hstored'

theorem stored_empty (job : BackfillJob Data) : Stored job {} 0 [] job.history.records [] where
  records := rfl
  checkpoint := .inl ⟨rfl, rfl, rfl⟩
  files :=
    { names := fun _ hname => absurd hname (by simp)
      rows := List.Perm.refl [] }
  settled _ := rfl

/-- After any runs, each interrupted at any point: once one returns, every valid trade is on disk
exactly once if and only if no run has completed a first chunk without valid trades at whose index
an interrupted run had left a file with rows. -/
theorem exactlyOnce_iff (job : BackfillJob Data) (runs : List BackfillRun) (run : BackfillRun)
    (hreturns : (job.backfillTrades run (exec job.step {} runs)).1.isSome) :
    (exec job.step {} (runs ++ [run])).ExactlyOnce job ↔
      Meets job.step job.OverwritesRest {} (runs ++ [run]) := by
  obtain ⟨added, n, past, rest, hadded, hstored⟩ := runs_spec (stored_empty job) runs
  obtain ⟨added', n', past', rest', hadded', hstored', hdone⟩ := backfillTrades_spec hstored run
  obtain rfl := hdone hreturns
  have hall := hstored'.files.all_rows (hstored'.settled rfl)
  have hrecords : job.history.records = past' := by
    rw [hstored'.records, List.append_nil]
  have hmeets : Meets job.step job.OverwritesRest {} (runs ++ [run]) ↔ added ++ added' = [] := by
    rw [meets_append_iff, List.append_eq_nil_iff, hadded, hadded']
    exact and_congr_right fun _ => and_iff_left trivial
  have hdisk : exec job.step {} (runs ++ [run]) =
      (job.backfillTrades run (exec job.step {} runs)).2 := by
    rw [exec_append]
    rfl
  rw [hmeets, hdisk]
  unfold BackfillDisk.ExactlyOnce BackfillDisk.rows
  rw [hrecords]
  rw [List.nil_append] at hall
  constructor
  · intro hexact
    have hlength := (hexact.symm.trans hall).length_eq
    rw [List.length_append] at hlength
    exact List.length_eq_zero_iff.mp (by omega)
  · intro hnil
    rw [hnil, List.append_nil] at hall
    exact hall

end Runs

section Samples

/-- A record that is rejected and one with a valid trade. -/
private def twoRecords : TradeHistory ℕ where
  records := [⟨"1", none⟩, ⟨"2", some ⟨0, 7⟩⟩]
  distinct := by decide
  named := by decide

/-- The backfill of these records. -/
private def twoRecordsJob : BackfillJob ℕ where
  history := twoRecords
  inputs := ⟨"XLM:native/USDC:GISSUER", none⟩
  dumps inputs := inputs.pair

/-- A run with chunks of two records that crashes before the first is recorded. -/
private def crashedRun : BackfillRun := ⟨2, 200, "2024-01-01", none, fun _ => .returns (some "")⟩

/-- A run with chunks of one record. -/
private def smallerRun : BackfillRun := ⟨1, 200, "2024-01-02", none, fun _ => .returns none⟩

/-- The equivalence for these two runs. -/
theorem exactlyOnce_iff_of_smaller :
    (twoRecordsJob.backfillTrades smallerRun (exec twoRecordsJob.step {} [crashedRun])).1.isSome ∧
      ((exec twoRecordsJob.step {} ([crashedRun] ++ [smallerRun])).ExactlyOnce twoRecordsJob ↔
        Meets twoRecordsJob.step twoRecordsJob.OverwritesRest {} ([crashedRun] ++ [smallerRun])) :=
  ⟨by decide +kernel, exactlyOnce_iff twoRecordsJob [crashedRun] smallerRun (by decide +kernel)⟩

/-- The smaller run returns, and the trade is on disk twice: in the first file, which the run that
crashed has left, and in the second. -/
theorem trade_written_twice :
    (twoRecordsJob.backfillTrades smallerRun (exec twoRecordsJob.step {} [crashedRun])).1.isSome ∧
      (exec twoRecordsJob.step {} [crashedRun, smallerRun]).rows = [⟨0, 7⟩, ⟨0, 7⟩] ∧
      ¬(exec twoRecordsJob.step {} [crashedRun, smallerRun]).ExactlyOnce twoRecordsJob := by
  have hrows : (exec twoRecordsJob.step {} [crashedRun, smallerRun]).rows = [⟨0, 7⟩, ⟨0, 7⟩] := by
    decide +kernel
  refine ⟨by decide +kernel, hrows, fun hexact => ?_⟩
  have hlength := hexact.length_eq
  rw [hrows] at hlength
  revert hlength
  decide

end Samples

end LedgerLens.Ingestion
