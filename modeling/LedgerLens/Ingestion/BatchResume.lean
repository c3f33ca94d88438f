import LedgerLens.Ingestion.BatchProcessor

/-!
# Resumed imports

A job is run again and again over the same records until a run says that it is done. The
checkpoint holds chunk indices, and what an index stands for depends on the chunk size of
the run that reads it. This file determines when a run that says it is done has seen to it
that every record was processed.
-/

namespace LedgerLens.Ingestion

open Transition BatchProcessor

variable {T : Type*}

/-- The records of the chunks whose index is chosen, counting from an index on. -/
def recordsOf (choose : ℕ → Bool) : ℕ → List (List T) → List T
  | _, [] => []
  | i, chunk :: rest => (if choose i then chunk else []) ++ recordsOf choose (i + 1) rest

/-- The chunks hold the records, in order. -/
theorem flatten_chunksFrom (size : ℤ) (records buf : List T) :
    (chunksFrom size records buf).flatten = buf ++ records := by
  induction records generalizing buf with
  | nil =>
    unfold chunksFrom
    cases buf <;> simp
  | cons item rest ih =>
    unfold chunksFrom
    split_ifs
    · rw [List.flatten_cons, ih]
      simp
    · rw [ih]
      simp

/-- Nothing is lost or doubled by chunking. -/
theorem flatten_of_chunks {records : List T} {size : ℤ} {cs : List (List T)}
    (h : chunks records size = .ok cs) : cs.flatten = records := by
  unfold chunks at h
  split_ifs at h
  cases h
  exact flatten_chunksFrom size records []

theorem mem_recordsOf {choose : ℕ → Bool} {i : ℕ} {cs : List (List T)} {record : T} :
    record ∈ recordsOf choose i cs ↔
      ∃ j chunk, cs[j]? = some chunk ∧ choose (i + j) = true ∧ record ∈ chunk := by
  induction cs generalizing i with
  | nil => simp [recordsOf]
  | cons first rest ih =>
    rw [recordsOf, List.mem_append, ih]
    constructor
    · rintro (h | ⟨j, chunk, hchunk, hchoose, hmem⟩)
      · split_ifs at h with hfirst
        · exact ⟨0, first, by simp, hfirst, h⟩
        · cases h
      · exact ⟨j + 1, chunk, by simpa using hchunk, by rwa [← Nat.add_assoc, Nat.add_right_comm],
          hmem⟩
    · rintro ⟨j, chunk, hchunk, hchoose, hmem⟩
      cases j with
      | zero =>
        obtain rfl : first = chunk := by simpa using hchunk
        exact Or.inl (by rwa [if_pos (by simpa using hchoose)])
      | succ j =>
        refine Or.inr ⟨j, chunk, by simpa using hchunk, ?_, hmem⟩
        rwa [Nat.add_assoc, Nat.add_comm 1 j]

/-- The choice matters only from the first index on. -/
theorem recordsOf_congr {choose choose' : ℕ → Bool} {i : ℕ} (cs : List (List T))
    (h : ∀ j, i ≤ j → choose j = choose' j) : recordsOf choose i cs = recordsOf choose' i cs := by
  induction cs generalizing i with
  | nil => rfl
  | cons chunk rest ih =>
    rw [recordsOf, recordsOf, h i le_rfl, ih fun j hj => h j (by omega)]

/-- A record is in a chosen chunk or in one that is not. -/
theorem mem_flatten_iff (choose : ℕ → Bool) (i : ℕ) (cs : List (List T)) (record : T) :
    record ∈ cs.flatten ↔
      record ∈ recordsOf choose i cs ∨ record ∈ recordsOf (fun j => !choose j) i cs := by
  induction cs generalizing i with
  | nil => simp [recordsOf]
  | cons chunk rest ih =>
    rw [List.flatten_cons, List.mem_append, ih (i + 1), recordsOf, recordsOf]
    cases choose i <;> simp [or_left_comm, or_assoc]

/-- If no record occurs twice, then it is not in both. -/
theorem not_mem_of_mem_recordsOf {choose : ℕ → Bool} {i : ℕ} {cs : List (List T)} {record : T}
    (hnodup : cs.flatten.Nodup) (h : record ∈ recordsOf choose i cs) :
    record ∉ recordsOf (fun j => !choose j) i cs := by
  induction cs generalizing i with
  | nil => simp [recordsOf]
  | cons chunk rest ih =>
    rw [List.flatten_cons, List.nodup_append] at hnodup
    obtain ⟨_, hrest, hdisjoint⟩ := hnodup
    have hapart : ∀ choose' : ℕ → Bool,
        record ∈ chunk → record ∉ recordsOf choose' (i + 1) rest := by
      intro choose' hchunk hmem
      exact hdisjoint record hchunk record
        ((mem_flatten_iff choose' (i + 1) rest record).mpr (Or.inl hmem)) rfl
    rw [recordsOf] at h ⊢
    cases hchoose : choose i with
    | true =>
      simp only [hchoose, if_true, Bool.not_true, Bool.false_eq_true, if_false,
        List.nil_append] at h ⊢
      rcases List.mem_append.mp h with h | h
      · exact hapart _ h
      · exact ih hrest h
    | false =>
      simp only [hchoose, Bool.false_eq_true, if_false, List.nil_append, Bool.not_false,
        if_true, List.mem_append, not_or] at h ⊢
      exact ⟨fun hchunk => hapart _ hchunk h, ih hrest h⟩

section Chunk

variable {p : BatchProcessor} {env : RunEnv} {jobId : String} {resume : Bool} {i : ℕ}
  {chunk : List T} {s s' : Progress T}

/-- The chunks that a run skips, as far as its checkpoint says. -/
def Progress.skips (jobId : String) (resume : Bool) (s : Progress T) (i : ℕ) : Bool :=
  resume && s.checkpoint.isDone jobId i

/-- The environment lets the run get a chunk done: some attempt returns, and the run goes on
behind it. -/
def RunEnv.Completes (p : BatchProcessor) (env : RunEnv) (i : ℕ) : Prop :=
  env.stop (.beforeChunk i) = false ∧ (∃ k < p.maxRetries, env.attempt i (k + 1) = none) ∧
    env.stop (.afterChunk i) = false ∧ env.stop (.afterOutcome i) = false

/-- The retries end well exactly when an attempt returns. -/
theorem attemptsFrom_ok_iff (maxRetries i count : ℕ) (attempt : ℕ → Option String)
    (left n : ℕ) (last : Option String) :
    (∃ outcome, attemptsFrom maxRetries i count attempt left n last = .ok outcome ∧
      outcome.ok = true) ↔ ∃ k < left, attempt (n + k) = none := by
  induction left generalizing n last with
  | zero =>
    cases last <;> simp [attemptsFrom]
  | succ left ih =>
    unfold attemptsFrom
    cases hattempt : attempt n with
    | none => simpa using ⟨0, by omega, hattempt⟩
    | some reason =>
      dsimp only
      rw [ih]
      constructor
      · rintro ⟨k, hk, hnone⟩
        exact ⟨k + 1, by omega, by rwa [← Nat.add_assoc, Nat.add_right_comm]⟩
      · rintro ⟨k, hk, hnone⟩
        cases k with
        | zero =>
          rw [Nat.add_zero, hattempt] at hnone
          cases hnone
        | succ k => exact ⟨k, by omega, by rwa [Nat.add_assoc, Nat.add_comm 1 k]⟩

theorem runChunkWithRetry_ok_iff (i : ℕ) (chunk : List T) (attempt : ℕ → Option String) :
    (∃ outcome, p.runChunkWithRetry attempt i chunk = .ok outcome ∧ outcome.ok = true) ↔
      ∃ k < p.maxRetries, attempt (k + 1) = none := by
  simpa only [runChunkWithRetry, Nat.add_comm 1] using
    attemptsFrom_ok_iff p.maxRetries i chunk.length attempt p.maxRetries 1 none

/-- A chunk whose index is found done is skipped. -/
theorem processChunk_of_skips (h : s.skips jobId resume i = true) :
    p.processChunk env jobId resume i chunk s = .ok (skip chunk s) := by
  unfold Progress.skips at h
  simp [processChunk, h]

/-- Any other chunk is processed if the environment lets it. -/
theorem processChunk_of_completes (chunk : List T) (h : s.skips jobId resume i = false)
    (hcompletes : env.Completes p i) :
    ∃ outcome, p.processChunk env jobId resume i chunk s =
      .ok (succeed jobId i chunk outcome (process chunk s)) := by
  obtain ⟨hbefore, hattempt, hafter, houtcome⟩ := hcompletes
  obtain ⟨outcome, hrun, hok⟩ :=
    (runChunkWithRetry_ok_iff i chunk (env.attempt i)).mpr hattempt
  unfold Progress.skips at h
  exact ⟨outcome, by simp [processChunk, h, hbefore, hrun, hok, hafter, houtcome]⟩

/-- Otherwise the run ends there or counts a failure. -/
theorem chunksFailed_of_not_completes (h : s.skips jobId resume i = false)
    (hcompletes : ¬env.Completes p i)
    (hstep : p.processChunk env jobId resume i chunk s = .ok s') :
    s'.summary.chunksFailed = s.summary.chunksFailed + 1 := by
  unfold Progress.skips at h
  unfold processChunk at hstep
  rw [h, if_neg (by simp)] at hstep
  cases hbefore : env.stop (.beforeChunk i) with
  | true => simp [hbefore] at hstep
  | false =>
    rw [hbefore, if_neg (by simp)] at hstep
    cases hrun : p.runChunkWithRetry (env.attempt i) i chunk with
    | error e => simp [hrun] at hstep
    | ok outcome =>
      simp only [hrun] at hstep
      cases hok : outcome.ok with
      | true =>
        have hattempt := (runChunkWithRetry_ok_iff i chunk (env.attempt i)).mp ⟨outcome, hrun, hok⟩
        rw [if_pos hok] at hstep
        split_ifs at hstep with hafter houtcome
        exact absurd ⟨hbefore, hattempt, by simpa using hafter, by simpa using houtcome⟩
          hcompletes
      | false =>
        rw [if_neg (by simp [hok])] at hstep
        split_ifs at hstep
        cases hstep
        rfl

theorem isDone_markDone_of_ne {checkpoint : JsonCheckpoint} {file : CheckpointFile} {j : ℕ}
    (h : j ≠ i) :
    (checkpoint.markDone jobId i file).1.isDone jobId j = checkpoint.isDone jobId j := by
  unfold JsonCheckpoint.markDone
  split_ifs
  · simp [JsonCheckpoint.isDone, List.contains_eq_mem, h]
  · rfl

/-- Marking a chunk done does not change what is skipped behind it. -/
theorem skips_succeed {outcome : ChunkOutcome} {j : ℕ} (h : j ≠ i) :
    (succeed jobId i chunk outcome s).skips jobId resume j = s.skips jobId resume j := by
  unfold Progress.skips
  rw [succeed, isDone_markDone_of_ne h]

end Chunk

section Loop

variable {p : BatchProcessor} {env : RunEnv} {jobId : String} {resume : Bool}

/-- If the environment lets every chunk through that is not skipped, then the loop ends
with no failure added and with exactly their records processed. -/
theorem processChunks_of_completes (p : BatchProcessor) (env : RunEnv) (jobId : String)
    (resume : Bool) (cs : List (List T)) (i : ℕ) (s : Progress T)
    (h : ∀ j < cs.length, s.skips jobId resume (i + j) = false → env.Completes p (i + j)) :
    ∃ s', p.processChunks env jobId resume i cs s = .ok s' ∧
      s'.summary.chunksFailed = s.summary.chunksFailed ∧
      s'.world.processed = s.world.processed ++
        recordsOf (fun j => !s.skips jobId resume j) i cs := by
  induction cs generalizing i s with
  | nil => exact ⟨s, rfl, rfl, by simp [recordsOf]⟩
  | cons chunk rest ih =>
    have hrest : ∀ j < rest.length, s.skips jobId resume (i + 1 + j) = false →
        env.Completes p (i + 1 + j) := by
      intro j hj
      have hnext := h (j + 1) (by simpa using hj)
      rwa [← Nat.add_assoc, Nat.add_right_comm] at hnext
    cases hskips : s.skips jobId resume i with
    | true =>
      obtain ⟨s', hrun, hfailed, hprocessed⟩ := ih (i + 1) (skip chunk s) hrest
      refine ⟨s', ?_, hfailed, ?_⟩
      · rw [processChunks, processChunk_of_skips hskips]
        exact hrun
      · rw [hprocessed, recordsOf, hskips]
        rfl
    | false =>
      have hfirst := h 0 (by simp) hskips
      obtain ⟨outcome, hchunk⟩ := processChunk_of_completes chunk hskips hfirst
      have hkept : ∀ j, i + 1 ≤ j → (succeed jobId i chunk outcome (process chunk s)).skips
          jobId resume j = s.skips jobId resume j := fun j hj => skips_succeed (by omega)
      obtain ⟨s', hrun, hfailed, hprocessed⟩ := ih (i + 1)
        (succeed jobId i chunk outcome (process chunk s)) (by
          intro j hj hskips'
          rw [hkept _ (by omega)] at hskips'
          exact hrest j hj hskips')
      refine ⟨s', ?_, hfailed, ?_⟩
      · rw [processChunks, hchunk]
        exact hrun
      · rw [hprocessed, recordsOf_congr rest fun j hj => by rw [hkept j hj], recordsOf, hskips]
        simp [succeed, process]

/-- If the loop ends with no failure added, then the environment let every chunk through
that was not skipped. -/
theorem completes_of_processChunks (cs : List (List T)) (i : ℕ) (s : Progress T)
    {s' : Progress T} (hrun : p.processChunks env jobId resume i cs s = .ok s') :
    s.summary.chunksFailed ≤ s'.summary.chunksFailed ∧
      (s'.summary.chunksFailed = s.summary.chunksFailed →
        ∀ j < cs.length, s.skips jobId resume (i + j) = false → env.Completes p (i + j)) := by
  induction cs generalizing i s with
  | nil =>
    cases hrun
    exact ⟨le_rfl, fun _ j hj => absurd hj (Nat.not_lt_zero j)⟩
  | cons chunk rest ih =>
    rw [processChunks] at hrun
    cases hskips : s.skips jobId resume i with
    | true =>
      rw [processChunk_of_skips hskips] at hrun
      obtain ⟨hle, hcompletes⟩ := ih (i + 1) (skip chunk s) hrun
      refine ⟨hle, fun hsame j hj hj' => ?_⟩
      cases j with
      | zero =>
        rw [Nat.add_zero, hskips] at hj'
        cases hj'
      | succ j =>
        rw [← Nat.add_assoc, Nat.add_right_comm] at hj' ⊢
        exact hcompletes hsame j (by simpa using hj) hj'
    | false =>
      by_cases hfirst : env.Completes p i
      · obtain ⟨outcome, hchunk⟩ := processChunk_of_completes chunk hskips hfirst
        rw [hchunk] at hrun
        obtain ⟨hle, hcompletes⟩ := ih (i + 1) _ hrun
        refine ⟨hle, fun hsame j hj hj' => ?_⟩
        cases j with
        | zero => exact hfirst
        | succ j =>
          rw [← Nat.add_assoc, Nat.add_right_comm] at hj' ⊢
          refine hcompletes hsame j (by simpa using hj) ?_
          rwa [skips_succeed (by omega)]
      · cases hchunk : p.processChunk env jobId resume i chunk s with
        | error w =>
          rw [hchunk] at hrun
          cases hrun
        | ok s₁ =>
          rw [hchunk] at hrun
          have hfailed := chunksFailed_of_not_completes hskips hfirst hchunk
          have hle := (ih (i + 1) s₁ hrun).1
          exact ⟨by omega, fun hsame => by omega⟩

end Loop

section Jobs

/-- One run of the job. Chunk size and retry budget may differ from run to run. -/
structure BatchRun where
  /-- `chunk_size`. -/
  chunkSize : ℤ
  /-- `max_retries`. -/
  maxRetries : ℕ
  /-- The `resume` argument. -/
  resume : Bool
  /-- The environment. -/
  env : RunEnv

/-- The processor of a run; the checkpoint path is the same in all runs. -/
def BatchRun.processor (e : BatchRun) (path : Option String) : BatchProcessor :=
  ⟨e.chunkSize, e.maxRetries, path⟩

/-- The state of a job between its runs. -/
structure JobState (T : Type*) where
  /-- What the runs left behind. -/
  world : World T
  /-- Whether the last run was to resume. -/
  resumed : Bool := false
  /-- What the last run returned, if it returned. -/
  returned : Option BatchSummary := none

/-- One run over the records of the job. A record is told apart by its place in the list. -/
def jobStep (path : Option String) (jobId : String) (records : List T) (s : JobState (T × ℕ))
    (e : BatchRun) : JobState (T × ℕ) where
  world := ((e.processor path).run e.env records.zipIdx jobId e.resume s.world).1
  resumed := e.resume
  returned := ((e.processor path).run e.env records.zipIdx jobId e.resume s.world).2

/-- Before the first run, with what is at the checkpoint path. -/
def JobState.start (file : CheckpointFile) : JobState (T × ℕ) := { world := { file := file } }

/-- The checkpoint has no entry for the job: the next run starts from the beginning. -/
def entryCleared (path : Option String) (jobId : String) (file : CheckpointFile) : Bool :=
  match JsonCheckpoint.init path file with
  | .ok checkpoint => (checkpoint.completed jobId).isNone
  | .error _ => false

/-- If the last run was to resume and says that it is done, then every record has been
processed, and the checkpoint entry is gone. -/
def OkMeansAll (path : Option String) (jobId : String) (records : List T)
    (s : JobState (T × ℕ)) : Prop :=
  s.resumed = true → ∀ summary ∈ s.returned, summary.ok = true →
    (∀ record ∈ records.zipIdx, record ∈ s.world.processed) ∧
      entryCleared path jobId s.world.file = true

instance [DecidableEq T] (path : Option String) (jobId : String) (records : List T) :
    DecidablePred (OkMeansAll path jobId records) :=
  fun _ => inferInstanceAs (Decidable (_ → ∀ summary ∈ _, _ → (∀ record ∈ _, _) ∧ _))

/-- The environment lets a resumed run come through: every chunk that is not skipped is
processed in some attempt, and the run ends nowhere before it returns. -/
def BatchRun.ComesThrough (e : BatchRun) (path : Option String) (jobId : String)
    (checkpoint : JsonCheckpoint) (cs : List (List (T × ℕ))) : Prop :=
  (∀ i < cs.length, checkpoint.isDone jobId i = false → e.env.Completes (e.processor path) i) ∧
    e.env.stop .afterLoop = false ∧ e.env.stop .clearing = false ∧
    e.env.stop .beforeReturn = false

/-- A resumed run that comes through skips only chunks all of whose records have been
processed. -/
def SkipsOnlyProcessed (path : Option String) (jobId : String) (records : List T)
    (s : JobState (T × ℕ)) (e : BatchRun) : Prop :=
  e.resume = true → ∀ checkpoint cs, JsonCheckpoint.init path s.world.file = .ok checkpoint →
    chunks records.zipIdx e.chunkSize = .ok cs → e.ComesThrough path jobId checkpoint cs →
    ∀ record ∈ recordsOf (checkpoint.isDone jobId) 0 cs, record ∈ s.world.processed

variable {path : Option String} {jobId : String} {records : List T} {s : JobState (T × ℕ)}
  {e : BatchRun}

theorem nodup_zipIdx (records : List T) : records.zipIdx.Nodup :=
  (List.nodup_zipIdx_map_snd records).of_map _

/-- A checkpoint keeps its path. -/
theorem path_of_init {file : CheckpointFile} {checkpoint : JsonCheckpoint}
    (h : JsonCheckpoint.init path file = .ok checkpoint) : checkpoint.path = path := by
  unfold JsonCheckpoint.init at h
  split_ifs at h
  · cases file <;> cases h <;> rfl
  · cases h
    rfl

/-- The loop keeps the path. -/
theorem path_of_processChunk {p : BatchProcessor} {env : RunEnv} {resume : Bool} {i : ℕ}
    {chunk : List T} {s s' : Progress T}
    (h : p.processChunk env jobId resume i chunk s = .ok s') :
    s'.checkpoint.path = s.checkpoint.path := by
  have hmark : (s.checkpoint.markDone jobId i s.world.file).1.path = s.checkpoint.path := by
    unfold JsonCheckpoint.markDone
    split_ifs <;> rfl
  unfold processChunk at h
  cases hrun : p.runChunkWithRetry (env.attempt i) i chunk with
  | error _ =>
    simp only [hrun] at h
    split_ifs at h
    cases h
    rfl
  | ok outcome =>
    simp only [hrun] at h
    split_ifs at h <;> cases h
    · rfl
    · exact hmark
    · rfl

theorem path_of_processChunks {p : BatchProcessor} {env : RunEnv} {resume : Bool}
    (cs : List (List T)) (i : ℕ) (s : Progress T) {s' : Progress T}
    (h : p.processChunks env jobId resume i cs s = .ok s') :
    s'.checkpoint.path = s.checkpoint.path := by
  induction cs generalizing i s with
  | nil =>
    cases h
    rfl
  | cons chunk rest ih =>
    rw [processChunks] at h
    cases hchunk : p.processChunk env jobId resume i chunk s with
    | error w =>
      rw [hchunk] at h
      cases h
    | ok s₁ =>
      rw [hchunk] at h
      exact (ih (i + 1) s₁ h).trans (path_of_processChunk hchunk)

/-- A resumed run without a failed chunk returns unless it is stopped, and then its entry
is cleared. -/
theorem finish_of_ok (env : RunEnv) (jobId : String) {s : Progress T}
    (hok : s.summary.ok = true) :
    ((finish env jobId true s).2 ≠ none ↔ env.stop .afterLoop = false ∧
      env.stop .clearing = false ∧ env.stop .beforeReturn = false) ∧
    ((finish env jobId true s).2 ≠ none →
      entryCleared s.checkpoint.path jobId (finish env jobId true s).1.file = true) := by
  have hcleared : entryCleared s.checkpoint.path jobId
      (if s.checkpoint.rewrites s.world.file then
        { s.world with file := .saved (s.checkpoint.cleared jobId) }
      else s.world).file = true := by
    unfold entryCleared JsonCheckpoint.init JsonCheckpoint.rewrites
    cases husable : JsonCheckpoint.usable s.checkpoint.path with
    | false => simp
    | true => cases hfile : s.world.file <;> simp [hfile, JsonCheckpoint.cleared]
  unfold finish
  rw [hok]
  cases env.stop .afterLoop with
  | true => simp
  | false =>
    cases env.stop .clearing with
    | true => simp
    | false => cases env.stop .beforeReturn <;> simp [hcleared]

/-- Without a returned summary, or with one that is not ok, a run was not ok. -/
theorem finish_returns {env : RunEnv} {resume : Bool} {s : Progress T} {w : World T}
    {summary : BatchSummary} (h : finish env jobId resume s = (w, some summary)) :
    summary = s.summary ∧ w.processed = s.world.processed := by
  unfold finish at h
  split_ifs at h <;> cases h <;> exact ⟨rfl, rfl⟩

/-- What a resumed run returns that says it is done: the run came through, and it added the
records of the chunks that it did not skip. -/
theorem run_ok {p : BatchProcessor} {env : RunEnv} {records : List T} {w w' : World T}
    {summary : BatchSummary} (hrun : p.run env records jobId true w = (w', some summary))
    (hok : summary.ok = true) :
    ∃ checkpoint cs, JsonCheckpoint.init p.checkpointPath w.file = .ok checkpoint ∧
      chunks records p.chunkSize = .ok cs ∧
      (∀ i < cs.length, checkpoint.isDone jobId i = false → env.Completes p i) ∧
      (env.stop .afterLoop = false ∧ env.stop .clearing = false ∧
        env.stop .beforeReturn = false) ∧
      w'.processed = w.processed ++ recordsOf (fun i => !checkpoint.isDone jobId i) 0 cs ∧
      entryCleared p.checkpointPath jobId w'.file = true := by
  unfold run at hrun
  rw [if_pos rfl] at hrun
  cases hinit : JsonCheckpoint.init p.checkpointPath w.file with
  | error _ => simp [hinit] at hrun
  | ok checkpoint =>
    cases hchunks : chunks records p.chunkSize with
    | error _ => simp [hinit, hchunks] at hrun
    | ok cs =>
      simp only [hinit, hchunks] at hrun
      cases hloop : p.processChunks env jobId true 0 cs ⟨w, checkpoint, { jobId := jobId }⟩ with
      | error _ => simp [hloop] at hrun
      | ok s =>
        rw [hloop] at hrun
        dsimp only at hrun
        obtain ⟨rfl, hprocessed⟩ := finish_returns hrun
        have hzero : s.summary.chunksFailed = 0 := by simpa [BatchSummary.ok] using hok
        have hcompletes : ∀ i < cs.length, checkpoint.isDone jobId i = false →
            env.Completes p i := by
          simpa [Progress.skips] using (completes_of_processChunks cs 0 _ hloop).2 hzero
        obtain ⟨s', hloop', _, hadded⟩ := processChunks_of_completes p env jobId true cs 0
          ⟨w, checkpoint, { jobId := jobId }⟩
          (by simpa [Progress.skips] using hcompletes)
        rw [hloop] at hloop'
        cases hloop'
        obtain ⟨hstops, hcleared⟩ := finish_of_ok env jobId hok
        rw [hrun] at hstops hcleared
        rw [path_of_processChunks cs 0 _ hloop, path_of_init hinit] at hcleared
        refine ⟨checkpoint, cs, rfl, rfl, hcompletes, hstops.mp (by simp), ?_,
          hcleared (by simp)⟩
        rw [hprocessed, hadded]
        simp [Progress.skips]

/-- A resumed run that comes through says that it is done. -/
theorem run_of_comesThrough {p : BatchProcessor} {env : RunEnv} {records : List T} {w : World T}
    {checkpoint : JsonCheckpoint} {cs : List (List T)}
    (hinit : JsonCheckpoint.init p.checkpointPath w.file = .ok checkpoint)
    (hchunks : chunks records p.chunkSize = .ok cs)
    (hcompletes : ∀ i < cs.length, checkpoint.isDone jobId i = false → env.Completes p i)
    (hstops : env.stop .afterLoop = false ∧ env.stop .clearing = false ∧
      env.stop .beforeReturn = false) :
    ∃ w' summary, p.run env records jobId true w = (w', some summary) ∧ summary.ok = true := by
  obtain ⟨s, hloop, hfailed, _⟩ := processChunks_of_completes p env jobId true cs 0
    ⟨w, checkpoint, { jobId := jobId }⟩
    (by simpa [Progress.skips] using hcompletes)
  have hok : s.summary.ok = true := by simpa [BatchSummary.ok] using hfailed
  have hreturns := (finish_of_ok env jobId hok).1.mpr hstops
  obtain ⟨summary, hsummary⟩ := Option.ne_none_iff_exists'.mp hreturns
  have hrun : p.run env records jobId true w =
      ((finish env jobId true s).1, some summary) := by
    rw [← hsummary]
    simp [run, hinit, hchunks, hloop]
  refine ⟨_, summary, hrun, ?_⟩
  have hfinish : finish env jobId true s = ((finish env jobId true s).1, some summary) := by
    rw [← hsummary]
  rw [(finish_returns hfinish).1, hok]

/-- Whether the last run keeps what it says depends on the chunks it skipped. -/
theorem okMeansAll_jobStep_iff :
    OkMeansAll path jobId records (jobStep path jobId records s e) ↔
      SkipsOnlyProcessed path jobId records s e := by
  constructor
  · intro hok hresume checkpoint cs hinit hchunks hthrough record hrecord
    obtain ⟨w', summary, hrun, hsummary⟩ := run_of_comesThrough (p := e.processor path) hinit
      hchunks hthrough.1 hthrough.2
    have hstep : (e.processor path).run e.env records.zipIdx jobId e.resume s.world =
        (w', some summary) := by rw [hresume, hrun]
    obtain ⟨hall, _⟩ := hok hresume summary (by simp [jobStep, hstep]) hsummary
    obtain ⟨checkpoint', cs', hinit', hchunks', _, _, hprocessed, _⟩ := run_ok hrun hsummary
    obtain rfl : checkpoint = checkpoint' := Except.ok.inj (hinit.symm.trans hinit')
    obtain rfl : cs = cs' := Except.ok.inj (hchunks.symm.trans hchunks')
    have hflat := flatten_of_chunks hchunks
    have hmem : record ∈ records.zipIdx := by
      rw [← hflat]
      exact (mem_flatten_iff _ 0 cs record).mpr (Or.inl hrecord)
    have hdone := hall record hmem
    simp only [jobStep, hstep] at hdone
    rw [hprocessed, List.mem_append] at hdone
    refine hdone.resolve_right (not_mem_of_mem_recordsOf ?_ hrecord)
    rw [hflat]
    exact nodup_zipIdx records
  · intro hskips hresume summary hreturned hsummary
    have hresume : e.resume = true := hresume
    have hrun : (e.processor path).run e.env records.zipIdx jobId true s.world =
        ((jobStep path jobId records s e).world, some summary) := by
      rw [← hresume]
      exact Prod.ext rfl hreturned
    obtain ⟨checkpoint, cs, hinit, hchunks, hcompletes, hstops, hprocessed, hcleared⟩ :=
      run_ok hrun hsummary
    refine ⟨fun record hrecord => ?_, hcleared⟩
    rw [hprocessed, List.mem_append]
    rw [← flatten_of_chunks hchunks] at hrecord
    rcases (mem_flatten_iff (checkpoint.isDone jobId) 0 cs record).mp hrecord with hdone | hnew
    · exact Or.inl (hskips hresume checkpoint cs hinit hchunks ⟨hcompletes, hstops⟩ record hdone)
    · exact Or.inr hnew

/-- Over any sequence of runs of a job, each of which may crash anywhere, a resumed run that
says it is done has every record processed and the entry cleared, exactly when no resumed
run that comes through skips a chunk with a record that has not been processed. -/
theorem resume_complete_iff (path : Option String) (jobId : String) (records : List T)
    (file : CheckpointFile) (runs : List BatchRun) :
    Always (jobStep path jobId records) (OkMeansAll path jobId records) (JobState.start file)
        runs ↔
      Meets (jobStep path jobId records) (SkipsOnlyProcessed path jobId records)
        (JobState.start file) runs := by
  apply always_iff_meets (OkMeansAll path jobId records) (fun _ h => h)
  · exact fun s e _ hcond => okMeansAll_jobStep_iff.mpr hcond
  · exact fun s e _ hcond hok => hcond (okMeansAll_jobStep_iff.mp hok)
  · intro hresumed
    cases hresumed

/-- A run to completion: nothing fails and nothing stops it. -/
def calmEnv : RunEnv := ⟨fun _ _ => none, fun _ => false⟩

/-- A run that dies before it gets to the second chunk. -/
def dyingEnv : RunEnv := ⟨fun _ _ => none, fun point => point == .beforeChunk 1⟩

/-- With chunks of one record the first is done when the run dies. With chunks of two the
next run skips both records and says that it is done, and the second was never processed. -/
theorem resume_skips_unprocessed :
    ¬Always (jobStep (some "checkpoint.json") "orderbook-2024-06" ["a", "b"])
      (OkMeansAll (some "checkpoint.json") "orderbook-2024-06" ["a", "b"])
      (JobState.start .absent) [⟨1, 3, true, dyingEnv⟩, ⟨2, 3, true, calmEnv⟩] := by
  decide +kernel

end Jobs

section SameSize

variable {all : List (List T)} {entry : List ℕ} {processed : List T}

/-- Every index done stands for a chunk that has been processed. -/
def Stands (all : List (List T)) (completed : Completed) (jobId : String)
    (processed : List T) : Prop :=
  ∀ i ∈ (completed jobId).getD [], ∀ chunk, all[i]? = some chunk →
    ∀ record ∈ chunk, record ∈ processed

/-- So does every index in the file. -/
def FileStands (all : List (List T)) (jobId : String) (w : World T) : Prop :=
  ∀ completed, w.file = .saved completed → Stands all completed jobId w.processed

/-- What a run reaches in its loop keeps the file right. -/
def LoopStands (all : List (List T)) (jobId : String) :
    Except (World T) (Progress T) → Prop
  | .error w => FileStands all jobId w
  | .ok s => FileStands all jobId s.world ∧
      Stands all s.checkpoint.completed jobId s.world.processed

variable {jobId : String} {completed : Completed}

theorem Stands.append (h : Stands all completed jobId processed) (chunk : List T) :
    Stands all completed jobId (processed ++ chunk) := by
  intro i hi chunk' hchunk' record hrecord
  exact List.mem_append_left _ (h i hi chunk' hchunk' record hrecord)

theorem FileStands.append {w : World T} (h : FileStands all jobId w) (chunk : List T) :
    FileStands all jobId { w with processed := w.processed ++ chunk } :=
  fun completed hfile => (h completed hfile).append chunk

/-- Marking a chunk done that has just been processed keeps the indices right. -/
theorem Stands.mark {i : ℕ} {chunk : List T} (h : Stands all completed jobId processed)
    (hchunk : all[i]? = some chunk) :
    Stands all (Function.update completed jobId (some ((completed jobId).getD [] ++ [i]))) jobId
      (processed ++ chunk) := by
  intro j hj chunk' hchunk' record hrecord
  rw [Function.update_self, Option.getD_some, List.mem_append, List.mem_singleton] at hj
  rcases hj with hj | rfl
  · exact List.mem_append_left _ (h j hj chunk' hchunk' record hrecord)
  · obtain rfl : chunk = chunk' := Option.some.inj (hchunk.symm.trans hchunk')
    exact List.mem_append_right _ hrecord

/-- One turn of the loop keeps the indices right, wherever it ends. -/
theorem loopStands_processChunk (p : BatchProcessor) (env : RunEnv) (resume : Bool) {i : ℕ}
    {chunk : List T} {s : Progress T} (hchunk : all[i]? = some chunk)
    (hs : LoopStands all jobId (.ok s)) :
    LoopStands all jobId (p.processChunk env jobId resume i chunk s) := by
  obtain ⟨hfile, hstands⟩ := hs
  have hprocess : FileStands all jobId (process chunk s).world := hfile.append chunk
  have hsucceed (outcome : ChunkOutcome) :
      LoopStands all jobId (.ok (succeed jobId i chunk outcome (process chunk s))) := by
    have hmark := hstands.mark hchunk
    unfold LoopStands FileStands succeed JsonCheckpoint.markDone
    split_ifs
    · refine ⟨?_, hmark⟩
      rintro completed hsaved
      cases hsaved
      exact hmark
    · exact ⟨hprocess, hstands.append chunk⟩
  unfold processChunk
  cases p.runChunkWithRetry (env.attempt i) i chunk with
  | error _ =>
    dsimp only
    split_ifs
    · exact ⟨hfile, hstands⟩
    · exact hfile
    · exact hfile
  | ok outcome =>
    dsimp only
    split_ifs
    · exact ⟨hfile, hstands⟩
    · exact hfile
    · exact hprocess
    · exact (hsucceed outcome).1
    · exact hsucceed outcome
    · exact hfile
    · exact ⟨hfile, hstands⟩

/-- The loop keeps the indices right. -/
theorem loopStands_processChunks (p : BatchProcessor) (env : RunEnv) (resume : Bool)
    (cs : List (List T)) (i : ℕ) (s : Progress T) (hcs : ∀ j, cs[j]? = all[i + j]?)
    (hs : LoopStands all jobId (.ok s)) :
    LoopStands all jobId (p.processChunks env jobId resume i cs s) := by
  induction cs generalizing i s with
  | nil => exact hs
  | cons chunk rest ih =>
    have hchunk : all[i]? = some chunk := by simpa using (hcs 0).symm
    have hstep := loopStands_processChunk p env resume hchunk hs
    rw [processChunks]
    cases hrun : p.processChunk env jobId resume i chunk s with
    | error w =>
      rw [hrun] at hstep
      exact hstep
    | ok s₁ =>
      rw [hrun] at hstep
      refine ih (i + 1) s₁ (fun j => ?_) hstep
      have hnext := hcs (j + 1)
      rwa [List.getElem?_cons_succ, ← Nat.add_assoc, Nat.add_right_comm] at hnext

/-- What a run without a checkpoint path reaches: the file is as it was, and nothing
processed is forgotten. -/
def Untouched (w : World T) : Except (World T) (Progress T) → Prop
  | .error w' => w'.file = w.file ∧ w.processed ⊆ w'.processed
  | .ok s => JsonCheckpoint.usable s.checkpoint.path = false ∧ s.world.file = w.file ∧
      w.processed ⊆ s.world.processed

theorem untouched_processChunk (p : BatchProcessor) (env : RunEnv) (jobId : String)
    (resume : Bool) (i : ℕ) (chunk : List T) {s : Progress T} {w : World T}
    (hs : Untouched w (.ok s)) :
    Untouched w (p.processChunk env jobId resume i chunk s) := by
  obtain ⟨hpath, hfile, hprocessed⟩ := hs
  have hgrown : w.processed ⊆ s.world.processed ++ chunk :=
    fun record hrecord => List.mem_append_left _ (hprocessed hrecord)
  have hsucceed (outcome : ChunkOutcome) :
      Untouched w (.ok (succeed jobId i chunk outcome (process chunk s))) := by
    unfold Untouched succeed JsonCheckpoint.markDone
    simp only [process, hpath, Bool.false_eq_true, if_false]
    exact ⟨trivial, hfile, hgrown⟩
  unfold processChunk
  cases p.runChunkWithRetry (env.attempt i) i chunk with
  | error _ =>
    dsimp only
    split_ifs
    · exact ⟨hpath, hfile, hprocessed⟩
    · exact ⟨hfile, hprocessed⟩
    · exact ⟨hfile, hprocessed⟩
  | ok outcome =>
    dsimp only
    split_ifs
    · exact ⟨hpath, hfile, hprocessed⟩
    · exact ⟨hfile, hprocessed⟩
    · exact ⟨hfile, hgrown⟩
    · exact (hsucceed outcome).2
    · exact hsucceed outcome
    · exact ⟨hfile, hprocessed⟩
    · exact ⟨hpath, hfile, hprocessed⟩

theorem untouched_processChunks (p : BatchProcessor) (env : RunEnv) (jobId : String)
    (resume : Bool) (cs : List (List T)) (i : ℕ) (s : Progress T) {w : World T}
    (hs : Untouched w (.ok s)) :
    Untouched w (p.processChunks env jobId resume i cs s) := by
  induction cs generalizing i s with
  | nil => exact hs
  | cons chunk rest ih =>
    have hstep := untouched_processChunk p env jobId resume i chunk hs
    rw [processChunks]
    cases hrun : p.processChunk env jobId resume i chunk s with
    | error w =>
      rw [hrun] at hstep
      exact hstep
    | ok s₁ =>
      rw [hrun] at hstep
      exact ih (i + 1) s₁ hstep

/-- Without `resume` a run leaves the checkpoint file alone. -/
theorem run_of_not_resume (p : BatchProcessor) (env : RunEnv) (records : List T)
    (jobId : String) (w : World T) :
    (p.run env records jobId false w).1.file = w.file ∧
      w.processed ⊆ (p.run env records jobId false w).1.processed := by
  have hinit : JsonCheckpoint.init none w.file = .ok { path := none } := rfl
  unfold run
  rw [if_neg (by simp), hinit]
  cases chunks records p.chunkSize with
  | error _ => exact ⟨rfl, List.Subset.refl _⟩
  | ok cs =>
    dsimp only
    have hloop := untouched_processChunks p env jobId false cs 0
      ⟨w, { path := none }, { jobId := jobId }⟩
      ⟨rfl, rfl, List.Subset.refl _⟩
    cases hrun : p.processChunks env jobId false 0 cs ⟨w, { path := none }, { jobId := jobId }⟩ with
    | error w' =>
      rw [hrun] at hloop
      exact hloop
    | ok s =>
      rw [hrun] at hloop
      have hfinish : (finish env jobId false s).1 = s.world := by
        unfold finish
        split_ifs <;> simp_all
      dsimp only
      rw [hfinish]
      exact hloop.2

/-- What the end of a run does to the file: nothing, truncate it or clear the entry. -/
theorem finish_cases (env : RunEnv) (jobId : String) (resume : Bool) (s : Progress T) :
    (finish env jobId resume s).1 = s.world ∨
      (finish env jobId resume s).1 = { s.world with file := .invalid } ∨
      (finish env jobId resume s).1 =
        { s.world with file := .saved (s.checkpoint.cleared jobId) } := by
  unfold finish
  cases s.checkpoint.rewrites s.world.file <;> split_ifs <;> simp

/-- With `resume` and always the same chunks, a run keeps the indices in the file right. -/
theorem fileStands_run (p : BatchProcessor) (env : RunEnv) (jobId : String) {records : List T}
    {w : World T}
    (hw : FileStands (chunksFrom p.chunkSize records []) jobId w) :
    FileStands (chunksFrom p.chunkSize records []) jobId
      (p.run env records jobId true w).1 := by
  unfold run
  rw [if_pos rfl]
  cases hinit : JsonCheckpoint.init p.checkpointPath w.file with
  | error _ => exact hw
  | ok checkpoint =>
    have hstands : Stands (chunksFrom p.chunkSize records []) checkpoint.completed jobId
        w.processed := by
      unfold JsonCheckpoint.init at hinit
      split_ifs at hinit
      · cases hfile : w.file with
        | absent =>
          rw [hfile] at hinit
          cases hinit
          exact fun i hi => by simp at hi
        | invalid =>
          rw [hfile] at hinit
          cases hinit
        | saved completed =>
          rw [hfile] at hinit
          cases hinit
          exact hw completed hfile
      · cases hinit
        exact fun i hi => by simp at hi
    dsimp only
    cases hchunks : chunks records p.chunkSize with
    | error _ => exact hw
    | ok cs =>
      have hcs : cs = chunksFrom p.chunkSize records [] := by
        unfold chunks at hchunks
        split_ifs at hchunks
        exact (Except.ok.inj hchunks).symm
      subst hcs
      have hloop := loopStands_processChunks p env true _ 0
        ⟨w, checkpoint, { jobId := jobId }⟩ (fun j => by rw [Nat.zero_add]) ⟨hw, hstands⟩
      dsimp only
      cases hrun : p.processChunks env jobId true 0 (chunksFrom p.chunkSize records [])
          ⟨w, checkpoint, { jobId := jobId }⟩ with
      | error w' =>
        rw [hrun] at hloop
        exact hloop
      | ok s =>
        rw [hrun] at hloop
        have hcleared : Stands (chunksFrom p.chunkSize records []) (s.checkpoint.cleared jobId)
            jobId s.world.processed := fun i hi => by simp [JsonCheckpoint.cleared] at hi
        dsimp only
        rcases finish_cases env jobId true s with hsame | hinvalid | hsaved
        · rw [hsame]
          exact hloop.1
        · rw [hinvalid]
          intro completed hfile
          cases hfile
        · rw [hsaved]
          intro completed hfile
          cases hfile
          exact hcleared

/-- A job whose resumed runs all use the same chunk size, over a checkpoint file without an
entry for it to begin with, is done whenever a resumed run says so. -/
theorem resume_complete_of_same_chunkSize {path : Option String} {records : List T}
    {file : CheckpointFile} {size : ℤ} {runs : List BatchRun}
    (hfile : ∀ completed, file = .saved completed → completed jobId = none)
    (hsize : ∀ e ∈ runs, e.resume = true → e.chunkSize = size) :
    Always (jobStep path jobId records) (OkMeansAll path jobId records) (JobState.start file)
      runs := by
  have hmeets : Meets (jobStep path jobId records)
      (fun _ (e : BatchRun) => e.resume = true → e.chunkSize = size) (JobState.start file)
      runs := meets_event_iff.mpr hsize
  refine always_of_meets (fun s => OkMeansAll path jobId records s ∧
    FileStands (chunksFrom size records.zipIdx []) jobId s.world) ?_ ?_ ?_ hmeets
  · exact fun _ h => h.1
  · rintro s e ⟨_, hstands⟩ hcond
    refine ⟨okMeansAll_jobStep_iff.mpr ?_, ?_⟩
    · intro hresume checkpoint cs hinit hchunks _ record hrecord
      obtain ⟨i, chunk, hchunk, hdone, hmem⟩ := mem_recordsOf.mp hrecord
      unfold chunks at hchunks
      split_ifs at hchunks
      obtain rfl := Except.ok.inj hchunks
      rw [hcond hresume] at hchunk
      unfold JsonCheckpoint.init at hinit
      split_ifs at hinit
      · cases hsaved : s.world.file with
        | absent =>
          rw [hsaved] at hinit
          cases hinit
          simp [JsonCheckpoint.isDone] at hdone
        | invalid =>
          rw [hsaved] at hinit
          cases hinit
        | saved completed =>
          rw [hsaved] at hinit
          cases hinit
          rw [Nat.zero_add, JsonCheckpoint.isDone, List.contains_iff_mem] at hdone
          exact hstands completed hsaved i hdone chunk hchunk record hmem
      · cases hinit
        simp [JsonCheckpoint.isDone] at hdone
    · cases hresume : e.resume with
      | true =>
        have hkept := fileStands_run (e.processor path) e.env jobId (by
            rw [BatchRun.processor, hcond hresume]
            exact hstands)
        simp only [BatchRun.processor, hcond hresume] at hkept
        simp only [jobStep, BatchRun.processor, hresume, hcond hresume]
        exact hkept
      | false =>
        obtain ⟨hsame, hgrown⟩ := run_of_not_resume (e.processor path) e.env records.zipIdx jobId
          s.world
        simp only [jobStep, hresume]
        intro completed hsaved i hi chunk hchunk record hrecord
        exact hgrown (hstands completed (hsame ▸ hsaved) i hi chunk hchunk record hrecord)
  · refine ⟨fun hresumed => (by cases hresumed), fun completed hsaved i hi => ?_⟩
    rw [hfile completed hsaved] at hi
    simp at hi

/-- The first run dies before its second chunk, and the next one has chunks of one record too. -/
theorem resume_complete_of_same_chunkSize_dying :
    Always (jobStep (some "checkpoint.json") "orderbook-2024-06" ["a", "b"])
      (OkMeansAll (some "checkpoint.json") "orderbook-2024-06" ["a", "b"])
      (JobState.start .absent) [⟨1, 3, true, dyingEnv⟩, ⟨1, 3, true, calmEnv⟩] :=
  resume_complete_of_same_chunkSize (fun completed hsaved => by cases hsaved)
    (show ∀ e ∈ [(⟨1, 3, true, dyingEnv⟩ : BatchRun), ⟨1, 3, true, calmEnv⟩],
      e.resume = true → e.chunkSize = 1 by simp)

end SameSize

end LedgerLens.Ingestion
