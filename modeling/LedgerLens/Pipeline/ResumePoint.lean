import LedgerLens.Pipeline.RecoveryGate

/-!
# Where a run resumes

Three functions decide which stages of a run are complete. `is_complete`, which `stage` asks,
takes a completion that is as old as the time to live for a valid one;
`first_incomplete_stage` does not; and `resume_info` lists every stage whose row says `done`,
however old it is. This file determines when they agree.
-/

namespace LedgerLens.Pipeline

/-- `PIPELINE_STAGES`. -/
def pipelineStages : List String :=
  ["ingest", "orderbook", "funding_graph", "features", "scoring", "persist", "onchain"]

namespace CheckpointStore

/-- `list_stages`: the rows of a run and a pair with the names of their stages. -/
def listStages (store : CheckpointStore) (runId pairId : String) :
    List (String × CheckpointRecord) :=
  (store.table.rows.filter fun row => row.1.runId = runId ∧ row.1.pairId = pairId).map fun row =>
    (row.1.stage, row.2)

/-- The stages that `first_incomplete_stage` takes for complete. -/
def completedStages (store : CheckpointStore) (now : ℤ) (runId pairId : String) : List String :=
  (store.listStages runId pairId).filterMap fun row =>
    if row.2.status = .done then
      match row.2.completedAt with
      | none => none
      | some completedAt =>
        if now - completedAt < hours store.ttlHours then some row.1 else none
    else none

/-- `first_incomplete_stage`. -/
def firstIncompleteStage (store : CheckpointStore) (now : ℤ) (runId pairId : String) :
    Option String :=
  pipelineStages.find? fun stage => stage ∉ store.completedStages now runId pairId

end CheckpointStore

/-- What `resume_info` returns. -/
structure ResumeInfo where
  /-- `run_id`. -/
  runId : String
  /-- `pair_id`. -/
  pairId : String
  /-- `completed_stages`. -/
  completedStages : List String
  /-- `first_incomplete_stage`. -/
  firstIncompleteStage : Option String
  /-- `will_resume`. -/
  willResume : Bool
  deriving DecidableEq

/-- `RecoveryManager.resume_info`. -/
def RecoveryManager.resumeInfo {Payload : Type*} (manager : RecoveryManager Payload) (now : ℤ)
    (runId pairId : String) : ResumeInfo :=
  let firstIncomplete := manager.store.firstIncompleteStage now runId pairId
  let completed := ((manager.store.listStages runId pairId).filter fun row =>
    row.2.status = .done).map Prod.fst
  { runId := runId
    pairId := pairId
    completedStages := completed
    firstIncompleteStage := firstIncomplete
    willResume := firstIncomplete.isSome && !completed.isEmpty }

/-- What is announced is what `stage` will do: the resume point is the first stage that is not
complete, and the completed stages are. -/
structure AnnouncesResumption {Payload : Type*} (manager : RecoveryManager Payload) (now : ℤ)
    (runId pairId : String) : Prop where
  /-- The resume point, as `first_incomplete_stage` returns it. -/
  resumePoint : manager.store.firstIncompleteStage now runId pairId =
    pipelineStages.find? fun stage => !manager.store.isComplete now ⟨runId, pairId, stage⟩
  /-- The completed stages, as `resume_info` lists them. -/
  completed : ∀ stage ∈ (manager.resumeInfo now runId pairId).completedStages,
    manager.store.isComplete now ⟨runId, pairId, stage⟩ = true

/-- A stage was completed exactly the time to live ago. -/
def CheckpointStore.ExpiresAt (store : CheckpointStore) (now : ℤ) (key : CheckpointKey) : Prop :=
  ∃ record, store.get key = some record ∧ record.status = .done ∧
    record.completedAt = some (now - hours store.ttlHours)

/-- The condition under which the functions agree. -/
structure ResumesClearly {Payload : Type*} (manager : RecoveryManager Payload) (now : ℤ)
    (runId pairId : String) : Prop where
  /-- A stage that was completed exactly the time to live ago comes after one that is not
  complete. -/
  noneExpires : ∀ before stage after, pipelineStages = before ++ stage :: after →
    manager.store.ExpiresAt now ⟨runId, pairId, stage⟩ →
      ∃ earlier ∈ before, manager.store.isComplete now ⟨runId, pairId, earlier⟩ = false
  /-- No row of the run and the pair that says `done` has expired or lacks its date. -/
  noneExpired : ∀ stage record, manager.store.get ⟨runId, pairId, stage⟩ = some record →
    record.status = .done → ∃ completedAt, record.completedAt = some completedAt ∧
      now - completedAt ≤ hours manager.store.ttlHours

variable {Payload : Type*} {manager : RecoveryManager Payload} {store : CheckpointStore} {now : ℤ}
  {runId pairId stage : String}

namespace CheckpointStore

theorem mem_listStages {record : CheckpointRecord} :
    (stage, record) ∈ store.listStages runId pairId ↔
      store.get ⟨runId, pairId, stage⟩ = some record := by
  unfold listStages get
  rw [UniqueTable.find?_eq_some_iff, List.mem_map]
  constructor
  · rintro ⟨⟨⟨run, pair, name⟩, r⟩, hmem, heq⟩
    obtain ⟨rfl, rfl⟩ := Prod.mk.inj heq
    obtain ⟨hrow, hkey⟩ := List.mem_filter.mp hmem
    obtain ⟨rfl, rfl⟩ := of_decide_eq_true hkey
    exact hrow
  · intro hrow
    exact ⟨_, List.mem_filter.mpr ⟨hrow, by simp⟩, rfl⟩

/-- The stages that `first_incomplete_stage` takes for complete are those that are younger
than the time to live. -/
theorem mem_completedStages :
    stage ∈ store.completedStages now runId pairId ↔
      ∃ record completedAt, store.get ⟨runId, pairId, stage⟩ = some record ∧
        record.status = .done ∧ record.completedAt = some completedAt ∧
          now - completedAt < hours store.ttlHours := by
  unfold completedStages
  rw [List.mem_filterMap]
  constructor
  · rintro ⟨⟨name, record⟩, hmem, hrow⟩
    dsimp only at hrow
    split_ifs at hrow with hdone
    cases hdate : record.completedAt with
    | none =>
      rw [hdate] at hrow
      cases hrow
    | some completedAt =>
      rw [hdate] at hrow
      dsimp only at hrow
      split_ifs at hrow with hyoung
      cases hrow
      exact ⟨record, completedAt, mem_listStages.mp hmem, hdone, hdate, hyoung⟩
  · rintro ⟨record, completedAt, hget, hdone, hdate, hyoung⟩
    exact ⟨(stage, record), mem_listStages.mpr hget, by simp [hdone, hdate, hyoung]⟩

/-- What is complete for `is_complete` alone expires. -/
theorem expiresAt_iff {now : ℤ} :
    store.ExpiresAt now ⟨runId, pairId, stage⟩ ↔
      store.isComplete now ⟨runId, pairId, stage⟩ = true ∧
        stage ∉ store.completedStages now runId pairId := by
  rw [isComplete_iff, mem_completedStages]
  constructor
  · rintro ⟨record, hget, hdone, hdate⟩
    refine ⟨⟨record, _, hget, hdone, hdate, by omega⟩, ?_⟩
    rintro ⟨record', completedAt, hget', -, hdate', hyoung⟩
    rw [hget, Option.some.injEq] at hget'
    rw [← hget', hdate, Option.some.injEq] at hdate'
    omega
  · rintro ⟨⟨record, completedAt, hget, hdone, hdate, hle⟩, hnot⟩
    have hge : ¬now - completedAt < hours store.ttlHours := fun hlt =>
      hnot ⟨record, completedAt, hget, hdone, hdate, hlt⟩
    have hexact : completedAt = now - hours store.ttlHours := by omega
    exact ⟨record, hget, hdone, hexact ▸ hdate⟩

/-- What is complete for `first_incomplete_stage` is so for `is_complete`. -/
theorem isComplete_of_mem (h : stage ∈ store.completedStages now runId pairId) :
    store.isComplete now ⟨runId, pairId, stage⟩ = true := by
  obtain ⟨record, completedAt, hget, hdone, hdate, hyoung⟩ := mem_completedStages.mp h
  exact isComplete_iff.mpr ⟨record, completedAt, hget, hdone, hdate, hyoung.le⟩

end CheckpointStore

/-- The first items without a property and without a weaker one are the same exactly if an
item with the weaker one alone comes after an item without it. -/
theorem find?_not_eq_iff {α : Type*} {p q : α → Bool} (hpq : ∀ a, p a = true → q a = true)
    (as : List α) :
    (as.find? fun a => !p a) = (as.find? fun a => !q a) ↔
      ∀ before a after, as = before ++ a :: after → q a = true → p a = false →
        ∃ b ∈ before, q b = false := by
  induction as with
  | nil => simp
  | cons first as ih =>
    cases hq : q first with
    | false =>
      have hp : p first = false := by
        by_contra hne
        have hweak := hpq first (by simpa using hne)
        rw [hq] at hweak
        cases hweak
      simp only [List.find?_cons, hp, hq, Bool.not_false, true_iff]
      intro before a after hsplit ha _
      cases before with
      | nil =>
        obtain ⟨rfl, -⟩ := List.cons.inj hsplit
        rw [hq] at ha
        cases ha
      | cons b before =>
        obtain ⟨rfl, -⟩ := List.cons.inj hsplit
        exact ⟨first, List.mem_cons_self, hq⟩
    | true =>
      cases hp : p first with
      | false =>
        simp only [List.find?_cons, hp, hq, Bool.not_false, Bool.not_true]
        constructor
        · intro heq
          have hlater := List.find?_some heq.symm
          simp [hq] at hlater
        · intro h
          obtain ⟨b, hb, -⟩ := h [] first as rfl hq hp
          cases hb
      | true =>
        simp only [List.find?_cons, hp, hq, Bool.not_true]
        rw [ih]
        constructor
        · intro h before a after hsplit ha hpa
          cases before with
          | nil =>
            obtain ⟨rfl, -⟩ := List.cons.inj hsplit
            rw [hp] at hpa
            cases hpa
          | cons b before =>
            obtain ⟨rfl, rfl⟩ := List.cons.inj hsplit
            obtain ⟨c, hc, hqc⟩ := h before a after rfl ha hpa
            exact ⟨c, List.mem_cons_of_mem _ hc, hqc⟩
        · intro h before a after hsplit ha hpa
          obtain ⟨c, hc, hqc⟩ := h (first :: before) a after (by rw [hsplit]; rfl) ha hpa
          rcases List.mem_cons.mp hc with rfl | hc
          · rw [hq] at hqc
            cases hqc
          · exact ⟨c, hc, hqc⟩

/-- The announced resume point is the first incomplete stage exactly if a stage that expires
comes after an incomplete one. -/
theorem firstIncompleteStage_eq_iff :
    (store.firstIncompleteStage now runId pairId =
        pipelineStages.find? fun stage => !store.isComplete now ⟨runId, pairId, stage⟩) ↔
      ∀ before stage after, pipelineStages = before ++ stage :: after →
        store.ExpiresAt now ⟨runId, pairId, stage⟩ →
          ∃ earlier ∈ before, store.isComplete now ⟨runId, pairId, earlier⟩ = false := by
  have hiff := find?_not_eq_iff
    (p := fun stage => decide (stage ∈ store.completedStages now runId pairId))
    (q := fun stage => store.isComplete now ⟨runId, pairId, stage⟩)
    (fun stage h => CheckpointStore.isComplete_of_mem (of_decide_eq_true h)) pipelineStages
  unfold CheckpointStore.firstIncompleteStage
  simp only [decide_not]
  rw [hiff]
  simp only [CheckpointStore.expiresAt_iff, decide_eq_false_iff_not, and_imp]

/-- The stages that `resume_info` lists are complete exactly if no row that says `done` has
expired or lacks its date. -/
theorem completed_resumeInfo_iff :
    (∀ stage ∈ (manager.resumeInfo now runId pairId).completedStages,
        manager.store.isComplete now ⟨runId, pairId, stage⟩ = true) ↔
      ∀ stage record, manager.store.get ⟨runId, pairId, stage⟩ = some record →
        record.status = .done → ∃ completedAt, record.completedAt = some completedAt ∧
          now - completedAt ≤ hours manager.store.ttlHours := by
  have hmem : ∀ stage, stage ∈ (manager.resumeInfo now runId pairId).completedStages ↔
      ∃ record, manager.store.get ⟨runId, pairId, stage⟩ = some record ∧
        record.status = .done := by
    intro stage
    unfold RecoveryManager.resumeInfo
    dsimp only
    rw [List.mem_map]
    constructor
    · rintro ⟨⟨name, record⟩, hrow, rfl⟩
      obtain ⟨hrow, hdone⟩ := List.mem_filter.mp hrow
      exact ⟨record, CheckpointStore.mem_listStages.mp hrow, by simpa using hdone⟩
    · rintro ⟨record, hget, hdone⟩
      exact ⟨(stage, record), List.mem_filter.mpr
        ⟨CheckpointStore.mem_listStages.mpr hget, by simpa using hdone⟩, rfl⟩
  constructor
  · intro h stage record hget hdone
    obtain ⟨record', completedAt, hget', -, hdate, hle⟩ :=
      CheckpointStore.isComplete_iff.mp (h stage ((hmem stage).mpr ⟨record, hget, hdone⟩))
    rw [hget, Option.some.injEq] at hget'
    exact ⟨completedAt, hget' ▸ hdate, hle⟩
  · intro h stage hstage
    obtain ⟨record, hget, hdone⟩ := (hmem stage).mp hstage
    obtain ⟨completedAt, hdate, hle⟩ := h stage record hget hdone
    exact CheckpointStore.isComplete_iff.mpr ⟨record, completedAt, hget, hdone, hdate, hle⟩

/-- What is announced is what `stage` will do exactly under the condition. -/
theorem announcesResumption_iff (manager : RecoveryManager Payload) (now : ℤ)
    (runId pairId : String) :
    AnnouncesResumption manager now runId pairId ↔ ResumesClearly manager now runId pairId := by
  constructor
  · intro h
    exact ⟨firstIncompleteStage_eq_iff.mp h.resumePoint, completed_resumeInfo_iff.mp h.completed⟩
  · intro h
    exact ⟨firstIncompleteStage_eq_iff.mpr h.noneExpires,
      completed_resumeInfo_iff.mpr h.noneExpired⟩

/-- A manager whose store has one stage, ingestion, completed at the epoch. -/
def ingestedManager : RecoveryManager ℕ where
  store :=
    { table := (UniqueTable.empty : UniqueTable CheckpointKey CheckpointRecord).put
        ⟨"run", "XLM/USDC", "ingest"⟩ { status := .done, completedAt := some 0 } }

/-- After exactly 48 hours ingestion is announced as the resume point, though `stage` would
skip it; and after 49 hours it is listed as completed, though `stage` would run it. -/
theorem expiring_stage_misannounced :
    ¬AnnouncesResumption ingestedManager (hours 48) "run" "XLM/USDC" ∧
      ¬AnnouncesResumption ingestedManager (hours 49) "run" "XLM/USDC" := by
  constructor
  · intro h
    exact absurd h.resumePoint (by decide +kernel)
  · intro h
    exact absurd (h.completed "ingest" (by decide +kernel)) (by decide +kernel)

end LedgerLens.Pipeline
