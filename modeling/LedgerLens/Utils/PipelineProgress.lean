import LedgerLens.Library.Runs
import LedgerLens.Utils.PipelineCheckpoint

/-!
# Progress of a batch pipeline

`record_success` takes its unit out of the failed ones. `record_failure` does not take its
unit out of the completed ones. This file shows in which runs of one pipeline with the same
inputs the two maps say what was last recorded, and a reload gives what was last saved.
-/

namespace LedgerLens.Utils

open Transition PipelineCheckpoint

variable {Meta Inputs : Type*}

/-- What is recorded of a unit. -/
inductive UnitOutcome where
  /-- By `record_success`. -/
  | success
  /-- By `record_failure`. -/
  | failure
  deriving DecidableEq

/-- The last outcome recorded of a unit. -/
def lastOutcome (recorded : List (String × UnitOutcome)) (unitId : String) : Option UnitOutcome :=
  (recorded.reverse.find? fun r => r.1 = unitId).map Prod.snd

/-- One run after another over one file. What was recorded is kept beside it. -/
structure Progress (Meta Inputs : Type*) where
  /-- The file. -/
  file : CheckpointFile Meta
  /-- The object of the running process. -/
  ckpt : Option (PipelineCheckpoint Meta Inputs)
  /-- The outcomes recorded with that object, and before it up to the save it was read from. -/
  recorded : List (String × UnitOutcome)
  /-- The object at the last successful save and the outcomes recorded by then. -/
  saved : Option (PipelineCheckpoint Meta Inputs × List (String × UnitOutcome))

/-- What happens in a run. A process that ends in a call is a crash before or after it. -/
inductive ProgressEvent (Meta : Type*) where
  /-- `load_or_create`. -/
  | loadOrCreate (fresh : Bool) (now : String) (fault : Option String)
  /-- `record_success`. -/
  | recordSuccess (unitId : String) (artifactPath : Option String) (metadata : Option Meta)
      (now : String) (fault : Option String)
  /-- `record_failure`. -/
  | recordFailure (unitId error now : String) (fault : Option String)
  /-- The process ends. -/
  | crash

section Runs

variable (codec : MetadataCodec Meta) (dumps : Inputs → String) (pipeline : String)
  (inputs : Inputs)

/-- The progress after an outcome was recorded, and saved or not. -/
def Progress.record (run : Progress Meta Inputs) (unitId : String) (outcome : UnitOutcome)
    (answer : Except CheckpointError Unit × PipelineCheckpoint Meta Inputs × CheckpointFile Meta) :
    Progress Meta Inputs :=
  let recorded := run.recorded ++ [(unitId, outcome)]
  { file := answer.2.2
    ckpt := some answer.2.1
    recorded := recorded
    saved := match answer.1 with
      | .ok _ => some (answer.2.1, recorded)
      | .error _ => run.saved }

/-- The progress after an object was created, or none was. -/
def Progress.afterCreate (run : Progress Meta Inputs)
    (answer : Except CheckpointError (PipelineCheckpoint Meta Inputs) × CheckpointFile Meta) :
    Progress Meta Inputs :=
  match answer.1 with
  | .ok ckpt => ⟨answer.2, some ckpt, [], some (ckpt, [])⟩
  | .error _ => { run with file := answer.2, saved := none }

/-- The progress after an object was read from the file, or none was. -/
def Progress.afterResume (run : Progress Meta Inputs)
    (answer : Except CheckpointError (PipelineCheckpoint Meta Inputs) × CheckpointFile Meta) :
    Progress Meta Inputs :=
  match answer.1 with
  | .ok ckpt => { run with ckpt := some ckpt, recorded := (run.saved.map Prod.snd).getD [] }
  | .error _ => run

/-- One step of the runs of a pipeline with the same inputs. -/
def progressStep (run : Progress Meta Inputs) :
    ProgressEvent Meta → Progress Meta Inputs
  | .crash => { run with ckpt := none }
  | .loadOrCreate fresh now fault =>
    let answer := loadOrCreate codec dumps pipeline inputs fresh now fault run.file
    match if fresh then .absent else run.file with
    | .absent => run.afterCreate answer
    | _ => run.afterResume answer
  | .recordSuccess unitId artifactPath metadata now fault =>
    match run.ckpt with
    | none => run
    | some ckpt => run.record unitId .success
        (ckpt.recordSuccess codec unitId artifactPath metadata now fault run.file)
  | .recordFailure unitId error now fault =>
    match run.ckpt with
    | none => run
    | some ckpt => run.record unitId .failure
        (ckpt.recordFailure codec unitId error now fault run.file)

/-- No file and no process. -/
def Progress.start : Progress Meta Inputs := ⟨.absent, none, [], none⟩

/-- The maps say what was last recorded of each unit. -/
structure OutcomesKept (ckpt : PipelineCheckpoint Meta Inputs)
    (recorded : List (String × UnitOutcome)) : Prop where
  /-- No unit is in both maps. -/
  disjoint : ∀ unitId,
    ¬((ckpt.completed.find? unitId).isSome ∧ (ckpt.failed.find? unitId).isSome)
  /-- The completed units are those last recorded as a success. -/
  completed : ∀ unitId,
    (ckpt.completed.find? unitId).isSome ↔ lastOutcome recorded unitId = some .success
  /-- The others are pending, in the given order. -/
  pending : ∀ unitIds, ckpt.pending unitIds =
    unitIds.filter fun unitId => lastOutcome recorded unitId ≠ some .success

/-- Two objects that agree in everything but the order of their maps. -/
structure SameState (ckpt ckpt' : PipelineCheckpoint Meta Inputs) : Prop where
  /-- The same pipeline. -/
  pipeline : ckpt.pipeline = ckpt'.pipeline
  /-- The same fingerprint. -/
  fingerprint : ckpt.fingerprint = ckpt'.fingerprint
  /-- The same inputs. -/
  inputs : ckpt.fingerprintInputs = ckpt'.fingerprintInputs
  /-- The same start. -/
  startedAt : ckpt.startedAt = ckpt'.startedAt
  /-- The same completed units. -/
  completed : ∀ unitId, ckpt.completed.find? unitId = ckpt'.completed.find? unitId
  /-- The same failed units. -/
  failed : ∀ unitId, ckpt.failed.find? unitId = ckpt'.failed.find? unitId

/-- A reload gives the state at the last successful save. -/
def ReloadsSave (run : Progress Meta Inputs) : Prop :=
  ∀ ckpt recorded, run.saved = some (ckpt, recorded) → ∀ now, ∃ loaded,
    (loadOrCreate codec dumps pipeline inputs false now none run.file).1 = .ok loaded ∧
      SameState loaded ckpt

/-- What is to hold in every state of a run. -/
def ProgressKept (run : Progress Meta Inputs) : Prop :=
  (∀ ckpt, run.ckpt = some ckpt → OutcomesKept ckpt run.recorded) ∧
    ReloadsSave codec dumps pipeline inputs run

/-- When the metadata of all completed units can be dumped, they survive it. -/
def MetadataKept (ckpt : PipelineCheckpoint Meta Inputs) : Prop :=
  (∀ unitId unit, ckpt.completed.find? unitId = some unit →
    ∃ reread, codec.reread unit.metadata = .ok reread) →
      ∀ unitId unit, ckpt.completed.find? unitId = some unit →
        codec.reread unit.metadata = .ok unit.metadata

/-- No failure is recorded of a completed unit, and no metadata that JSON changes are
saved. -/
def FailsPending (run : Progress Meta Inputs) : ProgressEvent Meta → Prop
  | .crash => True
  | .loadOrCreate _ _ _ => True
  | .recordSuccess unitId artifactPath metadata now fault =>
    ∀ ckpt, run.ckpt = some ckpt → fault = none →
      MetadataKept codec (ckpt.markCompleted codec unitId artifactPath metadata now)
  | .recordFailure unitId _ _ fault =>
    ∀ ckpt, run.ckpt = some ckpt →
      ckpt.isDone unitId = false ∧ (fault = none → MetadataKept codec ckpt)

variable {codec dumps pipeline inputs} {ckpt : PipelineCheckpoint Meta Inputs}
  {recorded : List (String × UnitOutcome)}

theorem lastOutcome_snoc (recorded : List (String × UnitOutcome)) (unitId other : String)
    (outcome : UnitOutcome) :
    lastOutcome (recorded ++ [(unitId, outcome)]) other =
      if other = unitId then some outcome else lastOutcome recorded other := by
  unfold lastOutcome
  rw [List.reverse_append, List.reverse_singleton, List.singleton_append, List.find?_cons]
  by_cases h : other = unitId
  · simp [h]
  · simp [h, Ne.symm h]

variable (dumps pipeline inputs) in
/-- An object of the pipeline whose maps are the units last recorded as a success and as a
failure. -/
structure Tracks (ckpt : PipelineCheckpoint Meta Inputs) (recorded : List (String × UnitOutcome)) :
    Prop where
  /-- It is the pipeline's. -/
  pipeline : ckpt.pipeline = pipeline
  /-- It has the fingerprint of the inputs. -/
  fingerprint : ckpt.fingerprint = computeFingerprint dumps inputs
  /-- It has the inputs. -/
  inputs : ckpt.fingerprintInputs = inputs
  /-- The completed units are those last recorded as a success. -/
  completed : ∀ unitId,
    (ckpt.completed.find? unitId).isSome ↔ lastOutcome recorded unitId = some .success
  /-- The failed units are those last recorded as a failure. -/
  failed : ∀ unitId,
    (ckpt.failed.find? unitId).isSome ↔ lastOutcome recorded unitId = some .failure

theorem Tracks.outcomesKept (h : Tracks dumps pipeline inputs ckpt recorded) :
    OutcomesKept ckpt recorded where
  disjoint unitId := by
    rw [h.completed, h.failed]
    rintro ⟨hsuccess, hfailure⟩
    rw [hsuccess] at hfailure
    cases hfailure
  completed := h.completed
  pending unitIds := by
    apply List.filter_congr
    intro unitId _
    have hdone := h.completed unitId
    unfold PipelineCheckpoint.isDone
    cases hfind : ckpt.completed.find? unitId with
    | none => simpa [hfind] using hdone
    | some unit => simpa [hfind] using hdone

/-- A reload of the same state tracks the same outcomes. -/
theorem Tracks.of_sameState {loaded : PipelineCheckpoint Meta Inputs}
    (h : Tracks dumps pipeline inputs ckpt recorded) (hsame : SameState loaded ckpt) :
    Tracks dumps pipeline inputs loaded recorded where
  pipeline := hsame.pipeline.trans h.pipeline
  fingerprint := hsame.fingerprint.trans h.fingerprint
  inputs := hsame.inputs.trans h.inputs
  completed unitId := by rw [hsame.completed, h.completed]
  failed unitId := by rw [hsame.failed, h.failed]

/-- Recording a success keeps track. -/
theorem Tracks.markCompleted (h : Tracks dumps pipeline inputs ckpt recorded) (unitId : String)
    (artifactPath : Option String) (metadata : Option Meta) (now : String) :
    Tracks dumps pipeline inputs (ckpt.markCompleted codec unitId artifactPath metadata now)
      (recorded ++ [(unitId, .success)]) where
  pipeline := h.pipeline
  fingerprint := h.fingerprint
  inputs := h.inputs
  completed other := by
    rw [lastOutcome_snoc]
    by_cases heq : other = unitId
    · simp [PipelineCheckpoint.markCompleted, heq]
    · simpa [PipelineCheckpoint.markCompleted, heq] using h.completed other
  failed other := by
    rw [lastOutcome_snoc]
    by_cases heq : other = unitId
    · simp [PipelineCheckpoint.markCompleted, heq]
    · simpa [PipelineCheckpoint.markCompleted, heq] using h.failed other

/-- Recording a failure of a pending unit keeps track. -/
theorem Tracks.markFailed (h : Tracks dumps pipeline inputs ckpt recorded) {unitId : String}
    (hpending : ckpt.isDone unitId = false) (error now : String) :
    Tracks dumps pipeline inputs (ckpt.markFailed unitId error now)
      (recorded ++ [(unitId, .failure)]) where
  pipeline := h.pipeline
  fingerprint := h.fingerprint
  inputs := h.inputs
  completed other := by
    have hsame : (ckpt.markFailed unitId error now).completed = ckpt.completed := rfl
    rw [lastOutcome_snoc, hsame]
    by_cases heq : other = unitId
    · have hnone : (ckpt.completed.find? unitId).isSome = false := hpending
      simp [heq, hnone]
    · rw [if_neg heq]
      exact h.completed other
  failed other := by
    rw [lastOutcome_snoc]
    by_cases heq : other = unitId
    · simp [PipelineCheckpoint.markFailed, heq]
    · simpa [PipelineCheckpoint.markFailed, heq] using h.failed other

/-- Recording a failure of a completed unit puts it in both maps. -/
theorem not_outcomesKept_markFailed {unitId : String} (hdone : ckpt.isDone unitId = true)
    (error now : String) : ¬OutcomesKept (ckpt.markFailed unitId error now) recorded := by
  intro h
  apply h.disjoint unitId
  have hsame : (ckpt.markFailed unitId error now).completed = ckpt.completed := rfl
  rw [hsame]
  exact ⟨hdone, by simp [PipelineCheckpoint.markFailed]⟩

/-- What is read back of the completed units. -/
def rereadCompleted (codec : MetadataCodec Meta) (ckpt : PipelineCheckpoint Meta Inputs) :
    UniqueTable String (CompletedUnit Meta) :=
  ckpt.completed.sortKeys.mapRows fun _ unit =>
    { unit with metadata := (codec.reread unit.metadata).toOption.getD unit.metadata }

/-- An object can be dumped exactly when the metadata of all its completed units can. -/
theorem toJson_ok_iff {raw : RawCheckpoint Meta} :
    ckpt.toJson codec = .ok raw ↔
      (∀ unitId unit, ckpt.completed.find? unitId = some unit →
        ∃ reread, codec.reread unit.metadata = .ok reread) ∧
      raw = ⟨some checkpointSchemaVersion, some ckpt.pipeline, some ckpt.fingerprint,
        some ckpt.startedAt, some (rereadCompleted codec ckpt), some ckpt.failed.sortKeys⟩ := by
  have hall : ckpt.completed.rows.findSome? (dumpFailure codec) = none ↔
      ∀ unitId unit, ckpt.completed.find? unitId = some unit →
        ∃ reread, codec.reread unit.metadata = .ok reread := by
    rw [List.findSome?_eq_none_iff]
    constructor
    · intro h unitId unit hunit
      have hrow := h (unitId, unit) ((UniqueTable.find?_eq_some_iff _ _ _).mp hunit)
      cases hreread : codec.reread unit.metadata with
      | error reason => simp [dumpFailure, hreread] at hrow
      | ok reread => exact ⟨reread, rfl⟩
    · intro h row hrow
      obtain ⟨reread, hreread⟩ := h row.1 row.2 ((UniqueTable.find?_eq_some_iff _ _ _).mpr hrow)
      simp [dumpFailure, hreread]
  unfold PipelineCheckpoint.toJson
  split
  next reason hreason =>
    have hnot : ¬∀ unitId unit, ckpt.completed.find? unitId = some unit →
        ∃ reread, codec.reread unit.metadata = .ok reread := by
      rw [← hall, hreason]
      exact Option.some_ne_none reason
    simp only [reduceCtorEq, hnot, false_and]
  next hnone =>
    rw [and_iff_right (hall.mp hnone), Except.ok.injEq]
    exact eq_comm

/-- A dumped object of the pipeline is read back. -/
theorem resume_toJson (codec : MetadataCodec Meta)
    (h : Tracks dumps pipeline inputs ckpt recorded) (now : String) :
    resume dumps pipeline inputs now ⟨some checkpointSchemaVersion, some ckpt.pipeline,
        some ckpt.fingerprint, some ckpt.startedAt, some (rereadCompleted codec ckpt),
        some ckpt.failed.sortKeys⟩ =
      .ok ⟨pipeline, computeFingerprint dumps inputs, inputs, rereadCompleted codec ckpt,
        ckpt.failed.sortKeys, ckpt.startedAt⟩ := by
  simp [resume, h.pipeline, h.fingerprint]

/-- What is read back is the same state exactly when the metadata are kept. -/
theorem sameState_reread_iff (h : Tracks dumps pipeline inputs ckpt recorded)
    (hdumps : ∀ unitId unit, ckpt.completed.find? unitId = some unit →
      ∃ reread, codec.reread unit.metadata = .ok reread) :
    SameState ⟨pipeline, computeFingerprint dumps inputs, inputs, rereadCompleted codec ckpt,
        ckpt.failed.sortKeys, ckpt.startedAt⟩ ckpt ↔ MetadataKept codec ckpt := by
  have hrow : ∀ unitId, (rereadCompleted codec ckpt).find? unitId =
      (ckpt.completed.find? unitId).map fun unit =>
        { unit with metadata := (codec.reread unit.metadata).toOption.getD unit.metadata } := by
    intro unitId
    simp [rereadCompleted]
  constructor
  · intro hsame _ unitId unit hunit
    obtain ⟨reread, hreread⟩ := hdumps unitId unit hunit
    have hcompleted := hsame.completed unitId
    rw [hrow, hunit, Option.map_some, Option.some.injEq, hreread] at hcompleted
    have hmetadata : reread = unit.metadata := congrArg CompletedUnit.metadata hcompleted
    rw [hreread, hmetadata]
  · intro hkept
    refine ⟨h.pipeline.symm, h.fingerprint.symm, h.inputs.symm, rfl, fun unitId => ?_,
      fun unitId => by simp⟩
    rw [hrow]
    cases hunit : ckpt.completed.find? unitId with
    | none => rfl
    | some unit =>
      rw [Option.map_some, hkept hdumps unitId unit hunit]
      rfl

variable (codec dumps pipeline inputs) in
/-- What holds of a run in which no completed unit fails: the process's object and the one last
saved track the outcomes, and the file has what was last saved. -/
structure ProgressInvariant (run : Progress Meta Inputs) : Prop where
  /-- The object of the process. -/
  ckpt : ∀ ckpt, run.ckpt = some ckpt → Tracks dumps pipeline inputs ckpt run.recorded
  /-- Before the first save there is no file. -/
  absent : run.saved = none → run.file = .absent
  /-- The object last saved. -/
  saved : ∀ ckpt recorded, run.saved = some (ckpt, recorded) →
    Tracks dumps pipeline inputs ckpt recorded ∧ MetadataKept codec ckpt ∧
      ∃ raw, ckpt.toJson codec = .ok raw ∧ run.file = .json raw

variable {run : Progress Meta Inputs}

/-- Reading the file that an object was saved to. -/
theorem loadOrCreate_saved {raw : RawCheckpoint Meta}
    (h : Tracks dumps pipeline inputs ckpt recorded) (hraw : ckpt.toJson codec = .ok raw)
    (now : String) :
    loadOrCreate codec dumps pipeline inputs false now none (.json raw) =
      (.ok ⟨pipeline, computeFingerprint dumps inputs, inputs, rereadCompleted codec ckpt,
        ckpt.failed.sortKeys, ckpt.startedAt⟩, .json raw) := by
  obtain ⟨_, rfl⟩ := toJson_ok_iff.mp hraw
  have hresume := resume_toJson codec h now
  simp only [loadOrCreate, Bool.false_eq_true, if_false, hresume]

theorem ProgressInvariant.kept (h : ProgressInvariant codec dumps pipeline inputs run) :
    ProgressKept codec dumps pipeline inputs run := by
  refine ⟨fun ckpt hckpt => (h.ckpt ckpt hckpt).outcomesKept, ?_⟩
  intro ckpt recorded hsaved now
  obtain ⟨htracks, hkept, raw, hraw, hfile⟩ := h.saved ckpt recorded hsaved
  rw [hfile, loadOrCreate_saved htracks hraw]
  refine ⟨_, rfl, (sameState_reread_iff htracks (toJson_ok_iff.mp hraw).1).mpr hkept⟩

/-- Saving an object writes the file, or fails and leaves it. -/
theorem save_cases (codec : MetadataCodec Meta) (ckpt : PipelineCheckpoint Meta Inputs)
    (fault : Option String)
    (file : CheckpointFile Meta) :
    (∃ raw, fault = none ∧ ckpt.toJson codec = .ok raw ∧
        ckpt.save codec fault file = (.ok (), .json raw)) ∨
      ∃ reason, (fault = none → ckpt.toJson codec = .error reason) ∧
        ckpt.save codec fault file = (.error (.save reason), file) := by
  cases fault with
  | some reason => exact Or.inr ⟨reason, nofun, rfl⟩
  | none =>
    cases hraw : ckpt.toJson codec with
    | error reason => exact Or.inr ⟨reason, fun _ => rfl, by simp [PipelineCheckpoint.save, hraw]⟩
    | ok raw => exact Or.inl ⟨raw, rfl, rfl, by simp [PipelineCheckpoint.save, hraw]⟩

/-- Recording an outcome keeps the invariant when the object keeps track and its metadata are
kept if it is saved. -/
theorem ProgressInvariant.record (h : ProgressInvariant codec dumps pipeline inputs run)
    {unitId : String} {outcome : UnitOutcome} {fault : Option String}
    (htracks : Tracks dumps pipeline inputs ckpt (run.recorded ++ [(unitId, outcome)]))
    (hkept : fault = none → MetadataKept codec ckpt) :
    ProgressInvariant codec dumps pipeline inputs (run.record unitId outcome
      ((ckpt.save codec fault run.file).1, ckpt, (ckpt.save codec fault run.file).2)) := by
  obtain ⟨raw, hfault, hraw, hsave⟩ | ⟨reason, _, hsave⟩ := save_cases codec ckpt fault
    run.file
  · rw [hsave]
    refine ⟨fun c hc => ?_, nofun, fun c recorded hc => ?_⟩
    · obtain rfl := Option.some.inj hc
      exact htracks
    · obtain ⟨rfl, rfl⟩ := Prod.mk.inj (Option.some.inj hc)
      exact ⟨htracks, hkept hfault, raw, hraw, rfl⟩
  · rw [hsave]
    refine ⟨fun c hc => ?_, h.absent, h.saved⟩
    obtain rfl := Option.some.inj hc
    exact htracks

/-- After a save that changes metadata the file does not reload to what was saved. -/
theorem not_reloadsSave_record {unitId : String} {outcome : UnitOutcome}
    (htracks : Tracks dumps pipeline inputs ckpt recorded) (hnot : ¬MetadataKept codec ckpt) :
    ¬ReloadsSave codec dumps pipeline inputs (run.record unitId outcome
      ((ckpt.save codec none run.file).1, ckpt, (ckpt.save codec none run.file).2)) := by
  obtain ⟨raw, _, hraw, hsave⟩ | ⟨reason, hreason, _⟩ := save_cases codec ckpt none
    run.file
  · rw [hsave]
    intro h
    obtain ⟨loaded, hloaded, hsame⟩ := h ckpt _ rfl ""
    rw [show (run.record unitId outcome (.ok (), ckpt, .json raw)).file = .json raw from rfl,
      loadOrCreate_saved htracks hraw] at hloaded
    obtain rfl := Except.ok.inj hloaded
    exact hnot ((sameState_reread_iff htracks (toJson_ok_iff.mp hraw).1).mp hsame)
  · intro _
    apply hnot
    intro hdumps
    have hok := toJson_ok_iff.mpr ⟨hdumps, rfl⟩
    rw [hreason rfl] at hok
    cases hok

/-- Creating an object, or failing to, keeps the invariant: what was recorded before is
discarded with the file. -/
theorem ProgressInvariant.afterCreate (h : ProgressInvariant codec dumps pipeline inputs run)
    (now : String) (fault : Option String) :
    ProgressInvariant codec dumps pipeline inputs
      (run.afterCreate (create codec dumps pipeline inputs now fault)) := by
  set new : PipelineCheckpoint Meta Inputs :=
    ⟨pipeline, computeFingerprint dumps inputs, inputs, .empty, .empty, now⟩ with hnew
  have htracks : Tracks dumps pipeline inputs new [] :=
    ⟨rfl, rfl, rfl, fun unitId => by simp [hnew, lastOutcome],
      fun unitId => by simp [hnew, lastOutcome]⟩
  have hkept : MetadataKept codec new := by
    intro _ unitId unit hunit
    simp [hnew] at hunit
  unfold create
  obtain ⟨raw, _, hraw, hsave⟩ | ⟨reason, _, hsave⟩ := save_cases codec new fault
    .absent
  · simp only [← hnew, hsave]
    refine ⟨fun c hc => ?_, fun hnone => ?_, fun c recorded hc => ?_⟩
    · obtain rfl := Option.some.inj hc
      exact htracks
    · cases hnone
    · obtain ⟨rfl, rfl⟩ := Prod.mk.inj (Option.some.inj hc)
      exact ⟨htracks, hkept, raw, hraw, rfl⟩
  · simp only [← hnew, hsave]
    refine ⟨h.ckpt, fun _ => rfl, fun c recorded hc => ?_⟩
    cases hc

/-- Reading the object last saved, or failing to, keeps the invariant. -/
theorem ProgressInvariant.afterResume (h : ProgressInvariant codec dumps pipeline inputs run)
    (hfile : run.file ≠ .absent) (now : String) (fault : Option String) :
    ProgressInvariant codec dumps pipeline inputs
      (run.afterResume (loadOrCreate codec dumps pipeline inputs false now fault run.file)) := by
  cases hsaved : run.saved with
  | none => exact absurd (h.absent hsaved) hfile
  | some save =>
    obtain ⟨ckpt, recorded⟩ := save
    obtain ⟨htracks, hkept, raw, hraw, hjson⟩ := h.saved ckpt recorded hsaved
    rw [hjson]
    cases fault with
    | some reason => exact h
    | none =>
      rw [loadOrCreate_saved htracks hraw]
      have hsame := (sameState_reread_iff htracks (toJson_ok_iff.mp hraw).1).mpr hkept
      refine ⟨fun c hc => ?_, h.absent, h.saved⟩
      obtain rfl := Option.some.inj hc
      simp only [Progress.afterResume, hsaved, Option.map_some, Option.getD_some]
      exact htracks.of_sameState hsame

/-- A step keeps the invariant when it records no failure of a completed unit and saves no
metadata that JSON changes. -/
theorem ProgressInvariant.step (h : ProgressInvariant codec dumps pipeline inputs run)
    (e : ProgressEvent Meta) (hcond : FailsPending codec run e) :
    ProgressInvariant codec dumps pipeline inputs
      (progressStep codec dumps pipeline inputs run e) := by
  cases e with
  | crash => exact ⟨nofun, h.absent, h.saved⟩
  | loadOrCreate fresh now fault =>
    have hcreate : (if fresh then .absent else run.file) = CheckpointFile.absent →
        ProgressInvariant codec dumps pipeline inputs
          (progressStep codec dumps pipeline inputs run (.loadOrCreate fresh now fault)) := by
      intro hfile
      simp only [progressStep, loadOrCreate, hfile]
      exact h.afterCreate now fault
    by_cases hfile : (if fresh then .absent else run.file) = CheckpointFile.absent
    · exact hcreate hfile
    · have hfresh : fresh = false := by
        by_contra hfresh
        exact hfile (if_pos (by simpa using hfresh))
      subst hfresh
      have hresume := h.afterResume hfile now fault
      have hstep : progressStep codec dumps pipeline inputs run (.loadOrCreate false now fault) =
          run.afterResume (loadOrCreate codec dumps pipeline inputs false now fault run.file) := by
        unfold progressStep
        cases hcase : run.file with
        | absent => exact absurd hcase hfile
        | unparsable reason => rfl
        | json raw => rfl
      rw [hstep]
      exact hresume
  | recordSuccess unitId artifactPath metadata now fault =>
    cases hckpt : run.ckpt with
    | none =>
      simp only [progressStep, hckpt]
      exact h
    | some ckpt =>
      simp only [progressStep, hckpt]
      exact h.record ((h.ckpt ckpt hckpt).markCompleted unitId artifactPath metadata now)
        (hcond ckpt hckpt)
  | recordFailure unitId error now fault =>
    cases hckpt : run.ckpt with
    | none =>
      simp only [progressStep, hckpt]
      exact h
    | some ckpt =>
      simp only [progressStep, hckpt]
      obtain ⟨hpending, hkept⟩ := hcond ckpt hckpt
      exact h.record ((h.ckpt ckpt hckpt).markFailed hpending error now) hkept

/-- A step that records a failure of a completed unit, or saves metadata that JSON changes,
ends in a state that is not what it should be. -/
theorem not_progressKept_step (h : ProgressInvariant codec dumps pipeline inputs run)
    (e : ProgressEvent Meta) (hcond : ¬FailsPending codec run e) :
    ¬ProgressKept codec dumps pipeline inputs
      (progressStep codec dumps pipeline inputs run e) := by
  cases e with
  | crash => exact absurd trivial hcond
  | loadOrCreate fresh now fault => exact absurd trivial hcond
  | recordSuccess unitId artifactPath metadata now fault =>
    simp only [FailsPending] at hcond
    push Not at hcond
    obtain ⟨ckpt, hckpt, rfl, hnot⟩ := hcond
    simp only [progressStep, hckpt]
    rintro ⟨_, hreload⟩
    exact not_reloadsSave_record
      ((h.ckpt ckpt hckpt).markCompleted unitId artifactPath metadata now) hnot hreload
  | recordFailure unitId error now fault =>
    simp only [FailsPending] at hcond
    push Not at hcond
    obtain ⟨ckpt, hckpt, hnot⟩ := hcond
    simp only [progressStep, hckpt]
    rintro ⟨hkept, hreload⟩
    cases hdone : ckpt.isDone unitId with
    | true => exact not_outcomesKept_markFailed hdone error now (hkept _ rfl)
    | false =>
      obtain ⟨rfl, hmetadata⟩ := hnot hdone
      exact not_reloadsSave_record ((h.ckpt ckpt hckpt).markFailed hdone error now)
        hmetadata hreload

theorem progressInvariant_start :
    ProgressInvariant codec dumps pipeline inputs Progress.start where
  ckpt c hc := by simp [Progress.start] at hc
  absent _ := rfl
  saved c recorded hc := by simp [Progress.start] at hc

/-- In a run of one pipeline with the same inputs the maps always say what was last recorded,
and a reload gives the state at the last successful save, exactly when no failure is recorded
of a completed unit and no metadata that JSON changes are saved. -/
theorem progress_always_kept_iff (codec : MetadataCodec Meta) (dumps : Inputs → String)
    (pipeline : String) (inputs : Inputs) (es : List (ProgressEvent Meta)) :
    Always (progressStep codec dumps pipeline inputs) (ProgressKept codec dumps pipeline inputs)
        Progress.start es ↔
      Meets (progressStep codec dumps pipeline inputs) (FailsPending codec) Progress.start es :=
  always_iff_meets (ProgressInvariant codec dumps pipeline inputs) (fun _ h => h.kept)
    (fun _ e h hcond => h.step e hcond) (fun _ e h hcond => not_progressKept_step h e hcond)
    progressInvariant_start es

/-- A unit succeeds, is run again and fails. -/
def failedAfterSuccess : List (ProgressEvent String) :=
  [.loadOrCreate false "2026-01-01T00:00:00+00:00" none,
    .recordSuccess "pair-a" none none "2026-01-01T00:01:00+00:00" none,
    .recordFailure "pair-a" "timeout" "2026-01-01T00:02:00+00:00" none]

/-- The unit is then in both maps, and not pending. -/
theorem failed_unit_not_pending :
    ¬Always (progressStep ⟨"\x7b\x7d", Except.ok⟩ id "run_pipeline" "\x7b\x7d")
      (ProgressKept ⟨"\x7b\x7d", Except.ok⟩ id "run_pipeline" "\x7b\x7d") Progress.start
      failedAfterSuccess := by
  intro h
  have hboth : (exec (progressStep ⟨"\x7b\x7d", Except.ok⟩ id "run_pipeline" "\x7b\x7d")
      Progress.start failedAfterSuccess).ckpt.any (fun ckpt =>
        (ckpt.completed.find? "pair-a").isSome && (ckpt.failed.find? "pair-a").isSome) = true := by
    decide +kernel
  rw [Option.any_eq_true] at hboth
  obtain ⟨ckpt, hckpt, hmaps⟩ := hboth
  exact (h.last.1 ckpt hckpt).disjoint "pair-a" (by simpa using hmaps)

end Runs

end LedgerLens.Utils
