import LedgerLens.Library.Runs
import LedgerLens.Utils.Checkpointing
import Mathlib.Data.Fintype.EquivFin

/-!
# Isolation of workflows

The file of a workflow is found by its id with every unusual character replaced, so that two
ids may have one file. What is loaded from the file is taken as it is: its own `workflow_id`
says where it is saved again. This file shows which workflows can change what another one
reports.
-/

namespace LedgerLens.Utils.Checkpointing

open Transition

variable {Time : Type*} (env : CheckpointEnv Time)

/-- What a new workflow object reports: the steps that are completed, and the items that are
done in each step. -/
def report (directory : Directory Time) (workflowId : String) (now : Time) :
    Except CheckpointError ((String → Bool) × (String → String → Bool)) :=
  (CheckpointedWorkflow.construct env directory workflowId now).map fun workflow =>
    (workflow.isStepDone, fun stepName itemKey => (workflow.step stepName).isDone itemKey)

/-- A directory before any operation. -/
def Session.start (directory : Directory Time) : Session Time := ⟨directory, none, []⟩

/-- No operations on one workflow change what another one reports. -/
def Isolated (directory : Directory Time) (workflowId other : String) : Prop :=
  ∀ (ops : List (WorkflowOp Time)) (now : Time),
    report env (exec (Session.perform env workflowId) (.start directory) ops).directory other now =
      report env directory other now

/-- The workflow cannot be opened, or it has another file than the other one, and so has the
id in the record that it loads. -/
def OwnFiles (directory : Directory Time) (workflowId other : String) : Prop :=
  ∀ now workflow,
    CheckpointedWorkflow.construct env directory workflowId now = .ok workflow →
      fileName env workflowId ≠ fileName env other ∧
        fileName env workflow.record.workflowId ≠ fileName env other

variable {env} {directory : Directory Time} {workflowId other : String}

/-- Loading reads one file. -/
theorem load_congr {directory' : Directory Time}
    (h : directory'.find? (fileName env other) = directory.find? (fileName env other)) :
    CheckpointStore.load env directory' other = CheckpointStore.load env directory other := by
  unfold CheckpointStore.load
  rw [h]

theorem report_congr {directory' : Directory Time}
    (h : directory'.find? (fileName env other) = directory.find? (fileName env other))
    (now : Time) : report env directory' other now = report env directory other now := by
  unfold report CheckpointedWorkflow.construct
  rw [load_congr h]

/-- A record that is loaded has the id that its file has. -/
theorem id_of_load {record : CheckpointRecord Time}
    (h : CheckpointStore.load env directory workflowId = .ok (some record)) :
    ∃ storedChecksum raw, directory.find? (fileName env workflowId) =
        some (.json storedChecksum raw) ∧ raw.workflowId = some record.workflowId := by
  obtain ⟨raw, hfile, -, hid, -, -⟩ := CheckpointStore.file_of_load h
  exact ⟨_, raw, hfile, hid⟩

/-- The record of a new workflow object is one loaded from its file, or a fresh one. -/
theorem construct_ok_iff {now : Time} {workflow : CheckpointedWorkflow Time} :
    CheckpointedWorkflow.construct env directory workflowId now = .ok workflow ↔
      workflow.workflowId = workflowId ∧
        (CheckpointStore.load env directory workflowId = .ok (some workflow.record) ∨
          CheckpointStore.load env directory workflowId = .ok none ∧
            workflow.record = freshRecord workflowId now) := by
  obtain ⟨id, record⟩ := workflow
  unfold CheckpointedWorkflow.construct
  cases hload : CheckpointStore.load env directory workflowId with
  | error e => simp
  | ok loaded =>
    cases loaded with
    | none => simp [eq_comm]
    | some loaded => simp [eq_comm]

section Apart

variable (env) (start : Directory Time) (workflowId other : String)

/-- What holds of a session of a workflow that keeps to its own files. -/
structure Apart (s : Session Time) : Prop where
  /-- The other workflow's file is what it was. -/
  same : s.directory.find? (fileName env other) = start.find? (fileName env other)
  /-- The workflow has its own files when it is opened. -/
  opens : OwnFiles env s.directory workflowId other
  /-- And so has the object at hand. -/
  object : ∀ workflow, s.workflow = some workflow → workflow.workflowId = workflowId ∧
    fileName env workflowId ≠ fileName env other ∧
      fileName env workflow.record.workflowId ≠ fileName env other

end Apart

variable {start : Directory Time} {s : Session Time}

/-- A directory in which another file than the other workflow's has changed: it has a record
with an id of another file, or is gone. -/
theorem OwnFiles.of_changed {changed : String} {text : Option (CheckpointText Time)}
    {directory' : Directory Time} (h : OwnFiles env directory workflowId other)
    (hown : fileName env workflowId ≠ fileName env other)
    (hfind : ∀ name, directory'.find? name = if name = changed then text else directory.find? name)
    (htext : ∀ storedChecksum raw id, text = some (.json storedChecksum raw) →
      raw.workflowId = some id → fileName env id ≠ fileName env other) :
    OwnFiles env directory' workflowId other := by
  intro now workflow hopen
  refine ⟨hown, ?_⟩
  by_cases hname : fileName env workflowId = changed
  · obtain ⟨_, hload | ⟨_, hfresh⟩⟩ := construct_ok_iff.mp hopen
    · obtain ⟨storedChecksum, raw, hfile, hid⟩ := id_of_load hload
      rw [hfind, if_pos hname] at hfile
      exact htext storedChecksum raw _ hfile hid
    · rw [hfresh]
      exact hown
  · have hsame : directory'.find? (fileName env workflowId) =
        directory.find? (fileName env workflowId) := by rw [hfind, if_neg hname]
    unfold CheckpointedWorkflow.construct at hopen
    rw [load_congr hsame] at hopen
    exact (h now workflow hopen).2

/-- Saving a record of the workflow's keeps apart. -/
theorem Apart.flush (h : Apart env start workflowId other s)
    (workflow : CheckpointedWorkflow Time) (hid : workflow.workflowId = workflowId)
    (hown : fileName env workflowId ≠ fileName env other)
    (hrecord : fileName env workflow.record.workflowId ≠ fileName env other) (now : Time)
    (fault : Option String) :
    Apart env start workflowId other (s.flush env workflow now fault) := by
  have hobject : ∀ w, (s.flush env workflow now fault).workflow = some w →
      w.workflowId = workflowId ∧ fileName env workflowId ≠ fileName env other ∧
        fileName env w.record.workflowId ≠ fileName env other := by
    intro w hw
    obtain rfl := Option.some.inj hw
    exact ⟨hid, hown, hrecord⟩
  cases fault with
  | some reason => exact ⟨h.same, h.opens, hobject⟩
  | none =>
    refine ⟨?_, ?_, hobject⟩
    · simp only [Session.flush, CheckpointStore.save, UniqueTable.find?_put]
      rw [if_neg (Ne.symm hrecord)]
      exact h.same
    · refine h.opens.of_changed hown (fun name => UniqueTable.find?_put _ _ _ _) ?_
      intro storedChecksum raw id htext hraw
      obtain ⟨_, rfl⟩ := CheckpointText.json.inj (Option.some.inj htext)
      obtain rfl := Option.some.inj hraw
      exact hrecord

/-- Every operation keeps apart. -/
theorem Apart.step (h : Apart env start workflowId other s) (op : WorkflowOp Time) :
    Apart env start workflowId other (s.perform env workflowId op) := by
  cases op with
  | crash => exact ⟨h.same, h.opens, nofun⟩
  | construct now fault =>
    cases fault with
    | some reason => exact ⟨h.same, h.opens, nofun⟩
    | none =>
      refine ⟨h.same, h.opens, fun workflow hworkflow => ?_⟩
      have hopen : CheckpointedWorkflow.construct env s.directory workflowId now =
          .ok workflow := by
        cases hcase : CheckpointedWorkflow.construct env s.directory workflowId now with
        | error e => simp [Session.perform, hcase, Except.toOption] at hworkflow
        | ok w => simpa [Session.perform, hcase, Except.toOption] using hworkflow
      exact ⟨(construct_ok_iff.mp hopen).1, h.opens now workflow hopen⟩
  | step stepName =>
    refine Session.onWorkflow_of h fun workflow hworkflow => ⟨h.same, h.opens, fun w hw => ?_⟩
    exact h.object w hw
  | markDone checkpoint itemKey flush now fault =>
    refine Session.onCheckpoint_of h fun workflow entry hworkflow _ => ?_
    obtain ⟨hid, hown, hrecord⟩ := h.object workflow hworkflow
    have hmarked : Apart env start workflowId other
        (s.mark workflow checkpoint (entry.add itemKey)) := by
      refine ⟨h.same, h.opens, fun w hw => ?_⟩
      obtain rfl := Option.some.inj hw
      exact ⟨hid, hown, hrecord⟩
    dsimp only
    split_ifs
    · exact hmarked.flush (workflow.setRecord (workflow.record.setProgress (entry.add itemKey)))
        hid hown hrecord now fault
    · exact hmarked
  | leave checkpoint raised now fault =>
    refine Session.onCheckpoint_of h fun workflow entry hworkflow _ => ?_
    obtain ⟨hid, hown, hrecord⟩ := h.object workflow hworkflow
    split_ifs
    · exact h.flush workflow hid hown hrecord now fault
    · refine h.flush (workflow.setRecord (CheckpointedWorkflow.complete workflow.record
        entry.stepName)) hid hown ?_ now fault
      rw [CheckpointedWorkflow.setRecord, CheckpointedWorkflow.complete_workflowId]
      exact hrecord
  | clear now fault =>
    refine Session.onWorkflow_of h fun workflow hworkflow => ?_
    obtain ⟨hid, hown, hrecord⟩ := h.object workflow hworkflow
    cases fault with
    | some reason => exact h
    | none =>
      have hfind : ∀ name, (s.directory.erase (fileName env workflow.workflowId)).find? name =
          if name = fileName env workflow.workflowId then none else s.directory.find? name :=
        fun name => UniqueTable.find?_erase _ _ _
      refine ⟨?_, h.opens.of_changed hown hfind nofun, fun w hw => ?_⟩
      · have hne : fileName env other ≠ fileName env workflow.workflowId := by
          rw [hid]
          exact Ne.symm hown
        exact ((hfind _).trans (if_neg hne)).trans h.same
      · obtain rfl := Option.some.inj hw
        refine ⟨hid, hown, ?_⟩
        simpa [CheckpointedWorkflow.setRecord, freshRecord, hid] using hown

/-- Before any operation the session is apart if the workflow has its own files. -/
theorem apart_start (h : OwnFiles env start workflowId other) :
    Apart env start workflowId other (Session.start start) :=
  ⟨rfl, h, fun workflow hworkflow => by simp [Session.start] at hworkflow⟩

/-- A workflow with its own files does not change what the other one reports. -/
theorem isolated_of_ownFiles (h : OwnFiles env start workflowId other) :
    Isolated env start workflowId other := by
  intro ops now
  have hstep : ∀ s op, Apart env start workflowId other s →
      Apart env start workflowId other (Session.perform env workflowId s op) :=
    fun s op hs => hs.step op
  have hapart := exec_invariant hstep ops (apart_start h)
  exact report_congr hapart.same now

/-- A saved record of the current version is read back. -/
theorem construct_saved {record : CheckpointRecord Time} {name : String}
    (hversion : record.schemaVersion = schemaVersion)
    (hfile : directory.find? (fileName env name) =
      some (.json (some (checksum env record.body)) record.body)) (now : Time) :
    CheckpointedWorkflow.construct env directory name now = .ok ⟨name, record⟩ := by
  have hload : CheckpointStore.load env directory name = .ok (some record) := by
    obtain ⟨id, version, updatedAt, completedSteps, stepProgress⟩ := record
    obtain rfl : version = schemaVersion := hversion
    unfold CheckpointStore.load
    rw [hfile]
    simp [CheckpointRecord.body]
  simp [CheckpointedWorkflow.construct, hload]

/-- A step that is completed in a workflow object whose record has the other workflow's file
is reported of the other workflow. -/
theorem report_of_leave (directory : Directory Time) (workflowId : String)
    (workflow : CheckpointedWorkflow Time) (checkpoints : List StepCheckpoint)
    (hversion : workflow.record.schemaVersion = schemaVersion)
    (hshared : fileName env workflow.record.workflowId = fileName env other) (stepName : String)
    (now : Time) :
    ∃ steps items, report env (exec (Session.perform env workflowId)
        ⟨directory, some workflow, checkpoints⟩
        [.step stepName, .leave checkpoints.length false now none]).directory other now =
      .ok (steps, items) ∧ steps stepName = true := by
  set record : CheckpointRecord Time :=
    { CheckpointedWorkflow.complete workflow.record stepName with updatedAt := now } with hrecord
  have hid : record.workflowId = workflow.record.workflowId :=
    CheckpointedWorkflow.complete_workflowId workflow.record stepName
  have hsame : record.schemaVersion = schemaVersion := by
    rw [← hversion]
    exact CheckpointedWorkflow.complete_schemaVersion workflow.record stepName
  have hdone : stepName ∈ record.completedSteps :=
    CheckpointedWorkflow.mem_complete workflow.record stepName
  have hdirectory : (exec (Session.perform env workflowId) ⟨directory, some workflow, checkpoints⟩
      [.step stepName, .leave checkpoints.length false now none]).directory =
        directory.put (fileName env record.workflowId)
          (.json (some (checksum env record.body)) record.body) := by
    simp [Session.perform, Session.onWorkflow, Session.onCheckpoint, Session.flush,
      CheckpointedWorkflow.step, CheckpointedWorkflow.setRecord, CheckpointStore.save, hrecord]
  have hfile : (directory.put (fileName env record.workflowId)
      (.json (some (checksum env record.body)) record.body)).find? (fileName env other) =
        some (.json (some (checksum env record.body)) record.body) := by
    rw [UniqueTable.find?_put, if_pos (by rw [hid, hshared])]
  rw [hdirectory]
  unfold report
  rw [construct_saved hsame hfile now]
  exact ⟨_, _, rfl, by simpa [CheckpointedWorkflow.isStepDone] using hdone⟩

/-- The record of a workflow object has the current version. -/
theorem schemaVersion_of_construct {now : Time} {workflow : CheckpointedWorkflow Time}
    (h : CheckpointedWorkflow.construct env directory workflowId now = .ok workflow) :
    workflow.record.schemaVersion = schemaVersion := by
  obtain ⟨_, hload | ⟨_, hfresh⟩⟩ := construct_ok_iff.mp h
  · obtain ⟨storedChecksum, raw, hfile, hid⟩ := id_of_load hload
    unfold CheckpointStore.load at hload
    simp only [hfile, hid] at hload
    split_ifs at hload
    cases hdate : raw.updatedAt with
    | none => simp [hdate] at hload
    | some updatedAt =>
      simp only [hdate, Except.ok.injEq, Option.some.injEq] at hload
      rw [← hload]
  · rw [hfresh]
    rfl

/-- Some step is not reported as completed. -/
theorem exists_unreported_step (env : CheckpointEnv Time) (directory : Directory Time)
    (other : String) (now : Time) :
    ∃ stepName, ∀ steps items, report env directory other now = .ok (steps, items) →
      steps stepName = false := by
  cases hopen : CheckpointedWorkflow.construct env directory other now with
  | error e => exact ⟨"", fun steps items hreport => by simp [report, hopen, Except.map] at hreport⟩
  | ok workflow =>
    obtain ⟨stepName, hnew⟩ :=
      Infinite.exists_notMem_finset workflow.record.completedSteps.toFinset
    refine ⟨stepName, fun steps items hreport => ?_⟩
    simp only [report, hopen, Except.map, Except.ok.injEq, Prod.mk.injEq] at hreport
    rw [← hreport.1]
    simpa [CheckpointedWorkflow.isStepDone] using hnew

/-- A workflow that can be opened and shares a file with the other one, or has loaded a record
whose id does, can change what the other one reports. -/
theorem not_isolated_of_shared {now : Time} {workflow : CheckpointedWorkflow Time}
    (hopen : CheckpointedWorkflow.construct env directory workflowId now = .ok workflow)
    (hshared : fileName env workflowId = fileName env other ∨
      fileName env workflow.record.workflowId = fileName env other) :
    ¬Isolated env directory workflowId other := by
  intro h
  have hid := (construct_ok_iff.mp hopen).1
  obtain ⟨stepName, hnew⟩ := exists_unreported_step env directory other now
  have hconstruct : Session.perform env workflowId (Session.start directory) (.construct now none) =
      ⟨directory, some workflow, []⟩ := by
    simp [Session.perform, Session.start, hopen, Except.toOption]
  -- some operations complete the step in the file of the other workflow
  have hops : ∃ (ops : List (WorkflowOp Time)) (steps : String → Bool)
      (items : String → String → Bool),
      report env (exec (Session.perform env workflowId) (.start directory) ops).directory other
        now = .ok (steps, items) ∧ steps stepName = true := by
    obtain hsame | hstored := hshared
    · have hclear : Session.perform env workflowId ⟨directory, some workflow, []⟩
          (.clear now none) = ⟨directory.erase (fileName env workflow.workflowId),
            some (workflow.setRecord (freshRecord workflow.workflowId now)), []⟩ := by
        simp [Session.perform, Session.onWorkflow, CheckpointStore.clear]
      have hfresh : fileName env (workflow.setRecord
          (freshRecord workflow.workflowId now)).record.workflowId = fileName env other := by
        simpa [CheckpointedWorkflow.setRecord, freshRecord, hid] using hsame
      obtain ⟨steps, items, hreport, hdone⟩ :=
        report_of_leave (directory.erase (fileName env workflow.workflowId)) workflowId
          (workflow.setRecord (freshRecord workflow.workflowId now)) [] rfl hfresh stepName now
      refine ⟨[.construct now none, .clear now none, .step stepName, .leave 0 false now none],
        steps, items, ?_, hdone⟩
      rw [exec_cons, hconstruct, exec_cons, hclear]
      exact hreport
    · obtain ⟨steps, items, hreport, hdone⟩ :=
        report_of_leave directory workflowId workflow [] (schemaVersion_of_construct hopen)
          hstored stepName now
      refine ⟨[.construct now none, .step stepName, .leave 0 false now none],
        steps, items, ?_, hdone⟩
      rw [exec_cons, hconstruct]
      exact hreport
  obtain ⟨ops, steps, items, hreport, hdone⟩ := hops
  have hbefore := hnew steps items ((h ops now).symm.trans hreport)
  rw [hdone] at hbefore
  cases hbefore

/-- When no operations on one workflow change what another one reports, over any directory: when
the workflow cannot be opened, or neither it nor the id in the record that it loads has the
file of the other one. -/
theorem isolated_iff (env : CheckpointEnv Time) (directory : Directory Time)
    (workflowId other : String) :
    Isolated env directory workflowId other ↔ OwnFiles env directory workflowId other := by
  constructor
  · intro h now workflow hopen
    constructor
    · intro hsame
      exact not_isolated_of_shared hopen (Or.inl hsame) h
    · intro hstored
      exact not_isolated_of_shared hopen (Or.inr hstored) h
  · exact isolated_of_ownFiles

/-- In an empty directory the workflow `a/b` changes what `a_b` reports. -/
theorem slash_not_isolated :
    ¬Isolated (⟨fun _ => false, fun _ => ""⟩ : CheckpointEnv ℕ) .empty "a/b" "a_b" := by
  have hopen : CheckpointedWorkflow.construct
      (⟨fun _ => false, fun _ => ""⟩ : CheckpointEnv ℕ) .empty "a/b" 0 =
        .ok ⟨"a/b", freshRecord "a/b" 0⟩ := rfl
  exact not_isolated_of_shared hopen (Or.inl (by decide))

end LedgerLens.Utils.Checkpointing
