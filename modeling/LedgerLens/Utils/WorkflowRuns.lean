import LedgerLens.Library.Runs
import LedgerLens.Utils.Checkpointing
import Mathlib.Data.List.Dedup

/-!
# Resumed workflows

Processes run one workflow one after another, and each may end at any point. `remaining_steps`
and `remaining_items` decide about an element when they come to it. This file shows what they
skip, and that they yield the others in the given order.

A list may name a step twice. When the first of the two is completed the second is skipped by
the same process.
-/

namespace LedgerLens.Utils.Checkpointing

open Transition

variable {Time Item : Type*}

/-- The generator of `remaining_steps` or `remaining_items`. -/
structure Remaining (α : Type*) where
  /-- What was given. -/
  given : List α
  /-- What it has come to, and whether it has yielded it. -/
  decided : List (α × Bool)
  /-- What it has not come to. -/
  rest : List α

/-- The elements that a generator comes to until it yields one, and those after them. -/
def advance {α : Type*} (skips : α → Bool) : List α → List (α × Bool) × List α
  | [] => ([], [])
  | a :: rest =>
    if skips a then ((a, false) :: (advance skips rest).1, (advance skips rest).2)
    else ([(a, true)], rest)

/-- `next` of a generator. -/
def Remaining.next {α : Type*} (loop : Remaining α) (skips : α → Bool) : Remaining α where
  given := loop.given
  decided := loop.decided ++ (advance skips loop.rest).1
  rest := (advance skips loop.rest).2

/-- A generator of `remaining_items` on a step checkpoint. -/
structure RemainingItems (Item : Type*) where
  /-- The number of the step checkpoint. -/
  checkpoint : ℕ
  /-- The name of its step. -/
  stepName : String
  /-- The key of an item. -/
  key : Item → String
  /-- The generator. -/
  loop : Remaining Item

/-- The processes of a workflow. What they have done is kept beside their state. -/
structure WorkflowRuns (Time Item : Type*) where
  /-- The directory and the objects of the running process. -/
  session : Session Time
  /-- Its generators of steps. -/
  steps : List (Remaining String)
  /-- Its generators of items. -/
  items : List (RemainingItems Item)
  /-- How many processes have started. -/
  process : ℕ
  /-- The steps whose block was left without an exception, and in which process. -/
  left : List (ℕ × String)
  /-- The steps and keys of the items for which `mark_done` was called. -/
  marked : List (String × String)

/-- What happens in the runs of a workflow. -/
inductive RunEvent (Time Item : Type*) where
  /-- An operation. -/
  | op (op : WorkflowOp Time)
  /-- `remaining_steps`. -/
  | remainingSteps (steps : List String)
  /-- `next` on a generator of steps. -/
  | nextStep (loop : ℕ)
  /-- `remaining_items` on a step checkpoint. -/
  | remainingItems (checkpoint : ℕ) (items : List Item) (key : Item → String)
  /-- `next` on a generator of items. -/
  | nextItem (loop : ℕ)

/-- The step whose block an operation leaves without an exception. -/
def Session.leftBy (s : Session Time) : WorkflowOp Time → List String
  | .leave checkpoint false _ _ =>
    match s.workflow, s.checkpoints[checkpoint]? with
    | some _, some entry => [entry.stepName]
    | _, _ => []
  | _ => []

/-- The step and key for which an operation calls `mark_done`. -/
def Session.markedBy (s : Session Time) : WorkflowOp Time → List (String × String)
  | .markDone checkpoint itemKey _ _ _ =>
    match s.workflow, s.checkpoints[checkpoint]? with
    | some _, some entry => [(entry.stepName, itemKey)]
    | _, _ => []
  | _ => []

/-- Whether an operation starts or ends a process. -/
def WorkflowOp.endsProcess : WorkflowOp Time → Bool
  | .construct _ _ => true
  | .crash => true
  | _ => false

/-- Whether an operation starts a process. -/
def WorkflowOp.startsProcess : WorkflowOp Time → Bool
  | .construct _ _ => true
  | _ => false

/-- One event in the runs of the workflow with an id. -/
def runStep (env : CheckpointEnv Time) (workflowId : String) (runs : WorkflowRuns Time Item) :
    RunEvent Time Item → WorkflowRuns Time Item
  | .op op =>
    let process := if op.startsProcess then runs.process + 1 else runs.process
    { session := runs.session.perform env workflowId op
      steps := if op.endsProcess then [] else runs.steps
      items := if op.endsProcess then [] else runs.items
      process := process
      left := runs.left ++ (runs.session.leftBy op).map fun stepName => (process, stepName)
      marked := runs.marked ++ runs.session.markedBy op }
  | .remainingSteps steps => { runs with steps := runs.steps ++ [⟨steps, [], steps⟩] }
  | .nextStep loop =>
    match runs.session.workflow with
    | none => runs
    | some workflow =>
      { runs with steps := runs.steps.modify loop fun l => l.next workflow.isStepDone }
  | .remainingItems checkpoint items key =>
    match runs.session.checkpoints[checkpoint]? with
    | none => runs
    | some entry =>
      { runs with
        items := runs.items ++ [⟨checkpoint, entry.stepName, key, ⟨items, [], items⟩⟩] }
  | .nextItem loop =>
    { runs with
      items := runs.items.modify loop fun l =>
        match runs.session.checkpoints[l.checkpoint]? with
        | none => l
        | some entry => { l with loop := l.loop.next fun item => entry.isDone (l.key item) } }

/-- No process has run on a directory. -/
def WorkflowRuns.start (directory : Directory Time) : WorkflowRuns Time Item :=
  ⟨⟨directory, none, []⟩, [], [], 0, [], []⟩

/-- A generator has come to a beginning of what was given, in its order. -/
def Remaining.InOrder {α : Type*} (loop : Remaining α) : Prop :=
  loop.decided.map Prod.fst ++ loop.rest = loop.given

/-- The generators go through what they were given in its order. They skip a step only if its
block was left without an exception in a process before, in the given sense, and an item only
if `mark_done` was called in its step for an item with its key. They yield the others. -/
structure Resumes (before : ℕ → ℕ → Prop) (runs : WorkflowRuns Time Item) : Prop where
  /-- The generators of steps. -/
  steps : ∀ loop ∈ runs.steps, loop.InOrder ∧
    ∀ stepName, (stepName, false) ∈ loop.decided →
      ∃ process, before process runs.process ∧ (process, stepName) ∈ runs.left
  /-- The generators of items. -/
  items : ∀ items ∈ runs.items, items.loop.InOrder ∧
    ∀ item, (item, false) ∈ items.loop.decided →
      (items.stepName, items.key item) ∈ runs.marked

/-- What a generator comes to is in order, and it skips only what is done. -/
theorem advance_spec {α : Type*} (skips : α → Bool) (given : List α) :
    (advance skips given).1.map Prod.fst ++ (advance skips given).2 = given ∧
      ∀ a, (a, false) ∈ (advance skips given).1 → skips a = true := by
  induction given with
  | nil => simp [advance]
  | cons a rest ih =>
    unfold advance
    split_ifs with hskips
    · refine ⟨by simp [ih.1], fun b hb => ?_⟩
      obtain heq | hmem := List.mem_cons.mp hb
      · obtain rfl := (Prod.mk.inj heq).1
        exact hskips
      · exact ih.2 b hmem
    · simp

/-- `next` keeps a generator in order, and skips only what is done. -/
theorem Remaining.next_spec {α : Type*} {loop : Remaining α} (h : loop.InOrder)
    (skips : α → Bool) :
    (loop.next skips).InOrder ∧
      ∀ a, (a, false) ∈ (loop.next skips).decided →
        (a, false) ∈ loop.decided ∨ skips a = true := by
  obtain ⟨horder, hskips⟩ := advance_spec skips loop.rest
  constructor
  · unfold Remaining.InOrder Remaining.next
    rw [List.map_append, List.append_assoc, horder]
    exact h
  · intro a ha
    obtain hold | hnew := List.mem_append.mp ha
    · exact Or.inl hold
    · exact Or.inr (hskips a hnew)

/-- What a record has completed was left without an exception, and what it has in progress was
marked as done. -/
structure Accounted (left : List String) (marked : List (String × String))
    (completedSteps : List String) (stepProgress : UniqueTable String (List String)) : Prop where
  /-- The completed steps. -/
  steps : ∀ stepName ∈ completedSteps, stepName ∈ left
  /-- The items in progress. -/
  items : ∀ stepName items, stepProgress.find? stepName = some items →
    ∀ itemKey ∈ items, (stepName, itemKey) ∈ marked

section Sessions

variable (env : CheckpointEnv Time) (workflowId : String)

/-- All that a session has of the workflow is accounted for. -/
structure SessionAccounted (left : List String) (marked : List (String × String))
    (s : Session Time) : Prop where
  /-- The file. -/
  file : ∀ storedChecksum raw,
    s.directory.find? (fileName env workflowId) = some (.json storedChecksum raw) →
      Accounted left marked (raw.completedSteps.getD []) (raw.stepProgress.getD .empty) ∧
        ∀ id, raw.workflowId = some id → fileName env id = fileName env workflowId
  /-- The workflow object. -/
  object : ∀ workflow, s.workflow = some workflow →
    Accounted left marked workflow.record.completedSteps workflow.record.stepProgress ∧
      workflow.workflowId = workflowId ∧
      fileName env workflow.record.workflowId = fileName env workflowId
  /-- The step checkpoints. -/
  checkpoints : ∀ entry ∈ s.checkpoints, ∀ itemKey ∈ entry.done,
    (entry.stepName, itemKey) ∈ marked

variable {env workflowId} {left left' : List String} {marked marked' : List (String × String)}
  {s : Session Time}

theorem Accounted.mono {completedSteps : List String}
    {stepProgress : UniqueTable String (List String)}
    (h : Accounted left marked completedSteps stepProgress) (hleft : left ⊆ left')
    (hmarked : marked ⊆ marked') : Accounted left' marked' completedSteps stepProgress where
  steps stepName hstep := hleft (h.steps stepName hstep)
  items stepName items hitems itemKey hkey := hmarked (h.items stepName items hitems itemKey hkey)

theorem SessionAccounted.mono (h : SessionAccounted env workflowId left marked s)
    (hleft : left ⊆ left') (hmarked : marked ⊆ marked') :
    SessionAccounted env workflowId left' marked' s where
  file storedChecksum raw hfile :=
    ⟨(h.file storedChecksum raw hfile).1.mono hleft hmarked, (h.file storedChecksum raw hfile).2⟩
  object workflow hworkflow :=
    ⟨(h.object workflow hworkflow).1.mono hleft hmarked, (h.object workflow hworkflow).2⟩
  checkpoints entry hentry itemKey hkey := hmarked (h.checkpoints entry hentry itemKey hkey)

/-- A flush writes what the object has. -/
theorem SessionAccounted.flush (h : SessionAccounted env workflowId left marked s)
    (workflow : CheckpointedWorkflow Time)
    (hrecord : Accounted left marked workflow.record.completedSteps workflow.record.stepProgress)
    (hid : workflow.workflowId = workflowId)
    (hname : fileName env workflow.record.workflowId = fileName env workflowId) (now : Time)
    (fault : Option String) :
    SessionAccounted env workflowId left marked (s.flush env workflow now fault) := by
  have hobject : ∀ w, (s.flush env workflow now fault).workflow = some w →
      Accounted left marked w.record.completedSteps w.record.stepProgress ∧
        w.workflowId = workflowId ∧
        fileName env w.record.workflowId = fileName env workflowId := by
    intro w hw
    obtain rfl := Option.some.inj hw
    exact ⟨hrecord, hid, hname⟩
  cases fault with
  | some reason => exact ⟨h.file, hobject, h.checkpoints⟩
  | none =>
    refine ⟨fun storedChecksum raw hfile => ?_, hobject, h.checkpoints⟩
    simp only [Session.flush, CheckpointStore.save, UniqueTable.find?_put, hname, if_pos,
      Option.some.injEq, CheckpointText.json.injEq] at hfile
    obtain ⟨_, rfl⟩ := hfile
    refine ⟨hrecord, fun id hraw => ?_⟩
    rw [← Option.some.inj hraw]
    exact hname

/-- A new workflow object has what its file has. -/
theorem SessionAccounted.construct (h : SessionAccounted env workflowId left marked s)
    {now : Time} {workflow : CheckpointedWorkflow Time}
    (hopen : CheckpointedWorkflow.construct env s.directory workflowId now = .ok workflow) :
    Accounted left marked workflow.record.completedSteps workflow.record.stepProgress ∧
      workflow.workflowId = workflowId ∧
      fileName env workflow.record.workflowId = fileName env workflowId := by
  unfold CheckpointedWorkflow.construct CheckpointStore.load at hopen
  cases hfile : s.directory.find? (fileName env workflowId) with
  | none =>
    simp only [hfile, Except.ok.injEq] at hopen
    subst hopen
    refine ⟨⟨fun _ hstep => ?_, fun _ _ hitems => ?_⟩, rfl, rfl⟩
    · simp [freshRecord] at hstep
    · simp [freshRecord] at hitems
  | some text =>
    cases text with
    | unparsable reason => simp [hfile] at hopen
    | json storedChecksum raw =>
      obtain ⟨haccounted, hname⟩ := h.file storedChecksum raw hfile
      simp only [hfile] at hopen
      split_ifs at hopen
      cases hid : raw.workflowId with
      | none => simp [hid] at hopen
      | some storedId =>
        cases hdate : raw.updatedAt with
        | none => simp [hid, hdate] at hopen
        | some updatedAt =>
          simp only [hid, hdate, Except.ok.injEq, Option.getD_some] at hopen
          subst hopen
          exact ⟨haccounted, rfl, hname storedId hid⟩

/-- The record with the progress of a step checkpoint that is accounted for. -/
theorem Accounted.setProgress {record : CheckpointRecord Time} {entry : StepCheckpoint}
    (h : Accounted left marked record.completedSteps record.stepProgress)
    (hentry : ∀ itemKey ∈ entry.done, (entry.stepName, itemKey) ∈ marked) :
    Accounted left marked (record.setProgress entry).completedSteps
      (record.setProgress entry).stepProgress where
  steps := h.steps
  items stepName items hitems itemKey hkey := by
    rw [CheckpointRecord.setProgress, UniqueTable.find?_put] at hitems
    split_ifs at hitems with hstep
    · obtain rfl := Option.some.inj hitems
      rw [hstep]
      exact hentry itemKey ((List.mem_insertionSort _).mp hkey)
    · exact h.items stepName items hitems itemKey hkey

/-- The record with a completed step. -/
theorem Accounted.complete {record : CheckpointRecord Time} {stepName : String}
    (h : Accounted left marked record.completedSteps record.stepProgress)
    (hleft : stepName ∈ left) :
    Accounted left marked (CheckpointedWorkflow.complete record stepName).completedSteps
      (CheckpointedWorkflow.complete record stepName).stepProgress := by
  unfold CheckpointedWorkflow.complete
  split_ifs
  · exact h
  · refine ⟨fun other hother => ?_, h.items⟩
    obtain hold | hnew := List.mem_append.mp hother
    · exact h.steps other hold
    · rw [List.mem_singleton.mp hnew]
      exact hleft

/-- Every operation keeps what a session has accounted for, with what the operation adds. -/
theorem SessionAccounted.perform (h : SessionAccounted env workflowId left marked s)
    (op : WorkflowOp Time) :
    SessionAccounted env workflowId (left ++ s.leftBy op) (marked ++ s.markedBy op)
      (s.perform env workflowId op) := by
  have hkept : SessionAccounted env workflowId (left ++ s.leftBy op) (marked ++ s.markedBy op) s :=
    h.mono (List.subset_append_left _ _) (List.subset_append_left _ _)
  cases op with
  | crash => exact ⟨hkept.file, nofun, nofun⟩
  | construct now fault =>
    cases fault with
    | some reason => exact ⟨hkept.file, nofun, nofun⟩
    | none =>
      refine ⟨hkept.file, fun workflow hworkflow => ?_, nofun⟩
      cases hopen : CheckpointedWorkflow.construct env s.directory workflowId now with
      | error e => simp [Session.perform, hopen, Except.toOption] at hworkflow
      | ok w =>
        obtain rfl : w = workflow := by
          simpa [Session.perform, hopen, Except.toOption] using hworkflow
        exact hkept.construct hopen
  | step stepName =>
    refine Session.onWorkflow_of hkept fun workflow hworkflow => ?_
    refine ⟨hkept.file, hkept.object, fun entry hentry itemKey hkey => ?_⟩
    obtain hold | hnew := List.mem_append.mp hentry
    · exact hkept.checkpoints entry hold itemKey hkey
    · obtain rfl := List.mem_singleton.mp hnew
      have hitem : itemKey ∈ (workflow.record.stepProgress.find? stepName).getD [] :=
        List.mem_dedup.mp hkey
      cases hitems : workflow.record.stepProgress.find? stepName with
      | none => simp [hitems] at hitem
      | some items =>
        rw [hitems, Option.getD_some] at hitem
        exact (hkept.object workflow hworkflow).1.items stepName items hitems itemKey hitem
  | markDone checkpoint itemKey flush now fault =>
    refine Session.onCheckpoint_of hkept fun workflow entry hworkflow hentry => ?_
    obtain ⟨hrecord, hid, hname⟩ := hkept.object workflow hworkflow
    have hadded : ∀ key ∈ (entry.add itemKey).done, (entry.stepName, key) ∈
        marked ++ s.markedBy (.markDone checkpoint itemKey flush now fault) := by
      intro key hkey
      obtain rfl | hold := List.mem_insert_iff.mp hkey
      · simp [Session.markedBy, hworkflow, hentry]
      · exact hkept.checkpoints entry (List.mem_of_getElem? hentry) key hold
    have hset := hrecord.setProgress hadded
    have hmarked : SessionAccounted env workflowId
        (left ++ s.leftBy (.markDone checkpoint itemKey flush now fault))
        (marked ++ s.markedBy (.markDone checkpoint itemKey flush now fault))
        (s.mark workflow checkpoint (entry.add itemKey)) := by
      refine ⟨hkept.file, fun w hw => ?_, fun other hother key hkey => ?_⟩
      · obtain rfl := Option.some.inj hw
        exact ⟨hset, hid, hname⟩
      · obtain hold | rfl := List.mem_or_eq_of_mem_set hother
        · exact hkept.checkpoints other hold key hkey
        · exact hadded key hkey
    dsimp only
    split_ifs
    · exact hmarked.flush (workflow.setRecord (workflow.record.setProgress (entry.add itemKey)))
        hset hid hname now fault
    · exact hmarked
  | leave checkpoint raised now fault =>
    refine Session.onCheckpoint_of hkept fun workflow entry hworkflow hentry => ?_
    obtain ⟨hrecord, hid, hname⟩ := hkept.object workflow hworkflow
    cases raised with
    | true => exact hkept.flush workflow hrecord hid hname now fault
    | false =>
      have hleft : entry.stepName ∈ left ++ s.leftBy (.leave checkpoint false now fault) := by
        simp [Session.leftBy, hworkflow, hentry]
      refine hkept.flush (workflow.setRecord (CheckpointedWorkflow.complete workflow.record
        entry.stepName)) (hrecord.complete hleft) hid ?_ now fault
      rw [CheckpointedWorkflow.setRecord, CheckpointedWorkflow.complete_workflowId]
      exact hname
  | clear now fault =>
    refine Session.onWorkflow_of hkept fun workflow hworkflow => ?_
    obtain ⟨hrecord, hid, hname⟩ := hkept.object workflow hworkflow
    cases fault with
    | some reason => exact hkept
    | none =>
      refine ⟨fun storedChecksum raw hfile => ?_, fun w hw => ?_, hkept.checkpoints⟩
      · simp [CheckpointStore.clear, hid] at hfile
      · obtain rfl := Option.some.inj hw
        refine ⟨⟨fun _ hstep => ?_, fun _ _ hitems => ?_⟩, hid, ?_⟩
        · simp [CheckpointedWorkflow.setRecord, freshRecord] at hstep
        · simp [CheckpointedWorkflow.setRecord, freshRecord] at hitems
        · simp [CheckpointedWorkflow.setRecord, freshRecord, hid]

/-- The step checkpoint with a number is one of a step. -/
def OnStep (checkpoint : ℕ) (stepName : String) (s : Session Time) : Prop :=
  ∃ entry, s.checkpoints[checkpoint]? = some entry ∧ entry.stepName = stepName

/-- An operation within a process keeps the step checkpoints, each on its step. -/
theorem OnStep.perform {op : WorkflowOp Time} (hop : op.endsProcess = false) {checkpoint : ℕ}
    {stepName : String} (h : OnStep checkpoint stepName s) :
    OnStep checkpoint stepName (s.perform env workflowId op) := by
  obtain ⟨entry, hentry, hstep⟩ := h
  have hsame : OnStep checkpoint stepName s := ⟨entry, hentry, hstep⟩
  have hlt : checkpoint < s.checkpoints.length := (List.getElem?_eq_some_iff.mp hentry).1
  cases op with
  | crash => cases hop
  | construct now fault => cases hop
  | step newStep =>
    refine Session.onWorkflow_of hsame fun workflow _ => ⟨entry, ?_, hstep⟩
    rw [List.getElem?_append_left hlt]
    exact hentry
  | markDone other itemKey flush now fault =>
    refine Session.onCheckpoint_of hsame fun workflow marked _ hmarked => ?_
    have hset : OnStep checkpoint stepName (s.mark workflow other (marked.add itemKey)) := by
      by_cases heq : other = checkpoint
      · subst heq
        refine ⟨marked.add itemKey, by simp [Session.mark, hlt], ?_⟩
        rw [← hstep, ← Option.some.inj (hmarked.symm.trans hentry)]
        rfl
      · exact ⟨entry, by simp [Session.mark, heq, hentry], hstep⟩
    dsimp only
    split_ifs
    · exact hset
    · exact hset
  | leave other raised now fault =>
    refine Session.onCheckpoint_of hsame fun workflow left _ _ => ?_
    split_ifs
    · exact hsame
    · exact hsame
  | clear now fault =>
    refine Session.onWorkflow_of hsame fun workflow _ => ?_
    cases fault with
    | some reason => exact hsame
    | none => exact hsame

end Sessions

/-- What holds of the processes of a workflow in every state. -/
structure RunsInvariant (env : CheckpointEnv Time) (workflowId : String)
    (runs : WorkflowRuns Time Item) : Prop where
  /-- All that is kept is accounted for. -/
  session : SessionAccounted env workflowId (runs.left.map Prod.snd) runs.marked runs.session
  /-- Blocks were left in processes up to the present one. -/
  processes : ∀ left ∈ runs.left, left.1 ≤ runs.process
  /-- The generators skip what they may. -/
  resumes : Resumes (· ≤ ·) runs
  /-- A generator of items belongs to a step checkpoint of its step. -/
  onStep : ∀ items ∈ runs.items, OnStep items.checkpoint items.stepName runs.session

variable {env : CheckpointEnv Time} {workflowId : String} {runs : WorkflowRuns Time Item}

/-- An operation adds to what was done; generators outlive it within a process. -/
theorem RunsInvariant.op (h : RunsInvariant env workflowId runs) (op : WorkflowOp Time) :
    RunsInvariant env workflowId (runStep env workflowId runs (.op op)) := by
  have hsession := h.session.perform op
  have hprocess : runs.process ≤ (runStep env workflowId runs (.op op)).process := by
    simp only [runStep]
    split_ifs
    · omega
    · exact le_rfl
  refine ⟨?_, ?_, ⟨?_, ?_⟩, ?_⟩
  · simpa [runStep, Function.comp_def] using hsession
  · intro left hleft
    obtain hold | hnew := List.mem_append.mp hleft
    · exact (h.processes left hold).trans hprocess
    · obtain ⟨stepName, _, rfl⟩ := List.mem_map.mp hnew
      exact le_rfl
  · intro loop hloop
    cases hop : op.endsProcess with
    | true => simp [runStep, hop] at hloop
    | false =>
      simp only [runStep, hop, Bool.false_eq_true, if_false] at hloop ⊢
      obtain ⟨horder, hskips⟩ := h.resumes.steps loop hloop
      refine ⟨horder, fun stepName hstep => ?_⟩
      obtain ⟨process, hle, hleft⟩ := hskips stepName hstep
      exact ⟨process, hle.trans hprocess, List.mem_append_left _ hleft⟩
  · intro items hitems
    cases hop : op.endsProcess with
    | true => simp [runStep, hop] at hitems
    | false =>
      simp only [runStep, hop, Bool.false_eq_true, if_false] at hitems ⊢
      obtain ⟨horder, hskips⟩ := h.resumes.items items hitems
      exact ⟨horder, fun item hitem => List.mem_append_left _ (hskips item hitem)⟩
  · intro items hitems
    cases hop : op.endsProcess with
    | true => simp [runStep, hop] at hitems
    | false =>
      simp only [runStep, hop, Bool.false_eq_true, if_false] at hitems
      exact (h.onStep items hitems).perform hop

/-- A step that a workflow object reports as done was left without an exception. -/
theorem RunsInvariant.left_of_isStepDone (h : RunsInvariant env workflowId runs)
    {workflow : CheckpointedWorkflow Time} (hworkflow : runs.session.workflow = some workflow)
    {stepName : String} (hdone : workflow.isStepDone stepName = true) :
    ∃ process, process ≤ runs.process ∧ (process, stepName) ∈ runs.left := by
  have hstep := (h.session.object workflow hworkflow).1.steps stepName (of_decide_eq_true hdone)
  obtain ⟨left, hleft, rfl⟩ := List.mem_map.mp hstep
  exact ⟨left.1, h.processes left hleft, hleft⟩

/-- The elements of a list of which one is changed. -/
theorem mem_of_mem_modify {α : Type*} {f : α → α} {index : ℕ} {as : List α} {a : α}
    (h : a ∈ as.modify index f) : a ∈ as ∨ ∃ b ∈ as, a = f b := by
  obtain ⟨i, hi⟩ := List.mem_iff_getElem?.mp h
  rw [List.getElem?_modify] at hi
  cases hold : as[i]? with
  | none => simp [hold] at hi
  | some b =>
    have hb := List.mem_of_getElem? hold
    by_cases heq : index = i
    · right
      refine ⟨b, hb, ?_⟩
      simpa [hold, heq, eq_comm] using hi
    · left
      have hsame : b = a := by simpa [hold, heq] using hi
      exact hsame ▸ hb

/-- `next` on a generator of items keeps what is known of it. -/
theorem RunsInvariant.next_items (h : RunsInvariant env workflowId runs)
    {items : RemainingItems Item} (hitems : items ∈ runs.items) {entry : StepCheckpoint}
    (hentry : runs.session.checkpoints[items.checkpoint]? = some entry) :
    (items.loop.next fun item => entry.isDone (items.key item)).InOrder ∧
      ∀ item, (item, false) ∈ (items.loop.next fun item => entry.isDone (items.key item)).decided →
        (items.stepName, items.key item) ∈ runs.marked := by
  obtain ⟨horder, hskips⟩ := h.resumes.items items hitems
  obtain ⟨hnext, hdecided⟩ := Remaining.next_spec horder fun item => entry.isDone (items.key item)
  refine ⟨hnext, fun item hitem => ?_⟩
  obtain hold | hdone := hdecided item hitem
  · exact hskips item hold
  · obtain ⟨entry', hentry', hstep⟩ := h.onStep items hitems
    obtain rfl := Option.some.inj (hentry.symm.trans hentry')
    rw [← hstep]
    exact h.session.checkpoints entry (List.mem_of_getElem? hentry) _ (of_decide_eq_true hdone)

/-- Every event keeps the invariant. -/
theorem RunsInvariant.step (h : RunsInvariant env workflowId runs) (e : RunEvent Time Item) :
    RunsInvariant env workflowId (runStep env workflowId runs e) := by
  cases e with
  | op op => exact h.op op
  | remainingSteps steps =>
    refine ⟨h.session, h.processes, ⟨fun loop hloop => ?_, h.resumes.items⟩, h.onStep⟩
    obtain hold | hnew := List.mem_append.mp hloop
    · exact h.resumes.steps loop hold
    · obtain rfl := List.mem_singleton.mp hnew
      exact ⟨rfl, nofun⟩
  | nextStep index =>
    simp only [runStep]
    cases hworkflow : runs.session.workflow with
    | none => exact h
    | some workflow =>
      refine ⟨h.session, h.processes, ⟨fun loop hloop => ?_, h.resumes.items⟩, h.onStep⟩
      obtain hold | ⟨old, hold, rfl⟩ := mem_of_mem_modify hloop
      · exact h.resumes.steps loop hold
      · obtain ⟨horder, hskips⟩ := h.resumes.steps old hold
        obtain ⟨hnext, hdecided⟩ := Remaining.next_spec horder workflow.isStepDone
        refine ⟨hnext, fun stepName hstep => ?_⟩
        obtain hbefore | hdone := hdecided stepName hstep
        · exact hskips stepName hbefore
        · exact h.left_of_isStepDone hworkflow hdone
  | remainingItems checkpoint items key =>
    simp only [runStep]
    cases hentry : runs.session.checkpoints[checkpoint]? with
    | none => exact h
    | some entry =>
      refine ⟨h.session, h.processes, ⟨h.resumes.steps, fun l hl => ?_⟩, fun l hl => ?_⟩
      · obtain hold | hnew := List.mem_append.mp hl
        · exact h.resumes.items l hold
        · obtain rfl := List.mem_singleton.mp hnew
          exact ⟨rfl, nofun⟩
      · obtain hold | hnew := List.mem_append.mp hl
        · exact h.onStep l hold
        · obtain rfl := List.mem_singleton.mp hnew
          exact ⟨entry, hentry, rfl⟩
  | nextItem index =>
    simp only [runStep]
    refine ⟨h.session, h.processes, ⟨h.resumes.steps, fun l hl => ?_⟩, fun l hl => ?_⟩
    · obtain hold | ⟨old, hold, rfl⟩ := mem_of_mem_modify hl
      · exact h.resumes.items l hold
      · cases hentry : runs.session.checkpoints[old.checkpoint]? with
        | none => exact h.resumes.items old hold
        | some entry => exact h.next_items hold hentry
    · obtain hold | ⟨old, hold, rfl⟩ := mem_of_mem_modify hl
      · exact h.onStep l hold
      · cases hentry : runs.session.checkpoints[old.checkpoint]? with
        | none => exact h.onStep old hold
        | some entry => exact h.onStep old hold

/-- A directory without the workflow's file meets the invariant. -/
theorem runsInvariant_start {directory : Directory Time}
    (h : directory.find? (fileName env workflowId) = none) :
    RunsInvariant env workflowId (WorkflowRuns.start directory : WorkflowRuns Time Item) where
  session := by
    refine ⟨fun storedChecksum raw hfile => ?_, nofun, nofun⟩
    have hfile' : directory.find? (fileName env workflowId) = some (.json storedChecksum raw) :=
      hfile
    rw [h] at hfile'
    cases hfile'
  processes := nofun
  resumes := ⟨nofun, nofun⟩
  onStep := nofun

/-- Processes run a workflow one after another, from a directory without its file, with
exceptions, failing writes and crashes at any point. A step is only skipped when its block was
left without an exception in an earlier process or earlier in the same one, and an item only
when `mark_done` was called in its step for an item with its key. All other steps and items
are yielded in the given order. -/
theorem runs_always_resume (env : CheckpointEnv Time) (workflowId : String)
    (directory : Directory Time) (h : directory.find? (fileName env workflowId) = none)
    (es : List (RunEvent Time Item)) :
    Always (runStep env workflowId) (Resumes (· ≤ ·)) (WorkflowRuns.start directory) es :=
  always_of_invariant (RunsInvariant env workflowId) (fun _ hruns => hruns.resumes)
    (fun _ e hruns => hruns.step e) (runsInvariant_start h) es

/-- An environment of times that are numbers. -/
def numberEnv : CheckpointEnv ℕ := ⟨fun _ => false, fun _ => ""⟩

/-- The second process is given a step twice and completes it. -/
def stepGivenTwice : List (RunEvent ℕ String) :=
  [.op (.construct 0 none), .op .crash, .op (.construct 1 none),
    .remainingSteps ["fetch", "fetch"], .nextStep 0, .op (.step "fetch"),
    .op (.leave 0 false 2 none), .nextStep 0]

theorem stepGivenTwice_resumes :
    Always (runStep numberEnv "backfill") (Resumes (· ≤ ·)) (WorkflowRuns.start .empty)
      stepGivenTwice :=
  runs_always_resume numberEnv "backfill" .empty rfl stepGivenTwice

/-- It skips the second one, although the first process did not complete the step. -/
theorem step_skipped_in_same_process :
    ¬Always (runStep numberEnv "backfill") (Resumes (· < ·)) (WorkflowRuns.start .empty)
      stepGivenTwice := by
  intro h
  have hskipped : ∃ loop ∈ (exec (runStep numberEnv "backfill") (WorkflowRuns.start .empty)
      stepGivenTwice).steps, ("fetch", false) ∈ loop.decided := by
    decide +kernel
  have hleft : ∀ left ∈ (exec (runStep numberEnv "backfill") (WorkflowRuns.start .empty)
      stepGivenTwice).left, ¬left.1 < (exec (runStep numberEnv "backfill")
        (WorkflowRuns.start .empty) stepGivenTwice).process := by
    decide +kernel
  obtain ⟨loop, hloop, hstep⟩ := hskipped
  obtain ⟨process, hlt, hmem⟩ := (h.last.steps loop hloop).2 "fetch" hstep
  exact hleft _ hmem hlt

end LedgerLens.Utils.Checkpointing
