import LedgerLens.Library.Runs
import Mathlib.Data.Int.Notation
import Mathlib.Data.List.Basic
import Mathlib.Data.List.Pairwise
import Mathlib.Tactic.Ring

/-!
# The parallel executor

`ParallelExecutor.map` gives the items to a pool of workers and collects what has come back. It
keeps a bounded list of tasks that are under way, and each time when one of them is done it takes
all that are done off the list. The workers and the caller take their steps in any order. There are
no timeouts here.
-/

namespace LedgerLens.Ingestion.Parallel

open Transition

/-- `error_mode`. -/
inductive ErrorMode where
  | raise
  | collect
  | ignore
  deriving DecidableEq

/-- What a task raises: a `TimeoutError`, which is the one of `concurrent.futures`, another
`Exception`, or a `BaseException` that is none. -/
inductive Raised (E : Type) where
  | timeout (e : E)
  | exception (e : E)
  | other (e : E)
  deriving DecidableEq

/-- `TaskError`. -/
structure TaskError (T E : Type) where
  item : T
  exc : Raised E

/-- `ExecutionReport`, without the time and the settings. -/
structure ExecutionReport (T E : Type) where
  total : ℕ := 0
  succeeded : ℕ := 0
  failed : ℕ := 0
  errors : List (TaskError T E) := []

/-- `ParallelExecutor`. -/
structure ParallelExecutor where
  maxWorkers : ℕ
  /-- The constructor raises a `ValueError` otherwise. -/
  one_le_maxWorkers : 1 ≤ maxWorkers
  /-- Zero is no limit, and so is a negative number. -/
  maxPending : ℤ

/-- A task of the pool and its entry of `future_to_item`. -/
structure Future (T : Type) where
  id : ℕ
  item : T
  deriving DecidableEq

/-- Where the caller is in `map`. -/
inductive Phase (T : Type) where
  /-- It fills the list of tasks under way. -/
  | filling
  /-- It waits in `as_completed`. -/
  | waiting
  /-- It asks the tasks under way whether they are done. -/
  | checking (unchecked done : List (Future T))
  /-- It takes the tasks that are done off the list. -/
  | draining (done : List (Future T))
  /-- It collects what remains. -/
  | remaining
  | returned
  | raised

/-- The caller and the pool. -/
structure MapState (T E R : Type) where
  phase : Phase T
  /-- What `item_iter` has not given yet. -/
  rest : List T
  exhausted : Bool
  /-- How many tasks the pool was given. -/
  submitted : ℕ
  pending : List (Future T)
  /-- The tasks that no worker has taken. -/
  queue : List ℕ
  /-- The tasks that a worker is at. -/
  running : List ℕ
  /-- The tasks that are done. -/
  finished : List ℕ
  report : ExecutionReport T E
  results : List R

/-- The steps of the system. -/
inductive Event where
  /-- A worker takes a task. -/
  | begin
  /-- A worker is done with a task. -/
  | finish (id : ℕ)
  /-- The caller goes on. -/
  | caller
  deriving DecidableEq

variable {T E R : Type}

/-- `map` when it is called. -/
def start (items : List T) : MapState T E R where
  phase := .filling
  rest := items
  exhausted := false
  submitted := 0
  pending := []
  queue := []
  running := []
  finished := []
  report := {}
  results := []

/-- Giving the next item to the pool, or going on to wait. -/
def MapState.fill (x : ParallelExecutor) (s : MapState T E R) : MapState T E R :=
  if s.exhausted = false ∧ (x.maxPending ≤ 0 ∨ s.pending.length < x.maxPending) then
    match s.rest with
    | [] => { s with exhausted := true }
    | item :: rest =>
      { s with
        rest := rest
        submitted := s.submitted + 1
        pending := s.pending ++ [{ id := s.submitted, item := item }]
        queue := s.queue ++ [s.submitted] }
  else if s.pending.isEmpty then { s with phase := .remaining }
  else { s with phase := .waiting }

/-- A task is off the list. -/
def MapState.remove (s : MapState T E R) (f : Future T) : MapState T E R :=
  { s with
    pending := s.pending.eraseP (·.id = f.id)
    report := { s.report with total := s.report.total + 1 } }

/-- A task gave a result. -/
def MapState.succeed (s : MapState T E R) (r : R) : MapState T E R :=
  { s with
    results := s.results ++ [r]
    report := { s.report with succeeded := s.report.succeeded + 1 } }

/-- A task failed. The caller raises its exception only if it was told to. -/
def MapState.fail (mode : ErrorMode) (s : MapState T E R) (f : Future T) (e : Raised E) :
    MapState T E R :=
  let s := { s with report := { s.report with failed := s.report.failed + 1 } }
  match mode with
  | .raise => { s with phase := .raised }
  | .collect =>
    { s with report := { s.report with errors := s.report.errors ++ [⟨f.item, e⟩] } }
  | .ignore => s

/-- One task in `_drain_completed`. For a `TimeoutError` its result is asked for again, which
raises it again, and out of `map`. -/
def MapState.drain (mode : ErrorMode) (fn : T → Except (Raised E) R) (s : MapState T E R)
    (f : Future T) (done : List (Future T)) : MapState T E R :=
  let s := { s.remove f with phase := .draining done }
  match fn f.item with
  | .ok r => s.succeed r
  | .error (.timeout _) => { s with phase := .raised }
  | .error (.exception e) => s.fail mode f (.exception e)
  | .error (.other _) => { s with phase := .raised }

/-- One task of those that remain after the loop. -/
def MapState.collect (mode : ErrorMode) (fn : T → Except (Raised E) R) (s : MapState T E R)
    (f : Future T) : MapState T E R :=
  let s := s.remove f
  match fn f.item with
  | .ok r => s.succeed r
  | .error (.timeout e) => s.fail mode f (.timeout e)
  | .error (.exception e) => s.fail mode f (.exception e)
  | .error (.other _) => { s with phase := .raised }

/-- A step of the caller. -/
def MapState.caller (x : ParallelExecutor) (mode : ErrorMode) (fn : T → Except (Raised E) R)
    (s : MapState T E R) : MapState T E R :=
  match s.phase with
  | .filling => s.fill x
  | .waiting => { s with phase := .checking s.pending [] }
  | .checking [] done => { s with phase := .draining done }
  | .checking (f :: unchecked) done =>
    { s with phase := .checking unchecked (if f.id ∈ s.finished then done ++ [f] else done) }
  | .draining [] =>
    if s.exhausted = false ∨ s.pending ≠ [] then { s with phase := .filling }
    else { s with phase := .remaining }
  | .draining (f :: done) => s.drain mode fn f done
  | .remaining =>
    match s.pending with
    | [] => { s with phase := .returned }
    | f :: _ => s.collect mode fn f
  | .returned => s
  | .raised => s

/-- The caller need not wait. -/
def MapState.CallerEnabled (s : MapState T E R) : Prop :=
  match s.phase with
  | .waiting => ∃ f ∈ s.pending, f.id ∈ s.finished
  | .remaining => ∀ f ∈ s.pending.head?, f.id ∈ s.finished
  | .returned => False
  | .raised => False
  | _ => True

instance (s : MapState T E R) : Decidable s.CallerEnabled :=
  match hphase : s.phase with
  | .waiting => decidable_of_iff (∃ f ∈ s.pending, f.id ∈ s.finished)
      (by simp only [MapState.CallerEnabled, hphase])
  | .remaining => decidable_of_iff (∀ f ∈ s.pending.head?, f.id ∈ s.finished)
      (by simp only [MapState.CallerEnabled, hphase])
  | .returned => isFalse (by simp only [MapState.CallerEnabled, hphase, not_false_iff])
  | .raised => isFalse (by simp only [MapState.CallerEnabled, hphase, not_false_iff])
  | .filling => isTrue (by simp only [MapState.CallerEnabled, hphase])
  | .checking _ _ => isTrue (by simp only [MapState.CallerEnabled, hphase])
  | .draining _ => isTrue (by simp only [MapState.CallerEnabled, hphase])

/-- A step can be taken. -/
def Enabled (x : ParallelExecutor) (s : MapState T E R) : Event → Prop
  | .begin => s.queue ≠ [] ∧ s.running.length < x.maxWorkers
  | .finish id => id ∈ s.running
  | .caller => s.CallerEnabled

instance (x : ParallelExecutor) (s : MapState T E R) : ∀ e, Decidable (Enabled x s e)
  | .begin => inferInstanceAs (Decidable (s.queue ≠ [] ∧ s.running.length < x.maxWorkers))
  | .finish id => inferInstanceAs (Decidable (id ∈ s.running))
  | .caller => inferInstanceAs (Decidable s.CallerEnabled)

/-- A step of the system. Workers take the tasks in the order in which the pool was given them. -/
def step (x : ParallelExecutor) (mode : ErrorMode) (fn : T → Except (Raised E) R)
    (s : MapState T E R) : Event → MapState T E R
  | .begin =>
    match s.queue with
    | [] => s
    | id :: queue => { s with queue := queue, running := s.running ++ [id] }
  | .finish id => { s with running := s.running.erase id, finished := s.finished ++ [id] }
  | .caller => s.caller x mode fn

/-- A worker leaves the caller where it is. -/
theorem step_begin (x : ParallelExecutor) (mode : ErrorMode) (fn : T → Except (Raised E) R)
    (s : MapState T E R) :
    step x mode fn s .begin =
      { s with queue := s.queue.tail, running := s.running ++ s.queue.head?.toList } := by
  obtain ⟨phase, rest, exhausted, submitted, pending, queue, running, finished, report,
    results⟩ := s
  cases queue with
  | nil => simp [step]
  | cons id queue => rfl

/-- Nothing can happen any more. -/
def Stuck (x : ParallelExecutor) (s : MapState T E R) : Prop := ∀ e, ¬ Enabled x s e

/-- The steps of the caller that need not wait. -/
inductive CallerStep (x : ParallelExecutor) (mode : ErrorMode) (fn : T → Except (Raised E) R)
    (s : MapState T E R) : MapState T E R → Prop where
  | submit (item : T) (rest : List T) (hphase : s.phase = .filling)
      (hrest : s.rest = item :: rest) :
      CallerStep x mode fn s { s with
        rest := rest
        submitted := s.submitted + 1
        pending := s.pending ++ [{ id := s.submitted, item := item }]
        queue := s.queue ++ [s.submitted] }
  | exhaust (hphase : s.phase = .filling) (hrest : s.rest = []) (hmore : s.exhausted = false) :
      CallerStep x mode fn s { s with exhausted := true }
  | stop (hphase : s.phase = .filling) (hpending : s.pending = []) (hlast : s.exhausted = true) :
      CallerStep x mode fn s { s with phase := .remaining }
  | wait (hphase : s.phase = .filling) (hpending : s.pending ≠ []) :
      CallerStep x mode fn s { s with phase := .waiting }
  | wake (hphase : s.phase = .waiting) (hdone : ∃ f ∈ s.pending, f.id ∈ s.finished) :
      CallerStep x mode fn s { s with phase := .checking s.pending [] }
  | check (f : Future T) (unchecked done : List (Future T))
      (hphase : s.phase = .checking (f :: unchecked) done) :
      CallerStep x mode fn s { s with
        phase := .checking unchecked (if f.id ∈ s.finished then done ++ [f] else done) }
  | checked (done : List (Future T)) (hphase : s.phase = .checking [] done) :
      CallerStep x mode fn s { s with phase := .draining done }
  | again (hphase : s.phase = .draining []) :
      CallerStep x mode fn s { s with phase := .filling }
  | last (hphase : s.phase = .draining []) (hpending : s.pending = [])
      (hlast : s.exhausted = true) :
      CallerStep x mode fn s { s with phase := .remaining }
  | drain (f : Future T) (done : List (Future T)) (hphase : s.phase = .draining (f :: done)) :
      CallerStep x mode fn s (s.drain mode fn f done)
  | leave (hphase : s.phase = .remaining) (hpending : s.pending = []) :
      CallerStep x mode fn s { s with phase := .returned }
  | collect (f : Future T) (pending : List (Future T)) (hphase : s.phase = .remaining)
      (hpending : s.pending = f :: pending) : CallerStep x mode fn s (s.collect mode fn f)

theorem callerStep (x : ParallelExecutor) (mode : ErrorMode) (fn : T → Except (Raised E) R)
    (s : MapState T E R) (henabled : s.CallerEnabled) :
    CallerStep x mode fn s (s.caller x mode fn) := by
  unfold MapState.caller
  split
  case h_1 hphase =>
    unfold MapState.fill
    split_ifs with hfill hempty
    · split
      · exact .exhaust hphase ‹_› hfill.1
      · exact .submit _ _ hphase ‹_›
    · have hpending : s.pending = [] := List.isEmpty_iff.mp hempty
      refine .stop hphase hpending ?_
      -- without tasks under way there is room for one, so the items must have come to an end
      by_contra hmore
      rw [hpending] at hfill
      simp only [Bool.not_eq_true] at hmore
      simp only [hmore, List.length_nil, true_and] at hfill
      omega
    · exact .wait hphase (by simpa using hempty)
  case h_2 hphase =>
    unfold MapState.CallerEnabled at henabled
    rw [hphase] at henabled
    exact .wake hphase henabled
  case h_3 hphase => exact .checked _ hphase
  case h_4 hphase => exact .check _ _ _ hphase
  case h_5 hphase =>
    split_ifs with hmore
    · exact .again hphase
    · rw [not_or, not_ne_iff] at hmore
      exact .last hphase hmore.2 (by simpa using hmore.1)
  case h_6 hphase => exact .drain _ _ hphase
  case h_7 hphase =>
    split
    · exact .leave hphase ‹_›
    · exact .collect _ _ hphase ‹_›
  case h_8 hphase =>
    unfold MapState.CallerEnabled at henabled
    rw [hphase] at henabled
    exact henabled.elim
  case h_9 hphase =>
    unfold MapState.CallerEnabled at henabled
    rw [hphase] at henabled
    exact henabled.elim

section Futures

/-- The tasks for the items. -/
def futures (items : List T) : List (Future T) :=
  items.zipIdx.map fun p => { id := p.2, item := p.1 }

/-- The tasks that the pool was given. -/
def given (items : List T) (submitted : ℕ) : List (Future T) := (futures items).take submitted

/-- What a task that does not raise gives. -/
def value (fn : T → Except (Raised E) R) (f : Future T) : Option R := (fn f.item).toOption

@[simp] theorem length_futures (items : List T) : (futures items).length = items.length := by
  simp [futures]

theorem map_item_futures (items : List T) : (futures items).map Future.item = items := by
  simp [futures, List.map_map, Function.comp_def]

theorem given_length (items : List T) : given items items.length = futures items :=
  List.take_of_length_le (by simp)

/-- Giving the pool one more task. -/
theorem given_succ {items rest : List T} {item : T} {submitted : ℕ}
    (hrest : items.drop submitted = item :: rest) :
    given items (submitted + 1) = given items submitted ++ [{ id := submitted, item := item }] := by
  have hlt : submitted < items.length := by
    by_contra hge
    rw [List.drop_of_length_le (by omega)] at hrest
    cases hrest
  have hitem : items[submitted] = item := by
    rw [List.drop_eq_getElem_cons hlt] at hrest
    exact (List.cons.inj hrest).1
  unfold given
  rw [List.take_succ_eq_append_getElem (by simpa using hlt)]
  simp [futures, hitem]

/-- The tasks are numbered in the order of the items. -/
theorem pairwise_given (items : List T) (submitted : ℕ) :
    (given items submitted).Pairwise (·.id < ·.id) := by
  refine List.Pairwise.sublist (List.take_sublist _ _) ?_
  rw [futures, List.pairwise_map]
  rw [List.pairwise_iff_getElem]
  intro i j hi hj hij
  simpa using hij

/-- Where a task is on the list. -/
theorem exists_split {pending : List (Future T)} (hsorted : pending.Pairwise (·.id < ·.id))
    {f : Future T} (hf : f ∈ pending) :
    ∃ before after, pending = before ++ f :: after ∧
      pending.eraseP (·.id = f.id) = before ++ after ∧
      (∀ g ∈ before, g.id < f.id) ∧ ∀ g ∈ after, f.id < g.id := by
  obtain ⟨before, after, rfl⟩ := List.append_of_mem hf
  rw [List.pairwise_append, List.pairwise_cons] at hsorted
  obtain ⟨-, ⟨hafter, -⟩, hbefore⟩ := hsorted
  have hlt : ∀ g ∈ before, g.id < f.id := fun g hg => hbefore g hg f List.mem_cons_self
  refine ⟨before, after, rfl, ?_, hlt, hafter⟩
  rw [List.eraseP_append_right, List.eraseP_cons_of_pos (by simp)]
  intro g hg
  have := hlt g hg
  simp only [decide_eq_true_eq]
  omega

/-- What follows the first of some tasks is after it on the list. -/
theorem sublist_after {before after done : List (Future T)} {f : Future T}
    (hsorted : (before ++ f :: after).Pairwise (·.id < ·.id))
    (hsub : (f :: done).Sublist (before ++ f :: after)) : done.Sublist after := by
  have hdone := (List.pairwise_cons.mp (hsorted.sublist hsub)).1
  rw [List.pairwise_append, List.pairwise_cons] at hsorted
  obtain ⟨-, ⟨hafter, -⟩, hbefore⟩ := hsorted
  have hfilter := hsub.filter fun g => decide (f.id < g.id)
  have hfront : before.filter (fun g => decide (f.id < g.id)) = [] := by
    rw [List.filter_eq_nil_iff]
    intro g hg
    have := hbefore g hg f List.mem_cons_self
    simp only [decide_eq_true_eq]
    omega
  rw [List.filter_append, hfront, List.filter_cons_of_neg (by simp),
    List.filter_cons_of_neg (by simp), List.filter_eq_self.mpr (by simpa using hdone),
    List.filter_eq_self.mpr (by simpa using hafter)] at hfilter
  exact hfilter

end Futures

section Invariants

/-- What holds of the list of tasks where the caller is. -/
def MapState.PhaseInv (s : MapState T E R) : Prop :=
  match s.phase with
  | .filling => True
  | .waiting => s.pending ≠ []
  | .checking unchecked done => (done ++ unchecked).Sublist s.pending ∧
      (done ≠ [] ∨ ∃ f ∈ unchecked, f.id ∈ s.finished)
  | .draining done => done.Sublist s.pending
  | .remaining => s.pending = [] ∧ s.exhausted = true
  | .returned => s.pending = [] ∧ s.exhausted = true
  | .raised => True

/-- What holds in every state of `map`. -/
structure Inv (items : List T) (s : MapState T E R) : Prop where
  rest : s.rest = items.drop s.submitted
  le : s.submitted ≤ items.length
  exhausted : s.exhausted = true → s.rest = []
  pending : s.pending.Sublist (given items s.submitted)
  covered : ∀ f ∈ s.pending, f.id ∈ s.queue ∨ f.id ∈ s.running ∨ f.id ∈ s.finished
  phase : s.PhaseInv

theorem Inv.start (items : List T) : Inv items (start items : MapState T E R) where
  rest := rfl
  le := Nat.zero_le _
  exhausted h := by cases h
  pending := List.Sublist.refl _
  covered _ hf := by cases hf
  phase := trivial

variable {items : List T} {x : ParallelExecutor} {mode : ErrorMode}
  {fn : T → Except (Raised E) R} {s : MapState T E R}

theorem Inv.sorted (hs : Inv items s) : s.pending.Pairwise (·.id < ·.id) :=
  (pairwise_given items s.submitted).sublist hs.pending

/-- The first of the tasks that are done goes off the list. -/
theorem Inv.split {f : Future T} {done : List (Future T)} (hs : Inv items s)
    (hphase : s.phase = .draining (f :: done)) :
    ∃ before after, s.pending = before ++ f :: after ∧
      s.pending.eraseP (·.id = f.id) = before ++ after ∧ done.Sublist after ∧
      ∀ g ∈ before, g.id < f.id := by
  have hsub : (f :: done).Sublist s.pending := by
    have := hs.phase
    rwa [MapState.PhaseInv, hphase] at this
  obtain ⟨before, after, hsplit, herase, hbefore, -⟩ :=
    exists_split hs.sorted (hsub.subset List.mem_cons_self)
  have hsorted := hs.sorted
  rw [hsplit] at hsub hsorted
  exact ⟨before, after, hsplit, herase, sublist_after hsorted hsub, hbefore⟩

/-- What a drained task leaves as it is, and what it does to the list and to the caller. -/
theorem drain_frame (mode : ErrorMode) (fn : T → Except (Raised E) R) (s : MapState T E R)
    (f : Future T) (done : List (Future T)) :
    let s' := s.drain mode fn f done
    s'.rest = s.rest ∧ s'.submitted = s.submitted ∧ s'.exhausted = s.exhausted ∧
      s'.queue = s.queue ∧ s'.running = s.running ∧ s'.finished = s.finished ∧
      s'.pending = s.pending.eraseP (·.id = f.id) ∧
      (s'.phase = .draining done ∨ s'.phase = .raised) := by
  unfold MapState.drain
  cases fn f.item with
  | ok r => exact ⟨rfl, rfl, rfl, rfl, rfl, rfl, rfl, Or.inl rfl⟩
  | error e =>
    cases e with
    | timeout e => exact ⟨rfl, rfl, rfl, rfl, rfl, rfl, rfl, Or.inr rfl⟩
    | exception e =>
      cases mode with
      | raise => exact ⟨rfl, rfl, rfl, rfl, rfl, rfl, rfl, Or.inr rfl⟩
      | collect => exact ⟨rfl, rfl, rfl, rfl, rfl, rfl, rfl, Or.inl rfl⟩
      | ignore => exact ⟨rfl, rfl, rfl, rfl, rfl, rfl, rfl, Or.inl rfl⟩
    | other e => exact ⟨rfl, rfl, rfl, rfl, rfl, rfl, rfl, Or.inr rfl⟩

theorem Inv.caller {s' : MapState T E R} (hs : Inv items s) (h : CallerStep x mode fn s s') :
    Inv items s' := by
  have hpending := hs.pending
  have hphaseInv := hs.phase
  cases h with
  | submit item rest hphase hrest =>
    have hdrop : items.drop s.submitted = item :: rest := by rw [← hs.rest, hrest]
    have hlt : s.submitted < items.length := by
      by_contra hge
      rw [List.drop_of_length_le (by omega)] at hdrop
      cases hdrop
    refine ⟨?_, hlt, ?_, ?_, ?_, ?_⟩
    · rw [List.drop_eq_getElem_cons hlt] at hdrop
      exact (List.cons.inj hdrop).2.symm
    · intro hlast
      rw [hs.exhausted hlast] at hrest
      cases hrest
    · rw [given_succ hdrop]
      exact hpending.append_right _
    · intro f hf
      rcases List.mem_append.mp hf with hf | hf
      · rcases hs.covered f hf with h | h
        · exact Or.inl (List.mem_append_left _ h)
        · exact Or.inr h
      · rw [List.mem_singleton.mp hf]
        exact Or.inl (List.mem_append_right _ List.mem_cons_self)
    · unfold MapState.PhaseInv
      rw [hphase]
      trivial
  | exhaust hphase hrest hmore =>
    refine ⟨hs.rest, hs.le, fun _ => hrest, hpending, hs.covered, ?_⟩
    unfold MapState.PhaseInv
    rw [hphase]
    trivial
  | stop hphase hempty hlast =>
    exact ⟨hs.rest, hs.le, hs.exhausted, hpending, hs.covered, ⟨hempty, hlast⟩⟩
  | wait hphase hsome =>
    exact ⟨hs.rest, hs.le, hs.exhausted, hpending, hs.covered, hsome⟩
  | wake hphase hdone =>
    exact ⟨hs.rest, hs.le, hs.exhausted, hpending, hs.covered,
      ⟨List.Sublist.refl _, Or.inr hdone⟩⟩
  | check f unchecked done hphase =>
    rw [MapState.PhaseInv, hphase] at hphaseInv
    obtain ⟨hsub, hsome⟩ := hphaseInv
    refine ⟨hs.rest, hs.le, hs.exhausted, hpending, hs.covered, ?_⟩
    by_cases hf : f.id ∈ s.finished
    · simp only [if_pos hf]
      refine ⟨?_, Or.inl (by simp)⟩
      rwa [List.append_assoc, List.singleton_append]
    · simp only [if_neg hf]
      refine ⟨((List.sublist_cons_self f unchecked).append_left done).trans hsub, ?_⟩
      refine hsome.imp_right ?_
      rintro ⟨g, hg, hfinished⟩
      rcases List.mem_cons.mp hg with rfl | hg
      · exact absurd hfinished hf
      · exact ⟨g, hg, hfinished⟩
  | checked done hphase =>
    rw [MapState.PhaseInv, hphase] at hphaseInv
    refine ⟨hs.rest, hs.le, hs.exhausted, hpending, hs.covered, ?_⟩
    have hsub := hphaseInv.1
    rwa [List.append_nil] at hsub
  | again hphase =>
    exact ⟨hs.rest, hs.le, hs.exhausted, hpending, hs.covered, trivial⟩
  | last hphase hempty hlast =>
    exact ⟨hs.rest, hs.le, hs.exhausted, hpending, hs.covered, ⟨hempty, hlast⟩⟩
  | drain f done hphase =>
    obtain ⟨before, after, hsplit, herase, hdone, -⟩ := hs.split hphase
    obtain ⟨hrest, hsubmitted, hexhausted, hqueue, hrunning, hfinished, hpending', hphase'⟩ :=
      drain_frame mode fn s f done
    refine ⟨?_, ?_, ?_, ?_, ?_, ?_⟩
    · rw [hrest, hsubmitted]
      exact hs.rest
    · rw [hsubmitted]
      exact hs.le
    · rw [hexhausted, hrest]
      exact hs.exhausted
    · rw [hpending', hsubmitted]
      exact List.eraseP_sublist.trans hpending
    · rw [hpending', hqueue, hrunning, hfinished]
      exact fun g hg => hs.covered g (List.mem_of_mem_eraseP hg)
    · unfold MapState.PhaseInv
      rcases hphase' with hphase' | hphase'
      · rw [hphase', hpending', herase]
        exact hdone.trans (List.sublist_append_right before after)
      · rw [hphase']
        trivial
  | leave hphase hempty =>
    rw [MapState.PhaseInv, hphase] at hphaseInv
    exact ⟨hs.rest, hs.le, hs.exhausted, hpending, hs.covered, hphaseInv⟩
  | collect f pending hphase hsome =>
    -- the loop has left no task under way
    rw [MapState.PhaseInv, hphase] at hphaseInv
    rw [hphaseInv.1] at hsome
    cases hsome

/-- Every step keeps the invariant. -/
theorem Inv.step (hs : Inv items s) {e : Event} (henabled : Enabled x s e) :
    Inv items (step x mode fn s e) := by
  cases e with
  | begin =>
    rw [step_begin]
    refine ⟨hs.rest, hs.le, hs.exhausted, hs.pending, fun f hf => ?_, hs.phase⟩
    have hcovered := hs.covered f hf
    cases hqueue : s.queue with
    | nil => simpa [hqueue] using hcovered
    | cons id queue =>
      rw [hqueue, List.mem_cons] at hcovered
      simp only [List.tail_cons, List.head?_cons, Option.toList_some, List.mem_append,
        List.mem_singleton]
      tauto
  | finish id =>
    refine ⟨hs.rest, hs.le, hs.exhausted, hs.pending, fun f hf => ?_, ?_⟩
    · simp only [Parallel.step, List.mem_append, List.mem_singleton]
      by_cases hid : f.id = id
      · exact Or.inr (Or.inr (Or.inr hid))
      · rw [List.mem_erase_of_ne hid]
        have hcovered := hs.covered f hf
        tauto
    · have hphase := hs.phase
      unfold MapState.PhaseInv at hphase ⊢
      unfold Parallel.step
      cases hat : s.phase with
      | checking unchecked done =>
        rw [hat] at hphase
        refine ⟨hphase.1, hphase.2.imp_right ?_⟩
        rintro ⟨f, hf, hfinished⟩
        exact ⟨f, hf, List.mem_append_left _ hfinished⟩
      | _ =>
        rw [hat] at hphase
        exact hphase
  | caller => exact hs.caller (callerStep x mode fn s henabled)

end Invariants

section Accounting

variable {items : List T} {x : ParallelExecutor} {mode : ErrorMode}
  {fn : T → Except (Raised E) R} {s : MapState T E R}

/-- What a task raises out of `map`, in each mode. -/
def Escapes (fn : T → Except (Raised E) R) (item : T) : Prop :=
  match fn item with
  | .error (.timeout _) => True
  | .error (.other _) => True
  | _ => False

/-- The report counts the tasks that are off the list, and none of them has escaped. -/
structure Accounted (fn : T → Except (Raised E) R) (items : List T) (s : MapState T E R) :
    Prop where
  total : s.report.total + s.pending.length = s.submitted
  succeeded : s.report.succeeded + s.pending.countP (fun f => (value fn f).isSome) =
    (given items s.submitted).countP fun f => (value fn f).isSome
  failed : s.report.failed + s.pending.countP (fun f => (value fn f).isNone) =
    (given items s.submitted).countP fun f => (value fn f).isNone
  kept : ∀ f ∈ given items s.submitted, f ∈ s.pending ∨ ¬ Escapes fn f.item

theorem Accounted.start : Accounted fn items (start items : MapState T E R) where
  total := rfl
  succeeded := rfl
  failed := rfl
  kept _ hf := by cases hf

/-- What a drained task does to the report and the results if nothing is raised. -/
theorem drain_cases (fn : T → Except (Raised E) R) (s : MapState T E R) (f : Future T)
    (done : List (Future T)) (hmode : mode ≠ .raise) :
    (Escapes fn f.item ∧ (s.drain mode fn f done).phase = .raised) ∨
    (¬ Escapes fn f.item ∧ (s.drain mode fn f done).phase = .draining done ∧
      (s.drain mode fn f done).report.total = s.report.total + 1 ∧
      (s.drain mode fn f done).results = s.results ++ (value fn f).toList ∧
      (s.drain mode fn f done).report.succeeded =
        s.report.succeeded + (if (value fn f).isSome then 1 else 0) ∧
      (s.drain mode fn f done).report.failed =
        s.report.failed + (if (value fn f).isNone then 1 else 0)) := by
  unfold MapState.drain value Escapes
  cases fn f.item with
  | ok r =>
    exact Or.inr ⟨id, rfl, rfl, rfl, rfl, rfl⟩
  | error e =>
    cases e with
    | timeout e => exact Or.inl ⟨trivial, rfl⟩
    | exception e =>
      refine Or.inr ⟨id, ?_⟩
      cases mode with
      | raise => exact absurd rfl hmode
      | collect => exact ⟨rfl, rfl, (List.append_nil _).symm, rfl, rfl⟩
      | ignore => exact ⟨rfl, rfl, (List.append_nil _).symm, rfl, rfl⟩
    | other e => exact Or.inl ⟨trivial, rfl⟩

theorem Accounted.caller {s' : MapState T E R} (hmode : mode ≠ .raise) (hs : Inv items s)
    (hacc : Accounted fn items s) (h : CallerStep x mode fn s s') :
    s'.phase = .raised ∨ Accounted fn items s' := by
  cases h with
  | submit item rest hphase hrest =>
    have hdrop : items.drop s.submitted = item :: rest := by rw [← hs.rest, hrest]
    right
    constructor
    · have htotal := hacc.total
      simp only [List.length_append, List.length_singleton]
      omega
    · have hsucceeded := hacc.succeeded
      simp only [given_succ hdrop, List.countP_append]
      omega
    · have hfailed := hacc.failed
      simp only [given_succ hdrop, List.countP_append]
      omega
    · rw [given_succ hdrop]
      intro f hf
      rcases List.mem_append.mp hf with hf | hf
      · exact (hacc.kept f hf).imp_left fun h => List.mem_append_left _ h
      · exact Or.inl (List.mem_append_right _ hf)
  | drain f done hphase =>
    obtain ⟨before, after, hsplit, herase, -, -⟩ := hs.split hphase
    obtain ⟨-, hsubmitted, -, -, -, -, hpending, -⟩ := drain_frame mode fn s f done
    rw [herase] at hpending
    rcases drain_cases fn s f done hmode with
      ⟨-, hraised⟩ | ⟨hescapes, -, htotal, -, hsucceeded, hfailed⟩
    · exact Or.inl hraised
    right
    constructor
    · rw [htotal, hpending, hsubmitted, ← hacc.total, hsplit]
      simp only [List.length_append, List.length_cons]
      omega
    · rw [hsucceeded, hpending, hsubmitted, ← hacc.succeeded, hsplit]
      simp only [List.countP_append, List.countP_cons]
      omega
    · rw [hfailed, hpending, hsubmitted, ← hacc.failed, hsplit]
      simp only [List.countP_append, List.countP_cons]
      omega
    · rw [hsubmitted, hpending]
      intro g hg
      rcases hacc.kept g hg with h | h
      · rw [hsplit, List.mem_append, List.mem_cons] at h
        rcases h with h | rfl | h
        · exact Or.inl (List.mem_append_left _ h)
        · exact Or.inr hescapes
        · exact Or.inl (List.mem_append_right _ h)
      · exact Or.inr h
  | collect f pending hphase hsome =>
    have hphaseInv := hs.phase
    rw [MapState.PhaseInv, hphase] at hphaseInv
    rw [hphaseInv.1] at hsome
    cases hsome
  | _ => exact Or.inr ⟨hacc.total, hacc.succeeded, hacc.failed, hacc.kept⟩

/-- Once the caller has raised an exception, it takes no step. -/
theorem phase_step_raised (h : s.phase = .raised) (e : Event) :
    (step x mode fn s e).phase = .raised := by
  cases e with
  | begin =>
    rw [step_begin]
    exact h
  | finish id => exact h
  | caller =>
    simp only [step, MapState.caller, h]

theorem Accounted.step (hmode : mode ≠ .raise) (hs : Inv items s)
    (hacc : s.phase = .raised ∨ Accounted fn items s) {e : Event} (henabled : Enabled x s e) :
    (step x mode fn s e).phase = .raised ∨ Accounted fn items (step x mode fn s e) := by
  rcases hacc with hraised | hacc
  · exact Or.inl (phase_step_raised hraised e)
  cases e with
  | begin =>
    rw [step_begin]
    exact Or.inr ⟨hacc.total, hacc.succeeded, hacc.failed, hacc.kept⟩
  | finish id => exact Or.inr ⟨hacc.total, hacc.succeeded, hacc.failed, hacc.kept⟩
  | caller => exact hacc.caller hmode hs (callerStep x mode fn s henabled)

/-- If no item escapes, nothing is raised. -/
theorem phase_step_ne_raised (hmode : mode ≠ .raise) (hescapes : ∀ item ∈ items, ¬ Escapes fn item)
    (hs : Inv items s) (hphase : s.phase ≠ .raised) {e : Event} (henabled : Enabled x s e) :
    (step x mode fn s e).phase ≠ .raised := by
  cases e with
  | begin =>
    rw [step_begin]
    exact hphase
  | finish id => exact hphase
  | caller =>
    intro hraised
    have hcaller := callerStep x mode fn s henabled
    simp only [step] at hraised
    generalize s.caller x mode fn = s' at hraised hcaller
    cases hcaller with
    | drain f done hat =>
      obtain ⟨before, after, hsplit, -⟩ := hs.split hat
      have hmem : f ∈ given items s.submitted := hs.pending.subset (by simp [hsplit])
      have hitem : f.item ∈ items := by
        rw [← map_item_futures items]
        exact List.mem_map_of_mem (List.mem_of_mem_take hmem)
      rcases drain_cases fn s f done hmode with ⟨h, -⟩ | ⟨-, h, -⟩
      · exact hescapes f.item hitem h
      · rw [h] at hraised
        cases hraised
    | collect f pending hat hsome =>
      have hphaseInv := hs.phase
      rw [MapState.PhaseInv, hat] at hphaseInv
      rw [hphaseInv.1] at hsome
      cases hsome
    | submit => exact hphase hraised
    | exhaust => exact hphase hraised
    | _ => cases hraised

end Accounting

section Order

variable {items : List T} {x : ParallelExecutor} {mode : ErrorMode}
  {fn : T → Except (Raised E) R} {s : MapState T E R}

/-- No task that gives a result is left on the list while a later one that gives a result is
taken off it. -/
def NoOvertaking (fn : T → Except (Raised E) R) (pending done : List (Future T)) : Prop :=
  ∀ f ∈ pending, ∀ g ∈ done, f.id < g.id → f ∉ done → (value fn f).isSome → (value fn g).isNone

/-- When the caller has asked all tasks, no later one overtakes an earlier one. -/
def InOrder (fn : T → Except (Raised E) R) (s : MapState T E R) : Event → Prop
  | .caller =>
    match s.phase with
    | .checking [] done => NoOvertaking fn s.pending done
    | _ => True
  | _ => True

instance [DecidableEq T] (fn : T → Except (Raised E) R) (pending done : List (Future T)) :
    Decidable (NoOvertaking fn pending done) := by
  unfold NoOvertaking
  infer_instance

instance [DecidableEq T] (fn : T → Except (Raised E) R) (s : MapState T E R) :
    ∀ e, Decidable (InOrder fn s e)
  | .begin => isTrue trivial
  | .finish _ => isTrue trivial
  | .caller =>
    match hphase : s.phase with
    | .checking [] done => decidable_of_iff (NoOvertaking fn s.pending done)
        (by simp only [InOrder, hphase])
    | .checking (_ :: _) _ => isTrue (by simp only [InOrder, hphase])
    | .filling => isTrue (by simp only [InOrder, hphase])
    | .waiting => isTrue (by simp only [InOrder, hphase])
    | .draining _ => isTrue (by simp only [InOrder, hphase])
    | .remaining => isTrue (by simp only [InOrder, hphase])
    | .returned => isTrue (by simp only [InOrder, hphase])
    | .raised => isTrue (by simp only [InOrder, hphase])

/-- The results so far, and what is under way, are in the order of the items. -/
structure Ordered (fn : T → Except (Raised E) R) (items : List T) (s : MapState T E R) : Prop where
  values : s.results ++ s.pending.filterMap (value fn) =
    (given items s.submitted).filterMap (value fn)
  draining : ∀ done, s.phase = .draining done → NoOvertaking fn s.pending done

theorem Ordered.start : Ordered fn items (start items : MapState T E R) where
  values := rfl
  draining _ h := by cases h

theorem Ordered.caller {s' : MapState T E R} (hmode : mode ≠ .raise) (hs : Inv items s)
    (hordered : Ordered fn items s) (hcond : InOrder fn s .caller)
    (h : CallerStep x mode fn s s') : s'.phase = .raised ∨ Ordered fn items s' := by
  have hvalues := hordered.values
  cases h with
  | submit item rest hphase hrest =>
    have hdrop : items.drop s.submitted = item :: rest := by rw [← hs.rest, hrest]
    refine Or.inr ⟨?_, fun done hat => ?_⟩
    · simp only [given_succ hdrop, List.filterMap_append, ← hvalues, List.append_assoc]
    · simp only [hphase] at hat
      cases hat
  | exhaust hphase =>
    refine Or.inr ⟨hvalues, fun done hat => ?_⟩
    simp only [hphase] at hat
    cases hat
  | checked done hphase =>
    refine Or.inr ⟨hvalues, fun done' hat => ?_⟩
    cases hat
    unfold InOrder at hcond
    rwa [hphase] at hcond
  | drain f done hphase =>
    obtain ⟨before, after, hsplit, herase, hdone, hbefore⟩ := hs.split hphase
    obtain ⟨-, hsubmitted, -, -, -, -, hpending, -⟩ := drain_frame mode fn s f done
    rw [herase] at hpending
    rcases drain_cases fn s f done hmode with
      ⟨-, hraised⟩ | ⟨-, hphase', -, hresults, -, -⟩
    · exact Or.inl hraised
    have hovertaking := hordered.draining _ hphase
    have hsorted := hs.sorted
    rw [hsplit, List.pairwise_append, List.pairwise_cons] at hsorted
    have hlater : ∀ g ∈ done, f.id < g.id := fun g hg => hsorted.2.1.1 g (hdone.subset hg)
    -- what is before a task with a result gives no result
    have hfront : (value fn f).isSome → before.filterMap (value fn) = [] := by
      intro hsome
      rw [List.filterMap_eq_nil_iff]
      intro g hg
      by_contra hne
      have hnone := hovertaking g (by rw [hsplit]; exact List.mem_append_left _ hg) f
        List.mem_cons_self (hbefore g hg) ?_ (Option.isSome_iff_ne_none.mpr hne)
      · rw [Option.isNone_iff_eq_none] at hnone
        rw [hnone] at hsome
        cases hsome
      · intro hmem
        rcases List.mem_cons.mp hmem with rfl | hmem
        · exact absurd (hbefore g hg) (Nat.lt_irrefl _)
        · have := hlater g hmem
          have := hbefore g hg
          omega
    refine Or.inr ⟨?_, fun done' hat => ?_⟩
    · rw [hresults, hpending, hsubmitted, ← hvalues, hsplit]
      simp only [List.filterMap_append, List.filterMap_cons, List.append_assoc]
      cases hvalue : value fn f with
      | none => rfl
      | some r =>
        rw [hfront (by rw [hvalue]; rfl)]
        rfl
    · rw [hphase'] at hat
      cases hat
      rw [hpending]
      intro g hg h hh hlt hnot
      have hgf : g ∈ s.pending := by
        rw [hsplit, List.mem_append, List.mem_cons]
        rw [List.mem_append] at hg
        tauto
      refine hovertaking g hgf h (List.mem_cons_of_mem f hh) hlt ?_
      intro hmem
      rcases List.mem_cons.mp hmem with rfl | hmem
      · rcases List.mem_append.mp hg with hg | hg
        · exact absurd (hbefore g hg) (Nat.lt_irrefl _)
        · exact absurd (hsorted.2.1.1 g hg) (Nat.lt_irrefl _)
      · exact hnot hmem
  | collect f pending hphase hsome =>
    have hphaseInv := hs.phase
    rw [MapState.PhaseInv, hphase] at hphaseInv
    rw [hphaseInv.1] at hsome
    cases hsome
  | _ => exact Or.inr ⟨hvalues, fun done hat => by cases hat⟩

theorem Ordered.step (hmode : mode ≠ .raise) (hs : Inv items s)
    (hordered : s.phase = .raised ∨ Ordered fn items s) {e : Event} (henabled : Enabled x s e)
    (hcond : InOrder fn s e) :
    (step x mode fn s e).phase = .raised ∨ Ordered fn items (step x mode fn s e) := by
  rcases hordered with hraised | hordered
  · exact Or.inl (phase_step_raised hraised e)
  cases e with
  | begin =>
    rw [step_begin]
    exact Or.inr ⟨hordered.values, hordered.draining⟩
  | finish id => exact Or.inr ⟨hordered.values, hordered.draining⟩
  | caller => exact hordered.caller hmode hs hcond (callerStep x mode fn s henabled)

/-- A task that gives a result has been overtaken by a later one. -/
inductive Overtaken (fn : T → Except (Raised E) R) (f g : Future T) (s : MapState T E R) :
    Prop where
  | during (done : List (Future T)) (hphase : s.phase = .draining done) (hf : f ∈ s.pending)
      (hg : g ∈ done) (hleft : f ∉ done)
  | after (hf : f ∈ s.pending) (b : R) (hb : value fn g = some b) (hg : b ∈ s.results)
  | collected (first last : List R) (hresults : s.results = first ++ last) (b : R)
      (hb : value fn g = some b) (hg : b ∈ first) (a : R) (ha : value fn f = some a) (hf : a ∈ last)
  | raised (hphase : s.phase = .raised)

/-- While no task is taken off the list, it stays so. -/
theorem Overtaken.quiet {f g : Future T} {s' : MapState T E R} (hover : Overtaken fn f g s)
    (hidle : ∀ done, s.phase = .draining done → done = []) (hlive : s.phase ≠ .raised)
    (hpending : f ∈ s.pending → f ∈ s'.pending) (hresults : s'.results = s.results) :
    Overtaken fn f g s' := by
  cases hover with
  | during done hat hmem hgmem =>
    rw [hidle done hat] at hgmem
    cases hgmem
  | after hmem b hb hbmem => exact .after (hpending hmem) b hb (hresults ▸ hbmem)
  | collected first last hparts b hb hbmem a ha hamem =>
    exact .collected first last (hresults.trans hparts) b hb hbmem a ha hamem
  | raised hat => exact absurd hat hlive

theorem Overtaken.caller {f g : Future T} {s' : MapState T E R} (hmode : mode ≠ .raise)
    (hs : Inv items s) (hf : (value fn f).isSome) (hg : (value fn g).isSome)
    (hover : Overtaken fn f g s) (h : CallerStep x mode fn s s') : Overtaken fn f g s' := by
  cases h with
  | drain k done hphase =>
    obtain ⟨before, after, hsplit, herase, hdone, hbefore⟩ := hs.split hphase
    obtain ⟨-, -, -, -, -, -, hpending, -⟩ := drain_frame mode fn s k done
    rw [herase] at hpending
    rcases drain_cases fn s k done hmode with
      ⟨-, hraised⟩ | ⟨-, hphase', -, hresults, -, -⟩
    · exact .raised hraised
    have hstays (hmem : f ∈ s.pending) (hne : f ≠ k) : f ∈ (s.drain mode fn k done).pending := by
      rw [hsplit, List.mem_append, List.mem_cons] at hmem
      rw [hpending, List.mem_append]
      tauto
    cases hover with
    | during done' hat hmem hgmem hleft =>
      rw [hphase] at hat
      cases hat
      have hne : f ≠ k := fun h => hleft (h ▸ List.mem_cons_self)
      rcases List.mem_cons.mp hgmem with rfl | hgmem
      · obtain ⟨b, hb⟩ := Option.isSome_iff_exists.mp hg
        refine .after (hstays hmem hne) b hb ?_
        rw [hresults, hb]
        exact List.mem_append_right _ List.mem_cons_self
      · exact .during done hphase' (hstays hmem hne) hgmem fun h =>
          hleft (List.mem_cons_of_mem k h)
    | after hmem b hb hbmem =>
      by_cases hfk : f = k
      · obtain ⟨a, ha⟩ := Option.isSome_iff_exists.mp hf
        refine .collected s.results [a] ?_ b hb hbmem a ha List.mem_cons_self
        rw [hresults, ← hfk, ha]
        rfl
      · refine .after (hstays hmem hfk) b hb ?_
        rw [hresults]
        exact List.mem_append_left _ hbmem
    | collected first last hparts b hb hbmem a ha hamem =>
      refine .collected first (last ++ (value fn k).toList) ?_ b hb hbmem a ha
        (List.mem_append_left _ hamem)
      rw [hresults, hparts, List.append_assoc]
    | raised hat =>
      rw [hphase] at hat
      cases hat
  | collect k pending hphase hsome =>
    have hphaseInv := hs.phase
    rw [MapState.PhaseInv, hphase] at hphaseInv
    rw [hphaseInv.1] at hsome
    cases hsome
  | submit item rest hphase hrest =>
    exact hover.quiet (by simp [hphase]) (by simp [hphase]) (List.mem_append_left _) rfl
  | check k unchecked done hphase =>
    exact hover.quiet (by simp [hphase]) (by simp [hphase]) id rfl
  | checked done hphase => exact hover.quiet (by simp [hphase]) (by simp [hphase]) id rfl
  | _ hphase => exact hover.quiet (by simp [hphase]) (by simp [hphase]) id rfl

theorem Overtaken.step {f g : Future T} (hmode : mode ≠ .raise) (hs : Inv items s)
    (hf : (value fn f).isSome) (hg : (value fn g).isSome) (hover : Overtaken fn f g s) {e : Event}
    (henabled : Enabled x s e) : Overtaken fn f g (step x mode fn s e) := by
  cases e with
  | caller => exact hover.caller hmode hs hf hg (callerStep x mode fn s henabled)
  | begin =>
    rw [step_begin]
    cases hover with
    | during done hat hmem hgmem hleft => exact .during done hat hmem hgmem hleft
    | after hmem b hb hbmem => exact .after hmem b hb hbmem
    | collected first last hparts b hb hbmem a ha hamem =>
      exact .collected first last hparts b hb hbmem a ha hamem
    | raised hat => exact .raised hat
  | finish id =>
    cases hover with
    | during done hat hmem hgmem hleft => exact .during done hat hmem hgmem hleft
    | after hmem b hb hbmem => exact .after hmem b hb hbmem
    | collected first last hparts b hb hbmem a ha hamem =>
      exact .collected first last hparts b hb hbmem a ha hamem
    | raised hat => exact .raised hat

/-- Some task has been overtaken by a later one. -/
def Damaged (fn : T → Except (Raised E) R) (items : List T) (s : MapState T E R) : Prop :=
  ∃ f ∈ futures items, ∃ g ∈ futures items, f.id < g.id ∧ (value fn f).isSome ∧
    (value fn g).isSome ∧ Overtaken fn f g s

theorem damaged_of_not_inOrder (hs : Inv items s) {e : Event} (hcond : ¬ InOrder fn s e) :
    Damaged fn items (Parallel.step x mode fn s e) := by
  cases e with
  | begin => exact absurd trivial hcond
  | finish id => exact absurd trivial hcond
  | caller =>
    simp only [InOrder] at hcond
    split at hcond
    case h_2 => exact absurd trivial hcond
    case h_1 done hphase =>
      have hsub := hs.phase
      simp only [MapState.PhaseInv, hphase, List.append_nil] at hsub
      unfold NoOvertaking at hcond
      push Not at hcond
      obtain ⟨f, hf, g, hg, hlt, hleft, hfsome, hgsome⟩ := hcond
      have hgiven (k : Future T) (hk : k ∈ s.pending) : k ∈ futures items :=
        List.mem_of_mem_take (hs.pending.subset hk)
      refine ⟨f, hgiven f hf, g, hgiven g (hsub.1.subset hg), hlt, hfsome, ?_, ?_⟩
      · rw [Option.isSome_iff_ne_none]
        exact fun h => hgsome (Option.isNone_iff_eq_none.mpr h)
      · refine .during done ?_ ?_ hg hleft
        · simp only [Parallel.step, MapState.caller, hphase]
        · simpa only [Parallel.step, MapState.caller, hphase] using hf

/-- What the tasks that do not raise give, in the order of the items. -/
theorem filterMap_futures (fn : T → Except (Raised E) R) (items : List T) :
    (futures items).filterMap (value fn) = items.filterMap fun item => (fn item).toOption := by
  conv_rhs => rw [← map_item_futures items, List.filterMap_map]
  rfl

/-- A task that was overtaken has its result after that of a later one. -/
theorem Overtaken.results_ne {f g : Future T}
    (hdistinct : (items.filterMap fun item => (fn item).toOption).Nodup) (hs : Inv items s)
    (hf : f ∈ futures items) (hg : g ∈ futures items) (hlt : f.id < g.id)
    (hover : Overtaken fn f g s) (hphase : s.phase = .returned) :
    s.results ≠ items.filterMap fun item => (fn item).toOption := by
  intro hresults
  have hempty : s.pending = [] := by
    have hphaseInv := hs.phase
    rw [MapState.PhaseInv, hphase] at hphaseInv
    exact hphaseInv.1
  rw [← filterMap_futures] at hresults hdistinct
  have hsorted : (futures items).Pairwise (·.id < ·.id) := by
    have := pairwise_given items items.length
    rwa [given_length] at this
  obtain ⟨before, after, hsplit, -, hbefore, -⟩ := exists_split hsorted hf
  have hgafter : g ∈ after := by
    rw [hsplit, List.mem_append, List.mem_cons] at hg
    rcases hg with hg | rfl | hg
    · have := hbefore g hg
      omega
    · omega
    · exact hg
  cases hover with
  | during done hat => simp [hphase] at hat
  | after hmem => simp [hempty] at hmem
  | raised hat => simp [hphase] at hat
  | collected first last hparts b hb hbmem a ha hamem =>
    have hbafter : b ∈ after.filterMap (value fn) := List.mem_filterMap.mpr ⟨g, hgafter, hb⟩
    rw [hsplit, List.filterMap_append, List.filterMap_cons, ha] at hresults hdistinct
    rw [hparts] at hresults
    rw [List.nodup_append, List.nodup_cons] at hdistinct
    obtain ⟨-, ⟨hanot, -⟩, hapart⟩ := hdistinct
    rcases List.append_eq_append_iff.mp hresults with ⟨c, hfront, hback⟩ | ⟨c, hfront, hback⟩
    · -- the later result is among those of the tasks before the overtaken one
      exact hapart b (by rw [hfront]; exact List.mem_append_left _ hbmem) b
        (List.mem_cons_of_mem _ hbafter) rfl
    · cases c with
      | nil =>
        rw [List.append_nil] at hfront
        exact hapart b (hfront ▸ hbmem) b (List.mem_cons_of_mem _ hbafter) rfl
      | cons a' c =>
        -- the result of the overtaken task is on both sides
        obtain ⟨-, hrest⟩ := List.cons.inj hback
        exact hanot (hrest ▸ List.mem_append_right _ hamem)

end Order

section Termination

variable {items : List T} {x : ParallelExecutor} {mode : ErrorMode}
  {fn : T → Except (Raised E) R} {s : MapState T E R}

/-- How far the caller is from the next task that goes off the list, for `n` items. -/
def Phase.rank (n : ℕ) : Phase T → ℕ
  | .filling => n + 4
  | .waiting => n + 3
  | .checking unchecked _ => unchecked.length + 2
  | .draining [] => n + 5
  | .draining (_ :: _) => 1
  | .remaining => 1
  | .returned => 0
  | .raised => 0

/-- How many steps there can still be, for `n` items. -/
def MapState.fuel (n : ℕ) (s : MapState T E R) : ℕ :=
  (n + 5) * (s.rest.length + s.pending.length) + 3 * s.rest.length + 2 * s.queue.length +
    s.running.length + (!s.exhausted).toNat + s.phase.rank n

theorem fuel_caller {s' : MapState T E R} (hs : Inv items s) (h : CallerStep x mode fn s s') :
    s'.fuel items.length < s.fuel items.length := by
  have hpending : s.pending.length ≤ items.length :=
    Nat.le_trans (Nat.le_trans hs.pending.length_le (List.length_take_le _ _)) hs.le
  have hphaseInv := hs.phase
  cases h with
  | submit item rest hphase hrest =>
    simp only [MapState.fuel, hrest, List.length_append, List.length_cons, List.length_nil]
    have hsum : rest.length + (s.pending.length + (0 + 1)) =
        rest.length + 1 + s.pending.length := by omega
    rw [hsum]
    omega
  | exhaust hphase hrest hmore =>
    simp only [MapState.fuel, hmore, Bool.not_true, Bool.not_false, Bool.toNat_false,
      Bool.toNat_true]
    omega
  | stop hphase | wait hphase | again hphase | last hphase | leave hphase =>
    simp only [MapState.fuel, hphase, Phase.rank]
    omega
  | wake hphase =>
    simp only [MapState.fuel, hphase, Phase.rank]
    omega
  | check f unchecked done hphase =>
    simp only [MapState.fuel, hphase, Phase.rank, List.length_cons]
    omega
  | checked done hphase =>
    -- at least one task was done, so the next step takes one off the list
    rw [MapState.PhaseInv, hphase] at hphaseInv
    cases done with
    | nil => simp at hphaseInv
    | cons f done =>
      simp only [MapState.fuel, hphase, Phase.rank, List.length_nil]
      omega
  | drain f done hphase =>
    obtain ⟨before, after, hsplit, herase, -, -⟩ := hs.split hphase
    obtain ⟨hrest, -, hexhausted, hqueue, hrunning, -, hpending', hphase'⟩ :=
      drain_frame mode fn s f done
    have hrank : (s.drain mode fn f done).phase.rank items.length ≤ items.length + 5 := by
      rcases hphase' with h | h <;> rw [h]
      · cases done <;> simp [Phase.rank]
      · simp [Phase.rank]
    have hfirst : s.phase.rank items.length = 1 := by rw [hphase, Phase.rank]
    simp only [MapState.fuel, hrest, hexhausted, hqueue, hrunning, hpending'.trans herase, hsplit,
      hfirst, List.length_append, List.length_cons]
    have hmul : (items.length + 5) * (s.rest.length + (before.length + (after.length + 1))) =
        (items.length + 5) * (s.rest.length + (before.length + after.length)) +
          (items.length + 5) := by
      rw [← Nat.mul_succ]
      congr 1
    rw [hmul]
    omega
  | collect f pending hphase hsome =>
    rw [MapState.PhaseInv, hphase] at hphaseInv
    rw [hphaseInv.1] at hsome
    cases hsome

/-- Every step leaves less to do. -/
theorem fuel_step (mode : ErrorMode) (fn : T → Except (Raised E) R) (hs : Inv items s) {e : Event}
    (henabled : Enabled x s e) :
    (step x mode fn s e).fuel items.length < s.fuel items.length := by
  cases e with
  | begin =>
    obtain ⟨hqueue, -⟩ := henabled
    rw [step_begin]
    cases hcases : s.queue with
    | nil => exact absurd hcases hqueue
    | cons id queue =>
      simp only [MapState.fuel, hcases, List.tail_cons, List.head?_cons, Option.toList_some,
        List.length_append, List.length_cons, List.length_nil]
      omega
  | finish id =>
    have hlength := List.length_erase_of_mem henabled
    have hpos := List.length_pos_of_mem henabled
    simp only [MapState.fuel, step]
    omega
  | caller => exact fuel_caller hs (callerStep x mode fn s henabled)

/-- No run has more steps than there were to do. -/
theorem length_add_fuel_le {es : List Event} (hs : Inv items s)
    (hrun : Meets (step x mode fn) (Enabled x) s es) :
    es.length + (exec (step x mode fn) s es).fuel items.length ≤ s.fuel items.length := by
  induction es generalizing s with
  | nil => simp
  | cons e es ih =>
    have hrest := ih (hs.step hrun.1) hrun.2
    have hfirst := fuel_step mode fn hs hrun.1
    rw [List.length_cons, exec_cons]
    omega

/-- Where nothing can happen any more, the caller has left `map`. -/
theorem Stuck.phase (hs : Inv items s) (hstuck : Stuck x s) :
    s.phase = .returned ∨ s.phase = .raised := by
  have hcaller : ¬ s.CallerEnabled := hstuck .caller
  have hphaseInv := hs.phase
  unfold MapState.CallerEnabled at hcaller
  unfold MapState.PhaseInv at hphaseInv
  cases hphase : s.phase with
  | waiting =>
    rw [hphase] at hcaller hphaseInv
    obtain ⟨f, hf⟩ := List.exists_mem_of_ne_nil _ hphaseInv
    -- the task is done, a worker is at it, or it is in the queue and some worker can go on
    have hidle : s.running = [] := by
      rw [List.eq_nil_iff_forall_not_mem]
      exact fun id hid => hstuck (.finish id) hid
    rcases hs.covered f hf with hqueue | hrunning | hfinished
    · refine absurd ⟨List.ne_nil_of_mem hqueue, ?_⟩ (hstuck .begin)
      have := x.one_le_maxWorkers
      rw [hidle, List.length_nil]
      omega
    · rw [hidle] at hrunning
      cases hrunning
    · exact absurd ⟨f, hf, hfinished⟩ hcaller
  | remaining =>
    rw [hphase] at hcaller hphaseInv
    rw [hphaseInv.1] at hcaller
    exact absurd (fun f hf => by cases hf) hcaller
  | returned => exact Or.inl rfl
  | raised => exact Or.inr rfl
  | _ =>
    rw [hphase] at hcaller
    exact absurd trivial hcaller

end Termination

section Calls

/-- The steps of a call of `map` until now. -/
def Calls (x : ParallelExecutor) (mode : ErrorMode) (fn : T → Except (Raised E) R)
    (items : List T) (es : List Event) : Prop :=
  Meets (step x mode fn) (Enabled x) (start items) es

/-- The state after the steps of a call. -/
def after (x : ParallelExecutor) (mode : ErrorMode) (fn : T → Except (Raised E) R)
    (items : List T) (es : List Event) : MapState T E R :=
  exec (step x mode fn) (start items) es

/-- No item escapes, and no task that gives a result is overtaken. -/
def Undisturbed (x : ParallelExecutor) (mode : ErrorMode) (fn : T → Except (Raised E) R)
    (items : List T) (es : List Event) : Prop :=
  (∀ item ∈ items, ¬ Escapes fn item) ∧ Meets (step x mode fn) (InOrder fn) (start items) es

/-- `map` has returned the results in the order of the items, and the report counts them. -/
structure Right (fn : T → Except (Raised E) R) (items : List T) (s : MapState T E R) : Prop where
  returned : s.phase = .returned
  results : s.results = items.filterMap fun item => (fn item).toOption
  total : s.report.total = items.length
  succeeded : s.report.succeeded = items.countP fun item => (fn item).toOption.isSome
  failed : s.report.failed = items.countP fun item => (fn item).toOption.isNone

variable {items : List T} {x : ParallelExecutor} {mode : ErrorMode}
  {fn : T → Except (Raised E) R} {s : MapState T E R} {es : List Event}

theorem Calls.inv (hcalls : Calls x mode fn items es) : Inv items (after x mode fn items es) :=
  exec_invariant_of_meets (Inv items) (fun _ _ hs henabled => hs.step henabled) (Inv.start items)
    hcalls

theorem Calls.accounted (hmode : mode ≠ .raise) (hcalls : Calls x mode fn items es) :
    (after x mode fn items es).phase = .raised ∨
      Accounted fn items (after x mode fn items es) :=
  (exec_invariant_of_meets
    (fun s => Inv items s ∧ (s.phase = .raised ∨ Accounted fn items s))
    (fun _ _ hs henabled => ⟨hs.1.step henabled, Accounted.step hmode hs.1 hs.2 henabled⟩)
    ⟨Inv.start items, Or.inr Accounted.start⟩ hcalls).2

/-- When `map` has returned, it has given all items to the pool. -/
theorem Inv.submitted_of_returned (hs : Inv items s) (hphase : s.phase = .returned) :
    s.pending = [] ∧ s.submitted = items.length := by
  have hphaseInv := hs.phase
  rw [MapState.PhaseInv, hphase] at hphaseInv
  refine ⟨hphaseInv.1, Nat.le_antisymm hs.le ?_⟩
  have hrest := hs.exhausted hphaseInv.2
  rw [hs.rest, List.drop_eq_nil_iff] at hrest
  exact hrest

/-- What is counted over the tasks is counted over the items. -/
theorem countP_futures (p : Option R → Bool) :
    (futures items).countP (fun f => p (value fn f)) =
      items.countP fun item => p (fn item).toOption := by
  conv_rhs => rw [← map_item_futures items, List.countP_map]
  rfl

/-- A call that is not disturbed returns what it should. -/
theorem right_of_undisturbed (hmode : mode ≠ .raise) (hcalls : Calls x mode fn items es)
    (hstuck : Stuck x (after x mode fn items es)) (h : Undisturbed x mode fn items es) :
    Right fn items (after x mode fn items es) := by
  have hrun := exec_invariant_of_meets
    (fun s => Inv items s ∧ s.phase ≠ .raised ∧ (s.phase = .raised ∨ Ordered fn items s))
    (fun s e hs henv => ⟨hs.1.step henv.1, phase_step_ne_raised hmode h.1 hs.1 hs.2.1 henv.1,
      Ordered.step hmode hs.1 hs.2.2 henv.1 henv.2⟩)
    ⟨Inv.start items, by simp [start], Or.inr Ordered.start⟩ (meets_and_iff.mpr ⟨hcalls, h.2⟩)
  change Inv items (after x mode fn items es) ∧ (after x mode fn items es).phase ≠ .raised ∧
    ((after x mode fn items es).phase = .raised ∨ Ordered fn items (after x mode fn items es))
    at hrun
  obtain ⟨hinv, hphase, hordered⟩ := hrun
  have hreturned := (hstuck.phase hinv).resolve_right hphase
  obtain ⟨hempty, hsubmitted⟩ := hinv.submitted_of_returned hreturned
  have hvalues := (hordered.resolve_left hphase).values
  have hacc := (hcalls.accounted hmode).resolve_left hphase
  have htotal := hacc.total
  have hsucceeded := hacc.succeeded
  have hfailed := hacc.failed
  rw [hempty, hsubmitted] at hvalues htotal hsucceeded hfailed
  rw [given_length] at hvalues hsucceeded hfailed
  refine ⟨hreturned, ?_, htotal, ?_, ?_⟩
  · rw [filterMap_futures] at hvalues
    simpa using hvalues
  · rw [countP_futures Option.isSome] at hsucceeded
    exact hsucceeded
  · rw [countP_futures Option.isNone] at hfailed
    exact hfailed

/-- If the results are all different, only a call that is not disturbed returns what it should. -/
theorem undisturbed_of_right (hmode : mode ≠ .raise)
    (hdistinct : (items.filterMap fun item => (fn item).toOption).Nodup)
    (hcalls : Calls x mode fn items es) (h : Right fn items (after x mode fn items es)) :
    Undisturbed x mode fn items es := by
  have hphase := h.returned
  obtain ⟨hempty, hsubmitted⟩ := hcalls.inv.submitted_of_returned hphase
  have hacc := (hcalls.accounted hmode).resolve_left (by simp [hphase])
  constructor
  · intro item hitem
    rw [← map_item_futures items] at hitem
    obtain ⟨f, hf, rfl⟩ := List.mem_map.mp hitem
    have hkept := hacc.kept f (by rwa [hsubmitted, given_length])
    rw [hempty] at hkept
    exact hkept.resolve_left (by simp)
  · by_contra hmeets
    have hdamaged : Inv items (after x mode fn items es) ∧
        Damaged fn items (after x mode fn items es) :=
      damaged_of_not_meets_env (Inv items) (fun s => Inv items s ∧ Damaged fn items s) (Enabled x)
        (fun _ _ hs henabled => hs.step henabled)
        (fun _ _ hs henabled hcond => ⟨hs.step henabled, damaged_of_not_inOrder hs hcond⟩)
        (fun _ _ hs henabled hdamaged => by
          obtain ⟨-, f, hf, g, hg, hlt, hfsome, hgsome, hover⟩ := hdamaged
          exact ⟨hs.step henabled, f, hf, g, hg, hlt, hfsome, hgsome,
            hover.step hmode hs hfsome hgsome henabled⟩)
        (Inv.start items) hcalls hmeets
    obtain ⟨hinv, f, hf, g, hg, hlt, -, -, hover⟩ := hdamaged
    exact hover.results_ne hdistinct hinv hf hg hlt hphase h.results

/-- The chunks of `map_chunks`. A step of zero is an error of `range`, and with a negative one
there are none. -/
def chunks (chunkSize : ℤ) (items : List T) : Option (List (List T)) :=
  if chunkSize = 0 then none
  else
    let cs := chunkSize.toNat
    some ((List.range ((items.length + cs - 1) / cs)).map fun i => (items.drop (i * cs)).take cs)

/-- What `map_chunks` makes of the results of its chunks. -/
def flat (s : MapState (List T) E (List R)) : List R := s.results.flatten

theorem flatten_slices (items : List T) (cs n : ℕ) :
    ((List.range n).map fun i => (items.drop (i * cs)).take cs).flatten = items.take (n * cs) := by
  induction n with
  | zero => simp
  | succ n ih =>
    rw [List.range_succ, List.map_append, List.flatten_append, ih, Nat.succ_mul, List.take_add]
    simp

/-- The chunks have all items, in their order. -/
theorem flatten_chunks {chunkSize : ℤ} (hpos : 0 < chunkSize) {parts : List (List T)}
    (hparts : chunks chunkSize items = some parts) : parts.flatten = items := by
  unfold chunks at hparts
  rw [if_neg (by omega)] at hparts
  cases hparts
  rw [flatten_slices]
  refine List.take_of_length_le ?_
  have hcs : 0 < chunkSize.toNat := by omega
  have hdiv := Nat.div_add_mod (items.length + chunkSize.toNat - 1) chunkSize.toNat
  have hmod := Nat.mod_lt (items.length + chunkSize.toNat - 1) hcs
  rw [Nat.mul_comm]
  omega

end Calls

/-- Every call of `map` comes to an end. If no item raises out of it and no task that gives a
result is overtaken, it returns the results in the order of the items and counts them rightly;
if the results are all different, it does so only then. `map_chunks` then returns the results of
its chunks one after another. -/
theorem map_right_iff (x : ParallelExecutor) (mode : ErrorMode) (hmode : mode ≠ .raise)
    (fn : T → Except (Raised E) R) (items : List T) (es : List Event)
    (hcalls : Calls x mode fn items es) :
    es.length ≤ items.length ^ 2 + 9 * items.length + 5 ∧
    (Stuck x (after x mode fn items es) →
      ((after x mode fn items es).phase = .returned ∨
        (after x mode fn items es).phase = .raised) ∧
      (Undisturbed x mode fn items es → Right fn items (after x mode fn items es)) ∧
      ((items.filterMap fun item => (fn item).toOption).Nodup →
        Right fn items (after x mode fn items es) → Undisturbed x mode fn items es)) ∧
    ∀ (chunkSize : ℤ) (fn' : List T → Except (Raised E) (List R)) (parts : List (List T))
      (es' : List Event), chunks chunkSize items = some parts → Calls x mode fn' parts es' →
      Stuck x (after x mode fn' parts es') → Undisturbed x mode fn' parts es' →
      flat (after x mode fn' parts es') =
        (parts.filterMap fun part => (fn' part).toOption).flatten ∧
      (0 < chunkSize → parts.flatten = items) := by
  refine ⟨?_, fun hstuck => ⟨hstuck.phase hcalls.inv, right_of_undisturbed hmode hcalls hstuck,
    fun hdistinct h => undisturbed_of_right hmode hdistinct hcalls h⟩, ?_⟩
  · have hlength := length_add_fuel_le (Inv.start items) hcalls
    have hfuel : (start items : MapState T E R).fuel items.length =
        items.length ^ 2 + 9 * items.length + 5 := by
      simp only [MapState.fuel, start, Phase.rank, List.length_nil, Bool.not_false,
        Bool.toNat_true]
      ring
    omega
  · intro chunkSize fn' parts es' hparts hcalls' hstuck' h
    refine ⟨?_, fun hpos => flatten_chunks hpos hparts⟩
    unfold flat
    rw [(right_of_undisturbed hmode hcalls' hstuck' h).results]

theorem Stuck.of_idle {x : ParallelExecutor} {s : MapState T E R} (hqueue : s.queue = [])
    (hrunning : s.running = []) (hcaller : ¬ s.CallerEnabled) : Stuck x s := by
  intro e
  cases e with
  | begin => exact fun h => h.1 hqueue
  | finish id => simp [Enabled, hrunning]
  | caller => exact hcaller

/-- Two workers and room for two tasks. -/
def twoWorkers : ParallelExecutor where
  maxWorkers := 2
  one_le_maxWorkers := by decide
  maxPending := 2

/-- Two items are given to the pool, and one of the tasks is done before the other. -/
def oneFirst (first second : ℕ) : List Event :=
  [.caller, .caller, .begin, .begin, .caller, .finish first, .caller, .caller, .caller, .caller,
    .caller, .caller, .caller, .caller, .finish second, .caller, .caller, .caller, .caller, .caller,
    .caller]

/-- A task that gives its item back. -/
def echo (n : ℕ) : Except (Raised Unit) ℕ := .ok n

theorem map_right_firstFirst :
    Right echo [7, 8] (after twoWorkers .collect echo [7, 8] (oneFirst 0 1)) := by
  have h := map_right_iff twoWorkers .collect (by decide) echo [7, 8] (oneFirst 0 1)
    (by unfold Calls; decide)
  refine (h.2.1 (Stuck.of_idle rfl rfl (by decide))).2.1 ⟨?_, by decide⟩
  intro item _ h
  exact h

/-- The second task is done before the first one, and its result comes first. -/
theorem map_right_secondFirst :
    Calls twoWorkers .collect echo [7, 8] (oneFirst 1 0) ∧
      Stuck twoWorkers (after twoWorkers .collect echo [7, 8] (oneFirst 1 0)) ∧
      (after twoWorkers .collect echo [7, 8] (oneFirst 1 0)).results = [8, 7] ∧
      ¬ Right echo [7, 8] (after twoWorkers .collect echo [7, 8] (oneFirst 1 0)) := by
  have hresults : (after twoWorkers .collect echo [7, 8] (oneFirst 1 0)).results = [8, 7] := by
    decide
  refine ⟨by unfold Calls; decide, Stuck.of_idle rfl rfl (by decide), hresults, fun h => ?_⟩
  have hright := h.results
  rw [hresults] at hright
  exact absurd hright (by decide)

end LedgerLens.Ingestion.Parallel
