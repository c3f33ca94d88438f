import LedgerLens.Ingestion.ParallelExecutor
import Mathlib.Data.List.Perm.Subperm

/-!
# What a call of the parallel executor comes to

The tasks of a call can be done in any order, and the results come in that order. What the results
are, what the report says and whether the call raises does not depend on it. Neither does the bound
on the work that is under way.
-/

namespace LedgerLens.Ingestion.Parallel

open Transition

variable {T E R : Type}

section Settled

/-- The item makes the call raise. In the mode `raise` every exception does. -/
def Stops (mode : ErrorMode) (fn : T → Except (Raised E) R) (item : T) : Prop :=
  match mode with
  | .raise => (fn item).toOption = none
  | _ => Escapes fn item

/-- What the report lists for a task. -/
def noted (mode : ErrorMode) (fn : T → Except (Raised E) R) (f : Future T) :
    Option (TaskError T E) :=
  match mode, fn f.item with
  | .collect, .error e => some ⟨f.item, e⟩
  | _, _ => none

variable {items : List T} {x : ParallelExecutor} {mode : ErrorMode}
  {fn : T → Except (Raised E) R} {s : MapState T E R}

/-- What a drained task does, in each mode. -/
theorem drain_effect (mode : ErrorMode) (fn : T → Except (Raised E) R) (s : MapState T E R)
    (f : Future T) (done : List (Future T)) :
    (s.drain mode fn f done).report.total = s.report.total + 1 ∧
    (s.drain mode fn f done).results = s.results ++ (value fn f).toList ∧
    ((Stops mode fn f.item ∧ (s.drain mode fn f done).phase = .raised) ∨
    (¬ Stops mode fn f.item ∧ (s.drain mode fn f done).phase = .draining done ∧
      (s.drain mode fn f done).report.failed =
        s.report.failed + (if (value fn f).isNone then 1 else 0) ∧
      (s.drain mode fn f done).report.errors =
        s.report.errors ++ (noted mode fn f).toList)) := by
  unfold MapState.drain value Stops noted Escapes
  cases hfn : fn f.item with
  | ok r =>
    refine ⟨rfl, rfl, Or.inr ?_⟩
    cases mode <;> exact ⟨by simp [Except.toOption], rfl, rfl, (List.append_nil _).symm⟩
  | error e =>
    cases e with
    | timeout e =>
      refine ⟨rfl, (List.append_nil _).symm, Or.inl ?_⟩
      cases mode <;> exact ⟨by simp [Except.toOption], rfl⟩
    | other e =>
      refine ⟨rfl, (List.append_nil _).symm, Or.inl ?_⟩
      cases mode <;> exact ⟨by simp [Except.toOption], rfl⟩
    | exception e =>
      cases mode with
      | raise => exact ⟨rfl, (List.append_nil _).symm, Or.inl ⟨rfl, rfl⟩⟩
      | collect => exact ⟨rfl, (List.append_nil _).symm, Or.inr ⟨by simp, rfl, rfl, rfl⟩⟩
      | ignore =>
        exact ⟨rfl, (List.append_nil _).symm,
          Or.inr ⟨by simp, rfl, rfl, (List.append_nil _).symm⟩⟩

/-- The tasks off the list are accounted for, in whatever order they went. -/
structure Settled (mode : ErrorMode) (fn : T → Except (Raised E) R) (items : List T)
    (s : MapState T E R) : Prop where
  total : s.report.total + s.pending.length = s.submitted
  results : (s.results ++ s.pending.filterMap (value fn)).Perm
    ((given items s.submitted).filterMap (value fn))
  failed : s.phase = .raised ∨ s.report.failed + s.pending.countP (fun f => (value fn f).isNone) =
    (given items s.submitted).countP fun f => (value fn f).isNone
  errors : s.phase = .raised ∨ (s.report.errors ++ s.pending.filterMap (noted mode fn)).Perm
    ((given items s.submitted).filterMap (noted mode fn))
  kept : s.phase = .raised ∨ ∀ f ∈ given items s.submitted, f ∈ s.pending ∨ ¬ Stops mode fn f.item
  raised : s.phase = .raised → ∃ f ∈ given items s.submitted, Stops mode fn f.item

theorem Settled.start : Settled mode fn items (start items : MapState T E R) where
  total := rfl
  results := .refl _
  failed := Or.inr rfl
  errors := Or.inr (.refl _)
  kept := Or.inr fun _ hf => by cases hf
  raised h := by cases h

/-- What comes off the list of tasks and goes to the results is still there. -/
theorem perm_move {A B : Type} (g : A → Option B) (front : List B) (before after : List A) (f : A) :
    (front ++ (g f).toList ++ (before ++ after).filterMap g).Perm
      (front ++ (before ++ f :: after).filterMap g) := by
  rw [List.append_assoc]
  refine List.Perm.append_left front ?_
  cases hf : g f with
  | none => simp [hf]
  | some b =>
    simp only [Option.toList_some, List.filterMap_append, List.filterMap_cons, hf,
      List.singleton_append]
    exact List.perm_middle.symm

/-- The caller goes on to something else. -/
theorem Settled.move (hacc : Settled mode fn items s) (hlive : s.phase ≠ .raised) (phase : Phase T)
    (hphase : phase ≠ .raised) : Settled mode fn items { s with phase := phase } where
  total := hacc.total
  results := hacc.results
  failed := Or.inr (hacc.failed.resolve_left hlive)
  errors := Or.inr (hacc.errors.resolve_left hlive)
  kept := Or.inr (hacc.kept.resolve_left hlive)
  raised h := absurd h hphase

/-- One step of the caller keeps the account. -/
theorem Settled.caller {s' : MapState T E R} (hs : Inv items s) (hacc : Settled mode fn items s)
    (h : CallerStep x mode fn s s') : Settled mode fn items s' := by
  cases h with
  | submit item rest hphase hrest =>
    have hdrop : items.drop s.submitted = item :: rest := by rw [← hs.rest, hrest]
    have hlive : ¬ s.phase = .raised := by rw [hphase]; simp
    refine ⟨?_, ?_, Or.inr ?_, Or.inr ?_, Or.inr ?_, fun h => absurd h hlive⟩
    · have htotal := hacc.total
      simp only [List.length_append, List.length_singleton]
      omega
    · simp only [given_succ hdrop, List.filterMap_append, ← List.append_assoc]
      exact hacc.results.append_right _
    · have hfailed := hacc.failed.resolve_left hlive
      simp only [given_succ hdrop, List.countP_append]
      omega
    · simp only [given_succ hdrop, List.filterMap_append, ← List.append_assoc]
      exact (hacc.errors.resolve_left hlive).append_right _
    · rw [given_succ hdrop]
      intro f hf
      rcases List.mem_append.mp hf with hf | hf
      · exact (hacc.kept.resolve_left hlive f hf).imp_left fun h => List.mem_append_left _ h
      · exact Or.inl (List.mem_append_right _ hf)
  | drain f done hphase =>
    have hlive : ¬ s.phase = .raised := by rw [hphase]; simp
    obtain ⟨before, after, hsplit, herase, -, -⟩ := hs.split hphase
    obtain ⟨-, hsubmitted, -, -, -, -, hpending, -⟩ := drain_frame mode fn s f done
    obtain ⟨htotal, hresults, heffect⟩ := drain_effect mode fn s f done
    rw [herase] at hpending
    have hgiven : f ∈ given items s.submitted := hs.pending.subset (by simp [hsplit])
    have hperm : ((s.drain mode fn f done).results ++
        (s.drain mode fn f done).pending.filterMap (value fn)).Perm
          ((given items (s.drain mode fn f done).submitted).filterMap (value fn)) := by
      rw [hresults, hpending, hsubmitted]
      refine (perm_move (value fn) s.results before after f).trans ?_
      rw [← hsplit]
      exact hacc.results
    have hsum : (s.drain mode fn f done).report.total + (s.drain mode fn f done).pending.length =
        (s.drain mode fn f done).submitted := by
      rw [htotal, hpending, hsubmitted, ← hacc.total, hsplit]
      simp only [List.length_append, List.length_cons]
      omega
    rcases heffect with ⟨hstops, hraised⟩ | ⟨hstops, hphase', hfailed, herrors⟩
    · refine ⟨hsum, hperm, Or.inl hraised, Or.inl hraised, Or.inl hraised, fun _ => ?_⟩
      rw [hsubmitted]
      exact ⟨f, hgiven, hstops⟩
    · refine ⟨hsum, hperm, Or.inr ?_, Or.inr ?_, Or.inr ?_, fun h => ?_⟩
      · rw [hfailed, hpending, hsubmitted, ← hacc.failed.resolve_left hlive, hsplit]
        simp only [List.countP_append, List.countP_cons]
        omega
      · rw [herrors, hpending, hsubmitted]
        refine (perm_move (noted mode fn) s.report.errors before after f).trans ?_
        rw [← hsplit]
        exact hacc.errors.resolve_left hlive
      · rw [hsubmitted, hpending]
        intro g hg
        rcases hacc.kept.resolve_left hlive g hg with h | h
        · rw [hsplit, List.mem_append, List.mem_cons] at h
          rcases h with h | rfl | h
          · exact Or.inl (List.mem_append_left _ h)
          · exact Or.inr hstops
          · exact Or.inl (List.mem_append_right _ h)
        · exact Or.inr h
      · rw [hphase'] at h
        cases h
  | collect f pending hphase hsome =>
    -- the loop has left no task under way
    have hphaseInv := hs.phase
    rw [MapState.PhaseInv, hphase] at hphaseInv
    rw [hphaseInv.1] at hsome
    cases hsome
  | exhaust hphase =>
    exact ⟨hacc.total, hacc.results, hacc.failed, hacc.errors, hacc.kept, hacc.raised⟩
  | check f unchecked done hphase =>
    exact hacc.move (by simp [hphase]) _ (by simp)
  | checked done hphase => exact hacc.move (by simp [hphase]) _ (by simp)
  | _ hphase => exact hacc.move (by simp [hphase]) _ (by simp)

theorem Settled.step (hs : Inv items s) (hacc : Settled mode fn items s) {e : Event}
    (henabled : Enabled x s e) : Settled mode fn items (step x mode fn s e) := by
  cases e with
  | begin =>
    rw [step_begin]
    exact ⟨hacc.total, hacc.results, hacc.failed, hacc.errors, hacc.kept, hacc.raised⟩
  | finish id =>
    exact ⟨hacc.total, hacc.results, hacc.failed, hacc.errors, hacc.kept, hacc.raised⟩
  | caller => exact hacc.caller hs (callerStep x mode fn s henabled)

theorem Calls.settled {es : List Event} (hcalls : Calls x mode fn items es) :
    Settled mode fn items (after x mode fn items es) :=
  (exec_invariant_of_meets (fun s => Inv items s ∧ Settled mode fn items s)
    (fun _ _ hs henabled => ⟨hs.1.step henabled, hs.2.step hs.1 henabled⟩)
    ⟨Inv.start items, Settled.start⟩ hcalls).2

/-- `map` has returned one result for every item that does not fail, and the report is right. -/
structure Complete (mode : ErrorMode) (fn : T → Except (Raised E) R) (items : List T)
    (s : MapState T E R) : Prop where
  results : s.results.Perm (items.filterMap fun item => (fn item).toOption)
  total : s.report.total = items.length
  failed : s.report.failed = items.countP fun item => (fn item).toOption.isNone
  errors : s.report.errors.Perm ((futures items).filterMap (noted mode fn))

/-- A call that has returned has done all its work. -/
theorem Settled.complete (hs : Inv items s) (hacc : Settled mode fn items s)
    (hphase : s.phase = .returned) :
    Complete mode fn items s ∧ ∀ item ∈ items, ¬ Stops mode fn item := by
  have hlive : ¬ s.phase = .raised := by rw [hphase]; simp
  obtain ⟨hempty, hsubmitted⟩ := hs.submitted_of_returned hphase
  have hresults := hacc.results
  have htotal := hacc.total
  have hfailed := hacc.failed.resolve_left hlive
  have herrors := hacc.errors.resolve_left hlive
  rw [hempty, hsubmitted] at hresults htotal hfailed herrors
  rw [given_length] at hresults hfailed herrors
  rw [filterMap_futures, List.filterMap_nil, List.append_nil] at hresults
  rw [countP_futures Option.isNone] at hfailed
  rw [List.filterMap_nil, List.append_nil] at herrors
  refine ⟨⟨hresults, htotal, hfailed, herrors⟩, fun item hitem => ?_⟩
  rw [← map_item_futures items] at hitem
  obtain ⟨f, hf, rfl⟩ := List.mem_map.mp hitem
  have hkept := hacc.kept.resolve_left hlive f (by rwa [hsubmitted, given_length])
  rw [hempty] at hkept
  exact hkept.resolve_left (by simp)

end Settled

section Bounded

variable {items : List T} {x : ParallelExecutor} {mode : ErrorMode}
  {fn : T → Except (Raised E) R} {s : MapState T E R}

/-- The tasks that the caller has found done. -/
def MapState.found (s : MapState T E R) : List (Future T) :=
  match s.phase with
  | .checking _ done => done
  | .draining done => done
  | _ => []

/-- What bounds the work that is under way. -/
structure Bounded (x : ParallelExecutor) (s : MapState T E R) : Prop where
  pending : 0 < x.maxPending → (s.pending.length : ℤ) ≤ x.maxPending
  running : s.running.length ≤ x.maxWorkers
  /-- The pool has every task once: in the queue, with a worker, or done. -/
  once : (s.queue ++ s.running ++ s.finished).Perm (List.range s.submitted)
  /-- The caller waits for every task that is not done. -/
  awaited : ∀ id, id ∈ s.queue ∨ id ∈ s.running → id ∈ s.pending.map Future.id
  found : ∀ f ∈ s.found, f.id ∈ s.finished

theorem Bounded.start : Bounded x (start items : MapState T E R) where
  pending h := by simp only [Parallel.start, List.length_nil]; omega
  running := Nat.zero_le _
  once := .refl _
  awaited id h := by simp [Parallel.start] at h
  found f hf := by simp [Parallel.start, MapState.found] at hf

theorem Bounded.nodup (hs : Bounded x s) : (s.queue ++ s.running ++ s.finished).Nodup :=
  hs.once.nodup_iff.mpr List.nodup_range

/-- Only a task that is done goes off the list. -/
theorem Bounded.drain {f : Future T} {done : List (Future T)} (hs : Inv items s)
    (hb : Bounded x s) (hphase : s.phase = .draining (f :: done)) :
    Bounded x (s.drain mode fn f done) := by
  obtain ⟨before, after, hsplit, herase, -, -⟩ := hs.split hphase
  obtain ⟨-, hsubmitted, -, hqueue, hrunning, hfinished, hpending, hphase'⟩ :=
    drain_frame mode fn s f done
  rw [herase] at hpending
  have hfound : s.found = f :: done := by rw [MapState.found, hphase]
  have hdone : f.id ∈ s.finished := hb.found f (by simp [hfound])
  have hnot : f.id ∉ s.queue ∧ f.id ∉ s.running := by
    have hnodup := hb.nodup
    rw [List.nodup_append] at hnodup
    have hapart := hnodup.2.2
    constructor
    · exact fun h => hapart f.id (List.mem_append_left _ h) f.id hdone rfl
    · exact fun h => hapart f.id (List.mem_append_right _ h) f.id hdone rfl
  refine ⟨fun h => ?_, ?_, ?_, ?_, ?_⟩
  · have hlength := hb.pending h
    rw [hsplit] at hlength
    rw [hpending]
    simp only [List.length_append, List.length_cons] at hlength ⊢
    omega
  · rw [hrunning]
    exact hb.running
  · rw [hqueue, hrunning, hfinished, hsubmitted]
    exact hb.once
  · rw [hqueue, hrunning, hpending]
    intro id hid
    have hne : id ≠ f.id := by
      rintro rfl
      exact hid.elim hnot.1 hnot.2
    have hmem := hb.awaited id hid
    rw [hsplit] at hmem
    simp only [List.map_append, List.map_cons, List.mem_append, List.mem_cons] at hmem ⊢
    tauto
  · rw [hfinished]
    rcases hphase' with h | h
    · rw [MapState.found, h]
      exact fun g hg => hb.found g (by simp [hfound, hg])
    · rw [MapState.found, h]
      simp

theorem Bounded.caller {s' : MapState T E R} (hs : Inv items s) (hb : Bounded x s)
    (h : CallerStep x mode fn s s')
    (hroom : s'.submitted ≠ s.submitted → 0 < x.maxPending →
      (s.pending.length : ℤ) < x.maxPending) : Bounded x s' := by
  cases h with
  | submit item rest hphase hrest =>
    refine ⟨fun h => ?_, hb.running, ?_, fun id hid => ?_, fun f hf => ?_⟩
    · have := hroom (by simp) h
      simp only [List.length_append, List.length_singleton]
      omega
    · rw [List.range_succ]
      have honce := hb.once
      rw [List.append_assoc] at honce
      simp only [List.append_assoc, List.singleton_append]
      exact (List.perm_middle.trans (honce.cons _)).trans (List.perm_append_singleton _ _).symm
    · simp only [List.mem_append, List.mem_singleton, List.map_append, List.map_cons,
        List.map_nil] at hid ⊢
      have := hb.awaited id
      tauto
    · simp [MapState.found, hphase] at hf
  | drain f done hphase => exact hb.drain hs hphase
  | collect f pending hphase hsome =>
    have hphaseInv := hs.phase
    rw [MapState.PhaseInv, hphase] at hphaseInv
    rw [hphaseInv.1] at hsome
    cases hsome
  | check f unchecked done hphase =>
    refine ⟨hb.pending, hb.running, hb.once, hb.awaited, fun g hg => ?_⟩
    have hfound : s.found = done := by rw [MapState.found, hphase]
    simp only [MapState.found] at hg
    split_ifs at hg with hdone
    · rcases List.mem_append.mp hg with hg | hg
      · exact hb.found g (by rwa [hfound])
      · rwa [List.mem_singleton.mp hg]
    · exact hb.found g (by rwa [hfound])
  | checked done hphase =>
    refine ⟨hb.pending, hb.running, hb.once, hb.awaited, fun g hg => ?_⟩
    exact hb.found g (by rwa [MapState.found, hphase])
  | exhaust hphase =>
    refine ⟨hb.pending, hb.running, hb.once, hb.awaited, fun g hg => ?_⟩
    simp [MapState.found, hphase] at hg
  | _ => exact ⟨hb.pending, hb.running, hb.once, hb.awaited, by simp [MapState.found]⟩

/-- A task is given to the pool only if there is room for it. -/
theorem room_of_submitted {s : MapState T E R}
    (h : (s.caller x mode fn).submitted ≠ s.submitted) (hpos : 0 < x.maxPending) :
    (s.pending.length : ℤ) < x.maxPending := by
  have hframe (f : Future T) (done : List (Future T)) :
      (s.drain mode fn f done).submitted = s.submitted := (drain_frame mode fn s f done).2.1
  unfold MapState.caller at h
  split at h
  case h_1 =>
    unfold MapState.fill at h
    split_ifs at h with hfill hempty
    · omega
    · exact absurd rfl h
    · exact absurd rfl h
  case h_5 => split_ifs at h <;> exact absurd rfl h
  case h_6 => exact absurd (hframe _ _) h
  case h_7 =>
    split at h
    · exact absurd rfl h
    · revert h
      unfold MapState.collect MapState.remove MapState.succeed MapState.fail
      cases fn _ with
      | ok r => simp
      | error e => cases e <;> cases mode <;> simp
  all_goals exact absurd rfl h

theorem Bounded.step (hs : Inv items s) (hb : Bounded x s) {e : Event}
    (henabled : Enabled x s e) : Bounded x (step x mode fn s e) := by
  cases e with
  | begin =>
    obtain ⟨hsome, hidle⟩ := henabled
    cases hqueue : s.queue with
    | nil => exact absurd hqueue hsome
    | cons id queue =>
      have honce := hb.once
      have hawaited := hb.awaited
      rw [hqueue] at honce hawaited
      simp only [Parallel.step, hqueue]
      refine ⟨hb.pending, ?_, ?_, fun id' hid => ?_, hb.found⟩
      · simp only [List.length_append, List.length_singleton]
        omega
      · refine List.Perm.trans ?_ honce
        simp only [List.append_assoc, List.cons_append]
        rw [← List.append_assoc]
        refine List.perm_middle.trans ?_
        simp
      · refine hawaited id' ?_
        simp only [List.mem_append, List.mem_cons] at hid ⊢
        tauto
  | finish id =>
    refine ⟨hb.pending, ?_, ?_, fun id' hid => ?_, fun f hf => ?_⟩
    · exact Nat.le_trans (List.erase_sublist.length_le) hb.running
    · refine List.Perm.trans ?_ hb.once
      simp only [Parallel.step, List.append_assoc]
      refine List.Perm.append_left _ ?_
      refine (List.perm_append_comm.append_left _).trans ?_
      rw [← List.append_assoc]
      refine List.Perm.append_right _ ?_
      exact (List.perm_append_singleton id _).trans (List.perm_cons_erase henabled).symm
    · exact hb.awaited id' (hid.imp_right List.mem_of_mem_erase)
    · exact List.mem_append_left _ (hb.found f hf)
  | caller =>
    exact hb.caller hs (callerStep x mode fn s henabled) room_of_submitted

theorem Calls.bounded {es : List Event} (hcalls : Calls x mode fn items es) :
    Bounded x (after x mode fn items es) :=
  (exec_invariant_of_meets (fun s => Inv items s ∧ Bounded x s)
    (fun _ _ hs henabled => ⟨hs.1.step henabled, hs.2.step hs.1 henabled⟩)
    ⟨Inv.start items, Bounded.start⟩ hcalls).2

/-- What the pool has not done yet is on the list of the caller. -/
theorem Bounded.unfinished_le (hb : Bounded x s) :
    s.queue.length + s.running.length ≤ s.pending.length := by
  have hnodup : (s.queue ++ s.running).Nodup := (List.nodup_append.mp hb.nodup).1
  have hsub : (s.queue ++ s.running) ⊆ s.pending.map Future.id := fun id hid =>
    hb.awaited id (List.mem_append.mp hid)
  have hlength := (hnodup.subperm hsub).length_le
  rwa [List.length_append, List.length_map] at hlength

end Bounded

/-- What is under way is bounded. -/
structure Paced (x : ParallelExecutor) (items : List T) (s : MapState T E R) : Prop where
  /-- The pool has each task that it was given once: in its queue, with a worker, or done. -/
  once : (s.queue ++ s.running ++ s.finished).Perm (List.range s.submitted)
  running : s.running.length ≤ x.maxWorkers
  awaited : s.queue.length + s.running.length ≤ s.pending.length
  pending : 0 < x.maxPending → (s.pending.length : ℤ) ≤ x.maxPending
  /-- How far the caller gets ahead in the items. -/
  taken : 0 < x.maxPending → (items.length - s.rest.length : ℤ) ≤ s.report.total + x.maxPending

end LedgerLens.Ingestion.Parallel
