import Mathlib.Data.Fintype.Defs
import Mathlib.Data.Set.Function
import LedgerLens.Library.Runs

/-!
# Interleavings of processes over shared state

Any number of processes run one program over a shared state. A process has a local
state, and one atomic step of the program reads and writes the shared state and the
process's own local state. An event names the process that moves and the choice the
environment makes for that step. The rules below lift what one step does to its own
process to statements about all processes: nobody, somebody, at most one.
-/

namespace Interleaving

variable {ι Act Shared Local : Type*} [DecidableEq ι]

/-- The shared state and the local state of every process. -/
structure Config (ι Shared Local : Type*) where
  /-- What all processes read and write. -/
  shared : Shared
  /-- Where each process stands in its program. -/
  locals : ι → Local

/-- One atomic step of the process that the event names. -/
def stepAt (prog : Act → Shared → Local → Shared × Local) (c : Config ι Shared Local)
    (e : ι × Act) : Config ι Shared Local :=
  ⟨(prog e.2 c.shared (c.locals e.1)).1,
    Function.update c.locals e.1 (prog e.2 c.shared (c.locals e.1)).2⟩

variable {prog : Act → Shared → Local → Shared × Local} {P : Local → Prop}
  {c : Config ι Shared Local} {e : ι × Act}

@[simp] theorem stepAt_shared :
    (stepAt prog c e).shared = (prog e.2 c.shared (c.locals e.1)).1 := rfl

@[simp] theorem stepAt_locals_self :
    (stepAt prog c e).locals e.1 = (prog e.2 c.shared (c.locals e.1)).2 := by
  simp [stepAt]

/-- A step leaves the local states of the other processes alone. -/
theorem stepAt_locals_ne {j : ι} (hj : j ≠ e.1) : (stepAt prog c e).locals j = c.locals j := by
  simp [stepAt, hj]

/-- At most one process is in a local state satisfying `P`. -/
def AtMostOne (P : Local → Prop) (c : Config ι Shared Local) : Prop :=
  ∀ i j, P (c.locals i) → P (c.locals j) → i = j

instance decidableAtMostOne [Fintype ι] [DecidablePred P] (c : Config ι Shared Local) :
    Decidable (AtMostOne P c) :=
  inferInstanceAs (Decidable (∀ i j, P (c.locals i) → P (c.locals j) → i = j))

/-- What holds of every process still does when it holds of the one that moved. -/
theorem forall_stepAt (h : ∀ j, P (c.locals j))
    (hmoved : P (prog e.2 c.shared (c.locals e.1)).2) (j : ι) : P ((stepAt prog c e).locals j) := by
  by_cases hj : j = e.1
  · subst hj
    simpa using hmoved
  · rw [stepAt_locals_ne hj]
    exact h j

/-- Some process stays in `P` when the one that moves does not leave it. -/
theorem exists_stepAt (h : ∃ j, P (c.locals j))
    (hstay : P (c.locals e.1) → P (prog e.2 c.shared (c.locals e.1)).2) :
    ∃ j, P ((stepAt prog c e).locals j) := by
  obtain ⟨j, hj⟩ := h
  by_cases hje : j = e.1
  · subst hje
    exact ⟨e.1, by simpa using hstay hj⟩
  · exact ⟨j, by rwa [stepAt_locals_ne hje]⟩

/-- At most one process stays in `P` when the one that moves was already there, or
does not enter it, or finds nobody there. -/
theorem atMostOne_stepAt (h : AtMostOne P c)
    (henter : P (prog e.2 c.shared (c.locals e.1)).2 →
      P (c.locals e.1) ∨ ∀ j, ¬P (c.locals j)) : AtMostOne P (stepAt prog c e) := by
  have hback : ∀ j, P ((stepAt prog c e).locals j) → j = e.1 ∨ P (c.locals j) := by
    intro j hj
    by_cases hje : j = e.1
    · exact Or.inl hje
    · rw [stepAt_locals_ne hje] at hj
      exact Or.inr hj
  have hmover : ∀ j, j ≠ e.1 → P ((stepAt prog c e).locals j) →
      ¬P ((stepAt prog c e).locals e.1) := by
    intro j hje hj hmoved
    rw [stepAt_locals_ne hje] at hj
    rw [stepAt_locals_self] at hmoved
    rcases henter hmoved with hself | hnobody
    · exact hje (h j e.1 hj hself)
    · exact hnobody j hj
  intro i j hi hj
  by_cases hie : i = e.1
  · by_cases hje : j = e.1
    · rw [hie, hje]
    · exact absurd (hie ▸ hi) (hmover j hje hj)
  · by_cases hje : j = e.1
    · exact absurd (hje ▸ hj) (hmover i hie hi)
    · exact h i j ((hback i hi).resolve_left hie) ((hback j hj).resolve_left hje)

/-- Two different processes are in `P` once a process enters it while another one
is already there. -/
theorem not_atMostOne_stepAt {i : ι} (hi : P (c.locals i)) (hie : i ≠ e.1)
    (henters : P (prog e.2 c.shared (c.locals e.1)).2) : ¬AtMostOne P (stepAt prog c e) := by
  intro h
  apply hie
  apply h i e.1
  · rwa [stepAt_locals_ne hie]
  · rwa [stepAt_locals_self]

end Interleaving
