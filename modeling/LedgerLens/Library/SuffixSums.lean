import Mathlib.Algebra.BigOperators.Group.List.Basic
import Mathlib.Algebra.Order.Group.Defs
import Mathlib.Data.List.Infix

/-!
# The greatest suffix sum

A sum that is set back to zero whenever it falls below zero is the greatest sum of a suffix of what
was added, the empty suffix included. So it reaches a positive bound exactly when the sum of some
suffix that is not empty does.
-/

namespace SuffixSums

variable {K : Type*} [AddCommGroup K] [LinearOrder K] [IsOrderedAddMonoid K]

/-- The running sum that is never below zero. -/
def climb (xs : List K) : K := xs.foldl (fun s x => max 0 (s + x)) 0

omit [IsOrderedAddMonoid K] in
@[simp] theorem climb_nil : climb ([] : List K) = 0 := rfl

omit [IsOrderedAddMonoid K] in
@[simp] theorem climb_concat (xs : List K) (x : K) :
    climb (xs ++ [x]) = max 0 (climb xs + x) := by
  simp [climb]

omit [IsOrderedAddMonoid K] in
theorem climb_nonneg (xs : List K) : 0 ≤ climb xs := by
  induction xs using List.reverseRecOn with
  | nil => exact le_refl 0
  | append_singleton xs x ih =>
    rw [climb_concat]
    exact le_max_left _ _

omit [IsOrderedAddMonoid K] in
/-- The running sum is the sum of a suffix. -/
theorem exists_suffix_sum_eq (xs : List K) : ∃ ys, ys <:+ xs ∧ ys.sum = climb xs := by
  induction xs using List.reverseRecOn with
  | nil => exact ⟨[], List.suffix_rfl, rfl⟩
  | append_singleton xs x ih =>
    obtain ⟨ys, hys, hsum⟩ := ih
    rw [climb_concat]
    obtain hzero | hclimb := max_choice 0 (climb xs + x)
    · exact ⟨[], List.nil_suffix, hzero.symm⟩
    · refine ⟨ys ++ [x], List.suffix_concat_iff.mpr (.inr ⟨ys, rfl, hys⟩), ?_⟩
      rw [hclimb, List.sum_append, hsum, List.sum_singleton]

/-- No suffix has a greater sum. -/
theorem sum_le_climb {ys xs : List K} (h : ys <:+ xs) : ys.sum ≤ climb xs := by
  induction xs using List.reverseRecOn generalizing ys with
  | nil =>
    rw [List.suffix_nil.mp h]
    exact le_refl 0
  | append_singleton xs x ih =>
    rw [climb_concat]
    obtain rfl | ⟨zs, rfl, hzs⟩ := List.suffix_concat_iff.mp h
    · exact le_max_left _ _
    · rw [List.sum_append, List.sum_singleton]
      exact le_max_of_le_right (add_le_add_left (ih hzs) x)

/-- The running sum reaches a positive bound exactly when a suffix that is not empty does. -/
theorem le_climb_iff {h : K} (hpos : 0 < h) (xs : List K) :
    h ≤ climb xs ↔ ∃ ys, ys ≠ [] ∧ ys <:+ xs ∧ h ≤ ys.sum := by
  constructor
  · intro hle
    obtain ⟨ys, hys, hsum⟩ := exists_suffix_sum_eq xs
    refine ⟨ys, ?_, hys, hsum ▸ hle⟩
    rintro rfl
    rw [List.sum_nil] at hsum
    exact absurd (hsum ▸ hle) (not_le.mpr hpos)
  · rintro ⟨ys, -, hys, hle⟩
    exact hle.trans (sum_le_climb hys)

end SuffixSums
