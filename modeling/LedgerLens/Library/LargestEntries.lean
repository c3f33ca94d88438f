import Mathlib.Algebra.BigOperators.Ring.Finset
import Mathlib.Algebra.Order.BigOperators.Group.Finset
import Mathlib.Algebra.Order.Field.Basic
import Mathlib.Data.Fintype.Pi
import Mathlib.Tactic.FieldSimp
import Mathlib.Tactic.Ring

/-!
# The largest entries of a vector

A set of indices is largest if no entry outside of it exceeds an entry inside. The entries outside
then have no more than their share of the sum. A vector that keeps its largest entries and is zero
elsewhere is close to the original one.
-/

namespace LargestEntries

open Finset

variable {ι K : Type*} [DecidableEq ι]

/-- Write some values at some indices, one after the other. -/
def assign (xs : ι → K) (entries : List (ι × K)) : ι → K :=
  entries.foldl (fun xs entry => Function.update xs entry.1 entry.2) xs

/-- An entry at whose index nothing is written stays. -/
theorem assign_of_notMem (xs : ι → K) {entries : List (ι × K)} {i : ι}
    (hi : i ∉ entries.map Prod.fst) : assign xs entries i = xs i := by
  induction entries generalizing xs with
  | nil => rfl
  | cons entry entries ih =>
    rw [List.map_cons, List.mem_cons, not_or] at hi
    exact (ih _ hi.2).trans (Function.update_of_ne hi.1 _ _)

/-- If every index is written once, what is written is there. -/
theorem assign_of_mem (xs : ι → K) {entries : List (ι × K)} {i : ι} {x : K}
    (hnodup : (entries.map Prod.fst).Nodup) (hi : (i, x) ∈ entries) : assign xs entries i = x := by
  induction entries generalizing xs with
  | nil => cases hi
  | cons entry entries ih =>
    rw [List.map_cons, List.nodup_cons] at hnodup
    obtain rfl | hi := List.mem_cons.mp hi
    · exact (assign_of_notMem _ hnodup.1).trans (Function.update_self _ _ _)
    · exact ih _ hnodup.2 hi

variable [Fintype ι]

/-- No value outside of the set exceeds one inside. -/
def IsLargest [LE K] (f : ι → K) (s : Finset ι) : Prop := ∀ i ∈ s, ∀ j ∉ s, f j ≤ f i

section Shares

variable [Field K] [LinearOrder K] [IsStrictOrderedRing K] {f : ι → K} {s : Finset ι}

/-- The values outside compare to those inside as their numbers. -/
theorem IsLargest.card_mul_sum_compl_le (h : IsLargest f s) :
    (s.card : K) * ∑ j ∈ sᶜ, f j ≤ (sᶜ.card : K) * ∑ i ∈ s, f i := by
  have houtside : ∀ i ∈ s, ∑ j ∈ sᶜ, f j ≤ (sᶜ.card : K) * f i := by
    intro i hi
    have hle := sum_le_card_nsmul sᶜ f (f i) fun j hj => h i hi j (mem_compl.mp hj)
    rwa [nsmul_eq_mul] at hle
  have hsum := sum_le_sum houtside
  rwa [sum_const, nsmul_eq_mul, ← mul_sum] at hsum

/-- The values outside have no more than their share of the sum. -/
theorem IsLargest.sum_compl_le (h : IsLargest f s) [Nonempty ι] :
    ∑ j ∈ sᶜ, f j ≤ (1 - (s.card : K) / Fintype.card ι) * ∑ i, f i := by
  have hcompare := h.card_mul_sum_compl_le
  have hn : (0 : K) < Fintype.card ι := by exact_mod_cast Fintype.card_pos
  have hcard : (sᶜ.card : K) = Fintype.card ι - s.card := by
    rw [card_compl, Nat.cast_sub (card_le_univ s)]
  have htotal : ∑ i, f i = ∑ i ∈ s, f i + ∑ j ∈ sᶜ, f j := (sum_add_sum_compl s f).symm
  rw [hcard] at hcompare
  rw [htotal, ← sub_nonneg]
  have hshare : (1 - (s.card : K) / Fintype.card ι) * (∑ i ∈ s, f i + ∑ j ∈ sᶜ, f j) -
      ∑ j ∈ sᶜ, f j =
        ((Fintype.card ι - s.card) * ∑ i ∈ s, f i - s.card * ∑ j ∈ sᶜ, f j) / Fintype.card ι := by
    field_simp
    ring
  rw [hshare]
  exact div_nonneg (sub_nonneg.mpr hcompare) hn.le

/-- A vector that keeps the entries of largest magnitude and is zero elsewhere: the square of what
is missing. -/
theorem IsLargest.sum_sq_sub_le [Nonempty ι] {corrected kept : ι → K}
    (h : IsLargest (fun i => |corrected i|) s) (hin : ∀ i ∈ s, kept i = corrected i)
    (hout : ∀ i ∉ s, kept i = 0) :
    ∑ i, (corrected i - kept i) ^ 2 ≤
      (1 - (s.card : K) / Fintype.card ι) * ∑ i, corrected i ^ 2 := by
  have hsquares : IsLargest (fun i => corrected i ^ 2) s := by
    intro i hi j hj
    exact sq_le_sq.mpr (h i hi j hj)
  have hmissing : ∑ i, (corrected i - kept i) ^ 2 = ∑ j ∈ sᶜ, corrected j ^ 2 := by
    rw [← sum_add_sum_compl s]
    have hzero : ∑ i ∈ s, (corrected i - kept i) ^ 2 = 0 := by
      refine sum_eq_zero fun i hi => ?_
      rw [hin i hi, sub_self, zero_pow two_ne_zero]
    rw [hzero, zero_add]
    refine sum_congr rfl fun j hj => ?_
    rw [hout j (mem_compl.mp hj), sub_zero]
  rw [hmissing]
  exact hsquares.sum_compl_le

end Shares

end LargestEntries
