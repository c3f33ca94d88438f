import LedgerLens.Library.TrimmedMean
import Mathlib.Algebra.Order.Monoid.WithTop

/-!
# Order statistics

The entries of a list in their order. At least `i + 1` entries are at most the entry of rank `i`,
and all but `i` are at least it, so that some entries which may be anything cannot move it out of
the range of the others. Of values that are not negative, the least ones add up to zero exactly
if there are so many zeros.
-/

namespace OrderStatistics

open TrimmedMean

section Ranks

variable {K : Type*} [LinearOrder K] {xs sorted bad honest : List K} {y : K} {i k : ℕ}

/-- The entries up to a rank are at most the entry of this rank. -/
theorem lt_countP_le (hsorted : sorted.Pairwise (· ≤ ·)) (hi : i < sorted.length) :
    i < sorted.countP fun x => x ≤ sorted[i] := by
  have htake : ∀ x ∈ sorted.take (i + 1), x ≤ sorted[i] := by
    intro x hx
    obtain ⟨j, hj, rfl⟩ := List.mem_iff_getElem.mp hx
    rw [List.length_take] at hj
    rw [List.getElem_take]
    obtain hlt | rfl : j < i ∨ j = i := by omega
    · exact List.pairwise_iff_getElem.mp hsorted j i _ hi hlt
    · exact le_rfl
  have hcount : (sorted.take (i + 1)).countP (fun x => x ≤ sorted[i]) = i + 1 := by
    rw [List.countP_eq_length.mpr (by simpa using htake), List.length_take]
    omega
  have hle := (List.take_sublist (i + 1) sorted).countP_le (p := fun x => decide (x ≤ sorted[i]))
  omega

/-- The entries from a rank on are at least the entry of this rank. -/
theorem length_le_countP_ge (hsorted : sorted.Pairwise (· ≤ ·)) (hi : i < sorted.length) :
    sorted.length ≤ i + sorted.countP fun x => sorted[i] ≤ x := by
  have hdrop : ∀ x ∈ sorted.drop i, sorted[i] ≤ x := by
    intro x hx
    obtain ⟨j, hj, rfl⟩ := List.mem_iff_getElem.mp hx
    rw [List.length_drop] at hj
    rw [List.getElem_drop]
    obtain hlt | hzero : i < i + j ∨ j = 0 := by omega
    · exact List.pairwise_iff_getElem.mp hsorted i (i + j) hi _ hlt
    · subst hzero
      exact le_rfl
  have hcount : (sorted.drop i).countP (fun x => sorted[i] ≤ x) = sorted.length - i := by
    rw [List.countP_eq_length.mpr (by simpa using hdrop), List.length_drop]
  have hle := (List.drop_sublist i sorted).countP_le (p := fun x => decide (sorted[i] ≤ x))
  omega

/-- If some entries may be anything, an entry of a rank that is at least their number from both
ends lies between the others. -/
theorem between_of_rank (hperm : xs.Perm (bad ++ honest))
    (hi : i < (xs.insertionSort (· ≤ ·)).length) (hlow : bad.length ≤ i)
    (hhigh : i + bad.length < xs.length) :
    Between honest (xs.insertionSort (· ≤ ·))[i] := by
  have hsort := List.perm_insertionSort (· ≤ ·) xs
  have hsorted := List.pairwise_insertionSort (· ≤ ·) xs
  have hlower := lt_countP_le hsorted hi
  have hupper := length_le_countP_ge hsorted hi
  rw [(hsort.trans hperm).countP_eq, List.countP_append] at hlower hupper
  rw [List.length_insertionSort] at hupper
  have hbad := List.countP_le_length (l := bad)
    (p := fun x => decide (x ≤ (xs.insertionSort (· ≤ ·))[i]))
  have hbad' := List.countP_le_length (l := bad)
    (p := fun x => decide ((xs.insertionSort (· ≤ ·))[i] ≤ x))
  obtain ⟨a, ha, hle⟩ := List.countP_pos_iff.mp
    (show 0 < honest.countP fun x => decide (x ≤ (xs.insertionSort (· ≤ ·))[i]) by omega)
  obtain ⟨b, hb, hge⟩ := List.countP_pos_iff.mp
    (show 0 < honest.countP fun x => decide ((xs.insertionSort (· ≤ ·))[i] ≤ x) by omega)
  exact ⟨⟨a, ha, by simpa using hle⟩, b, hb, by simpa using hge⟩

/-- The sorted list without its first and its last `k` entries. -/
def inner (k : ℕ) (xs : List K) : List K :=
  ((xs.insertionSort (· ≤ ·)).take (xs.length - k)).drop k

@[simp] theorem length_inner (k : ℕ) (xs : List K) : (inner k xs).length = xs.length - k - k := by
  unfold inner
  rw [List.length_drop, List.length_take, List.length_insertionSort]
  omega

/-- If up to `k` entries may be anything, an inner entry lies between the others. -/
theorem between_of_mem_inner (hperm : xs.Perm (bad ++ honest)) (hbad : bad.length ≤ k)
    (hy : y ∈ inner k xs) : Between honest y := by
  unfold inner at hy
  obtain ⟨j, hj, rfl⟩ := List.mem_iff_getElem.mp hy
  rw [List.length_drop, List.length_take, List.length_insertionSort] at hj
  rw [List.getElem_drop, List.getElem_take]
  exact between_of_rank hperm (by rw [List.length_insertionSort]; omega) (by omega) (by omega)

end Ranks

/-- If what meets a condition comes first in a list, it is as many places from the start as it is
counted. -/
theorem iff_lt_countP {α : Type*} {p : α → Bool} {l : List α} {i : ℕ} {x : α}
    (hfirst : l.Pairwise fun a b => p b = true → p a = true) (hx : l[i]? = some x) :
    p x = true ↔ i < l.countP p := by
  induction l generalizing i with
  | nil => cases hx
  | cons a l ih =>
    obtain ⟨ha, hrest⟩ := List.pairwise_cons.mp hfirst
    have hnone : p a = false → l.countP p = 0 := by
      intro hfalse
      refine List.countP_eq_zero.mpr fun b hb hpb => ?_
      rw [ha b hb hpb] at hfalse
      cases hfalse
    cases i with
    | zero =>
      obtain rfl : a = x := Option.some.inj hx
      cases hp : p a with
      | true => simp [hp]
      | false => simp [hp, hnone hp]
    | succ i =>
      have hiff := ih hrest hx
      cases hp : p a with
      | true =>
        rw [List.countP_cons_of_pos hp, hiff]
        omega
      | false =>
        rw [hnone hp] at hiff
        rw [List.countP_cons_of_neg (by simp [hp]), hiff, hnone hp]
        omega

section Least

variable {M : Type*} [AddCommMonoid M] [LinearOrder M] [IsOrderedAddMonoid M] {xs : List M} {k : ℕ}

omit [IsOrderedAddMonoid M] in
/-- Of values in order that are not negative, the first ones are zero exactly if there are so
many zeros. -/
theorem forall_mem_take_eq_zero_iff {sorted : List M} (hsorted : sorted.Pairwise (· ≤ ·))
    (hnonneg : ∀ x ∈ sorted, 0 ≤ x) (hk : k ≤ sorted.length) :
    (∀ x ∈ sorted.take k, x = 0) ↔ k ≤ sorted.count 0 := by
  constructor
  · intro hzero
    have hcount : (sorted.take k).count 0 = k := by
      rw [List.count_eq_length.mpr fun x hx => (hzero x hx).symm, List.length_take]
      omega
    rw [← hcount]
    exact (List.take_sublist k sorted).count_le 0
  · intro hcount x hx
    by_contra hne
    obtain ⟨i, hi, rfl⟩ := List.mem_iff_getElem.mp hx
    rw [List.length_take] at hi
    rw [List.getElem_take] at hne
    have hpos : 0 < sorted[i] := lt_of_le_of_ne (hnonneg _ (List.getElem_mem _)) (Ne.symm hne)
    have hupper := length_le_countP_ge hsorted (show i < sorted.length by omega)
    -- The zeros are not among the entries from this one on.
    have hsplit := sorted.length_eq_countP_add_countP (p := fun x => decide (sorted[i] ≤ x))
    have hzeros : sorted.count 0 ≤
        sorted.countP fun x => decide ¬decide (sorted[i] ≤ x) = true := by
      unfold List.count
      refine List.countP_mono_left fun x _ hx0 => ?_
      obtain rfl : x = 0 := by simpa using hx0
      simpa using hpos
    omega

/-- The `k` least values add up to zero exactly if there are `k` zeros. -/
theorem sum_least_eq_zero_iff (hnonneg : ∀ x ∈ xs, 0 ≤ x) (hk : k ≤ xs.length) :
    ((xs.insertionSort (· ≤ ·)).take k).sum = 0 ↔ k ≤ xs.count 0 := by
  have hperm := List.perm_insertionSort (· ≤ ·) xs
  have hsorted := List.pairwise_insertionSort (· ≤ ·) xs
  have hnonneg' : ∀ x ∈ xs.insertionSort (· ≤ ·), 0 ≤ x := fun x hx =>
    hnonneg x (hperm.mem_iff.mp hx)
  rw [← hperm.count_eq, ← forall_mem_take_eq_zero_iff hsorted hnonneg' (by rwa [hperm.length_eq])]
  constructor
  · intro hsum x hx
    exact List.all_zero_of_le_zero_le_of_sum_eq_zero
      (fun y hy => hnonneg' y (List.mem_of_mem_take hy)) hsum hx
  · exact List.sum_eq_zero

/-- Sums of values that are not negative. -/
theorem sum_least_nonneg (hnonneg : ∀ x ∈ xs, 0 ≤ x) :
    0 ≤ ((xs.insertionSort (· ≤ ·)).take k).sum := by
  refine List.sum_nonneg fun x hx => hnonneg x ?_
  exact (List.perm_insertionSort (· ≤ ·) xs).mem_iff.mp (List.mem_of_mem_take hx)

end Least

end OrderStatistics
