import Mathlib.Algebra.Order.Floor.Ring
import Mathlib.Data.List.FinRange
import Mathlib.Data.List.GetD
import Mathlib.Data.List.Perm.Basic
import Mathlib.Data.List.Sort
import Mathlib.Tactic.Linarith

/-!
# Quantiles with linear interpolation

The quantile of a list at a fraction is read off the sorted list at a place that need not be
whole, by interpolation between the two entries around it (`numpy.quantile`). The second part
counts the entries of a list that are at most the quantile of the others, and says exactly
when so and so many are: which it is, one reads off the sorted list.
-/

namespace Quantile

variable {K : Type*} [Field K] [LinearOrder K] [IsStrictOrderedRing K] [FloorRing K]

/-- The value at a place of a sorted list, between the entries around it. -/
def interpolate (sorted : List K) (place : K) : K :=
  let previous := sorted.getD ⌊place⌋₊ 0
  let next := sorted.getD (min (⌊place⌋₊ + 1) (sorted.length - 1)) 0
  previous + (next - previous) * Int.fract place

/-- The quantile of a list at a fraction. -/
def quantile (xs : List K) (fraction : K) : K :=
  interpolate (xs.insertionSort (· ≤ ·)) (fraction * (xs.length - 1 : ℕ))

/-- How many entries are at most the quantile of the others. -/
def coveredByOthers (fraction : K) (xs : List K) : ℕ :=
  (List.finRange xs.length).countP fun i : Fin xs.length =>
    xs.get i ≤ quantile (xs.eraseIdx i) fraction

/-- An entry of the sorted list is at most the quantile of the others: it stands before the
place of the quantile; or right after it, and interpolation reaches it; or it equals the entry
at the place. -/
def Reached (sorted : List K) (place : K) (k : ℕ) : Prop :=
  k ≤ ⌊place⌋₊ ∨
  k = ⌊place⌋₊ + 1 ∧ sorted.getD k 0 ≤ sorted.getD ⌊place⌋₊ 0 +
    (sorted.getD (⌊place⌋₊ + 2) 0 - sorted.getD ⌊place⌋₊ 0) * Int.fract place ∨
  ⌊place⌋₊ + 2 ≤ k ∧ sorted.getD k 0 ≤ sorted.getD ⌊place⌋₊ 0

instance decidableReached (sorted : List K) (place : K) (k : ℕ) :
    Decidable (Reached sorted place k) :=
  inferInstanceAs (Decidable (_ ∨ _))

variable {xs ys : List K} {fraction place : K}

/-! ## Order does not matter -/

omit [IsStrictOrderedRing K] in
/-- The quantile does not depend on the order of the list. -/
theorem quantile_perm (h : xs.Perm ys) : quantile xs fraction = quantile ys fraction := by
  have hsorted : xs.insertionSort (· ≤ ·) = ys.insertionSort (· ≤ ·) := by
    refine List.Perm.eq_of_pairwise' (r := (· ≤ ·)) ?_ ?_ ?_
    · exact List.pairwise_insertionSort _ xs
    · exact List.pairwise_insertionSort _ ys
    · exact ((List.perm_insertionSort _ xs).trans h).trans (List.perm_insertionSort _ ys).symm
  unfold quantile
  rw [hsorted, h.length_eq]

omit [IsStrictOrderedRing K] in
/-- A count over places is a count over entries. -/
theorem coveredByOthers_eq_countP (fraction : K) (xs : List K) :
    coveredByOthers fraction xs = xs.countP fun v => v ≤ quantile (xs.erase v) fraction := by
  have hplace : ∀ i : Fin xs.length,
      quantile (xs.eraseIdx i) fraction = quantile (xs.erase (xs.get i)) fraction := by
    intro i
    apply quantile_perm
    have hone := List.getElem_cons_eraseIdx_perm i.isLt
    have htwo := List.perm_cons_erase (List.getElem_mem i.isLt)
    exact (hone.trans htwo).cons_inv
  have hmap : (List.finRange xs.length).map xs.get = xs := by
    rw [← List.ofFn_eq_map, List.ofFn_get]
  unfold coveredByOthers
  simp only [hplace]
  calc (List.finRange xs.length).countP
        (fun i : Fin xs.length => xs.get i ≤ quantile (xs.erase (xs.get i)) fraction)
      = ((List.finRange xs.length).map xs.get).countP
          fun v => v ≤ quantile (xs.erase v) fraction := by
        rw [List.countP_map]
        rfl
    _ = xs.countP fun v => v ≤ quantile (xs.erase v) fraction := by rw [hmap]

omit [IsStrictOrderedRing K] in
/-- Nor does the count. -/
theorem coveredByOthers_perm (h : xs.Perm ys) :
    coveredByOthers fraction xs = coveredByOthers fraction ys := by
  rw [coveredByOthers_eq_countP, coveredByOthers_eq_countP, h.countP_eq]
  refine List.countP_congr fun v _ => ?_
  rw [quantile_perm (h.erase v)]

/-! ## A sorted list -/

omit [Field K] [IsStrictOrderedRing K] [FloorRing K] in
/-- Of places where a condition holds up to some place, more than `k` are counted exactly when
it holds at place `k`. -/
theorem lt_countP_finRange_iff {n : ℕ} {p : Fin n → Bool}
    (hanti : ∀ a b, a ≤ b → p b = true → p a = true) (k : Fin n) :
    k < (List.finRange n).countP p ↔ p k = true := by
  induction n with
  | zero => exact k.elim0
  | succ n ih =>
    have hinit := ih (p := fun i : Fin n => p i.castSucc) fun a b hab => hanti _ _ hab
    have hcount : (List.finRange (n + 1)).countP p =
        (List.finRange n).countP (fun i => p i.castSucc) + if p (Fin.last n) then 1 else 0 := by
      rw [List.finRange_succ_last, List.countP_append, List.countP_map, List.countP_singleton]
      rfl
    have hlength : (List.finRange n).countP (fun i => p i.castSucc) ≤ n := by
      have hle := List.countP_le_length (p := fun i : Fin n => p i.castSucc) (l := List.finRange n)
      rwa [List.length_finRange] at hle
    rw [hcount]
    induction k using Fin.lastCases with
    | last =>
      constructor
      · intro hlt
        by_contra hlast
        rw [if_neg hlast, Fin.val_last] at hlt
        omega
      · intro hlast
        rw [if_pos hlast, Fin.val_last]
        by_cases hn : n = 0
        · omega
        · have hbefore := (hinit ⟨n - 1, by omega⟩).mpr
            (hanti _ _ (Fin.le_last _) hlast)
          simp only at hbefore
          omega
    | cast k =>
      rw [Fin.val_castSucc, ← hinit k]
      by_cases hlast : p (Fin.last n) = true
      · have hk := (hinit k).mpr (hanti _ _ (Fin.le_last _) hlast)
        rw [if_pos hlast]
        omega
      · rw [if_neg hlast]
        omega

variable {sorted : List K}

omit [IsStrictOrderedRing K] [FloorRing K] in
/-- The entries of a sorted list grow. -/
theorem getD_mono (hsorted : sorted.Pairwise (· ≤ ·)) {a b : ℕ} (hab : a ≤ b)
    (hb : b < sorted.length) : sorted.getD a 0 ≤ sorted.getD b 0 := by
  rw [List.getD_eq_getElem _ _ hb, List.getD_eq_getElem _ _ (by omega)]
  rcases Nat.lt_or_eq_of_le hab with hlt | heq
  · exact List.pairwise_iff_getElem.mp hsorted a b (by omega) hb hlt
  · subst heq
    exact le_refl _

omit [LinearOrder K] [IsStrictOrderedRing K] [FloorRing K] in
/-- Behind an entry that is left out, the others move up. -/
theorem getD_eraseIdx (sorted : List K) (k i : ℕ) :
    (sorted.eraseIdx k).getD i 0 = if i < k then sorted.getD i 0 else sorted.getD (i + 1) 0 := by
  simp only [List.getD_eq_getElem?_getD, List.getElem?_eraseIdx]
  split <;> rfl

/-- Interpolation stays between an entry and the next, or is at the last entry. -/
theorem interpolate_eq (hplace : 0 ≤ place) (hle : place ≤ (sorted.length - 1 : ℕ)) :
    interpolate sorted place = sorted.getD ⌊place⌋₊ 0 +
      (sorted.getD (⌊place⌋₊ + 1) 0 - sorted.getD ⌊place⌋₊ 0) * Int.fract place ∧
    ⌊place⌋₊ ≤ sorted.length - 1 ∧
    (⌊place⌋₊ = sorted.length - 1 → Int.fract place = 0) := by
  have hfloor := Nat.floor_le_of_le hle
  have hlast : ⌊place⌋₊ = sorted.length - 1 → Int.fract place = 0 := by
    intro heq
    have hplace' : place = (⌊place⌋₊ : K) := by
      refine le_antisymm ?_ (Nat.floor_le hplace)
      rw [heq]
      exact hle
    rw [hplace', Int.fract_natCast]
  refine ⟨?_, hfloor, hlast⟩
  unfold interpolate
  rcases Nat.lt_or_eq_of_le hfloor with hlt | heq
  · rw [min_eq_left (by omega : ⌊place⌋₊ + 1 ≤ sorted.length - 1)]
  · simp only [hlast heq, mul_zero]

/-- An entry of a sorted list is at most the interpolated value of the others exactly when it
is reached. -/
theorem le_interpolate_eraseIdx_iff (hsorted : sorted.Pairwise (· ≤ ·)) {k : ℕ}
    (hk : k < sorted.length) (hplace : 0 ≤ place) (hle : place ≤ (sorted.length - 2 : ℕ))
    (hlength : 2 ≤ sorted.length) :
    sorted.getD k 0 ≤ interpolate (sorted.eraseIdx k) place ↔ Reached sorted place k := by
  have herase : (sorted.eraseIdx k).length - 1 = sorted.length - 2 := by
    rw [List.length_eraseIdx_of_lt hk]
    omega
  have hle' : place ≤ ((sorted.eraseIdx k).length - 1 : ℕ) := by rwa [herase]
  obtain ⟨hvalue, hfloor, hlast⟩ := interpolate_eq hplace hle'
  rw [herase] at hfloor hlast
  rw [hvalue, getD_eraseIdx, getD_eraseIdx]
  have hfract := Int.fract_nonneg place
  have hfract' := Int.fract_lt_one place
  unfold Reached
  generalize ⌊place⌋₊ = j at *
  generalize Int.fract place = g at *
  rcases lt_trichotomy k (j + 1) with hbefore | hat | hafter
  · -- The entry stands before the place.
    have hstep : 0 ≤ (sorted.getD (j + 2) 0 - sorted.getD (j + 1) 0) * g := by
      by_cases hj : j = sorted.length - 2
      · rw [hlast hj, mul_zero]
      · have hnext := getD_mono hsorted (show j + 1 ≤ j + 2 by omega) (by omega)
        exact mul_nonneg (by linarith) hfract
    have hentry := getD_mono hsorted (show k ≤ j + 1 by omega) (by omega)
    rw [if_neg (by omega), if_neg (by omega)]
    constructor
    · exact fun _ => Or.inl (by omega)
    · intro _
      linarith
  · -- The entry stands right after the place.
    subst hat
    rw [if_pos (by omega), if_neg (by omega)]
    constructor
    · exact fun h => Or.inr (Or.inl ⟨rfl, h⟩)
    · rintro (h | ⟨-, h⟩ | ⟨h, -⟩)
      · omega
      · exact h
      · omega
  · -- The entry stands farther behind, where only an equal one is reached.
    have hnext := getD_mono hsorted (show j ≤ j + 1 by omega) (by omega)
    have hentry := getD_mono hsorted (show j + 1 ≤ k by omega) hk
    rw [if_pos (by omega), if_pos (by omega)]
    constructor
    · intro h
      refine Or.inr (Or.inr ⟨by omega, ?_⟩)
      by_contra hgt
      have hshort : (sorted.getD (j + 1) 0 - sorted.getD j 0) * g ≤
          (sorted.getD k 0 - sorted.getD j 0) * g :=
        mul_le_mul_of_nonneg_right (by linarith) hfract
      nlinarith
    · rintro (h | ⟨h, -⟩ | ⟨-, h⟩)
      · omega
      · omega
      · have hstep := mul_nonneg (sub_nonneg.mpr hnext) hfract
        linarith

/-- What is reached comes before what is not. -/
theorem Reached.of_le (hsorted : sorted.Pairwise (· ≤ ·)) {a b : ℕ} (hab : a ≤ b)
    (hb : b < sorted.length) (h : Reached sorted place b) : Reached sorted place a := by
  have hentry := getD_mono hsorted hab hb
  rcases h with h | ⟨rfl, h⟩ | ⟨hbehind, h⟩
  · exact Or.inl (by omega)
  · rcases Nat.lt_or_eq_of_le hab with hlt | rfl
    · exact Or.inl (by omega)
    · exact Or.inr (Or.inl ⟨rfl, h⟩)
  · rcases lt_trichotomy a (⌊place⌋₊ + 1) with hbefore | rfl | hafter
    · exact Or.inl (by omega)
    · have hnext := getD_mono hsorted (show ⌊place⌋₊ ≤ ⌊place⌋₊ + 2 by omega) (by omega)
      have hstep := mul_nonneg (sub_nonneg.mpr hnext) (Int.fract_nonneg place)
      exact Or.inr (Or.inl ⟨rfl, by linarith⟩)
    · exact Or.inr (Or.inr ⟨by omega, by linarith⟩)

/-- More than `k` entries are at most the quantile of the others exactly when the entry at
place `k` of the sorted list is. -/
theorem lt_coveredByOthers_iff (hfraction : 0 ≤ fraction) (hfraction' : fraction ≤ 1)
    (hlength : 2 ≤ xs.length) {k : ℕ} (hk : k < xs.length) :
    k < coveredByOthers fraction xs ↔
      Reached (xs.insertionSort (· ≤ ·)) (fraction * (xs.length - 2 : ℕ)) k := by
  have hsorted := List.pairwise_insertionSort (· ≤ ·) xs
  have hperm := List.perm_insertionSort (· ≤ ·) xs
  have hsame := hperm.length_eq
  rw [← coveredByOthers_perm hperm, ← hsame]
  generalize xs.insertionSort (· ≤ ·) = sorted at *
  rw [← hsame] at hk hlength
  have hplace : 0 ≤ fraction * (sorted.length - 2 : ℕ) := mul_nonneg hfraction (Nat.cast_nonneg _)
  have hle : fraction * (sorted.length - 2 : ℕ) ≤ (sorted.length - 2 : ℕ) :=
    mul_le_of_le_one_left (Nat.cast_nonneg _) hfraction'
  have hreached : ∀ i : Fin sorted.length,
      decide (sorted.get i ≤ quantile (sorted.eraseIdx i) fraction) = true ↔
        Reached sorted (fraction * (sorted.length - 2 : ℕ)) i := by
    intro i
    have hothers := (hsorted.eraseIdx i).insertionSort_eq
    have hcount : (sorted.eraseIdx i).length - 1 = sorted.length - 2 := by
      rw [List.length_eraseIdx_of_lt i.isLt]
      omega
    rw [decide_eq_true_iff, ← le_interpolate_eraseIdx_iff hsorted i.isLt hplace hle hlength,
      List.getD_eq_getElem _ _ i.isLt]
    unfold quantile
    rw [hothers, hcount]
    rfl
  unfold coveredByOthers
  rw [lt_countP_finRange_iff (k := ⟨k, hk⟩), hreached]
  intro a b hab hb
  rw [hreached] at hb ⊢
  exact hb.of_le hsorted hab b.isLt

end Quantile
