import Mathlib.Algebra.BigOperators.Field
import Mathlib.Algebra.Order.Archimedean.Basic
import Mathlib.Algebra.Order.BigOperators.Group.Finset
import Mathlib.Tactic.Linarith
import Mathlib.Tactic.Ring

/-!
# Clamped shares and exponential smoothing

Shares of a whole that are clamped to bounds and divided by their sum are in the bounds only if
there was nothing to divide by. Exponential smoothing goes to its target, so that it leaves all
bounds in which the target is not.
-/

namespace Smoothing

variable {K : Type*} [Field K] [LinearOrder K] [IsStrictOrderedRing K]

/-- A number that is moved to the nearest one between two bounds. -/
def clamp (lo hi x : K) : K := max lo (min hi x)

/-- A step of exponential smoothing. -/
def smooth (alpha target x : K) : K := alpha * target + (1 - alpha) * x

section Clamp

variable {lo hi x : K}

omit [Field K] [IsStrictOrderedRing K] in
theorem clamp_mem (h : lo ≤ hi) (x : K) : lo ≤ clamp lo hi x ∧ clamp lo hi x ≤ hi :=
  ⟨le_max_left _ _, max_le h (min_le_left _ _)⟩

omit [Field K] [IsStrictOrderedRing K] in
/-- What clamping makes smaller becomes the upper bound. -/
theorem clamp_eq_hi (h : clamp lo hi x < x) (hle : lo ≤ hi) : clamp lo hi x = hi := by
  unfold clamp at h ⊢
  rcases le_total hi x with hx | hx
  · rw [min_eq_left hx, max_eq_right hle]
  · rw [min_eq_right hx] at h
    exact absurd h (le_max_right _ _).not_gt

omit [Field K] [IsStrictOrderedRing K] in
/-- What clamping makes greater becomes the lower bound. -/
theorem clamp_eq_lo (h : x < clamp lo hi x) : clamp lo hi x = lo := by
  unfold clamp at h ⊢
  rcases lt_max_iff.mp h with hlo | hmin
  · exact max_eq_left ((min_le_right _ _).trans hlo.le)
  · exact absurd hmin (min_le_right _ _).not_gt

variable {ι : Type*} [Fintype ι] {share : ι → K}

/-- Clamped shares whose sum is not the whole leave the bounds when they are divided by it. -/
theorem exists_clamp_div (hlo : 0 < lo) (hle : lo ≤ hi) (hshare : ∑ i, share i = 1)
    (hsum : ∑ i, clamp lo hi (share i) ≠ 1) :
    ∃ i, clamp lo hi (share i) / ∑ j, clamp lo hi (share j) < lo ∨
      hi < clamp lo hi (share i) / ∑ j, clamp lo hi (share j) := by
  have hclamp (i : ι) : 0 < clamp lo hi (share i) := hlo.trans_le (clamp_mem hle _).1
  have hpos : 0 < ∑ i, clamp lo hi (share i) := by
    have hne : (Finset.univ : Finset ι).Nonempty := by
      by_contra hempty
      rw [Finset.not_nonempty_iff_eq_empty] at hempty
      simp [hempty] at hshare
    exact Finset.sum_pos (fun i _ => hclamp i) hne
  rcases hsum.lt_or_gt with hlt | hgt
  · obtain ⟨i, -, hi⟩ := Finset.exists_lt_of_sum_lt (hlt.trans_eq hshare.symm)
    refine ⟨i, .inr ?_⟩
    rw [clamp_eq_hi hi hle, lt_div_iff₀ hpos]
    exact mul_lt_of_lt_one_right (hlo.trans_le hle) hlt
  · obtain ⟨i, -, hi⟩ := Finset.exists_lt_of_sum_lt (hshare.trans_lt hgt)
    refine ⟨i, .inl ?_⟩
    rw [clamp_eq_lo hi, div_lt_iff₀ hpos]
    exact lt_mul_of_one_lt_right hlo hgt

end Clamp

section Smooth

variable {alpha target x lo hi : K}

/-- A step between two values that are in bounds stays there. -/
theorem smooth_mem (h0 : 0 ≤ alpha) (h1 : alpha ≤ 1) (ht : lo ≤ target ∧ target ≤ hi)
    (hx : lo ≤ x ∧ x ≤ hi) : lo ≤ smooth alpha target x ∧ smooth alpha target x ≤ hi := by
  have h1' := sub_nonneg.mpr h1
  unfold smooth
  constructor
  · have htarget := mul_le_mul_of_nonneg_left ht.1 h0
    have hold := mul_le_mul_of_nonneg_left hx.1 h1'
    linarith
  · have htarget := mul_le_mul_of_nonneg_left ht.2 h0
    have hold := mul_le_mul_of_nonneg_left hx.2 h1'
    linarith

omit [LinearOrder K] [IsStrictOrderedRing K] in
/-- Steps to the same target shrink the distance to it by a constant factor. -/
theorem smooth_iterate (n : ℕ) :
    (smooth alpha target)^[n] x = target + (1 - alpha) ^ n * (x - target) := by
  induction n with
  | zero => simp
  | succ n ih =>
    rw [Function.iterate_succ_apply', ih, smooth]
    ring

omit [LinearOrder K] [IsStrictOrderedRing K] in
/-- A step of all shares keeps their sum. -/
theorem sum_smooth {ι : Type*} [Fintype ι] {target x : ι → K} (ht : ∑ i, target i = 1)
    (hx : ∑ i, x i = 1) : ∑ i, smooth alpha (target i) (x i) = 1 := by
  unfold smooth
  rw [Finset.sum_add_distrib, ← Finset.mul_sum, ← Finset.mul_sum, ht, hx]
  ring

variable [Archimedean K]

/-- Steps to a target above a bound pass it. -/
theorem exists_hi_lt_iterate (h0 : 0 < alpha) (h : hi < target) (x : K) :
    ∃ n, hi < (smooth alpha target)^[n] x := by
  rcases le_or_gt target x with hle | hlt
  · refine ⟨0, h.trans_le hle⟩
  · have hgap : 0 < (target - hi) / (target - x) := div_pos (sub_pos.mpr h) (sub_pos.mpr hlt)
    obtain ⟨n, hn⟩ := exists_pow_lt_of_lt_one hgap (show 1 - alpha < 1 by linarith)
    rw [lt_div_iff₀ (sub_pos.mpr hlt)] at hn
    refine ⟨n, ?_⟩
    rw [smooth_iterate]
    linarith

/-- Steps to a target below a bound pass it. -/
theorem exists_iterate_lt_lo (h0 : 0 < alpha) (h : target < lo) (x : K) :
    ∃ n, (smooth alpha target)^[n] x < lo := by
  obtain ⟨n, hn⟩ := exists_hi_lt_iterate h0 (neg_lt_neg h) (-x)
  refine ⟨n, ?_⟩
  rw [smooth_iterate] at hn ⊢
  linarith

end Smooth

end Smoothing
