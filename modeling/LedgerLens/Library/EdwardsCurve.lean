import Mathlib.Algebra.Field.Basic
import Mathlib.Algebra.Group.Even
import Mathlib.Tactic.LinearCombination

/-!
# Twisted Edwards curves

The points of the curve `-x ^ 2 + y ^ 2 = 1 + d * x ^ 2 * y ^ 2`. If `-1` is a square and `d` is
not, then `x ^ 2` is a fraction in `y`, and there is a point for `y` if the fraction is a square.
-/

namespace EdwardsCurve

variable {K : Type*} [Field K] {d : K}

/-- The points of the curve. -/
def OnCurve (d x y : K) : Prop := -x ^ 2 + y ^ 2 = 1 + d * x ^ 2 * y ^ 2

theorem onCurve_iff (d x y : K) : OnCurve d x y ↔ x * x * (d * y ^ 2 + 1) = y ^ 2 - 1 := by
  unfold OnCurve
  constructor <;> intro h
  · linear_combination -h
  · linear_combination -h

/-- The denominator of the fraction is not zero, as `d` would be the square of a root of `-1`
divided by `y`. -/
theorem denominator_ne_zero (hroot : IsSquare (-1 : K)) (hd : ¬IsSquare d) (y : K) :
    d * y ^ 2 + 1 ≠ 0 := by
  intro hzero
  obtain ⟨i, hi⟩ := hroot
  have hy : y ≠ 0 := by
    rintro rfl
    simp at hzero
  apply hd
  refine ⟨i / y, ?_⟩
  rw [div_mul_div_comm, ← hi, eq_div_iff (mul_ne_zero hy hy)]
  linear_combination hzero

/-- There is a point for `y` exactly if the fraction is a square. -/
theorem exists_onCurve_iff (hroot : IsSquare (-1 : K)) (hd : ¬IsSquare d) (y : K) :
    (∃ x, OnCurve d x y) ↔ IsSquare ((y ^ 2 - 1) / (d * y ^ 2 + 1)) := by
  have hne := denominator_ne_zero hroot hd y
  refine exists_congr fun x => ?_
  rw [onCurve_iff, div_eq_iff hne, eq_comm]

end EdwardsCurve
