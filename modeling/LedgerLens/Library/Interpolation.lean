import Mathlib.FieldTheory.Finite.Basic
import Mathlib.LinearAlgebra.Lagrange

/-!
# Interpolation at zero in a prime field

This file gives the value at zero of a Lagrange interpolation as the sum that programs
compute, and what is needed to recognise that sum in loops over integers that are reduced
modulo a prime: products and sums of remainders, and powers by repeated squaring, which
also invert.
-/

namespace Interpolation

open Polynomial

/-- The value at zero of an interpolation, as the sum over the nodes. -/
theorem eval_interpolate_zero {F ι : Type*} [Field F] [DecidableEq ι] (s : Finset ι)
    (v r : ι → F) :
    (Lagrange.interpolate s v r).eval 0 =
      ∑ i ∈ s, r i * ∏ j ∈ s.erase i, -v j * (v i - v j)⁻¹ := by
  rw [Lagrange.interpolate_apply, Polynomial.eval_finsetSum]
  apply Finset.sum_congr rfl
  intro i _
  rw [eval_mul, eval_C, Lagrange.basis, eval_prod]
  congr 1
  apply Finset.prod_congr rfl
  intro j _
  simp [Lagrange.basisDivisor, mul_comm]

/-- `b ^ e` modulo `m` by repeated squaring; the first number bounds the recursion. -/
def powModFuel (m : ℤ) : ℕ → ℤ → ℕ → ℤ
  | 0, _, _ => 1 % m
  | fuel + 1, b, e =>
    if e = 0 then 1 % m
    else if e % 2 = 1 then b * powModFuel m fuel (b * b % m) (e / 2) % m
    else powModFuel m fuel (b * b % m) (e / 2)

/-- `pow(b, e, m)`. -/
def powMod (b : ℤ) (e : ℕ) (m : ℤ) : ℤ := powModFuel m e b e

section Modular

variable {p : ℕ}

theorem cast_powModFuel (fuel : ℕ) (b : ℤ) (e : ℕ) (h : e ≤ fuel) :
    ((powModFuel p fuel b e : ℤ) : ZMod p) = (b : ZMod p) ^ e := by
  induction fuel generalizing b e with
  | zero =>
    obtain rfl : e = 0 := by omega
    simp [powModFuel]
  | succ fuel ih =>
    unfold powModFuel
    split_ifs with hzero hodd
    · simp [hzero]
    · have hrest := ih (b * b % p) (e / 2) (by omega)
      rw [ZMod.intCast_mod, Int.cast_mul, hrest, ZMod.intCast_mod, Int.cast_mul, ← pow_two,
        ← pow_mul, ← pow_succ', show 2 * (e / 2) + 1 = e by omega]
    · have hrest := ih (b * b % p) (e / 2) (by omega)
      rw [hrest, ZMod.intCast_mod, Int.cast_mul, ← pow_two, ← pow_mul,
        show 2 * (e / 2) = e by omega]

/-- Repeated squaring computes the power. -/
theorem cast_powMod (b : ℤ) (e : ℕ) : ((powMod b e p : ℤ) : ZMod p) = (b : ZMod p) ^ e :=
  cast_powModFuel e b e le_rfl

/-- In a prime field the power `p - 2` inverts, zero included. -/
theorem pow_sub_two [Fact p.Prime] (hp : 2 < p) (a : ZMod p) : a ^ (p - 2) = a⁻¹ := by
  by_cases ha : a = 0
  · rw [ha, inv_zero, zero_pow (by omega)]
  · apply eq_inv_of_mul_eq_one_left
    rw [← pow_succ, show p - 2 + 1 = p - 1 by omega]
    exact ZMod.pow_card_sub_one_eq_one ha

/-- A sum over the enumerated elements of a list, by their places. -/
theorem sum_map_zipIdx {α M : Type*} [AddCommMonoid M] (l : List α) (f : α × ℕ → M) :
    (l.zipIdx.map f).sum = ∑ i : Fin l.length, f (l[i], i) := by
  rw [← List.sum_ofFn]
  congr 1
  apply List.ext_getElem <;> simp

/-- A product over the enumerated elements of a list, by their places. -/
theorem prod_map_zipIdx {α M : Type*} [CommMonoid M] (l : List α) (f : α × ℕ → M) :
    (l.zipIdx.map f).prod = ∏ i : Fin l.length, f (l[i], i) := by
  rw [← List.prod_ofFn]
  congr 1
  apply List.ext_getElem <;> simp

/-- A loop that multiplies two remainders by one factor each at a time. -/
theorem cast_foldl_mul {α : Type*} (step : ℤ × ℤ → α → ℤ × ℤ) (factor₁ factor₂ : α → ZMod p)
    (h₁ : ∀ acc a, (((step acc a).1 : ℤ) : ZMod p) = acc.1 * factor₁ a)
    (h₂ : ∀ acc a, (((step acc a).2 : ℤ) : ZMod p) = acc.2 * factor₂ a) (l : List α)
    (acc : ℤ × ℤ) :
    (((l.foldl step acc).1 : ℤ) : ZMod p) = acc.1 * (l.map factor₁).prod ∧
      (((l.foldl step acc).2 : ℤ) : ZMod p) = acc.2 * (l.map factor₂).prod := by
  induction l generalizing acc with
  | nil => simp
  | cons a l ih =>
    rw [List.foldl_cons, (ih _).1, (ih _).2, h₁, h₂]
    simp only [List.map_cons, List.prod_cons, mul_assoc, and_self]

/-- A loop that adds one summand at a time to a remainder. -/
theorem cast_foldl_add {α : Type*} (step : ℤ → α → ℤ) (summand : α → ZMod p)
    (hstep : ∀ acc a, ((step acc a : ℤ) : ZMod p) = acc + summand a) (l : List α) (acc : ℤ) :
    ((l.foldl step acc : ℤ) : ZMod p) = acc + (l.map summand).sum := by
  induction l generalizing acc with
  | nil => simp
  | cons a l ih => rw [List.foldl_cons, ih, hstep, List.map_cons, List.sum_cons, add_assoc]

end Modular

end Interpolation
