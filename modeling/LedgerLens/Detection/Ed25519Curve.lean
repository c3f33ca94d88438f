import LedgerLens.Detection.Base58
import LedgerLens.Library.EdwardsCurve
import LedgerLens.Library.ModularPower
import Mathlib.NumberTheory.LegendreSymbol.Basic
import Mathlib.Tactic.NormNum.Prime

/-!
# Points of the Ed25519 curve

A program-derived address must not be a point of the curve. This file proves that the modulus is a
prime and that the test for points, which computes a quotient and a residue symbol by powers, tells
for all keys whether there is a point with the key's coordinate.
-/

namespace LedgerLens.Detection.Solana

open Integrations.Keccak256 (ofLittleEndian)
open ModularPower (powMod)

/-- `_ED25519_P`. -/
def ed25519P : ℕ := 2 ^ 255 - 19

/-- `_ED25519_D`. -/
def ed25519D : ℕ := (-121665 * (powMod 121666 (ed25519P - 2) ed25519P : ℤ) % ed25519P).toNat

/-- A key: `str | bytes`. -/
inductive Pubkey where
  /-- In base 58. -/
  | str (value : String)
  /-- As bytes. -/
  | bytes (value : Bytes)
  deriving DecidableEq

/-- `_pubkey_bytes`. -/
def pubkeyBytes (value : Pubkey) : Except SolanaValidationError Bytes := do
  let raw ← match value with
    | .bytes value => .ok value
    | .str value => base58Decode value
  if raw.length ≠ 32 then
    throw (.pubkeyLength raw.length)
  return raw

/-- `is_on_ed25519_curve` for the bytes of a key. -/
def isOnCurve (raw : Bytes) : Bool :=
  let y := ofLittleEndian raw &&& ((1 <<< 255) - 1)
  if y ≥ ed25519P then
    false
  else
    let y2 := y * y % ed25519P
    let u := (((y2 : ℤ) - 1) % ed25519P).toNat
    let v := (ed25519D * y2 + 1) % ed25519P
    let x2 := u * powMod v (ed25519P - 2) ed25519P % ed25519P
    if x2 = 0 then
      true
    else
      powMod x2 ((ed25519P - 1) / 2) ed25519P = 1

/-- `is_on_ed25519_curve`. -/
def isOnEd25519Curve (pubkey : Pubkey) : Except SolanaValidationError Bool := do
  let raw ← pubkeyBytes pubkey
  return isOnCurve raw

/-- The number before the modulus is factored, and so are the numbers before its large factors. -/
theorem prime_ed25519P : ed25519P.Prime := by
  have h₁ : Nat.Prime 2773320623 :=
    ModularPower.prime_of_generator 5 [2, 2437, 569003] (by decide) (by decide)
      (by norm_num) (by decide +kernel) (by decide +kernel)
  have h₂ : Nat.Prime 72106336199 :=
    ModularPower.prime_of_generator 7 ([2, 13] ++ [2773320623]) (by decide) (by decide)
      (List.forall_mem_append.mpr ⟨by norm_num, by simp [h₁]⟩)
      (by decide +kernel) (by decide +kernel)
  have h₃ : Nat.Prime 1919519569386763 :=
    ModularPower.prime_of_generator 2 [2, 3, 7, 19, 47, 47, 127, 8574133] (by decide) (by decide)
      (by norm_num) (by decide +kernel) (by decide +kernel)
  have h₄ : Nat.Prime 75445702479781427272750846543864801 :=
    ModularPower.prime_of_generator 7
      ([2, 2, 2, 2, 2, 3, 3, 5, 5, 75707] ++ [72106336199, 1919519569386763])
      (by decide) (by decide) (List.forall_mem_append.mpr ⟨by norm_num, by simp [h₂, h₃]⟩)
      (by decide +kernel) (by decide +kernel)
  have h₅ : Nat.Prime 31757755568855353 :=
    ModularPower.prime_of_generator 10 [2, 2, 2, 3, 31, 107, 223, 4153, 430751] (by decide)
      (by decide) (by norm_num) (by decide +kernel) (by decide +kernel)
  have h₆ : Nat.Prime
      74058212732561358302231226437062788676166966415465897661863160754340907 :=
    ModularPower.prime_of_generator 2 ([2, 3, 353, 57467, 132049, 1923133] ++
        [31757755568855353, 75445702479781427272750846543864801]) (by decide) (by decide)
      (List.forall_mem_append.mpr ⟨by norm_num, by simp [h₄, h₅]⟩)
      (by decide +kernel) (by decide +kernel)
  exact ModularPower.prime_of_generator 2 ([2, 2, 3, 65147] ++
      [74058212732561358302231226437062788676166966415465897661863160754340907])
    (by decide +kernel) (by decide +kernel)
    (List.forall_mem_append.mpr ⟨by norm_num, by simp [h₆]⟩)
    (by decide +kernel) (by decide +kernel)

instance : Fact ed25519P.Prime := ⟨prime_ed25519P⟩

/-- What `-1` has a square root of. -/
theorem isSquare_neg_one : IsSquare (-1 : ZMod ed25519P) := by
  rw [ZMod.exists_sq_eq_neg_one_iff]
  decide +kernel

theorem not_isSquare_ed25519D : ¬IsSquare (ed25519D : ZMod ed25519P) := by
  rw [ModularPower.isSquare_iff (by decide +kernel), ZMod.natCast_eq_zero_iff]
  decide +kernel

/-- The number that a key has its coordinate in: 255 bits, the least significant byte first. -/
def coordinate (raw : Bytes) : ℕ := ofLittleEndian raw % 2 ^ 255

/-- Whether bytes are a point: the coordinate is a remainder, and the curve has a point with it. -/
def IsPoint (raw : Bytes) : Prop :=
  coordinate raw < ed25519P ∧
    ∃ x : ZMod ed25519P, EdwardsCurve.OnCurve (ed25519D : ZMod ed25519P) x (coordinate raw)

theorem natCast_toNat_emod (z : ℤ) : (((z % ed25519P).toNat : ℕ) : ZMod ed25519P) = z := by
  have hpos : (ed25519P : ℤ) ≠ 0 := by decide +kernel
  rw [← Int.cast_natCast, Int.toNat_of_nonneg (Int.emod_nonneg z hpos), ZMod.intCast_mod]

/-- The remainder that is tested for a square: the fraction of the curve's equation. -/
theorem natCast_x2 (y : ℕ) :
    let y2 := y * y % ed25519P
    let u := (((y2 : ℤ) - 1) % ed25519P).toNat
    let v := (ed25519D * y2 + 1) % ed25519P
    ((u * powMod v (ed25519P - 2) ed25519P % ed25519P : ℕ) : ZMod ed25519P) =
      ((y : ZMod ed25519P) ^ 2 - 1) /
        ((ed25519D : ZMod ed25519P) * (y : ZMod ed25519P) ^ 2 + 1) := by
  intro y2 u v
  have hy2 : (y2 : ZMod ed25519P) = (y : ZMod ed25519P) ^ 2 := by
    rw [ZMod.natCast_mod, Nat.cast_mul, sq]
  have hu : (u : ZMod ed25519P) = (y : ZMod ed25519P) ^ 2 - 1 := by
    rw [natCast_toNat_emod, Int.cast_sub, Int.cast_natCast, Int.cast_one, hy2]
  have hv : (v : ZMod ed25519P) = (ed25519D : ZMod ed25519P) * (y : ZMod ed25519P) ^ 2 + 1 := by
    rw [ZMod.natCast_mod, Nat.cast_add, Nat.cast_mul, Nat.cast_one, hy2]
  have hne := EdwardsCurve.denominator_ne_zero isSquare_neg_one not_isSquare_ed25519D
    (y : ZMod ed25519P)
  rw [ZMod.natCast_mod, Nat.cast_mul, ModularPower.natCast_powMod, hu, hv,
    ModularPower.pow_sub_two hne, div_eq_mul_inv]

/-- The last test tells whether a remainder is a square. -/
theorem isSquare_test_iff {x2 : ℕ} (hx2 : x2 < ed25519P) :
    (if x2 = 0 then true else decide (powMod x2 ((ed25519P - 1) / 2) ed25519P = 1)) = true ↔
      IsSquare (x2 : ZMod ed25519P) := by
  have hzero : (x2 : ZMod ed25519P) = 0 ↔ x2 = 0 := by
    rw [ZMod.natCast_eq_zero_iff]
    exact ⟨fun h => Nat.eq_zero_of_dvd_of_lt h hx2, fun h => h ▸ dvd_zero _⟩
  rw [ModularPower.isSquare_iff (by decide +kernel), hzero]
  split_ifs with h
  · exact iff_of_true rfl (.inl h)
  · rw [decide_eq_true_iff, or_iff_right h]

/-- The test tells whether bytes are a point. -/
theorem isOnCurve_iff (raw : Bytes) : isOnCurve raw = true ↔ IsPoint raw := by
  have hcoordinate : ofLittleEndian raw &&& ((1 <<< 255) - 1) = coordinate raw := by
    rw [Nat.one_shiftLeft, Nat.and_two_pow_sub_one_eq_mod, coordinate]
  unfold isOnCurve IsPoint
  rw [hcoordinate]
  dsimp only
  by_cases hy : coordinate raw ≥ ed25519P
  · rw [if_pos hy]
    exact iff_of_false (by simp) fun h => absurd h.1 (by omega)
  · rw [if_neg hy, and_iff_right (by omega),
      EdwardsCurve.exists_onCurve_iff isSquare_neg_one not_isSquare_ed25519D, ← natCast_x2]
    exact isSquare_test_iff (Nat.mod_lt _ prime_ed25519P.pos)

end LedgerLens.Detection.Solana
