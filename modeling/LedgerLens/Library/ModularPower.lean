import Mathlib.FieldTheory.Finite.Basic
import Mathlib.NumberTheory.LegendreSymbol.Basic
import Mathlib.NumberTheory.LucasPrimality

/-!
# Powers modulo a number

Powers are computed by squaring, which is fast enough to be evaluated for exponents of hundreds of
bits. From such evaluations follow that a number is a prime (if the prime factors of the number
before it are known), that an element of its field has an inverse, and that it is a square.
-/

namespace ModularPower

/-- The power `b ^ e` modulo `m`, for an exponent of so many bits. -/
def powBits (m : ℕ) : ℕ → ℕ → ℕ → ℕ
  | 0, _, _ => 1 % m
  | bits + 1, b, e => b ^ (e % 2) * powBits m bits (b * b % m) (e / 2) % m

/-- `b ^ e` modulo `m`. -/
def powMod (b e m : ℕ) : ℕ := powBits m (Nat.log2 e + 1) b e

theorem powBits_eq {m bits : ℕ} {b e : ℕ} (he : e < 2 ^ bits) :
    powBits m bits b e = b ^ e % m := by
  induction bits generalizing b e with
  | zero =>
    obtain rfl : e = 0 := by simpa using he
    rw [powBits, pow_zero]
  | succ bits ih =>
    have hhalf : e / 2 < 2 ^ bits := by
      rw [pow_succ] at he
      omega
    calc powBits m (bits + 1) b e
        = b ^ (e % 2) * ((b * b % m) ^ (e / 2) % m) % m := by rw [powBits, ih hhalf]
      _ = b ^ (e % 2) * (b * b) ^ (e / 2) % m := by
        rw [← Nat.pow_mod, Nat.mul_mod, Nat.mod_mod, ← Nat.mul_mod]
      _ = b ^ e % m := by rw [← sq, ← pow_mul, ← pow_add, Nat.mod_add_div]

theorem powMod_eq (b e m : ℕ) : powMod b e m = b ^ e % m :=
  powBits_eq Nat.lt_log2_self

/-- The power in the ring of the remainders. -/
theorem natCast_powMod (b e m : ℕ) : (powMod b e m : ZMod m) = (b : ZMod m) ^ e := by
  rw [powMod_eq, ZMod.natCast_mod, Nat.cast_pow]

theorem powMod_lt {m : ℕ} (hm : 0 < m) (b e : ℕ) : powMod b e m < m := by
  rw [powMod_eq]
  exact Nat.mod_lt _ hm

/-- A power is one exactly if the number that is computed is. -/
theorem pow_eq_one_iff {m : ℕ} (hm : 1 < m) (b e : ℕ) :
    (b : ZMod m) ^ e = 1 ↔ powMod b e m = 1 := by
  rw [← natCast_powMod, ← Nat.cast_one, ZMod.natCast_eq_natCast_iff',
    Nat.mod_eq_of_lt (powMod_lt (by omega) b e), Nat.mod_eq_of_lt hm]

/-- A number is prime if there is a generator for it: an element whose order is the number before
it, of which `qs` are the prime factors. -/
theorem prime_of_generator {p : ℕ} (g : ℕ) (qs : List ℕ) (hp : 1 < p) (hprod : qs.prod = p - 1)
    (hqs : ∀ q ∈ qs, q.Prime) (hone : powMod g (p - 1) p = 1)
    (hne : ∀ q ∈ qs, powMod g ((p - 1) / q) p ≠ 1) : p.Prime := by
  refine lucas_primality p g ((pow_eq_one_iff hp g _).mpr hone) fun q hq hdvd => ?_
  obtain ⟨r, hr, hqr⟩ := (Prime.dvd_prod_iff hq.prime).mp (hprod ▸ hdvd)
  obtain rfl := (Nat.prime_dvd_prime_iff_eq hq (hqs r hr)).mp hqr
  exact fun hpow => hne q hr ((pow_eq_one_iff hp g _).mp hpow)

variable {p : ℕ} [Fact p.Prime]

/-- An inverse is a power. -/
theorem pow_sub_two {v : ZMod p} (hv : v ≠ 0) : v ^ (p - 2) = v⁻¹ := by
  have htwo := (Fact.out : p.Prime).two_le
  apply eq_inv_of_mul_eq_one_left
  rw [← pow_succ, show p - 2 + 1 = p - 1 by omega]
  exact ZMod.pow_card_sub_one_eq_one hv

/-- Modulo an odd prime the squares are zero and what has one as a power. -/
theorem isSquare_iff (hodd : p % 2 = 1) (a : ℕ) :
    IsSquare (a : ZMod p) ↔ (a : ZMod p) = 0 ∨ powMod a ((p - 1) / 2) p = 1 := by
  have htwo := (Fact.out : p.Prime).two_le
  by_cases ha : (a : ZMod p) = 0
  · exact iff_of_true (ha ▸ IsSquare.zero) (.inl ha)
  · rw [ZMod.euler_criterion p ha, or_iff_right ha, ← pow_eq_one_iff (by omega),
      show (p - 1) / 2 = p / 2 by omega]

end ModularPower
