import Mathlib.Algebra.Order.Field.Rat
import Mathlib.Algebra.Order.Ring.Rat
import Mathlib.Data.Nat.Log
import Mathlib.Tactic.FieldSimp
import Mathlib.Tactic.Linarith
import Mathlib.Tactic.Ring

/-!
# Decimal arithmetic

Decimal numbers have a sign, a coefficient and an exponent, or are special. Every operation rounds
its exact result to the digits of a context, by one of eight rounding modes, and bounds its
exponent. A result keeps its value exactly if its coefficient has no more significant digits than
the context.
-/

/-- A decimal number. -/
inductive PyDecimal
  /-- Its sign, its coefficient and its exponent. -/
  | finite (negative : Bool) (coeff : ℕ) (exp : ℤ)
  /-- An infinity. -/
  | infinity (negative : Bool)
  /-- Not a number. -/
  | nan
  deriving DecidableEq

/-- The rounding modes. -/
inductive Rounding
  /-- Towards positive infinity. -/
  | ceiling
  /-- Towards zero. -/
  | down
  /-- Towards negative infinity. -/
  | floor
  /-- To the nearest, ties towards zero. -/
  | halfDown
  /-- To the nearest, ties to the even digit. -/
  | halfEven
  /-- To the nearest, ties away from zero. -/
  | halfUp
  /-- Away from zero. -/
  | up
  /-- Away from zero if the last digit would be zero or five, else towards zero. -/
  | zeroFiveUp
  deriving DecidableEq

/-- A context whose traps for invalid operations, divisions by zero and overflows are set. -/
structure DecimalContext where
  /-- The number of digits. -/
  prec : ℕ := 28
  /-- There is one at least. -/
  prec_pos : 0 < prec := by decide
  /-- The rounding mode. -/
  rounding : Rounding := .halfEven

/-- The signals that are trapped. -/
inductive DecimalSignal
  /-- An operation without a result. -/
  | invalidOperation
  /-- A division by zero. -/
  | divisionByZero
  /-- A result that is too large. -/
  | overflow
  deriving DecidableEq

/-- The smallest exponent of a leading digit. -/
def DecimalContext.emin : ℤ := -999999

/-- The largest exponent of a leading digit. -/
def DecimalContext.emax : ℤ := 999999

section Digits

/-- The number of digits of a coefficient. -/
def numDigits (n : ℕ) : ℕ := Nat.log 10 n + 1

/-- Whether a quotient is rounded up, by its last digits and by what remains of the divisor. -/
def Rounding.roundsUp (mode : Rounding) (negative : Bool) (quotient rest divisor : ℕ) : Bool :=
  match mode with
  | .down => false
  | .up => rest ≠ 0
  | .ceiling => rest ≠ 0 ∧ negative = false
  | .floor => rest ≠ 0 ∧ negative = true
  | .halfDown => divisor < 2 * rest
  | .halfUp => divisor ≤ 2 * rest
  | .halfEven => divisor < 2 * rest ∨ divisor = 2 * rest ∧ quotient % 2 = 1
  | .zeroFiveUp => rest ≠ 0 ∧ quotient % 5 = 0

/-- A quotient, rounded to a whole number. -/
def Rounding.quotient (mode : Rounding) (negative : Bool) (a b : ℕ) : ℕ :=
  if mode.roundsUp negative (a / b) (a % b) b then a / b + 1 else a / b

/-- A whole number, rounded to a number of digits. -/
def Rounding.toDigits (mode : Rounding) (negative : Bool) (digits n : ℕ) : ℕ :=
  mode.quotient negative n (10 ^ (numDigits n - digits)) * 10 ^ (numDigits n - digits)

/-- A quotient whose last digit shows that something remained. -/
def sticky (a b : ℕ) : ℕ := if a % b ≠ 0 ∧ a / b % 5 = 0 then a / b + 1 else a / b

/-- All digits but the first ones are zeros. -/
def FitsDigits (digits n : ℕ) : Prop := 10 ^ (numDigits n - digits) ∣ n

instance (digits n : ℕ) : Decidable (FitsDigits digits n) :=
  inferInstanceAs (Decidable (_ ∣ _))

/-- Divide by ten, up to a number of times, as long as the last digit is zero: how often, and what
is left. -/
def stripZeros : ℕ → ℕ → ℕ × ℕ
  | 0, n => (0, n)
  | limit + 1, n =>
    if n % 10 = 0 then
      let rest := stripZeros limit (n / 10)
      (rest.1 + 1, rest.2)
    else (0, n)

end Digits

namespace DecimalContext

variable (ctx : DecimalContext)

/-- The smallest exponent of a coefficient. -/
def etiny : ℤ := emin - ctx.prec + 1

/-- The largest exponent of a coefficient with all digits. -/
def etop : ℤ := emax - ctx.prec + 1

/-- Round a finite result to the context. What is rounded to less than all its digits is too small
for them. -/
def fix (negative : Bool) (coeff : ℕ) (exp : ℤ) : Except DecimalSignal PyDecimal :=
  if coeff = 0 then .ok (.finite negative 0 (min (max exp ctx.etiny) emax))
  else
    let expMin := numDigits coeff + exp - ctx.prec
    if ctx.etop < expMin then .error .overflow
    else
      let expMin := max expMin ctx.etiny
      if exp < expMin then
        let rounded := ctx.rounding.quotient negative coeff (10 ^ (expMin - exp).toNat)
        -- a carry makes one digit too many
        let result := if ctx.prec < numDigits rounded then (rounded / 10, expMin + 1)
          else (rounded, expMin)
        if ctx.etop < result.2 then .error .overflow
        else .ok (.finite negative result.1 result.2)
      else .ok (.finite negative coeff exp)

/-- A product. -/
def mul : PyDecimal → PyDecimal → Except DecimalSignal PyDecimal
  | .finite negative coeff exp, .finite negative' coeff' exp' =>
    ctx.fix (xor negative negative') (coeff * coeff') (exp + exp')
  | .nan, _ => .ok .nan
  | _, .nan => .ok .nan
  | .infinity negative, .infinity negative' => .ok (.infinity (xor negative negative'))
  | .infinity negative, .finite negative' coeff _ =>
    if coeff = 0 then .error .invalidOperation else .ok (.infinity (xor negative negative'))
  | .finite negative coeff _, .infinity negative' =>
    if coeff = 0 then .error .invalidOperation else .ok (.infinity (xor negative negative'))

/-- The quotient of two coefficients with one or two digits more than the context, and its
exponent. -/
def quotientOf (coeff coeff' : ℕ) (ideal : ℤ) : ℕ × ℤ :=
  let shift : ℤ := numDigits coeff' - numDigits coeff + ctx.prec + 1
  let a := coeff * 10 ^ shift.toNat
  let b := coeff' * 10 ^ (-shift).toNat
  if a % b = 0 then
    -- the exponent goes as near to the ideal one as it can
    let stripped := stripZeros shift.toNat (a / b)
    (stripped.2, ideal - shift + stripped.1)
  else (sticky a b, ideal - shift)

/-- A quotient. -/
def div : PyDecimal → PyDecimal → Except DecimalSignal PyDecimal
  | .finite negative coeff exp, .finite negative' coeff' exp' =>
    if coeff' = 0 then .error (if coeff = 0 then .invalidOperation else .divisionByZero)
    else if coeff = 0 then ctx.fix (xor negative negative') 0 (exp - exp')
    else
      let quotient := ctx.quotientOf coeff coeff' (exp - exp')
      ctx.fix (xor negative negative') quotient.1 quotient.2
  | .nan, _ => .ok .nan
  | _, .nan => .ok .nan
  | .infinity _, .infinity _ => .error .invalidOperation
  | .infinity negative, .finite negative' _ _ => .ok (.infinity (xor negative negative'))
  | .finite negative _ _, .infinity negative' =>
    .ok (.finite (xor negative negative') 0 ctx.etiny)

/-- An absolute value. -/
def abs : PyDecimal → Except DecimalSignal PyDecimal
  | .finite _ coeff exp => ctx.fix false coeff exp
  | .infinity _ => .ok (.infinity false)
  | .nan => .ok .nan

end DecimalContext

namespace PyDecimal

/-- The value of a sign, a coefficient and an exponent. -/
def valueOf (negative : Bool) (coeff : ℕ) (exp : ℤ) : ℚ :=
  (if negative then -1 else 1) * coeff * (10 : ℚ) ^ exp

/-- The value of a number that is finite. -/
def value? : PyDecimal → Option ℚ
  | .finite negative coeff exp => some (valueOf negative coeff exp)
  | _ => none

/-- The number of an integer. -/
def ofInt (n : ℤ) : PyDecimal := .finite (n < 0) n.natAbs 0

/-- The integer towards zero. -/
def truncate (negative : Bool) (coeff : ℕ) (exp : ℤ) : ℤ :=
  (if negative then -1 else 1) * ((coeff * 10 ^ exp.toNat / 10 ^ (-exp).toNat : ℕ) : ℤ)

end PyDecimal

section Digits

variable {n k digits : ℕ} {mode : Rounding} {negative : Bool} {a b : ℕ}

theorem lt_pow_numDigits (n : ℕ) : n < 10 ^ numDigits n := Nat.lt_pow_succ_log_self (by decide) n

theorem pow_le_of_ne_zero (h : n ≠ 0) : 10 ^ (numDigits n - 1) ≤ n := Nat.pow_log_le_self 10 h

/-- A number with leading digit at a place has one digit more than the place. -/
theorem numDigits_eq (hle : 10 ^ k ≤ n) (hlt : n < 10 ^ (k + 1)) : numDigits n = k + 1 :=
  congrArg (· + 1) (Nat.log_eq_of_pow_le_of_lt_pow hle hlt)

theorem numDigits_le_iff (h : n ≠ 0) : numDigits n ≤ k ↔ n < 10 ^ k := by
  rw [← Nat.log_lt_iff_lt_pow (by decide) h]
  exact Nat.succ_le_iff

theorem numDigits_mul_pow (h : n ≠ 0) (k : ℕ) : numDigits (n * 10 ^ k) = numDigits n + k := by
  have hpos : 0 < numDigits n := Nat.succ_pos _
  have hplace : numDigits n + k = numDigits n - 1 + k + 1 := by omega
  rw [hplace]
  apply numDigits_eq
  · rw [pow_add]
    exact Nat.mul_le_mul_right _ (pow_le_of_ne_zero h)
  · rw [show numDigits n - 1 + k + 1 = numDigits n + k by omega, pow_add]
    exact Nat.mul_lt_mul_of_pos_right (lt_pow_numDigits n) (by positivity)

/-- Nothing that remains is not rounded up. -/
theorem roundsUp_zero (hb : 0 < b) (quotient : ℕ) :
    mode.roundsUp negative quotient 0 b = false := by
  cases mode <;> simp [Rounding.roundsUp] <;> omega

theorem quotient_of_dvd (hb : 0 < b) (h : b ∣ a) : mode.quotient negative a b = a / b := by
  unfold Rounding.quotient
  rw [Nat.mod_eq_zero_of_dvd h, roundsUp_zero hb]
  rfl

theorem le_quotient : a / b ≤ mode.quotient negative a b := by
  unfold Rounding.quotient
  split_ifs <;> omega

theorem quotient_le : mode.quotient negative a b ≤ a / b + 1 := by
  unfold Rounding.quotient
  split_ifs <;> omega

/-- A rounded quotient is exact only where nothing remains. -/
theorem quotient_mul_eq_iff (hb : 0 < b) : mode.quotient negative a b * b = a ↔ b ∣ a := by
  constructor
  · intro h
    exact ⟨_, (h.symm.trans (Nat.mul_comm _ _))⟩
  · intro h
    rw [quotient_of_dvd hb h, Nat.div_mul_cancel h]

/-- Decisions depend on the ratio of what remains to the divisor. -/
theorem roundsUp_mul_mul (hk : 0 < k) (quotient rest divisor : ℕ) :
    mode.roundsUp negative quotient (rest * k) (divisor * k) =
      mode.roundsUp negative quotient rest divisor := by
  have hzero : rest * k = 0 ↔ rest = 0 := by simp [hk.ne']
  have hlt : divisor * k < 2 * (rest * k) ↔ divisor < 2 * rest := by
    rw [← Nat.mul_assoc]
    exact Nat.mul_lt_mul_right hk
  have hle : divisor * k ≤ 2 * (rest * k) ↔ divisor ≤ 2 * rest := by
    rw [← Nat.mul_assoc]
    exact Nat.mul_le_mul_right_iff hk
  have heq : divisor * k = 2 * (rest * k) ↔ divisor = 2 * rest := by
    rw [← Nat.mul_assoc]
    exact Nat.mul_left_inj hk.ne'
  cases mode <;> simp only [Rounding.roundsUp, ne_eq, hzero, hlt, hle, heq]

theorem quotient_mul_mul (hk : 0 < k) (a b : ℕ) :
    mode.quotient negative (a * k) (b * k) = mode.quotient negative a b := by
  unfold Rounding.quotient
  rw [Nat.mul_div_mul_right _ _ hk, Nat.mul_mod_mul_right, roundsUp_mul_mul hk]

/-- Where something remains below the digits that are rounded, a last digit that is no zero and no
five shows it. -/
theorem roundsUp_sticky {t u r quotient : ℕ} (hu : u < 10 * t) (hr : r ≠ 0) (hlt : r < b) :
    mode.roundsUp negative quotient (if r ≠ 0 ∧ u % 5 = 0 then u + 1 else u) (10 * t) =
      mode.roundsUp negative quotient (b * u + r) (b * (10 * t)) := by
  set s := if r ≠ 0 ∧ u % 5 = 0 then u + 1 else u with hs
  have hcases : u % 5 = 0 ∧ s = u + 1 ∨ u % 5 ≠ 0 ∧ s = u := by
    by_cases hfive : u % 5 = 0
    · exact .inl ⟨hfive, if_pos ⟨hr, hfive⟩⟩
    · exact .inr ⟨hfive, if_neg fun h => hfive h.2⟩
  -- both sides are above or below a half as `u` is
  have hhalf : b * u + r ≤ b * (5 * t) ↔ u < 5 * t := by
    constructor
    · intro hle
      by_contra hge
      have hmul := Nat.mul_le_mul_left b (not_lt.mp hge)
      omega
    · intro hless
      have hmul := Nat.mul_le_mul_left b (Nat.succ_le_of_lt hless)
      rw [Nat.mul_succ] at hmul
      omega
  have hne : b * u + r ≠ b * (5 * t) := by
    intro heq
    have hmul := Nat.mul_le_mul_left b (Nat.succ_le_of_lt (hhalf.mp heq.le))
    rw [Nat.mul_succ] at hmul
    omega
  have hmul : b * (10 * t) = 2 * (b * (5 * t)) := by ring
  rw [hmul]
  have hzero : s = 0 ↔ b * u + r = 0 := by omega
  have hgt : 10 * t < 2 * s ↔ 2 * (b * (5 * t)) < 2 * (b * u + r) := by omega
  have hge : 10 * t ≤ 2 * s ↔ 2 * (b * (5 * t)) ≤ 2 * (b * u + r) := by omega
  have heq : 10 * t = 2 * s ↔ 2 * (b * (5 * t)) = 2 * (b * u + r) := by omega
  cases mode <;> simp only [Rounding.roundsUp, ne_eq, hzero, hgt, hge, heq]

/-- Rounding in two steps is rounding at once, if the first one keeps a digit more and shows what
remained. -/
theorem quotient_sticky (hb : 0 < b) {m : ℕ} (hm : 10 ∣ m) (hpos : 0 < m) :
    mode.quotient negative (sticky a b) m = mode.quotient negative a (b * m) := by
  obtain ⟨t, rfl⟩ := hm
  set q := a / b with hq
  set r := a % b with hr
  have hdecomp : a = b * q + r := (Nat.div_add_mod a b).symm
  have hlt : r < b := Nat.mod_lt a hb
  have hquot : a / (b * (10 * t)) = q / (10 * t) := by rw [← Nat.div_div_eq_div_mul]
  have hrest : a % (b * (10 * t)) = b * (q % (10 * t)) + r := by
    rw [Nat.mod_mul, Nat.add_comm, ← hq, ← hr]
  -- the last digit that is kept is no nine where it is made one more
  have hstick : sticky a b / (10 * t) = q / (10 * t) ∧
      sticky a b % (10 * t) = if r ≠ 0 ∧ q % 5 = 0 then q % (10 * t) + 1 else q % (10 * t) := by
    unfold sticky
    rw [← hq, ← hr]
    split_ifs with hs
    · have hmod : q % (10 * t) % 5 = 0 := by
        rw [Nat.mod_mod_of_dvd q ⟨2 * t, by ring⟩]
        exact hs.2
      have hless : q % (10 * t) + 1 < 10 * t := by
        have hbound := Nat.mod_lt q hpos
        omega
      have hsplit := Nat.div_add_mod q (10 * t)
      have hnext : q + 1 = (q % (10 * t) + 1) + 10 * t * (q / (10 * t)) := by omega
      constructor
      · rw [hnext, Nat.add_mul_div_left _ _ hpos, Nat.div_eq_of_lt hless, Nat.zero_add]
      · rw [hnext, Nat.add_mul_mod_self_left, Nat.mod_eq_of_lt hless]
    · exact ⟨rfl, rfl⟩
  have hfive : q % 5 = q % (10 * t) % 5 := (Nat.mod_mod_of_dvd q ⟨2 * t, by ring⟩).symm
  have hbound := Nat.mod_lt q hpos
  have hroundsUp : mode.roundsUp negative (q / (10 * t)) (sticky a b % (10 * t)) (10 * t) =
      mode.roundsUp negative (q / (10 * t)) (b * (q % (10 * t)) + r) (b * (10 * t)) := by
    rw [hstick.2, hfive]
    generalize q % (10 * t) = u at hbound
    by_cases hzero : r = 0
    · rw [if_neg fun h => h.1 hzero, hzero, Nat.add_zero, Nat.mul_comm b, Nat.mul_comm b,
        roundsUp_mul_mul hb]
    · exact roundsUp_sticky hbound hzero hlt
  unfold Rounding.quotient
  rw [hstick.1, hquot, hrest, hroundsUp]

/-- Rounding to digits is exact only where all other digits are zeros. -/
theorem toDigits_eq_iff : mode.toDigits negative digits n = n ↔ FitsDigits digits n :=
  quotient_mul_eq_iff (by positivity)

theorem toDigits_of_fits (h : FitsDigits digits n) : mode.toDigits negative digits n = n :=
  toDigits_eq_iff.mpr h

@[simp] theorem toDigits_zero : mode.toDigits negative digits 0 = 0 :=
  toDigits_of_fits (dvd_zero _)

/-- A number with few digits has no others. -/
theorem fitsDigits_of_le (h : numDigits n ≤ digits) : FitsDigits digits n := by
  unfold FitsDigits
  rw [Nat.sub_eq_zero_of_le h, pow_zero]
  exact one_dvd n

/-- Zeros behind a number do not count. -/
theorem toDigits_mul_pow (n k : ℕ) :
    mode.toDigits negative digits (n * 10 ^ k) = mode.toDigits negative digits n * 10 ^ k := by
  by_cases hn : n = 0
  · rw [hn, Nat.zero_mul, toDigits_zero, Nat.zero_mul]
  have hnum := numDigits_mul_pow hn k
  by_cases hfew : numDigits n ≤ digits
  · rw [toDigits_of_fits (fitsDigits_of_le hfew), toDigits_of_fits]
    unfold FitsDigits
    rw [hnum]
    exact (pow_dvd_pow 10 (by omega)).mul_left n
  · unfold Rounding.toDigits
    rw [hnum, show numDigits n + k - digits = numDigits n - digits + k by omega, pow_add,
      quotient_mul_mul (by positivity), Nat.mul_assoc]

theorem fitsDigits_mul_pow_iff (k : ℕ) : FitsDigits digits (n * 10 ^ k) ↔ FitsDigits digits n := by
  have hdown (n : ℕ) : Rounding.down.toDigits false digits n = n ↔ FitsDigits digits n :=
    toDigits_eq_iff
  rw [← hdown, ← hdown, toDigits_mul_pow]
  exact Nat.mul_left_inj (by positivity)

/-- Without its last digits a number is rounded to the next power of ten at most. -/
theorem quotient_le_pow (mode : Rounding) (negative : Bool) (n k : ℕ) :
    mode.quotient negative n (10 ^ k) ≤ 10 ^ (numDigits n - k) := by
  refine quotient_le.trans (Nat.succ_le_of_lt ?_)
  rw [Nat.div_lt_iff_lt_mul (by positivity), ← pow_add]
  exact (lt_pow_numDigits n).trans_le (Nat.pow_le_pow_right (by decide) (by omega))

theorem numDigits_quotient_le (mode : Rounding) (negative : Bool) (n k : ℕ) :
    numDigits (mode.quotient negative n (10 ^ k)) ≤ numDigits n - k + 1 :=
  Nat.succ_le_succ ((Nat.log_mono_right (quotient_le_pow mode negative n k)).trans_eq
    (Nat.log_pow (by decide) _))

/-- A rounded number has a digit too many only if it is the next power of ten. -/
theorem eq_pow_of_carry (hpos : 0 < digits) (hdigits : numDigits n ≤ digits + k)
    (h : digits < numDigits (mode.quotient negative n (10 ^ k))) :
    numDigits n = digits + k ∧ mode.quotient negative n (10 ^ k) = 10 ^ digits := by
  have hne : mode.quotient negative n (10 ^ k) ≠ 0 := by
    intro hzero
    rw [hzero] at h
    exact absurd h (Nat.not_lt.mpr hpos)
  have hge : 10 ^ digits ≤ mode.quotient negative n (10 ^ k) :=
    not_lt.mp fun hlt => h.not_ge ((numDigits_le_iff hne).mpr hlt)
  have hle := quotient_le_pow mode negative n k
  have hplaces := (Nat.pow_le_pow_iff_right (by decide)).mp (hge.trans hle)
  have hnum : numDigits n = digits + k := by omega
  refine ⟨hnum, Nat.le_antisymm ?_ hge⟩
  rwa [hnum, Nat.add_sub_cancel] at hle

/-- A number that is rounded to digits has no others. -/
theorem fitsDigits_toDigits (hpos : 0 < digits) :
    FitsDigits digits (mode.toDigits negative digits n) := by
  by_cases hfew : numDigits n ≤ digits
  · rw [toDigits_of_fits (fitsDigits_of_le hfew)]
    exact fitsDigits_of_le hfew
  unfold Rounding.toDigits
  rw [fitsDigits_mul_pow_iff]
  by_cases hcarry :
      digits < numDigits (mode.quotient negative n (10 ^ (numDigits n - digits)))
  · rw [(eq_pow_of_carry hpos (by omega) hcarry).2, ← Nat.one_mul (10 ^ digits),
      fitsDigits_mul_pow_iff]
    exact fitsDigits_of_le hpos
  · exact fitsDigits_of_le (not_lt.mp hcarry)

/-- Dividing by ten as long as it can be done. -/
theorem stripZeros_spec (limit n : ℕ) :
    n = (stripZeros limit n).2 * 10 ^ (stripZeros limit n).1 ∧ (stripZeros limit n).1 ≤ limit ∧
      ∀ k ≤ limit, n ≠ 0 → 10 ^ k ∣ n → k ≤ (stripZeros limit n).1 := by
  induction limit generalizing n with
  | zero => simp [stripZeros]
  | succ limit ih =>
    unfold stripZeros
    split_ifs with hzero
    · obtain ⟨hvalue, hle, hall⟩ := ih (n / 10)
      have hn : n = n / 10 * 10 := by omega
      refine ⟨?_, by dsimp only; omega, fun k hk hne hdvd => ?_⟩
      · dsimp only
        rw [pow_succ, ← Nat.mul_assoc, ← hvalue]
        exact hn
      · cases k with
        | zero => exact Nat.zero_le _
        | succ k =>
          have hrest : 10 ^ k ∣ n / 10 := by
            rw [hn, pow_succ] at hdvd
            exact Nat.dvd_of_mul_dvd_mul_right (by decide) hdvd
          have hk' := hall k (by omega) (by omega) hrest
          dsimp only
          omega
    · refine ⟨by simp, Nat.zero_le _, fun k hk hne hdvd => ?_⟩
      cases k with
      | zero => exact Nat.zero_le _
      | succ k =>
        refine absurd (Nat.mod_eq_zero_of_dvd ((Dvd.intro_left (10 ^ k) rfl).trans ?_)) hzero
        rwa [← pow_succ]

end Digits

namespace DecimalContext

open PyDecimal

variable {ctx : DecimalContext} {negative : Bool} {coeff : ℕ} {exp : ℤ}

theorem valueOf_mul_pow (k : ℕ) :
    valueOf negative (coeff * 10 ^ k) exp = valueOf negative coeff (exp + k) := by
  unfold valueOf
  rw [zpow_add₀ (by norm_num), zpow_natCast]
  push_cast
  ring

/-- Zero stays zero. -/
theorem fix_zero : ∃ exp', ctx.fix negative 0 exp = .ok (.finite negative 0 exp') := by
  unfold fix
  exact ⟨_, if_pos rfl⟩

/-- The number of digits of a result that its context does not keep. -/
def dropped (ctx : DecimalContext) (coeff : ℕ) (exp : ℤ) : ℕ :=
  (max (numDigits coeff + exp - ctx.prec) ctx.etiny - exp).toNat

/-- The digits that it keeps, rounded. -/
def rounded (ctx : DecimalContext) (negative : Bool) (coeff : ℕ) (exp : ℤ) : ℕ :=
  ctx.rounding.quotient negative coeff (10 ^ ctx.dropped coeff exp)

/-- What rounding makes of a result that is not zero. -/
theorem fix_of_ne_zero (ctx : DecimalContext) (negative : Bool) (hne : coeff ≠ 0) :
    ctx.fix negative coeff exp =
      if emax + 1 < numDigits (ctx.rounded negative coeff exp) + (exp + ctx.dropped coeff exp) then
        .error .overflow
      else if ctx.prec < numDigits (ctx.rounded negative coeff exp) then
        .ok (.finite negative (ctx.rounded negative coeff exp / 10)
          (exp + ctx.dropped coeff exp + 1))
      else .ok (.finite negative (ctx.rounded negative coeff exp)
        (exp + ctx.dropped coeff exp)) := by
  have hpos := ctx.prec_pos
  have hrange : emin ≤ emax := by decide
  have hdrop : numDigits coeff ≤ ctx.prec + ctx.dropped coeff exp := by
    unfold dropped
    omega
  unfold fix
  dsimp only
  rw [if_neg hne]
  by_cases hover : ctx.etop < numDigits coeff + exp - ctx.prec
  · rw [if_pos hover, if_pos]
    have hless : ctx.dropped coeff exp < numDigits coeff := by
      have hone : 0 < numDigits coeff := Nat.succ_pos _
      unfold dropped etiny
      unfold etop at hover
      omega
    have hkept : 10 ^ (numDigits coeff - ctx.dropped coeff exp - 1) ≤
        ctx.rounded negative coeff exp := by
      refine le_trans ?_ le_quotient
      rw [Nat.le_div_iff_mul_le (by positivity), ← pow_add,
        show numDigits coeff - ctx.dropped coeff exp - 1 + ctx.dropped coeff exp =
          numDigits coeff - 1 by omega]
      exact pow_le_of_ne_zero hne
    have hnum := (Nat.pow_lt_pow_iff_right (by decide)).mp
      (hkept.trans_lt (lt_pow_numDigits _))
    unfold etop at hover
    omega
  · rw [if_neg hover]
    have hplace : exp + ctx.dropped coeff exp =
        max exp (max (numDigits coeff + exp - ctx.prec) ctx.etiny) := by
      unfold dropped
      omega
    by_cases hround : exp < max (numDigits coeff + exp - ctx.prec) ctx.etiny
    · have hrounded : ctx.rounding.quotient negative coeff
          (10 ^ (max (numDigits coeff + exp - ctx.prec) ctx.etiny - exp).toNat) =
          ctx.rounded negative coeff exp := rfl
      rw [if_pos hround, hplace, max_eq_right hround.le, hrounded]
      unfold etop at hover ⊢
      by_cases hcarry : ctx.prec < numDigits (ctx.rounded negative coeff exp)
      · have hten : numDigits (10 ^ ctx.prec) = ctx.prec + 1 :=
          numDigits_eq le_rfl (Nat.pow_lt_pow_right (by decide) (Nat.lt_succ_self _))
        have hpow := (eq_pow_of_carry hpos hdrop hcarry).2
        have hnum : numDigits (ctx.rounded negative coeff exp) = ctx.prec + 1 :=
          (congrArg numDigits hpow).trans hten
        rw [if_pos hcarry, if_pos hcarry, hnum]
        dsimp only
        refine if_congr ?_ rfl rfl
        omega
      · rw [if_neg hcarry, if_neg hcarry]
        dsimp only
        refine if_congr ?_ rfl rfl
        unfold etiny at *
        omega
    · have hnone : ctx.dropped coeff exp = 0 := by
        unfold dropped
        omega
      have hsame : ctx.rounded negative coeff exp = coeff := by
        unfold rounded
        rw [hnone, pow_zero, quotient_of_dvd one_pos (one_dvd _), Nat.div_one]
      rw [if_neg hround, hsame, hnone, if_neg, if_neg]
      · rw [Nat.cast_zero, add_zero]
      · omega
      · unfold etop at hover
        omega

/-- A result whose leading digit is in the range of the context is rounded to its digits. -/
theorem fix_eq (ctx : DecimalContext) (negative : Bool) (hne : coeff ≠ 0)
    (hmin : emin < numDigits coeff + exp) (hmax : numDigits coeff + exp ≤ emax) :
    ∃ coeff' exp', ctx.fix negative coeff exp = .ok (.finite negative coeff' exp') ∧
      exp ≤ exp' ∧ valueOf negative coeff' exp' =
        valueOf negative (ctx.rounding.toDigits negative ctx.prec coeff) exp := by
  have hpos := ctx.prec_pos
  have hdrop : ctx.dropped coeff exp = numDigits coeff - ctx.prec := by
    unfold dropped etiny
    omega
  have htoDigits : valueOf negative (ctx.rounding.toDigits negative ctx.prec coeff) exp =
      valueOf negative (ctx.rounded negative coeff exp) (exp + ctx.dropped coeff exp) := by
    unfold rounded Rounding.toDigits
    rw [hdrop, valueOf_mul_pow]
  have hnum : numDigits (ctx.rounded negative coeff exp) ≤
      numDigits coeff - ctx.dropped coeff exp + 1 := numDigits_quotient_le _ _ _ _
  rw [fix_of_ne_zero ctx negative hne, if_neg (by omega), htoDigits]
  split_ifs with hcarry
  · have hten : ctx.rounded negative coeff exp = 10 ^ ctx.prec :=
      (eq_pow_of_carry hpos (by omega) hcarry).2
    refine ⟨_, _, rfl, by omega, ?_⟩
    have hpow : 10 ^ ctx.prec = 10 ^ ctx.prec / 10 * 10 ^ 1 :=
      (Nat.div_mul_cancel (dvd_pow_self 10 hpos.ne')).symm
    rw [hten, hpow, valueOf_mul_pow, ← hpow]
    rfl
  · exact ⟨_, _, rfl, by omega, rfl⟩

section Quotient

variable {ideal : ℤ}

theorem sticky_mul_mul {k : ℕ} (hk : 0 < k) (a b : ℕ) : sticky (a * k) (b * k) = sticky a b := by
  unfold sticky
  rw [Nat.mul_div_mul_right _ _ hk, Nat.mul_mod_mul_right]
  simp only [ne_eq, Nat.mul_eq_zero, hk.ne', or_false]

/-- What remains of a division by a power of ten is shown behind the leading digits. -/
theorem numDigits_sticky {n k digits : ℕ} (h : numDigits n = digits + k) (hdigits : 1 < digits) :
    numDigits (sticky n (10 ^ k)) = digits := by
  have hne : n ≠ 0 := by
    rintro rfl
    have hone : numDigits 0 = 1 := rfl
    omega
  have hle : 10 ^ (digits - 1) ≤ n / 10 ^ k := by
    rw [Nat.le_div_iff_mul_le (by positivity), ← pow_add,
      show digits - 1 + k = numDigits n - 1 by omega]
    exact pow_le_of_ne_zero hne
  have hlt : n / 10 ^ k < 10 ^ digits := by
    rw [Nat.div_lt_iff_lt_mul (by positivity), ← pow_add, ← h]
    exact lt_pow_numDigits n
  have hten : 10 ^ digits % 5 = 0 :=
    Nat.mod_eq_zero_of_dvd ((by decide : 5 ∣ 10).trans (dvd_pow_self 10 (by omega)))
  obtain ⟨place, rfl⟩ : ∃ place, digits = place + 1 := ⟨digits - 1, by omega⟩
  have hbounds : n / 10 ^ k ≤ sticky n (10 ^ k) ∧ sticky n (10 ^ k) < 10 ^ (place + 1) := by
    unfold sticky
    split_ifs with hs <;> omega
  exact numDigits_eq (hle.trans hbounds.1) hbounds.2

/-- Dividing by a power of ten moves the point; what it loses is rounded correctly. -/
theorem quotientOf_pow (ctx : DecimalContext) (negative : Bool) (hne : coeff ≠ 0) (place : ℕ)
    (ideal : ℤ) :
    (ctx.quotientOf coeff (10 ^ place) ideal).1 ≠ 0 ∧
      ideal - place ≤ (ctx.quotientOf coeff (10 ^ place) ideal).2 ∧
      numDigits (ctx.quotientOf coeff (10 ^ place) ideal).1 +
          (ctx.quotientOf coeff (10 ^ place) ideal).2 = numDigits coeff + ideal - place ∧
      valueOf negative (ctx.rounding.toDigits negative ctx.prec
          (ctx.quotientOf coeff (10 ^ place) ideal).1)
          (ctx.quotientOf coeff (10 ^ place) ideal).2 =
        valueOf negative (ctx.rounding.toDigits negative ctx.prec coeff) (ideal - place) := by
  have hplace : numDigits (10 ^ place) = place + 1 := by
    have hone := numDigits_mul_pow one_ne_zero place
    rwa [Nat.one_mul, Nat.add_comm] at hone
  unfold quotientOf
  dsimp only
  rw [hplace]
  generalize hshift : ((place + 1 : ℕ) - numDigits coeff + ctx.prec + 1 : ℤ) = shift
  rw [← pow_add]
  split_ifs with hexact
  · -- nothing remains
    have hdvd := Nat.dvd_of_mod_eq_zero hexact
    obtain ⟨n, hn⟩ : ∃ n, coeff * 10 ^ shift.toNat / 10 ^ (place + (-shift).toNat) = n := ⟨_, rfl⟩
    rw [hn]
    have hvalue : n * 10 ^ (place + (-shift).toNat) = coeff * 10 ^ shift.toNat := by
      rw [← hn, Nat.div_mul_cancel hdvd]
    have hn0 : n ≠ 0 := by
      rintro rfl
      rw [Nat.zero_mul] at hvalue
      exact absurd hvalue.symm (by positivity)
    obtain ⟨hstrip, hlimit, hall⟩ := stripZeros_spec shift.toNat n
    generalize stripZeros shift.toNat n = stripped at hstrip hlimit hall
    obtain ⟨count, rest⟩ := stripped
    dsimp only at hstrip hlimit hall ⊢
    have hrest : rest ≠ 0 := by
      rintro rfl
      exact hn0 (hstrip.trans (Nat.zero_mul _))
    have hdigits := congrArg numDigits hvalue
    rw [numDigits_mul_pow hn0, numDigits_mul_pow hne] at hdigits
    have hdigits' := congrArg numDigits hstrip
    rw [numDigits_mul_pow hrest] at hdigits'
    refine ⟨hrest, ?_, by omega, ?_⟩
    · by_cases hlow : shift ≤ place
      · omega
      · have hzeros : 10 ^ (shift.toNat - place) ∣ n := by
          have hzero : (-shift).toNat = 0 := by omega
          rw [hzero, Nat.add_zero, show shift.toNat = shift.toNat - place + place by omega, pow_add,
            ← Nat.mul_assoc] at hvalue
          exact ⟨coeff, by rw [Nat.eq_of_mul_eq_mul_right (by positivity) hvalue, Nat.mul_comm]⟩
        have hcount := hall _ (by omega) hn0 hzeros
        omega
    · have htoDigits : ctx.rounding.toDigits negative ctx.prec rest *
            10 ^ (count + (place + (-shift).toNat)) =
          ctx.rounding.toDigits negative ctx.prec coeff * 10 ^ shift.toNat := by
        rw [← toDigits_mul_pow, ← toDigits_mul_pow, ← hvalue, hstrip, Nat.mul_assoc, ← pow_add]
      have hvalues := congrArg (valueOf negative · (ideal - place - shift.toNat)) htoDigits
      simp only [valueOf_mul_pow] at hvalues
      rw [show ideal - place - shift.toNat + shift.toNat = ideal - place by omega,
        show ideal - place - shift.toNat + (count + (place + (-shift).toNat) : ℕ) =
          ideal - shift + count by omega] at hvalues
      exact hvalues
  · -- the last digit shows that something remains
    have hlow : shift < place := by
      by_contra hge
      refine hexact (Nat.mod_eq_zero_of_dvd (Dvd.dvd.mul_left (pow_dvd_pow 10 ?_) coeff))
      omega
    obtain ⟨k, hk⟩ : ∃ k : ℕ, (k : ℤ) = place - shift := ⟨(place - shift).toNat, by omega⟩
    have hsticky : sticky (coeff * 10 ^ shift.toNat) (10 ^ (place + (-shift).toNat)) =
        sticky coeff (10 ^ k) := by
      rw [show place + (-shift).toNat = k + shift.toNat by omega, pow_add]
      exact sticky_mul_mul (by positivity) _ _
    have hnum : numDigits (sticky coeff (10 ^ k)) = ctx.prec + 2 :=
      numDigits_sticky (by omega) (by omega)
    rw [hsticky]
    dsimp only
    refine ⟨?_, by omega, by omega, ?_⟩
    · intro hzero
      rw [hzero] at hnum
      have hone : numDigits 0 = 1 := rfl
      omega
    · have htoDigits : ctx.rounding.toDigits negative ctx.prec coeff =
          ctx.rounding.toDigits negative ctx.prec (sticky coeff (10 ^ k)) * 10 ^ k := by
        unfold Rounding.toDigits
        rw [hnum, Nat.add_sub_cancel_left, quotient_sticky (by positivity) (by decide) (by decide),
          ← pow_add, show numDigits coeff - ctx.prec = k + 2 by omega, Nat.mul_assoc, ← pow_add,
          Nat.add_comm 2 k]
      rw [htoDigits, valueOf_mul_pow]
      congr 1
      omega

/-- A quotient by a power of ten is the dividend with its point moved, rounded to the digits of the
context. -/
theorem div_pow_eq (place : ℕ) (hne : coeff ≠ 0) (hmin : emin < numDigits coeff + exp - place)
    (hmax : numDigits coeff + exp - place ≤ emax) :
    ∃ coeff' exp', ctx.div (.finite negative coeff exp) (.finite false (10 ^ place) 0) =
        .ok (.finite negative coeff' exp') ∧
      exp - place ≤ exp' ∧ valueOf negative coeff' exp' =
        valueOf negative (ctx.rounding.toDigits negative ctx.prec coeff) (exp - place) := by
  obtain ⟨hne', hexp, hdigits, hvalue⟩ := quotientOf_pow ctx negative hne place exp
  obtain ⟨coeff', exp', hfix, hle, hvalue'⟩ := fix_eq ctx negative hne'
    (hmin.trans_eq hdigits.symm) (hdigits.trans_le hmax)
  refine ⟨coeff', exp', ?_, hexp.trans hle, hvalue'.trans hvalue⟩
  unfold div
  dsimp only
  rw [if_neg (by positivity), if_neg hne, sub_zero, Bool.xor_false]
  exact hfix

end Quotient

/-- A product with a power of ten is the factor with its point moved, rounded to the digits of the
context. -/
theorem mul_pow_eq (place : ℕ) (hne : coeff ≠ 0) (hmin : emin < numDigits coeff + exp + place)
    (hmax : numDigits coeff + exp + place ≤ emax) :
    ∃ coeff' exp', ctx.mul (.finite negative coeff exp) (.finite false (10 ^ place) 0) =
        .ok (.finite negative coeff' exp') ∧
      valueOf negative coeff' exp' =
        valueOf negative (ctx.rounding.toDigits negative ctx.prec coeff) (exp + place) := by
  have hnum := numDigits_mul_pow hne place
  have hshift : (numDigits (coeff * 10 ^ place) + exp : ℤ) = numDigits coeff + exp + place := by
    omega
  have hne' : coeff * 10 ^ place ≠ 0 := by positivity
  obtain ⟨coeff', exp', hfix, -, hvalue⟩ := fix_eq ctx negative hne' (hmin.trans_eq hshift.symm)
    (hshift.trans_le hmax)
  refine ⟨coeff', exp', ?_, ?_⟩
  · unfold mul
    dsimp only
    rw [Bool.xor_false, add_zero]
    exact hfix
  · rw [hvalue, toDigits_mul_pow, valueOf_mul_pow]

end DecimalContext

namespace PyDecimal

variable {negative : Bool} {coeff : ℕ} {exp : ℤ}

theorem valueOf_zero (negative : Bool) (exp : ℤ) : valueOf negative 0 exp = 0 := by
  unfold valueOf
  rw [Nat.cast_zero, mul_zero, zero_mul]

/-- The integer with a sign and a number. -/
def signed (negative : Bool) (n : ℕ) : ℤ := (if negative then -1 else 1) * n

theorem valueOf_exp_zero : valueOf negative coeff 0 = signed negative coeff := by
  unfold valueOf signed
  cases negative <;> simp

theorem signed_natAbs (n : ℤ) : signed (decide (n < 0)) n.natAbs = n := by
  unfold signed
  by_cases h : n < 0
  · rw [if_pos (decide_eq_true h)]
    omega
  · rw [if_neg (by simpa using h)]
    omega

theorem signed_inj {n m : ℕ} : signed negative n = signed negative m ↔ n = m := by
  unfold signed
  cases negative <;> simp

theorem valueOf_inj {coeff' : ℕ} :
    valueOf negative coeff exp = valueOf negative coeff' exp ↔ coeff = coeff' := by
  have hpow : (10 : ℚ) ^ exp ≠ 0 := zpow_ne_zero _ (by norm_num)
  unfold valueOf
  rw [mul_left_inj' hpow]
  cases negative <;> simp

/-- The number of an integer has its value. -/
theorem value?_ofInt (n : ℤ) : (ofInt n).value? = some (n : ℚ) := by
  unfold ofInt value?
  dsimp only
  rw [valueOf_exp_zero, signed_natAbs]

/-- Truncating a whole number does not change it. -/
theorem truncate_of_valueOf_eq {n : ℕ}
    (h : valueOf negative coeff exp = valueOf negative n 0) :
    truncate negative coeff exp = signed negative n := by
  have hsign : (if negative then (-1 : ℚ) else 1) ≠ 0 := by cases negative <;> norm_num
  have hvalue : (coeff : ℚ) * 10 ^ exp = n := by
    unfold valueOf at h
    rw [zpow_zero, mul_one, mul_assoc] at h
    exact mul_left_cancel₀ hsign h
  have hnat : coeff * 10 ^ exp.toNat = n * 10 ^ (-exp).toNat := by
    rw [← Nat.cast_inj (R := ℚ)]
    push_cast
    rw [← hvalue, mul_assoc, ← zpow_natCast, ← zpow_natCast, ← zpow_add₀ (by norm_num)]
    congr 2
    omega
  unfold truncate signed
  rw [hnat, Nat.mul_div_cancel _ (by positivity)]

end PyDecimal
