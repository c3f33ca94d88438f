import LedgerLens.Library.Checks
import LedgerLens.Library.DecimalText
import LedgerLens.Utils.Stroops

/-!
# The digits of amounts

The first two digits of an amount are read from the text of its absolute value. Taking the absolute
value rounds to the active context, and a text with an exponent has no second digit where the
coefficient has one digit. This file shows for which amounts the digits are right, and for which
series they all are.
-/

namespace LedgerLens.Utils.BenfordPrecision

open DecimalGuards PyDecimal DecimalContext

/-- What is raised. -/
inductive DigitsError
  /-- The arithmetic raises. -/
  | signal (e : DecimalSignal)
  /-- A character is no digit. -/
  | valueError
  /-- An amount is not valid. -/
  | amount (e : AmountValidationError)
  deriving DecidableEq

/-- The amounts that digits are extracted from. -/
inductive DigitAmount
  /-- A `DecimalAmount`. -/
  | wrapped (x : DecimalAmount)
  /-- A text, as the number that it is parsed to. -/
  | text (parsed : Option PyDecimal)
  /-- A `Decimal`. -/
  | plain (x : PyDecimal)

/-- The conversion to `Decimal`. -/
def DigitAmount.toDecimal : DigitAmount → Except DigitsError PyDecimal
  | .wrapped x => .ok x.value
  | .text none => .error (.amount .notConvertible)
  | .text (some x) => (validateAmount x none none false).mapError .amount
  | .plain x => .ok x

/-- `== 0`. -/
def isZero : PyDecimal → Bool
  | .finite _ coeff _ => coeff = 0
  | _ => false

/-- `int` of a character. -/
def intOfChar (ch : Char) : Except DigitsError ℕ :=
  if ch.isDigit then .ok (ch.toNat - '0'.toNat) else .error .valueError

variable (ctx : DecimalContext)

/-- `extract_leading_digit_safe`. -/
def extractLeadingDigitSafe (amount : DigitAmount) : Except DigitsError ℕ := do
  let decimalValue ← amount.toDecimal
  let decimalValue ← (ctx.abs decimalValue).mapError .signal
  if isZero decimalValue then .ok 0
  else
    match significantText decimalValue.str with
    | [] => .ok 0
    | ch :: _ => do
      let leadingDigit ← intOfChar ch
      if 1 ≤ leadingDigit ∧ leadingDigit ≤ 9 then .ok leadingDigit else .ok 0

/-- `extract_second_digit_safe`. -/
def extractSecondDigitSafe (amount : DigitAmount) : Except DigitsError ℤ := do
  let decimalValue ← amount.toDecimal
  let decimalValue ← (ctx.abs decimalValue).mapError .signal
  if isZero decimalValue then .ok (-1)
  else
    match significantText decimalValue.str with
    | _ :: ch :: _ => do
      let secondDigit ← intOfChar ch
      .ok secondDigit
    | _ => .ok 0

/-- `> 0`, for what is a number. -/
def isPositive : PyDecimal → Bool
  | .finite negative coeff _ => !negative && coeff ≠ 0
  | .infinity negative => !negative
  | .nan => false

/-- `amounts[amounts > 0]`. -/
def positiveAmounts (amounts : List PyDecimal) : Except DigitsError (List PyDecimal) :=
  if .nan ∈ amounts then .error (.signal .invalidOperation)
  else .ok (amounts.filter isPositive)

/-- What `apply` gives, or nothing if it raises. -/
def applyOrEmpty {α : Type} (extract : DigitAmount → Except DigitsError α)
    (amounts : List PyDecimal) : List α :=
  match amounts.mapM fun x => extract (.plain x) with
  | .ok digits => digits
  | .error _ => []

/-- `leading_digits_safe`. -/
def leadingDigitsSafe (amounts : List PyDecimal) : Except DigitsError (List ℕ) := do
  let positive ← positiveAmounts amounts
  .ok ((applyOrEmpty (extractLeadingDigitSafe ctx) positive).filter (0 < ·))

/-- `second_digits_safe`. -/
def secondDigitsSafe (amounts : List PyDecimal) : Except DigitsError (List ℤ) := do
  let positive ← positiveAmounts amounts
  .ok ((applyOrEmpty (extractSecondDigitSafe ctx) positive).filter (0 ≤ ·))

section Kept

/-- The place of the first digit, after rounding. -/
def leadingPlace (coeff : ℕ) (exp : ℤ) : ℤ :=
  numDigits (ctx.rounded false coeff exp) + (exp + ctx.dropped coeff exp) - 1

/-- The digits that the context keeps, rounded, have the right first digit and are in its range. -/
def FirstKept (coeff : ℕ) (exp : ℤ) : Prop :=
  leadingPlace ctx coeff exp ≤ emax ∧ firstDigit (ctx.rounded false coeff exp) = firstDigit coeff

/-- The digits that the context keeps, rounded, are in its range and not zero, have the right second
digit, and are not a single digit that is written with an exponent. -/
def SecondKept (coeff : ℕ) (exp : ℤ) : Prop :=
  leadingPlace ctx coeff exp ≤ emax ∧ ctx.rounded false coeff exp ≠ 0 ∧
    secondDigit (ctx.rounded false coeff exp) = secondDigit coeff ∧
    ¬(min (numDigits (ctx.rounded false coeff exp)) ctx.prec = 1 ∧
      (0 < leadingPlace ctx coeff exp ∨ leadingPlace ctx coeff exp ≤ -7))

end Kept

section Extract

variable {ctx} {coeff : ℕ} {exp : ℤ}

theorem intOfChar_digitChar {d : ℕ} (h : d ≤ 9) : intOfChar d.digitChar = .ok d := by
  interval_cases d <;> rfl

/-- The first digit of a coefficient is read. -/
theorem extractLeading_of_abs {x : PyDecimal} (hne : coeff ≠ 0)
    (habs : ctx.abs x = .ok (.finite false coeff exp)) :
    extractLeadingDigitSafe ctx (.plain x) = .ok (firstDigit coeff) := by
  obtain ⟨first, rest, hdigits⟩ :=
    List.exists_cons_of_ne_nil (Nat.toDigits_ne_nil (n := coeff) (b := 10))
  have hfirst := toDigits_zero_eq coeff
  rw [hdigits, List.getElem?_cons_zero, Option.some.injEq] at hfirst
  have hzero : isZero (.finite false coeff exp) = false := decide_eq_false hne
  have hmem := firstDigit_mem hne
  have habs' : (ctx.abs x).mapError DigitsError.signal = .ok (.finite false coeff exp) := by
    rw [habs]
    rfl
  unfold extractLeadingDigitSafe DigitAmount.toDecimal
  simp only [bind, Except.bind, habs', hzero, Bool.false_eq_true, if_false,
    significantText_str hne, hdigits, List.cons_append, hfirst, intOfChar_digitChar hmem.2]
  exact if_pos hmem

/-- The second digit of a coefficient is read, if it is not the exponent that is read. -/
theorem extractSecond_of_abs {x : PyDecimal} (hne : coeff ≠ 0)
    (habs : ctx.abs x = .ok (.finite false coeff exp)) :
    extractSecondDigitSafe ctx (.plain x) =
      if numDigits coeff < 2 ∧ ¬Plain coeff exp then .error .valueError
      else .ok (secondDigit coeff : ℤ) := by
  have hzero : isZero (.finite false coeff exp) = false := decide_eq_false hne
  have habs' : (ctx.abs x).mapError DigitsError.signal = .ok (.finite false coeff exp) := by
    rw [habs]
    rfl
  have hsecond := toDigits_one_eq coeff
  unfold extractSecondDigitSafe DigitAmount.toDecimal
  simp only [bind, Except.bind, habs', hzero, Bool.false_eq_true, if_false,
    significantText_str hne]
  match hdigits : Nat.toDigits 10 coeff with
  | [] => exact absurd hdigits Nat.toDigits_ne_nil
  | [first] =>
    have hone : numDigits coeff < 2 := by
      rw [← length_toDigits, hdigits]
      exact Nat.lt_succ_self 1
    by_cases hplain : Plain coeff exp
    · rw [if_pos hplain, if_neg fun h => h.2 hplain, secondDigit, if_pos hone]
      rfl
    · rw [if_neg hplain, if_pos ⟨hone, hplain⟩]
      rfl
  | first :: second :: rest =>
    have htwo : ¬numDigits coeff < 2 := by
      rw [← length_toDigits, hdigits, List.length_cons, List.length_cons]
      omega
    rw [hdigits, if_neg htwo, List.getElem?_cons_succ, List.getElem?_cons_zero,
      Option.some.injEq] at hsecond
    simp only [List.cons_append, hsecond, intOfChar_digitChar (secondDigit_le coeff)]
    exact (if_neg fun h => htwo h.1).symm

/-- What the absolute value of a number that is not zero is. -/
theorem abs_cases (ctx : DecimalContext) (negative : Bool) (exp : ℤ) (hne : coeff ≠ 0) :
    (emax < leadingPlace ctx coeff exp ∧
        ctx.abs (.finite negative coeff exp) = .error .overflow) ∨
      (leadingPlace ctx coeff exp ≤ emax ∧ ∃ coeff' exp',
        ctx.abs (.finite negative coeff exp) = .ok (.finite false coeff' exp') ∧
          (coeff' = 0 ↔ ctx.rounded false coeff exp = 0) ∧
          firstDigit coeff' = firstDigit (ctx.rounded false coeff exp) ∧
          secondDigit coeff' = secondDigit (ctx.rounded false coeff exp) ∧
          numDigits coeff' = min (numDigits (ctx.rounded false coeff exp)) ctx.prec ∧
          numDigits coeff' + exp' - 1 = leadingPlace ctx coeff exp) := by
  have hpos := ctx.prec_pos
  have habs : ctx.abs (.finite negative coeff exp) = ctx.fix false coeff exp := rfl
  rw [habs, fix_of_ne_zero ctx false hne]
  unfold leadingPlace
  by_cases hover : emax + 1 <
      numDigits (ctx.rounded false coeff exp) + (exp + ctx.dropped coeff exp)
  · exact .inl ⟨by omega, if_pos hover⟩
  refine .inr ⟨by omega, ?_⟩
  rw [if_neg hover]
  by_cases hcarry : ctx.prec < numDigits (ctx.rounded false coeff exp)
  · have hdrop : numDigits coeff ≤ ctx.prec + ctx.dropped coeff exp := by
      unfold dropped
      omega
    have hten : ctx.rounded false coeff exp = 10 ^ ctx.prec :=
      (eq_pow_of_carry hpos hdrop hcarry).2
    obtain ⟨k, hk⟩ : ∃ k, ctx.prec = k + 1 := ⟨ctx.prec - 1, by omega⟩
    have hrest : 10 ^ ctx.prec / 10 = 10 ^ k := by
      rw [hk, pow_succ, Nat.mul_div_cancel _ (by decide)]
    rw [if_pos hcarry, hten, hrest]
    refine ⟨_, _, rfl, iff_of_false (by positivity) (by positivity), ?_, ?_, ?_, ?_⟩
    · rw [firstDigit_pow, firstDigit_pow]
    · rw [secondDigit_pow, secondDigit_pow]
    · rw [numDigits_pow, numDigits_pow]
      omega
    · rw [numDigits_pow, numDigits_pow]
      omega
  · rw [if_neg hcarry]
    exact ⟨_, _, rfl, .rfl, rfl, rfl, (min_eq_left (not_lt.mp hcarry)).symm, by omega⟩

theorem extractLeading_eq (ctx : DecimalContext) (negative : Bool) (exp : ℤ) (hne : coeff ≠ 0) :
    extractLeadingDigitSafe ctx (.plain (.finite negative coeff exp)) =
      if emax < leadingPlace ctx coeff exp then .error (.signal .overflow)
      else .ok (firstDigit (ctx.rounded false coeff exp)) := by
  rcases abs_cases ctx negative exp hne with ⟨hover, habs⟩ |
    ⟨hfits, coeff', exp', habs, hzero, hfirst, -, -, -⟩
  · rw [if_pos hover]
    unfold extractLeadingDigitSafe DigitAmount.toDecimal
    simp only [bind, Except.bind, habs, Except.mapError]
  · rw [if_neg hfits.not_gt, ← hfirst]
    by_cases hcoeff : coeff' = 0
    · subst hcoeff
      unfold extractLeadingDigitSafe DigitAmount.toDecimal
      simp only [bind, Except.bind, habs, Except.mapError]
      rfl
    · exact extractLeading_of_abs hcoeff habs

theorem extractSecond_eq (ctx : DecimalContext) (negative : Bool) (exp : ℤ) (hne : coeff ≠ 0) :
    extractSecondDigitSafe ctx (.plain (.finite negative coeff exp)) =
      if emax < leadingPlace ctx coeff exp then .error (.signal .overflow)
      else if ctx.rounded false coeff exp = 0 then .ok (-1)
      else if min (numDigits (ctx.rounded false coeff exp)) ctx.prec = 1 ∧
          (0 < leadingPlace ctx coeff exp ∨ leadingPlace ctx coeff exp ≤ -7) then
        .error .valueError
      else .ok (secondDigit (ctx.rounded false coeff exp) : ℤ) := by
  rcases abs_cases ctx negative exp hne with ⟨hover, habs⟩ |
    ⟨hfits, coeff', exp', habs, hzero, -, hsecond, hnum, hplace⟩
  · rw [if_pos hover]
    unfold extractSecondDigitSafe DigitAmount.toDecimal
    simp only [bind, Except.bind, habs, Except.mapError]
  · rw [if_neg hfits.not_gt, ← hsecond, ← hnum]
    by_cases hcoeff : coeff' = 0
    · rw [if_pos (hzero.mp hcoeff)]
      subst hcoeff
      unfold extractSecondDigitSafe DigitAmount.toDecimal
      simp only [bind, Except.bind, habs, Except.mapError]
      rfl
    · rw [if_neg fun h => hcoeff (hzero.mpr h), extractSecond_of_abs hcoeff habs]
      refine if_congr ?_ rfl rfl
      have hpos : 0 < numDigits coeff' := Nat.succ_pos _
      unfold Plain
      omega

end Extract

section Series

variable {ctx : DecimalContext}

theorem leading_right_iff (negative : Bool) {coeff : ℕ} (exp : ℤ) (hne : coeff ≠ 0) :
    extractLeadingDigitSafe ctx (.plain (.finite negative coeff exp)) = .ok (firstDigit coeff) ↔
      FirstKept ctx coeff exp := by
  rw [extractLeading_eq ctx negative exp hne]
  unfold FirstKept
  split_ifs with hover
  · exact iff_of_false (by simp) fun h => h.1.not_gt hover
  · rw [Except.ok.injEq, and_iff_right (not_lt.mp hover)]

theorem second_right_iff (negative : Bool) {coeff : ℕ} (exp : ℤ) (hne : coeff ≠ 0) :
    extractSecondDigitSafe ctx (.plain (.finite negative coeff exp)) =
      .ok (secondDigit coeff : ℤ) ↔ SecondKept ctx coeff exp := by
  rw [extractSecond_eq ctx negative exp hne]
  unfold SecondKept
  split_ifs with hover hzero hone
  · exact iff_of_false (by simp) fun h => h.1.not_gt hover
  · refine iff_of_false (fun h => ?_) fun h => h.2.1 hzero
    have heq := Except.ok.inj h
    omega
  · exact iff_of_false (by simp) fun h => h.2.2.2 hone
  · rw [Except.ok.injEq, Nat.cast_inj]
    exact ⟨fun h => ⟨not_lt.mp hover, hzero, h, hone⟩, fun h => h.2.2.1⟩

/-- A series has the right digits exactly if each of its amounts has. -/
theorem applyOrEmpty_filter_iff {α : Type} {extract : DigitAmount → Except DigitsError α}
    {f : PyDecimal → α} {p : α → Bool} {amounts : List PyDecimal}
    (hp : ∀ x ∈ amounts, p (f x) = true) :
    (applyOrEmpty extract amounts).filter p = amounts.map f ↔
      ∀ x ∈ amounts, extract (.plain x) = .ok (f x) := by
  unfold applyOrEmpty
  constructor
  · intro h
    cases hdigits : amounts.mapM fun x => extract (.plain x) with
    | error e =>
      rw [hdigits] at h
      obtain rfl := List.map_eq_nil_iff.mp h.symm
      exact fun x hx => absurd hx List.not_mem_nil
    | ok digits =>
      rw [hdigits] at h
      dsimp only at h
      have hlength : (digits.filter p).length = digits.length := by
        rw [h, List.length_map, Except.length_of_mapM_eq_ok hdigits]
      rw [List.filter_eq_self.mpr (List.length_filter_eq_length_iff.mp hlength)] at h
      rw [h, Except.mapM_eq_ok_iff, List.forall₂_map_right_iff] at hdigits
      exact List.forall₂_same.mp hdigits
  · intro h
    have hall : (amounts.mapM fun x => extract (.plain x)) = .ok (amounts.map f) :=
      Except.mapM_eq_ok h
    rw [hall]
    refine List.filter_eq_self.mpr fun d hd => ?_
    obtain ⟨x, hx, rfl⟩ := List.mem_map.mp hd
    exact hp x hx

/-- The coefficient of a number that is finite. -/
def coeffOf : PyDecimal → ℕ
  | .finite _ coeff _ => coeff
  | _ => 0

/-- The exponent of a number that is finite. -/
def expOf : PyDecimal → ℤ
  | .finite _ _ exp => exp
  | _ => 0

/-- The number is finite. -/
def IsFinite (x : PyDecimal) : Prop := ∃ negative coeff exp, x = .finite negative coeff exp

/-- A positive finite number has a coefficient that is not zero. -/
theorem eq_of_isPositive {x : PyDecimal} (hfinite : IsFinite x) (hpositive : isPositive x = true) :
    x = .finite false (coeffOf x) (expOf x) ∧ coeffOf x ≠ 0 := by
  obtain ⟨negative, coeff, exp, rfl⟩ := hfinite
  unfold isPositive at hpositive
  rw [Bool.and_eq_true, Bool.not_eq_true', decide_eq_true_eq] at hpositive
  obtain ⟨rfl, hne⟩ := hpositive
  exact ⟨rfl, hne⟩

/-- The positive amounts of a series of finite numbers. -/
theorem positiveAmounts_eq {amounts : List PyDecimal} (h : ∀ x ∈ amounts, IsFinite x) :
    positiveAmounts amounts = .ok (amounts.filter isPositive) := by
  refine if_neg fun hnan => ?_
  obtain ⟨negative, coeff, exp, heq⟩ := h _ hnan
  cases heq

theorem leadingDigits_right_iff {amounts : List PyDecimal} (h : ∀ x ∈ amounts, IsFinite x) :
    leadingDigitsSafe ctx amounts =
        .ok ((amounts.filter isPositive).map fun x => firstDigit (coeffOf x)) ↔
      ∀ x ∈ amounts.filter isPositive, FirstKept ctx (coeffOf x) (expOf x) := by
  have hpositive {x : PyDecimal} (hx : x ∈ amounts.filter isPositive) :=
    eq_of_isPositive (h x (List.mem_of_mem_filter hx)) (List.mem_filter.mp hx).2
  unfold leadingDigitsSafe
  rw [positiveAmounts_eq h]
  simp only [bind, Except.bind, Except.ok.injEq]
  rw [applyOrEmpty_filter_iff]
  · refine forall₂_congr fun x hx => ?_
    obtain ⟨heq, hne⟩ := hpositive hx
    rw [← leading_right_iff false _ hne, ← heq]
  · exact fun x hx => decide_eq_true (firstDigit_mem (hpositive hx).2).1

theorem secondDigits_right_iff {amounts : List PyDecimal} (h : ∀ x ∈ amounts, IsFinite x) :
    secondDigitsSafe ctx amounts =
        .ok ((amounts.filter isPositive).map fun x => (secondDigit (coeffOf x) : ℤ)) ↔
      ∀ x ∈ amounts.filter isPositive, SecondKept ctx (coeffOf x) (expOf x) := by
  have hpositive {x : PyDecimal} (hx : x ∈ amounts.filter isPositive) :=
    eq_of_isPositive (h x (List.mem_of_mem_filter hx)) (List.mem_filter.mp hx).2
  unfold secondDigitsSafe
  rw [positiveAmounts_eq h]
  simp only [bind, Except.bind, Except.ok.injEq]
  rw [applyOrEmpty_filter_iff]
  · refine forall₂_congr fun x hx => ?_
    obtain ⟨heq, hne⟩ := hpositive hx
    rw [← second_right_iff false _ hne, ← heq]
  · exact fun x hx => decide_eq_true (Int.natCast_nonneg _)

/-- The two digits are those of a number. -/
def FirstTwo (coeff : ℕ) (exp : ℤ) (first second : ℕ) : Prop :=
  1 ≤ first ∧ first ≤ 9 ∧ second ≤ 9 ∧ ∃ place : ℤ,
    ((10 * first + second : ℕ) : ℚ) * 10 ^ place ≤ coeff * 10 ^ exp ∧
      (coeff : ℚ) * 10 ^ exp < ((10 * first + second + 1 : ℕ) : ℚ) * 10 ^ place

/-- For every context: the first digit of a number that is not zero is right exactly if it is the
first one of the digits that the context keeps, rounded, and these are in its range; the second one
also needs that they are not a single digit that is written with an exponent. A series of finite
numbers has a right digit for each positive one exactly if this holds of every positive one. -/
theorem digits_right_iff (ctx : DecimalContext) :
    (∀ coeff exp, coeff ≠ 0 → FirstTwo coeff exp (firstDigit coeff) (secondDigit coeff)) ∧
    (∀ negative coeff exp, coeff ≠ 0 →
      (extractLeadingDigitSafe ctx (.plain (.finite negative coeff exp)) =
          .ok (firstDigit coeff) ↔ FirstKept ctx coeff exp) ∧
        (extractSecondDigitSafe ctx (.plain (.finite negative coeff exp)) =
          .ok (secondDigit coeff : ℤ) ↔ SecondKept ctx coeff exp)) ∧
    ∀ amounts : List PyDecimal, (∀ x ∈ amounts, IsFinite x) →
      (leadingDigitsSafe ctx amounts =
          .ok ((amounts.filter isPositive).map fun x => firstDigit (coeffOf x)) ↔
        ∀ x ∈ amounts.filter isPositive, FirstKept ctx (coeffOf x) (expOf x)) ∧
      (secondDigitsSafe ctx amounts =
          .ok ((amounts.filter isPositive).map fun x => (secondDigit (coeffOf x) : ℤ)) ↔
        ∀ x ∈ amounts.filter isPositive, SecondKept ctx (coeffOf x) (expOf x)) :=
  ⟨fun coeff exp hne => ⟨(firstDigit_mem hne).1, (firstDigit_mem hne).2, secondDigit_le coeff,
      firstTwo_mem coeff exp⟩,
    fun negative _ exp hne =>
      ⟨leading_right_iff negative exp hne, second_right_iff negative exp hne⟩,
    fun _ h => ⟨leadingDigits_right_iff h, secondDigits_right_iff h⟩⟩

/-- A number that has no more digits than the context, and its first digit in the range, keeps them
all: only a single digit that is written with an exponent has no second one. -/
theorem kept_of_few_digits {coeff : ℕ} {exp : ℤ} (hne : coeff ≠ 0)
    (hfew : numDigits coeff ≤ ctx.prec) (hmin : emin ≤ numDigits coeff + exp - 1) (hmax : numDigits coeff + exp - 1 ≤ emax) :
    FirstKept ctx coeff exp ∧
      (SecondKept ctx coeff exp ↔ ¬(numDigits coeff = 1 ∧ (0 < exp ∨ exp ≤ -7))) := by
  have hnone : ctx.dropped coeff exp = 0 := by
    unfold dropped etiny
    omega
  have hsame : ctx.rounded false coeff exp = coeff := by
    unfold rounded
    rw [hnone, pow_zero, quotient_of_dvd one_pos (one_dvd _), Nat.div_one]
  unfold FirstKept SecondKept leadingPlace
  rw [hsame, hnone]
  refine ⟨⟨by omega, rfl⟩, ?_⟩
  constructor
  · rintro ⟨-, -, -, hone⟩ ⟨hdigit, hexp⟩
    exact hone ⟨by omega, by omega⟩
  · intro hone
    exact ⟨by omega, hne, rfl, fun h => hone ⟨by omega, by omega⟩⟩

/-- In the default context 1E+30 has no second digit, and takes that of 12 with it; the number of 29
nines begins with a one. -/
theorem digits_default :
    extractSecondDigitSafe {} (.plain (.finite false 1 30)) = .error .valueError ∧
      secondDigitsSafe {} [.finite false 12 0, .finite false 1 30] = .ok [] ∧
      extractLeadingDigitSafe {} (.plain (.finite false 99999999999999999999999999999 0)) = .ok 1 ∧
      ¬∀ coeff exp, coeff ≠ 0 →
        extractSecondDigitSafe {} (.plain (.finite false coeff exp)) =
          .ok (secondDigit coeff : ℤ) := by
  have hsecond : extractSecondDigitSafe {} (.plain (.finite false 1 30)) = .error .valueError := by
    decide +kernel
  refine ⟨hsecond, by decide +kernel, by decide +kernel, fun hall => ?_⟩
  cases hsecond.symm.trans (hall 1 30 one_ne_zero)

end Series

end LedgerLens.Utils.BenfordPrecision
