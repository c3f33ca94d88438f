import LedgerLens.Library.DecimalArithmetic
import Mathlib.Algebra.Order.Ring.Abs

/-!
# Conversion to stroops and back

An amount is converted by one multiplication or division with ten million, which rounds to the
digits of the active context. This file shows for which amounts and contexts the conversions are
exact. The check for lost precision comes after the rounding and never finds any.
-/

namespace LedgerLens.Utils.DecimalGuards

open PyDecimal DecimalContext

/-- `STELLAR_PRECISION`. -/
def stellarPrecision : ℕ := 7

/-- `STROOPS_MULTIPLIER`. -/
def stroopsMultiplier : PyDecimal := .finite false (10 ^ stellarPrecision) 0

/-- The largest number of stroops. -/
def maxStroops : ℕ := 9223372036854775807

/-- `STELLAR_MAX_AMOUNT`. -/
def stellarMaxAmount : PyDecimal := .finite false maxStroops (-7)

/-- `STELLAR_MIN_AMOUNT`. -/
def stellarMinAmount : PyDecimal := .finite true maxStroops (-7)

/-- `AmountValidationError`. -/
inductive AmountValidationError
  /-- The value cannot be converted to a decimal number. -/
  | notConvertible
  /-- NaN is not allowed. -/
  | nan
  /-- Infinity is not allowed. -/
  | infinity
  /-- The value is negative, which is not allowed. -/
  | negative
  /-- The value is below the minimum. -/
  | belowMinimum
  /-- The value is above the maximum. -/
  | aboveMaximum
  /-- The value has more than seven decimal places. -/
  | decimalPlaces
  deriving DecidableEq

/-- `StroopsConversionError`. -/
inductive StroopsConversionError
  /-- `Cannot convert … to stroops: fractional stroops are not allowed`. -/
  | fractionalStroops
  /-- `Cannot convert … to stroops: …`. -/
  | cannotConvert (e : AmountValidationError)
  /-- `Precision loss in stroops conversion: … has fractional stroops`. -/
  | precisionLoss
  /-- `Invalid stroops value …: …`. -/
  | invalidStroops (e : AmountValidationError)
  deriving DecidableEq

/-- What the conversions raise. -/
inductive StroopsError
  /-- `StroopsConversionError`. -/
  | conversion (e : StroopsConversionError)
  /-- The amount that was made is not valid. -/
  | amount (e : AmountValidationError)
  /-- A text is compared with an integer. -/
  | typeError
  /-- A special number is made an integer. -/
  | valueError
  /-- The arithmetic raises. -/
  | signal (e : DecimalSignal)
  deriving DecidableEq

/-- `DecimalAmount`. An amount that was made from a floating point number can have any value, also
a special one. -/
structure DecimalAmount where
  /-- `_value`. -/
  value : PyDecimal
  deriving DecidableEq

/-- `<` of finite numbers. -/
def less (x y : PyDecimal) : Bool :=
  match x.value?, y.value? with
  | some a, some b => a < b
  | _, _ => false

/-- `validate_amount`, for a value that is a `Decimal` already. -/
def validateAmount (value : PyDecimal) (minValue maxValue : Option PyDecimal)
    (allowNegative : Bool) : Except AmountValidationError PyDecimal :=
  match value with
  | .nan => .error .nan
  | .infinity _ => .error .infinity
  | .finite _ _ _ =>
    if !allowNegative && less value (.finite false 0 0) then .error .negative
    else if minValue.any fun minimum => less value minimum then .error .belowMinimum
    else if maxValue.any fun maximum => less maximum value then .error .aboveMaximum
    else .ok value

/-- `as_tuple().exponent`, where it is a number. -/
def exponent? : PyDecimal → Option ℤ
  | .finite _ _ exp => some exp
  | _ => none

/-- `validate_stellar_amount`, for a value that is a `Decimal` already. -/
def validateStellarAmount (value : PyDecimal) : Except AmountValidationError PyDecimal := do
  let decimalValue ← validateAmount value (some stellarMinAmount) (some stellarMaxAmount) true
  if (exponent? decimalValue).any fun exp => exp < -(stellarPrecision : ℤ) then
    .error .decimalPlaces
  else .ok decimalValue

/-- `DecimalAmount.__init__`, for a value that is a `Decimal`. -/
def DecimalAmount.new (value : PyDecimal) : Except AmountValidationError DecimalAmount := do
  let decimalValue ← validateAmount value none none true
  return ⟨decimalValue⟩

/-- `int` of a number. -/
def toInt : PyDecimal → Except StroopsError ℤ
  | .finite negative coeff exp => .ok (truncate negative coeff exp)
  | _ => .error .valueError

/-- `to_stroops`. -/
def DecimalAmount.toStroops (ctx : DecimalContext) (x : DecimalAmount) : Except StroopsError ℤ :=
  match validateStellarAmount x.value with
  | .error e =>
    match exponent? x.value with
    | none => .error .typeError
    | some exp =>
      if exp < -(stellarPrecision : ℤ) then .error (.conversion .fractionalStroops)
      else .error (.conversion (.cannotConvert e))
  | .ok _ => do
    let stroopsDecimal ← (ctx.mul x.value stroopsMultiplier).mapError .signal
    let stroopsInt ← toInt stroopsDecimal
    if (ofInt stroopsInt).value? ≠ stroopsDecimal.value? then .error (.conversion .precisionLoss)
    else .ok stroopsInt

/-- `from_stroops`, for an integer. -/
def DecimalAmount.fromStroops (ctx : DecimalContext) (stroops : ℤ) :
    Except StroopsError DecimalAmount := do
  let decimalValue ← (ctx.div (ofInt stroops) stroopsMultiplier).mapError .signal
  match validateStellarAmount decimalValue with
  | .error e => throw (.conversion (.invalidStroops e))
  | .ok _ => (DecimalAmount.new decimalValue).mapError .amount

section Validate

variable {negative : Bool} {coeff : ℕ} {exp : ℤ} {n : ℕ}

/-- The amount is in the range of the network. -/
def InRange (negative : Bool) (coeff : ℕ) (exp : ℤ) : Prop :=
  |valueOf negative coeff exp| ≤ valueOf false maxStroops (-7)

/-- What is validated is in the range and has seven decimal places at most. -/
theorem validateStellarAmount_eq (negative : Bool) (coeff : ℕ) (exp : ℤ) :
    (InRange negative coeff exp ∧ -7 ≤ exp ∧
        validateStellarAmount (.finite negative coeff exp) = .ok (.finite negative coeff exp)) ∨
      (¬(InRange negative coeff exp ∧ -7 ≤ exp) ∧
        ∃ e, validateStellarAmount (.finite negative coeff exp) = .error e) := by
  have hmin : valueOf true maxStroops (-7) = -valueOf false maxStroops (-7) := by
    simp [valueOf]
  have hrange : InRange negative coeff exp ↔
      ¬valueOf negative coeff exp < valueOf true maxStroops (-7) ∧
        ¬valueOf false maxStroops (-7) < valueOf negative coeff exp := by
    rw [hmin, not_lt, not_lt]
    exact abs_le
  have hvalidate : validateAmount (.finite negative coeff exp) (some stellarMinAmount)
      (some stellarMaxAmount) true =
      if valueOf negative coeff exp < valueOf true maxStroops (-7) then .error .belowMinimum
      else if valueOf false maxStroops (-7) < valueOf negative coeff exp then .error .aboveMaximum
      else .ok (.finite negative coeff exp) := by
    simp [validateAmount, less, stellarMinAmount, stellarMaxAmount, value?]
  have hplaces : (exponent? (.finite negative coeff exp)).any
      (fun exp => decide (exp < -(stellarPrecision : ℤ))) = decide (exp < -7) := rfl
  unfold validateStellarAmount
  rw [hvalidate, hrange]
  split_ifs with hlow hhigh
  · exact .inr ⟨fun h => h.1.1 hlow, _, rfl⟩
  · exact .inr ⟨fun h => h.1.2 hhigh, _, rfl⟩
  · simp only [bind, Except.bind, hplaces, decide_eq_true_eq]
    split_ifs with hexp
    · exact .inr ⟨fun h => (not_lt.mpr h.2) hexp, _, rfl⟩
    · exact .inl ⟨⟨hlow, hhigh⟩, not_lt.mp hexp, rfl⟩

/-- An amount with seven decimal places at most, in stroops. -/
theorem valueOf_eq_stroops (hexp : -7 ≤ exp) : valueOf negative coeff exp =
    valueOf negative (coeff * 10 ^ (exp + 7).toNat) (-7) := by
  rw [valueOf_mul_pow]
  congr 1
  omega

/-- In the range there are no more digits than the largest number of stroops has. -/
theorem inRange_iff (hexp : -7 ≤ exp) :
    InRange negative coeff exp ↔ coeff * 10 ^ (exp + 7).toNat ≤ maxStroops := by
  have habs (n : ℕ) : |valueOf negative n (-7)| = (n : ℚ) * 10 ^ (-7 : ℤ) := by
    cases negative <;> simp [valueOf, abs_mul]
  unfold InRange
  rw [valueOf_eq_stroops hexp, habs, valueOf, if_neg (by decide), one_mul,
    mul_le_mul_iff_of_pos_right (by positivity), Nat.cast_le]

theorem inRange_congr {coeff' : ℕ} {exp' : ℤ}
    (h : valueOf negative coeff exp = valueOf negative coeff' exp') :
    InRange negative coeff exp ↔ InRange negative coeff' exp' := by
  unfold InRange
  rw [h]

theorem inRange_stroops : InRange negative n (-7) ↔ n ≤ maxStroops := by
  rw [inRange_iff le_rfl]
  exact iff_of_eq (congrArg (· ≤ maxStroops) (Nat.mul_one n))

/-- Numbers of stroops have nineteen digits at most. -/
theorem numDigits_le_of_le (h : n ≤ maxStroops) : numDigits n ≤ 19 := by
  by_cases hn : n = 0
  · subst hn
    decide
  · rw [numDigits_le_iff hn]
    exact h.trans_lt (by decide)

end Validate

section Convert

variable {ctx : DecimalContext} {negative : Bool} {coeff : ℕ} {exp : ℤ} {n : ℤ}

/-- The value of stroops. -/
theorem valueOf_stroops (n : ℤ) : valueOf (decide (n < 0)) n.natAbs (-7) = n / 10 ^ 7 := by
  have hvalue : valueOf (decide (n < 0)) n.natAbs 0 = n := Option.some.inj (value?_ofInt n)
  unfold valueOf at hvalue ⊢
  rw [zpow_zero, mul_one] at hvalue
  rw [hvalue, zpow_neg, ← div_eq_mul_inv]
  rfl

/-- The sign and the number of stroops, rounded to the digits of a context. -/
def roundedStroops (ctx : DecimalContext) (n : ℤ) : ℕ :=
  ctx.rounding.toDigits (decide (n < 0)) ctx.prec n.natAbs

/-- The division makes of stroops the amount, rounded to the digits of the context. -/
theorem div_stroops (ctx : DecimalContext) (hn : n.natAbs ≤ maxStroops) :
    ∃ coeff exp, ctx.div (ofInt n) stroopsMultiplier = .ok (.finite (decide (n < 0)) coeff exp) ∧
      -7 ≤ exp ∧ valueOf (decide (n < 0)) coeff exp =
        valueOf (decide (n < 0)) (roundedStroops ctx n) (-7) := by
  by_cases hzero : n = 0
  · subst hzero
    refine ⟨0, min (max 0 ctx.etiny) emax, rfl, ?_, ?_⟩
    · exact le_min ((by decide : (-7 : ℤ) ≤ 0).trans (le_max_left _ _)) (by decide)
    · rw [valueOf_zero, roundedStroops, Int.natAbs_zero, toDigits_zero, valueOf_zero]
  · have hne : n.natAbs ≠ 0 := Int.natAbs_ne_zero.mpr hzero
    have hdigits := numDigits_le_of_le hn
    have hpos : 0 < numDigits n.natAbs := Nat.succ_pos _
    have hmin : emin < numDigits n.natAbs + 0 - (stellarPrecision : ℤ) := by
      unfold emin stellarPrecision
      omega
    have hmax : numDigits n.natAbs + 0 - (stellarPrecision : ℤ) ≤ emax := by
      unfold emax stellarPrecision
      omega
    obtain ⟨coeff, exp, hdiv, hexp, hvalue⟩ := div_pow_eq stellarPrecision hne hmin hmax
    exact ⟨coeff, exp, hdiv, hexp, hvalue⟩

/-- `from_stroops` gives the amount, rounded to the digits of the context, if that is in the
range. -/
theorem fromStroops_eq (ctx : DecimalContext) (hn : n.natAbs ≤ maxStroops) :
    (roundedStroops ctx n ≤ maxStroops ∧ ∃ coeff exp,
      DecimalAmount.fromStroops ctx n = .ok ⟨.finite (decide (n < 0)) coeff exp⟩ ∧ -7 ≤ exp ∧
        valueOf (decide (n < 0)) coeff exp =
          valueOf (decide (n < 0)) (roundedStroops ctx n) (-7)) ∨
      (maxStroops < roundedStroops ctx n ∧ ∃ e, DecimalAmount.fromStroops ctx n = .error e) := by
  obtain ⟨coeff, exp, hdiv, hexp, hvalue⟩ := div_stroops ctx hn
  have hrange : InRange (decide (n < 0)) coeff exp ↔ roundedStroops ctx n ≤ maxStroops :=
    (inRange_congr hvalue).trans inRange_stroops
  unfold DecimalAmount.fromStroops
  rw [hdiv]
  rcases validateStellarAmount_eq (decide (n < 0)) coeff exp with
    ⟨hin, -, hvalid⟩ | ⟨hout, e, hvalid⟩
  · refine .inl ⟨hrange.mp hin, coeff, exp, ?_, hexp, hvalue⟩
    simp only [Except.mapError, bind, Except.bind, hvalid]
    rfl
  · refine .inr ⟨not_le.mp fun hle => hout ⟨hrange.mpr hle, hexp⟩, ?_⟩
    simp only [Except.mapError, bind, Except.bind, hvalid]
    exact ⟨_, rfl⟩

/-- The multiplication makes of an amount the number of stroops, rounded to the digits of the
context. -/
theorem mul_stroops (ctx : DecimalContext) (hrange : InRange negative coeff exp)
    (hexp : -7 ≤ exp) :
    ∃ coeff' exp', ctx.mul (.finite negative coeff exp) stroopsMultiplier =
      .ok (.finite negative coeff' exp') ∧ valueOf negative coeff' exp' = valueOf negative
        (ctx.rounding.toDigits negative ctx.prec coeff * 10 ^ (exp + 7).toNat) 0 := by
  rw [valueOf_mul_pow, Int.toNat_of_nonneg (by omega), zero_add]
  by_cases hzero : coeff = 0
  · subst hzero
    have hfix : ∃ exp', ctx.fix negative 0 exp = .ok (.finite negative 0 exp') := fix_zero
    obtain ⟨exp', hfix⟩ := hfix
    refine ⟨0, exp', ?_, by rw [toDigits_zero, valueOf_zero, valueOf_zero]⟩
    unfold mul stroopsMultiplier
    dsimp only
    rw [Bool.xor_false, Nat.zero_mul, add_zero]
    exact hfix
  · have hle := numDigits_le_of_le ((inRange_iff hexp).mp hrange)
    rw [numDigits_mul_pow hzero] at hle
    have hpos : 0 < numDigits coeff := Nat.succ_pos _
    have hmin : emin < numDigits coeff + exp + (stellarPrecision : ℤ) := by
      unfold emin stellarPrecision
      omega
    have hmax : numDigits coeff + exp + (stellarPrecision : ℤ) ≤ emax := by
      unfold emax stellarPrecision
      omega
    obtain ⟨coeff', exp', hmul, hvalue⟩ := mul_pow_eq stellarPrecision hzero hmin hmax
    exact ⟨coeff', exp', hmul, hvalue⟩

/-- `to_stroops` gives the number of stroops, rounded to the digits of the context, of an amount in
the range with seven decimal places at most. -/
theorem toStroops_eq (ctx : DecimalContext) (hrange : InRange negative coeff exp)
    (hexp : -7 ≤ exp) :
    DecimalAmount.toStroops ctx ⟨.finite negative coeff exp⟩ = .ok (signed negative
      (ctx.rounding.toDigits negative ctx.prec coeff * 10 ^ (exp + 7).toNat)) := by
  obtain ⟨coeff', exp', hmul, hvalue⟩ := mul_stroops ctx hrange hexp
  have hvalid : validateStellarAmount (.finite negative coeff exp) =
      .ok (.finite negative coeff exp) := by
    rcases validateStellarAmount_eq negative coeff exp with ⟨-, -, hvalid⟩ | ⟨hout, -⟩
    · exact hvalid
    · exact absurd ⟨hrange, hexp⟩ hout
  have hint := truncate_of_valueOf_eq hvalue
  -- the product is a whole number already, so that no loss is found
  have hcheck : (ofInt (truncate negative coeff' exp')).value? =
      (PyDecimal.finite negative coeff' exp').value? := by
    rw [value?_ofInt, hint, value?, hvalue, valueOf_exp_zero]
  have hproduct : (ctx.mul (.finite negative coeff exp) stroopsMultiplier).mapError
      StroopsError.signal = .ok (.finite negative coeff' exp') := by
    rw [hmul]
    rfl
  unfold DecimalAmount.toStroops
  dsimp only
  rw [hvalid]
  dsimp only
  rw [hproduct]
  simp only [bind, Except.bind, toInt]
  rw [hcheck, if_neg fun h => h rfl, hint]

end Convert

section Exact

variable {ctx : DecimalContext}

/-- `from_stroops` raises or gives the exact amount. -/
def ExactFrom (ctx : DecimalContext) (n : ℤ) : Prop :=
  ∀ x, DecimalAmount.fromStroops ctx n = .ok x → x.value.value? = some ((n : ℚ) / 10 ^ 7)

/-- `to_stroops` raises its error or gives the exact number of stroops. -/
def ExactTo (ctx : DecimalContext) (x : DecimalAmount) : Prop :=
  (∃ e, x.toStroops ctx = .error (.conversion e)) ∨
    ∃ n : ℤ, x.toStroops ctx = .ok n ∧ x.value.value? = some ((n : ℚ) / 10 ^ 7)

/-- The number of stroops comes back, if both conversions return. -/
def ExactBack (ctx : DecimalContext) (n : ℤ) : Prop :=
  ∀ x m, DecimalAmount.fromStroops ctx n = .ok x → x.toStroops ctx = .ok m → m = n

/-- The stroops have no more significant digits than the context, or are rounded beyond the
range. -/
def FitsOrLeaves (ctx : DecimalContext) (n : ℤ) : Prop :=
  FitsDigits ctx.prec n.natAbs ∨ maxStroops < roundedStroops ctx n

/-- The amount is finite, and it is not in the range, has more than seven decimal places or has no
more significant digits than the context. -/
def FitsOrRefused (ctx : DecimalContext) : PyDecimal → Prop
  | .finite negative coeff exp =>
    ¬(InRange negative coeff exp ∧ -7 ≤ exp) ∨ FitsDigits ctx.prec coeff
  | _ => False

theorem roundedStroops_eq_iff {n : ℤ} :
    roundedStroops ctx n = n.natAbs ↔ FitsDigits ctx.prec n.natAbs := toDigits_eq_iff

theorem exactFrom_iff {n : ℤ} (hn : n.natAbs ≤ maxStroops) :
    ExactFrom ctx n ↔ FitsOrLeaves ctx n := by
  unfold ExactFrom FitsOrLeaves
  rw [← roundedStroops_eq_iff]
  rcases fromStroops_eq ctx hn with ⟨hle, coeff, exp, hfrom, -, hvalue⟩ | ⟨hlt, e, hfrom⟩
  · rw [or_iff_left hle.not_gt, hfrom]
    simp only [Except.ok.injEq, forall_eq', value?, Option.some.injEq]
    rw [hvalue, ← valueOf_stroops, valueOf_inj]
  · refine iff_of_true (fun x hx => ?_) (.inr hlt)
    cases hfrom.symm.trans hx

theorem exactBack_iff {n : ℤ} (hn : n.natAbs ≤ maxStroops) :
    ExactBack ctx n ↔ FitsOrLeaves ctx n := by
  unfold ExactBack FitsOrLeaves
  rw [← roundedStroops_eq_iff]
  rcases fromStroops_eq ctx hn with ⟨hle, coeff, exp, hfrom, hexp, hvalue⟩ | ⟨hlt, e, hfrom⟩
  · have hrange : InRange (decide (n < 0)) coeff exp :=
      (inRange_congr hvalue).mpr (inRange_stroops.mpr hle)
    have hcoeff : coeff * 10 ^ (exp + 7).toNat = roundedStroops ctx n :=
      valueOf_inj.mp ((valueOf_eq_stroops hexp).symm.trans hvalue)
    have hround : ctx.rounding.toDigits (decide (n < 0)) ctx.prec (roundedStroops ctx n) =
        roundedStroops ctx n :=
      toDigits_of_fits (fitsDigits_toDigits ctx.prec_pos)
    have hback : DecimalAmount.toStroops ctx ⟨.finite (decide (n < 0)) coeff exp⟩ =
        .ok (signed (decide (n < 0)) (roundedStroops ctx n)) := by
      rw [toStroops_eq ctx hrange hexp, ← toDigits_mul_pow, hcoeff, hround]
    rw [or_iff_left hle.not_gt, hfrom]
    constructor
    · intro h
      have hn' := h _ _ rfl hback
      rw [← signed_inj, hn', signed_natAbs]
    · rintro heq x m hx hm
      obtain rfl := Except.ok.inj hx
      rw [hback, heq, signed_natAbs] at hm
      exact (Except.ok.inj hm).symm
  · refine iff_of_true (fun x m hx => ?_) (.inr hlt)
    cases hfrom.symm.trans hx

theorem exactTo_iff (x : DecimalAmount) : ExactTo ctx x ↔ FitsOrRefused ctx x.value := by
  obtain ⟨value⟩ := x
  unfold ExactTo
  cases value with
  | nan =>
    have hraise : DecimalAmount.toStroops ctx ⟨.nan⟩ = .error .typeError := rfl
    rw [hraise]
    exact iff_of_false (by simp) not_false
  | infinity negative =>
    have hraise : DecimalAmount.toStroops ctx ⟨.infinity negative⟩ = .error .typeError := rfl
    rw [hraise]
    exact iff_of_false (by simp) not_false
  | finite negative coeff exp =>
    unfold FitsOrRefused
    dsimp only
    rcases validateStellarAmount_eq negative coeff exp with
      ⟨hrange, hexp, -⟩ | ⟨hout, e, hvalid⟩
    · have hstroops (n : ℕ) : ((signed negative n : ℤ) : ℚ) / 10 ^ 7 = valueOf negative n (-7) := by
        rw [← valueOf_exp_zero]
        unfold valueOf
        rw [zpow_zero, mul_one, zpow_neg, ← div_eq_mul_inv]
        rfl
      rw [toStroops_eq ctx hrange hexp, or_iff_right (not_not.mpr ⟨hrange, hexp⟩)]
      simp only [reduceCtorEq, exists_false, false_or, Except.ok.injEq, exists_eq_left', value?,
        Option.some.injEq]
      rw [hstroops, valueOf_eq_stroops hexp, valueOf_inj, Nat.mul_left_inj (by positivity), eq_comm]
      exact toDigits_eq_iff
    · refine iff_of_true (.inl ?_) (.inl hout)
      unfold DecimalAmount.toStroops
      rw [hvalid]
      by_cases hexp : exp < -(stellarPrecision : ℤ)
      · exact ⟨_, if_pos hexp⟩
      · exact ⟨_, if_neg hexp⟩

/-- For every context: the conversions are exact on exactly those stroops that fit its digits or are
rounded beyond the range, and on exactly those amounts that are refused or fit its digits. With
nineteen digits or more they return for all stroops and for all amounts in the range with seven
decimal places at most. -/
theorem stroops_exact_iff (ctx : DecimalContext) :
    (∀ n : ℤ, n.natAbs ≤ maxStroops →
      (ExactFrom ctx n ↔ FitsOrLeaves ctx n) ∧ (ExactBack ctx n ↔ FitsOrLeaves ctx n)) ∧
    (∀ x : DecimalAmount, ExactTo ctx x ↔ FitsOrRefused ctx x.value) ∧
    (19 ≤ ctx.prec →
      (∀ n : ℤ, n.natAbs ≤ maxStroops →
        FitsOrLeaves ctx n ∧ ∃ x, DecimalAmount.fromStroops ctx n = .ok x) ∧
      ∀ negative coeff exp, InRange negative coeff exp → -7 ≤ exp →
        ExactTo ctx ⟨.finite negative coeff exp⟩ ∧
          ∃ n, DecimalAmount.toStroops ctx ⟨.finite negative coeff exp⟩ = .ok n) := by
  refine ⟨fun n hn => ⟨exactFrom_iff hn, exactBack_iff hn⟩, exactTo_iff, fun hprec => ⟨?_, ?_⟩⟩
  · intro n hn
    have hfits : FitsDigits ctx.prec n.natAbs :=
      fitsDigits_of_le ((numDigits_le_of_le hn).trans hprec)
    refine ⟨.inl hfits, ?_⟩
    rcases fromStroops_eq ctx hn with ⟨-, coeff, exp, hfrom, -⟩ | ⟨hlt, -⟩
    · exact ⟨_, hfrom⟩
    · rw [roundedStroops_eq_iff.mpr hfits] at hlt
      exact absurd hn hlt.not_ge
  · intro negative coeff exp hrange hexp
    have hfits : FitsDigits ctx.prec coeff := by
      rw [← fitsDigits_mul_pow_iff (exp + 7).toNat]
      exact fitsDigits_of_le ((numDigits_le_of_le ((inRange_iff hexp).mp hrange)).trans hprec)
    exact ⟨(exactTo_iff _).mpr (.inr hfits), _, toStroops_eq ctx hrange hexp⟩

/-- With four digits 0.0012345 becomes 0.001234 one way and 12340 stroops the other way, and what
is not a number makes a type error. -/
theorem stroops_four_digits :
    DecimalAmount.fromStroops { prec := 4 } 12345 = .ok ⟨.finite false 1234 (-6)⟩ ∧
      DecimalAmount.toStroops { prec := 4 } ⟨.finite false 12345 (-7)⟩ = .ok 12340 ∧
      DecimalAmount.toStroops {} ⟨.nan⟩ = .error .typeError ∧
      ¬∀ ctx n, n.natAbs ≤ maxStroops → ExactFrom ctx n := by
  have hfrom : DecimalAmount.fromStroops { prec := 4 } 12345 = .ok ⟨.finite false 1234 (-6)⟩ := by
    decide +kernel
  refine ⟨hfrom, by decide +kernel, rfl, fun hall => ?_⟩
  have hvalue := hall _ _ (by decide) _ hfrom
  unfold value? at hvalue
  norm_num [valueOf, zpow_neg] at hvalue

end Exact

end LedgerLens.Utils.DecimalGuards
