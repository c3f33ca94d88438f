import LedgerLens.Library.DecimalArithmetic
import Mathlib.Tactic.IntervalCases

/-!
# Texts of decimal numbers

A decimal number is written with its point in its place if it has no positive exponent and is not
too small, and else with one digit before the point and an exponent. Without the point and the
leading zeros a text begins with the digits of the coefficient.
-/

/-- The first digit of a number. -/
def firstDigit (n : ℕ) : ℕ := n / 10 ^ (numDigits n - 1)

/-- The second digit of a number, zero if there is only one. -/
def secondDigit (n : ℕ) : ℕ := if numDigits n < 2 then 0 else n / 10 ^ (numDigits n - 2) % 10

namespace PyDecimal

/-- `"%+d"`. -/
def signedText (n : ℤ) : List Char := (if n < 0 then '-' else '+') :: Nat.toDigits 10 n.natAbs

/-- Whether a number is written without an exponent. -/
def Plain (coeff : ℕ) (exp : ℤ) : Prop := exp ≤ 0 ∧ -6 < exp + numDigits coeff

instance (coeff : ℕ) (exp : ℤ) : Decidable (Plain coeff exp) :=
  inferInstanceAs (Decidable (_ ∧ _))

/-- The digits with the point behind a number of them. -/
def withPoint (digits : List Char) (dotPlace : ℤ) : List Char :=
  if dotPlace ≤ 0 then '0' :: '.' :: (List.replicate (-dotPlace).toNat '0' ++ digits)
  else if digits.length ≤ dotPlace.toNat then
    digits ++ List.replicate (dotPlace.toNat - digits.length) '0'
  else digits.take dotPlace.toNat ++ '.' :: digits.drop dotPlace.toNat

/-- `str`. -/
def str : PyDecimal → List Char
  | .nan => "NaN".toList
  | .infinity negative => (if negative then "-Infinity" else "Infinity").toList
  | .finite negative coeff exp =>
    let leftDigits : ℤ := exp + numDigits coeff
    (if negative then ['-'] else []) ++
      if Plain coeff exp then withPoint (Nat.toDigits 10 coeff) leftDigits
      else withPoint (Nat.toDigits 10 coeff) 1 ++ 'E' :: signedText (leftDigits - 1)

end PyDecimal

/-- A text without minus signs at its beginning, without points, and then without zeros at its
beginning. -/
def significantText (text : List Char) : List Char :=
  ((text.dropWhile (· = '-')).filter (· ≠ '.')).dropWhile (· = '0')

section Digits

variable {n : ℕ}

theorem numDigits_of_lt (h : n < 10) : numDigits n = 1 := by
  unfold numDigits
  rw [Nat.log_of_lt h]

theorem numDigits_div_ten (h : 10 ≤ n) : numDigits n = numDigits (n / 10) + 1 := by
  unfold numDigits
  rw [Nat.log_of_one_lt_of_le (by decide) h]

theorem length_toDigits (n : ℕ) : (Nat.toDigits 10 n).length = numDigits n := by
  induction n using Nat.strong_induction_on with
  | _ n ih =>
    rcases lt_or_ge n 10 with hlt | hge
    · rw [Nat.toDigits_of_lt_base hlt, numDigits_of_lt hlt]
      rfl
    · rw [Nat.toDigits_of_base_le (by decide) hge, List.length_append, ih (n / 10) (by omega),
        numDigits_div_ten hge]
      rfl

/-- A number is written with its first digit first. -/
theorem toDigits_zero_eq (n : ℕ) : (Nat.toDigits 10 n)[0]? = some (firstDigit n).digitChar := by
  induction n using Nat.strong_induction_on with
  | _ n ih =>
    unfold firstDigit
    rcases lt_or_ge n 10 with hlt | hge
    · rw [Nat.toDigits_of_lt_base hlt, numDigits_of_lt hlt, Nat.sub_self, pow_zero, Nat.div_one]
      rfl
    · have hlength := length_toDigits (n / 10)
      have hpos : 0 < numDigits (n / 10) := Nat.succ_pos _
      rw [Nat.toDigits_of_base_le (by decide) hge, List.getElem?_append_left (by omega),
        ih (n / 10) (by omega), numDigits_div_ten hge, firstDigit, Nat.div_div_eq_div_mul,
        ← pow_succ', show numDigits (n / 10) - 1 + 1 = numDigits (n / 10) + 1 - 1 by omega]

/-- The second digit follows if there is one. -/
theorem toDigits_one_eq (n : ℕ) : (Nat.toDigits 10 n)[1]? =
    if numDigits n < 2 then none else some (secondDigit n).digitChar := by
  induction n using Nat.strong_induction_on with
  | _ n ih =>
    rcases lt_or_ge n 10 with hlt | hge
    · rw [Nat.toDigits_of_lt_base hlt, numDigits_of_lt hlt]
      rfl
    · have hlength := length_toDigits (n / 10)
      have hnum := numDigits_div_ten hge
      have hpos : 0 < numDigits (n / 10) := Nat.succ_pos _
      rw [Nat.toDigits_of_base_le (by decide) hge, if_neg (by omega)]
      unfold secondDigit
      rw [if_neg (by omega)]
      by_cases htwo : numDigits (n / 10) < 2
      · have hplace : numDigits n - 2 = 0 := by omega
        rw [List.getElem?_append_right (by omega), hplace, pow_zero, Nat.div_one,
          show 1 - (Nat.toDigits 10 (n / 10)).length = 0 by omega]
        rfl
      · have hplace : numDigits n - 2 = numDigits (n / 10) - 2 + 1 := by omega
        rw [List.getElem?_append_left (by omega), ih (n / 10) (by omega), if_neg htwo, secondDigit,
          if_neg htwo, Nat.div_div_eq_div_mul, ← pow_succ', hplace]

theorem firstDigit_mem (h : n ≠ 0) : 1 ≤ firstDigit n ∧ firstDigit n ≤ 9 := by
  have hpos : 0 < numDigits n := Nat.succ_pos _
  unfold firstDigit
  constructor
  · exact Nat.div_pos (pow_le_of_ne_zero h) (by positivity)
  · refine Nat.le_of_lt_succ ((Nat.div_lt_iff_lt_mul (by positivity)).mpr ?_)
    rw [← pow_succ', Nat.sub_add_cancel hpos]
    exact lt_pow_numDigits n

theorem secondDigit_le (n : ℕ) : secondDigit n ≤ 9 := by
  unfold secondDigit
  split_ifs <;> omega

theorem numDigits_pow (k : ℕ) : numDigits (10 ^ k) = k + 1 :=
  numDigits_eq le_rfl (Nat.pow_lt_pow_right (by decide) (Nat.lt_succ_self k))

theorem firstDigit_pow (k : ℕ) : firstDigit (10 ^ k) = 1 := by
  unfold firstDigit
  rw [numDigits_pow, Nat.add_sub_cancel, Nat.div_self (by positivity)]

theorem secondDigit_pow (k : ℕ) : secondDigit (10 ^ k) = 0 := by
  unfold secondDigit
  rw [numDigits_pow]
  cases k with
  | zero => rfl
  | succ k =>
    rw [if_neg (by omega), show k + 1 + 1 - 2 = k by omega, pow_succ,
      Nat.mul_div_cancel_left _ (by positivity)]

theorem firstTwo_eq (h : 2 ≤ numDigits n) :
    n / 10 ^ (numDigits n - 2) = 10 * firstDigit n + secondDigit n := by
  have hfirst : firstDigit n = n / 10 ^ (numDigits n - 2) / 10 := by
    unfold firstDigit
    rw [Nat.div_div_eq_div_mul, ← pow_succ, show numDigits n - 2 + 1 = numDigits n - 1 by omega]
  unfold secondDigit
  rw [if_neg (by omega), hfirst]
  omega

/-- The first two digits of a number say where it lies. -/
theorem firstTwo_mem (n : ℕ) (exp : ℤ) : ∃ place : ℤ,
    ((10 * firstDigit n + secondDigit n : ℕ) : ℚ) * 10 ^ place ≤ n * 10 ^ exp ∧
      (n : ℚ) * 10 ^ exp < ((10 * firstDigit n + secondDigit n + 1 : ℕ) : ℚ) * 10 ^ place := by
  have hpow (e : ℤ) : (0 : ℚ) < 10 ^ e := zpow_pos (by norm_num) e
  rcases lt_or_ge (numDigits n) 2 with hone | htwo
  · have hpos : 0 < numDigits n := Nat.succ_pos _
    have hfirst : firstDigit n = n := by
      unfold firstDigit
      rw [show numDigits n - 1 = 0 by omega, pow_zero, Nat.div_one]
    have hsecond : secondDigit n = 0 := if_pos hone
    have hvalue : (n : ℚ) * 10 ^ exp = ((10 * n : ℕ) : ℚ) * 10 ^ (exp - 1) := by
      rw [zpow_sub_one₀ (by norm_num)]
      push_cast
      ring
    rw [hfirst, hsecond]
    refine ⟨exp - 1, hvalue.ge, ?_⟩
    rw [hvalue]
    exact mul_lt_mul_of_pos_right (Nat.cast_lt.mpr (Nat.lt_succ_self _)) (hpow _)
  · have hdivides : (0 : ℕ) < 10 ^ (numDigits n - 2) := by positivity
    have hscale (k : ℕ) : ((k * 10 ^ (numDigits n - 2) : ℕ) : ℚ) * 10 ^ exp =
        (k : ℚ) * 10 ^ (exp + (numDigits n - 2 : ℕ)) := by
      rw [zpow_add₀ (by norm_num), zpow_natCast]
      push_cast
      ring
    rw [← firstTwo_eq htwo]
    refine ⟨exp + (numDigits n - 2 : ℕ), ?_, ?_⟩
    · rw [← hscale]
      exact mul_le_mul_of_nonneg_right (Nat.cast_le.mpr (Nat.div_mul_le_self _ _)) (hpow _).le
    · rw [← hscale]
      refine mul_lt_mul_of_pos_right (Nat.cast_lt.mpr ?_) (hpow _)
      rw [Nat.succ_mul]
      exact Nat.lt_div_mul_add hdivides

end Digits

section Text

open PyDecimal

variable {coeff : ℕ} {exp : ℤ} {digits rest : List Char} {dotPlace : ℤ}

/-- What a text of digits with a point consists of. -/
theorem mem_withPoint {ch : Char} (h : ch ∈ withPoint digits dotPlace) :
    ch = '0' ∨ ch = '.' ∨ ch ∈ digits := by
  unfold withPoint at h
  split_ifs at h
  · simp only [List.mem_cons, List.mem_append, List.mem_replicate] at h
    tauto
  · simp only [List.mem_append, List.mem_replicate] at h
    tauto
  · simp only [List.mem_cons, List.mem_append] at h
    rcases h with h | h | h
    · exact .inr (.inr (List.mem_of_mem_take h))
    · exact .inr (.inl h)
    · exact .inr (.inr (List.mem_of_mem_drop h))

theorem withPoint_ne_nil (h : digits ≠ []) (dotPlace : ℤ) :
    withPoint digits dotPlace ≠ [] := by
  unfold withPoint
  split_ifs <;> simp [h]

/-- Without the point there are zeros and the digits. -/
theorem filter_withPoint (hdots : '.' ∉ digits) (hplace : dotPlace ≤ digits.length) :
    ∃ zeros, (withPoint digits dotPlace).filter (· ≠ '.') =
      List.replicate zeros '0' ++ digits := by
  have hkeep {text : List Char} (h : '.' ∉ text) : text.filter (· ≠ '.') = text :=
    List.filter_eq_self.mpr fun ch hch => decide_eq_true fun heq => h (heq ▸ hch)
  unfold withPoint
  split_ifs with hleft hlong
  · refine ⟨(-dotPlace).toNat + 1, ?_⟩
    rw [List.filter_cons_of_pos (by decide), List.filter_cons_of_neg (by decide), hkeep,
      List.replicate_succ]
    · rfl
    · simp [hdots]
  · refine ⟨0, ?_⟩
    rw [show dotPlace.toNat - digits.length = 0 by omega, List.replicate_zero, List.append_nil]
    exact hkeep hdots
  · refine ⟨0, ?_⟩
    rw [List.filter_append, List.filter_cons_of_neg (by decide), ← List.filter_append,
      List.take_append_drop]
    exact hkeep hdots

/-- The digits of a coefficient are what its text begins with. -/
theorem significantText_withPoint (hne : coeff ≠ 0) (hrest : '.' ∉ rest)
    (hplace : dotPlace ≤ numDigits coeff) :
    significantText (withPoint (Nat.toDigits 10 coeff) dotPlace ++ rest) =
      Nat.toDigits 10 coeff ++ rest := by
  have hdigit {ch : Char} (h : ch ∈ Nat.toDigits 10 coeff) : ch.isDigit = true :=
    Nat.isDigit_of_mem_toDigits (by decide) (by decide) h
  have hdots : '.' ∉ Nat.toDigits 10 coeff := fun h => absurd (hdigit h) (by decide)
  have hkeep : rest.filter (· ≠ '.') = rest :=
    List.filter_eq_self.mpr fun ch hch => decide_eq_true fun heq => hrest (heq ▸ hch)
  obtain ⟨zeros, hfilter⟩ := filter_withPoint hdots (hplace.trans_eq
    (congrArg Nat.cast (length_toDigits coeff).symm))
  obtain ⟨first, text, htext⟩ :=
    List.exists_cons_of_ne_nil (withPoint_ne_nil (Nat.toDigits_ne_nil (n := coeff)) dotPlace)
  have hminus : first ≠ '-' := by
    rintro rfl
    have hmem : '-' ∈ withPoint (Nat.toDigits 10 coeff) dotPlace := by
      rw [htext]
      exact List.mem_cons_self
    rcases mem_withPoint hmem with h | h | h
    · exact absurd h (by decide)
    · exact absurd h (by decide)
    · exact absurd (hdigit h) (by decide)
  have hdrop : (withPoint (Nat.toDigits 10 coeff) dotPlace ++ rest).dropWhile (· = '-') =
      withPoint (Nat.toDigits 10 coeff) dotPlace ++ rest := by
    rw [htext, List.cons_append]
    exact List.dropWhile_cons_of_neg (by simpa using hminus)
  unfold significantText
  rw [hdrop, List.filter_append, hfilter, hkeep, List.append_assoc,
    List.dropWhile_append_of_pos fun ch hch => by simp [List.eq_of_mem_replicate hch]]
  -- the first digit is no zero
  obtain ⟨first, digits, hdigits⟩ :=
    List.exists_cons_of_ne_nil (Nat.toDigits_ne_nil (n := coeff) (b := 10))
  have hfirst := toDigits_zero_eq coeff
  rw [hdigits, List.getElem?_cons_zero, Option.some.injEq] at hfirst
  rw [hdigits, List.cons_append]
  refine List.dropWhile_cons_of_neg ?_
  rw [hfirst]
  have hmem := firstDigit_mem hne
  generalize firstDigit coeff = d at hmem
  obtain ⟨hlow, hhigh⟩ := hmem
  interval_cases d <;> decide

/-- The text of a positive number begins with its digits; an exponent follows if it is not written
plainly. -/
theorem significantText_str (hne : coeff ≠ 0) :
    significantText (PyDecimal.finite false coeff exp).str = Nat.toDigits 10 coeff ++
      if Plain coeff exp then [] else 'E' :: signedText (exp + numDigits coeff - 1) := by
  have hpos : 0 < numDigits coeff := Nat.succ_pos _
  unfold str
  dsimp only
  rw [if_neg (by decide), List.nil_append]
  split_ifs with hplain
  · have hplace := hplain.1
    rw [← List.append_nil (withPoint _ _)]
    exact significantText_withPoint hne List.not_mem_nil (by omega)
  · refine significantText_withPoint hne (fun hmem => ?_) (by omega)
    unfold signedText at hmem
    simp only [List.mem_cons] at hmem
    rcases hmem with h | h | h
    · exact absurd h (by decide)
    · split_ifs at h <;> exact absurd h (by decide)
    · exact absurd (Nat.isDigit_of_mem_toDigits (by decide) (by decide) h) (by decide)

end Text
