import Mathlib.Data.List.TakeWhile
import Mathlib.Data.Nat.Digits.Lemmas

/-!
# Positional notation with leading zeros

A list of digits, the most significant first, is written in another base as the number that it is,
with as many zeros before it as the list has. Nothing is lost by this: the list can be written back
in its own base.
-/

namespace PositionalNotation

/-- The number that digits in a base are. -/
def value (b : ℕ) (ds : List ℕ) : ℕ := ds.foldl (fun n d => n * b + d) 0

/-- The digits of a number in a base. -/
def numeral (b n : ℕ) : List ℕ := (Nat.digits b n).reverse

/-- The zeros that digits begin with. -/
def leadingZeros (ds : List ℕ) : ℕ := (ds.takeWhile (· = 0)).length

/-- Digits in a base as digits in another one, with the same number of zeros before them. -/
def recode (b c : ℕ) (ds : List ℕ) : List ℕ :=
  List.replicate (leadingZeros ds) 0 ++ numeral c (value b ds)

variable {b c n k : ℕ} {ds : List ℕ}

theorem value_eq_ofDigits (b : ℕ) (ds : List ℕ) : value b ds = Nat.ofDigits b ds.reverse := by
  rw [Nat.ofDigits_eq_foldr, List.foldr_reverse]
  unfold value
  congr 1
  funext n d
  rw [Nat.cast_id, mul_comm, add_comm]

@[simp] theorem value_numeral (b n : ℕ) : value b (numeral b n) = n := by
  rw [value_eq_ofDigits, numeral, List.reverse_reverse, Nat.ofDigits_digits]

/-- Zeros before a number do not change it. -/
theorem value_replicate_append (b k : ℕ) (ds : List ℕ) :
    value b (List.replicate k 0 ++ ds) = value b ds := by
  rw [value_eq_ofDigits, value_eq_ofDigits, List.reverse_append, List.reverse_replicate,
    Nat.ofDigits_append_replicate_zero]

/-- The digits are the zeros before them and the rest. -/
theorem replicate_append_dropWhile (ds : List ℕ) :
    List.replicate (leadingZeros ds) 0 ++ ds.dropWhile (· = 0) = ds := by
  have hzeros : List.replicate (leadingZeros ds) 0 = ds.takeWhile (· = 0) := by
    rw [eq_comm, leadingZeros, List.eq_replicate_iff]
    exact ⟨rfl, fun d hd => by simpa using List.mem_takeWhile_imp hd⟩
  rw [hzeros, List.takeWhile_append_dropWhile]

/-- The digits of the number that digits are: what follows the zeros before them. -/
theorem numeral_value (hb : 1 < b) (h : ∀ d ∈ ds, d < b) :
    numeral b (value b ds) = ds.dropWhile (· = 0) := by
  have hvalue : value b ds = Nat.ofDigits b (ds.dropWhile (· = 0)).reverse := by
    conv_lhs => rw [← replicate_append_dropWhile ds]
    rw [value_replicate_append, value_eq_ofDigits]
  rw [numeral, hvalue, Nat.digits_ofDigits b hb, List.reverse_reverse]
  · intro d hd
    exact h d ((List.dropWhile_sublist _).subset (List.mem_reverse.mp hd))
  · intro hne
    rw [List.getLast_reverse]
    have hhead := List.head_dropWhile_not (fun d : ℕ => decide (d = 0))
      (fun hnil => hne (by rw [hnil, List.reverse_nil]))
    simpa using hhead

/-- A numeral does not begin with zeros. -/
@[simp] theorem leadingZeros_numeral (b n : ℕ) : leadingZeros (numeral b n) = 0 := by
  unfold leadingZeros
  cases hnumeral : numeral b n with
  | nil => rfl
  | cons d ds =>
    have hn : n ≠ 0 := by
      rintro rfl
      simp [numeral] at hnumeral
    have hdigits : Nat.digits b n = ds.reverse ++ [d] := by
      rw [← List.reverse_cons, ← hnumeral, numeral, List.reverse_reverse]
    have hd : d ≠ 0 := by
      have hlast := Nat.getLast_digit_ne_zero b hn
      simpa [hdigits] using hlast
    rw [List.takeWhile_cons_of_neg (by simpa using hd), List.length_nil]

@[simp] theorem leadingZeros_replicate_append (k : ℕ) (ds : List ℕ) :
    leadingZeros (List.replicate k 0 ++ ds) = k + leadingZeros ds := by
  unfold leadingZeros
  rw [List.takeWhile_append_of_pos (by simp), List.length_append, List.length_replicate]

theorem lt_of_mem_recode (hc : 1 < c) {d : ℕ} (h : d ∈ recode b c ds) : d < c := by
  obtain h | h := List.mem_append.mp h
  · rw [(List.mem_replicate.mp h).2]
    omega
  · exact Nat.digits_lt_base hc (List.mem_reverse.mp h)

/-- Writing digits in another base and back again gives the digits. -/
theorem recode_recode (hb : 1 < b) (h : ∀ d ∈ ds, d < b) :
    recode c b (recode b c ds) = ds := by
  have hzeros : leadingZeros (recode b c ds) = leadingZeros ds := by
    rw [recode, leadingZeros_replicate_append, leadingZeros_numeral, add_zero]
  have hvalue : value c (recode b c ds) = value b ds := by
    rw [recode, value_replicate_append, value_numeral]
  rw [recode, hzeros, hvalue, numeral_value hb h, replicate_append_dropWhile]

end PositionalNotation
