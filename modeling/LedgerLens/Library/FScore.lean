import Mathlib.Algebra.Order.Field.Basic
import Mathlib.Data.List.MinMax
import Mathlib.Tactic.FieldSimp
import Mathlib.Tactic.Linarith
import Mathlib.Tactic.Positivity
import Mathlib.Tactic.Ring

/-!
# F-scores

An F-score weighs the recall of a test against its precision. In terms of how many positives were
hit and how many alerts there were it is a quotient in which the weight occurs only below, so that
a test that is best for a greater weight has no fewer hits.
-/

namespace FScore

variable {K : Type*} [Field K] [LinearOrder K] [IsStrictOrderedRing K]

/-- The F-score for the square of beta, a precision and a recall. -/
def fScore (weight precision recallRate : K) : K :=
  if weight * precision + recallRate = 0 then 0
  else (1 + weight) * precision * recallRate / (weight * precision + recallRate)

/-- The F-score in terms of counts. -/
def ofCounts (weight : K) (hits alerts positives : ℕ) : K :=
  fScore weight (hits / alerts) (hits / positives)

variable {weight weight' : K} {hits alerts hits' alerts' positives : ℕ}

omit [IsStrictOrderedRing K] in
theorem ofCounts_zero (weight : K) (alerts positives : ℕ) :
    ofCounts weight 0 alerts positives = 0 := by
  simp [ofCounts, fScore]

section

variable (hweight : 0 < weight) (hhits : 0 < hits) (halerts : hits ≤ alerts)
  (hpositives : hits ≤ positives)
include hweight hhits halerts hpositives

theorem denominator_pos : 0 < weight * positives + alerts := by
  have hpositives' : (0 : K) < positives := Nat.cast_pos.mpr (hhits.trans_le hpositives)
  have halerts' : (0 : K) < alerts := Nat.cast_pos.mpr (hhits.trans_le halerts)
  positivity

/-- The F-score as a quotient with the weight below. -/
theorem ofCounts_eq : ofCounts weight hits alerts positives =
    (1 + weight) * (hits / (weight * positives + alerts)) := by
  have hhits' : (0 : K) < hits := Nat.cast_pos.mpr hhits
  have hpositives' : (0 : K) < positives := Nat.cast_pos.mpr (hhits.trans_le hpositives)
  have halerts' : (0 : K) < alerts := Nat.cast_pos.mpr (hhits.trans_le halerts)
  have hdenominator := denominator_pos hweight hhits halerts hpositives
  have hsum : (0 : K) < weight * (hits / alerts) + hits / positives := by positivity
  unfold ofCounts fScore
  rw [if_neg hsum.ne']
  field_simp

theorem ofCounts_pos : 0 < ofCounts weight hits alerts positives := by
  have hhits' : (0 : K) < hits := Nat.cast_pos.mpr hhits
  have hdenominator := denominator_pos hweight hhits halerts hpositives
  rw [ofCounts_eq hweight hhits halerts hpositives]
  positivity

end

/-- F-scores are compared by their hits, each times the other's denominator. -/
theorem ofCounts_le_iff (hweight : 0 < weight) (hhits : 0 < hits) (halerts : hits ≤ alerts)
    (hpositives : hits ≤ positives) (hhits' : 0 < hits') (halerts' : hits' ≤ alerts')
    (hpositives' : hits' ≤ positives) :
    ofCounts weight hits alerts positives ≤ ofCounts weight hits' alerts' positives ↔
      hits * (weight * positives + alerts') ≤ hits' * (weight * positives + alerts) := by
  rw [ofCounts_eq hweight hhits halerts hpositives,
    ofCounts_eq hweight hhits' halerts' hpositives', mul_le_mul_iff_right₀ (by positivity),
    div_le_div_iff₀ (denominator_pos hweight hhits halerts hpositives)
      (denominator_pos hweight hhits' halerts' hpositives')]

/-- What is no worse for a weight has no fewer hits than what is no worse for a smaller one. -/
theorem hits_le_of_no_worse (hweight : 0 < weight) (hlt : weight < weight')
    (halerts : hits ≤ alerts) (hpositives : hits ≤ positives) (halerts' : hits' ≤ alerts')
    (hpositives' : hits' ≤ positives)
    (h : ofCounts weight hits' alerts' positives ≤ ofCounts weight hits alerts positives)
    (h' : ofCounts weight' hits alerts positives ≤ ofCounts weight' hits' alerts' positives) :
    hits ≤ hits' := by
  have hweight' := hweight.trans hlt
  rcases Nat.eq_zero_or_pos hits with rfl | hhits
  · exact Nat.zero_le _
  rcases Nat.eq_zero_or_pos hits' with rfl | hhits'
  · have hpos := ofCounts_pos hweight' hhits halerts hpositives
    rw [ofCounts_zero] at h'
    exact absurd h' hpos.not_ge
  rw [ofCounts_le_iff hweight hhits' halerts' hpositives' hhits halerts hpositives] at h
  rw [ofCounts_le_iff hweight' hhits halerts hpositives hhits' halerts' hpositives'] at h'
  -- the alerts cancel in the sum of both inequalities
  have hpos : 0 < (weight' - weight) * positives :=
    mul_pos (sub_pos.mpr hlt) (Nat.cast_pos.mpr (hhits.trans_le hpositives))
  have hsum : (weight' - weight) * positives * hits ≤ (weight' - weight) * positives * hits' := by
    linarith
  exact_mod_cast le_of_mul_le_mul_left hsum hpos

section

variable {α β γ : Type*} [LinearOrder γ]

/-- The first maximum depends on the order of the values only. -/
theorem argmax_congr {f g : α → γ} (h : ∀ a b, f a < f b ↔ g a < g b) (xs : List α) :
    xs.argmax f = xs.argmax g := by
  induction xs using List.reverseRecOn with
  | nil => rfl
  | append_singleton xs a ih =>
    rw [List.argmax_concat, List.argmax_concat, ih]
    cases xs.argmax g with
    | none => rfl
    | some b => simp only [h]

/-- The first maximum of a list that was made from another one. -/
theorem argmax_map (f : β → γ) (g : α → β) (xs : List α) :
    (xs.map g).argmax f = (xs.argmax (f ∘ g)).map g := by
  induction xs using List.reverseRecOn with
  | nil => rfl
  | append_singleton xs a ih =>
    rw [List.map_append, List.map_singleton, List.argmax_concat, List.argmax_concat, ih]
    cases xs.argmax (f ∘ g) with
    | none => rfl
    | some b =>
      simp only [Option.map_some, Function.comp_apply]
      split_ifs <;> rfl

end

end FScore
