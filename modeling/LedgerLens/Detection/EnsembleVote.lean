import LedgerLens.Library.TrimmedMean
import Mathlib.Data.Rat.Cast.Order

/-!
# The vote of the model ensemble

The scores of the models are combined so that a single model that answers anything has little
influence: of three scores the median counts, and of more scores the mean without the smallest
and the greatest, if they lie far apart. Scores are rational numbers.
-/

namespace LedgerLens.Detection

open TrimmedMean

/-- What the combination of scores raises. -/
inductive VoteError where
  /-- `max` of an empty sequence. -/
  | emptySequence
  /-- `StatisticsError` of `statistics.mean` and `statistics.median`. -/
  | noDataPoints
  deriving DecidableEq

/-- `statistics.mean`. -/
def mean (data : List ℚ) : Except VoteError ℚ :=
  if data = [] then .error .noDataPoints else .ok (data.sum / data.length)

/-- `statistics.median`. -/
def median (data : List ℚ) : Except VoteError ℚ :=
  let sorted := data.insertionSort (· ≤ ·)
  let n := data.length
  if n = 0 then .error .noDataPoints
  else if n % 2 = 1 then .ok (sorted.getD (n / 2) 0)
  else .ok ((sorted.getD (n / 2 - 1) 0 + sorted.getD (n / 2) 0) / 2)

/-- The distance between the greatest and the smallest score. -/
def span (score : ℚ) (scores : List ℚ) : ℚ := scores.foldl max score - scores.foldl min score

/-- `bft_trimmed_mean`, with `BFT_SCORE_DIVERGENCE_THRESHOLD`. -/
def bftTrimmedMean (threshold : ℚ) (scores : List ℚ) : Except VoteError (ℚ × Bool) :=
  match scores with
  | [] => .error .emptySequence
  | [score] => .ok (score, false)
  | score :: rest =>
    let diverged := decide (threshold < span score rest)
    if scores.length = 3 then (median scores).map fun m => (m, diverged)
    else if diverged then (mean (trim scores)).map fun m => (m, true)
    else (mean scores).map fun m => (m, false)

/-- Some scores are farther apart than the threshold. -/
def Diverged (threshold : ℚ) (scores : List ℚ) : Prop :=
  ∃ a ∈ scores, ∃ b ∈ scores, threshold < b - a

instance (threshold : ℚ) (scores : List ℚ) : Decidable (Diverged threshold scores) :=
  inferInstanceAs (Decidable (∃ a ∈ scores, ∃ b ∈ scores, threshold < b - a))

/-- Outliers are dropped: those of three scores, and those of scores that lie far apart. -/
def Trims (threshold : ℚ) (scores : List ℚ) : Prop :=
  scores.length = 3 ∨ scores.length ≠ 1 ∧ Diverged threshold scores

instance (threshold : ℚ) (scores : List ℚ) : Decidable (Trims threshold scores) :=
  inferInstanceAs (Decidable (_ ∨ _))

variable {threshold score : ℚ} {scores rest honest : List ℚ}

/-- The distance of the extreme scores says whether some are farther apart. -/
theorem lt_span_iff : threshold < span score rest ↔ Diverged threshold (score :: rest) := by
  obtain ⟨hmax, hle⟩ := foldl_select (· ≤ ·) max le_refl
    (fun _ _ _ => le_trans) (fun a b => ⟨max_choice a b, le_max_left a b, le_max_right a b⟩)
    score rest
  obtain ⟨hmin, hge⟩ := foldl_select (· ≥ ·) min (fun a => le_refl a)
    (fun _ _ _ hab hbc => le_trans hbc hab)
    (fun a b => ⟨min_choice a b, min_le_left a b, min_le_right a b⟩) score rest
  unfold span Diverged
  constructor
  · exact fun h => ⟨_, hmin, _, hmax, h⟩
  · rintro ⟨a, ha, b, hb, hlt⟩
    have hupper : b ≤ rest.foldl max score := hle b hb
    have hlower : rest.foldl min score ≤ a := hge a ha
    linarith

/-- The median of three scores is the inner one. -/
theorem median_of_three (h : scores.length = 3) : ∃ y, median scores = .ok y ∧ y ∈ trim scores := by
  have hlength := List.length_insertionSort (· ≤ ·) scores
  obtain ⟨a, b, c, hsorted⟩ := List.length_eq_three.mp (hlength.trans h)
  refine ⟨b, ?_, ?_⟩
  · simp [median, h, hsorted]
  · simp [trim, hsorted]

/-- Without outliers the vote is the mean. -/
theorem bftTrimmedMean_of_not_trims (hne : scores ≠ []) (h : ¬Trims threshold scores) :
    ∃ diverged, bftTrimmedMean threshold scores = .ok (scores.sum / scores.length, diverged) := by
  match scores, hne with
  | [score], _ => exact ⟨false, by simp [bftTrimmedMean]⟩
  | a :: b :: rest, _ =>
    obtain ⟨hthree, hclose⟩ := not_or.mp h
    have hclose : ¬Diverged threshold (a :: b :: rest) := fun hd => hclose ⟨by simp, hd⟩
    unfold bftTrimmedMean
    dsimp only
    rw [if_neg hthree, if_neg (by simpa using fun hlt => hclose (lt_span_iff.mp hlt)), mean,
      if_neg (by simp)]
    exact ⟨_, rfl⟩

/-- With outliers the vote is the mean of the others, of which there must be some. -/
theorem bftTrimmedMean_of_trims (hne : scores ≠ []) (h : Trims threshold scores) :
    (scores.length = 2 ∧ bftTrimmedMean threshold scores = .error .noDataPoints) ∨
      scores.length ≠ 2 ∧ ∃ diverged, bftTrimmedMean threshold scores =
        .ok ((trim scores).sum / (trim scores).length, diverged) := by
  match scores, hne with
  | [score], _ => exact absurd rfl (h.resolve_left (by simp)).1
  | a :: b :: rest, _ =>
    unfold bftTrimmedMean
    dsimp only
    by_cases hthree : (a :: b :: rest).length = 3
    · obtain ⟨y, hmedian, hy⟩ := median_of_three hthree
      have hone : (trim (a :: b :: rest)).length = 1 := by
        rw [length_trim, hthree]
      obtain ⟨z, hz⟩ := List.length_eq_one_iff.mp hone
      rw [hz, List.mem_singleton] at hy
      rw [if_pos hthree, hmedian, hz, hy]
      exact .inr ⟨by omega, decide (threshold < span a (b :: rest)), by simp [Except.map]⟩
    · have hdiverged := (h.resolve_left hthree).2
      rw [if_neg hthree, if_pos (by simpa using lt_span_iff.mpr hdiverged), mean]
      by_cases htwo : (a :: b :: rest).length = 2
      · have hempty : trim (a :: b :: rest) = [] := by
          rw [← List.length_eq_zero_iff, length_trim, htwo]
        rw [if_pos hempty]
        exact .inl ⟨htwo, rfl⟩
      · have hsome : trim (a :: b :: rest) ≠ [] := by
          rw [← List.length_pos_iff, length_trim]
          simp only [List.length_cons] at hthree htwo ⊢
          omega
        rw [if_neg hsome]
        exact .inr ⟨htwo, true, rfl⟩

/-- A vote lies between the scores. -/
theorem between_of_bftTrimmedMean {v : ℚ} {diverged : Bool}
    (h : bftTrimmedMean threshold scores = .ok (v, diverged)) : Between scores v := by
  have hne : scores ≠ [] := by
    rintro rfl
    cases h
  by_cases htrims : Trims threshold scores
  · obtain ⟨-, herror⟩ | ⟨htwo, diverged', hvote⟩ := bftTrimmedMean_of_trims hne htrims
    · cases herror.symm.trans h
    · cases hvote.symm.trans h
      refine between_mean_of_trim ?_
      have hpos := List.length_pos_iff.mpr hne
      rw [← List.length_pos_iff, length_trim]
      obtain hthree | ⟨hone, -⟩ := htrims <;> omega
  · obtain ⟨diverged', hvote⟩ := bftTrimmedMean_of_not_trims hne htrims
    cases hvote.symm.trans h
    exact between_mean hne

/-- How the scores of at least two models are combined, unless exactly two diverge. -/
theorem bftTrimmedMean_cases (threshold : ℚ) (htwo : 2 ≤ scores.length)
    (h : ¬(scores.length = 2 ∧ Diverged threshold scores)) :
    ∃ y diverged, bftTrimmedMean threshold scores = .ok (y, diverged) ∧
      (y ∈ trim scores ∨
        trim scores ≠ [] ∧ y = (trim scores).sum / (trim scores).length ∨
        scores.length ≠ 3 ∧ ¬Diverged threshold scores ∧ y = scores.sum / scores.length) := by
  match scores, htwo with
  | a :: b :: rest, _ =>
    unfold bftTrimmedMean
    dsimp only
    by_cases hthree : (a :: b :: rest).length = 3
    · obtain ⟨y, hmedian, hy⟩ := median_of_three hthree
      rw [if_pos hthree, hmedian]
      exact ⟨y, _, rfl, .inl hy⟩
    · rw [if_neg hthree]
      by_cases hdiverged : Diverged threshold (a :: b :: rest)
      · have hne : trim (a :: b :: rest) ≠ [] := by
          have htwo : (a :: b :: rest).length ≠ 2 := fun htwo => h ⟨htwo, hdiverged⟩
          rw [← List.length_pos_iff, length_trim]
          simp only [List.length_cons] at hthree htwo ⊢
          omega
        rw [if_pos (by simpa using lt_span_iff.mpr hdiverged), mean, if_neg hne]
        exact ⟨_, _, rfl, .inr (.inl ⟨hne, rfl⟩)⟩
      · rw [if_neg (by simpa using fun hlt => hdiverged (lt_span_iff.mp hlt)), mean,
          if_neg (by simp)]
        exact ⟨_, _, rfl, .inr (.inr ⟨hthree, hdiverged, rfl⟩)⟩

end LedgerLens.Detection
