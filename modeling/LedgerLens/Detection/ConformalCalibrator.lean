import LedgerLens.Library.Checks
import LedgerLens.Library.Quantile
import Mathlib.Data.Rat.Floor
import Mathlib.Tactic.Ring

/-!
# Conformal calibration

`ConformalCalibrator.calibrate` scores every row of a calibration split and takes a quantile
of the scores as its threshold `q_hat`. A split of `n` rows is meant to cover a further one
with probability at least `1 - alpha`. In terms of `n + 1` rows, so many of them have to be
covered by the threshold of the other `n` rows; this file says exactly when they are.

Predictions of the model are inputs here, and numbers are exact.
-/

namespace LedgerLens.Detection.Conformal

open Quantile

variable {K : Type*} [Field K] [LinearOrder K] [IsStrictOrderedRing K] [FloorRing K]

/-- `_mode`. -/
inductive CalibrationMode where
  /-- `"classification"`. -/
  | classification
  /-- `"regression"`. -/
  | regression
  deriving DecidableEq

/-- `ConformalCalibrator`, without its columns and its random numbers. -/
structure ConformalCalibrator (K : Type*) where
  /-- `alpha`. -/
  alpha : K
  /-- `q_hat`. -/
  qHat : Option K
  /-- `n_cal`. -/
  nCal : Option ℕ
  /-- `classes_`. -/
  classes : Option (List ℕ)
  /-- `_mode`. -/
  mode : Option CalibrationMode
  /-- `_nonconformity_scores`. -/
  nonconformityScores : List K

/-- A calibration split with what the model predicts for it. -/
inductive CalibrationSplit (K : Type*) where
  /-- The model has `predict_proba`. Rows have the probability of every class and a label. -/
  | classification (nClasses : ℕ) (rows : List (List K × ℤ))
  /-- The model has `predict`. Rows have a label and a prediction. -/
  | regression (rows : List (K × K))
  /-- The model has neither. -/
  | unsupported (n : ℕ)

/-- What `calibrate` raises. -/
inductive CalibrationError where
  /-- `ValueError`: the split is empty. -/
  | emptySplit
  /-- `TypeError`: the model cannot predict. -/
  | unsupportedModel
  /-- `IndexError`: a label is no column of the probabilities. -/
  | labelOutOfRange
  deriving DecidableEq

/-- `len(X_cal)`. -/
def CalibrationSplit.length : CalibrationSplit K → ℕ
  | classification _ rows => rows.length
  | regression rows => rows.length
  | unsupported n => n

/-- `probs[i, label]`. A negative label counts from the end. -/
def trueClassProbability (probs : List K) (label : ℤ) : Except CalibrationError K :=
  let index := if label < 0 then label + probs.length else label
  if index < 0 then .error .labelOutOfRange
  else
    match probs[index.toNat]? with
    | none => .error .labelOutOfRange
    | some p => .ok p

namespace ConformalCalibrator

/-- `_coverage_guarantee`. -/
def coverageGuarantee (c : ConformalCalibrator K) : K := min 1 (max 0 (1 - c.alpha))

/-- The threshold for a list of scores. -/
def threshold (c : ConformalCalibrator K) (scores : List K) : K :=
  quantile scores c.coverageGuarantee

/-- `_calibrate_classification`. -/
def calibrateClassification (c : ConformalCalibrator K) (nClasses : ℕ)
    (rows : List (List K × ℤ)) : Except CalibrationError (ConformalCalibrator K) :=
  match rows.mapM fun row => trueClassProbability row.1 row.2 with
  | .error e => .error e
  | .ok probabilities =>
    let nonconformity := probabilities.map fun p => 1 - p
    .ok { c with
      classes := some (List.range nClasses)
      nonconformityScores := nonconformity
      nCal := some rows.length
      qHat := some (c.threshold nonconformity) }

/-- `_calibrate_regression`. -/
def calibrateRegression (c : ConformalCalibrator K) (rows : List (K × K)) :
    ConformalCalibrator K :=
  let residuals := rows.map fun row => |row.1 - row.2|
  { c with
    nonconformityScores := residuals
    nCal := some rows.length
    qHat := some (c.threshold residuals) }

/-- `calibrate`. -/
def calibrate (c : ConformalCalibrator K) (split : CalibrationSplit K) (alpha : Option K) :
    Except CalibrationError (ConformalCalibrator K) :=
  let c := { c with alpha := alpha.getD c.alpha }
  if split.length = 0 then .error .emptySplit
  else
    match split with
    | .classification nClasses rows =>
      { c with mode := some .classification }.calibrateClassification nClasses rows
    | .regression rows => .ok ({ c with mode := some .regression }.calibrateRegression rows)
    | .unsupported _ => .error .unsupportedModel

/-- How many of the rows that coverage asks for, of so many. -/
def requiredCount (c : ConformalCalibrator K) (rows : ℕ) : ℕ := ⌈(1 - c.alpha) * rows⌉₊

/-- How many scores are at most the threshold for the other scores. -/
def coveredCount (c : ConformalCalibrator K) (scores : List K) : ℕ :=
  (List.finRange scores.length).countP fun i : Fin scores.length =>
    scores.get i ≤ c.threshold (scores.eraseIdx i)

/-- The place of the quantile reaches the last score that coverage asks for. -/
def RankReached (c : ConformalCalibrator K) (scores : List K) : Prop :=
  Reached (scores.insertionSort (· ≤ ·)) ((1 - c.alpha) * (scores.length - 2 : ℕ))
    (c.requiredCount scores.length - 1)

variable {c c' : ConformalCalibrator K}

omit [IsStrictOrderedRing K] in
/-- Calibration takes the threshold of the scores that it stores. -/
theorem qHat_of_calibrate {split : CalibrationSplit K} {alpha : Option K}
    (h : c.calibrate split alpha = .ok c') :
    c'.qHat = some (c'.threshold c'.nonconformityScores) ∧ c'.alpha = alpha.getD c.alpha ∧
      c'.nonconformityScores.length = split.length := by
  unfold calibrate at h
  split at h
  next => cases h
  next =>
    cases split with
    | classification nClasses rows =>
      unfold calibrateClassification at h
      simp only at h
      split at h
      next => cases h
      next probabilities hprobabilities =>
        rw [Except.ok.injEq] at h
        subst h
        refine ⟨rfl, rfl, ?_⟩
        have hlength := Except.length_of_mapM_eq_ok hprobabilities
        simpa [CalibrationSplit.length] using hlength
    | regression rows =>
      rw [Except.ok.injEq] at h
      subst h
      exact ⟨rfl, rfl, by simp [calibrateRegression, CalibrationSplit.length]⟩
    | unsupported n => cases h

omit [FloorRing K] in
/-- An `alpha` between zero and one is not clamped. -/
theorem coverageGuarantee_eq (h0 : 0 ≤ c.alpha) (h1 : c.alpha ≤ 1) :
    c.coverageGuarantee = 1 - c.alpha := by
  unfold coverageGuarantee
  rw [max_eq_right (by linarith), min_eq_right (by linarith)]

/-- Coverage asks for one row at least, and not for more than there are. -/
theorem requiredCount_mem (h0 : 0 < c.alpha) (h1 : c.alpha < 1) {rows : ℕ} (hrows : 0 < rows) :
    0 < c.requiredCount rows ∧ c.requiredCount rows ≤ rows := by
  have hcast : (0 : K) < rows := Nat.cast_pos.mpr hrows
  constructor
  · rw [requiredCount, Nat.ceil_pos]
    exact mul_pos (by linarith) hcast
  · rw [requiredCount, Nat.ceil_le]
    exact mul_le_of_le_one_left hcast.le (by linarith)

end ConformalCalibrator

open ConformalCalibrator

/-- Whenever a split is calibrated, the threshold is the one of its scores. Of `n + 1` scores,
at least `⌈(1 - alpha) (n + 1)⌉` are at most the threshold for the others exactly when the place
of the quantile reaches the score of that rank. -/
theorem covered_iff_rank_reached (c : ConformalCalibrator K) (h0 : 0 < c.alpha)
    (h1 : c.alpha < 1) (n : ℕ) (hn : 1 ≤ n) (scores : List K) (hscores : scores.length = n + 1) :
    (∀ c' split, c.calibrate split none = .ok c' →
      c'.qHat = some (c.threshold c'.nonconformityScores)) ∧
    (c.requiredCount (n + 1) ≤ c.coveredCount scores ↔ c.RankReached scores) := by
  constructor
  · intro c' split hcalibrate
    obtain ⟨hthreshold, halpha, -⟩ := qHat_of_calibrate hcalibrate
    rw [hthreshold]
    have hsame : c'.alpha = c.alpha := halpha
    unfold threshold coverageGuarantee
    rw [hsame]
  · have hrequired : 0 < c.requiredCount (n + 1) ∧ c.requiredCount (n + 1) ≤ n + 1 :=
      requiredCount_mem h0 h1 (by omega)
    have hcovered : c.coveredCount scores = coveredByOthers (1 - c.alpha) scores := by
      rw [← coverageGuarantee_eq h0.le h1.le]
      rfl
    have hrank : c.requiredCount (n + 1) - 1 < coveredByOthers (1 - c.alpha) scores ↔
        Reached (scores.insertionSort (· ≤ ·)) ((1 - c.alpha) * (scores.length - 2 : ℕ))
          (c.requiredCount (n + 1) - 1) :=
      lt_coveredByOthers_iff (by linarith) (by linarith) (by omega) (by omega)
    rw [RankReached, hscores]
    rw [hscores] at hrank
    rw [hcovered, ← hrank]
    omega

/-- A calibrator that has not been calibrated. -/
def freshCalibrator (alpha : ℚ) : ConformalCalibrator ℚ := ⟨alpha, none, none, none, none, []⟩

/-- With half of the rows to be covered, interpolation reaches the second of three scores. -/
theorem half_covered :
    (freshCalibrator (1 / 2)).requiredCount 3 ≤ (freshCalibrator (1 / 2)).coveredCount [3, 1, 2] :=
  (covered_iff_rank_reached (freshCalibrator (1 / 2)) (by decide +kernel) (by decide +kernel) 2
    (by decide) [3, 1, 2] rfl).2.mpr (by unfold RankReached; decide +kernel)

/-- Eleven equally spaced scores. -/
def equallySpaced : List ℚ := [0, 1, 2, 3, 4, 5, 6, 7, 8, 9, 10]

/-- With the default `alpha`, ten of eleven equally spaced scores have to be covered, and the
thresholds for the other ten do not cover ten. -/
theorem equally_spaced_not_covered :
    (freshCalibrator (1 / 10)).requiredCount equallySpaced.length = 10 ∧
      ¬10 ≤ (freshCalibrator (1 / 10)).coveredCount equallySpaced := by
  refine ⟨by decide +kernel, ?_⟩
  have hguarantee : (freshCalibrator (1 / 10)).coverageGuarantee = 9 / 10 := by decide +kernel
  have hcovered : (freshCalibrator (1 / 10)).coveredCount equallySpaced =
      coveredByOthers (9 / 10) equallySpaced := by
    rw [← hguarantee]
    rfl
  have hsorted : equallySpaced.insertionSort (· ≤ ·) = equallySpaced :=
    List.Pairwise.insertionSort_eq (by unfold equallySpaced; decide +kernel)
  have hrank : 9 < coveredByOthers (9 / 10) equallySpaced ↔
      Reached (equallySpaced.insertionSort (· ≤ ·)) (9 / 10 * (equallySpaced.length - 2 : ℕ)) 9 :=
    lt_coveredByOthers_iff (by norm_num) (by norm_num) (by decide) (by decide)
  rw [hsorted] at hrank
  rw [hcovered, Nat.succ_le_iff, hrank]
  decide +kernel

end LedgerLens.Detection.Conformal
