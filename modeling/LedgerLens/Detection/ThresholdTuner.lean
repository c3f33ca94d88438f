import LedgerLens.Library.FScore
import Mathlib.Algebra.Order.Ring.Rat
import Mathlib.Data.Int.Cast.Basic

/-!
# Tuning the alert threshold

The threshold of the alerts is chosen from a grid by what it does on a labelled set of scores: by an
F-score, by a budget for false positives or by a cost. The F-score of the code has another
denominator than the F-score for its beta. This file shows which one it is, and on which data the
choice is the same.

Numbers are from an ordered field.
-/

namespace LedgerLens.Detection.Thresholds

open FScore

variable {K : Type*} [Field K] [LinearOrder K]

/-- `ThresholdEvalPoint`. -/
structure ThresholdEvalPoint (K : Type*) where
  /-- `threshold`. -/
  threshold : ℤ
  /-- `tp`. -/
  tp : ℕ
  /-- `fp`. -/
  fp : ℕ
  /-- `tn`. -/
  tn : ℕ
  /-- `fn`. -/
  fn : ℕ
  /-- `precision`. -/
  precision : K
  /-- `recall`. -/
  recallRate : K
  /-- `f1`. -/
  f1 : K
  /-- `f_beta`. -/
  fBeta : K
  /-- `fpr`. -/
  fpr : K
  /-- `cost`. -/
  cost : K

/-- `TuningResult`. -/
structure TuningResult (K : Type*) where
  /-- `strategy`. -/
  strategy : String
  /-- `recommended_threshold`. -/
  recommendedThreshold : ℤ
  /-- `eval_points`. -/
  evalPoints : List (ThresholdEvalPoint K)
  /-- `parameters`. -/
  parameters : List (String × K)

/-- `(scores >= threshold).astype(int)`. -/
def predictions (scores : List K) (threshold : ℤ) : List ℤ :=
  scores.map fun score => if (threshold : K) ≤ score then 1 else 0

/-- `((predictions == p) & (labels == l)).sum()`. -/
def countBoth (predictions labels : List ℤ) (p l : ℤ) : ℕ :=
  (predictions.zip labels).countP fun x => x.1 = p ∧ x.2 = l

/-- `_compute_metrics`. -/
def computeMetrics (scores : List K) (labels : List ℤ) (threshold : ℤ) (beta : K := 1)
    (fpWeight : K := 1) (fnWeight : K := 1) : ThresholdEvalPoint K :=
  let predictions := predictions scores threshold
  let tp := countBoth predictions labels 1 1
  let fp := countBoth predictions labels 1 0
  let tn := countBoth predictions labels 0 0
  let fn := countBoth predictions labels 0 1
  let precision : K := if tp + fp > 0 then tp / (tp + fp : ℕ) else 0
  let recallRate : K := if tp + fn > 0 then tp / (tp + fn : ℕ) else 0
  let denomBeta := (1 + beta ^ 2) * precision + recallRate
  { threshold, tp, fp, tn, fn, precision, recallRate
    f1 :=
      if precision + recallRate > 0 then
        ((2 : ℕ) : K) * precision * recallRate / (precision + recallRate)
      else 0
    fBeta := if denomBeta > 0 then (1 + beta ^ 2) * precision * recallRate / denomBeta else 0
    fpr := if fp + tn > 0 then fp / (fp + tn : ℕ) else 0
    cost := fpWeight * fp + fnWeight * fn }

/-- What the tuner raises. -/
inductive TunerError where
  /-- `scores and labels must have the same length`. -/
  | length (scores labels : ℕ)
  /-- `scores/labels arrays must not be empty`. -/
  | empty
  /-- `max` or `min` of an empty sequence. -/
  | emptySequence
  deriving DecidableEq

/-- `DEFAULT_THRESHOLD_GRID`. -/
def defaultThresholdGrid : List ℤ := [40, 45, 50, 55, 60, 65, 70, 75, 80, 85, 90, 95]

/-- `ThresholdTuner`. -/
structure ThresholdTuner (K : Type*) where
  /-- `_scores`. -/
  scores : List K
  /-- `_labels`. -/
  labels : List ℤ
  /-- `_grid`. -/
  grid : List ℤ
  /-- The constructor raises otherwise. -/
  length_eq : scores.length = labels.length
  /-- The constructor raises otherwise. -/
  scores_ne : scores ≠ []
  /-- An empty grid is replaced. -/
  grid_ne : grid ≠ []

/-- `threshold_grid or DEFAULT_THRESHOLD_GRID`. -/
def orDefault (thresholdGrid : Option (List ℤ)) : List ℤ :=
  match thresholdGrid with
  | none => defaultThresholdGrid
  | some grid => if grid = [] then defaultThresholdGrid else grid

theorem orDefault_ne (thresholdGrid : Option (List ℤ)) : orDefault thresholdGrid ≠ [] := by
  unfold orDefault
  split
  · exact List.cons_ne_nil _ _
  · split_ifs with hempty
    · exact List.cons_ne_nil _ _
    · exact hempty

namespace ThresholdTuner

omit [Field K] in
/-- `__init__`. -/
def new (scores : List K) (labels : List ℤ) (thresholdGrid : Option (List ℤ) := none) :
    Except TunerError (ThresholdTuner K) :=
  if hlength : scores.length ≠ labels.length then
    .error (.length scores.length labels.length)
  else if hempty : scores = [] then
    .error .empty
  else
    .ok ⟨scores, labels, orDefault thresholdGrid, not_not.mp hlength, hempty, orDefault_ne _⟩

variable (t : ThresholdTuner K)

/-- `tune_precision_recall`. -/
def tunePrecisionRecall (beta : K := 1) : Except TunerError (TuningResult K) :=
  let evalPoints := t.grid.map fun threshold => computeMetrics t.scores t.labels threshold beta
  match evalPoints.argmax ThresholdEvalPoint.fBeta with
  | none => .error .emptySequence
  | some best => .ok ⟨"precision_recall", best.threshold, evalPoints, [("beta", beta)]⟩

/-- `tune_false_positive_budget`. -/
def tuneFalsePositiveBudget (maxFpr : K := 1 / 20) : Except TunerError (TuningResult K) :=
  let evalPoints := t.grid.map fun threshold => computeMetrics t.scores t.labels threshold
  let feasible := evalPoints.filter fun p => p.fpr ≤ maxFpr
  let best :=
    if feasible = [] then evalPoints.argmin ThresholdEvalPoint.fpr
    else feasible.argmax ThresholdEvalPoint.recallRate
  match best with
  | none => .error .emptySequence
  | some best =>
    .ok ⟨"false_positive_budget", best.threshold, evalPoints, [("max_fpr", maxFpr)]⟩

/-- `tune_cost_sensitive`. -/
def tuneCostSensitive (fpWeight : K := 1) (fnWeight : K := 5) :
    Except TunerError (TuningResult K) :=
  let evalPoints := t.grid.map fun threshold =>
    computeMetrics t.scores t.labels threshold 1 fpWeight fnWeight
  match evalPoints.argmin ThresholdEvalPoint.cost with
  | none => .error .emptySequence
  | some best =>
    .ok ⟨"cost_sensitive", best.threshold, evalPoints,
      [("fp_weight", fpWeight), ("fn_weight", fnWeight)]⟩

/-- The scores with their labels. -/
def examples : List (K × ℤ) := t.scores.zip t.labels

/-- The number of alerts at a threshold. -/
def alertsAt (threshold : ℤ) : ℕ := t.examples.countP fun e => (threshold : K) ≤ e.1

/-- The number of alerts at a threshold that are right. -/
def hitsAt (threshold : ℤ) : ℕ := t.examples.countP fun e => (threshold : K) ≤ e.1 ∧ e.2 = 1

/-- The number of examples for which there should be an alert. -/
def positives : ℕ := t.examples.countP fun e => e.2 = 1

/-- The share of the alerts that are right. -/
def precisionAt (threshold : ℤ) : K := t.hitsAt threshold / t.alertsAt threshold

/-- The share of the examples with an alert, of those for which there should be one. -/
def recallAt (threshold : ℤ) : K := t.hitsAt threshold / t.positives

/-- The F-score of a threshold, for the square of beta. -/
def fScoreAt (weight : K) (threshold : ℤ) : K :=
  fScore weight (t.precisionAt threshold) (t.recallAt threshold)

/-- A threshold of the grid with the largest F-score, for the square of beta. -/
def IsBest (weight : K) (threshold : ℤ) : Prop :=
  threshold ∈ t.grid ∧ ∀ other ∈ t.grid, t.fScoreAt weight other ≤ t.fScoreAt weight threshold

/-- The labels are zero or one. -/
def Binary : Prop := ∀ label ∈ t.labels, label = 0 ∨ label = 1

variable {t}

/-- Examples are counted with a property and without it. -/
theorem countP_and_add {α : Type*} (p q : α → Prop) [DecidablePred p] [DecidablePred q]
    (xs : List α) :
    xs.countP (fun x => p x ∧ q x) + xs.countP (fun x => p x ∧ ¬q x) = xs.countP fun x => p x := by
  induction xs with
  | nil => rfl
  | cons x xs ih =>
    simp only [List.countP_cons, decide_eq_true_eq]
    split_ifs <;> first | omega | tauto

/-- Counting pairs of a prediction and a label is counting examples. -/
theorem countBoth_eq (threshold p l : ℤ) :
    countBoth (predictions t.scores threshold) t.labels p l =
      t.examples.countP fun e => (if (threshold : K) ≤ e.1 then 1 else 0) = p ∧ e.2 = l := by
  unfold countBoth predictions examples
  rw [List.zip_map_left, List.countP_map]
  rfl

theorem tp_eq (threshold : ℤ) :
    countBoth (predictions t.scores threshold) t.labels 1 1 = t.hitsAt threshold := by
  rw [countBoth_eq]
  refine List.countP_congr fun e _ => ?_
  simp only [decide_eq_true_eq]
  split_ifs with hle <;> simp [hle]

/-- The alerts are those that are right and the others. -/
theorem tp_add_fp (hbinary : t.Binary) (threshold : ℤ) :
    countBoth (predictions t.scores threshold) t.labels 1 1 +
      countBoth (predictions t.scores threshold) t.labels 1 0 = t.alertsAt threshold := by
  have hfp : countBoth (predictions t.scores threshold) t.labels 1 0 =
      t.examples.countP fun e => (threshold : K) ≤ e.1 ∧ ¬e.2 = 1 := by
    rw [countBoth_eq]
    refine List.countP_congr fun e he => ?_
    have hlabel := hbinary _ (List.of_mem_zip he).2
    simp only [decide_eq_true_eq]
    split_ifs with hle
    · simp only [hle, true_and]
      omega
    · simp [hle]
  rw [tp_eq, hfp]
  exact countP_and_add _ _ _

/-- The examples for which there should be an alert have one or have none. -/
theorem tp_add_fn (threshold : ℤ) :
    countBoth (predictions t.scores threshold) t.labels 1 1 +
      countBoth (predictions t.scores threshold) t.labels 0 1 = t.positives := by
  have hflip (q : K × ℤ → Prop) [DecidablePred q] :
      (t.examples.countP fun e => q e ∧ e.2 = 1) = t.examples.countP fun e => e.2 = 1 ∧ q e :=
    List.countP_congr fun e _ => by simp [and_comm]
  have hfn : countBoth (predictions t.scores threshold) t.labels 0 1 =
      t.examples.countP fun e => e.2 = 1 ∧ ¬(threshold : K) ≤ e.1 := by
    rw [countBoth_eq]
    refine List.countP_congr fun e _ => ?_
    simp only [decide_eq_true_eq]
    split_ifs with hle <;> simp [hle]
  rw [tp_eq, hfn, hitsAt, hflip]
  exact countP_and_add _ _ _

theorem hitsAt_le_alertsAt (threshold : ℤ) : t.hitsAt threshold ≤ t.alertsAt threshold :=
  List.countP_mono_left fun e _ he => by simp_all

theorem hitsAt_le_positives (threshold : ℤ) : t.hitsAt threshold ≤ t.positives :=
  List.countP_mono_left fun e _ he => by simp_all

omit [LinearOrder K] in
/-- A quotient of counts that is zero where there is nothing to divide by. -/
theorem guarded_eq (a b : ℕ) : (if b > 0 then (a : K) / (b : ℕ) else 0) = a / b := by
  split_ifs with hb
  · rfl
  · rw [Nat.eq_zero_of_not_pos hb, Nat.cast_zero, div_zero]

/-- The precision and the recall of the code. -/
theorem computeMetrics_eq (hbinary : t.Binary) (threshold : ℤ) (beta : K) :
    (computeMetrics t.scores t.labels threshold beta).precision = t.precisionAt threshold ∧
      (computeMetrics t.scores t.labels threshold beta).recallRate = t.recallAt threshold := by
  unfold computeMetrics
  dsimp only
  rw [guarded_eq, guarded_eq, tp_add_fp hbinary, tp_add_fn, tp_eq]
  exact ⟨rfl, rfl⟩

variable [IsStrictOrderedRing K]

/-- The F-score of the code has one more in its denominator than the F-score for its beta: it is
the one for the square of beta plus one, times a constant. -/
theorem fBeta_eq (hbinary : t.Binary) (threshold : ℤ) (beta : K) :
    (computeMetrics t.scores t.labels threshold beta).fBeta =
      (1 + beta ^ 2) / (2 + beta ^ 2) * t.fScoreAt (beta ^ 2 + 1) threshold := by
  obtain ⟨hprecision, hrecall⟩ := computeMetrics_eq hbinary threshold beta
  have hcode : (computeMetrics t.scores t.labels threshold beta).fBeta =
      if (1 + beta ^ 2) * t.precisionAt threshold + t.recallAt threshold > 0 then
        (1 + beta ^ 2) * t.precisionAt threshold * t.recallAt threshold /
          ((1 + beta ^ 2) * t.precisionAt threshold + t.recallAt threshold)
      else 0 := by
    rw [← hprecision, ← hrecall]
    rfl
  have hp : 0 ≤ t.precisionAt threshold := by
    unfold precisionAt
    positivity
  have hr : 0 ≤ t.recallAt threshold := by
    unfold recallAt
    positivity
  rw [hcode, fScoreAt, fScore, add_comm (beta ^ 2) 1]
  have hnonneg : 0 ≤ (1 + beta ^ 2) * t.precisionAt threshold + t.recallAt threshold := by
    positivity
  rcases hnonneg.eq_or_lt with hzero | hpos
  · rw [if_neg (by rw [← hzero]; exact lt_irrefl 0), if_pos hzero.symm, mul_zero]
  · have hconstant : (2 + beta ^ 2 : K) ≠ 0 := by positivity
    rw [if_pos hpos, if_neg hpos.ne']
    field_simp
    ring

/-- The recommended threshold is the first one that is best for the square of beta plus one. -/
theorem tunePrecisionRecall_eq (hbinary : t.Binary) (beta : K) :
    ∃ result, t.tunePrecisionRecall beta = .ok result ∧
      t.grid.argmax (t.fScoreAt (beta ^ 2 + 1)) = some result.recommendedThreshold := by
  have hargmax : (t.grid.map fun threshold =>
        computeMetrics t.scores t.labels threshold beta).argmax ThresholdEvalPoint.fBeta =
      (t.grid.argmax (t.fScoreAt (beta ^ 2 + 1))).map fun threshold =>
        computeMetrics t.scores t.labels threshold beta := by
    rw [argmax_map]
    refine congrArg _ (argmax_congr (fun a b => ?_) _)
    simp only [Function.comp_apply, fBeta_eq hbinary]
    exact mul_lt_mul_iff_right₀ (by positivity)
  obtain ⟨best, hbest⟩ : ∃ best, t.grid.argmax (t.fScoreAt (beta ^ 2 + 1)) = some best :=
    Option.ne_none_iff_exists'.mp (mt List.argmax_eq_none.mp t.grid_ne)
  refine ⟨⟨"precision_recall", best, t.grid.map fun threshold =>
    computeMetrics t.scores t.labels threshold beta, [("beta", beta)]⟩, ?_, hbest⟩
  unfold tunePrecisionRecall
  dsimp only
  rw [hargmax, hbest]
  rfl

omit [IsStrictOrderedRing K] in
theorem isBest_of_mem_argmax {weight : K} {threshold : ℤ}
    (h : threshold ∈ t.grid.argmax (t.fScoreAt weight)) : t.IsBest weight threshold :=
  ⟨List.argmax_mem h, fun _ hother => List.le_of_mem_argmax hother h⟩

/-- What is best for a greater weight has no smaller recall. -/
theorem recallAt_le_of_isBest {weight weight' : K} {threshold threshold' : ℤ}
    (hweight : 0 < weight) (hlt : weight < weight') (h : t.IsBest weight threshold)
    (h' : t.IsBest weight' threshold') : t.recallAt threshold ≤ t.recallAt threshold' := by
  have hhits : t.hitsAt threshold ≤ t.hitsAt threshold' :=
    hits_le_of_no_worse hweight hlt (t.hitsAt_le_alertsAt _) (t.hitsAt_le_positives _)
      (t.hitsAt_le_alertsAt _) (t.hitsAt_le_positives _) (h.2 _ h'.1) (h'.2 _ h.1)
  unfold recallAt
  gcongr

omit [IsStrictOrderedRing K] in
/-- The threshold that is recommended for costs has the smallest cost. -/
theorem tuneCostSensitive_eq (t : ThresholdTuner K) (fpWeight fnWeight : K) :
    ∃ result, t.tuneCostSensitive fpWeight fnWeight = .ok result ∧
      ∃ best ∈ result.evalPoints, result.recommendedThreshold = best.threshold ∧
        ∀ p ∈ result.evalPoints, best.cost ≤ p.cost := by
  unfold tuneCostSensitive
  dsimp only
  cases hbest : (t.grid.map fun threshold =>
    computeMetrics t.scores t.labels threshold 1 fpWeight fnWeight).argmin
      ThresholdEvalPoint.cost with
  | none => exact absurd (List.map_eq_nil_iff.mp (List.argmin_eq_none.mp hbest)) t.grid_ne
  | some best =>
    exact ⟨_, rfl, best, List.argmin_mem hbest, rfl, fun p hp => List.le_of_mem_argmin hp hbest⟩

omit [IsStrictOrderedRing K] in
/-- The threshold that is recommended for a budget of false positives has the largest recall of
those within the budget, or the smallest rate of false positives if none is. -/
theorem tuneFalsePositiveBudget_eq (t : ThresholdTuner K) (maxFpr : K) :
    ∃ result, t.tuneFalsePositiveBudget maxFpr = .ok result ∧
      ∃ best ∈ result.evalPoints, result.recommendedThreshold = best.threshold ∧
        ((best.fpr ≤ maxFpr ∧
            ∀ p ∈ result.evalPoints, p.fpr ≤ maxFpr → p.recallRate ≤ best.recallRate) ∨
          ∀ p ∈ result.evalPoints, maxFpr < p.fpr ∧ best.fpr ≤ p.fpr) := by
  unfold tuneFalsePositiveBudget
  dsimp only
  have hpoints : (t.grid.map fun threshold => computeMetrics t.scores t.labels threshold) ≠ [] :=
    mt List.map_eq_nil_iff.mp t.grid_ne
  split_ifs with hempty
  · cases hbest : (t.grid.map fun threshold => computeMetrics t.scores t.labels threshold).argmin
      ThresholdEvalPoint.fpr with
    | none => exact absurd (List.argmin_eq_none.mp hbest) hpoints
    | some best =>
      refine ⟨_, rfl, best, List.argmin_mem hbest, rfl, .inr fun p hp => ⟨?_, ?_⟩⟩
      · exact not_le.mp fun hle => List.filter_eq_nil_iff.mp hempty p hp (decide_eq_true hle)
      · exact List.le_of_mem_argmin hp hbest
  · cases hbest : ((t.grid.map fun threshold =>
        computeMetrics t.scores t.labels threshold).filter fun p => p.fpr ≤ maxFpr).argmax
      ThresholdEvalPoint.recallRate with
    | none => exact absurd (List.argmax_eq_none.mp hbest) hempty
    | some best =>
      obtain ⟨hmem, hfpr⟩ := List.mem_filter.mp (List.argmax_mem hbest)
      refine ⟨_, rfl, best, hmem, rfl, .inl ⟨of_decide_eq_true hfpr, fun p hp hle => ?_⟩⟩
      exact List.le_of_mem_argmax (List.mem_filter.mpr ⟨hp, decide_eq_true hle⟩) hbest

/-- A tuner for which all is told apart by one threshold. -/
private def separated : ThresholdTuner ℚ where
  scores := [90, 10]
  labels := [1, 0]
  grid := [50]
  length_eq := rfl
  scores_ne := List.cons_ne_nil _ _
  grid_ne := List.cons_ne_nil _ _

/-- A tuner for which two false alerts are not worth a third hit. -/
private def misled : ThresholdTuner ℚ where
  scores := [90, 90, 60, 60, 60]
  labels := [1, 1, 1, 0, 0]
  grid := defaultThresholdGrid
  length_eq := rfl
  scores_ne := List.cons_ne_nil _ _
  grid_ne := List.cons_ne_nil _ _

end ThresholdTuner

end LedgerLens.Detection.Thresholds
