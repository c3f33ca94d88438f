import LedgerLens.Detection.PredictionSet
import LedgerLens.Detection.RiskScorer

/-!
# Scores with an interval

`score_with_uncertainty` puts an interval next to the score of a row. Both are made of what the
models predict, but in different ways: the score may come from a list, from the lack of a consensus
or from a rounded vote, while the interval spans those of the single models. This file says for
which rows the interval contains the score.
-/

namespace LedgerLens.Detection

open Conformal Propagation TrimmedMean
open LedgerLens.Federated (Argsort)

variable {Cell Value : Type}

/-- A model that was loaded, with all that it predicts for a row with these columns. -/
structure Estimator (Value : Type) where
  /-- `feature_names_in_`, if it has them. -/
  featureNamesIn : Option (List String)
  /-- `predict_proba`, if it has it: the probability of every class. -/
  predictProba : Option (List (String × Value) → Except String (List ℚ))
  /-- `predict`, if it has it. -/
  predict : Option (List (String × Value) → Except String ℚ)

/-- The model as a score uses it, for the probability of the second class. -/
def Estimator.fitted (m : Estimator Value) : FittedModel Value where
  featureNamesIn := m.featureNamesIn
  predictProba x :=
    match m.predictProba with
    | none => .error "no predict_proba"
    | some predictProba => do
      let probs ← predictProba x
      match probs[1]? with
      | none => .error "index 1 is out of bounds"
      | some p => .ok p

/-- An interval of `predict_with_interval`. -/
structure PredictionInterval where
  /-- `score`. -/
  score : ℚ
  /-- `lower`. -/
  lower : ℚ
  /-- `upper`. -/
  upper : ℚ

/-- `row_probs.argmax()`. -/
def argmax (rowProbs : List ℚ) : ℕ := rowProbs.findIdx fun p => rowProbs.all fun q => q ≤ p

/-- The score of a row of probabilities. It divides by the number of classes without one. -/
def classScore (rowProbs : List ℚ) : Except String ℚ :=
  match rowProbs with
  | [] => .error "attempt to get argmax of an empty sequence"
  | [_] => .error "division by zero"
  | [_, p] => .ok (p * 100)
  | rowProbs => .ok (argmax rowProbs / (rowProbs.length - 1 : ℕ) * 100)

/-- The score and the margin of `predict_with_interval`. -/
def scoreAndMargin (c : ConformalCalibrator ℚ) (m : Estimator Value) (x : List (String × Value)) :
    Except String (ℚ × ℚ) :=
  match c.qHat with
  | none => .error "ConformalCalibrator has not been calibrated yet"
  | some qHat =>
    match m.predictProba, c.mode, m.predict with
    | some predictProba, some .classification, _ => do
      let rowProbs ← predictProba x
      let score ← classScore rowProbs
      return (score, qHat * 100)
    | _, _, some predict => do
      let pred ← predict x
      return (pred, qHat)
    | _, _, none => .error "model must have predict or predict_proba"

/-- `predict_with_interval`. -/
def predictWithInterval (c : ConformalCalibrator ℚ) (m : Estimator Value)
    (x : List (String × Value)) : Except String PredictionInterval := do
  let (score, margin) ← scoreAndMargin c m x
  return { score := score, lower := max 0 (score - margin), upper := min 100 (score + margin) }

/-- A result of `score_with_uncertainty`. -/
structure UncertainScore where
  /-- The result of `score`. -/
  base : ScoreResult
  /-- `score_lower`. -/
  scoreLower : ℚ
  /-- `score_upper`. -/
  scoreUpper : ℚ
  /-- `prediction_set`. -/
  predictionSet : List ℕ
  /-- `coverage_guarantee`. -/
  coverageGuarantee : ℚ
  deriving DecidableEq

/-- `RiskScorer` with its calibrators. -/
structure CalibratedScorer (Value : Type) where
  /-- `models`. -/
  models : UniqueTable String (Estimator Value)
  /-- `weights`. -/
  weights : Option (UniqueTable String ℚ)
  /-- `metadata`, if it is not empty. -/
  metadata : Option ModelMetadata
  /-- `selected_features`. -/
  selectedFeatures : Option (List String)
  /-- `calibrators`. -/
  calibrators : UniqueTable String (ConformalCalibrator ℚ)

namespace CalibratedScorer

variable (env : ScoringEnv Cell Value) (argsort : Argsort ℚ) (s : CalibratedScorer Value)

/-- The scorer without its calibrators. -/
def riskScorer : RiskScorer Value where
  models := s.models.mapRows fun _ m => m.fitted
  weights := s.weights
  metadata := s.metadata
  selectedFeatures := s.selectedFeatures

/-- The bounds for a model, which are those of all scores if something is missing or raises. -/
def modelBounds (x : List (String × Value)) (e : String × Estimator Value) : ℚ × ℚ :=
  match s.calibrators.find? e.1 with
  | none => (0, 100)
  | some calibrator =>
    match predictWithInterval calibrator e.2 x with
    | .error _ => (0, 100)
    | .ok interval => (interval.lower, interval.upper)

/-- The prediction set of a model, if its calibrator gives one. -/
def modelSet (x : List (String × Value)) (e : String × Estimator Value) : Option (List ℕ) :=
  match s.calibrators.find? e.1, e.2.predictProba with
  | some calibrator, some predictProba =>
    match predictProba x with
    | .error _ => none
    | .ok rowProbs =>
      match calibrator.predictSet argsort rowProbs.length (some [rowProbs]) with
      | .error _ => none
      | .ok sets => sets.head?.map fun set => set.predictionSet
  | _, _ => none

/-- `score_with_uncertainty`. -/
def scoreWithUncertainty (row : Series Cell) : Except ScoringError UncertainScore := do
  let baseScore ← s.riskScorer.score env row none "internal"
  if s.calibrators.rows = [] ∨ s.models.rows = [] then
    return { base := baseScore
             scoreLower := 0
             scoreUpper := 100
             predictionSet := []
             coverageGuarantee := 1 }
  else
    let x ← asFloats env (featureCols row.index) row.values
    let bounds := s.models.rows.map (s.modelBounds x)
    return { base := baseScore
             scoreLower := max 0 ((bounds.map Prod.fst).min?.getD 0)
             scoreUpper := min 100 ((bounds.map Prod.snd).max?.getD 100)
             predictionSet := (s.models.rows.findSome? (s.modelSet argsort x)).getD []
             coverageGuarantee :=
              (s.calibrators.rows.head?.map fun e => 1 - e.2.alpha).getD 1 }

end CalibratedScorer

/-- The interval is one of scores and contains the score. -/
def UncertainScore.Contains (r : UncertainScore) : Prop :=
  0 ≤ r.scoreLower ∧ r.scoreLower ≤ r.base.score ∧ r.base.score ≤ r.scoreUpper ∧ r.scoreUpper ≤ 100

/-- How the score of some probabilities comes about. -/
theorem RiskScorer.resultOf_cases {env : ScoringEnv Cell Value} {s : RiskScorer Value}
    {row : Series Cell} {probs : List ℚ} {base : ScoreResult}
    (h : s.resultOf env row "internal" probs = .ok base) :
    (∃ weights, s.weights = some weights ∧
      base.score = roundHalfEven (s.weightedSum weights probs * 100)) ∨
    s.weights = none ∧ ∃ v diverged,
      bftTrimmedMean env.bftScoreDivergenceThreshold (probs.map (· * 100)) = .ok (v, diverged) ∧
      ((hasConsensus env (probs.map (· * 100)) = false ∧ base.score = 100) ∨
        hasConsensus env (probs.map (· * 100)) = true ∧ base.score = roundHalfEven v) := by
  unfold RiskScorer.resultOf at h
  cases hweights : s.weights with
  | some weights =>
    rw [hweights] at h
    dsimp only at h
    split_ifs at h
    cases h
    exact .inl ⟨weights, rfl, rfl⟩
  | none =>
    rw [hweights] at h
    dsimp only at h
    split at h
    next => cases h
    next v diverged hvote =>
      refine .inr ⟨rfl, v, diverged, hvote, ?_⟩
      split_ifs at h with hconsensus
      · cases h
        exact .inr ⟨hconsensus, rfl⟩
      · cases h
        exact .inl ⟨Bool.not_eq_true _ ▸ hconsensus, rfl⟩

namespace CalibratedScorer

variable (env : ScoringEnv Cell Value) (argsort : Argsort ℚ) (s : CalibratedScorer Value)

/-- The calibrator of a model gives a score and a margin for a row. -/
def Estimates (x : List (String × Value)) (e : String × Estimator Value) (score margin : ℚ) :
    Prop :=
  ∃ c, s.calibrators.find? e.1 = some c ∧ scoreAndMargin c e.2 x = .ok (score, margin)

/-- A number is a score, and neither below nor above all calibrated models by more than their
margins. A model without a score and a margin has no bounds. -/
def Reaches (row : Series Cell) (v : ℤ) : Prop :=
  (0 ≤ v ∧ v ≤ 100) ∧ (s.calibrators.rows = [] ∨ s.models.rows = [] ∨
    ∀ x, asFloats env (featureCols row.index) row.values = .ok x →
      (∃ e ∈ s.models.rows, ∀ score margin, s.Estimates x e score margin → score ≤ v + margin) ∧
      ∃ e ∈ s.models.rows, ∀ score margin, s.Estimates x e score margin → v ≤ score + margin)

/-- The models give probabilities for a row that is on no list. -/
def Scores (row : Series Cell) (probs : List ℚ) : Prop :=
  checkOverride env row = none ∧ s.riskScorer.ensembleProbabilities env row = .ok probs

/-- The models reach the score that a row has, by the way in which it has it. -/
structure ReachesScore (row : Series Cell) : Prop where
  /-- The score of a list. -/
  listed : ∀ score, checkOverride env row = some score → s.Reaches env row score
  /-- The weighted sum, rounded. -/
  weighted : ∀ probs weights, s.Scores env row probs → s.weights = some weights →
    s.Reaches env row (roundHalfEven (s.riskScorer.weightedSum weights probs * 100))
  /-- The score without a consensus. -/
  dissent : ∀ probs, s.Scores env row probs → s.weights = none →
    hasConsensus env (probs.map (· * 100)) = false → s.Reaches env row 100
  /-- The vote, rounded. -/
  vote : ∀ probs v diverged, s.Scores env row probs → s.weights = none →
    hasConsensus env (probs.map (· * 100)) = true →
    bftTrimmedMean env.bftScoreDivergenceThreshold (probs.map (· * 100)) = .ok (v, diverged) →
    s.Reaches env row (roundHalfEven v)

variable {env argsort s} {row : Series Cell} {r : UncertainScore} {base : ScoreResult}

/-- The bounds for a model, if its calibrator gives a score and a margin, and else. -/
theorem modelBounds_cases (x : List (String × Value)) (e : String × Estimator Value) :
    ((∀ score margin, ¬s.Estimates x e score margin) ∧ s.modelBounds x e = (0, 100)) ∨
      ∃ score margin, (∀ score' margin', s.Estimates x e score' margin' ↔
        score' = score ∧ margin' = margin) ∧
        s.modelBounds x e = (max 0 (score - margin), min 100 (score + margin)) := by
  unfold Estimates modelBounds
  cases s.calibrators.find? e.1 with
  | none => exact .inl ⟨fun _ _ h => by simp at h, rfl⟩
  | some c =>
    dsimp only
    cases hestimate : scoreAndMargin c e.2 x with
    | error reason =>
      have hinterval : predictWithInterval c e.2 x = .error reason := by
        unfold predictWithInterval
        rw [hestimate]
        rfl
      rw [hinterval]
      exact .inl ⟨fun _ _ h => by simp [hestimate] at h, rfl⟩
    | ok estimate =>
      have hinterval : predictWithInterval c e.2 x =
          .ok ⟨estimate.1, max 0 (estimate.1 - estimate.2),
            min 100 (estimate.1 + estimate.2)⟩ := by
        unfold predictWithInterval
        rw [hestimate]
        rfl
      rw [hinterval]
      refine .inr ⟨estimate.1, estimate.2, fun score margin => ?_, rfl⟩
      simp only [Option.some.injEq, exists_eq_left', hestimate, Except.ok.injEq]
      exact Prod.ext_iff.trans (and_congr eq_comm eq_comm)

/-- When a number is not below the bounds for a model. -/
theorem fst_modelBounds_le_iff {x : List (String × Value)} {e : String × Estimator Value} {v : ℚ}
    (hv : 0 ≤ v) : (s.modelBounds x e).1 ≤ v ↔
      ∀ score margin, s.Estimates x e score margin → score ≤ v + margin := by
  obtain ⟨hnone, hbounds⟩ | ⟨score, margin, hestimates, hbounds⟩ := s.modelBounds_cases x e
  · simp [hbounds, hnone, hv]
  · simp [hbounds, hestimates, hv]

/-- When a number is not above the bounds for a model. -/
theorem le_snd_modelBounds_iff {x : List (String × Value)} {e : String × Estimator Value} {v : ℚ}
    (hv : v ≤ 100) : v ≤ (s.modelBounds x e).2 ↔
      ∀ score margin, s.Estimates x e score margin → v ≤ score + margin := by
  obtain ⟨hnone, hbounds⟩ | ⟨score, margin, hestimates, hbounds⟩ := s.modelBounds_cases x e
  · simp [hbounds, hnone, hv]
  · simp [hbounds, hestimates, hv]

/-- The score of a list is the one that has to be reached. -/
theorem reachesScore_iff_of_listed {score : ℕ} (h : checkOverride env row = some score) :
    s.ReachesScore env row ↔ s.Reaches env row score := by
  have hnone : ∀ probs, ¬s.Scores env row probs := fun probs hprobs => by
    simp [hprobs.1] at h
  constructor
  · exact fun hreaches => hreaches.listed score h
  · intro hreaches
    refine ⟨fun score' h' => ?_, fun probs _ hprobs => absurd hprobs (hnone probs),
      fun probs hprobs => absurd hprobs (hnone probs),
      fun probs _ _ hprobs => absurd hprobs (hnone probs)⟩
    obtain rfl := Option.some.inj (h.symm.trans h')
    exact hreaches

/-- The score of some probabilities is the one that has to be reached. -/
theorem reachesScore_iff_of_scores {probs : List ℚ} (hscores : s.Scores env row probs)
    (h : s.riskScorer.resultOf env row "internal" probs = .ok base) :
    s.ReachesScore env row ↔ s.Reaches env row base.score := by
  have hunique : ∀ probs', s.Scores env row probs' → probs' = probs := fun probs' hprobs' =>
    Except.ok.inj (hprobs'.2.symm.trans hscores.2)
  have hlisted : ∀ score, checkOverride env row = some score → s.Reaches env row score :=
    fun score h' => by simp [hscores.1] at h'
  obtain ⟨weights, hweights, hbase⟩ | ⟨hweights, v, diverged, hvote, hcases⟩ :=
    RiskScorer.resultOf_cases h
  · change s.weights = some weights at hweights
    rw [hbase]
    refine ⟨fun hreaches => hreaches.weighted probs weights hscores hweights, fun hreaches =>
      ⟨hlisted, fun probs' weights' hprobs' hw => ?_, fun _ _ hw => by simp [hweights] at hw,
        fun _ _ _ _ hw => by simp [hweights] at hw⟩⟩
    obtain rfl := hunique probs' hprobs'
    obtain rfl := Option.some.inj (hweights.symm.trans hw)
    exact hreaches
  · change s.weights = none at hweights
    have hweighted : ∀ probs weights, s.Scores env row probs → s.weights = some weights →
        s.Reaches env row (roundHalfEven (s.riskScorer.weightedSum weights probs * 100)) :=
      fun _ _ _ hw => by simp [hweights] at hw
    obtain ⟨hdissent, hbase⟩ | ⟨hconsensus, hbase⟩ := hcases
    · rw [hbase]
      refine ⟨fun hreaches => hreaches.dissent probs hscores hweights hdissent, fun hreaches =>
        ⟨hlisted, hweighted, fun _ _ _ _ => hreaches, fun probs' _ _ hprobs' _ hconsensus _ => ?_⟩⟩
      obtain rfl := hunique probs' hprobs'
      rw [hdissent] at hconsensus
      cases hconsensus
    · rw [hbase]
      refine ⟨fun hreaches => hreaches.vote probs v diverged hscores hweights hconsensus hvote,
        fun hreaches => ⟨hlisted, hweighted, fun probs' hprobs' _ hdissent => ?_,
          fun probs' _ _ hprobs' _ _ hvote' => ?_⟩⟩
      · obtain rfl := hunique probs' hprobs'
        rw [hconsensus] at hdissent
        cases hdissent
      · obtain rfl := hunique probs' hprobs'
        cases hvote.symm.trans hvote'
        exact hreaches

/-- The score of a row is the one that has to be reached. -/
theorem reachesScore_iff (h : s.riskScorer.score env row none "internal" = .ok base) :
    s.ReachesScore env row ↔ s.Reaches env row base.score := by
  unfold RiskScorer.score at h
  cases hoverride : checkOverride env row with
  | some score =>
    rw [hoverride, Except.ok.injEq] at h
    subst h
    exact reachesScore_iff_of_listed hoverride
  | none =>
    rw [hoverride] at h
    obtain ⟨probs, hprobs, hresult⟩ := Except.bind_eq_ok_iff.mp h
    exact reachesScore_iff_of_scores ⟨hoverride, hprobs⟩ hresult

/-- What is returned, by whether there are intervals. -/
theorem scoreWithUncertainty_cases (h : s.scoreWithUncertainty env argsort row = .ok r) :
    s.riskScorer.score env row none "internal" = .ok r.base ∧
      (((s.calibrators.rows = [] ∨ s.models.rows = []) ∧ r.scoreLower = 0 ∧ r.scoreUpper = 100) ∨
      (s.calibrators.rows ≠ [] ∧ s.models.rows ≠ [] ∧
        ∃ x, asFloats env (featureCols row.index) row.values = .ok x ∧
          r.scoreLower = max 0 (((s.models.rows.map (s.modelBounds x)).map Prod.fst).min?.getD 0) ∧
          r.scoreUpper =
            min 100 (((s.models.rows.map (s.modelBounds x)).map Prod.snd).max?.getD 100))) := by
  unfold scoreWithUncertainty at h
  obtain ⟨baseScore, hbase, hrest⟩ := Except.bind_eq_ok_iff.mp h
  by_cases hnone : s.calibrators.rows = [] ∨ s.models.rows = []
  · rw [if_pos hnone] at hrest
    cases hrest
    exact ⟨hbase, .inl ⟨hnone, rfl, rfl⟩⟩
  · rw [if_neg hnone] at hrest
    obtain ⟨x, hx, hrest⟩ := Except.bind_eq_ok_iff.mp hrest
    cases hrest
    obtain ⟨hcalibrators, hmodels⟩ := not_or.mp hnone
    exact ⟨hbase, .inr ⟨hcalibrators, hmodels, x, hx, rfl, rfl⟩⟩

/-- The least of some numbers is at most another number if one of them is. -/
theorem min?_getD_le_iff {xs : List ℚ} (hne : xs ≠ []) {d v : ℚ} :
    xs.min?.getD d ≤ v ↔ ∃ a ∈ xs, a ≤ v := by
  obtain ⟨m, hm⟩ := Option.isSome_iff_exists.mp (List.isSome_min?_of_ne_nil hne)
  obtain ⟨hmem, hle⟩ := List.min?_eq_some_iff.mp hm
  rw [hm, Option.getD_some]
  exact ⟨fun h => ⟨m, hmem, h⟩, fun ⟨a, ha, hav⟩ => (hle a ha).trans hav⟩

/-- The greatest of some numbers is at least another number if one of them is. -/
theorem le_max?_getD_iff {xs : List ℚ} (hne : xs ≠ []) {d v : ℚ} :
    v ≤ xs.max?.getD d ↔ ∃ a ∈ xs, v ≤ a := by
  obtain ⟨m, hm⟩ := Option.isSome_iff_exists.mp (List.isSome_max?_of_ne_nil hne)
  obtain ⟨hmem, hle⟩ := List.max?_eq_some_iff.mp hm
  rw [hm, Option.getD_some]
  exact ⟨fun h => ⟨m, hmem, h⟩, fun ⟨a, ha, hav⟩ => hav.trans (hle a ha)⟩

end CalibratedScorer

section Listed

/-- All wallets are on a list with a score. -/
private def listedScoring (score : ℕ) : ScoringEnv ℚ ℚ where
  asFloat := .ok
  zero := 0
  exceeds c x := decide (x < c)
  override _ := some score
  zeroShot _ := none
  perturb score _ := score
  bftScoreDivergenceThreshold := 30
  bftMinConsensus := 2
  zeroShotMinLabelledExamples := 20

/-- A model that always predicts the first class. -/
private def firstClass : Estimator ℚ := ⟨none, some fun _ => .ok [1, 0], none⟩

/-- Its calibrator. -/
private def tenthCalibrator : ConformalCalibrator ℚ where
  alpha := 1 / 10
  qHat := some (1 / 10)
  nCal := some 20
  classes := some [0, 1]
  mode := some .classification
  nonconformityScores := []

private def calibratedForest : CalibratedScorer ℚ where
  models := UniqueTable.empty.put "random_forest" firstClass
  weights := none
  metadata := none
  selectedFeatures := none
  calibrators := UniqueTable.empty.put "random_forest" tenthCalibrator

private def walletRow : Series ℚ := ⟨["wallet", "volume"], fun _ => 5⟩

end Listed

end LedgerLens.Detection
