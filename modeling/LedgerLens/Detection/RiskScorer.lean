import LedgerLens.Detection.EnsembleVote
import LedgerLens.Detection.RiskPropagation
import LedgerLens.Library.Checks
import LedgerLens.Library.Sha256
import LedgerLens.Library.UniqueTable
import Mathlib.Data.List.Sort
import Mathlib.Data.String.Basic

/-!
# Risk scores of feature rows

`RiskScorer` combines the probabilities of its models into a score, with weights or by vote. There
are three ways to it: `score` for a row, `score_continuous` without rounding, and
`score_continuous_batch` for all rows of a frame at once. Rounding the second gives the first,
unless weights name a model that is not loaded.

A model gives a probability for each row, whatever the other rows are. Its arithmetic is a
parameter, as are the entries of rows, the list override, zero-shot detection and the noise for
callers outside. Scores are rational numbers. Tracing and version stamps are left out.
-/

namespace LedgerLens.Detection

open TrimmedMean Propagation

/-- A row: `pd.Series`. -/
structure Series (Cell : Type) where
  /-- `index`. -/
  index : List String
  /-- The entry under each name. -/
  values : String → Cell

/-- A batch of rows: `pd.DataFrame`. -/
structure Frame (Cell : Type) where
  /-- `columns`. -/
  columns : List String
  /-- The rows, as their entries under each column. -/
  rows : List (String → Cell)

/-- The rows of a batch, each for itself. -/
def Frame.series {Cell : Type} (X : Frame Cell) : List (Series Cell) :=
  X.rows.map fun values => ⟨X.columns, values⟩

/-- A model that was loaded. -/
structure FittedModel (Value : Type) where
  /-- `feature_names_in_`, if it has them. -/
  featureNamesIn : Option (List String)
  /-- `predict_proba` of a row with these columns, for the second class. -/
  predictProba : List (String × Value) → Except String ℚ

/-- `model_metadata.json`. -/
structure ModelMetadata where
  /-- `feature_schema_hash`. -/
  featureSchemaHash : Option String
  /-- `feature_columns`. -/
  featureColumns : List String

/-- What the message about a schema says. -/
structure SchemaMismatch where
  /-- `expected_hash`. -/
  expectedHash : String
  /-- `current_hash`. -/
  currentHash : String
  /-- `missing_from_input`, sorted. -/
  missingFromInput : List String
  /-- `unexpected_extra`, sorted. -/
  unexpectedExtra : List String
  /-- `reordered`, sorted. -/
  reordered : List String
  deriving DecidableEq

/-- What scoring raises. -/
inductive ScoringError where
  /-- `RuntimeError`: no models are loaded. -/
  | noModels
  /-- `KeyError`: the metadata has no hash. -/
  | noSchemaHash
  /-- `RuntimeError`: the columns are not those of the models. -/
  | schemaMismatch (mismatch : SchemaMismatch)
  /-- `astype` raises for an entry. -/
  | notANumber (reason : String)
  /-- A model raises. -/
  | predict (reason : String)
  /-- `ValueError`: weights reference unknown models. -/
  | unknownModels (names : List String)
  /-- The vote raises. -/
  | vote (e : VoteError)
  deriving DecidableEq

/-- A result of `ZeroShotPatternDetector.score`. -/
structure ZeroShot where
  /-- `confidence`. -/
  confidence : ℚ
  /-- `prediction`. -/
  prediction : ℤ
  /-- `matched_pattern`. -/
  matchedPattern : Option String

/-- A result of `score`. A flag that is missing is false. -/
structure ScoreResult where
  /-- `score`. -/
  score : ℤ
  /-- `benford_flag`. -/
  benfordFlag : Bool
  /-- `ml_flag`. -/
  mlFlag : Bool
  /-- `confidence`. -/
  confidence : ℤ
  /-- `calibrated`. -/
  calibrated : Bool := false
  /-- `consensus_failure`. -/
  consensusFailure : Bool := false
  /-- `bft_divergence`. -/
  bftDivergence : Bool := false
  /-- `zero_shot`. -/
  zeroShot : Bool := false
  /-- `matched_pattern`. -/
  matchedPattern : Option String := none
  deriving DecidableEq

/-- What scoring relies on, and its configuration. -/
structure ScoringEnv (Cell Value : Type) where
  /-- `astype(float)` of an entry. -/
  asFloat : Cell → Except String Value
  /-- `0.0`. -/
  zero : Value
  /-- An entry is greater than a number. -/
  exceeds : Cell → ℚ → Bool
  /-- `list_override.check` of an entry, if it is not `None`. -/
  override : Cell → Option ℕ
  /-- `_zero_shot_score`. -/
  zeroShot : Series Cell → Option ZeroShot
  /-- `_apply_output_perturbation` for callers outside. -/
  perturb : ℤ → String → ℤ
  /-- `BFT_SCORE_DIVERGENCE_THRESHOLD`. -/
  bftScoreDivergenceThreshold : ℤ
  /-- `BFT_MIN_CONSENSUS`. -/
  bftMinConsensus : ℤ
  /-- `ZERO_SHOT_MIN_LABELLED_EXAMPLES`. -/
  zeroShotMinLabelledExamples : ℤ

/-- `RiskScorer`. -/
structure RiskScorer (Value : Type) where
  /-- `models`. -/
  models : UniqueTable String (FittedModel Value)
  /-- `weights`. -/
  weights : Option (UniqueTable String ℚ)
  /-- `metadata`, if it is not empty. -/
  metadata : Option ModelMetadata
  /-- `selected_features`. -/
  selectedFeatures : Option (List String)

/-- `FEATURE_COLUMNS_EXCLUDE`. -/
def featureColumnsExclude : List String := ["wallet", "label", "profile"]

/-- The columns that are features. -/
def featureCols (columns : List String) : List String :=
  columns.filter fun c => c ∉ featureColumnsExclude

/-- `compute_feature_schema_hash`. -/
def computeFeatureSchemaHash (featureColumns : List String) : String :=
  "sha256:" ++ Sha256.hexdigestString ("\n".intercalate (featureColumns.insertionSort (· ≤ ·)))

/-- The columns that the row and the model have at different places. -/
def reordered (commonInModel commonInInput : List String) : List String :=
  if commonInModel = commonInInput then []
  else commonInInput.filter fun c => commonInInput.idxOf c ≠ commonInModel.idxOf c

/-- The comparison of the columns with the metadata. -/
def checkSchema (metadata : ModelMetadata) (cols : List String) : Except ScoringError PUnit :=
  match metadata.featureSchemaHash with
  | none => .error .noSchemaHash
  | some expected =>
    demand (computeFeatureSchemaHash cols = expected) (.schemaMismatch
      { expectedHash := expected
        currentHash := computeFeatureSchemaHash cols
        missingFromInput :=
          (metadata.featureColumns.filter fun c => c ∉ cols).insertionSort (· ≤ ·)
        unexpectedExtra :=
          (cols.filter fun c => c ∉ metadata.featureColumns).insertionSort (· ≤ ·)
        reordered := (reordered (metadata.featureColumns.filter fun c => c ∈ cols)
          (cols.filter fun c => c ∈ metadata.featureColumns)).insertionSort (· ≤ ·) })

/-- A model's probability for a row. -/
def FittedModel.probability {Value : Type} (m : FittedModel Value) (x : List (String × Value)) :
    Except ScoringError ℚ :=
  match m.predictProba x with
  | .error reason => .error (.predict reason)
  | .ok p => .ok p

variable {Cell Value : Type} (env : ScoringEnv Cell Value)

/-- `reindex(columns=model_features, fill_value=0.0)`, if the model has names of features. -/
def FittedModel.align (m : FittedModel Value) (x : List (String × Value)) : List (String × Value) :=
  match m.featureNamesIn with
  | none => x
  | some names => names.map fun c => (c, (x.lookup c).getD env.zero)

/-- `row[cols].astype(float)`. -/
def asFloats (cols : List String) (values : String → Cell) :
    Except ScoringError (List (String × Value)) :=
  cols.mapM fun c =>
    match env.asFloat (values c) with
    | .error reason => .error (.notANumber reason)
    | .ok v => .ok (c, v)

/-- `_benford_flag`, with `BENFORD_MAD_FLAG_THRESHOLD`. -/
def benfordFlag (row : Series Cell) : Bool :=
  row.index.any fun c =>
    "benford_mad_".isPrefixOf c && env.exceeds (row.values c) (15 / 1000)

/-- `_has_consensus`, with `_CONSENSUS_WINDOW`. -/
def hasConsensus (scores : List ℚ) : Bool :=
  scores.any fun a => env.bftMinConsensus ≤ (scores.countP fun b => |a - b| ≤ 10 : ℕ)

/-- `_confidence_from_probs`. -/
def confidenceFromProbs (probs : List ℚ) (avgProb : ℚ) : ℤ :=
  let certainty := |avgProb - 1 / 2| * 2
  let agreement :=
    match probs with
    | p :: q :: rest => max (1 - span p (q :: rest)) 0
    | _ => 1
  roundHalfEven (certainty * agreement * 100)

/-- `_apply_output_perturbation`. -/
def applyOutputPerturbation (score : ℤ) (callerId : String) : ℤ :=
  if callerId = "internal" then score else env.perturb score callerId

/-- `_check_override`: the score that the lists give. -/
def checkOverride (row : Series Cell) : Option ℕ :=
  if "wallet" ∈ row.index then
    (env.override (row.values "wallet")).filter fun score => score ∈ [0, 100]
  else none

namespace RiskScorer

variable (s : RiskScorer Value)

/-- The columns that `_ensemble_probabilities` uses. -/
def usedCols (columns : List String) : List String :=
  match s.selectedFeatures with
  | none => featureCols columns
  | some selected => (featureCols columns).filter fun c => c ∈ selected

/-- The schema is compared if there is metadata and no selection. -/
def checkColumns (columns : List String) : Except ScoringError PUnit :=
  match s.metadata, s.selectedFeatures with
  | some metadata, none => checkSchema metadata (s.usedCols columns)
  | some _, some _ | none, _ => .ok ⟨⟩

/-- `_ensemble_probabilities`. -/
def ensembleProbabilities (row : Series Cell) : Except ScoringError (List ℚ) := do
  demand (s.models.rows ≠ []) .noModels
  s.checkColumns row.index
  let x ← asFloats env (s.usedCols row.index) row.values
  s.models.rows.mapM fun e => e.2.probability (e.2.align env x)

/-- The sum of the probabilities, each with the weight of its model. -/
def weightedSum (weights : UniqueTable String ℚ) (probs : List ℚ) : ℚ :=
  (((s.models.rows.map Prod.fst).zip probs).map fun e => (weights.find? e.1).getD 0 * e.2).sum

/-- `set(self.weights) - set(self.models)`, sorted. -/
def unknownModels (weights : UniqueTable String ℚ) : List String :=
  ((weights.rows.map Prod.fst).filter fun name =>
    name ∉ s.models.rows.map Prod.fst).insertionSort (· ≤ ·)

/-- How `score_continuous` combines the probabilities. -/
def combine (probs : List ℚ) : Except ScoringError ℚ :=
  match s.weights with
  | some weights => .ok (100 * s.weightedSum weights probs)
  | none =>
    match bftTrimmedMean env.bftScoreDivergenceThreshold (probs.map (· * 100)) with
    | .error e => .error (.vote e)
    | .ok (finalScore, _) => .ok finalScore

/-- `score_continuous`. -/
def scoreContinuous (row : Series Cell) : Except ScoringError ℚ :=
  match checkOverride env row with
  | some score => .ok score
  | none => do
    let probs ← s.ensembleProbabilities env row
    s.combine env probs

/-- How `_score_impl` makes a result of the probabilities. -/
def resultOf (row : Series Cell) (callerId : String) (probs : List ℚ) :
    Except ScoringError ScoreResult :=
  match s.weights with
  | some weights =>
    if s.unknownModels weights ≠ [] then .error (.unknownModels (s.unknownModels weights))
    else
      let avgProb := s.weightedSum weights probs
      .ok
        { score := applyOutputPerturbation env (roundHalfEven (avgProb * 100)) callerId
          benfordFlag := benfordFlag env row
          mlFlag := decide (1 / 2 ≤ avgProb)
          confidence := confidenceFromProbs probs avgProb
          calibrated := true }
  | none =>
    let scores := probs.map (· * 100)
    match bftTrimmedMean env.bftScoreDivergenceThreshold scores with
    | .error e => .error (.vote e)
    | .ok (finalScore, diverged) =>
      if hasConsensus env scores then
        .ok
          { score := applyOutputPerturbation env (roundHalfEven finalScore) callerId
            benfordFlag := benfordFlag env row
            mlFlag := decide (1 / 2 ≤ finalScore / 100)
            confidence := confidenceFromProbs probs (finalScore / 100)
            bftDivergence := diverged }
      else
        .ok
          { score := 100
            benfordFlag := benfordFlag env row
            mlFlag := true
            confidence := 0
            consensusFailure := true
            bftDivergence := diverged }

/-- The result for a wallet on a list. -/
def overrideResult (score : ℕ) : ScoreResult where
  score := score
  benfordFlag := false
  mlFlag := decide (50 ≤ score)
  confidence := 100

/-- The result of zero-shot detection. -/
def zeroShotResult (row : Series Cell) (zs : ZeroShot) : ScoreResult where
  score := roundHalfEven (zs.confidence * 100)
  benfordFlag := benfordFlag env row
  mlFlag := decide (zs.prediction = 1)
  confidence := roundHalfEven (zs.confidence * 100)
  zeroShot := true
  matchedPattern := zs.matchedPattern

/-- The zero-shot result that is used instead of the ensemble, if one is. -/
def zeroShotRoute (row : Series Cell) (labelledCount : Option ℤ) : Option ZeroShot :=
  match labelledCount with
  | none => none
  | some count => if count < env.zeroShotMinLabelledExamples then env.zeroShot row else none

/-- `score`, which is `_score_impl`. -/
def score (row : Series Cell) (labelledCount : Option ℤ) (callerId : String) :
    Except ScoringError ScoreResult :=
  match checkOverride env row with
  | some score => .ok (overrideResult score)
  | none =>
    match zeroShotRoute env row labelledCount with
    | some zs => .ok (zeroShotResult env row zs)
    | none => do
      let probs ← s.ensembleProbabilities env row
      s.resultOf env row callerId probs

/-- `per_model.mean(axis=1) * 100` of as many rows. -/
def columnMeans (rows : ℕ) (perModel : List (List ℚ)) : List ℚ :=
  (List.range rows).map fun i =>
    (perModel.map fun column => column.getD i 0).sum / perModel.length * 100

/-- `score_continuous_batch`. -/
def scoreContinuousBatch (X : Frame Cell) : Except ScoringError (List ℚ) := do
  demand (s.models.rows ≠ []) .noModels
  let Xf ← X.rows.mapM (asFloats env (featureCols X.columns))
  let perModel ← s.models.rows.mapM fun e => Xf.mapM e.2.probability
  return columnMeans X.rows.length perModel

/-- The weights name models that are loaded. -/
def KnowsWeights : Prop :=
  ∀ weights, s.weights = some weights → ∀ e ∈ weights.rows, e.1 ∈ s.models.rows.map Prod.fst

/-- A result has a number, rounded, as its score, unless the models found no consensus or zero-shot
detection was used. -/
def RoundsTo (v : ℚ) : Except ScoringError ScoreResult → Prop
  | .ok result =>
    result.consensusFailure = true ∨ result.zeroShot = true ∨ result.score = roundHalfEven v
  | .error _ => False

variable {env s} {row : Series Cell} {v : ℚ}

theorem unknownModels_eq_nil_iff (weights : UniqueTable String ℚ) :
    s.unknownModels weights = [] ↔ ∀ e ∈ weights.rows, e.1 ∈ s.models.rows.map Prod.fst := by
  unfold unknownModels
  rw [← List.length_eq_zero_iff, List.length_insertionSort, List.length_eq_zero_iff,
    List.filter_eq_nil_iff]
  simp only [List.forall_mem_map, decide_eq_true_eq, not_not]

/-- The score of some probabilities is what they combine to, rounded. -/
theorem roundsTo_resultOf {probs : List ℚ} (hknown : s.KnowsWeights)
    (h : s.combine env probs = .ok v) : RoundsTo v (s.resultOf env row "internal" probs) := by
  unfold combine at h
  unfold resultOf
  cases hweights : s.weights with
  | some weights =>
    simp only [hweights, Except.ok.injEq] at h
    have hnil := (unknownModels_eq_nil_iff weights).mpr (hknown weights hweights)
    dsimp only
    rw [if_neg (not_not.mpr hnil), ← h, mul_comm (100 : ℚ)]
    exact .inr (.inr rfl)
  | none =>
    simp only [hweights] at h
    dsimp only
    cases hvote : bftTrimmedMean env.bftScoreDivergenceThreshold (probs.map (· * 100)) with
    | error e =>
      rw [hvote] at h
      cases h
    | ok voted =>
      rw [hvote] at h
      cases h
      dsimp only
      split_ifs
      · exact .inr (.inr rfl)
      · exact .inl rfl

/-- Rounding what `score_continuous` gives for a row without an override gives its score for the
pipeline itself, unless the models found no consensus or zero-shot detection was used. -/
theorem roundsTo_score (hoverride : checkOverride env row = none) (hknown : s.KnowsWeights)
    (h : s.scoreContinuous env row = .ok v) (labelledCount : Option ℤ) :
    RoundsTo v (s.score env row labelledCount "internal") := by
  unfold scoreContinuous at h
  unfold score
  rw [hoverride] at h ⊢
  dsimp only at h ⊢
  cases zeroShotRoute env row labelledCount with
  | some zs => exact .inr (.inl rfl)
  | none =>
    obtain ⟨probs, hprobs, hcombine⟩ := Except.bind_eq_ok_iff.mp h
    dsimp only
    rw [hprobs]
    exact roundsTo_resultOf hknown hcombine

/-- With weights that name another model, `score` always raises. -/
theorem not_roundsTo_score (hoverride : checkOverride env row = none)
    (hunknown : ¬ s.KnowsWeights) : ¬ RoundsTo v (s.score env row none "internal") := by
  intro hrounds
  unfold KnowsWeights at hunknown
  push Not at hunknown
  obtain ⟨weights, hweights, e, he, hname⟩ := hunknown
  have hmissing : s.unknownModels weights ≠ [] :=
    fun hnil => hname ((unknownModels_eq_nil_iff weights).mp hnil e he)
  unfold score at hrounds
  rw [hoverride] at hrounds
  unfold zeroShotRoute at hrounds
  dsimp only at hrounds
  cases hprobs : s.ensembleProbabilities env row with
  | error e =>
    rw [hprobs] at hrounds
    exact hrounds
  | ok probs =>
    have hresult : s.resultOf env row "internal" probs =
        .error (.unknownModels (s.unknownModels weights)) := by
      unfold resultOf
      rw [hweights]
      exact if_pos hmissing
    rw [hprobs] at hrounds
    change RoundsTo v (s.resultOf env row "internal" probs) at hrounds
    rw [hresult] at hrounds
    exact hrounds

end RiskScorer

end LedgerLens.Detection
