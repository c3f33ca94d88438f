import LedgerLens.Detection.RiskScorer

/-!
# Scores of a batch

`score_continuous_batch` takes the mean of the probabilities that the models give on all feature
columns. `score_continuous` weighs the probabilities or leaves out outliers, checks the schema, and
gives each model the columns that it knows. This file says for which batches both give the same, so
that rounding gives the scores.
-/

namespace LedgerLens.Detection

open TrimmedMean Propagation

namespace RiskScorer

variable {Cell Value : Type} (env : ScoringEnv Cell Value) (s : RiskScorer Value)

/-- The probabilities of the models for a row on all feature columns. -/
def plainProbabilities (row : Series Cell) : Except ScoringError (List ℚ) := do
  let x ← asFloats env (featureCols row.index) row.values
  s.models.rows.mapM fun e => e.2.probability x

/-- What a batch gives for a row. -/
def plainMean (row : Series Cell) : Except ScoringError ℚ := do
  let q ← s.plainProbabilities env row
  return q.sum / q.length * 100

/-- A batch gives the scores of its rows, or raises where one of them does. -/
def BatchAgrees (X : Frame Cell) : Prop :=
  (s.scoreContinuousBatch env X).toOption = (X.series.mapM (s.scoreContinuous env)).toOption

/-- Rounding what a batch gives for a row gives its score for the pipeline itself. -/
def BatchRounds (X : Frame Cell) : Prop :=
  ∀ vs, s.scoreContinuousBatch env X = .ok vs →
    List.Forall₂ (fun row v => ∀ labelledCount : Option ℤ,
      RoundsTo v (s.score env row labelledCount "internal")) X.series vs

/-- The probabilities `p` of the models, as a row is scored, and `q`, as a batch is, combine to the
same: the weighted sum is the mean, or the mean of what is left of the outliers is. -/
def Balanced (p q : List ℚ) : Prop :=
  match s.weights with
  | some weights => p.length * s.weightedSum weights p = q.sum
  | none =>
    if Trims env.bftScoreDivergenceThreshold (p.map (· * 100)) then
      p.length ≠ 2 ∧
        p.length * (trim (p.map (· * 100))).sum = (p.length - 2 : ℚ) * (q.sum * 100)
    else p.sum = q.sum

/-- A row is scored alone and in a batch, its probabilities combine to the same, and the weights
name models that are loaded. -/
def Fits (row : Series Cell) : Prop :=
  s.KnowsWeights ∧ ∃ p q, s.ensembleProbabilities env row = .ok p ∧
    s.plainProbabilities env row = .ok q ∧ s.Balanced env p q

/-- A row that is not scored alone: the schema or an entry is wrong, a model raises, or the only
two models lie far apart. -/
def FailsAlone (row : Series Cell) : Prop :=
  (∀ p, s.ensembleProbabilities env row ≠ .ok p) ∨
    ∃ p, s.ensembleProbabilities env row = .ok p ∧ s.weights = none ∧ p.length = 2 ∧
      Diverged env.bftScoreDivergenceThreshold (p.map (· * 100))

/-- A row that is not scored in a batch: an entry is wrong, or a model raises. -/
def FailsInBatch (row : Series Cell) : Prop := ∀ q, s.plainProbabilities env row ≠ .ok q

variable {env s} {row : Series Cell} {X : Frame Cell}

section Columns

/-- The means of the columns of predictions are those of the rows. -/
theorem columnMeans_map {Row Model : Type} (rows : List Row) (models : List Model)
    (f : Model → Row → ℚ) :
    columnMeans rows.length (models.map fun m => rows.map (f m)) =
      rows.map fun r => (models.map fun m => f m r).sum / models.length * 100 := by
  refine List.ext_getElem (by simp [columnMeans]) fun i hi hi' => ?_
  have hrow : i < rows.length := by simpa [columnMeans] using hi
  simp [columnMeans, hrow, Function.comp_def]

/-- What a batch raises, it raises for one of its rows. -/
theorem plain_of_batch {vs : List ℚ} (h : s.scoreContinuousBatch env X = .ok vs) :
    ∀ row ∈ X.series, ∃ q, s.plainProbabilities env row = .ok q := by
  intro row hrow
  obtain ⟨values, hvalues, rfl⟩ := List.mem_map.mp hrow
  obtain ⟨-, -, h⟩ := Except.bind_eq_ok_iff.mp h
  obtain ⟨Xf, hXf, h⟩ := Except.bind_eq_ok_iff.mp h
  obtain ⟨perModel, hperModel, -⟩ := Except.bind_eq_ok_iff.mp h
  obtain ⟨x, hx⟩ := Except.exists_mapM_eq_ok_iff.mp ⟨Xf, hXf⟩ values hvalues
  have hmem : x ∈ Xf := by
    obtain ⟨i, hi, rfl⟩ := List.getElem_of_mem hvalues
    have hpairs := List.forall₂_iff_get.mp (Except.mapM_eq_ok_iff.mp hXf)
    have hi' : i < Xf.length := hpairs.1 ▸ hi
    have hsame := hpairs.2 i hi hi'
    rw [List.get_eq_getElem, hx] at hsame
    rw [Except.ok.inj hsame]
    exact List.get_mem _ _
  obtain ⟨q, hq⟩ : ∃ q, s.models.rows.mapM (fun e => e.2.probability x) = .ok q := by
    refine Except.exists_mapM_eq_ok_iff.mpr fun e he => ?_
    have hcolumn := Except.exists_mapM_eq_ok_iff.mp ⟨perModel, hperModel⟩ e he
    exact Except.exists_mapM_eq_ok_iff.mp hcolumn x hmem
  exact ⟨q, Except.bind_eq_ok_iff.mpr ⟨x, hx, hq⟩⟩

/-- If every row is predicted, there are its entries and the probabilities of the models. -/
theorem exists_predictions (h : ∀ row ∈ X.series, ∃ q, s.plainProbabilities env row = .ok q) :
    ∃ (entries : (String → Cell) → List (String × Value))
      (probability : FittedModel Value → List (String × Value) → ℚ),
      ∀ values ∈ X.rows, asFloats env (featureCols X.columns) values = .ok (entries values) ∧
        ∀ e ∈ s.models.rows, e.2.probability (entries values) =
          .ok (probability e.2 (entries values)) := by
  refine ⟨fun values => (asFloats env (featureCols X.columns) values).toOption.getD [],
    fun m x => (m.probability x).toOption.getD 0, fun values hvalues => ?_⟩
  obtain ⟨q, hq⟩ := h _ (List.mem_map_of_mem hvalues)
  obtain ⟨x, hx, hq⟩ := Except.bind_eq_ok_iff.mp hq
  have hentries : (asFloats env (featureCols X.columns) values).toOption.getD [] = x := by
    rw [hx]
    rfl
  dsimp only
  rw [hentries]
  refine ⟨hx, fun e he => ?_⟩
  obtain ⟨p, hp⟩ := Except.exists_mapM_eq_ok_iff.mp ⟨q, hq⟩ e he
  rw [hp]
  rfl

/-- If every row is predicted, a batch gives the mean of each. -/
theorem batch_of_plain (hmodels : s.models.rows ≠ [])
    (h : ∀ row ∈ X.series, ∃ q, s.plainProbabilities env row = .ok q) :
    s.scoreContinuousBatch env X = X.series.mapM (s.plainMean env) := by
  obtain ⟨entries, probability, hplain⟩ := exists_predictions h
  have hXf : X.rows.mapM (asFloats env (featureCols X.columns)) = .ok (X.rows.map entries) :=
    Except.mapM_eq_ok fun values hvalues => (hplain values hvalues).1
  have hperModel : (s.models.rows.mapM fun e => (X.rows.map entries).mapM e.2.probability) =
      .ok (s.models.rows.map fun e => X.rows.map fun values =>
        probability e.2 (entries values)) := by
    refine Except.mapM_eq_ok fun e he => ?_
    rw [Except.mapM_eq_ok (g := probability e.2) fun x hx => ?_, List.map_map]
    · rfl
    · obtain ⟨values, hvalues, rfl⟩ := List.mem_map.mp hx
      exact (hplain values hvalues).2 e he
  have hbatch : s.scoreContinuousBatch env X = .ok (X.rows.map fun values =>
      (s.models.rows.map fun e => probability e.2 (entries values)).sum /
        s.models.rows.length * 100) := by
    unfold scoreContinuousBatch
    rw [Except.demand_bind_of_pos hmodels, hXf]
    change (s.models.rows.mapM (fun e => (X.rows.map entries).mapM e.2.probability) >>= _) = _
    rw [hperModel, ← columnMeans_map X.rows s.models.rows
      fun e values => probability e.2 (entries values)]
    rfl
  have hrows : X.series.mapM (s.plainMean env) = .ok (X.series.map fun row =>
      (s.models.rows.map fun e => probability e.2 (entries row.values)).sum /
        s.models.rows.length * 100) := by
    refine Except.mapM_eq_ok fun row hrow => ?_
    obtain ⟨values, hvalues, rfl⟩ := List.mem_map.mp hrow
    have hq : s.plainProbabilities env ⟨X.columns, values⟩ =
        .ok (s.models.rows.map fun e => probability e.2 (entries values)) := by
      refine Except.bind_eq_ok_iff.mpr ⟨_, (hplain values hvalues).1, ?_⟩
      exact Except.mapM_eq_ok (hplain values hvalues).2
    unfold plainMean
    rw [hq]
    dsimp only [bind, Except.bind, pure, Except.pure]
    rw [List.length_map]
  rw [hbatch, hrows]
  unfold Frame.series
  rw [List.map_map]
  rfl

end Columns

section Rows

variable {p q : List ℚ}

/-- Where the vote leaves out outliers, the others combine to the mean of `q` as `Balanced` says. -/
theorem trimmed_eq_iff (hlength : q.length = p.length) (hthree : 3 ≤ p.length) :
    (trim (p.map (· * 100))).sum / (trim (p.map (· * 100))).length = q.sum / q.length * 100 ↔
      p.length * (trim (p.map (· * 100))).sum = (p.length - 2 : ℚ) * (q.sum * 100) := by
  have hcast : ((p.length - 2 : ℕ) : ℚ) = (p.length : ℚ) - 2 := by
    push_cast [Nat.cast_sub (by omega : 2 ≤ p.length)]
    ring
  have hthree' : (3 : ℚ) ≤ p.length := by exact_mod_cast hthree
  have hrest : (p.length : ℚ) - 2 ≠ 0 := by linarith
  have hall : (p.length : ℚ) ≠ 0 := by linarith
  rw [length_trim, List.length_map, hlength, hcast, div_mul_eq_mul_div, div_eq_div_iff hrest hall,
    mul_comm _ (p.length : ℚ), mul_comm _ ((p.length : ℚ) - 2)]

/-- Probabilities combine to the mean of others exactly if they balance. -/
theorem combine_eq_ok_iff (hlength : q.length = p.length) (hne : p ≠ []) :
    s.combine env p = .ok (q.sum / q.length * 100) ↔ s.Balanced env p q := by
  have hall : (p.length : ℚ) ≠ 0 := by
    exact_mod_cast List.length_eq_zero_iff.not.mpr hne
  unfold combine Balanced
  cases s.weights with
  | some weights =>
    dsimp only
    rw [Except.ok.injEq, hlength, div_mul_eq_mul_div, eq_div_iff hall]
    constructor
    · intro h
      linarith
    · intro h
      linarith
  | none =>
    dsimp only
    have hscores : p.map (· * 100) ≠ [] := by simpa using hne
    split_ifs with htrims
    · obtain ⟨htwo, hvote⟩ | ⟨htwo, diverged, hvote⟩ := bftTrimmedMean_of_trims hscores htrims
      · rw [List.length_map] at htwo
        simp [hvote, htwo]
      · rw [List.length_map] at htwo
        have hthree : 3 ≤ p.length := by
          have hpos := List.length_pos_iff.mpr hne
          obtain hthree | ⟨hone, -⟩ := htrims
          · rw [List.length_map] at hthree
            omega
          · rw [List.length_map] at hone
            omega
        rw [hvote]
        dsimp only
        rw [Except.ok.injEq, trimmed_eq_iff hlength hthree]
        exact (and_iff_right htwo).symm
    · obtain ⟨diverged, hvote⟩ := bftTrimmedMean_of_not_trims hscores htrims
      rw [hvote]
      dsimp only
      rw [Except.ok.injEq, List.length_map, hlength, List.sum_map_mul_right, List.map_id',
        div_mul_eq_mul_div, div_left_inj' hall]
      exact mul_left_inj' (by norm_num)

/-- Probabilities do not combine exactly if there are two that lie far apart, without weights. -/
theorem combine_fails_iff (hne : p ≠ []) : (∀ v, s.combine env p ≠ .ok v) ↔
    s.weights = none ∧ p.length = 2 ∧
      Diverged env.bftScoreDivergenceThreshold (p.map (· * 100)) := by
  unfold combine
  cases s.weights with
  | some weights => simp
  | none =>
    dsimp only
    have hscores : p.map (· * 100) ≠ [] := by simpa using hne
    by_cases htrims : Trims env.bftScoreDivergenceThreshold (p.map (· * 100))
    · obtain ⟨htwo, hvote⟩ | ⟨htwo, diverged, hvote⟩ := bftTrimmedMean_of_trims hscores htrims
      · rw [List.length_map] at htwo
        have hdiverged := (htrims.resolve_left (by rw [List.length_map]; omega)).2
        simp [hvote, htwo, hdiverged]
      · rw [List.length_map] at htwo
        simp [hvote, htwo]
    · obtain ⟨diverged, hvote⟩ := bftTrimmedMean_of_not_trims hscores htrims
      have hnot : ¬(p.length = 2 ∧
          Diverged env.bftScoreDivergenceThreshold (p.map (· * 100))) := by
        rintro ⟨htwo, hdiverged⟩
        exact htrims (.inr ⟨by rw [List.length_map]; omega, hdiverged⟩)
      simp [hvote, hnot]

/-- As many probabilities as models. -/
theorem length_of_ensemble (h : s.ensembleProbabilities env row = .ok p) :
    s.models.rows ≠ [] ∧ p.length = s.models.rows.length := by
  obtain ⟨_, hmodels, h⟩ := Except.bind_eq_ok_iff.mp h
  obtain ⟨-, -, h⟩ := Except.bind_eq_ok_iff.mp h
  obtain ⟨x, -, h⟩ := Except.bind_eq_ok_iff.mp h
  exact ⟨Except.demand_eq_ok_iff.mp hmodels, Except.length_of_mapM_eq_ok h⟩

theorem length_of_plain (h : s.plainProbabilities env row = .ok q) :
    q.length = s.models.rows.length := by
  obtain ⟨x, -, h⟩ := Except.bind_eq_ok_iff.mp h
  exact Except.length_of_mapM_eq_ok h

theorem ne_nil_of_ensemble (h : s.ensembleProbabilities env row = .ok p) : p ≠ [] := by
  obtain ⟨hmodels, hlength⟩ := length_of_ensemble h
  rw [← List.length_pos_iff, hlength]
  exact List.length_pos_iff.mpr hmodels

theorem plainMean_eq_ok_iff {v : ℚ} : s.plainMean env row = .ok v ↔
    ∃ q, s.plainProbabilities env row = .ok q ∧ q.sum / q.length * 100 = v := by
  unfold plainMean
  simp only [Except.bind_eq_ok_iff, Except.pure_eq_ok_iff]

theorem scoreContinuous_eq_ok_iff (hoverride : checkOverride env row = none) {v : ℚ} :
    s.scoreContinuous env row = .ok v ↔
      ∃ p, s.ensembleProbabilities env row = .ok p ∧ s.combine env p = .ok v := by
  unfold scoreContinuous
  rw [hoverride]
  exact Except.bind_eq_ok_iff

/-- A row has the same score alone and in a batch exactly if its probabilities balance. -/
theorem same_score_iff (hoverride : checkOverride env row = none) :
    (∃ v, s.plainMean env row = .ok v ∧ s.scoreContinuous env row = .ok v) ↔
      ∃ p q, s.ensembleProbabilities env row = .ok p ∧ s.plainProbabilities env row = .ok q ∧
        s.Balanced env p q := by
  simp only [plainMean_eq_ok_iff, scoreContinuous_eq_ok_iff hoverride]
  constructor
  · rintro ⟨v, ⟨q, hq, rfl⟩, p, hp, hcombine⟩
    have hlength := (length_of_plain hq).trans (length_of_ensemble hp).2.symm
    exact ⟨p, q, hp, hq, (combine_eq_ok_iff hlength (ne_nil_of_ensemble hp)).mp hcombine⟩
  · rintro ⟨p, q, hp, hq, hbalanced⟩
    have hlength := (length_of_plain hq).trans (length_of_ensemble hp).2.symm
    exact ⟨_, ⟨q, hq, rfl⟩, p, hp,
      (combine_eq_ok_iff hlength (ne_nil_of_ensemble hp)).mpr hbalanced⟩

theorem scoreContinuous_fails_iff (hoverride : checkOverride env row = none) :
    (∀ v, s.scoreContinuous env row ≠ .ok v) ↔ s.FailsAlone env row := by
  unfold FailsAlone
  cases hp : s.ensembleProbabilities env row with
  | error e => simp [scoreContinuous_eq_ok_iff hoverride, hp]
  | ok p =>
    simp only [ne_eq, scoreContinuous_eq_ok_iff hoverride, hp, Except.ok.injEq, exists_eq_left',
      forall_eq', false_or]
    exact combine_fails_iff (ne_nil_of_ensemble hp)

theorem plainMean_fails_iff :
    (∀ v, s.plainMean env row ≠ .ok v) ↔ s.FailsInBatch env row := by
  unfold FailsInBatch
  cases hq : s.plainProbabilities env row with
  | error e => simp [plainMean_eq_ok_iff, hq]
  | ok q => simp [plainMean_eq_ok_iff, hq]

end Rows

/-- A batch raises or gives the means of its rows. -/
theorem toOption_batch (hmodels : s.models.rows ≠ []) :
    (s.scoreContinuousBatch env X).toOption = (X.series.mapM (s.plainMean env)).toOption := by
  by_cases hplain : ∀ row ∈ X.series, ∃ q, s.plainProbabilities env row = .ok q
  · rw [batch_of_plain hmodels hplain]
  · have hbatch : ∀ vs, s.scoreContinuousBatch env X ≠ .ok vs :=
      fun vs hvs => hplain (plain_of_batch hvs)
    have hrows : ∀ vs, X.series.mapM (s.plainMean env) ≠ .ok vs := by
      intro vs hvs
      refine hplain fun row hrow => ?_
      obtain ⟨v, hv⟩ := Except.exists_mapM_eq_ok_iff.mp ⟨vs, hvs⟩ row hrow
      exact (plainMean_eq_ok_iff.mp hv).imp fun _ => And.left
    rw [Except.toOption_eq_none_iff.mpr hbatch, Except.toOption_eq_none_iff.mpr hrows]

/-- Which batches agree with their rows: those of which each row has balanced probabilities, and
those that raise as their rows do. -/
theorem batchAgrees_iff (hmodels : s.models.rows ≠ [])
    (hoverride : ∀ row ∈ X.series, checkOverride env row = none) :
    s.BatchAgrees env X ↔
      (∀ row ∈ X.series, ∃ p q, s.ensembleProbabilities env row = .ok p ∧
        s.plainProbabilities env row = .ok q ∧ s.Balanced env p q) ∨
      ((∃ row ∈ X.series, s.FailsInBatch env row) ∧ ∃ row ∈ X.series, s.FailsAlone env row) := by
  unfold BatchAgrees
  rw [toOption_batch hmodels, Except.toOption_mapM_eq_iff]
  refine or_congr (forall₂_congr fun row hrow => same_score_iff (hoverride row hrow))
    (and_congr ?_ ?_)
  · exact exists_congr fun row => and_congr_right fun _ => plainMean_fails_iff
  · exact exists_congr fun row => and_congr_right fun hrow =>
      scoreContinuous_fails_iff (hoverride row hrow)

/-- Entries are numbers, and no wallet is on a list. -/
private def plainScoring : ScoringEnv ℚ ℚ where
  asFloat := .ok
  zero := 0
  exceeds c x := decide (x < c)
  override _ := none
  zeroShot _ := none
  perturb score _ := score
  bftScoreDivergenceThreshold := 30
  bftMinConsensus := 2
  zeroShotMinLabelledExamples := 20

/-- A model that gives the same probability for each row. -/
private def constantModel (p : ℚ) : FittedModel ℚ where
  featureNamesIn := none
  predictProba _ := .ok p

/-- Models with the names of their training, without metadata and selection. -/
private def ensembleOf (models : UniqueTable String (FittedModel ℚ))
    (weights : Option (UniqueTable String ℚ)) : RiskScorer ℚ where
  models := models
  weights := weights
  metadata := none
  selectedFeatures := none

private def oneModel : RiskScorer ℚ :=
  ensembleOf (UniqueTable.empty.put "random_forest" (constantModel (1 / 10))) none

/-- Of the probabilities 1/10, 1/10 and 9/10 the median counts. -/
private def threeModels : RiskScorer ℚ :=
  ensembleOf (((UniqueTable.empty.put "random_forest" (constantModel (1 / 10))).put "xgboost"
    (constantModel (1 / 10))).put "lightgbm" (constantModel (9 / 10))) none

/-- The probability 1/5 has nine times the weight of 2/5. -/
private def weightedModels : RiskScorer ℚ :=
  ensembleOf ((UniqueTable.empty.put "random_forest" (constantModel (1 / 5))).put "xgboost"
    (constantModel (2 / 5)))
    (some ((UniqueTable.empty.put "random_forest" (9 / 10)).put "xgboost" (1 / 10)))

private def oneRow : Frame ℚ := ⟨["volume"], [fun _ => 5]⟩

end RiskScorer

end LedgerLens.Detection
