import LedgerLens.Library.Smoothing
import Mathlib.Algebra.Order.Archimedean.Basic
import Mathlib.Data.Fintype.Fin
import Mathlib.Data.Rat.Floor

/-!
# Dynamic ensemble weights

The weights of the models of an ensemble follow the rates at which the models took part in alerts
that were found to be false. Shares by the inverse rates are clamped, divided by their sum and
approached by exponential smoothing. This file shows when the weights stay in the bounds to which
the shares are clamped.

Rates and weights are rational numbers, the dictionaries functions on the models' names.
-/

namespace LedgerLens.Detection.DynamicWeights

open Smoothing

/-- `_DYNAMIC_WEIGHT_MIN`. -/
def dynamicWeightMin : ℚ := 1 / 20

/-- `_DYNAMIC_WEIGHT_MAX`. -/
def dynamicWeightMax : ℚ := 4 / 5

/-- `_MIN_FP_FEEDBACK`. -/
def minFpFeedback : ℕ := 10

/-- `_PREDICTION_FP_THRESHOLD`. -/
def predictionFpThreshold : ℚ := 1 / 2

/-- `_eps`. -/
def eps : ℚ := 1 / 1000000

/-- `_ModelObservations`. -/
structure ModelObservations where
  /-- `fp_count`. -/
  fpCount : ℕ := 0
  /-- `total_count`. -/
  totalCount : ℕ := 0
  deriving DecidableEq

namespace ModelObservations

/-- `fp_rate`. -/
def fpRate (obs : ModelObservations) : ℚ :=
  if obs.totalCount = 0 then 0 else obs.fpCount / obs.totalCount

/-- `record`. -/
def record (obs : ModelObservations) (isFp : Bool) : ModelObservations where
  totalCount := obs.totalCount + 1
  fpCount := if isFp then obs.fpCount + 1 else obs.fpCount

theorem fpRate_nonneg (obs : ModelObservations) : 0 ≤ obs.fpRate := by
  unfold fpRate
  split_ifs <;> positivity

end ModelObservations

variable {ι : Type} [Fintype ι]

/-- The weights are in the bounds and sum to one. -/
structure Bounded (weights : ι → ℚ) : Prop where
  /-- No weight is too small. -/
  min_le : ∀ i, dynamicWeightMin ≤ weights i
  /-- No weight is too large. -/
  le_max : ∀ i, weights i ≤ dynamicWeightMax
  /-- The weights sum to one. -/
  sum_eq : ∑ i, weights i = 1

/-- What a controller is built with. -/
structure Settings (ι : Type) [Fintype ι] where
  /-- `training_weights`. -/
  trainingWeights : ι → ℚ
  /-- They are in the bounds. -/
  bounded : Bounded trainingWeights
  /-- `_alpha`. -/
  alpha : ℚ
  /-- It is a share. -/
  alpha_mem : 0 ≤ alpha ∧ alpha ≤ 1
  /-- `_systemic_threshold`. -/
  systemicThreshold : ℚ

/-- `EnsembleDynamicWeightController`: what its calls change. -/
structure Controller (ι : Type) where
  /-- `_current_weights`. -/
  currentWeights : ι → ℚ
  /-- `_observations`. -/
  observations : ι → ModelObservations
  /-- `_systemic_reset_count`. -/
  systemicResetCount : ℕ

/-- `__init__`. -/
def Settings.new (settings : Settings ι) : Controller ι where
  currentWeights := settings.trainingWeights
  observations := fun _ => {}
  systemicResetCount := 0

/-- What `observe_false_positive` raises. -/
inductive ObserveError where
  /-- `annotator_id must be a non-empty string`. -/
  | annotatorId
  /-- `audit_trail_id must be a non-empty string`. -/
  | auditTrailId
  deriving DecidableEq

namespace Controller

variable (settings : Settings ι) (c : Controller ι)

/-- `rates`. -/
def rates (i : ι) : ℚ := (c.observations i).fpRate

/-- `raw`. -/
def raw (i : ι) : ℚ := 1 / (c.rates i + eps)

/-- `normalised`. -/
def normalised (i : ι) : ℚ := c.raw i / ∑ j, c.raw j

/-- `clamped`. -/
def clamped (i : ι) : ℚ := clamp dynamicWeightMin dynamicWeightMax (c.normalised i)

/-- `target`. -/
def target (i : ι) : ℚ := c.clamped i / ∑ j, c.clamped j

/-- Whether there is a model with too few observations: `total < _MIN_FP_FEEDBACK`. -/
def TooFew : Prop := ∃ i, (c.observations i).totalCount < minFpFeedback

instance : Decidable c.TooFew :=
  inferInstanceAs (Decidable (∃ i, (c.observations i).totalCount < minFpFeedback))

/-- Whether all models have too many false positives. -/
def Systemic : Prop := ∀ i, settings.systemicThreshold ≤ c.rates i

instance : Decidable (c.Systemic settings) :=
  inferInstanceAs (Decidable (∀ i, settings.systemicThreshold ≤ c.rates i))

/-- `_maybe_update_weights`. -/
def maybeUpdateWeights : Controller ι :=
  if c.TooFew then
    c
  else if c.Systemic settings then
    { c with
      systemicResetCount := c.systemicResetCount + 1
      currentWeights := settings.trainingWeights }
  else
    let smoothed i := smooth settings.alpha (c.target i) (c.currentWeights i)
    { c with currentWeights := fun i => smoothed i / ∑ j, smoothed j }

/-- `obs.record` for all models. -/
def record (modelPredictions : ι → Option ℚ) : Controller ι :=
  { c with
    observations := fun i =>
      (c.observations i).record (predictionFpThreshold ≤ (modelPredictions i).getD 0) }

/-- `observe_false_positive`. -/
def observeFalsePositive (modelPredictions : ι → Option ℚ) (annotatorId auditTrailId : String) :
    Except ObserveError (Controller ι) :=
  if annotatorId = "" then .error .annotatorId
  else if auditTrailId = "" then .error .auditTrailId
  else .ok ((c.record modelPredictions).maybeUpdateWeights settings)

/-- `reset_to_training_weights`. -/
def resetToTrainingWeights : Controller ι := { c with currentWeights := settings.trainingWeights }

end Controller

/-- A call. -/
inductive Call (ι : Type) where
  /-- `observe_false_positive`. -/
  | observe (modelPredictions : ι → Option ℚ) (annotatorId auditTrailId : String)
  /-- `reset_to_training_weights`. -/
  | reset

/-- The controller after a call; one that raises changes nothing. -/
def Controller.step (settings : Settings ι) (c : Controller ι) : Call ι → Controller ι
  | .observe modelPredictions annotatorId auditTrailId =>
    (c.observeFalsePositive settings modelPredictions annotatorId auditTrailId).toOption.getD c
  | .reset => c.resetToTrainingWeights settings

/-- The controller after some calls. -/
def Settings.run (settings : Settings ι) (calls : List (Call ι)) : Controller ι :=
  calls.foldl (Controller.step settings) settings.new

theorem Settings.run_concat (settings : Settings ι) (calls : List (Call ι)) (call : Call ι) :
    settings.run (calls ++ [call]) = (settings.run calls).step settings call := by
  unfold run
  rw [List.foldl_append, List.foldl_cons, List.foldl_nil]

theorem eps_pos : 0 < eps := by norm_num [eps]

theorem dynamicWeightMin_pos : 0 < dynamicWeightMin := by norm_num [dynamicWeightMin]

theorem dynamicWeightMin_le_max : dynamicWeightMin ≤ dynamicWeightMax := by
  norm_num [dynamicWeightMin, dynamicWeightMax]

/-- Weights that sum to one are of some model. -/
theorem Bounded.nonempty {weights : ι → ℚ} (h : Bounded weights) : Nonempty ι := by
  by_contra hempty
  have hsum := h.sum_eq
  rw [not_nonempty_iff] at hempty
  simp at hsum

namespace Controller

variable {settings : Settings ι} {c c' : Controller ι}

omit [Fintype ι] in
theorem rates_nonneg (i : ι) : 0 ≤ c.rates i := ModelObservations.fpRate_nonneg _

omit [Fintype ι] in
theorem raw_pos (i : ι) : 0 < c.raw i :=
  one_div_pos.mpr (add_pos_of_nonneg_of_pos (rates_nonneg i) eps_pos)

theorem sum_raw_pos [Nonempty ι] : 0 < ∑ i, c.raw i :=
  Finset.sum_pos (fun i _ => raw_pos i) Finset.univ_nonempty

theorem sum_normalised [Nonempty ι] : ∑ i, c.normalised i = 1 := by
  unfold normalised
  rw [← Finset.sum_div, div_self sum_raw_pos.ne']

theorem clamped_mem (i : ι) :
    dynamicWeightMin ≤ c.clamped i ∧ c.clamped i ≤ dynamicWeightMax :=
  clamp_mem dynamicWeightMin_le_max _

theorem sum_target [Nonempty ι] : ∑ i, c.target i = 1 := by
  have hpos : 0 < ∑ i, c.clamped i :=
    Finset.sum_pos (fun i _ => dynamicWeightMin_pos.trans_le (clamped_mem i).1)
      Finset.univ_nonempty
  unfold target
  rw [← Finset.sum_div, div_self hpos.ne']

/-- The targets depend on the rates only. -/
theorem target_congr (h : c.rates = c'.rates) : c.target = c'.target := by
  funext i
  unfold target clamped normalised raw
  rw [h]

/-- An update is one step of smoothing: dividing by the sum changes nothing. -/
theorem maybeUpdateWeights_eq (hfew : ¬c.TooFew) (hsystemic : ¬c.Systemic settings)
    (hsum : ∑ i, c.currentWeights i = 1) [Nonempty ι] :
    c.maybeUpdateWeights settings =
      { c with currentWeights := fun i =>
          smooth settings.alpha (c.target i) (c.currentWeights i) } := by
  unfold maybeUpdateWeights
  rw [if_neg hfew, if_neg hsystemic]
  dsimp only
  rw [sum_smooth sum_target hsum]
  simp only [div_one]

variable (settings c)

/-- An update does not leave the bounds: nothing is smoothed, no weight changes, the weights are
reset, or the clamped shares sum to one, so that dividing by their sum changes nothing. -/
def Balanced : Prop :=
  settings.alpha = 0 ∨ c.TooFew ∨ c.Systemic settings ∨ ∑ i, c.clamped i = 1

variable {settings c}

/-- A balanced update keeps the bounds. -/
theorem Balanced.bounded (hbalanced : c.Balanced settings) (h : Bounded c.currentWeights) :
    Bounded (c.maybeUpdateWeights settings).currentWeights := by
  have := h.nonempty
  by_cases hfew : c.TooFew
  · rwa [maybeUpdateWeights, if_pos hfew]
  by_cases hsystemic : c.Systemic settings
  · rw [maybeUpdateWeights, if_neg hfew, if_pos hsystemic]
    exact settings.bounded
  rw [maybeUpdateWeights_eq hfew hsystemic h.sum_eq]
  dsimp only
  obtain halpha | hsum : settings.alpha = 0 ∨ ∑ i, c.clamped i = 1 := by
    obtain halpha | hmore | hmore | hsum := hbalanced
    · exact .inl halpha
    · exact absurd hmore hfew
    · exact absurd hmore hsystemic
    · exact .inr hsum
  · simpa only [smooth, halpha, zero_mul, sub_zero, one_mul, zero_add] using h
  · have hmem (i : ι) := smooth_mem settings.alpha_mem.1 settings.alpha_mem.2
      (show dynamicWeightMin ≤ c.target i ∧ c.target i ≤ dynamicWeightMax by
        unfold target
        rw [hsum, div_one]
        exact clamped_mem i) ⟨h.min_le i, h.le_max i⟩
    exact ⟨fun i => (hmem i).1, fun i => (hmem i).2, sum_smooth sum_target h.sum_eq⟩

end Controller

/-- A call whose update, if it makes one, does not leave the bounds. -/
def Call.Balanced (settings : Settings ι) (c : Controller ι) : Call ι → Prop
  | .observe modelPredictions _ _ => (c.record modelPredictions).Balanced settings
  | .reset => True

/-- A call keeps the bounds. -/
theorem Call.Balanced.bounded {settings : Settings ι} {c : Controller ι} {call : Call ι}
    (hbalanced : call.Balanced settings c) (h : Bounded c.currentWeights) :
    Bounded (c.step settings call).currentWeights := by
  cases call with
  | observe modelPredictions annotatorId auditTrailId =>
    dsimp only [Controller.step, Controller.observeFalsePositive]
    split_ifs
    · exact h
    · exact h
    · exact Controller.Balanced.bounded hbalanced h
  | reset => exact settings.bounded

/-- A run all whose calls are balanced keeps the bounds. -/
theorem bounded_run_of_balanced (settings : Settings ι) (calls : List (Call ι))
    (hbalanced : ∀ before call, before ++ [call] <+: calls →
      call.Balanced settings (settings.run before)) :
    Bounded (settings.run calls).currentWeights := by
  induction calls using List.reverseRecOn with
  | nil => exact settings.bounded
  | append_singleton calls call ih =>
    rw [settings.run_concat]
    exact (hbalanced calls call List.prefix_rfl).bounded
      (ih fun before call' hprefixes => hbalanced before call'
        (hprefixes.trans (List.prefix_append _ _)))

section Lone

variable [DecidableEq ι] (settings : Settings ι) (v : ι)

/-- A false positive to which one model alone contributed. -/
def lone : Call ι := .observe (fun i => some (if i = v then 1 else 0)) "operator" "entry"

/-- A controller that has only had such calls. -/
def loneController (m : ℕ) (weights : ι → ℚ) : Controller ι where
  currentWeights := weights
  observations := fun i => ⟨if i = v then m else 0, m⟩
  systemicResetCount := 0

omit [Fintype ι] in
theorem record_lone (m : ℕ) (weights : ι → ℚ) :
    (loneController v m weights).record (fun i => some (if i = v then 1 else 0)) =
      loneController v (m + 1) weights := by
  unfold Controller.record loneController
  congr 1
  funext i
  by_cases hi : i = v
  · simp [ModelObservations.record, predictionFpThreshold, hi]
    norm_num
  · simp [ModelObservations.record, predictionFpThreshold, hi]

omit [Fintype ι] in
/-- The model has a rate of one, the others of zero. -/
theorem rates_lone (m : ℕ) (weights : ι → ℚ) (i : ι) :
    (loneController v (m + 1) weights).rates i = if i = v then 1 else 0 := by
  unfold Controller.rates ModelObservations.fpRate loneController
  dsimp only
  rw [if_neg (Nat.succ_ne_zero m)]
  by_cases hi : i = v
  · rw [if_pos hi, if_pos hi, div_self (Nat.cast_ne_zero.mpr (Nat.succ_ne_zero m))]
  · rw [if_neg hi, if_neg hi, Nat.cast_zero, zero_div]

/-- The shares that smoothing goes to. -/
def loneTarget : ι → ℚ := (loneController v 1 0).target

theorem target_lone (m : ℕ) (weights : ι → ℚ) :
    (loneController v (m + 1) weights).target = loneTarget v :=
  Controller.target_congr (funext fun i => by rw [rates_lone, rates_lone])

variable {v}

theorem step_lone (c : Controller ι) : c.step settings (lone v) =
    (c.record fun i => some (if i = v then 1 else 0)).maybeUpdateWeights settings := rfl

/-- Nothing changes before there are ten observations. -/
theorem run_lone_few {m : ℕ} (hm : m < minFpFeedback) [Nonempty ι] :
    settings.run (List.replicate m (lone v)) = loneController v m settings.trainingWeights := by
  induction m with
  | zero =>
    unfold loneController
    simp only [ite_self]
    rfl
  | succ m ih =>
    have hfew : (loneController v (m + 1) settings.trainingWeights).TooFew :=
      ⟨Classical.arbitrary ι, hm⟩
    rw [List.replicate_succ', settings.run_concat, ih (by omega), step_lone, record_lone,
      Controller.maybeUpdateWeights, if_pos hfew]

/-- From then on the weights are smoothed with the same targets, as long as they sum to one and
some model is left that does not vote for alerts. -/
theorem run_lone {j : ι} (hj : j ≠ v) (hthreshold : 0 < settings.systemicThreshold)
    (hsum : ∀ m, ∑ i, (settings.run (List.replicate m (lone v))).currentWeights i = 1) (n : ℕ) :
    settings.run (List.replicate (n + 9) (lone v)) = loneController v (n + 9) fun i =>
      (smooth settings.alpha (loneTarget v i))^[n] (settings.trainingWeights i) := by
  have : Nonempty ι := ⟨v⟩
  induction n with
  | zero => exact run_lone_few settings (by decide)
  | succ n ih =>
    have hsum' := hsum (n + 9)
    rw [ih] at hsum'
    rw [show n + 1 + 9 = n + 9 + 1 by omega, List.replicate_succ', settings.run_concat, ih,
      step_lone, record_lone]
    generalize hweights : (fun i => (smooth settings.alpha (loneTarget v i))^[n]
      (settings.trainingWeights i)) = weights at hsum'
    have hfew : ¬(loneController v (n + 9 + 1) weights).TooFew := by
      rintro ⟨i, hi⟩
      have hten : n + 9 + 1 < 10 := hi
      omega
    have hsystemic : ¬(loneController v (n + 9 + 1) weights).Systemic settings := by
      intro hall
      have hle := hall j
      rw [rates_lone, if_neg hj] at hle
      exact hthreshold.not_ge hle
    rw [Controller.maybeUpdateWeights_eq hfew hsystemic hsum', target_lone]
    simp only [loneController, Function.iterate_succ_apply', ← hweights]

omit settings

/-- The model has nearly no share. -/
theorem normalised_lone_lt {j : ι} (hj : j ≠ v) :
    (loneController v 1 0).normalised v < dynamicWeightMin := by
  have hv : (loneController v 1 0).raw v < 1 := by
    unfold Controller.raw
    rw [rates_lone, if_pos rfl, div_lt_one (by linarith [eps_pos])]
    linarith [eps_pos]
  have hraw : (loneController v 1 0).raw j = 1000000 := by
    unfold Controller.raw
    rw [rates_lone, if_neg hj]
    norm_num [eps]
  have hle : (loneController v 1 0).raw j ≤ ∑ i, (loneController v 1 0).raw i :=
    Finset.single_le_sum (fun i _ => (Controller.raw_pos i).le) (Finset.mem_univ j)
  have hpos : 0 < ∑ i, (loneController v 1 0).raw i := by linarith
  unfold Controller.normalised
  rw [div_lt_iff₀ hpos]
  norm_num [dynamicWeightMin]
  linarith

/-- The other models have the same shares. -/
theorem normalised_lone_eq {j k : ι} (hj : j ≠ v) (hk : k ≠ v) :
    (loneController v 1 0).normalised j = (loneController v 1 0).normalised k := by
  unfold Controller.normalised Controller.raw
  rw [rates_lone, rates_lone, if_neg hj, if_neg hk]

/-- The clamped shares do not sum to one: with one other model that one's share is cut, with more
of them only the lone model's share is raised. -/
theorem sum_clamped_lone {j : ι} (hj : j ≠ v) : ∑ i, (loneController v 1 0).clamped i ≠ 1 := by
  have : Nonempty ι := ⟨v⟩
  have hlt := normalised_lone_lt hj
  have hsum := (loneController v 1 0).sum_normalised
  have hnonneg (i : ι) : 0 ≤ (loneController v 1 0).normalised i :=
    div_nonneg (Controller.raw_pos i).le Controller.sum_raw_pos.le
  have hv : (loneController v 1 0).clamped v = dynamicWeightMin :=
    clamp_eq_lo (hlt.trans_le (Controller.clamped_mem v).1)
  by_cases hthird : ∃ k, k ≠ v ∧ k ≠ j
  · obtain ⟨k, hkv, hkj⟩ := hthird
    have hhalf (i : ι) (hi : i ≠ v) : (loneController v 1 0).normalised i ≤ dynamicWeightMax := by
      have hpair := Finset.sum_le_sum_of_subset_of_nonneg (Finset.subset_univ ({j, k} : Finset ι))
        fun i _ _ => hnonneg i
      rw [Finset.sum_pair hkj.symm, hsum, normalised_lone_eq hj hi,
        normalised_lone_eq hkv hi] at hpair
      unfold dynamicWeightMax
      linarith
    refine ne_of_gt (hsum.symm.trans_lt (Finset.sum_lt_sum (fun i _ => ?_)
      ⟨v, Finset.mem_univ v, ?_⟩))
    · by_cases hi : i = v
      · rw [hi, hv]
        exact hlt.le
      · unfold Controller.clamped clamp
        rw [min_eq_right (hhalf i hi)]
        exact le_max_right _ _
    · rw [hv]
      exact hlt
  · have huniv : (Finset.univ : Finset ι) = {v, j} := by
      ext i
      have hi : i = v ∨ i = j := by
        by_contra hne
        exact hthird ⟨i, not_or.mp hne⟩
      simpa using hi
    have hpair : (loneController v 1 0).normalised v + (loneController v 1 0).normalised j = 1 := by
      rw [← hsum, huniv, Finset.sum_pair hj.symm]
    have hbig : dynamicWeightMax ≤ (loneController v 1 0).normalised j := by
      unfold dynamicWeightMin at hlt
      unfold dynamicWeightMax
      linarith
    have hclamped : (loneController v 1 0).clamped j = dynamicWeightMax := by
      unfold Controller.clamped clamp
      rw [min_eq_left hbig, max_eq_right dynamicWeightMin_le_max]
    rw [huniv, Finset.sum_pair hj.symm, hv, hclamped]
    norm_num [dynamicWeightMin, dynamicWeightMax]

end Lone

/-- There are at least two models. -/
theorem Bounded.exists_ne {weights : ι → ℚ} (h : Bounded weights) (v : ι) : ∃ j, j ≠ v := by
  by_contra hall
  have hone : ∀ i, i = v := fun i => by_contra fun hi => hall ⟨i, hi⟩
  have hsum := h.sum_eq
  rw [Finset.sum_eq_single v (fun i _ hi => absurd (hone i) hi)
    (fun hv => absurd (Finset.mem_univ v) hv)] at hsum
  have hle := h.le_max v
  rw [hsum] at hle
  norm_num [dynamicWeightMax] at hle

/-- The weights stay in the bounds for all calls exactly if nothing is smoothed or all rates count
as systemic; and in a run all whose calls are balanced they stay there anyway. -/
theorem bounded_run_iff [DecidableEq ι] (settings : Settings ι) :
    ((∀ calls, Bounded (settings.run calls).currentWeights) ↔
        settings.alpha = 0 ∨ settings.systemicThreshold ≤ 0) ∧
      ∀ calls, (∀ before call, before ++ [call] <+: calls →
          call.Balanced settings (settings.run before)) →
        Bounded (settings.run calls).currentWeights := by
  refine ⟨⟨fun hall => ?_, fun hcase calls => ?_⟩, bounded_run_of_balanced settings⟩
  · by_contra hcase
    rw [not_or, not_le] at hcase
    have halpha := settings.alpha_mem.1.lt_of_ne' hcase.1
    obtain ⟨v⟩ := settings.bounded.nonempty
    obtain ⟨j, hj⟩ := settings.bounded.exists_ne v
    have : Nonempty ι := ⟨v⟩
    have hrun := run_lone settings hj hcase.2 fun m => (hall _).sum_eq
    obtain ⟨i, hlow | hhigh⟩ := exists_clamp_div dynamicWeightMin_pos dynamicWeightMin_le_max
      (loneController v 1 0).sum_normalised (sum_clamped_lone hj)
    · obtain ⟨n, hn⟩ := exists_iterate_lt_lo halpha hlow (settings.trainingWeights i)
      have hmin := (hall (List.replicate (n + 9) (lone v))).min_le i
      rw [hrun] at hmin
      exact hmin.not_gt hn
    · obtain ⟨n, hn⟩ := exists_hi_lt_iterate halpha hhigh (settings.trainingWeights i)
      have hmax := (hall (List.replicate (n + 9) (lone v))).le_max i
      rw [hrun] at hmax
      exact hmax.not_gt hn
  · refine bounded_run_of_balanced settings calls fun before call _ => ?_
    cases call with
    | reset => trivial
    | observe modelPredictions annotatorId auditTrailId =>
      rcases hcase with halpha | hthreshold
      · exact .inl halpha
      · exact .inr (.inr (.inl fun i => hthreshold.trans (Controller.rates_nonneg i)))

/-- A controller for two models, without smoothing. -/
private def twoModels : Settings (Fin 2) where
  trainingWeights := fun _ => 1 / 2
  bounded :=
    { min_le := fun _ => by norm_num [dynamicWeightMin]
      le_max := fun _ => by norm_num [dynamicWeightMax]
      sum_eq := by norm_num }
  alpha := 1
  alpha_mem := by norm_num
  systemicThreshold := 1 / 2

/-- After ten false positives of the first model the second one has a weight of 16/17. -/
theorem run_lone_unbounded :
    (twoModels.run (List.replicate 10 (lone 0))).currentWeights 1 = 16 / 17 ∧
      ¬∀ (settings : Settings (Fin 2)) (calls : List (Call (Fin 2))),
        Bounded (settings.run calls).currentWeights := by
  have hweight : (twoModels.run (List.replicate 10 (lone 0))).currentWeights 1 = 16 / 17 := by
    decide +kernel
  refine ⟨hweight, fun hall => ?_⟩
  have hle := (hall twoModels (List.replicate 10 (lone 0))).le_max 1
  rw [hweight] at hle
  norm_num [dynamicWeightMax] at hle

end LedgerLens.Detection.DynamicWeights
