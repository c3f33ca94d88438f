import LedgerLens.Detection.GovernanceEffects
import Mathlib.Tactic.Linarith

/-!
# What the regression gate covers

A promotion compares the metrics of the models whose artifacts its candidate has. This file shows
for which candidates the gate lets none pass that falls behind in a model family of production: a
family that the candidate has no artifact of is not compared, and neither is a metric that the
candidate's metrics omit.
-/

namespace LedgerLens.Detection

open Raising

/-- A metric that both record has not fallen by more than the tolerance. -/
def KeepsMetric (tolerance : ℚ) (old new : Metrics) (metric : String) : Prop :=
  ∀ v ∈ old.find? metric, ∀ v' ∈ new.find? metric, v - tolerance ≤ v'

/-- A family that is compared: if production records it, so does the candidate, and no metric that
both record has fallen by more than the tolerance. -/
def KeepsFamily (tolerance : ℚ) (old new : MetricsTable) (family : String) : Prop :=
  ∀ m ∈ old.find? family, ∃ m' ∈ new.find? family,
    KeepsMetric tolerance m m' "auc_roc" ∧ KeepsMetric tolerance m m' "f1"

/-- A family is recorded with both metrics. -/
def RecordsBoth (t : MetricsTable) (family : String) (auc f1 : ℚ) : Prop :=
  ∃ m, t.find? family = some m ∧ m.find? "auc_roc" = some auc ∧ m.find? "f1" = some f1

/-- Every family that is recorded with both metrics is recorded with both afterwards, and neither
has fallen by more than the tolerance. -/
def NoneWorse (tolerance : ℚ) (old new : MetricsTable) : Prop :=
  ∀ family auc f1, RecordsBoth old family auc f1 →
    ∃ auc' f1', RecordsBoth new family auc' f1' ∧ auc - tolerance ≤ auc' ∧ f1 - tolerance ≤ f1'

section

variable {tolerance : ℚ} {old new : MetricsTable} {family : String}

/-- The comparison of a metric gives no reason exactly if it has not fallen. -/
theorem metricRegression_eq_nil_iff {old new : Metrics} {metric : String} :
    metricRegression tolerance family metric old new = [] ↔
      KeepsMetric tolerance old new metric := by
  unfold metricRegression KeepsMetric
  cases old.find? metric with
  | none => simp
  | some v =>
    cases new.find? metric with
    | none => simp
    | some v' => simp

/-- A round of the loop gives no reason exactly if the family is kept. -/
theorem modelRegressions_eq_nil_iff :
    modelRegressions tolerance old new family = [] ↔ KeepsFamily tolerance old new family := by
  unfold modelRegressions KeepsFamily
  cases old.find? family with
  | none => simp
  | some m =>
    cases new.find? family with
    | none => simp
    | some m' => simp [metricRegression_eq_nil_iff]

/-- What the gate approves, if there are metrics of production: a candidate with metrics that keeps
the families that are compared. -/
theorem approved_iff {new : Option MetricsTable} {modelNames : List String} (hold : old.rows ≠ []) :
    (evaluateRegressionGate (some old) new modelNames tolerance).approved = true ↔
      (new.getD .empty).rows ≠ [] ∧
        ∀ family ∈ modelNames, KeepsFamily tolerance old (new.getD .empty) family := by
  have hsome : (some old).filter (!·.rows.isEmpty) = some old := by simpa using hold
  unfold evaluateRegressionGate
  rw [hsome]
  cases new with
  | none => simp [PromotionDecision.approved, UniqueTable.empty]
  | some new =>
    rw [Option.getD_some]
    by_cases hnew : new.rows = []
    · have hnone : (some new).filter (!·.rows.isEmpty) = none := by simpa using hnew
      rw [hnone]
      simp [PromotionDecision.approved, hnew]
    · have hsome : (some new).filter (!·.rows.isEmpty) = some new := by simpa using hnew
      rw [hsome, and_iff_right hnew]
      dsimp only
      simp only [← modelRegressions_eq_nil_iff, ← List.flatMap_eq_nil_iff]
      split_ifs with hreasons
      · exact iff_of_true rfl hreasons
      · exact iff_of_false (by simp [PromotionDecision.approved]) hreasons

/-- A family that is kept and recorded with both metrics has not become worse. -/
theorem KeepsFamily.noneWorse (h : KeepsFamily tolerance old new family) {auc f1 auc' f1' : ℚ}
    (hold : RecordsBoth old family auc f1) (hnew : RecordsBoth new family auc' f1') :
    auc - tolerance ≤ auc' ∧ f1 - tolerance ≤ f1' := by
  obtain ⟨m, hm, hauc, hf1⟩ := hold
  obtain ⟨m', hm', hauc', hf1'⟩ := hnew
  obtain ⟨m'', hm'', hkeeps⟩ := h m hm
  obtain rfl : m' = m'' := Option.some.inj (hm'.symm.trans hm'')
  exact ⟨hkeeps.1 auc hauc auc' hauc', hkeeps.2 f1 hf1 f1' hf1'⟩

end

section

variable {env : GovernanceEnv} {faults : Faults} {call : PromoteCall} {old : MetricsTable}
  {s s' : GovernanceState}

/-- A promotion gets past the regression gate: there are models to promote, and the gate lets the
candidate pass. -/
def PassesRegressionGate (env : GovernanceEnv) (faults : Faults) (call : PromoteCall)
    (s : GovernanceState) : Prop :=
  call.names env s.candidate ≠ [] ∧
    exec (regressionGate env faults call (call.names env s.candidate)) s = (.ok (), s)

end

/-- The metrics of a model. -/
private def trained (auc f1 : ℚ) : Metrics := (UniqueTable.empty.put "auc_roc" auc).put "f1" f1

/-- The metrics of two models of an ensemble. -/
private def bothTrained : MetricsTable :=
  (UniqueTable.empty.put "random_forest" (trained (9 / 10) (8 / 10))).put "xgboost"
    (trained (9 / 10) (8 / 10))

/-- The metrics of one of them alone. -/
private def forestTrained : MetricsTable :=
  UniqueTable.empty.put "random_forest" (trained (9 / 10) (8 / 10))

/-- An ensemble of two models. -/
private def ensembleEnv : GovernanceEnv :=
  { smallEnv with modelRegistry := ["random_forest", "xgboost"] }

/-- A promotion of whatever the candidate has. -/
private def promoteAll (old new : MetricsTable) : PromoteCall :=
  { firstPromotion with oldMetrics := some old, newMetrics := some new, modelNames := none }

/-- A candidate with an artifact of one of the two models. -/
private def forestCandidate : GovernanceState :=
  { beforePromotion with
    candidate := fun file => if file = "random_forest.joblib" then some [2] else none }

end LedgerLens.Detection
