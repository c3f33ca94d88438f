import LedgerLens.Detection.ArtifactRegistry

/-!
# The gates of a promotion that need no files

Authorization of the calling actor by an HMAC credential, and the comparison of a
candidate's metrics with those in production. Metric values are rational numbers.
-/

namespace LedgerLens.Detection

/-- The metrics of several models by model. -/
abbrev MetricsTable := UniqueTable String Metrics

/-- The code points of `str.isspace`. -/
def spaceCodes : List ℕ :=
  [9, 10, 11, 12, 13, 28, 29, 30, 31, 32, 133, 160, 5760, 8192, 8193, 8194, 8195, 8196, 8197,
   8198, 8199, 8200, 8201, 8202, 8232, 8233, 8239, 8287, 12288]

/-- `str.strip`. -/
def strip (chars : List Char) : List Char :=
  let isSpace (c : Char) : Bool := c.toNat ∈ spaceCodes
  ((chars.dropWhile isSpace).reverse.dropWhile isSpace).reverse

/-- `_authorized_actors`. -/
def authorizedActors (raw : String) : List String :=
  ((raw.toList.splitOn ',').map fun part => String.ofList (strip part)).filter (· ≠ "")

/-- `UnauthorizedPromotionError`, one case for each place that raises it. -/
inductive UnauthorizedReason where
  | emptyActor
  | noSecret
  | notAllowed (actor : String)
  | invalidCredential (actor : String)
  deriving DecidableEq

/-- What `authorize_actor` raises. -/
inductive AuthorizationError where
  /-- `UnauthorizedPromotionError`. -/
  | unauthorized (reason : UnauthorizedReason)
  /-- The `TypeError` of `hmac.compare_digest` on a text that is not ASCII. -/
  | nonAsciiCredential
  deriving DecidableEq

/-- `expected_credential`. -/
def expectedCredential (secret actor : String) : String :=
  Sha256.hmacHexdigest secret.toUTF8.data.toList actor.toUTF8.data.toList

/-- `authorize_actor`, with the secret and the allowlist of the configuration. -/
def authorizeActor (secret allowlist actor credential : String) :
    Except AuthorizationError Unit :=
  if actor = "" then .error (.unauthorized .emptyActor)
  else if secret = "" then .error (.unauthorized .noSecret)
  else if actor ∉ authorizedActors allowlist then .error (.unauthorized (.notAllowed actor))
  else if !credential.toList.all (fun c => c.toNat < 128) then .error .nonAsciiCredential
  else if expectedCredential secret actor ≠ credential then
    .error (.unauthorized (.invalidCredential actor))
  else .ok ()

/-- One reason of `evaluate_regression_gate`. -/
inductive Regression where
  /-- The model is missing from the candidate's metrics. -/
  | missing (modelName : String)
  /-- A metric fell by more than the tolerance. -/
  | dropped (modelName metric : String) (new old tolerance : ℚ)
  deriving DecidableEq

/-- `PromotionDecision`, one case for each place that makes one. -/
inductive PromotionDecision where
  | nothingToRegress
  | noCandidateMetrics
  | regressed (reasons : List Regression)
  | withinTolerance
  deriving DecidableEq

/-- `PromotionDecision.approved`. -/
def PromotionDecision.approved : PromotionDecision → Bool
  | nothingToRegress => true
  | noCandidateMetrics => false
  | regressed _ => false
  | withinTolerance => true

/-- The comparison of one metric of a model. -/
def metricRegression (tolerance : ℚ) (modelName metric : String) (old new : Metrics) :
    List Regression :=
  match old.find? metric, new.find? metric with
  | some oldValue, some newValue =>
    if newValue < oldValue - tolerance then [.dropped modelName metric newValue oldValue tolerance]
    else []
  | _, _ => []

/-- One round of the loop over the models. -/
def modelRegressions (tolerance : ℚ) (old new : MetricsTable) (modelName : String) :
    List Regression :=
  match old.find? modelName with
  | none => []
  | some oldMetrics =>
    match new.find? modelName with
    | none => [.missing modelName]
    | some newMetrics =>
      metricRegression tolerance modelName "auc_roc" oldMetrics newMetrics ++
        metricRegression tolerance modelName "f1" oldMetrics newMetrics

/-- `evaluate_regression_gate`; an empty mapping counts as none. -/
def evaluateRegressionGate (old new : Option MetricsTable) (modelNames : List String)
    (tolerance : ℚ) : PromotionDecision :=
  match old.filter (!·.rows.isEmpty) with
  | none => .nothingToRegress
  | some old =>
    match new.filter (!·.rows.isEmpty) with
    | none => .noCandidateMetrics
    | some new =>
      let reasons := modelNames.flatMap (modelRegressions tolerance old new)
      if reasons = [] then .withinTolerance else .regressed reasons

end LedgerLens.Detection
