import LedgerLens.Detection.Governance

/-!
# The gated promotion of a candidate

`promote_candidate` as a program: five gates, of which the fourth signs the candidate and
publishes its hashes, and then the critical section, which changes the files, the manifest
and the table of versions one after another.
-/

namespace LedgerLens.Detection

/-- A backdoor report. -/
structure BackdoorReport where
  /-- `quarantine_recommended`. -/
  quarantineRecommended : Bool
  /-- `reason`. -/
  reason : Option String

/-- The arguments of `promote_candidate`, with the ids that it generates. -/
structure PromoteCall where
  /-- `candidate_dir`. -/
  candidateDir : String
  /-- `actor`. -/
  actor : String
  /-- `credential`. -/
  credential : String
  /-- `old_metrics`. -/
  oldMetrics : Option MetricsTable := none
  /-- `new_metrics`. -/
  newMetrics : Option MetricsTable := none
  /-- `reason`. -/
  reason : String := ""
  /-- `model_names`. -/
  modelNames : Option (List String) := none
  /-- The key at `signing_key_path` or at the configured path. -/
  signingKey : SigningKey
  /-- `public_key` or the configured one; `none` if that cannot be loaded. -/
  publicKey : Option Bytes
  /-- `backdoor_report`. -/
  backdoorReport : Option BackdoorReport := none
  /-- The id of a quarantine record. -/
  quarantineId : String
  /-- The id of the new version. -/
  versionId : String
  /-- The registry's version of the `k`-th model. -/
  registryVersion : ℕ → String

section

variable (env : GovernanceEnv) (faults : Faults) (call : PromoteCall)

/-- The models of a call. -/
def PromoteCall.names (files : Files) : List String :=
  env.candidateModelNames files call.modelNames

/-- `_deny`. -/
def deny (modelNames : List String) (error : GovernanceError) (detail : String := "") :
    Program Unit :=
  recordAudit faults
    { actor := call.actor, action := "promote", modelName := ",".intercalate modelNames,
      versionId := none, success := false, reason := .inr error, detail := some (.text detail) }

/-- The first gate: `authorize_actor`. -/
def authorizationGate (modelNames : List String) : Program Unit :=
  match authorizeActor env.promotionSecret env.authorizedActors call.actor call.credential with
  | .ok () => pure ()
  | .error .nonAsciiCredential => throw .nonAsciiCredential
  | .error (.unauthorized reason) => do
    deny faults call modelNames (.unauthorized reason)
    throw (.unauthorized reason)

/-- The row of `quarantine_candidate`. -/
def quarantineRecord (candidateDir reason : String) (now : ℕ) : VersionRecord where
  modelArtifactPath := candidateDir
  status := .quarantined now reason
  trainingMetadata := .other

/-- `quarantine_candidate`. -/
def quarantineCandidate (reason : String) : Program Unit := do
  attempt faults .insertQuarantine
  let s ← get
  match s.versions.insert? call.quarantineId
    (quarantineRecord call.candidateDir reason s.now) with
  | none => throw (.versionTaken call.quarantineId)
  | some versions => modify fun s => { s with versions := versions }

/-- When and why a version of a candidate was quarantined, if it was. -/
def VersionRecord.quarantine (record : VersionRecord) (candidateDir : String) :
    Option (ℕ × String) :=
  match record.status with
  | .quarantined time reason =>
    if record.modelArtifactPath = candidateDir then some (time, reason) else none
  | _ => none

/-- `_existing_quarantine_reason` on the table of versions. -/
def existingQuarantineReason (versions : UniqueTable String VersionRecord)
    (candidateDir : String) : Option String :=
  (latest Prod.fst (versions.rows.filterMap (·.2.quarantine candidateDir))).map Prod.snd

/-- Whether the call comes with a report that recommends quarantine, and its reason. -/
def PromoteCall.quarantineAdvice : Option String :=
  (call.backdoorReport.filter (·.quarantineRecommended)).map fun report =>
    report.reason.getD "Backdoor scan flagged this candidate."

/-- The first part of the second gate: quarantine what the report advises to. -/
def followAdvice : Program Unit :=
  match call.quarantineAdvice with
  | some reason => quarantineCandidate faults call reason
  | none => pure ()

/-- The second part: refuse a quarantined candidate. -/
def refuseQuarantined (modelNames : List String) : Program Unit := do
  attempt faults .findQuarantine
  let s ← get
  match existingQuarantineReason s.versions call.candidateDir with
  | none => pure ()
  | some reason => do
    deny faults call modelNames (.quarantined call.candidateDir reason) reason
    throw (.quarantined call.candidateDir reason)

/-- The second gate: quarantine. -/
def quarantineGate (modelNames : List String) : Program Unit := do
  followAdvice faults call
  refuseQuarantined faults call modelNames

/-- The third gate: `evaluate_regression_gate`. -/
def regressionGate (modelNames : List String) : Program Unit :=
  let decision := evaluateRegressionGate call.oldMetrics call.newMetrics modelNames env.tolerance
  if decision.approved then pure ()
  else do
    deny faults call modelNames (.regression decision)
    throw (.regression decision)

/-- The part of `sign_and_register_artifact` before the transparency log: the artifact's
hash, and the candidate's files with the metrics that record it and their signature. -/
def signArtifact (files : Files) (modelName : String) :
    Except GovernanceError (String × Files) :=
  match files (artifactFile modelName), files "metrics.json", call.signingKey with
  | none, _, _ =>
    .error (.integrity (.artifactNotFound (call.candidateDir ++ "/" ++ artifactFile modelName)))
  | some _, none, _ => .error (.integrity (.metricsNotFound call.candidateDir))
  | some _, some _, .notConfigured => .error .unreadableSigningKey
  | some _, some _, .unreadable => .error .unreadableSigningKey
  | some _, some _, .notEd25519 => .error (.integrity .signingKeyNotEd25519)
  | some artifact, some metrics, .ed25519 sign =>
    let sha := Sha256.hexdigest artifact
    match (env.tools.jsonLoad metrics).bind (·.setArtifactSha256 modelName sha) with
    | none => .error .malformedMetrics
    | some metrics =>
      let payload := env.dumpMetrics metrics
      .ok (sha, (files.write "metrics.json" payload).write "metrics.json.sig" (sign payload))

/-- `sign_and_register_artifact`. -/
def signAndRegisterArtifact (k : ℕ) (modelName : String) : Program String := do
  attempt faults (.signArtifact k)
  let s ← get
  let (sha, files) ← Raising.ofExcept (signArtifact env call s.candidate modelName)
  modify fun s => { s with candidate := files }
  match s.transparencyLog.append modelName sha with
  | .error message => throw (.invalidHash message)
  | .ok log => do
    modify fun s => { s with transparencyLog := log }
    return sha

/-- One round of the loop of `sign_and_verify_candidate`. -/
def signAndVerifyArtifact (publicKey : Bytes) (shas : UniqueTable String String)
    (model : String × ℕ) : Program (UniqueTable String String) := do
  let sha ← signAndRegisterArtifact env faults call model.2 model.1
  attempt faults (.verifyArtifact model.2)
  let s ← get
  let verified ← Raising.ofExcept (verifyArtifact env s.candidate call.candidateDir
    s.transparencyLog model.1 publicKey (some sha))
  return shas.put model.1 verified

/-- The `except ModelIntegrityError` that makes an `ArtifactTrustError`. -/
def wrapIntegrity {α : Type} (x : Program α) : Program α :=
  tryCatch x fun e =>
    match e with
    | .integrity error => throw (.untrusted (.integrity error))
    | e => throw e

/-- `sign_and_verify_candidate`. -/
def signAndVerifyCandidate (modelNames : List String) :
    Program (UniqueTable String String) :=
  match call.signingKey, call.publicKey with
  | .notConfigured, _ => throw (.untrusted .noSigningKey)
  | _, none => throw (.integrity .trustedKeyUnavailable)
  | _, some publicKey =>
    wrapIntegrity
      (modelNames.zipIdx.foldlM (signAndVerifyArtifact env faults call publicKey) .empty)

/-- The handler of the fourth gate. -/
def denyUntrusted {α : Type} (modelNames : List String) (e : GovernanceError) : Program α :=
  match e with
  | .untrusted failure => do
    deny faults call modelNames (.untrusted failure)
    throw (.untrusted failure)
  | e => throw e

/-- The fourth gate: the trust chain. -/
def trustGate (modelNames : List String) : Program (UniqueTable String String) := do
  attempt faults .openTransparencyLog
  tryCatch (signAndVerifyCandidate env faults call modelNames)
    (denyUntrusted faults call modelNames)

/-- `verify_candidate_compatibility`: the first model that does not pass. -/
def verifyCandidateCompatibility (files : Files) : List String → Except (String × String) Unit
  | [] => .ok ()
  | name :: names =>
    match env.checkCompatibility ⟨call.candidateDir, files⟩ name with
    | .ok () => verifyCandidateCompatibility files names
    | .error errors => .error (name, errors)

/-- The fifth gate: compatibility. -/
def compatibilityGate (modelNames : List String) : Program Unit := do
  let s ← get
  match verifyCandidateCompatibility env call s.candidate modelNames with
  | .ok () => pure ()
  | .error (name, errors) => do
    deny faults call modelNames (.incompatible name errors)
    throw (.incompatible name errors)

/-- The name of the registry's manifest in the production directory. -/
def manifestFile : String := "artifact_manifest.json"

/-- The registry that the manifest in a directory makes. -/
def GovernanceEnv.loadRegistry (env : GovernanceEnv) (files : Files) :
    Option ModelArtifactRegistry :=
  match files manifestFile with
  | none => some (ModelArtifactRegistry.load none)
  | some content => (env.loadManifest content).map fun manifest => .load (some manifest)

/-- `ModelArtifactRegistry(manifest_path=...)`. -/
def openRegistry : Program ModelArtifactRegistry := do
  attempt faults .loadManifest
  let s ← get
  match env.loadRegistry s.files with
  | none => throw .malformedManifest
  | some registry => return registry

/-- The manifest of a registry, written to the production directory. -/
def saveManifest (registry : ModelArtifactRegistry) (s : GovernanceState) : GovernanceState :=
  match registry.manifest with
  | none => s
  | some manifest =>
    { s with files := s.files.write manifestFile (env.dumpManifest manifest) }

/-- One operation of the registry: what it saves is in the production directory then. -/
def runRegistry {α : Type}
    (outcome : Except (RegistryError TrustFailure) α × ModelArtifactRegistry) :
    Program (α × ModelArtifactRegistry) :=
  match outcome with
  | (.error e, _) => throw (.registry e)
  | (.ok a, registry) => do
    modify (saveManifest env registry)
    return (a, registry)

/-- `make_trust_verifier`, for artifacts in the production directory. -/
def trustVerifier (s : GovernanceState) (record : ArtifactRecord) : Except TrustFailure Unit :=
  match call.publicKey with
  | none => .error (.integrity .trustedKeyUnavailable)
  | some publicKey =>
    match (ModelDir.mk env.modelDir s.files).verify env.tools s.transparencyLog record.name
        publicKey (some record.sha256) with
    | .error error => .error (.integrity error)
    | .ok verified =>
      if verified ≠ record.sha256 then
        .error (.recordMismatch record.name record.version record.sha256 verified)
      else .ok ()

/-- One round of the loop that registers, validates and promotes the models. -/
def promoteArtifact (registry : ModelArtifactRegistry) (model : String × ℕ) :
    Program ModelArtifactRegistry := do
  let (name, k) := model
  attempt faults (.register k)
  let s ← get
  let metrics := ((call.newMetrics.getD .empty).find? name).getD .empty
  let (version, registry) ← runRegistry env (registry.register name
    (env.modelDir ++ "/" ++ artifactFile name) (s.files (artifactFile name)) metrics .empty
    (call.registryVersion k) s.now)
  attempt faults (.validate k)
  let (_, registry) ← runRegistry env (registry.validate name version s.now)
  attempt faults (.promote k)
  let s ← get
  let (_, registry) ← runRegistry env
    (registry.promote (some (trustVerifier env call s)) name version s.now)
  return registry

/-- The new row of `promote_candidate`. -/
def promotedRecord (shas : UniqueTable String String) (archivePath : ℕ)
    (previous : Option (String × VersionRecord)) (now : ℕ) : VersionRecord where
  modelArtifactPath := env.modelDir
  artifactSignature := some (",".intercalate (shas.rows.map fun row =>
    row.1 ++ ":" ++ String.ofList (row.2.toList.take 16)))
  status := .production
  promotedAt := some now
  promotedBy := some call.actor
  parentVersionId := previous.map (·.1)
  trainingMetadata := .promotion call.reason archivePath shas

/-- What happens to the previous version. -/
def VersionRecord.deprecated (record : VersionRecord) : VersionRecord :=
  { record with status := .deprecated }

/-- The commit of the new version and of the deprecation of the previous one. -/
def commitVersion (shas : UniqueTable String String) (archivePath : ℕ) :
    Program (String × VersionRecord) := do
  attempt faults .commitVersion
  let s ← get
  let record := promotedRecord env call shas archivePath s.current s.now
  match (s.retireCurrent VersionRecord.deprecated).insert? call.versionId record with
  | none => throw (.versionTaken call.versionId)
  | some versions => do
    modify fun s => { s with versions := versions }
    return (call.versionId, record)

/-- The critical section of `promote_candidate`; returns the new version and the archive. -/
def criticalSection (modelNames : List String) (shas : UniqueTable String String) :
    Program ((String × VersionRecord) × ℕ) := do
  openLock faults
  let archivePath ← archiveProduction faults
  let s ← get
  publishFiles faults s.candidate
  let registry ← openRegistry env faults
  let _ ← modelNames.zipIdx.foldlM (promoteArtifact env faults call) registry
  let version ← commitVersion env faults call shas archivePath
  return (version, archivePath)

/-- `promote_candidate`, for a candidate directory with the candidate's files. -/
def promoteCandidate : Program (String × VersionRecord) := do
  let s ← get
  let modelNames := call.names env s.candidate
  if modelNames = [] then throw (.noArtifacts call.candidateDir)
  else do
    authorizationGate env faults call modelNames
    quarantineGate faults call modelNames
    regressionGate env faults call modelNames
    let shas ← trustGate env faults call modelNames
    compatibilityGate env faults call modelNames
    let (version, archivePath) ← criticalSection env faults call modelNames shas
    recordAudit faults
      { actor := call.actor, action := "promote", modelName := ",".intercalate modelNames,
        versionId := some version.1, success := true, reason := .inl call.reason,
        detail := some (.archivedPrevious archivePath) }
    return version

end

end LedgerLens.Detection
