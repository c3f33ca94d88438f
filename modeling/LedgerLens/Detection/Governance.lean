import LedgerLens.Detection.ModelArtifact
import LedgerLens.Detection.PromotionGates
import LedgerLens.Library.Raising

/-!
# The state of the model governance

What promotions and rollbacks read and change: the regular files of the candidate and of the
production directory, the archives, the table of model versions, the audit log and the
transparency log. Every step that does input or output may raise, as a plan of faults says,
and nothing is undone then.
-/

namespace LedgerLens.Detection

/-- The regular files of a directory. -/
abbrev Files := String → Option Bytes

/-- Copy every file of a directory over those of another. -/
def Files.copyOver (source target : Files) : Files := fun name => (source name).or (target name)

/-- Write one file. -/
def Files.write (files : Files) (name : String) (content : Bytes) : Files :=
  Function.update files name (some content)

/-- The private key to sign with. -/
inductive SigningKey where
  /-- No path is configured. -/
  | notConfigured
  /-- The file is missing or holds no private key. -/
  | unreadable
  /-- It holds a key of another kind. -/
  | notEd25519
  /-- `Ed25519PrivateKey.sign`. -/
  | ed25519 (sign : Bytes → Bytes)

/-- What the governance is configured with and relies on. -/
structure GovernanceEnv where
  /-- Decoder and signature scheme. -/
  tools : TrustTools
  /-- `json.dump` of the metrics. -/
  dumpMetrics : Json → Bytes
  /-- `json.dump` of a manifest. -/
  dumpManifest : Manifest → Bytes
  /-- `json.load` of a manifest; `none` if it raises. -/
  loadManifest : Bytes → Option Manifest
  /-- `ArtifactCompatibilityGate.check`; the error says why it does not pass. -/
  checkCompatibility : ModelDir → String → Except String Unit
  /-- The names in `MODEL_REGISTRY`. -/
  modelRegistry : List String
  /-- `MODEL_PROMOTION_SECRET`. -/
  promotionSecret : String
  /-- `MODEL_PROMOTION_AUTHORIZED_ACTORS`. -/
  authorizedActors : String
  /-- `MODEL_PROMOTION_REGRESSION_TOLERANCE`. -/
  tolerance : ℚ
  /-- The production directory. -/
  modelDir : String

/-- The steps that can fail for reasons outside the program; a number counts models. -/
inductive Step where
  | insertAudit
  | insertQuarantine
  | findQuarantine
  | findVersions
  | openTransparencyLog
  | signArtifact (k : ℕ)
  | verifyArtifact (k : ℕ)
  | openLock
  | archive
  | publish
  | loadManifest
  | register (k : ℕ)
  | validate (k : ℕ)
  | promote (k : ℕ)
  | commitVersion
  deriving DecidableEq

/-- A plan of faults. -/
structure Faults where
  /-- Whether a step raises. -/
  fails : Step → Bool
  /-- The files copied before a copy of several files raises. -/
  copied : String → Bool

/-- What `ArtifactTrustError` reports. -/
inductive TrustFailure where
  /-- No signing key is configured. -/
  | noSigningKey
  /-- The trust chain does not hold. -/
  | integrity (error : ModelIntegrityError)
  /-- The verified hash is not the registered one. -/
  | recordMismatch (name version registered verified : String)
  deriving DecidableEq

/-- What a promotion or a rollback raises. -/
inductive GovernanceError where
  /-- `PromotionError`: the candidate has no model artifacts. -/
  | noArtifacts (candidateDir : String)
  /-- `UnauthorizedPromotionError`. -/
  | unauthorized (reason : UnauthorizedReason)
  /-- `QuarantinedModelError`. -/
  | quarantined (candidateDir reason : String)
  /-- `RegressionGateError`. -/
  | regression (decision : PromotionDecision)
  /-- `ArtifactTrustError`. -/
  | untrusted (failure : TrustFailure)
  /-- `ArtifactCompatibilityError`. -/
  | incompatible (modelName errors : String)
  /-- `NoRollbackTargetError`: there is no version to return to. -/
  | noTarget
  /-- `NoRollbackTargetError`: the version has no archive. -/
  | noArchive (versionId : String) (lookedFor : Option ℕ)
  /-- `ArtifactTrustError` of a rollback. -/
  | untrustedTarget (versionId : String) (error : ModelIntegrityError)
  /-- `TypeError`: the credential is not ASCII. -/
  | nonAsciiCredential
  /-- `ModelIntegrityError` that nobody wraps. -/
  | integrity (error : ModelIntegrityError)
  /-- The metrics of the candidate are not a JSON dictionary of dictionaries. -/
  | malformedMetrics
  /-- The signing key cannot be loaded. -/
  | unreadableSigningKey
  /-- `ValueError` of the transparency log. -/
  | invalidHash (message : String)
  /-- The archive directory cannot be made. -/
  | archiveBlocked
  /-- The manifest cannot be loaded. -/
  | malformedManifest
  /-- What the registry raises. -/
  | registry (error : RegistryError TrustFailure)
  /-- `IntegrityError`: the id of the new version is taken. -/
  | versionTaken (versionId : String)
  /-- A step failed. -/
  | fault (step : Step)

/-- `ModelVersionRecord.status`, with the columns that only quarantined rows have. -/
inductive VersionStatus where
  | shadow
  | production
  | deprecated
  | rolledBack
  | quarantined (time : ℕ) (reason : String)
  deriving DecidableEq

/-- `ModelVersionRecord.training_metadata`; an archive is named by the time of its making. -/
inductive TrainingMetadata where
  /-- Of a shadow or quarantined version. -/
  | other
  /-- Of a promotion: the archive holds what was live before it. -/
  | promotion (reason : String) (archivePath : ℕ) (shas : UniqueTable String String)
  /-- Of a rollback: the archive is the one it restored. -/
  | rollback (rollbackOf : Option String) (restoredFrom reason : String)
      (preRollbackArchive archivePath : ℕ)

/-- `_archive_path_from_metadata`. -/
def TrainingMetadata.archivePath : TrainingMetadata → Option ℕ
  | other => none
  | promotion _ archivePath _ => some archivePath
  | rollback _ _ _ _ archivePath => some archivePath

/-- `ModelVersionRecord`, without its primary key `version_id`. -/
structure VersionRecord where
  /-- Where the model's files are. -/
  modelArtifactPath : String
  /-- The heads of the artifacts' hashes. -/
  artifactSignature : Option String := none
  /-- Its state. -/
  status : VersionStatus
  /-- When it went live. -/
  promotedAt : Option ℕ := none
  /-- Who promoted it. -/
  promotedBy : Option String := none
  /-- The version that it replaced. -/
  parentVersionId : Option String := none
  /-- When it was rolled back. -/
  rolledBackAt : Option ℕ := none
  /-- By whom. -/
  rolledBackBy : Option String := none
  /-- Why it was blocked or rolled back. -/
  promotionBlockedReason : Option String := none
  /-- The rest. -/
  trainingMetadata : TrainingMetadata

/-- `PromotionAuditRecord.detail`. -/
inductive AuditDetail where
  | text (s : String)
  | archivedPrevious (archivePath : ℕ)
  | restoredFrom (versionId : String)

/-- `PromotionAuditRecord`. -/
structure AuditRow where
  /-- Who called. -/
  actor : String
  /-- `promote` or `rollback`. -/
  action : String
  /-- The models, joined. -/
  modelName : String
  /-- The version made or asked for. -/
  versionId : Option String
  /-- Whether it was done. -/
  success : Bool
  /-- The reason given, or the exception. -/
  reason : String ⊕ GovernanceError
  /-- More. -/
  detail : Option AuditDetail

/-- What promotions and rollbacks read and change. -/
structure GovernanceState where
  /-- The regular files of the candidate's directory. -/
  candidate : Files
  /-- The regular files of the production directory. -/
  files : Files
  /-- The archive directories by the time of their making. -/
  archives : ℕ → Option Files
  /-- The table of model versions by `version_id`. -/
  versions : UniqueTable String VersionRecord
  /-- The promotion audit log, oldest first. -/
  auditLog : List AuditRow
  /-- The transparency log. -/
  transparencyLog : TransparencyLog
  /-- The clock. -/
  now : ℕ

/-- A program on this state. -/
abbrev Program := Raising GovernanceState GovernanceError

/-- A step that may fail. -/
def attempt (faults : Faults) (step : Step) : Program Unit :=
  if faults.fails step then throw (.fault step) else pure ()

section

open Raising

variable {faults : Faults} {step : Step} {s s' : GovernanceState} {β : Type} {f : Unit → Program β}

/-- A step that may fail, and the rest, with an outcome. -/
theorem exec_attempt_bind_eq_ok_iff {b : β} :
    exec (attempt faults step >>= f) s = (.ok b, s') ↔
      faults.fails step = false ∧ exec (f ()) s = (.ok b, s') := by
  unfold attempt
  cases faults.fails step with
  | true => simp
  | false => simp

/-- A step that may fail, and the rest. -/
theorem returns_attempt_bind :
    Returns (attempt faults step >>= f) s ↔ faults.fails step = false ∧ Returns (f ()) s := by
  unfold attempt
  cases faults.fails step <;> simp

/-- A step that may fail keeps everything. -/
theorem keeps_attempt {P : GovernanceState → Prop} : Keeps P (attempt faults step) := by
  unfold attempt
  split
  · exact Keeps.throw _
  · exact Keeps.pure _

end

/-- `PromotionAuditLog.record`. -/
def recordAudit (faults : Faults) (row : AuditRow) : Program Unit := do
  attempt faults .insertAudit
  modify fun s => { s with auditLog := s.auditLog ++ [row] }

/-- The first row in descending order of a time. -/
def latest {α : Type} (time : α → ℕ) : List α → Option α
  | [] => none
  | row :: rows => some (rows.foldl (fun a b => if time a < time b then b else a) row)

/-- The first row in ascending order of a time. -/
def earliest {α : Type} (time : α → ℕ) : List α → Option α
  | [] => none
  | row :: rows => some (rows.foldl (fun a b => if time b < time a then b else a) row)

/-- A row that is picked by its time is one of the rows. -/
private theorem foldl_pick_mem {α : Type} (p : α → α → Bool) (rows : List α) (row : α) :
    rows.foldl (fun a b => if p a b then b else a) row ∈ row :: rows := by
  induction rows generalizing row with
  | nil => simp
  | cons next rows ih =>
    rw [List.foldl_cons]
    cases p row next with
    | true => exact List.mem_cons_of_mem _ (ih next)
    | false =>
      have hmem := ih row
      simp only [Bool.false_eq_true, if_false, List.mem_cons] at hmem ⊢
      tauto

/-- The first row in descending order is one of the rows. -/
theorem latest_mem {α : Type} {time : α → ℕ} {rows : List α} {row : α}
    (h : latest time rows = some row) : row ∈ rows := by
  cases rows with
  | nil => cases h
  | cons first rows =>
    obtain rfl := Option.some.inj h
    simpa using foldl_pick_mem (fun a b => decide (time a < time b)) rows first

/-- The first row in ascending order is one of the rows. -/
theorem earliest_mem {α : Type} {time : α → ℕ} {rows : List α} {row : α}
    (h : earliest time rows = some row) : row ∈ rows := by
  cases rows with
  | nil => cases h
  | cons first rows =>
    obtain rfl := Option.some.inj h
    simpa using foldl_pick_mem (fun a b => decide (time b < time a)) rows first

/-- The order of `promoted_at`, in which `NULL` comes first. -/
def promotionTime (row : String × VersionRecord) : ℕ := row.2.promotedAt.elim 0 (· + 1)

/-- The rows whose status is `production`. -/
def GovernanceState.production (s : GovernanceState) : List (String × VersionRecord) :=
  s.versions.rows.filter fun row => row.2.status = .production

/-- The row of the version in production. -/
def GovernanceState.current (s : GovernanceState) : Option (String × VersionRecord) :=
  latest promotionTime s.production

/-- The version in production has a row. -/
theorem current_mem {s : GovernanceState} {row : String × VersionRecord}
    (h : s.current = some row) : row ∈ s.versions.rows :=
  List.mem_of_mem_filter (latest_mem h)

/-- The versions with a change to the one in production. -/
def GovernanceState.retireCurrent (s : GovernanceState) (f : VersionRecord → VersionRecord) :
    UniqueTable String VersionRecord :=
  match s.current with
  | none => s.versions
  | some current => s.versions.modify current.1 f

/-- `_candidate_model_names`. -/
def GovernanceEnv.candidateModelNames (env : GovernanceEnv) (files : Files)
    (modelNames : Option (List String)) : List String :=
  modelNames.getD (env.modelRegistry.filter fun name => (files (artifactFile name)).isSome)

/-- `ModelArtifactVerifier.verify` on a directory. -/
def verifyArtifact (env : GovernanceEnv) (files : Files) (path : String)
    (log : TransparencyLog) (modelName : String) (publicKey : Bytes)
    (expectedSha256 : Option String) : Except GovernanceError String :=
  match (ModelDir.mk path files).verify env.tools log modelName publicKey expectedSha256 with
  | .error e => .error (.integrity e)
  | .ok sha => .ok sha

section

variable (faults : Faults)

/-- The lock file is there. -/
def GovernanceState.lock (s : GovernanceState) : GovernanceState :=
  { s with files := s.files.write ".promotion.lock" ((s.files ".promotion.lock").getD []) }

/-- `_promotion_lock`: opening the lock file makes it. -/
def openLock : Program Unit := do
  attempt faults .openLock
  modify GovernanceState.lock

/-- Taking the lock again changes nothing. -/
theorem lock_eq_self {s : GovernanceState} (h : s.files ".promotion.lock" ≠ none) :
    s.lock.files = s.files := by
  obtain ⟨content, hcontent⟩ := Option.ne_none_iff_exists'.mp h
  funext file
  by_cases hfile : file = ".promotion.lock"
  · subst hfile
    simp [GovernanceState.lock, Files.write, hcontent]
  · simp [GovernanceState.lock, Files.write, hfile]

/-- What reaches a directory when the files of another are copied into it while it has a
subdirectory `archive`: a file of that name goes there. -/
def Files.publishable (source : Files) : Files :=
  fun name => if name = "archive" then none else source name

/-- The files copied before a copy raises. -/
def Files.partly (source : Files) (copied : String → Bool) : Files :=
  fun name => if copied name then source name else none

/-- Copy files into the archive directory of the present time. -/
def GovernanceState.addToArchive (s : GovernanceState) (source : Files) : GovernanceState :=
  let archive : Files := (s.archives s.now).getD fun _ => none
  { s with archives := Function.update s.archives s.now (some (source.copyOver archive)) }

/-- `archive_production`: returns the name of the archive. -/
def archiveProduction : Program ℕ := do
  let s ← get
  if (s.files "archive").isSome then throw .archiveBlocked
  else if faults.fails .archive then do
    modify fun s => s.addToArchive (s.files.partly faults.copied)
    throw (.fault .archive)
  else do
    modify fun s => s.addToArchive s.files
    return s.now

/-- Copy files into the production directory. -/
def GovernanceState.publish (s : GovernanceState) (source : Files) : GovernanceState :=
  { s with files := source.publishable.copyOver s.files }

/-- `_publish_files_to_production`. -/
def publishFiles (source : Files) : Program Unit :=
  if faults.fails .publish then do
    modify fun s => s.publish (source.partly faults.copied)
    throw (.fault .publish)
  else modify fun s => s.publish source

end

/-- Which version is in production depends on the versions only. -/
theorem retireCurrent_congr {s s' : GovernanceState} (h : s'.versions = s.versions)
    (f : VersionRecord → VersionRecord) :
    s'.current = s.current ∧ s'.retireCurrent f = s.retireCurrent f := by
  have hcurrent : s'.current = s.current := by
    unfold GovernanceState.current GovernanceState.production
    rw [h]
  unfold GovernanceState.retireCurrent
  rw [hcurrent, h]
  exact ⟨rfl, rfl⟩

/-- A change to the version in production makes and frees no id. -/
theorem find?_retireCurrent_eq_none_iff {s : GovernanceState} (f : VersionRecord → VersionRecord)
    {id : String} : (s.retireCurrent f).find? id = none ↔ s.versions.find? id = none := by
  unfold GovernanceState.retireCurrent
  cases s.current with
  | none => exact Iff.rfl
  | some current =>
    by_cases h : id = current.1
    · simp [h]
    · simp [h]

section

open Raising

variable {faults : Faults} {s s' : GovernanceState} {β : Type} {b : β}

/-- The lock file does not stand in the way of the archive. -/
theorem lock_files_archive (s : GovernanceState) :
    s.lock.files "archive" = s.files "archive" := by
  simp [GovernanceState.lock, Files.write]

/-- Where a program goes on after the lock is taken. -/
theorem exec_openLock_bind_eq_ok_iff {f : Unit → Program β} :
    exec (openLock faults >>= f) s = (.ok b, s') ↔
      faults.fails .openLock = false ∧ exec (f ()) s.lock = (.ok b, s') := by
  unfold openLock
  rw [bind_assoc, exec_attempt_bind_eq_ok_iff, exec_bind_of_ok (exec_modify _ s)]

/-- Where a program goes on after production is archived. -/
theorem exec_archiveProduction_bind_eq_ok_iff {f : ℕ → Program β} :
    exec (archiveProduction faults >>= f) s = (.ok b, s') ↔
      (s.files "archive" = none ∧ faults.fails .archive = false) ∧
        exec (f s.now) (s.addToArchive s.files) = (.ok b, s') := by
  unfold archiveProduction
  rw [bind_assoc, exec_bind_of_ok (exec_get s)]
  cases s.files "archive" with
  | some content => simp
  | none =>
    cases faults.fails .archive with
    | true => simp [exec_bind]
    | false => simp [exec_bind]

/-- Where a program goes on after files are published. -/
theorem exec_publishFiles_bind_eq_ok_iff {source : Files} {f : Unit → Program β} :
    exec (publishFiles faults source >>= f) s = (.ok b, s') ↔
      faults.fails .publish = false ∧ exec (f ()) (s.publish source) = (.ok b, s') := by
  unfold publishFiles
  cases faults.fails .publish with
  | true => simp [exec_bind]
  | false => simp [exec_bind]

end

end LedgerLens.Detection
