import LedgerLens.Detection.Promotion

/-!
# Rolling production back

`rollback_production` as a program over the same state as a promotion. What a version's
files were is not recorded with the version: they are looked for in the archive that the
row of a later version names.
-/

namespace LedgerLens.Detection

/-- The arguments of `rollback_production`, with the id that it generates. -/
structure RollbackCall where
  /-- `actor`. -/
  actor : String
  /-- `credential`. -/
  credential : String
  /-- `reason`. -/
  reason : String
  /-- `target_version`. -/
  targetVersion : Option String := none
  /-- `public_key` or the configured one; `none` if that cannot be loaded. -/
  publicKey : Option Bytes
  /-- The id of the new version. -/
  versionId : String

section

variable (env : GovernanceEnv) (faults : Faults) (call : RollbackCall)

/-- The last part of the path of the production directory. -/
def GovernanceEnv.baseName : String :=
  ((env.modelDir.toList.splitOn '/').filter (· ≠ [])).getLast?.elim "" String.ofList

/-- `_deny`. -/
def denyRollback (error : GovernanceError) : Program Unit :=
  recordAudit faults
    { actor := call.actor, action := "rollback", modelName := env.baseName,
      versionId := call.targetVersion, success := false, reason := .inr error, detail := none }

/-- Refuse the rollback. -/
def refuseRollback {α : Type} (error : GovernanceError) : Program α := do
  denyRollback env faults call error
  throw error

/-- The authorization of a rollback. -/
def authorizeRollback : Program Unit :=
  match authorizeActor env.promotionSecret env.authorizedActors call.actor call.credential with
  | .ok () => pure ()
  | .error .nonAsciiCredential => throw .nonAsciiCredential
  | .error (.unauthorized reason) => refuseRollback env faults call (.unauthorized reason)

/-- The row of a version. -/
def GovernanceState.version (s : GovernanceState) (id : String) :
    Option (String × VersionRecord) :=
  (s.versions.find? id).map (id, ·)

/-- The first version that replaced a version. -/
def GovernanceState.child (s : GovernanceState) (id : String) : Option (String × VersionRecord) :=
  earliest promotionTime (s.versions.rows.filter fun row => row.2.parentVersionId = some id)

/-- The version to return to, and the one whose row names its archive. -/
def rollbackTarget (s : GovernanceState) (targetVersion : Option String) :
    Option ((String × VersionRecord) × (String × VersionRecord)) :=
  match targetVersion.filter (· ≠ "") with
  | some id => do
    let target ← s.version id
    let source ← s.child id
    return (target, source)
  | none => do
    let current ← s.current
    let parent ← current.2.parentVersionId.filter (· ≠ "")
    let target ← s.version parent
    return (target, current)

/-- The row whose archive a rollback copies names the target as its parent. -/
theorem rollbackTarget_spec {s : GovernanceState} {targetVersion : Option String}
    {target source : String × VersionRecord}
    (h : rollbackTarget s targetVersion = some (target, source)) :
    source ∈ s.versions.rows ∧ source.2.parentVersionId = some target.1 ∧
      s.versions.find? target.1 = some target.2 := by
  have hfound {id : String} (hversion : s.version id = some target) :
      id = target.1 ∧ s.versions.find? target.1 = some target.2 := by
    obtain ⟨record, hrecord, rfl⟩ := Option.map_eq_some_iff.mp hversion
    exact ⟨rfl, hrecord⟩
  unfold rollbackTarget at h
  split at h
  · next id hid =>
    obtain ⟨target', htarget, source', hsource, heq⟩ :
        ∃ target', s.version id = some target' ∧ ∃ source', s.child id = some source' ∧
          (target', source') = (target, source) := by
      simpa [Option.bind_eq_some_iff] using h
    obtain ⟨rfl, rfl⟩ := Prod.mk.inj heq
    obtain ⟨rfl, hrecord⟩ := hfound htarget
    obtain ⟨hmem, hparent⟩ := List.mem_filter.mp (earliest_mem hsource)
    exact ⟨hmem, of_decide_eq_true hparent, hrecord⟩
  · obtain ⟨current, hcurrent, parent, ⟨hparent, -⟩, target', htarget, heq⟩ :
        ∃ current, s.current = some current ∧ ∃ parent,
          (current.2.parentVersionId = some parent ∧ parent ≠ "") ∧
          ∃ target', s.version parent = some target' ∧ (target', current) = (target, source) := by
      simpa [Option.bind_eq_some_iff, Option.filter_eq_some_iff] using h
    obtain ⟨rfl, rfl⟩ := Prod.mk.inj heq
    obtain ⟨rfl, hrecord⟩ := hfound htarget
    exact ⟨current_mem hcurrent, hparent, hrecord⟩

/-- The archive that a row names, if it is there. -/
def GovernanceState.archiveOf (s : GovernanceState) (row : String × VersionRecord) :
    Option (ℕ × Files) := do
  let archivePath ← row.2.trainingMetadata.archivePath
  let files ← s.archives archivePath
  return (archivePath, files)

/-- The verification of the models in the archive of a version. -/
def verifyArchive (target : String) (archivePath : ℕ) (files : Files) (publicKey : Bytes)
    (modelNames : List String) : Program Unit :=
  let dir : ModelDir := ⟨env.modelDir ++ "/archive/" ++ toString archivePath, files⟩
  modelNames.zipIdx.foldlM (fun _ model => do
    attempt faults (.verifyArtifact model.2)
    let s ← get
    match dir.verify env.tools s.transparencyLog model.1 publicKey with
    | .ok _ => pure ()
    | .error e => refuseRollback env faults call (.untrustedTarget target e)) ()

/-- The new row of `rollback_production`. -/
def restoredRecord (target : String × VersionRecord) (current : Option (String × VersionRecord))
    (safetyArchive archivePath now : ℕ) : VersionRecord where
  modelArtifactPath := env.modelDir
  artifactSignature := target.2.artifactSignature
  status := .production
  promotedAt := some now
  promotedBy := some call.actor
  parentVersionId := current.map (·.1)
  trainingMetadata :=
    .rollback (current.map (·.1)) target.1 call.reason safetyArchive archivePath

/-- What happens to the version that was in production. -/
def markRolledBack (now : ℕ) (record : VersionRecord) : VersionRecord :=
  { record with
    status := .rolledBack, rolledBackAt := some now, rolledBackBy := some call.actor,
    promotionBlockedReason := some call.reason }

/-- The commit of the restored version. -/
def commitRollback (target : String × VersionRecord) (safetyArchive archivePath : ℕ) :
    Program (String × VersionRecord) := do
  attempt faults .commitVersion
  let s ← get
  let record := restoredRecord env call target s.current safetyArchive archivePath s.now
  match (s.retireCurrent (markRolledBack call s.now)).insert? call.versionId record with
  | none => throw (.versionTaken call.versionId)
  | some versions => do
    modify fun s => { s with versions := versions }
    return (call.versionId, record)

/-- The part of `rollback_production` under the lock; returns the new version, the models
and the target. -/
def restoreArchive : Program ((String × VersionRecord) × List String × String) := do
  attempt faults .findVersions
  let s ← get
  match rollbackTarget s call.targetVersion with
  | none => refuseRollback env faults call .noTarget
  | some (target, source) =>
    match s.archiveOf source with
    | none =>
      refuseRollback env faults call (.noArchive target.1 source.2.trainingMetadata.archivePath)
    | some (archivePath, files) => do
      let modelNames := env.candidateModelNames files none
      attempt faults .openTransparencyLog
      match call.publicKey with
      | none => throw (.integrity .trustedKeyUnavailable)
      | some publicKey => do
        verifyArchive env faults call target.1 archivePath files publicKey modelNames
        let safetyArchive ← archiveProduction faults
        publishFiles faults files
        let version ← commitRollback env faults call target safetyArchive archivePath
        return (version, modelNames, target.1)

/-- `rollback_production`. -/
def rollbackProduction : Program (String × VersionRecord) := do
  authorizeRollback env faults call
  openLock faults
  let (version, modelNames, target) ← restoreArchive env faults call
  recordAudit faults
    { actor := call.actor, action := "rollback", modelName := ",".intercalate modelNames,
      versionId := some version.1, success := true, reason := .inl call.reason,
      detail := some (.restoredFrom target) }
  return version

end

end LedgerLens.Detection
