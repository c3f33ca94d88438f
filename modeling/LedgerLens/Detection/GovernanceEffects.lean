import LedgerLens.Detection.PromotionAudit
import LedgerLens.Detection.Rollback

/-!
# What a call that returns has done

A promotion and a rollback that return have the same kind of effect: the files that were in
production are in a new archive, some directory was copied over them, the version that was
in production is retired, and a new row is in production that names it as its parent. They
differ in the archive that the new row names.
-/

namespace LedgerLens.Detection

open Raising

/-- A change to a row that takes it out of production and leaves its origin alone. -/
structure Retires (f : VersionRecord → VersionRecord) : Prop where
  /-- It is not in production afterwards. -/
  status : ∀ record, (f record).status ≠ .production
  /-- Its parent. -/
  parent : ∀ record, (f record).parentVersionId = record.parentVersionId
  /-- Its metadata. -/
  metadata : ∀ record, (f record).trainingMetadata = record.trainingMetadata

/-- What a call that returns has done to production. -/
structure NewVersion (s : GovernanceState) (source : Files) (version : String × VersionRecord)
    (s' : GovernanceState) : Prop where
  /-- No file stood in the way of the archive. -/
  noArchiveFile : s.files "archive" = none
  /-- The id was free. -/
  free : s.versions.find? version.1 = none
  /-- The new row is in production. -/
  status : version.2.status = .production
  /-- Its parent is the row that was. -/
  parent : version.2.parentVersionId = s.current.map (·.1)
  /-- That one is retired, and the new row is there. -/
  versions : ∃ f, Retires f ∧ (s.retireCurrent f).insert? version.1 version.2 = some s'.versions
  /-- The files that were in production are in the archive. -/
  archives : s'.archives = (s.lock.addToArchive s.lock.files).archives
  /-- The clock stands still during a call. -/
  now : s'.now = s.now
  /-- The other files, apart from the manifest, are over them. -/
  files : ∀ file, file ≠ manifestFile → s'.files file = (s.lock.publish source).files file

section

variable {env : GovernanceEnv} {faults : Faults} {s s' : GovernanceState}

section

variable {call : PromoteCall} {modelNames : List String} {u : Unit}

/-- The first gate lets exactly the authorized calls pass, and changes nothing then. -/
theorem exec_authorizationGate_eq_ok_iff :
    exec (authorizationGate env faults call modelNames) s = (.ok u, s') ↔
      Authorized env call ∧ s' = s := by
  unfold authorizationGate Authorized
  cases authorizeActor env.promotionSecret env.authorizedActors call.actor call.credential with
  | ok _ => simp [eq_comm]
  | error e =>
    cases e with
    | nonAsciiCredential => simp
    | unauthorized reason => simpa using exec_bind_throw_ne_ok

/-- The second gate lets exactly the cleared candidates pass, and changes nothing then. -/
theorem exec_quarantineGate_eq_ok_iff :
    exec (quarantineGate faults call modelNames) s = (.ok u, s') ↔
      Cleared faults call s ∧ s' = s := by
  have hrefuse (s₁ : GovernanceState) :
      exec (refuseQuarantined faults call modelNames) s₁ = (.ok u, s') ↔
        faults.fails .findQuarantine = false ∧
          existingQuarantineReason s₁.versions call.candidateDir = none ∧ s' = s₁ := by
    unfold refuseQuarantined
    rw [exec_attempt_bind_eq_ok_iff, exec_bind_of_ok (exec_get s₁)]
    cases hfound : existingQuarantineReason s₁.versions call.candidateDir with
    | some reason => simpa using fun _ => exec_bind_throw_ne_ok
    | none => simp [@eq_comm _ s₁]
  unfold quarantineGate Cleared followAdvice
  cases hcall : call.quarantineAdvice with
  | none =>
    rw [exec_bind_of_ok (exec_pure _ s), hrefuse]
    tauto
  | some reason =>
    simp only [reduceCtorEq, false_and, and_false, iff_false]
    intro h
    obtain ⟨⟨⟩, s₁, hadvice, h⟩ := exec_bind_eq_ok_iff.mp h
    obtain ⟨-, hfound, -⟩ := (hrefuse s₁).mp h
    unfold quarantineCandidate at hadvice
    rw [exec_attempt_bind_eq_ok_iff, exec_bind_of_ok (exec_get s)] at hadvice
    cases hinsert : s.versions.insert? call.quarantineId
        (quarantineRecord call.candidateDir reason s.now) with
    | none =>
      simp only [hinsert] at hadvice
      cases hadvice.2
    | some versions =>
      simp only [hinsert] at hadvice
      obtain rfl := (Prod.mk.inj hadvice.2).2
      have hsome := existingQuarantineReason_insert hinsert
      rw [hfound] at hsome
      cases hsome

/-- The third gate lets exactly the approved candidates pass, and changes nothing then. -/
theorem exec_regressionGate_eq_ok_iff :
    exec (regressionGate env faults call modelNames) s = (.ok u, s') ↔
      (evaluateRegressionGate call.oldMetrics call.newMetrics modelNames
        env.tolerance).approved = true ∧ s' = s := by
  unfold regressionGate
  dsimp only
  cases hdecision : (evaluateRegressionGate call.oldMetrics call.newMetrics modelNames
      env.tolerance).approved with
  | true => simp [eq_comm]
  | false => simpa using exec_bind_throw_ne_ok

/-- The fourth gate signs the candidate and publishes its hashes. -/
theorem trustGate_ok {shas : UniqueTable String String}
    (h : exec (trustGate env faults call modelNames) s = (.ok shas, s')) :
    ∃ files log, s' = { s with candidate := files, transparencyLog := log } := by
  unfold trustGate at h
  rw [exec_attempt_bind_eq_ok_iff, exec_tryCatch_eq_ok_iff] at h
  · exact (keeps_signAndVerifyCandidate
      (P := fun x => ∃ files log, x = { s with candidate := files, transparencyLog := log })
      (by rintro _ files log ⟨-, -, rfl⟩; exact ⟨files, log, rfl⟩)).of_ok
      ⟨s.candidate, s.transparencyLog, rfl⟩ h.2
  · intro e s₁
    unfold denyUntrusted
    split
    · exact exists_error_of_not_returns fun ⟨_, _, hreturns⟩ => exec_bind_throw_ne_ok hreturns
    · exact ⟨_, _, rfl⟩

/-- The fifth gate changes nothing when it lets a call pass. -/
theorem compatibilityGate_ok
    (h : exec (compatibilityGate env faults call modelNames) s = (.ok u, s')) : s' = s := by
  unfold compatibilityGate at h
  rw [exec_bind_of_ok (exec_get s)] at h
  split at h
  · cases h
    rfl
  · exact absurd h exec_bind_throw_ne_ok

/-- A version that a promotion replaces is retired. -/
theorem retires_deprecated : Retires VersionRecord.deprecated :=
  ⟨fun record => by simp [VersionRecord.deprecated], fun _ => rfl, fun _ => rfl⟩

/-- The commit of a promotion. -/
theorem commitVersion_ok {shas : UniqueTable String String} {archivePath : ℕ}
    {version : String × VersionRecord}
    (h : exec (commitVersion env faults call shas archivePath) s = (.ok version, s')) :
    version = (call.versionId, promotedRecord env call shas archivePath s.current s.now) ∧
      ∃ versions, (s.retireCurrent VersionRecord.deprecated).insert? version.1 version.2 =
        some versions ∧ s' = { s with versions := versions } := by
  unfold commitVersion at h
  rw [exec_attempt_bind_eq_ok_iff, exec_bind_of_ok (exec_get s)] at h
  dsimp only at h
  cases hinsert : (s.retireCurrent VersionRecord.deprecated).insert? call.versionId
      (promotedRecord env call shas archivePath s.current s.now) with
  | none =>
    simp only [hinsert] at h
    cases h.2
  | some versions =>
    simp only [hinsert] at h
    rw [exec_bind_of_ok (exec_modify _ _)] at h
    obtain ⟨hversion, rfl⟩ := Prod.mk.inj h.2
    obtain rfl := Except.ok.inj hversion
    exact ⟨rfl, versions, hinsert, rfl⟩

/-- A critical section that returns has put a new version into production. -/
theorem criticalSection_ok {shas : UniqueTable String String} {archivePath : ℕ}
    {version : String × VersionRecord}
    (h : exec (criticalSection env faults call modelNames shas) s =
      (.ok (version, archivePath), s')) :
    NewVersion s s.candidate version s' ∧
      version.2.trainingMetadata = .promotion call.reason s.now shas := by
  unfold criticalSection at h
  rw [exec_openLock_bind_eq_ok_iff, exec_archiveProduction_bind_eq_ok_iff,
    exec_bind_of_ok (exec_get _), exec_publishFiles_bind_eq_ok_iff] at h
  obtain ⟨-, ⟨hblocked, -⟩, -, h⟩ := h
  let published := (s.lock.addToArchive s.lock.files).publish s.candidate
  obtain ⟨registry, s₁, hopen, h⟩ := exec_bind_eq_ok_iff.mp h
  obtain rfl : s₁ = published := (keeps_openRegistry (P := (· = published))).of_ok rfl hopen
  obtain ⟨registry', s₂, hloop, h⟩ := exec_bind_eq_ok_iff.mp h
  have hs₂ : Publishing published s₂ := (Keeps.foldlM (fun _ _ =>
    keeps_promoteArtifact fun _ registry h => h.saveManifest registry) _ _).of_ok (.refl _) hloop
  obtain ⟨version', s₃, hcommit, hpure⟩ := exec_bind_eq_ok_iff.mp h
  obtain ⟨rfl, versions, hinsert, rfl⟩ := commitVersion_ok hcommit
  obtain ⟨hresult, rfl⟩ := Prod.mk.inj hpure
  obtain ⟨rfl, rfl⟩ := Prod.mk.inj (Except.ok.inj hresult)
  obtain ⟨hcurrent, hretire⟩ := retireCurrent_congr (s := s) hs₂.versions VersionRecord.deprecated
  rw [hretire] at hinsert
  refine ⟨⟨?_, ?_, rfl, ?_, ⟨_, retires_deprecated, hinsert⟩, hs₂.archives, hs₂.now, ?_⟩, ?_⟩
  · rw [← lock_files_archive]
    exact hblocked
  · exact (find?_retireCurrent_eq_none_iff _).mp (UniqueTable.find?_eq_none_of_insert? hinsert)
  · exact congrArg (Option.map Prod.fst) hcurrent
  · exact fun file hfile => hs₂.files file hfile
  · rfl

/-- The audit row changes nothing else. -/
theorem recordAudit_ok {row : AuditRow} {u : Unit}
    (h : exec (recordAudit faults row) s = (.ok u, s')) :
    s' = { s with auditLog := s.auditLog ++ [row] } := by
  unfold recordAudit at h
  rw [exec_attempt_bind_eq_ok_iff, exec_modify] at h
  exact (Prod.mk.inj h.2).2.symm

/-- What a promotion that returns has done. -/
theorem promoteCandidate_ok {version : String × VersionRecord}
    (h : exec (promoteCandidate env faults call) s = (.ok version, s')) :
    ∃ source shas, NewVersion s source version s' ∧
      version.2.trainingMetadata = .promotion call.reason s.now shas := by
  unfold promoteCandidate at h
  rw [exec_bind_of_ok (exec_get s)] at h
  dsimp only at h
  split at h
  · cases h
  · obtain ⟨⟨⟩, s₁, hgate₁, h⟩ := exec_bind_eq_ok_iff.mp h
    obtain rfl := (exec_authorizationGate_eq_ok_iff.mp hgate₁).2
    obtain ⟨⟨⟩, s₂, hgate₂, h⟩ := exec_bind_eq_ok_iff.mp h
    obtain rfl := (exec_quarantineGate_eq_ok_iff.mp hgate₂).2
    obtain ⟨⟨⟩, s₃, hgate₃, h⟩ := exec_bind_eq_ok_iff.mp h
    obtain rfl := (exec_regressionGate_eq_ok_iff.mp hgate₃).2
    obtain ⟨shas, s₄, hgate₄, h⟩ := exec_bind_eq_ok_iff.mp h
    obtain ⟨files, log, rfl⟩ := trustGate_ok hgate₄
    obtain ⟨⟨⟩, s₅, hgate₅, h⟩ := exec_bind_eq_ok_iff.mp h
    obtain rfl := compatibilityGate_ok hgate₅
    obtain ⟨⟨version', archivePath⟩, s₆, hcritical, h⟩ := exec_bind_eq_ok_iff.mp h
    obtain ⟨⟨⟩, s₇, haudit, hpure⟩ := exec_bind_eq_ok_iff.mp h
    obtain rfl := recordAudit_ok haudit
    obtain ⟨hversion, rfl⟩ := Prod.mk.inj hpure
    obtain rfl := Except.ok.inj hversion
    obtain ⟨hnew, hmetadata⟩ := criticalSection_ok hcritical
    exact ⟨files, shas, ⟨hnew.noArchiveFile, hnew.free, hnew.status, hnew.parent, hnew.versions,
      hnew.archives, hnew.now, hnew.files⟩, hmetadata⟩

end

section

variable {call : RollbackCall}

/-- A version that a rollback replaces is retired. -/
theorem retires_markRolledBack (now : ℕ) : Retires (markRolledBack call now) :=
  ⟨fun record => by simp [markRolledBack], fun _ => rfl, fun _ => rfl⟩

/-- The authorization of a rollback changes nothing when it succeeds. -/
theorem authorizeRollback_ok {u : Unit}
    (h : exec (authorizeRollback env faults call) s = (.ok u, s')) : s' = s := by
  unfold authorizeRollback at h
  split at h
  · cases h
    rfl
  · cases h
  · exact absurd h exec_bind_throw_ne_ok

/-- The verification of an archive changes nothing when it succeeds. -/
theorem verifyArchive_ok {target : String} {archivePath : ℕ} {files : Files} {publicKey : Bytes}
    {modelNames : List String} {u : Unit}
    (h : exec (verifyArchive env faults call target archivePath files publicKey modelNames) s =
      (.ok u, s')) : s' = s := by
  unfold verifyArchive at h
  refine foldlM_invariant (fun _ _ x => x = s) ?_ [] rfl h
  rintro done ⟨⟩ x model ⟨⟩ x' rfl hround
  rw [exec_attempt_bind_eq_ok_iff, exec_bind_of_ok (exec_get x)] at hround
  obtain ⟨-, hround⟩ := hround
  split at hround
  · cases hround
    rfl
  · exact absurd hround exec_bind_throw_ne_ok

/-- The commit of a rollback. -/
theorem commitRollback_ok {target version : String × VersionRecord} {safetyArchive archivePath : ℕ}
    (h : exec (commitRollback env faults call target safetyArchive archivePath) s =
      (.ok version, s')) :
    version = (call.versionId,
        restoredRecord env call target s.current safetyArchive archivePath s.now) ∧
      ∃ versions, (s.retireCurrent (markRolledBack call s.now)).insert? version.1 version.2 =
        some versions ∧ s' = { s with versions := versions } := by
  unfold commitRollback at h
  rw [exec_attempt_bind_eq_ok_iff, exec_bind_of_ok (exec_get s)] at h
  dsimp only at h
  cases hinsert : (s.retireCurrent (markRolledBack call s.now)).insert? call.versionId
      (restoredRecord env call target s.current safetyArchive archivePath s.now) with
  | none =>
    simp only [hinsert] at h
    cases h.2
  | some versions =>
    simp only [hinsert] at h
    rw [exec_bind_of_ok (exec_modify _ _)] at h
    obtain ⟨hversion, rfl⟩ := Prod.mk.inj h.2
    obtain rfl := Except.ok.inj hversion
    exact ⟨rfl, versions, hinsert, rfl⟩

/-- What a rollback that returns has done: it has copied the archive that the row of the
target's successor names. -/
structure RolledBack (s : GovernanceState) (targetVersion : Option String)
    (target source : String × VersionRecord) (archive : Files)
    (version : String × VersionRecord) (s' : GovernanceState) : Prop
    extends NewVersion s archive version s' where
  /-- The target and its successor. -/
  resolved : rollbackTarget s targetVersion = some (target, source)
  /-- The new row says so, and names the same archive. -/
  metadata : ∃ archivePath rollbackOf reason safetyArchive,
    s.archiveOf source = some (archivePath, archive) ∧ version.2.trainingMetadata =
      .rollback rollbackOf target.1 reason safetyArchive archivePath
  /-- The manifest is copied like the other files. -/
  allFiles : s'.files = (s.lock.publish archive).files

/-- What a rollback changes under the lock. -/
theorem restoreArchive_ok {version : String × VersionRecord} {modelNames : List String}
    {target : String}
    (h : exec (restoreArchive env faults call) s.lock = (.ok (version, modelNames, target), s')) :
    ∃ target source archive,
      RolledBack s call.targetVersion target source archive version s' := by
  have htarget : rollbackTarget s.lock call.targetVersion = rollbackTarget s call.targetVersion :=
    rfl
  unfold restoreArchive at h
  rw [exec_attempt_bind_eq_ok_iff, exec_bind_of_ok (exec_get _)] at h
  obtain ⟨-, h⟩ := h
  split at h
  · exact absurd h exec_bind_throw_ne_ok
  · next target source hresolved =>
    split at h
    · exact absurd h exec_bind_throw_ne_ok
    · next archivePath files harchive =>
      dsimp only at h
      rw [exec_attempt_bind_eq_ok_iff] at h
      obtain ⟨-, h⟩ := h
      split at h
      · cases h
      · next publicKey hkey =>
        obtain ⟨⟨⟩, s₁, hverify, h⟩ := exec_bind_eq_ok_iff.mp h
        obtain rfl := verifyArchive_ok hverify
        rw [exec_archiveProduction_bind_eq_ok_iff, exec_publishFiles_bind_eq_ok_iff] at h
        obtain ⟨⟨hblocked, -⟩, -, h⟩ := h
        obtain ⟨version', s₂, hcommit, hpure⟩ := exec_bind_eq_ok_iff.mp h
        obtain ⟨rfl, versions, hinsert, rfl⟩ := commitRollback_ok hcommit
        obtain ⟨hresult, rfl⟩ := Prod.mk.inj hpure
        obtain ⟨rfl, -⟩ := Prod.mk.inj (Except.ok.inj hresult)
        refine ⟨target, source, files, ⟨⟨?_, ?_, rfl, rfl, ⟨_, retires_markRolledBack _, hinsert⟩,
          rfl, rfl, fun _ _ => rfl⟩, hresolved, ⟨archivePath, _, _, _, harchive, rfl⟩, rfl⟩⟩
        · rw [← lock_files_archive]
          exact hblocked
        · exact (find?_retireCurrent_eq_none_iff _).mp
            (UniqueTable.find?_eq_none_of_insert? hinsert)

/-- What a rollback that returns has done. -/
theorem rollbackProduction_ok {version : String × VersionRecord}
    (h : exec (rollbackProduction env faults call) s = (.ok version, s')) :
    ∃ target source archive,
      RolledBack s call.targetVersion target source archive version s' := by
  unfold rollbackProduction at h
  obtain ⟨⟨⟩, s₁, hauthorize, hlocked⟩ := exec_bind_eq_ok_iff.mp h
  obtain rfl := authorizeRollback_ok hauthorize
  rw [exec_openLock_bind_eq_ok_iff] at hlocked
  obtain ⟨⟨version', modelNames, targetId⟩, s₂, hrestore, hlogged⟩ :=
    exec_bind_eq_ok_iff.mp hlocked.2
  obtain ⟨⟨⟩, s₃, haudit, hpure⟩ := exec_bind_eq_ok_iff.mp hlogged
  obtain rfl := recordAudit_ok haudit
  obtain ⟨hversion, rfl⟩ := Prod.mk.inj hpure
  obtain rfl := Except.ok.inj hversion
  obtain ⟨target, source, archive, hnew, hresolved, hmetadata, hfiles⟩ :=
    restoreArchive_ok hrestore
  exact ⟨target, source, archive, ⟨hnew.noArchiveFile, hnew.free, hnew.status, hnew.parent,
    hnew.versions, hnew.archives, hnew.now, hnew.files⟩, hresolved, hmetadata, hfiles⟩

end

end

end LedgerLens.Detection
