import LedgerLens.Detection.GovernanceEffects
import LedgerLens.Library.Runs

/-!
# What rollbacks bring back

A history of successful promotions and rollbacks, with the files that each version had when
it went live. A version's files are looked for in the archive that a later row names: the
archive of a promotion is a copy of what it replaced, that of a rollback is the one it
restored. Copying an archive back deletes nothing.
-/

namespace LedgerLens.Detection

open Raising

/-- One of the two operations with its arguments. -/
inductive Operation where
  /-- A promotion, of a candidate with these files. -/
  | promote (candidate : Files) (call : PromoteCall)
  /-- A rollback. -/
  | rollback (call : RollbackCall)

/-- A call. -/
structure GovernanceEvent where
  /-- The time since the last call; every call takes some time itself. -/
  elapsed : ℕ
  /-- The faults in its way. -/
  faults : Faults
  /-- What is called. -/
  operation : Operation

/-- The candidate's files when an operation is called. -/
def Operation.candidate : Operation → Files → Files
  | promote candidate _, _ => candidate
  | rollback _, files => files

/-- The program of a call. -/
def GovernanceEvent.program (env : GovernanceEnv) (event : GovernanceEvent) :
    Program (String × VersionRecord) :=
  match event.operation with
  | .promote _ call => promoteCandidate env event.faults call
  | .rollback call => rollbackProduction env event.faults call

/-- The version that a row restored, if a rollback made it. -/
def TrainingMetadata.restoredFrom : TrainingMetadata → Option String
  | rollback _ restoredFrom _ _ _ => some restoredFrom
  | _ => none

/-- A state with its past. -/
structure History where
  /-- The state. -/
  state : GovernanceState
  /-- The files that were in production with a version. -/
  live : String → Files
  /-- The version that the last call restored, if that was a rollback. -/
  restored : Option String

/-- Before the first call nothing was promoted; the directories are as they are. -/
def History.initial (candidate files : Files) (transparencyLog : TransparencyLog) (now : ℕ) :
    History where
  state :=
    { candidate := candidate, files := files, archives := fun _ => none, versions := .empty,
      auditLog := [], transparencyLog := transparencyLog, now := now }
  live _ _ := none
  restored := none

/-- The state in which a call begins. -/
def GovernanceState.before (s : GovernanceState) (event : GovernanceEvent) : GovernanceState :=
  { s with
    candidate := event.operation.candidate s.candidate
    now := s.now + event.elapsed + 1 }

/-- A call. One that raises is no part of the history. -/
def perform (env : GovernanceEnv) (history : History) (event : GovernanceEvent) : History :=
  match exec (event.program env) (history.state.before event) with
  | (.ok version, s) =>
    { state := s
      live := Function.update history.live version.1 s.files
      restored := version.2.trainingMetadata.restoredFrom }
  | (.error _, _) => history

/-- After a rollback the files in production are those of its target. -/
def Restored (history : History) : Prop :=
  ∀ target, history.restored = some target → history.state.files = history.live target

/-- Copying the archive of a row over what is in production brings back the files of the
version that this row replaced. A promotion archived just these files, so that nothing else
may be in production now. A rollback names the archive that it restored: it must hold no
file otherwise than that version did, and all other files must be as they were. -/
def History.Recoverable (history : History) (target : String) (source : VersionRecord)
    (archive : Files) : Prop :=
  match source.trainingMetadata with
  | .promotion _ _ _ => ∀ file, history.live target file = none → history.state.files file = none
  | _ => (∀ file, archive file ≠ none → history.live target file = archive file) ∧
      ∀ file, archive file = none → history.state.files file = history.live target file

/-- If a call is a rollback that succeeds, the version can be recovered from the archive of
the row found for it. -/
def Restorable (env : GovernanceEnv) (history : History) (event : GovernanceEvent) : Prop :=
  match event.operation with
  | .promote _ _ => True
  | .rollback call =>
    Returns (rollbackProduction env event.faults call) (history.state.before event) →
      ∀ target source archivePath archive,
        rollbackTarget history.state call.targetVersion = some (target, source) →
        history.state.archiveOf source = some (archivePath, archive) →
        history.Recoverable target.1 source.2 archive

/-- What holds throughout a history. -/
structure Sound (history : History) : Prop where
  /-- At most one version is in production. -/
  single : history.state.production = history.state.current.toList
  /-- Its files are those in production. -/
  current : ∀ row, history.state.current = some row →
    history.live row.1 = history.state.files
  /-- Every parent has a row. -/
  parent : ∀ row ∈ history.state.versions.rows, ∀ id, row.2.parentVersionId = some id →
    history.state.versions.find? id ≠ none
  /-- The archive of a promotion holds the files of the version that it replaced. -/
  archived : ∀ row ∈ history.state.versions.rows, ∀ reason archivePath shas,
    row.2.trainingMetadata = .promotion reason archivePath shas →
    ∀ id, row.2.parentVersionId = some id →
      history.state.archives archivePath = some (history.live id)
  /-- The archives are of the past. -/
  past : ∀ time, history.state.now < time → history.state.archives time = none
  /-- No archive has a file that would go into the subdirectory of the archives. -/
  publishable : ∀ time archive, history.state.archives time = some archive →
    archive "archive" = none
  /-- Once there is a version there is a lock file. -/
  lockFile : history.state.versions.rows ≠ [] → history.state.files ".promotion.lock" ≠ none

section

variable {s s' : GovernanceState} {source : Files} {version row : String × VersionRecord}
  {f : VersionRecord → VersionRecord}

/-- A row after the retirement of the current one stands for a row before it. -/
theorem mem_retireCurrent (hf : Retires f) (h : row ∈ (s.retireCurrent f).rows) :
    ∃ old ∈ s.versions.rows, row.1 = old.1 ∧
      row.2.parentVersionId = old.2.parentVersionId ∧
      row.2.trainingMetadata = old.2.trainingMetadata := by
  unfold GovernanceState.retireCurrent at h
  cases hcurrent : s.current with
  | none =>
    rw [hcurrent] at h
    exact ⟨row, h, rfl, rfl, rfl⟩
  | some current =>
    rw [hcurrent] at h
    obtain ⟨old, hold, rfl⟩ := List.mem_map.mp h
    refine ⟨old, hold, ?_⟩
    by_cases hkey : old.1 = current.1
    · rw [if_pos hkey]
      exact ⟨rfl, hf.parent old.2, hf.metadata old.2⟩
    · rw [if_neg hkey]
      exact ⟨rfl, rfl, rfl⟩

/-- If at most one version was in production, none is after its retirement. -/
theorem production_retireCurrent (hf : Retires f) (hsingle : s.production = s.current.toList)
    (h : row ∈ (s.retireCurrent f).rows) : row.2.status ≠ .production := by
  have hold (hmem : row ∈ s.versions.rows) (hstatus : row.2.status = .production) :
      s.current = some row := by
    have hproduction : row ∈ s.production := List.mem_filter.mpr ⟨hmem, by simpa using hstatus⟩
    rw [hsingle] at hproduction
    exact Option.mem_toList.mp hproduction
  unfold GovernanceState.retireCurrent at h
  intro hstatus
  cases hcurrent : s.current with
  | none =>
    simp only [hcurrent] at h
    have hsome := hold h hstatus
    rw [hcurrent] at hsome
    cases hsome
  | some current =>
    simp only [hcurrent] at h
    obtain ⟨old, hmem, heq⟩ := List.mem_map.mp h
    by_cases hkey : old.1 = current.1
    · rw [if_pos hkey] at heq
      rw [← heq] at hstatus
      exact hf.status old.2 hstatus
    · rw [if_neg hkey] at heq
      subst heq
      have hsome := hold hmem hstatus
      rw [hcurrent] at hsome
      exact hkey (congrArg Prod.fst (Option.some.inj hsome)).symm

/-- A row after a call is the new one, or stands for one before the call. -/
theorem NewVersion.mem_rows (h : NewVersion s source version s')
    (hmem : row ∈ s'.versions.rows) :
    row = version ∨ ∃ old ∈ s.versions.rows, row.1 = old.1 ∧
      row.2.parentVersionId = old.2.parentVersionId ∧
      row.2.trainingMetadata = old.2.trainingMetadata := by
  obtain ⟨f, hf, hinsert⟩ := h.versions
  rw [UniqueTable.rows_of_insert? hinsert, List.mem_append, List.mem_singleton] at hmem
  rcases hmem with hmem | rfl
  · exact Or.inr (mem_retireCurrent hf hmem)
  · exact Or.inl rfl

/-- The ids after a call. -/
theorem NewVersion.find?_eq_none_iff (h : NewVersion s source version s') {id : String} :
    s'.versions.find? id = none ↔ id ≠ version.1 ∧ s.versions.find? id = none := by
  obtain ⟨f, -, hinsert⟩ := h.versions
  rw [UniqueTable.find?_of_insert? hinsert, ← find?_retireCurrent_eq_none_iff f]
  by_cases hid : id = version.1
  · simp [hid]
  · simp [hid]

/-- The new version is the only one in production. -/
theorem NewVersion.production (h : NewVersion s source version s')
    (hsingle : s.production = s.current.toList) : s'.production = [version] := by
  obtain ⟨f, hf, hinsert⟩ := h.versions
  unfold GovernanceState.production
  rw [UniqueTable.rows_of_insert? hinsert, List.filter_append]
  have hretired : (s.retireCurrent f).rows.filter (fun row => row.2.status = .production) = [] := by
    rw [List.filter_eq_nil_iff]
    intro row hrow
    simpa using production_retireCurrent hf hsingle hrow
  rw [hretired]
  simp [h.status]

/-- The archive of a call holds what was in production, if no other has its name. -/
theorem NewVersion.archives_eq (h : NewVersion s source version s')
    (hfresh : s.archives s.now = none) :
    s'.archives = Function.update s.archives s.now (some s.lock.files) := by
  have harchive : s.lock.files.copyOver ((s.archives s.now).getD fun _ => none) =
      s.lock.files := by
    funext file
    simp [Files.copyOver, hfresh]
  rw [h.archives]
  exact congrArg (fun archive => Function.update s.archives s.now (some archive)) harchive

end

section

variable {history : History} {event : GovernanceEvent} {source : Files}
  {version : String × VersionRecord} {s' : GovernanceState}

/-- The first history is sound. -/
theorem sound_initial (candidate files : Files) (transparencyLog : TransparencyLog) (now : ℕ) :
    Sound (History.initial candidate files transparencyLog now) where
  single := rfl
  current row h := by cases h
  parent row h := by cases h
  archived row h := by cases h
  past _ _ := rfl
  publishable time archive h := by cases h
  lockFile h := absurd rfl h

/-- The files that were live with a version do not change when another goes live. -/
theorem NewVersion.live_of_known
    (hnew : NewVersion (history.state.before event) source version s') {id : String}
    (hid : history.state.versions.find? id ≠ none) :
    Function.update history.live version.1 s'.files id = history.live id := by
  apply Function.update_of_ne
  rintro rfl
  exact hid hnew.free

/-- The time passes from call to call. -/
theorem now_lt_before (history : History) (event : GovernanceEvent) :
    history.state.now < (history.state.before event).now := by
  simp only [GovernanceState.before]
  omega

/-- The parents of the rows after a call had rows before it. -/
theorem Sound.parent_known (h : Sound history)
    (hnew : NewVersion (history.state.before event) source version s')
    {row : String × VersionRecord} (hrow : row ∈ s'.versions.rows) {id : String}
    (hid : row.2.parentVersionId = some id) : history.state.versions.find? id ≠ none := by
  rcases hnew.mem_rows hrow with rfl | ⟨old, hold, -, hsame, -⟩
  · rw [hnew.parent] at hid
    obtain ⟨current, hcurrent, rfl⟩ := Option.map_eq_some_iff.mp hid
    have hrecord := (UniqueTable.find?_eq_some_iff _ _ _).mpr (current_mem hcurrent)
    change history.state.versions.find? current.1 = some current.2 at hrecord
    simp [hrecord]
  · exact h.parent old hold id (hsame ▸ hid)

/-- The archives of promotions hold the files of the versions that they replaced, also after a
call that returns, if a promotion names its own archive. -/
theorem Sound.archived_newVersion (h : Sound history)
    (hnew : NewVersion (history.state.before event) source version s')
    (hmetadata : ∀ reason archivePath shas,
      version.2.trainingMetadata = .promotion reason archivePath shas →
      archivePath = (history.state.before event).now)
    {row : String × VersionRecord} (hrow : row ∈ s'.versions.rows) {reason : String}
    {archivePath : ℕ} {shas : UniqueTable String String}
    (hmeta : row.2.trainingMetadata = .promotion reason archivePath shas) {id : String}
    (hid : row.2.parentVersionId = some id) :
    s'.archives archivePath = some (history.live id) := by
  have hpast := h.past _ (now_lt_before history event)
  rw [hnew.archives_eq hpast]
  rcases hnew.mem_rows hrow with rfl | ⟨old, hold, -, hsame, hsameMeta⟩
  · -- the new row: what was in production is what was live with the current version
    rw [hmetadata _ _ _ hmeta, Function.update_self]
    rw [hnew.parent] at hid
    obtain ⟨current, hcur, rfl⟩ := Option.map_eq_some_iff.mp hid
    rw [h.current current hcur]
    exact congrArg some (lock_eq_self (h.lockFile (List.ne_nil_of_mem (current_mem hcur))))
  · -- an old row: its archive is of the past
    have hold' := h.archived old hold reason archivePath shas (hsameMeta ▸ hmeta) id (hsame ▸ hid)
    rw [Function.update_of_ne]
    · exact hold'
    · rintro rfl
      rw [hpast] at hold'
      cases hold'

/-- A call that returns keeps a history sound, if a promotion names its own archive. -/
theorem Sound.newVersion (h : Sound history)
    (hnew : NewVersion (history.state.before event) source version s')
    (hmetadata : ∀ reason archivePath shas,
      version.2.trainingMetadata = .promotion reason archivePath shas →
      archivePath = (history.state.before event).now) (restored : Option String) :
    Sound ⟨s', Function.update history.live version.1 s'.files, restored⟩ := by
  have hlater := now_lt_before history event
  have harchives := hnew.archives_eq (h.past _ hlater)
  have hproduction : s'.production = [version] := hnew.production h.single
  have hcurrent : s'.current = some version := by
    unfold GovernanceState.current
    rw [hproduction]
    rfl
  constructor
  case single => simp [hproduction, hcurrent]
  case current =>
    intro row hrow
    obtain rfl := Option.some.inj (hcurrent.symm.trans hrow)
    exact Function.update_self _ _ _
  case parent =>
    intro row hrow id hid hnone
    exact h.parent_known hnew hrow hid (hnew.find?_eq_none_iff.mp hnone).2
  case archived =>
    intro row hrow reason archivePath shas hmeta id hid
    change s'.archives archivePath = some (Function.update history.live version.1 s'.files id)
    rw [hnew.live_of_known (h.parent_known hnew hrow hid)]
    exact h.archived_newVersion hnew hmetadata hrow hmeta hid
  case past =>
    intro time htime
    change s'.now < time at htime
    rw [hnew.now] at htime
    simp only [harchives]
    rw [Function.update_of_ne (Nat.ne_of_gt htime)]
    exact h.past time (hlater.trans htime)
  case publishable =>
    intro time archive harchive
    simp only [harchives] at harchive
    by_cases htime : time = (history.state.before event).now
    · rw [htime, Function.update_self] at harchive
      rw [← Option.some.inj harchive, lock_files_archive]
      exact hnew.noArchiveFile
    · rw [Function.update_of_ne htime] at harchive
      exact h.publishable time archive harchive
  case lockFile =>
    intro _
    change s'.files ".promotion.lock" ≠ none
    rw [hnew.files _ (by decide)]
    simp [GovernanceState.publish, Files.copyOver, GovernanceState.lock, Files.write]

/-- Copying an archive back restores the files of the version that its row replaced exactly
when that version is recoverable. -/
theorem Sound.publish_eq_live_iff (h : Sound history) {source : String × VersionRecord}
    {target : String} {archivePath : ℕ} {archive : Files}
    (hmem : source ∈ history.state.versions.rows)
    (hparent : source.2.parentVersionId = some target)
    (harchive : history.state.archiveOf source = some (archivePath, archive)) :
    ((history.state.before event).lock.publish archive).files = history.live target ↔
      history.Recoverable target source.2 archive := by
  obtain ⟨path, hpath, files, hfiles, heq⟩ :
      ∃ path, source.2.trainingMetadata.archivePath = some path ∧
        ∃ files, history.state.archives path = some files ∧
          (path, files) = (archivePath, archive) := by
    simpa [GovernanceState.archiveOf, Option.bind_eq_some_iff] using harchive
  obtain ⟨rfl, rfl⟩ := Prod.mk.inj heq
  have hpublish (file : String) : ((history.state.before event).lock.publish files).files file =
      (files file).or (history.state.files file) := by
    have hlock : (history.state.before event).lock.files = history.state.files :=
      lock_eq_self (h.lockFile (List.ne_nil_of_mem hmem))
    have hpublishable : files.publishable = files := by
      funext name
      by_cases hname : name = "archive"
      · simp [Files.publishable, hname, h.publishable path files hfiles]
      · simp [Files.publishable, hname]
    simp only [GovernanceState.publish, Files.copyOver, hpublishable, hlock]
  rw [funext_iff]
  simp only [hpublish]
  unfold History.Recoverable
  cases hmeta : source.2.trainingMetadata with
  | other =>
    rw [hmeta] at hpath
    cases hpath
  | promotion reason time shas =>
    -- the archive holds exactly what was live with the version
    rw [hmeta] at hpath
    obtain rfl := Option.some.inj hpath
    have hlive := h.archived source hmem reason time shas hmeta target hparent
    obtain rfl := Option.some.inj (hfiles.symm.trans hlive)
    apply forall_congr'
    intro file
    cases history.live target file with
    | none => simp
    | some content => simp
  | rollback rollbackOf restoredFrom reason preRollbackArchive path' =>
    rw [← forall_and]
    apply forall_congr'
    intro file
    cases files file with
    | none => simp
    | some content => simp [eq_comm]

variable {env : GovernanceEnv}

/-- What a call that returns has done. -/
theorem exec_program_ok
    (hexec : exec (event.program env) (history.state.before event) = (.ok version, s')) :
    ∃ source, NewVersion (history.state.before event) source version s' ∧
      ∀ reason archivePath shas, version.2.trainingMetadata = .promotion reason archivePath shas →
        archivePath = (history.state.before event).now := by
  unfold GovernanceEvent.program at hexec
  cases hoperation : event.operation with
  | promote candidate call =>
    simp only [hoperation] at hexec
    obtain ⟨source, shas, hnew, hmetadata⟩ := promoteCandidate_ok hexec
    refine ⟨source, hnew, ?_⟩
    intro reason archivePath shas' hmeta
    rw [hmetadata] at hmeta
    cases hmeta
    rfl
  | rollback call =>
    simp only [hoperation] at hexec
    obtain ⟨target, row, archive, hrolled⟩ := rollbackProduction_ok hexec
    refine ⟨archive, hrolled.toNewVersion, ?_⟩
    intro reason archivePath shas hmeta
    obtain ⟨path, rollbackOf, reason', safetyArchive, -, hmetadata⟩ := hrolled.metadata
    rw [hmetadata] at hmeta
    cases hmeta

/-- Every call keeps a history sound. -/
theorem Sound.perform (h : Sound history) : Sound (perform env history event) := by
  unfold LedgerLens.Detection.perform
  cases hexec : exec (event.program env) (history.state.before event) with
  | mk result s' =>
    cases result with
    | error e => exact h
    | ok version =>
      obtain ⟨source, hnew, hmetadata⟩ := exec_program_ok hexec
      exact h.newVersion hnew hmetadata _

/-- A call leaves a history in which the last rollback restored its target exactly when that
target could be recovered. -/
theorem Sound.restored_perform_iff (h : Sound history) (hrestored : Restored history) :
    Restored (LedgerLens.Detection.perform env history event) ↔ Restorable env history event := by
  unfold LedgerLens.Detection.perform Restorable
  cases hoperation : event.operation with
  | promote candidate call =>
    simp only [iff_true]
    cases hexec : exec (event.program env) (history.state.before event) with
    | mk result s' =>
      cases result with
      | error e => exact hrestored
      | ok version =>
        unfold GovernanceEvent.program at hexec
        simp only [hoperation] at hexec
        obtain ⟨source, shas, -, hmetadata⟩ := promoteCandidate_ok hexec
        intro target htarget
        simp only [hmetadata, TrainingMetadata.restoredFrom] at htarget
        cases htarget
  | rollback call =>
    have hprogram : event.program env = rollbackProduction env event.faults call := by
      simp only [GovernanceEvent.program, hoperation]
    simp only [hprogram]
    cases hexec : exec (rollbackProduction env event.faults call)
        (history.state.before event) with
    | mk result s' =>
      cases result with
      | error e =>
        have hnot : ¬Returns (rollbackProduction env event.faults call)
            (history.state.before event) := by
          rintro ⟨a, s₁, h⟩
          rw [hexec] at h
          cases h
        simp only [hnot, false_implies, iff_true]
        exact hrestored
      | ok version =>
        obtain ⟨target, source, archive, hrolled⟩ := rollbackProduction_ok hexec
        obtain ⟨archivePath, rollbackOf, reason, safetyArchive, harchive, hmetadata⟩ :=
          hrolled.metadata
        have hresolved : rollbackTarget history.state call.targetVersion = some (target, source) :=
          hrolled.resolved
        obtain ⟨hmem, hparent, hrecord⟩ := rollbackTarget_spec hresolved
        have hknown : history.state.versions.find? target.1 ≠ none := by simp [hrecord]
        have hlive := hrolled.toNewVersion.live_of_known hknown
        have hafter : Restored ⟨s', Function.update history.live version.1 s'.files,
            version.2.trainingMetadata.restoredFrom⟩ ↔ s'.files = history.live target.1 := by
          unfold Restored
          simp only [hmetadata, TrainingMetadata.restoredFrom, Option.some.injEq, forall_eq', hlive]
        refine hafter.trans ?_
        rw [hrolled.allFiles, h.publish_eq_live_iff hmem hparent harchive]
        constructor
        · intro hrecoverable _ target' source' archivePath' archive' htarget' harchive'
          rw [hresolved] at htarget'
          obtain ⟨rfl, rfl⟩ := Prod.mk.inj (Option.some.inj htarget')
          rw [show history.state.archiveOf source = some (archivePath, archive) from harchive]
            at harchive'
          obtain ⟨rfl, rfl⟩ := Prod.mk.inj (Option.some.inj harchive')
          exact hrecoverable
        · exact fun hall => hall ⟨version, s', hexec⟩ _ _ _ _ hresolved harchive

end

/-- In a history every rollback restores the files of its target exactly when every target
can be recovered from the archive that is found for it. -/
theorem always_restored_iff (env : GovernanceEnv) (candidate files : Files)
    (transparencyLog : TransparencyLog) (now : ℕ) (events : List GovernanceEvent) :
    Transition.Always (perform env) Restored
        (.initial candidate files transparencyLog now) events ↔
      Transition.Meets (perform env) (Restorable env)
        (.initial candidate files transparencyLog now) events := by
  apply Transition.always_iff_meets fun history => Sound history ∧ Restored history
  · exact fun history h => h.2
  · exact fun history event h hcond => ⟨h.1.perform, (h.1.restored_perform_iff h.2).mpr hcond⟩
  · exact fun history event h hcond hrestored =>
      hcond ((h.1.restored_perform_iff h.2).mp hrestored)
  · refine ⟨sound_initial candidate files transparencyLog now, ?_⟩
    intro target htarget
    cases htarget

/-- The manifest after the first promotion of the model `rf`. -/
def promotedManifest : Manifest :=
  let record : ArtifactRecord :=
    { name := "rf", version := "r1", artifactPath := "models/rf.joblib",
      sha256 := Sha256.hexdigest [2], stage := .promoted, createdAt := 1, metrics := .empty,
      tags := .empty, parentVersion := none,
      history := [⟨.staged, 1, none⟩, ⟨.validated, 1, none⟩, ⟨.promoted, 1, none⟩] }
  .put .empty "rf" (.put .empty "r1" record)

/-- A manifest, told apart by the stages of its records. -/
def dumpStages (manifest : Manifest) : Bytes :=
  manifest.rows.flatMap fun model => model.2.rows.map fun row =>
    match row.2.stage with
    | .staged => 0
    | .validated => 1
    | .promoted => 2
    | .deprecated => 3
    | .rolledBack => 4

/-- The configuration of the small model, with a codec of its manifests. -/
def manifestEnv : GovernanceEnv :=
  { smallEnv with
    dumpManifest := dumpStages
    loadManifest := fun content => if content = [2] then some promotedManifest else none }

/-- A candidate with the artifact, empty metrics and a calibration. -/
def calibratedCandidate (calibration : Bytes) : Files := fun file =>
  if file = "calibration.json" then some calibration else beforePromotion.candidate file

/-- A call by `alice` to return to the version before. -/
def rollbackOnce (versionId : String) : RollbackCall where
  actor := "alice"
  credential := firstPromotion.credential
  reason := "regression"
  publicKey := some ModelDir.signingKey
  versionId := versionId

/-- Two promotions and two rollbacks without any fault. -/
def twoRollbacks : List GovernanceEvent :=
  let noFaults : Faults := ⟨fun _ => false, fun _ => false⟩
  [⟨0, noFaults, .promote (calibratedCandidate [1]) firstPromotion⟩,
    ⟨0, noFaults, .promote (calibratedCandidate [7])
      { firstPromotion with
        quarantineId := "q2", versionId := "v2", registryVersion := fun _ => "r2" }⟩,
    ⟨0, noFaults, .rollback (rollbackOnce "v3")⟩,
    ⟨0, noFaults, .rollback (rollbackOnce "v4")⟩]

/-- The second of two rollbacks names the second version as its target and brings back the
files of the first. -/
theorem second_rollback_not_restored :
    ¬Transition.Always (perform manifestEnv) Restored
      (.initial (fun _ => none) (fun _ => none) {} 0) twoRollbacks := by
  intro halways
  have hlast := halways.last
  have hrun : (Transition.exec (perform manifestEnv)
        (.initial (fun _ => none) (fun _ => none) {} 0) twoRollbacks).restored = some "v2" ∧
      (Transition.exec (perform manifestEnv)
        (.initial (fun _ => none) (fun _ => none) {} 0) twoRollbacks).state.files
          "calibration.json" = some [1] ∧
      (Transition.exec (perform manifestEnv)
        (.initial (fun _ => none) (fun _ => none) {} 0) twoRollbacks).live "v2"
          "calibration.json" = some [7] := by
    decide +kernel
  have hfiles := congrFun (hlast "v2" hrun.1) "calibration.json"
  rw [hrun.2.1, hrun.2.2] at hfiles
  simp at hfiles

end LedgerLens.Detection
