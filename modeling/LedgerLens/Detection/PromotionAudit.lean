import LedgerLens.Detection.CriticalSection

/-!
# What a promotion leaves behind

A promotion is accounted for if it leaves exactly one audit row that tells how it ended,
and if a promotion that raises leaves production as it was: the files, the promoted records
of the registry and the version in production. The gates that refuse a candidate do so, as
long as the exception is one that they catch; the critical section has no handler at all.
-/

namespace LedgerLens.Detection

open Raising

/-- The promoted records of a registry. -/
def ModelArtifactRegistry.promotedRecords (registry : ModelArtifactRegistry) :
    List ArtifactRecord :=
  (registry.data.rows.flatMap fun row => row.2.rows.map Prod.snd).filter (·.stage = .promoted)

/-- The promoted records that the manifest among some files holds. -/
def GovernanceEnv.promotedRecords (env : GovernanceEnv) (files : Files) :
    Option (List ArtifactRecord) :=
  (env.loadRegistry files).map (·.promotedRecords)

/-- Production looks the same in two states, from each side. -/
structure SameProduction (env : GovernanceEnv) (s s' : GovernanceState) : Prop where
  /-- The files. -/
  files : s'.files = s.files
  /-- The promoted records of the registry. -/
  promoted : env.promotedRecords s'.files = env.promotedRecords s.files
  /-- The version in production. -/
  production : s'.production = s.production

/-- A promotion from a state is accounted for by its outcome. -/
structure Accounted (env : GovernanceEnv) (s : GovernanceState) {α : Type}
    (outcome : Except GovernanceError α × GovernanceState) : Prop where
  /-- There is one new audit row, which tells whether the promotion was done. -/
  audited : ∃ row, outcome.2.auditLog = s.auditLog ++ [row] ∧ row.success = outcome.1.isOk
  /-- A promotion that raises leaves production alone. -/
  unchanged : ∀ e, outcome.1 = .error e → SameProduction env s outcome.2

section

variable {env : GovernanceEnv} {faults : Faults} {call : PromoteCall} {modelNames : List String}
  {α β : Type} {s s₀ s' : GovernanceState}

/-- What a promotion may do without anyone noticing: production and the audit log are as
they were. -/
structure Unnoticed (env : GovernanceEnv) (s s' : GovernanceState) : Prop extends
    SameProduction env s s' where
  /-- There is no new audit row. -/
  auditLog : s'.auditLog = s.auditLog

theorem Unnoticed.refl (env : GovernanceEnv) (s : GovernanceState) : Unnoticed env s s :=
  ⟨⟨rfl, rfl, rfl⟩, rfl⟩

theorem Unnoticed.trans {s'' : GovernanceState} (h : Unnoticed env s s')
    (h' : Unnoticed env s' s'') : Unnoticed env s s'' :=
  ⟨⟨h'.files.trans h.files, h'.promoted.trans h.promoted, h'.production.trans h.production⟩,
    h'.auditLog.trans h.auditLog⟩

/-- An exception without a new audit row is not accounted for. -/
theorem not_accounted_of_error {e : GovernanceError} (haudit : s'.auditLog = s.auditLog) :
    ¬Accounted env s ((.error e, s') : Except GovernanceError α × GovernanceState) := by
  intro h
  obtain ⟨row, hrow, -⟩ := h.audited
  have hlength := congrArg List.length (haudit.symm.trans hrow)
  simp at hlength

/-- A refusal after nothing was noticed is accounted for unless its audit row is lost. -/
theorem accounted_deny_iff (h : Unnoticed env s₀ s) {error : GovernanceError} {detail : String}
    (rest : β → Program α) :
    Accounted env s₀ (exec ((do
      deny faults call modelNames error detail
      throw error : Program β) >>= rest) s) ↔ faults.fails .insertAudit = false := by
  unfold deny recordAudit attempt
  cases hfail : faults.fails .insertAudit with
  | true =>
    simp only [exec_bind, if_true, exec_throw, Bool.true_eq_false, iff_false]
    exact not_accounted_of_error h.auditLog
  | false =>
    simp only [exec_bind, Bool.false_eq_true, if_false, exec_pure, exec_modify, exec_throw,
      iff_true]
    refine ⟨⟨_, congrArg (· ++ [_]) h.auditLog, rfl⟩, ?_⟩
    intro e _
    exact ⟨h.files, h.promoted, h.production⟩

/-- A part that returns and that nobody notices does not change what is accounted for. -/
theorem accounted_bind_of_ok {x : Program β} {b : β} (hexec : exec x s = (.ok b, s'))
    (h : Unnoticed env s s') (rest : β → Program α) :
    Accounted env s (exec (x >>= rest) s) ↔ Accounted env s' (exec (rest b) s') := by
  rw [exec_bind_of_ok hexec]
  constructor
  · intro haccounted
    refine ⟨?_, ?_⟩
    · rw [h.auditLog]
      exact haccounted.audited
    · intro e he
      obtain ⟨hfiles, hpromoted, hproduction⟩ := haccounted.unchanged e he
      exact ⟨hfiles.trans h.files.symm, hpromoted.trans h.promoted.symm,
        hproduction.trans h.production.symm⟩
  · intro haccounted
    refine ⟨?_, ?_⟩
    · rw [← h.auditLog]
      exact haccounted.audited
    · intro e he
      obtain ⟨hfiles, hpromoted, hproduction⟩ := haccounted.unchanged e he
      exact ⟨hfiles.trans h.files, hpromoted.trans h.promoted, hproduction.trans h.production⟩

/-- A part that raises without an audit row spoils the account. -/
theorem not_accounted_bind_of_error (env : GovernanceEnv) {x : Program β} {e : GovernanceError}
    (hexec : exec x s = (.error e, s')) (haudit : s'.auditLog = s.auditLog)
    (rest : β → Program α) : ¬Accounted env s (exec (x >>= rest) s) := by
  rw [exec_bind_of_error hexec]
  exact not_accounted_of_error haudit

/-- A step that may fail spoils the account if it does. -/
theorem accounted_attempt_bind (haudit : s.auditLog = s₀.auditLog) {step : Step}
    (rest : Unit → Program α) :
    Accounted env s₀ (exec (attempt faults step >>= rest) s) ↔
      faults.fails step = false ∧ Accounted env s₀ (exec (rest ()) s) := by
  unfold attempt
  cases faults.fails step with
  | true =>
    have hnot : ¬Accounted env s₀ (exec (throw (.fault step) >>= rest) s) := by
      rw [exec_bind_of_error (exec_throw _ _)]
      exact not_accounted_of_error haudit
    simpa using hnot
  | false => simp

/-- The credential is refused. -/
def Unauthorized (env : GovernanceEnv) (call : PromoteCall) : Prop :=
  ∃ reason, authorizeActor env.promotionSecret env.authorizedActors call.actor
    call.credential = .error (.unauthorized reason)

/-- The credential is accepted. -/
def Authorized (env : GovernanceEnv) (call : PromoteCall) : Prop :=
  authorizeActor env.promotionSecret env.authorizedActors call.actor call.credential = .ok ()

/-- The first gate. -/
theorem accounted_authorizationGate_bind (rest : Unit → Program α) :
    Accounted env s (exec (authorizationGate env faults call modelNames >>= rest) s) ↔
      faults.fails .insertAudit = false ∧ Unauthorized env call ∨
        Authorized env call ∧ Accounted env s (exec (rest ()) s) := by
  unfold authorizationGate Unauthorized Authorized
  cases authorizeActor env.promotionSecret env.authorizedActors call.actor call.credential with
  | ok u => simp
  | error e =>
    cases e with
    | nonAsciiCredential =>
      have hnot : ¬Accounted env s (exec (throw .nonAsciiCredential >>= rest) s) :=
        not_accounted_bind_of_error env (exec_throw _ _) rfl rest
      simpa using hnot
    | unauthorized reason => simpa using accounted_deny_iff (Unnoticed.refl env s) rest

/-- The candidate is quarantined, by the call or from before. -/
def Quarantined (faults : Faults) (call : PromoteCall) (s : GovernanceState) : Prop :=
  faults.fails .findQuarantine = false ∧
    match call.quarantineAdvice with
    | some _ =>
      faults.fails .insertQuarantine = false ∧ s.versions.find? call.quarantineId = none
    | none => (existingQuarantineReason s.versions call.candidateDir).isSome

/-- The candidate is not quarantined. -/
def Cleared (faults : Faults) (call : PromoteCall) (s : GovernanceState) : Prop :=
  faults.fails .findQuarantine = false ∧ call.quarantineAdvice = none ∧
    existingQuarantineReason s.versions call.candidateDir = none

theorem isSome_latest {γ : Type} (time : γ → ℕ) {rows : List γ} (h : rows ≠ []) :
    (latest time rows).isSome = true := by
  cases rows with
  | nil => exact absurd rfl h
  | cons row rows => rfl

/-- A candidate that the call quarantines is found so. -/
theorem existingQuarantineReason_insert {versions versions' : UniqueTable String VersionRecord}
    {id dir reason : String} {time : ℕ}
    (h : versions.insert? id (quarantineRecord dir reason time) = some versions') :
    (existingQuarantineReason versions' dir).isSome = true := by
  have hfind := UniqueTable.find?_of_insert? h id
  rw [if_pos rfl, UniqueTable.find?_eq_some_iff] at hfind
  have hmem : (time, reason) ∈ versions'.rows.filterMap (·.2.quarantine dir) := by
    apply List.mem_filterMap.mpr
    exact ⟨_, hfind, by simp [VersionRecord.quarantine, quarantineRecord]⟩
  rw [existingQuarantineReason, Option.isSome_map]
  exact isSome_latest _ (List.ne_nil_of_mem hmem)

/-- A quarantined row is not in production. -/
theorem production_insert {versions versions' : UniqueTable String VersionRecord}
    {id : String} {record : VersionRecord} (h : versions.insert? id record = some versions')
    (hstatus : record.status ≠ .production) :
    versions'.rows.filter (fun row => row.2.status = .production) =
      versions.rows.filter fun row => row.2.status = .production := by
  unfold UniqueTable.insert? at h
  split at h
  · obtain rfl := Option.some.inj h
    simp [UniqueTable.insert, hstatus]
  · cases h

/-- The second part of the second gate. -/
theorem accounted_refuseQuarantined_bind (faults : Faults) (call : PromoteCall)
    (modelNames : List String) (h : Unnoticed env s₀ s) (rest : Unit → Program α) :
    Accounted env s₀ (exec (refuseQuarantined faults call modelNames >>= rest) s) ↔
      faults.fails .findQuarantine = false ∧
        ((existingQuarantineReason s.versions call.candidateDir).isSome = true ∧
            faults.fails .insertAudit = false ∨
          existingQuarantineReason s.versions call.candidateDir = none ∧
            Accounted env s₀ (exec (rest ()) s)) := by
  unfold refuseQuarantined
  rw [bind_assoc, accounted_attempt_bind h.auditLog, bind_assoc, exec_bind_of_ok (exec_get s)]
  cases existingQuarantineReason s.versions call.candidateDir with
  | none => simp
  | some reason => simpa using fun _ => accounted_deny_iff h rest

/-- The second gate. -/
theorem accounted_quarantineGate_bind (rest : Unit → Program α) :
    Accounted env s (exec (quarantineGate faults call modelNames >>= rest) s) ↔
      faults.fails .insertAudit = false ∧ Quarantined faults call s ∨
        Cleared faults call s ∧ Accounted env s (exec (rest ()) s) := by
  unfold quarantineGate followAdvice Quarantined Cleared
  rw [bind_assoc]
  cases call.quarantineAdvice with
  | none =>
    have hrefuse := accounted_refuseQuarantined_bind faults call modelNames
      (Unnoticed.refl env s) rest
    rw [pure_bind, hrefuse]
    tauto
  | some reason =>
    unfold quarantineCandidate
    simp only [bind_assoc]
    rw [accounted_attempt_bind rfl, exec_bind_of_ok (exec_get s)]
    cases hinsert : s.versions.insert? call.quarantineId
        (quarantineRecord call.candidateDir reason s.now) with
    | none =>
      have htaken := (UniqueTable.insert?_eq_none_iff _ _ _).mp hinsert
      have hnot : ¬Accounted env s ((.error (.versionTaken call.quarantineId), s) :
          Except GovernanceError α × GovernanceState) := not_accounted_of_error rfl
      simp [hnot, htaken]
    | some versions =>
      have hfree := UniqueTable.find?_eq_none_of_insert? hinsert
      have hunnoticed : Unnoticed env s { s with versions := versions } :=
        ⟨⟨rfl, rfl, production_insert hinsert (by simp [quarantineRecord])⟩, rfl⟩
      have hrefuse := accounted_refuseQuarantined_bind faults call modelNames hunnoticed rest
      have hfound := existingQuarantineReason_insert hinsert
      have hsome : existingQuarantineReason versions call.candidateDir ≠ none :=
        Option.isSome_iff_ne_none.mp hfound
      simp only
      rw [exec_bind_of_ok (exec_modify _ s), hrefuse]
      simp only [hfound, hsome, hfree, true_and, false_and, or_false, and_true]
      tauto

/-- The third gate. -/
theorem accounted_regressionGate_bind (rest : Unit → Program α) :
    Accounted env s (exec (regressionGate env faults call modelNames >>= rest) s) ↔
      faults.fails .insertAudit = false ∧
          (evaluateRegressionGate call.oldMetrics call.newMetrics modelNames
            env.tolerance).approved = false ∨
        (evaluateRegressionGate call.oldMetrics call.newMetrics modelNames
          env.tolerance).approved = true ∧ Accounted env s (exec (rest ()) s) := by
  unfold regressionGate
  cases hdecision : (evaluateRegressionGate call.oldMetrics call.newMetrics modelNames
      env.tolerance).approved with
  | true => simp [hdecision]
  | false => simpa [hdecision] using accounted_deny_iff (Unnoticed.refl env s) rest

/-- Nobody notices the signing of a candidate. -/
theorem keeps_unnoticed_signAndVerifyCandidate :
    Keeps (Unnoticed env s₀) (signAndVerifyCandidate env faults call modelNames) :=
  keeps_signAndVerifyCandidate fun _ _ _ h => ⟨⟨h.files, h.promoted, h.production⟩, h.auditLog⟩

/-- The trust chain refuses the candidate. -/
def TrustRefused (env : GovernanceEnv) (faults : Faults) (call : PromoteCall)
    (modelNames : List String) (s : GovernanceState) : Prop :=
  faults.fails .openTransparencyLog = false ∧
    ∃ failure s', exec (signAndVerifyCandidate env faults call modelNames) s =
      (.error (.untrusted failure), s')

/-- The trust chain holds of the candidate; signing it leaves a state. -/
def TrustPassed (env : GovernanceEnv) (faults : Faults) (call : PromoteCall)
    (modelNames : List String) (s : GovernanceState) (shas : UniqueTable String String)
    (s' : GovernanceState) : Prop :=
  faults.fails .openTransparencyLog = false ∧
    exec (signAndVerifyCandidate env faults call modelNames) s = (.ok shas, s')

/-- The fourth gate has no handler for other exceptions. -/
theorem denyUntrusted_of_ne {e : GovernanceError} (h : ∀ failure, e ≠ .untrusted failure) :
    denyUntrusted faults call modelNames e = (throw e : Program α) := by
  cases e with
  | untrusted failure => exact absurd rfl (h failure)
  | _ => rfl

/-- The fourth gate. -/
theorem accounted_trustGate_bind (rest : UniqueTable String String → Program α) :
    Accounted env s (exec (trustGate env faults call modelNames >>= rest) s) ↔
      faults.fails .insertAudit = false ∧ TrustRefused env faults call modelNames s ∨
        ∃ shas s', TrustPassed env faults call modelNames s shas s' ∧
          Accounted env s' (exec (rest shas) s') := by
  unfold trustGate TrustRefused TrustPassed
  rw [bind_assoc, accounted_attempt_bind rfl]
  have hkeeps : Unnoticed env s (exec (signAndVerifyCandidate env faults call modelNames) s).2 :=
    keeps_unnoticed_signAndVerifyCandidate s (Unnoticed.refl env s)
  have htry := exec_tryCatch (signAndVerifyCandidate env faults call modelNames)
    (denyUntrusted faults call modelNames) s
  cases hsign : exec (signAndVerifyCandidate env faults call modelNames) s with
  | mk r s' =>
    rw [hsign] at hkeeps htry
    cases r with
    | ok shas =>
      rw [accounted_bind_of_ok htry hkeeps]
      simp
    | error e =>
      rw [exec_bind_congr htry rest]
      by_cases hrefused : ∃ failure, e = .untrusted failure
      · obtain ⟨failure, rfl⟩ := hrefused
        have hdeny : Accounted env s
            (exec (denyUntrusted faults call modelNames (.untrusted failure) >>= rest) s') ↔
              faults.fails .insertAudit = false :=
          accounted_deny_iff hkeeps rest
        rw [hdeny]
        simp [and_comm]
      · have hne : ∀ failure, e ≠ .untrusted failure := fun failure h => hrefused ⟨failure, h⟩
        have hnot : ¬Accounted env s
            (exec (denyUntrusted faults call modelNames e >>= rest) s') := by
          rw [denyUntrusted_of_ne hne, exec_bind_of_error (exec_throw _ _)]
          exact not_accounted_of_error hkeeps.auditLog
        simp [hnot, hne]

/-- The candidate is compatible. -/
def Compatible (env : GovernanceEnv) (call : PromoteCall) (modelNames : List String)
    (files : Files) : Prop :=
  ∀ name ∈ modelNames, env.checkCompatibility ⟨call.candidateDir, files⟩ name = .ok ()

/-- Compatibility is what the fifth gate looks for. -/
theorem verifyCandidateCompatibility_eq_ok_iff {files : Files} :
    verifyCandidateCompatibility env call files modelNames = .ok () ↔
      Compatible env call modelNames files := by
  unfold Compatible
  induction modelNames with
  | nil => simp [verifyCandidateCompatibility]
  | cons name names ih =>
    rw [verifyCandidateCompatibility, List.forall_mem_cons, ← ih]
    cases hcheck : env.checkCompatibility ⟨call.candidateDir, files⟩ name <;> simp

/-- The fifth gate. -/
theorem accounted_compatibilityGate_bind (rest : Unit → Program α) :
    Accounted env s (exec (compatibilityGate env faults call modelNames >>= rest) s) ↔
      faults.fails .insertAudit = false ∧ ¬Compatible env call modelNames s.candidate ∨
        Compatible env call modelNames s.candidate ∧ Accounted env s (exec (rest ()) s) := by
  unfold compatibilityGate
  rw [bind_assoc, exec_bind_of_ok (exec_get s), ← verifyCandidateCompatibility_eq_ok_iff]
  cases verifyCandidateCompatibility env call s.candidate modelNames with
  | ok u => simp
  | error reason => simpa using accounted_deny_iff (Unnoticed.refl env s) rest

/-- The critical section keeps what does not depend on the production directory, the archives
and the table of versions. -/
theorem keeps_criticalSection {P : GovernanceState → Prop}
    (h : ∀ s files archives versions, P s →
      P { s with files := files, archives := archives, versions := versions })
    {shas : UniqueTable String String} :
    Keeps P (criticalSection env faults call modelNames shas) := by
  have hfiles (s : GovernanceState) (files : Files) (hs : P s) : P { s with files := files } :=
    h s files s.archives s.versions hs
  have hversions (s : GovernanceState) (versions : UniqueTable String VersionRecord)
      (hs : P s) : P { s with versions := versions } := h s s.files s.archives versions hs
  have hmanifest (s : GovernanceState) (registry : ModelArtifactRegistry) (hs : P s) :
      P (saveManifest env registry s) := by
    unfold saveManifest
    split
    · exact hs
    · exact hfiles s _ hs
  have hcommit (archivePath : ℕ) : Keeps P (commitVersion env faults call shas archivePath) := by
    unfold commitVersion
    refine keeps_attempt.bind fun _ => Keeps.get.bind fun s => ?_
    dsimp only
    split
    · exact Keeps.throw _
    · exact Keeps.bind (Keeps.modify fun s hs => hversions s _ hs) fun _ => Keeps.pure _
  have hlock : Keeps P (openLock faults) :=
    keeps_attempt.bind fun _ => Keeps.modify fun s hs => hfiles s _ hs
  have harchive : Keeps P (archiveProduction faults) := by
    refine Keeps.get.bind fun s => ?_
    split
    · exact Keeps.throw _
    · split
      · exact Keeps.bind (Keeps.modify fun s hs => h s _ _ s.versions hs) fun _ => Keeps.throw _
      · exact Keeps.bind (Keeps.modify fun s hs => h s _ _ s.versions hs) fun _ => Keeps.pure _
  have hpublish (source : Files) : Keeps P (publishFiles faults source) := by
    unfold publishFiles
    split
    · exact Keeps.bind (Keeps.modify fun s hs => hfiles s _ hs) fun _ => Keeps.throw _
    · exact Keeps.modify fun s hs => hfiles s _ hs
  unfold criticalSection
  refine hlock.bind fun _ => harchive.bind fun _ => Keeps.get.bind fun s => ?_
  refine (hpublish _).bind fun _ => keeps_openRegistry.bind fun registry => ?_
  exact (Keeps.foldlM (fun _ _ => keeps_promoteArtifact hmanifest) _ _).bind
    fun _ => (hcommit _).bind fun _ => Keeps.pure _

/-- The critical section writes no audit row. -/
theorem keeps_auditLog_criticalSection {rows : List AuditRow} {shas : UniqueTable String String} :
    Keeps (fun s => s.auditLog = rows) (criticalSection env faults call modelNames shas) :=
  keeps_criticalSection fun _ _ _ _ hs => hs

/-- A part without audit rows before the row of a promotion that is done. -/
theorem accounted_recordAudit_bind {x : Program α} {rest : α → Program β} (faults : Faults)
    (row : α → AuditRow) (result : α → β) (hrest : ∀ a, rest a = do
      recordAudit faults (row a)
      return result a) (hsuccess : ∀ a, (row a).success = true)
    (haudit : Keeps (fun s' => s'.auditLog = s.auditLog) x) :
    Accounted env s (exec (x >>= rest) s) ↔ faults.fails .insertAudit = false ∧ Returns x s := by
  have hs' := haudit s rfl
  cases hx : exec x s with
  | mk r s' =>
    rw [hx] at hs'
    cases r with
    | error e =>
      have hnot : ¬Returns x s := by
        rintro ⟨a, s₁, h⟩
        rw [hx] at h
        cases h
      have hspoilt := not_accounted_bind_of_error env hx hs' rest
      simp [hnot, hspoilt]
    | ok a =>
      have hreturns : Returns x s := ⟨a, s', hx⟩
      rw [exec_bind_of_ok hx, hrest]
      unfold recordAudit attempt
      cases faults.fails .insertAudit with
      | true =>
        have hspoilt : ¬Accounted env s ((.error (.fault .insertAudit), s') :
            Except GovernanceError β × GovernanceState) := not_accounted_of_error hs'
        simp [hspoilt]
      | false =>
        simp only [exec_bind, Bool.false_eq_true, if_false, exec_pure, exec_modify, hreturns,
          and_self, iff_true]
        refine ⟨⟨row a, congrArg (· ++ [row a]) hs', hsuccess a⟩, ?_⟩
        intro e he
        cases he

end

/-- The ends of a promotion that are accounted for: the candidate names models, the audit row
is written, and the call is refused by a gate, for a reason that the gate catches, or meets
no obstacle at all. -/
structure Handled (env : GovernanceEnv) (faults : Faults) (call : PromoteCall)
    (s : GovernanceState) : Prop where
  /-- There are models. -/
  names : call.names env s.candidate ≠ []
  /-- The audit row is written. -/
  audit : faults.fails .insertAudit = false
  /-- The gates, one after another, and the critical section. -/
  ends : Unauthorized env call ∨ Authorized env call ∧
    (Quarantined faults call s ∨ Cleared faults call s ∧
      ((evaluateRegressionGate call.oldMetrics call.newMetrics (call.names env s.candidate)
          env.tolerance).approved = false ∨
        (evaluateRegressionGate call.oldMetrics call.newMetrics (call.names env s.candidate)
          env.tolerance).approved = true ∧
        (TrustRefused env faults call (call.names env s.candidate) s ∨
          ∃ shas s', TrustPassed env faults call (call.names env s.candidate) s shas s' ∧
            (¬Compatible env call (call.names env s.candidate) s'.candidate ∨
              Compatible env call (call.names env s.candidate) s'.candidate ∧
                Undisturbed env faults call (call.names env s.candidate) s'))))

/-- What follows the fourth gate. -/
theorem accounted_afterTrust {env : GovernanceEnv} {faults : Faults} {call : PromoteCall}
    {modelNames : List String} {s s' : GovernanceState} {shas : UniqueTable String String}
    (h : TrustPassed env faults call modelNames s shas s') :
    Accounted env s' (exec (do
      compatibilityGate env faults call modelNames
      let (version, archivePath) ← criticalSection env faults call modelNames shas
      recordAudit faults
        { actor := call.actor, action := "promote", modelName := ",".intercalate modelNames,
          versionId := some version.1, success := true, reason := .inl call.reason,
          detail := some (.archivedPrevious archivePath) }
      return version) s') ↔
    faults.fails .insertAudit = false ∧ (¬Compatible env call modelNames s'.candidate ∨
      Compatible env call modelNames s'.candidate ∧ Undisturbed env faults call modelNames s') := by
  rw [accounted_compatibilityGate_bind, accounted_recordAudit_bind faults (fun result =>
      { actor := call.actor, action := "promote", modelName := ",".intercalate modelNames,
        versionId := some result.1.1, success := true, reason := .inl call.reason,
        detail := some (.archivedPrevious result.2) })
    Prod.fst (fun _ => rfl) (fun _ => rfl) keeps_auditLog_criticalSection,
    returns_criticalSection_iff (verifies_of_signAndVerifyCandidate h.2)]
  tauto

/-- A promotion is accounted for exactly when its end is one that is handled. -/
theorem accounted_promoteCandidate_iff (env : GovernanceEnv) (faults : Faults)
    (call : PromoteCall) (s : GovernanceState) :
    Accounted env s (exec (promoteCandidate env faults call) s) ↔ Handled env faults call s := by
  unfold promoteCandidate
  rw [exec_bind_of_ok (exec_get s)]
  dsimp only
  by_cases hnames : call.names env s.candidate = []
  · have hspoilt : ¬Accounted env s ((.error (.noArtifacts call.candidateDir), s) :
        Except GovernanceError (String × VersionRecord) × GovernanceState) :=
      not_accounted_of_error rfl
    rw [if_pos hnames]
    constructor
    · intro h
      exact absurd h hspoilt
    · intro h
      exact absurd hnames h.names
  · rw [if_neg hnames, accounted_authorizationGate_bind, accounted_quarantineGate_bind,
      accounted_regressionGate_bind, accounted_trustGate_bind]
    cases haudit : faults.fails .insertAudit with
    | true =>
      constructor
      · rintro (h | ⟨-, h | ⟨-, h | ⟨-, h | ⟨shas, s', htrust, h⟩⟩⟩⟩)
        iterate 4 exact absurd h.1 (by simp)
        have hlost := ((accounted_afterTrust htrust).mp h).1
        rw [haudit] at hlost
        cases hlost
      · intro h
        have hlost := h.audit
        rw [haudit] at hlost
        cases hlost
    | false =>
      simp only [true_and]
      have htail := fun shas s' => and_congr_right_iff.mpr
        fun h : TrustPassed env faults call (call.names env s.candidate) s shas s' =>
          accounted_afterTrust h
      simp only [htail, haudit, true_and]
      constructor
      · exact fun h => ⟨hnames, haudit, h⟩
      · exact fun h => h.ends

/-- A configuration that authorizes `alice`, with the decoder and the signatures of the
metrics of one small model. -/
def smallEnv : GovernanceEnv where
  tools :=
    { ModelDir.metricsTools with
      jsonLoad := fun content =>
        if content = "\x7b\x7d".toUTF8.data.toList then some (.obj [])
        else ModelDir.metricsTools.jsonLoad content }
  dumpMetrics _ := ModelDir.signedMetrics
  dumpManifest _ := []
  loadManifest _ := none
  checkCompatibility _ _ := .ok ()
  modelRegistry := ["random_forest"]
  promotionSecret := "test-secret"
  authorizedActors := "alice, retrain-pipeline"
  tolerance := 1 / 50
  modelDir := "models"

/-- A first promotion of the model `rf` by `alice`. -/
def firstPromotion : PromoteCall where
  candidateDir := "candidate"
  actor := "alice"
  credential := "b5e537e31e1e349f7d13bc6f42a33cdc6e236917a594a50aef4dddf46bd8fb1f"
  modelNames := some ["rf"]
  signingKey := .ed25519 fun _ => ModelDir.metricsSignature
  publicKey := some ModelDir.signingKey
  quarantineId := "q1"
  versionId := "v1"
  registryVersion _ := "r1"

/-- The disk is full after the artifact was copied. -/
def diskFull : Faults where
  fails step := step = .publish
  copied file := file = "rf.joblib"

/-- Nothing was promoted yet; the candidate has an artifact and empty metrics. -/
def beforePromotion : GovernanceState where
  candidate := fun file =>
    if file = "rf.joblib" then some [2]
    else if file = "metrics.json" then some "\x7b\x7d".toUTF8.data.toList
    else none
  files := fun _ => none
  archives := fun _ => none
  versions := .empty
  auditLog := []
  transparencyLog := {}
  now := 0

/-- A promotion that passed all gates and fails in the middle of the copy leaves a part of
the candidate in production and no audit row. -/
theorem interrupted_promotion_not_accounted :
    (exec (promoteCandidate smallEnv diskFull firstPromotion) beforePromotion).2.files
        "rf.joblib" = some [2] ∧
      ¬Accounted smallEnv beforePromotion
        (exec (promoteCandidate smallEnv diskFull firstPromotion) beforePromotion) := by
  have hrows : (exec (promoteCandidate smallEnv diskFull firstPromotion)
      beforePromotion).2.auditLog.length = 0 := by
    decide +kernel
  refine ⟨by decide +kernel, ?_⟩
  intro h
  obtain ⟨row, hrow, -⟩ := h.audited
  rw [hrow] at hrows
  simp at hrows

end LedgerLens.Detection
