import LedgerLens.Detection.Promotion
import LedgerLens.Detection.VerifierBinding

/-!
# When the critical section goes through

A candidate that passed the fourth gate carries its trust chain into the production
directory, so that the registry's own check of it cannot fail there. What remains are the
faults of the steps, an unreadable manifest, a file in the way of the archive and a version
id that is taken.
-/

namespace LedgerLens.Detection

open Raising

section

variable {env : GovernanceEnv} {faults : Faults} {call : PromoteCall} {α β : Type}
  {s s' : GovernanceState}

/-- A verification with an expected hash is one without, and a comparison. -/
theorem verify_some_eq_ok_iff {tools : TrustTools} {dir : ModelDir} {log : TransparencyLog}
    {modelName sha expected : String} {publicKey : Bytes} :
    dir.verify tools log modelName publicKey (some expected) = .ok sha ↔
      expected = sha ∧ dir.verify tools log modelName publicKey = .ok sha := by
  cases hartifact : dir.files (artifactFile modelName) with
  | none => simp [ModelDir.verify, hartifact]
  | some artifact =>
    have hhash (h : dir.verify tools log modelName publicKey = .ok sha) :
        Sha256.hexdigest artifact = sha := by
      obtain ⟨⟨content, hcontent, hsha⟩, -⟩ := ModelDir.verify_eq_ok_iff.mp h
      obtain rfl := Option.some.inj (hartifact.symm.trans hcontent)
      exact hsha
    by_cases hexpected : expected = Sha256.hexdigest artifact
    · have heq : dir.verify tools log modelName publicKey (some expected) =
          dir.verify tools log modelName publicKey := by
        simp [ModelDir.verify, hartifact, hexpected]
      rw [heq]
      constructor
      · intro h
        exact ⟨hexpected.trans (hhash h), h⟩
      · exact fun h => h.2
    · constructor
      · intro h
        simp [ModelDir.verify, hartifact, hexpected] at h
      · rintro ⟨rfl, h⟩
        exact absurd (hhash h).symm hexpected

section

variable {P : GovernanceState → Prop}
  (hsign : ∀ s files log, P s → P { s with candidate := files, transparencyLog := log })

include hsign

/-- The signing of one artifact keeps what does not depend on the candidate's files and on
the transparency log. -/
theorem keeps_signAndVerifyArtifact {publicKey : Bytes} {shas : UniqueTable String String}
    {model : String × ℕ} :
    Keeps P (signAndVerifyArtifact env faults call publicKey shas model) := by
  unfold signAndVerifyArtifact signAndRegisterArtifact
  refine Keeps.bind ?_ fun sha => ?_
  · refine keeps_attempt.bind fun _ => Keeps.get.bind fun s => ?_
    refine (Keeps.ofExcept _).bind fun signed => ?_
    refine (Keeps.modify fun s h => hsign s signed.2 s.transparencyLog h).bind fun _ => ?_
    split
    · exact Keeps.throw _
    · exact (Keeps.modify fun s h => hsign s s.candidate _ h).bind fun _ => Keeps.pure _
  · exact keeps_attempt.bind fun _ => Keeps.get.bind fun s =>
      (Keeps.ofExcept _).bind fun _ => Keeps.pure _

/-- So does the signing of a candidate. -/
theorem keeps_signAndVerifyCandidate {modelNames : List String} :
    Keeps P (signAndVerifyCandidate env faults call modelNames) := by
  unfold signAndVerifyCandidate
  split
  · exact Keeps.throw _
  · exact Keeps.throw _
  · refine Keeps.tryCatch (Keeps.foldlM (fun _ _ => keeps_signAndVerifyArtifact hsign) _ _)
      fun e => ?_
    split <;> exact Keeps.throw _

end

/-- A candidate carries its trust chain: each of its models verifies. -/
def Verifies (env : GovernanceEnv) (call : PromoteCall) (log : TransparencyLog) (files : Files)
    (modelNames : List String) : Prop :=
  ∃ publicKey, call.publicKey = some publicKey ∧ ∀ name ∈ modelNames, ∃ artifact,
    files (artifactFile name) = some artifact ∧ ∀ path,
      (ModelDir.mk path files).verify env.tools log name publicKey =
        .ok (Sha256.hexdigest artifact)

/-- What the loop of the fourth gate has achieved after some models: their artifacts are
there and in the log, and the metrics are signed. -/
structure SignedSoFar (env : GovernanceEnv) (publicKey : Bytes) (done : List (String × ℕ))
    (s : GovernanceState) : Prop where
  /-- The artifacts. -/
  logged : ∀ model ∈ done, ∃ artifact, s.candidate (artifactFile model.1) = some artifact ∧
    s.transparencyLog.contains (Sha256.hexdigest artifact) = true
  /-- The signature. -/
  signed : done ≠ [] → ∀ path, (ModelDir.mk path s.candidate).Signed env.tools publicKey

/-- The signing of an artifact that is there writes the metrics and their signature only. -/
theorem signArtifact_spec {files files' : Files} {modelName sha : String}
    (h : signArtifact env call files modelName = .ok (sha, files')) :
    (∃ artifact, files (artifactFile modelName) = some artifact ∧
      sha = Sha256.hexdigest artifact) ∧
    ∀ file, file ≠ "metrics.json" → file ≠ "metrics.json.sig" → files' file = files file := by
  unfold signArtifact at h
  split at h
  any_goals cases h
  dsimp only at h
  split at h
  · cases h
  · cases h
    refine ⟨⟨_, by assumption, rfl⟩, ?_⟩
    intro file hmetrics hsig
    simp [Files.write, hmetrics, hsig]

/-- Signing and publishing one artifact, with all its outcomes. -/
theorem exec_signAndRegisterArtifact (k : ℕ) (modelName : String) (s : GovernanceState) :
    exec (signAndRegisterArtifact env faults call k modelName) s =
      if faults.fails (.signArtifact k) then (.error (.fault (.signArtifact k)), s)
      else
        match signArtifact env call s.candidate modelName with
        | .error e => (.error e, s)
        | .ok (sha, files) =>
          match s.transparencyLog.append modelName sha with
          | .error message => (.error (.invalidHash message), { s with candidate := files })
          | .ok log => (.ok sha, { s with candidate := files, transparencyLog := log }) := by
  unfold signAndRegisterArtifact attempt
  cases faults.fails (.signArtifact k) with
  | true => rfl
  | false =>
    simp only [Bool.false_eq_true, if_false, pure_bind]
    rw [exec_bind_of_ok (exec_get s)]
    cases hsign : signArtifact env call s.candidate modelName with
    | error e => exact exec_bind_of_error (exec_ofExcept _ s)
    | ok signed =>
      obtain ⟨sha, files⟩ := signed
      rw [exec_bind_of_ok (exec_ofExcept _ s)]
      simp only
      rw [exec_bind_of_ok (exec_modify _ s)]
      cases happend : s.transparencyLog.append modelName sha with
      | error message => rfl
      | ok log => rfl

/-- What signing and publishing one artifact does. -/
theorem signAndRegisterArtifact_spec {k : ℕ} {modelName sha : String}
    (h : exec (signAndRegisterArtifact env faults call k modelName) s = (.ok sha, s')) :
    ∃ files log, signArtifact env call s.candidate modelName = .ok (sha, files) ∧
      s.transparencyLog.append modelName sha = .ok log ∧
      s' = { s with candidate := files, transparencyLog := log } := by
  rw [exec_signAndRegisterArtifact] at h
  split at h
  · cases h
  · split at h
    · cases h
    · next sha' files hsign =>
      split at h
      · cases h
      · next log happend =>
        cases h
        exact ⟨files, log, hsign, happend, rfl⟩

/-- An append keeps what is in the log. -/
theorem contains_of_append {log log' : TransparencyLog} {modelName sha sha' : String}
    (h : log.append modelName sha = .ok log') (hcontains : log.contains sha' = true) :
    log'.contains sha' = true := by
  have hiff := TransparencyLog.contains_append log modelName sha sha'
  rw [h] at hiff
  exact hiff.mpr (Or.inl hcontains)

/-- What a verification in the governance tells. -/
theorem verifyArtifact_spec {files : Files} {path modelName sha expected : String}
    {log : TransparencyLog} {publicKey : Bytes}
    (h : verifyArtifact env files path log modelName publicKey (some expected) = .ok sha) :
    expected = sha ∧
      (ModelDir.mk path files).verify env.tools log modelName publicKey = .ok sha := by
  apply verify_some_eq_ok_iff.mp
  unfold verifyArtifact at h
  split at h
  · cases h
  · cases h
    assumption

/-- What one round of the loop of the fourth gate does if it returns. -/
theorem signAndVerifyArtifact_spec {publicKey : Bytes} {shas shas' : UniqueTable String String}
    {model : String × ℕ}
    (h : exec (signAndVerifyArtifact env faults call publicKey shas model) s = (.ok shas', s')) :
    ∃ sha files log, signArtifact env call s.candidate model.1 = .ok (sha, files) ∧
      s.transparencyLog.append model.1 sha = .ok log ∧
      s' = { s with candidate := files, transparencyLog := log } ∧
      (ModelDir.mk call.candidateDir files).verify env.tools log model.1 publicKey = .ok sha := by
  unfold signAndVerifyArtifact at h
  obtain ⟨sha, s₁, hregister, h⟩ := exec_bind_eq_ok_iff.mp h
  obtain ⟨files, log, hsign, happend, rfl⟩ := signAndRegisterArtifact_spec hregister
  rw [exec_attempt_bind_eq_ok_iff, exec_bind_of_ok (exec_get _)] at h
  obtain ⟨verified, s₂, hverify, hpure⟩ := exec_bind_eq_ok_iff.mp h.2
  rw [exec_ofExcept, Prod.mk.injEq] at hverify
  obtain ⟨hverify, rfl⟩ := hverify
  obtain rfl := (Prod.mk.inj hpure).2
  obtain ⟨rfl, hverified⟩ := verifyArtifact_spec hverify
  exact ⟨sha, files, log, hsign, happend, rfl, hverified⟩

/-- Signing one artifact leaves the artifacts alone. -/
theorem artifact_of_signArtifact {files files' : Files} {modelName sha : String}
    (h : signArtifact env call files modelName = .ok (sha, files')) (name : String) :
    files' (artifactFile name) = files (artifactFile name) :=
  (signArtifact_spec h).2 _ (ModelDir.artifactFile_ne (by decide)).symm
    (ModelDir.artifactFile_ne (by decide)).symm

/-- One round of the loop of the fourth gate. -/
theorem signedSoFar_step {publicKey : Bytes} {done : List (String × ℕ)}
    {shas shas' : UniqueTable String String} {model : String × ℕ}
    (hinv : SignedSoFar env publicKey done s)
    (h : exec (signAndVerifyArtifact env faults call publicKey shas model) s = (.ok shas', s')) :
    SignedSoFar env publicKey (done ++ [model]) s' := by
  obtain ⟨sha, files, log, hsign, happend, rfl, hverified⟩ := signAndVerifyArtifact_spec h
  have hkept := artifact_of_signArtifact hsign
  obtain ⟨⟨artifact, hartifact, rfl⟩, -⟩ := signArtifact_spec hsign
  obtain ⟨-, hsigned, hcontains⟩ := ModelDir.verify_eq_ok_iff.mp hverified
  refine ⟨?_, fun _ path => hsigned⟩
  intro other hother
  rcases List.mem_append.mp hother with hdone | hnew
  · obtain ⟨content, hcontent, hlogged⟩ := hinv.logged other hdone
    exact ⟨content, (hkept other.1).trans hcontent, contains_of_append happend hlogged⟩
  · obtain rfl := List.mem_singleton.mp hnew
    exact ⟨artifact, (hkept other.1).trans hartifact, hcontains⟩

/-- The signing of a candidate returns exactly if both keys are configured and the loop over
the models returns. -/
theorem exec_signAndVerifyCandidate_eq_ok_iff {modelNames : List String}
    {shas : UniqueTable String String} :
    exec (signAndVerifyCandidate env faults call modelNames) s = (.ok shas, s') ↔
      ∃ publicKey, call.signingKey ≠ .notConfigured ∧ call.publicKey = some publicKey ∧
        exec (modelNames.zipIdx.foldlM (signAndVerifyArtifact env faults call publicKey) .empty)
          s = (.ok shas, s') := by
  unfold signAndVerifyCandidate
  split
  · next hkey => simp [hkey]
  · next hpublic _ => simp [hpublic]
  · next publicKey hpublic hkey =>
    have hwrap : exec (wrapIntegrity (modelNames.zipIdx.foldlM
        (signAndVerifyArtifact env faults call publicKey) .empty)) s = (.ok shas, s') ↔
      exec (modelNames.zipIdx.foldlM (signAndVerifyArtifact env faults call publicKey) .empty)
        s = (.ok shas, s') := by
      refine exec_tryCatch_eq_ok_iff ?_
      intro e s
      cases e <;> exact ⟨_, _, rfl⟩
    have hconfigured : call.signingKey ≠ .notConfigured := hkey
    rw [hwrap]
    simp [hpublic, hconfigured]

/-- A candidate that passed the fourth gate verifies. -/
theorem verifies_of_signAndVerifyCandidate {modelNames : List String}
    {shas : UniqueTable String String}
    (h : exec (signAndVerifyCandidate env faults call modelNames) s = (.ok shas, s')) :
    Verifies env call s'.transparencyLog s'.candidate modelNames := by
  obtain ⟨publicKey, -, hkey, hloop⟩ := exec_signAndVerifyCandidate_eq_ok_iff.mp h
  have hstart : SignedSoFar env publicKey [] s :=
    ⟨fun model hmodel => absurd hmodel List.not_mem_nil, fun hne => absurd rfl hne⟩
  have hdone : SignedSoFar env publicKey modelNames.zipIdx s' :=
    foldlM_invariant (fun done _ s => SignedSoFar env publicKey done s)
      (fun _ _ _ _ _ _ hinv hstep => signedSoFar_step hinv hstep) [] hstart hloop
  refine ⟨publicKey, hkey, fun name hname => ?_⟩
  have hmem : name ∈ modelNames.zipIdx.map Prod.fst := by rwa [List.zipIdx_map_fst]
  obtain ⟨model, hmodel, rfl⟩ := List.mem_map.mp hmem
  obtain ⟨artifact, hartifact, hlogged⟩ := hdone.logged model hmodel
  refine ⟨artifact, hartifact, fun path => ModelDir.verify_eq_ok_iff.mpr ?_⟩
  exact ⟨⟨artifact, hartifact, rfl⟩, hdone.signed (List.ne_nil_of_mem hmodel) path, hlogged⟩

/-- No artifact's file is the manifest. -/
theorem artifactFile_ne_manifestFile (name : String) : artifactFile name ≠ manifestFile :=
  (ModelDir.artifactFile_ne (by decide)).symm

/-- What the loop over the models leaves alone: all but the manifest. -/
structure Publishing (s₀ s : GovernanceState) : Prop where
  /-- The other files. -/
  files : ∀ file, file ≠ manifestFile → s.files file = s₀.files file
  /-- The transparency log. -/
  transparencyLog : s.transparencyLog = s₀.transparencyLog
  /-- The versions. -/
  versions : s.versions = s₀.versions
  /-- The archives. -/
  archives : s.archives = s₀.archives
  /-- The clock. -/
  now : s.now = s₀.now

theorem Publishing.refl (s : GovernanceState) : Publishing s s :=
  ⟨fun _ _ => rfl, rfl, rfl, rfl, rfl⟩

variable {s₀ : GovernanceState}

/-- Writing the manifest leaves the rest alone. -/
theorem Publishing.saveManifest (h : Publishing s₀ s) (registry : ModelArtifactRegistry) :
    Publishing s₀ (saveManifest env registry s) := by
  unfold LedgerLens.Detection.saveManifest
  split
  · exact h
  · refine ⟨fun file hfile => ?_, h.transparencyLog, h.versions, h.archives, h.now⟩
    rw [← h.files file hfile]
    exact Function.update_of_ne hfile _ _

/-- An operation of the registry that returns, and the rest. -/
theorem returns_runRegistry_bind {a : α} {registry : ModelArtifactRegistry}
    {f : α × ModelArtifactRegistry → Program β} :
    Returns (runRegistry env (.ok a, registry) >>= f) s ↔
      Returns (f (a, registry)) (saveManifest env registry s) :=
  returns_bind_of_ok rfl

section

variable {P : GovernanceState → Prop}
  (hmanifest : ∀ s registry, P s → P (LedgerLens.Detection.saveManifest env registry s))

include hmanifest

/-- An operation of the registry keeps what writing the manifest keeps. -/
theorem keeps_runRegistry
    {outcome : Except (RegistryError TrustFailure) α × ModelArtifactRegistry} :
    Keeps P (runRegistry env outcome) := by
  unfold runRegistry
  split
  · exact Keeps.throw _
  · exact (Keeps.modify fun s h => hmanifest s _ h).bind fun _ => Keeps.pure _

/-- One round of the loop over the models keeps what writing the manifest keeps. -/
theorem keeps_promoteArtifact {registry : ModelArtifactRegistry} {model : String × ℕ} :
    Keeps P (promoteArtifact env faults call registry model) := by
  unfold promoteArtifact
  refine keeps_attempt.bind fun _ => Keeps.get.bind fun s =>
    (keeps_runRegistry hmanifest).bind fun _ => ?_
  refine keeps_attempt.bind fun _ => (keeps_runRegistry hmanifest).bind fun _ => ?_
  refine keeps_attempt.bind fun _ => Keeps.get.bind fun s =>
    (keeps_runRegistry hmanifest).bind fun _ => ?_
  exact Keeps.pure _

end

/-- The registry's trust verifier accepts what verifies among the published files. -/
theorem trustVerifier_eq_ok (hfiles : Publishing s₀ s) {publicKey : Bytes}
    (hkey : call.publicKey = some publicKey) (record : ArtifactRecord)
    (hverify : ∀ path, (ModelDir.mk path s₀.files).verify env.tools s₀.transparencyLog
      record.name publicKey = .ok record.sha256) : trustVerifier env call s record = .ok () := by
  have hsame : (ModelDir.mk env.modelDir s.files).verify env.tools s.transparencyLog record.name
      publicKey (some record.sha256) = .ok record.sha256 := by
    obtain ⟨⟨artifact, hartifact, hsha⟩, ⟨payload, signature, hpayload, hsignature, hvalid⟩,
      hlogged⟩ := ModelDir.verify_eq_ok_iff.mp (hverify env.modelDir)
    refine verify_some_eq_ok_iff.mpr ⟨rfl, ModelDir.verify_eq_ok_iff.mpr ⟨?_, ?_, ?_⟩⟩
    · exact ⟨artifact, (hfiles.files _ (artifactFile_ne_manifestFile _)).trans hartifact, hsha⟩
    · exact ⟨payload, signature, (hfiles.files _ (by decide)).trans hpayload,
        (hfiles.files _ (by decide)).trans hsignature, hvalid⟩
    · rw [hfiles.transparencyLog]
      exact hlogged
  unfold trustVerifier
  rw [hkey]
  simp [hsame]

/-- One round of the loop over the models returns unless one of its steps fails. -/
theorem returns_promoteArtifact_iff (hfiles : Publishing s₀ s) {modelNames : List String}
    (hverifies : Verifies env call s₀.transparencyLog s₀.files modelNames)
    {registry : ModelArtifactRegistry} {name : String} {k : ℕ} (hname : name ∈ modelNames) :
    Returns (promoteArtifact env faults call registry (name, k)) s ↔
      faults.fails (.register k) = false ∧ faults.fails (.validate k) = false ∧
        faults.fails (.promote k) = false := by
  obtain ⟨publicKey, hkey, hverify⟩ := hverifies
  obtain ⟨artifact, hartifact, haccept⟩ := hverify name hname
  have hcontent : s.files (artifactFile name) = some artifact :=
    (hfiles.files _ (artifactFile_ne_manifestFile _)).trans hartifact
  unfold promoteArtifact
  dsimp only
  rw [returns_attempt_bind, returns_get_bind, hcontent]
  obtain ⟨registry₁, hregister, hget₁⟩ := ModelArtifactRegistry.register_of_content
    (ε := TrustFailure) registry name (call.registryVersion k)
    (env.modelDir ++ "/" ++ artifactFile name) artifact
    (((call.newMetrics.getD .empty).find? name).getD .empty) .empty s.now
  rw [hregister, returns_runRegistry_bind]
  dsimp only
  obtain ⟨registry₂, hvalidate, hget₂⟩ :=
    ModelArtifactRegistry.validate_of_staged hget₁ rfl s.now
  rw [returns_attempt_bind, hvalidate, returns_runRegistry_bind]
  dsimp only
  rw [returns_attempt_bind, returns_get_bind]
  have hfiles₂ : Publishing s₀ (saveManifest env registry₂ (saveManifest env registry₁ s)) :=
    (hfiles.saveManifest registry₁).saveManifest registry₂
  have htrust := trustVerifier_eq_ok hfiles₂ hkey
    ((registry.newRecord name (env.modelDir ++ "/" ++ artifactFile name) artifact
      (((call.newMetrics.getD .empty).find? name).getD .empty) .empty (call.registryVersion k)
      s.now).enter .validated s.now none) haccept
  obtain ⟨registry₃, hpromote⟩ := ModelArtifactRegistry.promote_of_validated hget₂ rfl htrust
    (saveManifest env registry₂ (saveManifest env registry₁ s)).now
  rw [hpromote, returns_runRegistry_bind]
  simp

/-- Opening the registry keeps everything. -/
theorem keeps_openRegistry {P : GovernanceState → Prop} : Keeps P (openRegistry env faults) := by
  refine keeps_attempt.bind fun _ => Keeps.get.bind fun s => ?_
  split
  · exact Keeps.throw _
  · exact Keeps.pure _

theorem returns_openRegistry_bind {f : ModelArtifactRegistry → Program β} :
    Returns (openRegistry env faults >>= f) s ↔
      faults.fails .loadManifest = false ∧
        ∃ registry, env.loadRegistry s.files = some registry ∧ Returns (f registry) s := by
  unfold openRegistry
  rw [bind_assoc, returns_attempt_bind, bind_assoc, returns_get_bind]
  cases hload : env.loadRegistry s.files <;> simp

theorem returns_commitVersion_iff {shas : UniqueTable String String} {archivePath : ℕ} :
    Returns (commitVersion env faults call shas archivePath) s ↔
      faults.fails .commitVersion = false ∧ s.versions.find? call.versionId = none := by
  unfold commitVersion
  rw [returns_attempt_bind, returns_get_bind,
    ← find?_retireCurrent_eq_none_iff VersionRecord.deprecated]
  cases hinsert : (s.retireCurrent VersionRecord.deprecated).insert? call.versionId
      (promotedRecord env call shas archivePath s.current s.now) with
  | none =>
    have htaken := (UniqueTable.insert?_eq_none_iff _ _ _).mp hinsert
    simp only [hinsert]
    simp [htaken]
  | some versions =>
    have hfree := UniqueTable.find?_eq_none_of_insert? hinsert
    simp only [hinsert]
    rw [returns_modify_bind]
    simp [hfree]

/-- Nothing stands in the way of the critical section. -/
structure Undisturbed (env : GovernanceEnv) (faults : Faults) (call : PromoteCall)
    (modelNames : List String) (s : GovernanceState) : Prop where
  /-- No step of it fails. -/
  steps : ∀ step ∈ [Step.openLock, .archive, .publish, .loadManifest, .commitVersion],
    faults.fails step = false
  /-- No step of a model fails. -/
  models : ∀ k < modelNames.length, faults.fails (.register k) = false ∧
    faults.fails (.validate k) = false ∧ faults.fails (.promote k) = false
  /-- There can be an archive. -/
  archive : s.files "archive" = none
  /-- The manifest that is there after the copy can be read. -/
  manifest : (env.loadRegistry (s.publish s.candidate).files).isSome = true
  /-- The id of the new version is free. -/
  version : s.versions.find? call.versionId = none

/-- What verifies in the candidate's directory verifies among the published files. -/
theorem Verifies.publish {log : TransparencyLog} {modelNames : List String}
    (h : Verifies env call log s.candidate modelNames) {s' : GovernanceState} :
    Verifies env call log (s'.publish s.candidate).files modelNames := by
  have hkept (file : String) (content : Bytes) (hfile : file ≠ "archive")
      (hcontent : s.candidate file = some content) :
      (s'.publish s.candidate).files file = some content := by
    simp [GovernanceState.publish, Files.copyOver, Files.publishable, hfile, hcontent]
  obtain ⟨publicKey, hkey, hverify⟩ := h
  refine ⟨publicKey, hkey, fun name hname => ?_⟩
  obtain ⟨artifact, hartifact, haccept⟩ := hverify name hname
  have hne : artifactFile name ≠ "archive" := (ModelDir.artifactFile_ne (by decide)).symm
  refine ⟨artifact, hkept _ _ hne hartifact, fun path => ?_⟩
  obtain ⟨-, ⟨payload, signature, hpayload, hsignature, hvalid⟩, hlogged⟩ :=
    ModelDir.verify_eq_ok_iff.mp (haccept path)
  refine ModelDir.verify_eq_ok_iff.mpr ⟨⟨artifact, hkept _ _ hne hartifact, rfl⟩, ?_, hlogged⟩
  exact ⟨payload, signature, hkept _ _ (by decide) hpayload, hkept _ _ (by decide) hsignature,
    hvalid⟩

/-- A condition on the numbers of the models. -/
theorem forall_mem_zipIdx_iff {p : ℕ → Prop} {names : List String} :
    (∀ model ∈ names.zipIdx, p model.2) ↔ ∀ k < names.length, p k := by
  constructor
  · intro h k hk
    exact h (names[k], k) (List.mk_mem_zipIdx_iff_getElem?.mpr (List.getElem?_eq_getElem hk))
  · rintro h ⟨name, k⟩ hmem
    obtain ⟨hk, -⟩ := List.getElem?_eq_some_iff.mp (List.mk_mem_zipIdx_iff_getElem?.mp hmem)
    exact h k hk

/-- The loop over the models and the commit, from a state with the published files. -/
theorem returns_promoteArtifacts_bind {modelNames : List String} (faults : Faults)
    (registry : ModelArtifactRegistry) (shas : UniqueTable String String) (archivePath : ℕ)
    {f : String × VersionRecord → Program β} (hf : ∀ version s, Returns (f version) s)
    (hverifies : Verifies env call s.transparencyLog s.files modelNames) :
    Returns (do
      let _ ← modelNames.zipIdx.foldlM (promoteArtifact env faults call) registry
      let version ← commitVersion env faults call shas archivePath
      f version) s ↔
    (∀ k < modelNames.length, faults.fails (.register k) = false ∧
      faults.fails (.validate k) = false ∧ faults.fails (.promote k) = false) ∧
    faults.fails .commitVersion = false ∧ s.versions.find? call.versionId = none := by
  have hname {model : String × ℕ} (hmodel : model ∈ modelNames.zipIdx) :
      model.1 ∈ modelNames := by
    rw [← List.zipIdx_map_fst 0 modelNames]
    exact List.mem_map_of_mem hmodel
  have hround (registry : ModelArtifactRegistry) (model : String × ℕ) :
      Keeps (Publishing s) (promoteArtifact env faults call registry model) :=
    keeps_promoteArtifact fun _ registry h => h.saveManifest registry
  have hloop := returns_foldlM_iff (f := promoteArtifact env faults call) (b := registry)
    (fun _ => Publishing s)
    (fun _ _ _ hmodel hinv => returns_promoteArtifact_iff hinv hverifies (hname hmodel))
    (fun _ _ _ _ _ _ hinv hexec => (hround _ _).of_ok hinv hexec) (Publishing.refl s)
  have hcommit {s' : GovernanceState} (hs' : Publishing s s') :
      Returns (commitVersion env faults call shas archivePath >>= f) s' ↔
        faults.fails .commitVersion = false ∧ s.versions.find? call.versionId = none := by
    have hcommits : Returns (commitVersion env faults call shas archivePath) s' ↔ _ :=
      returns_commitVersion_iff
    rw [← hs'.versions, ← hcommits, returns_bind_iff]
    constructor
    · rintro ⟨version, s'', hexec, -⟩
      exact ⟨version, s'', hexec⟩
    · rintro ⟨version, s'', hexec⟩
      exact ⟨version, s'', hexec, hf version s''⟩
  rw [returns_bind_iff, ← forall_mem_zipIdx_iff, ← hloop]
  constructor
  · rintro ⟨registry', s', hexec, hrest⟩
    have hs' := (Keeps.foldlM hround _ _).of_ok (.refl s) hexec
    exact ⟨⟨registry', s', hexec⟩, (hcommit hs').mp hrest⟩
  · rintro ⟨⟨registry', s', hexec⟩, hrest⟩
    have hs' := (Keeps.foldlM hround _ _).of_ok (.refl s) hexec
    exact ⟨registry', s', hexec, (hcommit hs').mpr hrest⟩

/-- The lock file does not hide the manifest. -/
theorem loadRegistry_publish_lock (source : Files) (archived : Files) :
    env.loadRegistry ((s.lock.addToArchive archived).publish source).files =
      env.loadRegistry (s.publish source).files := by
  have hsame : ((s.lock.addToArchive archived).publish source).files manifestFile =
      (s.publish source).files manifestFile := by
    simp [GovernanceState.publish, GovernanceState.addToArchive, GovernanceState.lock,
      Files.copyOver, Files.write, manifestFile]
  unfold GovernanceEnv.loadRegistry
  rw [hsame]

/-- The critical section of a candidate that verifies returns exactly when nothing stands in
its way. -/
theorem returns_criticalSection_iff {modelNames : List String} {shas : UniqueTable String String}
    (hverifies : Verifies env call s.transparencyLog s.candidate modelNames) :
    Returns (criticalSection env faults call modelNames shas) s ↔
      Undisturbed env faults call modelNames s := by
  unfold criticalSection
  rw [returns_bind_iff_of_exec fun _ _ => exec_openLock_bind_eq_ok_iff,
    returns_bind_iff_of_exec fun _ _ => exec_archiveProduction_bind_eq_ok_iff, returns_get_bind,
    returns_bind_iff_of_exec fun _ _ => exec_publishFiles_bind_eq_ok_iff,
    returns_openRegistry_bind]
  have hlock := lock_files_archive s
  have hrest (registry : ModelArtifactRegistry) := returns_promoteArtifacts_bind faults registry
    shas s.lock.now (s := (s.lock.addToArchive s.lock.files).publish s.candidate)
    (f := fun version => pure (version, s.lock.now)) (fun _ _ => returns_pure _)
    hverifies.publish
  constructor
  · rintro ⟨hopen, ⟨harchive, harchiveStep⟩, hpublish, hmanifest, registry, hload, hreturns⟩
    obtain ⟨hmodels, hcommit, hversion⟩ := (hrest registry).mp hreturns
    refine ⟨?_, hmodels, hlock ▸ harchive, ?_, hversion⟩
    · simp [hopen, harchiveStep, hpublish, hmanifest, hcommit]
    · rw [← loadRegistry_publish_lock _ s.lock.files]
      exact Option.isSome_of_eq_some hload
  · intro h
    obtain ⟨registry, hload⟩ := Option.isSome_iff_exists.mp h.manifest
    rw [← loadRegistry_publish_lock _ s.lock.files] at hload
    refine ⟨h.steps _ (by simp), ⟨hlock.trans h.archive, h.steps _ (by simp)⟩,
      h.steps _ (by simp), h.steps _ (by simp), registry, hload, ?_⟩
    exact (hrest registry).mpr ⟨h.models, h.steps _ (by simp), h.version⟩

end

end LedgerLens.Detection
