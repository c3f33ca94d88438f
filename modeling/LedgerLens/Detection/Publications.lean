import LedgerLens.Detection.GovernanceEffects
import LedgerLens.Library.Runs

/-!
# What promotions publish

The transparency log outlives the promotion that writes to it. The fourth of the five gates
signs the artifacts one after another and publishes each hash at once, before the fifth gate
and before the critical section. So a hash is in the log exactly if some promotion got as far
as signing its artifact; what becomes of that promotion afterwards does not matter.
-/

namespace LedgerLens.Detection

open Raising

/-- A call of `promote_candidate` with what it finds. The directories and the tables may have
been changed by anyone in the meantime; only the transparency log is what the calls before
have left. -/
structure PromotionAttempt where
  /-- The configuration. -/
  env : GovernanceEnv
  /-- The steps that fail. -/
  faults : Faults
  /-- The arguments. -/
  call : PromoteCall
  /-- The directories and the tables. -/
  start : GovernanceState

namespace PromotionAttempt

/-- The state in which the call starts. -/
def found (attempt : PromotionAttempt) (log : TransparencyLog) : GovernanceState :=
  { attempt.start with transparencyLog := log }

/-- The log that the call leaves, whether it returns or raises. -/
def publish (attempt : PromotionAttempt) (log : TransparencyLog) : TransparencyLog :=
  (exec (promoteCandidate attempt.env attempt.faults attempt.call)
    (attempt.found log)).2.transparencyLog

end PromotionAttempt

/-- The log after some calls, the first of which starts with an empty one. -/
def publishedLog (attempts : List PromotionAttempt) : TransparencyLog :=
  Transition.exec (fun log attempt => attempt.publish log) {} attempts

section

variable (env : GovernanceEnv) (faults : Faults) (call : PromoteCall) (s : GovernanceState)

/-- A promotion publishes a hash: it passes the first three gates, and the fourth accepts the
models before one whose artifact it signs and that has this hash. -/
structure Publishes (sha : String) : Prop where
  /-- Authorisation. -/
  authorized : Authorized env call
  /-- Quarantine. -/
  cleared : Cleared faults call s
  /-- Regression. -/
  approved : (evaluateRegressionGate call.oldMetrics call.newMetrics
    (call.names env s.candidate) env.tolerance).approved = true
  /-- The part of the trust chain that is gone through. -/
  signed : ∃ k name shas s' s'', (call.names env s.candidate)[k]? = some name ∧
    TrustPassed env faults call ((call.names env s.candidate).take k) s shas s' ∧
    exec (signAndRegisterArtifact env faults call k name) s' = (.ok sha, s'') ∧
    ∃ artifact, s.candidate (artifactFile name) = some artifact ∧ Sha256.hexdigest artifact = sha

/-- A promotion passes all five gates. -/
structure PassesGates : Prop where
  /-- Authorisation. -/
  authorized : Authorized env call
  /-- Quarantine. -/
  cleared : Cleared faults call s
  /-- Regression. -/
  approved : (evaluateRegressionGate call.oldMetrics call.newMetrics
    (call.names env s.candidate) env.tolerance).approved = true
  /-- Trust chain and compatibility. -/
  trusted : ∃ shas s', TrustPassed env faults call (call.names env s.candidate) s shas s' ∧
    Compatible env call (call.names env s.candidate) s'.candidate

end

section

variable {env : GovernanceEnv} {faults : Faults} {call : PromoteCall} {modelNames : List String}
  {α β : Type} {s s' : GovernanceState} {log : TransparencyLog} {sha : String}

/-- An audit row does not touch the transparency log. -/
theorem keeps_transparencyLog_recordAudit (row : AuditRow) :
    Keeps (fun s => s.transparencyLog = log) (recordAudit faults row) :=
  keeps_attempt.bind fun _ => Keeps.modify fun _ hs => hs

/-- Neither does a refusal. -/
theorem keeps_transparencyLog_deny {error : GovernanceError} {detail : String} :
    Keeps (fun s => s.transparencyLog = log) (do
      deny faults call modelNames error detail
      throw error : Program α) :=
  (keeps_transparencyLog_recordAudit _).bind fun _ => Keeps.throw _

/-- The first gate publishes nothing. -/
theorem keeps_transparencyLog_authorizationGate :
    Keeps (fun s => s.transparencyLog = log)
      (authorizationGate env faults call modelNames) := by
  unfold authorizationGate
  split
  · exact Keeps.pure _
  · exact Keeps.throw _
  · exact keeps_transparencyLog_deny

/-- The second gate publishes nothing. -/
theorem keeps_transparencyLog_quarantineGate :
    Keeps (fun s => s.transparencyLog = log) (quarantineGate faults call modelNames) := by
  have hadvice : Keeps (fun s => s.transparencyLog = log) (followAdvice faults call) := by
    unfold followAdvice
    split
    · refine keeps_attempt.bind fun _ => Keeps.get.bind fun s => ?_
      split
      · exact Keeps.throw _
      · exact Keeps.modify fun _ hs => hs
    · exact Keeps.pure _
  refine hadvice.bind fun _ => keeps_attempt.bind fun _ => Keeps.get.bind fun s => ?_
  split
  · exact Keeps.pure _
  · exact keeps_transparencyLog_deny

/-- The third gate publishes nothing. -/
theorem keeps_transparencyLog_regressionGate :
    Keeps (fun s => s.transparencyLog = log)
      (regressionGate env faults call modelNames) := by
  unfold regressionGate
  dsimp only
  split
  · exact Keeps.pure _
  · exact keeps_transparencyLog_deny

/-- The fifth gate publishes nothing. -/
theorem keeps_transparencyLog_compatibilityGate :
    Keeps (fun s => s.transparencyLog = log)
      (compatibilityGate env faults call modelNames) := by
  refine Keeps.get.bind fun s => ?_
  split
  · exact Keeps.pure _
  · exact keeps_transparencyLog_deny

/-- A gate that publishes nothing: either it lets the call pass, or the log stays as it is. -/
theorem transparencyLog_gate_bind {gate : Program Unit} {cond : Prop}
    (hok : ∀ u s', exec gate s = (.ok u, s') ↔ cond ∧ s' = s)
    (hkeeps : Keeps (fun s' => s'.transparencyLog = s.transparencyLog) gate)
    (rest : Unit → Program α) :
    cond ∧ exec (gate >>= rest) s = exec (rest ()) s ∨
      ¬cond ∧ (exec (gate >>= rest) s).2.transparencyLog = s.transparencyLog := by
  by_cases hcond : cond
  · exact .inl ⟨hcond, exec_bind_of_ok ((hok () s).mpr ⟨hcond, rfl⟩)⟩
  · have hkept := hkeeps s rfl
    have hnot : ¬Returns gate s := fun ⟨u, s', hexec⟩ => hcond ((hok u s').mp hexec).1
    obtain ⟨e, s', hexec⟩ := exists_error_of_not_returns hnot
    rw [hexec] at hkept
    refine .inr ⟨hcond, ?_⟩
    rw [exec_bind_of_error hexec]
    exact hkept

/-- A hash is signed and published by the step of the fourth gate for one model. -/
def SignsArtifact (env : GovernanceEnv) (faults : Faults) (call : PromoteCall) (sha : String)
    (model : String × ℕ) (s : GovernanceState) : Prop :=
  ∃ s', exec (signAndRegisterArtifact env faults call model.2 model.1) s = (.ok sha, s')

/-- The log after signing and publishing one artifact. -/
theorem contains_signAndRegisterArtifact_iff (model : String × ℕ) (s : GovernanceState) :
    (exec (signAndRegisterArtifact env faults call model.2 model.1)
        s).2.transparencyLog.contains sha = true ↔
      s.transparencyLog.contains sha = true ∨ SignsArtifact env faults call sha model s := by
  unfold SignsArtifact
  rw [exec_signAndRegisterArtifact]
  cases faults.fails (.signArtifact model.2) with
  | true => simp
  | false =>
    cases hsign : signArtifact env call s.candidate model.1 with
    | error e => simp
    | ok signed =>
      obtain ⟨sha', files⟩ := signed
      have hcontains := TransparencyLog.contains_append s.transparencyLog model.1 sha' sha
      cases happend : s.transparencyLog.append model.1 sha' with
      | error message => simp [happend]
      | ok log =>
        have hhash : TransparencyLog.isHash sha' = true := by
          unfold TransparencyLog.append at happend
          by_contra hnot
          rw [Bool.not_eq_true] at hnot
          simp [hnot] at happend
        rw [happend] at hcontains
        simpa [happend, hhash] using hcontains

/-- The log after one round of the fourth gate: the verification only reads it. -/
theorem contains_signAndVerifyArtifact_iff {publicKey : Bytes}
    (shas : UniqueTable String String) (model : String × ℕ) (s : GovernanceState) :
    (exec (signAndVerifyArtifact env faults call publicKey shas model)
        s).2.transparencyLog.contains sha = true ↔
      s.transparencyLog.contains sha = true ∨ SignsArtifact env faults call sha model s := by
  rw [← contains_signAndRegisterArtifact_iff]
  unfold signAndVerifyArtifact
  rw [exec_bind_of_keeps GovernanceState.transparencyLog fun _ _ =>
    keeps_attempt.bind fun _ => Keeps.get.bind fun s =>
      (Keeps.ofExcept _).bind fun _ => Keeps.pure _]

/-- The first pairs of a numbered list are the first elements, numbered. -/
theorem take_zipIdx (names : List String) (k : ℕ) :
    names.zipIdx.take k = (names.take k).zipIdx := by
  apply List.ext_getElem?
  intro j
  rw [List.getElem?_take, List.getElem?_zipIdx, List.getElem?_zipIdx, List.getElem?_take]
  split <;> rfl

/-- The log after the loop of the fourth gate. -/
theorem contains_signAndVerifyCandidate_iff (modelNames : List String) (s : GovernanceState) :
    (exec (signAndVerifyCandidate env faults call modelNames)
        s).2.transparencyLog.contains sha = true ↔
      s.transparencyLog.contains sha = true ∨ ∃ k name shas s', modelNames[k]? = some name ∧
        exec (signAndVerifyCandidate env faults call (modelNames.take k)) s = (.ok shas, s') ∧
        SignsArtifact env faults call sha (name, k) s' := by
  simp only [exec_signAndVerifyCandidate_eq_ok_iff]
  unfold signAndVerifyCandidate
  split
  · next hkey => simp [hkey]
  · next hpublic _ => simp [hpublic]
  · next publicKey hpublic hkey =>
    have hround (shas : UniqueTable String String) (model : String × ℕ) (s : GovernanceState) :
        (exec (signAndVerifyArtifact env faults call publicKey shas model)
          s).2.transparencyLog.contains sha = true ↔ _ :=
      contains_signAndVerifyArtifact_iff shas model s
    have hloop := exec_foldlM_gains_iff (P := fun s => s.transparencyLog.contains sha = true)
      hround modelNames.zipIdx .empty s
    have hbody : (exec (wrapIntegrity (modelNames.zipIdx.foldlM
        (signAndVerifyArtifact env faults call publicKey) .empty)) s).2.transparencyLog = _ :=
      exec_tryCatch_of_keeps GovernanceState.transparencyLog
        (fun e _ => by cases e <;> exact Keeps.throw _) s
    rw [hbody, hloop]
    simp only [take_zipIdx, List.getElem?_zipIdx, Option.map_eq_some_iff]
    refine or_congr_right ⟨?_, ?_⟩
    · rintro ⟨k, model, shas, s', ⟨name, hname, rfl⟩, hexec, hsigns⟩
      rw [Nat.zero_add] at hsigns
      exact ⟨k, name, shas, s', hname, ⟨publicKey, hkey, hpublic, hexec⟩, hsigns⟩
    · rintro ⟨k, name, shas, s', hname, ⟨publicKey', -, hpublic', hexec⟩, hsigns⟩
      obtain rfl := Option.some.inj (hpublic.symm.trans hpublic')
      refine ⟨k, (name, k), shas, s', ⟨name, hname, by rw [Nat.zero_add]⟩, hexec, hsigns⟩

/-- The signing of a candidate leaves its artifacts alone. -/
theorem artifact_of_signAndVerifyCandidate {shas : UniqueTable String String}
    (h : exec (signAndVerifyCandidate env faults call modelNames) s = (.ok shas, s'))
    (name : String) : s'.candidate (artifactFile name) = s.candidate (artifactFile name) := by
  obtain ⟨publicKey, -, -, hloop⟩ := exec_signAndVerifyCandidate_eq_ok_iff.mp h
  refine foldlM_invariant
    (fun _ _ x => x.candidate (artifactFile name) = s.candidate (artifactFile name))
    ?_ [] rfl hloop
  intro done shas x model shas' x' hinv hround
  obtain ⟨sha, files, log, hsign, -, rfl, -⟩ := signAndVerifyArtifact_spec hround
  exact (artifact_of_signArtifact hsign name).trans hinv

/-- The log after the fourth gate and what follows it. -/
theorem contains_trustGate_bind_iff {rest : UniqueTable String String → Program α}
    (hrest : ∀ shas log, Keeps (fun s => s.transparencyLog = log) (rest shas)) :
    (exec (trustGate env faults call modelNames >>= rest) s).2.transparencyLog.contains sha =
        true ↔
      s.transparencyLog.contains sha = true ∨ ∃ k name shas s', modelNames[k]? = some name ∧
        TrustPassed env faults call (modelNames.take k) s shas s' ∧
        SignsArtifact env faults call sha (name, k) s' := by
  rw [exec_bind_of_keeps GovernanceState.transparencyLog hrest]
  unfold trustGate TrustPassed attempt
  cases faults.fails .openTransparencyLog with
  | true => simp
  | false =>
    have hdeny (e : GovernanceError) (log : TransparencyLog) :
        Keeps (fun s => s.transparencyLog = log)
          (denyUntrusted faults call modelNames e : Program (UniqueTable String String)) := by
      unfold denyUntrusted
      split
      · exact keeps_transparencyLog_deny
      · exact Keeps.throw _
    simp only [Bool.false_eq_true, if_false, pure_bind, true_and]
    rw [exec_tryCatch_of_keeps GovernanceState.transparencyLog hdeny]
    exact contains_signAndVerifyCandidate_iff modelNames s

/-- A promotion adds exactly what it publishes to the log, however it ends. -/
theorem contains_promoteCandidate_iff :
    (exec (promoteCandidate env faults call) s).2.transparencyLog.contains sha = true ↔
      s.transparencyLog.contains sha = true ∨ Publishes env faults call s sha := by
  unfold promoteCandidate
  rw [exec_bind_of_ok (exec_get s)]
  dsimp only
  by_cases hnames : call.names env s.candidate = []
  · rw [if_pos hnames, exec_throw]
    refine ⟨.inl, fun h => h.resolve_right fun hpublishes => ?_⟩
    obtain ⟨k, name, shas, s', s'', hname, -⟩ := hpublishes.signed
    rw [hnames] at hname
    cases hname
  rw [if_neg hnames]
  obtain ⟨hauthorized, hexec⟩ | ⟨hnot, hkept⟩ :=
    transparencyLog_gate_bind (fun _ _ => exec_authorizationGate_eq_ok_iff)
      keeps_transparencyLog_authorizationGate _
  case inr =>
    rw [hkept]
    exact ⟨.inl, fun h => h.resolve_right fun hpublishes => hnot hpublishes.authorized⟩
  rw [hexec]
  obtain ⟨hcleared, hexec⟩ | ⟨hnot, hkept⟩ :=
    transparencyLog_gate_bind (fun _ _ => exec_quarantineGate_eq_ok_iff)
      keeps_transparencyLog_quarantineGate _
  case inr =>
    rw [hkept]
    exact ⟨.inl, fun h => h.resolve_right fun hpublishes => hnot hpublishes.cleared⟩
  rw [hexec]
  obtain ⟨happroved, hexec⟩ | ⟨hnot, hkept⟩ :=
    transparencyLog_gate_bind (fun _ _ => exec_regressionGate_eq_ok_iff)
      keeps_transparencyLog_regressionGate _
  case inr =>
    rw [hkept]
    exact ⟨.inl, fun h => h.resolve_right fun hpublishes => hnot hpublishes.approved⟩
  rw [hexec, contains_trustGate_bind_iff]
  · refine or_congr_right ⟨?_, ?_⟩
    · rintro ⟨k, name, shas, s', hname, htrust, s'', hsigns⟩
      obtain ⟨files, log, hsign, -, -⟩ := signAndRegisterArtifact_spec hsigns
      obtain ⟨⟨artifact, hartifact, hsha⟩, -⟩ := signArtifact_spec hsign
      have hkept := artifact_of_signAndVerifyCandidate htrust.2 name
      exact ⟨hauthorized, hcleared, happroved, k, name, shas, s', s'', hname, htrust, hsigns,
        artifact, hkept.symm.trans hartifact, hsha.symm⟩
    · rintro ⟨-, -, -, k, name, shas, s', s'', hname, htrust, hsigns, -⟩
      exact ⟨k, name, shas, s', hname, htrust, s'', hsigns⟩
  · intro shas log
    refine keeps_transparencyLog_compatibilityGate.bind fun _ => ?_
    refine (keeps_criticalSection fun _ _ _ _ hs => hs).bind fun _ => ?_
    exact (keeps_transparencyLog_recordAudit _).bind fun _ => Keeps.pure _

end

/-- What is published by one of some calls, each in the state in which it starts. -/
def PublishedBy (attempts : List PromotionAttempt) (sha : String) : Prop :=
  ∃ before attempt after, attempts = before ++ attempt :: after ∧
    Publishes attempt.env attempt.faults attempt.call (attempt.found (publishedLog before)) sha

/-- After any sequence of calls, a hash is in the transparency log exactly if one of them has
published it; and what is verified in any directory has such a hash. -/
theorem publishedLog_iff (attempts : List PromotionAttempt) :
    (∀ sha, (publishedLog attempts).contains sha = true ↔ PublishedBy attempts sha) ∧
    ∀ (tools : TrustTools) (dir : ModelDir) (modelName : String) (publicKey : Bytes)
      (expected : Option String) (sha : String),
      dir.verify tools (publishedLog attempts) modelName publicKey expected = .ok sha →
        (∃ artifact, dir.files (artifactFile modelName) = some artifact ∧
          Sha256.hexdigest artifact = sha) ∧ PublishedBy attempts sha := by
  have hlog (sha : String) :
      (publishedLog attempts).contains sha = true ↔ PublishedBy attempts sha := by
    have hempty : ({} : TransparencyLog).contains sha = false := rfl
    have hstep (log : TransparencyLog) (attempt : PromotionAttempt) :
        (attempt.publish log).contains sha = true ↔ log.contains sha = true ∨
          Publishes attempt.env attempt.faults attempt.call (attempt.found log) sha :=
      contains_promoteCandidate_iff
    have hgains : (publishedLog attempts).contains sha = true ↔
        ({} : TransparencyLog).contains sha = true ∨ PublishedBy attempts sha :=
      Transition.exec_gains_iff (P := fun log : TransparencyLog => log.contains sha = true) hstep
        attempts {}
    exact hgains.trans (or_iff_right (by simp [hempty]))
  refine ⟨hlog, ?_⟩
  intro tools dir modelName publicKey expected sha hverify
  have hverify' : dir.verify tools (publishedLog attempts) modelName publicKey = .ok sha := by
    cases expected with
    | none => exact hverify
    | some expected => exact (verify_some_eq_ok_iff.mp hverify).2
  obtain ⟨hartifact, -, hcontains⟩ := ModelDir.verify_eq_ok_iff.mp hverify'
  exact ⟨hartifact, (hlog sha).mp hcontains⟩

/-- A candidate that no runtime can load. -/
def incompatibleAttempt : PromotionAttempt where
  env := { smallEnv with checkCompatibility := fun _ _ => .error "python version" }
  faults := ⟨fun _ => false, fun _ => false⟩
  call := firstPromotion
  start := beforePromotion

/-- The fifth gate refuses this candidate, but its hash is in the log, and the signed files
verify in any directory. -/
theorem incompatible_candidate_published :
    (publishedLog [incompatibleAttempt]).contains (Sha256.hexdigest [2]) = true ∧
      (∀ before attempt after, [incompatibleAttempt] = before ++ attempt :: after →
        ¬PassesGates attempt.env attempt.faults attempt.call
          (attempt.found (publishedLog before))) ∧
      (ModelDir.mk "elsewhere" (exec (promoteCandidate incompatibleAttempt.env
          incompatibleAttempt.faults incompatibleAttempt.call)
          (incompatibleAttempt.found {})).2.candidate).verify smallEnv.tools
        (publishedLog [incompatibleAttempt]) "rf" ModelDir.signingKey =
          .ok (Sha256.hexdigest [2]) := by
  refine ⟨by decide +kernel, ?_, by decide +kernel⟩
  intro before attempt after hsplit hpasses
  cases before with
  | nil =>
    obtain ⟨rfl, -⟩ := List.cons.inj hsplit
    obtain ⟨shas, s', -, hcompatible⟩ := hpasses.trusted
    have hrefused := hcompatible "rf" (by decide)
    cases hrefused
  | cons e before => simp at hsplit

end LedgerLens.Detection
