import LedgerLens.Detection.ArtifactLifecycle
import LedgerLens.Library.Runs

/-!
# Histories of the artifact registry

A rollback is meant to bring back the version that was active before, and no version is
meant to be active that the trust verifier has not accepted. The registry restores the
parent that a version got when it was registered, without asking the verifier; this file
says in which histories that is the same.
-/

namespace LedgerLens.Detection

open Transition

variable {ε : Type}

/-- A call of the registry. -/
inductive RegistryCall (ε : Type) where
  /-- `register`, with the content of the artifact's file. -/
  | register (name artifactPath : String) (content : Option (List UInt8)) (metrics : Metrics)
      (tags : UniqueTable String String) (version : String)
  /-- `validate`. -/
  | validate (name version : String)
  /-- `promote`, with what the trust verifier says at the time. -/
  | promote (name version : String) (verifier : Option (ArtifactRecord → Except ε Unit))
  /-- `deprecate`. -/
  | deprecateVersion (name version : String) (reason : Option String)
  /-- `rollback`. -/
  | rollback (name : String) (version : Option String) (reason : Option String)

/-- The model that a call is about. -/
def RegistryCall.name : RegistryCall ε → String
  | register name _ _ _ _ _ => name
  | validate name _ => name
  | promote name _ _ => name
  | deprecateVersion name _ _ => name
  | rollback name _ _ => name

/-- Make a call: the version that it returns, if it returns, and the registry it leaves. -/
def RegistryCall.run (call : RegistryCall ε) (registry : ModelArtifactRegistry) (now : ℕ) :
    Except (RegistryError ε) String × ModelArtifactRegistry :=
  let version (r : Except (RegistryError ε) ArtifactRecord × ModelArtifactRegistry) :=
    (r.1.map ArtifactRecord.version, r.2)
  match call with
  | register name artifactPath content metrics tags version =>
    registry.register name artifactPath content metrics tags version now
  | validate name v => version (registry.validate name v now)
  | promote name v verifier => version (registry.promote verifier name v now)
  | deprecateVersion name v reason => version (registry.deprecateVersion name v reason now)
  | rollback name v reason => version (registry.rollback name v reason now)

/-- What the verifier accepts in the course of a call. -/
def RegistryCall.accepted (call : RegistryCall ε) (registry : ModelArtifactRegistry) :
    List RecordedArtifact :=
  match call with
  | promote name version verifier => registry.acceptedBy verifier name version
  | _ => []

/-- The registry in the course of time, with what is expected of it. -/
structure RegistryHistory where
  /-- The registry. -/
  registry : ModelArtifactRegistry := {}
  /-- For each model the version promoted last, with the version that was active before. -/
  prior : String → Option (String × String) := fun _ => none
  /-- The artifacts that the verifier has accepted. -/
  verified : List RecordedArtifact := []
  /-- The artifacts that have become active. -/
  promotions : List RecordedArtifact := []
  /-- For each rollback of the version promoted last, the version that was active before it
  and the one that is active after the rollback. -/
  rollbacks : List (String × Option String) := []

namespace RegistryHistory

/-- One call at a time. -/
def step (h : RegistryHistory) (event : ℕ × RegistryCall ε) : RegistryHistory :=
  let r := event.2.run h.registry event.1
  { registry := r.2
    prior :=
      match event.2, r.1 with
      | .promote name _ _, .ok version => fun name' =>
        if name' = name then (h.registry.activeVersion name).map fun u => (version, u)
        else h.prior name'
      | _, _ => h.prior
    verified := h.verified ++ event.2.accepted h.registry
    promotions := h.promotions ++ h.registry.newlyPromoted r.2 event.2.name
    rollbacks :=
      match event.2, r.1 with
      | .rollback name _ _, .ok version => h.rollbacks ++
        (((h.prior name).filter fun p => p.1 = version).map fun p =>
          (p.2, r.2.activeVersion name)).toList
      | _, _ => h.rollbacks }

/-- What the registry is meant to keep. -/
structure Trusted (h : RegistryHistory) : Prop where
  /-- What has become active has been accepted on its present artifact. -/
  promotions : ∀ artifact ∈ h.promotions, artifact ∈ h.verified
  /-- Each rollback has brought back the version that was active before. -/
  rollbacks : ∀ r ∈ h.rollbacks, r.2 = some r.1

/-- The condition under which a call keeps that: where a rollback finds a promoted version,
the version that was active before it, if it is the one promoted last, is its parent and can
be restored, and the parent that is restored has been accepted on its present artifact. -/
def Restores (h : RegistryHistory) (event : ℕ × RegistryCall ε) : Prop :=
  match event.2 with
  | .rollback name version _ =>
    ∀ record, h.registry.rollbackTarget name version =
        (.ok record : Except (RegistryError ε) ArtifactRecord) → record.stage = .promoted →
      (∀ u, h.prior name = some (record.version, u) → record.parent? = some u ∧
        ∃ parent, h.registry.record? name u = some parent ∧ parent.Restorable) ∧
      (∀ u parent, record.parent? = some u → h.registry.record? name u = some parent →
        parent.Restorable → parent.recorded ∈ h.verified)
  | _ => True

end RegistryHistory

/-- No call but a rollback activates what the verifier has not accepted in its course. -/
theorem RegistryCall.run_orderly {registry : ModelArtifactRegistry} (h : registry.Orderly)
    (call : RegistryCall ε) (now : ℕ) (hcall : ∀ name v reason, call ≠ .rollback name v reason) :
    (call.run registry now).2.Orderly ∧
      ∀ artifact ∈ registry.newlyPromoted (call.run registry now).2 call.name,
        artifact ∈ call.accepted registry := by
  cases call with
  | register name artifactPath content metrics tags version =>
    obtain ⟨horderly, hnone⟩ := h.register (ε := ε) name version
      artifactPath content metrics tags now
    refine ⟨horderly, fun artifact hmem => ?_⟩
    have hmem' : artifact ∈ registry.newlyPromoted
        (registry.register (ε := ε) name artifactPath content metrics tags version now).2 name :=
      hmem
    rw [hnone] at hmem'
    cases hmem'
  | validate name version =>
    obtain ⟨horderly, hnone⟩ := h.transition (ε := ε) name version now none
      (show ArtifactStage.validated ≠ .promoted by decide)
    refine ⟨horderly, fun artifact hmem => ?_⟩
    have hmem' : artifact ∈ registry.newlyPromoted
        (registry.transition (ε := ε) name version .validated now none).2 name := hmem
    rw [hnone] at hmem'
    cases hmem'
  | promote name version verifier => exact h.promote verifier now
  | deprecateVersion name version reason =>
    obtain ⟨horderly, hnone⟩ := h.transition (ε := ε) name version now reason
      (show ArtifactStage.deprecated ≠ .promoted by decide)
    refine ⟨horderly, fun artifact hmem => ?_⟩
    have hmem' : artifact ∈ registry.newlyPromoted
        (registry.transition (ε := ε) name version .deprecated now reason).2 name := hmem
    rw [hnone] at hmem'
    cases hmem'
  | rollback name version reason => exact absurd rfl (hcall name version reason)

/-- A rollback that raises changes nothing; one that returns has found a promoted version. -/
theorem RegistryCall.run_rollback {registry : ModelArtifactRegistry} (h : registry.Orderly)
    (name : String) (version reason : Option String) (now : ℕ) :
    ((∀ record, registry.rollbackTarget name version =
        (.ok record : Except (RegistryError ε) ArtifactRecord) → record.stage ≠ .promoted) ∧
      ∃ e, (RegistryCall.rollback (ε := ε) name version reason).run registry now =
        (.error e, registry)) ∨
    ∃ record, registry.rollbackTarget name version =
        (.ok record : Except (RegistryError ε) ArtifactRecord) ∧ record.stage = .promoted ∧
      registry.record? name record.version = some record ∧
      (RegistryCall.rollback (ε := ε) name version reason).run registry now =
        (.ok record.version, registry.restored name record reason now) := by
  by_cases hex : ∃ record, registry.rollbackTarget name version =
      (.ok record : Except (RegistryError ε) ArtifactRecord) ∧ record.stage = .promoted
  · obtain ⟨record, htarget, hstage⟩ := hex
    obtain ⟨r, hversion, hrollback⟩ := h.rollback_of_promoted htarget hstage reason now
    refine .inr ⟨record, htarget, hstage, h.record?_of_rollbackTarget htarget, ?_⟩
    simp only [run, hrollback, Except.map, hversion]
  · have hnot : ∀ record, registry.rollbackTarget name version =
        (.ok record : Except (RegistryError ε) ArtifactRecord) → record.stage ≠ .promoted :=
      fun record htarget hstage => hex ⟨record, htarget, hstage⟩
    obtain ⟨e, hrollback⟩ := ModelArtifactRegistry.rollback_of_not_promoted reason now hnot
      fun record htarget => h.record?_of_rollbackTarget htarget
    exact .inl ⟨hnot, e, by simp only [run, hrollback, Except.map]⟩

namespace RegistryHistory

/-- The invariant of the trusted histories. -/
structure Kept (h : RegistryHistory) : Prop where
  /-- The registry is in order. -/
  orderly : h.registry.Orderly
  /-- What it is meant to keep is kept. -/
  trusted : h.Trusted

/-- What is recorded of a rollback that returns. -/
theorem step_rollback {h : RegistryHistory} {now : ℕ} {name : String}
    {version reason : Option String} {v : String} {registry : ModelArtifactRegistry}
    (hrun : (RegistryCall.rollback (ε := ε) name version reason).run h.registry now =
      (.ok v, registry)) :
    h.step (ε := ε) (now, .rollback name version reason) = { h with
      registry := registry
      promotions := h.promotions ++ h.registry.newlyPromoted registry name
      rollbacks := h.rollbacks ++
        (((h.prior name).filter fun p => p.1 = v).map fun p =>
          (p.2, registry.activeVersion name)).toList } := by
  simp only [step, hrun, RegistryCall.accepted, RegistryCall.name, List.append_nil]

/-- A rollback that finds no promoted version changes nothing. -/
theorem step_rollback_error {h : RegistryHistory} {now : ℕ} {name : String}
    {version reason : Option String} {e : RegistryError ε}
    (hrun : (RegistryCall.rollback (ε := ε) name version reason).run h.registry now =
      (.error e, h.registry)) : h.step (ε := ε) (now, .rollback name version reason) = h := by
  simp only [step, hrun, RegistryCall.accepted, RegistryCall.name, List.append_nil,
    ModelArtifactRegistry.newlyPromoted_self]

/-- What is recorded of other calls: the verifier has accepted all that became active. -/
theorem step_other {h : RegistryHistory} {event : ℕ × RegistryCall ε}
    (hcall : ∀ name v reason, event.2 ≠ .rollback name v reason) :
    (h.step event).registry = (event.2.run h.registry event.1).2 ∧
      (h.step event).rollbacks = h.rollbacks := by
  refine ⟨rfl, ?_⟩
  obtain ⟨now, call⟩ := event
  cases call with
  | rollback name version reason => exact absurd rfl (hcall name version reason)
  | _ => rfl

/-- A call under the condition keeps the invariant. -/
theorem Kept.step {h : RegistryHistory} {event : ℕ × RegistryCall ε} (hs : h.Kept)
    (hcond : h.Restores event) : (h.step event).Kept := by
  by_cases hcall : ∀ name v reason, event.2 ≠ .rollback name v reason
  · obtain ⟨horderly, haccepted⟩ := event.2.run_orderly hs.orderly event.1 hcall
    obtain ⟨hregistry, hrollbacks⟩ := step_other (h := h) hcall
    refine ⟨hregistry ▸ horderly, ?_, ?_⟩
    · intro artifact hmem
      obtain hold | hnew := List.mem_append.mp hmem
      · exact List.mem_append_left _ (hs.trusted.promotions artifact hold)
      · exact List.mem_append_right _ (haccepted artifact hnew)
    · rw [hrollbacks]
      exact hs.trusted.rollbacks
  · simp only [not_forall, not_not] at hcall
    obtain ⟨name, version, reason, hcall⟩ := hcall
    obtain ⟨now, call⟩ := event
    subst hcall
    obtain ⟨-, e, hrun⟩ | ⟨record, htarget, hstage, hrecord, hrun⟩ :=
      RegistryCall.run_rollback (ε := ε) hs.orderly name version reason now
    · rw [step_rollback_error hrun]
      exact hs
    · obtain ⟨hprior, hverified⟩ := hcond record htarget hstage
      obtain ⟨horderly, hactive, hnew⟩ := hs.orderly.restored hrecord hstage reason now
      rw [step_rollback hrun]
      refine ⟨horderly, ?_, ?_⟩
      · intro artifact hmem
        obtain hold | hmem := List.mem_append.mp hmem
        · exact hs.trusted.promotions artifact hold
        · obtain ⟨u, parent, hparent, hfind, hrestorable, rfl⟩ := (hnew artifact).mp hmem
          exact hverified u parent hparent hfind hrestorable
      · intro r hmem
        obtain hold | hmem := List.mem_append.mp hmem
        · exact hs.trusted.rollbacks r hold
        · obtain ⟨p, hp, rfl⟩ := Option.map_eq_some_iff.mp (Option.mem_toList.mp hmem)
          obtain ⟨hp, hversion⟩ := Option.filter_eq_some_iff.mp hp
          have hversion : p.1 = record.version := by simpa using hversion
          refine (hactive p.2).mpr (hprior p.2 ?_)
          rw [hp, ← hversion]

/-- A rollback that breaks the condition does not bring back the version that was active
before, or brings back a version that was not accepted. -/
theorem not_trusted_of_not_restores {h : RegistryHistory} {event : ℕ × RegistryCall ε}
    (hs : h.Kept) (hcond : ¬h.Restores event) : ¬(h.step event).Trusted := by
  intro htrusted
  obtain ⟨now, call⟩ := event
  cases call with
  | rollback name version reason =>
    simp only [Restores, not_forall] at hcond
    obtain ⟨record, htarget, hstage, hcond⟩ := hcond
    obtain ⟨hnone, -⟩ | ⟨record', htarget', -, hrecord, hrun⟩ :=
      RegistryCall.run_rollback (ε := ε) hs.orderly name version reason now
    · exact hnone record htarget hstage
    · rw [htarget, Except.ok.injEq] at htarget'
      subst htarget'
      obtain ⟨-, hactive, hnew⟩ := hs.orderly.restored hrecord hstage reason now
      rw [step_rollback hrun] at htrusted
      apply hcond
      constructor
      · intro u hprior
        have hrollback := htrusted.rollbacks
          (u, (h.registry.restored name record reason now).activeVersion name)
          (List.mem_append_right _ (by simp [hprior]))
        exact (hactive u).mp hrollback
      · intro u parent hparent hfind hrestorable
        exact htrusted.promotions parent.recorded (List.mem_append_right _
          ((hnew parent.recorded).mpr ⟨u, parent, hparent, hfind, hrestorable, rfl⟩))
  | _ => exact hcond trivial

/-- A registry without records is in order. -/
theorem kept_start : Kept {} where
  orderly := by
    constructor
    case single =>
      intro name v v' r r' hr
      cases hr
    case named =>
      intro name v r hr
      cases hr
    case parents =>
      intro name v r u hr
      cases hr
  trusted := by
    constructor
    case promotions =>
      intro artifact hmem
      cases hmem
    case rollbacks =>
      intro r hmem
      cases hmem

/-- In every history of an empty registry, each rollback of the version promoted last brings
back the version that was active before, and nothing becomes active that was not accepted,
exactly when every rollback meets the condition. -/
theorem always_trusted_iff (events : List (ℕ × RegistryCall ε)) :
    Always step Trusted {} events ↔ Meets step Restores {} events :=
  always_iff_meets Kept (fun _ hs => hs.trusted) (fun _ _ hs hcond => hs.step hcond)
    (fun _ _ hs hcond => not_trusted_of_not_restores hs hcond) kept_start events

/-- A version of a model that is registered and validated. -/
def prepared (version artifactPath : String) : List (ℕ × RegistryCall Unit) :=
  [(0, .register "rf" artifactPath (some []) .empty .empty version),
    (0, .validate "rf" version)]

/-- The promotion of a version that the verifier accepts. -/
def promotion (version : String) : ℕ × RegistryCall Unit :=
  (0, .promote "rf" version (some fun _ => .ok ()))

/-- Two versions are registered while `v1` is active and promoted one after the other; then
the second is rolled back. -/
def rollbackToParent : List (ℕ × RegistryCall Unit) :=
  prepared "v1" "models/rf.joblib" ++ [promotion "v1"] ++ prepared "v2" "models/rf.joblib" ++
    prepared "v3" "models/rf.joblib" ++
      [promotion "v2", promotion "v3", (0, .rollback "rf" none none)]

/-- `v1` is registered anew, with another artifact that is never promoted, while its
successor is active; then the successor is rolled back. -/
def rollbackToUnverified : List (ℕ × RegistryCall Unit) :=
  prepared "v1" "models/rf.joblib" ++ [promotion "v1"] ++ prepared "v2" "models/rf.joblib" ++
    [promotion "v2"] ++ prepared "v1" "models/other.joblib" ++ [(0, .rollback "rf" none none)]

/-- The rollback activates `v1` where `v2` was active before, and it activates an artifact
that the verifier was never asked about. -/
theorem rollback_not_trusted :
    ¬Always step Trusted {} rollbackToParent ∧ ¬Always step Trusted {} rollbackToUnverified := by
  constructor
  · intro halways
    have hrollback := halways.last.rollbacks ("v2", some "v1") (by decide +kernel)
    revert hrollback
    decide
  · intro halways
    have hpaths : ∀ artifact ∈ (exec step {} rollbackToUnverified).promotions,
        artifact.artifactPath ∈ (exec step {} rollbackToUnverified).verified.map
          RecordedArtifact.artifactPath := by
      intro artifact hmem
      exact List.mem_map_of_mem (halways.last.promotions artifact hmem)
    revert hpaths
    decide +kernel

end RegistryHistory

end LedgerLens.Detection
