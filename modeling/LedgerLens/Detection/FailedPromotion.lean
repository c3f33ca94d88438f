import LedgerLens.Detection.ArtifactHistory

/-!
# Promotions that raise

A promotion asks the trust verifier before it changes anything, but it deprecates the active
version before it looks whether the new version may be promoted. This file says after which
promotions that raise the registry is what it was before.
-/

namespace LedgerLens.Detection

open Transition

variable {ε : Type}

namespace ModelArtifactRegistry

variable {registry : ModelArtifactRegistry} {name version : String}

/-- Calls one after another, each at its time. -/
def afterCalls (registry : ModelArtifactRegistry) (calls : List (ℕ × RegistryCall ε)) :
    ModelArtifactRegistry :=
  exec (fun registry call => (call.2.run registry call.1).2) registry calls

/-- A promotion that raises leaves the records and the manifest as they were, and whatever is
done with other models afterwards, the same version of this one stays active. -/
def FailureKeeps (registry : ModelArtifactRegistry)
    (verifier : Option (ArtifactRecord → Except ε Unit)) (name version : String) (now : ℕ) :
    Prop :=
  ∀ e, (registry.promote verifier name version now).1 = .error e →
    (registry.promote verifier name version now).2 = registry ∧
      ∀ calls : List (ℕ × RegistryCall ε), (∀ call ∈ calls, call.2.name ≠ name) →
        (afterCalls (registry.promote verifier name version now).2 calls).getActive name =
          registry.getActive name

/-- The promotion of a version that the verifier accepts and that cannot be promoted from its
stage, while another version is promoted. -/
def DemotesInVain (registry : ModelArtifactRegistry)
    (verifier : Option (ArtifactRecord → Except ε Unit)) (name version : String) : Prop :=
  ∃ verify record, verifier = some verify ∧ registry.record? name version = some record ∧
    verify record = .ok () ∧ .promoted ∉ record.stage.legalTransitions ∧
    ∃ version' other, version' ≠ version ∧ registry.record? name version' = some other ∧
      other.stage = .promoted

/-- Storing the versions of one model leaves those of the others alone. -/
theorem versions_setVersions_of_ne {name' : String} (h : name' ≠ name)
    (versions : UniqueTable String ArtifactRecord) :
    (registry.setVersions name versions).versions name' = registry.versions name' := by
  simp [ModelArtifactRegistry.versions, setVersions, h]

/-- A transition leaves the other models alone. -/
theorem versions_transition_of_ne {name' : String} (h : name' ≠ name) (target : ArtifactStage)
    (now : ℕ) (reason : Option String) :
    (registry.transition (ε := ε) name version target now reason).2.versions name' =
      registry.versions name' := by
  unfold transition
  cases registry.get (ε := ε) name version with
  | error e => rfl
  | ok record =>
    dsimp only
    split_ifs
    · rw [versions_save, modifyRecord, versions_setVersions_of_ne h]
    · rfl

/-- A promotion leaves the other models alone. -/
theorem versions_promote_of_ne {name' : String} (h : name' ≠ name)
    (verifier : Option (ArtifactRecord → Except ε Unit)) (now : ℕ) :
    (registry.promote verifier name version now).2.versions name' = registry.versions name' := by
  unfold promote
  cases registry.get (ε := ε) name version with
  | error e => rfl
  | ok record =>
    cases verifier with
    | none => rfl
    | some verify =>
      dsimp only
      cases verify record with
      | error e => rfl
      | ok _ =>
        dsimp only
        rw [versions_transition_of_ne h, supersede, versions_setVersions_of_ne h]

/-- A rollback leaves the other models alone. -/
theorem versions_rollback_of_ne {name' : String} (h : name' ≠ name)
    (version reason : Option String) (now : ℕ) :
    (registry.rollback (ε := ε) name version reason now).2.versions name' =
      registry.versions name' := by
  unfold rollback
  cases registry.rollbackTarget (ε := ε) name version with
  | error e => rfl
  | ok record =>
    have hrolled : (registry.transition (ε := ε) name record.version .rolledBack now
        reason).2.versions name' = registry.versions name' :=
      versions_transition_of_ne h .rolledBack now reason
    dsimp only
    cases htransition : registry.transition (ε := ε) name record.version .rolledBack now reason with
    | mk r after =>
      rw [htransition] at hrolled
      cases r with
      | error e => exact hrolled
      | ok rolled =>
        have hnoted : (after.noteRollback name record.version reason).versions name' =
            registry.versions name' := by
          rw [noteRollback, modifyRecord, versions_setVersions_of_ne h]
          exact hrolled
        dsimp only
        cases rolled.parentVersion.filter (· ≠ "") with
        | none => exact hnoted
        | some parentVersion =>
          dsimp only
          cases (after.noteRollback name record.version reason).get (ε := ε) name
              parentVersion with
          | error e => exact hnoted
          | ok parent =>
            dsimp only
            rw [versions_save, reactivate]
            split_ifs
            · rw [modifyRecord, versions_setVersions_of_ne h]
              exact hnoted
            · exact hnoted

/-- Every call leaves the models alone that it is not about. -/
theorem versions_run_of_ne (call : RegistryCall ε) (now : ℕ) (h : name ≠ call.name) :
    (call.run registry now).2.versions name = registry.versions name := by
  cases call with
  | register name' artifactPath content metrics tags version =>
    cases content with
    | none => rfl
    | some content => exact versions_setVersions_of_ne h _
  | validate name' version => exact versions_transition_of_ne h _ _ _
  | promote name' version verifier => exact versions_promote_of_ne h verifier now
  | deprecateVersion name' version reason => exact versions_transition_of_ne h _ _ _
  | rollback name' version reason => exact versions_rollback_of_ne h _ _ _

/-- Calls about other models leave the active version of a model as it is. -/
theorem getActive_afterCalls (calls : List (ℕ × RegistryCall ε))
    (h : ∀ call ∈ calls, call.2.name ≠ name) :
    (registry.afterCalls calls).getActive name = registry.getActive name := by
  have hversions : (registry.afterCalls calls).versions name = registry.versions name := by
    induction calls generalizing registry with
    | nil => rfl
    | cons call calls ih =>
      have hrest : ((call.2.run registry call.1).2.afterCalls calls).versions name =
          (call.2.run registry call.1).2.versions name :=
        ih fun c hc => h c (List.mem_cons_of_mem _ hc)
      exact hrest.trans (versions_run_of_ne call.2 call.1 (Ne.symm (h call List.mem_cons_self)))
  rw [getActive, hversions, getActive]

/-- Nothing is superseded where no other version is promoted. -/
theorem supersede_eq_self {record : ArtifactRecord} (now : ℕ)
    (hfind : registry.record? name version = some record)
    (hothers : ∀ version' other, version' ≠ version → registry.record? name version' = some other →
      other.stage ≠ .promoted) :
    registry.supersede name version now = registry := by
  have hrows : (registry.versions name).mapRows (fun otherVersion other =>
      if other.stage = .promoted ∧ otherVersion ≠ version then
        other.enter .deprecated now (some "superseded")
      else other) = registry.versions name :=
    UniqueTable.mapRows_self fun version' other hother =>
      if_neg fun hpromoted => hothers version' other hpromoted.2 hother hpromoted.1
  have hdata : registry.data.find? name = some (registry.versions name) := by
    unfold record? at hfind
    cases hmodel : registry.data.find? name with
    | none =>
      unfold ModelArtifactRegistry.versions at hfind
      rw [hmodel] at hfind
      cases hfind
    | some versions =>
      unfold ModelArtifactRegistry.versions
      rw [hmodel, Option.getD_some]
  rw [supersede, hrows, setVersions, UniqueTable.put_self hdata]

/-- A promotion that raises changes the registry only where it deprecates a version in
vain. -/
theorem promote_error {verifier : Option (ArtifactRecord → Except ε Unit)} {now : ℕ}
    {e : RegistryError ε} (he : (registry.promote verifier name version now).1 = .error e) :
    (registry.promote verifier name version now).2 = registry ∨
      registry.DemotesInVain verifier name version ∧
        (registry.promote verifier name version now).2 = registry.supersede name version now := by
  unfold promote at he ⊢
  cases hget : registry.get (ε := ε) name version with
  | error e' => exact .inl rfl
  | ok record =>
    have hfind := get_eq_ok_iff_record?.mp hget
    simp only [hget] at he ⊢
    cases verifier with
    | none => exact .inl rfl
    | some verify =>
      dsimp only at he ⊢
      cases hverify : verify record with
      | error e' => exact .inl rfl
      | ok _ =>
        simp only [hverify] at he ⊢
        unfold transition at he ⊢
        rw [get_supersede hget] at he ⊢
        dsimp only at he ⊢
        by_cases hlegal : .promoted ∈ record.stage.legalTransitions
        · rw [if_pos hlegal] at he
          cases he
        · rw [if_neg hlegal]
          by_cases hothers : ∃ version' other, version' ≠ version ∧
              registry.record? name version' = some other ∧ other.stage = .promoted
          · exact .inr ⟨⟨verify, record, rfl, hfind, hverify, hlegal, hothers⟩, rfl⟩
          · refine .inl (supersede_eq_self now hfind fun version' other hne hother hstage => ?_)
            exact hothers ⟨version', other, hne, hother, hstage⟩

/-- Where a version is deprecated in vain, the promotion raises and leaves it deprecated. -/
theorem promote_of_demotesInVain {verifier : Option (ArtifactRecord → Except ε Unit)}
    (h : registry.DemotesInVain verifier name version) (now : ℕ) :
    ∃ e, registry.promote verifier name version now =
      (.error e, registry.supersede name version now) := by
  obtain ⟨verify, record, rfl, hfind, hverify, hlegal, -⟩ := h
  have hget : registry.get (ε := ε) name version = .ok record := get_eq_ok_iff_record?.mpr hfind
  refine ⟨.invalidTransition name version record.stage .promoted, ?_⟩
  unfold promote
  simp only [hget, hverify]
  unfold transition
  rw [get_supersede hget]
  exact if_neg hlegal

/-- In every registry, a promotion that raises leaves everything as it was exactly if it is
not of a version that the verifier accepts and that cannot be promoted from its stage while
another version is promoted. -/
theorem failureKeeps_iff (registry : ModelArtifactRegistry)
    (verifier : Option (ArtifactRecord → Except ε Unit)) (name version : String) (now : ℕ) :
    registry.FailureKeeps verifier name version now ↔
      ¬registry.DemotesInVain verifier name version := by
  constructor
  · intro hkeeps hvain
    obtain ⟨e, hpromote⟩ := promote_of_demotesInVain hvain now
    obtain ⟨hsame, -⟩ := hkeeps e (by rw [hpromote])
    rw [hpromote] at hsame
    obtain ⟨-, -, -, -, -, -, version', other, hne, hother, hstage⟩ := hvain
    have hafter : (registry.supersede name version now).record? name version' = _ :=
      record?_supersede now name version'
    have hsame' : registry.supersede name version now = registry := hsame
    rw [hsame', if_pos rfl, hother, Option.map_some, if_pos ⟨hstage, hne⟩,
      Option.some.injEq] at hafter
    have hdeprecated := congrArg ArtifactRecord.stage hafter
    rw [hstage] at hdeprecated
    cases hdeprecated
  · intro hnot e he
    have hsame := (promote_error he).resolve_right fun h => hnot h.1
    refine ⟨hsame, fun calls hcalls => ?_⟩
    rw [hsame]
    exact getActive_afterCalls calls hcalls

/-- A model with an active version and a new one that is not validated. -/
def unvalidatedSuccessor : ModelArtifactRegistry :=
  afterCalls {} (RegistryHistory.prepared "v1" "models/rf.joblib" ++
    [RegistryHistory.promotion "v1",
      (0, .register "rf" "models/rf.joblib" (some []) .empty .empty "v2")])

/-- Promoting the new version raises, and then no version is active. -/
theorem failed_promotion_deactivates :
    ¬unvalidatedSuccessor.FailureKeeps (ε := Unit) (some fun _ => .ok ()) "rf" "v2" 0 := by
  intro h
  have hraises : (unvalidatedSuccessor.promote (ε := Unit) (some fun _ => .ok ()) "rf" "v2"
      0).1.isOk = false := by decide +kernel
  cases hpromote : (unvalidatedSuccessor.promote (ε := Unit) (some fun _ => .ok ()) "rf" "v2"
      0).1 with
  | ok record =>
    rw [hpromote] at hraises
    cases hraises
  | error e =>
    have hactive := congrArg Option.isSome ((h e hpromote).2 [] (fun _ hcall => nomatch hcall))
    revert hactive
    decide +kernel

end ModelArtifactRegistry

end LedgerLens.Detection
