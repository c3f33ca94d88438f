import LedgerLens.Detection.ArtifactRegistry

/-!
# The operations of the artifact registry

What each operation of the registry does to its records: at most one version of a model is
promoted, a promotion activates only what the verifier accepts, and a rollback activates the
parent of the version if it can be restored.
-/

namespace LedgerLens.Detection

variable {ε : Type}

/-- What the registry has recorded of an artifact. -/
structure RecordedArtifact where
  /-- The model. -/
  name : String
  /-- The version. -/
  version : String
  /-- Where the artifact was. -/
  artifactPath : String
  /-- Its hash. -/
  sha256 : String
  deriving DecidableEq

/-- The artifact of a record. -/
def ArtifactRecord.recorded (record : ArtifactRecord) : RecordedArtifact :=
  ⟨record.name, record.version, record.artifactPath, record.sha256⟩

/-- The parent that a rollback goes back to, if there is one. -/
def ArtifactRecord.parent? (record : ArtifactRecord) : Option String :=
  record.parentVersion.filter (· ≠ "")

/-- Only a promoted version can be rolled back. -/
theorem ArtifactStage.eq_promoted_of_rolledBack_mem {stage : ArtifactStage}
    (h : .rolledBack ∈ stage.legalTransitions) : stage = .promoted := by
  revert h
  cases stage <;> decide

namespace ModelArtifactRegistry

/-- The record of a version. -/
def record? (registry : ModelArtifactRegistry) (name version : String) :
    Option ArtifactRecord :=
  (registry.versions name).find? version

/-- The artifacts of a model that are promoted now and were not before. -/
def newlyPromoted (before after : ModelArtifactRegistry) (name : String) :
    List RecordedArtifact :=
  ((after.versions name).rows.filter fun row => row.2.stage = .promoted ∧
    (before.record? name row.1).map ArtifactRecord.stage ≠ some .promoted).map
      (·.2.recorded)

/-- The version that is active. -/
def activeVersion (registry : ModelArtifactRegistry) (name : String) : Option String :=
  (registry.getActive name).map ArtifactRecord.version

/-- What a verifier that `promote` asks accepts. -/
def acceptedBy (registry : ModelArtifactRegistry)
    (verifier : Option (ArtifactRecord → Except ε Unit)) (name version : String) :
    List RecordedArtifact :=
  match verifier, registry.record? name version with
  | some verify, some record =>
    match verify record with
    | .error _ => []
    | .ok () => [record.recorded]
  | _, _ => []

variable {registry : ModelArtifactRegistry} {name version : String} {record : ArtifactRecord}

/-- What holds of the records in every history. -/
structure Orderly (registry : ModelArtifactRegistry) : Prop where
  /-- At most one version of a model is promoted. -/
  single : ∀ name v v' r r', registry.record? name v = some r →
    registry.record? name v' = some r' → r.stage = .promoted → r'.stage = .promoted → v = v'
  /-- A record is stored under its version. -/
  named : ∀ name v r, registry.record? name v = some r → r.version = v
  /-- The parent of a version is a version. -/
  parents : ∀ name v r u, registry.record? name v = some r → r.parent? = some u →
    registry.record? name u ≠ none

/-- A lookup that returns finds the record. -/
theorem get_eq_ok_iff_record? :
    registry.get name version = (.ok record : Except (RegistryError ε) ArtifactRecord) ↔
      registry.record? name version = some record :=
  get_eq_ok_iff

/-- Saving changes no record. -/
@[simp] theorem record?_save (name' version' : String) :
    registry.save.record? name' version' = registry.record? name' version' := rfl

/-- The records after the versions of a model are stored. -/
theorem record?_setVersions (versions : UniqueTable String ArtifactRecord)
    (name' version' : String) :
    (registry.setVersions name versions).record? name' version' =
      if name' = name then versions.find? version' else registry.record? name' version' := by
  unfold record? ModelArtifactRegistry.versions setVersions
  rw [UniqueTable.find?_put]
  split <;> rfl

/-- The records after one is changed. -/
theorem record?_modifyRecord (f : ArtifactRecord → ArtifactRecord) (name' version' : String) :
    (registry.modifyRecord name version f).record? name' version' =
      if name' = name ∧ version' = version then (registry.record? name version).map f
      else registry.record? name' version' := by
  rw [modifyRecord, record?_setVersions, UniqueTable.find?_modify]
  by_cases hname : name' = name
  · subst hname
    by_cases hversion : version' = version
    · rw [if_pos rfl, if_pos hversion, if_pos ⟨rfl, hversion⟩]
      rfl
    · rw [if_pos rfl, if_neg hversion, if_neg fun h => hversion h.2]
      rfl
  · rw [if_neg hname, if_neg fun h => hname h.1]

/-- The records after the other versions are superseded. -/
theorem record?_supersede (now : ℕ) (name' version' : String) :
    (registry.supersede name version now).record? name' version' =
      if name' = name then
        (registry.record? name version').map fun other =>
          if other.stage = .promoted ∧ version' ≠ version then
            other.enter .deprecated now (some "superseded")
          else other
      else registry.record? name' version' := by
  rw [supersede, record?_setVersions, UniqueTable.find?_mapRows]
  rfl

/-- The active version is promoted. -/
theorem record?_of_getActive (h : registry.getActive name = some record) :
    ∃ v, registry.record? name v = some record ∧ record.stage = .promoted := by
  unfold getActive at h
  obtain ⟨⟨v, r⟩, hrow, rfl⟩ := Option.map_eq_some_iff.mp h
  have hmem := List.mem_of_find?_eq_some hrow
  have hstage := List.find?_some hrow
  exact ⟨v, (UniqueTable.find?_eq_some_iff _ _ _).mpr hmem, by simpa using hstage⟩

/-- Where a version is promoted, some version is active. -/
theorem exists_getActive {v : String} (h : registry.record? name v = some record)
    (hstage : record.stage = .promoted) : ∃ r, registry.getActive name = some r := by
  have hmem := (UniqueTable.find?_eq_some_iff _ _ _).mp h
  unfold getActive
  cases hfind : (registry.versions name).rows.find? fun row => row.2.stage = .promoted with
  | some row => exact ⟨row.2, rfl⟩
  | none =>
    have hnone := List.find?_eq_none.mp hfind _ hmem
    simp [hstage] at hnone

/-- The promoted version is the active one. -/
theorem Orderly.activeVersion_eq (h : registry.Orderly) {v : String}
    (hrecord : registry.record? name v = some record) (hstage : record.stage = .promoted) :
    activeVersion registry name = some v := by
  obtain ⟨r, hactive⟩ := exists_getActive hrecord hstage
  obtain ⟨v', hrecord', hstage'⟩ := record?_of_getActive hactive
  have hv := h.single name v v' record r hrecord hrecord' hstage hstage'
  rw [activeVersion, hactive, Option.map_some, h.named name v' r hrecord', hv]

/-- Without a promoted version there is no active one. -/
theorem activeVersion_eq_none
    (h : ∀ v r, registry.record? name v = some r → r.stage ≠ .promoted) :
    activeVersion registry name = none := by
  unfold activeVersion
  cases hactive : registry.getActive name with
  | none => rfl
  | some r =>
    obtain ⟨v, hrecord, hstage⟩ := record?_of_getActive hactive
    exact absurd hstage (h v r hrecord)

/-- An artifact has become active when its record is promoted and was not before. -/
theorem mem_newlyPromoted_iff {before after : ModelArtifactRegistry}
    {artifact : RecordedArtifact} :
    artifact ∈ before.newlyPromoted after name ↔
      ∃ v r, after.record? name v = some r ∧ r.stage = .promoted ∧
        (before.record? name v).map ArtifactRecord.stage ≠ some .promoted ∧
        r.recorded = artifact := by
  unfold newlyPromoted
  simp only [List.mem_map, List.mem_filter, decide_eq_true_eq]
  constructor
  · rintro ⟨⟨v, r⟩, ⟨hmem, hstage, hbefore⟩, rfl⟩
    exact ⟨v, r, (UniqueTable.find?_eq_some_iff _ _ _).mpr hmem, hstage, hbefore, rfl⟩
  · rintro ⟨v, r, hrecord, hstage, hbefore, rfl⟩
    have hmem := (UniqueTable.find?_eq_some_iff _ _ _).mp hrecord
    exact ⟨(v, r), ⟨hmem, hstage, hbefore⟩, rfl⟩

/-- A record after one was changed is the changed one or was there before. -/
theorem record?_modifyRecord_eq_some {f : ArtifactRecord → ArtifactRecord} {n v : String}
    {r : ArtifactRecord} (h : (registry.modifyRecord name version f).record? n v = some r) :
    (n = name ∧ v = version ∧ ∃ r₀, registry.record? name version = some r₀ ∧ f r₀ = r) ∨
      ¬(n = name ∧ v = version) ∧ registry.record? n v = some r := by
  rw [record?_modifyRecord] at h
  by_cases hkey : n = name ∧ v = version
  · rw [if_pos hkey] at h
    exact .inl ⟨hkey.1, hkey.2, Option.map_eq_some_iff.mp h⟩
  · rw [if_neg hkey] at h
    exact .inr ⟨hkey, h⟩

variable (name version) in
/-- A change of one record keeps the registry in order unless it promotes a second version. -/
theorem Orderly.modifyRecord (h : registry.Orderly) {f : ArtifactRecord → ArtifactRecord}
    (hversion : ∀ r, (f r).version = r.version)
    (hparent : ∀ r, (f r).parentVersion = r.parentVersion)
    (hstage : ∀ r, registry.record? name version = some r → (f r).stage = .promoted →
      r.stage = .promoted ∨
        ∀ v r', registry.record? name v = some r' → v ≠ version → r'.stage ≠ .promoted) :
    (registry.modifyRecord name version f).Orderly := by
  constructor
  case single =>
    intro n v v' r r' hr hr' hpromoted hpromoted'
    obtain ⟨rfl, rfl, r₀, hr₀, rfl⟩ | ⟨hkey, hold⟩ := record?_modifyRecord_eq_some hr
    · obtain ⟨-, rfl, -⟩ | ⟨hkey', hr'⟩ := record?_modifyRecord_eq_some hr'
      · rfl
      · obtain hbefore | hnone := hstage r₀ hr₀ hpromoted
        · exact h.single n v v' r₀ r' hr₀ hr' hbefore hpromoted'
        · exact absurd hpromoted' (hnone v' r' hr' fun heq => hkey' ⟨rfl, heq⟩)
    · obtain ⟨rfl, rfl, r₀, hr₀, rfl⟩ | ⟨-, hr'⟩ := record?_modifyRecord_eq_some hr'
      · obtain hbefore | hnone := hstage r₀ hr₀ hpromoted'
        · exact h.single n v v' r r₀ hold hr₀ hpromoted hbefore
        · exact absurd hpromoted (hnone v r hold fun heq => hkey ⟨rfl, heq⟩)
      · exact h.single n v v' r r' hold hr' hpromoted hpromoted'
  case named =>
    intro n v r hr
    obtain ⟨rfl, rfl, r₀, hr₀, rfl⟩ | ⟨-, hr⟩ := record?_modifyRecord_eq_some hr
    · rw [hversion]
      exact h.named n v r₀ hr₀
    · exact h.named n v r hr
  case parents =>
    intro n v r u hr hu
    have hbefore : registry.record? n u ≠ none := by
      obtain ⟨rfl, rfl, r₀, hr₀, rfl⟩ | ⟨-, hr⟩ := record?_modifyRecord_eq_some hr
      · rw [ArtifactRecord.parent?, hparent] at hu
        exact h.parents n v r₀ u hr₀ hu
      · exact h.parents n v r u hr hu
    rw [record?_modifyRecord]
    by_cases hkey : n = name ∧ u = version
    · rw [if_pos hkey]
      rw [hkey.1, hkey.2] at hbefore
      simpa using hbefore
    · rw [if_neg hkey]
      exact hbefore

/-- Saving keeps the registry in order. -/
theorem Orderly.save (h : registry.Orderly) : registry.save.Orderly :=
  ⟨h.single, h.named, h.parents⟩

/-- Where the promoted records are records that were there, nothing becomes active. -/
theorem newlyPromoted_eq_nil {registry' : ModelArtifactRegistry}
    (h : ∀ v r, registry'.record? name v = some r → r.stage = .promoted →
      registry.record? name v = some r) : registry.newlyPromoted registry' name = [] := by
  rw [List.eq_nil_iff_forall_not_mem]
  intro artifact hmem
  obtain ⟨v, r, hr, hstage, hbefore, -⟩ := mem_newlyPromoted_iff.mp hmem
  rw [h v r hr hstage, Option.map_some, hstage] at hbefore
  exact hbefore rfl

/-- Where nothing changes nothing becomes active. -/
@[simp] theorem newlyPromoted_self : registry.newlyPromoted registry name = [] :=
  newlyPromoted_eq_nil fun _ _ hr _ => hr

variable (name version) in
/-- Superseding keeps the registry in order. -/
theorem Orderly.supersede (h : registry.Orderly) (now : ℕ) :
    (registry.supersede name version now).Orderly := by
  -- A superseded record was there before, and was promoted if it is.
  have hback : ∀ n v r, (registry.supersede name version now).record? n v = some r →
      ∃ r₀, registry.record? n v = some r₀ ∧ (r.stage = .promoted → r₀.stage = .promoted) ∧
        r.version = r₀.version ∧ r.parent? = r₀.parent? := by
    intro n v r hr
    rw [record?_supersede] at hr
    by_cases hname : n = name
    · rw [if_pos hname, ← hname] at hr
      obtain ⟨r₀, hr₀, rfl⟩ := Option.map_eq_some_iff.mp hr
      refine ⟨r₀, hr₀, ?_⟩
      split
      · rename_i hother
        exact ⟨fun _ => hother.1, rfl, rfl⟩
      · exact ⟨fun hpromoted => hpromoted, rfl, rfl⟩
    · rw [if_neg hname] at hr
      exact ⟨r, hr, fun hpromoted => hpromoted, rfl, rfl⟩
  constructor
  case single =>
    intro n v v' r r' hr hr' hpromoted hpromoted'
    obtain ⟨r₀, hr₀, hstage, -⟩ := hback n v r hr
    obtain ⟨r₀', hr₀', hstage', -⟩ := hback n v' r' hr'
    exact h.single n v v' r₀ r₀' hr₀ hr₀' (hstage hpromoted) (hstage' hpromoted')
  case named =>
    intro n v r hr
    obtain ⟨r₀, hr₀, -, hversion, -⟩ := hback n v r hr
    rw [hversion]
    exact h.named n v r₀ hr₀
  case parents =>
    intro n v r u hr hu
    obtain ⟨r₀, hr₀, -, -, hparent⟩ := hback n v r hr
    rw [hparent] at hu
    have hbefore := h.parents n v r₀ u hr₀ hu
    rw [record?_supersede]
    by_cases hname : n = name
    · rw [if_pos hname, ← hname]
      simpa using hbefore
    · rw [if_neg hname]
      exact hbefore

/-- What a transition that returns has done. -/
theorem transition_eq_ok {target : ArtifactStage} {now : ℕ} {reason : Option String}
    {registry' : ModelArtifactRegistry}
    (h : registry.transition (ε := ε) name version target now reason = (.ok record, registry')) :
    ∃ r₀, registry.record? name version = some r₀ ∧ target ∈ r₀.stage.legalTransitions ∧
      record = r₀.enter target now reason ∧
      registry' = (registry.modifyRecord name version (·.enter target now reason)).save := by
  unfold transition at h
  cases hget : registry.get (ε := ε) name version with
  | error e => simp [hget] at h
  | ok r₀ =>
    rw [hget] at h
    by_cases hlegal : target ∈ r₀.stage.legalTransitions
    · simp only [hlegal, if_true, Prod.mk.injEq, Except.ok.injEq] at h
      exact ⟨r₀, get_eq_ok_iff_record?.mp hget, hlegal, h.1.symm, h.2.symm⟩
    · simp [hlegal] at h

/-- A transition that raises changes nothing. -/
theorem transition_eq_error {target : ArtifactStage} {now : ℕ} {reason : Option String}
    {registry' : ModelArtifactRegistry} {e : RegistryError ε}
    (h : registry.transition name version target now reason = (.error e, registry')) :
    registry' = registry := by
  unfold transition at h
  cases hget : registry.get (ε := ε) name version with
  | error e =>
    rw [hget] at h
    exact (Prod.mk.inj h).2.symm
  | ok r₀ =>
    rw [hget] at h
    by_cases hlegal : target ∈ r₀.stage.legalTransitions
    · simp [hlegal] at h
    · simp only [hlegal, if_false, Prod.mk.injEq] at h
      exact h.2.symm

variable (name version) in
/-- A transition to another stage than promoted keeps the registry in order and activates
nothing. -/
theorem Orderly.transition (h : registry.Orderly) {target : ArtifactStage} (now : ℕ)
    (reason : Option String) (htarget : target ≠ .promoted) :
    (registry.transition (ε := ε) name version target now reason).2.Orderly ∧
      registry.newlyPromoted (registry.transition (ε := ε) name version target now reason).2
        name = [] := by
  cases htransition : registry.transition (ε := ε) name version target now reason with
  | mk result registry' =>
    cases result with
    | error e =>
      rw [transition_eq_error htransition]
      exact ⟨h, newlyPromoted_self⟩
    | ok r =>
      obtain ⟨r₀, hr₀, -, -, rfl⟩ := transition_eq_ok htransition
      refine ⟨(h.modifyRecord _ _ (f := (·.enter target now reason)) (fun _ => rfl) (fun _ => rfl)
        (fun _ _ hpromoted => (htarget hpromoted).elim)).save, ?_⟩
      refine newlyPromoted_eq_nil fun v r' hr' hstage => ?_
      obtain ⟨-, -, r₁, -, rfl⟩ | ⟨-, hr'⟩ := record?_modifyRecord_eq_some hr'
      · exact absurd hstage htarget
      · exact hr'

/-- The records after one is registered. -/
theorem record?_register (registry : ModelArtifactRegistry) (name artifactPath : String)
    (content : List UInt8) (metrics : Metrics) (tags : UniqueTable String String)
    (version : String) (now : ℕ) (n v : String) :
    (registry.register (ε := ε) name artifactPath (some content) metrics tags version
      now).2.record? n v =
        if n = name ∧ v = version then
          some (registry.newRecord name artifactPath content metrics tags version now)
        else registry.record? n v := by
  show (registry.setVersions name _).record? n v = _
  rw [record?_setVersions, UniqueTable.find?_put]
  by_cases hname : n = name
  · subst hname
    by_cases hversion : v = version
    · rw [if_pos rfl, if_pos hversion, if_pos ⟨rfl, hversion⟩]
    · rw [if_pos rfl, if_neg hversion, if_neg fun heq => hversion heq.2]
      rfl
  · rw [if_neg hname, if_neg fun heq => hname heq.1]

variable (name version) in
/-- Registering keeps the registry in order and activates nothing. -/
theorem Orderly.register (h : registry.Orderly) (artifactPath : String)
    (content : Option (List UInt8)) (metrics : Metrics) (tags : UniqueTable String String)
    (now : ℕ) :
    (registry.register (ε := ε) name artifactPath content metrics tags version now).2.Orderly ∧
      registry.newlyPromoted
        (registry.register (ε := ε) name artifactPath content metrics tags version now).2 name =
          [] := by
  cases content with
  | none => exact ⟨h, newlyPromoted_self⟩
  | some content =>
    let new := registry.newRecord name artifactPath content metrics tags version now
    have hrecord := registry.record?_register (ε := ε) name artifactPath content metrics tags
      version now
    have hcases : ∀ n v r, (registry.register (ε := ε) name artifactPath (some content) metrics
        tags version now).2.record? n v = some r →
          n = name ∧ v = version ∧ r = new ∨ registry.record? n v = some r := by
      intro n v r hr
      rw [hrecord] at hr
      by_cases hkey : n = name ∧ v = version
      · rw [if_pos hkey, Option.some.injEq] at hr
        exact .inl ⟨hkey.1, hkey.2, hr.symm⟩
      · rw [if_neg hkey] at hr
        exact .inr hr
    have hstaged : new.stage ≠ .promoted := ArtifactStage.noConfusion
    refine ⟨⟨?_, ?_, ?_⟩, ?_⟩
    · intro n v v' r r' hr hr' hpromoted hpromoted'
      obtain ⟨-, -, rfl⟩ | hold := hcases n v r hr
      · exact absurd hpromoted hstaged
      · obtain ⟨-, -, rfl⟩ | hold' := hcases n v' r' hr'
        · exact absurd hpromoted' hstaged
        · exact h.single n v v' r r' hold hold' hpromoted hpromoted'
    · intro n v r hr
      obtain ⟨-, rfl, rfl⟩ | hold := hcases n v r hr
      · rfl
      · exact h.named n v r hold
    · intro n v r u hr hu
      have hbefore : registry.record? n u ≠ none := by
        obtain ⟨rfl, rfl, rfl⟩ | hold := hcases n v r hr
        · -- The parent of the new record is the active version.
          obtain ⟨hactive, -⟩ := Option.filter_eq_some_iff.mp hu
          obtain ⟨r₀, hr₀, rfl⟩ := Option.map_eq_some_iff.mp hactive
          obtain ⟨v₀, hfind, -⟩ := record?_of_getActive hr₀
          rw [h.named n v₀ r₀ hfind, hfind]
          simp
        · exact h.parents n v r u hold hu
      rw [hrecord]
      split
      · simp
      · exact hbefore
    · refine newlyPromoted_eq_nil fun v r hr hstage => ?_
      obtain ⟨-, -, rfl⟩ | hold := hcases name v r hr
      · exact absurd hstage hstaged
      · exact hold

/-- What is still promoted after the others are superseded was not touched. -/
theorem record?_of_supersede {now : ℕ} {n v : String} {r : ArtifactRecord}
    (hr : (registry.supersede name version now).record? n v = some r)
    (hstage : r.stage = .promoted) :
    registry.record? n v = some r ∧ (n = name → v = version) := by
  rw [record?_supersede] at hr
  by_cases hname : n = name
  · rw [if_pos hname, ← hname] at hr
    obtain ⟨r₀, hr₀, rfl⟩ := Option.map_eq_some_iff.mp hr
    by_cases hother : r₀.stage = .promoted ∧ v ≠ version
    · rw [if_pos hother] at hstage
      cases hstage
    · rw [if_neg hother] at hstage ⊢
      exact ⟨hr₀, fun _ => by_contra fun hne => hother ⟨hstage, hne⟩⟩
  · rw [if_neg hname] at hr
    exact ⟨hr, fun heq => absurd heq hname⟩

/-- Promoting keeps the registry in order, and activates only what the verifier accepts. -/
theorem Orderly.promote (h : registry.Orderly)
    (verifier : Option (ArtifactRecord → Except ε Unit)) (now : ℕ) :
    (registry.promote verifier name version now).2.Orderly ∧
      ∀ artifact ∈ registry.newlyPromoted (registry.promote verifier name version now).2 name,
        artifact ∈ registry.acceptedBy verifier name version := by
  have hself : registry.Orderly ∧ ∀ artifact ∈ registry.newlyPromoted registry name,
      artifact ∈ registry.acceptedBy verifier name version := by
    rw [newlyPromoted_self]
    exact ⟨h, fun _ hmem => absurd hmem List.not_mem_nil⟩
  unfold ModelArtifactRegistry.promote
  cases hget : registry.get (ε := ε) name version with
  | error e => exact hself
  | ok record =>
    have hrecord := get_eq_ok_iff_record?.mp hget
    cases verifier with
    | none => exact hself
    | some verify =>
      cases hverify : verify record with
      | error e =>
        simp only [hverify]
        exact hself
      | ok u =>
        have haccepted : registry.acceptedBy (some verify) name version =
            [record.recorded] := by
          simp only [acceptedBy, hrecord, hverify]
        simp only [hverify, haccepted]
        have hsuperseded := h.supersede name version now
        cases htransition : (registry.supersede name version now).transition (ε := ε) name
            version .promoted now with
        | mk result registry' =>
          cases result with
          | error e =>
            have hnone : registry.newlyPromoted (registry.supersede name version now) name = [] :=
              newlyPromoted_eq_nil fun v r hr hstage => (record?_of_supersede hr hstage).1
            rw [transition_eq_error htransition, hnone]
            exact ⟨hsuperseded, fun _ hmem => absurd hmem List.not_mem_nil⟩
          | ok r =>
            obtain ⟨r₀, hr₀, -, -, rfl⟩ := transition_eq_ok htransition
            constructor
            · refine (hsuperseded.modifyRecord _ _ (f := (·.enter .promoted now none))
                (fun _ => rfl) (fun _ => rfl) fun _ _ _ => .inr ?_).save
              intro v r' hr' hne hstage
              exact hne ((record?_of_supersede hr' hstage).2 rfl)
            · intro artifact hmem
              obtain ⟨v, r', hr', hstage, hbefore, rfl⟩ := mem_newlyPromoted_iff.mp hmem
              obtain ⟨-, rfl, r₁, hr₁, rfl⟩ | ⟨hkey, hr'⟩ := record?_modifyRecord_eq_some hr'
              · rw [get_eq_ok_iff_record?.mp (get_supersede hget), Option.some.injEq] at hr₁
                rw [← hr₁, List.mem_singleton]
                rfl
              · have hv := (record?_of_supersede hr' hstage).2 rfl
                exact absurd ⟨rfl, hv⟩ hkey

/-- The registry in the middle of a rollback: the version is rolled back and the reason is
noted. -/
def rolledBack (registry : ModelArtifactRegistry) (name version : String)
    (reason : Option String) (now : ℕ) : ModelArtifactRegistry :=
  (registry.modifyRecord name version (·.enter .rolledBack now reason)).save.noteRollback name
    version reason

variable (name version) in
/-- The records in the middle of a rollback. -/
theorem record?_rolledBack (reason : Option String) (now : ℕ) (n v : String) :
    (registry.rolledBack name version reason now).record? n v =
      if n = name ∧ v = version then
        (registry.record? name version).map fun record =>
          { record.enter .rolledBack now reason with rollbackReason := reason }
      else registry.record? n v := by
  rw [rolledBack, noteRollback, record?_modifyRecord, record?_save, record?_modifyRecord,
    record?_save, record?_modifyRecord]
  by_cases hkey : n = name ∧ v = version
  · rw [if_pos hkey, if_pos hkey, if_pos ⟨rfl, rfl⟩, Option.map_map]
    rfl
  · rw [if_neg hkey, if_neg hkey, if_neg hkey]

/-- In the middle of the rollback of a promoted version no version is active. -/
theorem Orderly.rolledBack (h : registry.Orderly)
    (hrecord : registry.record? name version = some record) (hstage : record.stage = .promoted)
    (reason : Option String) (now : ℕ) :
    (registry.rolledBack name version reason now).Orderly ∧
      ∀ v r, (registry.rolledBack name version reason now).record? name v = some r →
        r.stage ≠ .promoted := by
  constructor
  · have hfirst := (h.modifyRecord name version
      (f := (·.enter .rolledBack now reason)) (fun _ => rfl) (fun _ => rfl)
      (fun _ _ hpromoted => nomatch hpromoted)).save
    exact hfirst.modifyRecord _ _
      (f := fun record => { record with rollbackReason := reason }) (fun _ => rfl)
      (fun _ => rfl) (fun _ _ hpromoted => .inl hpromoted)
  · intro v r hr hpromoted
    rw [record?_rolledBack] at hr
    by_cases hversion : v = version
    · rw [if_pos ⟨rfl, hversion⟩, hrecord, Option.map_some, Option.some.injEq] at hr
      subst hr
      cases hpromoted
    · rw [if_neg fun heq => hversion heq.2] at hr
      exact hversion (h.single name v version r record hr hrecord hpromoted hstage)

/-- The registry that the rollback of a promoted version leaves. -/
def restored (registry : ModelArtifactRegistry) (name : String) (record : ArtifactRecord)
    (reason : Option String) (now : ℕ) : ModelArtifactRegistry :=
  let registry := registry.rolledBack name record.version reason now
  match record.parent?.bind fun u => (registry.record? name u).map fun parent => (u, parent) with
  | none => registry.save
  | some (u, parent) => (registry.reactivate name u parent now).save

/-- The target of a rollback is a record of the registry. -/
theorem Orderly.record?_of_rollbackTarget (h : registry.Orderly) {version : Option String}
    (htarget : registry.rollbackTarget name version =
      (.ok record : Except (RegistryError ε) ArtifactRecord)) :
    registry.record? name record.version = some record := by
  unfold rollbackTarget at htarget
  cases hversion : version.filter (· ≠ "") with
  | some v =>
    rw [hversion] at htarget
    have hrecord := get_eq_ok_iff_record?.mp htarget
    rwa [h.named name v record hrecord]
  | none =>
    rw [hversion] at htarget
    cases hactive : registry.getActive name with
    | none => simp [hactive] at htarget
    | some r =>
      simp only [hactive, Except.ok.injEq] at htarget
      obtain ⟨v, hrecord, -⟩ := record?_of_getActive hactive
      rw [← htarget, h.named name v r hrecord]
      exact hrecord

/-- A rollback of a version that is not promoted raises and changes nothing. -/
theorem rollback_of_not_promoted {version : Option String} (reason : Option String) (now : ℕ)
    (h : ∀ record, registry.rollbackTarget name version =
      (.ok record : Except (RegistryError ε) ArtifactRecord) → record.stage ≠ .promoted)
    (hrecord : ∀ record, registry.rollbackTarget name version =
      (.ok record : Except (RegistryError ε) ArtifactRecord) →
        registry.record? name record.version = some record) :
    ∃ e : RegistryError ε, registry.rollback name version reason now = (.error e, registry) := by
  unfold rollback
  cases htarget : registry.rollbackTarget (ε := ε) name version with
  | error e => exact ⟨e, rfl⟩
  | ok record =>
    simp only
    cases htransition : registry.transition (ε := ε) name record.version .rolledBack now
        reason with
    | mk result registry' =>
      cases result with
      | error e =>
        rw [transition_eq_error htransition]
        exact ⟨e, rfl⟩
      | ok r =>
        obtain ⟨r₀, hr₀, hlegal, -, -⟩ := transition_eq_ok htransition
        rw [hrecord record htarget, Option.some.injEq] at hr₀
        subst hr₀
        exact absurd (ArtifactStage.eq_promoted_of_rolledBack_mem hlegal) (h record htarget)

/-- A rollback of a promoted version returns. -/
theorem Orderly.rollback_of_promoted (h : registry.Orderly) {version : Option String}
    (htarget : registry.rollbackTarget name version =
      (.ok record : Except (RegistryError ε) ArtifactRecord))
    (hstage : record.stage = .promoted) (reason : Option String) (now : ℕ) :
    ∃ r, r.version = record.version ∧
      registry.rollback (ε := ε) name version reason now =
        (.ok r, registry.restored name record reason now) := by
  have hrecord := h.record?_of_rollbackTarget htarget
  have htransition : registry.transition (ε := ε) name record.version .rolledBack now reason =
      (.ok (record.enter .rolledBack now reason),
        (registry.modifyRecord name record.version (·.enter .rolledBack now reason)).save) :=
    transition_of_legal (get_eq_ok_iff_record?.mpr hrecord) (by rw [hstage]; decide)
  cases hparent : record.parent? with
  | none =>
    have hnone : (record.enter .rolledBack now reason).parentVersion.filter (· ≠ "") = none :=
      hparent
    unfold rollback restored
    simp only [htarget, htransition, hnone, hparent, Option.bind_none]
    exact ⟨{ record.enter .rolledBack now reason with rollbackReason := reason }, rfl, rfl⟩
  | some u =>
    have hsome : (record.enter .rolledBack now reason).parentVersion.filter (· ≠ "") = some u :=
      hparent
    have hknown : (registry.rolledBack name record.version reason now).record? name u ≠ none := by
      have hbefore := h.parents name record.version record u hrecord hparent
      rw [record?_rolledBack]
      split
      · simp [hrecord]
      · exact hbefore
    obtain ⟨parent, hfind⟩ := Option.ne_none_iff_exists'.mp hknown
    have hget := (get_eq_ok_iff_record? (ε := ε)).mpr hfind
    unfold ModelArtifactRegistry.rolledBack at hget
    unfold rollback restored
    simp only [htarget, htransition, hsome, hparent, hget, hfind, Option.bind_some,
      Option.map_some]
    exact ⟨{ record.enter .rolledBack now reason with rollbackReason := reason }, rfl, rfl⟩

/-- A rollback restores the parent if it can be restored, and else nothing. -/
theorem restored_eq (hrecord : registry.record? name record.version = some record)
    (hstage : record.stage = .promoted) (reason : Option String) (now : ℕ) :
    (∃ u parent, record.parent? = some u ∧ registry.record? name u = some parent ∧
      parent.Restorable ∧
      (registry.rolledBack name record.version reason now).record? name u = some parent ∧
      registry.restored name record reason now =
        ((registry.rolledBack name record.version reason now).modifyRecord name u
          (·.enter .promoted now (some "rollback_reactivation"))).save) ∨
    (∀ u parent, record.parent? = some u → registry.record? name u = some parent →
      ¬parent.Restorable) ∧
      registry.restored name record reason now =
        (registry.rolledBack name record.version reason now).save := by
  unfold restored
  cases hparent : record.parent? with
  | none =>
    refine .inr ⟨?_, rfl⟩
    intro u parent heq
    cases heq
  | some u =>
    simp only [Option.bind_some]
    have hfind := registry.record?_rolledBack name record.version reason now name u
    by_cases hself : u = record.version
    · -- The version is its own parent, and rolled back.
      rw [if_pos ⟨rfl, hself⟩, hrecord, Option.map_some] at hfind
      refine .inr ⟨?_, ?_⟩
      · intro u' parent heq hbefore hrestorable
        cases heq
        rw [hself, hrecord, Option.some.injEq] at hbefore
        subst hbefore
        rw [ArtifactRecord.Restorable, hstage] at hrestorable
        simp at hrestorable
      · simp only [hfind, Option.map_some]
        rw [reactivate, if_neg (by simp [ArtifactRecord.Restorable, ArtifactRecord.enter])]
    · rw [if_neg fun heq => hself heq.2] at hfind
      cases hbefore : registry.record? name u with
      | none =>
        rw [hbefore] at hfind
        refine .inr ⟨?_, ?_⟩
        · intro u' parent heq hafter
          cases heq
          rw [hbefore] at hafter
          cases hafter
        · simp only [hfind, Option.map_none]
      | some parent =>
        rw [hbefore] at hfind
        simp only [hfind, Option.map_some]
        by_cases hrestorable : parent.Restorable
        · exact .inl ⟨u, parent, rfl, hbefore, hrestorable, hfind, by
            rw [reactivate, if_pos hrestorable]⟩
        · refine .inr ⟨?_, ?_⟩
          · intro u' parent' heq hafter
            cases heq
            rw [hbefore, Option.some.injEq] at hafter
            rwa [← hafter]
          · rw [reactivate, if_neg hrestorable]

/-- A rollback whose parent can be restored makes the parent, and nothing else, active. -/
theorem Orderly.restored_of_restorable (h : registry.Orderly)
    (hrecord : registry.record? name record.version = some record)
    (hstage : record.stage = .promoted) (reason : Option String) (now : ℕ) {u : String}
    {parent : ArtifactRecord} (hfind : registry.record? name u = some parent)
    (hrestorable : parent.Restorable)
    (hfind' : (registry.rolledBack name record.version reason now).record? name u = some parent)
    (heq : registry.restored name record reason now =
      ((registry.rolledBack name record.version reason now).modifyRecord name u
        (·.enter .promoted now (some "rollback_reactivation"))).save) :
    (registry.restored name record reason now).Orderly ∧
      activeVersion (registry.restored name record reason now) name = some u ∧
      ∀ artifact, artifact ∈
        registry.newlyPromoted (registry.restored name record reason now) name ↔
          parent.recorded = artifact := by
  obtain ⟨hmiddle, hnone⟩ := h.rolledBack hrecord hstage reason now
  have horderly := (hmiddle.modifyRecord name u
    (f := (·.enter .promoted now (some "rollback_reactivation"))) (fun _ => rfl)
    (fun _ => rfl) (fun _ _ _ => .inr fun v r hr _ => hnone v r hr)).save
  have hrestored : (registry.restored name record reason now).record? name u =
      some (parent.enter .promoted now (some "rollback_reactivation")) := by
    rw [heq, record?_save, record?_modifyRecord, if_pos ⟨rfl, rfl⟩, hfind']
    rfl
  rw [← heq] at horderly
  refine ⟨horderly, horderly.activeVersion_eq hrestored rfl, ?_⟩
  intro artifact
  rw [mem_newlyPromoted_iff]
  constructor
  · rintro ⟨v, r, hr, hpromoted, -, rfl⟩
    rw [heq] at hr
    obtain ⟨-, rfl, r₀, hr₀, rfl⟩ | ⟨-, hr⟩ := record?_modifyRecord_eq_some hr
    · rw [hfind', Option.some.injEq] at hr₀
      subst hr₀
      rfl
    · exact absurd hpromoted (hnone v r hr)
  · rintro rfl
    refine ⟨u, _, hrestored, rfl, ?_, rfl⟩
    rw [hfind, Option.map_some]
    obtain hs | hs := hrestorable
    · rw [hs]
      decide
    · rw [hs]
      decide

/-- A rollback that restores nothing leaves no version active. -/
theorem Orderly.restored_of_nothing (h : registry.Orderly)
    (hrecord : registry.record? name record.version = some record)
    (hstage : record.stage = .promoted) (reason : Option String) (now : ℕ)
    (heq : registry.restored name record reason now =
      (registry.rolledBack name record.version reason now).save) :
    (registry.restored name record reason now).Orderly ∧
      activeVersion (registry.restored name record reason now) name = none ∧
      registry.newlyPromoted (registry.restored name record reason now) name = [] := by
  obtain ⟨hmiddle, hnone⟩ := h.rolledBack hrecord hstage reason now
  rw [heq]
  refine ⟨hmiddle.save, activeVersion_eq_none hnone, ?_⟩
  exact newlyPromoted_eq_nil fun v r hr hpromoted => absurd hpromoted (hnone v r hr)

/-- What a rollback of a promoted version leaves: the parent is active and has become so, if
it can be restored, and else no version is active. -/
theorem Orderly.restored (h : registry.Orderly)
    (hrecord : registry.record? name record.version = some record)
    (hstage : record.stage = .promoted) (reason : Option String) (now : ℕ) :
    (registry.restored name record reason now).Orderly ∧
      (∀ u, activeVersion (registry.restored name record reason now) name =
        some u ↔ record.parent? = some u ∧
          ∃ parent, registry.record? name u = some parent ∧ parent.Restorable) ∧
      ∀ artifact, artifact ∈
        registry.newlyPromoted (registry.restored name record reason now) name ↔
          ∃ u parent, record.parent? = some u ∧ registry.record? name u = some parent ∧
            parent.Restorable ∧ parent.recorded = artifact := by
  obtain ⟨u, parent, hparent, hfind, hrestorable, hfind', heq⟩ | ⟨hnot, heq⟩ :=
    restored_eq hrecord hstage reason now
  · obtain ⟨horderly, hactive, hnew⟩ :=
      h.restored_of_restorable hrecord hstage reason now hfind hrestorable hfind' heq
    refine ⟨horderly, ?_, ?_⟩
    · intro u'
      rw [hactive, hparent, Option.some.injEq]
      constructor
      · rintro rfl
        exact ⟨rfl, parent, hfind, hrestorable⟩
      · exact fun hu => hu.1
    · intro artifact
      rw [hnew, hparent]
      constructor
      · exact fun heq => ⟨u, parent, rfl, hfind, hrestorable, heq⟩
      · rintro ⟨u', parent', hu, hfound, -, heq⟩
        cases hu
        rw [hfind, Option.some.injEq] at hfound
        rwa [hfound]
  · obtain ⟨horderly, hinactive, hnew⟩ := h.restored_of_nothing hrecord hstage reason now heq
    refine ⟨horderly, ?_, ?_⟩
    · intro u
      rw [hinactive]
      constructor
      · intro hu
        cases hu
      · rintro ⟨hparent, parent, hfind, hrestorable⟩
        exact absurd hrestorable (hnot u parent hparent hfind)
    · intro artifact
      rw [hnew]
      constructor
      · exact fun hmem => absurd hmem List.not_mem_nil
      · rintro ⟨u, parent, hparent, hfind, hrestorable, -⟩
        exact absurd hrestorable (hnot u parent hparent hfind)

end ModelArtifactRegistry

end LedgerLens.Detection
