import LedgerLens.Library.Sha256
import LedgerLens.Library.UniqueTable
import Mathlib.Data.Rat.Defs
import Mathlib.Data.String.Basic

/-!
# The registry of model artifacts

The lifecycle of versioned artifacts: every version of a model is registered as staged,
then validated, promoted and finally deprecated or rolled back. The registry keeps its
records in memory and writes them to a manifest after each change; the two may differ
after an operation that raises, so each operation returns the registry it leaves beside
its result.
-/

namespace LedgerLens.Detection

/-- The metrics of one model by name. -/
abbrev Metrics := UniqueTable String ℚ

/-- `ArtifactStage`. -/
inductive ArtifactStage where
  | staged
  | validated
  | promoted
  | deprecated
  | rolledBack
  deriving DecidableEq

/-- `_LEGAL_TRANSITIONS`. -/
def ArtifactStage.legalTransitions : ArtifactStage → List ArtifactStage
  | staged => [validated, deprecated]
  | validated => [promoted, deprecated]
  | promoted => [deprecated, rolledBack]
  | deprecated => []
  | rolledBack => [staged]

/-- One entry of a record's history. -/
structure HistoryEntry where
  /-- The stage entered. -/
  stage : ArtifactStage
  /-- When. -/
  time : ℕ
  /-- Why, where that is recorded. -/
  reason : Option String := none

/-- `ArtifactRecord`. -/
structure ArtifactRecord where
  /-- The model. -/
  name : String
  /-- The version's id. -/
  version : String
  /-- Where the artifact was when it was registered. -/
  artifactPath : String
  /-- The hash it had then. -/
  sha256 : String
  /-- Its present stage. -/
  stage : ArtifactStage
  /-- When it was registered. -/
  createdAt : ℕ
  /-- The metrics given with it. -/
  metrics : Metrics
  /-- The tags given with it. -/
  tags : UniqueTable String String
  /-- The version that was active when it was registered. -/
  parentVersion : Option String
  /-- Why it was rolled back. -/
  rollbackReason : Option String := none
  /-- The stages entered, oldest first. -/
  history : List HistoryEntry

/-- The record after it entered a stage. -/
def ArtifactRecord.enter (record : ArtifactRecord) (stage : ArtifactStage) (now : ℕ)
    (reason : Option String) : ArtifactRecord :=
  { record with stage := stage, history := record.history ++ [⟨stage, now, reason⟩] }

/-- Whether a rollback to this record activates it. -/
def ArtifactRecord.Restorable (record : ArtifactRecord) : Prop :=
  record.stage = .deprecated ∨ record.stage = .validated

instance (record : ArtifactRecord) : Decidable record.Restorable :=
  inferInstanceAs (Decidable (_ ∨ _))

/-- The records by model and version: what the manifest holds. -/
abbrev Manifest := UniqueTable String (UniqueTable String ArtifactRecord)

/-- What an operation of the registry raises; `ε` is what its trust verifier raises. -/
inductive RegistryError (ε : Type*) where
  | fileNotFound (artifactPath : String)
  | artifactNotFound (name : String) (version : Option String)
  | invalidTransition (name version : String) (current target : ArtifactStage)
  | trustVerificationRequired (name version : String)
  | verifier (error : ε)

/-- `ModelArtifactRegistry`: the records in memory and in the manifest. -/
structure ModelArtifactRegistry where
  /-- `_data`. -/
  data : Manifest := .empty
  /-- The content of the manifest, if there is one. -/
  manifest : Option Manifest := none

namespace ModelArtifactRegistry

variable {ε : Type*}

/-- `_load`: a registry starts with what its manifest holds. -/
def load (manifest : Option Manifest) : ModelArtifactRegistry where
  data := manifest.getD .empty
  manifest := manifest

/-- `_save`, with the keys in order. -/
def save (registry : ModelArtifactRegistry) : ModelArtifactRegistry :=
  { registry with
    manifest := some (registry.data.mapRows fun _ versions => versions.sortKeys).sortKeys }

/-- The versions of a model, none if it is unknown. -/
def versions (registry : ModelArtifactRegistry) (name : String) :
    UniqueTable String ArtifactRecord :=
  (registry.data.find? name).getD .empty

/-- `get_active`, silently. -/
def getActive (registry : ModelArtifactRegistry) (name : String) : Option ArtifactRecord :=
  ((registry.versions name).rows.find? fun row => row.2.stage = .promoted).map Prod.snd

/-- `_get`. -/
def get (registry : ModelArtifactRegistry) (name version : String) :
    Except (RegistryError ε) ArtifactRecord :=
  match (registry.versions name).find? version with
  | none => .error (.artifactNotFound name (some version))
  | some record => .ok record

/-- Store the versions of a model. -/
def setVersions (registry : ModelArtifactRegistry) (name : String)
    (versions : UniqueTable String ArtifactRecord) : ModelArtifactRegistry :=
  { registry with data := registry.data.put name versions }

/-- The new record that `register` makes. -/
def newRecord (registry : ModelArtifactRegistry) (name artifactPath : String)
    (content : List UInt8) (metrics : Metrics) (tags : UniqueTable String String)
    (version : String) (now : ℕ) : ArtifactRecord where
  name := name
  version := version
  artifactPath := artifactPath
  sha256 := Sha256.hexdigest content
  stage := .staged
  createdAt := now
  metrics := metrics
  tags := tags
  parentVersion := (registry.getActive name).map (·.version)
  history := [⟨.staged, now, none⟩]

/-- `register`; the content is that of the artifact's file, `none` if there is none, and
the version is the one given or generated. -/
def register (registry : ModelArtifactRegistry) (name artifactPath : String)
    (content : Option (List UInt8)) (metrics : Metrics) (tags : UniqueTable String String)
    (version : String) (now : ℕ) :
    Except (RegistryError ε) String × ModelArtifactRegistry :=
  match content with
  | none => (.error (.fileNotFound artifactPath), registry)
  | some content =>
    let record := registry.newRecord name artifactPath content metrics tags version now
    (.ok version, (registry.setVersions name ((registry.versions name).put version record)).save)

/-- Change one record. -/
def modifyRecord (registry : ModelArtifactRegistry) (name version : String)
    (f : ArtifactRecord → ArtifactRecord) : ModelArtifactRegistry :=
  registry.setVersions name ((registry.versions name).modify version f)

/-- `_transition`. -/
def transition (registry : ModelArtifactRegistry) (name version : String)
    (target : ArtifactStage) (now : ℕ) (reason : Option String := none) :
    Except (RegistryError ε) ArtifactRecord × ModelArtifactRegistry :=
  match registry.get name version with
  | .error e => (.error e, registry)
  | .ok record =>
    if target ∈ record.stage.legalTransitions then
      (.ok (record.enter target now reason),
        (registry.modifyRecord name version (·.enter target now reason)).save)
    else (.error (.invalidTransition name version record.stage target), registry)

/-- `validate`. -/
def validate (registry : ModelArtifactRegistry) (name version : String) (now : ℕ) :
    Except (RegistryError ε) ArtifactRecord × ModelArtifactRegistry :=
  registry.transition name version .validated now

/-- The loop of `promote` that deprecates every other promoted version, in memory only. -/
def supersede (registry : ModelArtifactRegistry) (name version : String) (now : ℕ) :
    ModelArtifactRegistry :=
  registry.setVersions name <| (registry.versions name).mapRows fun otherVersion other =>
    if other.stage = .promoted ∧ otherVersion ≠ version then
      other.enter .deprecated now (some "superseded")
    else other

/-- `promote`. -/
def promote (verifier : Option (ArtifactRecord → Except ε Unit))
    (registry : ModelArtifactRegistry) (name version : String) (now : ℕ) :
    Except (RegistryError ε) ArtifactRecord × ModelArtifactRegistry :=
  match registry.get name version with
  | .error e => (.error e, registry)
  | .ok record =>
    match verifier with
    | none => (.error (.trustVerificationRequired name version), registry)
    | some verify =>
      match verify record with
      | .error e => (.error (.verifier e), registry)
      | .ok () => (registry.supersede name version now).transition name version .promoted now

/-- `deprecate`. -/
def deprecateVersion (registry : ModelArtifactRegistry) (name version : String)
    (reason : Option String) (now : ℕ) :
    Except (RegistryError ε) ArtifactRecord × ModelArtifactRegistry :=
  registry.transition name version .deprecated now reason

/-- The record that `rollback` is about: of the version given, or of the active one. -/
def rollbackTarget (registry : ModelArtifactRegistry) (name : String)
    (version : Option String) : Except (RegistryError ε) ArtifactRecord :=
  match version.filter (· ≠ "") with
  | some version => registry.get name version
  | none =>
    match registry.getActive name with
    | none => .error (.artifactNotFound name none)
    | some record => .ok record

/-- The end of `rollback`: the parent is active again if it can be. -/
def reactivate (registry : ModelArtifactRegistry) (name parentVersion : String)
    (parent : ArtifactRecord) (now : ℕ) : ModelArtifactRegistry :=
  if parent.Restorable then
    registry.modifyRecord name parentVersion
      (·.enter .promoted now (some "rollback_reactivation"))
  else registry

/-- Note why a version was rolled back, in memory only. -/
def noteRollback (registry : ModelArtifactRegistry) (name version : String)
    (reason : Option String) : ModelArtifactRegistry :=
  registry.modifyRecord name version fun record => { record with rollbackReason := reason }

/-- `rollback`. -/
def rollback (registry : ModelArtifactRegistry) (name : String) (version : Option String)
    (reason : Option String) (now : ℕ) :
    Except (RegistryError ε) ArtifactRecord × ModelArtifactRegistry :=
  match registry.rollbackTarget name version with
  | .error e => (.error e, registry)
  | .ok record =>
    match registry.transition name record.version .rolledBack now reason with
    | (.error e, registry) => (.error e, registry)
    | (.ok rolledBack, registry) =>
      let rolledBack := { rolledBack with rollbackReason := reason }
      let registry := registry.noteRollback name record.version reason
      match rolledBack.parentVersion.filter (· ≠ "") with
      | none => (.ok rolledBack, registry.save)
      | some parentVersion =>
        match registry.get name parentVersion with
        | .error e => (.error e, registry)
        | .ok parent => (.ok rolledBack, (registry.reactivate name parentVersion parent now).save)

section

variable {registry : ModelArtifactRegistry} {name version : String} {record : ArtifactRecord}

@[simp] theorem versions_save : registry.save.versions name = registry.versions name := rfl

@[simp] theorem versions_setVersions (versions : UniqueTable String ArtifactRecord) :
    (registry.setVersions name versions).versions name = versions := by
  simp [ModelArtifactRegistry.versions, setVersions]

/-- A record that is found. -/
theorem get_eq_ok_iff :
    registry.get name version = (.ok record : Except (RegistryError ε) ArtifactRecord) ↔
      (registry.versions name).find? version = some record := by
  unfold get
  cases (registry.versions name).find? version <;> simp

/-- Registering an artifact that is there succeeds and leaves a staged record. -/
theorem register_of_content (registry : ModelArtifactRegistry) (name version artifactPath : String)
    (content : List UInt8) (metrics : Metrics) (tags : UniqueTable String String) (now : ℕ) :
    ∃ registry', registry.register (ε := ε) name artifactPath (some content) metrics tags version
        now = (.ok version, registry') ∧
      registry'.get name version = (.ok (registry.newRecord name artifactPath content metrics tags
        version now) : Except (RegistryError ε) ArtifactRecord) := by
  refine ⟨_, rfl, ?_⟩
  rw [get_eq_ok_iff]
  simp

/-- A legal transition of a known version. -/
theorem transition_of_legal {target : ArtifactStage} {now : ℕ} {reason : Option String}
    (hget : registry.get name version = (.ok record : Except (RegistryError ε) ArtifactRecord))
    (hlegal : target ∈ record.stage.legalTransitions) :
    registry.transition (ε := ε) name version target now reason =
      (.ok (record.enter target now reason),
        (registry.modifyRecord name version (·.enter target now reason)).save) := by
  unfold transition
  rw [hget]
  simp [hlegal]

/-- The record after a legal transition. -/
theorem get_modifyRecord {f : ArtifactRecord → ArtifactRecord}
    (hget : registry.get name version = (.ok record : Except (RegistryError ε) ArtifactRecord)) :
    (registry.modifyRecord name version f).save.get name version =
      (.ok (f record) : Except (RegistryError ε) ArtifactRecord) := by
  rw [get_eq_ok_iff] at hget ⊢
  simp [modifyRecord, hget]

/-- Superseding leaves the version that is promoted alone. -/
theorem get_supersede {now : ℕ}
    (hget : registry.get name version = (.ok record : Except (RegistryError ε) ArtifactRecord)) :
    (registry.supersede name version now).get name version =
      (.ok record : Except (RegistryError ε) ArtifactRecord) := by
  rw [get_eq_ok_iff] at hget ⊢
  simp [supersede, hget]

/-- Validating a staged version succeeds and leaves it validated. -/
theorem validate_of_staged
    (hget : registry.get name version = (.ok record : Except (RegistryError ε) ArtifactRecord))
    (hstage : record.stage = .staged) (now : ℕ) :
    ∃ registry', registry.validate (ε := ε) name version now =
        (.ok (record.enter .validated now none), registry') ∧
      registry'.get name version =
        (.ok (record.enter .validated now none) : Except (RegistryError ε) ArtifactRecord) := by
  refine ⟨_, transition_of_legal hget ?_, get_modifyRecord hget⟩
  rw [hstage]
  decide

/-- Promoting a validated version that the verifier accepts succeeds. -/
theorem promote_of_validated {verify : ArtifactRecord → Except ε Unit}
    (hget : registry.get name version = (.ok record : Except (RegistryError ε) ArtifactRecord))
    (hstage : record.stage = .validated) (hverify : verify record = .ok ()) (now : ℕ) :
    ∃ registry', registry.promote (some verify) name version now =
      (.ok (record.enter .promoted now none), registry') := by
  unfold promote
  rw [hget]
  simp only [hverify]
  exact ⟨_, transition_of_legal (get_supersede hget) (by rw [hstage]; decide)⟩

end

end ModelArtifactRegistry

end LedgerLens.Detection
