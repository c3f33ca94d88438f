import LedgerLens.Library.Checks
import LedgerLens.Library.PyJson
import LedgerLens.Utils.Checkpointing

/-!
# Contents of a checkpoint file

`CheckpointStore.load` for every content that the file of a workflow may have. A content that is
not the JSON text of an object makes `json.load` or `raw.pop` raise before the checksum is compared,
and an object with a checksum of its own may lack the fields of a record. This file says for which
contents `load` gives a record that was saved or raises an error of checkpoints.

The reader of JSON texts is a parameter, as is the canonical text of an object.
-/

namespace LedgerLens.Utils.Checkpointing

open PyJson

/-- What the code relies on. -/
structure FileEnv where
  /-- `str.isalnum` of a character beyond ASCII. -/
  unicodeAlnum : Char → Bool
  /-- `json.load` of a file's bytes. -/
  parse : List UInt8 → Except String Json
  /-- `json.dumps(body, sort_keys=True, separators=(",", ":"))`. -/
  dumps : UniqueTable String PyValue → String

/-- `CheckpointRecord`, with what a file may have in its fields. -/
structure LoadedRecord where
  /-- `workflow_id`. -/
  workflowId : PyValue
  /-- `schema_version`. -/
  schemaVersion : PyValue
  /-- `updated_at`. -/
  updatedAt : PyValue
  /-- `completed_steps`. -/
  completedSteps : List PyValue
  /-- `step_progress`. -/
  stepProgress : UniqueTable PyKey (List PyValue)

/-- What `load` raises. -/
inductive LoadError where
  /-- `json.load` raises `JSONDecodeError` or `UnicodeDecodeError`. -/
  | decode (reason : String)
  /-- `CheckpointCorruptionError`. -/
  | corruption (workflowId : String)
  /-- `CheckpointVersionError`. -/
  | version (found : Option PyValue) (workflowId : String)
  /-- `KeyError`. -/
  | missingKey (key : String)
  /-- `AttributeError`. -/
  | attribute
  /-- `TypeError`. -/
  | type

/-- The list of some strings. -/
def texts (names : List String) : PyValue := .list names.length fun i => .str (names.get i)

/-- The value of a record's `step_progress`. -/
def progressValue (progress : UniqueTable String (List String)) : PyValue :=
  .ofTable (progress.mapRows fun _ names => texts names)

/-- An entry that may be missing. -/
def putSome (t : UniqueTable String PyValue) (key : String) : Option PyValue →
    UniqueTable String PyValue
  | none => t
  | some v => t.put key v

/-- The entries of an object in their order in the file. -/
def CheckpointBody.table (body : CheckpointBody ℚ) : UniqueTable String PyValue :=
  [("completed_steps", body.completedSteps.map texts),
    ("schema_version", body.schemaVersion.map PyValue.int),
    ("step_progress", body.stepProgress.map progressValue),
    ("updated_at", body.updatedAt.map PyValue.float),
    ("workflow_id", body.workflowId.map PyValue.str)].foldl
      (fun t e => putSome t e.1 e.2) .empty

/-- What the model with typed fields relies on. -/
def FileEnv.typed (env : FileEnv) : CheckpointEnv ℚ where
  unicodeAlnum := env.unicodeAlnum
  dumps body := env.dumps body.table

variable (env : FileEnv)

/-- `_checksum`. -/
def checksumOf (raw : UniqueTable String PyValue) : String :=
  Sha256.hexdigestString (env.dumps raw)

/-- `json.load`, of which the value must have a `pop` with a default. -/
def openObject (content : List UInt8) : Except LoadError (UniqueTable String PyValue) :=
  match env.parse content with
  | .error reason => .error (.decode reason)
  | .ok (.object _ keys items) => .ok (entries keys fun i => loads (items i))
  | .ok (.array _ _) => .error .type
  | .ok _ => .error .attribute

/-- A value, or else an error. -/
def orRaise {α : Type} (v : Option α) (e : LoadError) : Except LoadError α :=
  match v with
  | none => .error e
  | some v => .ok v

/-- `raw[key]`. -/
def field (raw : UniqueTable String PyValue) (key : String) : Except LoadError PyValue :=
  orRaise (raw.find? key) (.missingKey key)

/-- `raw.get("completed_steps", [])`. -/
def rawSteps (raw : UniqueTable String PyValue) : PyValue :=
  (raw.find? "completed_steps").getD (texts [])

/-- `raw.get("step_progress", {})`. -/
def rawProgress (raw : UniqueTable String PyValue) : PyValue :=
  (raw.find? "step_progress").getD (progressValue .empty)

/-- `{k: list(v) for k, v in items}`, unless a value has no items. -/
def listed? (items : UniqueTable PyKey PyValue) : Option (UniqueTable PyKey (List PyValue)) :=
  if ∀ e ∈ items.rows, e.2.toList?.isSome then
    some (items.mapRows fun _ v => v.toList?.getD [])
  else none

/-- The record that `load` makes of an object. -/
def readRecord (raw : UniqueTable String PyValue) : Except LoadError LoadedRecord := do
  let workflowId ← field raw "workflow_id"
  let version ← field raw "schema_version"
  let updatedAt ← field raw "updated_at"
  let completedSteps ← orRaise (rawSteps raw).toList? .type
  let items ← orRaise (rawProgress raw).items? .attribute
  let stepProgress ← orRaise (listed? items) .type
  return ⟨workflowId, version, updatedAt, completedSteps, stepProgress⟩

/-- The body of `load` for a file that exists. -/
def loadContent (workflowId : String) (content : List UInt8) :
    Except LoadError LoadedRecord :=
  match openObject env content with
  | .error e => .error e
  | .ok opened =>
    let stored := (opened.find? "checksum").getD .none
    let raw := opened.erase "checksum"
    if stored.str? ≠ some (checksumOf env raw) then .error (.corruption workflowId)
    else if (raw.find? "schema_version").bind PyValue.number? ≠ some (schemaVersion : ℚ) then
      .error (.version (raw.find? "schema_version") workflowId)
    else readRecord raw

/-- `CheckpointStore.load`, over the bytes of the files. -/
def loadFile (directory : UniqueTable String (List UInt8)) (workflowId : String) :
    Except LoadError (Option LoadedRecord) :=
  match directory.find? (fileName env.typed workflowId) with
  | none => .ok none
  | some content => (loadContent env workflowId content).map some

/-- Some items are equal to some strings. -/
def EqualTexts (items : List PyValue) (names : List String) : Prop :=
  List.Forall₂ PyValue.Equal items (names.map .str)

/-- Equality of `step_progress`. -/
def EqualProgress (progress : UniqueTable PyKey (List PyValue))
    (saved : UniqueTable String (List String)) : Prop :=
  progress.rows.length = saved.rows.length ∧
    ∀ e ∈ progress.rows, ∃ e' ∈ saved.rows, e.1 = .str e'.1 ∧ EqualTexts e.2 e'.2

/-- `==` of the record that was loaded and one that was saved. -/
structure LoadedRecord.Equal (record : LoadedRecord) (saved : CheckpointRecord ℚ) : Prop where
  /-- The same workflow. -/
  workflowId : record.workflowId.Equal (.str saved.workflowId)
  /-- The same version. -/
  schemaVersion : record.schemaVersion.Equal (.int saved.schemaVersion)
  /-- The same date. -/
  updatedAt : record.updatedAt.Equal (.float saved.updatedAt)
  /-- The same steps. -/
  completedSteps : EqualTexts record.completedSteps saved.completedSteps
  /-- The same items done. -/
  stepProgress : EqualProgress record.stepProgress saved.stepProgress

/-- A call gives a record that was saved under the current version of the format, or raises one of
the two errors of checkpoints. -/
def LoadsSafely (saved : List (CheckpointRecord ℚ)) :
    Except LoadError (Option LoadedRecord) → Prop
  | .ok (some record) => ∃ s ∈ saved, s.schemaVersion = schemaVersion ∧ record.Equal s
  | .ok none => False
  | .error (.corruption _) | .error (.version _ _) => True
  | .error (.decode _) | .error (.missingKey _) | .error .attribute | .error .type => False

/-- The entries of an object are those of a record. -/
structure Describes (raw : UniqueTable String PyValue) (s : CheckpointRecord ℚ) : Prop where
  /-- The workflow's id is there. -/
  workflowId : ∃ v, raw.find? "workflow_id" = some v ∧ v.Equal (.str s.workflowId)
  /-- The date is there. -/
  updatedAt : ∃ v, raw.find? "updated_at" = some v ∧ v.Equal (.float s.updatedAt)
  /-- The steps, if they are there, have items. -/
  completedSteps : ∃ items, (rawSteps raw).toList? = some items ∧
    EqualTexts items s.completedSteps
  /-- The items done, if they are there, are a dictionary of which the values have items. -/
  stepProgress : ∃ items progress, (rawProgress raw).items? = some items ∧
    listed? items = some progress ∧ EqualProgress progress s.stepProgress

/-- The text of a file is that of an object. -/
def IsObject (content : List UInt8) (opened : UniqueTable String PyValue) : Prop :=
  ∃ (n : ℕ) (keys : Fin n → String) (items : Fin n → Json),
    env.parse content = .ok (.object n keys items) ∧ opened = entries keys fun i => loads (items i)

/-- The entry `checksum` is that of the other entries. -/
def ChecksumMatches (opened : UniqueTable String PyValue) : Prop :=
  opened.find? "checksum" = some (.str (checksumOf env (opened.erase "checksum")))

/-- The entry `schema_version` is the current version. -/
def IsCurrent (opened : UniqueTable String PyValue) : Prop :=
  ∃ v, opened.find? "schema_version" = some v ∧ v.Equal (.int schemaVersion)

section Reading

variable {env} {content : List UInt8} {opened raw : UniqueTable String PyValue}
  {saved : List (CheckpointRecord ℚ)}

theorem openObject_of_isObject (h : IsObject env content opened) :
    openObject env content = .ok opened := by
  obtain ⟨n, keys, items, hparse, rfl⟩ := h
  unfold openObject
  rw [hparse]

/-- What is not the text of an object makes `load` raise another error. -/
theorem not_loadsSafely_of_not_isObject (h : ∀ opened, ¬ IsObject env content opened)
    (workflowId : String) :
    ¬ LoadsSafely saved ((loadContent env workflowId content).map some) := by
  intro hsafe
  unfold loadContent openObject at hsafe
  cases hparse : env.parse content with
  | error reason =>
    rw [hparse] at hsafe
    exact hsafe
  | ok json =>
    rw [hparse] at hsafe
    cases json with
    | object n keys items => exact h _ ⟨n, keys, items, hparse, rfl⟩
    | array n items => exact hsafe
    | null => exact hsafe
    | bool b => exact hsafe
    | int n => exact hsafe
    | float x => exact hsafe
    | nonfinite repr => exact hsafe
    | str s => exact hsafe

/-- The texts that Python compares are those of the two strings. -/
theorem str?_eq_some_iff {v : PyValue} {s : String} : v.str? = some s ↔ v = .str s := by
  cases v <;> simp [PyValue.str?]

/-- A value is equal to an integer if it is that number. -/
theorem equal_int_iff {v : PyValue} {n : ℤ} : v.Equal (.int n) ↔ v.number? = some (n : ℚ) := by
  cases v <;> simp [PyValue.Equal, PyValue.number?, eq_comm]

theorem checksumMatches_iff :
    ((opened.find? "checksum").getD .none).str? =
      some (checksumOf env (opened.erase "checksum")) ↔ ChecksumMatches env opened := by
  rw [str?_eq_some_iff, ChecksumMatches]
  cases opened.find? "checksum" <;> simp

theorem isCurrent_iff :
    ((opened.erase "checksum").find? "schema_version").bind PyValue.number? =
      some (schemaVersion : ℚ) ↔ IsCurrent opened := by
  rw [UniqueTable.find?_erase, if_neg (by decide), IsCurrent, Option.bind_eq_some_iff]
  simp only [equal_int_iff]

/-- What `load` does with an object. -/
theorem loadContent_of_isObject (h : IsObject env content opened) (workflowId : String) :
    (¬ ChecksumMatches env opened ∧
      loadContent env workflowId content = .error (.corruption workflowId)) ∨
    (ChecksumMatches env opened ∧ ¬ IsCurrent opened ∧ ∃ found,
      loadContent env workflowId content = .error (.version found workflowId)) ∨
    (ChecksumMatches env opened ∧ IsCurrent opened ∧
      loadContent env workflowId content = readRecord (opened.erase "checksum")) := by
  unfold loadContent
  rw [openObject_of_isObject h]
  dsimp only
  by_cases hmatch : ChecksumMatches env opened
  · rw [if_neg (not_not.mpr (checksumMatches_iff.mpr hmatch))]
    by_cases hcurrent : IsCurrent opened
    · rw [if_neg (not_not.mpr (isCurrent_iff.mpr hcurrent))]
      exact .inr (.inr ⟨hmatch, hcurrent, rfl⟩)
    · rw [if_pos (mt isCurrent_iff.mp hcurrent)]
      exact .inr (.inl ⟨hmatch, hcurrent, _, rfl⟩)
  · rw [if_pos (mt checksumMatches_iff.mp hmatch)]
    exact .inl ⟨hmatch, rfl⟩

theorem orRaise_eq_ok_iff {α : Type} {o : Option α} {e : LoadError} {v : α} :
    orRaise o e = .ok v ↔ o = some v := by
  cases o <;> simp [orRaise]

theorem eq_of_orRaise_eq_error {α : Type} {o : Option α} {e e' : LoadError}
    (h : orRaise o e = .error e') : e' = e := by
  cases o with
  | none => exact (Except.error.inj h).symm
  | some v => cases h

/-- The entry of an object under a key that it needs. -/
theorem field_eq_ok_iff {key : String} {v : PyValue} :
    field raw key = .ok v ↔ raw.find? key = some v := orRaise_eq_ok_iff

/-- The record that `load` makes of an object, if it makes one. -/
theorem readRecord_eq_ok_iff {record : LoadedRecord} :
    readRecord raw = .ok record ↔
      raw.find? "workflow_id" = some record.workflowId ∧
      raw.find? "schema_version" = some record.schemaVersion ∧
      raw.find? "updated_at" = some record.updatedAt ∧
      (rawSteps raw).toList? = some record.completedSteps ∧
      ∃ items, (rawProgress raw).items? = some items ∧
        listed? items = some record.stepProgress := by
  unfold readRecord
  simp only [Except.bind_eq_ok_iff, Except.pure_eq_ok_iff, field_eq_ok_iff, orRaise_eq_ok_iff]
  constructor
  · rintro ⟨id, hid, version, hversion, date, hdate, steps, hsteps, items, hitems, progress,
      hprogress, rfl⟩
    exact ⟨hid, hversion, hdate, hsteps, items, hitems, hprogress⟩
  · rintro ⟨hid, hversion, hdate, hsteps, items, hitems, hprogress⟩
    exact ⟨_, hid, _, hversion, _, hdate, _, hsteps, items, hitems, _, hprogress, rfl⟩

theorem not_loadsSafely_of_field_error {key : String} {e : LoadError}
    (h : field raw key = .error e) : ¬ LoadsSafely saved (.error e) := by
  rw [eq_of_orRaise_eq_error h]
  exact id

/-- The errors of an object without the entries of a record are other errors. -/
theorem not_loadsSafely_of_readRecord_error {e : LoadError} (h : readRecord raw = .error e) :
    ¬ LoadsSafely saved (.error e) := by
  unfold readRecord at h
  obtain hid | ⟨id, -, h⟩ := Except.bind_eq_error_iff.mp h
  · exact not_loadsSafely_of_field_error hid
  obtain hversion | ⟨version, -, h⟩ := Except.bind_eq_error_iff.mp h
  · exact not_loadsSafely_of_field_error hversion
  obtain hdate | ⟨date, -, h⟩ := Except.bind_eq_error_iff.mp h
  · exact not_loadsSafely_of_field_error hdate
  obtain hsteps | ⟨steps, -, h⟩ := Except.bind_eq_error_iff.mp h
  · rw [eq_of_orRaise_eq_error hsteps]
    exact fun hsafe => hsafe
  obtain hitems | ⟨items, -, h⟩ := Except.bind_eq_error_iff.mp h
  · rw [eq_of_orRaise_eq_error hitems]
    exact fun hsafe => hsafe
  obtain hprogress | ⟨progress, -, h⟩ := Except.bind_eq_error_iff.mp h
  · rw [eq_of_orRaise_eq_error hprogress]
    exact fun hsafe => hsafe
  cases h

/-- The record of an object is one that was saved if the object describes one. -/
theorem loadsSafely_readRecord_iff (hcurrent : IsCurrent opened) :
    LoadsSafely saved ((readRecord (opened.erase "checksum")).map some) ↔
      ∃ s ∈ saved, s.schemaVersion = schemaVersion ∧ Describes (opened.erase "checksum") s := by
  constructor
  · intro hsafe
    cases hread : readRecord (opened.erase "checksum") with
    | error e =>
      rw [hread] at hsafe
      exact absurd hsafe (not_loadsSafely_of_readRecord_error hread)
    | ok record =>
      rw [hread] at hsafe
      obtain ⟨s, hs, hone, hequal⟩ := hsafe
      obtain ⟨hid, -, hdate, hsteps, items, hitems, hlisted⟩ := readRecord_eq_ok_iff.mp hread
      exact ⟨s, hs, hone, ⟨_, hid, hequal.workflowId⟩, ⟨_, hdate, hequal.updatedAt⟩,
        ⟨_, hsteps, hequal.completedSteps⟩, ⟨items, _, hitems, hlisted, hequal.stepProgress⟩⟩
  · rintro ⟨s, hs, hone, hdescribes⟩
    obtain ⟨version, hversion, hnumber⟩ := hcurrent
    obtain ⟨id, hid, hidEqual⟩ := hdescribes.workflowId
    obtain ⟨date, hdate, hdateEqual⟩ := hdescribes.updatedAt
    obtain ⟨steps, hsteps, hstepsEqual⟩ := hdescribes.completedSteps
    obtain ⟨items, progress, hitems, hlisted, hprogressEqual⟩ := hdescribes.stepProgress
    have hread : readRecord (opened.erase "checksum") =
        .ok ⟨id, version, date, steps, progress⟩ := by
      refine readRecord_eq_ok_iff.mpr ⟨hid, ?_, hdate, hsteps, items, hitems, hlisted⟩
      rw [UniqueTable.find?_erase, if_neg (by decide)]
      exact hversion
    rw [hread]
    refine ⟨s, hs, hone, hidEqual, ?_, hdateEqual, hstepsEqual, hprogressEqual⟩
    rw [hone]
    exact hnumber

/-- Of which contents `load` gives a record that was saved or raises one of its two errors: the
texts of objects of which the checksum is wrong, or the version another, or that describe a record
that was saved under the current version. -/
theorem loadFile_safely_iff {directory : UniqueTable String (List UInt8)} {workflowId : String}
    (hfile : directory.find? (fileName env.typed workflowId) = some content) :
    LoadsSafely saved (loadFile env directory workflowId) ↔
      ∃ opened, IsObject env content opened ∧
        (¬ ChecksumMatches env opened ∨ ¬ IsCurrent opened ∨
          ∃ s ∈ saved, s.schemaVersion = schemaVersion ∧
            Describes (opened.erase "checksum") s) := by
  unfold loadFile
  rw [hfile]
  dsimp only
  constructor
  · intro hsafe
    by_cases hobject : ∃ opened, IsObject env content opened
    · obtain ⟨opened, hopened⟩ := hobject
      refine ⟨opened, hopened, ?_⟩
      obtain ⟨hwrong, -⟩ | ⟨-, hother, -⟩ | ⟨-, hcurrent, hload⟩ :=
        loadContent_of_isObject hopened workflowId
      · exact .inl hwrong
      · exact .inr (.inl hother)
      · rw [hload] at hsafe
        exact .inr (.inr ((loadsSafely_readRecord_iff hcurrent).mp hsafe))
    · exact absurd hsafe
        (not_loadsSafely_of_not_isObject (not_exists.mp hobject) workflowId)
  · rintro ⟨opened, hopened, hcase⟩
    obtain ⟨-, hload⟩ | ⟨-, -, found, hload⟩ | ⟨hmatch, hcurrent, hload⟩ :=
      loadContent_of_isObject hopened workflowId
    · rw [hload]
      trivial
    · rw [hload]
      trivial
    · rw [hload]
      obtain hwrong | hother | hdescribes := hcase
      · exact absurd hmatch hwrong
      · exact absurd hcurrent hother
      · exact (loadsSafely_readRecord_iff hcurrent).mpr hdescribes

/-- The texts `{`, `[]` and `{}`, as the reader of JSON sees them. -/
private def shortTexts : FileEnv where
  unicodeAlnum _ := false
  parse content :=
    if content = [91, 93] then .ok (.array 0 Fin.elim0)
    else if content = [123, 125] then .ok (.object 0 Fin.elim0 Fin.elim0)
    else .error "Expecting property name enclosed in double quotes: line 1 column 2 (char 1)"
  dumps _ := "{}"

/-- The directory in which the workflow `wf` has a file. -/
private def workflowFile (content : List UInt8) : UniqueTable String (List UInt8) :=
  UniqueTable.empty.put (fileName shortTexts.typed "wf") content

private theorem find?_workflowFile (content : List UInt8) :
    (workflowFile content).find? (fileName shortTexts.typed "wf") = some content := by
  unfold workflowFile
  rw [UniqueTable.find?_put, if_pos rfl]

/-- An object without a checksum is refused. -/
theorem loadFile_safely_empty_object :
    LoadsSafely [] (loadFile shortTexts (workflowFile [123, 125]) "wf") := by
  refine (loadFile_safely_iff (find?_workflowFile _)).mpr ⟨_, ⟨0, _, _, rfl, rfl⟩, .inl ?_⟩
  unfold ChecksumMatches
  intro hmatch
  cases hmatch

/-- Of a file that was cut after its first byte, and of a list, `load` raises other errors. -/
theorem loadFile_cut_off :
    ¬ LoadsSafely [⟨"wf", 1, 0, [], .empty⟩] (loadFile shortTexts (workflowFile [123]) "wf") ∧
      ¬ LoadsSafely [⟨"wf", 1, 0, [], .empty⟩]
        (loadFile shortTexts (workflowFile [91, 93]) "wf") := by
  unfold loadFile
  rw [find?_workflowFile, find?_workflowFile]
  exact ⟨id, id⟩

end Reading

end LedgerLens.Utils.Checkpointing
