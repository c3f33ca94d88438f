import LedgerLens.Detection.AnnotationQueue
import LedgerLens.Library.Json
import Mathlib.Data.Bool.AllAny

/-!
# What the HMAC of an annotation protects

An export takes the annotations whose HMAC is right. The HMAC is over a text in which four fields
are joined by a bar that may occur in them, and which does not show their types. This file shows
which changes to a stored annotation an export does not notice.
-/

namespace LedgerLens.Detection.ActiveLearning

/-- An annotation as it is read from the file, with the fields that it has. -/
structure StoredEntry where
  /-- `wallet`. -/
  wallet : Option FieldValue := none
  /-- `label`. -/
  label : Option FieldValue := none
  /-- `annotator_id`. -/
  annotatorId : Option FieldValue := none
  /-- `annotated_at`. -/
  annotatedAt : Option FieldValue := none
  /-- `annotation_hmac`. -/
  annotationHmac : Option FieldValue := none
  /-- `status`. -/
  status : Option FieldValue := none
  deriving DecidableEq

/-- What an export raises. -/
inductive ExportError where
  /-- `TypeError` of `hmac.compare_digest`. -/
  | typeError
  /-- The file cannot be written. -/
  | toParquet
  deriving DecidableEq

/-- `hmac.compare_digest`, which compares texts in ASCII only. -/
def compareDigest (expected : String) : FieldValue → Except ExportError Bool
  | .str value =>
    if (expected ++ value).toList.all (·.toNat < 128) then .ok (expected = value)
    else .error .typeError
  | _ => .error .typeError

namespace StoredEntry

variable (secret : String) (ann : StoredEntry)

/-- The message for the fields that an annotation has. -/
def message : String :=
  signedMessage (ann.wallet.getD (.str "")) (ann.label.getD (.int (-1)))
    (ann.annotatorId.getD (.str "")) (ann.annotatedAt.getD (.str ""))

/-- `expected`. -/
def expectedHmac : String :=
  computeHmac secret (ann.wallet.getD (.str "")) (ann.label.getD (.int (-1)))
    (ann.annotatorId.getD (.str "")) (ann.annotatedAt.getD (.str ""))

/-- The check of the HMAC. -/
def verifies : Except ExportError Bool :=
  compareDigest (ann.expectedHmac secret) (ann.annotationHmac.getD (.str ""))

end StoredEntry

/-- `export_labelled`, the function. -/
def exportLabelled (secret : String) :
    List StoredEntry → Except ExportError (List StoredEntry)
  | [] => .ok []
  | ann :: rest => do
    let verified ← ann.verifies secret
    let later ← exportLabelled secret rest
    return if verified then ann :: later else later

/-- `AnnotationQueue.export_labelled`, given whether the file can be written. -/
def exportAnnotated (secret : String) (toParquet : List StoredEntry → Bool)
    (queue : List StoredEntry) : Except ExportError (List StoredEntry) := do
  let verified ← exportLabelled secret (queue.filter (·.status = some (.str "annotated")))
  if verified ≠ [] ∧ ¬toParquet verified then
    throw .toParquet
  return verified

/-- What `annotate` and `add_annotation` sign. -/
structure SignedFields where
  /-- `wallet`. -/
  wallet : String
  /-- `label`. -/
  label : ℤ
  /-- `annotator_id`. -/
  annotatorId : String
  /-- `annotated_at`. -/
  annotatedAt : String
  deriving DecidableEq

namespace SignedFields

variable (signed : SignedFields)

/-- The message. -/
def message : String :=
  signedMessage (.str signed.wallet) (.int signed.label) (.str signed.annotatorId)
    (.str signed.annotatedAt)

/-- The HMAC. -/
def hmac (secret : String) : String :=
  computeHmac secret (.str signed.wallet) (.int signed.label) (.str signed.annotatorId)
    (.str signed.annotatedAt)

/-- `add_annotation`: what it appends to the file. -/
def stored (secret : String) : StoredEntry where
  wallet := some (.str signed.wallet)
  label := some (.int signed.label)
  annotatorId := some (.str signed.annotatorId)
  annotatedAt := some (.str signed.annotatedAt)
  annotationHmac := some (.str (signed.hmac secret))

end SignedFields

/-- The fields that the HMAC is over are those that were signed. -/
structure StoredEntry.Unchanged (copy : StoredEntry) (signed : SignedFields) : Prop where
  /-- `wallet`. -/
  wallet : copy.wallet = some (.str signed.wallet)
  /-- `label`. -/
  label : copy.label = some (.int signed.label)
  /-- `annotator_id`. -/
  annotatorId : copy.annotatorId = some (.str signed.annotatorId)
  /-- `annotated_at`. -/
  annotatedAt : copy.annotatedAt = some (.str signed.annotatedAt)

/-- An export has the annotations whose HMAC is right. -/
theorem mem_exportLabelled_iff {secret : String} {queue rows : List StoredEntry}
    (h : exportLabelled secret queue = .ok rows) (ann : StoredEntry) :
    ann ∈ rows ↔ ann ∈ queue ∧ ann.verifies secret = .ok true := by
  induction queue generalizing rows with
  | nil =>
    cases h
    simp
  | cons head rest ih =>
    unfold exportLabelled at h
    cases hverified : head.verifies secret with
    | error e =>
      rw [hverified] at h
      cases h
    | ok verified =>
      cases hlater : exportLabelled secret rest with
      | error e =>
        rw [hverified, hlater] at h
        cases h
      | ok later =>
        rw [hverified, hlater] at h
        cases h
        cases verified with
        | false =>
          rw [if_neg Bool.false_ne_true, ih hlater, List.mem_cons, or_and_right]
          refine (or_iff_right ?_).symm
          rintro ⟨rfl, hright⟩
          rw [hverified] at hright
          cases hright
        | true =>
          rw [if_pos rfl, List.mem_cons, ih hlater, List.mem_cons, or_and_right]
          refine or_congr_left (iff_self_and.mpr ?_)
          rintro rfl
          exact hverified

/-- An export of the queue has annotated items whose HMAC is right. -/
theorem verifies_of_mem_exportAnnotated {secret : String} {toParquet : List StoredEntry → Bool}
    {queue rows : List StoredEntry} (h : exportAnnotated secret toParquet queue = .ok rows)
    {ann : StoredEntry} (hmem : ann ∈ rows) : ann.verifies secret = .ok true := by
  unfold exportAnnotated at h
  cases hverified : exportLabelled secret (queue.filter (·.status = some (.str "annotated"))) with
  | error e =>
    rw [hverified] at h
    cases h
  | ok verified =>
    rw [hverified] at h
    simp only [bind, Except.bind] at h
    split_ifs at h
    cases h
    exact ((mem_exportLabelled_iff hverified ann).mp hmem).2

section

variable {secret : String} {signed : SignedFields} {copy : StoredEntry}

/-- An HMAC is in ASCII. -/
theorem all_computeHmac (wallet label annotatorId annotatedAt : FieldValue) :
    (computeHmac secret wallet label annotatorId annotatedAt).toList.all (·.toNat < 128) =
      true := by
  have hall : ∀ c ∈ "0123456789abcdef".toList, c.toNat < 128 :=
    List.all_iff_forall_prop.mp rfl
  exact List.all_eq_true.mpr fun c hc => decide_eq_true (hall c (Sha256.mem_hexdigest hc))

/-- A copy with the HMAC of an annotation is accepted exactly if it has the same message. -/
theorem verifies_iff (hkept : copy.annotationHmac = some (.str (signed.hmac secret)))
    (hfree : copy.expectedHmac secret = signed.hmac secret → copy.message = signed.message) :
    copy.verifies secret = .ok true ↔ copy.message = signed.message := by
  have hsame (h : copy.message = signed.message) :
      copy.expectedHmac secret = signed.hmac secret := by
    unfold StoredEntry.message SignedFields.message at h
    rw [StoredEntry.expectedHmac, SignedFields.hmac, computeHmac, computeHmac, h]
  have hverifies : copy.verifies secret = .ok (copy.expectedHmac secret = signed.hmac secret) := by
    rw [StoredEntry.verifies, hkept, Option.getD_some, compareDigest, if_pos]
    rw [String.toList_append, List.all_append, Bool.and_eq_true]
    exact ⟨all_computeHmac _ _ _ _, all_computeHmac _ _ _ _⟩
  rw [hverifies, Except.ok.injEq, decide_eq_true_iff]
  exact ⟨hfree, hsame⟩

/-- A copy that keeps the HMAC of an annotation and is changed is in no export exactly if its
fields, printed and joined by bars, give another text. -/
theorem excluded_iff (hkept : copy.annotationHmac = some (.str (signed.hmac secret)))
    (hfree : copy.expectedHmac secret = signed.hmac secret → copy.message = signed.message) :
    (¬copy.Unchanged signed → ∀ queue rows,
        (exportLabelled secret queue = .ok rows → copy ∉ rows) ∧
          ∀ toParquet, exportAnnotated secret toParquet queue = .ok rows → copy ∉ rows) ↔
      (¬copy.Unchanged signed → copy.message ≠ signed.message) := by
  refine imp_congr_right fun _ => ⟨fun h hmessage => ?_, fun hmessage queue rows => ?_⟩
  · have hverifies := (verifies_iff hkept hfree).mpr hmessage
    have hexport : exportLabelled secret [copy] = .ok [copy] := by
      rw [exportLabelled, hverifies]
      rfl
    exact (h [copy] [copy]).1 hexport (List.mem_singleton_self copy)
  · have hverifies : copy.verifies secret ≠ .ok true :=
      fun h => hmessage ((verifies_iff hkept hfree).mp h)
    exact ⟨fun h hmem => hverifies ((mem_exportLabelled_iff h copy).mp hmem).2,
      fun toParquet h hmem => hverifies (verifies_of_mem_exportAnnotated h hmem)⟩

end

/-- An annotation by an annotator with a bar in the name. -/
private def barred : SignedFields := ⟨"GABC", 1, "x|y", "2024-01-01"⟩

/-- The copy with a part of the name moved to the time. -/
private def moved : StoredEntry :=
  { barred.stored "secret" with
    annotatorId := some (.str "x")
    annotatedAt := some (.str "y|2024-01-01") }

/-- The copy with the other label. -/
private def relabelled : StoredEntry :=
  { barred.stored "secret" with label := some (.int 0) }

/-- A copy with the other label is in no export. -/
theorem excluded_relabelled :
    ¬relabelled.Unchanged barred ∧ ∀ queue rows,
      (exportLabelled "secret" queue = .ok rows → relabelled ∉ rows) ∧
        ∀ toParquet, exportAnnotated "secret" toParquet queue = .ok rows → relabelled ∉ rows := by
  have hchanged : ¬relabelled.Unchanged barred := fun h => absurd h.label (by decide)
  have hmessage : relabelled.message ≠ barred.message := by decide +kernel
  have hhmac : relabelled.expectedHmac "secret" ≠ barred.hmac "secret" := by decide +kernel
  exact ⟨hchanged, (excluded_iff rfl fun h => absurd h hhmac).mpr (fun _ => hmessage) hchanged⟩

/-- A copy with a part of the name moved to the time is in an export. -/
theorem exported_moved :
    moved.annotationHmac = some (.str (barred.hmac "secret")) ∧ ¬moved.Unchanged barred ∧
      exportLabelled "secret" [moved] = .ok [moved] := by
  exact ⟨rfl, fun h => absurd h.annotatorId (by decide), by decide +kernel⟩

end LedgerLens.Detection.ActiveLearning
