import LedgerLens.Library.Sha256
import LedgerLens.Library.UniqueTable
import Mathlib.Algebra.Order.Field.Rat
import Mathlib.Data.List.Basic

/-!
# The annotation queue

Wallets that are to be labelled are kept in a JSON file as a list of items, which every operation
reads, changes and writes back. An item goes from pending to annotated, to several annotations or
to skipped. Labels are signed with an HMAC over four fields joined by a bar.

Uncertainties and agreement are rational numbers.
-/

namespace LedgerLens.Detection.ActiveLearning

/-- The value of a field in the file. -/
inductive FieldValue where
  /-- `None`. -/
  | null
  /-- `bool`. -/
  | bool (b : Bool)
  /-- `int`. -/
  | int (n : ℤ)
  /-- `str`. -/
  | str (s : String)
  /-- A number of floating point, a list or a dictionary, with its text. -/
  | other (id : ℕ) (text : String)
  deriving DecidableEq

/-- What a value is written as in `f"{value}"`. -/
def FieldValue.text : FieldValue → String
  | null => "None"
  | bool b => if b then "True" else "False"
  | int n => toString n
  | str s => s
  | other _ text => text

/-- The message that `_compute_hmac` signs. -/
def signedMessage (wallet label annotatorId annotatedAt : FieldValue) : String :=
  wallet.text ++ "|" ++ label.text ++ "|" ++ annotatorId.text ++ "|" ++ annotatedAt.text

/-- `_compute_hmac`. -/
def computeHmac (secret : String) (wallet label annotatorId annotatedAt : FieldValue) : String :=
  Sha256.hmacHexdigest secret.toUTF8.data.toList
    (signedMessage wallet label annotatorId annotatedAt).toUTF8.data.toList

/-- `status`. -/
inductive Status where
  | pending
  | annotated
  | multiAnnotated
  | disputed
  | skipped
  deriving DecidableEq

/-- An entry of `annotations`. -/
structure AnnotationEntry where
  /-- `label`. -/
  label : ℤ
  /-- `annotator_id`. -/
  annotatorId : String
  /-- `notes`. -/
  notes : String
  /-- `annotated_at`. -/
  annotatedAt : String
  /-- `annotation_hmac`. -/
  annotationHmac : String
  deriving DecidableEq

/-- What `annotate` writes into an item. -/
structure Verdict extends AnnotationEntry where
  /-- `quarantine`. -/
  quarantine : Bool
  /-- `quarantine_reason`. -/
  quarantineReason : String
  deriving DecidableEq

/-- An item of the queue. -/
structure QueueItem where
  /-- `wallet`. -/
  wallet : String
  /-- `asset_pair`. -/
  assetPair : String
  /-- `query_strategy`. -/
  queryStrategy : String
  /-- `selected_at`. -/
  selectedAt : String
  /-- `status`. -/
  status : Status
  /-- `epistemic_uncertainty`. -/
  epistemicUncertainty : Option ℚ := none
  /-- `aleatoric_uncertainty`. -/
  aleatoricUncertainty : Option ℚ := none
  /-- The fields of `annotate`. -/
  verdict : Option Verdict := none
  /-- `annotations`. -/
  annotations : List AnnotationEntry := []
  /-- `agreement_kappa`. -/
  agreementKappa : Option ℚ := none
  deriving DecidableEq

/-- What an operation raises. -/
inductive QueueError where
  /-- `annotator_id must be a non-empty string`. -/
  | emptyAnnotator
  /-- `label must be 0 (clean) or 1 (wash trading)`. -/
  | badLabel
  /-- `_atomic_write` failed, which leaves the file as it was. -/
  | write
  deriving DecidableEq

/-- `_atomic_write`. -/
def atomicWrite (written : Bool) (data : List QueueItem) : Except QueueError (List QueueItem) :=
  if written then .ok data else .error .write

/-- The arguments of `push`. -/
structure PushCall where
  /-- `wallets`. -/
  wallets : List String
  /-- `strategy_name`. -/
  strategyName : String
  /-- `asset_pair`. -/
  assetPair : String := ""
  /-- `epistemic_uncertainties or {}`. -/
  epistemicUncertainties : UniqueTable String ℚ := .empty
  /-- `aleatoric_uncertainties or {}`. -/
  aleatoricUncertainties : UniqueTable String ℚ := .empty
  /-- The time. -/
  now : String

/-- The wallets that `push` adds: those that were not in the queue before and are not too noisy. -/
def PushCall.added (call : PushCall) (aleatoricThreshold : ℚ) (queue : List QueueItem) :
    List String :=
  call.wallets.filter fun wallet =>
    wallet ∉ queue.map QueueItem.wallet ∧
      ∀ aleatoric ∈ call.aleatoricUncertainties.find? wallet, aleatoric ≤ aleatoricThreshold

/-- A new item of `push`. -/
def PushCall.item (call : PushCall) (wallet : String) : QueueItem where
  wallet := wallet
  assetPair := call.assetPair
  queryStrategy := call.strategyName
  selectedAt := call.now
  status := .pending
  epistemicUncertainty := call.epistemicUncertainties.find? wallet
  aleatoricUncertainty := call.aleatoricUncertainties.find? wallet

/-- `push`. -/
def push (aleatoricThreshold : ℚ) (call : PushCall) (written : Bool) (queue : List QueueItem) :
    Except QueueError (List QueueItem) :=
  atomicWrite written (queue ++ (call.added aleatoricThreshold queue).map call.item)

/-- The arguments of `annotate` and `multi_annotate`. -/
structure AnnotateCall where
  /-- `wallet`. -/
  wallet : String
  /-- `label`. -/
  label : ℤ
  /-- `annotator_id`. -/
  annotatorId : String
  /-- `notes`. -/
  notes : String := ""
  /-- `quarantine`. -/
  quarantine : Bool := false
  /-- `quarantine_reason`. -/
  quarantineReason : String := ""
  /-- The time. -/
  now : String

/-- The checks of the arguments. -/
def AnnotateCall.check (call : AnnotateCall) : Except QueueError Unit :=
  if call.annotatorId = "" then .error .emptyAnnotator
  else if call.label ≠ 0 ∧ call.label ≠ 1 then .error .badLabel
  else .ok ()

/-- The annotation with its HMAC. -/
def AnnotateCall.entry (secret : String) (call : AnnotateCall) : AnnotationEntry where
  label := call.label
  annotatorId := call.annotatorId
  notes := call.notes
  annotatedAt := call.now
  annotationHmac := computeHmac secret (.str call.wallet) (.int call.label)
    (.str call.annotatorId) (.str call.now)

/-- What `annotate` writes. -/
def AnnotateCall.verdict (secret : String) (call : AnnotateCall) : Verdict where
  toAnnotationEntry := call.entry secret
  quarantine := call.quarantine
  quarantineReason := if call.quarantine then call.quarantineReason else ""

/-- A new item for a wallet that is not in the queue. -/
def AnnotateCall.item (call : AnnotateCall) (status : Status) : QueueItem where
  wallet := call.wallet
  assetPair := ""
  queryStrategy := "manual"
  selectedAt := call.now
  status := status

/-- The queue with a change to the first item of a wallet, if there is one. -/
def updateFirst (wallet : String) (f : QueueItem → QueueItem) :
    List QueueItem → Option (List QueueItem)
  | [] => none
  | item :: rest =>
    if item.wallet = wallet then some (f item :: rest)
    else (updateFirst wallet f rest).map (item :: ·)

/-- An item with the fields of `annotate`. -/
def QueueItem.withVerdict (item : QueueItem) (verdict : Verdict) : QueueItem :=
  { item with status := .annotated, verdict := some verdict }

/-- `annotate`. -/
def annotate (secret : String) (call : AnnotateCall) (written : Bool) (queue : List QueueItem) :
    Except QueueError (List QueueItem) := do
  call.check
  match updateFirst call.wallet (·.withVerdict (call.verdict secret)) queue with
  | some queue => atomicWrite written queue
  | none =>
    atomicWrite written (queue ++ [(call.item .annotated).withVerdict (call.verdict secret)])

/-- `_kappa_pair`. -/
def kappaPair (a b : ℤ) : ℚ :=
  if a = b then 1
  else
    let share (c : ℤ) : ℚ := ((if a = c then 1 else 0) + (if b = c then 1 else 0)) / 2
    let expected := share 0 ^ 2 + share 1 ^ 2
    if expected = 1 then 1 else (0 - expected) / (1 - expected)

/-- `combinations(labels, 2)`. -/
def combinations : List ℤ → List (ℤ × ℤ)
  | [] => []
  | a :: rest => rest.map (a, ·) ++ combinations rest

/-- The mean of the agreements. -/
def meanKappa (labels : List ℤ) : ℚ :=
  let kappas := (combinations labels).map fun pair => kappaPair pair.1 pair.2
  kappas.sum / kappas.length

/-- The labels whose HMAC is right. -/
def verifiedLabels (secret wallet : String) (annotations : List AnnotationEntry) : List ℤ :=
  (annotations.filter fun ann =>
    computeHmac secret (.str wallet) (.int ann.label) (.str ann.annotatorId)
      (.str ann.annotatedAt) = ann.annotationHmac).map AnnotationEntry.label

/-- `DISPUTE_KAPPA_THRESHOLD`. -/
def disputeKappaThreshold : ℚ := 3 / 5

/-- `_refresh_agreement_status`. -/
def refreshAgreementStatus (secret : String) (item : QueueItem) : QueueItem :=
  let verified := verifiedLabels secret item.wallet item.annotations
  if verified.length < 2 then
    { item with status := .multiAnnotated }
  else
    let kappa := meanKappa verified
    { item with
      status := if kappa < disputeKappaThreshold then .disputed else .multiAnnotated
      agreementKappa := some kappa }

/-- The item of a wallet with one more annotation. -/
def appendEntry (secret : String) (entry : AnnotationEntry) (item : QueueItem) : QueueItem :=
  refreshAgreementStatus secret { item with annotations := item.annotations ++ [entry] }

/-- `multi_annotate`. -/
def multiAnnotate (secret : String) (call : AnnotateCall) (written : Bool)
    (queue : List QueueItem) : Except QueueError (List QueueItem) := do
  call.check
  match queue.find? (·.wallet = call.wallet) with
  | some item =>
    if item.annotations.any (·.annotatorId = call.annotatorId) then
      -- A second annotation of one annotator is dropped; nothing is written.
      return queue
    else
      atomicWrite written
        ((updateFirst call.wallet (appendEntry secret (call.entry secret)) queue).getD queue)
  | none =>
    atomicWrite written
      (queue ++ [{ call.item .multiAnnotated with annotations := [call.entry secret] }])

/-- An item that is skipped. -/
def QueueItem.asSkipped (item : QueueItem) : QueueItem := { item with status := .skipped }

/-- `skip`. -/
def skip (wallet : String) (written : Bool) (queue : List QueueItem) :
    Except QueueError (List QueueItem) :=
  atomicWrite written
    ((updateFirst wallet QueueItem.asSkipped queue).getD queue)

/-- `items[:n]`. -/
def sliceTo {α : Type} (n : ℤ) (items : List α) : List α :=
  if 0 ≤ n then items.take n.toNat else items.take (items.length + n).toNat

/-- `pop_batch`. -/
def popBatch (n : ℤ) (queue : List QueueItem) : List QueueItem :=
  let pending := queue.filter (·.status = .pending)
  let ranked := pending.filter (·.epistemicUncertainty.isSome)
  let unranked := pending.filter (·.epistemicUncertainty.isNone)
  let ranked := ranked.mergeSort fun a b =>
    b.epistemicUncertainty.getD 0 ≤ a.epistemicUncertainty.getD 0
  sliceTo n (ranked ++ unranked)

end LedgerLens.Detection.ActiveLearning
