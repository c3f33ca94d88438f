import LedgerLens.Library.StackSearch
import Mathlib.Data.Finset.Insert
import Mathlib.Data.List.FinRange

/-!
# Payment paths

`trace_payment_paths` walks from a wallet along the payments out of it, of which it keeps the ones
still to be continued on a stack. A path ends at a wallet without payments, at a wallet that is on
it already, or at one of three bounds.
-/

namespace LedgerLens.Ingestion.PaymentPaths

open StackSearch

/-- A payment operation, as far as it is read. -/
structure PaymentOp where
  /-- `source_account`. -/
  sourceAccount : Option String
  /-- `destination_account`. -/
  destinationAccount : Option String
  /-- `transaction_id`. -/
  transactionId : Option String

/-- A payment of which nothing is missing. -/
structure Payment where
  /-- `src`. -/
  source : String
  /-- `dst`. -/
  destination : String
  /-- `tx`. -/
  transactionId : String

/-- `if src and dst and tx`. -/
def PaymentOp.payment? (op : PaymentOp) : Option Payment :=
  match op.sourceAccount, op.destinationAccount, op.transactionId with
  | some src, some dst, some tx =>
    if src ≠ "" ∧ dst ≠ "" ∧ tx ≠ "" then some ⟨src, dst, tx⟩ else none
  | _, _, _ => none

/-- The payments of which nothing is missing. -/
abbrev completePayments (payments : List PaymentOp) : List Payment :=
  payments.filterMap PaymentOp.payment?

/-- `graph[src].append((dst, str(tx)))`. -/
def addEdge (graph : String → List (String × String)) (op : PaymentOp) :
    String → List (String × String) :=
  match op.payment? with
  | some p => Function.update graph p.source (graph p.source ++ [(p.destination, p.transactionId)])
  | none => graph

/-- `graph`: the payments out of each wallet. -/
def buildGraph (payments : List PaymentOp) : String → List (String × String) :=
  payments.foldl addEdge fun _ => []

/-- The bounds of a trace. -/
inductive TraceBound where
  /-- `"max_depth"`. -/
  | maxDepth
  /-- `"max_branching"`. -/
  | maxBranching
  /-- `"max_paths"`. -/
  | maxPaths
  deriving DecidableEq

/-- The name of a bound. -/
def TraceBound.name : TraceBound → String
  | maxDepth => "max_depth"
  | maxBranching => "max_branching"
  | maxPaths => "max_paths"

/-- The values of the bounds. -/
structure TraceBounds where
  /-- `max_depth`. -/
  maxDepth : ℤ
  /-- `max_branching`. -/
  maxBranching : ℤ
  /-- `max_paths`. -/
  maxPaths : ℤ

/-- The value of a bound. -/
def TraceBounds.value (bounds : TraceBounds) : TraceBound → ℤ
  | .maxDepth => bounds.maxDepth
  | .maxBranching => bounds.maxBranching
  | .maxPaths => bounds.maxPaths

/-- `InvalidInputError`. -/
structure InvalidInputError where
  /-- `message`. -/
  message : String
  /-- `source`. -/
  source : String
  /-- `reason`. -/
  reason : String

/-- The check of the bounds. -/
def checkBounds (bounds : TraceBounds) : Except InvalidInputError Unit :=
  match [TraceBound.maxDepth, .maxBranching, .maxPaths].find? (bounds.value · < 1) with
  | some bound => .error
    { message := s!"{bound.name} must be >= 1, got {bounds.value bound}"
      source := "payment_path_analyzer.trace_payment_paths"
      reason := s!"invalid traversal bound {bound.name}={bounds.value bound}" }
  | none => .ok ()

/-- `PathTraceResult`. -/
structure PathTraceResult where
  /-- `start_wallet`. -/
  startWallet : String
  /-- `paths`. -/
  paths : List (List String) := []
  /-- `payment_ids`. -/
  paymentIds : List (List String) := []
  /-- `cycles`. -/
  cycles : List (List String) := []
  /-- `truncated`. -/
  truncated : Bool := false
  /-- `truncation_reasons`. -/
  truncationReasons : Finset TraceBound := ∅
  /-- `truncated_payment_ids`. -/
  truncatedPaymentIds : List String := []
  deriving DecidableEq

namespace PathTraceResult

/-- `_truncate`. -/
def truncate (reason : TraceBound) (skipped : List (String × String)) (result : PathTraceResult) :
    PathTraceResult :=
  { result with
    truncated := true
    truncationReasons := insert reason result.truncationReasons
    truncatedPaymentIds := result.truncatedPaymentIds ++ skipped.map Prod.snd }

/-- A path is found. -/
def addPath (wallets txIds : List String) (result : PathTraceResult) : PathTraceResult :=
  { result with
    paths := result.paths ++ [wallets]
    paymentIds := result.paymentIds ++ [txIds] }

/-- A path is found that ends with a wallet that was on it before. -/
def addCycle (wallets txIds : List String) (result : PathTraceResult) : PathTraceResult :=
  { result.addPath wallets txIds with cycles := result.cycles ++ [wallets] }

end PathTraceResult

/-- An entry of the stack. -/
structure StackEntry where
  /-- `wallets`. -/
  wallets : List String
  /-- `tx_ids`. -/
  txIds : List String
  /-- A path begins with a wallet. -/
  nonempty : wallets ≠ []

namespace StackEntry

/-- `current`. -/
def current (entry : StackEntry) : String := entry.wallets.getLast entry.nonempty

/-- A path with another payment. -/
def extend (entry : StackEntry) (edge : String × String) : StackEntry where
  wallets := entry.wallets ++ [edge.1]
  txIds := entry.txIds ++ [edge.2]
  nonempty := List.append_ne_nil_of_right_ne_nil _ (List.cons_ne_nil _ _)

/-- `for dst, tx in edges`: the result and the children. -/
def followEdges (entry : StackEntry) (edges : List (String × String)) (result : PathTraceResult) :
    PathTraceResult × List StackEntry :=
  edges.foldl (fun acc edge =>
    if edge.1 ∈ entry.wallets then
      (acc.1.addCycle (entry.wallets ++ [edge.1]) (entry.txIds ++ [edge.2]), acc.2)
    else (acc.1, acc.2 ++ [entry.extend edge])) (result, [])

/-- A turn of the loop: the result and what comes on the stack, the next one first. -/
def process (graph : String → List (String × String)) (bounds : TraceBounds) (entry : StackEntry)
    (result : PathTraceResult) : PathTraceResult × List StackEntry :=
  let edges := graph entry.current
  if edges = [] then
    (if entry.txIds ≠ [] then result.addPath entry.wallets entry.txIds else result, [])
  else if bounds.maxDepth ≤ entry.txIds.length then
    ((result.addPath entry.wallets entry.txIds).truncate .maxDepth edges, [])
  else if bounds.maxBranching < edges.length then
    entry.followEdges (edges.take bounds.maxBranching.toNat)
      (result.truncate .maxBranching (edges.drop bounds.maxBranching.toNat))
  else entry.followEdges edges result

end StackEntry

/-- The paths above the last bound are dropped. -/
def PathTraceResult.trim (bounds : TraceBounds) (result : PathTraceResult) : PathTraceResult :=
  if bounds.maxPaths < result.paths.length then
    { result with
      paths := result.paths.take bounds.maxPaths.toNat
      paymentIds := result.paymentIds.take bounds.maxPaths.toNat
      truncated := true
      truncationReasons := insert .maxPaths result.truncationReasons }
  else result

/-- `trace_payment_paths`, with a number of turns after which the loop is given up. -/
def tracePaymentPaths (fuel : ℕ) (startWallet : String) (payments : List PaymentOp)
    (bounds : TraceBounds) : Except InvalidInputError (Option PathTraceResult) := do
  checkBounds bounds
  let stack := [⟨[startWallet], [], List.cons_ne_nil _ _⟩]
  let result := search (fun result => decide (bounds.maxPaths ≤ result.paths.length))
    (PathTraceResult.truncate .maxPaths []) (StackEntry.process (buildGraph payments) bounds)
    fuel stack { startWallet }
  return result.map (PathTraceResult.trim bounds)

end LedgerLens.Ingestion.PaymentPaths
