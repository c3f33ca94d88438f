import LedgerLens.Detection.PromotionGates
import LedgerLens.Library.UniqueTable
import Mathlib.Algebra.Order.Field.Basic
import Mathlib.Algebra.Order.Field.Rat
import Mathlib.Data.List.MinMax
import Mathlib.Data.Prod.Lex
import Mathlib.Data.String.Basic

/-!
# The cross-chain identity graph

Addresses on several chains are the nodes, and each row of the edge table is one piece of
evidence that two of them belong together. The evidence of a pair is combined into one
confidence, and `get_connected_component` searches from an address for all others that are
linked to it, the most confident first. Confidences are numbers of an ordered field.
-/

namespace LedgerLens.Detection.CrossChain

variable {K : Type*} [Field K] [LinearOrder K]

/-- `Evidence`, without its metadata. -/
structure Evidence (K : Type*) where
  /-- The kind of evidence. -/
  evidenceType : String
  /-- The detector's own score. -/
  strength : K
  deriving DecidableEq

/-- `EVIDENCE_RELIABILITY`. -/
def evidenceReliability : List (String × ℚ) :=
  [("bridge", 1), ("wormhole_bridge", 1), ("shared_deposit", 9 / 10),
    ("amount_fingerprint", 11 / 20), ("behavioral", 4 / 5), ("timing_correlation", 7 / 10)]

/-- `DEFAULT_RELIABILITY`. -/
def defaultReliability : ℚ := 4 / 5

/-- `Evidence.reliability`. -/
def Evidence.reliability (evidence : Evidence K) : K :=
  ((evidenceReliability.lookup evidence.evidenceType).getD defaultReliability : ℚ)

/-- `Evidence.probability`. -/
def Evidence.probability (evidence : Evidence K) : K :=
  min (max evidence.strength 0) 1 * evidence.reliability

/-- `combine_confidence`. -/
def combineConfidence (evidence : List (Evidence K)) : K :=
  1 - evidence.foldl (fun miss item => miss * (1 - item.probability)) 1

/-- `normalize_address`; `lower` is `str.lower`. -/
def normalizeAddress (lower : String → String) (address : String) : String :=
  let addr := String.ofList (strip address.toList)
  if addr.startsWith "0x" || (lower addr).startsWith "0x" then lower addr else addr

/-- `CrossChainNode`, without its primary key `address`. -/
structure CrossChainNode (K : Type*) where
  /-- The chain. -/
  chain : String
  /-- The risk score. -/
  riskScore : K
  deriving DecidableEq

/-- The columns of `CrossChainEdge` under its UNIQUE constraint. -/
structure EdgeKey where
  /-- `source_address`. -/
  sourceAddress : String
  /-- `target_address`. -/
  targetAddress : String
  /-- `link_type`. -/
  linkType : String
  deriving DecidableEq

/-- The two tables. Edges have their `confidence`; their metadata is left out. -/
structure IdentityGraph (K : Type*) where
  /-- The nodes by address. -/
  nodes : UniqueTable String (CrossChainNode K)
  /-- The edges. -/
  edges : UniqueTable EdgeKey K
  /-- Both ends of an edge are nodes. -/
  registered : ∀ key, edges.find? key ≠ none →
    nodes.find? key.sourceAddress ≠ none ∧ nodes.find? key.targetAddress ≠ none

/-- The chain that `add_edge` guesses for a new node. -/
def guessNodeChain (address : String) : String :=
  if address.startsWith "0x" ∧ address.length = 42 then "ethereum"
  else if 32 ≤ address.length ∧ address.length ≤ 44 then "solana"
  else "stellar"

/-- The nodes with one for an address that has none. -/
def ensureNode (nodes : UniqueTable String (CrossChainNode K)) (address : String) :
    UniqueTable String (CrossChainNode K) :=
  match nodes.find? address with
  | none => nodes.put address ⟨guessNodeChain address, 0⟩
  | some _ => nodes

omit [LinearOrder K] in
/-- No node is lost, and the address has one. -/
theorem find?_ensureNode_ne_none (nodes : UniqueTable String (CrossChainNode K))
    (address other : String) :
    (ensureNode nodes address).find? other ≠ none ↔
      other = address ∨ nodes.find? other ≠ none := by
  unfold ensureNode
  cases hfind : nodes.find? address with
  | none =>
    by_cases hother : other = address
    · simp [hother]
    · simp [hother]
  | some node =>
    constructor
    · exact Or.inr
    · rintro (rfl | hother)
      · simp [hfind]
      · exact hother

namespace IdentityGraph

/-- A graph without nodes. -/
def empty : IdentityGraph K where
  nodes := .empty
  edges := .empty
  registered _ hkey := absurd rfl hkey

/-- `add_node`. -/
def addNode (lower : String → String) (g : IdentityGraph K) (address chain : String)
    (riskScore : K) : IdentityGraph K where
  nodes := g.nodes.put (normalizeAddress lower address) ⟨lower chain, riskScore⟩
  edges := g.edges
  registered key hkey := by
    obtain ⟨hsource, htarget⟩ := g.registered key hkey
    simp only [UniqueTable.find?_put]
    constructor <;> split <;> simp_all

/-- `add_edge`; `excluded` says which addresses are Solana program addresses. -/
def addEdge (lower : String → String) (excluded : String → Bool) (g : IdentityGraph K)
    (source target linkType : String) (confidence : K) : IdentityGraph K :=
  let source := normalizeAddress lower source
  let target := normalizeAddress lower target
  if excluded source || excluded target then g
  else
    { nodes := ensureNode (ensureNode g.nodes source) target
      edges := g.edges.put ⟨source, target, linkType⟩ confidence
      registered := by
        intro key hkey
        simp only [find?_ensureNode_ne_none]
        rw [UniqueTable.find?_put] at hkey
        split at hkey
        next hnew => simp [hnew]
        next =>
          obtain ⟨hsource, htarget⟩ := g.registered key hkey
          exact ⟨Or.inr (Or.inr hsource), Or.inr (Or.inr htarget)⟩ }

/-- `_edge_to_evidence`. -/
def edgeToEvidence (row : EdgeKey × K) : Evidence K := ⟨row.1.linkType, row.2⟩

/-- What `get_edge_evidence` finds for two normalized addresses, in either direction. -/
def pairEvidence (g : IdentityGraph K) (a b : String) : List (Evidence K) :=
  (g.edges.rows.filter fun row =>
    row.1.sourceAddress = a ∧ row.1.targetAddress = b ∨
      row.1.sourceAddress = b ∧ row.1.targetAddress = a).map edgeToEvidence

/-- The edges that have an address as one end. -/
def touching (g : IdentityGraph K) (current : String) : List (EdgeKey × K) :=
  g.edges.rows.filter fun row =>
    row.1.sourceAddress = current ∨ row.1.targetAddress = current

/-- The other end of an edge. -/
def neighbor (current : String) (key : EdgeKey) : String :=
  if key.sourceAddress = current then key.targetAddress else key.sourceAddress

/-- `evidence_by_neighbor`. -/
def evidenceByNeighbor (g : IdentityGraph K) (current : String) :
    UniqueTable String (List (Evidence K)) :=
  UniqueTable.collect [] (fun evidence item => evidence ++ [item])
    ((g.touching current).map fun row => (neighbor current row.1, edgeToEvidence row))

end IdentityGraph

/-- A node of the result. -/
structure NodeInfo (K : Type*) where
  /-- `"address"`. -/
  address : String
  /-- `"chain"`. -/
  chain : String
  /-- `"risk_score"`. -/
  riskScore : K
  /-- `"link_confidence"`. -/
  linkConfidence : K
  /-- `"confidence"`. -/
  confidence : K
  deriving DecidableEq

/-- The variables of the loop in `get_connected_component`. -/
structure SearchState (K : Type*) where
  /-- `best`. -/
  best : UniqueTable String K
  /-- `heap`, in any order. -/
  heap : List (K × String)
  /-- `done`. -/
  done : List String
  /-- `nodes_info`. -/
  nodesInfo : UniqueTable String (NodeInfo K)

/-- `heapq.heappop`: the least entry, and the heap without it. -/
def heappop (heap : List (K × String)) : Option ((K × String) × List (K × String)) :=
  match heap.argmin toLex with
  | none => none
  | some entry => some (entry, heap.erase entry)

/-- The variables before the loop. -/
def initialSearch (startAddress : String) : SearchState K where
  best := UniqueTable.empty.put startAddress 1
  heap := [(-1, startAddress)]
  done := []
  nodesInfo := .empty

/-- The body of the loop over `evidence_by_neighbor`. -/
def relaxNeighbor (minConfidence negConf : K) (s : SearchState K)
    (entry : String × List (Evidence K)) : SearchState K :=
  let edgeConf := max 0 (min 1 (combineConfidence entry.2))
  if edgeConf < minConfidence then s
  else
    let conf := -negConf * edgeConf
    if entry.1 ∉ s.done ∧ (s.best.find? entry.1).getD (-1) < conf then
      { s with best := s.best.put entry.1 conf, heap := (-conf, entry.1) :: s.heap }
    else s

/-- The key of `_group_by_chain` for a chain. -/
def chainKey (lower : String → String) (chain : String) : String :=
  let chainKey := lower chain
  if chainKey ∈ ["ethereum", "eth", "evm"] then "eth"
  else if chainKey ∈ ["solana", "sol"] then "sol"
  else if chainKey ∈ ["stellar"] then "stellar"
  else chainKey

/-- Nodes grouped by chain. -/
abbrev ChainGroups (K : Type*) := UniqueTable String (List (NodeInfo K))

/-- `{"eth": [], "sol": [], "stellar": []}`. -/
def noGroups : ChainGroups K := ((UniqueTable.empty.put "eth" []).put "sol" []).put "stellar" []

/-- `_group_by_chain`. -/
def groupByChain (lower : String → String) (nodesInfo : UniqueTable String (NodeInfo K))
    (exclude : String) : ChainGroups K :=
  let included := nodesInfo.rows.filter fun row => row.1 ≠ exclude
  (included.map fun row => (chainKey lower row.2.chain, row.2)).foldl
    (fun result item => result.put item.1 ((result.find? item.1).getD [] ++ [item.2])) noGroups

namespace IdentityGraph

/-- What the `while` loop does with the entry that it has popped. -/
def visit (g : IdentityGraph K) (minConfidence negConf : K) (current : String)
    (heap : List (K × String)) (s : SearchState K) : SearchState K :=
  if current ∈ s.done then { s with heap := heap }
  else
    match g.nodes.find? current with
    | none => { s with heap := heap, done := current :: s.done }
    | some node =>
      (g.evidenceByNeighbor current).rows.foldl (relaxNeighbor minConfidence negConf)
        { s with
          heap := heap
          done := current :: s.done
          nodesInfo := s.nodesInfo.put current
            ⟨current, node.chain, node.riskScore, -negConf, -negConf⟩ }

/-- The `while` loop, if it ends within so many rounds. -/
def search (g : IdentityGraph K) (minConfidence : K) : ℕ → SearchState K → Option (SearchState K)
  | 0, _ => none
  | rounds + 1, s =>
    match heappop s.heap with
    | none => some s
    | some ((negConf, current), heap) =>
      g.search minConfidence rounds (g.visit minConfidence negConf current heap s)

/-- `get_connected_component`. The loop gets two rounds for each edge, one for the start and
one to see that the heap is empty. -/
def getConnectedComponent (lower : String → String) (g : IdentityGraph K) (startAddress : String)
    (minConfidence : K) : Option (ChainGroups K) :=
  let startAddress := normalizeAddress lower startAddress
  match g.nodes.find? startAddress with
  | none => some noGroups
  | some _ =>
    match g.search minConfidence (2 * g.edges.rows.length + 2) (initialSearch startAddress) with
    | none => none
    | some s => some (groupByChain lower s.nodesInfo startAddress)

end IdentityGraph

end LedgerLens.Detection.CrossChain
