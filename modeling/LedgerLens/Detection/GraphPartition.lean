import LedgerLens.Library.Raising
import LedgerLens.Library.Runs
import LedgerLens.Library.UnionFind
import LedgerLens.Library.UniqueTable
import Mathlib.Data.Finset.Sort
import Mathlib.Data.Fintype.Basic
import Mathlib.Data.String.Basic

/-!
# Partitioned identity resolution

Edges of the cross-chain graph are distributed over shards. Each shard has its own components;
a node whose edges lie in several shards is a boundary node, and its labels are unioned in a
coordinator. After a batch of changes only the dirty shards are recomputed.
-/

namespace LedgerLens.Detection

/-- An edge of the cross-chain graph. -/
abbrev Edge := String × String

/-- The exceptions that an inconsistent resolver could raise. -/
inductive PartitionError
  /-- A dictionary has no such key. -/
  | keyError
  /-- A list has no such position. -/
  | indexError
  /-- A text is not a label. -/
  | valueError
  /-- There is no coordinator. -/
  | assertionError
  deriving DecidableEq

/-- Look a key up that must be there. -/
def getItem {Key Row : Type} [DecidableEq Key] (t : UniqueTable Key Row) (k : Key) :
    Except PartitionError Row :=
  match t.find? k with
  | some row => .ok row
  | none => .error .keyError

/-- Map every node to a component representative in one pass. -/
def resolveWholeGraph (edges : List Edge) : UniqueTable String String where
  rows := ((UnionFind.unions edges).findAll (UnionFind.unions edges).nodes).2
  nodup := by
    rw [((UnionFind.unions edges).findAll_spec _).1, List.map_map]
    simpa [Function.comp_def] using (UnionFind.unions edges).nodup

/-- Representative-independent view of a mapping from nodes to components. -/
def canonicalComponents {Root : Type} [DecidableEq Root] (assignment : UniqueTable String Root) :
    Finset (Finset String) :=
  let groups : UniqueTable Root (Finset String) :=
    UniqueTable.collect ∅ (fun group node => insert node group) (assignment.rows.map Prod.swap)
  (groups.rows.map Prod.snd).toFinset

/-- The chain of an address, guessed from its format. -/
def guessChain (address : String) : String :=
  if address.startsWith "0x" ∧ address.length = 42 then "ethereum"
  else if address.length = 56 ∧ address.startsWith "G" then "stellar"
  else if 32 ≤ address.length ∧ address.length ≤ 44 then "solana"
  else "stellar"

/-- How edges are distributed. -/
inductive Strategy
  /-- By the Stellar endpoint, else by the smaller one. -/
  | anchor
  /-- By the two chains. -/
  | chainPair
  /-- By the smaller endpoint. -/
  | hash
  deriving DecidableEq

/-- The partition key of an edge. -/
def shardKey (edge : Edge) (strategy : Strategy) (chainOf : String → String) : String :=
  let u := edge.1
  let v := edge.2
  match strategy with
  | .anchor =>
    let cu := chainOf u
    let cv := chainOf v
    if cu = "stellar" ∧ cv ≠ "stellar" then u
    else if cv = "stellar" ∧ cu ≠ "stellar" then v
    else min u v
  | .chainPair => min (chainOf u) (chainOf v) ++ "|" ++ max (chainOf u) (chainOf v)
  | .hash => min u v

/-- What a resolver is constructed with, and the hash of the partition keys. -/
structure PartitionConfig where
  /-- The number of shards. -/
  numShards : ℕ := 16
  /-- There is a shard: the constructor raises otherwise. -/
  one_le : 1 ≤ numShards
  /-- How edges are distributed. -/
  strategy : Strategy := .anchor
  /-- The chain of an address. -/
  chainOf : String → String := guessChain
  /-- The first eight bytes of a key's digest, as a number. -/
  stableHash : String → ℕ

/-- The orders in which a resolution goes through the sets; a set does not promise any. -/
structure SetOrder where
  /-- The edges of a shard, one after the other. -/
  edges : Finset Edge → List Edge
  /-- These are its edges. -/
  mem_edges : ∀ s e, e ∈ edges s ↔ e ∈ s
  /-- The boundary nodes, one after the other. -/
  nodes : Finset String → List String
  /-- These are the boundary nodes. -/
  mem_nodes : ∀ s x, x ∈ nodes s ↔ x ∈ s

/-- The attributes of a resolver. -/
structure PartitionedResolver (c : PartitionConfig) where
  /-- The edges of each shard. -/
  shardEdges : Fin c.numShards → Finset Edge := fun _ => ∅
  /-- For each shard, the local root of a node. -/
  localRoots : Fin c.numShards → UniqueTable String String := fun _ => UniqueTable.empty
  /-- For each shard, the members of a local root. -/
  members : Fin c.numShards → UniqueTable String (List String) := fun _ => UniqueTable.empty
  /-- For a node, the number of incident edges in each shard that has any. -/
  nodeShards : UniqueTable String (UniqueTable (Fin c.numShards) ℤ) := UniqueTable.empty
  /-- The nodes with edges in more than one shard. -/
  boundary : Finset String := ∅
  /-- The shards to recompute. -/
  dirty : Finset (Fin c.numShards) := ∅
  /-- The classes of the labels of boundary nodes, when they are known. -/
  coordinator : Option (UnionFind String) := none
  /-- The labels of each class. -/
  groups : UniqueTable String (List String) := UniqueTable.empty
  /-- The number of shards that the last resolution recomputed. -/
  lastRecomputedShards : ℕ := 0

/-- The shard of an edge. -/
def PartitionConfig.shardOf (c : PartitionConfig) (edge : Edge) : Fin c.numShards :=
  ⟨c.stableHash (shardKey edge c.strategy c.chainOf) % c.numShards, Nat.mod_lt _ c.one_le⟩

/-- An edge with its smaller endpoint first. -/
def norm (edge : Edge) : Edge :=
  if edge.1 ≤ edge.2 then (edge.1, edge.2) else (edge.2, edge.1)

/-- The text that names a local component. -/
def labelOf {n : ℕ} (idx : Fin n) (root : String) : String :=
  idx.val.repr ++ ":" ++ root

/-- Split a label at its first colon; the part before is a number. -/
def splitLabel (label : String) : Except PartitionError (ℕ × String) :=
  let digits := label.toList.takeWhile fun ch => ch ≠ ':'
  match label.toList.dropWhile fun ch => ch ≠ ':' with
  | [] => .error .valueError
  | _ :: localRoot =>
    if digits ≠ [] ∧ digits.all Char.isDigit then
      .ok (Nat.ofDigitChars 10 digits 0, String.ofList localRoot)
    else .error .valueError

namespace PartitionedResolver

variable {c : PartitionConfig}

/-- One incident edge more or less for a node in a shard. -/
def touch (r : PartitionedResolver c) (node : String) (idx : Fin c.numShards) (delta : ℤ) :
    PartitionedResolver c :=
  let shards := (r.nodeShards.find? node).getD UniqueTable.empty
  let count := (shards.find? idx).getD 0 + delta
  let shards := if 0 < count then shards.put idx count else shards.erase idx
  { r with
    nodeShards :=
      if shards.rows = [] then r.nodeShards.erase node else r.nodeShards.put node shards
    boundary := if 1 < shards.rows.length then insert node r.boundary else r.boundary.erase node }

/-- Add one edge. -/
def addEdge (r : PartitionedResolver c) (edge : Edge) : PartitionedResolver c :=
  let edge := norm edge
  if edge.1 = edge.2 then r
  else
    let idx := c.shardOf edge
    if edge ∈ r.shardEdges idx then r
    else
      let r := { r with
        shardEdges := Function.update r.shardEdges idx (insert edge (r.shardEdges idx)) }
      let r := (r.touch edge.1 idx 1).touch edge.2 idx 1
      { r with dirty := insert idx r.dirty, coordinator := none }

/-- Add edges, one after the other. -/
def addEdges (r : PartitionedResolver c) (edges : List Edge) : PartitionedResolver c :=
  edges.foldl addEdge r

/-- Remove one edge. -/
def removeEdge (r : PartitionedResolver c) (edge : Edge) : PartitionedResolver c :=
  let edge := norm edge
  let idx := c.shardOf edge
  if edge ∈ r.shardEdges idx then
    let r := { r with
      shardEdges := Function.update r.shardEdges idx ((r.shardEdges idx).erase edge) }
    let r := (r.touch edge.1 idx (-1)).touch edge.2 idx (-1)
    { r with dirty := insert idx r.dirty, coordinator := none }
  else r

/-- Remove edges, one after the other. -/
def removeEdges (r : PartitionedResolver c) (edges : List Edge) : PartitionedResolver c :=
  edges.foldl removeEdge r

/-- The local components of one shard. -/
def resolveShard (edges : List Edge) : UniqueTable String String := resolveWholeGraph edges

/-- Recompute one shard. -/
def recomputeShard (order : SetOrder) (r : PartitionedResolver c) (idx : Fin c.numShards) :
    PartitionedResolver c :=
  let roots := resolveShard (order.edges (r.shardEdges idx))
  let members := UniqueTable.collect [] (fun nodes node => nodes ++ [node])
    (roots.rows.map Prod.swap)
  { r with
    localRoots := Function.update r.localRoots idx roots
    members := Function.update r.members idx members }

/-- Recompute the dirty shards. -/
def recompute (order : SetOrder) (r : PartitionedResolver c) : PartitionedResolver c :=
  let dirty := r.dirty.sort
  { dirty.foldl (recomputeShard order) r with
    dirty := ∅
    lastRecomputedShards := dirty.length }

/-- The labels of a node, one for each of its shards. -/
def labels (r : PartitionedResolver c) (node : String) : Except PartitionError (List String) := do
  let shards ← getItem r.nodeShards node
  shards.rows.mapM fun row => do
    let root ← getItem (r.localRoots row.1) node
    return labelOf row.1 root

/-- Union all labels of one boundary node. -/
def unionLabels (coordinator : UnionFind String) :
    List String → Except PartitionError (UnionFind String)
  | [] => .error .indexError
  | first :: rest =>
    .ok (rest.foldl (fun coordinator label => coordinator.union first label)
      (coordinator.add first))

/-- The coordinator of the boundary nodes. -/
def reconcile (order : SetOrder) (r : PartitionedResolver c) :
    Except PartitionError (UnionFind String) :=
  (order.nodes r.boundary).foldlM
    (fun coordinator node => do
      let labels ← r.labels node
      unionLabels coordinator labels)
    UnionFind.empty

/-- Group the labels of the coordinator by their roots, and keep both. -/
def install (r : PartitionedResolver c) (coordinator : UnionFind String) :
    PartitionedResolver c :=
  let found := coordinator.findAll coordinator.nodes
  { r with
    coordinator := some found.1
    groups := UniqueTable.collect [] (fun labels label => labels ++ [label])
      (found.2.map Prod.swap) }

/-- Recompute the dirty shards, then reconcile the boundary nodes. -/
def resolve (order : SetOrder) : Raising (PartitionedResolver c) PartitionError Unit := do
  let r ← get
  if r.coordinator.isSome then pure ()
  else do
    modify (recompute order)
    let r ← get
    let coordinator ← Raising.ofExcept (r.reconcile order)
    modify fun r => r.install coordinator

/-- The label of a node in its first shard. -/
def label (r : PartitionedResolver c) (node : String) : Except PartitionError (Option String) :=
  match (r.nodeShards.find? node).bind UniqueTable.first? with
  | none => .ok none
  | some idx => do
    let root ← getItem (r.localRoots idx) node
    return some (labelOf idx root)

/-- The root of a label, if the coordinator has it; the search halves its path. -/
def rootOfLabel (label : String) : Raising (PartitionedResolver c) PartitionError String := do
  let r ← get
  match r.coordinator with
  | none => throw .assertionError
  | some coordinator =>
    if label ∈ coordinator.nodes then do
      let found := coordinator.find label
      modify fun r => { r with coordinator := some found.1 }
      return found.2
    else return label

/-- An identifier of the identity cluster of an address. -/
def componentId (order : SetOrder) (address : String) :
    Raising (PartitionedResolver c) PartitionError (Option String) := do
  resolve order
  let r ← get
  let label ← Raising.ofExcept (r.label address)
  match label with
  | none => return none
  | some label => return some (← rootOfLabel label)

/-- The members of the local component that a label names. -/
def labelMembers (r : PartitionedResolver c) (label : String) :
    Except PartitionError (List String) := do
  let (idx, localRoot) ← splitLabel label
  if h : idx < c.numShards then getItem (r.members ⟨idx, h⟩) localRoot
  else throw .indexError

/-- All members of the local components of some labels. -/
def allMembers (r : PartitionedResolver c) (labels : List String) :
    Except PartitionError (Finset String) :=
  labels.foldlM (fun members label => do return members ∪ (← r.labelMembers label).toFinset) ∅

/-- All addresses linked to an address, itself included. -/
def componentOf (order : SetOrder) (address : String) :
    Raising (PartitionedResolver c) PartitionError (Finset String) := do
  let root ← componentId order address
  match root with
  | none => return ∅
  | some root => do
    let r ← get
    Raising.ofExcept (r.allMembers ((r.groups.find? root).getD [root]))

/-- The map from all nodes to their component identifiers. -/
def assignment (order : SetOrder) :
    Raising (PartitionedResolver c) PartitionError (UniqueTable String (Option String)) := do
  resolve order
  let r ← get
  (r.nodeShards.rows.map Prod.fst).foldlM
    (fun ids node => do return ids.put node (← componentId order node)) UniqueTable.empty

end PartitionedResolver

/-- The calls that a resolver takes; a resolution has its own orders of the sets. -/
inductive PartitionCall
  /-- Add edges. -/
  | addEdges (edges : List Edge)
  /-- Remove edges. -/
  | removeEdges (edges : List Edge)
  /-- Resolve. -/
  | resolve (order : SetOrder)
  /-- Ask for the identifier of a component. -/
  | componentId (order : SetOrder) (address : String)
  /-- Ask for a component. -/
  | componentOf (order : SetOrder) (address : String)
  /-- Ask for all identifiers. -/
  | assignment (order : SetOrder)

/-- The resolver after a call, also after one that raised. -/
def PartitionedResolver.step {c : PartitionConfig} (r : PartitionedResolver c) :
    PartitionCall → PartitionedResolver c
  | .addEdges edges => r.addEdges edges
  | .removeEdges edges => r.removeEdges edges
  | .resolve order => (Raising.exec (resolve order) r).2
  | .componentId order address => (Raising.exec (componentId order address) r).2
  | .componentOf order address => (Raising.exec (componentOf order address) r).2
  | .assignment order => (Raising.exec (assignment order) r).2

end LedgerLens.Detection
