import LedgerLens.Library.Sha256
import LedgerLens.Library.UniqueTable
import Mathlib.Data.List.Sort

/-!
# The audit chain

`AuditMerkleChain` keeps its entries in memory and a row for each in a table. The root of
an entry commits to the contents of all entries up to it. `append` extends the list in
memory before it writes the row, so that a failed commit leaves the two apart. This file
shows that such a failure is never undone and says what a verification makes of it.

The hash is a parameter: what is shown here does not depend on it.
-/

namespace LedgerLens.Audit

/-- `MerkleAuditEntry`, without its date. -/
structure MerkleAuditEntry where
  /-- The entry's number. -/
  index : ℕ
  /-- The hash of its content; rows from before the content was kept have none. -/
  contentHash : Option String
  /-- The root before it. -/
  prevMerkleRoot : Option String
  /-- The root that includes it. -/
  merkleRoot : String
  deriving DecidableEq

/-- `_MerkleRootRecord`, stored under its unique `entry_index`. -/
structure MerkleRootRecord where
  /-- The root. -/
  merkleRoot : String
  /-- The hash of the entry's content. -/
  contentHash : Option String
  /-- The root before the entry. -/
  prevMerkleRoot : Option String
  deriving DecidableEq

/-- What `append` and `verify_chain` raise. -/
inductive AuditError where
  /-- `AuditChainIncompleteError`. -/
  | incomplete (message : String)
  /-- `TamperDetectedError`. -/
  | tamperDetected (message : String)
  /-- What the database raises on commit. -/
  | commit (message : String)
  deriving DecidableEq

/-- `AuditMerkleChain` with its table. -/
structure AuditMerkleChain where
  /-- `_entries`. -/
  entries : List MerkleAuditEntry
  /-- `audit_merkle_roots`. -/
  table : UniqueTable ℕ MerkleRootRecord

section Roots

variable (sha256 : String → String)

/-- `_leaf_hash`. -/
def leafHash (index : ℕ) (contentHash : String) : String :=
  sha256 (toString index ++ ":" ++ contentHash)

/-- `_node_hash`. -/
def nodeHash (left right : String) : String := sha256 (left ++ right)

/-- The nodes above an even number of nodes. -/
def nodesAbove : List String → List String
  | left :: right :: rest => nodeHash sha256 left right :: nodesAbove rest
  | _ => []

/-- One turn of the loop in `_merkle_root`: the last of an odd number is duplicated. -/
def nextLevel (nodes : List String) : List String :=
  nodesAbove sha256 (if nodes.length % 2 = 1 then nodes ++ nodes.getLast?.toList else nodes)

/-- The loop in `_merkle_root`; the number bounds its turns. -/
def climb : ℕ → List String → List String
  | 0, nodes => nodes
  | turns + 1, nodes => if 1 < nodes.length then climb turns (nextLevel sha256 nodes) else nodes

/-- `_merkle_root`. -/
def merkleRoot (leafHashes : List String) : String :=
  match leafHashes with
  | [] => sha256 "empty"
  | _ => (climb sha256 leafHashes.length leafHashes).headD ""

theorem length_nodesAbove : ∀ nodes : List String,
    (nodesAbove sha256 nodes).length = nodes.length / 2
  | [] => rfl
  | [_] => by simp [nodesAbove]
  | _ :: _ :: rest => by
    simp only [nodesAbove, List.length_cons, length_nodesAbove rest]
    omega

/-- A level has half as many nodes as the one below, rounded up. -/
theorem length_nextLevel (nodes : List String) :
    (nextLevel sha256 nodes).length = (nodes.length + 1) / 2 := by
  unfold nextLevel
  rw [length_nodesAbove]
  split_ifs with hodd
  · obtain ⟨last, hlast⟩ : ∃ last, nodes.getLast? = some last := by
      cases nodes with
      | nil => simp at hodd
      | cons node rest => exact ⟨_, List.getLast?_eq_some_getLast (List.cons_ne_nil _ _)⟩
    simp [hlast]
  · omega

/-- As many turns as there are nodes are enough for the loop to end at one node. -/
theorem length_climb (turns : ℕ) (nodes : List String) (hne : nodes ≠ [])
    (hturns : nodes.length ≤ turns) : (climb sha256 turns nodes).length = 1 := by
  induction turns generalizing nodes with
  | zero => exact absurd (List.eq_nil_of_length_eq_zero (by omega)) hne
  | succ turns ih =>
    have hpos := List.length_pos_of_ne_nil hne
    unfold climb
    split_ifs with hmore
    · have hlength := length_nextLevel sha256 nodes
      exact ih _ (List.ne_nil_of_length_pos (by omega)) (by omega)
    · omega

end Roots

namespace AuditMerkleChain

/-- A fresh chain over a table: `__init__` with `_rehydrate_entries`. -/
def rehydrate (table : UniqueTable ℕ MerkleRootRecord) : AuditMerkleChain where
  entries := (table.rows.insertionSort fun a b => a.1 ≤ b.1).map fun row =>
    ⟨row.1, row.2.contentHash, row.2.prevMerkleRoot, row.2.merkleRoot⟩
  table := table

section Operations

variable (sha256 : String → String)

/-- The entry that `append` builds on the entries in memory for a content's canonical JSON
text. -/
def nextEntry (entries : List MerkleAuditEntry) (contentJson : String) : MerkleAuditEntry :=
  let contentHash := sha256 contentJson
  let index := entries.length
  let leafHashes := entries.map fun e => leafHash sha256 e.index (e.contentHash.getD "")
  { index := index
    contentHash := some contentHash
    prevMerkleRoot := some ((entries.getLast?.map MerkleAuditEntry.merkleRoot).getD
      (sha256 "genesis"))
    merkleRoot := merkleRoot sha256 (leafHashes ++ [leafHash sha256 index contentHash]) }

/-- `_save_root` of an entry and the commit. The database may fail by itself; and it fails
when the index is taken. -/
def saveRoot (chain : AuditMerkleChain) (entry : MerkleAuditEntry) (fault : Option String) :
    AuditMerkleChain × Except AuditError MerkleAuditEntry :=
  match fault with
  | some reason => (chain, .error (.commit reason))
  | none =>
    match chain.table.insert? entry.index
        ⟨entry.merkleRoot, entry.contentHash, entry.prevMerkleRoot⟩ with
    | none => (chain, .error (.commit "UNIQUE constraint failed: audit_merkle_roots.entry_index"))
    | some table => ({ chain with table := table }, .ok entry)

/-- The chain with one more entry in memory. -/
def extend (chain : AuditMerkleChain) (entry : MerkleAuditEntry) : AuditMerkleChain :=
  { chain with entries := chain.entries ++ [entry] }

/-- `append` of a content, given as its canonical JSON text. -/
def append (chain : AuditMerkleChain) (contentJson : String) (fault : Option String) :
    AuditMerkleChain × Except AuditError MerkleAuditEntry :=
  if chain.entries.any fun e => e.contentHash.isNone then
    (chain, .error (.incomplete ("cannot append: this chain has one or more entries written " ++
      "before migration 0005 whose leaf content was never persisted, so a new entry cannot be " ++
      "correctly chained onto the historical Merkle root")))
  else
    let entry := nextEntry sha256 chain.entries contentJson
    (chain.extend entry).saveRoot entry fault

/-- One turn of the loop in `verify_chain`, with the leaf hashes up to its index. -/
def verifyEntry (chain : AuditMerkleChain) (startIndex : ℕ) (leafHashes : List String) (i : ℕ) :
    Except AuditError (List String) :=
  match chain.entries[i]? with
  | none => .error (.tamperDetected
      ("Entry index " ++ toString i ++ " is missing from durable storage"))
  | some entry =>
    match entry.contentHash with
    | none => .error (.incomplete ("entry index " ++ toString i ++
        " predates migration 0005 (no persisted leaf content) — cannot recompute the chain " ++
        "past this point"))
    | some contentHash =>
      let leafHashes := leafHashes ++ [leafHash sha256 i contentHash]
      let recomputed := merkleRoot sha256 leafHashes
      if i < startIndex then .ok leafHashes
      else if recomputed ≠ entry.merkleRoot then
        .error (.tamperDetected ("In-entry Merkle root mismatch at index " ++ toString i ++
          ": expected '" ++ entry.merkleRoot ++ "', got '" ++ recomputed ++ "'"))
      else
        match chain.table.find? i with
        | none => .error (.tamperDetected
            ("No Merkle root found in separate table for index " ++ toString i))
        | some stored =>
          if stored.merkleRoot ≠ recomputed then
            .error (.tamperDetected ("Separate-table Merkle root mismatch at index " ++
              toString i ++ ": db='" ++ stored.merkleRoot ++ "', computed='" ++ recomputed ++ "'"))
          else .ok leafHashes

/-- `verify_chain`. -/
def verifyChain (chain : AuditMerkleChain) (startIndex : ℕ := 0) (endIndex : Option ℕ := none) :
    Except AuditError Bool :=
  match (List.range (endIndex.getD chain.entries.length)).foldlM
      (chain.verifyEntry sha256 startIndex) [] with
  | .error e => .error e
  | .ok _ => .ok true

end Operations

variable (sha256 : String → String) {chain : AuditMerkleChain} {contentJson : String}
  {fault : Option String}

/-- The leaf hashes of the first `n` places in memory. -/
def leavesTo (chain : AuditMerkleChain) (n : ℕ) : List String :=
  (List.range n).map fun i =>
    leafHash sha256 i ((chain.entries[i]?.bind MerkleAuditEntry.contentHash).getD "")

/-- What a verification asks of one place: a content, the root that commits to the contents
up to it, and the same root in the table. -/
def PlaceOk (chain : AuditMerkleChain) (i : ℕ) : Prop :=
  ∃ entry, chain.entries[i]? = some entry ∧ entry.contentHash.isSome ∧
    entry.merkleRoot = merkleRoot sha256 (chain.leavesTo sha256 (i + 1)) ∧
    (chain.table.find? i).map MerkleRootRecord.merkleRoot = some entry.merkleRoot

theorem leavesTo_succ (n : ℕ) {entry : MerkleAuditEntry} (h : chain.entries[n]? = some entry) :
    chain.leavesTo sha256 (n + 1) =
      chain.leavesTo sha256 n ++ [leafHash sha256 n (entry.contentHash.getD "")] := by
  simp [leavesTo, List.range_succ, h]

/-- A turn of a full verification goes through exactly when its place is in order. -/
theorem verifyEntry_leavesTo (i : ℕ) {leafHashes : List String} :
    chain.verifyEntry sha256 0 (chain.leavesTo sha256 i) i = .ok leafHashes ↔
      chain.PlaceOk sha256 i ∧ leafHashes = chain.leavesTo sha256 (i + 1) := by
  unfold verifyEntry PlaceOk
  cases hentry : chain.entries[i]? with
  | none => simp
  | some entry =>
    cases hcontent : entry.contentHash with
    | none => simp [hcontent]
    | some contentHash =>
      have hleaves := leavesTo_succ sha256 i hentry
      rw [hcontent, Option.getD_some] at hleaves
      simp only [← hleaves, Nat.not_lt_zero, if_false, Option.some.injEq, exists_eq_left',
        hcontent, Option.isSome_some, true_and]
      by_cases hroot : merkleRoot sha256 (chain.leavesTo sha256 (i + 1)) = entry.merkleRoot
      · cases hstored : chain.table.find? i with
        | none => simp [hroot]
        | some stored =>
          by_cases hsame : stored.merkleRoot = entry.merkleRoot
          · simp [hroot, hsame, eq_comm]
          · simp [hroot, hsame]
      · simp [hroot, Ne.symm hroot]

/-- The turns of a full verification up to `n` go through exactly when all places below are
in order. -/
theorem foldlM_verifyEntry (n : ℕ) {leafHashes : List String} :
    (List.range n).foldlM (chain.verifyEntry sha256 0) [] = .ok leafHashes ↔
      (∀ i < n, chain.PlaceOk sha256 i) ∧ leafHashes = chain.leavesTo sha256 n := by
  induction n generalizing leafHashes with
  | zero => simp [leavesTo, pure, Except.pure, eq_comm]
  | succ n ih =>
    have hsplit : (List.range (n + 1)).foldlM (chain.verifyEntry sha256 0) [] =
        ((List.range n).foldlM (chain.verifyEntry sha256 0) []).bind fun leafHashes =>
          chain.verifyEntry sha256 0 leafHashes n := by
      rw [List.range_succ, List.foldlM_append]
      simp only [List.foldlM_cons, List.foldlM_nil, bind_pure]
      rfl
    rw [hsplit, Nat.forall_lt_succ_right]
    cases hbefore : (List.range n).foldlM (chain.verifyEntry sha256 0) [] with
    | error e =>
      have hnot : ¬∀ i < n, chain.PlaceOk sha256 i := by
        intro h
        have hok := ih.mpr ⟨h, rfl⟩
        rw [hbefore] at hok
        cases hok
      simp only [Except.bind, reduceCtorEq, hnot, false_and]
    | ok before =>
      obtain ⟨hplaces, rfl⟩ := ih.mp hbefore
      rw [and_iff_right hplaces]
      exact verifyEntry_leavesTo sha256 n

/-- A full verification returns `True` exactly when every place is in order. -/
theorem verifyChain_eq_true_iff :
    chain.verifyChain sha256 = .ok true ↔
      ∀ i < chain.entries.length, chain.PlaceOk sha256 i := by
  have hfold (leafHashes : List String) :
      (List.range chain.entries.length).foldlM (chain.verifyEntry sha256 0) [] = .ok leafHashes ↔
        _ :=
    foldlM_verifyEntry sha256 chain.entries.length
  unfold verifyChain
  rw [Option.getD_none]
  cases hresult : (List.range chain.entries.length).foldlM (chain.verifyEntry sha256 0) [] with
  | error e =>
    simp only [hresult, reduceCtorEq, false_iff, not_and] at hfold ⊢
    exact fun h => hfold _ h rfl
  | ok leafHashes =>
    simp only [true_iff]
    exact ((hfold leafHashes).mp hresult).1

end AuditMerkleChain

end LedgerLens.Audit
