import LedgerLens.Audit.FailedAppend
import LedgerLens.Audit.RootCommitment
import Mathlib.Data.List.Induction

/-!
# Changes of the stored audit rows

A verification by a fresh `AuditMerkleChain` goes by the rows that the table holds. It
recomputes each stored root, but the number of entries it expects is that of the rows it
finds, and it does not read `prev_merkle_root`. This file says which changes of the rows it
lets pass.
-/

namespace LedgerLens.Audit

namespace AuditMerkleChain

section Tables

variable (sha256 : String → String) {table : UniqueTable ℕ MerkleRootRecord} {m : ℕ}

/-- The chain over an empty table after a number of appends, each of which is committed. -/
def built (contents : List String) : AuditMerkleChain :=
  contents.foldl (fun chain contentJson => (chain.append sha256 contentJson none).1)
    (rehydrate .empty)

/-- The entry that `_rehydrate_entries` makes of a row. -/
def entryOf (row : ℕ × MerkleRootRecord) : MerkleAuditEntry :=
  ⟨row.1, row.2.contentHash, row.2.prevMerkleRoot, row.2.merkleRoot⟩

/-- The leaf hashes of the contents stored under the first `k` indices. -/
def storedLeaves (table : UniqueTable ℕ MerkleRootRecord) (k : ℕ) : List String :=
  (List.range k).map fun i =>
    leafHash sha256 i (((table.find? i).bind MerkleRootRecord.contentHash).getD "")

/-- The table holds `m` rows, under the first indices, each with a content and with the root
over the contents up to it. -/
def RootsRecomputed (table : UniqueTable ℕ MerkleRootRecord) (m : ℕ) : Prop :=
  (∀ i, (table.find? i).isSome ↔ i < m) ∧
    ∀ i row, table.find? i = some row →
      row.contentHash.isSome ∧
        row.merkleRoot = merkleRoot sha256 (storedLeaves sha256 table (i + 1))

/-- The root that an entry is chained onto. -/
def rootBefore (table : UniqueTable ℕ MerkleRootRecord) : ℕ → String
  | 0 => sha256 "genesis"
  | i + 1 => ((table.find? i).map MerkleRootRecord.merkleRoot).getD ""

/-- Each row names the root of the row before it. -/
def LinksKept (table : UniqueTable ℕ MerkleRootRecord) : Prop :=
  ∀ i row, table.find? i = some row → row.prevMerkleRoot = some (rootBefore sha256 table i)

/-- The table holds a chain of `n` entries that is consistent in all its columns. -/
def ConsistentChain (table : UniqueTable ℕ MerkleRootRecord) (n : ℕ) : Prop :=
  RootsRecomputed sha256 table n ∧ LinksKept sha256 table

theorem RootsRecomputed.unique {k : ℕ} (hm : RootsRecomputed sha256 table m)
    (hk : RootsRecomputed sha256 table k) : m = k := by
  have hbelow : ∀ i, i < m ↔ i < k := fun i => (hm.1 i).symm.trans (hk.1 i)
  have hm' := hbelow m
  have hk' := hbelow k
  omega

theorem length_rehydrate (table : UniqueTable ℕ MerkleRootRecord) :
    (rehydrate table).entries.length = table.rows.length := by
  simp [rehydrate, List.length_insertionSort]

/-- Where the table holds rows under the first indices only, they are read back in place. -/
theorem rehydrate_getElem? (h : ∀ i, (table.find? i).isSome ↔ i < m) (i : ℕ) :
    (rehydrate table).entries[i]? = (table.find? i).map fun row => entryOf (i, row) := by
  set sorted := table.rows.insertionSort fun a b => a.1 ≤ b.1 with hsorted
  have hperm : sorted.Perm table.rows := List.perm_insertionSort _ _
  have hnodup : (sorted.map Prod.fst).Nodup := (hperm.map Prod.fst).nodup_iff.mpr table.nodup
  have hkeys : sorted.map Prod.fst = List.range m := by
    have hmem : ∀ k, k ∈ sorted.map Prod.fst ↔ k ∈ List.range m := by
      intro k
      rw [(hperm.map Prod.fst).mem_iff, List.mem_range, ← h k, UniqueTable.isSome_find?_iff]
    have hsame : (sorted.map Prod.fst).Perm (List.range m) :=
      (List.perm_ext_iff_of_nodup hnodup List.nodup_range).mpr hmem
    have hle : (sorted.map Prod.fst).Pairwise (· ≤ ·) :=
      List.pairwise_map.mpr (List.pairwise_insertionSort _ _)
    exact hsame.eq_of_pairwise (fun _ _ _ _ => le_antisymm) hle List.pairwise_le_range
  have hentries : (rehydrate table).entries = sorted.map entryOf := rfl
  rw [hentries, List.getElem?_map]
  cases hrow : sorted[i]? with
  | none =>
    have hi : m ≤ i := by
      rw [← List.length_range (n := m), ← hkeys, List.length_map]
      exact List.getElem?_eq_none_iff.mp hrow
    have hnone : table.find? i = none := by
      rw [← Option.not_isSome_iff_eq_none, h i]
      omega
    rw [hnone]
    rfl
  | some row =>
    have hkey : row.1 = i := by
      have hi : (sorted.map Prod.fst)[i]? = some row.1 := by rw [List.getElem?_map, hrow]; rfl
      rw [hkeys] at hi
      obtain ⟨hlt, heq⟩ := List.getElem?_eq_some_iff.mp hi
      rw [← heq, List.getElem_range]
    have hstored : table.find? i = some row.2 := by
      rw [UniqueTable.find?_eq_some_iff, ← hkey]
      exact hperm.mem_iff.mp (List.mem_of_getElem? hrow)
    rw [hstored, ← hkey]
    rfl

/-- A fresh chain verifies exactly when the rows are the first ones of a chain whose roots
are recomputed, however many they are. -/
theorem verifyChain_rehydrate :
    (rehydrate table).verifyChain sha256 = .ok true ↔ ∃ m, RootsRecomputed sha256 table m := by
  have hread : ∀ m, (∀ i, (table.find? i).isSome ↔ i < m) →
      ((∀ i, i < m → (rehydrate table).PlaceOk sha256 i) ↔ RootsRecomputed sha256 table m) := by
    intro m h
    have hleaves : ∀ k, (rehydrate table).leavesTo sha256 k = storedLeaves sha256 table k := by
      intro k
      apply List.map_congr_left
      intro i _
      rw [rehydrate_getElem? h]
      cases table.find? i <;> rfl
    have hplace : ∀ i row, table.find? i = some row →
        ((rehydrate table).PlaceOk sha256 i ↔ row.contentHash.isSome ∧
          row.merkleRoot = merkleRoot sha256 (storedLeaves sha256 table (i + 1))) := by
      intro i row hrow
      have htable : (rehydrate table).table = table := rfl
      simp [PlaceOk, rehydrate_getElem? h, hrow, htable, hleaves, entryOf]
    constructor
    · intro hplaces
      refine ⟨h, fun i row hrow => (hplace i row hrow).mp (hplaces i ?_)⟩
      rw [← h i, hrow]
      rfl
    · rintro ⟨_, hroots⟩ i hi
      obtain ⟨row, hrow⟩ := Option.isSome_iff_exists.mp ((h i).mpr hi)
      exact (hplace i row hrow).mpr (hroots i row hrow)
  rw [verifyChain_eq_true_iff, length_rehydrate]
  constructor
  · intro hplaces
    -- the rows have as many different keys as there are places, and every place has its row
    have hsome : ∀ i < table.rows.length, i ∈ table.rows.map Prod.fst := by
      intro i hi
      obtain ⟨entry, _, _, _, hstored⟩ := hplaces i hi
      rw [← UniqueTable.isSome_find?_iff]
      cases hrow : table.find? i with
      | none =>
        have hnone : (rehydrate table).table.find? i = none := hrow
        rw [hnone] at hstored
        cases hstored
      | some row => rfl
    have hkeys : (List.range table.rows.length).Perm (table.rows.map Prod.fst) := by
      have hsub : List.range table.rows.length ⊆ table.rows.map Prod.fst :=
        fun i hi => hsome i (List.mem_range.mp hi)
      exact (List.subperm_of_subset List.nodup_range hsub).perm_of_length_le (by simp)
    have h : ∀ i, (table.find? i).isSome ↔ i < table.rows.length := by
      intro i
      rw [UniqueTable.isSome_find?_iff, ← hkeys.mem_iff, List.mem_range]
    exact ⟨_, (hread _ h).mp hplaces⟩
  · rintro ⟨m, hm⟩
    have hlength : table.rows.length = m := by
      have hkeys : (table.rows.map Prod.fst).Perm (List.range m) := by
        rw [List.perm_ext_iff_of_nodup table.nodup List.nodup_range]
        intro i
        rw [← UniqueTable.isSome_find?_iff, hm.1 i, List.mem_range]
      simpa using hkeys.length_eq
    rw [hlength]
    exact (hread m hm.1).mpr hm

/-- What a chain that only grew by committed appends is like: each entry in memory is read
from its row, and the rows are consistent. -/
structure Persisted (chain : AuditMerkleChain) : Prop where
  /-- The entries in memory are those of the rows. -/
  entries : ∀ i, chain.entries[i]? = (chain.table.find? i).map fun row => entryOf (i, row)
  /-- The rows make a consistent chain. -/
  consistent : ConsistentChain sha256 chain.table chain.entries.length

theorem persisted_empty : Persisted sha256 (rehydrate .empty) where
  entries i := by
    have hnone : (rehydrate .empty).table.find? i = none := UniqueTable.find?_empty i
    have hnil : (rehydrate .empty).entries = [] := rfl
    rw [hnone, hnil]
    rfl
  consistent := by
    have hnone : ∀ i, (rehydrate .empty).table.find? i = none := fun i =>
      UniqueTable.find?_empty i
    have hlength : (rehydrate .empty).entries.length = 0 := rfl
    refine ⟨⟨fun i => ?_, fun i row hrow => ?_⟩, fun i row hrow => ?_⟩
    · simp [hnone, hlength]
    · simp [hnone] at hrow
    · simp [hnone] at hrow

/-- A committed append adds the row of the next entry. -/
theorem append_of_persisted {chain : AuditMerkleChain} (h : Persisted sha256 chain)
    (contentJson : String) :
    (chain.append sha256 contentJson none).1.entries =
        chain.entries ++ [nextEntry sha256 chain.entries contentJson] ∧
      ∀ i, (chain.append sha256 contentJson none).1.table.find? i =
        if i = chain.entries.length then
          some ⟨(nextEntry sha256 chain.entries contentJson).merkleRoot,
            (nextEntry sha256 chain.entries contentJson).contentHash,
            (nextEntry sha256 chain.entries contentJson).prevMerkleRoot⟩
        else chain.table.find? i := by
  have hcomplete : (chain.entries.any fun e => e.contentHash.isNone) = false := by
    rw [List.any_eq_false]
    intro entry hentry
    obtain ⟨i, hi⟩ := List.mem_iff_getElem?.mp hentry
    rw [h.entries i] at hi
    obtain ⟨row, hrow, rfl⟩ := Option.map_eq_some_iff.mp hi
    have hsome := (h.consistent.1.2 i row hrow).1
    simpa [entryOf, Option.isNone_iff_eq_none, Option.isSome_iff_ne_none] using hsome
  have hfree : chain.table.find? chain.entries.length = none := by
    rw [← Option.not_isSome_iff_eq_none, h.consistent.1.1]
    omega
  set entry := nextEntry sha256 chain.entries contentJson with hentry
  have hindex : entry.index = chain.entries.length := rfl
  obtain ⟨table, htable⟩ : ∃ table, chain.table.insert? entry.index
      ⟨entry.merkleRoot, entry.contentHash, entry.prevMerkleRoot⟩ = some table := by
    rw [← Option.ne_none_iff_exists']
    intro hnone
    exact (UniqueTable.insert?_eq_none_iff _ _ _).mp hnone (hindex ▸ hfree)
  have happend : chain.append sha256 contentJson none =
      (⟨chain.entries ++ [entry], table⟩, .ok entry) := by
    simp only [append, hcomplete, saveRoot, extend, ← hentry, htable, Bool.false_eq_true, if_false]
  rw [happend]
  refine ⟨rfl, fun i => ?_⟩
  rw [UniqueTable.find?_of_insert? htable, hindex]

/-- A consistent chain with the row of a next entry is consistent. -/
theorem ConsistentChain.snoc {table after : UniqueTable ℕ MerkleRootRecord} {n : ℕ}
    {row : MerkleRootRecord} (h : ConsistentChain sha256 table n)
    (hafter : ∀ i, after.find? i = if i = n then some row else table.find? i)
    (hcontent : row.contentHash.isSome)
    (hroot : row.merkleRoot = merkleRoot sha256
      (storedLeaves sha256 table n ++ [leafHash sha256 n (row.contentHash.getD "")]))
    (hprev : row.prevMerkleRoot = some (rootBefore sha256 table n)) :
    ConsistentChain sha256 after (n + 1) := by
  have hbelow : ∀ i, i < n → after.find? i = table.find? i := fun i hi => by
    rw [hafter, if_neg (by omega)]
  have hlast : after.find? n = some row := by rw [hafter, if_pos rfl]
  have hleaves : ∀ k, k ≤ n → storedLeaves sha256 after k = storedLeaves sha256 table k := by
    intro k hk
    apply List.map_congr_left
    intro i hi
    have hlt := List.mem_range.mp hi
    rw [hbelow i (by omega)]
  have hleavesLast : storedLeaves sha256 after (n + 1) =
      storedLeaves sha256 table n ++ [leafHash sha256 n (row.contentHash.getD "")] := by
    rw [← hleaves n le_rfl]
    simp [storedLeaves, List.range_succ, hlast]
  have hbefore : ∀ i, i ≤ n → rootBefore sha256 after i = rootBefore sha256 table i := by
    intro i hi
    cases i with
    | zero => rfl
    | succ i => simp only [rootBefore, hbelow i (by omega)]
  have hcases : ∀ i r, after.find? i = some r →
      i < n ∧ table.find? i = some r ∨ i = n ∧ r = row := by
    intro i r hr
    by_cases hi : i = n
    · rw [hi, hlast] at hr
      exact Or.inr ⟨hi, (Option.some.inj hr).symm⟩
    · rw [hafter, if_neg hi] at hr
      refine Or.inl ⟨(h.1.1 i).mp ?_, hr⟩
      rw [hr]
      rfl
  refine ⟨⟨fun i => ?_, fun i r hr => ?_⟩, fun i r hr => ?_⟩
  · by_cases hi : i = n
    · rw [hi, hlast]
      simp
    · rw [hafter, if_neg hi, h.1.1]
      omega
  · obtain ⟨hlt, hold⟩ | ⟨rfl, rfl⟩ := hcases i r hr
    · rw [hleaves _ (by omega)]
      exact h.1.2 i r hold
    · rw [hleavesLast]
      exact ⟨hcontent, hroot⟩
  · obtain ⟨hlt, hold⟩ | ⟨rfl, rfl⟩ := hcases i r hr
    · rw [hbefore i (by omega)]
      exact h.2 i r hold
    · rw [hbefore _ le_rfl]
      exact hprev

/-- In memory a persisted chain has the leaf hashes of its rows. -/
theorem Persisted.leaves {chain : AuditMerkleChain} (h : Persisted sha256 chain) :
    (chain.entries.map fun e => leafHash sha256 e.index (e.contentHash.getD "")) =
      storedLeaves sha256 chain.table chain.entries.length := by
  have hcontiguous : chain.Contiguous := by
    intro i entry hentry
    rw [h.entries i] at hentry
    obtain ⟨row, _, rfl⟩ := Option.map_eq_some_iff.mp hentry
    rfl
  rw [leavesTo_length sha256 hcontiguous]
  apply List.map_congr_left
  intro i _
  rw [h.entries i]
  cases chain.table.find? i <;> rfl

/-- In memory a persisted chain ends at the root that the next row is chained onto. -/
theorem Persisted.rootBefore_length {chain : AuditMerkleChain} (h : Persisted sha256 chain) :
    (chain.entries.getLast?.map MerkleAuditEntry.merkleRoot).getD (sha256 "genesis") =
      rootBefore sha256 chain.table chain.entries.length := by
  rw [List.getLast?_eq_getElem?]
  cases hlength : chain.entries.length with
  | zero =>
    rw [List.eq_nil_of_length_eq_zero hlength]
    rfl
  | succ k =>
    have hsome : (chain.table.find? k).isSome := by
      rw [h.consistent.1.1]
      omega
    obtain ⟨row, hrow⟩ := Option.isSome_iff_exists.mp hsome
    rw [Nat.add_sub_cancel, h.entries k]
    simp [rootBefore, hrow, entryOf]

/-- A committed append keeps the chain persisted. -/
theorem persisted_append {chain : AuditMerkleChain} (h : Persisted sha256 chain)
    (contentJson : String) : Persisted sha256 (chain.append sha256 contentJson none).1 := by
  obtain ⟨hentries, htable⟩ := append_of_persisted sha256 h contentJson
  set after := (chain.append sha256 contentJson none).1
  refine ⟨fun i => ?_, ?_⟩
  · rw [hentries, htable, List.getElem?_append]
    split_ifs with hlt heq heq
    · omega
    · exact h.entries i
    · simp [heq, entryOf, nextEntry]
    · have hnone : chain.table.find? i = none := by
        rw [← Option.not_isSome_iff_eq_none, h.consistent.1.1]
        omega
      rw [hnone, List.getElem?_eq_none (by simp; omega)]
      rfl
  · have hlength : after.entries.length = chain.entries.length + 1 := by simp [hentries]
    rw [hlength]
    refine h.consistent.snoc sha256 htable rfl ?_ ?_
    · rw [← h.leaves]
      rfl
    · rw [← h.rootBefore_length]
      rfl

/-- A chain built by appends is persisted, with an entry for each content. -/
theorem persisted_built (contents : List String) :
    Persisted sha256 (built sha256 contents) ∧
      (built sha256 contents).entries.length = contents.length := by
  induction contents using List.reverseRecOn with
  | nil => exact ⟨persisted_empty sha256, rfl⟩
  | append_singleton contents contentJson ih =>
    have hbuilt : built sha256 (contents ++ [contentJson]) =
        ((built sha256 contents).append sha256 contentJson none).1 := by
      simp [built, List.foldl_append]
    rw [hbuilt]
    refine ⟨persisted_append sha256 ih.1 contentJson, ?_⟩
    rw [(append_of_persisted sha256 ih.1 contentJson).1]
    simp [ih.2]

/-- The table of a built chain is consistent, with a row for each content. -/
theorem consistentChain_built (contents : List String) :
    ConsistentChain sha256 (built sha256 contents).table contents.length := by
  obtain ⟨hpersisted, hlength⟩ := persisted_built sha256 contents
  rw [← hlength]
  exact hpersisted.consistent

end Tables

/-- A change of the stored rows behind the chain's back. -/
structure Tampering where
  /-- The indices whose rows are deleted. -/
  deleted : ℕ → Bool
  /-- What the columns of the others are set to. -/
  edited : ℕ → MerkleRootRecord → MerkleRootRecord

/-- The rows after a change. -/
def Tampering.apply (t : Tampering) (table : UniqueTable ℕ MerkleRootRecord) :
    UniqueTable ℕ MerkleRootRecord :=
  (table.deleteWhere fun i _ => t.deleted i).mapRows t.edited

section Detection

variable (sha256 : String → String) (contents : List String) (t : Tampering)

/-- The rows of a built chain after a change. -/
def tampered : UniqueTable ℕ MerkleRootRecord := t.apply (built sha256 contents).table

theorem find?_tampered (i : ℕ) :
    (tampered sha256 contents t).find? i =
      if t.deleted i then none
      else ((built sha256 contents).table.find? i).map (t.edited i) := by
  unfold tampered Tampering.apply
  rw [UniqueTable.find?_mapRows, UniqueTable.find?_deleteWhere]
  cases (built sha256 contents).table.find? i with
  | none => simp
  | some row => cases t.deleted i <;> simp

/-- What is to hold of a change of the stored rows: unless it leaves a consistent chain of
the same length, a fresh chain does not verify. -/
def Detected : Prop :=
  tampered sha256 contents t ≠ (built sha256 contents).table →
    ¬ConsistentChain sha256 (tampered sha256 contents t) contents.length →
      (rehydrate (tampered sha256 contents t)).verifyChain sha256 ≠ .ok true

/-- A change is detected unless the rows that it leaves are the first ones, however many,
each with the root over the contents up to it, and either some are gone or one of them names
another root before it. -/
theorem detected_iff :
    Detected sha256 contents t ↔
      ∀ m, RootsRecomputed sha256 (tampered sha256 contents t) m →
        m = contents.length ∧ LinksKept sha256 (tampered sha256 contents t) := by
  constructor
  · intro h m hm
    have hverify := (verifyChain_rehydrate sha256).mpr ⟨m, hm⟩
    have hchain : ConsistentChain sha256 (tampered sha256 contents t) contents.length := by
      by_contra hnot
      have hchanged : tampered sha256 contents t ≠ (built sha256 contents).table := by
        intro hsame
        rw [hsame] at hnot
        exact hnot (consistentChain_built sha256 contents)
      exact h hchanged hnot hverify
    exact ⟨hm.unique sha256 hchain.1, hchain.2⟩
  · intro h _ hnot hverify
    obtain ⟨m, hm⟩ := (verifyChain_rehydrate sha256).mp hverify
    obtain ⟨rfl, hlinks⟩ := h m hm
    exact hnot ⟨hm, hlinks⟩

/-- The texts that are hashed to verify the rows of a table: those of its leaves, and those of
the trees over its first leaves. -/
def hashedTexts (table : UniqueTable ℕ MerkleRootRecord) (k : ℕ) : List String :=
  ((List.range k).map fun i =>
    toString i ++ ":" ++ ((table.find? i).bind MerkleRootRecord.contentHash).getD "") ++
      treeTexts sha256 k (storedLeaves sha256 table k)

/-- The hash does not collide on what is hashed for the rows before and after a change. -/
def CollisionFree : Prop :=
  ∀ k ≤ contents.length, NoClash sha256 (hashedTexts sha256 (built sha256 contents).table k)
    (hashedTexts sha256 (tampered sha256 contents t) k)

/-- The change leaves `merkle_root` as it was in the rows that it does not delete. -/
def KeepsRoots : Prop :=
  ∀ i row, (built sha256 contents).table.find? i = some row → t.deleted i = false →
    (t.edited i row).merkleRoot = row.merkleRoot

/-- The change sets the content hash of a row that it does not delete to another one. -/
def EditsContent : Prop :=
  ∃ i row, (built sha256 contents).table.find? i = some row ∧ t.deleted i = false ∧
    (t.edited i row).contentHash ≠ row.contentHash

/-- The change deletes a row before one that it does not delete. -/
def LeavesGap : Prop :=
  ∃ i j, i < j ∧ j < contents.length ∧ t.deleted i = true ∧ t.deleted j = false

/-- The change deletes no row and leaves `prev_merkle_root` as it was. -/
def KeepsLinks : Prop :=
  (∀ i < contents.length, t.deleted i = false) ∧
    ∀ i row, (built sha256 contents).table.find? i = some row →
      (t.edited i row).prevMerkleRoot = row.prevMerkleRoot

variable {sha256 contents t}

/-- The first leaves commit to the content hashes stored under their indices. -/
theorem contentHash_of_leaves {table table' : UniqueTable ℕ MerkleRootRecord} {k i : ℕ}
    {row row' : MerkleRootRecord} (hi : i < k) (hrow : table.find? i = some row)
    (hrow' : table'.find? i = some row') (hsome : row.contentHash.isSome)
    (hsome' : row'.contentHash.isSome)
    (hclash : NoClash sha256 (hashedTexts sha256 table k) (hashedTexts sha256 table' k))
    (h : storedLeaves sha256 table k = storedLeaves sha256 table' k) :
    row.contentHash = row'.contentHash := by
  obtain ⟨content, hcontent⟩ := Option.isSome_iff_exists.mp hsome
  obtain ⟨content', hcontent'⟩ := Option.isSome_iff_exists.mp hsome'
  have hleaf : leafHash sha256 i content = leafHash sha256 i content' := by
    have hget := congrArg (fun leaves : List String => leaves[i]?) h
    simpa [storedLeaves, hi, hrow, hrow', hcontent, hcontent'] using hget
  have htext : toString i ++ ":" ++ content = toString i ++ ":" ++ content' := by
    refine hclash _ ?_ _ ?_ hleaf
    · refine List.mem_append_left _ (List.mem_map.mpr ⟨i, List.mem_range.mpr hi, ?_⟩)
      simp [hrow, hcontent]
    · refine List.mem_append_left _ (List.mem_map.mpr ⟨i, List.mem_range.mpr hi, ?_⟩)
      simp [hrow', hcontent']
  have hlists := congrArg String.toList htext
  simp only [String.toList_append] at hlists
  rw [hcontent, hcontent', String.toList_inj.mp (List.append_cancel_left hlists)]

/-- Where the hash does not collide, rows whose roots are recomputed and were not edited have
the content hashes that they had. -/
theorem RootsRecomputed.contentHash_eq {width m i : ℕ} {row : MerkleRootRecord}
    (hsha : ∀ text, (sha256 text).length = width) (hfree : CollisionFree sha256 contents t)
    (hroots : KeepsRoots sha256 contents t)
    (h : RootsRecomputed sha256 (tampered sha256 contents t) m)
    (hrow : (built sha256 contents).table.find? i = some row) (hkept : t.deleted i = false) :
    (t.edited i row).contentHash = row.contentHash := by
  have hbuilt := (consistentChain_built sha256 contents).1
  have hrow' : (tampered sha256 contents t).find? i = some (t.edited i row) := by
    simp [find?_tampered, hkept, hrow]
  have hi : i + 1 ≤ contents.length := by
    rw [Nat.succ_le_iff, ← hbuilt.1, hrow]
    rfl
  obtain ⟨hsome, hroot⟩ := hbuilt.2 i row hrow
  obtain ⟨hsome', hroot'⟩ := h.2 i _ hrow'
  have hleaves : storedLeaves sha256 (built sha256 contents).table (i + 1) =
      storedLeaves sha256 (tampered sha256 contents t) (i + 1) := by
    have hwidth : ∀ (table : UniqueTable ℕ MerkleRootRecord) (k : ℕ),
        ∀ x ∈ storedLeaves sha256 table k, x.length = width := by
      intro table k x hx
      obtain ⟨j, _, rfl⟩ := List.mem_map.mp hx
      exact hsha _
    refine merkleRoot_inj hsha (by simp [storedLeaves]) (hwidth _ _) (hwidth _ _) ?_ ?_
    · intro x hx y hy
      refine hfree (i + 1) hi x (List.mem_append_right _ ?_) y (List.mem_append_right _ ?_)
      · simpa [storedLeaves] using hx
      · simpa [storedLeaves] using hy
    · rw [← hroot, ← hroot', hroots i row hrow hkept]
  exact (contentHash_of_leaves (Nat.lt_succ_self i) hrow hrow' hsome hsome'
    (hfree (i + 1) hi) hleaves).symm

/-- A change without a gap leaves the first rows, up to some number. -/
theorem exists_kept_of_not_leavesGap (h : ¬LeavesGap contents t) :
    ∃ m ≤ contents.length, ∀ i < contents.length, t.deleted i = false ↔ i < m := by
  have hclosed : ∀ i j, i < j → j < contents.length → t.deleted j = false →
      t.deleted i = false := by
    intro i j hij hj hkept
    by_contra hgone
    exact h ⟨i, j, hij, hj, by simpa using hgone, hkept⟩
  by_cases hall : ∀ i < contents.length, t.deleted i = false
  · exact ⟨contents.length, le_rfl, fun i hi => ⟨fun _ => hi, fun _ => hall i hi⟩⟩
  · push Not at hall
    have hfind := Nat.find_spec hall
    refine ⟨Nat.find hall, hfind.1.le, fun i hi => ⟨fun hkept => ?_, fun hlt => ?_⟩⟩
    · by_contra hge
      obtain heq | hlt := (not_lt.mp hge).eq_or_lt
      · exact hfind.2 (heq ▸ hkept)
      · exact hfind.2 (hclosed _ _ hlt hi hkept)
    · by_contra hgone
      exact Nat.find_min hall hlt ⟨hi, hgone⟩

/-- The rows that a change without a gap leaves are a chain with recomputed roots, when it
edits neither roots nor contents. -/
theorem rootsRecomputed_tampered {m : ℕ} (hroots : KeepsRoots sha256 contents t)
    (hcontent : ¬EditsContent sha256 contents t) (hm : m ≤ contents.length)
    (hkept : ∀ i < contents.length, t.deleted i = false ↔ i < m) :
    RootsRecomputed sha256 (tampered sha256 contents t) m := by
  obtain ⟨hrows, hbuilt⟩ := (consistentChain_built sha256 contents).1
  have hread : ∀ i < m, ∃ row, (built sha256 contents).table.find? i = some row ∧
      (tampered sha256 contents t).find? i = some (t.edited i row) ∧
      (t.edited i row).contentHash = row.contentHash ∧
      (t.edited i row).merkleRoot = row.merkleRoot := by
    intro i hi
    have hin : i < contents.length := by omega
    obtain ⟨row, hrow⟩ := Option.isSome_iff_exists.mp ((hrows i).mpr hin)
    have hstays : t.deleted i = false := (hkept i hin).mpr hi
    refine ⟨row, hrow, by simp [find?_tampered, hstays, hrow], ?_, hroots i row hrow hstays⟩
    by_contra hne
    exact hcontent ⟨i, row, hrow, hstays, hne⟩
  have hleaves : ∀ k ≤ m, storedLeaves sha256 (tampered sha256 contents t) k =
      storedLeaves sha256 (built sha256 contents).table k := by
    intro k hk
    apply List.map_congr_left
    intro i hi
    have hlt := List.mem_range.mp hi
    obtain ⟨row, hrow, hrow', hsame, _⟩ := hread i (by omega)
    rw [hrow, hrow', Option.bind_some, Option.bind_some, hsame]
  have hsome : ∀ i, ((tampered sha256 contents t).find? i).isSome ↔ i < m := by
    intro i
    constructor
    · intro hsome
      by_cases hin : i < contents.length
      · refine (hkept i hin).mp ?_
        by_contra hgone
        have hdeleted : t.deleted i = true := by simpa using hgone
        simp [find?_tampered, hdeleted] at hsome
      · have hnone : (built sha256 contents).table.find? i = none := by
          rw [← Option.not_isSome_iff_eq_none, hrows]
          exact hin
        simp [find?_tampered, hnone] at hsome
    · intro hi
      obtain ⟨row, _, hrow', _⟩ := hread i hi
      rw [hrow']
      rfl
  refine ⟨hsome, fun i row' hrow' => ?_⟩
  have hi : i < m := by
    rw [← hsome, hrow']
    rfl
  obtain ⟨row, hrow, hedited, hsame, hroot⟩ := hread i hi
  obtain rfl := Option.some.inj (hedited.symm.trans hrow')
  rw [hsame, hroot, hleaves _ hi]
  exact hbuilt i row hrow

/-- Where no row is deleted and no root edited, the links are kept exactly when no
`prev_merkle_root` is edited. -/
theorem linksKept_tampered_iff (hroots : KeepsRoots sha256 contents t)
    (hall : ∀ i < contents.length, t.deleted i = false) :
    LinksKept sha256 (tampered sha256 contents t) ↔
      ∀ i row, (built sha256 contents).table.find? i = some row →
        (t.edited i row).prevMerkleRoot = row.prevMerkleRoot := by
  obtain ⟨⟨hrows, _⟩, hlinks⟩ := consistentChain_built sha256 contents
  have hread : ∀ i row, (built sha256 contents).table.find? i = some row →
      (tampered sha256 contents t).find? i = some (t.edited i row) ∧
        t.deleted i = false := by
    intro i row hrow
    have hin : i < contents.length := by
      rw [← hrows, hrow]
      rfl
    exact ⟨by simp [find?_tampered, hall i hin, hrow], hall i hin⟩
  have hbefore : ∀ i row, (built sha256 contents).table.find? i = some row →
      rootBefore sha256 (tampered sha256 contents t) i =
        rootBefore sha256 (built sha256 contents).table i := by
    intro i row hrow
    cases i with
    | zero => rfl
    | succ k =>
      have hk : ((built sha256 contents).table.find? k).isSome := by
        have hin : k + 1 < contents.length := by
          rw [← hrows, hrow]
          rfl
        rw [hrows]
        omega
      obtain ⟨before, hrowk⟩ := Option.isSome_iff_exists.mp hk
      obtain ⟨hedited, hkept⟩ := hread k before hrowk
      simp only [rootBefore, hrowk, hedited, Option.map_some, Option.getD_some]
      exact hroots k before hrowk hkept
  constructor
  · intro h i row hrow
    rw [h i _ (hread i row hrow).1, hbefore i row hrow, ← hlinks i row hrow]
  · intro h i row' hrow'
    cases hrow : (built sha256 contents).table.find? i with
    | none => simp [find?_tampered, hrow] at hrow'
    | some row =>
      obtain rfl := Option.some.inj ((hread i row hrow).1.symm.trans hrow')
      rw [h i row hrow, hbefore i row hrow, hlinks i row hrow]

/-- Where the hash does not collide, a change that edits no root is detected when it deletes a
row before one that stays, or edits a content hash, or neither deletes rows nor edits
`prev_merkle_root`, and only then. -/
theorem detected_iff_of_keepsRoots {width : ℕ} (hsha : ∀ text, (sha256 text).length = width)
    (hfree : CollisionFree sha256 contents t) (hroots : KeepsRoots sha256 contents t) :
    Detected sha256 contents t ↔
      LeavesGap contents t ∨ EditsContent sha256 contents t ∨ KeepsLinks sha256 contents t := by
  obtain ⟨hrows, _⟩ := (consistentChain_built sha256 contents).1
  rw [detected_iff]
  constructor
  · intro h
    by_contra hnot
    obtain ⟨hgap, hcontent, hlinks⟩ : ¬LeavesGap contents t ∧ ¬EditsContent sha256 contents t ∧
        ¬KeepsLinks sha256 contents t := by tauto
    obtain ⟨m, hm, hkept⟩ := exists_kept_of_not_leavesGap hgap
    obtain ⟨rfl, hchain⟩ := h m (rootsRecomputed_tampered hroots hcontent hm hkept)
    have hall : ∀ i < contents.length, t.deleted i = false := fun i hi => (hkept i hi).mpr hi
    exact hlinks ⟨hall, (linksKept_tampered_iff hroots hall).mp hchain⟩
  · intro h m hm
    obtain ⟨i, j, hij, hj, hgone, hkept⟩ | ⟨i, row, hrow, hkept, hne⟩ | ⟨hall, hlinks⟩ := h
    · exfalso
      obtain ⟨row, hrow⟩ := Option.isSome_iff_exists.mp ((hrows j).mpr hj)
      have hjm : j < m := by
        rw [← hm.1, find?_tampered, hkept, hrow]
        rfl
      have hsome := (hm.1 i).mpr (by omega)
      simp [find?_tampered, hgone] at hsome
    · exact absurd (hm.contentHash_eq hsha hfree hroots hrow hkept) hne
    · refine ⟨?_, (linksKept_tampered_iff hroots hall).mpr hlinks⟩
      have hsame : ∀ i, i < m ↔ i < contents.length := by
        intro i
        rw [← hm.1, ← hrows, find?_tampered]
        by_cases hi : i < contents.length
        · simp [hall i hi]
        · have hnone : (built sha256 contents).table.find? i = none := by
            rw [← Option.not_isSome_iff_eq_none, hrows]
            exact hi
          simp [hnone]
      have hm' := hsame m
      have hn := hsame contents.length
      omega

/-- The last row of a chain is deleted. -/
def dropLast (contents : List String) : Tampering where
  deleted i := decide (i + 1 = contents.length)
  edited _ row := row

/-- Deleting the last row is not detected. -/
theorem dropLast_not_detected (hne : contents ≠ []) :
    ¬Detected sha256 contents (dropLast contents) := by
  have hpos := List.length_pos_of_ne_nil hne
  rw [detected_iff]
  intro h
  have hroots : KeepsRoots sha256 contents (dropLast contents) := fun _ _ _ _ => rfl
  have hcontent : ¬EditsContent sha256 contents (dropLast contents) := by
    rintro ⟨i, row, _, _, hne⟩
    exact hne rfl
  have hm := rootsRecomputed_tampered (m := contents.length - 1) hroots hcontent (by omega)
    (fun i hi => by simp only [dropLast, decide_eq_false_iff_not]; omega)
  have hlength := (h _ hm).1
  omega

/-- When a change of the stored rows is detected: unless the rows that it leaves are the first
ones with recomputed roots, and either some are gone or a `prev_merkle_root` is another. In
particular, where the hash does not collide and no root is edited: when a row is deleted
before one that stays, or a content hash is edited, or nothing is deleted or edited at all. -/
theorem tampering_detected_iff (sha256 : String → String) (contents : List String)
    (t : Tampering) :
    (Detected sha256 contents t ↔
      ∀ m, RootsRecomputed sha256 (tampered sha256 contents t) m →
        m = contents.length ∧ LinksKept sha256 (tampered sha256 contents t)) ∧
      ∀ width, (∀ text, (sha256 text).length = width) → CollisionFree sha256 contents t →
        KeepsRoots sha256 contents t →
          (Detected sha256 contents t ↔ LeavesGap contents t ∨
            EditsContent sha256 contents t ∨ KeepsLinks sha256 contents t) :=
  ⟨detected_iff sha256 contents t, fun _ hsha hfree hroots =>
    detected_iff_of_keepsRoots hsha hfree hroots⟩

/-- The content hash of the first row is edited. -/
def clearContent : Tampering where
  deleted _ := false
  edited _ row := { row with contentHash := some "" }

/-- An event is appended and the content hash of its row is edited. -/
theorem edited_content_detected : Detected Sha256.hexdigestString ["\x7b\x7d"] clearContent := by
  have hfree : CollisionFree Sha256.hexdigestString ["\x7b\x7d"] clearContent := by
    unfold CollisionFree NoClash
    decide +kernel
  have hkeeps : KeepsRoots Sha256.hexdigestString ["\x7b\x7d"] clearContent :=
    fun _ _ _ _ => rfl
  refine ((tampering_detected_iff Sha256.hexdigestString ["\x7b\x7d"] clearContent).2 64
    (fun text => Sha256.length_hexdigest text.toUTF8.data.toList) hfree hkeeps).mpr ?_
  refine Or.inr (Or.inl ⟨0, ?_⟩)
  obtain ⟨row, hrow⟩ := Option.isSome_iff_exists.mp
    (((consistentChain_built Sha256.hexdigestString ["\x7b\x7d"]).1.1 0).mpr (by decide))
  refine ⟨row, hrow, rfl, fun hsame => ?_⟩
  have hcontent : ((built Sha256.hexdigestString ["\x7b\x7d"]).table.find? 0).map
      MerkleRootRecord.contentHash ≠ some (some "") := by
    decide +kernel
  rw [hrow] at hcontent
  exact hcontent (congrArg some hsame.symm)

/-- Two events are appended and the row of the second is deleted: a fresh chain verifies. -/
theorem deleted_tail_not_detected :
    ¬Detected Sha256.hexdigestString
      ["\x7b\"event\":\"start\"\x7d", "\x7b\"event\":\"alert\"\x7d"]
      (dropLast ["\x7b\"event\":\"start\"\x7d", "\x7b\"event\":\"alert\"\x7d"]) :=
  dropLast_not_detected (by decide)

end Detection

end AuditMerkleChain

end LedgerLens.Audit
