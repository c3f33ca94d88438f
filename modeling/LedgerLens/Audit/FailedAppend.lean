import LedgerLens.Audit.MerkleChain

/-!
# Appends whose commit fails

`AuditMerkleChain.append` extends the list in memory before it writes the row. When the
commit fails, the entry stays in memory without its row. This file shows that this is never
undone.
-/

namespace LedgerLens.Audit.AuditMerkleChain

section

variable (sha256 : String → String) {chain : AuditMerkleChain} {contentJson : String}
  {fault : Option String} {reason : String}

/-- Every entry in memory stands at the place of its index. -/
def Contiguous (chain : AuditMerkleChain) : Prop :=
  ∀ (i : ℕ) (entry : MerkleAuditEntry), chain.entries[i]? = some entry → entry.index = i

/-- A save that fails leaves everything as it was. -/
theorem saveRoot_of_failed {entry : MerkleAuditEntry}
    (h : (chain.saveRoot entry fault).2 = .error (.commit reason)) :
    (chain.saveRoot entry fault).1 = chain := by
  unfold saveRoot at h ⊢
  cases fault with
  | some reason => rfl
  | none =>
    dsimp only at h ⊢
    cases hinsert : chain.table.insert? entry.index
      ⟨entry.merkleRoot, entry.contentHash, entry.prevMerkleRoot⟩ with
    | none => rfl
    | some table =>
      rw [hinsert] at h
      cases h

/-- An append that is not refused saves the next entry. -/
theorem append_of_not_incomplete (chain : AuditMerkleChain) (contentJson : String)
    (fault : Option String)
    (h : ∀ message, (chain.append sha256 contentJson fault).2 ≠ .error (.incomplete message)) :
    chain.append sha256 contentJson fault =
      (chain.extend (nextEntry sha256 chain.entries contentJson)).saveRoot
        (nextEntry sha256 chain.entries contentJson) fault := by
  unfold append at h ⊢
  split_ifs at h ⊢ with hnone
  · exact absurd rfl (h _)
  · rfl

/-- A commit that fails leaves the entry in memory and the table as it was. -/
theorem append_of_failed
    (h : (chain.append sha256 contentJson fault).2 = .error (.commit reason)) :
    (chain.append sha256 contentJson fault).1 =
      chain.extend (nextEntry sha256 chain.entries contentJson) := by
  have happend := append_of_not_incomplete sha256 chain contentJson fault (by simp [h])
  rw [happend] at h ⊢
  exact saveRoot_of_failed h

/-- What is to hold after an append whose commit failed: the entries in memory are what they
were, and every later append that succeeds takes the next free index and leaves a chain that
verifies. -/
def Undone (before after : AuditMerkleChain) : Prop :=
  after.entries = before.entries ∧
    ∀ contentJson entry, (after.append sha256 contentJson none).2 = .ok entry →
      (∀ i < entry.index, after.table.find? i ≠ none) ∧
        (after.append sha256 contentJson none).1.verifyChain sha256 = .ok true

/-- No append whose commit fails is undone. -/
theorem failed_append_not_undone
    (h : (chain.append sha256 contentJson fault).2 = .error (.commit reason)) :
    ¬Undone sha256 chain (chain.append sha256 contentJson fault).1 := by
  rintro ⟨hentries, _⟩
  rw [append_of_failed sha256 h] at hentries
  have hlength := congrArg List.length hentries
  simp [extend] at hlength

/-- On a contiguous chain the leaf hashes that `append` goes by are those of the places. -/
theorem leavesTo_length (hcontiguous : chain.Contiguous) :
    (chain.entries.map fun e => leafHash sha256 e.index (e.contentHash.getD "")) =
      chain.leavesTo sha256 chain.entries.length := by
  apply List.ext_getElem
  · simp [leavesTo]
  · intro i hi _
    have hlt : i < chain.entries.length := by simpa using hi
    have hindex := hcontiguous i chain.entries[i] (List.getElem?_eq_getElem hlt)
    simp [leavesTo, hindex, hlt]

end

/-- A chain whose first entry is stored. -/
def oneEntry : AuditMerkleChain :=
  (append Sha256.hexdigestString ⟨[], .empty⟩ "\x7b\"event\":\"start\"\x7d" none).1

/-- The database is locked when the second entry is committed: it stays in memory. -/
theorem locked_append_not_undone :
    (oneEntry.append Sha256.hexdigestString "\x7b\"event\":\"alert\"\x7d"
        (some "database is locked")).2 = .error (.commit "database is locked") ∧
      ¬Undone Sha256.hexdigestString oneEntry
        (oneEntry.append Sha256.hexdigestString "\x7b\"event\":\"alert\"\x7d"
          (some "database is locked")).1 := by
  refine ⟨by decide +kernel, fun h => ?_⟩
  exact absurd (congrArg List.length h.1) (by decide +kernel)

/-- Another process has stored an entry under index 0 before this one: the own entry stays in
memory. -/
theorem conflicting_append_not_undone :
    ¬Undone Sha256.hexdigestString ⟨[], oneEntry.table⟩
      (append Sha256.hexdigestString ⟨[], oneEntry.table⟩ "\x7b\x7d" none).1 :=
  failed_append_not_undone Sha256.hexdigestString (show _ = Except.error (AuditError.commit
    "UNIQUE constraint failed: audit_merkle_roots.entry_index") by decide +kernel)

end LedgerLens.Audit.AuditMerkleChain
