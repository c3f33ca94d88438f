import Mathlib.Data.List.Count
import Mathlib.Data.List.Nodup

/-!
# Items that wait for a batch

Items are accepted, wait and are used up together in a batch. The ledger of such a system says
which items were accepted, which wait and which batches there were. Its accounts are right if every
accepted item is in one place: it waits or it was used in one batch.
-/

/-- Accepted items, items that wait, and the batches so far. -/
structure BatchLedger (ι : Type) where
  /-- The items that were accepted. -/
  accepted : List ι := []
  /-- The items that wait. -/
  pending : List ι := []
  /-- The batches. -/
  batches : List (List ι) := []

namespace BatchLedger

variable {ι : Type} {l : BatchLedger ι}

/-- All items that wait or were used. -/
def items (l : BatchLedger ι) : List ι := l.pending ++ l.batches.flatten

/-- Every accepted item is in one place. -/
def Accounted [DecidableEq ι] (l : BatchLedger ι) : Prop := ∀ i ∈ l.accepted, l.items.count i = 1

/-- The invariant: no item is in two places, and the accepted items include those that wait. -/
structure Inv (l : BatchLedger ι) : Prop where
  /-- No item is in two places. -/
  nodup : l.items.Nodup
  /-- Accepted items are somewhere. -/
  accepted_sub : ∀ i ∈ l.accepted, i ∈ l.items
  /-- Items that wait were accepted. -/
  pending_sub : ∀ i ∈ l.pending, i ∈ l.accepted

/-- An item is accepted and waits. -/
def accept (l : BatchLedger ι) (i : ι) : BatchLedger ι :=
  { l with accepted := l.accepted ++ [i], pending := l.pending ++ [i] }

/-- What waits is used in a batch. -/
def use (l : BatchLedger ι) : BatchLedger ι :=
  { l with pending := [], batches := l.batches ++ [l.pending] }

theorem Inv.empty : (⟨[], [], []⟩ : BatchLedger ι).Inv :=
  ⟨List.nodup_nil, fun _ h => h, fun _ h => h⟩

/-- The invariant keeps the accounts right. -/
theorem Inv.accounted [DecidableEq ι] (hinv : l.Inv) : l.Accounted := fun i hi =>
  List.count_eq_one_of_mem hinv.nodup (hinv.accepted_sub i hi)

/-- An item that is accepted is added to the others. -/
theorem items_accept_perm (l : BatchLedger ι) (i : ι) :
    (l.accept i).items.Perm (i :: l.items) := by
  unfold items accept
  dsimp only
  rw [List.append_assoc]
  exact List.perm_middle

/-- Accepting a new item keeps the invariant. -/
theorem Inv.accept (hinv : l.Inv) {i : ι} (hnew : i ∉ l.items) : (l.accept i).Inv := by
  have hperm := l.items_accept_perm i
  refine ⟨hperm.nodup_iff.mpr (List.nodup_cons.mpr ⟨hnew, hinv.nodup⟩), ?_, ?_⟩
  · intro j hj
    rw [hperm.mem_iff, List.mem_cons]
    rcases List.mem_append.mp hj with hold | hself
    · exact .inr (hinv.accepted_sub j hold)
    · exact .inl (List.mem_singleton.mp hself)
  · intro j hj
    rcases List.mem_append.mp hj with hold | hself
    · exact List.mem_append_left _ (hinv.pending_sub j hold)
    · exact List.mem_append_right _ hself

/-- A batch has the items that waited. -/
theorem items_use_perm (l : BatchLedger ι) : l.use.items.Perm l.items := by
  unfold items use
  dsimp only
  rw [List.nil_append, List.flatten_append, List.flatten_singleton]
  exact List.perm_append_comm

/-- A batch keeps the invariant. -/
theorem Inv.use (hinv : l.Inv) : l.use.Inv := by
  refine ⟨l.items_use_perm.nodup_iff.mpr hinv.nodup, ?_, fun _ h => nomatch h⟩
  intro i hi
  exact l.items_use_perm.mem_iff.mpr (hinv.accepted_sub i hi)

/-- Items that are dropped are missed. -/
theorem Inv.not_accounted_of_drop [DecidableEq ι] (hinv : l.Inv) (hne : l.pending ≠ []) :
    ¬({ l with pending := [] } : BatchLedger ι).Accounted := by
  intro h
  obtain ⟨i, rest, hpending⟩ := List.exists_cons_of_ne_nil hne
  have hi : i ∈ l.pending := hpending ▸ List.mem_cons_self
  have hbatches : i ∉ l.batches.flatten := fun hmem =>
    (List.nodup_append.mp hinv.nodup).2.2 i hi i hmem rfl
  have hcount := h i (hinv.pending_sub i hi)
  unfold items at hcount
  rw [List.nil_append, List.count_eq_zero_of_not_mem hbatches] at hcount
  omega

end BatchLedger
