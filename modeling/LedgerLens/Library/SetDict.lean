import LedgerLens.Library.UniqueTable
import Mathlib.Logic.Relation
import Mathlib.Tactic.Tauto

/-!
# Dictionaries of sets

A dictionary that has a set under each key, as a list; a key without an entry has the empty
set. Where the elements are keys themselves, the dictionary is a graph, and a breadth-first
search finds what can be reached in it.
-/

namespace LedgerLens

/-- A dictionary of sets. -/
abbrev SetDict (Key Element : Type*) := UniqueTable Key (List Element)

namespace SetDict

variable {Key Element : Type*} [DecidableEq Key]

/-- The set under a key. -/
def get (t : SetDict Key Element) (k : Key) : List Element := (t.find? k).getD []

variable [DecidableEq Element]

/-- Add an element to the set under a key. -/
def add (t : SetDict Key Element) (k : Key) (a : Element) : SetDict Key Element :=
  t.put k ((t.get k).insert a)

/-- Remove an element from the set under a key, and the key if it has no other. -/
def discard (t : SetDict Key Element) (k : Key) (a : Element) : SetDict Key Element :=
  if (t.get k).filter (· ≠ a) = [] then t.erase k else t.put k ((t.get k).filter (· ≠ a))

variable {t : SetDict Key Element} {k k' : Key} {a b : Element}

@[simp] theorem mem_get_add : b ∈ (t.add k a).get k' ↔ (k' = k ∧ b = a) ∨ b ∈ t.get k' := by
  unfold add get
  rw [UniqueTable.find?_put]
  by_cases hk : k' = k
  · subst hk
    simp
  · simp [hk]

omit [DecidableEq Element] in
@[simp] theorem mem_get_erase : b ∈ get (t.erase k) k' ↔ b ∈ t.get k' ∧ k' ≠ k := by
  unfold get
  rw [UniqueTable.find?_erase]
  by_cases hk : k' = k <;> simp [hk]

@[simp] theorem mem_get_discard :
    b ∈ (t.discard k a).get k' ↔ b ∈ t.get k' ∧ ¬(k' = k ∧ b = a) := by
  have hrest : b ∈ (t.get k).filter (· ≠ a) ↔ b ∈ t.get k ∧ b ≠ a := by simp
  unfold discard
  split_ifs with hempty
  · rw [hempty] at hrest
    rw [mem_get_erase]
    by_cases hk : k' = k
    · subst hk
      simpa using hrest
    · simp [hk]
  · by_cases hk : k' = k
    · subst hk
      simp [get]
    · simp [get, hk]

/-- Removing an element from several sets, one after the other. -/
theorem mem_get_foldl_discard {ks : List Key} :
    b ∈ (ks.foldl (fun t k => t.discard k a) t).get k' ↔ b ∈ t.get k' ∧ ¬(k' ∈ ks ∧ b = a) := by
  induction ks generalizing t with
  | nil => simp
  | cons k ks ih =>
    rw [List.foldl_cons, ih, mem_get_discard, List.mem_cons]
    tauto

section Search

variable {V : Type*} [DecidableEq V]

/-- The loop of a breadth-first search, with fuel for each vertex taken from the queue. -/
def search (t : SetDict V V) : ℕ → List V → List V → List V
  | 0, seen, _ => seen
  | _ + 1, seen, [] => seen
  | fuel + 1, seen, v :: queue =>
    if v ∈ seen then t.search fuel seen queue
    else t.search fuel (v :: seen) (queue ++ (t.get v).filter (· ∉ v :: seen))

/-- How many elements there are in all sets. -/
def size (t : SetDict V V) : ℕ := (t.rows.flatMap Prod.snd).length

/-- What can be reached from a vertex by at least one arc. -/
def reach (t : SetDict V V) (v : V) : List V :=
  t.search ((t.get v).length + t.size) [] (t.get v)

/-- One arc. -/
def Arc (t : SetDict V V) (u v : V) : Prop := v ∈ t.get u

variable {t : SetDict V V} {seen queue : List V} {u v : V}

/-- How many elements there are in the sets of the vertices that were not seen. -/
def unseen (t : SetDict V V) (seen : List V) : ℕ :=
  ((t.rows.filter fun row => row.1 ∉ seen).flatMap Prod.snd).length

theorem unseen_nil : t.unseen [] = t.size := by
  simp [unseen, size]

/-- What is left to be seen once a vertex is. -/
theorem unseen_cons (h : v ∉ seen) : t.unseen seen = (t.get v).length + t.unseen (v :: seen) := by
  have hfilter (rows : List (V × List V)) :
      (rows.filter fun row => !decide (row.1 = v)).filter (fun row => row.1 ∉ seen) =
        rows.filter fun row => row.1 ∉ v :: seen := by
    rw [List.filter_filter]
    refine List.filter_congr fun row _ => ?_
    by_cases hv : row.1 = v <;> simp [hv]
  unfold unseen
  cases hfind : t.find? v with
  | none =>
    have hrows : t.rows.filter (fun row => !decide (row.1 = v)) = t.rows :=
      congrArg UniqueTable.rows (UniqueTable.erase_of_new hfind)
    rw [← hfilter, hrows]
    simp [get, hfind]
  | some r =>
    have hperm := ((UniqueTable.rows_perm_erase hfind).filter fun row => row.1 ∉ seen).flatMap_right
      Prod.snd
    rw [hperm.length_eq, List.filter_cons_of_pos (by simpa using h), List.flatMap_cons,
      List.length_append, ← hfilter]
    simp [get, hfind, UniqueTable.erase, UniqueTable.deleteWhere]

/-- From a vertex that was seen every path leads to one that was seen, or through the queue. -/
theorem seen_or_queued (hclosed : ∀ a ∈ seen, ∀ b, t.Arc a b → b ∈ seen ∨ b ∈ queue)
    (hpath : Relation.ReflTransGen t.Arc u v) (hu : u ∈ seen) :
    v ∈ seen ∨ ∃ q ∈ queue, Relation.ReflTransGen t.Arc q v := by
  induction hpath using Relation.ReflTransGen.head_induction_on with
  | refl => exact .inl hu
  | head harc hrest ih =>
    obtain hseen | hqueue := hclosed _ hu _ harc
    · exact ih hseen
    · exact .inr ⟨_, hqueue, hrest⟩

/-- With enough fuel the loop finds what was seen and what can be reached from the queue. -/
theorem mem_search_iff {fuel : ℕ} (hfuel : queue.length + t.unseen seen ≤ fuel)
    (hclosed : ∀ a ∈ seen, ∀ b, t.Arc a b → b ∈ seen ∨ b ∈ queue) :
    v ∈ t.search fuel seen queue ↔
      v ∈ seen ∨ ∃ q ∈ queue, Relation.ReflTransGen t.Arc q v := by
  induction fuel generalizing seen queue with
  | zero =>
    obtain rfl : queue = [] := List.length_eq_zero_iff.mp (by omega)
    simp [search]
  | succ fuel ih =>
    cases queue with
    | nil => simp [search]
    | cons q queue =>
      rw [List.length_cons] at hfuel
      unfold search
      split_ifs with hq
      · have hclosed' : ∀ a ∈ seen, ∀ b, t.Arc a b → b ∈ seen ∨ b ∈ queue := by
          intro a ha b hb
          obtain hseen | hqueue := hclosed a ha b hb
          · exact .inl hseen
          · obtain rfl | hmem := List.mem_cons.mp hqueue
            · exact .inl hq
            · exact .inr hmem
        rw [ih (by omega) hclosed']
        constructor
        · rintro (hseen | ⟨q', hq', hpath⟩)
          · exact .inl hseen
          · exact .inr ⟨q', List.mem_cons_of_mem _ hq', hpath⟩
        · rintro (hseen | ⟨q', hq', hpath⟩)
          · exact .inl hseen
          · obtain rfl | hmem := List.mem_cons.mp hq'
            · exact seen_or_queued hclosed' hpath hq
            · exact .inr ⟨q', hmem, hpath⟩
      · have hclosed' : ∀ a ∈ q :: seen, ∀ b, t.Arc a b →
            b ∈ q :: seen ∨ b ∈ queue ++ (t.get q).filter (· ∉ q :: seen) := by
          intro a ha b hb
          by_cases hb' : b ∈ q :: seen
          · exact .inl hb'
          · refine .inr (List.mem_append.mpr ?_)
            obtain rfl | ha := List.mem_cons.mp ha
            · exact .inr (List.mem_filter.mpr ⟨hb, by simpa using hb'⟩)
            · obtain hseen | hqueue := hclosed a ha b hb
              · exact absurd (List.mem_cons_of_mem _ hseen) hb'
              · obtain rfl | hmem := List.mem_cons.mp hqueue
                · exact absurd List.mem_cons_self hb'
                · exact .inl hmem
        have hunseen := unseen_cons (t := t) hq
        have hlength := List.length_filter_le (fun b => decide (b ∉ q :: seen)) (t.get q)
        have hfuel' : (queue ++ (t.get q).filter (· ∉ q :: seen)).length +
            t.unseen (q :: seen) ≤ fuel := by
          rw [List.length_append]
          omega
        rw [ih hfuel' hclosed']
        constructor
        · rintro (hseen | ⟨q', hq', hpath⟩)
          · obtain rfl | hseen := List.mem_cons.mp hseen
            · exact .inr ⟨v, List.mem_cons_self, .refl⟩
            · exact .inl hseen
          · obtain hmem | hnew := List.mem_append.mp hq'
            · exact .inr ⟨q', List.mem_cons_of_mem _ hmem, hpath⟩
            · exact .inr ⟨q, List.mem_cons_self, .head (List.mem_filter.mp hnew).1 hpath⟩
        · rintro (hseen | ⟨q', hq', hpath⟩)
          · exact .inl (List.mem_cons_of_mem _ hseen)
          · obtain rfl | hmem := List.mem_cons.mp hq'
            · exact seen_or_queued hclosed' hpath List.mem_cons_self
            · exact .inr ⟨q', List.mem_append_left _ hmem, hpath⟩

/-- The search finds exactly what can be reached. -/
theorem mem_reach_iff : v ∈ t.reach u ↔ Relation.TransGen t.Arc u v := by
  unfold reach
  rw [mem_search_iff (by rw [unseen_nil]) fun a ha => absurd ha List.not_mem_nil]
  constructor
  · rintro (hseen | ⟨q, hq, hpath⟩)
    · cases hseen
    · exact .head' hq hpath
  · intro hpath
    obtain ⟨q, hq, hrest⟩ := Relation.TransGen.head'_iff.mp hpath
    exact .inr ⟨q, hq, hrest⟩

end Search

end SetDict

end LedgerLens
