import Mathlib.Data.List.Sort
import Mathlib.Data.Multiset.Basic
import Mathlib.Data.Prod.Lex

/-!
# Sorted sets

A sorted set has members with scores, in the order of the scores and, for one score, of the
members. A member occurs once; adding it again gives it its new score. Members are removed by their
ranks, which may be counted from the end.
-/

/-- Members with scores, in the order of the scores. -/
structure SortedSet (Score Member : Type*) [LinearOrder Score] [LinearOrder Member] where
  /-- The scores with the members. -/
  entries : List (Score ×ₗ Member)
  /-- They are in order. -/
  pairwise : entries.Pairwise (· ≤ ·)
  /-- No member occurs twice. -/
  nodup : (entries.map fun e => (ofLex e).2).Nodup

namespace SortedSet

variable {Score Member : Type*} [LinearOrder Score] [LinearOrder Member]

/-- The set without members. -/
def empty : SortedSet Score Member := ⟨[], List.Pairwise.nil, List.nodup_nil⟩

/-- The members. -/
def members (s : SortedSet Score Member) : List Member := s.entries.map fun e => (ofLex e).2

/-- The scores. -/
def scores (s : SortedSet Score Member) : List Score := s.entries.map fun e => (ofLex e).1

/-- The number of members. -/
def length (s : SortedSet Score Member) : ℕ := s.entries.length

/-- `ZADD`. -/
def zadd (s : SortedSet Score Member) (member : Member) (score : Score) :
    SortedSet Score Member where
  entries := (s.entries.filter fun e => (ofLex e).2 ≠ member).orderedInsert (· ≤ ·)
    (toLex (score, member))
  pairwise := (s.pairwise.filter _).orderedInsert _ _
  nodup := by
    rw [((List.perm_orderedInsert _ _ _).map _).nodup_iff, List.map_cons, List.nodup_cons]
    refine ⟨fun hmem => ?_, (List.filter_sublist.map _).nodup s.nodup⟩
    obtain ⟨e, he, heq⟩ := List.mem_map.mp hmem
    exact of_decide_eq_true (List.mem_filter.mp he).2 heq

/-- A rank that may be counted from the end. -/
def rankOf (length : ℕ) (rank : ℤ) : ℤ := if rank < 0 then length + rank else rank

/-- What is left of a list without the ranks in a range. -/
def withoutRange {α : Type*} (start stop : ℤ) (xs : List α) : List α :=
  let first := max 0 (rankOf xs.length start)
  let last := rankOf xs.length stop
  if last < first ∨ xs.length ≤ first then xs
  else xs.take first.toNat ++ xs.drop (last.toNat + 1)

theorem withoutRange_sublist {α : Type*} (start stop : ℤ) (xs : List α) :
    (withoutRange start stop xs).Sublist xs := by
  unfold withoutRange
  dsimp only
  split_ifs with hempty
  · exact List.Sublist.refl _
  · have hle : (max 0 (rankOf xs.length start)).toNat ≤ (rankOf xs.length stop).toNat + 1 := by
      omega
    have hsublist := (List.drop_sublist_drop_left xs hle).append_left
      (xs.take (max 0 (rankOf xs.length start)).toNat)
    rwa [List.take_append_drop] at hsublist

/-- `ZREMRANGEBYRANK`. -/
def zremrangebyrank (s : SortedSet Score Member) (start stop : ℤ) : SortedSet Score Member where
  entries := withoutRange start stop s.entries
  pairwise := s.pairwise.sublist (withoutRange_sublist _ _ _)
  nodup := ((withoutRange_sublist _ _ _).map _).nodup s.nodup

variable {s : SortedSet Score Member} {member : Member} {score : Score}

@[simp] theorem length_scores (s : SortedSet Score Member) : s.scores.length = s.length :=
  List.length_map _

theorem mem_members_iff : member ∈ s.members ↔ ∃ score, toLex (score, member) ∈ s.entries := by
  unfold members
  rw [List.mem_map]
  constructor
  · rintro ⟨e, he, rfl⟩
    exact ⟨(ofLex e).1, he⟩
  · rintro ⟨score, hmem⟩
    exact ⟨_, hmem, rfl⟩

/-- A new member is one more. -/
theorem perm_zadd (h : member ∉ s.members) :
    (s.zadd member score).entries.Perm (toLex (score, member) :: s.entries) := by
  have hfilter : (s.entries.filter fun e => (ofLex e).2 ≠ member) = s.entries :=
    List.filter_eq_self.mpr fun e he => decide_eq_true fun heq =>
      h (List.mem_map.mpr ⟨e, he, heq⟩)
  unfold zadd
  dsimp only
  rw [hfilter]
  exact List.perm_orderedInsert _ _ _

/-- A member with the score that it has changes nothing. -/
theorem entries_zadd_of_mem (h : toLex (score, member) ∈ s.entries) :
    (s.zadd member score).entries = s.entries := by
  have hperm : (s.zadd member score).entries.Perm s.entries := by
    refine (List.perm_ext_iff_of_nodup (s.zadd member score).nodup.of_map s.nodup.of_map).mpr
      fun e => ?_
    unfold zadd
    dsimp only
    rw [List.mem_orderedInsert, List.mem_filter, decide_eq_true_eq]
    constructor
    · rintro (rfl | ⟨he, -⟩)
      · exact h
      · exact he
    · intro he
      by_cases heq : (ofLex e).2 = member
      · exact .inl (List.inj_on_of_nodup_map s.nodup he h heq)
      · exact .inr ⟨he, heq⟩
  exact hperm.eq_of_pairwise (fun _ _ _ _ => le_antisymm) (s.zadd member score).pairwise s.pairwise

/-- Nothing is removed of a set that is small enough. -/
theorem zremrangebyrank_of_length_le {size : ℕ} (h : s.length ≤ size) :
    s.zremrangebyrank 0 (-size - 1) = s := by
  have hentries : withoutRange 0 (-size - 1) s.entries = s.entries := by
    have hle : s.entries.length ≤ size := h
    unfold withoutRange rankOf
    dsimp only
    rw [if_pos]
    left
    rw [if_pos (by omega), if_neg (by omega)]
    omega
  cases s
  unfold zremrangebyrank
  congr 1

/-- Of a set with one member too many the first one is removed. -/
theorem entries_zremrangebyrank_of_length_eq {size : ℕ} (h : s.length = size + 1) :
    (s.zremrangebyrank 0 (-size - 1)).entries = s.entries.tail := by
  have hlength : s.entries.length = size + 1 := h
  have hfirst : max 0 (rankOf s.entries.length 0) = 0 := rfl
  have hlast : rankOf s.entries.length (-size - 1) = 0 := by
    unfold rankOf
    rw [if_pos (by omega)]
    omega
  unfold zremrangebyrank withoutRange
  dsimp only
  rw [hfirst, hlast, if_neg (by omega)]
  exact List.drop_one

/-- The first entry has the smallest score. -/
theorem le_of_entries_eq_cons {e : Score ×ₗ Member} {rest : List (Score ×ₗ Member)}
    (h : s.entries = e :: rest) {score : Score} (hscore : score ∈ s.scores) :
    (ofLex e).1 ≤ score := by
  obtain ⟨e', he', rfl⟩ := List.mem_map.mp hscore
  have hpairwise := s.pairwise
  rw [h] at he' hpairwise
  rcases List.mem_cons.mp he' with rfl | hrest
  · exact le_rfl
  · exact Prod.Lex.monotone_fst _ _ ((List.pairwise_cons.mp hpairwise).1 e' hrest)

end SortedSet
