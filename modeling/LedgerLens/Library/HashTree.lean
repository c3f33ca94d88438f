import Mathlib.Algebra.BigOperators.Group.List.Basic
import Mathlib.Algebra.Order.Ring.Nat
import Mathlib.Tactic.Positivity

/-!
# Trees of hashes

A binary tree with a value at each leaf has the hash of the text of its value, or of the two
hashes below it. Trees are put together level by level, where the last of an odd number is used
twice. This leaves no trace in the set of values: a tree that is built from a list has exactly
the values of the list. All its leaves are equally deep, so that the tree is determined by the
values in their order, which are those of the list filled up with copies of its end. A hash
determines its tree if no two texts that are hashed for it have one hash, and if no leaf can be
taken for a node.
-/

/-- A binary tree with a value at each leaf. -/
inductive HashTree (α : Type*) where
  /-- A leaf. -/
  | leaf (a : α)
  /-- A node with two trees below it. -/
  | node (left right : HashTree α)

namespace HashTree

variable {α : Type*}

/-- The values at the leaves. -/
def values : HashTree α → List α
  | leaf a => [a]
  | node left right => left.values ++ right.values

/-- The nodes above an even number of trees. -/
def pairs : List (HashTree α) → List (HashTree α)
  | left :: right :: rest => node left right :: pairs rest
  | _ => []

/-- The level above some trees: the last of an odd number is used twice. -/
def level (trees : List (HashTree α)) : List (HashTree α) :=
  pairs (if trees.length % 2 = 1 then trees ++ trees.getLast?.toList else trees)

/-- Levels are built until one tree is left; the number bounds them. -/
def climb : ℕ → List (HashTree α) → List (HashTree α)
  | 0, trees => trees
  | turns + 1, trees => if 1 < trees.length then climb turns (level trees) else trees

/-- A value stands at a leaf of one of some trees. -/
def Occurs (a : α) (trees : List (HashTree α)) : Prop := ∃ t ∈ trees, a ∈ t.values

@[simp] theorem occurs_cons {a : α} {t : HashTree α} {trees : List (HashTree α)} :
    Occurs a (t :: trees) ↔ a ∈ t.values ∨ Occurs a trees := by
  simp [Occurs]

/-- Nodes have the values of what they are above. -/
theorem occurs_pairs {a : α} {trees : List (HashTree α)} (heven : trees.length % 2 = 0) :
    Occurs a (pairs trees) ↔ Occurs a trees := by
  induction trees using pairs.induct with
  | case1 left right rest ih =>
    have hrest : rest.length % 2 = 0 := by
      simp only [List.length_cons] at heven
      omega
    simp only [pairs, occurs_cons, values, List.mem_append, ih hrest, or_assoc]
  | case2 trees hshort =>
    have hnil : trees = [] := by
      cases trees with
      | nil => rfl
      | cons left rest =>
        cases rest with
        | nil => simp at heven
        | cons right rest => exact absurd rfl (hshort left right rest)
    rw [hnil]
    rfl

/-- A level has the values of the one below. -/
theorem occurs_level {a : α} (trees : List (HashTree α)) :
    Occurs a (level trees) ↔ Occurs a trees := by
  unfold level
  split_ifs with hodd
  · obtain ⟨last, hlast⟩ : ∃ last, trees.getLast? = some last := by
      cases trees with
      | nil => simp at hodd
      | cons t rest => exact ⟨_, List.getLast?_eq_some_getLast (List.cons_ne_nil t rest)⟩
    have hmem : last ∈ trees := List.mem_of_getLast? hlast
    rw [hlast, occurs_pairs (by simp; omega)]
    constructor
    · rintro ⟨t, ht, ha⟩
      obtain ht | ht := List.mem_append.mp ht
      · exact ⟨t, ht, ha⟩
      · obtain rfl : t = last := by simpa using ht
        exact ⟨t, hmem, ha⟩
    · rintro ⟨t, ht, ha⟩
      exact ⟨t, List.mem_append_left _ ht, ha⟩
  · exact occurs_pairs (by omega)

/-- What is built from some trees has their values. -/
theorem occurs_climb {a : α} (turns : ℕ) (trees : List (HashTree α)) :
    Occurs a (climb turns trees) ↔ Occurs a trees := by
  induction turns generalizing trees with
  | zero => rfl
  | succ turns ih =>
    unfold climb
    split_ifs
    · rw [ih, occurs_level]
    · rfl

section Shape

/-- All leaves are as deep as a number says. -/
def Perfect : ℕ → HashTree α → Prop
  | 0, leaf _ => True
  | depth + 1, node left right => Perfect depth left ∧ Perfect depth right
  | _, _ => False

theorem Perfect.length_values {depth : ℕ} {t : HashTree α} (h : Perfect depth t) :
    t.values.length = 2 ^ depth := by
  induction depth generalizing t with
  | zero =>
    cases t with
    | leaf a => rfl
    | node left right => cases h
  | succ depth ih =>
    cases t with
    | leaf a => cases h
    | node left right =>
      rw [values, List.length_append, ih h.1, ih h.2]
      omega

/-- Values determine a tree of a given depth. -/
theorem Perfect.eq_of_values {depth : ℕ} {t t' : HashTree α} (h : Perfect depth t)
    (h' : Perfect depth t') (hvalues : t.values = t'.values) : t = t' := by
  induction depth generalizing t t' with
  | zero =>
    cases t with
    | leaf a =>
      cases t' with
      | leaf b => rw [(List.cons.inj hvalues).1]
      | node left' right' => cases h'
    | node left right => cases h
  | succ depth ih =>
    cases t with
    | leaf a => cases h
    | node left right =>
      cases t' with
      | leaf b => cases h'
      | node left' right' =>
        obtain ⟨hleft, hright⟩ := List.append_inj hvalues (by
          rw [h.1.length_values, h'.1.length_values])
        rw [ih h.1 h'.1 hleft, ih h.2 h'.2 hright]

theorem perfect_pairs {depth : ℕ} {trees : List (HashTree α)} (h : ∀ t ∈ trees, Perfect depth t) :
    ∀ t ∈ pairs trees, Perfect (depth + 1) t := by
  induction trees using pairs.induct with
  | case1 left right rest ih =>
    intro t ht
    obtain rfl | ht := List.mem_cons.mp ht
    · exact ⟨h left (by simp), h right (by simp)⟩
    · exact ih (fun t' ht' => h t' (by simp [ht'])) t ht
  | case2 trees hshort =>
    intro t ht
    rw [pairs] at ht
    · cases ht
    · exact hshort

theorem length_pairs (trees : List (HashTree α)) : (pairs trees).length = trees.length / 2 := by
  induction trees using pairs.induct with
  | case1 left right rest ih =>
    simp only [pairs, List.length_cons, ih]
    omega
  | case2 trees hshort =>
    cases trees with
    | nil => simp [pairs]
    | cons left rest =>
      cases rest with
      | nil => simp [pairs]
      | cons right rest => exact absurd rfl (hshort left right rest)

theorem values_pairs {trees : List (HashTree α)} (heven : trees.length % 2 = 0) :
    (pairs trees).flatMap values = trees.flatMap values := by
  induction trees using pairs.induct with
  | case1 left right rest ih =>
    have hrest : rest.length % 2 = 0 := by
      simp only [List.length_cons] at heven
      omega
    simp only [pairs, List.flatMap_cons, values, ih hrest, List.append_assoc]
  | case2 trees hshort =>
    cases trees with
    | nil => rfl
    | cons left rest =>
      cases rest with
      | nil => simp at heven
      | cons right rest => exact absurd rfl (hshort left right rest)

/-- The blocks of a size, with the last of an odd number of them twice. -/
def evenBlocks (size : ℕ) (xs : List α) : List α :=
  if xs.length / size % 2 = 1 then xs ++ xs.drop (xs.length - size) else xs

/-- A list with its end repeated until it has the length of a level of leaves, from blocks of a size
on. The number bounds the levels. -/
def fillUp : ℕ → ℕ → List α → List α
  | 0, _, xs => xs
  | turns + 1, size, xs =>
    if size < xs.length then fillUp turns (2 * size) (evenBlocks size xs) else xs

variable {depth : ℕ} {trees : List (HashTree α)}

theorem length_flatMap_values (h : ∀ t ∈ trees, Perfect depth t) :
    (trees.flatMap values).length = trees.length * 2 ^ depth := by
  rw [List.length_flatMap, List.map_congr_left fun t ht => (h t ht).length_values,
    List.map_const', List.sum_replicate, Nat.nsmul_eq_mul]

/-- Among the trees of a level are those below and the last one. -/
theorem mem_of_mem_evened {t : HashTree α}
    (h : t ∈ if trees.length % 2 = 1 then trees ++ trees.getLast?.toList else trees) :
    t ∈ trees := by
  split_ifs at h
  · obtain h | h := List.mem_append.mp h
    · exact h
    · exact List.mem_of_getLast? (Option.mem_toList.mp h)
  · exact h

theorem perfect_level (h : ∀ t ∈ trees, Perfect depth t) :
    ∀ t ∈ level trees, Perfect (depth + 1) t :=
  perfect_pairs fun t ht => h t (mem_of_mem_evened ht)

theorem length_level (trees : List (HashTree α)) :
    (level trees).length = (trees.length + 1) / 2 := by
  unfold level
  rw [length_pairs]
  split_ifs with hodd
  · have hne : trees ≠ [] := by
      rintro rfl
      cases hodd
    rw [List.getLast?_eq_some_getLast hne, Option.toList_some, List.length_append,
      List.length_singleton]
  · omega

/-- The values of a level are those below, with the last of an odd number of trees twice. -/
theorem values_level (h : ∀ t ∈ trees, Perfect depth t) :
    (level trees).flatMap values = evenBlocks (2 ^ depth) (trees.flatMap values) := by
  have hcount : (trees.flatMap values).length / 2 ^ depth = trees.length := by
    rw [length_flatMap_values h, Nat.mul_div_cancel _ (by positivity)]
  unfold level evenBlocks
  rw [hcount]
  split_ifs with hodd
  · have hne : trees ≠ [] := by
      rintro rfl
      cases hodd
    obtain ⟨init, last, rfl⟩ : ∃ init last, trees = init ++ [last] :=
      ⟨_, _, (List.dropLast_append_getLast hne).symm⟩
    have hinit : ∀ t ∈ init, Perfect depth t := fun t ht => h t (List.mem_append_left _ ht)
    have hstart : ((init ++ [last]).flatMap values).length - 2 ^ depth =
        (init.flatMap values).length := by
      rw [length_flatMap_values h, length_flatMap_values hinit, List.length_append,
        List.length_singleton, Nat.add_mul, one_mul, Nat.add_sub_cancel]
    rw [values_pairs (by simp at hodd ⊢; omega), hstart]
    simp
  · exact values_pairs (by omega)

/-- What is built from trees of one depth, if there are turns enough: a single tree of some depth,
with their values filled up. -/
theorem exists_climb_eq {turns : ℕ} (h : ∀ t ∈ trees, Perfect depth t) (hne : trees ≠ [])
    (hturns : trees.length ≤ turns) :
    ∃ t depth', climb turns trees = [t] ∧ Perfect depth' t ∧
      t.values = fillUp turns (2 ^ depth) (trees.flatMap values) := by
  induction turns generalizing trees depth with
  | zero => exact absurd (List.eq_nil_of_length_eq_zero (Nat.le_zero.mp hturns)) hne
  | succ turns ih =>
    have hlength := length_flatMap_values h
    have hpos : 0 < 2 ^ depth := by positivity
    unfold climb fillUp
    by_cases hmore : 1 < trees.length
    · have hlt : 2 ^ depth < (trees.flatMap values).length := by
        rw [hlength]
        exact lt_mul_of_one_lt_left hpos hmore
      rw [if_pos hmore, if_pos hlt, ← values_level h, ← pow_succ']
      refine ih (perfect_level h) ?_ ?_
      · rw [← List.length_pos_iff, length_level]
        omega
      · rw [length_level]
        omega
    · have hone : trees.length = 1 := by
        have := List.length_pos_iff.mpr hne
        omega
      obtain ⟨t, rfl⟩ := List.length_eq_one_iff.mp hone
      rw [if_neg hmore, if_neg (by rw [hlength, hone, one_mul]; exact lt_irrefl _)]
      exact ⟨t, depth, rfl, h t List.mem_cons_self, by simp⟩

end Shape

section Combine

variable {T : Type*} (value : α → T) (combine : T → T → T)

/-- What a tree comes to, given what leaves are worth and how two values are put together. -/
def combined : HashTree α → T
  | leaf a => value a
  | node left right => combine left.combined right.combined

/-- Values put together in pairs. -/
def combinePairs : List T → List T
  | x :: y :: rest => combine x y :: combinePairs rest
  | _ => []

/-- Values put together in pairs, with the last of an odd number twice. -/
def combineLevel (xs : List T) : List T :=
  combinePairs combine (if xs.length % 2 = 1 then xs ++ xs.getLast?.toList else xs)

/-- Values put together level by level. -/
def combineLevels : ℕ → List T → List T
  | 0, xs => xs
  | turns + 1, xs => if 1 < xs.length then combineLevels turns (combineLevel combine xs) else xs

theorem combinePairs_map (trees : List (HashTree α)) :
    combinePairs combine (trees.map (combined value combine)) =
      (pairs trees).map (combined value combine) := by
  induction trees using pairs.induct with
  | case1 left right rest ih => simp only [List.map_cons, combinePairs, pairs, combined, ih]
  | case2 trees hshort =>
    cases trees with
    | nil => simp [combinePairs, pairs]
    | cons left rest =>
      cases rest with
      | nil => simp [combinePairs, pairs]
      | cons right rest => exact absurd rfl (hshort left right rest)

theorem combineLevel_map (trees : List (HashTree α)) :
    combineLevel combine (trees.map (combined value combine)) =
      (level trees).map (combined value combine) := by
  unfold combineLevel level
  rw [← combinePairs_map, List.length_map]
  split_ifs
  · rw [List.map_append, List.getLast?_map]
    cases trees.getLast? <;> rfl
  · rfl

/-- Values are put together as the trees of which they are. -/
theorem combineLevels_map (turns : ℕ) (trees : List (HashTree α)) :
    combineLevels combine turns (trees.map (combined value combine)) =
      (climb turns trees).map (combined value combine) := by
  induction turns generalizing trees with
  | zero => rfl
  | succ turns ih =>
    unfold combineLevels climb
    rw [List.length_map, combineLevel_map]
    split_ifs
    · exact ih (level trees)
    · rfl

end Combine

section Digest

variable {β : Type*} (H : List β → List β) (text : α → List β)

/-- The hash of a tree, if texts are lists. -/
def digest : HashTree α → List β
  | leaf a => H (text a)
  | node left right => H (left.digest ++ right.digest)

/-- The hash of a tree is put together of those of its leaves. -/
theorem combined_eq_digest (t : HashTree α) :
    t.combined (fun a => H (text a)) (fun left right => H (left ++ right)) = t.digest H text := by
  induction t with
  | leaf a => rfl
  | node left right ihleft ihright => rw [combined, digest, ihleft, ihright]

/-- The texts that are hashed for a tree. -/
def messages : HashTree α → List (List β)
  | leaf a => [text a]
  | node left right =>
    (left.digest H text ++ right.digest H text) :: (left.messages ++ right.messages)

/-- The hash of a tree is that of one of its texts. -/
theorem digest_eq (t : HashTree α) : ∃ x ∈ t.messages H text, t.digest H text = H x := by
  cases t with
  | leaf a => exact ⟨text a, List.mem_cons_self, rfl⟩
  | node left right => exact ⟨_, List.mem_cons_self, rfl⟩

variable {H text}

/-- A hash determines its tree, where hashes have one length, leaves have texts of their own
that are not two hashes, and no two texts of the trees have one hash. -/
theorem digest_inj {width : ℕ} (hwidth : ∀ x, (H x).length = width)
    (htext : ∀ a b, text a = text b → a = b) (hleaf : ∀ a x y, text a ≠ H x ++ H y)
    {t t' : HashTree α}
    (hclash : ∀ x ∈ t.messages H text, ∀ y ∈ t'.messages H text, H x = H y → x = y)
    (h : t.digest H text = t'.digest H text) : t = t' := by
  induction t generalizing t' with
  | leaf a =>
    cases t' with
    | leaf b =>
      have heq := hclash _ List.mem_cons_self _ List.mem_cons_self h
      rw [htext a b heq]
    | node left' right' =>
      have heq := hclash _ List.mem_cons_self _ List.mem_cons_self h
      obtain ⟨x, -, hx⟩ := digest_eq H text left'
      obtain ⟨y, -, hy⟩ := digest_eq H text right'
      rw [hx, hy] at heq
      exact absurd heq (hleaf a x y)
  | node left right ihleft ihright =>
    cases t' with
    | leaf b =>
      have heq := hclash _ List.mem_cons_self _ List.mem_cons_self h
      obtain ⟨x, -, hx⟩ := digest_eq H text left
      obtain ⟨y, -, hy⟩ := digest_eq H text right
      rw [hx, hy] at heq
      exact absurd heq.symm (hleaf b x y)
    | node left' right' =>
      have heq := hclash _ List.mem_cons_self _ List.mem_cons_self h
      have hlength : ∀ t : HashTree α, (t.digest H text).length = width := by
        intro t
        obtain ⟨x, -, hx⟩ := digest_eq H text t
        rw [hx, hwidth]
      obtain ⟨hl, hr⟩ := List.append_inj heq (by rw [hlength, hlength])
      have hleft := ihleft (fun x hx y hy => hclash x
        (List.mem_cons_of_mem _ (List.mem_append_left _ hx)) y
        (List.mem_cons_of_mem _ (List.mem_append_left _ hy))) hl
      have hright := ihright (fun x hx y hy => hclash x
        (List.mem_cons_of_mem _ (List.mem_append_right _ hx)) y
        (List.mem_cons_of_mem _ (List.mem_append_right _ hy))) hr
      rw [hleft, hright]

end Digest

section Hash

variable (H : String → String) (text : α → String)

/-- The hash of a tree. -/
def hash : HashTree α → String
  | leaf a => H (text a)
  | node left right => H (left.hash ++ right.hash)

/-- The texts that are hashed for a tree. -/
def texts : HashTree α → List String
  | leaf a => [text a]
  | node left right => (left.hash H text ++ right.hash H text) :: (left.texts ++ right.texts)

/-- The hash of a tree is that of one of its texts. -/
theorem hash_eq (t : HashTree α) : ∃ x ∈ t.texts H text, t.hash H text = H x := by
  cases t with
  | leaf a => exact ⟨text a, List.mem_cons_self, rfl⟩
  | node left right => exact ⟨_, List.mem_cons_self, rfl⟩

/-- The texts as lists of characters. -/
theorem toList_hash (t : HashTree α) :
    (t.hash H text).toList =
        t.digest (fun x => (H (String.ofList x)).toList) (fun a => (text a).toList) ∧
      (t.texts H text).map String.toList =
        t.messages (fun x => (H (String.ofList x)).toList) (fun a => (text a).toList) := by
  induction t with
  | leaf a => simp [hash, texts, digest, messages]
  | node left right ihleft ihright =>
    obtain ⟨hleft, hleft'⟩ := ihleft
    obtain ⟨hright, hright'⟩ := ihright
    simp only [hash, texts, digest, messages, ← hleft, ← hright, ← hleft', ← hright',
      ← String.toList_append, String.ofList_toList, List.map_cons, List.map_append, and_self]

variable {H text}

/-- A hash determines its tree, where hashes have one length, leaves have texts of their own
that are not two hashes, and no two texts of the trees have one hash. -/
theorem hash_inj {width : ℕ} (hwidth : ∀ x, (H x).length = width)
    (htext : ∀ a b, text a = text b → a = b) (hleaf : ∀ a x y, text a ≠ H x ++ H y)
    {t t' : HashTree α}
    (hclash : ∀ x ∈ t.texts H text, ∀ y ∈ t'.texts H text, H x = H y → x = y)
    (h : t.hash H text = t'.hash H text) : t = t' := by
  have hlists := congrArg String.toList h
  rw [(toList_hash H text t).1, (toList_hash H text t').1] at hlists
  refine digest_inj (fun x => (String.length_toList).trans (hwidth _))
    (fun a b heq => htext a b (String.toList_inj.mp heq)) (fun a x y heq => ?_)
    (fun x hx y hy heq => ?_) hlists
  · rw [← String.toList_append, String.toList_inj] at heq
    exact hleaf a _ _ heq
  · rw [← (toList_hash H text t).2] at hx
    rw [← (toList_hash H text t').2] at hy
    obtain ⟨u, hu, rfl⟩ := List.mem_map.mp hx
    obtain ⟨v, hv, rfl⟩ := List.mem_map.mp hy
    rw [String.ofList_toList, String.ofList_toList, String.toList_inj] at heq
    rw [hclash u hu v hv heq]

end Hash

end HashTree
