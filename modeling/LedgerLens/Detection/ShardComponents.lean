import LedgerLens.Detection.ShardBookkeeping

/-!
# Components of one shard

What a clean shard knows about its nodes, the labels that name its local components, and the
groups that a loop over a mapping makes.
-/

namespace LedgerLens.Detection

open PartitionedResolver Relation

section Labels

variable {n : ℕ}

/-- A label is split into what it was made of. -/
theorem splitLabel_labelOf (idx : Fin n) (root : String) :
    splitLabel (labelOf idx root) = .ok (idx.val, root) := by
  have hlist : (labelOf idx root).toList = Nat.toDigits 10 idx.val ++ ':' :: root.toList := by
    unfold labelOf
    rw [String.toList_append, String.toList_append, Nat.toList_repr]
    simp
  have hdigit {ch : Char} (hch : ch ∈ Nat.toDigits 10 idx.val) : ch.isDigit :=
    Nat.isDigit_of_mem_toDigits (by omega) (by omega) hch
  have hcolon {ch : Char} (hch : ch ∈ Nat.toDigits 10 idx.val) : decide (ch ≠ ':') = true := by
    rw [decide_eq_true_eq]
    rintro rfl
    exact absurd (hdigit hch) (by decide)
  have htake : (labelOf idx root).toList.takeWhile (fun ch => ch ≠ ':') =
      Nat.toDigits 10 idx.val := by
    rw [hlist, List.takeWhile_append_of_pos fun ch => hcolon]
    simp
  have hdrop : (labelOf idx root).toList.dropWhile (fun ch => ch ≠ ':') = ':' :: root.toList := by
    rw [hlist, List.dropWhile_append_of_pos fun ch => hcolon]
    simp
  have hne : Nat.toDigits 10 idx.val ≠ [] := Nat.toDigits_ne_nil
  have hall : (Nat.toDigits 10 idx.val).all Char.isDigit := List.all_eq_true.mpr fun ch => hdigit
  unfold splitLabel
  rw [htake, hdrop]
  dsimp only
  rw [if_pos ⟨hne, hall⟩, Nat.ofDigitChars_ten_toDigits, String.ofList_toList]

/-- Labels of different local components differ. -/
theorem labelOf_inj {idx idx' : Fin n} {root root' : String} :
    labelOf idx root = labelOf idx' root' ↔ idx = idx' ∧ root = root' := by
  constructor
  · intro h
    have hsplit := splitLabel_labelOf idx root
    rw [h, splitLabel_labelOf idx' root'] at hsplit
    obtain ⟨hidx, hroot⟩ := Prod.mk.inj (Except.ok.inj hsplit)
    exact ⟨Fin.ext hidx.symm, hroot.symm⟩
  · rintro ⟨rfl, rfl⟩
    rfl

end Labels

section Groups

/-- The components of a mapping are the classes of nodes with one representative. -/
theorem mem_canonicalComponents {Root : Type} [DecidableEq Root]
    {assignment : UniqueTable String Root} {component : Finset String} :
    component ∈ canonicalComponents assignment ↔
      ∃ x root, assignment.find? x = some root ∧
        ∀ y, y ∈ component ↔ assignment.find? y = some root := by
  have hinsert (nodes : List String) (group : Finset String) (y : String) :
      y ∈ nodes.foldl (fun group node => insert node group) group ↔ y ∈ nodes ∨ y ∈ group := by
    induction nodes generalizing group with
    | nil => simp
    | cons node nodes ih =>
      rw [List.foldl_cons, ih, Finset.mem_insert, List.mem_cons]
      tauto
  have hgroup (root : Root) (y : String) :
      y ∈ (((assignment.rows.map Prod.swap).filter fun item => item.1 = root).map
        Prod.snd).foldl (fun group node => insert node group) (∅ : Finset String) ↔
        assignment.find? y = some root := by
    rw [hinsert, UniqueTable.find?_eq_some_iff]
    simp
  have hkey (root : Root) : root ∈ (assignment.rows.map Prod.swap).map Prod.fst ↔
      ∃ x, assignment.find? x = some root := by
    simp [UniqueTable.find?_eq_some_iff]
  have hcomponent : component ∈ canonicalComponents assignment ↔
      ∃ root, (UniqueTable.collect ∅ (fun group node => insert node group)
        (assignment.rows.map Prod.swap)).find? root = some component := by
    simp [canonicalComponents, UniqueTable.find?_eq_some_iff]
  rw [hcomponent]
  simp only [UniqueTable.find?_collect, hkey, Option.ite_none_right_eq_some, Option.some.injEq]
  constructor
  · rintro ⟨root, ⟨x, hx⟩, rfl⟩
    exact ⟨x, root, hx, hgroup root⟩
  · rintro ⟨x, root, hx, hmem⟩
    refine ⟨root, ⟨x, hx⟩, Finset.ext fun y => ?_⟩
    rw [hgroup, hmem]

/-- Two mappings of the same nodes that agree on which nodes belong together have the same
components. -/
theorem canonicalComponents_congr {Root Root' : Type} [DecidableEq Root] [DecidableEq Root']
    {first : UniqueTable String Root} {second : UniqueTable String Root'}
    (hkeys : ∀ x, (∃ root, first.find? x = some root) ↔ ∃ root, second.find? x = some root)
    (hsame : ∀ x y root root' other other', first.find? x = some root →
      first.find? y = some root' → second.find? x = some other →
      second.find? y = some other' → (root = root' ↔ other = other')) :
    canonicalComponents first = canonicalComponents second := by
  have hclass {x : String} {root : Root} {other : Root'} (hx : first.find? x = some root)
      (hother : second.find? x = some other) (y : String) :
      first.find? y = some root ↔ second.find? y = some other := by
    constructor
    · intro hy
      obtain ⟨other', hother'⟩ := (hkeys y).mp ⟨root, hy⟩
      rw [hother', (hsame x y root root other other' hx hy hother hother').mp rfl]
    · intro hy
      obtain ⟨root', hroot'⟩ := (hkeys y).mpr ⟨other, hy⟩
      rw [hroot', (hsame x y root root' other other hx hroot' hother hy).mpr rfl]
  ext component
  rw [mem_canonicalComponents, mem_canonicalComponents]
  constructor
  · rintro ⟨x, root, hx, hmem⟩
    obtain ⟨other, hother⟩ := (hkeys x).mp ⟨root, hx⟩
    exact ⟨x, other, hother, fun y => (hmem y).trans (hclass hx hother y)⟩
  · rintro ⟨x, other, hother, hmem⟩
    obtain ⟨root, hx⟩ := (hkeys x).mpr ⟨other, hother⟩
    exact ⟨x, root, hx, fun y => (hmem y).trans (hclass hx hother y).symm⟩

end Groups

theorem getItem_eq_ok_iff {Key Row : Type} [DecidableEq Key] {t : UniqueTable Key Row} {k : Key}
    {row : Row} : getItem t k = .ok row ↔ t.find? k = some row := by
  unfold getItem
  cases t.find? k with
  | none => simp
  | some row' => simp

/-- The local root of a node is the root of its class. -/
theorem find?_resolveWholeGraph {edges : List Edge} {x root : String} :
    (resolveWholeGraph edges).find? x = some root ↔
      (∃ e ∈ edges, x = e.1 ∨ x = e.2) ∧ (UnionFind.unions edges).root x = root := by
  have hrows : (resolveWholeGraph edges).rows =
      (UnionFind.unions edges).nodes.map fun x => (x, (UnionFind.unions edges).root x) :=
    ((UnionFind.unions edges).findAll_spec _).1
  rw [UniqueTable.find?_eq_some_iff, hrows, List.mem_map, ← UnionFind.mem_nodes_unions]
  constructor
  · rintro ⟨x', hx', hpair⟩
    obtain ⟨rfl, rfl⟩ := Prod.mk.inj hpair
    exact ⟨hx', rfl⟩
  · rintro ⟨hx, rfl⟩
    exact ⟨x, hx, rfl⟩

section

variable {c : PartitionConfig}

/-- A text is a label of a node: it names a local component with it. -/
def PartitionedResolver.IsLabel (r : PartitionedResolver c) (node label : String) : Prop :=
  ∃ idx root, (r.localRoots idx).find? node = some root ∧ label = labelOf idx root

/-- The local components of a shard are those of its edges. -/
def PartitionedResolver.Clean (r : PartitionedResolver c) (idx : Fin c.numShards) : Prop :=
  (∃ edges : List Edge, (∀ e, e ∈ edges ↔ e ∈ r.shardEdges idx) ∧
    r.localRoots idx = resolveWholeGraph edges) ∧
  r.members idx = UniqueTable.collect [] (fun nodes node => nodes ++ [node])
    ((r.localRoots idx).rows.map Prod.swap)

section Clean

variable {r : PartitionedResolver c} {g : Finset Edge} {idx : Fin c.numShards} {x y root : String}

/-- A node has a local root exactly where it has an edge. -/
theorem PartitionedResolver.Clean.exists_root_iff (h : r.Clean idx) (hbooks : r.Books g) :
    (∃ root, (r.localRoots idx).find? x = some root) ↔ degree c g x idx ≠ 0 := by
  obtain ⟨⟨edges, hedges, hroots⟩, -⟩ := h
  rw [hroots, degree_ne_zero_iff]
  simp only [find?_resolveWholeGraph, hedges, hbooks.shardEdges_eq, Finset.mem_filter]
  constructor
  · rintro ⟨root, ⟨e, ⟨he, hidx⟩, hx⟩, -⟩
    exact ⟨e, he, hidx, hx⟩
  · rintro ⟨e, he, hidx, hx⟩
    exact ⟨_, ⟨e, ⟨he, hidx⟩, hx⟩, rfl⟩

/-- A path leads from a node to its local root. -/
theorem PartitionedResolver.Clean.linked_root (h : r.Clean idx) (hbooks : r.Books g)
    (hx : (r.localRoots idx).find? x = some root) : Linked g x root := by
  obtain ⟨⟨edges, hedges, hroots⟩, -⟩ := h
  rw [hroots, find?_resolveWholeGraph] at hx
  have hclass : EqvGen (fun u v => (u, v) ∈ edges) x root := by
    rw [← UnionFind.root_unions_eq_iff, ← hx.2, UnionFind.root_root]
  refine eqvGen_le (fun u v huv => EqvGen.rel _ _ ?_) hclass
  rw [hedges, hbooks.shardEdges_eq] at huv
  exact (Finset.mem_filter.mp huv).1

/-- The ends of an edge have one local root in its shard. -/
theorem PartitionedResolver.Clean.root_of_edge (h : r.Clean idx) (hbooks : r.Books g)
    (hedge : (x, y) ∈ g) (hidx : c.shardOf (x, y) = idx) :
    ∃ root, (r.localRoots idx).find? x = some root ∧ (r.localRoots idx).find? y = some root := by
  obtain ⟨⟨edges, hedges, hroots⟩, -⟩ := h
  have hmem : (x, y) ∈ edges := by
    rw [hedges, hbooks.shardEdges_eq]
    exact Finset.mem_filter.mpr ⟨hedge, hidx⟩
  have hsame : (UnionFind.unions edges).root x = (UnionFind.unions edges).root y :=
    UnionFind.root_unions_eq_iff.mpr (EqvGen.rel _ _ hmem)
  refine ⟨(UnionFind.unions edges).root x, ?_, ?_⟩
  · rw [hroots, find?_resolveWholeGraph]
    exact ⟨⟨(x, y), hmem, Or.inl rfl⟩, rfl⟩
  · rw [hroots, find?_resolveWholeGraph]
    exact ⟨⟨(x, y), hmem, Or.inr rfl⟩, hsame.symm⟩

/-- The members of a local root are the nodes that have it. -/
theorem PartitionedResolver.Clean.members (h : r.Clean idx)
    (hx : (r.localRoots idx).find? x = some root) :
    ∃ nodes, (r.members idx).find? root = some nodes ∧
      ∀ y, y ∈ nodes ↔ (r.localRoots idx).find? y = some root := by
  have hitem (y : String) : (root, y) ∈ (r.localRoots idx).rows.map Prod.swap ↔
      (r.localRoots idx).find? y = some root := by
    simp [UniqueTable.find?_eq_some_iff]
  obtain ⟨nodes, hnodes, hmem⟩ := UniqueTable.find?_collect_append ((hitem x).mpr hx)
  exact ⟨nodes, by rw [h.2, hnodes], fun y => (hmem y).trans (hitem y)⟩

end Clean

end

end LedgerLens.Detection
