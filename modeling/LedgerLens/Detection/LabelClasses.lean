import LedgerLens.Detection.ShardComponents
import LedgerLens.Library.Checks

/-!
# Classes of labels

Consecutive edges of a path lie in one shard, where they share a local label, or meet at a
boundary node, whose labels the coordinator joins. So two nodes are linked exactly when their
labels are in one class.
-/

namespace LedgerLens.Detection

open PartitionedResolver Relation

section

variable {c : PartitionConfig}

/-- Two labels share a boundary node. -/
def PartitionedResolver.Shares (r : PartitionedResolver c) (label label' : String) : Prop :=
  ∃ node ∈ r.boundary, r.IsLabel node label ∧ r.IsLabel node label'

/-- The coordinator joins the labels that share a boundary node. -/
structure PartitionedResolver.Reconciled (r : PartitionedResolver c)
    (coordinator : UnionFind String) : Prop where
  /-- It holds the labels of the boundary nodes. -/
  mem_nodes_iff : ∀ label, label ∈ coordinator.nodes ↔ ∃ node ∈ r.boundary, r.IsLabel node label
  /-- Its classes are what the boundary nodes join. -/
  root_eq_iff : ∀ label label', coordinator.root label = coordinator.root label' ↔
    EqvGen r.Shares label label'
  /-- Its groups are kept. -/
  groups_eq : r.groups = UniqueTable.collect [] (fun labels label => labels ++ [label])
    (coordinator.nodes.map fun label => (coordinator.root label, label))

/-- The resolver agrees with the edges that are present, as far as it is up to date. -/
structure PartitionedResolver.Consistent (r : PartitionedResolver c) (g : Finset Edge) :
    Prop where
  /-- The books agree. -/
  books : r.Books g
  /-- Shards that are not dirty have their local components. -/
  clean : ∀ idx, idx ∉ r.dirty → r.Clean idx
  /-- When there is a coordinator, no shard is dirty. -/
  reconciled : ∀ coordinator, r.coordinator = some coordinator →
    r.dirty = ∅ ∧ r.Reconciled coordinator

section Resolved

variable {r : PartitionedResolver c} {g : Finset Edge} {coordinator : UnionFind String}
  {x y label label' : String}

/-- A node has an edge exactly when it has a label. -/
theorem incident_iff_isLabel (hbooks : r.Books g) (hclean : ∀ idx, r.Clean idx) :
    Incident g x ↔ ∃ label, r.IsLabel x label := by
  constructor
  · rintro ⟨e, he, hx⟩
    have hdegree : degree c g x (c.shardOf e) ≠ 0 := degree_ne_zero_iff.mpr ⟨e, he, rfl, hx⟩
    obtain ⟨root, hroot⟩ := ((hclean _).exists_root_iff hbooks).mpr hdegree
    exact ⟨_, _, root, hroot, rfl⟩
  · rintro ⟨label, idx, root, hroot, -⟩
    obtain ⟨e, he, -, hx⟩ :=
      degree_ne_zero_iff.mp (((hclean idx).exists_root_iff hbooks).mp ⟨root, hroot⟩)
    exact ⟨e, he, hx⟩

/-- A node with a local root is noted in the shard. -/
theorem exists_countAt (hbooks : r.Books g) (hclean : ∀ idx, r.Clean idx) {idx : Fin c.numShards}
    {root : String} (hroot : (r.localRoots idx).find? x = some root) :
    ∃ shards count, r.nodeShards.find? x = some shards ∧ shards.find? idx = some count := by
  have hdegree := ((hclean idx).exists_root_iff hbooks).mp ⟨root, hroot⟩
  have hcount : r.countAt x idx ≠ none := by
    rw [hbooks.countAt_eq]
    exact fun h => hdegree (noted_eq_none_iff.mp h)
  unfold countAt at hcount
  cases hshards : r.nodeShards.find? x with
  | none =>
    rw [hshards] at hcount
    exact absurd rfl hcount
  | some shards =>
    rw [hshards] at hcount
    obtain ⟨count, hcount⟩ := Option.ne_none_iff_exists'.mp hcount
    exact ⟨shards, count, rfl, hcount⟩

/-- A shard that is noted for a node has a local root for it. -/
theorem exists_localRoot (hbooks : r.Books g) (hclean : ∀ idx, r.Clean idx)
    {shards : UniqueTable (Fin c.numShards) ℤ} {idx : Fin c.numShards} {count : ℤ}
    (hshards : r.nodeShards.find? x = some shards) (hcount : shards.find? idx = some count) :
    ∃ root, (r.localRoots idx).find? x = some root := by
  rw [(hclean idx).exists_root_iff hbooks]
  intro hdegree
  have hnone := hbooks.countAt_eq x idx
  rw [noted_eq_none_iff.mpr hdegree] at hnone
  unfold countAt at hnone
  rw [hshards] at hnone
  cases hcount.symm.trans hnone

/-- A node that is not on the boundary has at most one label. -/
theorem isLabel_unique (hbooks : r.Books g) (hclean : ∀ idx, r.Clean idx) (hx : x ∉ r.boundary)
    (hlabel : r.IsLabel x label) (hlabel' : r.IsLabel x label') : label = label' := by
  obtain ⟨idx, root, hroot, rfl⟩ := hlabel
  obtain ⟨idx', root', hroot', rfl⟩ := hlabel'
  by_cases hidx : idx = idx'
  · subst hidx
    rw [Option.some.inj (hroot.symm.trans hroot')]
  · obtain ⟨shards, count, hshards, hcount⟩ := exists_countAt hbooks hclean hroot
    obtain ⟨shards', count', hshards', hcount'⟩ := exists_countAt hbooks hclean hroot'
    obtain rfl := Option.some.inj (hshards.symm.trans hshards')
    have hlength := UniqueTable.one_lt_length hidx hcount hcount'
    exact absurd ((hbooks.tidy.mem_boundary_iff x).mpr ⟨shards, hshards, hlength⟩) hx

/-- All labels of a node are in one class. -/
theorem root_of_isLabel (hbooks : r.Books g) (hclean : ∀ idx, r.Clean idx)
    (hrec : r.Reconciled coordinator) (hlabel : r.IsLabel x label) (hlabel' : r.IsLabel x label') :
    coordinator.root label = coordinator.root label' := by
  by_cases hx : x ∈ r.boundary
  · exact (hrec.root_eq_iff label label').mpr (EqvGen.rel _ _ ⟨x, hx, hlabel, hlabel'⟩)
  · rw [isLabel_unique hbooks hclean hx hlabel hlabel']

/-- The node that a label names. -/
def namedRoot (label : String) : String :=
  ((splitLabel label).toOption.map Prod.snd).getD label

theorem linked_namedRoot (hbooks : r.Books g) (hclean : ∀ idx, r.Clean idx)
    (hlabel : r.IsLabel x label) : Linked g x (namedRoot label) := by
  obtain ⟨idx, root, hroot, rfl⟩ := hlabel
  have hnamed : namedRoot (labelOf idx root) = root := by
    unfold namedRoot
    rw [splitLabel_labelOf]
    rfl
  rw [hnamed]
  exact (hclean idx).linked_root hbooks hroot

/-- Along a path all labels are in one class. -/
theorem root_of_linked (hbooks : r.Books g) (hclean : ∀ idx, r.Clean idx)
    (hrec : r.Reconciled coordinator) (h : Linked g x y) :
    ((∃ label, r.IsLabel x label) ↔ ∃ label, r.IsLabel y label) ∧
      ∀ label label', r.IsLabel x label → r.IsLabel y label' →
        coordinator.root label = coordinator.root label' := by
  induction h with
  | rel u v huv =>
    obtain ⟨root, hu, hv⟩ := (hclean _).root_of_edge hbooks huv rfl
    have hlabel : r.IsLabel u (labelOf (c.shardOf (u, v)) root) := ⟨_, root, hu, rfl⟩
    have hlabel' : r.IsLabel v (labelOf (c.shardOf (u, v)) root) := ⟨_, root, hv, rfl⟩
    refine ⟨⟨fun _ => ⟨_, hlabel'⟩, fun _ => ⟨_, hlabel⟩⟩, fun l l' hl hl' => ?_⟩
    exact (root_of_isLabel hbooks hclean hrec hl hlabel).trans
      (root_of_isLabel hbooks hclean hrec hlabel' hl')
  | refl u => exact ⟨Iff.rfl, fun l l' hl hl' => root_of_isLabel hbooks hclean hrec hl hl'⟩
  | symm u v _ ih => exact ⟨ih.1.symm, fun l l' hl hl' => (ih.2 l' l hl' hl).symm⟩
  | trans u v w _ _ ihuv ihvw =>
    refine ⟨ihuv.1.trans ihvw.1, fun l l' hl hl' => ?_⟩
    obtain ⟨m, hm⟩ := ihuv.1.mp ⟨l, hl⟩
    exact (ihuv.2 l m hl hm).trans (ihvw.2 m l' hm hl')

/-- Nodes are linked exactly when their labels are in one class. -/
theorem root_eq_iff_linked (hbooks : r.Books g) (hclean : ∀ idx, r.Clean idx)
    (hrec : r.Reconciled coordinator) (hlabel : r.IsLabel x label) (hlabel' : r.IsLabel y label') :
    coordinator.root label = coordinator.root label' ↔ Linked g x y := by
  constructor
  · intro hroot
    have hnamed : Linked g (namedRoot label) (namedRoot label') := by
      refine eqvGen_map namedRoot (fun l l' hshares => ?_) ((hrec.root_eq_iff _ _).mp hroot)
      obtain ⟨node, -, hl, hl'⟩ := hshares
      exact EqvGen.trans _ _ _ (EqvGen.symm _ _ (linked_namedRoot hbooks hclean hl))
        (linked_namedRoot hbooks hclean hl')
    exact EqvGen.trans _ _ _ (linked_namedRoot hbooks hclean hlabel)
      (EqvGen.trans _ _ _ hnamed (EqvGen.symm _ _ (linked_namedRoot hbooks hclean hlabel')))
  · exact fun h => (root_of_linked hbooks hclean hrec h).2 label label' hlabel hlabel'

/-- The nodes that are not noted are those without edges. -/
theorem find?_nodeShards_eq_none_iff (hbooks : r.Books g) (hclean : ∀ idx, r.Clean idx) :
    r.nodeShards.find? x = none ↔ ¬Incident g x := by
  rw [incident_iff_isLabel hbooks hclean]
  constructor
  · rintro hnone ⟨label, idx, root, hroot, -⟩
    obtain ⟨shards, count, hsome, -⟩ := exists_countAt hbooks hclean hroot
    cases hnone.symm.trans hsome
  · intro hnone
    by_contra hsome
    obtain ⟨shards, hshards⟩ := Option.ne_none_iff_exists'.mp hsome
    obtain ⟨idx, count, -, hcount⟩ :=
      UniqueTable.exists_first? (hbooks.tidy.nonempty x shards hshards)
    obtain ⟨root, hroot⟩ := exists_localRoot hbooks hclean hshards hcount
    exact hnone ⟨_, idx, root, hroot, rfl⟩

/-- The label of a node in its first shard is one of its labels; a node without edges has
none. -/
theorem label_spec (hbooks : r.Books g) (hclean : ∀ idx, r.Clean idx) (x : String) :
    (∃ label, r.label x = .ok (some label) ∧ r.IsLabel x label) ∨
      r.label x = .ok none ∧ ¬Incident g x := by
  unfold PartitionedResolver.label
  cases hshards : r.nodeShards.find? x with
  | none => exact Or.inr ⟨rfl, (find?_nodeShards_eq_none_iff hbooks hclean).mp hshards⟩
  | some shards =>
    obtain ⟨idx, count, hfirst, hcount⟩ :=
      UniqueTable.exists_first? (hbooks.tidy.nonempty x shards hshards)
    obtain ⟨root, hroot⟩ := exists_localRoot hbooks hclean hshards hcount
    refine Or.inl ⟨labelOf idx root, ?_, idx, root, hroot, rfl⟩
    rw [Option.bind_some, hfirst]
    dsimp only
    rw [getItem_eq_ok_iff.mpr hroot]
    rfl

/-- The labels of a boundary node. -/
theorem labels_spec (hbooks : r.Books g) (hclean : ∀ idx, r.Clean idx) (hx : x ∈ r.boundary) :
    ∃ labels, r.labels x = .ok labels ∧ labels ≠ [] ∧
      ∀ label, label ∈ labels ↔ r.IsLabel x label := by
  obtain ⟨shards, hshards, hlength⟩ := (hbooks.tidy.mem_boundary_iff x).mp hx
  have hrow (row : Fin c.numShards × ℤ) (hrow : row ∈ shards.rows) :
      ∃ root, (r.localRoots row.1).find? x = some root :=
    exists_localRoot hbooks hclean hshards ((shards.find?_eq_some_iff row.1 row.2).mpr hrow)
  refine ⟨shards.rows.map fun row =>
    labelOf row.1 (((r.localRoots row.1).find? x).getD ""), ?_, ?_, fun label => ?_⟩
  · unfold PartitionedResolver.labels
    rw [getItem_eq_ok_iff.mpr hshards]
    refine Except.mapM_eq_ok fun row hmem => ?_
    obtain ⟨root, hroot⟩ := hrow row hmem
    rw [getItem_eq_ok_iff.mpr hroot, hroot]
    rfl
  · intro hempty
    rw [List.map_eq_nil_iff.mp hempty] at hlength
    cases hlength
  · rw [List.mem_map]
    constructor
    · rintro ⟨row, hmem, rfl⟩
      obtain ⟨root, hroot⟩ := hrow row hmem
      exact ⟨row.1, root, hroot, by rw [hroot]; rfl⟩
    · rintro ⟨idx, root, hroot, rfl⟩
      obtain ⟨shards', count, hshards', hcount⟩ := exists_countAt hbooks hclean hroot
      obtain rfl := Option.some.inj (hshards.symm.trans hshards')
      exact ⟨(idx, count), (shards.find?_eq_some_iff idx count).mp hcount, by rw [hroot]; rfl⟩

/-- The members of the local component that a label names are the nodes that have the label. -/
theorem labelMembers_spec (hclean : ∀ idx, r.Clean idx) (hlabel : r.IsLabel x label) :
    ∃ nodes, r.labelMembers label = .ok nodes ∧ ∀ y, y ∈ nodes ↔ r.IsLabel y label := by
  obtain ⟨idx, root, hroot, rfl⟩ := hlabel
  obtain ⟨nodes, hnodes, hmem⟩ := (hclean idx).members hroot
  refine ⟨nodes, ?_, fun y => ?_⟩
  · have hfound : r.labelMembers (labelOf idx root) = getItem (r.members idx) root := by
      unfold labelMembers
      rw [splitLabel_labelOf]
      exact dif_pos idx.isLt
    rw [hfound, getItem_eq_ok_iff]
    exact hnodes
  · rw [hmem]
    constructor
    · exact fun hy => ⟨idx, root, hy, rfl⟩
    · rintro ⟨idx', root', hy, heq⟩
      obtain ⟨rfl, rfl⟩ := labelOf_inj.mp heq
      exact hy

/-- The members of several labels. -/
theorem allMembers_spec (hclean : ∀ idx, r.Clean idx) {labels : List String}
    (hlabels : ∀ label ∈ labels, ∃ x, r.IsLabel x label) :
    ∃ nodes, r.allMembers labels = .ok nodes ∧
      ∀ y, y ∈ nodes ↔ ∃ label ∈ labels, r.IsLabel y label := by
  have hfold (labels : List String) (hlabels : ∀ label ∈ labels, ∃ x, r.IsLabel x label)
      (members : Finset String) : ∃ nodes, labels.foldlM (fun members label => do
        return members ∪ (← r.labelMembers label).toFinset) members =
          (.ok nodes : Except PartitionError _) ∧
        ∀ y, y ∈ nodes ↔ y ∈ members ∨ ∃ label ∈ labels, r.IsLabel y label := by
    induction labels generalizing members with
    | nil => exact ⟨members, rfl, by simp⟩
    | cons label labels ih =>
      obtain ⟨x, hx⟩ := hlabels label List.mem_cons_self
      obtain ⟨here, hhere, hmem⟩ := labelMembers_spec hclean hx
      obtain ⟨nodes, hnodes, hall⟩ :=
        ih (fun l hl => hlabels l (List.mem_cons_of_mem _ hl)) (members ∪ here.toFinset)
      refine ⟨nodes, ?_, fun y => ?_⟩
      · rw [List.foldlM_cons, hhere]
        exact hnodes
      · rw [hall, Finset.mem_union, List.mem_toFinset, hmem, List.exists_mem_cons_iff, or_assoc]
  obtain ⟨nodes, hnodes, hmem⟩ := hfold labels hlabels ∅
  exact ⟨nodes, hnodes, by simpa using hmem⟩

/-- The group of a label has the labels of its class. -/
theorem group_spec (hrec : r.Reconciled coordinator) (hlabel : r.IsLabel x label) :
    (∀ l ∈ (r.groups.find? (coordinator.root label)).getD [coordinator.root label],
        ∃ y, r.IsLabel y l) ∧
      ∀ l, l ∈ (r.groups.find? (coordinator.root label)).getD [coordinator.root label] ↔
        coordinator.root l = coordinator.root label := by
  have hitem (root l : String) :
      (root, l) ∈ coordinator.nodes.map (fun label => (coordinator.root label, label)) ↔
        l ∈ coordinator.nodes ∧ coordinator.root l = root := by
    simp
  by_cases hmem : label ∈ coordinator.nodes
  · obtain ⟨labels, hlabels, hall⟩ :=
      UniqueTable.find?_collect_append ((hitem _ label).mpr ⟨hmem, rfl⟩)
    have hgroup : (r.groups.find? (coordinator.root label)).getD [coordinator.root label] =
        labels := by
      rw [hrec.groups_eq, hlabels]
      rfl
    rw [hgroup]
    refine ⟨fun l hl => ?_, fun l => ?_⟩
    · obtain ⟨node, -, hnode⟩ := (hrec.mem_nodes_iff l).mp ((hitem _ l).mp ((hall l).mp hl)).1
      exact ⟨node, hnode⟩
    · rw [hall, hitem, and_iff_right_iff_imp]
      intro hroot
      by_contra hl
      rw [UnionFind.root_of_not_mem hl] at hroot
      exact hl (hroot ▸ UnionFind.root_mem hmem)
  · have hroot : coordinator.root label = label := UnionFind.root_of_not_mem hmem
    have hnone : r.groups.find? (coordinator.root label) = none := by
      rw [hrec.groups_eq]
      refine UniqueTable.find?_collect_eq_none fun l hl => ?_
      obtain ⟨hnode, heq⟩ := (hitem _ l).mp hl
      rw [hroot] at heq
      exact hmem (heq ▸ UnionFind.root_mem hnode)
    rw [hnone, hroot]
    refine ⟨fun l hl => ⟨x, ?_⟩, fun l => ?_⟩
    · rwa [List.mem_singleton.mp hl]
    · rw [Option.getD_none, List.mem_singleton]
      constructor
      · rintro rfl
        exact hroot
      · intro heq
        by_cases hl : l ∈ coordinator.nodes
        · exact absurd (heq ▸ UnionFind.root_mem hl) hmem
        · rwa [UnionFind.root_of_not_mem hl] at heq

end Resolved

end

end LedgerLens.Detection
