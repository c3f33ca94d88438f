import LedgerLens.Detection.LabelClasses

/-!
# Partitioned components are whole-graph components

A resolution cleans the dirty shards and joins the labels of the boundary nodes. So after every
history of additions, removals and resolutions the classes of the resolver are the components
of the edges that are present.
-/

namespace LedgerLens.Detection

open PartitionedResolver Relation

section

variable {c : PartitionConfig}

section Resolve

variable {r : PartitionedResolver c} {g : Finset Edge} {coordinator : UnionFind String}

/-- Unioning the labels of the boundary nodes succeeds and joins them. -/
theorem reconcile_spec (hbooks : r.Books g) (hclean : ∀ idx, r.Clean idx) (order : SetOrder) :
    ∃ coordinator, r.reconcile order = .ok coordinator ∧
      (∀ label, label ∈ coordinator.nodes ↔ ∃ node ∈ r.boundary, r.IsLabel node label) ∧
      ∀ label label', coordinator.root label = coordinator.root label' ↔
        EqvGen r.Shares label label' := by
  have hlabels (node : String) (hnode : node ∈ order.nodes r.boundary) :
      r.labels node = .ok ((r.labels node).toOption.getD []) ∧
        (r.labels node).toOption.getD [] ≠ [] ∧
        ∀ label, label ∈ (r.labels node).toOption.getD [] ↔ r.IsLabel node label := by
    obtain ⟨labels, hlabels, hne, hmem⟩ :=
      labels_spec hbooks hclean ((order.mem_nodes _ _).mp hnode)
    rw [hlabels]
    exact ⟨rfl, hne, hmem⟩
  generalize hlabelsOf : (fun node => (r.labels node).toOption.getD []) = labelsOf
  have hspec (node : String) (hnode : node ∈ order.nodes r.boundary) :
      r.labels node = .ok (labelsOf node) ∧ labelsOf node ≠ [] ∧
        ∀ label, label ∈ labelsOf node ↔ r.IsLabel node label := by
    rw [← hlabelsOf]
    exact hlabels node hnode
  refine ⟨(order.nodes r.boundary).foldl (fun uf node => uf.unionAll (labelsOf node))
    UnionFind.empty, ?_, fun label => ?_, fun label label' => ?_⟩
  · unfold reconcile
    refine Except.foldlM_eq_ok (fun coordinator node hnode => ?_) UnionFind.empty
    obtain ⟨hok, hne, -⟩ := hspec node hnode
    obtain ⟨first, rest, hcons⟩ := List.exists_cons_of_ne_nil hne
    rw [hok, hcons]
    rfl
  · rw [UnionFind.mem_nodes_foldl_unionAll, or_iff_right (by simp [UnionFind.empty])]
    constructor
    · rintro ⟨node, hnode, hlabel⟩
      exact ⟨node, (order.mem_nodes _ _).mp hnode, ((hspec node hnode).2.2 label).mp hlabel⟩
    · rintro ⟨node, hboundary, hlabel⟩
      have hnode := (order.mem_nodes _ _).mpr hboundary
      exact ⟨node, hnode, ((hspec node hnode).2.2 label).mpr hlabel⟩
  · rw [UnionFind.root_foldl_unionAll_eq_iff]
    constructor
    · refine eqvGen_le fun l l' hshare => EqvGen.rel _ _ ?_
      obtain ⟨node, hnode, hl, hl'⟩ := hshare
      have hmem := (hspec node hnode).2.2
      exact ⟨node, (order.mem_nodes _ _).mp hnode, (hmem l).mp hl, (hmem l').mp hl'⟩
    · refine eqvGen_le fun l l' hshare => EqvGen.rel _ _ ?_
      obtain ⟨node, hboundary, hl, hl'⟩ := hshare
      have hnode := (order.mem_nodes _ _).mpr hboundary
      have hmem := (hspec node hnode).2.2
      exact ⟨node, hnode, (hmem l).mpr hl, (hmem l').mpr hl'⟩

/-- The books do not depend on the local components. -/
theorem PartitionedResolver.Books.recomputeShard (h : r.Books g) (order : SetOrder)
    (idx : Fin c.numShards) : (recomputeShard order r idx).Books g :=
  h.congr rfl rfl rfl

/-- Recomputing one shard cleans it and leaves the others. -/
theorem clean_recomputeShard (order : SetOrder) {idx idx' : Fin c.numShards}
    (h : idx' = idx ∨ r.Clean idx') : (recomputeShard order r idx).Clean idx' := by
  by_cases hidx : idx' = idx
  · subst hidx
    refine ⟨⟨order.edges (r.shardEdges idx'), order.mem_edges _, ?_⟩, ?_⟩
    · exact Function.update_self ..
    · simp [recomputeShard, resolveShard]
  · obtain ⟨⟨edges, hedges, hroots⟩, hmembers⟩ := h.resolve_left hidx
    have hsame : (recomputeShard order r idx).localRoots idx' = r.localRoots idx' :=
      Function.update_of_ne hidx ..
    refine ⟨⟨edges, hedges, hsame.trans hroots⟩, ?_⟩
    rw [hsame, ← hmembers]
    exact Function.update_of_ne hidx ..

/-- After recomputing some shards these are clean, and the others as they were. -/
theorem clean_foldl_recomputeShard (order : SetOrder) (idxs : List (Fin c.numShards))
    (r : PartitionedResolver c) (hbooks : r.Books g) :
    (idxs.foldl (recomputeShard order) r).Books g ∧
      ∀ idx, (idx ∈ idxs ∨ r.Clean idx) → (idxs.foldl (recomputeShard order) r).Clean idx := by
  induction idxs generalizing r with
  | nil => exact ⟨hbooks, fun idx h => by simpa using h⟩
  | cons first idxs ih =>
    obtain ⟨hkeeps, hcleans⟩ :=
      ih (recomputeShard order r first) (hbooks.recomputeShard order first)
    refine ⟨hkeeps, fun idx h => hcleans idx ?_⟩
    rw [List.mem_cons, or_comm, ← or_assoc, or_comm] at h
    refine h.imp id fun h => clean_recomputeShard order h.symm

/-- After the dirty shards are recomputed all are clean. -/
theorem recompute_spec (h : r.Consistent g) (order : SetOrder) :
    (recompute order r).Books g ∧ ∀ idx, (recompute order r).Clean idx := by
  obtain ⟨hbooks, hclean⟩ := clean_foldl_recomputeShard order r.dirty.sort r h.books
  refine ⟨hbooks.congr rfl rfl rfl, fun idx => ?_⟩
  refine hclean idx ?_
  by_cases hidx : idx ∈ r.dirty
  · exact Or.inl ((Finset.mem_sort _).mpr hidx)
  · exact Or.inr (h.clean idx hidx)

/-- A resolver that has just been resolved. -/
structure PartitionedResolver.Resolved (r : PartitionedResolver c) (g : Finset Edge)
    (coordinator : UnionFind String) : Prop where
  /-- The books agree. -/
  books : r.Books g
  /-- All shards have their local components. -/
  clean : ∀ idx, r.Clean idx
  /-- No shard is dirty. -/
  dirty_eq : r.dirty = ∅
  /-- There is a coordinator. -/
  coordinator_eq : r.coordinator = some coordinator
  /-- It joins the labels of the boundary nodes. -/
  reconciled : r.Reconciled coordinator

theorem PartitionedResolver.Resolved.consistent (h : r.Resolved g coordinator) :
    r.Consistent g where
  books := h.books
  clean idx _ := h.clean idx
  reconciled coordinator' hcoordinator := by
    rw [h.coordinator_eq] at hcoordinator
    obtain rfl := Option.some.inj hcoordinator
    exact ⟨h.dirty_eq, h.reconciled⟩

/-- The coordinator that is there can be put there. -/
theorem PartitionedResolver.Resolved.withCoordinator (h : r.Resolved g coordinator) :
    ({ r with coordinator := some coordinator } : PartitionedResolver c) = r := by
  rw [← h.coordinator_eq]

/-- A coordinator with the same nodes and roots does as well. -/
theorem PartitionedResolver.Resolved.congr (h : r.Resolved g coordinator)
    {coordinator' : UnionFind String} (hnodes : coordinator'.nodes = coordinator.nodes)
    (hroots : ∀ l, coordinator'.root l = coordinator.root l) :
    ({ r with coordinator := some coordinator' } : PartitionedResolver c).Resolved g
      coordinator' where
  books := h.books.congr rfl rfl rfl
  clean := h.clean
  dirty_eq := h.dirty_eq
  coordinator_eq := rfl
  reconciled := {
    mem_nodes_iff := by
      intro label
      rw [hnodes]
      exact h.reconciled.mem_nodes_iff label
    root_eq_iff := by
      intro label label'
      rw [hroots, hroots]
      exact h.reconciled.root_eq_iff label label'
    groups_eq := by
      simp only [hnodes, hroots]
      exact h.reconciled.groups_eq }

/-- Installing the coordinator of the boundary nodes resolves. -/
theorem install_resolved (hbooks : r.Books g) (hclean : ∀ idx, r.Clean idx) (hdirty : r.dirty = ∅)
    (hnodes : ∀ label, label ∈ coordinator.nodes ↔ ∃ node ∈ r.boundary, r.IsLabel node label)
    (hroots : ∀ label label', coordinator.root label = coordinator.root label' ↔
      EqvGen r.Shares label label') :
    ∃ coordinator', (r.install coordinator).Resolved g coordinator' := by
  obtain ⟨hfound, hsame, hkeeps⟩ := coordinator.findAll_spec coordinator.nodes
  refine ⟨(coordinator.findAll coordinator.nodes).1, ?_⟩
  exact {
    books := hbooks.congr rfl rfl rfl
    clean := hclean
    dirty_eq := hdirty
    coordinator_eq := rfl
    reconciled := {
      mem_nodes_iff := by
        intro label
        rw [hsame]
        exact hnodes label
      root_eq_iff := by
        intro label label'
        rw [hkeeps, hkeeps]
        exact hroots label label'
      groups_eq := by
        simp [install, hfound, hsame, hkeeps, Function.comp_def] } }

/-- A resolution succeeds, and resolves. -/
theorem resolve_spec (h : r.Consistent g) (order : SetOrder) :
    ∃ r' coordinator, Raising.exec (resolve order) r = (.ok (), r') ∧
      r'.Resolved g coordinator := by
  have hexec : Raising.exec (resolve order) r =
      Raising.exec (if r.coordinator.isSome then pure () else do
        modify (recompute order)
        let r ← get
        let coordinator ← Raising.ofExcept (r.reconcile order)
        modify fun r => r.install coordinator) r := Raising.exec_bind_of_ok (Raising.exec_get r)
  cases hcoordinator : r.coordinator with
  | some coordinator =>
    obtain ⟨hdirty, hrec⟩ := h.reconciled coordinator hcoordinator
    refine ⟨r, coordinator, ?_, h.books, fun idx => h.clean idx ?_, hdirty, hcoordinator, hrec⟩
    · rw [hexec, hcoordinator]
      rfl
    · rw [hdirty]
      exact Finset.notMem_empty idx
  | none =>
    obtain ⟨hbooks, hclean⟩ := recompute_spec h order
    obtain ⟨coordinator, hok, hnodes, hroots⟩ := reconcile_spec hbooks hclean order
    obtain ⟨coordinator', hresolved⟩ := install_resolved hbooks hclean rfl hnodes hroots
    have hreconcile : Raising.exec (Raising.ofExcept ((recompute order r).reconcile order))
        (recompute order r) = (.ok coordinator, recompute order r) := by
      rw [Raising.exec_ofExcept, hok]
    refine ⟨_, coordinator', ?_, hresolved⟩
    rw [hexec, hcoordinator, if_neg (by simp), Raising.exec_bind_of_ok (Raising.exec_modify _ r),
      Raising.exec_bind_of_ok (Raising.exec_get _), Raising.exec_bind_of_ok hreconcile]
    rfl

/-- The identifier of a node's cluster: the root of its label. -/
def PartitionedResolver.clusterOf (r : PartitionedResolver c) (coordinator : UnionFind String)
    (x : String) : Option String :=
  ((r.label x).toOption.getD none).map coordinator.root

/-- A second resolution does nothing. -/
theorem resolve_of_resolved (h : r.Resolved g coordinator) (order : SetOrder) :
    Raising.exec (resolve order) r = (.ok (), r) := by
  unfold resolve
  rw [Raising.exec_bind_of_ok (Raising.exec_get r), h.coordinator_eq]
  rfl

/-- On a resolved resolver the identifier of a cluster is found, and only paths of the
coordinator are halved. -/
theorem componentId_of_resolved (h : r.Resolved g coordinator) (order : SetOrder) (x : String) :
    ∃ coordinator', Raising.exec (componentId order x) r =
        (.ok (r.clusterOf coordinator x), { r with coordinator := some coordinator' }) ∧
      coordinator'.nodes = coordinator.nodes ∧
      ∀ l, coordinator'.root l = coordinator.root l := by
  have hread {label : Option String} (hlabel : r.label x = .ok label) :
      Raising.exec (Raising.ofExcept (r.label x)) r = (.ok label, r) := by
    rw [Raising.exec_ofExcept, hlabel]
  unfold componentId clusterOf
  rw [Raising.exec_bind_of_ok (resolve_of_resolved h order),
    Raising.exec_bind_of_ok (Raising.exec_get r)]
  rcases label_spec h.books h.clean x with ⟨label, hlabel, -⟩ | ⟨hlabel, -⟩
  · rw [Raising.exec_bind_of_ok (hread hlabel), hlabel]
    by_cases hmem : label ∈ coordinator.nodes
    · refine ⟨(coordinator.find label).1, ?_, UnionFind.nodes_find, fun l => UnionFind.root_find⟩
      have hroot : Raising.exec (rootOfLabel label) r = (.ok (coordinator.root label),
          { r with coordinator := some (coordinator.find label).1 }) := by
        unfold rootOfLabel
        rw [Raising.exec_bind_of_ok (Raising.exec_get r), h.coordinator_eq]
        dsimp only
        rw [if_pos hmem]
        rfl
      dsimp only
      rw [Raising.exec_bind_of_ok hroot]
      rfl
    · refine ⟨coordinator, ?_, rfl, fun l => rfl⟩
      have hroot : Raising.exec (rootOfLabel label) r = (.ok (coordinator.root label), r) := by
        unfold rootOfLabel
        rw [Raising.exec_bind_of_ok (Raising.exec_get r), h.coordinator_eq]
        dsimp only
        rw [if_neg hmem, UnionFind.root_of_not_mem hmem]
        rfl
      dsimp only
      rw [Raising.exec_bind_of_ok hroot, h.withCoordinator]
      rfl
  · refine ⟨coordinator, ?_, rfl, fun l => rfl⟩
    rw [Raising.exec_bind_of_ok (hread hlabel), hlabel, h.withCoordinator]
    rfl

/-- The identifiers of two nodes agree exactly when the nodes are linked. -/
theorem clusterOf_eq_iff (h : r.Resolved g coordinator) {x y : String} (hx : Incident g x)
    (hy : Incident g y) :
    r.clusterOf coordinator x = r.clusterOf coordinator y ↔ Linked g x y := by
  obtain ⟨label, hlabel, hisLabel⟩ | ⟨-, hnone⟩ := label_spec h.books h.clean x
  · obtain ⟨label', hlabel', hisLabel'⟩ | ⟨-, hnone⟩ := label_spec h.books h.clean y
    · rw [← root_eq_iff_linked h.books h.clean h.reconciled hisLabel hisLabel']
      unfold clusterOf
      rw [hlabel, hlabel']
      exact Option.some_inj
    · exact absurd hy hnone
  · exact absurd hx hnone

/-- On a resolved resolver the component of a node is the set of nodes linked to it. -/
theorem componentOf_of_resolved (h : r.Resolved g coordinator) (order : SetOrder) (x : String) :
    ∃ members coordinator', Raising.exec (componentOf order x) r =
        (.ok members, { r with coordinator := some coordinator' }) ∧
      (∀ y, y ∈ members ↔ Incident g x ∧ Linked g x y) ∧
      ({ r with coordinator := some coordinator' } : PartitionedResolver c).Resolved g
        coordinator' := by
  obtain ⟨coordinator', hexec, hnodes, hroots⟩ := componentId_of_resolved h order x
  have hresolved := h.congr hnodes hroots
  unfold componentOf
  rw [Raising.exec_bind_of_ok hexec]
  unfold clusterOf
  rcases label_spec h.books h.clean x with ⟨label, hlabel, hisLabel⟩ | ⟨hlabel, hnone⟩
  · obtain ⟨hlabels, hgroup⟩ := group_spec h.reconciled hisLabel
    obtain ⟨members, hmembers, hmem⟩ := allMembers_spec h.clean hlabels
    refine ⟨members, coordinator', ?_, fun y => ?_, hresolved⟩
    · have hread : Raising.exec (Raising.ofExcept (r.allMembers
          ((r.groups.find? (coordinator.root label)).getD [coordinator.root label])))
          { r with coordinator := some coordinator' } =
          (.ok members, { r with coordinator := some coordinator' }) := by
        rw [Raising.exec_ofExcept, hmembers]
      rw [hlabel]
      exact (Raising.exec_bind_of_ok (Raising.exec_get _)).trans hread
    · have hincident : Incident g x :=
        (incident_iff_isLabel h.books h.clean).mpr ⟨label, hisLabel⟩
      rw [hmem, and_iff_right hincident]
      constructor
      · rintro ⟨l, hl, hy⟩
        rw [hgroup] at hl
        exact (root_eq_iff_linked h.books h.clean h.reconciled hisLabel hy).mp hl.symm
      · intro hlinked
        obtain ⟨hboth, hclass⟩ := root_of_linked h.books h.clean h.reconciled hlinked
        obtain ⟨l, hl⟩ := hboth.mp ⟨label, hisLabel⟩
        exact ⟨l, (hgroup l).mpr (hclass label l hisLabel hl).symm, hl⟩
  · refine ⟨∅, coordinator', ?_, fun y => ?_, hresolved⟩
    · rw [hlabel]
      rfl
    · simp [hnone]

/-- Asking for identifiers one after the other gives those of the first coordinator. -/
theorem assignment_loop (h : r.Resolved g coordinator) (order : SetOrder) (nodes : List String)
    (ids : UniqueTable String (Option String)) :
    ∃ ids' coordinator', Raising.exec (nodes.foldlM
        (fun ids node => do return ids.put node (← componentId order node)) ids) r =
        (.ok ids', { r with coordinator := some coordinator' }) ∧
      ({ r with coordinator := some coordinator' } : PartitionedResolver c).Resolved g
        coordinator' ∧
      ∀ x, ids'.find? x =
        if x ∈ nodes then some (r.clusterOf coordinator x) else ids.find? x := by
  induction nodes generalizing r coordinator ids with
  | nil =>
    refine ⟨ids, coordinator, ?_, ?_, fun x => by simp⟩
    · rw [h.withCoordinator]
      rfl
    · rwa [h.withCoordinator]
  | cons node nodes ih =>
    obtain ⟨coordinator₁, hexec, hnodes, hroots⟩ := componentId_of_resolved h order node
    obtain ⟨ids', coordinator', hloop, hresolved, hids⟩ :=
      ih (h.congr hnodes hroots) (ids.put node (r.clusterOf coordinator node))
    have hcluster (x : String) :
        ({ r with coordinator := some coordinator₁ } : PartitionedResolver c).clusterOf
          coordinator₁ x = r.clusterOf coordinator x := by
      have hroot : coordinator₁.root = coordinator.root := funext hroots
      unfold clusterOf
      rw [hroot]
      rfl
    refine ⟨ids', coordinator', ?_, hresolved, fun x => ?_⟩
    · have hround : Raising.exec
          (do return ids.put node (← componentId order node)) r =
          (.ok (ids.put node (r.clusterOf coordinator node)),
            { r with coordinator := some coordinator₁ }) := by
        rw [Raising.exec_bind_of_ok hexec]
        rfl
      rw [List.foldlM_cons, Raising.exec_bind_of_ok hround]
      exact hloop
    · rw [hids, hcluster, UniqueTable.find?_put]
      by_cases hx : x = node
      · simp [hx]
      · simp [hx]

/-- On a resolved resolver the classes of the assignment are the components of the whole
graph. -/
theorem assignment_of_resolved (h : r.Resolved g coordinator) (order : SetOrder) :
    ∃ ids r', Raising.exec (assignment order) r = (.ok ids, r') ∧ r'.Consistent g ∧
      ∀ edges : List Edge, (∀ e, e ∈ edges ↔ e ∈ g) →
        canonicalComponents ids = canonicalComponents (resolveWholeGraph edges) := by
  obtain ⟨ids, coordinator', hloop, hresolved, hids⟩ :=
    assignment_loop h order (r.nodeShards.rows.map Prod.fst) UniqueTable.empty
  have hnoted (x : String) : x ∈ r.nodeShards.rows.map Prod.fst ↔ Incident g x := by
    rw [← not_iff_not, ← UniqueTable.find?_eq_none_iff]
    exact find?_nodeShards_eq_none_iff h.books h.clean
  refine ⟨ids, _, ?_, hresolved.consistent, fun edges hedges => ?_⟩
  · unfold assignment
    rw [Raising.exec_bind_of_ok (resolve_of_resolved h order),
    Raising.exec_bind_of_ok (Raising.exec_get r)]
    exact hloop
  · have hid {x : String} {root : Option String} (hx : ids.find? x = some root) :
        Incident g x ∧ root = r.clusterOf coordinator x := by
      rw [hids, UniqueTable.find?_empty] at hx
      split_ifs at hx with hmem
      exact ⟨(hnoted x).mp hmem, (Option.some.inj hx).symm⟩
    have hlinked (x y : String) : (UnionFind.unions edges).root x =
        (UnionFind.unions edges).root y ↔ Linked g x y := by
      rw [UnionFind.root_unions_eq_iff]
      simp only [hedges]
      rfl
    refine canonicalComponents_congr (fun x => ?_)
      fun x y root root' other other' hx hy hox hoy => ?_
    · have hincident : (∃ root, (resolveWholeGraph edges).find? x = some root) ↔
          Incident g x := by
        simp [find?_resolveWholeGraph, hedges, Incident]
      rw [hincident, ← hnoted, hids, UniqueTable.find?_empty]
      simp
    · obtain ⟨hxg, rfl⟩ := hid hx
      obtain ⟨hyg, rfl⟩ := hid hy
      rw [find?_resolveWholeGraph] at hox hoy
      rw [clusterOf_eq_iff h hxg hyg, ← hox.2, ← hoy.2, hlinked]

end Resolve

section Runs

variable {r : PartitionedResolver c} {g : Finset Edge}

/-- Every question resolves first. -/
theorem resolve_first (h : r.Consistent g) (order : SetOrder) :
    ∃ r' coordinator, r'.Resolved g coordinator ∧
      Raising.exec (resolve order) r = (.ok (), r') ∧
      (∀ x, Raising.exec (componentId order x) r = Raising.exec (componentId order x) r') ∧
      (∀ x, Raising.exec (componentOf order x) r = Raising.exec (componentOf order x) r') ∧
      Raising.exec (assignment order) r = Raising.exec (assignment order) r' := by
  obtain ⟨r', coordinator, hexec, hresolved⟩ := resolve_spec h order
  have hagain := hexec.trans (resolve_of_resolved hresolved order).symm
  have hid (x : String) :
      Raising.exec (componentId order x) r = Raising.exec (componentId order x) r' :=
    Raising.exec_bind_congr hagain _
  exact ⟨r', coordinator, hresolved, hexec, hid, fun x => Raising.exec_bind_congr (hid x) _,
    Raising.exec_bind_congr hagain _⟩

/-- Asking for an identifier returns. -/
theorem componentId_spec (h : r.Consistent g) (order : SetOrder) (x : String) :
    ∃ id r', Raising.exec (componentId order x) r = (.ok id, r') ∧ r'.Consistent g := by
  obtain ⟨r', coordinator, hresolved, -, hid, -, -⟩ := resolve_first h order
  obtain ⟨coordinator', hexec, hnodes, hroots⟩ := componentId_of_resolved hresolved order x
  exact ⟨_, _, (hid x).trans hexec, (hresolved.congr hnodes hroots).consistent⟩

/-- The component of a node is the set of nodes linked to it. -/
theorem componentOf_spec (h : r.Consistent g) (order : SetOrder) (x : String) :
    ∃ members r', Raising.exec (componentOf order x) r = (.ok members, r') ∧
      (∀ y, y ∈ members ↔ Incident g x ∧ Linked g x y) ∧ r'.Consistent g := by
  obtain ⟨r', coordinator, hresolved, -, -, hcomponent, -⟩ := resolve_first h order
  obtain ⟨members, coordinator', hexec, hmem, hafter⟩ :=
    componentOf_of_resolved hresolved order x
  exact ⟨members, _, (hcomponent x).trans hexec, hmem, hafter.consistent⟩

/-- The classes of the assignment are the components of the whole graph. -/
theorem assignment_spec (h : r.Consistent g) (order : SetOrder) :
    ∃ ids r', Raising.exec (assignment order) r = (.ok ids, r') ∧ r'.Consistent g ∧
      ∀ edges : List Edge, (∀ e, e ∈ edges ↔ e ∈ g) →
        canonicalComponents ids = canonicalComponents (resolveWholeGraph edges) := by
  obtain ⟨r', coordinator, hresolved, -, -, -, hassignment⟩ := resolve_first h order
  rw [hassignment]
  exact assignment_of_resolved hresolved order

/-- After one edge came or went, the shards that are not dirty are clean. -/
theorem clean_change (h : ∀ idx, idx ∉ r.dirty → r.Clean idx) (e : Edge) (edges : Finset Edge)
    (delta : ℤ) (idx : Fin c.numShards) (hidx : idx ∉ (r.change e edges delta).dirty) :
    (r.change e edges delta).Clean idx := by
  have hdirty : (r.change e edges delta).dirty = insert (c.shardOf e) r.dirty := rfl
  rw [hdirty, Finset.mem_insert, not_or] at hidx
  obtain ⟨⟨es, hes, hroots⟩, hmembers⟩ := h idx hidx.2
  have hshard : (r.change e edges delta).shardEdges idx = r.shardEdges idx := by
    rw [shardEdges_change, Function.update_of_ne hidx.1]
  exact ⟨⟨es, by rwa [hshard], hroots⟩, hmembers⟩

/-- Adding an edge keeps a resolver consistent. -/
theorem PartitionedResolver.Consistent.addEdge (h : r.Consistent g) (edge : Edge) :
    (r.addEdge edge).Consistent (addedEdge g edge) := by
  unfold addedEdge
  rcases addEdge_cases r edge with ⟨hloop, hstep⟩ | ⟨hloop, hmem, hstep⟩ | ⟨hloop, hmem, hstep⟩
  · rw [if_pos hloop, hstep]
    exact h
  · rw [h.books.mem_shardEdges_iff] at hmem
    rw [if_neg hloop, hstep, Finset.insert_eq_of_mem hmem]
    exact h
  · rw [h.books.mem_shardEdges_iff] at hmem
    rw [if_neg hloop, hstep]
    exact {
      books := h.books.insert hloop hmem
      clean := clean_change h.clean _ _ _
      reconciled := by
        intro coordinator hcoordinator
        cases hcoordinator }

/-- Removing an edge keeps a resolver consistent. -/
theorem PartitionedResolver.Consistent.removeEdge (h : r.Consistent g) (edge : Edge) :
    (r.removeEdge edge).Consistent (removedEdge g edge) := by
  unfold removedEdge
  rcases removeEdge_cases r edge with ⟨hmem, hstep⟩ | ⟨hmem, hstep⟩
  · rw [h.books.mem_shardEdges_iff] at hmem
    rw [hstep, Finset.erase_eq_of_notMem hmem]
    exact h
  · rw [h.books.mem_shardEdges_iff] at hmem
    rw [hstep]
    exact {
      books := h.books.erase hmem
      clean := clean_change h.clean _ _ _
      reconciled := by
        intro coordinator hcoordinator
        cases hcoordinator }

/-- Every call keeps a resolver consistent. -/
theorem PartitionedResolver.Consistent.step (h : r.Consistent g) (call : PartitionCall) :
    (r.step call).Consistent (presentAfter g call) := by
  cases call with
  | addEdges edges =>
    have hall (edges : List Edge) {r : PartitionedResolver c} {g : Finset Edge}
        (h : r.Consistent g) : (r.addEdges edges).Consistent (edges.foldl addedEdge g) := by
      induction edges generalizing r g with
      | nil => exact h
      | cons edge edges ih => exact ih (h.addEdge edge)
    exact hall edges h
  | removeEdges edges =>
    have hall (edges : List Edge) {r : PartitionedResolver c} {g : Finset Edge}
        (h : r.Consistent g) : (r.removeEdges edges).Consistent (edges.foldl removedEdge g) := by
      induction edges generalizing r g with
      | nil => exact h
      | cons edge edges ih => exact ih (h.removeEdge edge)
    exact hall edges h
  | resolve order =>
    obtain ⟨r', coordinator, hexec, hresolved⟩ := resolve_spec h order
    simp only [PartitionedResolver.step, hexec]
    exact hresolved.consistent
  | componentId order address =>
    obtain ⟨id, r', hexec, hafter⟩ := componentId_spec h order address
    simp only [PartitionedResolver.step, hexec]
    exact hafter
  | componentOf order address =>
    obtain ⟨members, r', hexec, -, hafter⟩ := componentOf_spec h order address
    simp only [PartitionedResolver.step, hexec]
    exact hafter
  | assignment order =>
    obtain ⟨ids, r', hexec, hafter, -⟩ := assignment_spec h order
    simp only [PartitionedResolver.step, hexec]
    exact hafter

/-- A new resolver is consistent with the empty graph. -/
theorem consistent_new : ({} : PartitionedResolver c).Consistent ∅ where
  books := books_new
  clean _ _ := ⟨⟨[], fun e => by simp, rfl⟩, rfl⟩
  reconciled := by
    intro coordinator hcoordinator
    cases hcoordinator

/-- Every history of calls leaves a resolver consistent with the edges that are present. -/
theorem consistent_run (calls : List PartitionCall) (h : r.Consistent g) :
    (Transition.exec PartitionedResolver.step r calls).Consistent
      (Transition.exec presentAfter g calls) := by
  induction calls generalizing r g with
  | nil => exact h
  | cons call calls ih => exact ih (h.step call)

end Runs

/-- After every history of calls, for every number of shards, strategy, chain function and hash:
the component of a node consists of the nodes that are linked to it by the edges present, no
node if it has none, and the classes of the assignment are the components that one pass over
these edges finds. -/
theorem partitioned_components (c : PartitionConfig) (calls : List PartitionCall)
    (order : SetOrder) :
    (∀ x, ∃ members r', Raising.exec (componentOf order x)
        (Transition.exec PartitionedResolver.step ({} : PartitionedResolver c) calls) =
          (.ok members, r') ∧
        ∀ y, y ∈ members ↔ Incident (Transition.exec presentAfter ∅ calls) x ∧
          Linked (Transition.exec presentAfter ∅ calls) x y) ∧
      ∃ ids r', Raising.exec (assignment order)
        (Transition.exec PartitionedResolver.step ({} : PartitionedResolver c) calls) =
          (.ok ids, r') ∧
        ∀ anyOrder : SetOrder, canonicalComponents ids = canonicalComponents
          (resolveWholeGraph (anyOrder.edges (Transition.exec presentAfter ∅ calls))) := by
  have hrun := consistent_run calls (consistent_new : ({} : PartitionedResolver c).Consistent ∅)
  refine ⟨fun x => ?_, ?_⟩
  · obtain ⟨members, r', hexec, hmem, -⟩ := componentOf_spec hrun order x
    exact ⟨members, r', hexec, hmem⟩
  · obtain ⟨ids, r', hexec, -, hcomponents⟩ := assignment_spec hrun order
    exact ⟨ids, r', hexec, fun anyOrder => hcomponents _ (anyOrder.mem_edges _)⟩

end

end LedgerLens.Detection
