import LedgerLens.Detection.GraphPartition

/-!
# The books of the shards

The resolver counts, for every node, its edges in each shard, and keeps the nodes with edges
in several shards. Here these counts and the boundary are followed through additions and
removals: they are always those of the edges that are present.
-/

namespace LedgerLens.Detection

open PartitionedResolver

/-- The edges present after one more is added: a loop is no edge. -/
def addedEdge (g : Finset Edge) (edge : Edge) : Finset Edge :=
  if (norm edge).1 = (norm edge).2 then g else insert (norm edge) g

/-- The edges present after one is removed. -/
def removedEdge (g : Finset Edge) (edge : Edge) : Finset Edge := g.erase (norm edge)

/-- The edges present after a call. -/
def presentAfter (g : Finset Edge) : PartitionCall → Finset Edge
  | .addEdges edges => edges.foldl addedEdge g
  | .removeEdges edges => edges.foldl removedEdge g
  | _ => g

/-- A node has an edge. -/
def Incident (g : Finset Edge) (node : String) : Prop := ∃ e ∈ g, node = e.1 ∨ node = e.2

/-- A path leads from one node to another. -/
def Linked (g : Finset Edge) : String → String → Prop :=
  Relation.EqvGen fun u v => (u, v) ∈ g

section

variable {c : PartitionConfig}

/-- The number of edges of a node in a shard. -/
def degree (c : PartitionConfig) (g : Finset Edge) (node : String) (idx : Fin c.numShards) : ℕ :=
  (g.filter fun e => c.shardOf e = idx ∧ (node = e.1 ∨ node = e.2)).card

/-- How a degree is noted: zero is not. -/
def noted (d : ℕ) : Option ℤ := if d = 0 then none else some d

/-- The noted number of edges of a node in a shard. -/
def PartitionedResolver.countAt (r : PartitionedResolver c) (node : String)
    (idx : Fin c.numShards) : Option ℤ :=
  (r.nodeShards.find? node).bind fun shards => shards.find? idx

@[simp] theorem noted_getD (d : ℕ) : (noted d).getD 0 = (d : ℤ) := by
  unfold noted
  split_ifs with h
  · simp [h]
  · rfl

theorem noted_eq_none_iff {d : ℕ} : noted d = none ↔ d = 0 := by simp [noted]

/-- A node has an edge in a shard exactly when its degree there is not zero. -/
theorem degree_ne_zero_iff {g : Finset Edge} {node : String} {idx : Fin c.numShards} :
    degree c g node idx ≠ 0 ↔ ∃ e ∈ g, c.shardOf e = idx ∧ (node = e.1 ∨ node = e.2) := by
  unfold degree
  rw [Finset.card_ne_zero]
  constructor
  · rintro ⟨e, he⟩
    rw [Finset.mem_filter] at he
    exact ⟨e, he⟩
  · rintro ⟨e, he⟩
    exact ⟨e, by rwa [Finset.mem_filter]⟩

/-- A new edge adds one to the degrees of its ends in its shard. -/
theorem degree_insert {g : Finset Edge} {e : Edge} (he : e ∉ g) (node : String)
    (idx : Fin c.numShards) :
    degree c (insert e g) node idx = degree c g node idx +
      if c.shardOf e = idx ∧ (node = e.1 ∨ node = e.2) then 1 else 0 := by
  unfold degree
  rw [Finset.filter_insert]
  split_ifs with h
  · rw [Finset.card_insert_of_notMem fun hmem => he (Finset.mem_of_mem_filter _ hmem)]
  · rfl

/-- The bookkeeping of the nodes is well formed: a node that is noted has a shard, and the
boundary nodes are those with several. -/
structure PartitionedResolver.Tidy (r : PartitionedResolver c) : Prop where
  /-- A node that is noted has a shard. -/
  nonempty : ∀ node shards, r.nodeShards.find? node = some shards → shards.rows ≠ []
  /-- The boundary nodes are those with several shards. -/
  mem_boundary_iff : ∀ node, node ∈ r.boundary ↔
    ∃ shards, r.nodeShards.find? node = some shards ∧ 1 < shards.rows.length

/-- The shards that a node is noted with after a touch. -/
def PartitionedResolver.touched (r : PartitionedResolver c) (node : String)
    (idx : Fin c.numShards) (delta : ℤ) : UniqueTable (Fin c.numShards) ℤ :=
  let shards := (r.nodeShards.find? node).getD UniqueTable.empty
  let count := (shards.find? idx).getD 0 + delta
  if 0 < count then shards.put idx count else shards.erase idx

section Touch

variable {r : PartitionedResolver c} {node node' : String} {idx idx' : Fin c.numShards} {delta : ℤ}

theorem nodeShards_touch :
    (r.touch node idx delta).nodeShards.find? node' =
      if node' = node then
        if (r.touched node idx delta).rows = [] then none else some (r.touched node idx delta)
      else r.nodeShards.find? node' := by
  have hdef : (r.touch node idx delta).nodeShards =
      if (r.touched node idx delta).rows = [] then r.nodeShards.erase node
      else r.nodeShards.put node (r.touched node idx delta) := rfl
  rw [hdef]
  split_ifs <;> simp_all

theorem boundary_touch :
    (r.touch node idx delta).boundary =
      if 1 < (r.touched node idx delta).rows.length then insert node r.boundary
      else r.boundary.erase node := rfl

theorem find?_touched :
    (r.touched node idx delta).find? idx' =
      if idx' = idx then
        if 0 < (r.countAt node idx).getD 0 + delta then
          some ((r.countAt node idx).getD 0 + delta)
        else none
      else r.countAt node idx' := by
  have hcount (i : Fin c.numShards) :
      ((r.nodeShards.find? node).getD UniqueTable.empty).find? i = r.countAt node i := by
    unfold countAt
    cases r.nodeShards.find? node <;> rfl
  unfold touched
  dsimp only
  rw [hcount]
  split_ifs <;> simp_all

/-- A touch changes the count of one node in one shard. -/
theorem countAt_touch :
    (r.touch node idx delta).countAt node' idx' =
      if node' = node ∧ idx' = idx then
        if 0 < (r.countAt node idx).getD 0 + delta then
          some ((r.countAt node idx).getD 0 + delta)
        else none
      else r.countAt node' idx' := by
  have hself (i : Fin c.numShards) :
      (r.touch node idx delta).countAt node i = (r.touched node idx delta).find? i := by
    unfold countAt
    rw [nodeShards_touch, if_pos rfl]
    split_ifs with hempty
    · unfold UniqueTable.find?
      rw [hempty]
      rfl
    · rfl
  by_cases hnode : node' = node
  · rw [hnode, hself, find?_touched]
    simp
  · unfold countAt
    rw [nodeShards_touch, if_neg hnode]
    simp [hnode]

/-- A touch leaves the bookkeeping well formed. -/
theorem PartitionedResolver.Tidy.touch (h : r.Tidy) (node : String) (idx : Fin c.numShards)
    (delta : ℤ) : (r.touch node idx delta).Tidy where
  nonempty := by
    intro node' shards hshards
    rw [nodeShards_touch] at hshards
    split_ifs at hshards with hnode hempty
    · cases hshards
      exact hempty
    · exact h.nonempty node' shards hshards
  mem_boundary_iff := by
    intro node'
    rw [boundary_touch, nodeShards_touch]
    have hbefore := h.mem_boundary_iff node'
    by_cases hnode : node' = node
    · rw [if_pos hnode]
      by_cases hlength : 1 < (r.touched node idx delta).rows.length
      · have hempty : (r.touched node idx delta).rows ≠ [] := by
          intro hempty
          rw [hempty] at hlength
          cases hlength
        simp [hnode, hlength, hempty]
      · rw [if_neg hlength, hnode]
        split_ifs <;> simp [hlength]
    · rw [if_neg hnode, ← hbefore]
      split_ifs <;> simp [hnode]

end Touch

/-- A count with a change, noted if it is positive. -/
def bumped (count : Option ℤ) (delta : ℤ) : Option ℤ :=
  if 0 < count.getD 0 + delta then some (count.getD 0 + delta) else none

theorem bumped_noted (d : ℕ) : bumped (noted d) 1 = noted (d + 1) := by
  have hpos : (0 : ℤ) < (d : ℤ) + 1 := by omega
  unfold bumped
  rw [noted_getD, if_pos hpos]
  rfl

theorem bumped_noted_succ (d : ℕ) : bumped (noted (d + 1)) (-1) = noted d := by
  have hless : ((d + 1 : ℕ) : ℤ) + -1 = d := by omega
  unfold bumped
  rw [noted_getD, hless]
  by_cases hd : d = 0
  · simp [hd, noted]
  · have hpos : (0 : ℤ) < d := by omega
    rw [if_pos hpos]
    simp [noted, hd]

/-- The resolver after one edge of a shard came or went. -/
def PartitionedResolver.change (r : PartitionedResolver c) (e : Edge) (edges : Finset Edge)
    (delta : ℤ) : PartitionedResolver c :=
  let idx := c.shardOf e
  let r' := { r with shardEdges := Function.update r.shardEdges idx edges }
  { (r'.touch e.1 idx delta).touch e.2 idx delta with
    dirty := insert idx r.dirty
    coordinator := none }

/-- Adding an edge changes nothing if it is a loop or present. -/
theorem addEdge_cases (r : PartitionedResolver c) (edge : Edge) :
    (norm edge).1 = (norm edge).2 ∧ r.addEdge edge = r ∨
      (norm edge).1 ≠ (norm edge).2 ∧ norm edge ∈ r.shardEdges (c.shardOf (norm edge)) ∧
        r.addEdge edge = r ∨
      (norm edge).1 ≠ (norm edge).2 ∧ norm edge ∉ r.shardEdges (c.shardOf (norm edge)) ∧
        r.addEdge edge = r.change (norm edge)
          (insert (norm edge) (r.shardEdges (c.shardOf (norm edge)))) 1 := by
  by_cases hloop : (norm edge).1 = (norm edge).2
  · exact Or.inl ⟨hloop, if_pos hloop⟩
  · have hstep : r.addEdge edge =
        if norm edge ∈ r.shardEdges (c.shardOf (norm edge)) then r
        else r.change (norm edge)
          (insert (norm edge) (r.shardEdges (c.shardOf (norm edge)))) 1 := if_neg hloop
    by_cases hmem : norm edge ∈ r.shardEdges (c.shardOf (norm edge))
    · rw [if_pos hmem] at hstep
      exact Or.inr (Or.inl ⟨hloop, hmem, hstep⟩)
    · rw [if_neg hmem] at hstep
      exact Or.inr (Or.inr ⟨hloop, hmem, hstep⟩)

/-- Removing an edge changes nothing if it is not present. -/
theorem removeEdge_cases (r : PartitionedResolver c) (edge : Edge) :
    norm edge ∉ r.shardEdges (c.shardOf (norm edge)) ∧ r.removeEdge edge = r ∨
      norm edge ∈ r.shardEdges (c.shardOf (norm edge)) ∧
        r.removeEdge edge = r.change (norm edge)
          ((r.shardEdges (c.shardOf (norm edge))).erase (norm edge)) (-1) := by
  have hstep : r.removeEdge edge =
      if norm edge ∈ r.shardEdges (c.shardOf (norm edge)) then r.change (norm edge)
          ((r.shardEdges (c.shardOf (norm edge))).erase (norm edge)) (-1)
      else r := rfl
  by_cases hmem : norm edge ∈ r.shardEdges (c.shardOf (norm edge))
  · rw [if_pos hmem] at hstep
    exact Or.inr ⟨hmem, hstep⟩
  · rw [if_neg hmem] at hstep
    exact Or.inl ⟨hmem, hstep⟩

/-- The counts of a resolver after one edge came or went. -/
theorem countAt_change (r : PartitionedResolver c) {e : Edge} (hloop : e.1 ≠ e.2)
    (edges : Finset Edge) (delta : ℤ) (node : String) (idx : Fin c.numShards) :
    (r.change e edges delta).countAt node idx =
      if c.shardOf e = idx ∧ (node = e.1 ∨ node = e.2) then bumped (r.countAt node idx) delta
      else r.countAt node idx := by
  have hfirst (node' : String) (idx' : Fin c.numShards) :
      ({ r with shardEdges := Function.update r.shardEdges (c.shardOf e) edges } :
        PartitionedResolver c).countAt node' idx' = r.countAt node' idx' := rfl
  have hchange : (r.change e edges delta).countAt node idx =
      (({ r with shardEdges := Function.update r.shardEdges (c.shardOf e) edges } :
        PartitionedResolver c).touch e.1 (c.shardOf e) delta |>.touch e.2 (c.shardOf e)
          delta).countAt node idx := rfl
  rw [hchange]
  simp only [countAt_touch, hfirst]
  unfold bumped
  by_cases hidx : idx = c.shardOf e
  · subst hidx
    by_cases hsecond : node = e.2
    · have hother : e.2 ≠ e.1 := hloop.symm
      simp [hsecond, hother]
    · by_cases hone : node = e.1 <;> simp [hsecond, hone, hloop]
  · have hidx' : c.shardOf e ≠ idx := fun h => hidx h.symm
    simp [hidx, hidx']

/-- The books agree with the edges that are present. -/
structure PartitionedResolver.Books (r : PartitionedResolver c) (g : Finset Edge) : Prop where
  /-- Every shard has its edges. -/
  shardEdges_eq : ∀ idx, r.shardEdges idx = g.filter fun e => c.shardOf e = idx
  /-- No edge is a loop. -/
  loopless : ∀ e ∈ g, e.1 ≠ e.2
  /-- The counts are the degrees. -/
  countAt_eq : ∀ node idx, r.countAt node idx = noted (degree c g node idx)
  /-- The bookkeeping is well formed. -/
  tidy : r.Tidy

section Books

variable {r : PartitionedResolver c} {g : Finset Edge}

theorem PartitionedResolver.Books.mem_shardEdges_iff (h : r.Books g) (e : Edge) :
    e ∈ r.shardEdges (c.shardOf e) ↔ e ∈ g := by
  rw [h.shardEdges_eq, Finset.mem_filter]
  exact and_iff_left rfl

/-- The books are what the resolver has of edges, counts and boundary. -/
theorem PartitionedResolver.Books.congr {r' : PartitionedResolver c} (h : r.Books g)
    (hedges : r'.shardEdges = r.shardEdges) (hcounts : r'.nodeShards = r.nodeShards)
    (hboundary : r'.boundary = r.boundary) : r'.Books g where
  shardEdges_eq := by
    rw [hedges]
    exact h.shardEdges_eq
  loopless := h.loopless
  countAt_eq := by
    unfold countAt
    rw [hcounts]
    exact h.countAt_eq
  tidy := {
    nonempty := by
      rw [hcounts]
      exact h.tidy.nonempty
    mem_boundary_iff := by
      rw [hboundary, hcounts]
      exact h.tidy.mem_boundary_iff }

/-- A new resolver has the books of the empty graph. -/
theorem books_new : ({} : PartitionedResolver c).Books ∅ where
  shardEdges_eq idx := by simp
  loopless e he := by simp at he
  countAt_eq node idx := rfl
  tidy := {
    nonempty := by
      intro node shards hshards
      cases hshards
    mem_boundary_iff := by
      intro node
      simp }

theorem PartitionedResolver.Tidy.change (h : r.Tidy) (e : Edge) (edges : Finset Edge) (delta : ℤ) :
    (r.change e edges delta).Tidy := by
  have hshards : ({ r with shardEdges := Function.update r.shardEdges (c.shardOf e) edges } :
      PartitionedResolver c).Tidy := ⟨h.nonempty, h.mem_boundary_iff⟩
  have htouch := (hshards.touch e.1 (c.shardOf e) delta).touch e.2 (c.shardOf e) delta
  exact ⟨htouch.nonempty, htouch.mem_boundary_iff⟩

/-- The shards of a resolver after one edge came or went. -/
theorem shardEdges_change (r : PartitionedResolver c) (e : Edge) (edges : Finset Edge) (delta : ℤ) :
    (r.change e edges delta).shardEdges = Function.update r.shardEdges (c.shardOf e) edges := rfl

/-- Adding a new edge keeps the books. -/
theorem PartitionedResolver.Books.insert (h : r.Books g) {e : Edge} (hloop : e.1 ≠ e.2)
    (hnew : e ∉ g) :
    (r.change e (insert e (r.shardEdges (c.shardOf e))) 1).Books (insert e g) where
  shardEdges_eq idx := by
    rw [shardEdges_change, Finset.filter_insert]
    by_cases hidx : idx = c.shardOf e
    · rw [hidx, Function.update_self, if_pos rfl, h.shardEdges_eq]
    · rw [Function.update_of_ne hidx, if_neg fun heq => hidx heq.symm, h.shardEdges_eq]
  loopless e' he' := by
    rcases Finset.mem_insert.mp he' with rfl | he'
    · exact hloop
    · exact h.loopless e' he'
  countAt_eq node idx := by
    rw [countAt_change r hloop, h.countAt_eq, degree_insert hnew]
    split_ifs
    · exact bumped_noted _
    · rfl
  tidy := h.tidy.change e _ 1

/-- Removing an edge keeps the books. -/
theorem PartitionedResolver.Books.erase (h : r.Books g) {e : Edge} (he : e ∈ g) :
    (r.change e ((r.shardEdges (c.shardOf e)).erase e) (-1)).Books (g.erase e) where
  shardEdges_eq idx := by
    rw [shardEdges_change, Finset.filter_erase]
    by_cases hidx : idx = c.shardOf e
    · rw [hidx, Function.update_self, h.shardEdges_eq]
    · rw [Function.update_of_ne hidx, h.shardEdges_eq]
      refine (Finset.erase_eq_of_notMem fun hmem => ?_).symm
      exact hidx (Finset.mem_filter.mp hmem).2.symm
  loopless e' he' := h.loopless e' (Finset.mem_of_mem_erase he')
  countAt_eq node idx := by
    have hdegree := degree_insert (Finset.notMem_erase e g) node idx
    rw [Finset.insert_erase he] at hdegree
    rw [countAt_change r (h.loopless e he), h.countAt_eq, hdegree]
    split_ifs
    · exact bumped_noted_succ _
    · rfl
  tidy := h.tidy.change e _ (-1)

end Books

end

end LedgerLens.Detection
