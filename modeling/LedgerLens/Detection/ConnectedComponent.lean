import LedgerLens.Detection.StrongestLinks

/-!
# The connected component of an address

The search of `get_connected_component` ends: an address is visited once, and a visit queues
at most one entry for each of its edges. What is left when the heap is empty is grouped by
chain, without the start.
-/

namespace LedgerLens.Detection.CrossChain

open BestFirst

variable {K : Type*} [Field K] [LinearOrder K]

/-! ## The loop ends -/

/-- The ends of an edge that are not done. -/
def openEnds (done : List String) (row : EdgeKey × K) : ℕ :=
  (if row.1.sourceAddress ∈ done then 0 else 1) + (if row.1.targetAddress ∈ done then 0 else 1)

/-- A bound on the rounds that are left before the heap is empty. -/
def SearchState.rounds (g : IdentityGraph K) (s : SearchState K) : ℕ :=
  s.heap.length + (g.edges.rows.map (openEnds s.done)).sum

variable {g : IdentityGraph K} {minConfidence : K} {start : String} {s : SearchState K}

omit [Field K] [LinearOrder K] in
/-- A visit closes an end of every edge of its address. -/
theorem sum_openEnds_cons {current : String} {done : List String} (hnew : current ∉ done)
    (rows : List (EdgeKey × K)) :
    (rows.map (openEnds (current :: done))).sum +
        (rows.filter fun row =>
          row.1.sourceAddress = current ∨ row.1.targetAddress = current).length ≤
      (rows.map (openEnds done)).sum := by
  induction rows with
  | nil => simp
  | cons row rows ih =>
    have hrow : openEnds (current :: done) row +
        (if row.1.sourceAddress = current ∨ row.1.targetAddress = current then 1 else 0) ≤
          openEnds done row := by
      unfold openEnds
      by_cases hsource : row.1.sourceAddress = current
      · by_cases htarget : row.1.targetAddress = current
        · simp [hsource, htarget, hnew]
        · simp only [hsource, htarget, hnew, List.mem_cons, false_or, or_false, if_true, if_false]
          omega
      · by_cases htarget : row.1.targetAddress = current
        · simp [hsource, htarget, hnew]
        · simp [hsource, htarget]
    rw [List.filter_cons]
    simp only [List.map_cons, List.sum_cons]
    split at hrow
    next htouch =>
      simp only [htouch, decide_true, if_true, List.length_cons]
      omega
    next htouch =>
      simp only [htouch, decide_false, Bool.false_eq_true, if_false]
      omega

/-- The inner loop queues at most one entry for each neighbor. -/
theorem foldl_relaxNeighbor_le (minConfidence negConf : K)
    (rows : List (String × List (Evidence K))) (s : SearchState K) :
    (rows.foldl (relaxNeighbor minConfidence negConf) s).done = s.done ∧
      (rows.foldl (relaxNeighbor minConfidence negConf) s).heap.length ≤
        s.heap.length + rows.length := by
  induction rows generalizing s with
  | nil => simp
  | cons row rows ih =>
    have hone : (relaxNeighbor minConfidence negConf s row).done = s.done ∧
        (relaxNeighbor minConfidence negConf s row).heap.length ≤ s.heap.length + 1 := by
      simp only [relaxNeighbor]
      split_ifs <;> simp
    obtain ⟨hdone, hlength⟩ := ih (relaxNeighbor minConfidence negConf s row)
    rw [List.foldl_cons, List.length_cons]
    exact ⟨hdone.trans hone.1, by omega⟩

/-- Every round brings the loop nearer to its end. -/
theorem rounds_visit_lt {negConf : K} {current : String} {heap : List (K × String)}
    (hpop : heappop s.heap = some ((negConf, current), heap)) :
    (g.visit minConfidence negConf current heap s).rounds g < s.rounds g := by
  obtain ⟨hmem, rfl, -⟩ := heappop_eq_some hpop
  have hlength : (s.heap.erase (negConf, current)).length + 1 = s.heap.length :=
    List.length_erase_add_one hmem
  unfold IdentityGraph.visit
  split
  next =>
    simp only [SearchState.rounds]
    omega
  next hnew =>
    have hends := sum_openEnds_cons hnew g.edges.rows
    split
    next =>
      simp only [SearchState.rounds]
      omega
    next node hnode =>
      have hneighbors : (g.evidenceByNeighbor current).rows.length ≤
          (g.touching current).length := by
        unfold IdentityGraph.evidenceByNeighbor
        refine le_trans (UniqueTable.length_collect_le _ _ _) ?_
        rw [List.length_map]
      unfold IdentityGraph.touching at hneighbors
      unfold SearchState.rounds
      obtain ⟨hdone, hheap⟩ := foldl_relaxNeighbor_le minConfidence negConf
        (g.evidenceByNeighbor current).rows
        { s with
          heap := s.heap.erase (negConf, current)
          done := current :: s.done
          nodesInfo := s.nodesInfo.put current
            ⟨current, node.chain, node.riskScore, -negConf, -negConf⟩ }
      simp only at hdone hheap
      rw [hdone]
      omega

/-- The loop ends within the bound, with the search right and the heap empty. -/
theorem search_eq_some [IsStrictOrderedRing K]
    (h : s.Invariant g minConfidence start (fun _ _ _ => False)) {rounds : ℕ}
    (hrounds : s.rounds g < rounds) :
    ∃ s', g.search minConfidence rounds s = some s' ∧ s'.heap = [] ∧
      s'.Invariant g minConfidence start (fun _ _ _ => False) := by
  induction rounds generalizing s with
  | zero => omega
  | succ rounds ih =>
    unfold IdentityGraph.search
    cases hpop : heappop s.heap with
    | none => exact ⟨s, rfl, heappop_eq_none hpop, h⟩
    | some popped =>
      obtain ⟨⟨negConf, current⟩, heap⟩ := popped
      have hlt : (g.visit minConfidence negConf current heap s).rounds g < s.rounds g :=
        rounds_visit_lt hpop
      exact ih (h.visit hpop) (by omega)

/-! ## The result -/

/-- A node is in the result. -/
def ChainGroups.Reports (groups : ChainGroups K) (info : NodeInfo K) : Prop :=
  ∃ chain infos, groups.find? chain = some infos ∧ info ∈ infos

omit [Field K] [LinearOrder K] in
theorem find?_noGroups_getD (chain : String) :
    ((noGroups : ChainGroups K).find? chain).getD [] = [] := by
  unfold noGroups
  simp only [UniqueTable.find?_put, UniqueTable.find?_empty]
  split_ifs <;> rfl

omit [Field K] [LinearOrder K] in
/-- Without nodes there is nothing to report. -/
theorem not_reports_noGroups (info : NodeInfo K) : ¬(noGroups : ChainGroups K).Reports info := by
  rintro ⟨chain, infos, hfind, hmem⟩
  have hnil := find?_noGroups_getD (K := K) chain
  rw [hfind, Option.getD_some] at hnil
  simp [hnil] at hmem

omit [Field K] [LinearOrder K] in
/-- Grouping reports every node but the excluded one. -/
theorem reports_groupByChain (lower : String → String) (nodesInfo : UniqueTable String (NodeInfo K))
    (exclude : String) (info : NodeInfo K) :
    (groupByChain lower nodesInfo exclude).Reports info ↔
      ∃ v, v ≠ exclude ∧ nodesInfo.find? v = some info := by
  have hfind : ∀ chain, (groupByChain lower nodesInfo exclude).find? chain =
      if chain ∈ ((nodesInfo.rows.filter fun row => row.1 ≠ exclude).map fun row =>
        (chainKey lower row.2.chain, row.2)).map Prod.fst then
        some ((((nodesInfo.rows.filter fun row => row.1 ≠ exclude).map fun row =>
          (chainKey lower row.2.chain, row.2)).filter fun item => item.1 = chain).map Prod.snd)
      else noGroups.find? chain := by
    intro chain
    have hfold := UniqueTable.find?_foldl_collect [] (fun infos (info : NodeInfo K) =>
      infos ++ [info]) ((nodesInfo.rows.filter fun row => row.1 ≠ exclude).map fun row =>
        (chainKey lower row.2.chain, row.2)) noGroups chain
    rw [find?_noGroups_getD, List.foldl_append_eq_append, List.nil_append, ← List.flatMap_def,
      List.flatMap_singleton'] at hfold
    exact hfold
  constructor
  · rintro ⟨chain, infos, hinfos, hmem⟩
    rw [hfind] at hinfos
    split at hinfos
    next =>
      rw [Option.some.injEq] at hinfos
      subst hinfos
      simp only [List.mem_map, List.mem_filter, decide_eq_true_iff] at hmem
      obtain ⟨_, ⟨⟨⟨v, info⟩, ⟨hrow, hv⟩, rfl⟩, -⟩, rfl⟩ := hmem
      exact ⟨v, hv, (UniqueTable.find?_eq_some_iff _ _ _).mpr hrow⟩
    next => exact absurd ⟨chain, infos, hinfos, hmem⟩ (not_reports_noGroups info)
  · rintro ⟨v, hv, hinfo⟩
    have hrow : (v, info) ∈ nodesInfo.rows.filter fun row => row.1 ≠ exclude :=
      List.mem_filter.mpr ⟨(UniqueTable.find?_eq_some_iff _ _ _).mp hinfo, by simpa using hv⟩
    have hitem := List.mem_map_of_mem (f := fun row : String × NodeInfo K =>
      (chainKey lower row.2.chain, row.2)) hrow
    refine ⟨chainKey lower info.chain, _, (hfind _).trans (if_pos ?_), ?_⟩
    · exact List.mem_map_of_mem hitem
    · exact List.mem_map_of_mem (List.mem_filter.mpr ⟨hitem, by simp⟩)

/-- The search reports exactly the addresses other than the start that can be reached from the
start along linked pairs of at least the minimum confidence, each with the greatest product of
pair confidences over all such paths. -/
theorem connected_component_exact [IsStrictOrderedRing K] (lower : String → String)
    (g : IdentityGraph K) (startAddress : String) (minConfidence : K) :
    ∃ groups, g.getConnectedComponent lower startAddress minConfidence = some groups ∧
      (∀ v, (∃ info, groups.Reports info ∧ info.address = v) ↔
        v ≠ normalizeAddress lower startAddress ∧
          ∃ p, WeightedPath (g.LinkedPair minConfidence)
            (normalizeAddress lower startAddress) v p) ∧
      ∀ info, groups.Reports info →
        IsStrongest (g.LinkedPair minConfidence) (normalizeAddress lower startAddress)
          info.address info.linkConfidence ∧
        info.confidence = info.linkConfidence := by
  unfold IdentityGraph.getConnectedComponent
  generalize normalizeAddress lower startAddress = start
  cases hstart : g.nodes.find? start with
  | none =>
    simp only [hstart]
    refine ⟨noGroups, rfl, ?_, fun info hinfo => absurd hinfo (not_reports_noGroups info)⟩
    intro v
    constructor
    · rintro ⟨info, hinfo, -⟩
      exact absurd hinfo (not_reports_noGroups info)
    · -- An address without a node has no links.
      rintro ⟨hv, p, hpath⟩
      exfalso
      induction hpath with
      | refl => exact hv rfl
      | @step u v p w hpath harc ih =>
        by_cases hu : u = start
        · subst hu
          exact (IdentityGraph.find?_nodes_of_linked harc.1).1 hstart
        · exact ih hu
  | some node =>
    have hinit : (initialSearch start).Invariant g minConfidence start (fun _ _ _ => False) :=
      SearchState.Invariant.init (by simp [hstart])
    have hrounds : (initialSearch start : SearchState K).rounds g <
        2 * g.edges.rows.length + 2 := by
      have hsum : (g.edges.rows.map (openEnds [])).sum = 2 * g.edges.rows.length := by
        have hopen : openEnds (K := K) [] = fun _ => 2 := by
          funext row
          simp [openEnds]
        rw [hopen, List.map_const', List.sum_replicate_nat, Nat.mul_comm]
      simp only [SearchState.rounds, initialSearch, List.length_singleton, hsum]
      omega
    obtain ⟨s, hsearch, hheap, hs⟩ := search_eq_some hinit hrounds
    simp only [hstart, hsearch]
    have hempty : s.view.queue = ∅ := by
      simp [SearchState.view, hheap]
    refine ⟨_, rfl, ?_, ?_⟩
    · intro v
      simp only [reports_groupByChain]
      rw [← hs.search.settled_iff IdentityGraph.unitWeights_linkedPair hempty v]
      constructor
      · rintro ⟨info, ⟨u, hu, hinfo⟩, rfl⟩
        have haddress := (hs.consistent.info u info hinfo).1
        subst haddress
        exact ⟨hu, info.linkConfidence, by simp [SearchState.view, hinfo]⟩
      · rintro ⟨hv, c, hc⟩
        obtain ⟨info, hinfo, -⟩ := Option.map_eq_some_iff.mp hc
        exact ⟨info, ⟨v, hv, hinfo⟩, (hs.consistent.info v info hinfo).1⟩
    · intro info hinfo
      obtain ⟨v, -, hinfo⟩ := (reports_groupByChain lower s.nodesInfo start info).mp hinfo
      obtain ⟨rfl, hconfidence⟩ := hs.consistent.info v info hinfo
      refine ⟨hs.search.optimal info.address info.linkConfidence ?_, hconfidence⟩
      simp [SearchState.view, hinfo]

/-- Two linked Stellar addresses. -/
def sampleGraph : IdentityGraph ℚ :=
  IdentityGraph.empty.addEdge id (fun _ => false) "GA" "GB" "bridge" 1

theorem sampleGraph_linked :
    sampleGraph.LinkedPair 0 "GA" "GB" 1 ∧ sampleGraph.LinkedPair 0 "GB" "GA" 1 := by
  refine ⟨⟨?_, ?_, ?_⟩, ?_, ?_, ?_⟩ <;> decide +kernel

/-- The other address is reported. -/
theorem sampleGraph_reports : ∃ groups,
    sampleGraph.getConnectedComponent id "GA" 0 = some groups ∧
      ∃ info, groups.Reports info ∧ info.address = "GB" := by
  obtain ⟨groups, hgroups, hreach, -⟩ := connected_component_exact id sampleGraph "GA" 0
  have hstart : normalizeAddress id "GA" = "GA" := by decide +kernel
  rw [hstart] at hreach
  refine ⟨groups, hgroups, (hreach "GB").mpr ⟨by decide, 1 * 1, ?_⟩⟩
  exact WeightedPath.refl.step sampleGraph_linked.1

/-- The start can be reached along linked pairs, and is not reported. -/
theorem start_reachable_not_reported :
    WeightedPath (sampleGraph.LinkedPair 0) "GA" "GA" 1 ∧
    (sampleGraph.getConnectedComponent id "GA" 0).map (fun groups =>
      groups.rows.map fun row => (row.1, row.2.map NodeInfo.address)) =
        some [("eth", []), ("sol", []), ("stellar", ["GB"])] := by
  constructor
  · simpa using (WeightedPath.refl.step sampleGraph_linked.1).step sampleGraph_linked.2
  · decide +kernel

end LedgerLens.Detection.CrossChain
