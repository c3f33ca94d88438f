import LedgerLens.Detection.IdentityGraph
import LedgerLens.Library.BestFirstSearch
import Mathlib.Algebra.Order.BigOperators.Group.List
import Mathlib.Data.Rat.Cast.Order
import Mathlib.Tactic.Linarith
import Mathlib.Tactic.NormNum

/-!
# What the component search reports

The loop of `get_connected_component` is a best-first search over the linked pairs of the
graph whose combined confidence reaches the minimum. Every address other than the start that
can be reached along such pairs is reported, with the strength of its strongest path.
-/

namespace LedgerLens.Detection.CrossChain

open BestFirst

variable {K : Type*} [Field K] [LinearOrder K] [IsStrictOrderedRing K]

/-! ## Confidences -/

/-- Every source's reliability lies between zero and one. -/
theorem Evidence.reliability_mem (evidence : Evidence K) :
    0 ≤ evidence.reliability ∧ evidence.reliability ≤ 1 := by
  have hall : ∀ entry ∈ evidenceReliability, 0 ≤ entry.2 ∧ entry.2 ≤ 1 := by
    intro entry hentry
    simp only [evidenceReliability, List.mem_cons, List.not_mem_nil, or_false] at hentry
    rcases hentry with rfl | rfl | rfl | rfl | rfl | rfl <;> norm_num
  have hunit : ∀ r, evidenceReliability.lookup evidence.evidenceType = some r →
      0 ≤ r ∧ r ≤ 1 := by
    intro r hr
    rw [List.lookup_eq_some_iff] at hr
    obtain ⟨before, after, hsplit, -⟩ := hr
    exact hall (evidence.evidenceType, r) (by rw [hsplit]; simp)
  have hdefault : 0 ≤ defaultReliability ∧ defaultReliability ≤ 1 := by
    norm_num [defaultReliability]
  unfold Evidence.reliability
  cases hlookup : evidenceReliability.lookup evidence.evidenceType with
  | none => exact_mod_cast hdefault
  | some r => exact_mod_cast hunit r hlookup

/-- So does the probability of a piece of evidence. -/
theorem Evidence.probability_mem (evidence : Evidence K) :
    0 ≤ evidence.probability ∧ evidence.probability ≤ 1 := by
  obtain ⟨hr, hr'⟩ := evidence.reliability_mem
  have hs : 0 ≤ min (max evidence.strength 0) 1 := le_min (le_max_right _ _) zero_le_one
  exact ⟨mul_nonneg hs hr, mul_le_one₀ (min_le_right _ _) hr hr'⟩

/-- A combined confidence lies between zero and one. -/
theorem combineConfidence_mem (evidence : List (Evidence K)) :
    0 ≤ combineConfidence evidence ∧ combineConfidence evidence ≤ 1 := by
  have hmiss : ∀ (evidence : List (Evidence K)) (miss : K), 0 ≤ miss → miss ≤ 1 →
      0 ≤ evidence.foldl (fun miss item => miss * (1 - item.probability)) miss ∧
        evidence.foldl (fun miss item => miss * (1 - item.probability)) miss ≤ 1 := by
    intro evidence
    induction evidence with
    | nil => exact fun miss h0 h1 => ⟨h0, h1⟩
    | cons item evidence ih =>
      intro miss h0 h1
      obtain ⟨hp, hp'⟩ := item.probability_mem
      have hfactor : 0 ≤ 1 - item.probability := by linarith
      exact ih _ (mul_nonneg h0 hfactor) (mul_le_one₀ h1 hfactor (by linarith))
  obtain ⟨h0, h1⟩ := hmiss evidence 1 zero_le_one (le_refl 1)
  unfold combineConfidence
  constructor <;> linarith

/-- The clamp around a combined confidence does nothing. -/
theorem clamp_combineConfidence (evidence : List (Evidence K)) :
    max 0 (min 1 (combineConfidence evidence)) = combineConfidence evidence := by
  obtain ⟨h0, h1⟩ := combineConfidence_mem evidence
  rw [min_eq_right h1, max_eq_right h0]

/-! ## Linked pairs -/

namespace IdentityGraph

/-- Two addresses are linked, and their combined confidence reaches the minimum. -/
def LinkedPair (g : IdentityGraph K) (minConfidence : K) (u v : String) (w : K) : Prop :=
  g.pairEvidence u v ≠ [] ∧ w = combineConfidence (g.pairEvidence u v) ∧ minConfidence ≤ w

variable {g : IdentityGraph K} {minConfidence : K} {lower : String → String}

theorem unitWeights_linkedPair : UnitWeights (g.LinkedPair minConfidence) := by
  rintro u v w ⟨-, rfl, -⟩
  exact combineConfidence_mem _

omit [Field K] [LinearOrder K] [IsStrictOrderedRing K] in
/-- The evidence of a neighbor is the evidence of the pair. -/
theorem find?_evidenceByNeighbor (g : IdentityGraph K) (current v : String) :
    (g.evidenceByNeighbor current).find? v =
      if g.pairEvidence current v = [] then none else some (g.pairEvidence current v) := by
  have hrows : (g.touching current).filter (fun row => neighbor current row.1 = v) =
      g.edges.rows.filter fun row =>
        row.1.sourceAddress = current ∧ row.1.targetAddress = v ∨
          row.1.sourceAddress = v ∧ row.1.targetAddress = current := by
    unfold touching
    rw [List.filter_filter]
    refine List.filter_congr fun row _ => ?_
    unfold neighbor
    by_cases hsource : row.1.sourceAddress = current
    · by_cases hv : current = v
      · simp [hsource, hv]
      · simp [hsource, hv]
    · simp [hsource]
  have hitems : (((g.touching current).map fun row =>
        (neighbor current row.1, edgeToEvidence row)).filter fun item => item.1 = v).map Prod.snd =
      g.pairEvidence current v := by
    rw [List.filter_map, List.map_map, pairEvidence, ← hrows]
    rfl
  have hkeys : v ∈ ((g.touching current).map fun row =>
      (neighbor current row.1, edgeToEvidence row)).map Prod.fst ↔
        g.pairEvidence current v ≠ [] := by
    rw [← hitems]
    simp
  have hfold : (g.pairEvidence current v).foldl (fun evidence item => evidence ++ [item]) [] =
      g.pairEvidence current v := by
    rw [List.foldl_append_eq_append, List.nil_append, ← List.flatMap_def, List.flatMap_singleton']
  unfold evidenceByNeighbor
  rw [UniqueTable.find?_collect, hitems, hfold]
  by_cases hempty : g.pairEvidence current v = []
  · rw [if_neg (by rw [hkeys]; exact fun h => h hempty), if_pos hempty]
  · rw [if_pos (hkeys.mpr hempty), if_neg hempty]

end IdentityGraph

/-! ## The loop as a best-first search -/

/-- What the variables of the loop say about the search. -/
def SearchState.view (s : SearchState K) : Search String K where
  best := s.best.find?
  queue := {e | (-e.1, e.2) ∈ s.heap}
  settled v := (s.nodesInfo.find? v).map NodeInfo.linkConfidence

/-- What the variables of the loop have to do with each other. -/
structure SearchState.Consistent (g : IdentityGraph K) (s : SearchState K) : Prop where
  /-- The addresses that are done are those of the result. -/
  done_iff : ∀ v, v ∈ s.done ↔ s.nodesInfo.find? v ≠ none
  /-- Queued addresses are nodes. -/
  queued : ∀ entry ∈ s.heap, g.nodes.find? entry.2 ≠ none
  /-- A node of the result is stored under its address, with one confidence. -/
  info : ∀ v info, s.nodesInfo.find? v = some info →
    info.address = v ∧ info.confidence = info.linkConfidence

/-- The variables of the loop are consistent, and the search is right but for some arcs. -/
structure SearchState.Invariant (g : IdentityGraph K) (minConfidence : K) (start : String)
    (pending : String → String → K → Prop) (s : SearchState K) : Prop where
  /-- The variables agree. -/
  consistent : s.Consistent g
  /-- The search is right. -/
  search : BestFirst.Invariant (g.LinkedPair minConfidence) start pending s.view

variable {g : IdentityGraph K} {minConfidence : K} {start : String} {s : SearchState K}

omit [Field K] [IsStrictOrderedRing K] in
/-- `heappop` takes an entry that no other is below. -/
theorem heappop_eq_some {heap rest : List (K × String)} {entry : K × String}
    (h : heappop heap = some (entry, rest)) :
    entry ∈ heap ∧ rest = heap.erase entry ∧ ∀ entry' ∈ heap, entry.1 ≤ entry'.1 := by
  unfold heappop at h
  split at h
  next => cases h
  next least hleast =>
    rw [Option.some.injEq, Prod.mk.injEq] at h
    obtain ⟨rfl, rfl⟩ := h
    refine ⟨List.argmin_mem hleast, rfl, ?_⟩
    intro entry' hentry'
    exact Prod.Lex.monotone_fst _ _ (List.le_of_mem_argmin hentry' hleast)

omit [Field K] [IsStrictOrderedRing K] in
theorem heappop_eq_none {heap : List (K × String)} (h : heappop heap = none) : heap = [] := by
  unfold heappop at h
  split at h
  next hnone => exact List.argmin_eq_none.mp hnone
  next => cases h

omit [IsStrictOrderedRing K] in
/-- The invariant holds before the loop, if the start is a node. -/
theorem SearchState.Invariant.init (hstart : g.nodes.find? start ≠ none) :
    (initialSearch start).Invariant g minConfidence start (fun _ _ _ => False) where
  consistent :=
    { done_iff := by simp [initialSearch]
      queued := by
        intro entry hentry
        simp only [initialSearch, List.mem_singleton] at hentry
        rw [hentry]
        exact hstart
      info := by simp [initialSearch] }
  search := by
    refine BestFirst.Invariant.init ?_ ?_ ?_ ?_
    · simp [SearchState.view, initialSearch]
    · intro v hv
      simp [SearchState.view, initialSearch, hv]
    · ext ⟨c, v⟩
      simp [SearchState.view, initialSearch]
    · simp [SearchState.view, initialSearch]

/-- The arcs from an address to some others are to be relaxed. -/
def pendingTo (current : String) (targets : List String) (u v : String) (_ : K) : Prop :=
  u = current ∧ v ∈ targets

omit [LinearOrder K] [IsStrictOrderedRing K] in
/-- Addresses that are not settled are not done. -/
theorem SearchState.Consistent.not_mem_done (h : s.Consistent g) {v : String}
    (hopen : s.view.settled v = none) : v ∉ s.done := by
  intro hv
  obtain ⟨info, hinfo⟩ := Option.ne_none_iff_exists'.mp ((h.done_iff v).mp hv)
  simp [SearchState.view, hinfo] at hopen

/-- One round of the inner loop relaxes the arc to its neighbor. -/
theorem SearchState.Invariant.relaxNeighbor {current v : String} {targets : List String}
    {negConf : K} (h : s.Invariant g minConfidence start (pendingTo current (v :: targets)))
    (hcurrent : s.view.settled current = some (-negConf)) (hlinked : g.pairEvidence current v ≠ [])
    (hnode : g.nodes.find? v ≠ none) :
    (relaxNeighbor minConfidence negConf s (v, g.pairEvidence current v)).Invariant g
        minConfidence start (pendingTo current targets) ∧
      (CrossChain.relaxNeighbor minConfidence negConf s
        (v, g.pairEvidence current v)).nodesInfo = s.nodesInfo := by
  have hw := combineConfidence_mem (g.pairEvidence current v)
  have hpath : WeightedPath (g.LinkedPair minConfidence) start current (-negConf) :=
    (h.search.optimal current _ hcurrent).1
  -- The only arc that this round has to care for.
  have hpass {s' : SearchState K} (h' : s'.Invariant g minConfidence start
        (pendingTo current (v :: targets))) (hsettled : s'.view.settled = s.view.settled)
      (hseen : minConfidence ≤ combineConfidence (g.pairEvidence current v) →
        s.view.settled v = none → ∃ b, s'.view.best v = some b ∧
          -negConf * combineConfidence (g.pairEvidence current v) ≤ b) :
      s'.Invariant g minConfidence start (pendingTo current targets) := by
    refine ⟨h'.consistent, h'.search.pass ?_⟩
    rintro u b x w hu ⟨-, rfl, hmin⟩ ⟨rfl, hx⟩ hnot hopen
    have hxv : x = v := by
      rcases List.mem_cons.mp hx with hxv | hx
      · exact hxv
      · exact absurd ⟨rfl, hx⟩ hnot
    subst hxv
    rw [hsettled] at hu hopen
    rw [hcurrent, Option.some.injEq] at hu
    rw [← hu]
    exact hseen hmin hopen
  unfold CrossChain.relaxNeighbor
  simp only [clamp_combineConfidence]
  split
  next hlow =>
    exact ⟨hpass h rfl fun hmin => absurd hmin (not_le.mpr hlow), rfl⟩
  next hmin =>
    have harc : g.LinkedPair minConfidence current v _ := ⟨hlinked, rfl, not_lt.mp hmin⟩
    split
    next hnew =>
      obtain ⟨hdone, hstronger⟩ := hnew
      refine ⟨hpass ⟨?_, ?_⟩ rfl ?_, rfl⟩
      · exact
          { done_iff := h.consistent.done_iff
            queued := by
              intro entry hentry
              rcases List.mem_cons.mp hentry with rfl | hentry
              · exact hnode
              · exact h.consistent.queued entry hentry
            info := h.consistent.info }
      · refine h.search.push (hpath.step harc) ?_ ?_ ?_ rfl ?_
        · intro b hb
          have hb : s.best.find? v = some b := hb
          rw [hb, Option.getD_some] at hstronger
          exact le_of_lt hstronger
        · simp [SearchState.view]
        · intro u hu
          simp [SearchState.view, hu]
        · rintro ⟨c, u⟩
          simp only [SearchState.view, Set.mem_ofPred_eq, List.mem_cons, Prod.mk.injEq, neg_inj]
      · intro _ _
        exact ⟨_, by simp [SearchState.view], le_refl _⟩
    next hold =>
      refine ⟨hpass h rfl ?_, rfl⟩
      intro _ hopen
      have hle : -negConf * combineConfidence (g.pairEvidence current v) ≤
          (s.best.find? v).getD (-1) :=
        not_lt.mp fun hlt => hold ⟨h.consistent.not_mem_done hopen, hlt⟩
      cases hbest : s.best.find? v with
      | some b =>
        rw [hbest, Option.getD_some] at hle
        exact ⟨b, hbest, hle⟩
      | none =>
        rw [hbest, Option.getD_none] at hle
        have hnonneg := mul_nonneg (hpath.nonneg IdentityGraph.unitWeights_linkedPair) hw.1
        linarith

/-- The inner loop relaxes the arcs to all neighbors. -/
theorem SearchState.Invariant.foldl_relaxNeighbor {current : String} {negConf : K}
    {rows : List (String × List (Evidence K))}
    (hrows : ∀ row ∈ rows, row.2 = g.pairEvidence current row.1 ∧ row.2 ≠ [] ∧
      g.nodes.find? row.1 ≠ none)
    (h : s.Invariant g minConfidence start (pendingTo current (rows.map Prod.fst)))
    (hcurrent : s.view.settled current = some (-negConf)) :
    (rows.foldl (CrossChain.relaxNeighbor minConfidence negConf) s).Invariant g minConfidence start
      (fun _ _ _ => False) := by
  induction rows generalizing s with
  | nil =>
    have hnone : pendingTo (K := K) current [] = fun _ _ _ => False := by
      funext u v w
      simp [pendingTo]
    simpa [hnone] using h
  | cons row rows ih =>
    obtain ⟨hevidence, hlinked, hnode⟩ := hrows row List.mem_cons_self
    obtain ⟨v, evidence⟩ := row
    simp only at hevidence
    subst hevidence
    obtain ⟨hnext, hinfo⟩ := h.relaxNeighbor hcurrent hlinked hnode
    refine ih (fun row hrow => hrows row (List.mem_cons_of_mem _ hrow)) hnext ?_
    have hsame : (CrossChain.relaxNeighbor minConfidence negConf s
        (v, g.pairEvidence current v)).view.settled = s.view.settled := by
      simp only [SearchState.view, hinfo]
    rw [hsame]
    exact hcurrent

omit [Field K] [LinearOrder K] [IsStrictOrderedRing K] in
/-- Linked addresses are nodes. -/
theorem IdentityGraph.find?_nodes_of_linked {u v : String} (h : g.pairEvidence u v ≠ []) :
    g.nodes.find? u ≠ none ∧ g.nodes.find? v ≠ none := by
  unfold IdentityGraph.pairEvidence at h
  obtain ⟨item, hitem⟩ := List.exists_mem_of_ne_nil _ h
  obtain ⟨row, hrow, -⟩ := List.mem_map.mp hitem
  rw [List.mem_filter, decide_eq_true_iff] at hrow
  obtain ⟨hmem, hends⟩ := hrow
  have hfind : g.edges.find? row.1 ≠ none := by
    rw [(UniqueTable.find?_eq_some_iff g.edges row.1 row.2).mpr hmem]
    simp
  obtain ⟨hsource, htarget⟩ := g.registered row.1 hfind
  rcases hends with ⟨rfl, rfl⟩ | ⟨rfl, rfl⟩
  · exact ⟨hsource, htarget⟩
  · exact ⟨htarget, hsource⟩

/-- The body of the outer loop keeps the search right. -/
theorem SearchState.Invariant.visit {negConf : K} {current : String}
    {heap : List (K × String)}
    (h : s.Invariant g minConfidence start (fun _ _ _ => False))
    (hpop : heappop s.heap = some ((negConf, current), heap)) :
    (g.visit minConfidence negConf current heap s).Invariant g minConfidence start
      (fun _ _ _ => False) := by
  obtain ⟨hmem, rfl, hmin⟩ := heappop_eq_some hpop
  have hqueued : ∀ entry ∈ s.heap.erase (negConf, current), g.nodes.find? entry.2 ≠ none :=
    fun entry hentry => h.consistent.queued entry (List.mem_of_mem_erase hentry)
  have hkeep : ∀ e : K × String, (-e.1, e.2) ∈ s.heap → e ≠ (-negConf, current) →
      (-e.1, e.2) ∈ s.heap.erase (negConf, current) := by
    intro e he hne
    refine (List.mem_erase_of_ne ?_).mpr he
    intro heq
    rw [Prod.mk.injEq] at heq
    exact hne (Prod.ext (by rw [← heq.1, neg_neg]) heq.2)
  unfold IdentityGraph.visit
  split
  next hdone =>
    refine ⟨⟨h.consistent.done_iff, hqueued, h.consistent.info⟩, ?_⟩
    have hsettled : s.view.settled current ≠ none := by
      simpa [SearchState.view] using (h.consistent.done_iff current).mp hdone
    exact h.search.skip rfl rfl hsettled (fun e he => List.mem_of_mem_erase he) hkeep
  next hnew =>
    split
    next hnone => exact absurd hnone (h.consistent.queued _ hmem)
    next node hnode =>
      have hopen : s.nodesInfo.find? current = none := by
        by_contra hinfo
        exact hnew ((h.consistent.done_iff current).mpr hinfo)
      have hrows : ∀ row ∈ (g.evidenceByNeighbor current).rows,
          row.2 = g.pairEvidence current row.1 ∧ row.2 ≠ [] ∧ g.nodes.find? row.1 ≠ none := by
        intro row hrow
        have hfind := (UniqueTable.find?_eq_some_iff _ row.1 row.2).mpr hrow
        rw [IdentityGraph.find?_evidenceByNeighbor] at hfind
        split at hfind
        next => cases hfind
        next hlinked =>
          rw [Option.some.injEq] at hfind
          exact ⟨hfind.symm, hfind ▸ hlinked, (IdentityGraph.find?_nodes_of_linked hlinked).2⟩
      refine SearchState.Invariant.foldl_relaxNeighbor hrows ⟨?_, ?_⟩ ?_
      · exact
          { done_iff := by
              intro v
              by_cases hv : v = current
              · simp [hv]
              · simp [hv, h.consistent.done_iff v]
            queued := hqueued
            info := by
              intro v info hinfo
              simp only [UniqueTable.find?_put] at hinfo
              split at hinfo
              next hv =>
                rw [Option.some.injEq] at hinfo
                subst hinfo
                exact ⟨hv.symm, rfl⟩
              next => exact h.consistent.info v info hinfo }
      · have hsettle : BestFirst.Invariant (g.LinkedPair minConfidence) start
            (fun u _ _ => u = current)
            (SearchState.view
              { s with
                heap := s.heap.erase (negConf, current)
                done := current :: s.done
                nodesInfo := s.nodesInfo.put current
                  ⟨current, node.chain, node.riskScore, -negConf, -negConf⟩ }) := by
          refine h.search.settle IdentityGraph.unitWeights_linkedPair (c := -negConf)
            (v := current) ?_ ?_ ?_ rfl ?_ ?_ (fun e he => List.mem_of_mem_erase he) hkeep
          · simpa [SearchState.view] using hmem
          · intro b u hb
            have hle := hmin _ hb
            simp only at hle
            linarith
          · simp [SearchState.view, hopen]
          · simp [SearchState.view]
          · intro u hu
            simp [SearchState.view, hu]
        refine hsettle.pass ?_
        rintro u b x w - ⟨hlinked, -, -⟩ rfl hnot
        refine absurd ⟨rfl, ?_⟩ hnot
        rw [← UniqueTable.isSome_find?_iff, IdentityGraph.find?_evidenceByNeighbor,
          if_neg hlinked]
        rfl
      · simp [SearchState.view]

end LedgerLens.Detection.CrossChain
