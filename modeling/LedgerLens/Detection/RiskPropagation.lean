import LedgerLens.Library.PowerIteration
import LedgerLens.Library.UniqueTable
import Mathlib.Algebra.BigOperators.Fin
import Mathlib.Algebra.Order.Ring.Rat
import Mathlib.Data.List.FinRange
import Mathlib.Data.Rat.Floor
import Mathlib.Logic.Relation

/-!
# Risk propagation

`propagate_risk_scores` spreads the scores of wallets over a graph of funding and of trades, with a
personalised PageRank vector for each wallet that has a score. `propagation_attribution` computes
the same vectors again and says what each wallet contributes to another one. Numbers are exact
here, and no scores of other chains are linked.
-/

namespace LedgerLens.Detection.Propagation

open PowerIteration

variable {Node : Type} [DecidableEq Node]

/-- A graph of networkx. In a `DiGraph` an edge goes from its first node to its second, in a
`Graph` it has no direction. -/
structure NxGraph (Node : Type) where
  /-- The nodes in the order in which they were added. -/
  nodes : List Node
  /-- No node is added twice. -/
  nodup : nodes.Nodup
  /-- The edges. -/
  edges : List (Node × Node)
  /-- No edge is added twice. -/
  nodup_edges : edges.Nodup
  /-- The ends of an edge are nodes. -/
  mem_nodes : ∀ e ∈ edges, e.1 ∈ nodes ∧ e.2 ∈ nodes

/-- The nodes of a graph and of another one. -/
def addNodes (nodes others : List Node) : List Node := nodes ++ others.filter (· ∉ nodes)

/-- Both directions of some edges. -/
def bothDirections (edges : List (Node × Node)) : List (Node × Node) :=
  edges.flatMap fun e => [(e.1, e.2), (e.2, e.1)]

theorem mem_addNodes {nodes others : List Node} {v : Node} :
    v ∈ addNodes nodes others ↔ v ∈ nodes ∨ v ∈ others := by
  unfold addNodes
  rw [List.mem_append, List.mem_filter, decide_eq_true_eq]
  tauto

theorem nodup_addNodes {nodes others : List Node} (h : nodes.Nodup) (h' : others.Nodup) :
    (addNodes nodes others).Nodup := by
  unfold addNodes
  refine h.append (h'.filter _) fun v hv hv' => ?_
  exact (of_decide_eq_true (List.mem_filter.mp hv').2) hv

/-- `_build_combined_graph`. -/
def buildCombinedGraph (fundingGraph : NxGraph Node) (coTradeGraph : Option (NxGraph Node)) :
    NxGraph Node :=
  match coTradeGraph with
  | none => fundingGraph
  | some coTrade =>
    { nodes := addNodes fundingGraph.nodes coTrade.nodes
      nodup := nodup_addNodes fundingGraph.nodup coTrade.nodup
      edges := (fundingGraph.edges ++ bothDirections coTrade.edges).dedup
      nodup_edges := List.nodup_dedup _
      mem_nodes := by
        intro e he
        rw [List.mem_dedup, List.mem_append] at he
        obtain he | he := he
        · obtain ⟨h₁, h₂⟩ := fundingGraph.mem_nodes e he
          exact ⟨mem_addNodes.mpr (Or.inl h₁), mem_addNodes.mpr (Or.inl h₂)⟩
        · obtain ⟨e', he', hmem⟩ := List.mem_flatMap.mp he
          obtain ⟨h₁, h₂⟩ := coTrade.mem_nodes e' he'
          have hends : e.1 ∈ coTrade.nodes ∧ e.2 ∈ coTrade.nodes := by
            obtain rfl | hmem := List.mem_cons.mp hmem
            · exact ⟨h₁, h₂⟩
            · obtain rfl := List.mem_singleton.mp hmem
              exact ⟨h₂, h₁⟩
          exact ⟨mem_addNodes.mpr (Or.inr hends.1), mem_addNodes.mpr (Or.inr hends.2)⟩ }

namespace NxGraph

variable (g : NxGraph Node)

/-- The number of nodes. -/
abbrev order : ℕ := g.nodes.length

/-- `node_idx`. -/
def nodeIdx (v : Node) : ℕ := g.nodes.idxOf v

/-- The index of a node. -/
def index (v : Node) (hv : v ∈ g.nodes) : Fin g.order :=
  ⟨g.nodeIdx v, List.idxOf_lt_length_iff.mpr hv⟩

/-- The adjacency matrix. -/
def adjRaw (i j : Fin g.order) : ℚ := g.edges.count (g.nodes.get i, g.nodes.get j)

/-- The sums of its rows, with one in place of zero. -/
def rowSum (i : Fin g.order) : ℚ :=
  if ∑ j, g.adjRaw i j = 0 then 1 else ∑ j, g.adjRaw i j

/-- `A_csr`: the adjacency matrix with its rows normalised. -/
def adjacency (i j : Fin g.order) : ℚ :=
  if g.edges = [] then 0 else 1 / g.rowSum i * g.adjRaw i j

end NxGraph

/-- The parameters of the propagation. -/
structure PropagationSettings where
  /-- `alpha`. -/
  alpha : ℚ
  /-- `max_iterations`. -/
  maxIterations : ℕ
  /-- `convergence_tol`. -/
  convergenceTol : ℚ

/-- `_personalised_pagerank` of the normalised adjacency matrix of a graph. -/
def personalisedPagerank (settings : PropagationSettings) (g : NxGraph Node) (seedIdx : ℕ) :
    Fin g.order → ℚ :=
  let start := fun i : Fin g.order => if i.val = seedIdx then 1 else 0
  iterate (restartStep g.adjacency settings.alpha start) settings.convergenceTol
    settings.maxIterations start

/-- `seeds_in_graph`. -/
def seedsInGraph (g : NxGraph Node) (baseScores : UniqueTable Node ℚ) : List (Node × ℚ) :=
  baseScores.rows.filter fun seed => seed.1 ∈ g.nodes ∧ 0 < seed.2

/-- `propagated * 100.0`: the scores before clipping. -/
def propagated (settings : PropagationSettings) (g : NxGraph Node)
    (baseScores : UniqueTable Node ℚ) : Fin g.order → ℚ :=
  let total := (seedsInGraph g baseScores).foldl
    (fun total seed => total +
      (seed.2 / 100) • personalisedPagerank settings g (g.nodeIdx seed.1)) 0
  fun i => total i * 100

/-- `np.clip(x, 0.0, 100.0)`. -/
def clip (x : ℚ) : ℚ := min (max x 0) 100

/-- A dictionary with a value for each node. -/
def nodeTable (g : NxGraph Node) (f : Fin g.order → ℚ) : UniqueTable Node ℚ where
  rows := (List.finRange g.order).map fun i => (g.nodes.get i, f i)
  nodup := by
    rw [List.map_map]
    have hnodes : (List.finRange g.order).map (Prod.fst ∘ fun i => (g.nodes.get i, f i)) =
        g.nodes := List.map_get_finRange g.nodes
    rw [hnodes]
    exact g.nodup

/-- `propagate_risk_scores`. -/
def propagateRiskScores (settings : PropagationSettings) (baseScores : UniqueTable Node ℚ)
    (fundingGraph : NxGraph Node) (coTradeGraph : Option (NxGraph Node)) :
    UniqueTable Node ℚ :=
  let combined := buildCombinedGraph fundingGraph coTradeGraph
  if combined.nodes = [] then .empty
  else if seedsInGraph combined baseScores = [] then nodeTable combined fun _ => 0
  else nodeTable combined fun i => clip (propagated settings combined baseScores i)

/-- The nearest integer, and the even one of two. -/
def roundHalfEven (x : ℚ) : ℤ :=
  if x - ⌊x⌋ < 1 / 2 then ⌊x⌋
  else if 1 / 2 < x - ⌊x⌋ then ⌊x⌋ + 1
  else if ⌊x⌋ % 2 = 0 then ⌊x⌋
  else ⌊x⌋ + 1

/-- Rounding changes a number by one half at most. -/
theorem abs_sub_roundHalfEven_le (x : ℚ) : |x - roundHalfEven x| ≤ 1 / 2 := by
  have hlower := Int.floor_le x
  have hupper := Int.lt_floor_add_one x
  unfold roundHalfEven
  rw [abs_le]
  split_ifs
  all_goals
    push_cast
    constructor <;> linarith

@[simp] theorem roundHalfEven_intCast (n : ℤ) : roundHalfEven n = n := by
  simp [roundHalfEven]

/-- `round(x, digits)`. -/
def roundTo (digits : ℕ) (x : ℚ) : ℚ := roundHalfEven (x * 10 ^ digits) / 10 ^ digits

/-- Rounding changes a number by half a unit of the last digit at most. -/
theorem abs_sub_roundTo_le (digits : ℕ) (x : ℚ) : |x - roundTo digits x| ≤ 1 / 2 / 10 ^ digits := by
  have hpos : (0 : ℚ) < 10 ^ digits := by positivity
  have hround := abs_sub_roundHalfEven_le (x * 10 ^ digits)
  have hscaled : x - roundTo digits x =
      (x * 10 ^ digits - roundHalfEven (x * 10 ^ digits)) / 10 ^ digits := by
    unfold roundTo
    field_simp
  rw [hscaled, abs_div, abs_of_pos hpos]
  gcongr

/-- What is rounded stays as it is. -/
theorem roundTo_roundTo (digits : ℕ) (x : ℚ) :
    roundTo digits (roundTo digits x) = roundTo digits x := by
  unfold roundTo
  rw [div_mul_cancel₀ _ (by positivity), roundHalfEven_intCast]

/-- What a wallet contributes to another one. -/
structure Contribution (Node : Type) where
  /-- `source_wallet`. -/
  sourceWallet : Node
  /-- `base_score`. -/
  baseScore : ℚ
  /-- `ppr_weight`. -/
  pprWeight : ℚ
  /-- The contribution before it is rounded, which the code does not return. -/
  unrounded : ℚ
  /-- `contribution`. -/
  contribution : ℚ
  /-- `fraction`, which is added at the end. -/
  fraction : Option ℚ := none

/-- The contribution of a seed to the node with an index. -/
def seedContribution (settings : PropagationSettings) (g : NxGraph Node) (targetIdx : Fin g.order)
    (seed : Node × ℚ) : Contribution Node :=
  let pprWeight := personalisedPagerank settings g (g.nodeIdx seed.1) targetIdx
  let contribution := seed.2 / 100 * pprWeight * 100
  { sourceWallet := seed.1
    baseScore := seed.2
    pprWeight := roundTo 6 pprWeight
    unrounded := contribution
    contribution := roundTo 4 contribution }

/-- `propagation_attribution`. -/
def propagationAttribution (settings : PropagationSettings) (wallet : Node)
    (baseScores : UniqueTable Node ℚ) (fundingGraph : NxGraph Node)
    (coTradeGraph : Option (NxGraph Node)) (topN : ℕ) : List (Contribution Node) :=
  let combined := buildCombinedGraph fundingGraph coTradeGraph
  if hwallet : wallet ∈ combined.nodes then
    let seeds := seedsInGraph combined baseScores
    let contributions :=
      (seeds.map (seedContribution settings combined (combined.index wallet hwallet))).filter
        fun c => 0 < c.unrounded
    let totalContribution := (contributions.map Contribution.unrounded).sum
    if seeds = [] then []
    else if totalContribution = 0 then []
    else
      ((contributions.map fun c =>
        { c with fraction := some (roundTo 4 (c.contribution / totalContribution)) }).insertionSort
          fun a b => b.contribution ≤ a.contribution).take topN
  else []

section Pagerank

variable (g : NxGraph Node) (settings : PropagationSettings)

/-- A node can be reached from another one along the edges. -/
def Reaches (u v : Node) : Prop := Relation.ReflTransGen (fun a b => (a, b) ∈ g.edges) u v

theorem get_index {v : Node} (hv : v ∈ g.nodes) : g.nodes.get (g.index v hv) = v :=
  List.getElem_idxOf _

theorem adjRaw_nonneg (i j : Fin g.order) : 0 ≤ g.adjRaw i j := Nat.cast_nonneg _

theorem adjacency_nonneg (i j : Fin g.order) : 0 ≤ g.adjacency i j := by
  have hsum : 0 ≤ ∑ j, g.adjRaw i j := Finset.sum_nonneg fun j _ => adjRaw_nonneg g i j
  have hrow : 0 ≤ g.rowSum i := by
    unfold NxGraph.rowSum
    split_ifs
    · exact zero_le_one
    · exact hsum
  unfold NxGraph.adjacency
  split_ifs
  · exact le_rfl
  · exact mul_nonneg (div_nonneg zero_le_one hrow) (adjRaw_nonneg g i j)

/-- The matrix follows the edges. -/
theorem mem_edges_of_adjacency {i j : Fin g.order} (h : g.adjacency i j ≠ 0) :
    (g.nodes.get i, g.nodes.get j) ∈ g.edges := by
  unfold NxGraph.adjacency at h
  split_ifs at h with hedges
  · exact absurd rfl h
  · have hraw := right_ne_zero_of_mul h
    unfold NxGraph.adjRaw at hraw
    have hcount : g.edges.count (g.nodes.get i, g.nodes.get j) ≠ 0 :=
      fun hzero => hraw (by rw [hzero, Nat.cast_zero])
    exact List.count_pos_iff.mp (Nat.pos_of_ne_zero hcount)

/-- The vector of a seed is zero at what cannot be reached from it. -/
theorem personalisedPagerank_eq_zero {w : Node} (hw : w ∈ g.nodes) {j : Fin g.order}
    (hj : ¬Reaches g w (g.nodes.get j)) :
    personalisedPagerank settings g (g.nodeIdx w) j = 0 := by
  refine iterate_eq_zero (s := {i | Reaches g w (g.nodes.get i)}) (fun i hi j hA => ?_)
    (fun i hi => ?_) _ _ j hj
  · exact Relation.ReflTransGen.tail hi (mem_edges_of_adjacency g hA)
  · refine if_neg fun hseed => hi ?_
    have hindex : i = g.index w hw := Fin.ext hseed
    have hself : Reaches g w w := Relation.ReflTransGen.refl
    show Reaches g w (g.nodes.get i)
    rw [hindex, get_index]
    exact hself

variable {settings}

/-- The vector of a seed has no negative entries. -/
theorem personalisedPagerank_nonneg (halpha : 0 ≤ settings.alpha) (halpha' : settings.alpha ≤ 1)
    (seedIdx : ℕ) (j : Fin g.order) : 0 ≤ personalisedPagerank settings g seedIdx j := by
  refine iterate_nonneg (adjacency_nonneg g) halpha halpha' (fun i => ?_) _ _ j
  split_ifs
  · exact zero_le_one
  · exact le_rfl

end Pagerank

section Scores

variable (settings : PropagationSettings) (g : NxGraph Node) (baseScores : UniqueTable Node ℚ)

omit [DecidableEq Node] in
/-- The vectors of some seeds are added up, each with its score as a weight. -/
theorem foldl_seeds_eq_sum {n : ℕ} (vector : Node × ℚ → Fin n → ℚ) (seeds : List (Node × ℚ))
    (i : Fin n) :
    (seeds.foldl (fun total seed => total + (seed.2 / 100) • vector seed) 0) i * 100 =
      (seeds.map fun seed => seed.2 / 100 * vector seed i * 100).sum := by
  have hfold : ∀ total : Fin n → ℚ,
      (seeds.foldl (fun total seed => total + (seed.2 / 100) • vector seed) total) i * 100 =
        total i * 100 + (seeds.map fun seed => seed.2 / 100 * vector seed i * 100).sum := by
    induction seeds with
    | nil => simp
    | cons seed seeds ih =>
      intro total
      rw [List.foldl_cons, ih, List.map_cons, List.sum_cons, Pi.add_apply, Pi.smul_apply, add_mul,
        add_assoc]
      rfl
  rw [hfold, Pi.zero_apply, zero_mul, zero_add]

/-- The score before clipping is the sum of what the seeds contribute. -/
theorem propagated_eq_sum (i : Fin g.order) :
    propagated settings g baseScores i =
      ((seedsInGraph g baseScores).map fun seed =>
        (seedContribution settings g i seed).unrounded).sum :=
  foldl_seeds_eq_sum (fun seed => personalisedPagerank settings g (g.nodeIdx seed.1)) _ i

variable {settings g baseScores}

/-- The seeds are the nodes with a positive score. -/
theorem mem_seedsInGraph_iff {w : Node} {score : ℚ} :
    (w, score) ∈ seedsInGraph g baseScores ↔
      baseScores.find? w = some score ∧ w ∈ g.nodes ∧ 0 < score := by
  unfold seedsInGraph
  rw [List.mem_filter, UniqueTable.find?_eq_some_iff, decide_eq_true_eq]

/-- No seed contributes less than nothing. -/
theorem seedContribution_nonneg (halpha : 0 ≤ settings.alpha) (halpha' : settings.alpha ≤ 1)
    (i : Fin g.order) {seed : Node × ℚ} (hseed : seed ∈ seedsInGraph g baseScores) :
    0 ≤ (seedContribution settings g i seed).unrounded := by
  have hscore := (mem_seedsInGraph_iff.mp hseed).2.2
  have hweight := personalisedPagerank_nonneg g halpha halpha' (g.nodeIdx seed.1) i
  exact mul_nonneg (mul_nonneg (div_nonneg hscore.le (by norm_num)) hweight) (by norm_num)

/-- A sum over the seeds is one over the nodes, of which the others count as without a score. -/
theorem sum_seedsInGraph {F : Node → ℚ → ℚ} (hF : ∀ w, F w 0 = 0) :
    ((seedsInGraph g baseScores).map fun seed => F seed.1 seed.2).sum =
      ∑ w ∈ g.nodes.toFinset, F w (max ((baseScores.find? w).getD 0) 0) := by
  obtain ⟨f, hf⟩ : ∃ f : Node → ℚ, f = fun w => F w (max ((baseScores.find? w).getD 0) 0) :=
    ⟨_, rfl⟩
  have hseed : ∀ seed ∈ seedsInGraph g baseScores, F seed.1 seed.2 = f seed.1 := by
    intro seed hseed
    obtain ⟨hfind, -, hpos⟩ := mem_seedsInGraph_iff.mp hseed
    rw [hf]
    dsimp only
    rw [hfind, Option.getD_some, max_eq_left hpos.le]
  have hnodup : ((seedsInGraph g baseScores).map Prod.fst).Nodup :=
    baseScores.nodup.sublist (List.filter_sublist.map _)
  have hsubset : ((seedsInGraph g baseScores).map Prod.fst).toFinset ⊆ g.nodes.toFinset := by
    intro w hw
    obtain ⟨seed, hseed, rfl⟩ := List.mem_map.mp (List.mem_toFinset.mp hw)
    exact List.mem_toFinset.mpr (mem_seedsInGraph_iff.mp hseed).2.1
  have hzero : ∀ w ∈ g.nodes.toFinset,
      w ∉ ((seedsInGraph g baseScores).map Prod.fst).toFinset → f w = 0 := by
    intro w hw hnot
    have hscore : max ((baseScores.find? w).getD 0) 0 = 0 := by
      refine max_eq_right (not_lt.mp fun hpos => hnot ?_)
      cases hfind : baseScores.find? w with
      | none =>
        rw [hfind, Option.getD_none] at hpos
        exact absurd hpos (lt_irrefl 0)
      | some score =>
        rw [hfind, Option.getD_some] at hpos
        exact List.mem_toFinset.mpr (List.mem_map_of_mem (mem_seedsInGraph_iff.mpr
          ⟨hfind, List.mem_toFinset.mp hw, hpos⟩))
    rw [hf]
    dsimp only
    rw [hscore, hF]
  rw [List.map_congr_left hseed, ← hf, ← Finset.sum_subset hsubset hzero,
    List.sum_toFinset _ hnodup, List.map_map]
  rfl

/-- The scores before clipping, as a sum over the nodes. -/
theorem propagated_eq_sum_nodes (i : Fin g.order) :
    propagated settings g baseScores i =
      ∑ w ∈ g.nodes.toFinset, max ((baseScores.find? w).getD 0) 0 / 100 *
        personalisedPagerank settings g (g.nodeIdx w) i * 100 := by
  rw [propagated_eq_sum]
  refine sum_seedsInGraph
    (F := fun w score => score / 100 * personalisedPagerank settings g (g.nodeIdx w) i * 100)
    fun w => ?_
  rw [zero_div, zero_mul, zero_mul]

/-- Larger scores of the wallets make larger scores before clipping. -/
theorem propagated_mono (halpha : 0 ≤ settings.alpha) (halpha' : settings.alpha ≤ 1)
    {baseScores' : UniqueTable Node ℚ}
    (hle : ∀ w, (baseScores.find? w).getD 0 ≤ (baseScores'.find? w).getD 0) (i : Fin g.order) :
    propagated settings g baseScores i ≤ propagated settings g baseScores' i := by
  rw [propagated_eq_sum_nodes, propagated_eq_sum_nodes]
  refine Finset.sum_le_sum fun w _ => ?_
  have hweight := personalisedPagerank_nonneg g halpha halpha' (g.nodeIdx w) i
  have hscore := max_le_max_right 0 (hle w)
  gcongr

/-- What is stored for a node. -/
theorem find?_nodeTable (f : Fin g.order → ℚ) {v : Node} (hv : v ∈ g.nodes) :
    (nodeTable g f).find? v = some (f (g.index v hv)) := by
  refine (UniqueTable.find?_eq_some_iff _ v _).mpr ?_
  refine List.mem_map.mpr ⟨g.index v hv, List.mem_finRange _, ?_⟩
  rw [get_index]

variable {fundingGraph : NxGraph Node} {coTradeGraph : Option (NxGraph Node)}

/-- The score of a node of the combined graph. -/
theorem find?_propagateRiskScores {v : Node}
    (hv : v ∈ (buildCombinedGraph fundingGraph coTradeGraph).nodes) :
    (propagateRiskScores settings baseScores fundingGraph coTradeGraph).find? v =
      some (clip (propagated settings (buildCombinedGraph fundingGraph coTradeGraph) baseScores
        ((buildCombinedGraph fundingGraph coTradeGraph).index v hv))) := by
  unfold propagateRiskScores
  dsimp only
  split_ifs with hnodes hseeds
  · rw [hnodes] at hv
    cases hv
  · rw [find?_nodeTable _ hv, propagated_eq_sum, hseeds]
    rfl
  · exact find?_nodeTable _ hv

/-- A list of numbers that are not negative has the sum of those that are positive. -/
theorem sum_filter_pos {α : Type} {f : α → ℚ} {l : List α} (h : ∀ a ∈ l, 0 ≤ f a) :
    ((l.filter fun a => 0 < f a).map f).sum = (l.map f).sum := by
  induction l with
  | nil => rfl
  | cons a l ih =>
    have hrest := ih fun b hb => h b (List.mem_cons_of_mem _ hb)
    by_cases hpos : 0 < f a
    · rw [List.filter_cons_of_pos (by simpa using hpos), List.map_cons, List.sum_cons, hrest,
        List.map_cons, List.sum_cons]
    · have hzero : f a = 0 := le_antisymm (not_lt.mp hpos) (h a List.mem_cons_self)
      rw [List.filter_cons_of_neg (by simpa using hpos), hrest, List.map_cons, List.sum_cons, hzero,
        zero_add]

/-- The contributions to a node add up to its score before clipping, if all of them are
returned. -/
theorem sum_propagationAttribution (halpha : 0 ≤ settings.alpha) (halpha' : settings.alpha ≤ 1)
    {v : Node} (hv : v ∈ (buildCombinedGraph fundingGraph coTradeGraph).nodes) {topN : ℕ}
    (htop : (seedsInGraph (buildCombinedGraph fundingGraph coTradeGraph) baseScores).length ≤
      topN) :
    ((propagationAttribution settings v baseScores fundingGraph coTradeGraph topN).map
      Contribution.unrounded).sum =
        propagated settings (buildCombinedGraph fundingGraph coTradeGraph) baseScores
          ((buildCombinedGraph fundingGraph coTradeGraph).index v hv) := by
  unfold propagationAttribution
  dsimp only
  rw [dif_pos hv]
  rw [propagated_eq_sum]
  obtain ⟨all, hall⟩ : ∃ all, all =
    (seedsInGraph (buildCombinedGraph fundingGraph coTradeGraph) baseScores).map
      (seedContribution settings _ ((buildCombinedGraph fundingGraph coTradeGraph).index v hv)) :=
    ⟨_, rfl⟩
  have hnonneg : ∀ c ∈ all, 0 ≤ c.unrounded := by
    intro c hc
    rw [hall] at hc
    obtain ⟨seed, hseed, rfl⟩ := List.mem_map.mp hc
    exact seedContribution_nonneg halpha halpha' _ hseed
  have htotal := sum_filter_pos hnonneg
  have hsum : (all.map Contribution.unrounded).sum =
      ((seedsInGraph (buildCombinedGraph fundingGraph coTradeGraph) baseScores).map fun seed =>
        (seedContribution settings _ ((buildCombinedGraph fundingGraph coTradeGraph).index v hv)
          seed).unrounded).sum := by
    rw [hall, List.map_map]
    rfl
  rw [← hall, ← hsum, ← htotal]
  split_ifs with hseeds hzero
  · rw [hall, hseeds]
    rfl
  · rw [hzero]
    rfl
  · have hlength : (all.filter fun c => 0 < c.unrounded).length ≤ topN := by
      refine (List.length_filter_le _ _).trans ?_
      rw [hall, List.length_map]
      exact htop
    rw [List.take_of_length_le (by rw [List.length_insertionSort, List.length_map]; exact hlength),
      ((List.perm_insertionSort _ _).map _).sum_eq, List.map_map]
    rfl

/-- With `alpha` between zero and one: a node that cannot be reached from a wallet with a positive
score has the score zero, and larger scores of the wallets make larger scores of the nodes. Before
it is clipped, the score of a node is the sum of the contributions that are attributed to it, if
all of them are returned. -/
theorem propagation_correct (settings : PropagationSettings) (halpha : 0 < settings.alpha)
    (halpha' : settings.alpha < 1) (fundingGraph : NxGraph Node)
    (coTradeGraph : Option (NxGraph Node)) (baseScores : UniqueTable Node ℚ) {v : Node}
    (hv : v ∈ (buildCombinedGraph fundingGraph coTradeGraph).nodes) :
    ((∀ w score, baseScores.find? w = some score → 0 < score →
        w ∈ (buildCombinedGraph fundingGraph coTradeGraph).nodes →
        ¬Reaches (buildCombinedGraph fundingGraph coTradeGraph) w v) →
      (propagateRiskScores settings baseScores fundingGraph coTradeGraph).find? v = some 0) ∧
    (∀ baseScores' : UniqueTable Node ℚ,
      (∀ w, (baseScores.find? w).getD 0 ≤ (baseScores'.find? w).getD 0) →
      ∃ x y, (propagateRiskScores settings baseScores fundingGraph coTradeGraph).find? v =
          some x ∧
        (propagateRiskScores settings baseScores' fundingGraph coTradeGraph).find? v = some y ∧
        x ≤ y) ∧
    ∀ topN, (seedsInGraph (buildCombinedGraph fundingGraph coTradeGraph) baseScores).length ≤
        topN →
      ∃ x, x = propagated settings (buildCombinedGraph fundingGraph coTradeGraph) baseScores
          ((buildCombinedGraph fundingGraph coTradeGraph).index v hv) ∧
        x = ((propagationAttribution settings v baseScores fundingGraph coTradeGraph topN).map
          Contribution.unrounded).sum ∧
        (propagateRiskScores settings baseScores fundingGraph coTradeGraph).find? v =
          some (clip x) := by
  refine ⟨fun hunreachable => ?_, fun baseScores' hle => ?_, fun topN htop => ?_⟩
  · have hzero : propagated settings (buildCombinedGraph fundingGraph coTradeGraph) baseScores
        ((buildCombinedGraph fundingGraph coTradeGraph).index v hv) = 0 := by
      rw [propagated_eq_sum]
      refine List.sum_eq_zero fun x hx => ?_
      obtain ⟨⟨w, score⟩, hseed, rfl⟩ := List.mem_map.mp hx
      obtain ⟨hfind, hw, hpos⟩ := mem_seedsInGraph_iff.mp hseed
      have hnot := hunreachable w score hfind hpos hw
      rw [← get_index _ hv] at hnot
      unfold seedContribution
      dsimp only
      rw [personalisedPagerank_eq_zero _ settings hw hnot, mul_zero, zero_mul]
    rw [find?_propagateRiskScores hv, hzero]
    rfl
  · refine ⟨_, _, find?_propagateRiskScores hv, find?_propagateRiskScores hv, ?_⟩
    have hmono := propagated_mono halpha.le halpha'.le hle
      ((buildCombinedGraph fundingGraph coTradeGraph).index v hv)
    exact min_le_min_right _ (max_le_max_right _ hmono)
  · exact ⟨_, rfl, (sum_propagationAttribution halpha.le halpha'.le hv htop).symm,
      find?_propagateRiskScores hv⟩

end Scores

/-- Wallets that fund each other in a row, of which the last stands alone. -/
private def fundingSample : NxGraph ℕ where
  nodes := [0, 1, 2]
  nodup := by decide
  edges := [(0, 1)]
  nodup_edges := by decide
  mem_nodes := by decide

/-- The first wallet has a score. -/
private def scoreSample : UniqueTable ℕ ℚ where
  rows := [(0, 80)]
  nodup := by decide

/-- The settings, with the defaults of the code. -/
private def defaultSettings : PropagationSettings where
  alpha := 3 / 20
  maxIterations := 50
  convergenceTol := 1 / 1000000

/-- The last wallet cannot be reached from the first. -/
theorem unreachable_wallet_zero :
    (propagateRiskScores defaultSettings scoreSample fundingSample none).find? 2 = some 0 := by
  refine (propagation_correct defaultSettings (by decide +kernel) (by decide +kernel) fundingSample
    none scoreSample (by decide)).1 fun w score hfind hpos hw hreaches => ?_
  obtain heq | ⟨b, -, hedge⟩ := hreaches.cases_tail
  · have hnone : scoreSample.find? 2 = none := rfl
    rw [← heq, hnone] at hfind
    cases hfind
  · have hends := List.mem_singleton.mp hedge
    have htwo : 2 = 1 := (Prod.ext_iff.mp hends).2
    omega

end LedgerLens.Detection.Propagation
