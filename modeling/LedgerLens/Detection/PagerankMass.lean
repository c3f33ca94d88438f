import LedgerLens.Detection.RiskPropagation

/-!
# The mass of a PageRank vector

The vector of `_personalised_pagerank` is meant to add up to one. A node without outgoing edges has
a row of zeros in the normalised matrix, so that what has come to it is lost in the next turn. This
file says exactly when the iteration ends before that.
-/

namespace LedgerLens.Detection.Propagation

open PowerIteration

variable {Node : Type} [DecidableEq Node]

/-- A node without outgoing edges. -/
def IsSink (g : NxGraph Node) (v : Node) : Prop := ∀ e ∈ g.edges, e.1 ≠ v

instance (g : NxGraph Node) (v : Node) : Decidable (IsSink g v) :=
  inferInstanceAs (Decidable (∀ e ∈ g.edges, e.1 ≠ v))

/-- A node can be reached from another one along some number of edges. -/
def ReachesIn (g : NxGraph Node) : ℕ → Node → Node → Prop
  | 0, u, v => u = v
  | d + 1, u, v => ∃ w, ReachesIn g d u w ∧ (w, v) ∈ g.edges

/-- The vector at the start. -/
def startVector (g : NxGraph Node) (seedIdx : ℕ) : Fin g.order → ℚ :=
  fun i => if i.val = seedIdx then 1 else 0

/-- The vector after some turns. -/
def pagerankAfter (settings : PropagationSettings) (g : NxGraph Node) (seedIdx t : ℕ) :
    Fin g.order → ℚ :=
  (restartStep g.adjacency settings.alpha (startVector g seedIdx))^[t] (startVector g seedIdx)

/-- The change of a turn, `delta`. -/
def turnChange (settings : PropagationSettings) (g : NxGraph Node) (seedIdx t : ℕ) : ℚ :=
  ∑ i, |pagerankAfter settings g seedIdx (t + 1) i - pagerankAfter settings g seedIdx t i|

/-- The chances that a walk from a seed, which takes each edge of a node as likely as the others,
is at a node after some steps. -/
def walkAfter (g : NxGraph Node) (seedIdx t : ℕ) : Fin g.order → ℚ :=
  (walkStep g.adjacency)^[t] (startVector g seedIdx)

variable (g : NxGraph Node)

section Rows

variable {g}

/-- A row that is not that of a sink has a positive sum. -/
theorem sum_adjRaw_pos_iff (i : Fin g.order) :
    0 < ∑ j, g.adjRaw i j ↔ ¬IsSink g (g.nodes.get i) := by
  unfold IsSink
  push Not
  rw [Finset.sum_pos_iff_of_nonneg fun j _ => adjRaw_nonneg g i j]
  constructor
  · rintro ⟨j, -, hj⟩
    unfold NxGraph.adjRaw at hj
    exact ⟨_, List.count_pos_iff.mp (Nat.cast_pos.mp hj), rfl⟩
  · rintro ⟨⟨u, v⟩, hedge, hu⟩
    dsimp only at hu
    subst hu
    refine ⟨g.index v (g.mem_nodes _ hedge).2, Finset.mem_univ _, ?_⟩
    unfold NxGraph.adjRaw
    rw [get_index]
    exact Nat.cast_pos.mpr (List.count_pos_iff.mpr hedge)

/-- The rows of the matrix add up to one, but for those of the sinks. -/
theorem sum_adjacency (i : Fin g.order) :
    ∑ j, g.adjacency i j = if IsSink g (g.nodes.get i) then 0 else 1 := by
  have hpos := sum_adjRaw_pos_iff i
  have hnonneg : 0 ≤ ∑ j, g.adjRaw i j := Finset.sum_nonneg fun j _ => adjRaw_nonneg g i j
  unfold NxGraph.adjacency
  by_cases hedges : g.edges = []
  · have hsink : IsSink g (g.nodes.get i) := by
      intro e he
      rw [hedges] at he
      cases he
    simp only [if_pos hedges, if_pos hsink, Finset.sum_const_zero]
  · simp only [if_neg hedges]
    rw [← Finset.mul_sum]
    unfold NxGraph.rowSum
    by_cases hsink : IsSink g (g.nodes.get i)
    · have hzero : ∑ j, g.adjRaw i j = 0 :=
        le_antisymm (not_lt.mp fun h => hpos.mp h hsink) hnonneg
      rw [if_pos hsink, hzero, mul_zero]
    · have hne : ∑ j, g.adjRaw i j ≠ 0 := (hpos.mpr hsink).ne'
      rw [if_neg hsink, if_neg hne, one_div, inv_mul_cancel₀ hne]

/-- The positive entries of the matrix are those of the edges. -/
theorem adjacency_pos_iff (i j : Fin g.order) :
    0 < g.adjacency i j ↔ (g.nodes.get i, g.nodes.get j) ∈ g.edges := by
  constructor
  · exact fun h => mem_edges_of_adjacency g h.ne'
  · intro hedge
    have hraw : 0 < g.adjRaw i j := Nat.cast_pos.mpr (List.count_pos_iff.mpr hedge)
    have hsum : 0 < ∑ j, g.adjRaw i j :=
      (sum_adjRaw_pos_iff i).mpr fun hsink => hsink _ hedge rfl
    unfold NxGraph.adjacency NxGraph.rowSum
    rw [if_neg (List.ne_nil_of_mem hedge), if_neg hsum.ne']
    exact mul_pos (one_div_pos.mpr hsum) hraw

/-- The steps along positive entries are those along edges. -/
theorem hops_iff {w : Node} (hw : w ∈ g.nodes) (d : ℕ) (j : Fin g.order) :
    Hops g.adjacency d (g.index w hw) j ↔ ReachesIn g d w (g.nodes.get j) := by
  induction d generalizing j with
  | zero =>
    constructor
    · rintro rfl
      exact (get_index g hw).symm
    · intro h
      have hget : g.nodes.get (g.index w hw) = g.nodes.get j := (get_index g hw).trans h
      exact List.nodup_iff_injective_get.mp g.nodup hget
  | succ d ih =>
    constructor
    · rintro ⟨m, hm, hpos⟩
      exact ⟨g.nodes.get m, (ih m).mp hm, (adjacency_pos_iff m j).mp hpos⟩
    · rintro ⟨u, hu, hedge⟩
      have hnode := (g.mem_nodes _ hedge).1
      refine ⟨g.index u hnode, (ih _).mpr ?_, (adjacency_pos_iff _ j).mpr ?_⟩
      · rw [get_index]
        exact hu
      · rw [get_index]
        exact hedge

end Rows

/-- What a turn changes is what the next step of the walk changes. -/
theorem turnChange_eq (settings : PropagationSettings) (halpha' : settings.alpha ≤ 1)
    (seedIdx t : ℕ) :
    turnChange settings g seedIdx t = (1 - settings.alpha) ^ (t + 1) *
      ∑ i, |walkAfter g seedIdx (t + 1) i - walkAfter g seedIdx t i| := by
  unfold turnChange pagerankAfter walkAfter
  rw [Finset.mul_sum]
  refine Finset.sum_congr rfl fun i _ => ?_
  rw [orbit_change, abs_mul, abs_of_nonneg (pow_nonneg (sub_nonneg.mpr halpha') _)]

variable {g}

omit [DecidableEq Node] in
/-- Only nodes are reached. -/
theorem ReachesIn.mem_nodes {w v : Node} (hw : w ∈ g.nodes) {d : ℕ} (h : ReachesIn g d w v) :
    v ∈ g.nodes := by
  cases d with
  | zero =>
    obtain rfl : w = v := h
    exact hw
  | succ d =>
    obtain ⟨u, -, hedge⟩ := h
    exact (g.mem_nodes _ hedge).2

/-- The vector of a seed at the start. -/
theorem startVector_pos_iff {w : Node} (hw : w ∈ g.nodes) (i : Fin g.order) :
    0 < startVector g (g.nodeIdx w) i ↔ i = g.index w hw := by
  unfold startVector
  split_ifs with hi
  · exact iff_of_true zero_lt_one (Fin.ext hi)
  · exact iff_of_false (lt_irrefl 0) fun h => hi (congrArg Fin.val h)

omit [DecidableEq Node] in
theorem startVector_nonneg (seedIdx : ℕ) (i : Fin g.order) : 0 ≤ startVector g seedIdx i := by
  unfold startVector
  split_ifs
  · exact zero_le_one
  · exact le_rfl

theorem sum_startVector {w : Node} (hw : w ∈ g.nodes) :
    ∑ i, startVector g (g.nodeIdx w) i = 1 := by
  have hone : ∀ i, startVector g (g.nodeIdx w) i = if i = g.index w hw then 1 else 0 := by
    intro i
    unfold startVector
    exact if_congr (Fin.ext_iff (b := g.index w hw)).symm rfl rfl
  simp only [hone, Finset.sum_ite_eq', Finset.mem_univ, if_true]

/-- A node has something after some turns exactly if it can be reached in as many steps. -/
theorem pagerankAfter_eq_zero_iff {settings : PropagationSettings} (halpha : 0 < settings.alpha)
    (halpha' : settings.alpha < 1) {w : Node} (hw : w ∈ g.nodes) (t : ℕ) (i : Fin g.order) :
    pagerankAfter settings g (g.nodeIdx w) t i = 0 ↔
      ∀ d ≤ t, ¬ReachesIn g d w (g.nodes.get i) := by
  have hpos := orbit_pos_iff (adjacency_nonneg g) halpha.le halpha'
    (startVector_nonneg (g.nodeIdx w)) halpha t i
  have hreach : (∃ d ≤ t, ∃ k, 0 < startVector g (g.nodeIdx w) k ∧ Hops g.adjacency d k i) ↔
      ∃ d ≤ t, ReachesIn g d w (g.nodes.get i) := by
    simp only [startVector_pos_iff hw, exists_eq_left, hops_iff hw]
  have hnonneg : 0 ≤ pagerankAfter settings g (g.nodeIdx w) t i :=
    orbit_nonneg (adjacency_nonneg g) halpha.le halpha' (startVector_nonneg (g.nodeIdx w)) t i
  rw [hreach] at hpos
  constructor
  · intro hzero d hd h
    exact absurd hzero (hpos.mpr ⟨d, hd, h⟩).ne'
  · intro hnone
    refine le_antisymm (not_lt.mp fun h => ?_) hnonneg
    obtain ⟨d, hd, hd'⟩ := hpos.mp h
    exact hnone d hd hd'

/-- With `alpha` between zero and one: the vector of `_personalised_pagerank` has no negative
entries, and it adds up to one, exactly if the iteration ends before it goes on from a sink. This
is so if for every sink that can be reached in some steps there are no more turns than that, or
one of the steps of a walk before hardly changes where the walk is. -/
theorem pagerank_distribution_iff (settings : PropagationSettings) (halpha : 0 < settings.alpha)
    (halpha' : settings.alpha < 1) (g : NxGraph Node) {w : Node} (hw : w ∈ g.nodes) :
    ((∀ i, 0 ≤ personalisedPagerank settings g (g.nodeIdx w) i) ∧
      ∑ i, personalisedPagerank settings g (g.nodeIdx w) i = 1) ↔
    ∀ v, IsSink g v → ∀ d, ReachesIn g d w v → settings.maxIterations ≤ d ∨
      ∃ t < d, (1 - settings.alpha) ^ (t + 1) *
        ∑ i, |walkAfter g (g.nodeIdx w) (t + 1) i - walkAfter g (g.nodeIdx w) t i| <
          settings.convergenceTol := by
  simp only [← turnChange_eq g settings halpha'.le]
  have hnonneg : ∀ i, 0 ≤ personalisedPagerank settings g (g.nodeIdx w) i :=
    personalisedPagerank_nonneg g halpha.le halpha'.le _
  rw [and_iff_right hnonneg]
  obtain ⟨turns, hturns⟩ : ∃ turns, turns = turnsTaken
      (restartStep g.adjacency settings.alpha (startVector g (g.nodeIdx w)))
      (fun x x' => ∑ i, |x' i - x i| < settings.convergenceTol) settings.maxIterations
      (startVector g (g.nodeIdx w)) := ⟨_, rfl⟩
  have hresult : personalisedPagerank settings g (g.nodeIdx w) =
      pagerankAfter settings g (g.nodeIdx w) turns := by
    rw [hturns]
    exact (iterate_eq_iterateUntil _ _ _ _).trans (iterateUntil_eq _ _ _ _)
  have hrow : ∀ i, ∑ j, g.adjacency i j ≤ 1 := by
    intro i
    rw [sum_adjacency]
    split_ifs
    · exact zero_le_one
    · exact le_rfl
  have hone := (sum_orbit_eq_one_iff (adjacency_nonneg g) halpha.le halpha'
    (startVector_nonneg (g.nodeIdx w)) hrow (sum_startVector hw) turns).2
  have hlost : ∀ i, ∑ j, g.adjacency i j ≠ 1 ↔ IsSink g (g.nodes.get i) := by
    intro i
    rw [sum_adjacency]
    split_ifs with hsink
    · exact iff_of_true zero_ne_one hsink
    · exact iff_of_false (fun h => h rfl) hsink
  have hgoes : ∀ d, turns ≤ d ↔ settings.maxIterations ≤ d ∨
      ∃ t < d, turnChange settings g (g.nodeIdx w) t < settings.convergenceTol := by
    intro d
    rw [← not_lt, hturns, lt_turnsTaken_iff, not_and_or, not_lt]
    push Not
    rfl
  rw [hresult]
  refine hone.trans ⟨fun hkept v hsink d hreach => ?_, fun hends s hs i hi => ?_⟩
  · rw [← hgoes]
    by_contra hturn
    have hv := hreach.mem_nodes hw
    have hzero := hkept d (not_le.mp hturn) (g.index v hv)
      ((hlost _).mpr (by rw [get_index]; exact hsink))
    refine (pagerankAfter_eq_zero_iff halpha halpha' hw d (g.index v hv)).mp hzero d le_rfl ?_
    rw [get_index]
    exact hreach
  · refine (pagerankAfter_eq_zero_iff halpha halpha' hw s i).mpr fun d hd hreach => ?_
    have hend := (hgoes d).mpr (hends _ ((hlost i).mp hi) d hreach)
    omega

/-- The settings, with the defaults of the code. -/
private def standardSettings : PropagationSettings where
  alpha := 3 / 20
  maxIterations := 50
  convergenceTol := 1 / 1000000

/-- Two wallets that fund each other. -/
def fundingPair : NxGraph ℕ where
  nodes := [0, 1]
  nodup := by decide
  edges := [(0, 1), (1, 0)]
  nodup_edges := by decide
  mem_nodes := by decide

/-- The vector of one of them adds up to one. -/
theorem pagerank_pair :
    (∀ i, 0 ≤ personalisedPagerank standardSettings fundingPair 0 i) ∧
      ∑ i, personalisedPagerank standardSettings fundingPair 0 i = 1 := by
  refine (pagerank_distribution_iff standardSettings (by decide +kernel) (by decide +kernel)
    fundingPair (w := 0) (by decide)).mpr fun v hsink d hreach => ?_
  have hv := hreach.mem_nodes (by decide)
  have hnosink : ∀ v ∈ fundingPair.nodes, ¬IsSink fundingPair v := by decide
  exact absurd hsink (hnosink v hv)

/-- A wallet that funds another one, which funds none. -/
private def fundingEnd : NxGraph ℕ where
  nodes := [0, 1]
  nodup := by decide
  edges := [(1, 0)]
  nodup_edges := by decide
  mem_nodes := by decide

/-- Most of what the second wallet has is lost. -/
theorem pagerank_end :
    ∑ i, personalisedPagerank standardSettings fundingEnd 1 i = 111 / 400 := by
  decide +kernel

end LedgerLens.Detection.Propagation
