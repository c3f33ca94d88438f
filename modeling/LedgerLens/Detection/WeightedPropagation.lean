import LedgerLens.Detection.PagerankMass

/-!
# Weighted risk propagation

`WeightedRiskPropagation.propagate` iterates for each wallet with a score until the scores hardly
change. How many turns that takes depends on the score, and a further turn may lower the score of a
node: larger scores of the wallets can make smaller scores of the nodes, but only by as much as the
threshold allows. There are no trade data here, so that every edge has the weight one.
-/

namespace LedgerLens.Detection.Propagation

open PowerIteration

variable {Node : Type} [DecidableEq Node]

/-- `WeightedRiskPropagation`. -/
structure WeightedRiskPropagation where
  /-- `alpha`. -/
  alpha : ℚ
  /-- `max_iterations`. -/
  maxIterations : ℕ
  /-- `convergence_threshold`. -/
  convergenceThreshold : ℚ

/-- `_compute_edge_weights` without trade data. -/
def computeEdgeWeights (g : NxGraph Node) : List ((Node × Node) × ℚ) :=
  g.edges.map fun e => (e, 1)

/-- The adjacency matrix with the weights of the edges. -/
def weightedRaw (g : NxGraph Node) (i j : Fin g.order) : ℚ :=
  (((computeEdgeWeights g).filter fun e => e.1 = (g.nodes.get i, g.nodes.get j)).map Prod.snd).sum

/-- The sums of its rows, with one in place of zero. -/
def weightedRowSum (g : NxGraph Node) (i : Fin g.order) : ℚ :=
  if ∑ j, weightedRaw g i j = 0 then 1 else ∑ j, weightedRaw g i j

/-- `A_csr`: the weighted matrix with its rows normalised. -/
def weightedAdjacency (g : NxGraph Node) (i j : Fin g.order) : ℚ :=
  if computeEdgeWeights g = [] then 0 else 1 / weightedRowSum g i * weightedRaw g i j

/-- `delta_scores`: the greatest change of a score in a turn. -/
def deltaScores {n : ℕ} (score : ℚ) (ppr newPpr : Fin n → ℚ) : ℚ :=
  (List.ofFn fun i => |(newPpr i - ppr i) * (score / 100) * 100|).foldl max 0

namespace WeightedRiskPropagation

variable (p : WeightedRiskPropagation) (g : NxGraph Node)

/-- The new vector of a turn. -/
def turn (seedIdx : ℕ) : (Fin g.order → ℚ) → Fin g.order → ℚ :=
  restartStep (weightedAdjacency g) p.alpha (startVector g seedIdx)

/-- The iteration for a seed. -/
def seedVector (score : ℚ) (seedIdx : ℕ) : Fin g.order → ℚ :=
  iterateUntil (p.turn g seedIdx)
    (fun ppr newPpr => deltaScores score ppr newPpr < p.convergenceThreshold)
    p.maxIterations (startVector g seedIdx)

/-- `propagated * 100.0`: the scores before clipping. -/
def weightedTotal (baseScores : UniqueTable Node ℚ) : Fin g.order → ℚ :=
  let total := (seedsInGraph g baseScores).foldl
    (fun total seed => total + (seed.2 / 100) • p.seedVector g seed.2 (g.nodeIdx seed.1)) 0
  fun i => total i * 100

/-- `propagate`. -/
def propagate (baseScores : UniqueTable Node ℚ) : UniqueTable Node ℚ :=
  if g.nodes = [] then .empty
  else if seedsInGraph g baseScores = [] then nodeTable g fun _ => 0
  else nodeTable g fun i => clip (p.weightedTotal g baseScores i)

/-- How many turns the iteration for a seed takes. -/
def turns (score : ℚ) (seedIdx : ℕ) : ℕ :=
  turnsTaken (p.turn g seedIdx)
    (fun ppr newPpr => deltaScores score ppr newPpr < p.convergenceThreshold)
    p.maxIterations (startVector g seedIdx)

/-- The wallets with a score in the graph for which the iteration takes more turns if the scores
are other ones. -/
def takingLonger (baseScores baseScores' : UniqueTable Node ℚ) : Finset Node :=
  g.nodes.toFinset.filter fun w => 0 < (baseScores.find? w).getD 0 ∧
    p.turns g ((baseScores.find? w).getD 0) (g.nodeIdx w) <
      p.turns g ((baseScores'.find? w).getD 0) (g.nodeIdx w)

end WeightedRiskPropagation

section Weights

variable (g : NxGraph Node)

/-- Without trade data, the weighted matrix is the matrix of the edges. -/
theorem weightedRaw_eq (i j : Fin g.order) : weightedRaw g i j = g.adjRaw i j := by
  unfold weightedRaw computeEdgeWeights NxGraph.adjRaw
  rw [List.filter_map, List.map_map]
  have hones : ((g.edges.filter ((fun e => decide (e.1 = (g.nodes.get i, g.nodes.get j))) ∘
      fun e => (e, (1 : ℚ)))).map (Prod.snd ∘ fun e => (e, (1 : ℚ)))) =
      List.replicate (g.edges.count (g.nodes.get i, g.nodes.get j)) 1 := by
    rw [List.count_eq_length_filter]
    refine List.eq_replicate_iff.mpr ⟨?_, ?_⟩
    · rw [List.length_map]
      refine congrArg List.length (List.filter_congr fun e _ => ?_)
      rw [Bool.eq_iff_iff]
      simp
    · intro x hx
      obtain ⟨e, -, rfl⟩ := List.mem_map.mp hx
      rfl
  rw [hones, List.sum_replicate, nsmul_eq_mul, mul_one]

theorem weightedAdjacency_eq : weightedAdjacency g = g.adjacency := by
  funext i j
  unfold weightedAdjacency weightedRowSum NxGraph.adjacency NxGraph.rowSum computeEdgeWeights
  simp only [weightedRaw_eq, List.map_eq_nil_iff]

/-- The greatest change is less than a bound exactly if all of them are. -/
theorem deltaScores_lt_iff {n : ℕ} (i₀ : Fin n) (score bound : ℚ) (ppr newPpr : Fin n → ℚ) :
    deltaScores score ppr newPpr < bound ↔ ∀ i, |score| * |newPpr i - ppr i| < bound := by
  have hfold : ∀ (l : List ℚ) (x : ℚ), l.foldl max x < bound ↔ x < bound ∧ ∀ y ∈ l, y < bound := by
    intro l
    induction l with
    | nil => simp
    | cons y l ih =>
      intro x
      rw [List.foldl_cons, ih, max_lt_iff, List.forall_mem_cons, and_assoc]
  have hchange : ∀ i, |(newPpr i - ppr i) * (score / 100) * 100| =
      |score| * |newPpr i - ppr i| := by
    intro i
    rw [mul_assoc, div_mul_cancel₀ _ (by norm_num), abs_mul, mul_comm]
  unfold deltaScores
  simp only [hchange]
  rw [hfold, List.forall_mem_ofFn_iff]
  exact and_iff_right_of_imp fun h =>
    (mul_nonneg (abs_nonneg score) (abs_nonneg _)).trans_lt (h i₀)

end Weights

section Scores

variable {p : WeightedRiskPropagation} {g : NxGraph Node}

open WeightedRiskPropagation

/-- The vector of a seed is that after the turns that are taken. -/
theorem seedVector_eq (score : ℚ) (seedIdx : ℕ) :
    p.seedVector g score seedIdx =
      (p.turn g seedIdx)^[p.turns g score seedIdx] (startVector g seedIdx) :=
  iterateUntil_eq _ _ _ _

theorem orbit_turn_nonneg (halpha : 0 < p.alpha) (halpha' : p.alpha < 1) (seedIdx t : ℕ)
    (i : Fin g.order) : 0 ≤ (p.turn g seedIdx)^[t] (startVector g seedIdx) i := by
  unfold turn
  rw [weightedAdjacency_eq]
  exact orbit_nonneg (adjacency_nonneg g) halpha.le halpha' (startVector_nonneg seedIdx) t i

/-- A larger score takes at least as many turns. -/
theorem turns_mono (i₀ : Fin g.order) {score score' : ℚ} (hscore : 0 < score)
    (hle : score ≤ score') (seedIdx : ℕ) :
    p.turns g score seedIdx ≤ p.turns g score' seedIdx := by
  by_contra hmore
  obtain ⟨hturns, hgoes⟩ := (lt_turnsTaken_iff _ _ _ _).mp (not_le.mp hmore)
  refine lt_irrefl (p.turns g score' seedIdx)
    ((lt_turnsTaken_iff _ _ _ _).mpr ⟨hturns, fun t ht hdone => hgoes t ht ?_⟩)
  rw [deltaScores_lt_iff i₀] at hdone ⊢
  refine fun i => lt_of_le_of_lt (mul_le_mul_of_nonneg_right ?_ (abs_nonneg _)) (hdone i)
  rw [abs_of_pos hscore, abs_of_pos (hscore.trans_le hle)]
  exact hle

/-- What a wallet adds to the score of a node. -/
def weightedShare (p : WeightedRiskPropagation) (g : NxGraph Node) (i : Fin g.order) (w : Node)
    (score : ℚ) : ℚ :=
  score / 100 * p.seedVector g score (g.nodeIdx w) i * 100

/-- By how much a further turn may lower the score of a node. -/
def turnLoss (p : WeightedRiskPropagation) (g : NxGraph Node) : ℚ :=
  g.order * p.convergenceThreshold * ((1 - p.alpha) / p.alpha)

/-- Where the iteration ends early, all later turns change little. -/
theorem score_mul_distance_le (halpha : 0 < p.alpha) (halpha' : p.alpha < 1) (i₀ : Fin g.order)
    {score : ℚ} (hscore : 0 < score) (seedIdx : ℕ) {later : ℕ} (hlater : later ≤ p.maxIterations)
    (hearly : p.turns g score seedIdx < later) :
    score * distance (p.seedVector g score seedIdx)
      ((p.turn g seedIdx)^[later] (startVector g seedIdx)) ≤ turnLoss p g := by
  obtain ⟨turns, hturns⟩ : ∃ turns, turns = p.turns g score seedIdx := ⟨_, rfl⟩
  rw [seedVector_eq, ← hturns]
  rw [← hturns] at hearly
  -- The last turn changes less than the threshold.
  have hlast : ∃ t < turns, deltaScores score ((p.turn g seedIdx)^[t] (startVector g seedIdx))
      ((p.turn g seedIdx)^[t + 1] (startVector g seedIdx)) < p.convergenceThreshold := by
    by_contra hno
    push Not at hno
    have hmore : turns < p.turns g score seedIdx :=
      (lt_turnsTaken_iff _ _ _ _).mpr ⟨by omega, fun t ht => not_lt.mpr (hno t ht)⟩
    omega
  obtain ⟨t, ht, hdone⟩ := hlast
  have hend : turns = t + 1 := by
    by_contra hne
    have hgoes : t + 1 < p.turns g score seedIdx := by omega
    exact ((lt_turnsTaken_iff _ _ _ _).mp hgoes).2 t (Nat.lt_succ_self t) hdone
  obtain ⟨m, rfl⟩ : ∃ m, later = m + (t + 1) := ⟨later - (t + 1), by omega⟩
  obtain ⟨x, hx⟩ : ∃ x, x = (p.turn g seedIdx)^[t] (startVector g seedIdx) := ⟨_, rfl⟩
  have hnext : (p.turn g seedIdx)^[t + 1] (startVector g seedIdx) = p.turn g seedIdx x := by
    rw [hx, Function.iterate_succ_apply']
  rw [hnext, ← hx, deltaScores_lt_iff i₀] at hdone
  rw [hend, hnext, Function.iterate_add_apply, hnext]
  have hchange : score * distance x (p.turn g seedIdx x) ≤
      g.order * p.convergenceThreshold := by
    unfold distance
    rw [Finset.mul_sum]
    calc ∑ i, score * |p.turn g seedIdx x i - x i|
        ≤ ∑ _i : Fin g.order, p.convergenceThreshold := by
          rw [abs_of_pos hscore] at hdone
          exact Finset.sum_le_sum fun i _ => (hdone i).le
      _ = g.order * p.convergenceThreshold := by
          rw [Finset.sum_const, Finset.card_univ, Fintype.card_fin, nsmul_eq_mul]
  have hrow : ∀ i, ∑ j, weightedAdjacency g i j ≤ 1 := by
    intro i
    rw [weightedAdjacency_eq, sum_adjacency]
    split_ifs
    · exact zero_le_one
    · exact le_rfl
  have hentries : ∀ i j, 0 ≤ weightedAdjacency g i j := by
    rw [weightedAdjacency_eq]
    exact adjacency_nonneg g
  have hmove : p.alpha * distance (p.turn g seedIdx x)
      ((p.turn g seedIdx)^[m] (p.turn g seedIdx x)) ≤
        (1 - p.alpha) * distance x (p.turn g seedIdx x) :=
    distance_later_le hentries halpha.le halpha'.le hrow x m
  have hscaled := mul_le_mul_of_nonneg_left hmove hscore.le
  have hbound := mul_le_mul_of_nonneg_left hchange (sub_nonneg.mpr halpha'.le)
  unfold turnLoss
  rw [mul_div_assoc', le_div_iff₀ halpha]
  linarith

/-- What a wallet adds with a larger score, if that takes more turns. -/
theorem weightedShare_le_of_longer (halpha : 0 < p.alpha) (halpha' : p.alpha < 1)
    (i : Fin g.order) (w : Node) {score score' : ℚ} (hle : score ≤ score') (hpos : 0 < score)
    (hlonger : p.turns g score (g.nodeIdx w) < p.turns g score' (g.nodeIdx w)) :
    weightedShare p g i w score ≤ weightedShare p g i w score' + turnLoss p g := by
  obtain ⟨later, hlater⟩ : ∃ later, later = p.turns g score' (g.nodeIdx w) := ⟨_, rfl⟩
  have hmax : later ≤ p.maxIterations := by
    rw [hlater]
    exact turnsTaken_le _ _ _ _
  rw [← hlater] at hlonger
  have hmove := score_mul_distance_le halpha halpha' i hpos (g.nodeIdx w) hmax hlonger
  have hentry := orbit_turn_nonneg halpha halpha' (g.nodeIdx w) later i
  have hvector : p.seedVector g score' (g.nodeIdx w) =
      (p.turn g (g.nodeIdx w))^[later] (startVector g (g.nodeIdx w)) := by
    rw [seedVector_eq, hlater]
  obtain ⟨x, hx⟩ : ∃ x, x = p.seedVector g score (g.nodeIdx w) := ⟨_, rfl⟩
  obtain ⟨y, hy⟩ : ∃ y, y = p.seedVector g score' (g.nodeIdx w) := ⟨_, rfl⟩
  rw [← hvector, ← hx, ← hy] at hmove
  rw [← hvector, ← hy] at hentry
  unfold weightedShare
  rw [← hx, ← hy]
  have hdiff : x i - y i ≤ distance x y := by
    refine le_trans ?_ (abs_sub_le_distance x y i)
    rw [abs_sub_comm]
    exact le_abs_self _
  have hscaled := mul_le_mul_of_nonneg_left hdiff hpos.le
  have hlarger := mul_le_mul_of_nonneg_right hle hentry
  linarith

/-- What a wallet adds with a larger score, if that takes no more turns. -/
theorem weightedShare_le_of_same (halpha : 0 < p.alpha) (halpha' : p.alpha < 1)
    (i : Fin g.order) (w : Node) {score score' : ℚ} (hle : score ≤ score') (hpos : 0 < score)
    (hsame : p.turns g score' (g.nodeIdx w) ≤ p.turns g score (g.nodeIdx w)) :
    weightedShare p g i w score ≤ weightedShare p g i w score' := by
  have hturns := (turns_mono (p := p) i hpos hle (g.nodeIdx w)).antisymm hsame
  have hentry := orbit_turn_nonneg halpha halpha' (g.nodeIdx w)
    (p.turns g score' (g.nodeIdx w)) i
  unfold weightedShare
  rw [seedVector_eq, seedVector_eq, hturns]
  gcongr

/-- What a wallet without a score adds. -/
theorem weightedShare_zero (i : Fin g.order) (w : Node) : weightedShare p g i w 0 = 0 := by
  unfold weightedShare
  rw [zero_div, zero_mul, zero_mul]

theorem weightedShare_nonneg (halpha : 0 < p.alpha) (halpha' : p.alpha < 1) (i : Fin g.order)
    (w : Node) {score : ℚ} (hscore : 0 ≤ score) : 0 ≤ weightedShare p g i w score := by
  unfold weightedShare
  rw [seedVector_eq]
  have hentry := orbit_turn_nonneg halpha halpha' (g.nodeIdx w)
    (p.turns g score (g.nodeIdx w)) i
  positivity

/-- The scores before clipping, as a sum over the nodes. -/
theorem weightedTotal_eq_sum_nodes (baseScores : UniqueTable Node ℚ) (i : Fin g.order) :
    p.weightedTotal g baseScores i =
      ∑ w ∈ g.nodes.toFinset, weightedShare p g i w (max ((baseScores.find? w).getD 0) 0) := by
  refine (foldl_seeds_eq_sum
    (fun seed => p.seedVector g seed.2 (g.nodeIdx seed.1)) _ i).trans ?_
  exact sum_seedsInGraph (F := weightedShare p g i) (weightedShare_zero i)

/-- The score of a node. -/
theorem find?_propagate (p : WeightedRiskPropagation) (baseScores : UniqueTable Node ℚ) {v : Node}
    (hv : v ∈ g.nodes) :
    (p.propagate g baseScores).find? v =
      some (clip (p.weightedTotal g baseScores (g.index v hv))) := by
  unfold propagate
  split_ifs with hnodes hseeds
  · rw [hnodes] at hv
    cases hv
  · have htotal : p.weightedTotal g baseScores (g.index v hv) = 0 := by
      unfold weightedTotal
      rw [hseeds]
      exact zero_mul 100
    rw [find?_nodeTable _ hv, htotal]
    rfl
  · exact find?_nodeTable _ hv

/-- Larger scores of the wallets lower the score of a node before clipping by at most the loss of
those for which the iteration takes longer. -/
theorem weightedTotal_le (halpha : 0 < p.alpha) (halpha' : p.alpha < 1)
    {baseScores baseScores' : UniqueTable Node ℚ}
    (hle : ∀ w, (baseScores.find? w).getD 0 ≤ (baseScores'.find? w).getD 0) (i : Fin g.order) :
    p.weightedTotal g baseScores i ≤ p.weightedTotal g baseScores' i +
      (p.takingLonger g baseScores baseScores').card * turnLoss p g := by
  rw [weightedTotal_eq_sum_nodes, weightedTotal_eq_sum_nodes, takingLonger,
    ← nsmul_eq_mul, ← Finset.sum_const, Finset.sum_filter, ← Finset.sum_add_distrib]
  refine Finset.sum_le_sum fun w _ => ?_
  by_cases hpos : 0 < (baseScores.find? w).getD 0
  · have hscore := max_eq_left hpos.le
    have hscore' := max_eq_left (hpos.le.trans (hle w))
    rw [hscore, hscore']
    split_ifs with hlonger
    · exact weightedShare_le_of_longer halpha halpha' i w (hle w) hpos hlonger.2
    · rw [add_zero]
      exact weightedShare_le_of_same halpha halpha' i w (hle w) hpos
        (not_lt.mp fun h => hlonger ⟨hpos, h⟩)
  · rw [if_neg fun h => hpos h.1, add_zero, max_eq_right (not_lt.mp hpos), weightedShare_zero]
    exact weightedShare_nonneg halpha halpha' i w (le_max_right _ _)

/-- Nothing is negative that a further turn may take. -/
theorem card_mul_turnLoss_nonneg (halpha : 0 < p.alpha) (halpha' : p.alpha < 1)
    (baseScores baseScores' : UniqueTable Node ℚ) :
    0 ≤ (p.takingLonger g baseScores baseScores').card * turnLoss p g := by
  obtain hempty | ⟨w, hw⟩ := (p.takingLonger g baseScores baseScores').eq_empty_or_nonempty
  · rw [hempty, Finset.card_empty, Nat.cast_zero, zero_mul]
  · obtain ⟨hnode, hpos, hlonger⟩ := Finset.mem_filter.mp hw
    have hmove := score_mul_distance_le halpha halpha' (g.index w (List.mem_toFinset.mp hnode))
      hpos (g.nodeIdx w) (turnsTaken_le _ _ _ _) hlonger
    have hdistance : 0 ≤ distance (p.seedVector g ((baseScores.find? w).getD 0) (g.nodeIdx w))
        ((p.turn g (g.nodeIdx w))^[p.turns g ((baseScores'.find? w).getD 0) (g.nodeIdx w)]
          (startVector g (g.nodeIdx w))) := Finset.sum_nonneg fun i _ => abs_nonneg _
    exact mul_nonneg (Nat.cast_nonneg _) ((mul_nonneg hpos.le hdistance).trans hmove)

theorem clip_add_le {x y loss : ℚ} (hle : x ≤ y + loss) (hloss : 0 ≤ loss) :
    clip x ≤ clip y + loss := by
  have hmax : max x 0 ≤ max y 0 + loss :=
    max_le (hle.trans (add_le_add_left (le_max_left y 0) loss))
      (add_nonneg (le_max_right y 0) hloss)
  unfold clip
  rw [← min_add_add_right]
  exact min_le_min hmax (le_add_of_nonneg_right hloss)

/-- With `alpha` between zero and one: larger scores of the wallets make the score of a node at
least as large, but for what the wallets may lose for which the iteration takes more turns. None
is lost if there are no such wallets. -/
theorem propagate_nearly_mono (p : WeightedRiskPropagation) (halpha : 0 < p.alpha)
    (halpha' : p.alpha < 1) (g : NxGraph Node) (baseScores baseScores' : UniqueTable Node ℚ)
    (hle : ∀ w, (baseScores.find? w).getD 0 ≤ (baseScores'.find? w).getD 0) {v : Node}
    (hv : v ∈ g.nodes) :
    ∃ x y, (p.propagate g baseScores).find? v = some x ∧
      (p.propagate g baseScores').find? v = some y ∧
      x ≤ y + (p.takingLonger g baseScores baseScores').card *
        (g.order * p.convergenceThreshold * ((1 - p.alpha) / p.alpha)) :=
  ⟨_, _, find?_propagate p baseScores hv, find?_propagate p baseScores' hv,
    clip_add_le (weightedTotal_le halpha halpha' hle _)
      (card_mul_turnLoss_nonneg halpha halpha' baseScores baseScores')⟩

end Scores

/-- A propagation that stops early. -/
private def coarsePropagation : WeightedRiskPropagation where
  alpha := 1 / 2
  maxIterations := 100
  convergenceThreshold := 13 / 5

/-- A score of the first wallet. -/
private def firstScore (score : ℚ) : UniqueTable ℕ ℚ where
  rows := [(0, score)]
  nodup := by
    rw [List.map_singleton]
    exact List.nodup_singleton 0

theorem propagate_nearly_mono_pair : ∃ x y,
    (coarsePropagation.propagate fundingPair (firstScore 10)).find? 1 = some x ∧
    (coarsePropagation.propagate fundingPair (firstScore 20)).find? 1 = some y ∧
    x ≤ y + (coarsePropagation.takingLonger fundingPair (firstScore 10) (firstScore 20)).card *
      (fundingPair.order * coarsePropagation.convergenceThreshold *
        ((1 - coarsePropagation.alpha) / coarsePropagation.alpha)) := by
  refine propagate_nearly_mono coarsePropagation (by decide +kernel) (by decide +kernel)
    fundingPair (firstScore 10) (firstScore 20) (fun w => ?_) (by decide)
  unfold firstScore UniqueTable.find?
  dsimp only
  rw [List.lookup_cons, List.lookup_cons]
  cases w == 0
  · exact le_rfl
  · exact (by decide +kernel : (10 : ℚ) ≤ 20)

/-- With eleven in place of ten there is a third turn, after which the wallet itself has less. -/
theorem propagate_third_turn :
    (coarsePropagation.propagate fundingPair (firstScore 10)).find? 0 = some (15 / 2) ∧
    (coarsePropagation.propagate fundingPair (firstScore 11)).find? 0 = some (55 / 8) := by
  decide +kernel

end LedgerLens.Detection.Propagation
