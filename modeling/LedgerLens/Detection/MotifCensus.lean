import LedgerLens.Detection.RiskPropagation
import LedgerLens.Library.ClosedWalks
import Mathlib.Combinatorics.SimpleGraph.DegreeSum
import Mathlib.Data.Finset.Sort
import Mathlib.Data.List.Sort
import Mathlib.Data.Nat.Choose.Cast
import Mathlib.Data.String.Basic

/-!
# Motif census

`compute_motif_census` counts the triangles, the open wedges and the cycles of four nodes of a
community by the powers of its matrix. The matrix is that of `nx.to_numpy_array`, whose entries are
the weights of the edges, so that a walk counts as much as its weights multiply to. Numbers are
exact here.
-/

namespace LedgerLens.Detection.Motifs

open ClosedWalks Finset Propagation

/-- What an edge carries. Its other attributes are not read. -/
structure EdgeData where
  /-- The attribute `weight`, if the edge has it. -/
  weight : Option ℚ
  deriving DecidableEq

/-- A `Graph` of networkx. -/
structure Graph (V : Type) where
  /-- What the edge between two nodes carries, if there is one. -/
  edge : V → V → Option EdgeData
  /-- An edge has no direction. -/
  symm : ∀ a b, edge a b = edge b a

/-- A `DiGraph` of networkx. -/
structure DiGraph (V : Type) where
  /-- What the edge from a node to another one carries, if there is one. -/
  edge : V → V → Option EdgeData

/-- The community whose motifs are counted. -/
inductive Community (V : Type) where
  | graph (G : Graph V)
  | digraph (G : DiGraph V)

/-- `MOTIF_CENSUS_MAX_NODES`. -/
def MOTIF_CENSUS_MAX_NODES : ℕ := 500

/-- `MotifCensusResult`. -/
structure MotifCensusResult where
  triangleCount : ℕ := 0
  triangleDensity : ℚ := 0
  starCount : ℕ := 0
  starRatio : ℚ := 0
  cycle4Count : ℕ := 0
  reciprocity : ℚ := 0
  nodeCount : ℕ := 0
  wasSampled : Bool := false
  censusTruncated : Bool := false
  deriving DecidableEq

/-- The `ValueError` of `_validate_subgraph`: how many nodes are not in the known graph, the first
five of their names, and whether there are more. -/
structure ExternalNodes where
  count : ℕ
  sample : List String
  more : Bool
  deriving DecidableEq

variable {V : Type} [Fintype V] [LinearOrder V]

/-- Data of an edge written over that of an earlier one. -/
def EdgeData.update (earlier later : EdgeData) : EdgeData :=
  { weight := later.weight.or earlier.weight }

/-- `G.to_undirected()`: of two opposite edges, the one from the later node is written over the
other. The nodes are in the order in which they were added. -/
def DiGraph.toUndirected (G : DiGraph V) : Graph V where
  edge a b :=
    match G.edge (min a b) (max a b), G.edge (max a b) (min a b) with
    | none, none => none
    | some d, none => some d
    | none, some d => some d
    | some d, some d' => some (d.update d')
  symm a b := by rw [min_comm, max_comm]

/-- `_to_undirected_simple`. -/
def Community.toUndirectedSimple : Community V → Graph V
  | .graph G => G
  | .digraph G => G.toUndirected

/-- `nx.to_numpy_array`. -/
def Graph.toNumpyArray (G : Graph V) : Matrix V V ℚ := .of fun a b =>
  match G.edge a b with
  | none => 0
  | some d => d.weight.getD 1

/-- `G.degree()`: a loop counts twice. -/
def Graph.degree (G : Graph V) (v : V) : ℕ :=
  #{a | (G.edge v a).isSome} + if (G.edge v v).isSome then 1 else 0

/-- `G.number_of_edges()`. -/
def Graph.numberOfEdges (G : Graph V) : ℕ := (∑ v, G.degree v) / 2

/-- `_count_triangles_matrix`. -/
def countTrianglesMatrix (G : Graph V) : ℕ × ℕ :=
  let n := Fintype.card V
  if n < 3 then (0, 0)
  else
    let A := G.toNumpyArray
    let traceA3 := (A * A * A).trace
    ((roundHalfEven (traceA3 / 6)).toNat, n * (n - 1) * (n - 2) / 6)

/-- `_count_star_motifs`. -/
def countStarMotifs (G : Graph V) (triangleCount : ℕ) : ℕ :=
  (∑ v, G.degree v * (G.degree v - 1) / 2) - 3 * triangleCount

/-- `_count_4_cycles`. -/
def count4Cycles (G : Graph V) : ℕ :=
  if Fintype.card V < 4 then 0
  else
    let A := G.toNumpyArray
    let traceA4 := ∑ a, ∑ b, (A * A) a b * (A * A) a b
    let sumDD1 := ∑ v, (G.degree v : ℚ) * ((G.degree v : ℚ) - 1)
    (roundHalfEven ((traceA4 - 2 * G.numberOfEdges - 2 * sumDD1) / 8)).toNat

/-- `_compute_reciprocity`. -/
def computeReciprocity : Community V → ℚ
  | .graph _ => 1
  | .digraph G =>
    let edges : Finset (V × V) := {e | (G.edge e.1 e.2).isSome}
    if edges = ∅ then 0
    else #{e ∈ edges | (e.2, e.1) ∈ edges} / #(edges)

/-- `_validate_subgraph`. -/
def validateSubgraph (name : V → String) (knownNodes : Finset V) : Except ExternalNodes Unit :=
  let external := univ \ knownNodes
  if external = ∅ then .ok ()
  else .error
    { count := #(external)
      sample := (((external.sort (· ≤ ·)).map name).insertionSort (· ≤ ·)).take 5
      more := 5 < #(external) }

/-- What `compute_motif_census` counts of a community that is small enough. The deadline may have
passed at each of the four times when the clock is read. -/
def census (expired : Fin 4 → Bool) (community : Community V) (result : MotifCensusResult) :
    MotifCensusResult :=
  let G := community.toUndirectedSimple
  if expired 0 then { result with censusTruncated := true }
  else
    let (triangleCount, maxTriangles) := countTrianglesMatrix G
    let result := { result with
      triangleCount := triangleCount
      triangleDensity := if 0 < maxTriangles then (triangleCount : ℚ) / maxTriangles else 0 }
    if expired 1 then { result with censusTruncated := true }
    else
      let starCount := countStarMotifs G triangleCount
      let total3Node := starCount + triangleCount
      let result := { result with
        starCount := starCount
        starRatio := if 0 < total3Node then (starCount : ℚ) / total3Node else 0 }
      if expired 2 then { result with censusTruncated := true }
      else
        let result := { result with cycle4Count := count4Cycles G }
        if expired 3 then { result with censusTruncated := true }
        else { result with reciprocity := computeReciprocity community }

/-- `compute_motif_census`. Of a community with too many nodes a sample is drawn. -/
def computeMotifCensus (name : V → String)
    (sampleSubgraph : Community V → Community (Fin MOTIF_CENSUS_MAX_NODES))
    (expired : Fin 4 → Bool) (community : Community V) (knownNodes : Finset V) :
    Except ExternalNodes MotifCensusResult :=
  match validateSubgraph name knownNodes with
  | .error e => .error e
  | .ok () =>
    if Fintype.card V < 3 then .ok { nodeCount := Fintype.card V }
    else if MOTIF_CENSUS_MAX_NODES < Fintype.card V then
      .ok (census expired (sampleSubgraph community)
        { wasSampled := true, nodeCount := MOTIF_CENSUS_MAX_NODES })
    else .ok (census expired community { nodeCount := Fintype.card V })

/-- A graph without loops. -/
def Graph.Loopless (G : Graph V) : Prop := ∀ v, G.edge v v = none

/-- The nodes of a graph and which of them have an edge. -/
def Graph.simple (G : Graph V) : SimpleGraph V where
  Adj a b := a ≠ b ∧ (G.edge a b).isSome
  symm := ⟨fun a b h => ⟨h.1.symm, by rw [G.symm b a]; exact h.2⟩⟩
  loopless := ⟨fun _ h => h.1 rfl⟩

instance (G : Graph V) : DecidableRel G.simple.Adj :=
  fun a b => inferInstanceAs (Decidable (a ≠ b ∧ (G.edge a b).isSome))

/-- The weight with which an edge is in the matrix. -/
def Graph.weight (G : Graph V) : Sym2 V → ℚ :=
  Sym2.lift ⟨fun a b => ((G.edge a b).bind EdgeData.weight).getD 1,
    fun a b => by simp only [G.symm a b]⟩

section Rounding

/-- What rounds to a number. -/
theorem roundHalfEven_eq_iff (x : ℚ) (k : ℤ) :
    roundHalfEven x = k ↔ |x - k| < 1 / 2 ∨ (|x - k| = 1 / 2 ∧ k % 2 = 0) := by
  have hlower := Int.floor_le x
  have hupper := Int.lt_floor_add_one x
  constructor
  · rintro rfl
    unfold roundHalfEven
    split_ifs with hdown hup heven
    · left
      rw [abs_lt]
      constructor <;> linarith
    · left
      rw [abs_lt]
      push_cast
      constructor <;> linarith
    · right
      refine ⟨?_, heven⟩
      rw [abs_of_nonneg (by linarith)]
      linarith
    · right
      have habs : x - ((⌊x⌋ + 1 : ℤ) : ℚ) ≤ 0 := by
        push_cast
        linarith
      rw [abs_of_nonpos habs]
      push_cast
      exact ⟨by linarith, by omega⟩
  · intro hnear
    have hle : |x - k| ≤ 1 / 2 := by
      rcases hnear with h | h
      · exact h.le
      · exact h.1.le
    have hbounds := abs_le.mp hle
    have hk : k = ⌊x⌋ ∨ k = ⌊x⌋ + 1 := by
      have hfirst : ((⌊x⌋ : ℤ) : ℚ) < k + 1 := by linarith
      have hsecond : (k : ℚ) < ⌊x⌋ + 2 := by linarith
      have hfirst' : ⌊x⌋ < k + 1 := by exact_mod_cast hfirst
      have hsecond' : k < ⌊x⌋ + 2 := by exact_mod_cast hsecond
      omega
    unfold roundHalfEven
    rcases hk with hk | hk <;> rw [hk] at hnear
    · rw [abs_of_nonneg (by linarith)] at hnear
      rcases hnear with h | ⟨h, heven⟩
      · rw [if_pos h, hk]
      · rw [if_neg (by linarith), if_neg (by linarith), if_pos heven, hk]
    · have habs : x - ((⌊x⌋ + 1 : ℤ) : ℚ) ≤ 0 := by
        push_cast
        linarith
      rw [abs_of_nonpos habs] at hnear
      push_cast at hnear
      rcases hnear with h | ⟨h, heven⟩
      · rw [if_neg (by linarith), if_pos (by linarith), hk]
      · rw [if_neg (by linarith), if_neg (by linarith), if_neg (by omega), hk]

/-- An excess over a count that `max(0, int(round(...)))` takes away. -/
def Absorbed (excess : ℚ) (count : ℕ) : Prop :=
  |excess| < 1 / 2 ∨ (|excess| = 1 / 2 ∧ Even count) ∨ (count = 0 ∧ excess < 0)

instance (excess : ℚ) (count : ℕ) : Decidable (Absorbed excess count) := by
  unfold Absorbed
  infer_instance

theorem toNat_roundHalfEven_iff (count : ℕ) (excess : ℚ) :
    (roundHalfEven (count + excess)).toNat = count ↔ Absorbed excess count := by
  have hround := roundHalfEven_eq_iff (count + excess) count
  have hnear := abs_le.mp (abs_sub_roundHalfEven_le (count + excess))
  have heven : (count : ℤ) % 2 = 0 ↔ Even count := by
    rw [Nat.even_iff]
    omega
  rw [Int.cast_natCast, add_sub_cancel_left, heven] at hround
  have hcut : (roundHalfEven (count + excess)).toNat = count ↔
      roundHalfEven (count + excess) = count ∨
        (count = 0 ∧ roundHalfEven (count + excess) < 0) := by
    omega
  rw [hcut, hround]
  unfold Absorbed
  constructor
  · rintro ((h | h) | ⟨hzero, hneg⟩)
    · exact Or.inl h
    · exact Or.inr (Or.inl h)
    · refine Or.inr (Or.inr ⟨hzero, ?_⟩)
      have hcast : ((roundHalfEven (count + excess) : ℤ) : ℚ) ≤ -1 := by
        exact_mod_cast (by omega : roundHalfEven (count + excess) ≤ -1)
      rw [hzero, Nat.cast_zero] at hnear hcast
      linarith
  · rintro (h | h | ⟨hzero, hneg⟩)
    · exact Or.inl (Or.inl h)
    · exact Or.inl (Or.inr h)
    · by_cases hsmall : |excess| < 1 / 2
      · exact Or.inl (Or.inl hsmall)
      · by_cases hhalf : |excess| = 1 / 2
        · exact Or.inl (Or.inr ⟨hhalf, by rw [hzero]; exact Even.zero⟩)
        · right
          refine ⟨hzero, ?_⟩
          rw [abs_of_neg hneg] at hsmall hhalf
          have hlt : 1 / 2 < -excess := lt_of_le_of_ne (not_lt.mp hsmall) (Ne.symm hhalf)
          have hcast : ((roundHalfEven (count + excess) : ℤ) : ℚ) < 0 := by
            rw [hzero, Nat.cast_zero] at hnear ⊢
            linarith
          exact_mod_cast hcast

end Rounding

section Counts

/-- What the weights of the triangles' edges multiply to beyond one, in all triangles. -/
def triangleExcess (G : Graph V) : ℚ :=
  ∑ t ∈ G.simple.cliqueFinset 3, (∏ e ∈ edgesOf t, G.weight e - 1)

/-- What the closed walks of four steps weigh beyond one, eight of them for a cycle. -/
def cycleExcess (G : Graph V) : ℚ :=
  (∑ e ∈ G.simple.edgeFinset, (G.weight e ^ 4 - 1)) / 4 +
  (∑ v, ∑ t ∈ (G.simple.neighborFinset v).powersetCard 2,
    (∏ a ∈ t, G.weight s(v, a) ^ 2 - 1)) / 2 +
  ∑ c ∈ fourCycles G.simple, (∏ e ∈ c, G.weight e - 1)

/-- The counts of a result are those of the graph's motifs, and its ratios are between zero and
one. -/
structure MotifCensusResult.CountsMotifs (r : MotifCensusResult) (G : Graph V) : Prop where
  triangles : r.triangleCount = #(G.simple.cliqueFinset 3)
  stars : r.starCount = #(openWedges G.simple)
  cycles : r.cycle4Count = #(fourCycles G.simple)
  starRatio : 0 ≤ r.starRatio ∧ r.starRatio ≤ 1
  triangleDensity : 0 ≤ r.triangleDensity ∧ r.triangleDensity ≤ 1

variable {G : Graph V} (hloop : G.Loopless)

omit [Fintype V] [LinearOrder V] in
theorem Graph.weight_mk (G : Graph V) (a b : V) :
    G.weight s(a, b) = ((G.edge a b).bind EdgeData.weight).getD 1 := rfl

omit [Fintype V] [LinearOrder V] in
include hloop in
theorem Graph.simple_adj_iff {a b : V} : G.simple.Adj a b ↔ (G.edge a b).isSome := by
  refine ⟨fun h => h.2, fun h => ⟨?_, h⟩⟩
  rintro rfl
  rw [hloop] at h
  cases h

omit [Fintype V] in
include hloop in
theorem Graph.toNumpyArray_eq : G.toNumpyArray = weightMatrix G.simple G.weight := by
  ext a b
  rw [weightMatrix_apply, Graph.weight_mk]
  simp only [G.simple_adj_iff hloop, Graph.toNumpyArray, Matrix.of_apply]
  cases G.edge a b with
  | none => rfl
  | some d => rfl

include hloop in
theorem Graph.degree_eq (v : V) : G.degree v = G.simple.degree v := by
  unfold Graph.degree
  rw [hloop v, if_neg (by simp), add_zero, ← SimpleGraph.card_neighborFinset_eq_degree,
    SimpleGraph.neighborFinset_eq_filter]
  simp only [G.simple_adj_iff hloop]

include hloop in
theorem Graph.numberOfEdges_eq : G.numberOfEdges = #G.simple.edgeFinset := by
  unfold Graph.numberOfEdges
  simp only [G.degree_eq hloop]
  rw [SimpleGraph.sum_degrees_eq_twice_card_edges]
  omega

include hloop in
/-- What is rounded to the number of triangles. -/
theorem trace_eq :
    (G.toNumpyArray * G.toNumpyArray * G.toNumpyArray).trace / 6 =
      #(G.simple.cliqueFinset 3) + triangleExcess G := by
  rw [G.toNumpyArray_eq hloop, trace_cube]
  simp only [triangleExcess, sum_sub_distrib, sum_const, nsmul_eq_mul, mul_one]
  ring

include hloop in
/-- The triangles are counted rightly exactly if rounding takes the excess away. -/
theorem countTrianglesMatrix_iff (hnodes : 3 ≤ Fintype.card V) :
    (countTrianglesMatrix G).1 = #(G.simple.cliqueFinset 3) ↔
      Absorbed (triangleExcess G) #(G.simple.cliqueFinset 3) := by
  unfold countTrianglesMatrix
  simp only [if_neg (by omega : ¬ Fintype.card V < 3)]
  rw [trace_eq hloop, toNat_roundHalfEven_iff]

include hloop in
/-- From the right number of triangles the open wedges are counted rightly. -/
theorem countStarMotifs_eq :
    countStarMotifs G #(G.simple.cliqueFinset 3) = #(openWedges G.simple) := by
  unfold countStarMotifs
  simp only [G.degree_eq hloop, ← Nat.choose_two_right]
  rw [card_pairs]
  omega

include hloop in
/-- What is rounded to the number of cycles of four nodes. -/
theorem cycles_eq :
    ((∑ a, ∑ b, (G.toNumpyArray * G.toNumpyArray) a b * (G.toNumpyArray * G.toNumpyArray) a b) -
        2 * G.numberOfEdges - 2 * ∑ v, (G.degree v : ℚ) * ((G.degree v : ℚ) - 1)) / 8 =
      #(fourCycles G.simple) + cycleExcess G := by
  have hpairs (v : V) : (G.degree v : ℚ) * ((G.degree v : ℚ) - 1) =
      2 * #((G.simple.neighborFinset v).powersetCard 2) := by
    rw [card_powersetCard, SimpleGraph.card_neighborFinset_eq_degree, Nat.cast_choose_two,
      G.degree_eq hloop]
    ring
  simp only [hpairs, ← mul_sum]
  rw [G.toNumpyArray_eq hloop, sum_sq_apply, G.numberOfEdges_eq hloop]
  simp only [cycleExcess, sum_sub_distrib, sum_const, nsmul_eq_mul, mul_one]
  ring

/-- A cycle of four nodes has four nodes. -/
theorem fourCycles_eq_empty (hnodes : Fintype.card V < 4) : fourCycles G.simple = ∅ := by
  rw [eq_empty_iff_forall_notMem]
  intro c hc
  obtain ⟨⟨a, b, c, d⟩, hp, -⟩ := mem_image.mp hc
  obtain ⟨⟨hab, hbc, hcd, hda⟩, hac, hbd⟩ := (mem_cycles G.simple).mp hp
  have hcard : #({a, b, c, d} : Finset V) = 4 := by
    rw [card_insert_of_notMem, card_insert_of_notMem, card_pair hcd.ne]
    · simp only [mem_insert, mem_singleton, not_or]
      exact ⟨hbc.ne, hbd⟩
    · simp only [mem_insert, mem_singleton, not_or]
      exact ⟨hab.ne, hac, hda.ne.symm⟩
  have := card_le_univ ({a, b, c, d} : Finset V)
  omega

include hloop in
/-- The cycles of four nodes are counted rightly exactly if there are too few nodes for one, or
rounding takes the excess away. -/
theorem count4Cycles_iff :
    count4Cycles G = #(fourCycles G.simple) ↔
      (4 ≤ Fintype.card V → Absorbed (cycleExcess G) #(fourCycles G.simple)) := by
  unfold count4Cycles
  by_cases hnodes : Fintype.card V < 4
  · rw [if_pos hnodes, fourCycles_eq_empty hnodes]
    simp only [card_empty, true_iff]
    omega
  · simp only [if_neg hnodes]
    rw [cycles_eq hloop, toNat_roundHalfEven_iff]
    exact ⟨fun h _ => h, fun h => h (by omega)⟩

theorem validateSubgraph_univ (name : V → String) :
    validateSubgraph name (univ : Finset V) = .ok () := by
  simp [validateSubgraph]

/-- A part of a whole. -/
theorem ratio_mem (part whole : ℕ) (hle : part ≤ whole) :
    0 ≤ (if 0 < whole then (part : ℚ) / whole else 0) ∧
      (if 0 < whole then (part : ℚ) / whole else 0) ≤ 1 := by
  split_ifs with hpos
  · have hwhole : (0 : ℚ) < whole := by exact_mod_cast hpos
    refine ⟨by positivity, (div_le_one hwhole).mpr ?_⟩
    exact_mod_cast hle
  · exact ⟨le_refl 0, zero_le_one⟩

omit [LinearOrder V] in
theorem countTrianglesMatrix_snd (hnodes : 3 ≤ Fintype.card V) :
    (countTrianglesMatrix G).2 = (Fintype.card V).choose 3 := by
  unfold countTrianglesMatrix
  simp only [if_neg (by omega : ¬ Fintype.card V < 3)]
  rw [Nat.choose_eq_descFactorial_div_factorial]
  simp only [Nat.descFactorial, Nat.factorial, tsub_zero]
  ring_nf

/-- What the census of a graph says if the deadline does not pass. -/
theorem census_graph (G : Graph V) (result : MotifCensusResult) :
    census (fun _ => false) (.graph G) result =
      let (triangles, maxTriangles) := countTrianglesMatrix G
      let stars := countStarMotifs G triangles
      { result with
        triangleCount := triangles
        triangleDensity := if 0 < maxTriangles then (triangles : ℚ) / maxTriangles else 0
        starCount := stars
        starRatio := if 0 < stars + triangles then (stars : ℚ) / (stars + triangles : ℕ) else 0
        cycle4Count := count4Cycles G
        reciprocity := 1 } := rfl

/-- The census of a graph without loops counts its motifs exactly if rounding takes away what the
weights add to them. -/
theorem census_countsMotifs_iff (hloop : G.Loopless) (hnodes : 3 ≤ Fintype.card V)
    (result : MotifCensusResult) :
    (census (fun _ => false) (.graph G) result).CountsMotifs G ↔
      Absorbed (triangleExcess G) #(G.simple.cliqueFinset 3) ∧
      (4 ≤ Fintype.card V → Absorbed (cycleExcess G) #(fourCycles G.simple)) := by
  rw [census_graph, ← countTrianglesMatrix_iff hloop hnodes, ← count4Cycles_iff hloop]
  constructor
  · intro h
    exact ⟨h.triangles, h.cycles⟩
  · rintro ⟨htriangles, hcycles⟩
    have hle : (countTrianglesMatrix G).1 ≤ (countTrianglesMatrix G).2 := by
      rw [htriangles, countTrianglesMatrix_snd hnodes]
      exact SimpleGraph.card_cliqueFinset_le
    exact
      { triangles := htriangles
        stars := by
          simp only [htriangles]
          exact countStarMotifs_eq hloop
        cycles := hcycles
        starRatio := ratio_mem _ _ (Nat.le_add_right _ _)
        triangleDensity := ratio_mem _ _ hle }

end Counts

/-- `compute_motif_census` of a graph without loops, with at least three nodes and not too many,
counts the motifs exactly if rounding takes away what the weights add to the closed walks. -/
theorem countsMotifs_iff {V : Type} [Fintype V] [LinearOrder V] (name : V → String)
    (sampleSubgraph : Community V → Community (Fin MOTIF_CENSUS_MAX_NODES)) (G : Graph V)
    (knownNodes : Finset V) (hloop : G.Loopless) (hknown : ∀ v, v ∈ knownNodes)
    (hnodes : 3 ≤ Fintype.card V) (hmax : Fintype.card V ≤ MOTIF_CENSUS_MAX_NODES) :
    (∃ r, computeMotifCensus name sampleSubgraph (fun _ => false) (.graph G) knownNodes = .ok r ∧
        r.CountsMotifs G) ↔
      Absorbed (triangleExcess G) #(G.simple.cliqueFinset 3) ∧
      (4 ≤ Fintype.card V → Absorbed (cycleExcess G) #(fourCycles G.simple)) := by
  have hall : knownNodes = univ := eq_univ_iff_forall.mpr hknown
  unfold computeMotifCensus
  rw [hall, validateSubgraph_univ]
  simp only [if_neg (by omega : ¬ Fintype.card V < 3), if_neg (not_lt.mpr hmax), Except.ok.injEq,
    exists_eq_left']
  exact census_countsMotifs_iff hloop hnodes _

/-- Three nodes, and between each two an edge of one weight. -/
def triangleGraph (weight : Option ℚ) : Graph (Fin 3) where
  edge a b := if a = b then none else some { weight := weight }
  symm a b := by simp only [eq_comm]

theorem countsMotifs_unweighted :
    ∃ r, computeMotifCensus toString (fun _ => .digraph ⟨fun _ _ => none⟩) (fun _ => false)
        (.graph (triangleGraph none)) univ = .ok r ∧ r.CountsMotifs (triangleGraph none) := by
  refine (countsMotifs_iff toString (fun _ => .digraph ⟨fun _ _ => none⟩) (triangleGraph none) univ
    (fun v => ?_) mem_univ (by decide) (by decide)).mpr ⟨?_, ?_⟩
  · simp [triangleGraph]
  · decide +kernel
  · decide

/-- A triangle whose edges have the weight two is counted as eight triangles. -/
theorem countsMotifs_weighted :
    ¬ ∃ r, computeMotifCensus toString (fun _ => .digraph ⟨fun _ _ => none⟩) (fun _ => false)
        (.graph (triangleGraph (some 2))) univ = .ok r ∧
      r.CountsMotifs (triangleGraph (some 2)) := by
  rintro ⟨r, hr, hcounts⟩
  have height : r.triangleCount = 8 := by
    have hcount : (countTrianglesMatrix (triangleGraph (some 2))).1 = 8 := by decide +kernel
    rw [← hcount, ← Except.ok.inj hr]
    rfl
  have hone : #((triangleGraph (some 2)).simple.cliqueFinset 3) = 1 := by decide +kernel
  have hcount := hcounts.triangles
  omega

end LedgerLens.Detection.Motifs
