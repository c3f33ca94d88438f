import Mathlib.Combinatorics.SimpleGraph.Clique
import Mathlib.Combinatorics.SimpleGraph.Finite
import Mathlib.LinearAlgebra.Matrix.Trace
import Mathlib.Tactic.LinearCombination

/-!
# Closed walks of a weighted graph

The powers of the matrix of a graph whose edges have weights count its closed walks. The walks of
three steps are its triangles, six times each. The walks of four steps go along one edge and back
twice, along two edges with an end in common, or round a cycle of four nodes, eight times each.
-/

namespace ClosedWalks

open Finset

section Fibres

variable {ι κ R : Type*} [DecidableEq κ] [CommSemiring R]

/-- Things that have `n` names each are summed over their names. -/
theorem sum_names (s : Finset ι) (f : ι → κ) {n : ℕ}
    (hnames : ∀ a ∈ s, #{b ∈ s | f b = f a} = n) (g : κ → R) :
    ∑ a ∈ s, g (f a) = n * ∑ k ∈ s.image f, g k := by
  rw [sum_comp, mul_sum]
  refine sum_congr rfl fun k hk => ?_
  obtain ⟨a, ha, rfl⟩ := mem_image.mp hk
  rw [hnames a ha, nsmul_eq_mul]

/-- The pairs of different elements name each set of two elements twice. -/
theorem sum_offDiag (s : Finset κ) (g : Finset κ → R) :
    ∑ p ∈ s.offDiag, g {p.1, p.2} = 2 * ∑ t ∈ s.powersetCard 2, g t := by
  have himage : s.offDiag.image (fun p => {p.1, p.2}) = s.powersetCard 2 := by
    ext t
    simp only [mem_image, mem_offDiag, mem_powersetCard, card_eq_two, Prod.exists]
    constructor
    · rintro ⟨a, b, ⟨ha, hb, hab⟩, rfl⟩
      exact ⟨insert_subset ha (singleton_subset_iff.mpr hb), a, b, hab, rfl⟩
    · rintro ⟨hsub, a, b, hab, rfl⟩
      exact ⟨a, b, ⟨hsub (by simp), hsub (by simp), hab⟩, rfl⟩
  rw [← himage]
  refine sum_names s.offDiag (fun p => {p.1, p.2}) (n := 2) ?_ g
  rintro ⟨a, b⟩ hab
  obtain ⟨ha, hb, hne⟩ := mem_offDiag.mp hab
  have hnames : {p ∈ s.offDiag | ({p.1, p.2} : Finset κ) = {a, b}} = {(a, b), (b, a)} := by
    ext ⟨x, y⟩
    simp only [mem_filter, mem_offDiag, mem_insert, mem_singleton, Prod.mk.injEq]
    constructor
    · rintro ⟨⟨-, -, hxy⟩, hset⟩
      have hx : x ∈ ({a, b} : Finset κ) := hset ▸ by simp
      have hy : y ∈ ({a, b} : Finset κ) := hset ▸ by simp
      simp only [mem_insert, mem_singleton] at hx hy
      grind
    · rintro (⟨rfl, rfl⟩ | ⟨rfl, rfl⟩)
      · exact ⟨⟨ha, hb, hne⟩, rfl⟩
      · exact ⟨⟨hb, ha, hne.symm⟩, pair_comm x y⟩
  rw [hnames, card_pair (by simpa using fun h _ => hne h)]

/-- The pairs of elements are those of an element with itself and those of different elements. -/
theorem sum_pairs (s : Finset κ) (F : κ → κ → R) :
    ∑ a ∈ s, ∑ b ∈ s, F a b = ∑ a ∈ s, F a a + ∑ p ∈ s.offDiag, F p.1 p.2 := by
  rw [← sum_product', ← diag_union_offDiag, sum_union (disjoint_diag_offDiag s), sum_diag]

/-- The square of a sum. -/
theorem sq_sum (s : Finset κ) (f : κ → R) :
    (∑ a ∈ s, f a) ^ 2 = ∑ a ∈ s, f a ^ 2 + ∑ p ∈ s.offDiag, f p.1 * f p.2 := by
  rw [sq, sum_mul_sum, sum_pairs]
  simp only [sq]

/-- The products of different elements. -/
theorem sum_offDiag_mul (s : Finset κ) (f : κ → R) :
    ∑ p ∈ s.offDiag, f p.1 * f p.2 = 2 * ∑ t ∈ s.powersetCard 2, ∏ a ∈ t, f a := by
  rw [← sum_offDiag]
  refine sum_congr rfl fun p hp => ?_
  rw [prod_pair (mem_offDiag.mp hp).2.2]

end Fibres

variable {V : Type*} [Fintype V] [DecidableEq V] (G : SimpleGraph V) [DecidableRel G.Adj]

section Shapes

/-- The edges between the nodes of a set. -/
def edgesOf (t : Finset V) : Finset (Sym2 V) := {e ∈ t.sym2 | ¬ e.IsDiag}

/-- The walks `a`, `b`, `c` and back to `a`. -/
def closedTriples : Finset (V × V × V) :=
  {p | G.Adj p.1 p.2.1 ∧ G.Adj p.2.1 p.2.2 ∧ G.Adj p.2.2 p.1}

/-- The walks `a`, `b`, `c`, `d` and back to `a`. -/
def closedQuadruples : Finset (V × V × V × V) :=
  {p | G.Adj p.1 p.2.1 ∧ G.Adj p.2.1 p.2.2.1 ∧ G.Adj p.2.2.1 p.2.2.2 ∧ G.Adj p.2.2.2 p.1}

/-- The edges of a walk `a`, `b`, `c`, `d` and back to `a`. -/
def roundTrip (p : V × V × V × V) : Finset (Sym2 V) :=
  {s(p.1, p.2.1), s(p.2.1, p.2.2.1), s(p.2.2.1, p.2.2.2), s(p.2.2.2, p.1)}

/-- The cycles of four different nodes, as the sets of their edges. -/
def fourCycles : Finset (Finset (Sym2 V)) :=
  {p ∈ closedQuadruples G | p.1 ≠ p.2.2.1 ∧ p.2.1 ≠ p.2.2.2}.image roundTrip

/-- The induced paths of two edges: the node in the middle and its two neighbours, which have no
edge between them. -/
def openWedges : Finset (V × Finset V) :=
  {p | p.2 ∈ (G.neighborFinset p.1).powersetCard 2 ∧ ∀ a ∈ p.2, ∀ b ∈ p.2, ¬ G.Adj a b}

omit [DecidableEq V] in
theorem mem_closedTriples {a b c : V} :
    (a, b, c) ∈ closedTriples G ↔ G.Adj a b ∧ G.Adj b c ∧ G.Adj c a := by
  simp [closedTriples]

omit [DecidableEq V] in
theorem mem_closedQuadruples {a b c d : V} :
    (a, b, c, d) ∈ closedQuadruples G ↔ G.Adj a b ∧ G.Adj b c ∧ G.Adj c d ∧ G.Adj d a := by
  simp [closedQuadruples]

omit [Fintype V] in
theorem edgesOf_triple {a b c : V} (hab : a ≠ b) (hbc : b ≠ c) (hca : c ≠ a) :
    edgesOf {a, b, c} = {s(a, b), s(b, c), s(c, a)} := by
  ext e
  induction e with
  | _ x y =>
    simp only [edgesOf, mem_filter, mk_mem_sym2_iff, mem_insert, mem_singleton,
      Sym2.mk_isDiag_iff, Sym2.eq_iff]
    grind

/-- Each triangle has six closed walks. -/
theorem sum_closedTriples {R : Type*} [CommSemiring R] (g : Finset V → R) :
    ∑ p ∈ closedTriples G, g {p.1, p.2.1, p.2.2} = 6 * ∑ t ∈ G.cliqueFinset 3, g t := by
  have himage : (closedTriples G).image (fun p => {p.1, p.2.1, p.2.2}) = G.cliqueFinset 3 := by
    ext t
    simp only [mem_image, SimpleGraph.mem_cliqueFinset_iff, SimpleGraph.is3Clique_iff, Prod.exists,
      mem_closedTriples]
    constructor
    · rintro ⟨a, b, c, ⟨hab, hbc, hca⟩, rfl⟩
      exact ⟨a, b, c, hab, hca.symm, hbc, rfl⟩
    · rintro ⟨a, b, c, hab, hac, hbc, rfl⟩
      exact ⟨a, b, c, ⟨hab, hbc, hac.symm⟩, rfl⟩
  rw [← himage]
  refine sum_names (closedTriples G) (fun p => {p.1, p.2.1, p.2.2}) (n := 6) ?_ g
  rintro ⟨a, b, c⟩ hp
  obtain ⟨hab, hbc, hca⟩ := (mem_closedTriples G).mp hp
  have hnames : {p ∈ closedTriples G | ({p.1, p.2.1, p.2.2} : Finset V) = {a, b, c}} =
      {(a, b, c), (b, c, a), (c, a, b), (a, c, b), (c, b, a), (b, a, c)} := by
    ext ⟨x, y, z⟩
    simp only [mem_filter, mem_closedTriples, mem_insert, mem_singleton, Prod.mk.injEq]
    constructor
    · rintro ⟨⟨hxy, hyz, hzx⟩, hset⟩
      have hx : x ∈ ({a, b, c} : Finset V) := hset ▸ by simp
      have hy : y ∈ ({a, b, c} : Finset V) := hset ▸ by simp
      have hz : z ∈ ({a, b, c} : Finset V) := hset ▸ by simp
      simp only [mem_insert, mem_singleton] at hx hy hz
      have := hxy.ne
      have := hyz.ne
      have := hzx.ne
      grind
    · have hswap : ∀ {u v w : V}, ({u, v, w} : Finset V) = {v, w, u} := by grind
      have := hab.symm
      have := hbc.symm
      have := hca.symm
      rintro (⟨rfl, rfl, rfl⟩ | ⟨rfl, rfl, rfl⟩ | ⟨rfl, rfl, rfl⟩ | ⟨rfl, rfl, rfl⟩ |
        ⟨rfl, rfl, rfl⟩ | ⟨rfl, rfl, rfl⟩) <;> grind
  have := hab.ne
  have := hbc.ne
  have := hca.ne
  rw [hnames]
  repeat rw [card_insert_of_notMem (by grind)]
  rw [card_singleton]

omit [Fintype V] [DecidableEq V] in
/-- The eight walks with the diagonals of one. -/
theorem diagonals_eq_iff {a b c d x y z u : V} :
    s(s(x, z), s(y, u)) = s(s(a, c), s(b, d)) ↔
      (x = a ∧ y = b ∧ z = c ∧ u = d) ∨ (x = b ∧ y = c ∧ z = d ∧ u = a) ∨
      (x = c ∧ y = d ∧ z = a ∧ u = b) ∨ (x = d ∧ y = a ∧ z = b ∧ u = c) ∨
      (x = d ∧ y = c ∧ z = b ∧ u = a) ∨ (x = c ∧ y = b ∧ z = a ∧ u = d) ∨
      (x = b ∧ y = a ∧ z = d ∧ u = c) ∨ (x = a ∧ y = d ∧ z = c ∧ u = b) := by
  simp only [Sym2.eq_iff]
  constructor
  · rintro (⟨⟨rfl, rfl⟩ | ⟨rfl, rfl⟩, ⟨rfl, rfl⟩ | ⟨rfl, rfl⟩⟩ |
      ⟨⟨rfl, rfl⟩ | ⟨rfl, rfl⟩, ⟨rfl, rfl⟩ | ⟨rfl, rfl⟩⟩) <;> simp
  · rintro (⟨rfl, rfl, rfl, rfl⟩ | ⟨rfl, rfl, rfl, rfl⟩ | ⟨rfl, rfl, rfl, rfl⟩ |
      ⟨rfl, rfl, rfl, rfl⟩ | ⟨rfl, rfl, rfl, rfl⟩ | ⟨rfl, rfl, rfl, rfl⟩ |
      ⟨rfl, rfl, rfl, rfl⟩ | ⟨rfl, rfl, rfl, rfl⟩) <;> simp

omit [Fintype V] in
/-- Two cycles of four different nodes with the same edges have the same diagonals. -/
theorem roundTrip_eq_iff {a b c d x y z u : V} (hab : a ≠ b) (hbc : b ≠ c) (hcd : c ≠ d)
    (hda : d ≠ a) (hac : a ≠ c) (hbd : b ≠ d) (hxy : x ≠ y) (hyz : y ≠ z) (hzu : z ≠ u)
    (hux : u ≠ x) (hxz : x ≠ z) (hyu : y ≠ u) :
    roundTrip (x, y, z, u) = roundTrip (a, b, c, d) ↔
      s(s(x, z), s(y, u)) = s(s(a, c), s(b, d)) := by
  simp only [roundTrip]
  constructor
  · intro hset
    have hfirst : s(x, y) ∈ ({s(a, b), s(b, c), s(c, d), s(d, a)} : Finset (Sym2 V)) :=
      hset ▸ by simp
    have hsecond : s(y, z) ∈ ({s(a, b), s(b, c), s(c, d), s(d, a)} : Finset (Sym2 V)) :=
      hset ▸ by simp
    have hthird : s(z, u) ∈ ({s(a, b), s(b, c), s(c, d), s(d, a)} : Finset (Sym2 V)) :=
      hset ▸ by simp
    simp only [mem_insert, mem_singleton, Sym2.eq_iff] at hfirst hsecond hthird ⊢
    grind
  · intro hdiagonals
    simp only [Sym2.eq_iff] at hdiagonals
    ext e
    simp only [mem_insert, mem_singleton]
    grind [Sym2.eq_swap]

/-- A walk round a cycle of four nodes. -/
theorem mem_cycles {a b c d : V} :
    (a, b, c, d) ∈ {p ∈ closedQuadruples G | p.1 ≠ p.2.2.1 ∧ p.2.1 ≠ p.2.2.2} ↔
      (G.Adj a b ∧ G.Adj b c ∧ G.Adj c d ∧ G.Adj d a) ∧ a ≠ c ∧ b ≠ d := by
  simp [mem_closedQuadruples]

/-- Each cycle of four nodes has eight closed walks. -/
theorem sum_cycles {R : Type*} [CommSemiring R] (g : Finset (Sym2 V) → R) :
    ∑ p ∈ closedQuadruples G with p.1 ≠ p.2.2.1 ∧ p.2.1 ≠ p.2.2.2, g (roundTrip p) =
      8 * ∑ c ∈ fourCycles G, g c := by
  unfold fourCycles
  refine sum_names _ roundTrip (n := 8) ?_ g
  rintro ⟨a, b, c, d⟩ hp
  obtain ⟨⟨hab, hbc, hcd, hda⟩, hac, hbd⟩ := (mem_cycles G).mp hp
  have hnames : {p ∈ {p ∈ closedQuadruples G | p.1 ≠ p.2.2.1 ∧ p.2.1 ≠ p.2.2.2} |
        roundTrip p = roundTrip (a, b, c, d)} =
      {(a, b, c, d), (b, c, d, a), (c, d, a, b), (d, a, b, c),
        (d, c, b, a), (c, b, a, d), (b, a, d, c), (a, d, c, b)} := by
    ext ⟨x, y, z, u⟩
    rw [mem_filter, mem_cycles]
    simp only [mem_insert, mem_singleton, Prod.mk.injEq]
    constructor
    · rintro ⟨⟨⟨hxy, hyz, hzu, hux⟩, hxz, hyu⟩, hset⟩
      rwa [roundTrip_eq_iff hab.ne hbc.ne hcd.ne hda.ne hac hbd hxy.ne hyz.ne hzu.ne hux.ne hxz
        hyu, diagonals_eq_iff] at hset
    · intro hnamed
      have hwalk : (G.Adj x y ∧ G.Adj y z ∧ G.Adj z u ∧ G.Adj u x) ∧ x ≠ z ∧ y ≠ u := by
        have := hab.symm
        have := hbc.symm
        have := hcd.symm
        have := hda.symm
        rcases hnamed with ⟨rfl, rfl, rfl, rfl⟩ | ⟨rfl, rfl, rfl, rfl⟩ | ⟨rfl, rfl, rfl, rfl⟩ |
          ⟨rfl, rfl, rfl, rfl⟩ | ⟨rfl, rfl, rfl, rfl⟩ | ⟨rfl, rfl, rfl, rfl⟩ |
          ⟨rfl, rfl, rfl, rfl⟩ | ⟨rfl, rfl, rfl, rfl⟩ <;> grind
      obtain ⟨⟨hxy, hyz, hzu, hux⟩, hxz, hyu⟩ := hwalk
      refine ⟨⟨⟨hxy, hyz, hzu, hux⟩, hxz, hyu⟩, ?_⟩
      rwa [roundTrip_eq_iff hab.ne hbc.ne hcd.ne hda.ne hac hbd hxy.ne hyz.ne hzu.ne hux.ne hxz
        hyu, diagonals_eq_iff]
  have := hab.ne
  have := hbc.ne
  have := hcd.ne
  have := hda.ne
  rw [hnames]
  repeat
    rw [card_insert_of_notMem (by
      simp only [mem_insert, mem_singleton, Prod.mk.injEq, not_or]
      grind)]
  rw [card_singleton]

/-- Each edge is met twice from its ends. -/
theorem sum_neighbors {R : Type*} [CommSemiring R] (g : Sym2 V → R) :
    ∑ v, ∑ a ∈ G.neighborFinset v, g s(v, a) = 2 * ∑ e ∈ G.edgeFinset, g e := by
  have himage : ({p | G.Adj p.1 p.2} : Finset (V × V)).image (fun p => s(p.1, p.2)) =
      G.edgeFinset := by
    ext e
    induction e with
    | _ x y =>
      simp only [mem_image, mem_filter, mem_univ, true_and, Prod.exists,
        SimpleGraph.mem_edgeFinset, SimpleGraph.mem_edgeSet, Sym2.eq_iff]
      constructor
      · rintro ⟨a, b, hab, ⟨rfl, rfl⟩ | ⟨rfl, rfl⟩⟩
        · exact hab
        · exact hab.symm
      · exact fun hxy => ⟨x, y, hxy, Or.inl ⟨rfl, rfl⟩⟩
  have hsum : ∑ v, ∑ a ∈ G.neighborFinset v, g s(v, a) =
      ∑ p ∈ ({p | G.Adj p.1 p.2} : Finset (V × V)), g s(p.1, p.2) := by
    simp only [SimpleGraph.neighborFinset_eq_filter, sum_filter, Fintype.sum_prod_type]
  rw [hsum, ← himage]
  refine sum_names _ (fun p : V × V => s(p.1, p.2)) (n := 2) ?_ g
  rintro ⟨a, b⟩ hab
  have hne : a ≠ b := (mem_filter.mp hab).2.ne
  have hnames : {p ∈ ({p | G.Adj p.1 p.2} : Finset (V × V)) | s(p.1, p.2) = s(a, b)} =
      {(a, b), (b, a)} := by
    ext ⟨x, y⟩
    have hadj : G.Adj a b := (mem_filter.mp hab).2
    have hadj' := hadj.symm
    simp only [mem_filter, mem_univ, true_and, mem_insert, mem_singleton, Prod.mk.injEq,
      Sym2.eq_iff]
    grind
  rw [hnames, card_pair (by simpa using fun h _ => hne h)]

/-- The pairs of neighbours of a node that have an edge between them. Each triangle has three. -/
theorem card_closed_pairs :
    ∑ v, #{t ∈ (G.neighborFinset v).powersetCard 2 | ¬ ∀ a ∈ t, ∀ b ∈ t, ¬ G.Adj a b} =
      3 * #(G.cliqueFinset 3) := by
  have hpair (v : V) :
      2 * #{t ∈ (G.neighborFinset v).powersetCard 2 | ¬ ∀ a ∈ t, ∀ b ∈ t, ¬ G.Adj a b} =
        #{p : V × V | (v, p) ∈ closedTriples G} := by
    rw [card_filter, ← sum_offDiag, ← card_filter]
    congr 1
    ext ⟨a, b⟩
    simp only [mem_filter, mem_univ, mem_offDiag, SimpleGraph.mem_neighborFinset, mem_insert,
      mem_singleton, mem_closedTriples, true_and]
    grind [SimpleGraph.adj_comm, SimpleGraph.irrefl]
  have htriples : #(closedTriples G) = 6 * #(G.cliqueFinset 3) := by
    have hsum := sum_closedTriples G fun _ => (1 : ℕ)
    simpa only [sum_const, smul_eq_mul, mul_one] using hsum
  have hfirst : ∑ v, #{p : V × V | (v, p) ∈ closedTriples G} = #(closedTriples G) := by
    simp only [closedTriples, card_filter, Fintype.sum_prod_type, mem_filter, mem_univ, true_and]
  have htwice : 2 * ∑ v, #{t ∈ (G.neighborFinset v).powersetCard 2 |
      ¬ ∀ a ∈ t, ∀ b ∈ t, ¬ G.Adj a b} = #(closedTriples G) := by
    rw [mul_sum, sum_congr rfl fun v _ => hpair v, hfirst]
  omega

/-- The pairs of neighbours of a node have an edge between them, and then are in a triangle with
it, or are an induced path with it. -/
theorem card_pairs :
    ∑ v, (G.degree v).choose 2 = #(openWedges G) + 3 * #(G.cliqueFinset 3) := by
  have hopen : #(openWedges G) =
      ∑ v, #{t ∈ (G.neighborFinset v).powersetCard 2 | ∀ a ∈ t, ∀ b ∈ t, ¬ G.Adj a b} := by
    simp only [openWedges, card_filter, Fintype.sum_prod_type, ite_and]
    refine sum_congr rfl fun v _ => ?_
    rw [← sum_filter]
    exact sum_congr (by ext t; simp only [mem_filter, mem_univ, true_and]) fun _ _ => rfl
  rw [hopen, ← card_closed_pairs, ← sum_add_distrib]
  refine sum_congr rfl fun v _ => ?_
  rw [card_filter_add_card_filter_not, card_powersetCard, SimpleGraph.card_neighborFinset_eq_degree]

end Shapes

section Weights

variable {R : Type*} [CommRing R] (w : Sym2 V → R)

/-- The matrix of a graph whose edges have weights. -/
def weightMatrix : Matrix V V R := .of fun a b => if G.Adj a b then w s(a, b) else 0

omit [Fintype V] [DecidableEq V] in
@[simp] theorem weightMatrix_apply (a b : V) :
    weightMatrix G w a b = if G.Adj a b then w s(a, b) else 0 := rfl

omit [Fintype V] [DecidableEq V] in
theorem weightMatrix_comm (a b : V) : weightMatrix G w a b = weightMatrix G w b a := by
  simp [G.adj_comm a b, Sym2.eq_swap]

omit [Fintype V] [DecidableRel G.Adj] in
theorem prod_edgesOf {a b c : V} (hab : G.Adj a b) (hbc : G.Adj b c) (hca : G.Adj c a) :
    ∏ e ∈ edgesOf {a, b, c}, w e = w s(a, b) * w s(b, c) * w s(c, a) := by
  have hab' := hab.ne
  have hbc' := hbc.ne
  have hca' := hca.ne
  rw [edgesOf_triple hab' hbc' hca', prod_insert, prod_pair, mul_assoc]
  · simp only [ne_eq, Sym2.eq_iff]
    grind
  · simp only [mem_insert, mem_singleton, Sym2.eq_iff]
    grind

/-- The closed walks of three steps. -/
theorem trace_cube :
    (weightMatrix G w * weightMatrix G w * weightMatrix G w).trace =
      6 * ∑ t ∈ G.cliqueFinset 3, ∏ e ∈ edgesOf t, w e := by
  have hwalks : (weightMatrix G w * weightMatrix G w * weightMatrix G w).trace =
      ∑ p ∈ closedTriples G, w s(p.1, p.2.1) * w s(p.2.1, p.2.2) * w s(p.2.2, p.1) := by
    simp only [Matrix.trace, Matrix.diag_apply, Matrix.mul_apply, sum_mul, closedTriples,
      sum_filter, Fintype.sum_prod_type, weightMatrix_apply]
    refine sum_congr rfl fun a _ => ?_
    rw [sum_comm]
    refine sum_congr rfl fun b _ => sum_congr rfl fun c _ => ?_
    by_cases hab : G.Adj a b <;> by_cases hbc : G.Adj b c <;> by_cases hca : G.Adj c a <;>
      simp [hab, hbc, hca]
  rw [hwalks, ← sum_closedTriples]
  refine sum_congr rfl fun p hp => ?_
  obtain ⟨hab, hbc, hca⟩ := (mem_closedTriples G).mp hp
  rw [prod_edgesOf G w hab hbc hca]

omit [Fintype V] in
theorem prod_roundTrip {a b c d : V} (hab : a ≠ b) (hbc : b ≠ c) (hcd : c ≠ d) (hda : d ≠ a)
    (hac : a ≠ c) (hbd : b ≠ d) :
    ∏ e ∈ roundTrip (a, b, c, d), w e =
      w s(a, b) * w s(b, c) * w s(c, d) * w s(d, a) := by
  unfold roundTrip
  rw [prod_insert, prod_insert, prod_pair, mul_assoc, mul_assoc]
  all_goals
    simp only [ne_eq, mem_insert, mem_singleton, Sym2.eq_iff]
    grind

omit [DecidableEq V] in
/-- What is summed over a row of the matrix is summed over the neighbours of its node. -/
theorem sum_row (v : V) (n : ℕ) (hn : n ≠ 0) :
    ∑ a, weightMatrix G w v a ^ n = ∑ a ∈ G.neighborFinset v, w s(v, a) ^ n := by
  simp only [SimpleGraph.neighborFinset_eq_filter, sum_filter, weightMatrix_apply, ite_pow,
    zero_pow hn]

/-- The walks along two different edges of a node and back. -/
theorem sum_offDiag_row (v : V) :
    ∑ p ∈ univ.offDiag, weightMatrix G w v p.1 ^ 2 * weightMatrix G w v p.2 ^ 2 =
      2 * ∑ t ∈ (G.neighborFinset v).powersetCard 2, ∏ a ∈ t, w s(v, a) ^ 2 := by
  have hall := sq_sum univ fun a => weightMatrix G w v a ^ 2
  have hneighbors := sq_sum (G.neighborFinset v) fun a => w s(v, a) ^ 2
  simp only [← pow_mul] at hall hneighbors
  rw [sum_row G w v 2 (by decide), sum_row G w v (2 * 2) (by decide)] at hall
  rw [← sum_offDiag_mul]
  linear_combination hneighbors - hall

/-- The walks round a cycle of four nodes. -/
theorem sum_offDiag_offDiag :
    ∑ q ∈ univ.offDiag, ∑ p ∈ univ.offDiag,
        weightMatrix G w q.1 p.1 * weightMatrix G w p.1 q.2 *
          (weightMatrix G w q.1 p.2 * weightMatrix G w p.2 q.2) =
      8 * ∑ c ∈ fourCycles G, ∏ e ∈ c, w e := by
  have hoffDiag : (univ : Finset V).offDiag = ({p | p.1 ≠ p.2} : Finset (V × V)) := by
    ext p
    simp only [mem_offDiag, mem_univ, true_and, mem_filter]
  rw [← sum_cycles, hoffDiag]
  simp only [closedQuadruples, filter_filter, sum_filter, Fintype.sum_prod_type]
  refine sum_congr rfl fun a _ => ?_
  have hpull (c : V) : (if a ≠ c then ∑ b, ∑ d, if b ≠ d then
        weightMatrix G w a b * weightMatrix G w b c * (weightMatrix G w a d * weightMatrix G w d c)
        else 0 else 0) =
      ∑ b, ∑ d, if (G.Adj a b ∧ G.Adj b c ∧ G.Adj c d ∧ G.Adj d a) ∧ a ≠ c ∧ b ≠ d then
        ∏ e ∈ roundTrip (a, b, c, d), w e else 0 := by
    by_cases hac : a = c
    · simp [hac]
    rw [if_pos hac]
    refine sum_congr rfl fun b _ => sum_congr rfl fun d _ => ?_
    by_cases hbd : b = d
    · simp [hbd]
    rw [if_pos hbd]
    by_cases hwalk : G.Adj a b ∧ G.Adj b c ∧ G.Adj c d ∧ G.Adj d a
    · obtain ⟨hab, hbc, hcd, hda⟩ := hwalk
      rw [if_pos ⟨⟨hab, hbc, hcd, hda⟩, hac, hbd⟩,
        prod_roundTrip w hab.ne hbc.ne hcd.ne hda.ne hac hbd]
      simp only [weightMatrix_apply, if_pos hab, if_pos hbc, if_pos hda.symm, if_pos hcd.symm,
        Sym2.eq_swap (a := a) (b := d), Sym2.eq_swap (a := d) (b := c)]
      ring
    · rw [if_neg fun h => hwalk h.1]
      simp only [weightMatrix_apply]
      grind [SimpleGraph.adj_comm]
  rw [sum_congr rfl fun c _ => hpull c, sum_comm]

/-- The closed walks of four steps. -/
theorem sum_sq_apply :
    ∑ a, ∑ c, (weightMatrix G w * weightMatrix G w) a c *
        (weightMatrix G w * weightMatrix G w) a c =
      2 * ∑ e ∈ G.edgeFinset, w e ^ 4 +
      4 * ∑ v, ∑ t ∈ (G.neighborFinset v).powersetCard 2, ∏ a ∈ t, w s(v, a) ^ 2 +
      8 * ∑ c ∈ fourCycles G, ∏ e ∈ c, w e := by
  have hmiddle (a c : V) :
      (weightMatrix G w * weightMatrix G w) a c * (weightMatrix G w * weightMatrix G w) a c =
        ∑ b, weightMatrix G w b a ^ 2 * weightMatrix G w b c ^ 2 +
        ∑ p ∈ univ.offDiag, weightMatrix G w a p.1 * weightMatrix G w p.1 c *
          (weightMatrix G w a p.2 * weightMatrix G w p.2 c) := by
    rw [Matrix.mul_apply, ← sq, sq_sum]
    simp only [mul_pow, weightMatrix_comm G w a]
  have hone : ∑ a, ∑ c, ∑ b, weightMatrix G w b a ^ 2 * weightMatrix G w b c ^ 2 =
      2 * ∑ e ∈ G.edgeFinset, w e ^ 4 +
      2 * ∑ v, ∑ t ∈ (G.neighborFinset v).powersetCard 2, ∏ a ∈ t, w s(v, a) ^ 2 := by
    have hrows (v : V) : ∑ a, ∑ c, weightMatrix G w v a ^ 2 * weightMatrix G w v c ^ 2 =
        ∑ a ∈ G.neighborFinset v, w s(v, a) ^ 4 +
        2 * ∑ t ∈ (G.neighborFinset v).powersetCard 2, ∏ a ∈ t, w s(v, a) ^ 2 := by
      rw [sum_pairs, sum_offDiag_row, ← sum_row G w v 4 (by decide)]
      simp only [← pow_add]
    rw [sum_congr rfl fun a _ => sum_comm, sum_comm, sum_congr rfl fun v _ => hrows v,
      sum_add_distrib, sum_neighbors G fun e => w e ^ 4, ← mul_sum]
  have htwo : ∑ a, ∑ p ∈ univ.offDiag, weightMatrix G w a p.1 * weightMatrix G w p.1 a *
      (weightMatrix G w a p.2 * weightMatrix G w p.2 a) =
      2 * ∑ v, ∑ t ∈ (G.neighborFinset v).powersetCard 2, ∏ a ∈ t, w s(v, a) ^ 2 := by
    rw [mul_sum]
    refine sum_congr rfl fun a _ => ?_
    rw [← sum_offDiag_row]
    refine sum_congr rfl fun p _ => ?_
    rw [weightMatrix_comm G w p.1 a, weightMatrix_comm G w p.2 a]
    ring
  simp only [hmiddle, sum_add_distrib]
  rw [hone, sum_pairs, htwo, sum_offDiag_offDiag]
  ring

end Weights

end ClosedWalks
