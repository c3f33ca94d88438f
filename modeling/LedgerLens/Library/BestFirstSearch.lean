import Mathlib.Algebra.Order.Ring.Defs
import Mathlib.Order.Bounds.Basic

/-!
# Best-first search for the strongest path

A path is as strong as the product of the weights of its arcs, which lie between zero and
one. A best-first search settles the strongest queued vertex and then relaxes its arcs. Here
a search is what its data structures say: the best strength seen of a vertex, the entries of
the queue, and the strength at which a vertex was settled. The rules are those of Dijkstra's
algorithm: one for each thing that the loop does, and what holds when the queue is empty.
-/

namespace BestFirst

variable {V K : Type*} [Semiring K] [LinearOrder K] [IsOrderedRing K]

/-- The paths from a vertex, with the product of their weights. -/
inductive WeightedPath (arc : V → V → K → Prop) (start : V) : V → K → Prop where
  /-- The path without arcs. -/
  | refl : WeightedPath arc start start 1
  /-- A path goes on along an arc. -/
  | step {u v : V} {p w : K} :
    WeightedPath arc start u p → arc u v w → WeightedPath arc start v (p * w)

/-- The strength of the strongest path to a vertex. -/
def IsStrongest (arc : V → V → K → Prop) (start v : V) (c : K) : Prop :=
  IsGreatest {p | WeightedPath arc start v p} c

/-- What the data structures of a search say. -/
structure Search (V K : Type*) where
  /-- The best strength seen of a vertex. -/
  best : V → Option K
  /-- The queue. -/
  queue : Set (K × V)
  /-- The strength at which a vertex was settled. -/
  settled : V → Option K

/-- What a search knows, but for the arcs that are still to be relaxed. -/
structure Invariant (arc : V → V → K → Prop) (start : V) (pending : V → V → K → Prop)
    (s : Search V K) : Prop where
  /-- A queued strength is that of a path. -/
  attained : ∀ v c, (c, v) ∈ s.queue → WeightedPath arc start v c
  /-- A settled strength is the greatest. -/
  optimal : ∀ v c, s.settled v = some c → IsStrongest arc start v c
  /-- The best strength of a vertex that is not settled is queued. -/
  queued : ∀ v c, s.best v = some c → s.settled v = none → (c, v) ∈ s.queue
  /-- The start is settled, or seen. -/
  started : s.settled start = none → ∃ b, s.best start = some b ∧ 1 ≤ b
  /-- A relaxed arc leads to a settled vertex or to one seen through the arc. -/
  relaxed : ∀ u c v w, s.settled u = some c → arc u v w → ¬pending u v w →
    s.settled v = none → ∃ b, s.best v = some b ∧ c * w ≤ b

/-- Weights between zero and one. -/
def UnitWeights (arc : V → V → K → Prop) : Prop := ∀ u v w, arc u v w → 0 ≤ w ∧ w ≤ 1

variable {arc pending pending' : V → V → K → Prop} {start v : V} {s s' : Search V K} {c : K}

theorem WeightedPath.nonneg (hweights : UnitWeights arc) {p : K}
    (h : WeightedPath arc start v p) : 0 ≤ p := by
  induction h with
  | refl => exact zero_le_one
  | step _ harc ih => exact mul_nonneg ih (hweights _ _ _ harc).1

/-- An entry as strong as a path is queued as long as the end of the path is not settled. -/
theorem Invariant.exists_queued (h : Invariant arc start (fun _ _ _ => False) s)
    (hweights : UnitWeights arc) {p : K} (hpath : WeightedPath arc start v p)
    (hopen : s.settled v = none) : ∃ b u, (b, u) ∈ s.queue ∧ p ≤ b := by
  induction hpath with
  | refl =>
    obtain ⟨b, hbest, hle⟩ := h.started hopen
    exact ⟨b, start, h.queued start b hbest hopen, hle⟩
  | @step u v p w hpath harc ih =>
    have hw := hweights u v w harc
    cases hu : s.settled u with
    | none =>
      obtain ⟨b, x, hb, hle⟩ := ih hu
      refine ⟨b, x, hb, le_trans ?_ hle⟩
      exact mul_le_of_le_one_right (hpath.nonneg hweights) hw.2
    | some cu =>
      have hp : p ≤ cu := (h.optimal u cu hu).2 hpath
      obtain ⟨b, hbest, hle⟩ := h.relaxed u cu v w hu harc id hopen
      exact ⟨b, v, h.queued v b hbest hopen,
        le_trans (mul_le_mul_of_nonneg_right hp hw.1) hle⟩

omit [IsOrderedRing K] in
/-- A search begins with its start alone in the queue. -/
theorem Invariant.init (hbest : s.best start = some 1) (hseen : ∀ v, v ≠ start → s.best v = none)
    (hqueue : s.queue = {(1, start)}) (hsettled : ∀ v, s.settled v = none) :
    Invariant arc start pending s where
  attained v c hc := by
    rw [hqueue, Set.mem_singleton_iff, Prod.mk.injEq] at hc
    obtain ⟨rfl, rfl⟩ := hc
    exact WeightedPath.refl
  optimal v c hc := by simp [hsettled] at hc
  queued v c hc _ := by
    by_cases hv : v = start
    · subst hv
      rw [hbest, Option.some.injEq] at hc
      simp [hqueue, hc]
    · simp [hseen v hv] at hc
  started _ := ⟨1, hbest, le_refl 1⟩
  relaxed u c v w hu := by simp [hsettled] at hu

omit [IsOrderedRing K] in
/-- An entry of a settled vertex may be dropped from the queue. -/
theorem Invariant.skip (h : Invariant arc start pending s) (hbest : s'.best = s.best)
    (hsettled : s'.settled = s.settled) (hv : s.settled v ≠ none)
    (hsub : ∀ e ∈ s'.queue, e ∈ s.queue) (hkeep : ∀ e ∈ s.queue, e ≠ (c, v) → e ∈ s'.queue) :
    Invariant arc start pending s' where
  attained u b hb := h.attained u b (hsub _ hb)
  optimal := by simpa [hsettled] using h.optimal
  queued u b hb hu := by
    rw [hbest] at hb
    rw [hsettled] at hu
    refine hkeep _ (h.queued u b hb hu) ?_
    intro heq
    rw [Prod.mk.injEq] at heq
    exact hv (heq.2 ▸ hu)
  started := by simpa [hbest, hsettled] using h.started
  relaxed := by simpa [hbest, hsettled] using h.relaxed

/-- The strongest entry of the queue settles its vertex, whose arcs are then to be relaxed. -/
theorem Invariant.settle (h : Invariant arc start (fun _ _ _ => False) s)
    (hweights : UnitWeights arc) (hpop : (c, v) ∈ s.queue)
    (hmax : ∀ b u, (b, u) ∈ s.queue → b ≤ c) (hopen : s.settled v = none)
    (hbest : s'.best = s.best) (hv : s'.settled v = some c)
    (hothers : ∀ u, u ≠ v → s'.settled u = s.settled u)
    (hsub : ∀ e ∈ s'.queue, e ∈ s.queue) (hkeep : ∀ e ∈ s.queue, e ≠ (c, v) → e ∈ s'.queue) :
    Invariant arc start (fun u _ _ => u = v) s' where
  attained u b hb := h.attained u b (hsub _ hb)
  optimal u b hb := by
    by_cases hu : u = v
    · subst hu
      rw [hv, Option.some.injEq] at hb
      subst hb
      refine ⟨h.attained u c hpop, ?_⟩
      intro p hp
      obtain ⟨b, x, hb, hle⟩ := h.exists_queued hweights hp hopen
      exact le_trans hle (hmax b x hb)
    · rw [hothers u hu] at hb
      exact h.optimal u b hb
  queued u b hb hu := by
    have hne : u ≠ v := by
      rintro rfl
      simp [hv] at hu
    rw [hbest] at hb
    rw [hothers u hne] at hu
    refine hkeep _ (h.queued u b hb hu) ?_
    simp [hne]
  started hs := by
    have hne : start ≠ v := by
      rintro rfl
      simp [hv] at hs
    rw [hothers start hne] at hs
    rw [hbest]
    exact h.started hs
  relaxed u b x w hu harc hpending hx := by
    have hne : x ≠ v := by
      rintro rfl
      simp [hv] at hx
    rw [hothers u hpending] at hu
    rw [hothers x hne] at hx
    rw [hbest]
    exact h.relaxed u b x w hu harc id hx

omit [IsOrderedRing K] in
/-- An arc is relaxed without effect when it leads to a settled vertex, or to one that is
seen at least as strong. -/
theorem Invariant.pass (h : Invariant arc start pending s)
    (hpass : ∀ u b x w, s.settled u = some b → arc u x w → pending u x w → ¬pending' u x w →
      s.settled x = none → ∃ b', s.best x = some b' ∧ b * w ≤ b') :
    Invariant arc start pending' s where
  attained := h.attained
  optimal := h.optimal
  queued := h.queued
  started := h.started
  relaxed u b x w hu harc hpending hx := by
    by_cases hold : pending u x w
    · exact hpass u b x w hu harc hold hpending hx
    · exact h.relaxed u b x w hu harc hold hx

omit [IsOrderedRing K] in
/-- A stronger path to a vertex that is not settled is queued. -/
theorem Invariant.push (h : Invariant arc start pending s) (hpath : WeightedPath arc start v c)
    (hstronger : ∀ b, s.best v = some b → b ≤ c) (hv : s'.best v = some c)
    (hothers : ∀ u, u ≠ v → s'.best u = s.best u) (hsettled : s'.settled = s.settled)
    (hqueue : ∀ e, e ∈ s'.queue ↔ e = (c, v) ∨ e ∈ s.queue) :
    Invariant arc start pending s' where
  attained u b hb := by
    rcases (hqueue _).mp hb with heq | hb
    · rw [Prod.mk.injEq] at heq
      rw [heq.1, heq.2]
      exact hpath
    · exact h.attained u b hb
  optimal := by simpa [hsettled] using h.optimal
  queued u b hb hu := by
    rw [hqueue]
    by_cases hne : u = v
    · subst hne
      rw [hv, Option.some.injEq] at hb
      exact Or.inl (by rw [hb])
    · rw [hothers u hne] at hb
      rw [hsettled] at hu
      exact Or.inr (h.queued u b hb hu)
  started hs := by
    rw [hsettled] at hs
    obtain ⟨b, hb, hle⟩ := h.started hs
    by_cases hne : start = v
    · subst hne
      exact ⟨c, hv, le_trans hle (hstronger b hb)⟩
    · exact ⟨b, by rw [hothers start hne, hb], hle⟩
  relaxed u a x w hu harc hpending hx := by
    rw [hsettled] at hu hx
    obtain ⟨b, hb, hle⟩ := h.relaxed u a x w hu harc hpending hx
    by_cases hne : x = v
    · subst hne
      exact ⟨c, hv, le_trans hle (hstronger b hb)⟩
    · exact ⟨b, by rw [hothers x hne, hb], hle⟩

/-- When the queue is empty, exactly the reachable vertices are settled. -/
theorem Invariant.settled_iff (h : Invariant arc start (fun _ _ _ => False) s)
    (hweights : UnitWeights arc) (hempty : s.queue = ∅) (v : V) :
    (∃ c, s.settled v = some c) ↔ ∃ p, WeightedPath arc start v p := by
  constructor
  · rintro ⟨c, hc⟩
    exact ⟨c, (h.optimal v c hc).1⟩
  · rintro ⟨p, hp⟩
    by_contra hnone
    have hopen : s.settled v = none := by
      rw [Option.eq_none_iff_forall_ne_some]
      exact fun c hc => hnone ⟨c, hc⟩
    obtain ⟨b, u, hb, -⟩ := h.exists_queued hweights hp hopen
    simp [hempty] at hb

end BestFirst
