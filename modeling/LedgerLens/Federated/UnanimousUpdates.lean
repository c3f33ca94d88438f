import LedgerLens.Federated.AsyncCoordinator
import Mathlib.Algebra.BigOperators.Ring.List
import Mathlib.Algebra.Order.BigOperators.Group.List
import Mathlib.Algebra.Order.Field.Rat
import Mathlib.Tactic.Linarith

/-!
# Updates that agree

The asynchronous coordinator normalises the weights of the updates before it aggregates them. The
sum of the weighted deltas of participants that agree is their delta. Krum selects one of the
weighted deltas, which is only a part of it.
-/

namespace LedgerLens.Federated

open NumArray Raising

variable {R : Type} [Field R] [LinearOrder R] {g weights : List R} {c : R}

section Scaled

/-- A row in which every element is scaled. -/
def scaled (g : List R) (c : R) : List R := g.map (c * ·)

omit [LinearOrder R] in
@[simp] theorem length_scaled (g : List R) (c : R) : (scaled g c).length = g.length :=
  List.length_map _

omit [LinearOrder R] in
@[simp] theorem scaled_one (g : List R) : scaled g 1 = g := by
  unfold scaled
  simp only [one_mul, List.map_id']

omit [LinearOrder R] in
/-- Two scaled copies of a row are added by adding the factors. -/
theorem add_scaled (g : List R) (b c : R) :
    add (scaled g b) (scaled g c) = .ok (scaled g (b + c)) := by
  unfold add
  rw [if_pos (by rw [length_scaled, length_scaled])]
  congr 1
  unfold scaled
  rw [List.zipWith_map, List.zipWith_self]
  refine List.map_congr_left fun x _ => ?_
  exact (add_mul b c x).symm

omit [LinearOrder R] in
theorem foldlM_add_scaled (g : List R) (b : R) (factors : List R) :
    (factors.map (scaled g)).foldlM add (scaled g b) = .ok (scaled g (b + factors.sum)) := by
  induction factors generalizing b with
  | nil => simp [pure, Except.pure]
  | cons c factors ih =>
    rw [List.map_cons, List.foldlM_cons, add_scaled]
    refine (ih (b + c)).trans ?_
    rw [List.sum_cons, add_assoc]

omit [LinearOrder R] in
/-- The sum of scaled copies of a row. -/
theorem sumArrays_scaled (g : List R) {factors : List R} (hne : factors ≠ []) :
    sumArrays (factors.map (scaled g)) = .ok (scaled g factors.sum) := by
  obtain ⟨c, rest, rfl⟩ := List.exists_cons_of_ne_nil hne
  exact foldlM_add_scaled g c rest

/-- The sum with a scaled row is that with the row itself exactly if the factor is one or the row
is zero. -/
theorem zipWith_add_scaled_iff (hlength : weights.length = g.length) :
    weights.zipWith (· + ·) (scaled g c) = weights.zipWith (· + ·) g ↔
      c = 1 ∨ ∀ x ∈ g, x = 0 := by
  induction weights generalizing g with
  | nil =>
    obtain rfl := List.eq_nil_of_length_eq_zero hlength.symm
    simp
  | cons w weights ih =>
    cases g with
    | nil => cases hlength
    | cons x g =>
      have hhead : w + c * x = w + x ↔ c = 1 ∨ x = 0 := by
        rw [add_right_inj, mul_left_eq_self₀]
      have hrest := ih (Nat.succ.inj hlength)
      unfold scaled at hrest ⊢
      rw [List.map_cons, List.zipWith_cons_cons, List.zipWith_cons_cons, List.cons.injEq, hhead,
        hrest, List.forall_mem_cons]
      tauto

end Scaled

namespace AsyncState

variable [IsStrictOrderedRing R] {updates : List (AsyncGradientUpdate R)} {modelVersion : ℕ}

theorem stalenessWeight_pos (modelVersion : ℕ) (u : AsyncGradientUpdate R) :
    0 < stalenessWeight modelVersion u := by
  unfold stalenessWeight
  have hstaleness : (0 : R) ≤ ((max 0 ((modelVersion : ℤ) - u.gradientModelVersion) : ℤ) : R) := by
    exact_mod_cast le_max_left 0 _
  exact one_div_pos.mpr (by linarith)

/-- The normalised weights of some updates. -/
def normWeights (modelVersion : ℕ) (updates : List (AsyncGradientUpdate R)) : List R :=
  updates.map fun u =>
    stalenessWeight modelVersion u / (updates.map (stalenessWeight modelVersion)).sum

omit [LinearOrder R] [IsStrictOrderedRing R] in
/-- The weighted deltas of participants that agree. -/
theorem weightedDeltas_of_unanimous (hunanimous : ∀ u ∈ updates, u.delta = g) :
    weightedDeltas modelVersion updates = (normWeights modelVersion updates).map (scaled g) := by
  unfold weightedDeltas normWeights
  rw [List.map_map]
  refine List.map_congr_left fun u hu => ?_
  rw [hunanimous u hu]
  rfl

theorem sum_stalenessWeight_pos (hne : updates ≠ []) :
    0 < (updates.map (stalenessWeight modelVersion)).sum := by
  refine List.sum_pos _ (fun w hw => ?_) (mt List.map_eq_nil_iff.mp hne)
  obtain ⟨u, -, rfl⟩ := List.mem_map.mp hw
  exact stalenessWeight_pos modelVersion u

/-- They add up to one. -/
theorem sum_normWeights (hne : updates ≠ []) : (normWeights modelVersion updates).sum = 1 := by
  unfold normWeights
  simp only [div_eq_mul_inv]
  rw [List.sum_map_mul_right]
  exact mul_inv_cancel₀ (sum_stalenessWeight_pos hne).ne'

/-- They are positive, and each is less than one if there are several. -/
theorem normWeights_lt_one (hmany : 2 ≤ updates.length) :
    ∀ w ∈ normWeights modelVersion updates, 0 < w ∧ w < 1 := by
  have hne : updates ≠ [] := List.ne_nil_of_length_pos (by omega)
  have hpos : ∀ w ∈ normWeights modelVersion updates, 0 < w := by
    intro w hw
    obtain ⟨u, -, rfl⟩ := List.mem_map.mp hw
    exact div_pos (stalenessWeight_pos modelVersion u) (sum_stalenessWeight_pos hne)
  intro w hw
  refine ⟨hpos w hw, ?_⟩
  -- The others are not none, and they add up to something positive.
  have hsum := (List.perm_cons_erase hw).sum_eq
  rw [sum_normWeights hne, List.sum_cons] at hsum
  have hothers : (normWeights modelVersion updates).erase w ≠ [] := by
    refine List.ne_nil_of_length_pos ?_
    have hlength : (normWeights modelVersion updates).length = updates.length := List.length_map _
    rw [List.length_erase_of_mem hw]
    omega
  have hrest := List.sum_pos _ (fun x hx => hpos x (List.mem_of_mem_erase hx)) hothers
  linarith

/-- The weight of a single update is one. -/
theorem normWeights_eq_one (hone : updates.length = 1) :
    ∀ w ∈ normWeights modelVersion updates, w = 1 := by
  intro w hw
  have hsum : (normWeights modelVersion updates).sum = 1 :=
    sum_normWeights (List.ne_nil_of_length_pos (by omega))
  have hlength : (normWeights modelVersion updates).length = 1 := (List.length_map _).trans hone
  obtain ⟨x, hx⟩ := List.length_eq_one_iff.mp hlength
  rw [hx, List.mem_singleton] at hw
  rw [hx, List.sum_singleton] at hsum
  rw [hw, hsum]

end AsyncState

/-- A clipped row is a scaled copy, and the factor of a longer row is less than one. -/
theorem clip_scaled [IsStrictOrderedRing R] (settings : KrumSettings R) (g : List R) {c : R}
    (hpos : 0 < c) : ∃ b, b ≤ c ∧ settings.clip (scaled g c) = scaled g b := by
  unfold KrumSettings.clip
  split_ifs with hlong
  · have hnorm : 0 < settings.norm (scaled g c) := settings.clipNorm_nonneg.trans_lt hlong
    refine ⟨c * (settings.clipNorm / settings.norm (scaled g c)), ?_, ?_⟩
    · exact mul_le_of_le_one_right hpos.le ((div_le_one hnorm).mpr hlong.le)
    · unfold scaled
      rw [List.map_map]
      refine List.map_congr_left fun x _ => ?_
      exact mul_right_comm c x _
  · exact ⟨c, le_rfl, rfl⟩

namespace AsyncState

variable [IsStrictOrderedRing R] {s : AsyncState R} {updates : List (AsyncGradientUpdate R)}

/-- The aggregate of participants that agree is a scaled copy of their delta. The factor is one
exactly if Krum is not used, or if there is one participant. -/
theorem aggregateWeighted_of_unanimous (settings : KrumSettings R) (modelVersion : ℕ)
    (hne : updates ≠ []) (hunanimous : ∀ u ∈ updates, u.delta = g)
    (hnorm : settings.norm g ≤ settings.clipNorm) :
    ∃ c, aggregateWeighted settings (weightedDeltas modelVersion updates) = .ok (scaled g c) ∧
      (c = 1 ↔ (updates.length : ℤ) - settings.byzantineTolerance < 3 ∨ updates.length = 1) := by
  have hlength : (normWeights modelVersion updates).length = updates.length := List.length_map _
  have hfactors : normWeights modelVersion updates ≠ [] := mt List.map_eq_nil_iff.mp hne
  unfold aggregateWeighted
  rw [weightedDeltas_of_unanimous hunanimous, List.length_map, hlength]
  split_ifs with hkrum
  · have huniform : Uniform ((normWeights modelVersion updates).map (scaled g)) := by
      unfold Uniform
      simp only [List.forall_mem_map, length_scaled, implies_true]
    obtain ⟨u, hu, hselected⟩ := settings.krumAggregate_of_uniform
      (by rw [List.length_map, hlength]; exact hkrum) (mt List.map_eq_nil_iff.mp hfactors) huniform
    obtain ⟨w, hw, rfl⟩ := List.mem_map.mp hu
    rw [hselected]
    dsimp only
    obtain hone | hmany : updates.length = 1 ∨ 2 ≤ updates.length := by
      have := List.length_pos_of_ne_nil hne
      omega
    · refine ⟨1, ?_, by simp [hone]⟩
      rw [normWeights_eq_one hone w hw, scaled_one]
      congr 1
      exact if_neg (not_lt.mpr hnorm)
    · obtain ⟨hpos, hlt⟩ := normWeights_lt_one hmany w hw
      obtain ⟨b, hle, hclip⟩ := clip_scaled settings g hpos
      refine ⟨b, by rw [hclip], ?_⟩
      have hb : b ≠ 1 := (hle.trans_lt hlt).ne
      constructor
      · intro h
        exact absurd h hb
      · omega
  · refine ⟨1, ?_, by simp only [true_iff]; omega⟩
    rw [sumArrays_scaled g hfactors, sum_normWeights hne]

/-- Some participants agree on a delta within the bound. The coordinator moves the global weights
by this delta exactly if there are too few participants for Krum, or if there is only one of
them, or if the delta is zero. -/
theorem aggregate_unanimous_iff (settings : KrumSettings R) (context : CallContext)
    (hweights : s.globalWeights = some weights) (hlength : weights.length = g.length)
    (hpending : s.pending ≠ []) (hunanimous : ∀ u ∈ s.pending, u.delta = g)
    (hnorm : settings.norm g ≤ settings.clipNorm) :
    (exec (aggregate settings context) s).2.globalWeights = some (weights.zipWith (· + ·) g) ↔
      (s.pending.length : ℤ) - settings.byzantineTolerance < 3 ∨ s.pending.length = 1 ∨
        ∀ x ∈ g, x = 0 := by
  obtain ⟨c, haggregate, hc⟩ :=
    aggregateWeighted_of_unanimous settings s.modelVersion hpending hunanimous hnorm
  have hnext : nextWeights settings weights s.modelVersion s.pending =
      .ok (weights.zipWith (· + ·) (scaled g c)) := by
    unfold nextWeights
    rw [haggregate]
    exact if_pos (by rw [length_scaled, hlength])
  rw [exec_aggregate settings context hweights hpending, hnext]
  dsimp only
  rw [Option.some.injEq, zipWith_add_scaled_iff hlength, hc, or_assoc]

end AsyncState

/-- Settings with a tolerance of one participant and a bound of two. -/
private def unanimousSettings : KrumSettings ℚ where
  byzantineTolerance := 1
  clipNorm := 2
  clipNorm_nonneg := by decide +kernel
  sqrt x := x
  argsort := Argsort.stable _

/-- A coordinator with one weight and some updates that are all of delta one. -/
private def unanimous (n : ℕ) : AsyncState ℚ where
  globalWeights := some [0]
  pending := List.replicate n ⟨0, "p", [1], 0, 0⟩
  lastAggregationTime := 0

/-- Three participants move the weight by one. -/
theorem aggregate_three_unanimous :
    (exec (AsyncState.aggregate unanimousSettings { now := 0 }) (unanimous 3)).2.globalWeights =
      some (List.zipWith (· + ·) [0] [1]) := by
  have hweights : (unanimous 3).globalWeights = some [0] := rfl
  have hlength : ([0] : List ℚ).length = ([1] : List ℚ).length := rfl
  refine (AsyncState.aggregate_unanimous_iff unanimousSettings { now := 0 } hweights hlength ?_ ?_
    ?_).mpr (Or.inl ?_) <;> decide +kernel

/-- Four participants move the weight by a quarter. -/
theorem aggregate_four_unanimous :
    (∀ u ∈ (unanimous 4).pending, u.delta = [1]) ∧
      unanimousSettings.norm [1] ≤ unanimousSettings.clipNorm ∧
      (exec (AsyncState.aggregate unanimousSettings { now := 0 }) (unanimous 4)).2.globalWeights =
        some [1 / 4] := by
  refine ⟨?_, ?_, ?_⟩ <;> decide +kernel

end LedgerLens.Federated
