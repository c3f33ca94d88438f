import LedgerLens.Federated.MaskedDeltas
import Mathlib.Analysis.Real.Sqrt

/-!
# Rounds that lose nothing

If all masks cancelled, a round would add the mean of the deltas to the weights. Every participant
draws its own masks, the round is over before participants beyond the quorum submit, and Krum picks
one submission. This file determines, over the real numbers, when the mean is added whatever the
participants draw, and which draws cancel where all participants are needed and Krum is not used.
-/

namespace LedgerLens.Federated

open NumArray Raising RoundState

/-- The configuration of the coordinator over the real numbers. -/
structure ExactConfig extends CoordinatorConfig ℝ where
  /-- Norms are exact. -/
  sqrt_eq : krum.sqrt = Real.sqrt

/-- A round has enough deltas for Krum. -/
def ExactConfig.UsesKrum (config : ExactConfig) : Prop :=
  3 ≤ (config.quorum : ℤ) - config.krum.byzantineTolerance

/-- A round: registered participants, enough of them for the quorum, with their deltas. -/
structure MaskedRound (config : ExactConfig) (dim : ℕ) where
  /-- The coordinator when the round begins. -/
  state : RoundState ℝ
  /-- The weights of the round. -/
  weights : Fin dim → ℝ
  /-- The coordinator has these weights. -/
  globalWeights_eq : state.globalWeights = some (List.ofFn weights)
  /-- Nobody has submitted yet. -/
  rows_eq : state.deltas.rows = []
  /-- The participants of the round. -/
  ids : List String
  /-- There is a participant. -/
  ids_ne : ids ≠ []
  /-- Each takes part once. -/
  nodup : ids.Nodup
  /-- They are registered. -/
  registered : ∀ pid ∈ ids, pid ∈ state.participants
  /-- There are enough of them. -/
  enough : config.minParticipants ≤ ids.length
  /-- The compressed deltas before they are masked. -/
  deltas : String → Fin dim → ℝ

namespace MaskedRound

variable {config : ExactConfig} {dim : ℕ} (round : MaskedRound config dim)

/-- The mean of the deltas. -/
noncomputable def meanDelta : Fin dim → ℝ := fun i =>
  (round.ids.map round.deltas).sum i / (round.ids.length : ℝ)

/-- What a participant submits. -/
noncomputable def masked (draws : String → PairDraws (Fin dim → ℝ)) (pid : String) : Fin dim → ℝ :=
  maskedDelta round.state.participants pid (round.deltas pid) (draws pid)

/-- What is submitted until the round is over. -/
noncomputable def submitted (draws : String → PairDraws (Fin dim → ℝ)) (order : List String) :
    List (Fin dim → ℝ) :=
  (order.take config.quorum).map (round.masked draws)

/-- The round adds the mean of the deltas to the weights. -/
def Lossless (draws : String → PairDraws (Fin dim → ℝ)) (order : List String) : Prop :=
  (closeRound config.toCoordinatorConfig round.deltas draws round.state order).globalWeights =
    some (List.ofFn (round.weights + round.meanDelta))

/-- The condition for a round to be lossless whatever is drawn: there are no weights; or nobody else
is registered, and Krum is not used or does not clip the delta; or Krum clips everything to zero and
the deltas have the sum zero. -/
def NothingToLose : Prop :=
  dim = 0 ∨
    (round.state.participants.toFinset.card = 1 ∧
      (config.UsesKrum → ∀ pid ∈ round.ids,
        config.krum.norm (List.ofFn (round.deltas pid)) ≤ config.krum.clipNorm)) ∨
    (config.UsesKrum ∧ config.krum.clipNorm = 0 ∧ (round.ids.map round.deltas).sum = 0)

section Clipping

variable {settings : KrumSettings ℝ} (hsqrt : settings.sqrt = Real.sqrt)
include hsqrt

theorem norm_ofFn (v : Fin dim → ℝ) :
    settings.norm (List.ofFn v) = Real.sqrt (∑ i, v i * v i) := by
  have hdot : KrumSettings.dot (List.ofFn v) (List.ofFn v) = ∑ i, v i * v i := by
    unfold KrumSettings.dot
    have hrow : (List.ofFn v).zipWith (· * ·) (List.ofFn v) = List.ofFn fun i => v i * v i :=
      List.ext_getElem (by simp) fun i _ _ => by simp
    rw [hrow, List.sum_ofFn]
  unfold KrumSettings.norm
  rw [hdot, hsqrt]

theorem norm_nonneg (v : Fin dim → ℝ) : 0 ≤ settings.norm (List.ofFn v) := by
  rw [norm_ofFn hsqrt]
  exact Real.sqrt_nonneg _

/-- Only the zero array has the norm zero. -/
theorem norm_eq_zero_iff (v : Fin dim → ℝ) : settings.norm (List.ofFn v) = 0 ↔ v = 0 := by
  have hsum : 0 ≤ ∑ i, v i * v i := Finset.sum_nonneg fun i _ => mul_self_nonneg (v i)
  rw [norm_ofFn hsqrt, Real.sqrt_eq_zero hsum,
    Finset.sum_eq_zero_iff_of_nonneg fun i _ => mul_self_nonneg (v i)]
  simp [funext_iff]

/-- An array is not clipped exactly if its norm is in the bound. -/
theorem clip_ofFn_eq_self_iff (v : Fin dim → ℝ) :
    settings.clip (List.ofFn v) = List.ofFn v ↔
      settings.norm (List.ofFn v) ≤ settings.clipNorm := by
  unfold KrumSettings.clip
  split_ifs with hclip
  · refine iff_of_false (fun heq => ?_) (not_le.mpr hclip)
    have hnorm := lt_of_le_of_lt settings.clipNorm_nonneg hclip
    have hfactor : settings.clipNorm / settings.norm (List.ofFn v) ≠ 1 :=
      ((div_lt_one hnorm).mpr hclip).ne
    have hzero : v = 0 := by
      rw [List.map_ofFn, List.ofFn_inj] at heq
      funext i
      have hi : v i * (settings.clipNorm / settings.norm (List.ofFn v)) = v i := congrFun heq i
      by_contra hne
      exact hfactor ((mul_eq_left₀ hne).mp hi)
    exact hnorm.ne' ((norm_eq_zero_iff hsqrt v).mpr hzero)
  · exact iff_of_true rfl (not_lt.mp hclip)

/-- Clipping makes an array zero exactly if it is zero or the bound is. -/
theorem clip_ofFn_eq_zero_iff (v : Fin dim → ℝ) :
    settings.clip (List.ofFn v) = List.ofFn (0 : Fin dim → ℝ) ↔
      v = 0 ∨ settings.clipNorm = 0 := by
  unfold KrumSettings.clip
  split_ifs with hclip
  · have hnorm := lt_of_le_of_lt settings.clipNorm_nonneg hclip
    rw [List.map_ofFn, List.ofFn_inj]
    constructor
    · intro heq
      by_cases hzero : v = 0
      · exact .inl hzero
      · obtain ⟨i, hi⟩ := Function.ne_iff.mp hzero
        have hprod : v i * (settings.clipNorm / settings.norm (List.ofFn v)) = 0 :=
          congrFun heq i
        have hfactor := (mul_eq_zero.mp hprod).resolve_left hi
        exact .inr ((div_eq_zero_iff.mp hfactor).resolve_right hnorm.ne')
    · rintro (rfl | hbound)
      · funext i
        simp
      · funext i
        simp [hbound]
  · have hle := not_lt.mp hclip
    rw [List.ofFn_inj]
    constructor
    · exact .inl
    · rintro (hzero | hbound)
      · exact hzero
      · rw [hbound] at hle
        exact (norm_eq_zero_iff hsqrt v).mp (le_antisymm hle (norm_nonneg hsqrt v))

end Clipping

variable {round}

theorem one_le_quorum (config : ExactConfig) : 1 ≤ config.quorum := le_max_left _ _

theorem quorum_le (round : MaskedRound config dim) : config.quorum ≤ round.ids.length := by
  have henough := round.enough
  have hpos := List.length_pos_iff.mpr round.ids_ne
  unfold CoordinatorConfig.quorum
  omega

/-- The round is over with the submission that completes the quorum. -/
theorem length_submitted (draws : String → PairDraws (Fin dim → ℝ)) {order : List String}
    (hperm : order.Perm round.ids) : (round.submitted draws order).length = config.quorum := by
  unfold submitted
  rw [List.length_map, List.length_take, hperm.length_eq]
  exact min_eq_left round.quorum_le

theorem submitted_ne_nil (draws : String → PairDraws (Fin dim → ℝ)) {order : List String}
    (hperm : order.Perm round.ids) : round.submitted draws order ≠ [] := by
  have hlength := length_submitted draws hperm
  have hquorum := one_le_quorum config
  intro hnil
  rw [hnil, List.length_nil] at hlength
  omega

/-- A round is lossless exactly if the aggregate of the submissions is the mean of the deltas. -/
theorem lossless_iff_of_aggregate {draws : String → PairDraws (Fin dim → ℝ)} {order : List String}
    (hperm : order.Perm round.ids) {agg : List ℝ}
    (hagg : aggregateDeltas config.krum ((round.submitted draws order).map List.ofFn) = .ok agg) :
    round.Lossless draws order ↔ agg = List.ofFn round.meanDelta := by
  obtain ⟨a, ha⟩ := exists_aggregateDeltas_ofFn config.krum (submitted_ne_nil draws hperm)
  have heq : agg = List.ofFn a := by
    rw [ha] at hagg
    exact (Except.ok.inj hagg).symm
  have hdeltas : (round.state.deltas.rows.map Prod.snd ++ order.map fun pid =>
      List.ofFn (maskedDelta round.state.participants pid (round.deltas pid)
        (draws pid))).take config.quorum = (round.submitted draws order).map List.ofFn := by
    unfold submitted
    rw [round.rows_eq, List.map_nil, List.nil_append, ← List.map_take, List.map_map]
    rfl
  have hclosed : (closeRound config.toCoordinatorConfig round.deltas draws round.state
      order).globalWeights = some (List.ofFn (round.weights + a)) := by
    refine globalWeights_closeRound round.globalWeights_eq ?_ (hperm.nodup_iff.mpr round.nodup) ?_
      ?_ ?_ ?_
    · intro pid hpid
      exact round.registered pid (hperm.mem_iff.mp hpid)
    · intro pid _
      unfold UniqueTable.find?
      rw [round.rows_eq]
      rfl
    · rw [round.rows_eq]
      exact one_le_quorum config
    · rw [round.rows_eq, hperm.length_eq, List.length_nil, Nat.zero_add]
      exact round.quorum_le
    · rw [hdeltas]
      exact nextWeights_of_aggregate ha
  unfold Lossless
  rw [hclosed, Option.some_inj, List.ofFn_inj, heq, List.ofFn_inj, add_right_inj]

/-- Without Krum a round is lossless exactly if the mean of the submissions is that of the
deltas. -/
theorem lossless_iff_of_few (hfew : ¬config.UsesKrum) {draws : String → PairDraws (Fin dim → ℝ)}
    {order : List String} (hperm : order.Perm round.ids) :
    round.Lossless draws order ↔
      (fun i => (round.submitted draws order).sum i / (config.quorum : ℝ)) = round.meanDelta := by
  have hlength := length_submitted draws hperm
  have hkrum : ¬3 ≤ ((round.submitted draws order).length : ℤ) -
      config.krum.byzantineTolerance := by
    rw [hlength]
    exact hfew
  have hagg := aggregateDeltas_of_few config.krum (submitted_ne_nil draws hperm) hkrum
  rw [lossless_iff_of_aggregate hperm hagg, List.ofFn_inj, hlength]

/-- With Krum it is lossless exactly if one of the submissions is the mean when it is clipped. -/
theorem exists_lossless_iff_of_many (hmany : config.UsesKrum)
    (draws : String → PairDraws (Fin dim → ℝ)) {order : List String}
    (hperm : order.Perm round.ids) :
    ∃ v ∈ round.submitted draws order, (round.Lossless draws order ↔
      config.krum.clip (List.ofFn v) = List.ofFn round.meanDelta) := by
  have hkrum : 3 ≤ ((round.submitted draws order).length : ℤ) -
      config.krum.byzantineTolerance := by
    rw [length_submitted draws hperm]
    exact hmany
  obtain ⟨v, hv, hagg⟩ :=
    aggregateDeltas_of_many config.krum (submitted_ne_nil draws hperm) hkrum
  exact ⟨v, hv, lossless_iff_of_aggregate hperm hagg⟩

/-- The mean is zero exactly if the sum is. -/
theorem meanDelta_eq_zero_iff (round : MaskedRound config dim) :
    round.meanDelta = 0 ↔ (round.ids.map round.deltas).sum = 0 := by
  have hpos := List.length_pos_iff.mpr round.ids_ne
  have hcount : (round.ids.length : ℝ) ≠ 0 := Nat.cast_ne_zero.mpr (by omega)
  unfold meanDelta
  constructor
  · intro h
    funext i
    exact (div_eq_zero_iff.mp (congrFun h i)).resolve_right hcount
  · intro h
    funext i
    simp [h]

/-- What all submit, if they all submit the same. -/
theorem submitted_eq_replicate {draws : String → PairDraws (Fin dim → ℝ)} {order : List String}
    (hperm : order.Perm round.ids) {v : Fin dim → ℝ}
    (hmasked : ∀ pid ∈ round.ids, round.masked draws pid = v) :
    round.submitted draws order = List.replicate config.quorum v := by
  refine List.eq_replicate_iff.mpr ⟨length_submitted draws hperm, fun u hu => ?_⟩
  obtain ⟨pid, hpid, rfl⟩ := List.mem_map.mp hu
  exact hmasked pid (hperm.mem_iff.mp (List.mem_of_mem_take hpid))

/-- A round in which all submit the same is lossless exactly if this is the mean, after the clipping
of Krum. -/
theorem lossless_iff_of_masked_eq {draws : String → PairDraws (Fin dim → ℝ)} {order : List String}
    (hperm : order.Perm round.ids) {v : Fin dim → ℝ}
    (hmasked : ∀ pid ∈ round.ids, round.masked draws pid = v) :
    (¬config.UsesKrum → (round.Lossless draws order ↔ v = round.meanDelta)) ∧
      (config.UsesKrum → (round.Lossless draws order ↔
        config.krum.clip (List.ofFn v) = List.ofFn round.meanDelta)) := by
  have hsubmitted := submitted_eq_replicate hperm hmasked
  constructor
  · intro hfew
    have hcount : (config.quorum : ℝ) ≠ 0 :=
      Nat.cast_ne_zero.mpr (by have := one_le_quorum config; omega)
    have hmean : (fun i => (round.submitted draws order).sum i / (config.quorum : ℝ)) = v := by
      funext i
      rw [hsubmitted, List.sum_replicate, Pi.smul_apply, nsmul_eq_mul]
      exact mul_div_cancel_left₀ (v i) hcount
    rw [lossless_iff_of_few hfew hperm, hmean]
  · intro hmany
    obtain ⟨u, hu, hiff⟩ := exists_lossless_iff_of_many hmany draws hperm
    rw [hsubmitted] at hu
    rw [hiff, List.eq_of_mem_replicate hu]

/-- If others are registered, the participants can draw masks with which all submit the same. -/
theorem exists_masked_eq (hothers : round.state.participants.toFinset.card ≠ 1)
    (v : Fin dim → ℝ) :
    ∃ draws, ∀ pid ∈ round.ids, round.masked draws pid = v := by
  have hdraw (pid : String) : ∃ draws : PairDraws (Fin dim → ℝ), pid ∈ round.ids →
      maskedDelta round.state.participants pid (round.deltas pid) draws = v := by
    by_cases hpid : pid ∈ round.ids
    · have hmem := round.registered pid hpid
      have hpeer : 2 ≤ (allIds round.state.participants pid).length := by
        have hpos := Finset.card_pos.mpr ⟨pid, List.mem_toFinset.mpr hmem⟩
        rw [allIds_of_mem hmem, length_sorted]
        omega
      obtain ⟨draws, hmask⟩ := exists_netMask_eq (nodup_allIds round.state.participants pid)
        (mem_allIds round.state.participants pid) hpeer (v - round.deltas pid)
      refine ⟨draws, fun _ => ?_⟩
      rw [maskedDelta_eq, hmask, add_sub_cancel]
    · exact ⟨fun _ _ => 0, fun h => absurd h hpid⟩
  choose draws hdraws using hdraw
  exact ⟨draws, fun pid hpid => hdraws pid hpid⟩

/-- A participant without peers submits its delta. -/
theorem masked_of_alone (halone : round.state.participants.toFinset.card = 1)
    (draws : String → PairDraws (Fin dim → ℝ)) {pid : String} (hpid : pid ∈ round.ids) :
    round.masked draws pid = round.deltas pid := by
  have hmem := round.registered pid hpid
  have hlength : (allIds round.state.participants pid).length = 1 := by
    rw [allIds_of_mem hmem, length_sorted, halone]
  obtain ⟨a, ha⟩ := List.length_eq_one_iff.mp hlength
  have hmask : netMask [a] (draws pid) pid = 0 := by
    unfold netMask
    rw [sum_positionPairs]
    simp
  unfold masked
  rw [maskedDelta_eq, ha, hmask, add_zero]

/-- If nobody else is registered, then the only participant's delta is the mean. -/
theorem meanDelta_of_alone (halone : round.state.participants.toFinset.card = 1) :
    ∀ pid ∈ round.ids, round.deltas pid = round.meanDelta := by
  obtain ⟨a, ha⟩ := Finset.card_eq_one.mp halone
  have heq : ∀ pid ∈ round.ids, pid = a := fun pid hpid => by
    have hmem := List.mem_toFinset.mpr (round.registered pid hpid)
    rwa [ha, Finset.mem_singleton] at hmem
  have hsingle : round.ids = [a] := by
    have hreplicate := List.eq_replicate_iff.mpr ⟨rfl, heq⟩
    have hnodup := round.nodup
    rw [hreplicate, List.nodup_replicate] at hnodup
    have hpos := List.length_pos_iff.mpr round.ids_ne
    rw [hreplicate, show round.ids.length = 1 by omega]
    rfl
  intro pid hpid
  rw [heq pid hpid]
  funext i
  simp [meanDelta, hsingle]

/-- A round in which nothing can be lost is lossless. -/
theorem NothingToLose.lossless (h : round.NothingToLose) (draws : String → PairDraws (Fin dim → ℝ))
    {order : List String} (hperm : order.Perm round.ids) : round.Lossless draws order := by
  rcases h with hdim | ⟨halone, hnorm⟩ | ⟨hmany, hbound, hsum⟩
  · subst hdim
    obtain ⟨a, hagg⟩ := exists_aggregateDeltas_ofFn config.krum (submitted_ne_nil draws hperm)
    exact (lossless_iff_of_aggregate hperm hagg).mpr
      (congrArg List.ofFn (Subsingleton.elim a round.meanDelta))
  · have hmasked : ∀ pid ∈ round.ids, round.masked draws pid = round.meanDelta :=
      fun pid hpid => (masked_of_alone halone draws hpid).trans (meanDelta_of_alone halone pid hpid)
    have hiff := lossless_iff_of_masked_eq hperm hmasked
    by_cases hmany : config.UsesKrum
    · obtain ⟨pid, hpid⟩ := List.exists_mem_of_ne_nil _ round.ids_ne
      have hsmall := hnorm hmany pid hpid
      rw [meanDelta_of_alone halone pid hpid] at hsmall
      exact (hiff.2 hmany).mpr ((clip_ofFn_eq_self_iff config.sqrt_eq _).mpr hsmall)
    · exact (hiff.1 hmany).mpr rfl
  · obtain ⟨v, -, hiff⟩ := exists_lossless_iff_of_many hmany draws hperm
    rw [hiff, (meanDelta_eq_zero_iff round).mpr hsum]
    exact (clip_ofFn_eq_zero_iff config.sqrt_eq v).mpr (.inr hbound)

/-- A round that is lossless whatever is drawn is one in which nothing can be lost. -/
theorem nothingToLose_of_lossless (h : ∀ draws, round.Lossless draws round.ids) :
    round.NothingToLose := by
  by_cases hdim : dim = 0
  · exact .inl hdim
  refine .inr ?_
  have hone : (1 : Fin dim → ℝ) ≠ 0 := fun h => by
    have hzero := congrFun h ⟨0, by omega⟩
    exact one_ne_zero hzero
  by_cases halone : round.state.participants.toFinset.card = 1
  · refine .inl ⟨halone, fun hmany pid hpid => ?_⟩
    have hmasked : ∀ pid ∈ round.ids, round.masked (fun _ _ _ => 0) pid = round.meanDelta :=
      fun pid hpid => (masked_of_alone halone _ hpid).trans (meanDelta_of_alone halone pid hpid)
    have hclip := ((lossless_iff_of_masked_eq (List.Perm.refl _) hmasked).2 hmany).mp (h _)
    rw [meanDelta_of_alone halone pid hpid]
    exact (clip_ofFn_eq_self_iff config.sqrt_eq _).mp hclip
  · -- All can submit any one array, and so one from which the mean does not result.
    have hiff (v : Fin dim → ℝ) : (¬config.UsesKrum → v = round.meanDelta) ∧
        (config.UsesKrum → config.krum.clip (List.ofFn v) = List.ofFn round.meanDelta) := by
      obtain ⟨draws, hmasked⟩ := exists_masked_eq halone v
      obtain ⟨hmean, hclip⟩ := lossless_iff_of_masked_eq (List.Perm.refl _) hmasked
      exact ⟨fun hfew => (hmean hfew).mp (h draws), fun hmany => (hclip hmany).mp (h draws)⟩
    have hmany : config.UsesKrum := by
      by_contra hfew
      have hmean := (hiff round.meanDelta).1 hfew
      have hnext := (hiff (round.meanDelta + 1)).1 hfew
      exact hone (add_eq_left.mp hnext)
    have hzero := (clip_ofFn_eq_zero_iff config.sqrt_eq (0 : Fin dim → ℝ)).mpr (.inl rfl)
    have hmean : round.meanDelta = 0 :=
      (List.ofFn_inj.mp (hzero.symm.trans ((hiff 0).2 hmany))).symm
    have hclip := (hiff 1).2 hmany
    rw [hmean] at hclip
    have hbound := ((clip_ofFn_eq_zero_iff config.sqrt_eq _).mp hclip).resolve_left hone
    exact .inr ⟨hmany, hbound, (meanDelta_eq_zero_iff round).mp hmean⟩

/-- What remains of the masks: the differences between the draws of the two ends of each pair. -/
def drawDifferences (round : MaskedRound config dim) (draws : String → PairDraws (Fin dim → ℝ)) :
    Fin dim → ℝ :=
  let all := sorted round.state.participants.toFinset
  ∑ i : Fin all.length, ∑ j : Fin all.length,
    if i < j then draws (all.get i) i j - draws (all.get j) i j else 0

/-- If all who are registered take part, then the submissions add up to the deltas and what remains
of the masks. -/
theorem sum_masked (hall : ∀ pid ∈ round.state.participants, pid ∈ round.ids)
    (draws : String → PairDraws (Fin dim → ℝ)) :
    (round.ids.map (round.masked draws)).sum =
      (round.ids.map round.deltas).sum + round.drawDifferences draws := by
  have hnodup : (sorted round.state.participants.toFinset).Nodup := nodup_sorted _
  have hperm : round.ids.Perm (sorted round.state.participants.toFinset) := by
    refine (List.perm_ext_iff_of_nodup round.nodup hnodup).mpr fun pid => ?_
    rw [mem_sorted, List.mem_toFinset]
    exact ⟨round.registered pid, hall pid⟩
  have hmasked : round.ids.map (round.masked draws) = round.ids.map fun pid =>
      round.deltas pid +
        netMask (sorted round.state.participants.toFinset) (draws pid) pid := by
    refine List.map_congr_left fun pid hpid => ?_
    unfold masked
    rw [maskedDelta_eq, allIds_of_mem (round.registered pid hpid)]
  rw [hmasked, List.sum_map_add]
  congr 1
  rw [(hperm.map _).sum_eq]
  unfold drawDifferences
  dsimp only
  rw [← sum_netMask hnodup draws]
  exact (Fin.sum_univ_fun_getElem _ fun pid =>
    netMask (sorted round.state.participants.toFinset) (draws pid) pid).symm

/-- A round without Krum in which all who are registered take part and are needed is lossless
exactly if nothing remains of the masks. -/
theorem lossless_iff_draws_cancel (round : MaskedRound config dim) (hfew : ¬config.UsesKrum)
    (hquorum : config.quorum = round.ids.length)
    (hall : ∀ pid ∈ round.state.participants, pid ∈ round.ids)
    (draws : String → PairDraws (Fin dim → ℝ)) {order : List String}
    (hperm : order.Perm round.ids) :
    round.Lossless draws order ↔ round.drawDifferences draws = 0 := by
  have hsubmitted : (round.submitted draws order).sum =
      (round.ids.map round.deltas).sum + round.drawDifferences draws := by
    unfold submitted
    rw [List.take_of_length_le (by rw [hperm.length_eq, hquorum]), (hperm.map _).sum_eq,
      sum_masked hall]
  have hpos := List.length_pos_iff.mpr round.ids_ne
  have hcount : (round.ids.length : ℝ) ≠ 0 := Nat.cast_ne_zero.mpr (by omega)
  rw [lossless_iff_of_few hfew hperm, hsubmitted, hquorum]
  unfold meanDelta
  rw [funext_iff, funext_iff]
  refine forall_congr' fun i => ?_
  rw [div_left_inj' hcount, Pi.add_apply, add_eq_left]
  rfl

/-- A round is lossless whatever is drawn exactly if nothing can be lost in it. If Krum is not used
and all who are registered take part and are needed, then it is lossless exactly for the draws of
which nothing remains. -/
theorem masked_round_lossless_iff (round : MaskedRound config dim) :
    ((∀ draws order, order.Perm round.ids → round.Lossless draws order) ↔ round.NothingToLose) ∧
      (¬config.UsesKrum → config.quorum = round.ids.length →
        (∀ pid ∈ round.state.participants, pid ∈ round.ids) →
          ∀ draws order, order.Perm round.ids →
            (round.Lossless draws order ↔ round.drawDifferences draws = 0)) := by
  refine ⟨⟨fun h => nothingToLose_of_lossless fun draws => h draws _ (List.Perm.refl _),
    fun h draws order hperm => h.lossless draws hperm⟩, ?_⟩
  intro hfew hquorum hall draws order hperm
  exact lossless_iff_draws_cancel round hfew hquorum hall draws hperm

/-- The default configuration. -/
noncomputable def defaultConfig : ExactConfig where
  minParticipants := 3
  krum :=
    { byzantineTolerance := 1
      clipNorm := 10
      clipNorm_nonneg := by norm_num
      sqrt := Real.sqrt
      argsort := .stable (WithTop ℝ) }
  repr := id
  sqrt_eq := rfl

/-- Three registered participants of a model with one weight, which does not change. -/
noncomputable def threeRegistered : MaskedRound defaultConfig 1 where
  state := { globalWeights := some [0], participants := ["a", "b", "c"] }
  weights := fun _ => 0
  globalWeights_eq := by simp
  rows_eq := rfl
  ids := ["a", "b", "c"]
  ids_ne := by simp
  nodup := by decide
  registered := fun _ h => h
  enough := by decide
  deltas := fun _ _ => 0

/-- The draws of the first participant for the pair with the second are one, and all others zero. -/
def unequalDraws (pid : String) : PairDraws (Fin 1 → ℝ) := fun i j _ =>
  if pid = "a" ∧ i = 0 ∧ j = 1 then 1 else 0

/-- The weight should remain zero, but the masks with these draws do not cancel. -/
theorem unequal_draws_remain :
    ¬threeRegistered.Lossless unequalDraws ["a", "b", "c"] := by
  have hquorum : defaultConfig.quorum = 3 := rfl
  have hfew : ¬defaultConfig.UsesKrum := by
    unfold ExactConfig.UsesKrum
    rw [hquorum]
    decide
  have hsort : sorted ["a", "b", "c"].toFinset = ["a", "b", "c"] := by
    have hinsert : (["a", "b", "c"].toFinset : Finset String) = insert "a" (insert "b" {"c"}) := rfl
    unfold sorted
    rw [hinsert, Finset.sort_insert, Finset.sort_insert, Finset.sort_singleton] <;> simp
  have hiff := lossless_iff_draws_cancel threeRegistered hfew hquorum (fun _ h => h)
    unequalDraws (List.Perm.refl _)
  refine mt hiff.mp ?_
  have hparticipants : threeRegistered.state.participants = ["a", "b", "c"] := rfl
  unfold drawDifferences
  rw [hparticipants, hsort]
  intro hzero
  have hone := congrFun hzero 0
  simp [Fin.sum_univ_succ, unequalDraws] at hone

end MaskedRound

end LedgerLens.Federated
