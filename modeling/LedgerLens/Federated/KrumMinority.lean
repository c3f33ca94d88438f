import LedgerLens.Federated.SecureAggregation
import Mathlib.Tactic.Ring

/-!
# Krum against a minority

Of `n` updates all but `f` are the same. Krum scores an update by its distances to the
`n - f - 2` nearest others, so that the score is zero exactly if there are so many copies of it.
This holds of the common update, but it can also hold of another one. This file says when both
variants of Krum return the common update, however ties of scores are broken.
-/

namespace LedgerLens.Federated

open NumArray OrderStatistics

section Distances

variable {R : Type} [Field R] [LinearOrder R]

omit [LinearOrder R] in
/-- The squared distance of two rows of one length, in both ways in which it is computed. -/
theorem distSq_eq_sqDist {u v : List R} (h : u.length = v.length) :
    KrumSettings.distSq u v = sqDist u v := by
  induction u generalizing v with
  | nil =>
    cases v with
    | nil => simp [KrumSettings.distSq, KrumSettings.dot, sqDist]
    | cons y v => cases h
  | cons x u ih =>
    cases v with
    | nil => cases h
    | cons y v =>
      have hrest := ih (Nat.succ.inj h)
      simp only [KrumSettings.distSq, KrumSettings.dot, sqDist, List.zipWith_cons_cons,
        List.map_cons, List.sum_cons] at hrest ⊢
      rw [← hrest]
      ring

variable [IsStrictOrderedRing R]

theorem sqDist_nonneg (u v : List R) : 0 ≤ sqDist u v := by
  refine List.sum_nonneg fun x hx => ?_
  obtain ⟨y, -, rfl⟩ := List.mem_map.mp hx
  exact mul_self_nonneg y

/-- Rows at distance zero are equal. -/
theorem sqDist_eq_zero_iff {u v : List R} (h : u.length = v.length) : sqDist u v = 0 ↔ u = v := by
  induction u generalizing v with
  | nil =>
    cases v with
    | nil => simp [sqDist]
    | cons y v => cases h
  | cons x u ih =>
    cases v with
    | nil => cases h
    | cons y v =>
      have hcons : sqDist (x :: u) (y :: v) = (x - y) * (x - y) + sqDist u v := rfl
      rw [hcons, add_eq_zero_iff_of_nonneg (mul_self_nonneg _) (sqDist_nonneg u v),
        ih (Nat.succ.inj h), mul_self_eq_zero, sub_eq_zero, List.cons.injEq]

end Distances

section Scores

variable {R : Type} [Field R] [LinearOrder R] {rows : List (List R)} {u : List R} {d i k : ℕ}

/-- How many entries of an indexed list meet a condition. -/
theorem countP_mapIdx {α β : Type} (f : ℕ → α → β) (p : β → Bool) (l : List α) :
    (l.mapIdx f).countP p = l.zipIdx.countP fun x => p (f x.2 x.1) := by
  rw [List.mapIdx_eq_zipIdx_map, List.countP_map]
  rfl

theorem nodup_zipIdx {α : Type} (l : List α) : l.zipIdx.Nodup := by
  refine List.Nodup.of_map Prod.snd ?_
  rw [List.zipIdx_map_snd]
  exact List.nodup_range'

variable [IsStrictOrderedRing R]

theorem sqDists_nonneg : ∀ x ∈ sqDists rows i u, 0 ≤ x := by
  intro x hx
  obtain ⟨j, hj, rfl⟩ := List.mem_mapIdx.mp hx
  split_ifs
  · exact le_top
  · exact_mod_cast sqDist_nonneg u rows[j]

/-- A row is at distance zero of its other copies. -/
theorem count_zero_sqDists (hdim : ∀ v ∈ rows, v.length = d) (hi : rows[i]? = some u) :
    (sqDists rows i u).count 0 + 1 = rows.count u := by
  have hu : u.length = d := hdim u (List.mem_of_getElem? hi)
  have hmem : (u, i) ∈ rows.zipIdx := List.mem_zipIdx_iff_getElem?.mpr hi
  have hzeros : (sqDists rows i u).count 0 =
      rows.zipIdx.countP fun x => (x.1 == u) && !(x == (u, i)) := by
    unfold sqDists List.count
    rw [countP_mapIdx]
    refine List.countP_congr fun x hx => ?_
    have hx1 : x.1.length = d := hdim x.1 (List.fst_mem_of_mem_zipIdx hx)
    have hdist : sqDist u x.1 = 0 ↔ x.1 = u :=
      (sqDist_eq_zero_iff (hu.trans hx1.symm)).trans eq_comm
    obtain ⟨v, j⟩ := x
    by_cases hj : j = i
    · subst hj
      have hv : v = u := by
        have hget := List.mem_zipIdx_iff_getElem?.mp hx
        dsimp only at hget
        rw [hi, Option.some.injEq] at hget
        exact hget.symm
      simp [hv]
    · simp [hj, hdist]
  have hself : rows.zipIdx.countP (fun x => (x.1 == u) && (x == (u, i))) = 1 := by
    have hone := List.count_eq_one_of_mem (nodup_zipIdx rows) hmem
    rw [← hone]
    unfold List.count
    refine List.countP_congr fun x _ => ?_
    simp only [Bool.and_eq_true, beq_iff_eq]
    exact ⟨And.right, fun h => ⟨h ▸ rfl, h⟩⟩
  have hcount : rows.count u = rows.zipIdx.countP fun x => x.1 == u := by
    conv_lhs => rw [← List.zipIdx_map_fst 0 rows]
    unfold List.count
    rw [List.countP_map]
    rfl
  have hsplit := rows.zipIdx.countP_eq_countP_filter_add (fun x => x.1 == u) (fun x => x == (u, i))
  rw [List.countP_filter, List.countP_filter, hself] at hsplit
  rw [hzeros, hcount, hsplit, Nat.add_comm]

/-- A score is zero exactly if there are so many copies of the row. -/
theorem score_eq_zero_iff (hdim : ∀ v ∈ rows, v.length = d) (hi : rows[i]? = some u)
    (hk : k ≤ rows.length) :
    ((((sqDists rows i u).insertionSort (· ≤ ·)).take k).sum = 0) ↔ k < rows.count u := by
  have hlength : (sqDists rows i u).length = rows.length := List.length_mapIdx
  rw [sum_least_eq_zero_iff sqDists_nonneg (by rw [hlength]; exact hk),
    ← count_zero_sqDists hdim hi]
  omega

theorem krumScores_nonneg : ∀ x ∈ krumScores k rows, 0 ≤ x := by
  intro x hx
  obtain ⟨j, hj, rfl⟩ := List.mem_mapIdx.mp hx
  exact sum_least_nonneg sqDists_nonneg

/-- The score of a row. -/
theorem getElem?_krumScores_eq_zero_iff (hdim : ∀ v ∈ rows, v.length = d) (hk : k ≤ rows.length)
    (hi : rows[i]? = some u) : (krumScores k rows)[i]? = some 0 ↔ k < rows.count u := by
  unfold krumScores
  rw [List.getElem?_mapIdx, hi, Option.map_some, Option.some.injEq]
  exact score_eq_zero_iff hdim hi hk

/-- How many scores are zero. -/
theorem count_zero_krumScores (hdim : ∀ v ∈ rows, v.length = d) (hk : k ≤ rows.length) :
    (krumScores k rows).count 0 = rows.countP fun u => k < rows.count u := by
  have hrows : (rows.countP fun u => decide (k < rows.count u)) =
      rows.zipIdx.countP fun x => decide (k < rows.count x.1) := by
    conv_lhs => arg 2; rw [← List.zipIdx_map_fst 0 rows]
    rw [List.countP_map]
    rfl
  rw [hrows]
  unfold krumScores List.count
  rw [countP_mapIdx]
  refine List.countP_congr fun x hx => ?_
  have hi := List.mem_zipIdx_iff_getElem?.mp hx
  simp only [beq_iff_eq, decide_eq_true_eq]
  exact score_eq_zero_iff hdim hi hk

omit [IsStrictOrderedRing R] in
/-- The scores of the two variants are the same. -/
theorem scores_eq_krumScores (hdim : ∀ v ∈ rows, v.length = d) :
    KrumSettings.scores k rows = krumScores k rows := by
  unfold KrumSettings.scores krumScores
  refine List.mapIdx_eq_mapIdx_iff.mpr fun i hi => ?_
  have hdistances : KrumSettings.distances rows i rows[i] = sqDists rows i rows[i] := by
    unfold KrumSettings.distances sqDists
    refine List.mapIdx_eq_mapIdx_iff.mpr fun j hj => ?_
    rw [distSq_eq_sqDist ((hdim _ (List.getElem_mem hi)).trans (hdim _ (List.getElem_mem hj)).symm)]
  rw [hdistances]

end Scores

section Selection

variable {M : Type} [AddCommMonoid M] [LinearOrder M] {scores : List M} {m i j : ℕ}

/-- If no score is negative, the first indices are those of scores that are zero, as long as
there are enough. -/
theorem Argsort.getElem?_of_mem_take (argsort : Argsort M) (hnonneg : ∀ x ∈ scores, 0 ≤ x)
    (hm : m ≤ scores.count 0) (hi : i ∈ (argsort.order scores).take m) :
    scores[i]? = some 0 := by
  have hsorted := argsort.map_getD_pairwise scores 0
  have hall := argsort.map_getD_perm scores 0
  have hle : m ≤ ((argsort.order scores).map fun i => scores.getD i 0).length := by
    rw [hall.length_eq]
    exact hm.trans List.count_le_length
  have hzero := (forall_mem_take_eq_zero_iff hsorted
    (fun x hx => hnonneg x (hall.mem_iff.mp hx)) hle).mpr (by rw [hall.count_eq]; exact hm)
  rw [argsort.getElem?_of_mem scores 0 (List.mem_of_mem_take hi)]
  congr 1
  refine hzero _ ?_
  rw [← List.map_take]
  exact List.mem_map_of_mem hi

omit [AddCommMonoid M] in
theorem mem_stableOrder (hj : j < scores.length) : j ∈ stableOrder scores :=
  ((Argsort.stable M).perm scores).mem_iff.mpr (List.mem_range.mpr hj)

/-- An `np.argsort` that puts a certain index first if no score is smaller than the score
there. -/
def Argsort.preferring (α : Type) [LinearOrder α] (j : ℕ) : Argsort α where
  order scores :=
    if j < scores.length ∧ ∀ x ∈ scores, ∀ y ∈ scores[j]?, y ≤ x then
      j :: (stableOrder scores).erase j
    else stableOrder scores
  perm scores := by
    have hperm := (Argsort.stable α).perm scores
    split_ifs with hleast
    · exact (List.perm_cons_erase (mem_stableOrder hleast.1)).symm.trans hperm
    · exact hperm
  sorted scores := by
    have hsorted := (Argsort.stable α).sorted scores
    split_ifs with hleast
    · obtain ⟨hj, hleast⟩ := hleast
      rw [List.filterMap_cons_some (List.getElem?_eq_getElem hj), List.pairwise_cons]
      constructor
      · intro x hx
        obtain ⟨k, -, hk⟩ := List.mem_filterMap.mp hx
        exact hleast x (List.mem_of_getElem? hk) _ (List.getElem?_eq_getElem hj)
      · exact hsorted.sublist (List.erase_sublist.filterMap _)
    · exact hsorted

omit [AddCommMonoid M] in
/-- It puts the index of a least score first. -/
theorem preferring_order (hj : j < scores.length)
    (hleast : ∀ x ∈ scores, ∀ y ∈ scores[j]?, y ≤ x) :
    (Argsort.preferring M j).order scores = j :: (stableOrder scores).erase j :=
  if_pos ⟨hj, hleast⟩

end Selection

section Minority

variable {R : Type} [Field R] [LinearOrder R] [IsStrictOrderedRing R]
  {updates : List (List R)} {g : List R} {d m f : ℕ}

/-- The rows that are selected are those with enough copies. -/
theorem selected_of_count (argsort : Argsort (WithTop R)) (hdim : ∀ u ∈ updates, u.length = d)
    {k : ℕ} (hk : k ≤ updates.length) (hm : m ≤ updates.countP fun u => k < updates.count u) :
    ((argsort.order (krumScores k updates)).take m).length = m ∧
      ∀ i ∈ (argsort.order (krumScores k updates)).take m,
        ∃ u ∈ updates, updates[i]? = some u ∧ k < updates.count u := by
  have hlength : (argsort.order (krumScores k updates)).length = updates.length := by
    rw [(argsort.perm _).length_eq, List.length_range]
    exact List.length_mapIdx
  refine ⟨?_, fun i hi => ?_⟩
  · have hle := hm.trans List.countP_le_length
    rw [List.length_take, hlength]
    omega
  · have hzero := argsort.getElem?_of_mem_take krumScores_nonneg
      (by rw [count_zero_krumScores hdim hk]; exact hm) hi
    have hmem := (argsort.perm (krumScores k updates)).mem_iff.mp (List.mem_of_mem_take hi)
    have hlt : i < updates.length := by
      have hlt := List.mem_range.mp hmem
      have hscores : (krumScores k updates).length = updates.length := List.length_mapIdx
      omega
    have hget := List.getElem?_eq_getElem hlt
    exact ⟨_, List.getElem_mem hlt, hget, (getElem?_krumScores_eq_zero_iff hdim hk hget).mp hzero⟩

/-- If only one row has enough copies, the selected rows are copies of it. -/
theorem selected_eq_replicate (argsort : Argsort (WithTop R)) (hdim : ∀ u ∈ updates, u.length = d)
    {k : ℕ} (hk : k ≤ updates.length) (hm : m ≤ updates.countP fun u => k < updates.count u)
    (hrare : ∀ u ∈ updates, k < updates.count u → u = g) :
    ((argsort.order (krumScores k updates)).take m).filterMap (fun i => updates[i]?) =
      List.replicate m g := by
  obtain ⟨hlength, hselected⟩ := selected_of_count argsort hdim hk hm
  have hget : ∀ i ∈ (argsort.order (krumScores k updates)).take m, updates[i]? = some g := by
    intro i hi
    obtain ⟨u, hu, hget, hcount⟩ := hselected i hi
    rw [hget, hrare u hu hcount]
  rw [List.filterMap_congr hget, List.filterMap_eq_map' (f := fun _ => g), List.map_const', hlength]

/-- The mean of copies of a row is the row. -/
theorem columns_mean_replicate (hm : m ≠ 0) (g : List R) :
    columns mean (List.replicate m g) = g := by
  have hne : List.replicate m g ≠ [] := by
    rw [ne_eq, List.replicate_eq_nil_iff]
    exact hm
  obtain ⟨hlength, hvalue⟩ := columns_spec hne
    (fun u hu => congrArg List.length (List.eq_of_mem_replicate hu)) mean
  refine List.ext_getElem hlength fun j hj hj' => ?_
  have hj0 := hvalue j hj'
  rw [List.getD_eq_getElem _ _ hj, List.map_replicate, List.getD_eq_getElem _ _ hj'] at hj0
  rw [hj0]
  unfold mean
  rw [List.sum_replicate, List.length_replicate, nsmul_eq_mul]
  exact mul_div_cancel_left₀ _ (Nat.cast_ne_zero.mpr hm)

omit [Field R] [IsStrictOrderedRing R] in
/-- A copy of the common update has a score of zero, and there are many. -/
theorem le_countP_of_majority {k : ℕ} (hk : k < updates.count g) :
    updates.count g ≤ updates.countP fun u => k < updates.count u := by
  unfold List.count
  refine List.countP_mono_left fun u _ hu => ?_
  rw [eq_of_beq hu]
  exact decide_eq_true hk

omit [IsStrictOrderedRing R] in
/-- Updates within the bound are not clipped. -/
theorem map_clip_eq (settings : KrumSettings R)
    (hnorm : ∀ u ∈ updates, settings.norm u ≤ settings.clipNorm) :
    updates.map settings.clip = updates := by
  have hclip : ∀ u ∈ updates, settings.clip u = u := by
    intro u hu
    exact if_neg (not_lt.mpr (hnorm u hu))
  rw [List.map_congr_left hclip, List.map_id']

/-- `np.argsort` with another way of breaking ties. -/
def KrumSettings.withArgsort (settings : KrumSettings R) (argsort : Argsort (WithTop R)) :
    KrumSettings R :=
  { settings with argsort := argsort }

omit [IsStrictOrderedRing R] in
/-- `krum_aggregate` of updates of one length within the bound is the first in the order of the
scores. -/
theorem krumAggregate_of_take (settings : KrumSettings R) (argsort : Argsort (WithTop R))
    (hdim : ∀ u ∈ updates, u.length = d)
    (hnorm : ∀ u ∈ updates, settings.norm u ≤ settings.clipNorm)
    (henough : f + 3 ≤ updates.length) {row : List R}
    (hrow : ((argsort.order (krumScores (updates.length - f - 2) updates)).take 1).filterMap
      (fun i => updates[i]?) = [row]) :
    (settings.withArgsort argsort).krumAggregate updates f 1 = .ok row := by
  have huniform : Uniform updates := fun a ha b hb => (hdim a ha).trans (hdim b hb).symm
  have hk : ((updates.length : ℤ) - f - 2).toNat = updates.length - f - 2 := by omega
  have hmin : min 1 ((updates.length : ℤ) - f).toNat = 1 := by omega
  have hclip : updates.map (settings.withArgsort argsort).clip = updates :=
    map_clip_eq (settings.withArgsort argsort) hnorm
  unfold KrumSettings.krumAggregate stack
  rw [if_neg (by omega), hclip, if_pos huniform, hk, hmin]
  have hselected : (settings.withArgsort argsort).selected (updates.length - f - 2) 1 updates =
      [row] := by
    unfold KrumSettings.selected
    rw [scores_eq_krumScores hdim]
    exact hrow
  have hmean : KrumSettings.meanRows [row] = row := by
    unfold KrumSettings.meanRows
    simp [addRows]
  rw [← hmean, ← hselected]
  rfl

/-- If the common update is the only one with a score of zero, both variants return it. -/
theorem aggregates_common (argsort : Argsort (WithTop R)) (settings : KrumSettings R)
    [FloorRing R] (config : AggregationConfig R) (hkrum : config.strategy = .krum)
    (hdim : ∀ u ∈ updates, u.length = d)
    (hnorm : ∀ u ∈ updates, settings.norm u ≤ settings.clipNorm)
    (henough : config.nByzantine + 3 ≤ updates.length)
    (hmajority : updates.length ≤ updates.count g + config.nByzantine)
    (hrare : ∀ b ∈ updates, b ≠ g → updates.count b + config.nByzantine + 1 < updates.length) :
    (settings.withArgsort argsort).krumAggregate updates config.nByzantine 1 = .ok g ∧
      aggregateGradients argsort updates config = .ok g := by
  obtain ⟨k, hk⟩ : ∃ k, k = updates.length - config.nByzantine - 2 := ⟨_, rfl⟩
  have hg : k < updates.count g := by omega
  have hmany := le_countP_of_majority hg
  have honly : ∀ u ∈ updates, k < updates.count u → u = g := by
    intro u hu hcount
    by_contra hne
    have := hrare u hu hne
    omega
  have hselected : ∀ m ≤ k + 2, ((argsort.order (krumScores k updates)).take m).filterMap
      (fun i => updates[i]?) = List.replicate m g := by
    intro m hm
    exact selected_eq_replicate argsort hdim (by omega) (by omega) honly
  constructor
  · refine krumAggregate_of_take settings argsort hdim hnorm henough ?_
    rw [← hk]
    exact hselected 1 (by omega)
  · have hne : updates ≠ [] := by
      rintro rfl
      exact absurd henough (by simp)
    have hkeep : (updates.length : ℤ) - config.nByzantine - 2 = (k : ℤ) := by omega
    have hneighbours : (max 1 (k : ℤ)).toNat = k := by omega
    unfold aggregateGradients
    rw [asMatrix_of_length hne hdim, hkrum]
    unfold multiKrum
    dsimp only
    rw [hkeep, if_neg (by omega), hneighbours, Int.toNat_natCast, hselected k (by omega),
      columns_mean_replicate (by omega)]

/-- The index of a row with enough copies can come first. -/
theorem exists_argsort_take {b : List R} (hdim : ∀ u ∈ updates, u.length = d) {k : ℕ}
    (hk : k ≤ updates.length) (hb : b ∈ updates) (hcount : k < updates.count b) :
    ∃ argsort : Argsort (WithTop R), ((argsort.order (krumScores k updates)).take 1).filterMap
      (fun i => updates[i]?) = [b] := by
  obtain ⟨j, hj, hget⟩ := List.mem_iff_getElem.mp hb
  have hget? : updates[j]? = some b := by rw [List.getElem?_eq_getElem hj, hget]
  have hzero := (getElem?_krumScores_eq_zero_iff hdim hk hget?).mpr hcount
  have hlt : j < (krumScores k updates).length := by
    rw [show (krumScores k updates).length = updates.length from List.length_mapIdx]
    exact hj
  refine ⟨Argsort.preferring _ j, ?_⟩
  rw [preferring_order hlt]
  · rw [List.take_succ_cons, List.take_zero, List.filterMap_cons_some hget?, List.filterMap_nil]
  · intro x hx y hy
    rw [hzero, Option.mem_some_iff] at hy
    rw [← hy]
    exact krumScores_nonneg x hx

/-- Of `n ≥ f + 3` updates within the bound all but `f` are the same. Both variants of Krum
return this common update, however ties are broken, exactly if no other update occurs `n - f - 1`
times. With `f < n / 2` this can only fail if `n = 2 f + 1` and the `f` others are equal to each
other. -/
theorem krum_common_iff (settings : KrumSettings R) [FloorRing R] (config : AggregationConfig R)
    (hkrum : config.strategy = .krum) (hdim : ∀ u ∈ updates, u.length = d)
    (hnorm : ∀ u ∈ updates, settings.norm u ≤ settings.clipNorm)
    (henough : config.nByzantine + 3 ≤ updates.length)
    (hmajority : updates.length ≤ updates.count g + config.nByzantine) :
    (∀ argsort : Argsort (WithTop R),
      (settings.withArgsort argsort).krumAggregate updates config.nByzantine 1 = .ok g ∧
        aggregateGradients argsort updates config = .ok g) ↔
    ∀ b ∈ updates, b ≠ g → updates.count b + config.nByzantine + 1 < updates.length := by
  constructor
  · intro hcommon b hb hne
    by_contra hmany
    obtain ⟨argsort, htake⟩ := exists_argsort_take hdim
      (show updates.length - config.nByzantine - 2 ≤ updates.length by omega) hb (by omega)
    have hreturned := krumAggregate_of_take settings argsort hdim hnorm henough htake
    rw [(hcommon argsort).1, Except.ok.injEq] at hreturned
    exact hne hreturned.symm
  · intro hrare argsort
    exact aggregates_common argsort settings config hkrum hdim hnorm henough hmajority hrare

end Minority

/-- Settings with a bound of four. The square root is right where it is used. -/
private def minoritySettings : KrumSettings ℚ where
  byzantineTolerance := 2
  clipNorm := 4
  clipNorm_nonneg := by decide +kernel
  sqrt x := x
  argsort := Argsort.stable _

/-- A configuration for two Byzantine participants. -/
private def twoByzantine : AggregationConfig ℚ where
  strategy := .krum
  trimFraction := 0
  nByzantine := 2
  trimFraction_nonneg := le_rfl
  trimFraction_lt := by decide +kernel

/-- Six updates, of which two are Byzantine. -/
private def sixUpdates : List (List ℚ) := [[1], [0], [1], [0], [0], [0]]

/-- Two equal Byzantine updates against four others. -/
theorem krum_common_six :
    (minoritySettings.withArgsort (Argsort.stable _)).krumAggregate sixUpdates 2 1 = .ok [0] ∧
      aggregateGradients (Argsort.stable _) sixUpdates twoByzantine = .ok [0] :=
  (krum_common_iff (d := 1) minoritySettings twoByzantine rfl (by decide +kernel)
    (by decide +kernel) (by decide +kernel) (by decide +kernel)).mpr (by decide +kernel) _

/-- Five updates, of which two are Byzantine. -/
private def fiveUpdates : List (List ℚ) := [[1], [1], [0], [0], [0]]

/-- Two equal Byzantine updates against three others: with a stable `np.argsort`, both variants
return the Byzantine one. -/
theorem krum_byzantine_five :
    fiveUpdates.count [0] + 2 = fiveUpdates.length ∧
      (∀ u ∈ fiveUpdates, minoritySettings.norm u ≤ minoritySettings.clipNorm) ∧
      (minoritySettings.withArgsort (Argsort.stable _)).krumAggregate fiveUpdates 2 1 = .ok [1] ∧
      aggregateGradients (Argsort.stable _) fiveUpdates twoByzantine = .ok [1] := by
  refine ⟨by decide +kernel, by decide +kernel, ?_, ?_⟩ <;> decide +kernel

end LedgerLens.Federated
