import LedgerLens.Detection.ConformalCalibrator
import LedgerLens.Federated.Krum
import LedgerLens.Library.OrderStatistics

/-!
# Prediction sets

Calibration scores a label by one minus its probability, and the threshold `q_hat` is a quantile
of such scores. `ConformalCalibrator.predict_set` goes through the labels in the order of their
probabilities and compares their regularised running sum with the threshold. This file says
exactly when it returns the labels whose scores are within the threshold.
-/

namespace LedgerLens.Detection.Conformal

open OrderStatistics
open LedgerLens.Federated (Argsort)

/-- What `predict_set` raises. -/
inductive PredictionError where
  /-- `RuntimeError`: there is no threshold yet. -/
  | notCalibrated
  /-- `RuntimeError`: it was not a classifier that was calibrated. -/
  | notClassification
  /-- `TypeError`: the model has no `predict_proba`. -/
  | noProbabilities
  deriving DecidableEq

/-- The prediction for a row. -/
structure PredictionSet (K : Type) where
  /-- `score`. -/
  score : K
  /-- `prediction_set`. -/
  predictionSet : List ℕ
  /-- `coverage_guarantee`. -/
  coverageGuarantee : K
  /-- `q_hat`. -/
  qHat : K
  deriving DecidableEq

section Code

variable {K : Type} [Field K] [LinearOrder K]

/-- `RAPS_LAMBDA`. -/
def rapsLambda (K : Type) [Field K] : K := 1 / ((10 : ℕ) : K)

/-- `RAPS_K0`. -/
def rapsK0 : ℕ := 5

/-- The loop over the labels in their order: the labels from the rank `k` on that are taken, before
the first one whose regularised score is too small. -/
def takenLabels (rowProbs : List K) (qHat : K) : List ℕ → ℕ → K → K → List ℕ
  | [], _, _, _ => []
  | idx :: rest, k, cumulative, penalty =>
    let softmaxK := rowProbs.getD idx 0
    let cumulative := cumulative + softmaxK
    let regularizedScore := cumulative - penalty
    if 1 - qHat < regularizedScore ∨ k < 1 then
      idx :: takenLabels rowProbs qHat rest (k + 1) cumulative
        (if rapsK0 ≤ k then penalty + rapsLambda K else penalty)
    else []

/-- The prediction set of a row. -/
def rowSet (argsort : Argsort K) (qHat : K) (rowProbs : List K) : List ℕ :=
  let sortedIdx := (argsort.order rowProbs).reverse
  (takenLabels rowProbs qHat sortedIdx 0 0 0).insertionSort (· ≤ ·)

/-- `predict_set` with the probabilities that the model predicts, if it can. -/
def ConformalCalibrator.predictSet (argsort : Argsort K) (c : ConformalCalibrator K)
    (nClasses : ℕ) (probs : Option (List (List K))) :
    Except PredictionError (List (PredictionSet K)) :=
  match c.qHat with
  | none => .error .notCalibrated
  | some qHat =>
    if c.mode ≠ some .classification then .error .notClassification
    else
      match probs with
      | none => .error .noProbabilities
      | some probs => .ok <| probs.map fun rowProbs =>
        { score := if nClasses = 2 then rowProbs.getD 1 0 * ((100 : ℕ) : K) else ((50 : ℕ) : K)
          predictionSet := rowSet argsort qHat rowProbs
          coverageGuarantee := c.coverageGuarantee
          qHat := qHat }

end Code

section Order

variable {K : Type} [Field K] [LinearOrder K] (argsort : Argsort K) (rowProbs : List K)

/-- The order in which the labels are looked at. -/
def labelOrder : List ℕ := (argsort.order rowProbs).reverse

omit [Field K] in
theorem labelOrder_perm : (labelOrder argsort rowProbs).Perm (List.range rowProbs.length) :=
  (List.reverse_perm _).trans (argsort.perm rowProbs)

omit [Field K] in
theorem length_labelOrder : (labelOrder argsort rowProbs).length = rowProbs.length := by
  rw [(labelOrder_perm argsort rowProbs).length_eq, List.length_range]

omit [Field K] in
theorem nodup_labelOrder : (labelOrder argsort rowProbs).Nodup :=
  (labelOrder_perm argsort rowProbs).nodup_iff.mpr List.nodup_range

/-- The probabilities, the largest first. -/
def ranked : List K := rowProbs.insertionSort (· ≥ ·)

omit [Field K] in
theorem ranked_perm : (ranked rowProbs).Perm rowProbs := List.perm_insertionSort _ _

omit [Field K] in
theorem ranked_pairwise : (ranked rowProbs).Pairwise (· ≥ ·) :=
  List.pairwise_insertionSort (· ≥ ·) rowProbs

/-- The probabilities in the order of the labels. -/
theorem map_labelOrder :
    (labelOrder argsort rowProbs).map (fun i => rowProbs.getD i 0) = ranked rowProbs := by
  have hsorted := List.pairwise_reverse.mpr (argsort.map_getD_pairwise rowProbs 0)
  have hperm := (List.reverse_perm _).trans (argsort.map_getD_perm rowProbs 0)
  rw [← List.map_reverse] at hsorted hperm
  exact (hperm.trans (ranked_perm rowProbs).symm).eq_of_pairwise
    (fun a b _ _ hab hba => le_antisymm hba hab) hsorted (ranked_pairwise rowProbs)

/-- The probability of the label at a rank. -/
theorem getElem?_labelOrder {j y : ℕ} (hy : (labelOrder argsort rowProbs)[j]? = some y) :
    ∃ p, rowProbs[y]? = some p ∧ (ranked rowProbs)[j]? = some p := by
  have hmem := List.mem_reverse.mp (List.mem_of_getElem? hy)
  refine ⟨_, argsort.getElem?_of_mem rowProbs 0 hmem, ?_⟩
  rw [← map_labelOrder argsort, List.getElem?_map, hy]
  rfl

end Order

section Loop

variable {K : Type} [Field K] [LinearOrder K] {qHat : K}

/-- The regularised score at a rank is large enough, where the sum of what is before the list and
the number of the ranks are given. -/
def Passes (values : List K) (qHat : K) (k : ℕ) (cumulative : K) (j : ℕ) : Prop :=
  1 - qHat < cumulative + (values.take (j + 1)).sum - rapsLambda K * ((k + j - rapsK0 : ℕ) : K) ∨
    k + j < 1

omit [LinearOrder K] in
/-- The penalty of the next rank. -/
theorem penalty_succ (k : ℕ) :
    (if rapsK0 ≤ k then rapsLambda K * ((k - rapsK0 : ℕ) : K) + rapsLambda K
      else rapsLambda K * ((k - rapsK0 : ℕ) : K)) = rapsLambda K * ((k + 1 - rapsK0 : ℕ) : K) := by
  split_ifs with hk
  · have hsucc : k + 1 - rapsK0 = k - rapsK0 + 1 := by omega
    rw [hsucc, Nat.cast_add, Nat.cast_one]
    ring
  · have hzero : k - rapsK0 = 0 := by omega
    have hzero' : k + 1 - rapsK0 = 0 := by omega
    rw [hzero, hzero']

theorem passes_cons_succ {x : K} {values : List K} {k j : ℕ} {cumulative : K} :
    Passes (x :: values) qHat k cumulative (j + 1) ↔
      Passes values qHat (k + 1) (cumulative + x) j := by
  unfold Passes
  have hrank : k + (j + 1) = k + 1 + j := by omega
  rw [List.take_succ_cons, List.sum_cons, ← add_assoc, hrank]

/-- The loop takes the labels before the first rank that does not pass. -/
theorem takenLabels_eq_take (qHat : K) (rowProbs : List K) (labels : List ℕ) (k : ℕ)
    (cumulative : K) :
    ∃ m ≤ labels.length,
      takenLabels rowProbs qHat labels k cumulative (rapsLambda K * ((k - rapsK0 : ℕ) : K)) =
        labels.take m ∧
      (∀ j < m, Passes (labels.map fun i => rowProbs.getD i 0) qHat k cumulative j) ∧
      (m < labels.length →
        ¬Passes (labels.map fun i => rowProbs.getD i 0) qHat k cumulative m) := by
  induction labels generalizing k cumulative with
  | nil => exact ⟨0, le_rfl, rfl, fun j hj => absurd hj (by omega), fun h => absurd h (by simp)⟩
  | cons idx labels ih =>
    have hhead : Passes ((idx :: labels).map fun i => rowProbs.getD i 0) qHat k cumulative 0 ↔
        1 - qHat < cumulative + rowProbs.getD idx 0 - rapsLambda K * ((k - rapsK0 : ℕ) : K) ∨
          k < 1 := by
      unfold Passes
      rw [List.map_cons, List.take_succ_cons, List.take_zero, List.sum_singleton, Nat.add_zero]
    unfold takenLabels
    dsimp only
    rw [penalty_succ]
    by_cases hpasses : Passes ((idx :: labels).map fun i => rowProbs.getD i 0) qHat k cumulative 0
    · obtain ⟨m, hm, htaken, hbefore, hafter⟩ := ih (k + 1) (cumulative + rowProbs.getD idx 0)
      rw [if_pos (hhead.mp hpasses), htaken]
      refine ⟨m + 1, Nat.succ_le_succ hm, rfl, fun j hj => ?_, fun hlt => ?_⟩
      · cases j with
        | zero => exact hpasses
        | succ j => exact passes_cons_succ.mpr (hbefore j (by omega))
      · exact mt passes_cons_succ.mp (hafter (Nat.lt_of_succ_lt_succ hlt))
    · rw [if_neg (mt hhead.mpr hpasses)]
      exact ⟨0, Nat.zero_le _, rfl, fun j hj => absurd hj (by omega), fun _ => hpasses⟩

end Loop

section Sets

variable {K : Type} [Field K] [LinearOrder K] (argsort : Argsort K) {rowProbs : List K} {qHat : K}

/-- How many labels have a score within the threshold. -/
def qualifiedCount (rowProbs : List K) (qHat : K) : ℕ := rowProbs.countP fun p => 1 - p ≤ qHat

/-- The labels with a score within the threshold, as calibration computes it. If there are none, it
is one that is most probable. -/
def MatchesCalibration (rowProbs : List K) (qHat : K) (predictionSet : List ℕ) : Prop :=
  ((∃ p ∈ rowProbs, 1 - p ≤ qHat) →
    ∀ y, y ∈ predictionSet ↔ ∃ p, rowProbs[y]? = some p ∧ 1 - p ≤ qHat) ∧
  ((∀ p ∈ rowProbs, ¬1 - p ≤ qHat) →
    ∃ y p, predictionSet = [y] ∧ rowProbs[y]? = some p ∧ ∀ p' ∈ rowProbs, p' ≤ p)

/-- The regularised score of a rank from the second on: the sum of the largest probabilities up to
this rank, less the penalty. -/
def rankScore (rowProbs : List K) (j : ℕ) : K :=
  ((ranked rowProbs).take (j + 1)).sum - rapsLambda K * ((j - rapsK0 : ℕ) : K)

/-- With `c` labels whose scores are within the threshold, or one if there are none: the ranks
before `c` have a large regularised score, and the rank `c` has not. -/
def RanksAgree (rowProbs : List K) (qHat : K) : Prop :=
  (∀ j, 1 ≤ j → j < max 1 (qualifiedCount rowProbs qHat) → 1 - qHat < rankScore rowProbs j) ∧
    (max 1 (qualifiedCount rowProbs qHat) < rowProbs.length →
      rankScore rowProbs (max 1 (qualifiedCount rowProbs qHat)) ≤ 1 - qHat)

/-- The prediction set of a row has the labels of its first ranks, up to the first that does not
pass. -/
theorem rowSet_spec (qHat : K) (hne : rowProbs ≠ []) :
    ∃ m, 1 ≤ m ∧ m ≤ rowProbs.length ∧
      (rowSet argsort qHat rowProbs).Perm ((labelOrder argsort rowProbs).take m) ∧
      (∀ j, 1 ≤ j → j < m → 1 - qHat < rankScore rowProbs j) ∧
      (m < rowProbs.length → rankScore rowProbs m ≤ 1 - qHat) := by
  have hpos := List.length_pos_of_ne_nil hne
  have hpasses : ∀ j, Passes (ranked rowProbs) qHat 0 0 j ↔
      1 - qHat < rankScore rowProbs j ∨ j < 1 := by
    intro j
    unfold Passes rankScore
    rw [zero_add, Nat.zero_add]
  obtain ⟨m, hm, htaken, hbefore, hafter⟩ :=
    takenLabels_eq_take qHat rowProbs (labelOrder argsort rowProbs) 0 0
  rw [map_labelOrder] at hbefore hafter
  rw [length_labelOrder] at hm hafter
  have hstart : rapsLambda K * ((0 - rapsK0 : ℕ) : K) = 0 := by
    rw [Nat.zero_sub, Nat.cast_zero, mul_zero]
  rw [hstart] at htaken
  have hm1 : 1 ≤ m := by
    by_contra hzero
    obtain rfl : m = 0 := by omega
    exact hafter hpos ((hpasses 0).mpr (Or.inr Nat.zero_lt_one))
  refine ⟨m, hm1, hm, ?_, fun j hj hjm => ?_, fun hlt => ?_⟩
  · rw [← htaken]
    exact List.perm_insertionSort _ _
  · exact ((hpasses j).mp (hbefore j hjm)).resolve_right (by omega)
  · exact not_lt.mp fun h => hafter hlt ((hpasses m).mpr (Or.inl h))

variable [IsStrictOrderedRing K]

/-- The labels whose scores are within the threshold have the first ranks. -/
theorem qualified_iff_lt {j y : ℕ} {p : K} (hy : (labelOrder argsort rowProbs)[j]? = some y)
    (hp : rowProbs[y]? = some p) : 1 - p ≤ qHat ↔ j < qualifiedCount rowProbs qHat := by
  obtain ⟨p', hp', hranked⟩ := getElem?_labelOrder argsort rowProbs hy
  obtain rfl : p = p' := Option.some.inj (hp.symm.trans hp')
  have hfirst : (ranked rowProbs).Pairwise fun a b =>
      decide (1 - b ≤ qHat) = true → decide (1 - a ≤ qHat) = true := by
    refine (ranked_pairwise rowProbs).imp fun {a b} hab hb => ?_
    rw [decide_eq_true_eq] at hb ⊢
    linarith
  have hiff := iff_lt_countP hfirst hranked
  rw [decide_eq_true_eq, (ranked_perm rowProbs).countP_eq] at hiff
  exact hiff

omit [IsStrictOrderedRing K] in
/-- The label of the first rank is most probable. -/
theorem le_of_labelOrder_zero {y : ℕ} {p : K} (hy : (labelOrder argsort rowProbs)[0]? = some y)
    (hp : rowProbs[y]? = some p) : ∀ p' ∈ rowProbs, p' ≤ p := by
  obtain ⟨p', hp', hranked⟩ := getElem?_labelOrder argsort rowProbs hy
  obtain rfl : p = p' := Option.some.inj (hp.symm.trans hp')
  intro x hx
  have hsorted := ranked_pairwise rowProbs
  have hmem := (ranked_perm rowProbs).mem_iff.mpr hx
  cases hvalues : ranked rowProbs with
  | nil =>
    rw [hvalues] at hmem
    cases hmem
  | cons first rest =>
    rw [hvalues] at hmem hranked hsorted
    obtain rfl : first = p := Option.some.inj hranked
    obtain rfl | hrest := List.mem_cons.mp hmem
    · exact le_rfl
    · exact (List.pairwise_cons.mp hsorted).1 x hrest

omit [Field K] [IsStrictOrderedRing K] in
/-- The labels of some first ranks. -/
theorem mem_take_labelOrder {m y : ℕ} :
    y ∈ (labelOrder argsort rowProbs).take m ↔
      ∃ j < m, (labelOrder argsort rowProbs)[j]? = some y := by
  rw [List.mem_iff_getElem?]
  refine exists_congr fun j => ?_
  rw [List.getElem?_take]
  split_ifs with hj <;> simp [hj]

/-- The labels of some first ranks are those within the threshold exactly if they are as many. -/
theorem qualified_labels_iff {m : ℕ} (hm : m ≤ rowProbs.length) {set : List ℕ}
    (hset : set.Perm ((labelOrder argsort rowProbs).take m)) :
    (∀ y, y ∈ set ↔ ∃ p, rowProbs[y]? = some p ∧ 1 - p ≤ qHat) ↔
      m = qualifiedCount rowProbs qHat := by
  have hlength := length_labelOrder argsort rowProbs
  have hcount : qualifiedCount rowProbs qHat ≤ rowProbs.length := List.countP_le_length
  have hmem : ∀ y, y ∈ set ↔ ∃ j < m, (labelOrder argsort rowProbs)[j]? = some y :=
    fun y => hset.mem_iff.trans (mem_take_labelOrder argsort)
  constructor
  · intro hlabels
    refine le_antisymm (not_lt.mp fun hlt => ?_) (not_lt.mp fun hlt => ?_)
    · -- The first rank that is not within the threshold would be taken.
      obtain ⟨y, hy⟩ : ∃ y, (labelOrder argsort rowProbs)[qualifiedCount rowProbs qHat]? =
        some y := ⟨_, List.getElem?_eq_getElem (by omega)⟩
      obtain ⟨p, hp, hle⟩ := (hlabels y).mp ((hmem y).mpr ⟨_, hlt, hy⟩)
      exact absurd ((qualified_iff_lt argsort hy hp).mp hle) (lt_irrefl _)
    · -- The first rank that is not taken would be within the threshold.
      obtain ⟨y, hy⟩ : ∃ y, (labelOrder argsort rowProbs)[m]? = some y :=
        ⟨_, List.getElem?_eq_getElem (by omega)⟩
      obtain ⟨p, hp, -⟩ := getElem?_labelOrder argsort rowProbs hy
      obtain ⟨j, hj, hyj⟩ := (hmem y).mp ((hlabels y).mpr
        ⟨p, hp, (qualified_iff_lt argsort hy hp).mpr hlt⟩)
      have hsame := (List.getElem?_inj (by omega) (nodup_labelOrder argsort rowProbs)).mp
        (hyj.trans hy.symm)
      omega
  · rintro rfl y
    rw [hmem]
    constructor
    · rintro ⟨j, hj, hy⟩
      obtain ⟨p, hp, -⟩ := getElem?_labelOrder argsort rowProbs hy
      exact ⟨p, hp, (qualified_iff_lt argsort hy hp).mpr hj⟩
    · rintro ⟨p, hp, hle⟩
      obtain ⟨hlt, -⟩ := List.getElem?_eq_some_iff.mp hp
      have hlabel := (labelOrder_perm argsort rowProbs).mem_iff.mpr (List.mem_range.mpr hlt)
      obtain ⟨j, hj⟩ := List.mem_iff_getElem?.mp hlabel
      exact ⟨j, (qualified_iff_lt argsort hj hp).mp hle, hj⟩

omit [IsStrictOrderedRing K] in
/-- The labels of some first ranks are one label that is most probable exactly if there is one. -/
theorem most_probable_label_iff {m : ℕ} (hm1 : 1 ≤ m) (hm : m ≤ rowProbs.length) {set : List ℕ}
    (hset : set.Perm ((labelOrder argsort rowProbs).take m)) :
    (∃ y p, set = [y] ∧ rowProbs[y]? = some p ∧ ∀ p' ∈ rowProbs, p' ≤ p) ↔ m = 1 := by
  have hlength := length_labelOrder argsort rowProbs
  constructor
  · rintro ⟨y, p, hy, -, -⟩
    have hlen := hset.length_eq
    rw [hy, List.length_singleton, List.length_take] at hlen
    omega
  · rintro rfl
    obtain ⟨y, hy⟩ : ∃ y, (labelOrder argsort rowProbs)[0]? = some y :=
      ⟨_, List.getElem?_eq_getElem (by omega)⟩
    obtain ⟨p, hp, -⟩ := getElem?_labelOrder argsort rowProbs hy
    refine ⟨y, p, ?_, hp, le_of_labelOrder_zero argsort hy hp⟩
    have htake : (labelOrder argsort rowProbs).take 1 = [y] := by
      rw [List.take_one, List.head?_eq_getElem?, hy]
      rfl
    rw [htake] at hset
    exact List.perm_singleton.mp hset

/-- The labels of some first ranks are those that calibration asks for exactly if they are as
many. -/
theorem matchesCalibration_iff {m : ℕ} (hm1 : 1 ≤ m) (hm : m ≤ rowProbs.length) {set : List ℕ}
    (hset : set.Perm ((labelOrder argsort rowProbs).take m)) :
    MatchesCalibration rowProbs qHat set ↔ m = max 1 (qualifiedCount rowProbs qHat) := by
  unfold MatchesCalibration
  rw [qualified_labels_iff argsort hm hset, most_probable_label_iff argsort hm1 hm hset]
  obtain hzero | hpos := Nat.eq_zero_or_pos (qualifiedCount rowProbs qHat)
  · have hnone : ∀ p ∈ rowProbs, ¬1 - p ≤ qHat := by
      intro p hp
      simpa using List.countP_eq_zero.mp hzero p hp
    have hone : max 1 (qualifiedCount rowProbs qHat) = 1 := by omega
    rw [hone]
    exact ⟨fun h => h.2 hnone, fun h => ⟨fun ⟨p, hp, hle⟩ => absurd hle (hnone p hp), fun _ => h⟩⟩
  · have hsome : ∃ p ∈ rowProbs, 1 - p ≤ qHat := by
      obtain ⟨p, hp, hle⟩ := List.countP_pos_iff.mp hpos
      exact ⟨p, hp, by simpa using hle⟩
    have hmax : max 1 (qualifiedCount rowProbs qHat) = qualifiedCount rowProbs qHat := by omega
    rw [hmax]
    refine ⟨fun h => h.1 hsome, fun h => ⟨fun _ => h, fun hnone => ?_⟩⟩
    obtain ⟨p, hp, hle⟩ := hsome
    exact absurd hle (hnone p hp)

/-- The prediction set of a row is that of calibration exactly if the ranks agree. -/
theorem rowSet_matches_iff (hne : rowProbs ≠ []) :
    MatchesCalibration rowProbs qHat (rowSet argsort qHat rowProbs) ↔
      RanksAgree rowProbs qHat := by
  obtain ⟨m, hm1, hm, hset, hbefore, hafter⟩ := rowSet_spec argsort qHat hne
  rw [matchesCalibration_iff argsort hm1 hm hset]
  have hcount : max 1 (qualifiedCount rowProbs qHat) ≤ rowProbs.length :=
    max_le (List.length_pos_of_ne_nil hne) List.countP_le_length
  constructor
  · rintro rfl
    exact ⟨hbefore, hafter⟩
  · rintro ⟨hbefore', hafter'⟩
    obtain hlt | heq | hgt := lt_trichotomy m (max 1 (qualifiedCount rowProbs qHat))
    · exact absurd (hbefore' m hm1 hlt) (not_lt.mpr (hafter (hlt.trans_le hcount)))
    · exact heq
    · exact absurd (hbefore _ (le_max_left _ _) hgt) (not_lt.mpr (hafter' (hgt.trans_le hm)))

/-- For a calibrated classifier, `predict_set` returns for each row of probabilities the labels
whose scores, computed as for the calibration, are within the threshold, or a most probable one if
there are none, exactly if the ranks agree. -/
theorem predictSet_matches_iff {c : ConformalCalibrator K} (hq : c.qHat = some qHat)
    (hmode : c.mode = some .classification) (nClasses : ℕ) {probs : List (List K)}
    (hne : ∀ rowProbs ∈ probs, rowProbs ≠ []) :
    ∃ results : List (PredictionSet K),
      c.predictSet argsort nClasses (some probs) = .ok results ∧
      results.length = probs.length ∧
      ∀ (i : ℕ) (rowProbs : List K) (result : PredictionSet K), probs[i]? = some rowProbs →
        results[i]? = some result →
        (MatchesCalibration rowProbs qHat result.predictionSet ↔ RanksAgree rowProbs qHat) := by
  unfold ConformalCalibrator.predictSet
  rw [hq]
  dsimp only
  rw [if_neg (by rw [hmode]; exact fun h => h rfl)]
  refine ⟨_, rfl, List.length_map _, fun i rowProbs result hrow hresult => ?_⟩
  rw [List.getElem?_map, hrow] at hresult
  obtain rfl := Option.some.inj hresult
  exact rowSet_matches_iff argsort (hne rowProbs (List.mem_of_getElem? hrow))

end Sets

/-- A classifier with a threshold of a half. -/
private def halfCalibrator : ConformalCalibrator ℚ where
  alpha := 1 / 10
  qHat := some (1 / 2)
  nCal := some 1
  classes := some [0, 1]
  mode := some .classification
  nonconformityScores := [1 / 2]

/-- With even probabilities both labels are within the threshold of a half, and both are
returned. -/
theorem predictSet_even : ∃ results : List (PredictionSet ℚ),
    halfCalibrator.predictSet (Argsort.stable ℚ) 2 (some [[1 / 2, 1 / 2]]) = .ok results ∧
      ∀ result, results[0]? = some result →
        MatchesCalibration [1 / 2, 1 / 2] (1 / 2 : ℚ) result.predictionSet := by
  obtain ⟨results, hresults, -, hmatches⟩ := predictSet_matches_iff (Argsort.stable ℚ)
    (show halfCalibrator.qHat = some (1 / 2) from rfl) rfl 2
    (show ∀ rowProbs ∈ [[1 / 2, 1 / 2]], rowProbs ≠ [] by decide +kernel)
  refine ⟨results, hresults, fun result hresult => ?_⟩
  refine (hmatches 0 _ result rfl hresult).mpr ⟨fun j hj hlt => ?_, fun hlt => ?_⟩
  · have hj2 : j < 2 := hlt.trans_eq (by decide +kernel)
    obtain rfl : j = 1 := by omega
    decide +kernel
  · exact absurd hlt (by decide +kernel)

/-- With a calibration split of one row the threshold is a half. The label of probability 2 / 5 is
not within it, but it is returned. -/
theorem predictSet_unqualified : ∃ (c : ConformalCalibrator ℚ) (results : List (PredictionSet ℚ)),
    (freshCalibrator (1 / 10)).calibrate (.classification 2 [([1 / 2, 1 / 2], 0)]) none = .ok c ∧
      c.qHat = some (1 / 2) ∧
      c.predictSet (Argsort.stable ℚ) 2 (some [[3 / 5, 2 / 5]]) = .ok results ∧
      results.map PredictionSet.predictionSet = [[0, 1]] ∧
      ¬MatchesCalibration [3 / 5, 2 / 5] (1 / 2 : ℚ) [0, 1] := by
  refine ⟨_, _, rfl, by decide +kernel, rfl, by decide +kernel, fun hmatches => ?_⟩
  obtain ⟨p, hp, hle⟩ := (hmatches.1 ⟨3 / 5, by decide +kernel, by decide +kernel⟩ 1).mp
    (by decide)
  obtain rfl : 2 / 5 = p := Option.some.inj hp
  exact absurd hle (by decide +kernel)

end LedgerLens.Detection.Conformal
