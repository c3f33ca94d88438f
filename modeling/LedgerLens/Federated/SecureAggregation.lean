import LedgerLens.Federated.Krum
import LedgerLens.Library.OrderStatistics
import Mathlib.Algebra.Order.Floor.Ring
import Mathlib.Data.List.GetD
import Mathlib.Data.Rat.Floor

/-!
# Robust aggregation of gradients

`aggregate_gradients` combines the gradients of the participants coordinate by coordinate, with
the mean, the trimmed mean or the median, or it averages those that Krum selects. The trimmed mean
and the median of a coordinate stay within the range of the honest participants.
-/

namespace LedgerLens.Federated

open NumArray TrimmedMean OrderStatistics

/-- `AggregationStrategy`. -/
inductive AggregationStrategy where
  /-- `MEAN`. -/
  | mean
  /-- `TRIMMED_MEAN`. -/
  | trimmedMean
  /-- `MEDIAN`. -/
  | median
  /-- `KRUM`. -/
  | krum
  deriving DecidableEq

/-- `AggregationConfig`, with what its constructor checks. -/
structure AggregationConfig (R : Type) [Field R] [LinearOrder R] where
  /-- `strategy`. -/
  strategy : AggregationStrategy
  /-- `trim_fraction`. -/
  trimFraction : R
  /-- `n_byzantine`. -/
  nByzantine : ℕ
  /-- The trimmed fraction is not negative. -/
  trimFraction_nonneg : 0 ≤ trimFraction
  /-- Less than everything is trimmed. -/
  trimFraction_lt : trimFraction + trimFraction < 1

section Code

variable {R : Type} [Field R] [LinearOrder R]

/-- `_as_matrix`. -/
def asMatrix : List (List R) → Except ValueError (List (List R))
  | [] => .error ⟨"At least one gradient is required for aggregation"⟩
  | first :: rest =>
    if ∀ g ∈ first :: rest, g.length = first.length then .ok (first :: rest)
    else .error ⟨"All gradients must share the same dimensionality"⟩

/-- A function of the columns of a matrix, `axis=0`. -/
def columns (f : List R → R) (matrix : List (List R)) : List R :=
  (List.range (matrix.headD []).length).map fun j => f (matrix.map fun row => row.getD j 0)

/-- `np.mean` of a column. -/
def mean (xs : List R) : R := xs.sum / xs.length

/-- `np.median` of a column: the middle value, or the mean of the two in the middle. -/
def median (xs : List R) : R :=
  if xs.length % 2 = 1 then (xs.insertionSort (· ≤ ·)).getD (xs.length / 2) 0
  else mean [(xs.insertionSort (· ≤ ·)).getD (xs.length / 2 - 1) 0,
    (xs.insertionSort (· ≤ ·)).getD (xs.length / 2) 0]

/-- The squared distance of two rows, as the sum over their difference. -/
def sqDist (u v : List R) : R := ((u.zipWith (· - ·) v).map fun x => x * x).sum

/-- The squared distances of a row to all rows, the row itself excluded. -/
def sqDists (rows : List (List R)) (i : ℕ) (u : List R) : List (WithTop R) :=
  rows.mapIdx fun j v => if j = i then ⊤ else ((sqDist u v : R) : WithTop R)

/-- The scores of `_krum`. The sum of what `np.partition` puts first is that of the least
distances. -/
def krumScores (nNeighbours : ℕ) (rows : List (List R)) : List (WithTop R) :=
  rows.mapIdx fun i u => (((sqDists rows i u).insertionSort (· ≤ ·)).take nNeighbours).sum

/-- `_krum`. -/
def multiKrum (argsort : Argsort (WithTop R)) (matrix : List (List R)) (nByzantine : ℕ) : List R :=
  let keep : ℤ := matrix.length - nByzantine - 2
  if keep < 1 then columns median matrix
  else
    let nNeighbours := (max 1 keep).toNat
    let selected := (argsort.order (krumScores nNeighbours matrix)).take keep.toNat
    columns mean (selected.filterMap fun i => matrix[i]?)

/-- `aggregate_gradients`. -/
def aggregateGradients [FloorRing R] (argsort : Argsort (WithTop R)) (gradients : List (List R))
    (config : AggregationConfig R) : Except ValueError (List R) :=
  match asMatrix gradients with
  | .error e => .error e
  | .ok matrix =>
    match config.strategy with
    | .mean => .ok (columns mean matrix)
    | .median => .ok (columns median matrix)
    | .trimmedMean =>
      let k := ⌊(matrix.length : R) * config.trimFraction⌋.toNat
      if k = 0 then .ok (columns mean matrix)
      else .ok (columns (fun xs => mean (inner k xs)) matrix)
    | .krum => .ok (multiKrum argsort matrix config.nByzantine)

end Code

variable {R : Type} [Field R] [LinearOrder R]

omit [Field R] [LinearOrder R] in
/-- Gradients of one length make a matrix. -/
theorem asMatrix_of_length {gradients : List (List R)} (hne : gradients ≠ []) {d : ℕ}
    (hdim : ∀ g ∈ gradients, g.length = d) : asMatrix gradients = .ok gradients := by
  obtain ⟨first, rest, rfl⟩ := List.exists_cons_of_ne_nil hne
  unfold asMatrix
  refine if_pos fun g hg => ?_
  rw [hdim g hg, hdim first List.mem_cons_self]

omit [LinearOrder R] in
/-- The columns of a matrix. -/
theorem columns_spec {gradients : List (List R)} (hne : gradients ≠ []) {d : ℕ}
    (hdim : ∀ g ∈ gradients, g.length = d) (f : List R → R) :
    (columns f gradients).length = d ∧ ∀ j < d, (columns f gradients).getD j 0 =
      f (gradients.map fun g => g.getD j 0) := by
  obtain ⟨first, rest, rfl⟩ := List.exists_cons_of_ne_nil hne
  have hfirst : ((first :: rest).headD []).length = d := hdim first List.mem_cons_self
  unfold columns
  rw [hfirst]
  refine ⟨by rw [List.length_map, List.length_range], fun j hj => ?_⟩
  rw [List.getD_eq_getElem _ _ (by rw [List.length_map, List.length_range]; exact hj),
    List.getElem_map, List.getElem_range]

section Ranges

variable [IsStrictOrderedRing R] {xs bad honest : List R}

/-- The mean of the inner values lies between the honest ones. -/
theorem between_mean_inner {k : ℕ} (hperm : xs.Perm (bad ++ honest)) (hbad : bad.length ≤ k)
    (hk : k + k < xs.length) : Between honest (mean (inner k xs)) := by
  have hne : inner k xs ≠ [] := by
    refine List.ne_nil_of_length_pos ?_
    rw [length_inner]
    omega
  exact (between_mean hne).trans fun y hy => between_of_mem_inner hperm hbad hy

/-- The median lies between the honest values if they are the majority. -/
theorem between_median (hperm : xs.Perm (bad ++ honest)) (hbad : 2 * bad.length < xs.length) :
    Between honest (median xs) := by
  have hrank : ∀ i, bad.length ≤ i → i + bad.length < xs.length →
      Between honest ((xs.insertionSort (· ≤ ·)).getD i 0) := by
    intro i hlow hhigh
    have hi : i < (xs.insertionSort (· ≤ ·)).length := by
      rw [List.length_insertionSort]
      omega
    rw [List.getD_eq_getElem _ _ hi]
    exact between_of_rank hperm hi hlow hhigh
  unfold median
  split_ifs with hodd
  · exact hrank _ (by omega) (by omega)
  · refine (between_mean (List.cons_ne_nil _ _)).trans fun y hy => ?_
    obtain rfl | hy := List.mem_cons.mp hy
    · exact hrank _ (by omega) (by omega)
    · obtain rfl := List.mem_singleton.mp hy
      exact hrank _ (by omega) (by omega)

/-- Each coordinate of an aggregate lies between values of the honest participants. -/
def WithinHonest (d : ℕ) (honest : List (List R)) (result : Except ValueError (List R)) : Prop :=
  ∃ aggregate, result = .ok aggregate ∧ aggregate.length = d ∧
    ∀ j < d, Between (honest.map fun g => g.getD j 0) (aggregate.getD j 0)

omit [IsStrictOrderedRing R] in
/-- What holds of every column of the gradients holds of every coordinate of their aggregate. -/
theorem withinHonest_columns {gradients byzantine honest : List (List R)}
    (hne : gradients ≠ []) {d : ℕ} (hdim : ∀ g ∈ gradients, g.length = d)
    (hperm : gradients.Perm (byzantine ++ honest)) {f : List R → R}
    (hf : ∀ xs bad honest : List R, xs.length = gradients.length →
      bad.length = byzantine.length → xs.Perm (bad ++ honest) → Between honest (f xs)) :
    WithinHonest d honest (.ok (columns f gradients)) := by
  obtain ⟨hlength, hvalue⟩ := columns_spec hne hdim f
  refine ⟨_, rfl, hlength, fun j hj => ?_⟩
  rw [hvalue j hj]
  refine hf _ (byzantine.map fun g => g.getD j 0) _ (List.length_map _) (List.length_map _) ?_
  rw [← List.map_append]
  exact hperm.map _

variable [FloorRing R]

end Ranges

/-- The trimmed mean with a quarter trimmed at each end. -/
private def quarterTrimmed : AggregationConfig ℚ where
  strategy := .trimmedMean
  trimFraction := 1 / 4
  nByzantine := 0
  trimFraction_nonneg := by decide +kernel
  trimFraction_lt := by decide +kernel

/-- Four gradients, of which the second is Byzantine. -/
private def fourGradients : List (List ℚ) := [[1, 0], [1000, -7], [2, 4], [3, 5]]

end LedgerLens.Federated
