import LedgerLens.Library.Broadcasting
import Mathlib.Algebra.Order.Field.Basic
import Mathlib.Algebra.Order.Monoid.WithTop
import Mathlib.Data.List.GetD
import Mathlib.Data.List.Sort

/-!
# Krum

`krum_aggregate` clips the updates to a norm, scores each by its squared distances to its nearest
neighbours and averages those with the smallest scores, which is one of them by default. It raises
if there are too few updates or if they differ in length.
-/

namespace LedgerLens.Federated

open NumArray

/-- `np.argsort`: how ties are broken is not specified. -/
structure Argsort (α : Type) [LE α] where
  /-- The indices in the order of the values. -/
  order : List α → List ℕ
  /-- Every index occurs once. -/
  perm : ∀ scores, (order scores).Perm (List.range scores.length)
  /-- The values are in order. -/
  sorted : ∀ scores, ((order scores).filterMap fun i => scores[i]?).Pairwise (· ≤ ·)

section Values

variable {α : Type} [LE α] (argsort : Argsort α) (scores : List α) (default : α)

/-- The value at an index of the order. -/
theorem Argsort.getElem?_of_mem {i : ℕ} (hi : i ∈ argsort.order scores) :
    scores[i]? = some (scores.getD i default) := by
  have hlt := List.mem_range.mp ((argsort.perm scores).mem_iff.mp hi)
  rw [List.getElem?_eq_getElem hlt, List.getD_eq_getElem _ _ hlt]

/-- The values at the indices are in order. -/
theorem Argsort.map_getD_pairwise :
    ((argsort.order scores).map fun i => scores.getD i default).Pairwise (· ≤ ·) := by
  have hsorted := argsort.sorted scores
  rwa [List.filterMap_congr fun i hi => argsort.getElem?_of_mem scores default hi,
    List.filterMap_eq_map'] at hsorted

/-- The values at the indices are all values. -/
theorem Argsort.map_getD_perm :
    ((argsort.order scores).map fun i => scores.getD i default).Perm scores := by
  have hrange : ((List.range scores.length).map fun i => scores.getD i default) = scores := by
    refine List.ext_getElem (by rw [List.length_map, List.length_range]) fun k hk hk' => ?_
    rw [List.getElem_map, List.getElem_range, List.getD_eq_getElem _ _ hk']
  have hmap := (argsort.perm scores).map fun i => scores.getD i default
  rwa [hrange] at hmap

end Values

/-- The indices of some values in their order, ties in the order of the indices. -/
def stableOrder {α : Type} [LinearOrder α] (scores : List α) : List ℕ :=
  (scores.zipIdx.insertionSort fun a b => a.1 ≤ b.1).map Prod.snd

/-- At these indices there are the values in order. -/
theorem filterMap_stableOrder {α : Type} [LinearOrder α] (scores : List α) :
    ((stableOrder scores).filterMap fun i => scores[i]?) = scores.insertionSort (· ≤ ·) := by
  have hpairs : ∀ pair ∈ scores.zipIdx.insertionSort fun a b => a.1 ≤ b.1,
      scores[pair.2]? = some pair.1 := by
    intro pair hpair
    exact List.mem_zipIdx_iff_getElem?.mp ((List.mem_insertionSort _).mp hpair)
  have hvalues : ((stableOrder scores).filterMap fun i => scores[i]?) =
      (scores.zipIdx.insertionSort fun a b => a.1 ≤ b.1).map Prod.fst := by
    unfold stableOrder
    rw [List.filterMap_map]
    calc _ = (scores.zipIdx.insertionSort fun a b => a.1 ≤ b.1).filterMap (some ∘ Prod.fst) :=
          List.filterMap_congr hpairs
      _ = (scores.zipIdx.insertionSort fun a b => a.1 ≤ b.1).map Prod.fst := by
          rw [List.filterMap_eq_map]
  rw [hvalues, List.map_insertionSort (fun a b => a.1 ≤ b.1) (· ≤ ·) Prod.fst _
    fun _ _ _ _ => Iff.rfl]
  congr 1
  exact List.zipIdx_map_fst 0 scores

/-- A stable `np.argsort`. -/
def Argsort.stable (α : Type) [LinearOrder α] : Argsort α where
  order := stableOrder
  perm scores := by
    have hperm := (List.perm_insertionSort (fun a b => a.1 ≤ b.1) scores.zipIdx).map Prod.snd
    rw [List.zipIdx_map_snd, ← List.range_eq_range'] at hperm
    exact hperm
  sorted scores := by
    rw [filterMap_stableOrder]
    exact List.pairwise_insertionSort _ scores

/-- The configuration of the aggregation, and the functions of numpy that it uses. -/
structure KrumSettings (R : Type) [Field R] [LinearOrder R] where
  /-- `FEDERATED_BYZANTINE_TOLERANCE`. -/
  byzantineTolerance : ℤ
  /-- `_KRUM_CLIP_NORM`. -/
  clipNorm : R
  /-- It bounds norms. -/
  clipNorm_nonneg : 0 ≤ clipNorm
  /-- The square root. -/
  sqrt : R → R
  /-- `np.argsort`. -/
  argsort : Argsort (WithTop R)

namespace KrumSettings

variable {R : Type} [Field R] [LinearOrder R] (settings : KrumSettings R)

/-- The scalar product of two rows. -/
def dot (u v : List R) : R := (u.zipWith (· * ·) v).sum

/-- `np.linalg.norm`. -/
def norm (u : List R) : R := settings.sqrt (dot u u)

/-- An update whose norm is clipped. -/
def clip (u : List R) : List R :=
  if settings.clipNorm < settings.norm u then u.map (· * (settings.clipNorm / settings.norm u))
  else u

/-- The squared distance of two rows. -/
def distSq (u v : List R) : R := dot u u + dot v v - 2 * dot u v

/-- The squared distances of a row to all rows, the row itself excluded. -/
def distances (rows : List (List R)) (i : ℕ) (u : List R) : List (WithTop R) :=
  rows.mapIdx fun j v => if j = i then ⊤ else ((distSq u v : R) : WithTop R)

/-- The Krum scores: the sums of the `k` smallest distances. -/
def scores (k : ℕ) (rows : List (List R)) : List (WithTop R) :=
  rows.mapIdx fun i u => (((distances rows i u).insertionSort (· ≤ ·)).take k).sum

/-- The rows with the smallest scores. -/
def selected (k m : ℕ) (rows : List (List R)) : List (List R) :=
  ((settings.argsort.order (scores k rows)).take m).filterMap fun i => rows[i]?

/-- `np.mean(rows, axis=0)`. -/
def meanRows (rows : List (List R)) : List R := (addRows rows).map (· / rows.length)

/-- `krum_aggregate`. -/
def krumAggregate (updates : List (List R)) (nByzantine : ℤ) (multiKrumM : ℕ) :
    Except ValueError (List R) :=
  if (updates.length : ℤ) - nByzantine < 3 then
    .error ⟨"Krum requires n - n_byzantine >= 3 (n=" ++ toString updates.length ++
      ", n_byzantine=" ++ toString nByzantine ++ "). Fall back to FedAvg."⟩
  else do
    let k := ((updates.length : ℤ) - nByzantine - 2).toNat
    let rows ← stack (updates.map settings.clip)
    let m := min multiKrumM ((updates.length : ℤ) - nByzantine).toNat
    pure (meanRows (settings.selected k m rows))

@[simp] theorem length_clip (u : List R) : (settings.clip u).length = u.length := by
  unfold clip
  split_ifs
  · exact List.length_map _
  · rfl

/-- Clipping keeps the lengths. -/
theorem uniform_map_clip_iff (updates : List (List R)) :
    Uniform (updates.map settings.clip) ↔ Uniform updates := by
  unfold Uniform
  simp only [List.forall_mem_map, length_clip]

/-- Krum raises for updates of different lengths. -/
theorem krumAggregate_of_not_uniform {updates : List (List R)} (nByzantine : ℤ) (multiKrumM : ℕ)
    (h : ¬Uniform updates) :
    ∃ e, settings.krumAggregate updates nByzantine multiKrumM = .error e := by
  unfold krumAggregate
  split_ifs
  · exact ⟨_, rfl⟩
  · unfold stack
    rw [if_neg (mt (settings.uniform_map_clip_iff updates).mp h)]
    exact ⟨_, rfl⟩

/-- The first index in the order of the scores is that of a row. -/
theorem selected_one (k : ℕ) {rows : List (List R)} (hne : rows ≠ []) :
    ∃ row ∈ rows, settings.selected k 1 rows = [row] := by
  have hperm := settings.argsort.perm (scores k rows)
  have hlength : (scores k rows).length = rows.length := by
    unfold scores
    rw [List.length_mapIdx]
  rw [hlength] at hperm
  unfold selected
  cases horder : settings.argsort.order (scores k rows) with
  | nil =>
    rw [horder] at hperm
    have hzero := hperm.length_eq
    rw [List.length_nil, List.length_range] at hzero
    exact absurd (List.eq_nil_of_length_eq_zero hzero.symm) hne
  | cons i rest =>
    rw [horder] at hperm
    have hi : i < rows.length := List.mem_range.mp (hperm.mem_iff.mp List.mem_cons_self)
    refine ⟨rows[i], List.getElem_mem hi, ?_⟩
    simp [List.getElem?_eq_getElem hi]

/-- Krum of updates of one length is one of them, clipped. -/
theorem krumAggregate_of_uniform {updates : List (List R)} {nByzantine : ℤ}
    (hsafe : 3 ≤ (updates.length : ℤ) - nByzantine) (hne : updates ≠ []) (h : Uniform updates) :
    ∃ u ∈ updates, settings.krumAggregate updates nByzantine 1 = .ok (settings.clip u) := by
  have hmin : min 1 ((updates.length : ℤ) - nByzantine).toNat = 1 := by omega
  have hrows : updates.map settings.clip ≠ [] := mt List.map_eq_nil_iff.mp hne
  obtain ⟨row, hrow, hselected⟩ := settings.selected_one
    ((updates.length : ℤ) - nByzantine - 2).toNat hrows
  obtain ⟨u, hu, hclip⟩ := List.mem_map.mp hrow
  refine ⟨u, hu, ?_⟩
  unfold krumAggregate stack
  rw [if_neg (by omega), if_pos ((settings.uniform_map_clip_iff updates).mpr h), hmin]
  have hmean : meanRows [row] = row := by
    unfold meanRows
    simp [addRows]
  rw [hclip, ← hmean, ← hselected]
  rfl

end KrumSettings

end LedgerLens.Federated
