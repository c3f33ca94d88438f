import LedgerLens.Library.UniqueTable
import Mathlib.Algebra.BigOperators.Fin
import Mathlib.Algebra.BigOperators.Group.Finset.Piecewise
import Mathlib.Data.String.Basic

/-!
# Pairwise masks

`generate_masks` draws an array for each pair of participants and adds it to the mask of the first
and subtracts it from that of the second. The masks of one call add up to zero. When every
participant makes its own call and keeps only its own mask, what remains is the sum, over the pairs,
of the differences between the draws of their two ends.
-/

namespace LedgerLens.Federated

variable {A : Type} [AddCommGroup A]

/-- The pairs `i < j` of positions in the order of the two loops. -/
def positionPairs (n : ℕ) : List (Fin n × Fin n) :=
  (List.finRange n).flatMap fun i => ((List.finRange n).filter (i < ·)).map fun j => (i, j)

/-- What the generator draws in a call of `generate_masks`, by the positions of the pairs. -/
abbrev PairDraws (A : Type) := ℕ → ℕ → A

/-- The masks at the start of `generate_masks`. -/
def zeroMasks (participantIds : List String) : UniqueTable String A :=
  participantIds.foldl (fun masks pid => masks.put pid 0) .empty

/-- The body of the loops: the draw of a pair is added to one mask and subtracted from another. -/
def addPair (participantIds : List String) (draws : PairDraws A) (masks : UniqueTable String A)
    (pair : Fin participantIds.length × Fin participantIds.length) : UniqueTable String A :=
  let r := draws pair.1 pair.2
  (masks.modify (participantIds.get pair.1) (· + r)).modify (participantIds.get pair.2) (· - r)

/-- `generate_masks`. -/
def generateMasks (participantIds : List String) (draws : PairDraws A) : UniqueTable String A :=
  (positionPairs participantIds.length).foldl (addPair participantIds draws)
    (zeroMasks participantIds)

/-- `mask_delta`. -/
def maskDelta (delta mask : A) : A := delta + mask

/-- What a pair adds to the mask of a participant. -/
def pairShare (participantIds : List String) (draws : PairDraws A) (pid : String)
    (pair : Fin participantIds.length × Fin participantIds.length) : A :=
  (if participantIds.get pair.1 = pid then draws pair.1 pair.2 else 0) -
    if participantIds.get pair.2 = pid then draws pair.1 pair.2 else 0

/-- The mask of a participant. -/
def netMask (participantIds : List String) (draws : PairDraws A) (pid : String) : A :=
  ((positionPairs participantIds.length).map (pairShare participantIds draws pid)).sum

theorem find?_zeroMasks (participantIds : List String) (pid : String) :
    (zeroMasks participantIds : UniqueTable String A).find? pid =
      if pid ∈ participantIds then some 0 else none := by
  have hfold (masks : UniqueTable String A) :
      (participantIds.foldl (fun masks pid => masks.put pid 0) masks).find? pid =
        if pid ∈ participantIds then some 0 else masks.find? pid := by
    induction participantIds generalizing masks with
    | nil => simp
    | cons first rest ih =>
      rw [List.foldl_cons, ih, UniqueTable.find?_put]
      by_cases hrest : pid ∈ rest
      · simp [hrest]
      · by_cases hfirst : pid = first <;> simp [hrest, hfirst]
  exact hfold .empty

theorem find?_addPair (participantIds : List String) (draws : PairDraws A)
    (masks : UniqueTable String A)
    (pair : Fin participantIds.length × Fin participantIds.length) (pid : String) :
    (addPair participantIds draws masks pair).find? pid =
      (masks.find? pid).map (· + pairShare participantIds draws pid pair) := by
  unfold addPair pairShare
  dsimp only
  rw [UniqueTable.find?_modify, UniqueTable.find?_modify]
  generalize participantIds.get pair.1 = first
  generalize participantIds.get pair.2 = second
  by_cases hsecond : pid = second
  · rw [if_pos hsecond, ← hsecond, if_pos rfl]
    by_cases hfirst : pid = first
    · rw [if_pos hfirst, if_pos hfirst.symm, ← hfirst, Option.map_map]
      simp [Function.comp_def]
    · rw [if_neg hfirst, if_neg (Ne.symm hfirst)]
      simp [sub_eq_add_neg]
  · rw [if_neg hsecond, if_neg (Ne.symm hsecond), UniqueTable.find?_modify]
    by_cases hfirst : pid = first
    · rw [if_pos hfirst, if_pos hfirst.symm, ← hfirst, sub_zero]
    · rw [if_neg hfirst, if_neg (Ne.symm hfirst)]
      simp

/-- `generate_masks` makes the mask of each participant. -/
theorem find?_generateMasks (participantIds : List String) (draws : PairDraws A) (pid : String) :
    (generateMasks participantIds draws).find? pid =
      if pid ∈ participantIds then some (netMask participantIds draws pid) else none := by
  have hfold (pairs : List (Fin participantIds.length × Fin participantIds.length))
      (masks : UniqueTable String A) :
      (pairs.foldl (addPair participantIds draws) masks).find? pid =
        (masks.find? pid).map (· + (pairs.map (pairShare participantIds draws pid)).sum) := by
    induction pairs generalizing masks with
    | nil => simp
    | cons pair pairs ih =>
      rw [List.foldl_cons, ih, find?_addPair, Option.map_map, List.map_cons, List.sum_cons]
      simp only [Function.comp_def, add_assoc]
  unfold generateMasks
  rw [hfold, find?_zeroMasks]
  split_ifs
  · simp [netMask]
  · rfl

/-- A sum over the pairs of positions. -/
theorem sum_positionPairs {n : ℕ} (f : Fin n × Fin n → A) :
    ((positionPairs n).map f).sum = ∑ i, ∑ j, if i < j then f (i, j) else 0 := by
  unfold positionPairs
  rw [List.map_flatMap, List.flatMap, List.sum_flatten, List.map_map, Fin.sum_univ_def]
  congr 1
  refine List.map_congr_left fun i _ => ?_
  rw [Function.comp_apply, List.map_map, Fin.sum_univ_def]
  induction List.finRange n with
  | nil => rfl
  | cons j rest ih =>
    rw [List.map_cons, List.sum_cons, ← ih]
    by_cases hij : i < j <;> simp [hij]

/-- The mask of the participant at a position. -/
theorem netMask_get {participantIds : List String} (hnodup : participantIds.Nodup)
    (draws : PairDraws A) (a : Fin participantIds.length) :
    netMask participantIds draws (participantIds.get a) =
      ∑ i : Fin participantIds.length, ∑ j : Fin participantIds.length,
        if i < j then (if i = a then draws i j else 0) - if j = a then draws i j else 0
        else 0 := by
  unfold netMask
  rw [sum_positionPairs]
  unfold pairShare
  simp only [hnodup.get_inj_iff]

/-- If every participant makes its own draws, then the masks add up to the differences between the
draws of the two ends of each pair. -/
theorem sum_netMask {participantIds : List String} (hnodup : participantIds.Nodup)
    (draws : String → PairDraws A) :
    ∑ a, netMask participantIds (draws (participantIds.get a)) (participantIds.get a) =
      ∑ i : Fin participantIds.length, ∑ j : Fin participantIds.length,
        if i < j then
          draws (participantIds.get i) i j - draws (participantIds.get j) i j
        else 0 := by
  simp only [netMask_get hnodup]
  rw [Finset.sum_comm]
  refine Finset.sum_congr rfl fun i _ => ?_
  rw [Finset.sum_comm]
  refine Finset.sum_congr rfl fun j _ => ?_
  split_ifs with hij
  · rw [Finset.sum_sub_distrib]
    simp
  · exact Finset.sum_const_zero

/-- The draws that are zero except for one pair of positions. -/
def singleDraw (p q : ℕ) (r : A) : PairDraws A := fun i j => if i = p ∧ j = q then r else 0

/-- A single draw is in the masks of its pair. -/
theorem netMask_singleDraw {participantIds : List String} (hnodup : participantIds.Nodup)
    {p q : Fin participantIds.length} (hpq : p < q) (r : A) (a : Fin participantIds.length) :
    netMask participantIds (singleDraw p q r) (participantIds.get a) =
      (if p = a then r else 0) - if q = a then r else 0 := by
  rw [netMask_get hnodup, Finset.sum_eq_single p, Finset.sum_eq_single q]
  · simp [singleDraw, hpq]
  · intro j _ hj
    have hval : (j : ℕ) ≠ q := fun h => hj (Fin.ext h)
    simp [singleDraw, hval]
  · simp
  · intro i _ hi
    have hval : (i : ℕ) ≠ p := fun h => hi (Fin.ext h)
    simp [singleDraw, hval]
  · simp

/-- A participant with a peer can draw every mask. -/
theorem exists_netMask_eq {participantIds : List String} (hnodup : participantIds.Nodup)
    {pid : String} (hpid : pid ∈ participantIds) (hpeer : 2 ≤ participantIds.length) (mask : A) :
    ∃ draws : PairDraws A, netMask participantIds draws pid = mask := by
  obtain ⟨a, rfl⟩ := List.get_of_mem hpid
  by_cases hfirst : a.val = 0
  · have hlt : a < ⟨1, hpeer⟩ := Fin.lt_def.mpr (by simp [hfirst])
    refine ⟨singleDraw a 1 mask, (netMask_singleDraw hnodup hlt mask a).trans ?_⟩
    rw [if_pos rfl, if_neg hlt.ne', sub_zero]
  · have hlt : ⟨0, by omega⟩ < a := Fin.lt_def.mpr (by simp; omega)
    refine ⟨singleDraw 0 a (-mask), (netMask_singleDraw hnodup hlt (-mask) a).trans ?_⟩
    rw [if_pos rfl, if_neg hlt.ne, zero_sub, neg_neg]

end LedgerLens.Federated
