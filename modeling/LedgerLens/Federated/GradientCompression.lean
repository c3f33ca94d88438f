import LedgerLens.Federated.Krum
import LedgerLens.Library.LargestEntries
import Mathlib.Algebra.Order.Floor.Ring
import Mathlib.Data.List.FinRange
import Mathlib.Data.Rat.Floor

/-!
# Gradient compression

`TopKSparsifier` flips the signs of a gradient at random and sends its entries of largest
magnitude. `ErrorFeedbackCompressor` adds to each gradient what was not sent before, for each layer
separately. Nothing is lost over a run: what was sent and what is remembered add up to the
gradients.
-/

namespace LedgerLens.Federated

open LargestEntries

/-- A shape in which no axis is empty. -/
abbrev Shape := {dims : List ℕ // 0 < dims.prod}

/-- The number of elements of an array, `math.prod(shape)`. -/
abbrev Shape.size (shape : Shape) : ℕ := shape.val.prod

/-- An array, flattened. -/
abbrev Tensor (K : Type) (shape : Shape) := Fin shape.size → K

/-- `np.argpartition`: how the indices on each side are arranged is not specified. -/
structure Argpartition (K : Type) [LE K] where
  /-- The indices, those of the smaller values first. -/
  order : {n : ℕ} → (Fin n → K) → ℕ → List (Fin n)
  /-- Every index occurs once. -/
  perm : ∀ {n : ℕ} (xs : Fin n → K) (kth : ℕ), (order xs kth).Perm (List.finRange n)
  /-- No value before the position exceeds one from there on. -/
  partitioned : ∀ {n : ℕ} (xs : Fin n → K) (kth : ℕ), ∀ i ∈ (order xs kth).take kth,
    ∀ j ∈ (order xs kth).drop kth, xs i ≤ xs j

/-- The functions of numpy that the compressor uses. -/
structure CompressionSettings (K : Type) [LE K] where
  /-- `np.argpartition`. -/
  argpartition : Argpartition K
  /-- `np.argsort`. -/
  argsort : Argsort K
  /-- `np.random.default_rng(seed).choice([-1.0, 1.0], size=n)`: where it draws the second. -/
  choice : ℤ → (n : ℕ) → Fin n → Bool

/-- `TopKSparsifier`, with what its constructor checks. -/
structure TopKSparsifier (K : Type) [Field K] [LinearOrder K] where
  /-- `k_ratio`. -/
  kRatio : K
  /-- `_seed`. -/
  seed : ℤ
  /-- `_call_counter`. -/
  callCounter : ℕ := 0
  /-- Something is kept. -/
  kRatio_pos : 0 < kRatio
  /-- At most everything is kept. -/
  kRatio_le_one : kRatio ≤ 1

/-- `TopKPayload`, for arrays of a shape. -/
structure TopKPayload (K : Type) (shape : Shape) where
  /-- `values`. -/
  values : List K
  /-- `indices`. -/
  indices : List (Fin shape.size)
  /-- `rotation_seed`. -/
  rotationSeed : ℤ

section Code

variable {K : Type} [Field K] [LinearOrder K] (settings : CompressionSettings K)

/-- The random signs. -/
def signs (rotationSeed : ℤ) (n : ℕ) : Fin n → K :=
  fun i => if settings.choice rotationSeed n i then 1 else -1

namespace TopKSparsifier

variable [FloorRing K] (sparsifier : TopKSparsifier K) {shape : Shape}

/-- How many of some elements are kept. -/
def keptCount (n : ℕ) : ℕ := max 1 ⌈(n : K) * sparsifier.kRatio⌉.toNat

/-- `compress`, and the compressor after it. -/
def compress (gradient : Tensor K shape) : TopKPayload K shape × TopKSparsifier K :=
  let k := sparsifier.keptCount shape.size
  let rotationSeed := (sparsifier.seed + sparsifier.callCounter) % 2 ^ 31
  let rotated := gradient * signs settings rotationSeed shape.size
  let absVals := fun i => |rotated i|
  let topK := (settings.argpartition.order absVals (shape.size - k)).drop (shape.size - k)
  let topKIdx := (settings.argsort.order (topK.map absVals)).reverse.filterMap fun m => topK[m]?
  ({ values := topKIdx.map rotated
     indices := topKIdx
     rotationSeed := rotationSeed },
    { sparsifier with callCounter := sparsifier.callCounter + 1 })

/-- `decompress`. -/
def decompress (payload : TopKPayload K shape) : Tensor K shape :=
  assign 0 (payload.indices.zip payload.values) *
    signs settings payload.rotationSeed shape.size

end TopKSparsifier

/-- `ErrorFeedbackCompressor` with a `TopKSparsifier`, for layers of certain shapes. -/
structure ErrorFeedbackCompressor (K : Type) [Field K] [LinearOrder K] {nLayers : ℕ}
    (shapes : Fin nLayers → Shape) where
  /-- `compressor`. -/
  compressor : TopKSparsifier K
  /-- `error_memory`. -/
  errorMemory : (layer : Fin nLayers) → Option (Tensor K (shapes layer)) := fun _ => none

namespace ErrorFeedbackCompressor

variable {nLayers : ℕ} {shapes : Fin nLayers → Shape} [FloorRing K]
  (s : ErrorFeedbackCompressor K shapes)

/-- A gradient with the stored error. -/
def corrected (layer : Fin nLayers) (gradient : Tensor K (shapes layer)) :
    Tensor K (shapes layer) :=
  match s.errorMemory layer with
  | some error => gradient + error
  | none => gradient

/-- `compress`, and the compressor after it. -/
def compress (layer : Fin nLayers) (gradient : Tensor K (shapes layer)) :
    TopKPayload K (shapes layer) × ErrorFeedbackCompressor K shapes :=
  let gradient := s.corrected layer gradient
  let (payload, compressor) := s.compressor.compress settings gradient
  let decompressed := TopKSparsifier.decompress settings payload
  (payload,
    { compressor := compressor
      errorMemory := Function.update s.errorMemory layer (some (gradient - decompressed)) })

/-- `__init__`. -/
def init (compressor : TopKSparsifier K) (shapes : Fin nLayers → Shape) :
    ErrorFeedbackCompressor K shapes :=
  { compressor := compressor }

/-- The payloads of some calls, each with its layer, and the compressor after them. -/
def run (s : ErrorFeedbackCompressor K shapes) :
    List ((layer : Fin nLayers) × Tensor K (shapes layer)) →
      List ((layer : Fin nLayers) × TopKPayload K (shapes layer)) ×
        ErrorFeedbackCompressor K shapes
  | [] => ([], s)
  | call :: calls =>
    let (payload, s') := s.compress settings call.1 call.2
    let (payloads, s'') := run s' calls
    (⟨call.1, payload⟩ :: payloads, s'')

end ErrorFeedbackCompressor

end Code

section Selection

/-- The entries at the indices of a list are the list. -/
theorem filterMap_getElem?_range {α : Type*} (l : List α) :
    ((List.range l.length).filterMap fun i => l[i]?) = l := by
  have hget : (List.range l.length).map (fun i => l[i]?) = l.map some := by
    refine List.ext_getElem (by simp) fun i hi hi' => ?_
    rw [List.length_map] at hi'
    rw [List.getElem_map, List.getElem_range, List.getElem_map, List.getElem?_eq_getElem hi']
  calc ((List.range l.length).filterMap fun i => l[i]?)
      = ((List.range l.length).map fun i => l[i]?).filterMap id := by
        rw [List.filterMap_map]
        rfl
    _ = l := by rw [hget, List.filterMap_map, Function.id_comp, List.filterMap_some]

/-- Sorting some entries by their values keeps the entries. -/
theorem Argsort.filterMap_reverse_perm {α K : Type} [LE K] (argsort : Argsort K) (l : List α)
    (f : α → K) : ((argsort.order (l.map f)).reverse.filterMap fun m => l[m]?).Perm l := by
  have hperm := (List.reverse_perm _).trans (argsort.perm (l.map f))
  rw [List.length_map] at hperm
  exact (hperm.filterMap fun m => l[m]?).trans (List.Perm.of_eq (filterMap_getElem?_range l))

variable {K : Type} [LE K] (argpartition : Argpartition K) {n : ℕ} (xs : Fin n → K) {k : ℕ}

/-- The last indices of a partition are of largest values. -/
theorem Argpartition.isLargest_drop (kth : ℕ) :
    IsLargest xs ((argpartition.order xs kth).drop kth).toFinset := by
  intro j hj i hi
  have hmem : i ∈ argpartition.order xs kth :=
    (argpartition.perm xs kth).mem_iff.mpr (List.mem_finRange i)
  rw [← List.take_append_drop kth (argpartition.order xs kth), List.mem_append] at hmem
  rw [List.mem_toFinset] at hi hj
  obtain htake | hdrop := hmem
  · exact argpartition.partitioned xs kth i htake j hj
  · exact absurd hdrop hi

/-- There are as many of them as are asked for, and no two are the same. -/
theorem Argpartition.card_drop (hk : k ≤ n) :
    ((argpartition.order xs (n - k)).drop (n - k)).Nodup ∧
      ((argpartition.order xs (n - k)).drop (n - k)).toFinset.card = k := by
  have hnodup := (argpartition.perm xs (n - k)).nodup_iff.mpr (List.nodup_finRange n)
  have hdrop := hnodup.sublist (List.drop_sublist (n - k) _)
  refine ⟨hdrop, ?_⟩
  rw [List.toFinset_card_of_nodup hdrop, List.length_drop,
    (argpartition.perm xs (n - k)).length_eq, List.length_finRange]
  omega

end Selection

section Payloads

variable {K : Type} [Field K] [LinearOrder K] (settings : CompressionSettings K)

/-- What is kept of a gradient: its entries at certain indices, as many as given, where it is of
largest magnitude, and zero elsewhere. -/
def KeepsLargest {n : ℕ} (k : ℕ) (corrected kept : Fin n → K) : Prop :=
  ∃ s : Finset (Fin n), s.card = k ∧ IsLargest (fun i => |corrected i|) s ∧
    (∀ i ∈ s, kept i = corrected i) ∧ ∀ i ∉ s, kept i = 0

variable [IsStrictOrderedRing K]

omit [IsStrictOrderedRing K] in
theorem signs_mul_signs (rotationSeed : ℤ) {n : ℕ} (i : Fin n) :
    signs settings rotationSeed n i * signs settings rotationSeed n i = 1 := by
  unfold signs
  split_ifs <;> simp

theorem abs_signs (rotationSeed : ℤ) {n : ℕ} (i : Fin n) :
    |signs settings rotationSeed n i| = 1 := by
  unfold signs
  split_ifs <;> simp

variable [FloorRing K] (sparsifier : TopKSparsifier K) {shape : Shape}

/-- No more is kept than there is. -/
theorem TopKSparsifier.keptCount_le {n : ℕ} (hn : 0 < n) : sparsifier.keptCount n ≤ n := by
  unfold TopKSparsifier.keptCount
  refine max_le hn ?_
  rw [Int.toNat_le]
  refine Int.ceil_le.mpr ?_
  rw [Int.cast_natCast]
  exact mul_le_of_le_one_right (Nat.cast_nonneg n) sparsifier.kRatio_le_one

omit [IsStrictOrderedRing K] [FloorRing K] in
/-- The entries of a decompressed payload that lists every index once. -/
theorem TopKSparsifier.decompress_apply (rotated : Tensor K shape) {indices : List (Fin shape.size)}
    (hnodup : indices.Nodup) (rotationSeed : ℤ) (i : Fin shape.size) :
    decompress settings ⟨indices.map rotated, indices, rotationSeed⟩ i =
      if i ∈ indices then rotated i * signs settings rotationSeed shape.size i else 0 := by
  have hzip : indices.zip (indices.map rotated) = indices.map fun i => (i, rotated i) := by
    have hmap := List.zip_map' (f := id) (g := rotated) (l := indices)
    rwa [List.map_id] at hmap
  have hfst : (indices.map fun i => (i, rotated i)).map Prod.fst = indices := by
    rw [List.map_map]
    exact List.map_id indices
  unfold decompress
  rw [Pi.mul_apply]
  dsimp only
  rw [hzip]
  split_ifs with hi
  · have hmem : (i, rotated i) ∈ indices.map fun i => (i, rotated i) :=
      List.mem_map_of_mem hi
    rw [assign_of_mem 0 (by rw [hfst]; exact hnodup) hmem]
  · rw [assign_of_notMem 0 (by rw [hfst]; exact hi), Pi.zero_apply, zero_mul]

/-- What is decompressed from the payload of a gradient keeps its largest entries. -/
theorem TopKSparsifier.keepsLargest_compress (gradient : Tensor K shape) :
    KeepsLargest (sparsifier.keptCount shape.size) gradient
      (decompress settings (sparsifier.compress settings gradient).1) := by
  obtain ⟨k, hk⟩ : ∃ k, k = sparsifier.keptCount shape.size := ⟨_, rfl⟩
  obtain ⟨seed, hseed⟩ : ∃ seed, seed = (sparsifier.seed + sparsifier.callCounter) % 2 ^ 31 :=
    ⟨_, rfl⟩
  obtain ⟨rotated, hrotated⟩ : ∃ rotated : Tensor K shape,
    rotated = gradient * signs settings seed shape.size := ⟨_, rfl⟩
  have habs : (fun i => |rotated i|) = fun i => |gradient i| := by
    funext i
    rw [hrotated, Pi.mul_apply, abs_mul, abs_signs, mul_one]
  obtain ⟨topK, htopK⟩ : ∃ topK, topK = (settings.argpartition.order (fun i => |rotated i|)
    (shape.size - k)).drop (shape.size - k) := ⟨_, rfl⟩
  obtain ⟨indices, hindices⟩ : ∃ indices, indices =
    (settings.argsort.order (topK.map fun i => |rotated i|)).reverse.filterMap fun m => topK[m]? :=
    ⟨_, rfl⟩
  have hcompress : (sparsifier.compress settings gradient).1 =
      ⟨indices.map rotated, indices, seed⟩ := by
    rw [hindices, htopK, hrotated, hseed, hk]
    rfl
  have hperm : indices.Perm topK := by
    rw [hindices]
    exact settings.argsort.filterMap_reverse_perm topK _
  obtain ⟨hnodup, hcard⟩ := settings.argpartition.card_drop (fun i => |rotated i|)
    (show k ≤ shape.size by rw [hk]; exact sparsifier.keptCount_le shape.property)
  have hlargest := settings.argpartition.isLargest_drop (fun i => |rotated i|) (shape.size - k)
  rw [← htopK] at hnodup hcard hlargest
  rw [habs] at hlargest
  rw [hcompress, ← hk]
  refine ⟨topK.toFinset, hcard, hlargest, fun i hi => ?_, fun i hi => ?_⟩
  · rw [decompress_apply settings rotated (hperm.nodup_iff.mpr hnodup),
      if_pos (hperm.mem_iff.mpr (List.mem_toFinset.mp hi)), hrotated, Pi.mul_apply, mul_assoc,
      signs_mul_signs, mul_one]
  · rw [decompress_apply settings rotated (hperm.nodup_iff.mpr hnodup),
      if_neg (mt hperm.mem_iff.mp (mt List.mem_toFinset.mpr hi))]

omit [FloorRing K] in
/-- What is missing where only the largest entries are kept. -/
theorem KeepsLargest.sum_sq_sub_le {n k : ℕ} {corrected kept : Fin n → K} (hn : 0 < n)
    (h : KeepsLargest k corrected kept) :
    ∑ i, (corrected i - kept i) ^ 2 ≤ (1 - (k : K) / n) * ∑ i, corrected i ^ 2 := by
  obtain ⟨s, rfl, hlargest, hin, hout⟩ := h
  have : Nonempty (Fin n) := ⟨⟨0, hn⟩⟩
  have hle := hlargest.sum_sq_sub_le hin hout
  rwa [Fintype.card_fin] at hle

end Payloads

namespace ErrorFeedbackCompressor

variable {K : Type} [Field K] [LinearOrder K] [FloorRing K] (settings : CompressionSettings K)
  {nLayers : ℕ} {shapes : Fin nLayers → Shape} (s : ErrorFeedbackCompressor K shapes)

/-- What has not been sent yet, for each layer. -/
def remembered (s : ErrorFeedbackCompressor K shapes) :
    (layer : Fin nLayers) → Tensor K (shapes layer) :=
  fun layer => (s.errorMemory layer).getD 0

/-- The sum of some arrays, for each layer. -/
def total (arrays : List ((layer : Fin nLayers) × Tensor K (shapes layer))) :
    (layer : Fin nLayers) → Tensor K (shapes layer) :=
  (arrays.map fun x => Pi.single x.1 x.2).sum

/-- The arrays that are decompressed from some payloads. -/
def decompressed (payloads : List ((layer : Fin nLayers) × TopKPayload K (shapes layer))) :
    List ((layer : Fin nLayers) × Tensor K (shapes layer)) :=
  payloads.map fun x => ⟨x.1, TopKSparsifier.decompress settings x.2⟩

omit [FloorRing K] in
theorem corrected_eq (layer : Fin nLayers) (gradient : Tensor K (shapes layer)) :
    s.corrected layer gradient = gradient + s.remembered layer := by
  unfold corrected remembered
  cases s.errorMemory layer with
  | some error => rfl
  | none => exact (add_zero gradient).symm

/-- What is sent for a gradient and what is remembered then are the gradient and what was
remembered. -/
theorem single_decompress_add_remembered (layer : Fin nLayers)
    (gradient : Tensor K (shapes layer)) :
    Pi.single layer (TopKSparsifier.decompress settings (s.compress settings layer gradient).1) +
      (s.compress settings layer gradient).2.remembered =
        Pi.single layer gradient + s.remembered := by
  funext l
  obtain rfl | hl := eq_or_ne l layer
  · have hmemory : (s.compress settings l gradient).2.remembered l =
        s.corrected l gradient -
          TopKSparsifier.decompress settings (s.compress settings l gradient).1 := by
      unfold remembered compress
      dsimp only
      rw [Function.update_self]
      rfl
    rw [Pi.add_apply, Pi.add_apply, Pi.single_eq_same, Pi.single_eq_same, hmemory, corrected_eq,
      add_sub_cancel]
  · have hmemory : (s.compress settings layer gradient).2.remembered l = s.remembered l := by
      unfold remembered compress
      dsimp only
      rw [Function.update_of_ne hl]
    rw [Pi.add_apply, Pi.add_apply, Pi.single_eq_of_ne hl, Pi.single_eq_of_ne hl, hmemory]

/-- What has been sent in some calls and what is remembered after them. -/
theorem total_decompressed_add_remembered
    (calls : List ((layer : Fin nLayers) × Tensor K (shapes layer))) :
    total (decompressed settings (s.run settings calls).1) +
      (s.run settings calls).2.remembered = total calls + s.remembered := by
  induction calls generalizing s with
  | nil => rfl
  | cons call calls ih =>
    have hstep := single_decompress_add_remembered settings s call.1 call.2
    have hrest := ih (s.compress settings call.1 call.2).2
    unfold total decompressed at hrest ⊢
    unfold run
    dsimp only
    rw [List.map_cons, List.map_cons, List.sum_cons, List.map_cons, List.sum_cons, add_assoc,
      hrest, add_left_comm, hstep]
    abel

/-- The ratio never changes. -/
theorem run_kRatio (calls : List ((layer : Fin nLayers) × Tensor K (shapes layer))) :
    (s.run settings calls).2.compressor.kRatio = s.compressor.kRatio := by
  induction calls generalizing s with
  | nil => rfl
  | cons call calls ih => exact ih (s.compress settings call.1 call.2).2

/-- In every run of an `ErrorFeedbackCompressor` with a `TopKSparsifier`, for every layer: what
was sent and what is remembered add up to the gradients. The next payload keeps the largest
entries of the corrected gradient, and what is remembered then is small. -/
theorem run_keeps_gradients [IsStrictOrderedRing K] (sparsifier : TopKSparsifier K)
    {calls : List ((layer : Fin nLayers) × Tensor K (shapes layer))}
    {sent : List ((layer : Fin nLayers) × TopKPayload K (shapes layer))}
    {s : ErrorFeedbackCompressor K shapes}
    (hrun : (init sparsifier shapes).run settings calls = (sent, s)) :
    total (decompressed settings sent) + s.remembered = total calls ∧
      ∀ (layer : Fin nLayers) (gradient : Tensor K (shapes layer)),
        let k := max 1 ⌈((shapes layer).size : K) * sparsifier.kRatio⌉.toNat
        let corrected := gradient + s.remembered layer
        let next := s.compress settings layer gradient
        let kept := TopKSparsifier.decompress settings next.1
        KeepsLargest k corrected kept ∧ next.2.remembered layer = corrected - kept ∧
          ∑ i, (corrected i - kept i) ^ 2 ≤
            (1 - (k : K) / (shapes layer).size) * ∑ i, corrected i ^ 2 := by
  have htotal := total_decompressed_add_remembered settings (init sparsifier shapes) calls
  have hratio := run_kRatio settings (init sparsifier shapes) calls
  rw [hrun] at htotal hratio
  have hstart : (init sparsifier shapes).remembered = 0 := rfl
  rw [hstart, add_zero] at htotal
  refine ⟨htotal, fun layer gradient => ?_⟩
  dsimp only at hratio ⊢
  have hkept := TopKSparsifier.keepsLargest_compress settings s.compressor
    (s.corrected layer gradient)
  have hcount : s.compressor.keptCount (shapes layer).size =
      max 1 ⌈((shapes layer).size : K) * sparsifier.kRatio⌉.toNat := by
    unfold TopKSparsifier.keptCount
    rw [hratio]
    rfl
  rw [hcount, corrected_eq] at hkept
  have hnext : (s.compressor.compress settings (gradient + s.remembered layer)).1 =
      (s.compress settings layer gradient).1 := by
    rw [← corrected_eq]
    rfl
  rw [hnext] at hkept
  refine ⟨hkept, ?_, hkept.sum_sq_sub_le (shapes layer).property⟩
  have hstep := congrFun (single_decompress_add_remembered settings s layer gradient) layer
  rw [Pi.add_apply, Pi.add_apply, Pi.single_eq_same, Pi.single_eq_same] at hstep
  exact eq_sub_of_add_eq' hstep

end ErrorFeedbackCompressor

/-- A partition that sorts. -/
def Argpartition.ofSort (K : Type) [LinearOrder K] : Argpartition K where
  order xs _ := (List.finRange _).insertionSort fun i j => xs i ≤ xs j
  perm xs _ := List.perm_insertionSort _ _
  partitioned xs kth := by
    intro i hi j hj
    have hsorted : ((List.finRange _).insertionSort fun i j => xs i ≤ xs j).Pairwise
        fun i j => xs i ≤ xs j :=
      List.pairwise_insertionSort (fun i j => xs i ≤ xs j) (List.finRange _)
    rw [← List.take_append_drop kth (List.insertionSort _ _), List.pairwise_append] at hsorted
    exact hsorted.2.2 i hi j hj

/-- The functions of numpy, with signs that alternate. -/
private def alternatingSigns : CompressionSettings ℚ where
  argpartition := .ofSort ℚ
  argsort := .stable ℚ
  choice seed _ i := (seed + i.val) % 2 = 0

/-- A compressor that keeps a half. -/
private def halfSparsifier : TopKSparsifier ℚ where
  kRatio := 1 / 2
  seed := 42
  kRatio_pos := by decide +kernel
  kRatio_le_one := by decide +kernel

/-- A layer with three elements. -/
private def threeElements : Fin 1 → Shape := fun _ => ⟨[3], by decide⟩

/-- Two gradients for the layer. -/
private def twoGradients : List ((layer : Fin 1) × Tensor ℚ (threeElements layer)) :=
  [⟨0, fun i => i.val⟩, ⟨0, fun i => 1 - i.val⟩]

open ErrorFeedbackCompressor in
/-- What is sent for the two gradients and what is remembered then. -/
theorem run_keeps_two_gradients :
    total (decompressed alternatingSigns
      ((init halfSparsifier threeElements).run alternatingSigns twoGradients).1) +
        ((init halfSparsifier threeElements).run alternatingSigns twoGradients).2.remembered =
      total twoGradients :=
  (run_keeps_gradients alternatingSigns halfSparsifier rfl).1

end LedgerLens.Federated
