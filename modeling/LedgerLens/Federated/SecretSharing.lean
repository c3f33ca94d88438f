import LedgerLens.Library.Checks
import LedgerLens.Library.Interpolation
import Mathlib.NumberTheory.LucasLehmer

/-!
# Sharing a secret key

`_sss_split` shares each byte of a secret with a random polynomial over the field with
`2 ^ 127 - 1` elements and then keeps only the low byte of every value.
`_sss_reconstruct` interpolates at zero. This file shows that reconstruction is right
where nothing was cut off, and determines the secrets and thresholds for which it is
right whatever is drawn.
-/

namespace LedgerLens.Federated

open Interpolation Polynomial

/-- `_SSS_PRIME`. -/
def sssPrime : ℕ := 2 ^ 127 - 1

/-- The random coefficients: for each byte of the secret, those of `x`, `x ^ 2` and so on. -/
abbrev Draws := ℕ → ℕ → Fin sssPrime

/-- A share: the participant's number and the bytes for it. -/
abbrev Share := ℕ × List UInt8

/-- The polynomial of one byte. -/
def coeffs (draws : Draws) (k byteIdx : ℕ) (byteVal : UInt8) : List ℕ :=
  byteVal.toNat :: (List.range (k - 1)).map fun i => (draws byteIdx i).val

/-- The value of a polynomial at a participant's number. -/
def shareValue (coeffs : List ℕ) (x : ℕ) : ℤ :=
  (coeffs.zipIdx.map fun c => (c.1 : ℤ) * powMod x c.2 sssPrime).sum % sssPrime

/-- The bytes of one share: of each value the remainder modulo 256. -/
def shareBytes (draws : Draws) (secretBytes : List UInt8) (k x : ℕ) : List UInt8 :=
  secretBytes.mapIdx fun byteIdx byteVal =>
    UInt8.ofNat ((shareValue (coeffs draws k byteIdx byteVal) x % 256).toNat)

/-- `_sss_split`. -/
def sssSplit (draws : Draws) (secretBytes : List UInt8) (k n : ℕ) : List Share :=
  (List.range n).map fun i => (i + 1, shareBytes draws secretBytes k (i + 1))

/-- Numerator and denominator of one Lagrange term: the loop over the other points. -/
def lagrangeTerm (points : List (ℤ × ℤ)) (i : ℕ) (xi yi : ℤ) : ℤ × ℤ :=
  points.zipIdx.foldl (fun numDen point =>
    if i ≠ point.2 then
      (numDen.1 * -point.1.1 % sssPrime, numDen.2 * (xi - point.1.1) % sssPrime)
    else numDen) (yi, 1)

/-- Interpolation at zero: the loop over all points. -/
def secretByte (points : List (ℤ × ℤ)) : ℤ :=
  points.zipIdx.foldl (fun sum point =>
    let numDen := lagrangeTerm points point.2 point.1.1 point.1.2
    (sum + numDen.1 * powMod numDen.2 (sssPrime - 2) sssPrime) % sssPrime) 0

/-- The points that the shares give for one byte; indexing past a share's end raises. -/
def bytePoints (shares : List Share) (byteIdx : ℕ) : Except String (List (ℤ × ℤ)) :=
  shares.mapM fun share =>
    match share.2[byteIdx]? with
    | none => .error "index out of range"
    | some byte => .ok ((share.1 : ℤ), (byte.toNat : ℤ))

/-- `_sss_reconstruct`. -/
def sssReconstruct (shares : List Share) : Except String (List UInt8) :=
  match shares with
  | [] => .error "No shares provided for reconstruction"
  | first :: _ =>
    (List.range first.2.length).mapM fun byteIdx => do
      let points ← bytePoints shares byteIdx
      return UInt8.ofNat ((secretByte points % 256).toNat)

instance : Fact sssPrime.Prime :=
  ⟨lucas_lehmer_sufficiency 127 (by norm_num) (by norm_num)⟩

theorem sssPrime_gt : 2 ^ 126 < sssPrime := by
  norm_num [sssPrime]

/-- The polynomial over the field with given coefficients, lowest first. -/
noncomputable def sharePoly (coeffs : List ℕ) : (ZMod sssPrime)[X] :=
  (coeffs.zipIdx.map fun c => C (c.1 : ZMod sssPrime) * X ^ c.2).sum

/-- A share's value is that of the polynomial. -/
theorem cast_shareValue (coeffs : List ℕ) (x : ℕ) :
    ((shareValue coeffs x : ℤ) : ZMod sssPrime) = (sharePoly coeffs).eval (x : ZMod sssPrime) := by
  unfold shareValue sharePoly
  rw [ZMod.intCast_mod, eval_listSum, List.map_map, Int.cast_list_sum, List.map_map]
  congr 1
  apply List.map_congr_left
  intro c _
  simp [cast_powMod]

/-- There are fewer powers than coefficients. -/
theorem degree_sharePoly (coeffs : List ℕ) : (sharePoly coeffs).degree < coeffs.length := by
  rw [← mem_degreeLT]
  apply list_sum_mem
  intro term hterm
  obtain ⟨c, hc, rfl⟩ := List.mem_map.mp hterm
  rw [mem_degreeLT]
  have hindex := (List.mem_zipIdx hc).2.1
  refine lt_of_le_of_lt (degree_C_mul_X_pow_le _ _) ?_
  exact_mod_cast (by omega : c.2 < coeffs.length)

/-- The polynomial's value at zero is its first coefficient. -/
theorem eval_sharePoly_zero (c : ℕ) (coeffs : List ℕ) : (sharePoly (c :: coeffs)).eval 0 = c := by
  unfold sharePoly
  rw [eval_listSum, List.map_map, List.zipIdx_cons, List.map_cons, List.sum_cons,
    List.sum_eq_zero]
  · simp
  · intro value hvalue
    obtain ⟨d, hd, rfl⟩ := List.mem_map.mp hvalue
    have hindex := (List.mem_zipIdx hd).1
    simp [zero_pow (show d.2 ≠ 0 by omega)]

/-- A polynomial without quadratic and higher terms. -/
theorem eval_sharePoly_linear (c₀ c₁ : ℕ) {rest : List ℕ} (hrest : ∀ c ∈ rest, c = 0)
    (x : ZMod sssPrime) : (sharePoly (c₀ :: c₁ :: rest)).eval x = c₀ + c₁ * x := by
  unfold sharePoly
  rw [eval_listSum, List.map_map, List.zipIdx_cons, List.zipIdx_cons, List.map_cons,
    List.map_cons, List.sum_cons, List.sum_cons, List.sum_eq_zero]
  · simp
  · intro value hvalue
    obtain ⟨d, hd, rfl⟩ := List.mem_map.mp hvalue
    have hzero : d.1 = 0 := hrest _ (List.fst_mem_of_mem_zipIdx hd)
    simp [hzero]

/-- A share's value is reduced. -/
theorem shareValue_mem (coeffs : List ℕ) (x : ℕ) :
    0 ≤ shareValue coeffs x ∧ shareValue coeffs x < sssPrime := by
  have hp : (0 : ℤ) < sssPrime := by norm_num [sssPrime]
  exact ⟨Int.emod_nonneg _ hp.ne', Int.emod_lt_of_pos _ hp⟩

/-- Two reduced integers with the same remainder are equal. -/
theorem eq_of_cast_eq {a b : ℤ} (ha : 0 ≤ a ∧ a < sssPrime) (hb : 0 ≤ b ∧ b < sssPrime)
    (h : (a : ZMod sssPrime) = (b : ZMod sssPrime)) : a = b := by
  have hmod := (ZMod.intCast_eq_intCast_iff a b sssPrime).mp h
  rw [Int.ModEq, Int.emod_eq_of_lt ha.1 ha.2, Int.emod_eq_of_lt hb.1 hb.2] at hmod
  exact hmod

/-- The loop over the other points multiplies their factors. -/
theorem cast_lagrangeTerm (points : List (ℤ × ℤ)) (i : ℕ) (xi yi : ℤ) :
    (((lagrangeTerm points i xi yi).1 : ℤ) : ZMod sssPrime) =
        yi * (points.zipIdx.map fun point =>
          if i ≠ point.2 then -(point.1.1 : ZMod sssPrime) else 1).prod ∧
      (((lagrangeTerm points i xi yi).2 : ℤ) : ZMod sssPrime) =
        (points.zipIdx.map fun point =>
          if i ≠ point.2 then (xi : ZMod sssPrime) - point.1.1 else 1).prod := by
  have hfold := cast_foldl_mul (p := sssPrime)
    (fun numDen point =>
      if i ≠ point.2 then
        (numDen.1 * -point.1.1 % sssPrime, numDen.2 * (xi - point.1.1) % sssPrime)
      else numDen)
    (fun point : (ℤ × ℤ) × ℕ =>
      if i ≠ point.2 then -(point.1.1 : ZMod sssPrime) else 1)
    (fun point => if i ≠ point.2 then (xi : ZMod sssPrime) - point.1.1 else 1)
    (by intro acc point; split_ifs <;> simp [ZMod.intCast_mod])
    (by intro acc point; split_ifs <;> simp [ZMod.intCast_mod]) points.zipIdx (yi, 1)
  simpa [lagrangeTerm] using hfold

/-- A product in which one place is left out. -/
theorem prod_zipIdx_ne (points : List (ℤ × ℤ)) (i : Fin points.length)
    (factor : ℤ × ℤ → ZMod sssPrime) :
    (points.zipIdx.map fun point => if (i : ℕ) ≠ point.2 then factor point.1 else 1).prod =
      ∏ j ∈ Finset.univ.erase i, factor points[j] := by
  rw [prod_map_zipIdx, ← Finset.filter_ne', Finset.prod_filter]
  apply Finset.prod_congr rfl
  intro j _
  simp [Fin.ext_iff, eq_comm]

/-- The two loops compute the interpolation at zero. -/
theorem cast_secretByte (points : List (ℤ × ℤ)) :
    ((secretByte points : ℤ) : ZMod sssPrime) =
      (Lagrange.interpolate Finset.univ (fun i : Fin points.length => (points[i].1 : ZMod sssPrime))
        fun i => (points[i].2 : ZMod sssPrime)).eval 0 := by
  have hfold := cast_foldl_add (p := sssPrime)
    (fun sum point =>
      (sum + (lagrangeTerm points point.2 point.1.1 point.1.2).1 *
        powMod (lagrangeTerm points point.2 point.1.1 point.1.2).2 (sssPrime - 2) sssPrime)
          % sssPrime)
    (fun point : (ℤ × ℤ) × ℕ =>
      ((lagrangeTerm points point.2 point.1.1 point.1.2).1 : ZMod sssPrime) *
        ((lagrangeTerm points point.2 point.1.1 point.1.2).2 : ZMod sssPrime)⁻¹)
    (by
      intro acc point
      rw [ZMod.intCast_mod, Int.cast_add, Int.cast_mul, cast_powMod,
        pow_sub_two (by norm_num [sssPrime])]) points.zipIdx 0
  unfold secretByte
  rw [hfold, Int.cast_zero, zero_add, sum_map_zipIdx, eval_interpolate_zero]
  apply Finset.sum_congr rfl
  intro i _
  obtain ⟨hnum, hden⟩ := cast_lagrangeTerm points i points[i].1 points[i].2
  have hnum' := prod_zipIdx_ne points i fun point => -(point.1 : ZMod sssPrime)
  have hden' := prod_zipIdx_ne points i fun point => (points[i].1 : ZMod sssPrime) - point.1
  dsimp only at hnum' hden' ⊢
  rw [hnum, hden, hnum', hden', mul_assoc, ← Finset.prod_inv_distrib, ← Finset.prod_mul_distrib]

/-- What the outer loop returns is reduced. -/
theorem secretByte_mem (points : List (ℤ × ℤ)) :
    0 ≤ secretByte points ∧ secretByte points < sssPrime := by
  have hp : (0 : ℤ) < sssPrime := by norm_num [sssPrime]
  unfold secretByte
  apply List.foldlRecOn (motive := fun sum : ℤ => 0 ≤ sum ∧ sum < sssPrime) _ _ ⟨le_rfl, hp⟩
  intro sum _ point _
  exact ⟨Int.emod_nonneg _ hp.ne', Int.emod_lt_of_pos _ hp⟩

/-- Interpolation gives back a byte when the points lie on a polynomial of low degree
whose value at zero is the byte. -/
theorem secretByte_of_poly {points : List (ℤ × ℤ)}
    (hnodes : (points.map fun point => (point.1 : ZMod sssPrime)).Nodup)
    {f : (ZMod sssPrime)[X]} (hdegree : f.degree < points.length)
    (hvalues : ∀ point ∈ points, f.eval (point.1 : ZMod sssPrime) = point.2)
    {y : ℤ} (hy : 0 ≤ y ∧ y < sssPrime) (hzero : f.eval 0 = y) : secretByte points = y := by
  have hinj : Set.InjOn (fun i : Fin points.length => (points[i].1 : ZMod sssPrime))
      ((Finset.univ : Finset (Fin points.length)) : Set (Fin points.length)) := by
    intro i _ j _ hij
    have hget (a b : Fin (points.map fun point => (point.1 : ZMod sssPrime)).length)
        (h : List.get _ a = List.get _ b) : a = b := List.nodup_iff_injective_get.mp hnodes h
    have hsame := hget ⟨i, by simp⟩ ⟨j, by simp⟩ (by simpa using hij)
    simpa [Fin.ext_iff] using hsame
  have hinterp := Lagrange.eq_interpolate_of_eval_eq
    (fun i : Fin points.length => (points[i].2 : ZMod sssPrime)) hinj (by simpa using hdegree)
    (fun i _ => hvalues _ (List.getElem_mem i.2))
  apply eq_of_cast_eq (secretByte_mem points) hy
  rw [cast_secretByte, ← hinterp, hzero]

section Split

variable {draws : Draws} {secret : List UInt8} {k n : ℕ} {xs : List ℕ}

/-- The shares of some participants. -/
def sharesOf (draws : Draws) (secret : List UInt8) (k : ℕ) (xs : List ℕ) : List Share :=
  xs.map fun x => (x, shareBytes draws secret k x)

/-- The points that some participants' shares give for a byte. -/
def truncatedPoints (draws : Draws) (k : ℕ) (xs : List ℕ) (byteIdx : ℕ) (byteVal : UInt8) :
    List (ℤ × ℤ) :=
  xs.map fun (x : ℕ) => ((x : ℤ), shareValue (coeffs draws k byteIdx byteVal) x % 256)

theorem bytePoints_sharesOf {byteIdx : ℕ} (byteVal : UInt8)
    (h : secret[byteIdx]? = some byteVal) :
    bytePoints (sharesOf draws secret k xs) byteIdx =
      .ok (truncatedPoints draws k xs byteIdx byteVal) := by
  unfold bytePoints sharesOf truncatedPoints
  rw [List.mapM_map]
  apply Except.mapM_eq_ok
  intro x _
  have hnonneg : 0 ≤ shareValue (coeffs draws k byteIdx byteVal) x % 256 := by omega
  have hlt : shareValue (coeffs draws k byteIdx byteVal) x % 256 < 256 := by omega
  simp only [Function.comp_apply, shareBytes, List.getElem?_mapIdx, h, Option.map_some,
    UInt8.toNat_ofNat']
  rw [Nat.mod_eq_of_lt (by omega), Int.toNat_of_nonneg hnonneg]

/-- What is reconstructed from the shares of some participants. -/
theorem sssReconstruct_sharesOf (hne : xs ≠ []) :
    sssReconstruct (sharesOf draws secret k xs) =
      .ok (secret.mapIdx fun byteIdx byteVal =>
        UInt8.ofNat ((secretByte (truncatedPoints draws k xs byteIdx byteVal) % 256).toNat)) := by
  obtain ⟨x, rest, rfl⟩ := List.exists_cons_of_ne_nil hne
  have hlength : (shareBytes draws secret k x).length = secret.length := by simp [shareBytes]
  have hbyte : ∀ byteIdx ∈ List.range secret.length,
      (do let points ← bytePoints (sharesOf draws secret k (x :: rest)) byteIdx
          return UInt8.ofNat ((secretByte points % 256).toNat) : Except String UInt8) =
        .ok (UInt8.ofNat ((secretByte (truncatedPoints draws k (x :: rest) byteIdx
          (secret.getD byteIdx 0)) % 256).toNat)) := by
    intro byteIdx hmem
    have hlt := List.mem_range.mp hmem
    rw [bytePoints_sharesOf (secret.getD byteIdx 0) (by simp [hlt])]
    rfl
  have hmapM := Except.mapM_eq_ok hbyte
  unfold sssReconstruct
  rw [sharesOf, List.map_cons]
  dsimp only
  rw [hlength]
  refine hmapM.trans ?_
  congr 1
  apply List.ext_getElem <;> simp +contextual

/-- Shares that come from a split are those of their participants. -/
theorem eq_sharesOf {shares : List Share}
    (h : ∀ share ∈ shares, share ∈ sssSplit draws secret k n) :
    shares = sharesOf draws secret k (shares.map Prod.fst) ∧
      ∀ x ∈ shares.map Prod.fst, 1 ≤ x ∧ x ≤ n := by
  have hshare : ∀ share ∈ shares,
      share = (share.1, shareBytes draws secret k share.1) ∧ 1 ≤ share.1 ∧ share.1 ≤ n := by
    intro share hmem
    obtain ⟨i, hi, rfl⟩ := List.mem_map.mp (h share hmem)
    have hlt := List.mem_range.mp hi
    exact ⟨rfl, by simp, hlt⟩
  constructor
  · rw [sharesOf, List.map_map]
    conv_lhs => rw [← List.map_id shares]
    apply List.map_congr_left
    intro share hmem
    exact (hshare share hmem).1
  · intro x hx
    obtain ⟨share, hmem, rfl⟩ := List.mem_map.mp hx
    exact (hshare share hmem).2

/-- Participants' numbers are different field elements. -/
theorem nodup_cast (hnodup : xs.Nodup) (hxs : ∀ x ∈ xs, x ≤ 50) (f : ℕ → ℤ) :
    ((xs.map fun (x : ℕ) => ((x : ℤ), f x)).map fun point => (point.1 : ZMod sssPrime)).Nodup := by
  rw [List.map_map]
  apply List.Nodup.map_on _ hnodup
  intro x hx y hy hxy
  have hcast : (((x : ℤ) : ℤ) : ZMod sssPrime) = (((y : ℤ) : ℤ) : ZMod sssPrime) := hxy
  have hp := sssPrime_gt
  have hx50 := hxs x hx
  have hy50 := hxs y hy
  exact_mod_cast eq_of_cast_eq ⟨by omega, by omega⟩ ⟨by omega, by omega⟩ hcast

/-- A byte comes back when none of the values used was cut off. -/
theorem secretByte_of_untruncated {byteIdx : ℕ} {byteVal : UInt8} (hk : 1 ≤ k)
    (hnodup : xs.Nodup) (hxs : ∀ x ∈ xs, x ≤ 50) (hlength : k ≤ xs.length)
    (hsmall : ∀ x ∈ xs, shareValue (coeffs draws k byteIdx byteVal) x < 256) :
    secretByte (truncatedPoints draws k xs byteIdx byteVal) = byteVal.toNat := by
  have hp := sssPrime_gt
  have hbyte := byteVal.toNat_lt
  apply secretByte_of_poly (nodup_cast hnodup hxs _)
    (f := sharePoly (coeffs draws k byteIdx byteVal))
  · refine lt_of_lt_of_le (degree_sharePoly _) ?_
    simp only [coeffs, List.length_cons, List.length_map, List.length_range]
    exact_mod_cast (by omega : k - 1 + 1 ≤ xs.length)
  · intro point hpoint
    obtain ⟨x, hx, rfl⟩ := List.mem_map.mp hpoint
    have hnonneg := (shareValue_mem (coeffs draws k byteIdx byteVal) x).1
    dsimp only
    rw [Int.emod_eq_of_lt hnonneg (hsmall x hx), cast_shareValue]
    simp
  · exact ⟨by omega, by omega⟩
  · simpa [coeffs] using eval_sharePoly_zero byteVal.toNat _

/-- Interpolating one and the same value gives that value. -/
theorem secretByte_const (hne : xs ≠ []) (hnodup : xs.Nodup) (hxs : ∀ x ∈ xs, x ≤ 50) {y : ℤ}
    (hy : 0 ≤ y ∧ y < sssPrime) : secretByte (xs.map fun (x : ℕ) => ((x : ℤ), y)) = y := by
  apply secretByte_of_poly (nodup_cast hnodup hxs _) (f := C (y : ZMod sssPrime)) _ _ hy
  · simp
  · refine lt_of_le_of_lt degree_C_le ?_
    rw [List.length_map]
    exact_mod_cast List.length_pos_of_ne_nil hne
  · intro point hpoint
    obtain ⟨x, _, rfl⟩ := List.mem_map.mp hpoint
    simp

/-- With threshold one every share of a byte is the byte. -/
theorem shareValue_threshold_one {byteIdx x : ℕ} {byteVal : UInt8} :
    shareValue (coeffs draws 1 byteIdx byteVal) x = byteVal.toNat := by
  have hp := sssPrime_gt
  have hbyte := byteVal.toNat_lt
  apply eq_of_cast_eq (shareValue_mem _ _) ⟨by omega, by omega⟩
  rw [cast_shareValue]
  simp [coeffs, sharePoly]

/-- Draws whose polynomials all fall by 256 from one participant to the next. -/
def fallingDraws : Draws := fun _ i =>
  if i = 0 then ⟨sssPrime - 256, by norm_num [sssPrime]⟩ else ⟨0, by norm_num [sssPrime]⟩

/-- Such a value has wrapped around the prime, whose low byte is 255. -/
theorem shareValue_fallingDraws {byteIdx x : ℕ} {byteVal : UInt8} (hk : 2 ≤ k) (hx : 1 ≤ x)
    (hx50 : x ≤ 50) :
    shareValue (coeffs fallingDraws k byteIdx byteVal) x =
      byteVal.toNat - 256 * x + sssPrime := by
  have hp := sssPrime_gt
  have hbyte := byteVal.toNat_lt
  apply eq_of_cast_eq (shareValue_mem _ _) ⟨by omega, by omega⟩
  obtain ⟨m, rfl⟩ : ∃ m, k = m + 2 := ⟨k - 2, by omega⟩
  have hcoeffs : coeffs fallingDraws (m + 2) byteIdx byteVal =
      byteVal.toNat :: (sssPrime - 256) :: (List.range m).map fun _ => 0 := by
    simp [coeffs, fallingDraws, List.range_succ_eq_map, Function.comp_def]
  rw [cast_shareValue, hcoeffs, eval_sharePoly_linear _ _ (by simp),
    Nat.cast_sub (by omega)]
  push_cast
  rw [ZMod.natCast_self]
  ring

/-- The falling polynomials give every participant the byte before the secret one. -/
theorem secretByte_fallingDraws {byteIdx : ℕ} {byteVal : UInt8} (hk : 2 ≤ k) (hne : xs ≠ [])
    (hnodup : xs.Nodup) (hxs : ∀ x ∈ xs, 1 ≤ x ∧ x ≤ 50) :
    secretByte (truncatedPoints fallingDraws k xs byteIdx byteVal) =
      (byteVal.toNat + 255) % 256 := by
  have hp := sssPrime_gt
  have hlow : (sssPrime : ℤ) % 256 = 255 := by norm_num [sssPrime]
  have hpoints : truncatedPoints fallingDraws k xs byteIdx byteVal =
      xs.map fun (x : ℕ) => ((x : ℤ), ((byteVal.toNat : ℤ) + 255) % 256) := by
    apply List.map_congr_left
    intro x hx
    rw [shareValue_fallingDraws hk (hxs x hx).1 (hxs x hx).2]
    congr 1
    omega
  rw [hpoints]
  exact secretByte_const hne hnodup (fun x hx => (hxs x hx).2) ⟨by omega, by omega⟩

/-- Whatever is drawn, any set of at least `k` different shares gives back the secret. -/
def Reconstructs (secret : List UInt8) (k n : ℕ) : Prop :=
  ∀ (draws : Draws) (shares : List Share), shares.Nodup →
    (∀ share ∈ shares, share ∈ sssSplit draws secret k n) → k ≤ shares.length →
      sssReconstruct shares = .ok secret

/-- Different shares of a split belong to different participants. -/
theorem nodup_participants {shares : List Share} (hnodup : shares.Nodup)
    (h : shares = sharesOf draws secret k (shares.map Prod.fst)) :
    (shares.map Prod.fst).Nodup := by
  rw [h, sharesOf] at hnodup
  exact List.Nodup.of_map _ hnodup

/-- The secret comes back whatever is drawn exactly when one share is enough or there is
nothing to share. -/
theorem reconstructs_iff (hk : 1 ≤ k) (hkn : k ≤ n) (hn : n ≤ 50) :
    Reconstructs secret k n ↔ k = 1 ∨ secret = [] := by
  constructor
  · intro h
    by_contra hnot
    rw [not_or] at hnot
    obtain ⟨byteVal, rest, rfl⟩ := List.exists_cons_of_ne_nil hnot.2
    -- the first `k` participants all hold the byte before the secret one
    have hmem : ∀ x ∈ List.range' 1 k, 1 ≤ x ∧ x ≤ k := by
      intro x hx
      have := List.mem_range'_1.mp hx
      omega
    have hne : List.range' 1 k ≠ [] := by simp; omega
    have hrec := h fallingDraws (sharesOf fallingDraws (byteVal :: rest) k (List.range' 1 k))
      (List.Nodup.of_map Prod.fst (by
        rw [sharesOf, List.map_map]
        simpa [Function.comp_def] using List.nodup_range'))
      (by
        intro share hshare
        obtain ⟨x, hx, rfl⟩ := List.mem_map.mp hshare
        have hbound := hmem x hx
        exact List.mem_map.mpr ⟨x - 1, List.mem_range.mpr (by omega),
          by rw [Nat.sub_add_cancel hbound.1]⟩)
      (by simp [sharesOf])
    rw [sssReconstruct_sharesOf hne] at hrec
    have hhead := congrArg List.head? (Except.ok.inj hrec)
    simp only [List.mapIdx_cons, List.head?_cons, Option.some.injEq] at hhead
    rw [secretByte_fallingDraws (by omega) hne List.nodup_range'
      (fun x hx => ⟨(hmem x hx).1, by have := hmem x hx; omega⟩)] at hhead
    have hnat := congrArg UInt8.toNat hhead
    rw [UInt8.toNat_ofNat'] at hnat
    have hbyte := byteVal.toNat_lt
    omega
  · intro hcase draws shares hnodup hmem hlength
    obtain ⟨heq, hbounds⟩ := eq_sharesOf hmem
    have hxs := nodup_participants hnodup heq
    have hne : shares.map Prod.fst ≠ [] := by
      intro hnil
      have := congrArg List.length hnil
      simp only [List.length_map, List.length_nil] at this
      omega
    rw [heq, sssReconstruct_sharesOf hne]
    rcases hcase with rfl | rfl
    · congr 1
      apply List.ext_getElem
      · simp
      · intro i _ hi
        have hbyte := secret[i].toNat_lt
        rw [List.getElem_mapIdx, secretByte_of_untruncated le_rfl hxs
          (fun x hx => (hbounds x hx).2.trans hn) (by simpa using hlength)
          (fun x _ => by rw [shareValue_threshold_one]; omega)]
        apply UInt8.toNat_inj.mp
        rw [UInt8.toNat_ofNat']
        omega
    · rfl

end Split

/-- Two of three participants get 99 back for the secret byte 100. -/
theorem not_reconstructs_two_of_three : ¬Reconstructs [100] 2 3 := by
  intro h
  have hrec := congrArg Except.toOption
    (h fallingDraws ((sssSplit fallingDraws [100] 2 3).take 2) (by decide +kernel)
      (fun _ => List.mem_of_mem_take) (by decide +kernel))
  exact absurd hrec (by decide +kernel)

/-- Every participant alone can recover a byte that is shared with threshold one. -/
theorem reconstructs_one_of_three : Reconstructs [100] 1 3 :=
  (reconstructs_iff le_rfl (by decide) (by decide)).mpr (Or.inl rfl)

end LedgerLens.Federated
