import LedgerLens.Integrations.BridgeAttestation
import LedgerLens.Library.PositionalNotation
import Mathlib.Data.Bool.AllAny
import Mathlib.Data.Nat.Size

/-!
# Base58

The resolver of Solana addresses writes bytes in base 58, with a `1` for each zero byte that they
begin with. This file shows that its two functions undo each other.
-/

namespace LedgerLens.Detection.Solana

open Integrations (toBigEndian ofBigEndian)
open PositionalNotation

/-- A string of bytes. -/
abbrev Bytes := List UInt8

/-- `SolanaValidationError`. -/
inductive SolanaValidationError where
  /-- `Invalid base58 character`. -/
  | invalidCharacter (ch : Char)
  /-- `Solana public key must be 32 bytes`. -/
  | pubkeyLength (got : ℕ)
  /-- `At most 16 seeds are allowed`. -/
  | tooManySeeds
  /-- `Seed longer than 32 bytes`. -/
  | seedLength
  /-- `Unable to find a viable program address bump seed`. -/
  | noBump
  deriving DecidableEq

/-- `_BASE58_ALPHABET`. -/
def base58Alphabet : List Char :=
  "123456789ABCDEFGHJKLMNPQRSTUVWXYZabcdefghijkmnopqrstuvwxyz".toList

/-- `_BASE58_INDEX`. -/
def base58Index (ch : Char) : Option ℕ :=
  if ch ∈ base58Alphabet then some (base58Alphabet.idxOf ch) else none

/-- The loop of `base58_decode`. -/
def base58Value : List Char → ℕ → Except SolanaValidationError ℕ
  | [], n => .ok n
  | ch :: rest, n =>
    match base58Index ch with
    | none => .error (.invalidCharacter ch)
    | some i => base58Value rest (n * 58 + i)

/-- `base58_decode`. -/
def base58Decode (value : String) : Except SolanaValidationError Bytes :=
  match base58Value value.toList 0 with
  | .error e => .error e
  | .ok n =>
    let body := if n = 0 then [] else toBigEndian ((n.size + 7) / 8) n
    let pad := value.toList.length - (value.toList.dropWhile (· = '1')).length
    .ok (List.replicate pad 0 ++ body)

/-- The loop of `base58_encode`: what is appended to `out`. -/
def base58Out (n : ℕ) : List Char :=
  if n = 0 then [] else base58Alphabet.getD (n % 58) '1' :: base58Out (n / 58)
termination_by n
decreasing_by omega

/-- `base58_encode`. -/
def base58Encode (raw : Bytes) : String :=
  let n := ofBigEndian raw
  let pad := raw.length - (raw.dropWhile (· = 0)).length
  String.ofList (List.replicate pad '1' ++ (base58Out n).reverse)

/-- The character of a digit. -/
def base58Char (d : ℕ) : Char := base58Alphabet.getD d '1'

theorem base58Index_char {d : ℕ} (hd : d < 58) : base58Index (base58Char d) = some d := by
  have hall : ∀ d : Fin 58, base58Index (base58Char d) = some d.val := by decide +kernel
  exact hall ⟨d, hd⟩

theorem base58Char_inj {d e : ℕ} (hd : d < 58) (he : e < 58) (h : base58Char d = base58Char e) :
    d = e := by
  have hindex := congrArg base58Index h
  rwa [base58Index_char hd, base58Index_char he, Option.some.injEq] at hindex

/-- Characters of the alphabet are those of digits. -/
theorem exists_base58Char {ch : Char} (h : ch ∈ base58Alphabet) : ∃ d < 58, base58Char d = ch := by
  have hlt := List.idxOf_lt_length_iff.mpr h
  refine ⟨base58Alphabet.idxOf ch, hlt, ?_⟩
  rw [base58Char, List.getD_eq_getElem _ _ hlt, List.getElem_idxOf]

/-- The loop of `base58_encode` gives the digits, the least significant one first. -/
theorem base58Out_eq (n : ℕ) : base58Out n = (Nat.digits 58 n).map base58Char := by
  fun_induction base58Out n with
  | case1 => rfl
  | case2 n hn ih =>
    rw [Nat.digits_def' (by omega) (Nat.pos_of_ne_zero hn), List.map_cons, ih, base58Char]

/-- What is stripped of a list is what it begins with. -/
theorem length_sub_dropWhile {α : Type} (p : α → Bool) (xs : List α) :
    xs.length - (xs.dropWhile p).length = (xs.takeWhile p).length := by
  have hlength := congrArg List.length (List.takeWhile_append_dropWhile (p := p) (l := xs))
  rw [List.length_append] at hlength
  omega

/-- Encoding writes the bytes as digits in base 58. -/
theorem toList_base58Encode (raw : Bytes) :
    (base58Encode raw).toList = (recode 256 58 (raw.map UInt8.toNat)).map base58Char := by
  have hvalue : ofBigEndian raw = value 256 (raw.map UInt8.toNat) := by
    unfold ofBigEndian value
    rw [List.foldl_map]
  have hzeros : leadingZeros (raw.map UInt8.toNat) = (raw.takeWhile (· = 0)).length := by
    unfold leadingZeros
    rw [List.takeWhile_map, List.length_map]
    congr 2
    funext b
    exact decide_eq_decide.mpr (UInt8.toNat_inj (b := 0))
  unfold base58Encode recode numeral
  rw [String.toList_ofList, length_sub_dropWhile, base58Out_eq, hvalue, hzeros, List.map_append,
    List.map_replicate, List.map_reverse]
  rfl

/-- The loop of `base58_decode` over digits. -/
theorem base58Value_map {ds : List ℕ} (hds : ∀ d ∈ ds, d < 58) (n : ℕ) :
    base58Value (ds.map base58Char) n = .ok (ds.foldl (fun n d => n * 58 + d) n) := by
  induction ds generalizing n with
  | nil => rfl
  | cons d ds ih =>
    rw [List.map_cons, base58Value, base58Index_char (hds d List.mem_cons_self)]
    exact ih (fun e he => hds e (List.mem_cons_of_mem _ he)) _

theorem toLittleEndian_digits (n : ℕ) :
    Integrations.Keccak256.toLittleEndian (Nat.digits 256 n).length n =
      (Nat.digits 256 n).map UInt8.ofNat := by
  induction n using Nat.strongRecOn with
  | ind n ih =>
    by_cases hn : n = 0
    · subst hn
      rfl
    · rw [Nat.digits_def' (by omega) (Nat.pos_of_ne_zero hn), List.length_cons, List.map_cons,
        Integrations.Keccak256.toLittleEndian, ih (n / 256) (by omega)]

/-- The bytes that a number takes are its digits in base 256. -/
theorem toBigEndian_size (n : ℕ) :
    toBigEndian ((n.size + 7) / 8) n = (numeral 256 n).map UInt8.ofNat := by
  have hbits : ∀ k, n < 256 ^ k ↔ n.size ≤ 8 * k := fun k => by
    rw [Nat.size_le, pow_mul]
    norm_num
  have hlength : (Nat.digits 256 n).length = (n.size + 7) / 8 := by
    apply le_antisymm
    · rw [Nat.digits_length_le_iff (by omega), hbits]
      omega
    · have hlt := (Nat.digits_length_le_iff (b := 256) (by omega) n).mp le_rfl
      rw [hbits] at hlt
      omega
  rw [toBigEndian, ← hlength, toLittleEndian_digits, numeral, List.map_reverse]

/-- The zeros that digits begin with are the ones that their characters begin with. -/
theorem length_takeWhile_one {ds : List ℕ} (hds : ∀ d ∈ ds, d < 58) :
    ((ds.map base58Char).takeWhile (· = '1')).length = leadingZeros ds := by
  unfold leadingZeros
  induction ds with
  | nil => rfl
  | cons d ds ih =>
    have hrest := ih fun e he => hds e (List.mem_cons_of_mem _ he)
    by_cases hd : d = 0
    · subst hd
      rw [List.map_cons, List.takeWhile_cons_of_pos (by decide),
        List.takeWhile_cons_of_pos (by decide), List.length_cons, List.length_cons, hrest]
    · have hchar : base58Char d ≠ '1' := fun h =>
        hd (base58Char_inj (hds d List.mem_cons_self) (by omega) h)
      rw [List.map_cons, List.takeWhile_cons_of_neg (by simpa using hchar),
        List.takeWhile_cons_of_neg (by simpa using hd), List.length_nil, List.length_nil]

/-- Decoding writes digits in base 58 as bytes. -/
theorem base58Decode_eq {s : String} {ds : List ℕ} (hds : ∀ d ∈ ds, d < 58)
    (hs : s.toList = ds.map base58Char) :
    base58Decode s = .ok ((recode 58 256 ds).map UInt8.ofNat) := by
  have hvalue : base58Value s.toList 0 = .ok (value 58 ds) := by
    rw [hs, base58Value_map hds]
    rfl
  have hbody : (if value 58 ds = 0 then [] else
      toBigEndian (((value 58 ds).size + 7) / 8) (value 58 ds)) =
      (numeral 256 (value 58 ds)).map UInt8.ofNat := by
    split_ifs with hzero
    · rw [hzero]
      rfl
    · exact toBigEndian_size _
  unfold base58Decode recode
  rw [hvalue, length_sub_dropWhile, hs, length_takeWhile_one hds]
  dsimp only
  rw [hbody, List.map_append, List.map_replicate]
  rfl

/-- Bytes are digits. -/
theorem map_ofNat_toNat (raw : Bytes) : (raw.map UInt8.toNat).map UInt8.ofNat = raw := by
  rw [List.map_map]
  exact (List.map_congr_left fun b _ => UInt8.ofNat_toNat).trans (List.map_id raw)

theorem map_toNat_ofNat {ds : List ℕ} (hds : ∀ d ∈ ds, d < 256) :
    (ds.map UInt8.ofNat).map UInt8.toNat = ds := by
  rw [List.map_map]
  exact (List.map_congr_left fun d hd => UInt8.toNat_ofNat_of_lt' (hds d hd)).trans (List.map_id ds)

/-- Characters of the alphabet are those of digits. -/
theorem exists_digits {chars : List Char} (h : ∀ ch ∈ chars, ch ∈ base58Alphabet) :
    ∃ ds : List ℕ, (∀ d ∈ ds, d < 58) ∧ chars = ds.map base58Char := by
  induction chars with
  | nil => exact ⟨[], by simp, rfl⟩
  | cons ch chars ih =>
    obtain ⟨d, hd, rfl⟩ := exists_base58Char (h ch List.mem_cons_self)
    obtain ⟨ds, hds, rfl⟩ := ih fun ch' h' => h ch' (List.mem_cons_of_mem _ h')
    exact ⟨d :: ds, List.forall_mem_cons.mpr ⟨hd, hds⟩, rfl⟩

/-- Decoding undoes the encoding of any bytes, and encoding the decoding of any text over the
alphabet. -/
theorem base58_round_trips :
    (∀ raw, base58Decode (base58Encode raw) = .ok raw) ∧
      ∀ s : String, (∀ ch ∈ s.toList, ch ∈ base58Alphabet) →
        ∃ raw, base58Decode s = .ok raw ∧ base58Encode raw = s := by
  constructor
  · intro raw
    have hdigits : ∀ d ∈ raw.map UInt8.toNat, d < 256 := by
      intro d hd
      obtain ⟨b, -, rfl⟩ := List.mem_map.mp hd
      exact b.toNat_lt
    rw [base58Decode_eq (fun d hd => lt_of_mem_recode (by omega) hd) (toList_base58Encode raw),
      recode_recode (by omega) hdigits, map_ofNat_toNat]
  · intro s hs
    obtain ⟨ds, hds, hchars⟩ := exists_digits hs
    refine ⟨_, base58Decode_eq hds hchars, String.toList_inj.mp ?_⟩
    rw [toList_base58Encode, map_toNat_ofNat fun d hd => lt_of_mem_recode (by omega) hd,
      recode_recode (by omega) hds, hchars]

/-- A text with ones at its beginning. -/
theorem base58_round_trip_ones :
    base58Decode (base58Encode [0, 0, 7]) = .ok [0, 0, 7] ∧
      ∃ raw, base58Decode "11Z" = .ok raw ∧ base58Encode raw = "11Z" :=
  ⟨base58_round_trips.1 _, base58_round_trips.2 _ (List.all_iff_forall_prop.mp rfl)⟩

end LedgerLens.Detection.Solana
