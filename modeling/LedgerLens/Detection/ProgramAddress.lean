import LedgerLens.Detection.Ed25519Curve
import LedgerLens.Detection.PromotionGates
import LedgerLens.Library.Sha256

/-!
# Program-derived addresses

A program-derived address is the hash of seeds, a bump and a program, for the first bump, from 255
downwards, with which the hash is not a point of the Ed25519 curve. This file shows that the search
finds just that address.
-/

namespace LedgerLens.Detection.Solana

/-- What the derivation of an address raises. -/
inductive AddressError where
  /-- `SolanaValidationError`. -/
  | validation (e : SolanaValidationError)
  /-- `ValueError`: `bytes must be in range(0, 256)`. -/
  | valueError
  deriving DecidableEq

/-- A seed: `str | bytes | int`. -/
inductive Seed where
  /-- An address or a text. -/
  | str (value : String)
  /-- Bytes as they are. -/
  | bytes (value : Bytes)
  /-- A byte. -/
  | int (value : ℤ)
  deriving DecidableEq

/-- `_PDA_MARKER`. -/
def pdaMarker : Bytes := "ProgramDerivedAddress".toUTF8.data.toList

/-- `_MAX_SEED_LEN`. -/
def maxSeedLen : ℕ := 32

/-- `_MAX_SEEDS`. -/
def maxSeeds : ℕ := 16

/-- `validate_solana_address`. -/
def validateSolanaAddress (address : String) : Bool :=
  let address := strip address.toList
  if address.length < 32 ∨ address.length > 44 then
    false
  else
    address.all (· ∈ base58Alphabet)

/-- `_seed_bytes`. -/
def seedBytes : Seed → Except AddressError Bytes
  | .bytes seed => .ok seed
  | .int seed => if 0 ≤ seed ∧ seed < 256 then .ok [UInt8.ofNat seed.toNat] else .error .valueError
  | .str seed =>
    let text := seed.toUTF8.data.toList
    if validateSolanaAddress seed then
      match base58Decode seed with
      | .ok raw => if raw.length = 32 then .ok raw else .ok text
      | .error _ => .ok text
    else
      .ok text

/-- A turn of the loop of `create_program_address`: what the hash is updated with. -/
def checkedSeed (seed : Seed) : Except AddressError Bytes := do
  let raw ← seedBytes seed
  if raw.length > maxSeedLen then
    throw (.validation .seedLength)
  return raw

/-- `create_program_address`. -/
def createProgramAddress (seeds : List Seed) (programId : String) :
    Except AddressError (Option String) := do
  if seeds.length > maxSeeds then
    throw (.validation .tooManySeeds)
  let raws ← seeds.mapM checkedSeed
  let key ← (pubkeyBytes (.str programId)).mapError .validation
  let digest := Sha256.digest (raws.flatten ++ key ++ pdaMarker)
  if ← (isOnEd25519Curve (.bytes digest)).mapError .validation then
    return none
  return some (base58Encode digest)

/-- The loop of `find_program_address`, with the bumps below `n` left. -/
def findBelow (seeds : List Seed) (programId : String) : ℕ → Except AddressError (String × ℕ)
  | 0 => .error (.validation .noBump)
  | bump + 1 => do
    let address ← createProgramAddress (seeds ++ [.bytes [UInt8.ofNat bump]]) programId
    match address with
    | some address => return (address, bump)
    | none => findBelow seeds programId bump

/-- `find_program_address`. -/
def findProgramAddress (seeds : List Seed) (programId : String) :
    Except AddressError (String × ℕ) :=
  findBelow seeds programId 256

/-- The hash of the bytes of seeds, a bump and a program. -/
def derivedKey (raws : List Bytes) (key : Bytes) (bump : ℕ) : Bytes :=
  Sha256.digest (raws.flatten ++ [UInt8.ofNat bump] ++ key ++ pdaMarker)

/-- Whether a bump is the largest one below `n` with which the hash is not a point. -/
def IsCanonical (raws : List Bytes) (key : Bytes) (n bump : ℕ) : Prop :=
  bump < n ∧ ¬IsPoint (derivedKey raws key bump) ∧
    ∀ later < n, bump < later → IsPoint (derivedKey raws key later)

/-- What the seeds and the program are, if they can be used. -/
structure Derives (seeds : List Seed) (programId : String) (raws : List Bytes) (key : Bytes) :
    Prop where
  /-- There is a place for the bump. -/
  room : seeds.length < maxSeeds
  /-- The bytes of the seeds. -/
  seeds : seeds.mapM checkedSeed = .ok raws
  /-- The bytes of the program. -/
  program : pubkeyBytes (.str programId) = .ok key

/-- The test of a key. -/
theorem isOnEd25519Curve_of_pubkeyBytes {pubkey : Pubkey} {raw : Bytes}
    (h : pubkeyBytes pubkey = .ok raw) : isOnEd25519Curve pubkey = .ok (isOnCurve raw) := by
  rw [isOnEd25519Curve, h]
  rfl

variable {seeds : List Seed} {programId : String} {raws : List Bytes} {key : Bytes}

/-- The address for a bump. -/
theorem createProgramAddress_bump (h : Derives seeds programId raws key) (bump : ℕ) :
    createProgramAddress (seeds ++ [.bytes [UInt8.ofNat bump]]) programId =
      .ok (if isOnCurve (derivedKey raws key bump) then none
        else some (base58Encode (derivedKey raws key bump))) := by
  have hroom : ¬(seeds ++ [Seed.bytes [UInt8.ofNat bump]]).length > maxSeeds := by
    have hlt := h.room
    rw [List.length_append, List.length_singleton]
    omega
  have hseeds : (seeds ++ [Seed.bytes [UInt8.ofNat bump]]).mapM checkedSeed =
      .ok (raws ++ [[UInt8.ofNat bump]]) := by
    rw [List.mapM_append, h.seeds]
    rfl
  have hkey : pubkeyBytes (.bytes (derivedKey raws key bump)) =
      .ok (derivedKey raws key bump) := by
    have hlength : ¬(derivedKey raws key bump).length ≠ 32 := not_not.mpr (Sha256.length_digest _)
    simp only [pubkeyBytes]
    exact if_neg hlength
  have hflatten : (raws ++ [[UInt8.ofNat bump]]).flatten ++ key ++ pdaMarker =
      raws.flatten ++ [UInt8.ofNat bump] ++ key ++ pdaMarker := by
    rw [List.flatten_append, List.flatten_singleton]
  rw [createProgramAddress, if_neg hroom, hseeds, h.program]
  simp only [Except.mapError, bind, Except.bind, pure, Except.pure]
  rw [hflatten, ← derivedKey, isOnEd25519Curve_of_pubkeyBytes hkey]
  cases isOnCurve (derivedKey raws key bump) <;> rfl

/-- A result for a bump shows that the seeds and the program can be used. -/
theorem derives_of_createProgramAddress {bump : ℕ} {address : Option String}
    (h : createProgramAddress (seeds ++ [.bytes [UInt8.ofNat bump]]) programId = .ok address) :
    ∃ raws key, Derives seeds programId raws key := by
  rw [createProgramAddress, List.mapM_append] at h
  by_cases hroom : (seeds ++ [Seed.bytes [UInt8.ofNat bump]]).length > maxSeeds
  · rw [if_pos hroom] at h
    cases h
  rw [if_neg hroom] at h
  rw [List.length_append, List.length_singleton] at hroom
  cases hseeds : seeds.mapM checkedSeed with
  | error e =>
    rw [hseeds] at h
    cases h
  | ok raws =>
    cases hprogram : pubkeyBytes (.str programId) with
    | error e =>
      rw [hseeds, hprogram] at h
      cases h
    | ok key => exact ⟨raws, key, by omega, hseeds, hprogram⟩

/-- The search for seeds and a program that can be used: it ends at the largest bump, below the
one it starts from, with which the hash is not a point. -/
theorem findBelow_eq_ok_iff (h : Derives seeds programId raws key) (n : ℕ) (address : String)
    (bump : ℕ) :
    findBelow seeds programId n = .ok (address, bump) ↔
      IsCanonical raws key n bump ∧ address = base58Encode (derivedKey raws key bump) := by
  unfold IsCanonical
  induction n with
  | zero => simp [findBelow]
  | succ n ih =>
    rw [findBelow, createProgramAddress_bump h]
    by_cases hpoint : isOnCurve (derivedKey raws key n) = true
    · rw [if_pos hpoint]
      rw [isOnCurve_iff] at hpoint
      refine ih.trans (and_congr_left' ⟨fun hbump => ?_, fun hbump => ?_⟩)
      · refine ⟨by omega, hbump.2.1, fun later hlater hlt => ?_⟩
        obtain hlater | rfl := Nat.lt_succ_iff_lt_or_eq.mp hlater
        · exact hbump.2.2 later hlater hlt
        · exact hpoint
      · have hne : bump ≠ n := fun heq => hbump.2.1 (heq ▸ hpoint)
        exact ⟨by omega, hbump.2.1, fun later hlater => hbump.2.2 later (by omega)⟩
    · rw [if_neg hpoint]
      rw [isOnCurve_iff] at hpoint
      constructor
      · intro hfound
        cases hfound
        exact ⟨⟨Nat.lt_add_one _, hpoint, fun later hlater hlt => by omega⟩, rfl⟩
      · rintro ⟨⟨hlt, hbump, hlater⟩, rfl⟩
        obtain hlt | rfl := Nat.lt_succ_iff_lt_or_eq.mp hlt
        · exact absurd (hlater n (Nat.lt_add_one n) hlt) hpoint
        · rfl

/-- A search that finds something shows that the seeds and the program can be used. -/
theorem derives_of_findBelow {n : ℕ} {found : String × ℕ}
    (h : findBelow seeds programId n = .ok found) :
    ∃ raws key, Derives seeds programId raws key := by
  cases n with
  | zero => cases h
  | succ n =>
    rw [findBelow] at h
    cases haddress : createProgramAddress (seeds ++ [.bytes [UInt8.ofNat n]]) programId with
    | error e =>
      rw [haddress] at h
      cases h
    | ok address => exact derives_of_createProgramAddress haddress

/-- The test of a key tells whether it is a point, and the search for an address finds the one for
the largest bump with which the hash is not a point. -/
theorem findProgramAddress_canonical :
    (∀ pubkey raw, pubkeyBytes pubkey = .ok raw →
      ∃ onCurve, isOnEd25519Curve pubkey = .ok onCurve ∧ (onCurve = true ↔ IsPoint raw)) ∧
      ∀ seeds programId address bump,
        findProgramAddress seeds programId = .ok (address, bump) ↔
          ∃ raws key, Derives seeds programId raws key ∧ IsCanonical raws key 256 bump ∧
            address = base58Encode (derivedKey raws key bump) := by
  refine ⟨fun pubkey raw h => ⟨isOnCurve raw, isOnEd25519Curve_of_pubkeyBytes h,
    isOnCurve_iff raw⟩, fun seeds programId address bump => ⟨fun h => ?_, ?_⟩⟩
  · obtain ⟨raws, key, hderives⟩ := derives_of_findBelow h
    exact ⟨raws, key, hderives, (findBelow_eq_ok_iff hderives 256 address bump).mp h⟩
  · rintro ⟨raws, key, hderives, h⟩
    exact (findBelow_eq_ok_iff hderives 256 address bump).mpr h

/-- The point with the coordinate zero. -/
theorem isPoint_zero :
    pubkeyBytes (.bytes (List.replicate 32 0)) = .ok (List.replicate 32 0) ∧
      IsPoint (List.replicate 32 0) := by
  have hkey : pubkeyBytes (.bytes (List.replicate 32 0)) = .ok (List.replicate 32 0) := by
    decide +kernel
  obtain ⟨onCurve, htest, hpoint⟩ := findProgramAddress_canonical.1 _ _ hkey
  have honCurve : isOnEd25519Curve (.bytes (List.replicate 32 0)) = .ok true := by
    decide +kernel
  rw [honCurve] at htest
  cases htest
  exact ⟨hkey, hpoint.mp rfl⟩

end LedgerLens.Detection.Solana
