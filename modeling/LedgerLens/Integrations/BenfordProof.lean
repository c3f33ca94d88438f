import LedgerLens.Detection.RiskPropagation
import LedgerLens.Detection.WormholePayload
import LedgerLens.Library.HashTree
import LedgerLens.Library.Runs
import LedgerLens.Library.UniqueTable
import Mathlib.Data.Int.Log
import Mathlib.Data.List.MinMax

/-!
# Proofs of Benford's law

`BenfordZKProver` commits to a list of trade amounts with the root of a tree of hashes, and
`verify_with_data` compares a list of amounts with the commitment. The tree is made of the first
thousand amounts, and the last node of an odd level is used twice. This file says which lists are
accepted for a proof.

Amounts are the 64 bits of a float. The texts of floats, `json.dumps` and the Pedersen commitment
are parameters.
-/

namespace LedgerLens.Integrations

open Detection (hexString hexString_inj)
open Detection.Propagation (roundHalfEven roundTo roundTo_roundTo abs_sub_roundTo_le)

/-- A float. -/
structure Double where
  /-- Its bits. -/
  bits : BitVec 64
  deriving DecidableEq

/-- The number that it is, unless it is infinite or not a number. -/
def Double.value (x : Double) : Option ℚ :=
  let exponent : ℕ := x.bits.toNat / 2 ^ 52 % 2 ^ 11
  let fraction : ℕ := x.bits.toNat % 2 ^ 52
  let sign : ℚ := if 2 ^ 63 ≤ x.bits.toNat then -1 else 1
  if exponent = 2047 then none
  else if exponent = 0 then some (sign * fraction / 2 ^ 1074)
  else some (sign * (2 ^ 52 + fraction) * 2 ^ exponent / 2 ^ 1075)

/-- `struct.pack(">d", amount)`. -/
def Double.pack (x : Double) : Bytes := toBigEndian 8 x.bits.toNat

/-- The seven digits of `f"{x:.6e}"`, as one number. It may be `10 ^ 7`, for which the text has the
digits of `10 ^ 6`. -/
def scientificDigits (x : ℚ) : ℕ := (roundHalfEven (x * 10 ^ (6 - Int.log 10 x))).toNat

/-- `_leading_digit`. The text of a float that is no number has no digits. -/
def leadingDigit (x : Double) : Option ℕ :=
  match x.value with
  | none => none
  | some v =>
    if v ≤ 0 then none
    else if scientificDigits v = 10 ^ 7 then some 1
    else some (scientificDigits v / 10 ^ 6)

/-- What the prover relies on. -/
structure ZkEnv where
  /-- `_BENFORD_EXPECTED`. -/
  benfordExpected : ℕ → ℚ
  /-- `str(mad).encode()`. -/
  floatText : ℚ → Bytes
  /-- `json.dumps({"mr": merkle_root, "mad": mad}).encode()`. -/
  dumpsSeed : String → ℚ → Bytes
  /-- `str(_pedersen_commit(value, blinding)).encode()`, if `py_ecc` is available. -/
  pedersenCommit : ℤ → ℕ → Option Bytes
  /-- `json.dumps` of the version, the root, the claimed value, the commitment and the nonce. -/
  dumpsInput : String → String → ℚ → Option String → String → Bytes

/-- `_ZK_PROOF_VERSION`. -/
def zkProofVersion : String := "benford-zk-v1"

/-- `_MAD_TOLERANCE`. -/
def madTolerance : ℚ := 1 / 1000

/-- `BenfordZKProof`. -/
structure BenfordZKProof where
  /-- `version`. -/
  version : String
  /-- `merkle_root`. -/
  merkleRoot : String
  /-- `claimed_mad`. -/
  claimedMad : ℚ
  /-- `proof_hash`. -/
  proofHash : String
  /-- `pedersen_commitment_hex`. -/
  pedersenCommitmentHex : Option String
  /-- `nonce`. -/
  nonce : String
  /-- `n_trades`. -/
  nTrades : ℕ

/-- `ValueError`: amounts must be non-empty. -/
inductive ProveError where
  /-- There are none. -/
  | noAmounts
  deriving DecidableEq

/-- `_hash_leaf`. -/
def hashLeaf (amount : Double) : Bytes := Sha256.digest amount.pack

/-- `_merkle_root`. -/
def merkleRoot (leaves : List Bytes) : Bytes :=
  match leaves with
  | [] => List.replicate 32 0
  | leaves =>
    (HashTree.combineLevels (fun left right => Sha256.digest (left ++ right)) leaves.length
      leaves).headD []

/-- The root for some amounts, which is that for the first thousand of them. -/
def rootOf (amounts : List Double) : String :=
  hexString (merkleRoot ((amounts.take 1000).map hashLeaf))

/-- `compute_benford_mad`. -/
def computeBenfordMad (env : ZkEnv) (amounts : List Double) : ℚ :=
  let digits := amounts.filterMap leadingDigit
  if digits.length = 0 then 0
  else
    ((List.range' 1 9).map fun d =>
      |(digits.count d : ℚ) / digits.length - env.benfordExpected d|).sum / 9

namespace BenfordZKProver

variable (env : ZkEnv)

/-- The hash of the public values. -/
def inputHash (version merkleRoot : String) (claimedMad : ℚ) (pedersenHex : Option String)
    (nonce : String) : String :=
  Sha256.hexdigest (env.dumpsInput version merkleRoot (roundTo 6 claimedMad) pedersenHex nonce)

/-- `prove`. -/
def prove (amounts : List Double) : Except ProveError BenfordZKProof :=
  if amounts = [] then .error .noAmounts
  else
    let mad := computeBenfordMad env amounts
    let merkleRoot := rootOf amounts
    let madInt := roundHalfEven (mad * 1000000)
    let nonceInt := ofBigEndian (Sha256.digest (env.dumpsSeed merkleRoot mad))
    let pedHex := (env.pedersenCommit madInt nonceInt).map Sha256.hexdigest
    let nonce := String.ofList
      ((Sha256.hexdigest (merkleRoot.toUTF8.data.toList ++ env.floatText mad)).toList.take 16)
    .ok
      { version := zkProofVersion
        merkleRoot := merkleRoot
        claimedMad := roundTo 6 mad
        proofHash := inputHash env zkProofVersion merkleRoot mad pedHex nonce
        pedersenCommitmentHex := pedHex
        nonce := nonce
        nTrades := amounts.length }

/-- `verify`. -/
def verify (proof : BenfordZKProof) : Bool :=
  inputHash env proof.version proof.merkleRoot proof.claimedMad proof.pedersenCommitmentHex
    proof.nonce = proof.proofHash

/-- `verify_with_data`. -/
def verifyWithData (proof : BenfordZKProof) (amounts : List Double) : Bool :=
  if !verify env proof then false
  else if rootOf amounts ≠ proof.merkleRoot then false
  else |computeBenfordMad env amounts - proof.claimedMad| ≤ madTolerance

end BenfordZKProver

/-- Floats are told apart by their bytes. -/
theorem pack_inj {x y : Double} (h : x.pack = y.pack) : x = y := by
  have hx : x.bits.toNat < 256 ^ 8 := x.bits.isLt
  have hy : y.bits.toNat < 256 ^ 8 := y.bits.isLt
  have hvalues := congrArg Keccak256.ofLittleEndian (List.reverse_injective h)
  rw [ofLittleEndian_toLittleEndian hx, ofLittleEndian_toLittleEndian hy] at hvalues
  cases x
  cases y
  rw [Double.mk.injEq]
  exact BitVec.eq_of_toNat_eq hvalues

/-- A float is shorter than two hashes. -/
theorem pack_ne_hashes (x : Double) (u v : Bytes) :
    x.pack ≠ Sha256.digest u ++ Sha256.digest v := by
  intro h
  have hlength := congrArg List.length h
  rw [Double.pack, length_toBigEndian, List.length_append, Sha256.length_digest,
    Sha256.length_digest] at hlength
  omega

/-- The tree over some amounts, in a list. -/
def amountTrees (amounts : List Double) : List (HashTree Double) :=
  HashTree.climb amounts.length (amounts.map .leaf)

/-- The texts that are hashed for some amounts. -/
def hashedTexts (amounts : List Double) : List Bytes :=
  (amountTrees amounts).flatMap (HashTree.messages Sha256.digest Double.pack)

/-- No two texts that are hashed for two lists of amounts have the same hash. -/
def NoClash (amounts others : List Double) : Prop :=
  ∀ x ∈ hashedTexts amounts, ∀ y ∈ hashedTexts others,
    Sha256.digest x = Sha256.digest y → x = y

/-- The amounts with their end repeated as the tree does. -/
def filledUp (amounts : List Double) : List Double := HashTree.fillUp amounts.length 1 amounts

/-- The root is the hash of a tree over the amounts with their end repeated. -/
theorem exists_amountTree {amounts : List Double} (hne : amounts ≠ []) :
    ∃ t depth, amountTrees amounts = [t] ∧ t.Perfect depth ∧ t.values = filledUp amounts ∧
      merkleRoot (amounts.map hashLeaf) = t.digest Sha256.digest Double.pack := by
  have hleaves : ∀ t ∈ amounts.map HashTree.leaf, HashTree.Perfect 0 t := by
    intro t ht
    obtain ⟨a, -, rfl⟩ := List.mem_map.mp ht
    trivial
  obtain ⟨t, depth, ht, hperfect, hvalues⟩ : ∃ t depth, amountTrees amounts = [t] ∧
      t.Perfect depth ∧ t.values = HashTree.fillUp amounts.length (2 ^ 0)
        ((amounts.map HashTree.leaf).flatMap HashTree.values) :=
    HashTree.exists_climb_eq hleaves (by simpa using hne) (by simp)
  refine ⟨t, depth, ht, hperfect, ?_, ?_⟩
  · rw [hvalues, filledUp, pow_zero, List.flatMap_map]
    simp [HashTree.values]
  · have hroot := HashTree.combineLevels_map (fun a => Sha256.digest (Double.pack a))
      (fun left right => Sha256.digest (left ++ right)) amounts.length (amounts.map .leaf)
    have hhashes : (amounts.map HashTree.leaf).map (HashTree.combined
        (fun a => Sha256.digest (Double.pack a)) fun left right => Sha256.digest (left ++ right)) =
        amounts.map hashLeaf := by
      rw [List.map_map]
      rfl
    rw [hhashes] at hroot
    unfold merkleRoot
    split
    next hnil => exact absurd (List.map_eq_nil_iff.mp hnil) hne
    next =>
      rw [List.length_map, hroot]
      rw [show HashTree.climb amounts.length (amounts.map .leaf) = [t] from ht,
        List.map_singleton, List.headD_cons, HashTree.combined_eq_digest]

/-- Lists of amounts that are the same with their ends repeated have the same root. -/
theorem merkleRoot_eq_of_filledUp {amounts others : List Double} (hne : amounts ≠ [])
    (hne' : others ≠ []) (h : filledUp amounts = filledUp others) :
    merkleRoot (amounts.map hashLeaf) = merkleRoot (others.map hashLeaf) := by
  obtain ⟨t, depth, -, hperfect, hvalues, hroot⟩ := exists_amountTree hne
  obtain ⟨t', depth', -, hperfect', hvalues', hroot'⟩ := exists_amountTree hne'
  rw [← hvalues, ← hvalues'] at h
  have hdepth : depth = depth' := by
    have hlength := congrArg List.length h
    rw [hperfect.length_values, hperfect'.length_values] at hlength
    exact Nat.pow_right_injective le_rfl hlength
  subst hdepth
  rw [hroot, hroot', hperfect.eq_of_values hperfect' h]

/-- Two lists of amounts have the same root exactly if they are the same with their ends
repeated. -/
theorem merkleRoot_eq_iff {amounts others : List Double} (hne : amounts ≠ []) (hne' : others ≠ [])
    (hclash : NoClash amounts others) :
    merkleRoot (amounts.map hashLeaf) = merkleRoot (others.map hashLeaf) ↔
      filledUp amounts = filledUp others := by
  refine ⟨fun h => ?_, merkleRoot_eq_of_filledUp hne hne'⟩
  obtain ⟨t, -, ht, -, hvalues, hroot⟩ := exists_amountTree hne
  obtain ⟨t', -, ht', -, hvalues', hroot'⟩ := exists_amountTree hne'
  have hclash' : ∀ x ∈ t.messages Sha256.digest Double.pack,
      ∀ y ∈ t'.messages Sha256.digest Double.pack, Sha256.digest x = Sha256.digest y → x = y := by
    simpa [NoClash, hashedTexts, ht, ht'] using hclash
  rw [hroot, hroot'] at h
  rw [← hvalues, ← hvalues',
    HashTree.digest_inj Sha256.length_digest (fun _ _ => pack_inj) pack_ne_hashes hclash' h]

namespace BenfordZKProver

variable {env : ZkEnv} {amounts others : List Double} {proof : BenfordZKProof}

/-- The claimed value is rounded again for its hash, which does not change it. -/
theorem inputHash_roundTo (version merkleRoot : String) (mad : ℚ) (pedersenHex : Option String)
    (nonce : String) : inputHash env version merkleRoot (roundTo 6 mad) pedersenHex nonce =
      inputHash env version merkleRoot mad pedersenHex nonce := by
  unfold inputHash
  rw [roundTo_roundTo]

/-- What a proof has of its amounts. -/
theorem of_prove (h : prove env amounts = .ok proof) :
    amounts ≠ [] ∧ proof.merkleRoot = rootOf amounts ∧
      proof.claimedMad = roundTo 6 (computeBenfordMad env amounts) ∧ verify env proof = true := by
  unfold prove at h
  split_ifs at h with hnil
  obtain rfl := Except.ok.inj h
  exact ⟨hnil, rfl, rfl, decide_eq_true (inputHash_roundTo _ _ _ _ _)⟩

/-- What has the root and the deviation of the amounts is accepted for their proof. -/
theorem verifyWithData_of_same (h : prove env amounts = .ok proof)
    (hroot : rootOf others = rootOf amounts)
    (hmad : computeBenfordMad env others = computeBenfordMad env amounts) :
    verifyWithData env proof others = true := by
  obtain ⟨-, hroot', hmad', hverify⟩ := of_prove h
  have hnear : |computeBenfordMad env others - proof.claimedMad| ≤ madTolerance := by
    rw [hmad, hmad']
    refine (abs_sub_roundTo_le 6 _).trans ?_
    norm_num [madTolerance]
  unfold verifyWithData
  rw [hverify, hroot', hroot]
  simpa using hnear

/-- The root for other amounts is that for some amounts exactly if both fill up the tree in the same
way, or the others are none and it is the root for none. -/
theorem rootOf_eq_iff (hne : amounts ≠ [])
    (hclash : NoClash (amounts.take 1000) (others.take 1000)) :
    rootOf others = rootOf amounts ↔
      (others ≠ [] ∧ filledUp (amounts.take 1000) = filledUp (others.take 1000)) ∨
        (others = [] ∧ rootOf amounts = rootOf []) := by
  by_cases hnil : others = []
  · simp [hnil, eq_comm]
  · have htake : ∀ {xs : List Double}, xs ≠ [] → xs.take 1000 ≠ [] := fun hxs => by simpa using hxs
    rw [← merkleRoot_eq_iff (htake hne) (htake hnil) hclash]
    simp only [ne_eq, hnil, not_false_eq_true, true_and, false_and, or_false]
    constructor
    · exact fun h => (hexString_inj h).symm
    · exact fun h => congrArg hexString h.symm

/-- Other amounts are rejected for a proof exactly if the first thousand of them fill up the tree in
another way, or the deviation of all of them is farther from the claimed one than the tolerance. No
amounts are rejected unless the root of the proof is the one for no amounts. -/
theorem verifyWithData_eq_false_iff (h : prove env amounts = .ok proof)
    (hclash : NoClash (amounts.take 1000) (others.take 1000)) :
    verifyWithData env proof others = false ↔
      ((others ≠ [] → filledUp (amounts.take 1000) ≠ filledUp (others.take 1000)) ∧
          (others = [] → proof.merkleRoot ≠ rootOf [])) ∨
        madTolerance <
          |computeBenfordMad env others - roundTo 6 (computeBenfordMad env amounts)| := by
  obtain ⟨hne, hroot, hmad, hverify⟩ := of_prove h
  have hcode : verifyWithData env proof others = false ↔ rootOf others ≠ rootOf amounts ∨
      madTolerance <
        |computeBenfordMad env others - roundTo 6 (computeBenfordMad env amounts)| := by
    unfold verifyWithData
    rw [hverify, hroot, hmad, Bool.not_true, if_neg Bool.false_ne_true]
    by_cases hsame : rootOf others = rootOf amounts
    · rw [if_neg (not_not.mpr hsame), decide_eq_false_iff_not, not_le, ne_eq,
        iff_true_intro hsame, not_true_eq_false, false_or]
    · rw [if_pos hsame]
      exact iff_of_true rfl (.inl hsame)
  rw [hcode, ne_eq, rootOf_eq_iff hne hclash, hroot, not_or, not_and, not_and]

/-- The expected frequencies, and texts that are right for the value zero. Without `py_ecc`. -/
private def plainZk : ZkEnv where
  benfordExpected d := ([0, 3010299956639812 / 10 ^ 16, 17609125905568124 / 10 ^ 17,
    12493873660829993 / 10 ^ 17, 9691001300805642 / 10 ^ 17, 7918124604762482 / 10 ^ 17,
    6694678963061322 / 10 ^ 17, 57991946977686726 / 10 ^ 18, 5115252244738129 / 10 ^ 17,
    4575749056067514 / 10 ^ 17] : List ℚ).getD d 0
  floatText _ := "0.0".toUTF8.data.toList
  dumpsSeed root _ := ("\x7b\"mr\": \"" ++ root ++ "\", \"mad\": 0.0\x7d").toUTF8.data.toList
  pedersenCommit _ _ := none
  dumpsInput version root _ _ nonce :=
    ("\x7b\"claimed_mad\":0.0,\"merkle_root\":\"" ++ root ++ "\",\"nonce\":\"" ++ nonce ++
      "\",\"pedersen_commitment_hex\":null,\"version\":\"" ++ version ++
      "\"\x7d").toUTF8.data.toList

/-- `0.0`. -/
private def zero : Double := ⟨0⟩

/-- `1.0`. -/
private def one : Double := ⟨0x3ff0000000000000⟩

/-- `-1.0`. -/
private def minusOne : Double := ⟨0xbff0000000000000⟩

/-- Another amount is rejected for the proof of zero. -/
theorem verifyWithData_minusOne :
    ∃ proof, prove plainZk [zero] = .ok proof ∧
      verifyWithData plainZk proof [minusOne] = false := by
  have hclash : NoClash ([zero].take 1000) ([minusOne].take 1000) := by
    unfold NoClash
    decide +kernel
  refine ⟨_, rfl, (verifyWithData_eq_false_iff rfl hclash).mpr (.inl ⟨fun _ => by decide, ?_⟩)⟩
  exact fun hnil => absurd hnil (List.cons_ne_nil _ _)

/-- Four times the same amount is accepted for the proof of three times that amount, although no two
texts that are hashed have the same hash. -/
theorem verifyWithData_four_ones :
    NoClash [one, one, one] [one, one, one, one] ∧ ∃ proof,
      prove plainZk [one, one, one] = .ok proof ∧
        verifyWithData plainZk proof [one, one, one, one] = true := by
  have hclash : NoClash [one, one, one] [one, one, one, one] := by
    unfold NoClash
    decide +kernel
  obtain ⟨proof, hproof⟩ : ∃ proof, prove plainZk [one, one, one] = .ok proof := ⟨_, rfl⟩
  have hroot : merkleRoot ([one, one, one, one].map hashLeaf) =
      merkleRoot ([one, one, one].map hashLeaf) :=
    merkleRoot_eq_of_filledUp (List.cons_ne_nil _ _) (List.cons_ne_nil _ _) (by decide)
  have hmad : computeBenfordMad plainZk [one, one, one, one] =
      computeBenfordMad plainZk [one, one, one] := by decide +kernel
  exact ⟨hclash, proof, hproof, verifyWithData_of_same hproof (congrArg hexString hroot) hmad⟩

end BenfordZKProver

/-- `_CacheEntry`. -/
structure CacheEntry where
  /-- `result`. -/
  result : Bool
  /-- `expires_at`, by the monotonic clock. -/
  expiresAt : ℚ

/-- `ProofVerificationCache`, without `_store`. -/
structure ProofVerificationCache where
  /-- `ttl_seconds`. -/
  ttlSeconds : ℚ
  /-- `failure_ttl_seconds`. -/
  failureTtlSeconds : ℚ
  /-- `max_size`. -/
  maxSize : ℕ

namespace ProofVerificationCache

open Transition

/-- `_store`. -/
abbrev Store := UniqueTable String CacheEntry

variable (cache : ProofVerificationCache)

/-- How long a result is kept. -/
def ttl (result : Bool) : ℚ := if result then cache.ttlSeconds else cache.failureTtlSeconds

/-- `get`, for the hash of a proof: what it returns, and the store after it. -/
def get (key : String) (now : ℚ) (store : Store) : Option Bool × Store :=
  match store.find? key with
  | none => (none, store)
  | some entry =>
    if entry.expiresAt ≤ now then (none, store.erase key) else (some entry.result, store)

/-- `put`, for the hash of a proof. If there is nothing to make room by, `min` raises. -/
def put (key : String) (result : Bool) (now : ℚ) (store : Store) : Option Store :=
  let entry : CacheEntry := ⟨result, now + cache.ttl result⟩
  if store.find? key = none ∧ cache.maxSize ≤ store.rows.length then
    (store.rows.argmin fun row => row.2.expiresAt).map fun oldest =>
      (store.erase oldest.1).put key entry
  else some (store.put key entry)

/-- A cache and the threads that call `verify_cached`. -/
structure State (Thread : Type) where
  store : Store
  /-- The proof that a thread is verifying, after it has not found it. -/
  verifying : Thread → Option BenfordZKProof
  /-- What the calls have returned, with the proofs. -/
  answers : List (BenfordZKProof × Bool)

/-- The steps of the threads. -/
inductive Event (Thread : Type) where
  /-- A thread calls `verify_cached` and looks in the cache. -/
  | lookup (thread : Thread) (proof : BenfordZKProof) (now : ℚ)
  /-- A thread is done with `verify`, puts the result into the cache and returns it. -/
  | store (thread : Thread) (now : ℚ)
  /-- `invalidate`. -/
  | invalidate (proofHash : String)
  /-- `clear`. -/
  | clear

variable {Thread : Type} [DecidableEq Thread] (env : ZkEnv) (dumps : BenfordZKProof → Bytes)

/-- `proof_hash`, where `dumps` gives the text of a proof. -/
def proofHash (proof : BenfordZKProof) : String := Sha256.hexdigest (dumps proof)

/-- An empty cache. -/
def init : State Thread := ⟨.empty, fun _ => none, []⟩

/-- A step. -/
def step (s : State Thread) : Event Thread → State Thread
  | .lookup thread proof now =>
    match get (proofHash dumps proof) now s.store with
    | (some result, store) =>
      { s with store := store, answers := s.answers ++ [(proof, result)] }
    | (none, store) =>
      { s with store := store, verifying := Function.update s.verifying thread (some proof) }
  | .store thread now =>
    match s.verifying thread with
    | none => s
    | some proof =>
      let result := BenfordZKProver.verify env proof
      let idle := { s with verifying := Function.update s.verifying thread none }
      match cache.put (proofHash dumps proof) result now s.store with
      | none => idle
      | some store => { idle with store := store, answers := s.answers ++ [(proof, result)] }
  | .invalidate key => { s with store := s.store.erase key }
  | .clear => { s with store := .empty }

/-- The state after some steps. -/
def after (es : List (Event Thread)) : State Thread := exec (cache.step env dumps) init es

/-- The event takes an entry out of the cache. -/
def Event.drops (key : String) : Event Thread → Prop
  | .invalidate key' => key' = key
  | .clear => True
  | _ => False

/-- A thread has put the entry into the cache, for a proof with that hash, and it was not taken out
since then. -/
def Stored (es : List (Event Thread)) (key : String) (entry : CacheEntry) : Prop :=
  ∃ before thread now after' proof, es = before ++ .store thread now :: after' ∧
    (cache.after env dumps before).verifying thread = some proof ∧ proofHash dumps proof = key ∧
    entry.result = BenfordZKProver.verify env proof ∧
    entry.expiresAt = now + cache.ttl entry.result ∧ ∀ e ∈ after', ¬e.drops key

variable {cache env dumps} {key : String} {store : Store} {entry : CacheEntry} {now : ℚ}

/-- What `get` returns was there, and has not expired. -/
theorem exists_of_get {result : Bool} (h : (get key now store).1 = some result) :
    ∃ entry, store.find? key = some entry ∧ now < entry.expiresAt ∧ entry.result = result := by
  unfold get at h
  cases hfind : store.find? key with
  | none => simp [hfind] at h
  | some entry =>
    simp only [hfind] at h
    split_ifs at h with hexpired
    exact ⟨entry, rfl, not_le.mp hexpired, Option.some.inj h⟩

/-- `get` puts nothing in. -/
theorem find?_of_get {key' : String} (h : (get key now store).2.find? key' = some entry) :
    store.find? key' = some entry := by
  unfold get at h
  split at h
  · exact h
  · split_ifs at h
    · rw [UniqueTable.find?_erase] at h
      split_ifs at h
      exact h
    · exact h

theorem length_erase_le (key : String) : (store.erase key).rows.length ≤ store.rows.length :=
  List.length_filter_le _ _

theorem length_get_le (key : String) (now : ℚ) (store : Store) :
    (get key now store).2.rows.length ≤ store.rows.length := by
  unfold get
  split
  · exact le_rfl
  · split_ifs
    · exact length_erase_le key
    · exact le_rfl

/-- `put` puts in what it is given, and nothing else. -/
theorem find?_of_put {result : Bool} {store' : Store} {key' : String}
    (hput : cache.put key result now store = some store') (h : store'.find? key' = some entry) :
    key' = key ∧ entry = ⟨result, now + cache.ttl result⟩ ∨ store.find? key' = some entry := by
  unfold put at hput
  dsimp only at hput
  split_ifs at hput with hfull
  · obtain ⟨oldest, -, rfl⟩ := Option.map_eq_some_iff.mp hput
    rw [UniqueTable.find?_put] at h
    split_ifs at h with hsame
    · exact Or.inl ⟨hsame, (Option.some.inj h).symm⟩
    · rw [UniqueTable.find?_erase] at h
      split_ifs at h
      exact Or.inr h
  · obtain rfl := Option.some.inj hput
    rw [UniqueTable.find?_put] at h
    split_ifs at h with hsame
    · exact Or.inl ⟨hsame, (Option.some.inj h).symm⟩
    · exact Or.inr h

/-- There is room for an entry, or it is made. -/
theorem exists_put (hsize : 1 ≤ cache.maxSize) (hlength : store.rows.length ≤ cache.maxSize)
    (key : String) (result : Bool) (now : ℚ) :
    ∃ store', cache.put key result now store = some store' ∧
      store'.rows.length ≤ cache.maxSize := by
  unfold put
  dsimp only
  split_ifs with hfull
  · obtain ⟨hnew, hfull⟩ := hfull
    have hne : store.rows ≠ [] := List.ne_nil_of_length_pos (by omega)
    cases holdest : store.rows.argmin fun row => row.2.expiresAt with
    | none => exact absurd (List.argmin_eq_none.mp holdest) hne
    | some oldest =>
      refine ⟨_, rfl, ?_⟩
      have hfind : store.find? oldest.1 = some oldest.2 :=
        (store.find?_eq_some_iff _ _).mpr (List.argmin_mem holdest)
      have hless := (UniqueTable.rows_perm_erase hfind).length_eq
      have hone := (store.erase oldest.1).length_put_le key ⟨result, now + cache.ttl result⟩
      rw [List.length_cons] at hless
      dsimp only
      omega
  · refine ⟨_, rfl, ?_⟩
    by_cases hnew : store.find? key = none
    · have := store.length_put key ⟨result, now + cache.ttl result⟩ hnew
      rw [not_and] at hfull
      have := hfull hnew
      omega
    · rw [store.length_put_of_old key _ hnew]
      exact hlength

section Runs

variable {es : List (Event Thread)}

@[simp] theorem after_concat (es : List (Event Thread)) (e : Event Thread) :
    cache.after env dumps (es ++ [e]) = cache.step env dumps (cache.after env dumps es) e := by
  simp [after]

/-- What was put in before is still what was put in. -/
theorem Stored.concat (h : cache.Stored env dumps es key entry) {e : Event Thread}
    (hkept : ¬e.drops key) : cache.Stored env dumps (es ++ [e]) key entry := by
  obtain ⟨before, thread, now, after', proof, rfl, hverifying, hhash, hresult, hexpires, hnone⟩ := h
  refine ⟨before, thread, now, after' ++ [e], proof, by simp, hverifying, hhash, hresult, hexpires,
    fun e' he' => ?_⟩
  rcases List.mem_append.mp he' with he' | he'
  · exact hnone e' he'
  · rw [List.mem_singleton.mp he']
    exact hkept

/-- Whatever is in the cache, a thread has put there. -/
theorem stored_of_find? (es : List (Event Thread)) {key : String} {entry : CacheEntry}
    (h : (cache.after env dumps es).store.find? key = some entry) :
    cache.Stored env dumps es key entry := by
  induction es using List.reverseRecOn generalizing key entry with
  | nil => cases h
  | append_singleton es e ih =>
    rw [after_concat] at h
    cases e with
    | lookup thread proof now =>
      have hget : (get (proofHash dumps proof) now (cache.after env dumps es).store).2.find? key =
          some entry := by
        simp only [step] at h
        split at h
        · next hget => rwa [hget]
        · next hget => rwa [hget]
      exact (ih (find?_of_get hget)).concat id
    | store thread now =>
      simp only [step] at h
      split at h
      · exact (ih h).concat id
      · next proof hverifying =>
        split at h
        · exact (ih h).concat id
        · next store hput =>
          rcases find?_of_put hput h with ⟨rfl, rfl⟩ | hold
          · exact ⟨es, thread, now, [], proof, rfl, hverifying, rfl, rfl, rfl, by simp⟩
          · exact (ih hold).concat id
    | invalidate key' =>
      simp only [step, UniqueTable.find?_erase] at h
      split_ifs at h with hsame
      exact (ih h).concat fun hdrops => hsame hdrops.symm
    | clear => simp [step] at h

/-- The proofs that `verify_cached` was called for. -/
def proofs (es : List (Event Thread)) : List BenfordZKProof :=
  es.filterMap fun
    | .lookup _ proof _ => some proof
    | _ => none

omit [DecidableEq Thread] in
theorem proofs_append (es fs : List (Event Thread)) : proofs (es ++ fs) = proofs es ++ proofs fs :=
  List.filterMap_append

theorem mem_proofs_of_verifying (es : List (Event Thread)) {thread : Thread}
    {proof : BenfordZKProof} (h : (cache.after env dumps es).verifying thread = some proof) :
    proof ∈ proofs es := by
  induction es using List.reverseRecOn with
  | nil => cases h
  | append_singleton es e ih =>
    rw [after_concat] at h
    rw [proofs_append, List.mem_append]
    cases e with
    | lookup thread' proof' now =>
      simp only [step] at h
      split at h
      · exact Or.inl (ih h)
      · dsimp only at h
        by_cases hsame : thread = thread'
        · subst hsame
          rw [Function.update_self] at h
          exact Or.inr (by simp [proofs, Option.some.inj h])
        · rw [Function.update_of_ne hsame] at h
          exact Or.inl (ih h)
    | store thread' now =>
      left
      simp only [step] at h
      split at h
      · exact ih h
      · by_cases hsame : thread = thread'
        · subst hsame
          split at h <;> simp at h
        · split at h <;> exact ih (by simpa [Function.update_of_ne hsame] using h)
    | invalidate key => exact Or.inl (ih h)
    | clear => exact Or.inl (ih h)

/-- No two proofs that are asked for have the same hash. -/
def NoHashClash (dumps : BenfordZKProof → Bytes) (es : List (Event Thread)) : Prop :=
  ∀ p ∈ proofs es, ∀ q ∈ proofs es, proofHash dumps p = proofHash dumps q → p = q

omit [DecidableEq Thread] in
theorem NoHashClash.of_concat {e : Event Thread} (h : NoHashClash dumps (es ++ [e])) :
    NoHashClash dumps es := by
  rw [NoHashClash, proofs_append] at h
  exact fun p hp q hq =>
    h p (List.mem_append_left _ hp) q (List.mem_append_left _ hq)

/-- A result that is found is that of a proof that was verified before. -/
theorem verify_of_hit (hclash : NoHashClash dumps es) {proof : BenfordZKProof}
    (hproof : proof ∈ proofs es) {before : List (Event Thread)} {e : Event Thread}
    (hes : es = before ++ [e])
    (hfind : (cache.after env dumps before).store.find? (proofHash dumps proof) = some entry) :
    entry.result = BenfordZKProver.verify env proof := by
  obtain ⟨first, thread, now, last, other, rfl, hverifying, hhash, hresult, -, -⟩ :=
    stored_of_find? before hfind
  have hother : other ∈ proofs es := by
    rw [hes, proofs_append, proofs_append]
    exact List.mem_append_left _ (List.mem_append_left _ (mem_proofs_of_verifying first hverifying))
  rw [hresult, hclash other hother proof hproof hhash]

/-- What the calls return is what `verify` returns. -/
theorem answers_verify (es : List (Event Thread)) (hclash : NoHashClash dumps es) :
    ∀ answer ∈ (cache.after env dumps es).answers,
      answer.2 = BenfordZKProver.verify env answer.1 := by
  induction es using List.reverseRecOn with
  | nil => intro answer h; cases h
  | append_singleton es e ih =>
    have hold := ih hclash.of_concat
    rw [after_concat]
    cases e with
    | lookup thread proof now =>
      have hproof : proof ∈ proofs (es ++ [Event.lookup thread proof now]) := by
        rw [proofs_append]
        exact List.mem_append_right _ (by simp [proofs])
      simp only [step]
      split
      · next result store hget =>
        obtain ⟨entry, hfind, -, hresult⟩ := exists_of_get (congrArg Prod.fst hget)
        intro answer hanswer
        rcases List.mem_append.mp hanswer with hanswer | hanswer
        · exact hold answer hanswer
        · rw [List.mem_singleton.mp hanswer, ← hresult]
          exact verify_of_hit hclash hproof rfl hfind
      · exact hold
    | store thread now =>
      simp only [step]
      split
      · exact hold
      · split
        · exact hold
        · intro answer hanswer
          rcases List.mem_append.mp hanswer with hanswer | hanswer
          · exact hold answer hanswer
          · rw [List.mem_singleton.mp hanswer]
    | invalidate key => exact hold
    | clear => exact hold

theorem length_after_le (hsize : 1 ≤ cache.maxSize) (es : List (Event Thread)) :
    (cache.after env dumps es).store.rows.length ≤ cache.maxSize := by
  induction es using List.reverseRecOn with
  | nil => exact Nat.zero_le _
  | append_singleton es e ih =>
    rw [after_concat]
    cases e with
    | lookup thread proof now =>
      have hget := (length_get_le (proofHash dumps proof) now _).trans ih
      simp only [step]
      split
      · next heq => rwa [heq] at hget
      · next heq => rwa [heq] at hget
    | store thread now =>
      simp only [step]
      split
      · exact ih
      · next proof _ =>
        obtain ⟨store', hput, hlength⟩ := exists_put hsize ih (proofHash dumps proof)
          (BenfordZKProver.verify env proof) now
        simp only [hput]
        exact hlength
    | invalidate key => exact (length_erase_le key).trans ih
    | clear => exact Nat.zero_le _

end Runs

/-- A cache is coherent with the runs of its threads. -/
structure Coherent (cache : ProofVerificationCache) (env : ZkEnv) (dumps : BenfordZKProof → Bytes)
    (es : List (Event Thread)) (s : State Thread) : Prop where
  /-- The calls return what `verify` returns. -/
  answers : ∀ answer ∈ s.answers, answer.2 = BenfordZKProver.verify env answer.1
  /-- What is found was put in by a thread within its lifetime, and was not taken out since then. -/
  hits : ∀ key now result, (get key now s.store).1 = some result →
    ∃ entry, cache.Stored env dumps es key entry ∧ entry.result = result ∧ now < entry.expiresAt
  size : s.store.rows.length ≤ cache.maxSize
  /-- `put` does not raise. -/
  room : ∀ key result now, (cache.put key result now s.store).isSome

/-- One entry at most, for five minutes or half a minute. -/
def oneEntry : ProofVerificationCache := ⟨300, 30, 1⟩

/-- A proof is verified, found and taken out. -/
def twice (proof : BenfordZKProof) : List (Event Unit) :=
  [.lookup () proof 0, .store () 1, .lookup () proof 2, .invalidate "", .clear]

end ProofVerificationCache

end LedgerLens.Integrations
