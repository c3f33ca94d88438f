import LedgerLens.Integrations.Keccak256
import LedgerLens.Library.UniqueTable
import Mathlib.Data.Finset.Card

/-!
# Guardian signatures of a bridge

A Wormhole VAA carries signatures of guardians over its body. `verify_vaa` counts them before
its loop and takes them one by one, their indices in ascending order. This file shows what an
accepted VAA has been signed by.

Recovering the public keys of a signature is a parameter. Base64 text is taken as decoded.
-/

namespace LedgerLens.Integrations

/-- A string of bytes. -/
abbrev Bytes := List UInt8

/-- `AttestationError` of `parse_vaa`. -/
inductive AttestationError where
  /-- `Unsupported VAA version`. -/
  | unsupportedVersion (version : ℕ)
  /-- `Truncated VAA`. -/
  | truncated
  deriving DecidableEq

/-- `WormholeVAA`. -/
structure WormholeVAA where
  /-- The guardian set that signs. -/
  guardianSetIndex : ℕ
  /-- Indices of guardians and their signatures `r||s||v`. -/
  signatures : List (ℕ × Bytes)
  /-- What is signed. -/
  body : Bytes
  /-- The fields of the body. -/
  timestamp : ℕ
  /-- See `timestamp`. -/
  nonce : ℕ
  /-- The chain that the message is from. -/
  emitterChain : ℕ
  /-- The contract that it is from. -/
  emitterAddress : Bytes
  /-- Its number. -/
  sequence : ℕ
  /-- The finality that was asked for. -/
  consistencyLevel : ℕ
  /-- The message. -/
  payload : Bytes
  deriving DecidableEq

/-- `WormholeVAA.digest`. -/
def WormholeVAA.digest (vaa : WormholeVAA) : Bytes := keccak256 (keccak256 vaa.body)

/-- A number from its bytes, the most significant one first. -/
def ofBigEndian (bytes : Bytes) : ℕ := bytes.foldl (fun acc b => acc * 256 + b.toNat) 0

/-- The bytes of a number, the most significant one first. -/
def toBigEndian (n x : ℕ) : Bytes := (Keccak256.toLittleEndian n x).reverse

/-- The loop over the signatures in `parse_vaa`, with what comes after them. -/
def readSignatures : ℕ → Bytes → Option (List (ℕ × Bytes) × Bytes)
  | 0, data => some ([], data)
  | n + 1, data =>
    match data with
    | [] => none
    | index :: rest =>
      match readSignatures n (data.drop 66) with
      | none => none
      | some (sigs, body) => some ((index.toNat, rest.take 65) :: sigs, body)

/-- The body of a VAA and its fields, if it is long enough for them. -/
def readBody (guardianSetIndex : ℕ) (signatures : List (ℕ × Bytes)) (body : Bytes) :
    Option WormholeVAA :=
  if body.length < 51 then none
  else some
    { guardianSetIndex := guardianSetIndex
      signatures := signatures
      body := body
      timestamp := ofBigEndian (body.take 4)
      nonce := ofBigEndian ((body.drop 4).take 4)
      emitterChain := ofBigEndian ((body.drop 8).take 2)
      emitterAddress := (body.drop 10).take 32
      sequence := ofBigEndian ((body.drop 42).take 8)
      consistencyLevel := (body.getD 50 0).toNat
      payload := body.drop 51 }

/-- `parse_vaa` of bytes. -/
def parseVaa (data : Bytes) : Except AttestationError WormholeVAA :=
  if data.length < 6 then .error .truncated
  else
    let version := (data.getD 0 0).toNat
    let gsi := ofBigEndian ((data.drop 1).take 4)
    let nSigs := (data.getD 5 0).toNat
    if version ≠ 1 then .error (.unsupportedVersion version)
    else
      match readSignatures nSigs (data.drop 6) with
      | none => .error .truncated
      | some (sigs, body) =>
        match readBody gsi sigs body with
        | none => .error .truncated
        | some vaa =>
          if vaa.emitterAddress.length ≠ 32 ∨ sigs.any (fun s => s.2.length ≠ 65) then
            .error .truncated
          else .ok vaa

/-- The bytes of a VAA: its version and header, its signatures and its body. -/
def WormholeVAA.encode (vaa : WormholeVAA) : Bytes :=
  1 :: toBigEndian 4 vaa.guardianSetIndex ++ UInt8.ofNat vaa.signatures.length ::
    vaa.signatures.flatMap (fun s => UInt8.ofNat s.1 :: s.2) ++ vaa.body

theorem toLittleEndian_ofLittleEndian (bytes : Bytes) :
    Keccak256.toLittleEndian bytes.length (Keccak256.ofLittleEndian bytes) = bytes := by
  induction bytes with
  | nil => rfl
  | cons b bytes ih =>
    have hb : b.toNat < 256 := b.toNat_lt
    have hvalue : Keccak256.ofLittleEndian (b :: bytes) =
        Keccak256.ofLittleEndian bytes * 256 + b.toNat := rfl
    have hlow : (Keccak256.ofLittleEndian bytes * 256 + b.toNat) % 256 = b.toNat := by omega
    have hhigh : (Keccak256.ofLittleEndian bytes * 256 + b.toNat) / 256 =
        Keccak256.ofLittleEndian bytes := by omega
    rw [List.length_cons, Keccak256.toLittleEndian, hvalue, hlow, hhigh, ih, UInt8.ofNat_toNat]

theorem length_toBigEndian (n x : ℕ) : (toBigEndian n x).length = n := by
  rw [toBigEndian, List.length_reverse]
  induction n generalizing x with
  | zero => rfl
  | succ n ih => rw [Keccak256.toLittleEndian, List.length_cons, ih]

/-- A number can be read back from its bytes, if there are enough of them. -/
theorem ofLittleEndian_toLittleEndian {n x : ℕ} (hx : x < 256 ^ n) :
    Keccak256.ofLittleEndian (Keccak256.toLittleEndian n x) = x := by
  induction n generalizing x with
  | zero =>
    obtain rfl : x = 0 := by simpa using hx
    rfl
  | succ n ih =>
    have hhigh : x / 256 < 256 ^ n := Nat.div_lt_of_lt_mul (by rwa [mul_comm, ← pow_succ])
    have hlow : (UInt8.ofNat (x % 256)).toNat = x % 256 :=
      UInt8.toNat_ofNat_of_lt' (Nat.mod_lt x (by omega))
    have hvalue : Keccak256.ofLittleEndian (Keccak256.toLittleEndian (n + 1) x) =
        Keccak256.ofLittleEndian (Keccak256.toLittleEndian n (x / 256)) * 256 +
          (UInt8.ofNat (x % 256)).toNat := rfl
    rw [hvalue, ih hhigh, hlow]
    omega

/-- A number read from bytes gives the bytes back. -/
theorem toBigEndian_ofBigEndian (bytes : Bytes) :
    toBigEndian bytes.length (ofBigEndian bytes) = bytes := by
  have hvalue : ofBigEndian bytes = Keccak256.ofLittleEndian bytes.reverse := by
    unfold ofBigEndian Keccak256.ofLittleEndian
    rw [List.foldr_reverse]
  have hbytes := toLittleEndian_ofLittleEndian bytes.reverse
  rw [List.length_reverse] at hbytes
  rw [toBigEndian, hvalue, hbytes, List.reverse_reverse]

/-- Signatures that are read in full are what the data begin with. -/
theorem readSignatures_bytes {n : ℕ} {data body : Bytes} {sigs : List (ℕ × Bytes)}
    (h : readSignatures n data = some (sigs, body)) (hfull : ∀ s ∈ sigs, s.2.length = 65) :
    sigs.length = n ∧ data = sigs.flatMap (fun s => UInt8.ofNat s.1 :: s.2) ++ body := by
  induction n generalizing data sigs with
  | zero =>
    obtain ⟨rfl, rfl⟩ := Prod.mk.inj (Option.some.inj h)
    exact ⟨rfl, rfl⟩
  | succ n ih =>
    cases data with
    | nil => cases h
    | cons index rest =>
      simp only [readSignatures, List.drop_succ_cons] at h
      cases hmore : readSignatures n (rest.drop 65) with
      | none => simp [hmore] at h
      | some more =>
        obtain ⟨sigs', body'⟩ := more
        simp only [hmore, Option.some.injEq, Prod.mk.injEq] at h
        obtain ⟨rfl, rfl⟩ := h
        obtain ⟨hlength, hrest⟩ := ih hmore fun s hs => hfull s (List.mem_cons_of_mem _ hs)
        refine ⟨by simp [hlength], ?_⟩
        rw [List.flatMap_cons, UInt8.ofNat_toNat, List.cons_append, List.cons_append,
          List.append_assoc, ← hrest, List.take_append_drop]

/-- What has been read when a VAA is parsed. -/
theorem read_of_parseVaa {data : Bytes} {vaa : WormholeVAA} (h : parseVaa data = .ok vaa) :
    6 ≤ data.length ∧ (data.getD 0 0).toNat = 1 ∧
      ∃ sigs body, readSignatures (data.getD 5 0).toNat (data.drop 6) = some (sigs, body) ∧
        readBody (ofBigEndian ((data.drop 1).take 4)) sigs body = some vaa ∧
        ∀ s ∈ sigs, s.2.length = 65 := by
  unfold parseVaa at h
  dsimp only at h
  split_ifs at h with hshort hversion
  cases hsigs : readSignatures (data.getD 5 0).toNat (data.drop 6) with
  | none =>
    rw [hsigs] at h
    cases h
  | some read =>
    obtain ⟨sigs, body⟩ := read
    cases hbody : readBody (ofBigEndian ((data.drop 1).take 4)) sigs body with
    | none =>
      simp only [hsigs, hbody] at h
      cases h
    | some parsed =>
      simp only [hsigs, hbody] at h
      split_ifs at h with htruncated
      obtain rfl := Except.ok.inj h
      refine ⟨not_lt.mp hshort, not_not.mp hversion, sigs, body, rfl, hbody, fun s hs => ?_⟩
      by_contra hne
      exact htruncated (Or.inr (List.any_eq_true.mpr ⟨s, hs, by simpa using hne⟩))

/-- The body and its fields. -/
theorem readBody_eq_some_iff {guardianSetIndex : ℕ} {sigs : List (ℕ × Bytes)} {body : Bytes}
    {vaa : WormholeVAA} :
    readBody guardianSetIndex sigs body = some vaa ↔ 51 ≤ body.length ∧
      vaa =
        { guardianSetIndex := guardianSetIndex
          signatures := sigs
          body := body
          timestamp := ofBigEndian (body.take 4)
          nonce := ofBigEndian ((body.drop 4).take 4)
          emitterChain := ofBigEndian ((body.drop 8).take 2)
          emitterAddress := (body.drop 10).take 32
          sequence := ofBigEndian ((body.drop 42).take 8)
          consistencyLevel := (body.getD 50 0).toNat
          payload := body.drop 51 } := by
  unfold readBody
  split_ifs with hshort
  · exact iff_of_false (by simp) fun h => absurd h.1 (not_le.mpr hshort)
  · rw [Option.some_inj, eq_comm, and_iff_right (not_lt.mp hshort)]

/-- A VAA is parsed when it has been read. -/
theorem parseVaa_of_read {data : Bytes} {vaa : WormholeVAA} (hlong : 6 ≤ data.length)
    (hversion : (data.getD 0 0).toNat = 1) {sigs : List (ℕ × Bytes)} {body : Bytes}
    (hsigs : readSignatures (data.getD 5 0).toNat (data.drop 6) = some (sigs, body))
    (hbody : readBody (ofBigEndian ((data.drop 1).take 4)) sigs body = some vaa)
    (hfull : ∀ s ∈ sigs, s.2.length = 65) : parseVaa data = .ok vaa := by
  have hemitter : vaa.emitterAddress.length = 32 := by
    obtain ⟨hlength, rfl⟩ := readBody_eq_some_iff.mp hbody
    dsimp only
    rw [List.length_take, List.length_drop]
    omega
  have hcomplete : ¬(vaa.emitterAddress.length ≠ 32 ∨ sigs.any (fun s => s.2.length ≠ 65)) := by
    rintro (hshort | hshort)
    · exact hshort hemitter
    · obtain ⟨s, hs, hne⟩ := List.any_eq_true.mp hshort
      exact of_decide_eq_true hne (hfull s hs)
  unfold parseVaa
  dsimp only
  rw [if_neg (not_lt.mpr hlong), if_neg (not_not.mpr hversion), hsigs]
  dsimp only
  rw [hbody]
  dsimp only
  rw [if_neg hcomplete]

/-- A VAA that is parsed is the bytes that it was parsed from. -/
theorem encode_of_parseVaa {data : Bytes} {vaa : WormholeVAA} (h : parseVaa data = .ok vaa) :
    vaa.encode = data := by
  obtain ⟨hlong, hversion, sigs, body, hsigs, hbody, hfull⟩ := read_of_parseVaa h
  obtain ⟨hcount, hdata⟩ := readSignatures_bytes hsigs hfull
  obtain ⟨-, rfl⟩ := readBody_eq_some_iff.mp hbody
  have hheader : toBigEndian 4 (ofBigEndian ((data.drop 1).take 4)) = (data.drop 1).take 4 := by
    have hfour : ((data.drop 1).take 4).length = 4 := by simp; omega
    have hbytes := toBigEndian_ofBigEndian ((data.drop 1).take 4)
    rwa [hfour] at hbytes
  have hsix : ∃ v a b c d n rest, data = v :: a :: b :: c :: d :: n :: rest := by
    match data, hlong with
    | v :: a :: b :: c :: d :: n :: rest, _ => exact ⟨v, a, b, c, d, n, rest, rfl⟩
    | [], h => simp at h
    | [_], h => simp at h
    | [_, _], h => simp at h
    | [_, _, _], h => simp at h
    | [_, _, _, _], h => simp at h
    | [_, _, _, _, _], h => simp at h
  obtain ⟨v, a, b, c, d, n, rest, rfl⟩ := hsix
  have hv : v = 1 := UInt8.toNat_inj.mp (by simpa using hversion)
  unfold WormholeVAA.encode
  dsimp only
  rw [hheader, hcount]
  simpa [hv] using hdata.symm

/-- Why `from_public_key_recovery_with_digest` gives no keys. -/
inductive RecoveryError where
  /-- `BadSignatureError`, `ValueError` or `AssertionError`, which are caught. -/
  | caught (reason : String)
  /-- Another exception. -/
  | raised (reason : String)
  deriving DecidableEq

/-- `VAAVerification`. -/
structure VAAVerification where
  /-- Whether the VAA is accepted. -/
  valid : Bool
  /-- Why not. -/
  reason : String
  /-- How many signatures were counted. -/
  validSignatures : ℕ := 0
  /-- How many there have to be. -/
  quorum : ℕ := 0
  deriving DecidableEq

section Verification

variable (recoverKeys : Bytes → Bytes → Except RecoveryError (List Bytes))

/-- `ecrecover_address`. The keys that are recovered from `r||s` and a digest are in the order
of their recovery ids. -/
def ecrecoverAddress (digest signature : Bytes) : Except RecoveryError (Option Bytes) :=
  let recid := (signature.getD 64 0).toNat
  if signature.length ≠ 65 ∨ recid > 3 then .ok none
  else
    match recoverKeys (signature.take 64) digest with
    | .error (.caught _) => .ok none
    | .error (.raised reason) => .error (.raised reason)
    | .ok keys =>
      match keys[recid]? with
      | none => .ok none
      | some key => .ok (some ((keccak256 key).drop 12))

/-- The loop of `verify_vaa`: the reason to reject a signature, if there is one. -/
def verifySignatures (digest : Bytes) (guardians : List Bytes) :
    ℤ → List (ℕ × Bytes) → Except RecoveryError (Option String)
  | _, [] => .ok none
  | last, (gIdx, sig) :: rest =>
    if (gIdx : ℤ) ≤ last then .ok (some "signature indices not ascending")
    else
      match guardians[gIdx]? with
      | none => .ok (some ("guardian index " ++ toString gIdx ++ " out of range"))
      | some guardian =>
        match ecrecoverAddress recoverKeys digest sig with
        | .error e => .error e
        | .ok address =>
          if address ≠ some guardian then
            .ok (some ("invalid signature from guardian " ++ toString gIdx))
          else verifySignatures digest guardians gIdx rest

/-- The quorum of a guardian set. -/
def quorumOf (guardians : List Bytes) : ℕ := guardians.length * 2 / 3 + 1

/-- `verify_vaa`. -/
def verifyVaa (vaa : WormholeVAA) (guardianSets : UniqueTable ℕ (List Bytes)) :
    Except RecoveryError VAAVerification :=
  match guardianSets.find? vaa.guardianSetIndex with
  | none =>
    .ok { valid := false, reason := "unknown guardian set " ++ toString vaa.guardianSetIndex }
  | some guardians =>
    let quorum := quorumOf guardians
    if vaa.signatures.length < quorum then .ok ⟨false, "insufficient signatures", 0, quorum⟩
    else
      match verifySignatures recoverKeys vaa.digest guardians (-1) vaa.signatures with
      | .error e => .error e
      | .ok (some reason) => .ok ⟨false, reason, 0, quorum⟩
      | .ok none => .ok ⟨true, "ok", vaa.signatures.length, quorum⟩

/-- `verify_vaa` returns `valid = True`. -/
def Accepted (vaa : WormholeVAA) (guardianSets : UniqueTable ℕ (List Bytes)) : Prop :=
  ∃ verification, verifyVaa recoverKeys vaa guardianSets = .ok verification ∧
    verification.valid = true

/-- A signature is one of the guardian at its index over a digest. -/
def SignedBy (digest : Bytes) (guardians : List Bytes) (s : ℕ × Bytes) : Prop :=
  ∃ guardian, guardians[s.1]? = some guardian ∧
    ecrecoverAddress recoverKeys digest s.2 = .ok (some guardian)

/-- The indices of a VAA's signatures. -/
def WormholeVAA.indices (vaa : WormholeVAA) : List ℕ := vaa.signatures.map Prod.fst

/-- A signature is repeated or out of order, or out of range, or wrong. -/
def WormholeVAA.Faulty (vaa : WormholeVAA) (guardians : List Bytes) : Prop :=
  (∃ before s between t after, vaa.signatures = before ++ s :: between ++ t :: after ∧ t.1 ≤ s.1) ∨
    (∃ s ∈ vaa.signatures, guardians.length ≤ s.1) ∨
      ∃ s ∈ vaa.signatures, ¬SignedBy recoverKeys vaa.digest guardians s

variable {recoverKeys} {digest : Bytes} {guardians : List Bytes}

/-- The loop goes through exactly when the indices ascend, from above the last one, and each
signature is its guardian's. -/
theorem verifySignatures_eq_none_iff (last : ℤ) (sigs : List (ℕ × Bytes)) :
    verifySignatures recoverKeys digest guardians last sigs = .ok none ↔
      (∀ s ∈ sigs, last < s.1) ∧ (sigs.map Prod.fst).Pairwise (· < ·) ∧
        ∀ s ∈ sigs, SignedBy recoverKeys digest guardians s := by
  induction sigs generalizing last with
  | nil => simp [verifySignatures]
  | cons s rest ih =>
    obtain ⟨gIdx, sig⟩ := s
    have hstep : verifySignatures recoverKeys digest guardians last ((gIdx, sig) :: rest) =
          .ok none ↔
        last < gIdx ∧ SignedBy recoverKeys digest guardians (gIdx, sig) ∧
          verifySignatures recoverKeys digest guardians gIdx rest = .ok none := by
      simp only [verifySignatures, SignedBy]
      by_cases hlast : (gIdx : ℤ) ≤ last
      · simp [hlast, not_lt.mpr hlast]
      · rw [if_neg hlast, and_iff_right (not_le.mp hlast)]
        cases hguardian : guardians[gIdx]? with
        | none => simp
        | some guardian =>
          cases haddress : ecrecoverAddress recoverKeys digest sig with
          | error e => simp
          | ok address =>
            by_cases hsame : address = some guardian
            · simp [hsame]
            · simp [hsame]
    rw [hstep, ih]
    simp only [List.forall_mem_cons, List.map_cons, List.pairwise_cons, List.mem_map,
      forall_exists_index, and_imp, forall_apply_eq_imp_iff₂]
    constructor
    · rintro ⟨hlast, hsigned, habove, hpairwise, hrest⟩
      exact ⟨⟨hlast, fun t ht => hlast.trans (habove t ht)⟩,
        ⟨fun t ht => Int.ofNat_lt.mp (habove t ht), hpairwise⟩, hsigned, hrest⟩
    · rintro ⟨⟨hlast, _⟩, ⟨habove, hpairwise⟩, hsigned, hrest⟩
      exact ⟨hlast, hsigned, fun t ht => Int.ofNat_lt.mpr (habove t ht), hpairwise, hrest⟩

variable {vaa : WormholeVAA} {guardianSets : UniqueTable ℕ (List Bytes)}

/-- A VAA is accepted exactly when its guardian set is known, there is a quorum of signatures,
their indices ascend, and each signature is its guardian's. -/
theorem accepted_iff :
    Accepted recoverKeys vaa guardianSets ↔
      ∃ guardians, guardianSets.find? vaa.guardianSetIndex = some guardians ∧
        quorumOf guardians ≤ vaa.signatures.length ∧ vaa.indices.Pairwise (· < ·) ∧
        ∀ s ∈ vaa.signatures, SignedBy recoverKeys vaa.digest guardians s := by
  unfold Accepted verifyVaa
  cases hset : guardianSets.find? vaa.guardianSetIndex with
  | none => simp
  | some guardians =>
    simp only [Option.some.injEq, exists_eq_left']
    by_cases hquorum : vaa.signatures.length < quorumOf guardians
    · simp [hquorum, not_le.mpr hquorum]
    · have hloop : verifySignatures recoverKeys vaa.digest guardians (-1) vaa.signatures =
          .ok none ↔ _ := verifySignatures_eq_none_iff (-1) vaa.signatures
      have hstart : ∀ s ∈ vaa.signatures, (-1 : ℤ) < s.1 := fun s _ => by omega
      rw [and_iff_right hstart] at hloop
      rw [if_neg hquorum, and_iff_right (not_lt.mp hquorum)]
      unfold WormholeVAA.indices
      rw [← hloop]
      cases hresult : verifySignatures recoverKeys vaa.digest guardians (-1) vaa.signatures with
      | error e => simp
      | ok reason => cases reason <;> simp

/-- An accepted VAA names a known guardian set, and a quorum of its members have signed the
digest: the places of the set that signed are pairwise different. -/
theorem exists_signers (h : Accepted recoverKeys vaa guardianSets) :
    ∃ guardians, guardianSets.find? vaa.guardianSetIndex = some guardians ∧
      ∃ signers : Finset ℕ, 2 * guardians.length / 3 + 1 ≤ signers.card ∧
        ∀ i ∈ signers, ∃ sig, (i, sig) ∈ vaa.signatures ∧
          SignedBy recoverKeys vaa.digest guardians (i, sig) := by
  obtain ⟨guardians, hset, hquorum, hascending, hsigned⟩ := accepted_iff.mp h
  have hnodup : vaa.indices.Nodup := hascending.imp fun hlt => Nat.ne_of_lt hlt
  refine ⟨guardians, hset, vaa.indices.toFinset, ?_, fun i hi => ?_⟩
  · rw [List.toFinset_card_of_nodup hnodup, WormholeVAA.indices, List.length_map]
    unfold quorumOf at hquorum
    omega
  · obtain ⟨s, hs, rfl⟩ := List.mem_map.mp (List.mem_toFinset.mp hi)
    exact ⟨s.2, hs, hsigned s hs⟩

/-- A VAA with a faulty signature is not accepted. -/
theorem not_accepted_of_faulty
    (hset : guardianSets.find? vaa.guardianSetIndex = some guardians)
    (hfaulty : vaa.Faulty recoverKeys guardians) : ¬Accepted recoverKeys vaa guardianSets := by
  intro h
  obtain ⟨known, hknown, _, hascending, hsigned⟩ := accepted_iff.mp h
  obtain rfl := Option.some.inj (hset.symm.trans hknown)
  obtain ⟨before, s, between, t, after, hsigs, hle⟩ | ⟨s, hs, hrange⟩ | ⟨s, hs, hwrong⟩ := hfaulty
  · unfold WormholeVAA.indices at hascending
    rw [hsigs, List.map_append, List.map_cons, List.pairwise_append] at hascending
    have hlt := hascending.2.2 s.1 (by simp) t.1 (by simp)
    omega
  · obtain ⟨guardian, hguardian, _⟩ := hsigned s hs
    rw [List.getElem?_eq_none hrange] at hguardian
    cases hguardian
  · exact hwrong (hsigned s hs)

end Verification

/-- What an accepted VAA has been signed by, for every way to recover keys and every table of
guardian sets: a quorum of different members of the named set, over the digest of its body.
Their addresses differ if the set has none twice. A VAA with a repeated, out-of-range,
out-of-order or wrong signature is not accepted. -/
theorem accepted_vaa_signed (recoverKeys : Bytes → Bytes → Except RecoveryError (List Bytes))
    (vaa : WormholeVAA) (guardianSets : UniqueTable ℕ (List Bytes)) :
    (Accepted recoverKeys vaa guardianSets →
      ∃ guardians, guardianSets.find? vaa.guardianSetIndex = some guardians ∧
        ∃ signers : Finset ℕ, 2 * guardians.length / 3 + 1 ≤ signers.card ∧
          (guardians.Nodup → (signers.image fun i => guardians[i]?).card = signers.card) ∧
          ∀ i ∈ signers, ∃ sig, (i, sig) ∈ vaa.signatures ∧
            SignedBy recoverKeys vaa.digest guardians (i, sig)) ∧
      ∀ guardians, guardianSets.find? vaa.guardianSetIndex = some guardians →
        vaa.Faulty recoverKeys guardians → ¬Accepted recoverKeys vaa guardianSets := by
  refine ⟨fun h => ?_, fun guardians hset hfaulty => not_accepted_of_faulty hset hfaulty⟩
  obtain ⟨guardians, hset, signers, hcard, hsigned⟩ := exists_signers h
  refine ⟨guardians, hset, signers, hcard, fun hnodup => ?_, hsigned⟩
  refine Finset.card_image_of_injOn fun i hi j hj hsame => ?_
  obtain ⟨_, _, guardian, hi', _⟩ := hsigned i hi
  obtain ⟨_, _, other, hj', _⟩ := hsigned j hj
  obtain ⟨hlt, _⟩ := List.getElem?_eq_some_iff.mp hi'
  exact (List.getElem?_inj hlt hnodup).mp hsame

section Example

/-- A message of an empty transfer. -/
def sampleBody : Bytes :=
  toBigEndian 4 1 ++ toBigEndian 4 2 ++ toBigEndian 2 1 ++ toBigEndian 32 4 ++ toBigEndian 8 9 ++
    [1, 3]

/-- The two keys that may have signed `sampleBody` with the signature in `sampleVaa`. -/
def sampleKeys : List Bytes :=
  [toBigEndian 32 0x79be667ef9dcbbac55a06295ce870b07029bfcdb2dce28d959f2815b16f81798 ++
      toBigEndian 32 0x483ada7726a3c4655da4fbfc0e1108a8fd17b448a68554199c47d08ffb10d4b8,
    toBigEndian 32 0xe1d98bb2a9c11be6f52cf628f10f2baa571e0f6502f135dd3fe5304a01acb8b7 ++
      toBigEndian 32 0x02dfaf9d47aee9e92234fe095ac43619f866a4863a1a26cdafc6924384370716]

/-- The signature of the first of `sampleKeys`. -/
def sampleSignature : Bytes :=
  toBigEndian 32 0xc6047f9441ed7d6d3045406e95c07cd85c778e4b8cef3ca7abac09b95c709ee5 ++
    toBigEndian 32 0xb23c9ececd8f39675c880f0125c6dac537a09db08004013e9102b64249543e9d

/-- The recovery of keys, at the signature and digest of `sampleVaa`. -/
def sampleRecovery (rs digest : Bytes) : Except RecoveryError (List Bytes) :=
  if rs = sampleSignature ∧ digest = toBigEndian 32
      0x9e74be095930f56188cadd93b5cd38b212c9ad157318c5d5765962cb3637de55 then .ok sampleKeys
  else .error (.caught "")

/-- A VAA signed by the only guardian of its set. -/
def sampleVaa : Bytes :=
  1 :: toBigEndian 4 0 ++ 1 :: 0 :: sampleSignature ++ 0 :: sampleBody

/-- The set of that guardian. -/
def sampleSets : UniqueTable ℕ (List Bytes) :=
  UniqueTable.empty.put 0 [toBigEndian 20 0x7e5f4552091a69125d5dfcb7b8c2659029395bdf]

/-- That VAA is accepted, and its guardian has signed it. -/
theorem sampleVaa_signed :
    ∃ vaa guardians signers, parseVaa sampleVaa = .ok vaa ∧
      sampleSets.find? vaa.guardianSetIndex = some guardians ∧
      2 * guardians.length / 3 + 1 ≤ (signers : Finset ℕ).card ∧
      ∀ i ∈ signers, ∃ sig, (i, sig) ∈ vaa.signatures ∧
        SignedBy sampleRecovery vaa.digest guardians (i, sig) := by
  have hverified : (parseVaa sampleVaa).toOption.any (fun vaa =>
      decide (verifyVaa sampleRecovery vaa sampleSets = .ok ⟨true, "ok", 1, 1⟩)) = true := by
    decide +kernel
  obtain ⟨vaa, hvaa, hverify⟩ := (Option.any_eq_true _ _).mp hverified
  have hparse : parseVaa sampleVaa = .ok vaa := by
    cases hcase : parseVaa sampleVaa with
    | error e => simp [hcase, Except.toOption] at hvaa
    | ok parsed =>
      rw [hcase] at hvaa
      rw [← Option.some.inj hvaa]
  have haccepted : Accepted sampleRecovery vaa sampleSets := ⟨_, of_decide_eq_true hverify, rfl⟩
  obtain ⟨guardians, hset, signers, hcard, _, hsigned⟩ :=
    (accepted_vaa_signed sampleRecovery vaa sampleSets).1 haccepted
  exact ⟨vaa, guardians, signers, hparse, hset, hcard, hsigned⟩

end Example

end LedgerLens.Integrations
