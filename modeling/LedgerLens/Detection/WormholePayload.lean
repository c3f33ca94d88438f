import LedgerLens.Integrations.BridgeAttestation
import LedgerLens.Library.Sha256

/-!
# The second parser of Wormhole VAAs

The resolver of Solana transfers has a VAA parser of its own. It takes a signature to be 65
bytes long, where `parse_vaa` reads the index of the guardian and 65 bytes more, so that it
looks for the body too early by one byte for each signature. This file says for which VAAs the
two parsers read the same fields.
-/

namespace LedgerLens.Detection

open Integrations

/-- `bytes.hex()`. -/
def hexString (bytes : List UInt8) : String :=
  String.ofList (bytes.flatMap fun b =>
    [Sha256.hexDigit (b.toNat / 16), Sha256.hexDigit (b.toNat % 16)])

/-- `WormholeVAAValidationError`. -/
inductive WormholeVAAValidationError where
  /-- `Unsupported VAA version`. -/
  | unsupportedVersion (version : ℕ)
  /-- `VAA payload too short`. -/
  | vaaPayloadTooShort
  /-- `Payload too short`. -/
  | payloadTooShort
  deriving DecidableEq

/-- The dictionary that `parse_wormhole_vaa_payload` returns; `token` and `amount` are always
`None`. -/
structure WormholeVAAInfo where
  /-- `vaa_version`. -/
  vaaVersion : ℕ
  /-- `guardian_set_index`. -/
  guardianSetIndex : ℕ
  /-- `signature_count`. -/
  signatureCount : ℕ
  /-- `timestamp`. -/
  timestamp : ℕ
  /-- `nonce`. -/
  nonce : ℕ
  /-- `emitter_chain`. -/
  emitterChain : ℕ
  /-- `emitter_address`, in hexadecimal. -/
  emitterAddress : String
  /-- `sequence`. -/
  sequence : ℕ
  /-- `consistency_level`. -/
  consistencyLevel : ℕ
  /-- `payload_type`. -/
  payloadType : ℕ
  /-- `destination_chain`. -/
  destinationChain : ℕ
  /-- `destination_address`, in hexadecimal. -/
  destinationAddress : String
  deriving DecidableEq

/-- Some bytes of a string, as a slice. -/
def slice (data : List UInt8) (offset length : ℕ) : List UInt8 := (data.drop offset).take length

/-- `parse_wormhole_vaa_payload`. An index outside of the data gives `None`. -/
def parseWormholeVaaPayload (data : List UInt8) :
    Except WormholeVAAValidationError (Option WormholeVAAInfo) :=
  match data with
  | [] => .ok none
  | version :: _ =>
    if version ≠ 1 then .error (.unsupportedVersion version.toNat)
    else if data.length < 20 then .ok none
    else
      match data[5]? with
      | none => .ok none
      | some signatureCount =>
        let offset := 6 + signatureCount.toNat * 65
        if data.length < offset + 19 then .error .vaaPayloadTooShort
        else
          match data[offset + 50]? with
          | none => .ok none
          | some consistencyLevel =>
            if data.length < offset + 51 + 3 then .error .payloadTooShort
            else
              match data[offset + 51]? with
              | none => .ok none
              | some payloadType =>
                .ok (some
                  { vaaVersion := version.toNat
                    guardianSetIndex := ofBigEndian (slice data 1 4)
                    signatureCount := signatureCount.toNat
                    timestamp := ofBigEndian (slice data offset 4)
                    nonce := ofBigEndian (slice data (offset + 4) 4)
                    emitterChain := ofBigEndian (slice data (offset + 8) 2)
                    emitterAddress := hexString (slice data (offset + 10) 32)
                    sequence := ofBigEndian (slice data (offset + 42) 8)
                    consistencyLevel := consistencyLevel.toNat
                    payloadType := payloadType.toNat
                    destinationChain := ofBigEndian (slice data (offset + 52) 2)
                    destinationAddress :=
                      if data.length > offset + 54 then hexString (slice data (offset + 54) 32)
                      else "" })

/-- The fields that a dictionary has in common with what `parse_vaa` returns. -/
structure WormholeVAAInfo.Agrees (info : WormholeVAAInfo) (vaa : WormholeVAA) : Prop where
  guardianSetIndex : info.guardianSetIndex = vaa.guardianSetIndex
  signatureCount : info.signatureCount = vaa.signatures.length
  timestamp : info.timestamp = vaa.timestamp
  nonce : info.nonce = vaa.nonce
  emitterChain : info.emitterChain = vaa.emitterChain
  emitterAddress : info.emitterAddress = hexString vaa.emitterAddress
  sequence : info.sequence = vaa.sequence
  consistencyLevel : info.consistencyLevel = vaa.consistencyLevel
  payloadType : some info.payloadType = vaa.payload.head?.map UInt8.toNat

/-- What `parse_vaa` accepts with a payload of at least three bytes, the other parser reads in
the same way. -/
def ParsersAgree (data : List UInt8) : Prop :=
  ∀ vaa, parseVaa data = .ok vaa → 3 ≤ vaa.payload.length →
    ∃ info, parseWormholeVaaPayload data = .ok (some info) ∧ info.Agrees vaa

/-- The 52 bytes that begin as many bytes before the body as there are signatures repeat the
first 52 bytes of the body. Without signatures they are the same bytes. -/
def RepeatsBody (data : List UInt8) : Prop :=
  let signatureCount := (data.getD 5 0).toNat
  slice data (6 + signatureCount * 65) 52 = slice data (6 + signatureCount * 66) 52

/-- Hexadecimal digits tell numbers apart. -/
theorem hexDigit_inj : ∀ m n : Fin 16, Sha256.hexDigit m = Sha256.hexDigit n → m = n := by
  decide +kernel

/-- Bytes can be read back from their hexadecimal form. -/
theorem hexString_inj {a b : List UInt8} (h : hexString a = hexString b) : a = b := by
  have hchars := String.ofList_injective h
  induction a generalizing b with
  | nil =>
    cases b with
    | nil => rfl
    | cons y b => cases hchars
  | cons x a ih =>
    cases b with
    | nil => cases hchars
    | cons y b =>
      have hx := x.toNat_lt
      have hy := y.toNat_lt
      simp only [List.flatMap_cons, List.cons_append, List.nil_append, List.cons.injEq] at hchars
      obtain ⟨hhigh, hlow, hrest⟩ := hchars
      have hhigh' := hexDigit_inj ⟨x.toNat / 16, by omega⟩ ⟨y.toNat / 16, by omega⟩ hhigh
      have hlow' := hexDigit_inj ⟨x.toNat % 16, by omega⟩ ⟨y.toNat % 16, by omega⟩ hlow
      have hdiv : x.toNat / 16 = y.toNat / 16 := congrArg Fin.val hhigh'
      have hmod : x.toNat % 16 = y.toNat % 16 := congrArg Fin.val hlow'
      have hxy : x = y := UInt8.toNat_inj.mp (by omega)
      rw [hxy, ih (congrArg String.ofList hrest) hrest]

/-- Numbers of equally many bytes are equal only if the bytes are. -/
theorem ofBigEndian_inj {a b : List UInt8} (hlength : a.length = b.length)
    (h : ofBigEndian a = ofBigEndian b) : a = b := by
  have ha := toBigEndian_ofBigEndian a
  rw [h, hlength, toBigEndian_ofBigEndian] at ha
  exact ha.symm

/-- What `parse_vaa` has read where. -/
structure ReadAt (data : List UInt8) (vaa : WormholeVAA) : Prop where
  /-- The version. -/
  version : data.getD 0 0 = 1
  /-- The header. -/
  guardianSetIndex : vaa.guardianSetIndex = ofBigEndian (slice data 1 4)
  /-- Its last byte. -/
  count : vaa.signatures.length = (data.getD 5 0).toNat
  /-- The body begins after the signatures with their indices. -/
  body : vaa.body = data.drop (6 + (data.getD 5 0).toNat * 66)
  /-- The fields are those of the body. -/
  fields : readBody vaa.guardianSetIndex vaa.signatures vaa.body = some vaa

/-- Signatures that are read in full take 66 bytes each. -/
theorem length_signatures {sigs : List (ℕ × List UInt8)} (h : ∀ s ∈ sigs, s.2.length = 65) :
    (sigs.flatMap fun s => UInt8.ofNat s.1 :: s.2).length = sigs.length * 66 := by
  induction sigs with
  | nil => rfl
  | cons s sigs ih =>
    have hs := h s List.mem_cons_self
    have hrest := ih fun s' hs' => h s' (List.mem_cons_of_mem _ hs')
    rw [List.flatMap_cons, List.length_append, hrest, List.length_cons, List.length_cons, hs]
    omega

/-- The places that `parse_vaa` reads. -/
theorem readAt_of_parseVaa {data : List UInt8} {vaa : WormholeVAA} (h : parseVaa data = .ok vaa) :
    ReadAt data vaa := by
  unfold parseVaa at h
  dsimp only at h
  split_ifs at h with hshort hversion
  cases hsigs : readSignatures (data.getD 5 0).toNat (data.drop 6) with
  | none =>
    rw [hsigs] at h
    cases h
  | some read =>
    obtain ⟨sigs, body⟩ := read
    cases hbody : readBody (ofBigEndian ((data.drop 1).take 4)) sigs body with
    | none =>
      simp only [hsigs, hbody] at h
      cases h
    | some parsed =>
      simp only [hsigs, hbody] at h
      split_ifs at h with htruncated
      obtain rfl := Except.ok.inj h
      have hfull : ∀ s ∈ sigs, s.2.length = 65 := by
        intro s hs
        by_contra hne
        exact htruncated (Or.inr (List.any_eq_true.mpr ⟨s, hs, by simpa using hne⟩))
      obtain ⟨hcount, hdata⟩ := readSignatures_bytes hsigs hfull
      have hfields : parsed.guardianSetIndex = ofBigEndian ((data.drop 1).take 4) ∧
          parsed.signatures = sigs ∧ parsed.body = body := by
        unfold readBody at hbody
        split_ifs at hbody
        obtain rfl := Option.some.inj hbody
        exact ⟨rfl, rfl, rfl⟩
      obtain ⟨hgsi, hsignatures, hbodyEq⟩ := hfields
      have hdrop : body = data.drop (6 + (data.getD 5 0).toNat * 66) := by
        rw [← List.drop_drop, hdata, List.drop_append, length_signatures hfull, hcount,
          Nat.sub_self, List.drop_zero, List.drop_eq_nil_of_le, List.nil_append]
        rw [length_signatures hfull, hcount]
      exact
        { version := UInt8.toNat_inj.mp (by simpa using hversion)
          guardianSetIndex := hgsi
          count := by rw [hsignatures, hcount]
          body := by rw [hbodyEq, hdrop]
          fields := by rw [hgsi, hsignatures, hbodyEq, hbody] }

/-- Two slices are equal exactly if their first parts are and their second parts are. -/
theorem slice_add_eq_iff (data : List UInt8) {i j m : ℕ} (n : ℕ) (hi : i + m ≤ data.length)
    (hj : j + m ≤ data.length) :
    slice data i (m + n) = slice data j (m + n) ↔
      slice data i m = slice data j m ∧ slice data (i + m) n = slice data (j + m) n := by
  have hsplit : ∀ i, slice data i (m + n) = slice data i m ++ slice data (i + m) n := by
    intro i
    unfold slice
    rw [List.take_add, List.drop_drop]
  have hlength : (slice data i m).length = (slice data j m).length := by
    simp only [slice, List.length_take, List.length_drop]
    omega
  rw [hsplit, hsplit]
  constructor
  · exact fun h => List.append_inj h hlength
  · rintro ⟨hm, hn⟩
    rw [hm, hn]

/-- Two slices of one byte. -/
theorem slice_one_eq_iff {data : List UInt8} {i j : ℕ} (hi : i < data.length)
    (hj : j < data.length) :
    slice data i 1 = slice data j 1 ↔ (data.getD i 0).toNat = (data.getD j 0).toNat := by
  have hone : ∀ k, k < data.length → slice data k 1 = [data.getD k 0] := by
    intro k hk
    unfold slice
    rw [List.drop_eq_getElem_cons hk, List.take_succ_cons, List.take_zero, List.getD_eq_getElem]
  rw [hone i hi, hone j hj, List.singleton_inj, UInt8.toNat_inj]

/-- Two numbers of equally many bytes. -/
theorem ofBigEndian_slice_eq_iff {data : List UInt8} {i j n : ℕ} (hi : i + n ≤ data.length)
    (hj : j + n ≤ data.length) :
    ofBigEndian (slice data i n) = ofBigEndian (slice data j n) ↔
      slice data i n = slice data j n := by
  refine ⟨ofBigEndian_inj ?_, fun h => by rw [h]⟩
  simp only [slice, List.length_take, List.length_drop]
  omega

/-- The fields of the 52 bytes in two places are the same exactly if the bytes are. -/
theorem fields_eq_iff {data : List UInt8} {i j : ℕ} (hi : i + 52 ≤ data.length)
    (hj : j + 52 ≤ data.length) :
    slice data i 52 = slice data j 52 ↔
      ofBigEndian (slice data i 4) = ofBigEndian (slice data j 4) ∧
      ofBigEndian (slice data (i + 4) 4) = ofBigEndian (slice data (j + 4) 4) ∧
      ofBigEndian (slice data (i + 8) 2) = ofBigEndian (slice data (j + 8) 2) ∧
      hexString (slice data (i + 10) 32) = hexString (slice data (j + 10) 32) ∧
      ofBigEndian (slice data (i + 42) 8) = ofBigEndian (slice data (j + 42) 8) ∧
      (data.getD (i + 50) 0).toNat = (data.getD (j + 50) 0).toNat ∧
      (data.getD (i + 51) 0).toNat = (data.getD (j + 51) 0).toNat := by
  have hhex : hexString (slice data (i + 10) 32) = hexString (slice data (j + 10) 32) ↔
      slice data (i + 10) 32 = slice data (j + 10) 32 := ⟨hexString_inj, fun h => by rw [h]⟩
  rw [ofBigEndian_slice_eq_iff (by omega) (by omega),
    ofBigEndian_slice_eq_iff (by omega) (by omega),
    ofBigEndian_slice_eq_iff (by omega) (by omega), hhex,
    ofBigEndian_slice_eq_iff (by omega) (by omega),
    ← slice_one_eq_iff (by omega) (by omega), ← slice_one_eq_iff (by omega) (by omega)]
  have h4 := slice_add_eq_iff data (i := i) (j := j) (m := 4) 48 (by omega) (by omega)
  have h8 := slice_add_eq_iff data (i := i + 4) (j := j + 4) (m := 4) 44 (by omega)
    (by omega)
  have h10 := slice_add_eq_iff data (i := i + 8) (j := j + 8) (m := 2) 42 (by omega)
    (by omega)
  have h42 := slice_add_eq_iff data (i := i + 10) (j := j + 10) (m := 32) 10 (by omega)
    (by omega)
  have h50 := slice_add_eq_iff data (i := i + 42) (j := j + 42) (m := 8) 2 (by omega)
    (by omega)
  have h51 := slice_add_eq_iff data (i := i + 50) (j := j + 50) (m := 1) 1 (by omega)
    (by omega)
  rw [h4, h8, h10, h42, h50, h51]

/-- What the second parser reads of data of version 1 that are long enough for it. -/
theorem parseWormholeVaaPayload_of_length {data : List UInt8} {offset : ℕ}
    (hversion : data.getD 0 0 = 1) (hoffset : offset = 6 + (data.getD 5 0).toNat * 65)
    (hlength : offset + 54 ≤ data.length) :
    ∃ info, parseWormholeVaaPayload data = .ok (some info) ∧
      info.guardianSetIndex = ofBigEndian (slice data 1 4) ∧
      info.signatureCount = (data.getD 5 0).toNat ∧
      info.timestamp = ofBigEndian (slice data offset 4) ∧
      info.nonce = ofBigEndian (slice data (offset + 4) 4) ∧
      info.emitterChain = ofBigEndian (slice data (offset + 8) 2) ∧
      info.emitterAddress = hexString (slice data (offset + 10) 32) ∧
      info.sequence = ofBigEndian (slice data (offset + 42) 8) ∧
      info.consistencyLevel = (data.getD (offset + 50) 0).toNat ∧
      info.payloadType = (data.getD (offset + 51) 0).toNat := by
  have hindex : ∀ k, k < data.length → data[k]? = some (data.getD k 0) := by
    intro k hk
    rw [List.getD_eq_getElem _ _ hk, List.getElem?_eq_getElem hk]
  cases data with
  | nil => simp at hlength
  | cons version rest =>
    obtain rfl : version = 1 := hversion
    have hcount := hindex 5 (by omega)
    have hconsistency := hindex (offset + 50) (by omega)
    have hpayload := hindex (offset + 51) (by omega)
    unfold parseWormholeVaaPayload
    dsimp only
    rw [if_neg (by simp), if_neg (by omega), hcount]
    dsimp only
    rw [← hoffset, if_neg (by omega), hconsistency]
    dsimp only
    rw [if_neg (by omega), hpayload]
    exact ⟨_, rfl, rfl, rfl, rfl, rfl, rfl, rfl, rfl, rfl, rfl⟩

/-- What `parse_vaa` reads of data with a payload of at least three bytes. -/
theorem ReadAt.fields_of_payload {data : List UInt8} {vaa : WormholeVAA} {offset : ℕ}
    (hread : ReadAt data vaa) (hoffset : offset = 6 + (data.getD 5 0).toNat * 66)
    (hpayload : 3 ≤ vaa.payload.length) :
    offset + 54 ≤ data.length ∧
      vaa.timestamp = ofBigEndian (slice data offset 4) ∧
      vaa.nonce = ofBigEndian (slice data (offset + 4) 4) ∧
      vaa.emitterChain = ofBigEndian (slice data (offset + 8) 2) ∧
      vaa.emitterAddress = slice data (offset + 10) 32 ∧
      vaa.sequence = ofBigEndian (slice data (offset + 42) 8) ∧
      vaa.consistencyLevel = (data.getD (offset + 50) 0).toNat ∧
      vaa.payload.head?.map UInt8.toNat = some (data.getD (offset + 51) 0).toNat := by
  have hfields := hread.fields
  have hbody := hread.body
  rw [← hoffset] at hbody
  unfold readBody at hfields
  split_ifs at hfields with hshort
  have hvaa := (Option.some.inj hfields).symm
  have hslice : ∀ k n, (vaa.body.drop k).take n = slice data (offset + k) n := by
    intro k n
    rw [hbody, List.drop_drop, slice]
  have hbyte : vaa.body.getD 50 0 = data.getD (offset + 50) 0 := by
    rw [hbody, List.getD_eq_getElem?_getD, List.getD_eq_getElem?_getD, List.getElem?_drop]
  have hdrop : vaa.payload = data.drop (offset + 51) := by
    have hpart : vaa.payload = vaa.body.drop 51 := congrArg WormholeVAA.payload hvaa
    rw [hpart, hbody, List.drop_drop]
  have hdata : offset + 54 ≤ data.length := by
    rw [hdrop, List.length_drop] at hpayload
    omega
  have hhead : vaa.payload.head?.map UInt8.toNat = some (data.getD (offset + 51) 0).toNat := by
    rw [hdrop, List.head?_drop, List.getElem?_eq_getElem (by omega), Option.map_some,
      List.getD_eq_getElem]
  exact ⟨hdata,
    (congrArg WormholeVAA.timestamp hvaa).trans (congrArg ofBigEndian (hslice 0 4)),
    (congrArg WormholeVAA.nonce hvaa).trans (congrArg ofBigEndian (hslice 4 4)),
    (congrArg WormholeVAA.emitterChain hvaa).trans (congrArg ofBigEndian (hslice 8 2)),
    (congrArg WormholeVAA.emitterAddress hvaa).trans (hslice 10 32),
    (congrArg WormholeVAA.sequence hvaa).trans (congrArg ofBigEndian (hslice 42 8)),
    (congrArg WormholeVAA.consistencyLevel hvaa).trans (congrArg UInt8.toNat hbyte), hhead⟩

/-- For every byte string, the second parser agrees with `parse_vaa` exactly if the string is
not accepted with a payload of three bytes or repeats its body. -/
theorem parsersAgree_iff (data : List UInt8) :
    ParsersAgree data ↔
      ∀ vaa, parseVaa data = .ok vaa → 3 ≤ vaa.payload.length → RepeatsBody data := by
  unfold ParsersAgree
  refine forall_congr' fun vaa => forall_congr' fun hvaa => forall_congr' fun hpayload => ?_
  have hread := readAt_of_parseVaa hvaa
  obtain ⟨i, hi⟩ : ∃ i, i = 6 + (data.getD 5 0).toNat * 65 := ⟨_, rfl⟩
  obtain ⟨j, hj⟩ : ∃ j, j = 6 + (data.getD 5 0).toNat * 66 := ⟨_, rfl⟩
  have hrepeats : RepeatsBody data ↔ slice data i 52 = slice data j 52 := by
    rw [hi, hj]
    exact Iff.rfl
  obtain ⟨hdata, htimestamp', hnonce', hchain', haddress', hsequence', hconsistency', hhead⟩ :=
    hread.fields_of_payload hj hpayload
  obtain ⟨info, hparse, hgsi, hcount, htimestamp, hnonce, hchain, haddress, hsequence,
    hconsistency, htype⟩ := parseWormholeVaaPayload_of_length hread.version hi (by omega)
  rw [hrepeats, fields_eq_iff (by omega) (by omega)]
  constructor
  · rintro ⟨info', hparse', hagrees⟩
    obtain rfl : info' = info := Option.some.inj (Except.ok.inj (hparse'.symm.trans hparse))
    refine ⟨?_, ?_, ?_, ?_, ?_, ?_, ?_⟩
    · rw [← htimestamp, hagrees.timestamp, htimestamp']
    · rw [← hnonce, hagrees.nonce, hnonce']
    · rw [← hchain, hagrees.emitterChain, hchain']
    · rw [← haddress, hagrees.emitterAddress, haddress']
    · rw [← hsequence, hagrees.sequence, hsequence']
    · rw [← hconsistency, hagrees.consistencyLevel, hconsistency']
    · have htype' := hagrees.payloadType
      rw [hhead, htype] at htype'
      exact Option.some.inj htype'
  · rintro ⟨h₁, h₂, h₃, h₄, h₅, h₆, h₇⟩
    refine ⟨info, hparse, ?_⟩
    exact
      { guardianSetIndex := by rw [hgsi, hread.guardianSetIndex]
        signatureCount := by rw [hcount, hread.count]
        timestamp := by rw [htimestamp, h₁, htimestamp']
        nonce := by rw [hnonce, h₂, hnonce']
        emitterChain := by rw [hchain, h₃, hchain']
        emitterAddress := by rw [haddress, h₄, haddress']
        sequence := by rw [hsequence, h₅, hsequence']
        consistencyLevel := by rw [hconsistency, h₆, hconsistency']
        payloadType := by rw [htype, h₇, hhead] }

/-- A VAA without signatures meets the condition. -/
theorem repeatsBody_of_unsigned {data : List UInt8} (h : data.getD 5 0 = 0) : RepeatsBody data := by
  unfold RepeatsBody
  rw [h]
  rfl

/-- A VAA with one signature of zeros, of chain 2 and with a payload of type 1. -/
def signedVaa : List UInt8 :=
  [[1, 0, 0, 0, 7, 1], List.replicate 66 0, [0, 0, 0, 9, 0, 0, 0, 8, 0, 2],
    List.replicate 32 5, [0, 0, 0, 0, 0, 0, 0, 6, 15, 1, 0, 2]].flatten

/-- The two parsers disagree about it. -/
theorem signedVaa_not_agreed : ¬ParsersAgree signedVaa := by
  intro h
  have haccepted : (parseVaa signedVaa).toOption.map (fun vaa =>
      (vaa.payload.length, vaa.timestamp)) = some (3, 9) := by decide +kernel
  cases hvaa : parseVaa signedVaa with
  | error e =>
    rw [hvaa] at haccepted
    cases haccepted
  | ok vaa =>
    rw [hvaa] at haccepted
    obtain ⟨hlength, htimestamp⟩ := Prod.mk.inj (Option.some.inj haccepted)
    obtain ⟨info, hinfo, hagrees⟩ := h vaa hvaa hlength.ge
    have hread : (parseWormholeVaaPayload signedVaa).toOption.join.map
        WormholeVAAInfo.timestamp = some 9 := by
      rw [hinfo, ← htimestamp, ← hagrees.timestamp]
      rfl
    exact absurd hread (by decide +kernel)

end LedgerLens.Detection
