import LedgerLens.Integrations.BridgeAttestation

/-!
# The layout of a VAA

Which bytes `parse_vaa` accepts. Its `try` block may raise `struct.error` and `IndexError`, while
slices that go past the end are only shorter, so that the parser is given here once more with each
of its steps: `unpack_from` and indexing fail by themselves, and what is caught is seen.
-/

namespace LedgerLens.Integrations

/-- What the steps of `parse_vaa` raise. -/
inductive ParseException where
  /-- `struct.error`. -/
  | structError
  /-- `IndexError`. -/
  | indexError
  /-- `AttestationError`. -/
  | attestation (error : AttestationError)
  deriving DecidableEq

/-- `data[i]`. -/
def byteAt (data : Bytes) (i : ℕ) : Except ParseException ℕ :=
  match data[i]? with
  | some b => .ok b.toNat
  | none => .error .indexError

/-- `data[i:j]`. -/
def sliceOf (data : Bytes) (i j : ℕ) : Bytes := (data.drop i).take (j - i)

/-- `struct.unpack_from` of a big endian number with a certain size. -/
def unpackOne (size : ℕ) (data : Bytes) (offset : ℕ) : Except ParseException ℕ :=
  if data.length < offset + size then .error .structError
  else .ok (ofBigEndian (sliceOf data offset (offset + size)))

/-- `struct.unpack_from` of three big endian numbers with certain sizes. -/
def unpackThree (a b c : ℕ) (data : Bytes) (offset : ℕ) : Except ParseException (ℕ × ℕ × ℕ) :=
  if data.length < offset + a + b + c then .error .structError
  else .ok (ofBigEndian (sliceOf data offset (offset + a)),
    ofBigEndian (sliceOf data (offset + a) (offset + a + b)),
    ofBigEndian (sliceOf data (offset + a + b) (offset + a + b + c)))

/-- The loop over the signatures, from an offset. -/
def readRecords (data : Bytes) : ℕ → ℕ → Except ParseException (List (ℕ × Bytes))
  | 0, _ => .ok []
  | n + 1, off => do
    let index ← byteAt data off
    let sigs ← readRecords data n (off + 66)
    return (index, sliceOf data (off + 1) (off + 66)) :: sigs

/-- The fields of the body in the `try` block of `parse_vaa`. -/
def parseBodyFields (gsi : ℕ) (sigs : List (ℕ × Bytes)) (body : Bytes) :
    Except ParseException WormholeVAA := do
  let (ts, nonce, chain) ← unpackThree 4 4 2 body 0
  let emitter := sliceOf body 10 42
  let sequence ← unpackOne 8 body 42
  let consistency ← byteAt body 50
  let payload := body.drop 51
  return ⟨gsi, sigs, body, ts, nonce, chain, emitter, sequence, consistency, payload⟩

/-- The `try` block of `parse_vaa`. -/
def parseFields (data : Bytes) : Except ParseException WormholeVAA := do
  let (version, gsi, nSigs) ← unpackThree 1 4 1 data 0
  if version ≠ 1 then .error (.attestation (.unsupportedVersion version))
  else
    let sigs ← readRecords data nSigs 6
    parseBodyFields gsi sigs (data.drop (6 + 66 * nSigs))

/-- `parse_vaa`. -/
def parseVaaSteps (data : Bytes) : Except ParseException WormholeVAA :=
  match parseFields data with
  | .error .structError => .error (.attestation .truncated)
  | .error .indexError => .error (.attestation .truncated)
  | .error (.attestation e) => .error (.attestation e)
  | .ok vaa =>
    if vaa.emitterAddress.length ≠ 32 ∨ vaa.signatures.any (fun s => s.2.length ≠ 65) then
      .error (.attestation .truncated)
    else .ok vaa

/-- The layout of a VAA: a version, the index of a guardian set, a number of records, as many
records, and a body that is long enough for its fields. -/
def VaaLayout (data : Bytes) : Prop :=
  ∃ (index : Bytes) (records : List Bytes) (body : Bytes),
    index.length = 4 ∧ records.length < 256 ∧ (∀ record ∈ records, record.length = 66) ∧
      51 ≤ body.length ∧
        data = 1 :: index ++ UInt8.ofNat records.length :: records.flatten ++ body

/-- The bytes of the fields of a VAA. -/
def WormholeVAA.encodeFields (vaa : WormholeVAA) : Bytes :=
  1 :: toBigEndian 4 vaa.guardianSetIndex ++ UInt8.ofNat vaa.signatures.length ::
    vaa.signatures.flatMap (fun s => UInt8.ofNat s.1 :: s.2) ++
    toBigEndian 4 vaa.timestamp ++ toBigEndian 4 vaa.nonce ++ toBigEndian 2 vaa.emitterChain ++
    vaa.emitterAddress ++ toBigEndian 8 vaa.sequence ++ UInt8.ofNat vaa.consistencyLevel ::
    vaa.payload

theorem ofBigEndian_sliceOf_one (data : Bytes) {i : ℕ} (hi : i < data.length) :
    ofBigEndian (sliceOf data i (i + 1)) = (data.getD i 0).toNat := by
  have hslice : sliceOf data i (i + 1) = [data[i]] := by
    unfold sliceOf
    rw [Nat.add_sub_cancel_left, List.take_one_drop_eq_of_lt_length hi]
    rfl
  rw [hslice, List.getD_eq_getElem _ _ hi]
  exact Nat.zero_add _

/-- The loop raises `IndexError` if the data end before a signature does, and nothing else. -/
theorem readRecords_eq (data : Bytes) (n off : ℕ) :
    (∃ sigs, readRecords data n off = .ok sigs ∧
      readSignatures n (data.drop off) = some (sigs, data.drop (off + 66 * n))) ∨
    readRecords data n off = .error .indexError ∧ readSignatures n (data.drop off) = none := by
  induction n generalizing off with
  | zero => exact Or.inl ⟨[], rfl, rfl⟩
  | succ n ih =>
    unfold readRecords readSignatures byteAt
    by_cases hoff : off < data.length
    · rw [List.getElem?_eq_getElem hoff, List.drop_eq_getElem_cons hoff]
      have hrest : (data[off] :: data.drop (off + 1)).drop 66 = data.drop (off + 66) := by
        rw [List.drop_succ_cons, List.drop_drop]
      have hslice : (data.drop (off + 1)).take 65 = sliceOf data (off + 1) (off + 66) := by
        unfold sliceOf
        congr 1
        omega
      have hend : off + 66 + 66 * n = off + 66 * (n + 1) := by omega
      dsimp only
      rw [hrest, hslice]
      obtain ⟨sigs, hrecords, hsigs⟩ | ⟨hrecords, hsigs⟩ := ih (off + 66)
      · rw [hsigs, hend]
        refine Or.inl ⟨_, ?_, rfl⟩
        simp only [hrecords]
        rfl
      · rw [hsigs]
        refine Or.inr ⟨?_, rfl⟩
        simp only [hrecords]
        rfl
    · rw [List.getElem?_eq_none (not_lt.mp hoff), List.drop_eq_nil_of_le (not_lt.mp hoff)]
      exact Or.inr ⟨rfl, rfl⟩

/-- The fields of the body are read at once, or an exception is raised that is caught. -/
theorem parseBodyFields_eq (gsi : ℕ) (sigs : List (ℕ × Bytes)) (body : Bytes) :
    (∃ vaa, parseBodyFields gsi sigs body = .ok vaa ∧ readBody gsi sigs body = some vaa) ∨
    (parseBodyFields gsi sigs body = .error .structError ∨
      parseBodyFields gsi sigs body = .error .indexError) ∧ readBody gsi sigs body = none := by
  by_cases hshort : body.length < 51
  · refine Or.inr ⟨?_, if_pos hshort⟩
    unfold parseBodyFields unpackThree unpackOne byteAt
    by_cases hten : body.length < 0 + 4 + 4 + 2
    · rw [if_pos hten]
      exact Or.inl rfl
    · rw [if_neg hten]
      by_cases hfifty : body.length < 42 + 8
      · rw [if_pos hfifty]
        exact Or.inl rfl
      · rw [if_neg hfifty, List.getElem?_eq_none (by omega)]
        exact Or.inr rfl
  · refine Or.inl ⟨_, ?_, if_neg hshort⟩
    have hend : 50 < body.length := by omega
    unfold parseBodyFields unpackThree unpackOne byteAt
    rw [if_neg (by omega), if_neg (by omega), List.getElem?_eq_getElem hend,
      List.getD_eq_getElem _ _ hend]
    rfl

/-- `parse_vaa` raises nothing but `AttestationError`, and its steps return what is read at once. -/
theorem parseVaaSteps_eq (data : Bytes) :
    parseVaaSteps data = (parseVaa data).mapError .attestation := by
  by_cases hshort : data.length < 6
  · have hfields : parseFields data = .error .structError := by
      unfold parseFields unpackThree
      rw [if_pos (show data.length < 0 + 1 + 4 + 1 by omega)]
      rfl
    unfold parseVaaSteps parseVaa
    rw [hfields, if_pos hshort]
    rfl
  · have hfields : parseFields data =
        if (data.getD 0 0).toNat ≠ 1 then
          .error (.attestation (.unsupportedVersion (data.getD 0 0).toNat))
        else readRecords data (data.getD 5 0).toNat 6 >>= fun sigs =>
          parseBodyFields (ofBigEndian ((data.drop 1).take 4)) sigs
            (data.drop (6 + 66 * (data.getD 5 0).toNat)) := by
      unfold parseFields unpackThree
      rw [if_neg (show ¬data.length < 0 + 1 + 4 + 1 by omega),
        ← ofBigEndian_sliceOf_one data (show 0 < data.length by omega),
        ← ofBigEndian_sliceOf_one data (show 5 < data.length by omega)]
      rfl
    unfold parseVaaSteps parseVaa
    rw [hfields, if_neg hshort]
    dsimp only
    by_cases hversion : (data.getD 0 0).toNat ≠ 1
    · rw [if_pos hversion, if_pos hversion]
      rfl
    · rw [if_neg hversion, if_neg hversion]
      obtain ⟨sigs, hrecords, hsigs⟩ | ⟨hrecords, hsigs⟩ :=
        readRecords_eq data (data.getD 5 0).toNat 6
      · rw [hrecords, hsigs]
        dsimp only [bind, Except.bind]
        obtain ⟨vaa, hparsed, hbody⟩ | ⟨hparsed | hparsed, hbody⟩ := parseBodyFields_eq
          (ofBigEndian ((data.drop 1).take 4)) sigs (data.drop (6 + 66 * (data.getD 5 0).toNat))
        · have hkept : vaa.signatures = sigs := by
            obtain ⟨-, rfl⟩ := readBody_eq_some_iff.mp hbody
            rfl
          rw [hparsed, hbody]
          dsimp only
          rw [hkept]
          split_ifs <;> rfl
        · rw [hparsed, hbody]
          rfl
        · rw [hparsed, hbody]
          rfl
      · rw [hrecords, hsigs]
        rfl

/-- Records of the right size are read as signatures. -/
theorem readSignatures_of_records {records : List Bytes}
    (hrecords : ∀ record ∈ records, record.length = 66) (body : Bytes) :
    readSignatures records.length (records.flatten ++ body) =
      some (records.map fun record => ((record.getD 0 0).toNat, record.drop 1), body) := by
  induction records with
  | nil => rfl
  | cons record records ih =>
    have hrest := ih fun record hrecord => hrecords record (List.mem_cons_of_mem _ hrecord)
    have hlength := hrecords record List.mem_cons_self
    obtain ⟨index, sig, rfl⟩ := List.exists_cons_of_length_eq_add_one hlength
    have hsig : sig.length = 65 := Nat.succ.inj hlength
    have hdrop : (index :: (sig ++ (records.flatten ++ body))).drop 66 =
        records.flatten ++ body := by
      rw [List.drop_succ_cons, ← hsig, List.drop_left]
    have htake : (sig ++ (records.flatten ++ body)).take 65 = sig := by
      rw [← hsig, List.take_left]
    rw [List.flatten_cons, List.length_cons, List.append_assoc, List.cons_append]
    unfold readSignatures
    dsimp only
    rw [hdrop, hrest, htake]
    rfl

/-- A body is what its fields are written to. -/
theorem body_of_fields {body : Bytes} (hlong : 51 ≤ body.length) :
    toBigEndian 4 (ofBigEndian (body.take 4)) ++
      (toBigEndian 4 (ofBigEndian ((body.drop 4).take 4)) ++
        (toBigEndian 2 (ofBigEndian ((body.drop 8).take 2)) ++ ((body.drop 10).take 32 ++
          (toBigEndian 8 (ofBigEndian ((body.drop 42).take 8)) ++
            UInt8.ofNat (body.getD 50 0).toNat :: body.drop 51)))) = body := by
  have hnumber : ∀ {n} {bytes : Bytes}, bytes.length = n →
      toBigEndian n (ofBigEndian bytes) = bytes := by
    rintro n bytes rfl
    exact toBigEndian_ofBigEndian bytes
  have hjoin : ∀ i n, (body.drop i).take n ++ body.drop (i + n) = body.drop i := by
    intro i n
    rw [← List.drop_drop, List.take_append_drop]
  have hlast : UInt8.ofNat (body.getD 50 0).toNat :: body.drop 51 = body.drop 50 := by
    rw [UInt8.ofNat_toNat, List.getD_eq_getElem _ _ (by omega)]
    exact (List.drop_eq_getElem_cons (by omega)).symm
  rw [hnumber (by rw [List.length_take]; omega),
    hnumber (by rw [List.length_take, List.length_drop]; omega),
    hnumber (by rw [List.length_take, List.length_drop]; omega),
    hnumber (by rw [List.length_take, List.length_drop]; omega), hlast, hjoin 42 8, hjoin 10 32,
    hjoin 8 2, hjoin 4 4, List.take_append_drop]

/-- The fields of a VAA that is parsed are written to the bytes that it was parsed from. -/
theorem encodeFields_of_parseVaa {data : Bytes} {vaa : WormholeVAA}
    (h : parseVaa data = .ok vaa) : vaa.encodeFields = data := by
  have hencode := encode_of_parseVaa h
  obtain ⟨-, -, sigs, body, -, hbody, -⟩ := read_of_parseVaa h
  obtain ⟨hlong, rfl⟩ := readBody_eq_some_iff.mp hbody
  refine Eq.trans ?_ hencode
  unfold WormholeVAA.encodeFields WormholeVAA.encode
  dsimp only
  simp only [List.append_assoc, body_of_fields hlong, List.cons_append]

/-- Bytes that are parsed have the layout of a VAA. -/
theorem vaaLayout_of_parseVaa {data : Bytes} {vaa : WormholeVAA} (h : parseVaa data = .ok vaa) :
    VaaLayout data := by
  have hencode := encode_of_parseVaa h
  obtain ⟨-, -, sigs, body, hsigs, hbody, hfull⟩ := read_of_parseVaa h
  obtain ⟨hcount, -⟩ := readSignatures_bytes hsigs hfull
  obtain ⟨hlong, rfl⟩ := readBody_eq_some_iff.mp hbody
  refine ⟨toBigEndian 4 (ofBigEndian ((data.drop 1).take 4)),
    sigs.map fun s => UInt8.ofNat s.1 :: s.2, body, length_toBigEndian 4 _, ?_, ?_, hlong, ?_⟩
  · rw [List.length_map, hcount]
    exact (data.getD 5 0).toNat_lt
  · intro record hrecord
    obtain ⟨s, hs, rfl⟩ := List.mem_map.mp hrecord
    rw [List.length_cons, hfull s hs]
  · rw [List.length_map]
    exact hencode.symm

/-- Bytes with the layout of a VAA are parsed. -/
theorem parseVaa_of_vaaLayout {data : Bytes} (h : VaaLayout data) :
    ∃ vaa, parseVaa data = .ok vaa := by
  obtain ⟨index, records, body, hindex, hcount, hrecords, hlong, rfl⟩ := h
  obtain ⟨a, b, c, d, rfl⟩ : ∃ a b c d, index = [a, b, c, d] := by
    obtain ⟨a, index, rfl⟩ := List.exists_cons_of_length_eq_add_one hindex
    obtain ⟨b, index, rfl⟩ := List.exists_cons_of_length_eq_add_one (Nat.succ.inj hindex)
    obtain ⟨c, index, rfl⟩ := List.exists_cons_of_length_eq_add_one
      (Nat.succ.inj (Nat.succ.inj hindex))
    obtain ⟨d, rfl⟩ := List.length_eq_one_iff.mp (Nat.succ.inj (Nat.succ.inj (Nat.succ.inj hindex)))
    exact ⟨a, b, c, d, rfl⟩
  have hnumber : (UInt8.ofNat records.length).toNat = records.length := by
    rw [UInt8.toNat_ofNat']
    exact Nat.mod_eq_of_lt hcount
  have hread := readSignatures_of_records hrecords body
  rw [← hnumber] at hread
  refine ⟨_, parseVaa_of_read (by simp) rfl hread (readBody_eq_some_iff.mpr ⟨hlong, rfl⟩) ?_⟩
  intro s hs
  obtain ⟨record, hrecord, rfl⟩ := List.mem_map.mp hs
  rw [List.length_drop, hrecords record hrecord]

/-- `parse_vaa` returns a VAA exactly for the bytes with the layout of one, for all others it raises
`AttestationError`, and the fields of the VAA are written to the bytes again. -/
theorem parseVaaSteps_layout (data : Bytes) :
    ((∃ vaa, parseVaaSteps data = .ok vaa) ↔ VaaLayout data) ∧
    (¬VaaLayout data → ∃ e, parseVaaSteps data = .error (.attestation e)) ∧
    ∀ vaa, parseVaaSteps data = .ok vaa → vaa.encodeFields = data := by
  rw [parseVaaSteps_eq]
  cases hparse : parseVaa data with
  | error e =>
    have hno : ¬VaaLayout data := by
      intro hlayout
      obtain ⟨vaa, hvaa⟩ := parseVaa_of_vaaLayout hlayout
      rw [hvaa] at hparse
      cases hparse
    refine ⟨iff_of_false ?_ hno, fun _ => ⟨e, rfl⟩, ?_⟩
    · rintro ⟨vaa, hvaa⟩
      cases hvaa
    · intro vaa hvaa
      cases hvaa
  | ok vaa =>
    have hlayout := vaaLayout_of_parseVaa hparse
    refine ⟨iff_of_true ⟨vaa, rfl⟩ hlayout, fun h => absurd hlayout h, fun vaa' hvaa => ?_⟩
    obtain rfl := Except.ok.inj hvaa
    exact encodeFields_of_parseVaa hparse

/-- Fifty-six bytes are too few, fifty-seven are enough without a signature. -/
example : parseVaaSteps (1 :: List.replicate 4 7 ++ 0 :: List.replicate 50 9) =
    .error (.attestation .truncated) := by
  decide +kernel

example : (parseVaaSteps (1 :: List.replicate 4 7 ++ 0 :: List.replicate 51 9)).toOption.isSome :=
  by decide +kernel

end LedgerLens.Integrations
