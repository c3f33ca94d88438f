import LedgerLens.Library.Json
import LedgerLens.Library.Sha256
import LedgerLens.Library.UniqueTable

/-!
# Idempotent writes of risk scores

`idempotent_upsert` compares the hash of a risk score with that of the stored record, and it
writes only if they differ. A `ring_id` of `None` is hashed if the score has it but not if the
record has it, and a store may keep a ring for a score without one. This file says when a second
call does not write.
-/

namespace LedgerLens.Pipeline

/-- What a risk score has under the key `ring_id`. -/
inductive RingField where
  /-- The key is missing. -/
  | absent
  /-- `None`. -/
  | null
  /-- A value. -/
  | value (ring : Json.Scalar)
  deriving DecidableEq

/-- A risk score, with the fields that are hashed. -/
structure RiskScore where
  /-- `score`. -/
  score : ℤ
  /-- `benford_flag`. -/
  benfordFlag : Bool
  /-- `ml_flag`. -/
  mlFlag : Bool
  /-- `confidence`. -/
  confidence : ℤ
  /-- `ring_id`. -/
  ringId : RingField
  deriving DecidableEq

/-- `RiskScoreRecord`, with the fields that are hashed. -/
structure RiskScoreRecord where
  /-- `score`. -/
  score : ℤ
  /-- `benford_flag`. -/
  benfordFlag : Bool
  /-- `ml_flag`. -/
  mlFlag : Bool
  /-- `confidence`. -/
  confidence : ℤ
  /-- `ring_id`. -/
  ringId : Option Json.Scalar
  deriving DecidableEq

/-- The JSON text of a flag. -/
def flagText (flag : Bool) : List Char := if flag then "true".toList else "false".toList

/-- The members of the object that is hashed. -/
def canonicalMembers (r : RiskScore) : List (String × List Char) :=
  let ring := match r.ringId with
    | .absent => []
    | .null => [("ring_id", "null".toList)]
    | .value ring => [("ring_id", ring.dumps)]
  [("score", Json.int r.score), ("benford_flag", flagText r.benfordFlag),
    ("ml_flag", flagText r.mlFlag), ("confidence", Json.int r.confidence)] ++ ring

/-- `_risk_score_hash`. -/
def riskScoreHash (r : RiskScore) : String :=
  let serialised := String.ofList
    (Json.object [',', ' '] [':', ' '] (Json.sortKeys (canonicalMembers r)))
  String.ofList ((Sha256.hexdigestString serialised).toList.take 16)

/-- `existing_score_dict`. -/
def RiskScoreRecord.scoreDict (existing : RiskScoreRecord) : RiskScore where
  score := existing.score
  benfordFlag := existing.benfordFlag
  mlFlag := existing.mlFlag
  confidence := existing.confidence
  ringId := match existing.ringId with
    | none => .absent
    | some ring => .value ring

/-- The ring that a store has after a write, where it had a record or not before. Without a ring
in the score, it has none or the one it had. -/
def RingStored (previous : Option RiskScoreRecord) : RingField → Option Json.Scalar → Prop
  | .absent, stored => stored = none ∨ stored = previous.bind RiskScoreRecord.ringId
  | .null, stored => stored = none
  | .value ring, stored => stored = some ring

/-- A store with the methods of a `RiskScoreStore`. After a write, it returns what was written. -/
structure ScoreStore (State : Type) where
  /-- `get`. -/
  get : State → String → String → Option RiskScoreRecord
  /-- `upsert`, and the record it returns. -/
  upsert : State → String → String → RiskScore → String → State × RiskScoreRecord
  /-- A record is there after a write, with the fields of the score. -/
  get_upsert : ∀ s wallet assetPair r finality, ∃ record,
    get (upsert s wallet assetPair r finality).1 wallet assetPair = some record ∧
      record.score = r.score ∧ record.benfordFlag = r.benfordFlag ∧ record.mlFlag = r.mlFlag ∧
      record.confidence = r.confidence ∧
      RingStored (get s wallet assetPair) r.ringId record.ringId

/-- `idempotent_upsert`: whether it has written, the record, and the store after it. -/
def idempotentUpsert {State : Type} (store : ScoreStore State) (wallet assetPair : String)
    (r : RiskScore) (finality : String) (s : State) : (Bool × RiskScoreRecord) × State :=
  match store.get s wallet assetPair with
  | none =>
    let (s', record) := store.upsert s wallet assetPair r finality
    ((true, record), s')
  | some existing =>
    if riskScoreHash r = riskScoreHash existing.scoreDict then ((false, existing), s)
    else
      let (s', record) := store.upsert s wallet assetPair r finality
      ((true, record), s')

section Store

variable {State : Type} (store : ScoreStore State) (wallet assetPair : String) (r : RiskScore)
  (finality : String) (s : State)

/-- Another content has the same hash. -/
def Collides (existing : RiskScoreRecord) : Prop :=
  existing.scoreDict ≠ r ∧ riskScoreHash r = riskScoreHash existing.scoreDict

/-- A call writes exactly if the hash of the stored record is not that of the score. -/
theorem idempotentUpsert_cases :
    (∃ existing, store.get s wallet assetPair = some existing ∧
      riskScoreHash r = riskScoreHash existing.scoreDict ∧
      idempotentUpsert store wallet assetPair r finality s = ((false, existing), s)) ∨
    (∀ existing, store.get s wallet assetPair = some existing →
      riskScoreHash r ≠ riskScoreHash existing.scoreDict) ∧
      (idempotentUpsert store wallet assetPair r finality s).1.1 = true ∧
      (idempotentUpsert store wallet assetPair r finality s).2 =
        (store.upsert s wallet assetPair r finality).1 := by
  unfold idempotentUpsert
  cases hget : store.get s wallet assetPair with
  | none =>
    refine Or.inr ⟨fun existing h => ?_, rfl, rfl⟩
    cases h
  | some existing =>
    dsimp only
    split_ifs with hhash
    · exact Or.inl ⟨existing, rfl, hhash, rfl⟩
    · refine Or.inr ⟨fun existing' h => ?_, rfl, rfl⟩
      rw [← Option.some.inj h]
      exact hhash

/-- A call does not write exactly if there is a record with the hash of the score. -/
theorem idempotentUpsert_false_iff :
    (idempotentUpsert store wallet assetPair r finality s).1.1 = false ↔
      ∃ existing, store.get s wallet assetPair = some existing ∧
        riskScoreHash r = riskScoreHash existing.scoreDict := by
  obtain ⟨existing, hget, hhash, hcall⟩ | ⟨hhash, hcall, -⟩ :=
    idempotentUpsert_cases store wallet assetPair r finality s
  · rw [hcall]
    exact iff_of_true rfl ⟨existing, hget, hhash⟩
  · rw [hcall]
    refine iff_of_false (fun h => by cases h) fun ⟨existing, hget, heq⟩ => hhash existing hget heq

/-- The record that is stored after a write is that of the score exactly if the score has a ring,
or neither of them has one. -/
theorem scoreDict_eq_iff {previous : Option RiskScoreRecord} {record : RiskScoreRecord}
    (hscore : record.score = r.score) (hbenford : record.benfordFlag = r.benfordFlag)
    (hml : record.mlFlag = r.mlFlag) (hconfidence : record.confidence = r.confidence)
    (hring : RingStored previous r.ringId record.ringId) :
    record.scoreDict = r ↔
      (∃ ring, r.ringId = .value ring) ∨ r.ringId = .absent ∧ record.ringId = none := by
  obtain ⟨score, benfordFlag, mlFlag, confidence, ringId⟩ := r
  obtain ⟨score', benfordFlag', mlFlag', confidence', stored⟩ := record
  dsimp only at hscore hbenford hml hconfidence hring
  subst hscore hbenford hml hconfidence
  unfold RiskScoreRecord.scoreDict
  cases ringId with
  | absent => cases stored <;> simp
  | null =>
    obtain rfl : stored = none := hring
    simp
  | value ring =>
    obtain rfl : stored = some ring := hring
    simp

/-- The hash of a record is that of a score if they have the same content, or if they collide. -/
theorem riskScoreHash_eq_iff (existing : RiskScoreRecord) :
    riskScoreHash r = riskScoreHash existing.scoreDict ↔
      existing.scoreDict = r ∨ Collides r existing := by
  unfold Collides
  by_cases heq : existing.scoreDict = r
  · simp [heq]
  · simp [heq]

/-- A score with the content of a record has its ring, or neither of them has one. -/
theorem ringId_of_scoreDict_eq {existing : RiskScoreRecord} (heq : existing.scoreDict = r) :
    (∃ ring, r.ringId = .value ring) ∨ r.ringId = .absent ∧ existing.ringId = none := by
  rw [← heq]
  unfold RiskScoreRecord.scoreDict
  cases existing.ringId with
  | none => exact Or.inr ⟨rfl, rfl⟩
  | some ring => exact Or.inl ⟨ring, rfl⟩

/-- A second call in a row does not write exactly if the score has a ring, or if it has no key for
a ring and there is none in the store after the write, or if the hash of another content that is
stored before or after the write is the same. -/
theorem second_upsert_false_iff :
    (idempotentUpsert store wallet assetPair r finality
        (idempotentUpsert store wallet assetPair r finality s).2).1.1 = false ↔
      (∃ ring, r.ringId = .value ring) ∨
      (r.ringId = .absent ∧ ∃ record,
        store.get (store.upsert s wallet assetPair r finality).1 wallet assetPair = some record ∧
          record.ringId = none) ∨
      (∃ record, store.get s wallet assetPair = some record ∧ Collides r record) ∨
      ∃ record,
        store.get (store.upsert s wallet assetPair r finality).1 wallet assetPair = some record ∧
          Collides r record := by
  obtain ⟨record, hafter, hscore, hbenford, hml, hconfidence, hring⟩ :=
    store.get_upsert s wallet assetPair r finality
  have hdict := scoreDict_eq_iff r hscore hbenford hml hconfidence hring
  rw [idempotentUpsert_false_iff]
  simp only [hafter, Option.some.injEq, exists_eq_left', riskScoreHash_eq_iff]
  obtain ⟨existing, hget, hsame, hcall⟩ | ⟨hdiffer, -, hcall⟩ :=
    idempotentUpsert_cases store wallet assetPair r finality s
  · rw [hcall, hget]
    simp only [Option.some.injEq, exists_eq_left']
    -- The first call has not written, so the second one finds the same record.
    have hfound := (riskScoreHash_eq_iff r existing).mp hsame
    refine iff_of_true hfound ?_
    obtain heq | hcollides := hfound
    · obtain hvalue | ⟨habsent, hnone⟩ := ringId_of_scoreDict_eq r heq
      · exact Or.inl hvalue
      · rw [habsent, hget] at hring
        refine Or.inr (Or.inl ⟨habsent, ?_⟩)
        obtain hempty | hprevious := hring
        · exact hempty
        · exact hprevious.trans hnone
    · exact Or.inr (Or.inr (Or.inl hcollides))
  · rw [hcall, hafter]
    simp only [Option.some.injEq, exists_eq_left']
    have hbefore : ¬∃ record, store.get s wallet assetPair = some record ∧ Collides r record :=
      fun ⟨existing, hget, hcollides⟩ => hdiffer existing hget hcollides.2
    rw [hdict, or_assoc]
    simp only [hbefore, false_or]

end Store

/-- A table of records that keeps the ring for a score without one. -/
def keepingRing (previous : Option RiskScoreRecord) (r : RiskScore) : RiskScoreRecord where
  score := r.score
  benfordFlag := r.benfordFlag
  mlFlag := r.mlFlag
  confidence := r.confidence
  ringId := match r.ringId with
    | .absent => previous.bind RiskScoreRecord.ringId
    | .null => none
    | .value ring => some ring

/-- The store with such a table. -/
def tableStore : ScoreStore (UniqueTable (String × String) RiskScoreRecord) where
  get table wallet assetPair := table.find? (wallet, assetPair)
  upsert table wallet assetPair r _ :=
    let record := keepingRing (table.find? (wallet, assetPair)) r
    (table.put (wallet, assetPair) record, record)
  get_upsert table wallet assetPair r _ := by
    refine ⟨_, (UniqueTable.find?_put _ _ _ _).trans (if_pos rfl), rfl, rfl, rfl, rfl, ?_⟩
    unfold keepingRing
    cases r.ringId with
    | absent => exact Or.inr rfl
    | null => rfl
    | value ring => rfl

/-- A risk score whose `ring_id` is `None`. -/
private def ringlessScore : RiskScore := ⟨50, true, false, 80, .null⟩

/-- The second call with such a score writes again. -/
theorem ringless_score_written_twice :
    (idempotentUpsert tableStore "wallet" "pair" ringlessScore "provisional" .empty).1.1 = true ∧
      (idempotentUpsert tableStore "wallet" "pair" ringlessScore "provisional"
        (idempotentUpsert tableStore "wallet" "pair" ringlessScore "provisional"
          .empty).2).1.1 = true := by
  refine ⟨rfl, ?_⟩
  decide +kernel

end LedgerLens.Pipeline
