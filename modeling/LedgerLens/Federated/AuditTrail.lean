import LedgerLens.Library.Json
import LedgerLens.Library.Runs
import LedgerLens.Library.Sha256

/-!
# The federated audit trail

`FederatedAuditTrail` keeps a record of every round. A record has the hash of the record
before it, but its own hash leaves that link out. So each link commits to one record and not to
the history. This file determines which pairs of histories the latest hash tells apart, and
which links a change of the history changes.
-/

namespace LedgerLens.Federated

open Transition

/-- `FederatedAuditRecord`, without its number and its date. -/
structure FederatedAuditRecord where
  /-- The hash that names the round. -/
  roundId : String
  /-- The date of the round. -/
  roundTimestamp : String
  /-- The participants' fingerprints, as a JSON text. -/
  participantFingerprints : String
  /-- The participants' gradient norms, as a JSON text. -/
  gradientNorms : String
  /-- The name of the algorithm. -/
  aggregationAlgorithm : String
  /-- The hash of the weights. -/
  aggregateModelHash : String
  /-- The outcome. -/
  roundOutcome : String
  /-- The version of the model after the round. -/
  modelVersion : ℤ
  /-- The number of participants. -/
  participantCount : ℕ
  /-- The hash of the record before, if there is one. -/
  prevHash : Option String := none
  deriving DecidableEq

/-- A value that is given as a gradient norm. -/
inductive GradientNorm where
  /-- A number, with its JSON text. -/
  | number (literal : String)
  /-- Anything else, with the name of its type. -/
  | other (typeName : String)
  deriving DecidableEq

/-- The arguments of a call to `record_round` and what it meets. -/
structure RoundCall where
  /-- The participants' fingerprints. -/
  participantFingerprints : List String
  /-- The gradient norm of each participant. -/
  gradientNorms : List (String × GradientNorm)
  /-- The name of the algorithm. -/
  aggregationAlgorithm : String
  /-- The hash of the weights. -/
  aggregateModelHash : String
  /-- The outcome. -/
  roundOutcome : String
  /-- The version of the model after the round. -/
  modelVersion : ℤ
  /-- The date given by the caller. -/
  timestamp : Option String := none
  /-- The date when the call is made. -/
  now : String
  /-- What the database raises on commit. -/
  commitFault : Option String := none

/-- What `record_round` raises. -/
inductive RecordError where
  /-- A `TypeError`. -/
  | typeError (message : String)
  /-- What the database raises on commit. -/
  | commit (reason : String)
  deriving DecidableEq

/-- The functions of the standard library that the trail uses. -/
structure AuditTools where
  /-- `hashlib.sha256` of a text, as a hexadecimal number. -/
  sha256 : String → String
  /-- `repr` of a string. -/
  repr : String → String

/-- The fingerprints in their order. -/
def sortedFingerprints (fingerprints : List String) : List String :=
  fingerprints.insertionSort fun a b => a ≤ b

/-- `_deterministic_round_id`. -/
def deterministicRoundId (tools : AuditTools) (timestamp : String) (fingerprints : List String)
    (modelVersion : ℤ) : String :=
  let material := Json.object [','] [':'] (Json.sortKeys
    [("timestamp", Json.quote timestamp),
     ("fingerprints", Json.array [','] ((sortedFingerprints fingerprints).map Json.quote)),
     ("model_version", Json.int modelVersion)])
  tools.sha256 (String.ofList material)

namespace FederatedAuditTrail

/-- The text that `_get_latest_record_hash` hashes. -/
def canonical (latest : FederatedAuditRecord) : String :=
  String.ofList (Json.dumpsSorted
    [("round_id", .string latest.roundId),
     ("round_timestamp", .string latest.roundTimestamp),
     ("participant_fingerprints", .string latest.participantFingerprints),
     ("gradient_norms", .string latest.gradientNorms),
     ("aggregation_algorithm", .string latest.aggregationAlgorithm),
     ("aggregate_model_hash", .string latest.aggregateModelHash),
     ("round_outcome", .string latest.roundOutcome),
     ("model_version", .int latest.modelVersion),
     ("participant_count", .int latest.participantCount)])

/-- `_get_latest_record_hash`. -/
def getLatestRecordHash (tools : AuditTools) (records : List FederatedAuditRecord) :
    Option String :=
  records.getLast?.map fun latest => tools.sha256 (canonical latest)

/-- The loop in `record_round` that refuses what is not a number; it gives the JSON texts. -/
def checkNorms (tools : AuditTools) :
    List (String × GradientNorm) → Except RecordError (List (String × List Char))
  | [] => .ok []
  | (key, .number literal) :: norms => do
    let texts ← checkNorms tools norms
    pure ((key, literal.toList) :: texts)
  | (key, .other typeName) :: _ =>
    .error (.typeError ("gradient_norms[" ++ tools.repr key ++ "] must be a scalar float, got " ++
      typeName ++ ". Raw gradient tensors must never be written to the audit trail."))

/-- The date of the round: the one given unless it is missing or empty. -/
def roundDate (call : RoundCall) : String :=
  match call.timestamp with
  | none => call.now
  | some timestamp => if timestamp = "" then call.now else timestamp

/-- `record_round`: the records after it, and what it returns or raises. -/
def recordRound (tools : AuditTools) (records : List FederatedAuditRecord) (call : RoundCall) :
    List FederatedAuditRecord × Except RecordError String :=
  match checkNorms tools call.gradientNorms with
  | .error e => (records, .error e)
  | .ok norms =>
    let roundId := deterministicRoundId tools (roundDate call) call.participantFingerprints
      call.modelVersion
    let record : FederatedAuditRecord :=
      { roundId := roundId
        roundTimestamp := roundDate call
        participantFingerprints := String.ofList (Json.array [',', ' ']
          ((sortedFingerprints call.participantFingerprints).map Json.quote))
        gradientNorms := String.ofList (Json.object [',', ' '] [':', ' '] norms)
        aggregationAlgorithm := call.aggregationAlgorithm
        aggregateModelHash := call.aggregateModelHash
        roundOutcome := call.roundOutcome
        modelVersion := call.modelVersion
        participantCount := call.participantFingerprints.length
        prevHash := getLatestRecordHash tools records }
    match call.commitFault with
    | some reason => (records, .error (.commit reason))
    | none => (records ++ [record], .ok roundId)

/-- The records after a sequence of calls on an empty table. -/
def built (tools : AuditTools) (calls : List RoundCall) : List FederatedAuditRecord :=
  exec (fun records call => (recordRound tools records call).1) [] calls

/-- The round that a call records: the record that it is the first to add. Calls that raise
record none. -/
def round? (tools : AuditTools) (call : RoundCall) : Option FederatedAuditRecord :=
  (recordRound tools [] call).1.head?

/-- The rounds that a sequence of calls records. -/
def rounds (tools : AuditTools) (calls : List RoundCall) : List FederatedAuditRecord :=
  calls.filterMap (round? tools)

/-- The records for a list of rounds, after a record with a given hash. -/
def linked (tools : AuditTools) : Option String → List FederatedAuditRecord →
    List FederatedAuditRecord
  | _, [] => []
  | prevHash, round :: rest =>
    { round with prevHash := prevHash } :: linked tools (some (tools.sha256 (canonical round))) rest

/-- The links of the records that some calls add to a history. -/
def laterLinks (tools : AuditTools) (before after : List RoundCall) : List (Option String) :=
  ((built tools (before ++ after)).drop (built tools before).length).map
    FederatedAuditRecord.prevHash

/-- Records with different texts at the ends of the two lists have different hashes. -/
def HashesApart (tools : AuditTools) (records records' : List FederatedAuditRecord) : Prop :=
  ∀ latest ∈ records.getLast?, ∀ latest' ∈ records'.getLast?,
    tools.sha256 (canonical latest) = tools.sha256 (canonical latest') →
      canonical latest = canonical latest'

variable {tools : AuditTools} {call : RoundCall} {calls : List RoundCall}
  {records : List FederatedAuditRecord}

/-- The link is not part of the text that is hashed. -/
@[simp] theorem canonical_setPrevHash (record : FederatedAuditRecord) (prevHash : Option String) :
    canonical { record with prevHash := prevHash } = canonical record := rfl

/-- The members of the text that is hashed, in the order of their keys. -/
theorem sortKeys_members {α : Type} (a b c d e f g h i : α) :
    Json.sortKeys [("round_id", a), ("round_timestamp", b), ("participant_fingerprints", c),
      ("gradient_norms", d), ("aggregation_algorithm", e), ("aggregate_model_hash", f),
      ("round_outcome", g), ("model_version", h), ("participant_count", i)] =
    [("aggregate_model_hash", f), ("aggregation_algorithm", e), ("gradient_norms", d),
      ("model_version", h), ("participant_count", i), ("participant_fingerprints", c),
      ("round_id", a), ("round_outcome", g), ("round_timestamp", b)] := by
  simp +decide only [Json.sortKeys, List.insertionSort, List.foldr, List.orderedInsert, if_true,
    if_false]

/-- Records with the same text differ at most in their links. -/
theorem canonical_inj {r r' : FederatedAuditRecord} (h : canonical r = canonical r')
    (hprev : r.prevHash = r'.prevHash) : r = r' := by
  have hmembers := Json.dumpsSorted_inj (String.ofList_inj.mp h)
  rw [sortKeys_members, sortKeys_members] at hmembers
  simp only [List.cons.injEq, Prod.mk.injEq, Json.Scalar.string.injEq, Json.Scalar.int.injEq,
    true_and, and_true, Nat.cast_inj] at hmembers
  obtain ⟨h₁, h₂, h₃, h₄, h₅, h₆, h₇, h₈, h₉⟩ := hmembers
  cases r
  cases r'
  simp_all

/-- What a call adds to the records. -/
theorem recordRound_fst (records : List FederatedAuditRecord) (call : RoundCall) :
    (recordRound tools records call).1 = records ++ ((round? tools call).map fun round =>
      { round with prevHash := getLatestRecordHash tools records }).toList := by
  unfold round? recordRound
  cases checkNorms tools call.gradientNorms with
  | error e => simp
  | ok norms =>
    cases call.commitFault with
    | some reason => simp
    | none => rfl

/-- The rounds as they are: without a link. -/
theorem prevHash_of_mem_rounds {round : FederatedAuditRecord} (h : round ∈ rounds tools calls) :
    round.prevHash = none := by
  obtain ⟨call, -, hround⟩ := List.mem_filterMap.mp h
  unfold round? recordRound at hround
  cases hnorms : checkNorms tools call.gradientNorms with
  | error e =>
    rw [hnorms] at hround
    cases hround
  | ok norms =>
    rw [hnorms] at hround
    cases hfault : call.commitFault with
    | some reason =>
      rw [hfault] at hround
      cases hround
    | none =>
      rw [hfault] at hround
      cases hround
      rfl

theorem rounds_append (before after : List RoundCall) :
    rounds tools (before ++ after) = rounds tools before ++ rounds tools after :=
  List.filterMap_append

theorem linked_cons (prevHash : Option String) (round : FederatedAuditRecord)
    (rest : List FederatedAuditRecord) :
    linked tools prevHash (round :: rest) =
      { round with prevHash := prevHash } ::
        linked tools (some (tools.sha256 (canonical round))) rest := rfl

/-- The hash of the last of some linked records is that of the last round. -/
theorem getLatestRecordHash_linked (prevHash : Option String) (rs : List FederatedAuditRecord) :
    getLatestRecordHash tools (linked tools prevHash rs) = getLatestRecordHash tools rs := by
  unfold getLatestRecordHash
  induction rs generalizing prevHash with
  | nil => rfl
  | cons round rest ih =>
    cases rest with
    | nil => rfl
    | cons round' rest =>
      have hrest := ih (some (tools.sha256 (canonical round)))
      rw [linked_cons] at hrest ⊢
      rw [linked_cons, List.getLast?_cons_cons, List.getLast?_cons_cons]
      exact hrest

/-- Linking a history with more rounds. -/
theorem linked_append (prevHash : Option String) (rs rest : List FederatedAuditRecord) :
    linked tools prevHash (rs ++ rest) = linked tools prevHash rs ++
      linked tools ((getLatestRecordHash tools rs).or prevHash) rest := by
  induction rs generalizing prevHash with
  | nil => rfl
  | cons round rs ih =>
    have hlatest : (getLatestRecordHash tools rs).or (some (tools.sha256 (canonical round))) =
        (getLatestRecordHash tools (round :: rs)).or prevHash := by
      unfold getLatestRecordHash
      cases rs with
      | nil => rfl
      | cons round' rs =>
        rw [List.getLast?_cons_cons, List.getLast?_eq_some_getLast (List.cons_ne_nil _ _)]
        rfl
    rw [List.cons_append, linked_cons, linked_cons, ih, hlatest, List.cons_append]

/-- A sequence of calls links the rounds that it records. -/
theorem built_eq (calls : List RoundCall) :
    built tools calls = linked tools none (rounds tools calls) := by
  have hrun (records : List FederatedAuditRecord) (rs : List FederatedAuditRecord)
      (hrecords : records = linked tools none rs) :
      exec (fun records call => (recordRound tools records call).1) records calls =
        linked tools none (rs ++ rounds tools calls) := by
    induction calls generalizing records rs with
    | nil =>
      rw [exec_nil, hrecords]
      exact congrArg _ (List.append_nil rs).symm
    | cons call calls ih =>
      rw [exec_cons, recordRound_fst]
      unfold rounds at ih ⊢
      cases hround : round? tools call with
      | none =>
        rw [List.filterMap_cons_none hround]
        exact ih _ _ (by rw [hrecords]; exact List.append_nil _)
      | some round =>
        rw [List.filterMap_cons_some hround, List.append_cons]
        refine ih _ _ ?_
        rw [linked_append, hrecords, getLatestRecordHash_linked, Option.or_none]
        rfl
  exact hrun [] [] rfl

/-- The records without their links are the rounds. -/
theorem rounds_of_linked (prevHash : Option String) (calls : List RoundCall) :
    (linked tools prevHash (rounds tools calls)).map
      (fun record => { record with prevHash := none }) = rounds tools calls := by
  have herase (rs : List FederatedAuditRecord) (hrs : ∀ round ∈ rs, round.prevHash = none) :
      (linked tools prevHash rs).map (fun record => { record with prevHash := none }) = rs := by
    induction rs generalizing prevHash with
    | nil => rfl
    | cons round rs ih =>
      have hround := hrs round List.mem_cons_self
      rw [linked_cons, List.map_cons, ih _ fun r hr => hrs r (List.mem_cons_of_mem _ hr)]
      dsimp only
      rw [← hround]
  exact herase _ fun round hround => prevHash_of_mem_rounds hround

/-- Two histories are equal record by record exactly if the same rounds are recorded. -/
theorem built_eq_iff {calls' : List RoundCall} :
    built tools calls = built tools calls' ↔ rounds tools calls = rounds tools calls' := by
  rw [built_eq, built_eq]
  constructor
  · intro h
    rw [← rounds_of_linked none calls, ← rounds_of_linked none calls', h]
  · intro h
    rw [h]

/-- The latest hashes of two histories agree exactly if their last rounds do. -/
theorem getLatestRecordHash_eq_iff {calls' : List RoundCall}
    (hapart : HashesApart tools (rounds tools calls) (rounds tools calls')) :
    getLatestRecordHash tools (rounds tools calls) =
        getLatestRecordHash tools (rounds tools calls') ↔
      (rounds tools calls).getLast? = (rounds tools calls').getLast? := by
  unfold getLatestRecordHash
  constructor
  · intro h
    cases hlast : (rounds tools calls).getLast? with
    | none =>
      rw [hlast] at h
      cases hlast' : (rounds tools calls').getLast? with
      | none => rfl
      | some round' =>
        rw [hlast'] at h
        cases h
    | some round =>
      rw [hlast] at h
      cases hlast' : (rounds tools calls').getLast? with
      | none =>
        rw [hlast'] at h
        cases h
      | some round' =>
        rw [hlast'] at h
        have htext := hapart round hlast round' hlast' (Option.some.inj h)
        have hprev := prevHash_of_mem_rounds (List.mem_of_mem_getLast? hlast)
        have hprev' := prevHash_of_mem_rounds (List.mem_of_mem_getLast? hlast')
        rw [canonical_inj htext (hprev.trans hprev'.symm)]
  · intro h
    rw [h]

/-- The links of the records added to a history. Only the first depends on the history. -/
theorem laterLinks_eq (before after : List RoundCall) :
    laterLinks tools before after =
      match rounds tools after with
      | [] => []
      | round :: rest => getLatestRecordHash tools (rounds tools before) ::
          (linked tools (some (tools.sha256 (canonical round))) rest).map
            FederatedAuditRecord.prevHash := by
  unfold laterLinks
  rw [built_eq, built_eq, rounds_append, linked_append, List.drop_left, Option.or_none]
  cases rounds tools after with
  | nil => rfl
  | cons round rest => rfl

/-- All links of the records added to two histories differ exactly if nothing is added, or if
one record is added and the latest hashes of the histories differ. -/
theorem forall₂_laterLinks_iff (before before' after : List RoundCall) :
    List.Forall₂ (· ≠ ·) (laterLinks tools before after) (laterLinks tools before' after) ↔
      rounds tools after = [] ∨ (rounds tools after).length = 1 ∧
        getLatestRecordHash tools (rounds tools before) ≠
          getLatestRecordHash tools (rounds tools before') := by
  rw [laterLinks_eq, laterLinks_eq]
  cases rounds tools after with
  | nil => simp
  | cons round rest =>
    cases rest with
    | nil => simp [linked]
    | cons round' rest =>
      -- The second link is the hash of the same round in both histories.
      have hsame (p p' : Option String) (links : List (Option String)) :
          ¬List.Forall₂ (· ≠ ·) (p :: some (tools.sha256 (canonical round)) :: links)
            (p' :: some (tools.sha256 (canonical round)) :: links) := by
        intro h
        exact (List.forall₂_cons.mp (List.forall₂_cons.mp h).2).1 rfl
      dsimp only
      rw [linked_cons, List.map_cons]
      simp [hsame]

/-- What the chain commits to. The latest hash tells two histories apart exactly if their last
rounds differ, and a change of the history changes all later links exactly if it changes the
last round before them and at most one record follows. -/
theorem chain_commits_iff (tools : AuditTools) (before before' after : List RoundCall)
    (hapart : HashesApart tools (rounds tools before) (rounds tools before')) :
    ((getLatestRecordHash tools (built tools before) =
          getLatestRecordHash tools (built tools before') →
        built tools before = built tools before') ↔
      rounds tools before = rounds tools before' ∨
        (rounds tools before).getLast? ≠ (rounds tools before').getLast?) ∧
    ((built tools before ≠ built tools before' →
        List.Forall₂ (· ≠ ·) (laterLinks tools before after) (laterLinks tools before' after)) ↔
      rounds tools before = rounds tools before' ∨ rounds tools after = [] ∨
        (rounds tools after).length = 1 ∧
          (rounds tools before).getLast? ≠ (rounds tools before').getLast?) := by
  have hlatest (calls : List RoundCall) : getLatestRecordHash tools (built tools calls) =
      getLatestRecordHash tools (rounds tools calls) := by
    rw [built_eq, getLatestRecordHash_linked]
  have hhash := getLatestRecordHash_eq_iff hapart
  constructor
  · rw [hlatest, hlatest, built_eq_iff, hhash, imp_iff_not_or, or_comm]
  · rw [forall₂_laterLinks_iff, Ne, Ne, built_eq_iff, hhash, ← or_iff_not_imp_left]

/-- A round of two participants. -/
def exampleCall (modelHash : String) (modelVersion : ℤ) : RoundCall where
  participantFingerprints := ["b", "a"]
  gradientNorms := [("p", .number "1.0")]
  aggregationAlgorithm := "fedavg"
  aggregateModelHash := modelHash
  roundOutcome := "success"
  modelVersion := modelVersion
  now := "2026-01-01T00:00:00Z"

/-- SHA-256, and `repr` for keys without special characters. -/
def exampleTools : AuditTools where
  sha256 := Sha256.hexdigestString
  repr s := "'" ++ s ++ "'"

/-- Two rounds. -/
def twoRounds (firstHash : String) : List RoundCall :=
  [exampleCall firstHash 1, exampleCall "c" 2]

theorem rounds_twoRounds (firstHash : String) :
    ∃ first last, rounds exampleTools (twoRounds firstHash) = [first, last] ∧
      first.aggregateModelHash = firstHash ∧
      round? exampleTools (exampleCall "c" 2) = some last :=
  ⟨_, _, rfl, rfl, rfl⟩

/-- The last rounds of two such histories are the same. -/
theorem getLast?_twoRounds (firstHash : String) :
    (rounds exampleTools (twoRounds firstHash)).getLast? =
      round? exampleTools (exampleCall "c" 2) := by
  obtain ⟨first, last, hrounds, -, hlast⟩ := rounds_twoRounds firstHash
  rw [hrounds, hlast]
  rfl

theorem rounds_twoRounds_ne : rounds exampleTools (twoRounds "a") ≠
    rounds exampleTools (twoRounds "b") := by
  obtain ⟨first, last, hrounds, hhash, -⟩ := rounds_twoRounds "a"
  obtain ⟨first', last', hrounds', hhash', -⟩ := rounds_twoRounds "b"
  rw [hrounds, hrounds']
  intro h
  rw [(List.cons.inj h).1, hhash'] at hhash
  exact absurd hhash (by decide)

/-- Another first round leaves the latest hash as it is. -/
theorem first_round_not_committed :
    ¬(getLatestRecordHash exampleTools (built exampleTools (twoRounds "a")) =
        getLatestRecordHash exampleTools (built exampleTools (twoRounds "b")) →
      built exampleTools (twoRounds "a") = built exampleTools (twoRounds "b")) := by
  rw [built_eq_iff, built_eq, built_eq, getLatestRecordHash_linked, getLatestRecordHash_linked]
  unfold getLatestRecordHash
  rw [getLast?_twoRounds, getLast?_twoRounds]
  exact fun h => rounds_twoRounds_ne (h rfl)

/-- The condition fails for these two histories. -/
theorem chain_commits_twoRounds :
    HashesApart exampleTools (rounds exampleTools (twoRounds "a"))
        (rounds exampleTools (twoRounds "b")) ∧
      ¬(getLatestRecordHash exampleTools (built exampleTools (twoRounds "a")) =
          getLatestRecordHash exampleTools (built exampleTools (twoRounds "b")) →
        built exampleTools (twoRounds "a") = built exampleTools (twoRounds "b")) := by
  have hapart : HashesApart exampleTools (rounds exampleTools (twoRounds "a"))
      (rounds exampleTools (twoRounds "b")) := by
    intro latest hlatest latest' hlatest' _
    rw [getLast?_twoRounds] at hlatest hlatest'
    rw [Option.mem_unique hlatest hlatest']
  refine ⟨hapart, fun h => ?_⟩
  rcases (chain_commits_iff exampleTools _ _ [] hapart).1.mp h with hrounds | hlast
  · exact rounds_twoRounds_ne hrounds
  · rw [getLast?_twoRounds, getLast?_twoRounds] at hlast
    exact hlast rfl

end FederatedAuditTrail

end LedgerLens.Federated
