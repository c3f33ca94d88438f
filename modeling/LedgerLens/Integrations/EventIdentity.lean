import LedgerLens.Integrations.ScoreOracleListener
import LedgerLens.Library.JsonTree
import LedgerLens.Library.Runs

/-!
# The identity of an event without an id

The events of Horizon's fallback have no paging token. Their identity is a hash of six parts, each
followed by a separator, and an event whose identity is stored already is taken for a replay. This
file shows that the parts can be told apart, so that only an event with the same parts is one.

How dates are read is a parameter.
-/

namespace LedgerLens.Integrations.OracleEvents

open Json (Tree)
open Transition (exec)

/-- What parsing an event raises. -/
inductive ParseError where
  /-- `AttributeError`: a value without `get` or `encode`. -/
  | attributeError
  /-- `KeyError`. -/
  | keyError
  /-- `TypeError`: a value that cannot be hashed. -/
  | typeError
  /-- `ValueError`: not a date. -/
  | valueError
  deriving DecidableEq

/-- `datetime.fromisoformat`. -/
structure DateReader where
  /-- Points in time. -/
  Date : Type
  /-- The time that a text gives. -/
  read : String → Option Date
  /-- At most one character, that between the date and the time, may be a control character. -/
  separator : ∀ text date, read text = some date →
    (text.toList.countP fun c => c.toNat < 32) ≤ 1

/-- The payload of an event. -/
structure EventPayload where
  /-- `id`, if it has one. -/
  id : Option String := none
  /-- `contractId`, if it has one. -/
  contractId : Option String := none
  /-- `ledger`, if it has one. -/
  ledger : Option ℕ := none
  /-- `topic`. -/
  topic : Tree .items
  /-- `value`, or `None`. -/
  value : Tree .value
  /-- An object is given by its members in the order of their keys. -/
  sortedTopic : topic.Sorted
  /-- See `sortedTopic`. -/
  sortedValue : value.Sorted

/-- An event as it comes. -/
inductive RawEvent where
  /-- From the RPC server. -/
  | rpc (payload : EventPayload) (ledgerClosedAt : Option String)
  /-- From Horizon's effects, with the payload under `data`. -/
  | horizon (id contractId createdAt : Option String) (data : EventPayload)

namespace RawEvent

/-- `payload`. -/
def payload : RawEvent → EventPayload
  | rpc payload _ => payload
  | horizon _ _ _ data => data

/-- `timestamp_str`. -/
def timestampStr : RawEvent → Option String
  | rpc _ ledgerClosedAt => ledgerClosedAt
  | horizon _ _ createdAt _ => createdAt

/-- `raw.get("id")`. -/
def id : RawEvent → Option String
  | rpc payload _ => payload.id
  | horizon id _ _ _ => id

/-- `raw.get("contractId")`. -/
def contractId : RawEvent → Option String
  | rpc payload _ => payload.contractId
  | horizon _ contractId _ _ => contractId

end RawEvent

/-- `a or b` for texts that may be missing. -/
def orElse (a b : Option String) : Option String := (a.filter (· ≠ "")).or b

/-- `_canonical_repr`. -/
def canonicalRepr (value : Tree .value) : List Char := value.text true

/-- `native_id`, if it counts. -/
def nativeId (raw : RawEvent) : Option String :=
  (orElse raw.id raw.payload.id).filter (· ≠ "")

/-- What `_event_identity` goes through. -/
def identityParts (raw : RawEvent) (eventType : String) (ledgerSequence : ℕ)
    (timestampStr : Option String) : List String :=
  [(orElse raw.payload.contractId raw.contractId).getD "", eventType, toString ledgerSequence,
    timestampStr.getD "", String.ofList (canonicalRepr (.array raw.payload.topic)),
    String.ofList (canonicalRepr raw.payload.value)]

/-- What the digest is updated with. -/
def identityBytes (parts : List String) : List UInt8 :=
  parts.flatMap fun part => part.toUTF8.data.toList ++ [0x1f]

/-- `_event_identity`. -/
def eventIdentity (raw : RawEvent) (eventType : String) (ledgerSequence : ℕ)
    (timestampStr : Option String) : String :=
  match nativeId raw with
  | some id => id
  | none =>
    "synthetic:" ++
      Sha256.hexdigest (identityBytes (identityParts raw eventType ledgerSequence timestampStr))

/-- `value.get(key, default)`. -/
def get (value : Tree .value) (key : String) (default : Tree .value := .null) :
    Except ParseError (Tree .value) :=
  match value with
  | .object members => .ok ((members.toMembers.lookup key).getD default)
  | _ => .error .attributeError

/-- Whether a value counts as true. -/
def truthy : Tree .value → Bool
  | .null => false
  | .bool b => b
  | .number (.int n) => n ≠ 0
  | .number (.float x) => x.text.any (· ∈ "123456789NI".toList)
  | .string s => s ≠ ""
  | .array items => items ≠ .noItem
  | .object members => members ≠ .noMember

/-- Whether a value can be a key or an element of a set. -/
def hashable : Tree .value → Bool
  | .array _ | .object _ => false
  | _ => true

/-- The loop of `_decode_value_map`. -/
def decodeEntries (entries : List (Tree .value)) (result : UniqueTable String (Tree .value)) :
    Except ParseError (UniqueTable String (Tree .value)) :=
  match entries with
  | [] => .ok result
  | entry :: rest => do
    let key ← get (← get entry "key" (.object .noMember)) "value"
    if key = .null then
      decodeEntries rest result
    else
      let val ← get (← get entry "val" (.object .noMember)) "value"
      match key with
      | .string key => decodeEntries rest (result.put key val)
      | key => if hashable key then decodeEntries rest result else throw .typeError

/-- `_decode_value_map`, of which the entries with texts as keys are kept. -/
def decodeValueMap (value : Tree .value) :
    Except ParseError (UniqueTable String (Tree .value)) := do
  if truthy value then
    if (← get value "type") = .string "map" then
      match ← get value "value" (.array .noItem) with
      | .array entries => decodeEntries entries.toItems .empty
      | .string "" | .object .noMember => return .empty
      | .string _ | .object _ => throw .attributeError
      | _ => throw .typeError
    else
      return .empty
  else
    return .empty

/-- `_hash_address`. -/
def hashValue (secret : String) : Tree .value → Except ParseError String
  | .string address => .ok (hashAddress secret address)
  | _ => .error .attributeError

/-- `ContractEvent`. -/
structure ContractEvent (Date : Type) where
  /-- `event_type`. -/
  eventType : String
  /-- `ledger_sequence`. -/
  ledgerSequence : ℕ
  /-- `timestamp`. -/
  timestamp : Date
  /-- `event_id`. -/
  eventId : String
  /-- `contract_id`. -/
  contractId : Option String
  /-- `score`. -/
  score : Tree .value
  /-- `asset_pair`. -/
  assetPair : Tree .value
  /-- `wallet_id_hash`. -/
  walletIdHash : Option String
  /-- `consumer_address_hash`. -/
  consumerAddressHash : Option String
  /-- `old_threshold`. -/
  oldThreshold : Tree .value
  /-- `new_threshold`. -/
  newThreshold : Tree .value

/-- `raw.replace("Z", "+00:00")`. -/
def withOffset (raw : String) : String :=
  String.ofList (raw.toList.flatMap fun c => if c = 'Z' then "+00:00".toList else [c])

section

variable (dates : DateReader) (now : dates.Date) (secret : String)

/-- `_parse_timestamp`. -/
def parseTimestamp (raw : String) : Except ParseError dates.Date :=
  match dates.read (withOffset raw) with
  | none => .error .valueError
  | some date => .ok date

/-- `timestamp`. -/
def timestampOf (raw : RawEvent) : Except ParseError dates.Date :=
  match raw.timestampStr.filter (· ≠ "") with
  | none => .ok now
  | some text => parseTimestamp dates text

/-- `wallet_id_hash`, with the topics after the first one. -/
def walletIdHash (topics : Tree .items) : Except ParseError (Option String) :=
  match topics with
  | .noItem => .ok none
  | .item topic _ => do
    if (← get topic "type") = .string "address" then
      match topic with
      | .object members =>
        match members.toMembers.lookup "value" with
        | none => throw .keyError
        | some address => return some (← hashValue secret address)
      | _ => throw .typeError
    else
      return none

/-- `consumer_address_hash`, with `consumer_raw`. -/
def consumerAddressHash (consumerRaw : Tree .value) : Except ParseError (Option String) :=
  if truthy consumerRaw then some <$> hashValue secret consumerRaw else .ok none

/-- `parse_contract_event` for an event of a known type. -/
def parseKnownEvent (raw : RawEvent) (eventType : String) (topics : Tree .items) :
    Except ParseError (ContractEvent dates.Date) := do
  let ledgerSequence := raw.payload.ledger.getD 0
  let timestamp ← timestampOf dates now raw
  let walletIdHash ← walletIdHash secret topics
  let fields ← decodeValueMap raw.payload.value
  let field (key : String) := (fields.find? key).getD .null
  let consumerAddressHash ← consumerAddressHash secret (field "consumer")
  return {
    eventType := eventType
    ledgerSequence := ledgerSequence
    timestamp := timestamp
    eventId := eventIdentity raw eventType ledgerSequence raw.timestampStr
    contractId := orElse raw.payload.contractId raw.contractId
    score := field "score"
    assetPair := field "asset_pair"
    walletIdHash := walletIdHash
    consumerAddressHash := consumerAddressHash
    oldThreshold := field "old_threshold"
    newThreshold := field "new_threshold" }

/-- `parse_contract_event`; `none` for an event that is ignored. -/
def parseContractEvent (raw : RawEvent) : Except ParseError (Option (ContractEvent dates.Date)) :=
  match raw.payload.topic with
  | .noItem => .ok none
  | .item topic topics => do
    match ← get topic "value" with
    | .string eventType =>
      if eventType ∈ knownEventTypes then
        some <$> parseKnownEvent dates now secret raw eventType topics
      else
        return none
    | eventType => if hashable eventType then return none else throw .typeError

/-- The table `soroban_contract_events`, with its unique `event_id`. -/
abbrev EventTable := UniqueTable String (ContractEvent dates.Date)

variable {dates}

/-- `persist_event`: whether a row was written, and the table then. -/
def persistEvent (event : ContractEvent dates.Date) (table : EventTable dates) :
    Bool × EventTable dates :=
  if (table.find? event.eventId).isSome then
    (false, table)
  else
    match table.insert? event.eventId event with
    | none => (false, table)
    | some table => (true, table)

/-- An event is parsed and, if it is one of the contract, stored. -/
def ingest (table : EventTable dates) (raw : RawEvent) : EventTable dates :=
  match parseContractEvent dates now secret raw with
  | .ok (some event) => (persistEvent event table).2
  | _ => table

end

/-- The separator as a character. -/
def separator : Char := '\x1f'

/-- What the digest is updated with is a text in UTF-8. -/
theorem identityBytes_eq (parts : List String) :
    identityBytes parts =
      (String.ofList
        (parts.flatMap fun part => part.toList ++ [separator])).toUTF8.data.toList := by
  have happend (s t : String) :
      (s ++ t).toUTF8.data.toList = s.toUTF8.data.toList ++ t.toUTF8.data.toList := by
    simp [String.toUTF8]
  induction parts with
  | nil => rfl
  | cons part parts ih =>
    have hbytes : identityBytes (part :: parts) =
        part.toUTF8.data.toList ++ [0x1f] ++ identityBytes parts := rfl
    rw [hbytes, ih, List.flatMap_cons, String.ofList_append, String.ofList_append,
      String.ofList_toList, happend, happend]
    rfl

theorem identityBytes_inj {parts parts' : List String}
    (h : identityBytes parts = identityBytes parts') :
    (parts.flatMap fun part => part.toList ++ [separator]) =
      parts'.flatMap fun part => part.toList ++ [separator] := by
  rw [identityBytes_eq, identityBytes_eq] at h
  exact String.ofList_injective (Sha256.utf8_inj h)

/-- A text with one separator at most. -/
theorem split_of_count_le_one {m : List Char} (h : m.count separator ≤ 1) :
    separator ∉ m ∨ ∃ a b, m = a ++ separator :: b ∧ separator ∉ a ∧ separator ∉ b := by
  by_cases hmem : separator ∈ m
  · obtain ⟨a, b, rfl⟩ := List.append_of_mem hmem
    rw [List.count_append, List.count_cons_self] at h
    exact .inr ⟨a, b, rfl, List.count_eq_zero.mp (by omega), List.count_eq_zero.mp (by omega)⟩
  · exact .inl hmem

theorem separator_notMem_toString (n : ℕ) : separator ∉ (toString n).toList :=
  fun h => absurd (Json.isDigit_of_mem_toString h) (by decide)

/-- The texts of the types that are known have no separator and are no numbers. -/
theorem knownEventType_spec {eventType : String} (h : eventType ∈ knownEventTypes) :
    separator ∉ eventType.toList ∧ ∀ n : ℕ, (toString n).toList ≠ eventType.toList := by
  have hall : ∀ eventType ∈ knownEventTypes,
      separator ∉ eventType.toList ∧ '_' ∈ eventType.toList := by decide
  obtain ⟨hseparator, hletter⟩ := hall eventType h
  exact ⟨hseparator, fun n heq => absurd (Json.isDigit_of_mem_toString (heq ▸ hletter)) (by decide)⟩

section

variable {contract contract' ts ts' : List Char} {eventType eventType' : String} {n n' : ℕ}

/-- The first four parts, each but the last followed by the separator. -/
def stamped (contract : List Char) (eventType : String) (n : ℕ) (ts : List Char) : List Char :=
  ((contract ++ separator :: eventType.toList) ++ separator :: (toString n).toList) ++
    separator :: ts

/-- A time without separators and one with a separator cannot be taken for one another, as a number
would be a type. -/
theorem stamped_ne (htype : eventType ∈ knownEventTypes) (hts : separator ∉ ts) {a b : List Char}
    (ha : separator ∉ a) (hb : separator ∉ b) :
    stamped contract eventType n ts ≠
      stamped contract' eventType' n' (a ++ separator :: b) := by
  intro h
  have hassoc : stamped contract' eventType' n' (a ++ separator :: b) =
      stamped contract' eventType' n' a ++ separator :: b := by
    simp [stamped]
  rw [hassoc] at h
  obtain ⟨h, -⟩ := Json.last_inj hts hb h
  obtain ⟨h, -⟩ := Json.last_inj (separator_notMem_toString n) ha h
  obtain ⟨-, hnumber⟩ := Json.last_inj (knownEventType_spec htype).1 (separator_notMem_toString n') h
  exact (knownEventType_spec htype).2 n' hnumber.symm

/-- The first four parts can be told apart, if the time has one separator at most. -/
theorem stamped_inj (htype : eventType ∈ knownEventTypes) (htype' : eventType' ∈ knownEventTypes)
    (hts : ts.count separator ≤ 1) (hts' : ts'.count separator ≤ 1)
    (h : stamped contract eventType n ts = stamped contract' eventType' n' ts') :
    contract = contract' ∧ eventType = eventType' ∧ n = n' ∧ ts = ts' := by
  have hfirst (htext : (contract ++ separator :: eventType.toList) ++ separator ::
      (toString n).toList = (contract' ++ separator :: eventType'.toList) ++ separator ::
      (toString n').toList) : contract = contract' ∧ eventType = eventType' ∧ n = n' := by
    obtain ⟨htext, hn⟩ := Json.last_inj (separator_notMem_toString n) (separator_notMem_toString n')
      htext
    obtain ⟨hcontract, heventType⟩ := Json.last_inj (knownEventType_spec htype).1
      (knownEventType_spec htype').1 htext
    rw [Nat.toString_eq_repr, Nat.toList_repr, Nat.toString_eq_repr, Nat.toList_repr] at hn
    exact ⟨hcontract, String.toList_inj.mp heventType, Json.toDigits_inj hn⟩
  obtain hnone | ⟨a, b, rfl, ha, hb⟩ := split_of_count_le_one hts
  · obtain hnone' | ⟨a', b', rfl, ha', hb'⟩ := split_of_count_le_one hts'
    · obtain ⟨htext, hts⟩ := Json.last_inj hnone hnone' h
      obtain ⟨hcontract, heventType, hn⟩ := hfirst htext
      exact ⟨hcontract, heventType, hn, hts⟩
    · exact absurd h (stamped_ne htype hnone ha' hb')
  · obtain hnone' | ⟨a', b', rfl, ha', hb'⟩ := split_of_count_le_one hts'
    · exact absurd h.symm (stamped_ne htype' hnone' ha hb)
    · have hassoc (contract : List Char) (eventType : String) (n : ℕ) (a b : List Char) :
          stamped contract eventType n (a ++ separator :: b) =
            stamped contract eventType n a ++ separator :: b := by
        simp [stamped]
      rw [hassoc, hassoc] at h
      obtain ⟨htime, rfl⟩ := Json.last_inj hb hb' h
      obtain ⟨htext, rfl⟩ := Json.last_inj ha ha' htime
      obtain ⟨hcontract, heventType, hn⟩ := hfirst htext
      exact ⟨hcontract, heventType, hn, rfl⟩

end

/-- What an event without an id is known by. -/
@[ext] structure EventContent where
  /-- The contract, or an empty text. -/
  contractId : String
  /-- The type. -/
  eventType : String
  /-- The ledger. -/
  ledgerSequence : ℕ
  /-- The time, or an empty text. -/
  timestampStr : String
  /-- The topics. -/
  topic : Tree .items
  /-- The value. -/
  value : Tree .value

/-- The six parts of an event. -/
def RawEvent.content (raw : RawEvent) (eventType : String) : EventContent where
  contractId := (orElse raw.payload.contractId raw.contractId).getD ""
  eventType := eventType
  ledgerSequence := raw.payload.ledger.getD 0
  timestampStr := raw.timestampStr.getD ""
  topic := raw.payload.topic
  value := raw.payload.value

/-- The texts of the six parts. -/
def EventContent.parts (x : EventContent) : List String :=
  [x.contractId, x.eventType, toString x.ledgerSequence, x.timestampStr,
    String.ofList (canonicalRepr (.array x.topic)), String.ofList (canonicalRepr x.value)]

/-- The parts of an event that is stored: its type is known, and its time has one separator at
most. -/
structure EventContent.Valid (x : EventContent) : Prop where
  /-- The type. -/
  eventType : x.eventType ∈ knownEventTypes
  /-- The time. -/
  timestampStr : x.timestampStr.toList.count separator ≤ 1

theorem separator_notMem_canonicalRepr (value : Tree .value) : separator ∉ canonicalRepr value :=
  fun h => absurd (value.printable true h) (by decide)

/-- The bytes that are hashed determine the parts. -/
theorem EventContent.Valid.parts_inj {x y : EventContent} (hx : x.Valid) (hy : y.Valid)
    (h : identityBytes x.parts = identityBytes y.parts) : x = y := by
  have htext (x : EventContent) :
      (x.parts.flatMap fun part => part.toList ++ [separator]) =
        ((stamped x.contractId.toList x.eventType x.ledgerSequence x.timestampStr.toList ++
          separator :: canonicalRepr (.array x.topic)) ++ separator :: canonicalRepr x.value) ++
          separator :: [] := by
    simp [parts, stamped]
  have hchars := identityBytes_inj h
  rw [htext, htext] at hchars
  obtain ⟨hchars, -⟩ := Json.last_inj List.not_mem_nil List.not_mem_nil hchars
  obtain ⟨hchars, hvalue⟩ := Json.last_inj (separator_notMem_canonicalRepr _)
    (separator_notMem_canonicalRepr _) hchars
  obtain ⟨hchars, htopic⟩ := Json.last_inj (separator_notMem_canonicalRepr _)
    (separator_notMem_canonicalRepr _) hchars
  obtain ⟨hcontract, heventType, hledger, htimestamp⟩ := stamped_inj hx.eventType hy.eventType
    hx.timestampStr hy.timestampStr hchars
  exact EventContent.ext (String.toList_inj.mp hcontract) heventType hledger
    (String.toList_inj.mp htimestamp) (Tree.array.inj (Tree.eq_of_text_eq htopic))
    (Tree.eq_of_text_eq hvalue)

section

variable {dates : DateReader} {now : dates.Date} {secret : String} {raw : RawEvent}

theorem count_separator_withOffset (text : String) :
    (withOffset text).toList.count separator = text.toList.count separator := by
  rw [withOffset, String.toList_ofList]
  induction text.toList with
  | nil => rfl
  | cons c chars ih =>
    rw [List.flatMap_cons, List.count_append, ih, List.count_cons, add_comm]
    split_ifs with hZ hseparator
    · subst hZ
      exact absurd hseparator (by decide)
    · rfl
    · simp_all
    · simp_all

/-- A text that is read as a time has one separator at most. -/
theorem count_separator_le_one {date : dates.Date} (h : timestampOf dates now raw = .ok date) :
    (raw.timestampStr.getD "").toList.count separator ≤ 1 := by
  unfold timestampOf at h
  cases htext : raw.timestampStr with
  | none => exact Nat.zero_le 1
  | some text =>
    rw [Option.getD_some]
    rw [htext] at h
    by_cases hempty : text = ""
    · subst hempty
      exact Nat.zero_le 1
    · have hsome : (some text).filter (· ≠ "") = some text := by simpa using hempty
      rw [hsome] at h
      dsimp only at h
      unfold parseTimestamp at h
      cases hread : dates.read (withOffset text) with
      | none =>
        simp only [hread] at h
        cases h
      | some date' =>
        rw [← count_separator_withOffset]
        refine le_trans ?_ (dates.separator _ date' hread)
        refine List.countP_mono_left fun c _ hc => ?_
        rw [beq_iff_eq] at hc
        subst hc
        decide

/-- An event of a known type. -/
theorem parseKnownEvent_spec {eventType : String} {topics : Tree .items}
    {event : ContractEvent dates.Date}
    (h : parseKnownEvent dates now secret raw eventType topics = .ok event) :
    event.eventType = eventType ∧
      event.eventId = eventIdentity raw eventType (raw.payload.ledger.getD 0) raw.timestampStr ∧
      ∃ date, timestampOf dates now raw = .ok date := by
  unfold parseKnownEvent at h
  cases htimestamp : timestampOf dates now raw with
  | error e =>
    rw [htimestamp] at h
    cases h
  | ok date =>
    cases hwallet : walletIdHash secret topics with
    | error e =>
      rw [htimestamp, hwallet] at h
      cases h
    | ok wallet =>
      cases hfields : decodeValueMap raw.payload.value with
      | error e =>
        rw [htimestamp, hwallet, hfields] at h
        cases h
      | ok fields =>
        cases hconsumer : consumerAddressHash secret ((fields.find? "consumer").getD .null) with
        | error e =>
          simp only [htimestamp, hwallet, hfields, bind, Except.bind, hconsumer] at h
          cases h
        | ok consumer =>
          simp only [htimestamp, hwallet, hfields, bind, Except.bind, hconsumer] at h
          cases h
          exact ⟨rfl, rfl, date, rfl⟩

/-- What a parsed event is known by. -/
theorem parseContractEvent_spec {event : ContractEvent dates.Date}
    (h : parseContractEvent dates now secret raw = .ok (some event)) :
    (raw.content event.eventType).Valid ∧
      event.eventId = eventIdentity raw event.eventType (raw.payload.ledger.getD 0)
        raw.timestampStr := by
  unfold parseContractEvent at h
  split at h
  · cases h
  · rename_i topic topics htopic
    cases htype : get topic "value" with
    | error e =>
      rw [htype] at h
      cases h
    | ok value =>
      rw [htype] at h
      simp only [bind, Except.bind] at h
      split at h
      · rename_i eventType
        split at h
        · rename_i hknown
          cases hevent : parseKnownEvent dates now secret raw eventType topics with
          | error e =>
            rw [hevent] at h
            cases h
          | ok event' =>
            rw [hevent] at h
            cases h
            obtain ⟨rfl, hid, date, hdate⟩ := parseKnownEvent_spec hevent
            exact ⟨⟨hknown, count_separator_le_one hdate⟩, hid⟩
        · cases h
      · split at h <;> cases h

/-- What is hashed for the events among some raw ones. -/
def hashedBytes (dates : DateReader) (now : dates.Date) (secret : String) (raws : List RawEvent) :
    Set (List UInt8) :=
  {bytes | ∃ raw ∈ raws, ∃ event, parseContractEvent dates now secret raw = .ok (some event) ∧
    bytes = identityBytes (raw.content event.eventType).parts}

/-- An event is discarded exactly if its identity is in the table, and it is in it afterwards. -/
theorem persistEvent_spec (event : ContractEvent dates.Date) (table : EventTable dates) :
    ((persistEvent event table).1 = false ↔ (table.find? event.eventId).isSome) ∧
      ∀ id, ((persistEvent event table).2.find? id).isSome ↔
        (table.find? id).isSome ∨ event.eventId = id := by
  unfold persistEvent
  cases hfind : table.find? event.eventId with
  | some row =>
    refine ⟨by simp, fun id => ⟨.inl, ?_⟩⟩
    rintro (h | rfl)
    · exact h
    · simp [hfind]
  | none =>
    cases hinsert : table.insert? event.eventId event with
    | none => exact absurd hfind ((UniqueTable.insert?_eq_none_iff _ _ _).mp hinsert)
    | some inserted =>
      refine ⟨by simp, fun id => ?_⟩
      have hrows := UniqueTable.find?_of_insert? hinsert id
      simp only [Option.isSome_none, Bool.false_eq_true, if_false, hrows]
      by_cases hid : id = event.eventId
      · simp [hid]
      · simp [hid, Ne.symm hid]

/-- What is in the table after a run. -/
theorem isSome_find?_exec (raws : List RawEvent) (table : EventTable dates) (id : String) :
    ((exec (ingest now secret) table raws).find? id).isSome ↔
      (table.find? id).isSome ∨ ∃ raw ∈ raws, ∃ event,
        parseContractEvent dates now secret raw = .ok (some event) ∧ event.eventId = id := by
  induction raws generalizing table with
  | nil => simp [exec]
  | cons raw raws ih =>
    have hstep : exec (ingest now secret) table (raw :: raws) =
        exec (ingest now secret) (ingest now secret table raw) raws := rfl
    have hraw : ((ingest now secret table raw).find? id).isSome ↔
        (table.find? id).isSome ∨ ∃ event,
          parseContractEvent dates now secret raw = .ok (some event) ∧ event.eventId = id := by
      unfold ingest
      split
      · rename_i event hevent
        rw [(persistEvent_spec event table).2 id]
        simp [hevent]
      · rename_i hnone
        refine ⟨.inl, ?_⟩
        rintro (h | ⟨event, hevent, -⟩)
        · exact h
        · exact absurd hevent (hnone event)
    rw [hstep, ih, hraw, List.exists_mem_cons_iff, or_assoc]

/-- Two events without an id have the same identity exactly if they have the same parts, and so
an event is discarded exactly if one with the same parts has come before. -/
theorem discarded_iff {raws before after : List RawEvent} {event : ContractEvent dates.Date}
    (hnative : ∀ raw ∈ raws, nativeId raw = none)
    (hsha : Set.InjOn Sha256.hexdigest (hashedBytes dates now secret raws))
    (hraws : raws = before ++ raw :: after)
    (hevent : parseContractEvent dates now secret raw = .ok (some event)) :
    (∀ raw' ∈ raws, ∀ event', parseContractEvent dates now secret raw' = .ok (some event') →
      (event'.eventId = event.eventId ↔
        raw'.content event'.eventType = raw.content event.eventType)) ∧
      ((persistEvent event (exec (ingest now secret) .empty before)).1 = false ↔
        ∃ raw' ∈ before, ∃ event',
          parseContractEvent dates now secret raw' = .ok (some event') ∧
            raw'.content event'.eventType = raw.content event.eventType) := by
  have hid : ∀ raw' ∈ raws, ∀ event',
      parseContractEvent dates now secret raw' = .ok (some event') →
        event'.eventId = "synthetic:" ++
          Sha256.hexdigest (identityBytes (raw'.content event'.eventType).parts) := by
    intro raw' hraw' event' hevent'
    rw [(parseContractEvent_spec hevent').2, eventIdentity, hnative raw' hraw']
    rfl
  have hraw : raw ∈ raws := by simp [hraws]
  have hsame : ∀ raw' ∈ raws, ∀ event',
      parseContractEvent dates now secret raw' = .ok (some event') →
        (event'.eventId = event.eventId ↔
          raw'.content event'.eventType = raw.content event.eventType) := by
    intro raw' hraw' event' hevent'
    rw [hid raw' hraw' event' hevent', hid raw hraw event hevent, String.append_right_inj]
    constructor
    · intro hhash
      have hbytes := hsha ⟨raw', hraw', event', hevent', rfl⟩ ⟨raw, hraw, event, hevent, rfl⟩ hhash
      exact (parseContractEvent_spec hevent').1.parts_inj (parseContractEvent_spec hevent).1 hbytes
    · intro hcontent
      rw [hcontent]
  refine ⟨hsame, ?_⟩
  rw [(persistEvent_spec event _).1, isSome_find?_exec, UniqueTable.find?_empty]
  simp only [Option.isSome_none, Bool.false_eq_true, false_or]
  refine exists_congr fun raw' => and_congr_right fun hraw' => exists_congr fun event' =>
    and_congr_right fun hevent' => ?_
  exact hsame raw' (by simp [hraws, hraw']) event' hevent'

end

/-- A reading of a score without an id, as Horizon reports it. -/
private def scoreRead : RawEvent :=
  .horizon none (some "CONTRACT") (some "2024-01-01T00:00:00Z")
    { ledger := some 7
      topic := .item (.object (.member "value" (.string "score_read") .noMember)) .noItem
      value := .null
      sortedTopic := by simp [Tree.Sorted, Tree.toMembers]
      sortedValue := trivial }

/-- A reader of one date. -/
private def newYear : DateReader where
  Date := Unit
  read text := if text = "2024-01-01T00:00:00+00:00" then some () else none
  separator text date h := by
    obtain rfl : text = "2024-01-01T00:00:00+00:00" := by
      by_contra hne
      rw [if_neg hne] at h
      cases h
    decide

/-- The same event a second time is discarded. -/
theorem discarded_replay :
    ∃ event, parseContractEvent newYear () "" scoreRead = .ok (some event) ∧
      (persistEvent event (exec (ingest () "") .empty [scoreRead])).1 = false := by
  have hparsed : (parseContractEvent newYear () "" scoreRead).toOption.join.isSome = true := by
    decide +kernel
  obtain ⟨event, hjoin⟩ := Option.isSome_iff_exists.mp hparsed
  have hevent : parseContractEvent newYear () "" scoreRead = .ok (some event) := by
    cases hresult : parseContractEvent newYear () "" scoreRead with
    | error e =>
      rw [hresult] at hjoin
      cases hjoin
    | ok result =>
      rw [hresult] at hjoin
      exact congrArg Except.ok (Option.join_eq_some_iff.mp hjoin |> Option.some.inj)
  have hnative : ∀ raw ∈ [scoreRead, scoreRead], nativeId raw = none := by decide +kernel
  have hsha : Set.InjOn Sha256.hexdigest (hashedBytes newYear () "" [scoreRead, scoreRead]) := by
    rintro a ⟨raw, hraw, event₁, hevent₁, rfl⟩ b ⟨raw', hraw', event₂, hevent₂, rfl⟩ -
    simp only [List.mem_cons, List.not_mem_nil, or_false, or_self] at hraw hraw'
    subst hraw hraw'
    rw [hevent₁] at hevent₂
    cases hevent₂
    rfl
  have hraws : [scoreRead, scoreRead] = [scoreRead] ++ scoreRead :: [] := rfl
  exact ⟨event, hevent, (discarded_iff hnative hsha hraws hevent).2.mpr
    ⟨scoreRead, List.mem_singleton_self _, event, hevent, rfl⟩⟩

end LedgerLens.Integrations.OracleEvents
