import LedgerLens.Library.Sha256
import LedgerLens.Library.UniqueTable
import Mathlib.Data.Int.Notation

/-!
# The score-oracle event listener

`ScoreOracleEventListener` polls the RPC server for the events of one contract. A poll reads
one page of events from the watermark on, the ledger of the watermark included, keeps those
that are confirmed and recognized, and takes them one by one: the event is stored, and if it
is the reading of a score, the score is compared with the current one. At the end the
watermark is moved to the highest ledger of the page. All of the state is in the database.
-/

namespace LedgerLens.Integrations

/-- A topic of an event. -/
structure Topic where
  /-- The field `type`. -/
  type : String
  /-- The field `value`. -/
  value : String
  deriving DecidableEq

/-- What `_decode_value_map` finds in the value of an event. -/
structure EventFields where
  /-- `score`. -/
  score : Option ℤ := none
  /-- `asset_pair`. -/
  assetPair : Option String := none
  /-- `consumer`. -/
  consumer : Option String := none
  /-- `old_threshold`. -/
  oldThreshold : Option ℤ := none
  /-- `new_threshold`. -/
  newThreshold : Option ℤ := none
  deriving DecidableEq

/-- An event as `getEvents` reports it. -/
structure RawEvent where
  /-- Its paging token. -/
  id : String
  /-- Its ledger. -/
  ledger : ℕ
  /-- Its contract. -/
  contractId : String
  /-- Its topics. -/
  topic : List Topic
  /-- Its value. -/
  value : EventFields
  deriving DecidableEq

/-- The events of a contract, in the order of their ledgers. -/
structure EventStream where
  /-- The events. -/
  events : List RawEvent
  /-- No event is in an earlier ledger than one before it. -/
  ordered : events.Pairwise fun e e' => e.ledger ≤ e'.ledger
  /-- Paging tokens are unique. -/
  distinct : (events.map RawEvent.id).Nodup

/-- `ContractEvent`. -/
structure ContractEvent where
  /-- `event_type`. -/
  eventType : String
  /-- `ledger_sequence`. -/
  ledgerSequence : ℕ
  /-- `event_id`. -/
  eventId : String
  /-- `contract_id`. -/
  contractId : String
  /-- `score`. -/
  score : Option ℤ
  /-- `asset_pair`. -/
  assetPair : Option String
  /-- `wallet_id_hash`. -/
  walletIdHash : Option String
  /-- `consumer_address_hash`. -/
  consumerAddressHash : Option String
  /-- `old_threshold`. -/
  oldThreshold : Option ℤ
  /-- `new_threshold`. -/
  newThreshold : Option ℤ
  deriving DecidableEq

/-- `_KNOWN_EVENT_TYPES`. -/
def knownEventTypes : List String := ["score_read", "score_updated", "threshold_updated"]

/-- `_hash_address`. -/
def hashAddress (secret address : String) : String :=
  Sha256.hmacHexdigest secret.toUTF8.data.toList address.toUTF8.data.toList

/-- `parse_contract_event`. -/
def parseContractEvent (secret : String) (raw : RawEvent) : Option ContractEvent :=
  match raw.topic with
  | [] => none
  | eventType :: topics =>
    if eventType.value ∉ knownEventTypes then none
    else
      some
        { eventType := eventType.value
          ledgerSequence := raw.ledger
          eventId := raw.id
          contractId := raw.contractId
          score := raw.value.score
          assetPair := raw.value.assetPair
          walletIdHash := (topics.head?.filter (·.type = "address")).map fun topic =>
            hashAddress secret topic.value
          consumerAddressHash := (raw.value.consumer.filter (· ≠ "")).map (hashAddress secret)
          oldThreshold := raw.value.oldThreshold
          newThreshold := raw.value.newThreshold }

/-- The tables `soroban_contract_events`, with its unique `event_id`, and
`soroban_event_watermarks`. -/
structure OracleDatabase where
  /-- The stored events. -/
  events : UniqueTable String ContractEvent := .empty
  /-- The watermarks of the contracts. -/
  watermarks : UniqueTable String ℕ := .empty

/-- `persist_event`: whether a row was written, and the database then. -/
def persistEvent (event : ContractEvent) (db : OracleDatabase) : Bool × OracleDatabase :=
  if (db.events.find? event.eventId).isSome then (false, db)
  else
    match db.events.insert? event.eventId event with
    | none => (false, db)
    | some events => (true, { db with events := events })

/-- `get_watermark`. -/
def getWatermark (contractId : String) (db : OracleDatabase) : ℕ :=
  (db.watermarks.find? contractId).getD 0

/-- `set_watermark`. -/
def setWatermark (contractId : String) (ledgerSequence : ℕ) (db : OracleDatabase) :
    OracleDatabase :=
  { db with watermarks := db.watermarks.put contractId ledgerSequence }

/-- `split_confirmed`: the confirmed and the pending events. -/
def splitConfirmed (rawEvents : List RawEvent) (latestLedger : Option ℕ)
    (confirmationDepth : ℤ) : List RawEvent × List RawEvent :=
  if confirmationDepth ≤ 0 then (rawEvents, [])
  else
    match latestLedger with
    | none => ([], rawEvents)
    | some latest => rawEvents.partition fun raw => raw.ledger ≤ (latest : ℤ) - confirmationDepth

/-- The alert that `check_stale_score_alert` dispatches. -/
structure StaleScoreAlert where
  /-- The event. -/
  event : ContractEvent
  /-- `delta`. -/
  delta : ℤ
  /-- `consumed_score`. -/
  consumedScore : ℤ
  /-- `current_score`. -/
  currentScore : ℤ
  /-- `wallet_id_hash`. -/
  walletIdHash : Option String
  deriving DecidableEq

/-- `check_stale_score_alert`: the alert, if there is one. -/
def checkStaleScoreAlert (event : ContractEvent) (currentScore : Option ℤ) (threshold : ℤ) :
    Option StaleScoreAlert :=
  if event.eventType ≠ "score_read" then none
  else
    match currentScore, event.score with
    | some current, some consumed =>
      let delta : ℤ := (current - consumed).natAbs
      if delta ≤ threshold then none
      else some ⟨event, delta, consumed, current, event.walletIdHash⟩
    | _, _ => none

/-- `ScoreOracleEventListener`. -/
structure ScoreOracleEventListener where
  /-- `contract_id`. -/
  contractId : String
  /-- `EVENT_HMAC_SECRET`. -/
  secret : String
  /-- Whether there is a `dispatcher`. -/
  hasDispatcher : Bool
  /-- Whether there is a `current_score_fn`. -/
  hasCurrentScoreFn : Bool
  /-- `stale_threshold`. -/
  staleThreshold : ℤ := 20
  /-- `confirmation_depth`. -/
  confirmationDepth : ℤ := 10

/-- One commit or check in the course of `process_batch`. -/
inductive BatchStep where
  /-- `persist_event`. -/
  | persist (event : ContractEvent)
  /-- The check of an event for staleness. -/
  | check (event : ContractEvent)
  /-- `set_watermark`. -/
  | saveWatermark (ledgerSequence : ℕ)
  deriving DecidableEq

/-- What the environment decides about one `poll_once`. -/
structure OraclePoll where
  /-- How many events of the contract the server knows. -/
  known : ℕ
  /-- The answer to `getLatestLedger`. -/
  latestLedger : Option ℕ
  /-- What `current_score_fn` answers for the wallet of an event. -/
  currentScore : ContractEvent → Option ℤ
  /-- After how many steps the process dies or an exception ends the poll. -/
  completed : ℕ

/-- The limit in a request for events. -/
def oraclePageLimit : ℕ := 200

/-- `max_ledger` after some events. -/
def maxLedger (events : List ContractEvent) : Option ℕ :=
  events.foldl (fun maxLedger event =>
    match maxLedger with
    | none => some event.ledgerSequence
    | some ledger => some (max ledger event.ledgerSequence)) none

namespace ScoreOracleEventListener

variable (listener : ScoreOracleEventListener)

/-- `_fetch_raw_events`. -/
def fetchRawEvents (stream : EventStream) (known : ℕ) (db : OracleDatabase) : List RawEvent :=
  ((stream.events.take known).filter fun raw =>
    getWatermark listener.contractId db ≤ raw.ledger).take oraclePageLimit

/-- The parsed events that `process_batch` goes through. -/
def parsedEvents (rawEvents : List RawEvent) (latestLedger : Option ℕ) : List ContractEvent :=
  let rawEvents :=
    if 0 < listener.confirmationDepth ∧ latestLedger.isSome then
      (splitConfirmed rawEvents latestLedger listener.confirmationDepth).1
    else rawEvents
  rawEvents.filterMap (parseContractEvent listener.secret)

/-- The steps of `process_batch`. -/
def processBatch (rawEvents : List RawEvent) (latestLedger : Option ℕ) : List BatchStep :=
  let events := listener.parsedEvents rawEvents latestLedger
  events.flatMap (fun event => [.persist event, .check event]) ++
    (maxLedger events).toList.map .saveWatermark

/-- The steps of `poll_once`. -/
def pollOnce (stream : EventStream) (poll : OraclePoll) (db : OracleDatabase) :
    List BatchStep :=
  let rawEvents := listener.fetchRawEvents stream poll.known db
  if rawEvents = [] then []
  else
    let latestLedger := if 0 < listener.confirmationDepth then poll.latestLedger else none
    if 0 < listener.confirmationDepth ∧ latestLedger = none then []
    else listener.processBatch rawEvents latestLedger

/-- Whether the loop of `process_batch` checks an event for staleness. -/
def checks (event : ContractEvent) : Bool :=
  event.eventType = "score_read" && listener.hasDispatcher && listener.hasCurrentScoreFn

end ScoreOracleEventListener

end LedgerLens.Integrations
