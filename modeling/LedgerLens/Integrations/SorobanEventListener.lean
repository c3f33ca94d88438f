import Mathlib.Data.List.Sort
import Mathlib.Data.Nat.Notation

/-!
# The Soroban event listener

`SorobanEventListener` polls the RPC server for events of a governance and a pause
contract. A poll fetches one page of events from the start ledger on, keeps those that are
confirmed, moves the start ledger past the last of them, and only then dispatches them one
by one. The start ledger is kept in the database; whether the contract is paused is kept in
memory only.
-/

namespace LedgerLens.Integrations

/-- A decoded `ScVal`, as the fields that are looked up in it. -/
structure ScVal where
  /-- The field `sym`. -/
  sym : Option String := none
  /-- The field `str`. -/
  str : Option String := none
  /-- The field `u32`. -/
  u32 : Option ℕ := none
  deriving DecidableEq

/-- A contract event as the RPC server reports it. -/
structure ChainEvent where
  /-- Its place in the order of all events of the chain. -/
  id : ℕ
  /-- Its ledger. -/
  ledger : ℕ
  /-- The contract it comes from. -/
  contractId : String
  /-- Its topics. -/
  topic : List ScVal
  /-- Its value. -/
  value : Option ScVal := none
  deriving DecidableEq

/-- The events of a chain, in order. -/
structure Chain where
  /-- The events. -/
  events : List ChainEvent
  /-- Events are numbered in their order. -/
  numbered : events.Pairwise fun e e' => e.id < e'.id
  /-- No event is in an earlier ledger than one before it. -/
  ordered : events.Pairwise fun e e' => e.ledger ≤ e'.ledger

/-- The invocation of a callback. -/
inductive Callback where
  /-- `_on_threshold_changed`. -/
  | thresholdChanged (newThreshold : ℕ)
  /-- `_on_contract_paused`. -/
  | contractPaused (reason : String)
  /-- `_on_contract_unpaused`. -/
  | contractUnpaused
  deriving DecidableEq

/-- `SorobanEventListener`, as it is constructed. -/
structure SorobanEventListener where
  /-- The contract whose threshold changes are watched. -/
  governanceContractId : String
  /-- The contract whose pauses are watched. -/
  pauseContractId : String
  /-- How deep an event must be buried. -/
  confirmationDepth : ℤ := 10

/-- The start ledger, which is in memory and in the database, the flag, which is only in
memory, and the callbacks invoked so far. -/
structure ListenerState where
  /-- `_start_ledger`. -/
  startLedger : ℕ := 0
  /-- `_paused`. -/
  paused : Bool := false
  /-- The callbacks invoked and the events they were invoked for. -/
  invoked : List (ChainEvent × Callback) := []

/-- What the environment decides about one poll. -/
structure PollInput where
  /-- The last ledger whose events the server knows of. -/
  upTo : ℕ
  /-- The answer to `getLatestLedger`. -/
  latestLedger : Option ℕ
  /-- The events whose callback raises. -/
  raises : ChainEvent → Bool := fun _ => false

/-- `_sym_to_str`. -/
def ScVal.symToStr (scval : ScVal) : String := scval.sym.getD (scval.str.getD "")

/-- `_extract_u32`. -/
def extractU32 (scval : Option ScVal) : Option ℕ := scval.bind ScVal.u32

/-- `_extract_string`: an empty `str` gives way to `sym`. -/
def extractString (scval : Option ScVal) : Option String :=
  scval.bind fun v => (v.str.filter (· ≠ "")).or v.sym

/-- The limit in a request for events. -/
def pageLimit : ℕ := 200

/-- `split_confirmed`, its first part. -/
def confirmed (events : List ChainEvent) (latestLedger : Option ℕ) (confirmationDepth : ℤ) :
    List ChainEvent :=
  if confirmationDepth ≤ 0 then events
  else
    match latestLedger with
    | none => []
    | some latest => events.filter fun e => (e.ledger : ℤ) ≤ latest - confirmationDepth

namespace SorobanEventListener

/-- The server's answer to a request from a start ledger on. -/
def getEvents (listener : SorobanEventListener) (chain : Chain) (startLedger upTo : ℕ) :
    List ChainEvent :=
  (chain.events.filter fun e =>
    (e.contractId = listener.governanceContractId ∨ e.contractId = listener.pauseContractId) ∧
      startLedger ≤ e.ledger ∧ e.ledger ≤ upTo).take pageLimit

/-- The events that a poll goes on with. -/
def page (listener : SorobanEventListener) (chain : Chain) (input : PollInput)
    (s : ListenerState) : List ChainEvent :=
  confirmed (listener.getEvents chain s.startLedger input.upTo) input.latestLedger
    listener.confirmationDepth

/-- `_fetch_events`: the page, with the start ledger saved past its last event. -/
def fetchEvents (listener : SorobanEventListener) (chain : Chain) (input : PollInput)
    (s : ListenerState) : List ChainEvent × ListenerState :=
  match (listener.page chain input s).getLast? with
  | none => ([], s)
  | some last => (listener.page chain input s, { s with startLedger := last.ledger + 1 })

/-- A callback is invoked for an event. -/
def invoke (event : ChainEvent) (callback : Callback) (s : ListenerState) : ListenerState :=
  { s with invoked := s.invoked ++ [(event, callback)] }

/-- `_dispatch`. -/
def dispatch (listener : SorobanEventListener) (event : ChainEvent) (s : ListenerState) :
    ListenerState :=
  match event.topic with
  | [] => s
  | name :: _ =>
    if name.symToStr = "t_changed" ∧ event.contractId = listener.governanceContractId then
      match extractU32 event.value with
      | some newThreshold => invoke event (.thresholdChanged newThreshold) s
      | none => s
    else if name.symToStr = "c_paused" ∧ event.contractId = listener.pauseContractId then
      invoke event (.contractPaused
        (((extractString event.value).filter (· ≠ "")).getD "unknown")) { s with paused := true }
    else if name.symToStr = "c_unpaused" ∧ event.contractId = listener.pauseContractId then
      invoke event .contractUnpaused { s with paused := false }
    else s

/-- The callback that an event leads to, if any. -/
def callbackOf (listener : SorobanEventListener) (event : ChainEvent) : Option Callback :=
  match event.topic with
  | [] => none
  | name :: _ =>
    if name.symToStr = "t_changed" ∧ event.contractId = listener.governanceContractId then
      (extractU32 event.value).map .thresholdChanged
    else if name.symToStr = "c_paused" ∧ event.contractId = listener.pauseContractId then
      some (.contractPaused (((extractString event.value).filter (· ≠ "")).getD "unknown"))
    else if name.symToStr = "c_unpaused" ∧ event.contractId = listener.pauseContractId then
      some .contractUnpaused
    else none

/-- The loop of `poll_once` over the events; an exception from a callback ends it. -/
def dispatchAll (listener : SorobanEventListener) (raises : ChainEvent → Bool) :
    List ChainEvent → ListenerState → ListenerState
  | [], s => s
  | event :: rest, s =>
    if (listener.callbackOf event).isSome && raises event then listener.dispatch event s
    else listener.dispatchAll raises rest (listener.dispatch event s)

/-- `poll_once`, whose exceptions `run_forever` logs. -/
def pollOnce (listener : SorobanEventListener) (chain : Chain) (input : PollInput)
    (s : ListenerState) : ListenerState :=
  let (events, s) := listener.fetchEvents chain input s
  listener.dispatchAll input.raises events s

/-- The construction of a new listener over the database of an old one. -/
def reconstruct (s : ListenerState) : ListenerState := { s with paused := false }

/-- A `poll_once` whose process dies after a number of events were dispatched, and the
construction of a new listener. -/
def crashedPoll (listener : SorobanEventListener) (chain : Chain) (input : PollInput)
    (dispatched : ℕ) (s : ListenerState) : ListenerState :=
  let (events, s) := listener.fetchEvents chain input s
  reconstruct (listener.dispatchAll (fun _ => false) (events.take dispatched) s)

end SorobanEventListener

end LedgerLens.Integrations
