import LedgerLens.Integrations.MultisigProposals
import LedgerLens.Library.Runs

/-!
# The emergency pause contract

The 2-of-3 contract that halts the scoring. Pausing and lifting a pause take a proposal and
a second keyholder's approval each; a proposal to lift the pause names the pause that it is
about when it is opened.
-/

namespace LedgerLens.Integrations

/-- `PAUSE_PROPOSAL_TTL_LEDGERS`. -/
def pauseProposalTtlLedgers : ℕ := 180

/-- `PauseProposal`. -/
structure PauseProposal (Address : Type) extends Ballot Address where
  /-- Why. -/
  reason : String
  /-- The keyholder who opened it. -/
  initiator : Address
  deriving DecidableEq

/-- An event that the contract has published. -/
inductive PauseEvent where
  /-- `c_paused`. -/
  | cPaused (proposalId : ℕ) (reason : String)
  /-- `c_unpaused`. -/
  | cUnpaused (proposalId : ℕ)
  deriving DecidableEq

/-- `EmergencyPauseContract`: its storage, and the events it has published. -/
structure EmergencyPauseContract (Address : Type) where
  /-- The address that initialised it. -/
  admin : Address
  /-- The keyholders. -/
  keys : List Address
  /-- Whether it is paused. -/
  paused : Bool := false
  /-- The proposal that paused it last. -/
  pauseId : Option ℕ := none
  /-- The id of the next proposal of either kind. -/
  nextId : ℕ := 0
  /-- The pause proposals; the entry is missing as long as there are none. -/
  pprops : UniqueTable ℕ (PauseProposal Address) := .empty
  /-- The unpause proposals; the entry is missing as long as there are none. -/
  uprops : UniqueTable ℕ (PauseProposal Address) := .empty
  /-- The events, oldest first. -/
  published : List PauseEvent := []

variable {Address : Type}

namespace EmergencyPauseContract

/-- `init`. -/
def init (deployed : Option (EmergencyPauseContract Address)) (env : Env Address)
    (deployer : Address) (keyholders : List Address) :
    Except Panic (EmergencyPauseContract Address) := do
  env.requireAuth deployer
  demand (deployed.isNone = true) (Panic.message "already initialised")
  demand (keyholders.length = 3) (Panic.message "exactly 3 keyholders required")
  return { admin := deployer, keys := keyholders }

/-- `is_paused`. -/
def isPaused (contract : EmergencyPauseContract Address) : Bool := contract.paused

variable [DecidableEq Address]

/-- `require_keyholder`. -/
def requireKeyholder (contract : EmergencyPauseContract Address) (address : Address) :
    Except Panic Unit :=
  demand (address ∈ contract.keys) (Panic.message "not an emergency keyholder")

/-- `initiate_pause`. -/
def initiatePause (contract : EmergencyPauseContract Address) (env : Env Address)
    (initiator : Address) (reason : String) :
    Except Panic (ℕ × EmergencyPauseContract Address) := do
  env.requireAuth initiator
  contract.requireKeyholder initiator
  demand (contract.paused = false) (Panic.message "contract already paused")
  let proposalId := contract.nextId
  let ballot ← Ballot.start pauseProposalTtlLedgers env.sequence initiator
  let nextId ← addUnsigned 64 proposalId 1
  return (proposalId, { contract with
    pprops := contract.pprops.put proposalId { ballot with reason, initiator }
    nextId })

/-- `approve_pause`. -/
def approvePause (contract : EmergencyPauseContract Address) (env : Env Address)
    (approver : Address) (proposalId : ℕ) :
    Except Panic (Bool × EmergencyPauseContract Address) := do
  env.requireAuth approver
  contract.requireKeyholder approver
  demand (contract.pprops.rows.isEmpty = false) Panic.missing
  let p ← expect (contract.pprops.find? proposalId) (.message "pause proposal not found")
  let ballot ← p.toBallot.approve 2 env.sequence "pause proposal expired" approver
  let voted := { contract with
    pprops := contract.pprops.put proposalId { p with toBallot := ballot } }
  if ballot.applied then
    .ok (true, { voted with
      paused := true
      pauseId := some proposalId
      published := contract.published ++ [.cPaused proposalId p.reason] })
  else
    .ok (false, voted)

/-- `initiate_unpause`. -/
def initiateUnpause (contract : EmergencyPauseContract Address) (env : Env Address)
    (initiator : Address) (pauseProposalId : ℕ) :
    Except Panic (ℕ × EmergencyPauseContract Address) := do
  env.requireAuth initiator
  contract.requireKeyholder initiator
  let storedId := contract.pauseId.getD (2 ^ 64 - 1)
  demand (storedId = pauseProposalId) (Panic.message "invalid pause_proposal_id")
  demand (contract.paused = true) (Panic.message "not paused")
  let proposalId := contract.nextId
  let ballot ← Ballot.start pauseProposalTtlLedgers env.sequence initiator
  let nextId ← addUnsigned 64 proposalId 1
  return (proposalId, { contract with
    uprops := contract.uprops.put proposalId { ballot with reason := "unpause", initiator }
    nextId })

/-- `approve_unpause`. -/
def approveUnpause (contract : EmergencyPauseContract Address) (env : Env Address)
    (approver : Address) (unpauseProposalId : ℕ) :
    Except Panic (Bool × EmergencyPauseContract Address) := do
  env.requireAuth approver
  contract.requireKeyholder approver
  demand (contract.uprops.rows.isEmpty = false) (Panic.message "no unpause proposals")
  let p ← expect (contract.uprops.find? unpauseProposalId)
    (.message "unpause proposal not found")
  let ballot ← p.toBallot.approve 2 env.sequence "unpause proposal expired" approver
  let voted := { contract with
    uprops := contract.uprops.put unpauseProposalId { p with toBallot := ballot } }
  if ballot.applied then
    .ok (true, { voted with
      paused := false
      published := contract.published ++ [.cUnpaused unpauseProposalId] })
  else
    .ok (false, voted)

end EmergencyPauseContract

/-- What a proposal is for. -/
inductive ProposalKind where
  | pause
  | unpause
  deriving DecidableEq

/-- Whether the contract is paused once such a proposal is applied. -/
def ProposalKind.target : ProposalKind → Bool
  | pause => true
  | unpause => false

/-- The proposals of a kind. -/
def EmergencyPauseContract.proposals (contract : EmergencyPauseContract Address) :
    ProposalKind → UniqueTable ℕ (PauseProposal Address)
  | .pause => contract.pprops
  | .unpause => contract.uprops

/-- A call of the contract. -/
inductive PauseCall (Address : Type) where
  /-- `initiate_pause`. -/
  | initiatePause (initiator : Address) (reason : String)
  /-- `approve_pause`. -/
  | approvePause (approver : Address) (proposalId : ℕ)
  /-- `initiate_unpause`. -/
  | initiateUnpause (initiator : Address) (pauseProposalId : ℕ)
  /-- `approve_unpause`. -/
  | approveUnpause (approver : Address) (unpauseProposalId : ℕ)
  deriving DecidableEq

namespace PauseCall

/-- The address that a call names. -/
def address : PauseCall Address → Address
  | initiatePause initiator _ => initiator
  | approvePause approver _ => approver
  | initiateUnpause initiator _ => initiator
  | approveUnpause approver _ => approver

/-- The proposal that a call approves. -/
def approves : PauseCall Address → Option (ProposalKind × ℕ)
  | initiatePause _ _ => none
  | approvePause _ id => some (.pause, id)
  | initiateUnpause _ _ => none
  | approveUnpause _ id => some (.unpause, id)

end PauseCall

/-- A change of `paused`, as it is seen from outside. -/
structure PauseChange (Address : Type) where
  /-- Whether the contract is paused now. -/
  paused : Bool
  /-- The call that changed it. -/
  call : PauseCall Address
  /-- The ledger of the call. -/
  ledger : ℕ
  /-- `pause_id` before the call. -/
  pauseId : Option ℕ
  /-- The proposal that the call approves, as it was before. -/
  proposal : Option (PauseProposal Address)
  deriving DecidableEq

/-- The contract in the course of time, with what is seen of it from outside. -/
structure PauseState (Address : Type) where
  /-- The contract. -/
  contract : EmergencyPauseContract Address
  /-- The current ledger. -/
  ledger : ℕ
  /-- The calls that have returned. -/
  signatures : List (Signature Address (ProposalKind × ℕ)) := []
  /-- `pause_id` at the time each unpause proposal was opened. -/
  named : List (ℕ × Option ℕ) := []
  /-- The changes of `paused`. -/
  changes : List (PauseChange Address) := []

variable [DecidableEq Address]

/-- Make a call: the proposal that it opens or approves, and the contract it leaves. -/
def EmergencyPauseContract.perform (contract : EmergencyPauseContract Address)
    (env : Env Address) :
    PauseCall Address → Except Panic ((ProposalKind × ℕ) × EmergencyPauseContract Address)
  | .initiatePause initiator reason => do
    let (id, contract) ← contract.initiatePause env initiator reason
    return ((.pause, id), contract)
  | .approvePause approver id => do
    let (_, contract) ← contract.approvePause env approver id
    return ((.pause, id), contract)
  | .initiateUnpause initiator pauseProposalId => do
    let (id, contract) ← contract.initiateUnpause env initiator pauseProposalId
    return ((.unpause, id), contract)
  | .approveUnpause approver id => do
    let (_, contract) ← contract.approveUnpause env approver id
    return ((.unpause, id), contract)

namespace PauseState

/-- What a call sees. -/
def env (s : PauseState Address) (i : Invocation Address (PauseCall Address)) : Env Address :=
  ⟨s.ledger + i.elapsed, i.signed⟩

/-- What is seen of a call that has changed `paused`. -/
def change (s : PauseState Address) (i : Invocation Address (PauseCall Address))
    (paused : Bool) : PauseChange Address where
  paused := paused
  call := i.call
  ledger := s.ledger + i.elapsed
  pauseId := s.contract.pauseId
  proposal := i.call.approves.bind fun key => (s.contract.proposals key.1).find? key.2

/-- The state after a call that returned. -/
def returned (s : PauseState Address) (i : Invocation Address (PauseCall Address))
    (key : ProposalKind × ℕ) (contract : EmergencyPauseContract Address) :
    PauseState Address where
  contract := contract
  ledger := s.ledger + i.elapsed
  signatures := s.signatures ++ [⟨i.call.address, key, i.signed i.call.address⟩]
  named :=
    match i.call with
    | .initiateUnpause _ _ => s.named ++ [(key.2, s.contract.pauseId)]
    | _ => s.named
  changes :=
    if s.contract.isPaused = contract.isPaused then s.changes
    else s.changes ++ [s.change i contract.isPaused]

/-- One call. A call that panics changes nothing; time passes all the same. -/
def step (s : PauseState Address) (i : Invocation Address (PauseCall Address)) :
    PauseState Address :=
  match s.contract.perform (s.env i) i.call with
  | .ok (key, contract) => s.returned i key contract
  | .error _ => { s with ledger := s.ledger + i.elapsed }

/-- A call that returns. -/
theorem step_of_ok {s : PauseState Address} {i : Invocation Address (PauseCall Address)}
    {key : ProposalKind × ℕ} {contract : EmergencyPauseContract Address}
    (h : s.contract.perform (s.env i) i.call = .ok (key, contract)) :
    s.step i = s.returned i key contract := by
  rw [step, h]

/-- A call that panics. -/
theorem step_of_error {s : PauseState Address} {i : Invocation Address (PauseCall Address)}
    {panic : Panic} (h : s.contract.perform (s.env i) i.call = .error panic) :
    s.step i = { s with ledger := s.ledger + i.elapsed } := by
  rw [step, h]

end PauseState

end LedgerLens.Integrations
