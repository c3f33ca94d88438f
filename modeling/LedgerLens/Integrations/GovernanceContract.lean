import LedgerLens.Integrations.MultisigProposals
import LedgerLens.Library.Runs

/-!
# The threshold governance contract

The M-of-N contract that guards the risk threshold. A keyholder proposes a new threshold,
which counts as the first approval; another keyholder's approval applies it as soon as M
have approved. A panic undoes the whole call, so a call either returns the contract it
leaves or leaves it as it was.
-/

namespace LedgerLens.Integrations

/-- `PROPOSAL_TTL_LEDGERS`. -/
def proposalTtlLedgers : ℕ := 120960

/-- `Proposal`. -/
structure Proposal (Address : Type) extends Ballot Address where
  /-- The threshold that is proposed. -/
  newThreshold : ℕ
  /-- The keyholder who proposed it. -/
  proposer : Address
  deriving DecidableEq

/-- The topics of the contract's events. -/
inductive GovernanceTopic where
  | proposed
  | tChanged
  deriving DecidableEq

/-- An event that the contract has published. -/
structure GovernanceEvent where
  /-- The ledger of the call. -/
  ledger : ℕ
  /-- Its topic. -/
  topic : GovernanceTopic
  /-- The proposal that it names. -/
  proposalId : ℕ
  /-- The threshold that it carries. -/
  value : ℕ
  deriving DecidableEq

/-- `ThresholdGovernanceContract`: its storage, and the events it has published. -/
structure ThresholdGovernanceContract (Address : Type) where
  /-- The address that initialised it. -/
  admin : Address
  /-- The keyholders. -/
  keys : List Address
  /-- M. -/
  quorum : ℕ
  /-- The threshold in force. -/
  thresh : ℕ
  /-- The id of the next proposal. -/
  nextId : ℕ := 0
  /-- The proposals; the entry is missing as long as there are none. -/
  props : UniqueTable ℕ (Proposal Address) := .empty
  /-- The events, oldest first. -/
  published : List GovernanceEvent := []

variable {Address : Type}

namespace ThresholdGovernanceContract

/-- `init`. -/
def init (deployed : Option (ThresholdGovernanceContract Address)) (env : Env Address)
    (deployer : Address) (keyholders : List Address) (quorum initialThreshold : ℕ) :
    Except Panic (ThresholdGovernanceContract Address) := do
  env.requireAuth deployer
  demand (deployed.isNone = true) (Panic.message "already initialised")
  demand (1 ≤ quorum ∧ quorum ≤ keyholders.length) (.message "quorum must be between 1 and N")
  return { admin := deployer, keys := keyholders, quorum, thresh := initialThreshold }

/-- `current_threshold`. -/
def currentThreshold (contract : ThresholdGovernanceContract Address) : ℕ := contract.thresh

/-- The `t_changed` events. -/
def changes (contract : ThresholdGovernanceContract Address) : List GovernanceEvent :=
  contract.published.filter fun event => event.topic = .tChanged

/-- Publish an event. -/
def publish (contract : ThresholdGovernanceContract Address) (event : GovernanceEvent) :
    ThresholdGovernanceContract Address :=
  { contract with published := contract.published ++ [event] }

variable [DecidableEq Address]

/-- `require_keyholder`. -/
def requireKeyholder (contract : ThresholdGovernanceContract Address) (address : Address) :
    Except Panic Unit :=
  demand (address ∈ contract.keys) (Panic.message "not a keyholder")

/-- `propose_threshold_change`. -/
def proposeThresholdChange (contract : ThresholdGovernanceContract Address) (env : Env Address)
    (proposer : Address) (newThreshold : ℕ) :
    Except Panic (ℕ × ThresholdGovernanceContract Address) := do
  env.requireAuth proposer
  contract.requireKeyholder proposer
  demand (newThreshold ≤ 100) (Panic.message "threshold must be 0–100")
  let proposalId := contract.nextId
  let ballot ← Ballot.start proposalTtlLedgers env.sequence proposer
  let nextId ← addUnsigned 64 proposalId 1
  let proposed := { contract with
    props := contract.props.put proposalId { ballot with newThreshold, proposer }
    nextId }
  return (proposalId, proposed.publish ⟨env.sequence, .proposed, proposalId, newThreshold⟩)

/-- `approve_threshold_change`. -/
def approveThresholdChange (contract : ThresholdGovernanceContract Address) (env : Env Address)
    (approver : Address) (proposalId : ℕ) :
    Except Panic (Bool × ThresholdGovernanceContract Address) := do
  env.requireAuth approver
  contract.requireKeyholder approver
  demand (contract.props.rows.isEmpty = false) Panic.missing
  let p ← expect (contract.props.find? proposalId) (.message "proposal not found")
  let ballot ← p.toBallot.approve contract.quorum env.sequence "proposal expired" approver
  let voted := { contract with
    props := contract.props.put proposalId { p with toBallot := ballot } }
  if ballot.applied then
    .ok (true, { voted with thresh := p.newThreshold }.publish
      ⟨env.sequence, .tChanged, proposalId, p.newThreshold⟩)
  else
    .ok (false, voted)

end ThresholdGovernanceContract

/-- A call of the contract. -/
inductive GovernanceCall (Address : Type) where
  /-- `propose_threshold_change`. -/
  | propose (proposer : Address) (newThreshold : ℕ)
  /-- `approve_threshold_change`. -/
  | approve (approver : Address) (proposalId : ℕ)

/-- The contract in the course of time, with the calls that have returned. -/
structure GovernanceState (Address : Type) where
  /-- The contract. -/
  contract : ThresholdGovernanceContract Address
  /-- The current ledger. -/
  ledger : ℕ
  /-- The calls that have returned. -/
  signatures : List (Signature Address ℕ) := []

variable [DecidableEq Address]

/-- Make a call: the contract it leaves, and the call as a signature. -/
def ThresholdGovernanceContract.perform (contract : ThresholdGovernanceContract Address)
    (env : Env Address) :
    GovernanceCall Address →
      Except Panic (Signature Address ℕ × ThresholdGovernanceContract Address)
  | .propose proposer newThreshold => do
    let (proposalId, contract) ← contract.proposeThresholdChange env proposer newThreshold
    return (⟨proposer, proposalId, env.signed proposer⟩, contract)
  | .approve approver proposalId => do
    let (_, contract) ← contract.approveThresholdChange env approver proposalId
    return (⟨approver, proposalId, env.signed approver⟩, contract)

namespace GovernanceState

/-- What a call sees. -/
def env (s : GovernanceState Address) (i : Invocation Address (GovernanceCall Address)) :
    Env Address :=
  ⟨s.ledger + i.elapsed, i.signed⟩

/-- One call. A call that panics changes nothing; time passes all the same. -/
def step (s : GovernanceState Address) (i : Invocation Address (GovernanceCall Address)) :
    GovernanceState Address :=
  match s.contract.perform (s.env i) i.call with
  | .ok (signature, contract) =>
    { contract, ledger := s.ledger + i.elapsed, signatures := s.signatures ++ [signature] }
  | .error _ => { s with ledger := s.ledger + i.elapsed }

/-- A call that returns. -/
theorem step_of_ok {s : GovernanceState Address}
    {i : Invocation Address (GovernanceCall Address)} {signature : Signature Address ℕ}
    {contract : ThresholdGovernanceContract Address}
    (h : s.contract.perform (s.env i) i.call = .ok (signature, contract)) :
    s.step i = { contract, ledger := s.ledger + i.elapsed,
                 signatures := s.signatures ++ [signature] } := by
  rw [step, h]

/-- A call that panics. -/
theorem step_of_error {s : GovernanceState Address}
    {i : Invocation Address (GovernanceCall Address)} {panic : Panic}
    (h : s.contract.perform (s.env i) i.call = .error panic) :
    s.step i = { s with ledger := s.ledger + i.elapsed } := by
  rw [step, h]

end GovernanceState

end LedgerLens.Integrations
