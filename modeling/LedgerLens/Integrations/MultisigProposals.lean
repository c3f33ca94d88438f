import LedgerLens.Library.Checks
import LedgerLens.Library.UniqueTable
import Mathlib.Algebra.Group.Nat.Defs

/-!
# Proposals that need several signatures

The governance and the emergency-pause contract keep proposals of the same make: opened by
one keyholder, approved by others, applied when enough of them have approved, and void once
their last ledger has passed. This is the part that the two contracts share.
-/

namespace LedgerLens.Integrations

/-- Why a contract call panics. -/
inductive Panic where
  /-- `require_auth` without a signature. -/
  | unauthorised
  /-- `unwrap` of a missing entry. -/
  | missing
  /-- An addition that overflows. -/
  | overflow
  /-- `assert!`, `panic!` and `expect` with a message. -/
  | message (text : String)
  deriving DecidableEq

/-- What a call sees of the chain. -/
structure Env (Address : Type) where
  /-- The current ledger. -/
  sequence : ℕ
  /-- The addresses that have signed the call. -/
  signed : Address → Bool

variable {Address : Type}

/-- `require_auth`. -/
def Env.requireAuth (env : Env Address) (address : Address) : Except Panic Unit :=
  demand (env.signed address = true) .unauthorised

/-- The addition of unsigned integers of a width. -/
def addUnsigned (width a b : ℕ) : Except Panic ℕ :=
  if a + b < 2 ^ width then .ok (a + b) else .error .overflow

/-- `unwrap` and `expect`: the value, or a panic where there is none. -/
def expect {α : Type} (x : Option α) (panic : Panic) : Except Panic α :=
  x.elim (.error panic) .ok

/-- One call of a run: what it is made with, and when. -/
structure Invocation (Address Call : Type) where
  /-- The ledgers that have passed since the previous call. -/
  elapsed : ℕ
  /-- The addresses that have signed it. -/
  signed : Address → Bool
  /-- The function that is called, with its arguments. -/
  call : Call

/-- A call in the ledger of the previous one, signed by one address only. -/
def Invocation.signedBy {Address Call : Type} [DecidableEq Address] (address : Address)
    (call : Call) : Invocation Address Call :=
  { elapsed := 0, signed := fun a => a = address, call }

/-- A call that has returned, as a signature under a proposal. -/
structure Signature (Address Id : Type) where
  /-- The address that the call names. -/
  address : Address
  /-- The proposal that it opens or approves. -/
  proposalId : Id
  /-- Whether the address has signed the call. -/
  signed : Bool
  deriving DecidableEq

/-- The votes on a proposal. -/
structure Ballot (Address : Type) where
  /-- The addresses that have approved, the proposer first. -/
  approvals : List Address
  /-- The last ledger in which it can be approved. -/
  expiryLedger : ℕ
  /-- Whether it has been applied. -/
  applied : Bool
  /-- No address approves twice. -/
  distinct : approvals.Nodup
  deriving DecidableEq

/-- A successful `require_auth` has the signature. -/
@[simp] theorem Env.requireAuth_eq_ok_iff {env : Env Address} {address : Address} {u : Unit} :
    env.requireAuth address = .ok u ↔ env.signed address = true :=
  Except.demand_eq_ok_iff

/-- An addition that does not panic is exact. -/
@[simp] theorem addUnsigned_eq_ok_iff {width a b c : ℕ} :
    addUnsigned width a b = .ok c ↔ a + b < 2 ^ width ∧ a + b = c := by
  unfold addUnsigned
  by_cases h : a + b < 2 ^ width <;> simp [h]

/-- `unwrap` and `expect` return exactly what is there. -/
@[simp] theorem expect_eq_ok_iff {α : Type} {x : Option α} {panic : Panic} {a : α} :
    expect x panic = .ok a ↔ x = some a := by
  cases x <;> simp [expect]

namespace Ballot

/-- The ballot of a new proposal. -/
def start (ttl sequence : ℕ) (proposer : Address) : Except Panic (Ballot Address) := do
  let expiryLedger ← addUnsigned 32 sequence ttl
  return { approvals := [proposer], expiryLedger, applied := false, distinct := by simp }

/-- What a new ballot is. -/
structure Started (ttl sequence : ℕ) (proposer : Address) (ballot : Ballot Address) : Prop where
  /-- Its last ledger does not overflow. -/
  fits : sequence + ttl < 2 ^ 32
  /-- The proposer has approved. -/
  approvals_eq : ballot.approvals = [proposer]
  /-- It is open for the time that is set. -/
  expiryLedger_eq : ballot.expiryLedger = sequence + ttl
  /-- It is not applied. -/
  unapplied : ballot.applied = false

/-- A ballot is opened unless its last ledger overflows. -/
theorem start_eq_ok {ttl sequence : ℕ} {proposer : Address} {ballot : Ballot Address}
    (h : start ttl sequence proposer = .ok ballot) : ballot.Started ttl sequence proposer := by
  simp only [start, Except.bind_eq_ok_iff, addUnsigned_eq_ok_iff, Except.pure_eq_ok_iff] at h
  obtain ⟨expiry, ⟨hfits, rfl⟩, rfl⟩ := h
  exact ⟨hfits, rfl, rfl, rfl⟩

/-- A ballot can be opened when its last ledger does not overflow. -/
theorem exists_start {ttl sequence : ℕ} (proposer : Address) (h : sequence + ttl < 2 ^ 32) :
    ∃ ballot, start ttl sequence proposer = .ok ballot := by
  simp only [start, Except.bind_eq_ok_iff, addUnsigned_eq_ok_iff, Except.pure_eq_ok_iff]
  exact ⟨_, _, ⟨h, rfl⟩, rfl⟩

variable [DecidableEq Address]

/-- Approve a proposal: the checks and the vote that the approving functions share. -/
def approve (ballot : Ballot Address) (quorum sequence : ℕ) (expired : String)
    (approver : Address) : Except Panic (Ballot Address) := do
  demand (ballot.applied = false) (Panic.message "proposal already applied")
  demand (sequence ≤ ballot.expiryLedger) (Panic.message expired)
  if h : approver ∈ ballot.approvals then
    .error (.message "already approved")
  else
    .ok {
      approvals := ballot.approvals ++ [approver]
      expiryLedger := ballot.expiryLedger
      applied := quorum ≤ ballot.approvals.length + 1
      distinct := by
        rw [← List.concat_eq_append]
        exact ballot.distinct.concat h }

/-- What a vote that is accepted does, and that it was due. -/
structure Approved (ballot : Ballot Address) (quorum sequence : ℕ) (approver : Address)
    (ballot' : Ballot Address) : Prop where
  /-- The proposal was not applied. -/
  unapplied : ballot.applied = false
  /-- It had not expired. -/
  unexpired : sequence ≤ ballot.expiryLedger
  /-- The voter is new. -/
  absent : approver ∉ ballot.approvals
  /-- The voter comes last. -/
  approvals_eq : ballot'.approvals = ballot.approvals ++ [approver]
  /-- The proposal expires when it did before. -/
  expiryLedger_eq : ballot'.expiryLedger = ballot.expiryLedger
  /-- It is applied when the quorum is reached. -/
  applied_iff : ballot'.applied = true ↔ quorum ≤ ballot'.approvals.length

/-- A vote that is accepted was due. -/
theorem approve_eq_ok {ballot ballot' : Ballot Address} {quorum sequence : ℕ} {expired : String}
    {approver : Address} (h : ballot.approve quorum sequence expired approver = .ok ballot') :
    ballot.Approved quorum sequence approver ballot' := by
  simp only [approve, Except.bind_eq_ok_iff, Except.demand_eq_ok_iff] at h
  obtain ⟨_, hunapplied, _, hunexpired, h⟩ := h
  by_cases hmem : approver ∈ ballot.approvals
  · rw [dif_pos hmem] at h
    cases h
  · rw [dif_neg hmem] at h
    cases h
    exact ⟨hunapplied, hunexpired, hmem, rfl, rfl, by simp⟩

/-- A vote that is due is accepted. -/
theorem exists_approve {ballot : Ballot Address} {quorum sequence : ℕ} {approver : Address}
    (expired : String) (hunapplied : ballot.applied = false)
    (hunexpired : sequence ≤ ballot.expiryLedger) (habsent : approver ∉ ballot.approvals) :
    ∃ ballot', ballot.approve quorum sequence expired approver = .ok ballot' := by
  rw [approve, Except.demand_bind_of_pos hunapplied, Except.demand_bind_of_pos hunexpired,
    dif_neg habsent]
  exact ⟨_, rfl⟩

end Ballot

end LedgerLens.Integrations
