import LedgerLens.Integrations.EmergencyPauseContract

/-!
# Runs of the emergency pause contract

Every change of `paused` takes an open proposal of its own with the signatures of two
keyholders. That a pause is lifted only by a proposal about this very pause is another
matter: the name is checked when the proposal is opened and never again, so a run respects
it exactly when no approval completes a proposal about another pause.
-/

namespace LedgerLens.Integrations

open Transition

variable {Address : Type}

/-- What makes a change of `paused` legitimate: the call approves a proposal for it that was
neither applied nor expired, two different keyholders signed a call on that proposal, and a
pause is lifted only when `pause_id` is what it was when the proposal was opened. -/
structure Causes (s : PauseState Address) (change : PauseChange Address)
    (key : ProposalKind × ℕ) (p : PauseProposal Address) : Prop where
  /-- The call approves the proposal. -/
  approves : change.call.approves = some key
  /-- The proposal is for this change. -/
  target : change.paused = key.1.target
  /-- The proposal was there. -/
  found : change.proposal = some p
  /-- It was not applied. -/
  unapplied : p.applied = false
  /-- It had not expired. -/
  unexpired : change.ledger ≤ p.expiryLedger
  /-- Two different keyholders signed. -/
  signed : ∃ a ∈ s.contract.keys, ∃ b ∈ s.contract.keys, a ≠ b ∧
    ⟨a, key, true⟩ ∈ s.signatures ∧ ⟨b, key, true⟩ ∈ s.signatures
  /-- The pause that is lifted is the one that the proposal was opened for. -/
  names : change.paused = false → (key.2, change.pauseId) ∈ s.named

/-- What the contract is for. -/
structure Restrained (s : PauseState Address) : Prop where
  /-- Every change is legitimate. -/
  justified : ∀ change ∈ s.changes, ∃ key p, Causes s change key p
  /-- No proposal causes two changes. -/
  once : (s.changes.map fun change => change.call.approves).Nodup

/-- When a vote is accepted: the conditions that the approving functions check. -/
structure MayApprove (keys : List Address) (env : Env Address) (p : PauseProposal Address)
    (approver : Address) : Prop where
  /-- The approver has signed. -/
  signed : env.signed approver = true
  /-- The approver is a keyholder. -/
  keyholder : approver ∈ keys
  /-- The proposal is not applied. -/
  unapplied : p.applied = false
  /-- It has not expired. -/
  unexpired : env.sequence ≤ p.expiryLedger
  /-- The approver has not approved it before. -/
  absent : approver ∉ p.approvals

/-- The condition under which a call keeps the contract restrained: an approval that lifts
the pause finds the `pause_id` that was in force when its proposal was opened. -/
def NamesCurrent (s : PauseState Address) (i : Invocation Address (PauseCall Address)) : Prop :=
  ∀ approver id p, i.call = .approveUnpause approver id →
    s.contract.uprops.find? id = some p → MayApprove s.contract.keys (s.env i) p approver →
    s.contract.paused = true → (id, s.contract.pauseId) ∈ s.named

/-- The state right after `init`. -/
def PauseState.start (contract : EmergencyPauseContract Address) (ledger : ℕ) :
    PauseState Address :=
  { contract, ledger }

/-- What holds of each proposal. -/
structure Supported (s : PauseState Address) (key : ProposalKind × ℕ)
    (p : PauseProposal Address) : Prop where
  /-- Somebody has approved. -/
  approved : p.approvals ≠ []
  /-- Those who approved are keyholders and signed. -/
  signed : ∀ a ∈ p.approvals, a ∈ s.contract.keys ∧ ⟨a, key, true⟩ ∈ s.signatures
  /-- It has caused no change before it is applied. -/
  unchanged : p.applied = false → some key ∉ s.changes.map fun change => change.call.approves

/-- The invariant of the runs that respect the names. -/
structure Sound (s : PauseState Address) : Prop where
  /-- Every change is legitimate. -/
  justified : ∀ change ∈ s.changes, ∃ key p, Causes s change key p
  /-- No proposal causes two changes. -/
  once : (s.changes.map fun change => change.call.approves).Nodup
  /-- The proposals. -/
  supported : ∀ kind id p, (s.contract.proposals kind).find? id = some p →
    Supported s (kind, id) p
  /-- Ids are given out in order. -/
  fresh : ∀ kind id, s.contract.nextId ≤ id → (s.contract.proposals kind).find? id = none
  /-- The proposals that caused changes have been given out. -/
  known : ∀ change ∈ s.changes, ∀ key, change.call.approves = some key →
    key.2 < s.contract.nextId

/-- The invariant implies what the contract is for. -/
theorem Sound.restrained {s : PauseState Address} (h : Sound s) : Restrained s :=
  ⟨h.justified, h.once⟩

/-- A change stays legitimate in a state with the same keyholders and no signature and no
name less. -/
theorem Causes.mono {s s' : PauseState Address} {change : PauseChange Address}
    {key : ProposalKind × ℕ} {p : PauseProposal Address} (h : Causes s change key p)
    (hkeys : s'.contract.keys = s.contract.keys) (hsignatures : s.signatures ⊆ s'.signatures)
    (hnamed : s.named ⊆ s'.named) : Causes s' change key p where
  approves := h.approves
  target := h.target
  found := h.found
  unapplied := h.unapplied
  unexpired := h.unexpired
  signed := by
    obtain ⟨a, ha, b, hb, hne, hsa, hsb⟩ := h.signed
    rw [hkeys]
    exact ⟨a, ha, b, hb, hne, hsignatures hsa, hsignatures hsb⟩
  names hpaused := hnamed (h.names hpaused)

/-- A proposal stays supported in a state with the same keyholders and no signature less, in
which it has caused no further change. -/
theorem Supported.mono {s s' : PauseState Address} {key : ProposalKind × ℕ}
    {p : PauseProposal Address} (h : Supported s key p)
    (hkeys : s'.contract.keys = s.contract.keys) (hsignatures : s.signatures ⊆ s'.signatures)
    (hchanges : some key ∈ (s'.changes.map fun change => change.call.approves) →
      some key ∈ s.changes.map fun change => change.call.approves) : Supported s' key p where
  approved := h.approved
  signed a ha := by
    obtain ⟨hmem, hsigned⟩ := h.signed a ha
    exact ⟨by rwa [hkeys], hsignatures hsigned⟩
  unchanged hunapplied hmem := h.unchanged hunapplied (hchanges hmem)

/-- Time alone changes nothing. -/
theorem Sound.advance {s : PauseState Address} (h : Sound s) (ledger : ℕ) :
    Sound { s with ledger } where
  justified change hchange := by
    obtain ⟨key, p, hp⟩ := h.justified change hchange
    exact ⟨key, p, hp.mono rfl (List.Subset.refl _) (List.Subset.refl _)⟩
  once := h.once
  supported kind id p hfound :=
    (h.supported kind id p hfound).mono rfl (List.Subset.refl _) fun hmem => hmem
  fresh := h.fresh
  known := h.known

/-- What a call that opens a proposal does. -/
structure Opens (contract : EmergencyPauseContract Address) (env : Env Address)
    (call : PauseCall Address) (key : ProposalKind × ℕ)
    (contract' : EmergencyPauseContract Address) : Prop where
  /-- The call approves no proposal. -/
  approves : call.approves = none
  /-- The id is new. -/
  id_eq : key.2 = contract.nextId
  /-- The initiator has signed. -/
  signed : env.signed call.address = true
  /-- The initiator is a keyholder. -/
  keyholder : call.address ∈ contract.keys
  /-- There is one proposal more, with the initiator's approval. -/
  added : ∃ p : PauseProposal Address, p.approvals = [call.address] ∧
    ∀ kind id, (contract'.proposals kind).find? id =
      if (kind, id) = key then some p else (contract.proposals kind).find? id
  /-- The keyholders are the same. -/
  keys_eq : contract'.keys = contract.keys
  /-- Nothing is paused or unpaused. -/
  paused_eq : contract'.paused = contract.paused
  /-- The next id is the next one. -/
  nextId_eq : contract'.nextId = contract.nextId + 1

/-- What a call that approves a proposal does. -/
structure Votes (contract : EmergencyPauseContract Address) (env : Env Address)
    (call : PauseCall Address) (key : ProposalKind × ℕ)
    (contract' : EmergencyPauseContract Address) (p : PauseProposal Address)
    (ballot : Ballot Address) : Prop where
  /-- The call approves this proposal. -/
  approves : call.approves = some key
  /-- The proposal was there. -/
  found : (contract.proposals key.1).find? key.2 = some p
  /-- The approver has signed. -/
  signed : env.signed call.address = true
  /-- The approver is a keyholder. -/
  keyholder : call.address ∈ contract.keys
  /-- The vote was due. -/
  vote : p.toBallot.Approved 2 env.sequence call.address ballot
  /-- The vote is counted. -/
  find?_eq : ∀ kind id, (contract'.proposals kind).find? id =
    if (kind, id) = key then some { p with toBallot := ballot }
    else (contract.proposals kind).find? id
  /-- The keyholders are the same. -/
  keys_eq : contract'.keys = contract.keys
  /-- The next id is the same. -/
  nextId_eq : contract'.nextId = contract.nextId
  /-- The proposal is carried out when it is complete. -/
  paused_eq : contract'.paused = if ballot.applied then key.1.target else contract.paused

section

variable {s : PauseState Address} {i : Invocation Address (PauseCall Address)}
  {key : ProposalKind × ℕ} {contract : EmergencyPauseContract Address}
  {p : PauseProposal Address} {ballot : Ballot Address}

namespace PauseState

/-- A call that returns leaves the signatures there. -/
theorem signatures_subset_returned : s.signatures ⊆ (s.returned i key contract).signatures :=
  List.subset_append_left _ _

/-- It adds one of the address that it names, if this address has signed. -/
theorem signature_mem_returned (h : i.signed i.call.address = true) :
    ⟨i.call.address, key, true⟩ ∈ (s.returned i key contract).signatures := by
  rw [returned, h]
  exact List.mem_append_right _ (List.mem_singleton_self _)

/-- It leaves the names there. -/
theorem named_subset_returned : s.named ⊆ (s.returned i key contract).named := by
  unfold returned
  split
  · exact List.subset_append_left _ _
  · exact List.Subset.refl _

/-- It makes no change, or changes `paused` and makes one. -/
theorem changes_returned (s : PauseState Address) (i : Invocation Address (PauseCall Address))
    (key : ProposalKind × ℕ) (contract : EmergencyPauseContract Address) :
    (s.returned i key contract).changes = s.changes ∨
      s.contract.paused ≠ contract.paused ∧ (s.returned i key contract).changes =
        s.changes ++ [s.change i contract.isPaused] := by
  by_cases heq : s.contract.paused = contract.paused
  · exact .inl (if_pos heq)
  · exact .inr ⟨heq, if_neg heq⟩

end PauseState

open PauseState

/-- Opening a proposal changes nothing. -/
theorem Opens.changes_returned (hopens : Opens s.contract (s.env i) i.call key contract) :
    (s.returned i key contract).changes = s.changes := by
  obtain heq | ⟨hne, -⟩ := s.changes_returned i key contract
  · exact heq
  · exact absurd hopens.paused_eq.symm hne

/-- The proposal that is opened is supported. -/
theorem Opens.supported (h : Sound s) (hopens : Opens s.contract (s.env i) i.call key contract)
    (happrovals : p.approvals = [i.call.address]) :
    Supported (s.returned i key contract) key p where
  approved := by
    rw [happrovals]
    exact List.cons_ne_nil _ _
  signed a ha := by
    rw [happrovals, List.mem_singleton] at ha
    subst ha
    have hkeys : (s.returned i key contract).contract.keys = s.contract.keys := hopens.keys_eq
    rw [hkeys]
    exact ⟨hopens.keyholder, signature_mem_returned hopens.signed⟩
  unchanged _ hmem := by
    rw [hopens.changes_returned] at hmem
    obtain ⟨change, hchange, happroves⟩ := List.mem_map.mp hmem
    have hlt := h.known change hchange _ happroves
    have hid := hopens.id_eq
    omega

/-- A call that opens a proposal keeps the invariant. -/
theorem Sound.opens (h : Sound s) (hopens : Opens s.contract (s.env i) i.call key contract) :
    Sound (s.returned i key contract) := by
  have hchanges := hopens.changes_returned
  obtain ⟨p, happrovals, hfind⟩ := hopens.added
  constructor
  case justified =>
    intro change hchange
    rw [hchanges] at hchange
    obtain ⟨key', p', hp'⟩ := h.justified change hchange
    exact ⟨key', p', hp'.mono hopens.keys_eq signatures_subset_returned named_subset_returned⟩
  case once => rw [hchanges]; exact h.once
  case known =>
    intro change hchange key' happroves
    rw [hchanges] at hchange
    have hlt := h.known change hchange key' happroves
    show key'.2 < contract.nextId
    rw [hopens.nextId_eq]
    omega
  case fresh =>
    intro kind id hle
    have hlt : s.contract.nextId + 1 ≤ id := by
      rw [← hopens.nextId_eq]
      exact hle
    have hne : (kind, id) ≠ key := by
      rintro rfl
      have hid : id = s.contract.nextId := hopens.id_eq
      omega
    show (contract.proposals kind).find? id = none
    rw [hfind, if_neg hne]
    exact h.fresh kind id (by omega)
  case supported =>
    intro kind id p' hfound
    have hfound' : (contract.proposals kind).find? id = some p' := hfound
    rw [hfind] at hfound'
    by_cases hkey : (kind, id) = key
    · rw [if_pos hkey, Option.some.injEq] at hfound'
      subst hfound' hkey
      exact hopens.supported h happrovals
    · rw [if_neg hkey] at hfound'
      exact (h.supported kind id p' hfound').mono hopens.keys_eq signatures_subset_returned
        fun hmem => by rwa [hchanges] at hmem

/-- A vote is always the second at least, so it carries the proposal out. -/
theorem Votes.applied (h : Sound s)
    (hvotes : Votes s.contract (s.env i) i.call key contract p ballot) :
    ballot.applied = true := by
  have happroved := (h.supported key.1 key.2 p hvotes.found).approved
  have hpos : 0 < p.approvals.length := List.length_pos_iff.mpr happroved
  rw [hvotes.vote.applied_iff, hvotes.vote.approvals_eq, List.length_append,
    List.length_singleton]
  omega

/-- The proposal that is voted on was given out. -/
theorem Votes.id_lt (h : Sound s)
    (hvotes : Votes s.contract (s.env i) i.call key contract p ballot) :
    key.2 < s.contract.nextId := by
  by_contra hle
  have hnone := h.fresh key.1 key.2 (by omega)
  rw [hvotes.found] at hnone
  cases hnone

/-- The two signatures behind a vote that is accepted: the approver's and an earlier one. -/
theorem Votes.two_signed (h : Sound s)
    (hvotes : Votes s.contract (s.env i) i.call key contract p ballot) :
    ∃ a ∈ s.contract.keys, ∃ b ∈ s.contract.keys, a ≠ b ∧
      ⟨a, key, true⟩ ∈ (s.returned i key contract).signatures ∧
      ⟨b, key, true⟩ ∈ (s.returned i key contract).signatures := by
  have hp := h.supported key.1 key.2 p hvotes.found
  obtain ⟨a, ha⟩ := List.exists_mem_of_ne_nil _ hp.approved
  obtain ⟨hkey, hsigned⟩ := hp.signed a ha
  have hne : a ≠ i.call.address := by
    rintro rfl
    exact hvotes.vote.absent ha
  exact ⟨a, hkey, i.call.address, hvotes.keyholder, hne, signatures_subset_returned hsigned,
    signature_mem_returned hvotes.signed⟩

/-- A vote that changes `paused` changes it to what the proposal is for. -/
theorem Votes.paused_eq_target (h : Sound s)
    (hvotes : Votes s.contract (s.env i) i.call key contract p ballot) :
    contract.paused = key.1.target := by
  rw [hvotes.paused_eq, if_pos (hvotes.applied h)]

/-- The change that a vote makes is legitimate as far as it does not lift another pause. -/
theorem Votes.causes (h : Sound s)
    (hvotes : Votes s.contract (s.env i) i.call key contract p ballot)
    (hnames : contract.paused = false → (key.2, s.contract.pauseId) ∈ s.named) :
    Causes (s.returned i key contract) (s.change i contract.isPaused) key p where
  approves := hvotes.approves
  target := hvotes.paused_eq_target h
  found := by
    rw [PauseState.change, hvotes.approves]
    exact hvotes.found
  unapplied := hvotes.vote.unapplied
  unexpired := hvotes.vote.unexpired
  signed := by
    obtain ⟨a, ha, b, hb, hsigned⟩ := hvotes.two_signed h
    have hkeys : (s.returned i key contract).contract.keys = s.contract.keys := hvotes.keys_eq
    rw [hkeys]
    exact ⟨a, ha, b, hb, hsigned⟩
  names hpaused := named_subset_returned (hnames hpaused)

/-- A vote makes no change for another proposal. -/
theorem Votes.mem_changes_of_ne
    (hvotes : Votes s.contract (s.env i) i.call key contract p ballot)
    {key' : ProposalKind × ℕ} (hne : key' ≠ key)
    (hmem : some key' ∈
      (s.returned i key contract).changes.map fun change => change.call.approves) :
    some key' ∈ s.changes.map fun change => change.call.approves := by
  obtain heq | ⟨-, heq⟩ := s.changes_returned i key contract
  · rwa [heq] at hmem
  · rw [heq, List.map_append, List.mem_append] at hmem
    obtain hold | hnew := hmem
    · exact hold
    · rw [List.map_singleton, List.mem_singleton] at hnew
      have happroves : i.call.approves = some key' := hnew.symm
      rw [hvotes.approves, Option.some.injEq] at happroves
      exact absurd happroves.symm hne

/-- The proposal that is voted on stays supported. -/
theorem Votes.supported (h : Sound s)
    (hvotes : Votes s.contract (s.env i) i.call key contract p ballot) :
    Supported (s.returned i key contract) key { p with toBallot := ballot } where
  approved := by
    show ballot.approvals ≠ []
    rw [hvotes.vote.approvals_eq]
    simp
  signed a ha := by
    have ha' : a ∈ ballot.approvals := ha
    rw [hvotes.vote.approvals_eq, List.mem_append, List.mem_singleton] at ha'
    have hkeys : (s.returned i key contract).contract.keys = s.contract.keys := hvotes.keys_eq
    rw [hkeys]
    obtain hmem | rfl := ha'
    · obtain ⟨hkeyholder, hsigned⟩ := (h.supported key.1 key.2 p hvotes.found).signed a hmem
      exact ⟨hkeyholder, signatures_subset_returned hsigned⟩
    · exact ⟨hvotes.keyholder, signature_mem_returned hvotes.signed⟩
  unchanged hunapplied := by
    have happlied := hvotes.applied h
    rw [show ballot.applied = false from hunapplied] at happlied
    cases happlied

/-- A vote keeps the invariant as far as it does not lift another pause. -/
theorem Sound.votes (h : Sound s)
    (hvotes : Votes s.contract (s.env i) i.call key contract p ballot)
    (hnames : s.contract.paused = true → contract.paused = false →
      (key.2, s.contract.pauseId) ∈ s.named) :
    Sound (s.returned i key contract) := by
  have hchanges := s.changes_returned i key contract
  constructor
  case justified =>
    intro change hchange
    have hold (hmem : change ∈ s.changes) :
        ∃ key' p', Causes (s.returned i key contract) change key' p' := by
      obtain ⟨key', p', hp'⟩ := h.justified change hmem
      exact ⟨key', p', hp'.mono hvotes.keys_eq signatures_subset_returned named_subset_returned⟩
    obtain heq | ⟨hne, heq⟩ := hchanges
    · rw [heq] at hchange
      exact hold hchange
    · rw [heq, List.mem_append, List.mem_singleton] at hchange
      obtain hmem | rfl := hchange
      · exact hold hmem
      · refine ⟨key, p, hvotes.causes h fun hfalse => hnames ?_ hfalse⟩
        rw [hfalse, ne_eq, Bool.not_eq_false] at hne
        exact hne
  case once =>
    obtain heq | ⟨-, heq⟩ := hchanges
    · rw [heq]
      exact h.once
    · -- The proposal that makes the change was not applied, so it has made none before.
      have hunchanged := (h.supported key.1 key.2 p hvotes.found).unchanged hvotes.vote.unapplied
      have happroves : (s.change i contract.isPaused).call.approves = some key :=
        hvotes.approves
      rw [heq, List.map_append, List.map_singleton, ← List.concat_eq_append, happroves]
      exact h.once.concat hunchanged
  case known =>
    intro change hchange key' happroves
    show key'.2 < contract.nextId
    rw [hvotes.nextId_eq]
    by_cases hkey : key' = key
    · rw [hkey]
      exact hvotes.id_lt h
    · have hmem := hvotes.mem_changes_of_ne hkey (List.mem_map.mpr ⟨change, hchange, happroves⟩)
      obtain ⟨change', hchange', happroves'⟩ := List.mem_map.mp hmem
      exact h.known change' hchange' key' happroves'
  case fresh =>
    intro kind id hle
    have hle' : s.contract.nextId ≤ id := by
      rw [← hvotes.nextId_eq]
      exact hle
    have hne : (kind, id) ≠ key := by
      rintro rfl
      have hlt := hvotes.id_lt h
      omega
    show (contract.proposals kind).find? id = none
    rw [hvotes.find?_eq, if_neg hne]
    exact h.fresh kind id hle'
  case supported =>
    intro kind id p' hfound
    have hfound' : (contract.proposals kind).find? id = some p' := hfound
    rw [hvotes.find?_eq] at hfound'
    by_cases hkey : (kind, id) = key
    · rw [if_pos hkey, Option.some.injEq] at hfound'
      subst hfound' hkey
      exact hvotes.supported h
    · rw [if_neg hkey] at hfound'
      exact (h.supported kind id p' hfound').mono hvotes.keys_eq signatures_subset_returned
        (hvotes.mem_changes_of_ne hkey)

end

/-- The call that approves an unpause proposal. -/
theorem eq_approveUnpause_of_approves {call : PauseCall Address} {id : ℕ}
    (h : call.approves = some (.unpause, id)) :
    call = .approveUnpause call.address id := by
  cases call with
  | initiatePause initiator reason => cases h
  | approvePause approver pid => cases h
  | initiateUnpause initiator pid => cases h
  | approveUnpause approver pid =>
    cases h
    rfl

/-- A contract that is initialised starts with the invariant. -/
theorem sound_of_init {deployed : Option (EmergencyPauseContract Address)} {env : Env Address}
    {deployer : Address} {keyholders : List Address}
    {contract : EmergencyPauseContract Address}
    (h : EmergencyPauseContract.init deployed env deployer keyholders = .ok contract)
    (ledger : ℕ) : Sound (.start contract ledger) := by
  simp only [EmergencyPauseContract.init, Except.bind_eq_ok_iff, Except.pure_eq_ok_iff,
    Except.demand_eq_ok_iff, Env.requireAuth_eq_ok_iff] at h
  obtain ⟨_, -, _, -, _, -, rfl⟩ := h
  constructor
  case justified => exact fun _ hchange => nomatch hchange
  case once => exact List.nodup_nil
  case supported => exact fun kind _ _ hfound => by cases kind <;> cases hfound
  case fresh => exact fun kind _ _ => by cases kind <;> rfl
  case known => exact fun _ hchange => nomatch hchange

variable [DecidableEq Address]

/-- A call that returns opens a proposal or approves one. -/
theorem perform_eq_ok {contract contract' : EmergencyPauseContract Address} {env : Env Address}
    {call : PauseCall Address} {key : ProposalKind × ℕ}
    (h : contract.perform env call = .ok (key, contract')) :
    Opens contract env call key contract' ∨
      ∃ p ballot, Votes contract env call key contract' p ballot := by
  cases call with
  | initiatePause initiator reason =>
    left
    simp only [EmergencyPauseContract.perform, EmergencyPauseContract.initiatePause,
      EmergencyPauseContract.requireKeyholder, Except.bind_eq_ok_iff, Except.pure_eq_ok_iff,
      Except.demand_eq_ok_iff, Env.requireAuth_eq_ok_iff, addUnsigned_eq_ok_iff,
      Prod.mk.injEq] at h
    obtain ⟨_, ⟨_, hsigned, _, hkey, _, -, ballot, hstart, _, ⟨-, rfl⟩, rfl⟩, rfl, rfl⟩ := h
    have hballot := Ballot.start_eq_ok hstart
    refine ⟨rfl, rfl, hsigned, hkey,
      ⟨{ ballot with reason, initiator }, hballot.approvals_eq, ?_⟩, rfl, rfl, rfl⟩
    intro kind id
    cases kind <;> simp [EmergencyPauseContract.proposals]
  | initiateUnpause initiator pauseProposalId =>
    left
    simp only [EmergencyPauseContract.perform, EmergencyPauseContract.initiateUnpause,
      EmergencyPauseContract.requireKeyholder, Except.bind_eq_ok_iff, Except.pure_eq_ok_iff,
      Except.demand_eq_ok_iff, Env.requireAuth_eq_ok_iff, addUnsigned_eq_ok_iff,
      Prod.mk.injEq] at h
    obtain ⟨_, ⟨_, hsigned, _, hkey, _, -, _, -, ballot, hstart, _, ⟨-, rfl⟩, rfl⟩, rfl, rfl⟩ := h
    have hballot := Ballot.start_eq_ok hstart
    refine ⟨rfl, rfl, hsigned, hkey,
      ⟨{ ballot with reason := "unpause", initiator }, hballot.approvals_eq, ?_⟩, rfl, rfl, rfl⟩
    intro kind id
    cases kind <;> simp [EmergencyPauseContract.proposals]
  | approvePause approver id =>
    right
    simp only [EmergencyPauseContract.perform, EmergencyPauseContract.approvePause,
      EmergencyPauseContract.requireKeyholder, Except.bind_eq_ok_iff, Except.pure_eq_ok_iff,
      Except.demand_eq_ok_iff, Env.requireAuth_eq_ok_iff, expect_eq_ok_iff,
      Prod.mk.injEq] at h
    obtain ⟨⟨applied, c⟩, ⟨_, hsigned, _, hkey, _, -, p, hfound, ballot, hvote, h⟩, rfl, rfl⟩ := h
    have happroved := Ballot.approve_eq_ok hvote
    refine ⟨p, ballot, ?_⟩
    cases happlied : ballot.applied <;> rw [happlied] at h <;> cases h
    all_goals
      refine ⟨rfl, hfound, hsigned, hkey, happroved, ?_, rfl, rfl, by rw [happlied]; rfl⟩
      intro kind id'
      cases kind <;> simp [EmergencyPauseContract.proposals]
  | approveUnpause approver id =>
    right
    simp only [EmergencyPauseContract.perform, EmergencyPauseContract.approveUnpause,
      EmergencyPauseContract.requireKeyholder, Except.bind_eq_ok_iff, Except.pure_eq_ok_iff,
      Except.demand_eq_ok_iff, Env.requireAuth_eq_ok_iff, expect_eq_ok_iff,
      Prod.mk.injEq] at h
    obtain ⟨⟨applied, c⟩, ⟨_, hsigned, _, hkey, _, -, p, hfound, ballot, hvote, h⟩, rfl, rfl⟩ := h
    have happroved := Ballot.approve_eq_ok hvote
    refine ⟨p, ballot, ?_⟩
    cases happlied : ballot.applied <;> rw [happlied] at h <;> cases h
    all_goals
      refine ⟨rfl, hfound, hsigned, hkey, happroved, ?_, rfl, rfl, by rw [happlied]; rfl⟩
      intro kind id'
      cases kind <;> simp [EmergencyPauseContract.proposals]

/-- A vote on an unpause proposal is accepted when all conditions are met. -/
theorem MayApprove.exists_ok {contract : EmergencyPauseContract Address} {env : Env Address}
    {p : PauseProposal Address} {approver : Address} {id : ℕ}
    (h : MayApprove contract.keys env p approver) (hfound : contract.uprops.find? id = some p) :
    ∃ r, contract.perform env (.approveUnpause approver id) = .ok r := by
  have hrows : contract.uprops.rows.isEmpty = false := by
    have hmem := (UniqueTable.find?_eq_some_iff _ _ _).mp hfound
    rw [List.isEmpty_eq_false_iff]
    exact List.ne_nil_of_mem hmem
  have hvote : ∃ ballot, p.toBallot.approve 2 env.sequence "unpause proposal expired" approver =
      .ok ballot := Ballot.exists_approve _ h.unapplied h.unexpired h.absent
  obtain ⟨ballot, hballot⟩ := hvote
  have happrove : ∃ r, contract.approveUnpause env approver id = .ok r := by
    simp only [EmergencyPauseContract.approveUnpause, EmergencyPauseContract.requireKeyholder,
      Except.bind_eq_ok_iff, Except.demand_eq_ok_iff, Env.requireAuth_eq_ok_iff,
      expect_eq_ok_iff]
    cases happlied : ballot.applied with
    | false =>
      exact ⟨_, ⟨⟩, h.signed, ⟨⟩, h.keyholder, ⟨⟩, hrows, p, hfound, ballot, hballot,
        by rw [happlied]; rfl⟩
    | true =>
      exact ⟨_, ⟨⟩, h.signed, ⟨⟩, h.keyholder, ⟨⟩, hrows, p, hfound, ballot, hballot,
        by rw [happlied]; rfl⟩
  obtain ⟨⟨applied, contract'⟩, hok⟩ := happrove
  exact ⟨((.unpause, id), contract'), by rw [EmergencyPauseContract.perform, hok]; rfl⟩

/-- A call under the condition keeps the invariant. -/
theorem Sound.step {s : PauseState Address} {i : Invocation Address (PauseCall Address)}
    (h : Sound s) (hcond : NamesCurrent s i) : Sound (s.step i) := by
  cases hperform : s.contract.perform (s.env i) i.call with
  | error e =>
    rw [PauseState.step_of_error hperform]
    exact h.advance _
  | ok r =>
    obtain ⟨key, contract⟩ := r
    rw [PauseState.step_of_ok hperform]
    obtain hopens | ⟨p, ballot, hvotes⟩ := perform_eq_ok hperform
    · exact h.opens hopens
    · refine h.votes hvotes fun hpaused hlifted => ?_
      have htarget := hvotes.paused_eq_target h
      obtain ⟨kind, id⟩ := key
      cases kind with
      | pause =>
        rw [hlifted] at htarget
        cases htarget
      | unpause =>
        have hmay : MayApprove s.contract.keys (s.env i) p i.call.address :=
          ⟨hvotes.signed, hvotes.keyholder, hvotes.vote.unapplied, hvotes.vote.unexpired,
            hvotes.vote.absent⟩
        exact hcond i.call.address id p (eq_approveUnpause_of_approves hvotes.approves)
          hvotes.found hmay hpaused

/-- An approval that breaks the condition lifts a pause that its proposal was not about. -/
theorem not_restrained_of_not_namesCurrent {s : PauseState Address}
    {i : Invocation Address (PauseCall Address)} (h : Sound s) (hcond : ¬NamesCurrent s i) :
    ¬Restrained (s.step i) := by
  intro hrestrained
  simp only [NamesCurrent, not_forall] at hcond
  obtain ⟨approver, id, p, hcall, hfound, hmay, hpaused, hnot⟩ := hcond
  obtain ⟨⟨key, contract⟩, hok⟩ := hmay.exists_ok hfound
  rw [← hcall] at hok
  rw [PauseState.step_of_ok hok] at hrestrained
  obtain hopens | ⟨p', ballot, hvotes⟩ := perform_eq_ok hok
  · have happroves := hopens.approves
    rw [hcall] at happroves
    cases happroves
  · have happroves : some (ProposalKind.unpause, id) = some key := by
      rw [← hvotes.approves, hcall]
      rfl
    rw [Option.some.injEq] at happroves
    subst happroves
    have hlifted : contract.paused = false := hvotes.paused_eq_target h
    have hmem : s.change i contract.isPaused ∈
        (s.returned i (.unpause, id) contract).changes := by
      have hne : s.contract.isPaused ≠ contract.isPaused := by
        rw [EmergencyPauseContract.isPaused, EmergencyPauseContract.isPaused, hpaused, hlifted]
        decide
      rw [PauseState.returned, if_neg hne]
      simp
    obtain ⟨key, p'', hcauses⟩ := hrestrained.justified _ hmem
    have hkey : some key = some (.unpause, id) := by
      rw [← hcauses.approves, ← hvotes.approves]
      rfl
    rw [Option.some.injEq] at hkey
    subst hkey
    have hnamed := hcauses.names hlifted
    rw [PauseState.returned, hcall] at hnamed
    exact hnot hnamed

/-- After every successful `init`, the contract does in all states of a run what it is for
exactly when every approval that lifts a pause finds the `pause_id` that was in force when
its proposal was opened. -/
theorem pause_restrained_iff {deployed : Option (EmergencyPauseContract Address)}
    {env : Env Address} {deployer : Address} {keyholders : List Address}
    {contract : EmergencyPauseContract Address}
    (h : EmergencyPauseContract.init deployed env deployer keyholders = .ok contract)
    (ledger : ℕ) (calls : List (Invocation Address (PauseCall Address))) :
    Always PauseState.step Restrained (.start contract ledger) calls ↔
      Meets PauseState.step NamesCurrent (.start contract ledger) calls :=
  always_iff_meets Sound (fun _ hs => hs.restrained) (fun _ _ hs hcond => hs.step hcond)
    (fun _ _ hs hcond => not_restrained_of_not_namesCurrent hs hcond) (sound_of_init h ledger)
    calls

/-- The keyholders pause the contract, and one of them opens a proposal to lift the pause,
which a third approves. -/
theorem lifted_pause_restrained :
    Always PauseState.step Restrained (.start { admin := 9, keys := [0, 1, 2] } 1000)
      [.signedBy 0 (.initiatePause 0 "oracle"), .signedBy 1 (.approvePause 1 0),
        .signedBy 0 (.initiateUnpause 0 0), .signedBy 2 (.approveUnpause 2 1)] := by
  have hinit : EmergencyPauseContract.init none ⟨1000, fun _ => true⟩ 9 [0, 1, 2] =
      .ok { admin := 9, keys := [0, 1, 2] } := rfl
  rw [pause_restrained_iff hinit]
  refine ⟨?_, ?_, ?_, ?_, trivial⟩
  · exact fun _ _ _ hcall => nomatch hcall
  · exact fun _ _ _ hcall => nomatch hcall
  · exact fun _ _ _ hcall => nomatch hcall
  · intro approver id p hcall _ _ _
    cases hcall
    decide +kernel

/-- Two proposals to lift pause 0 are opened; one lifts it, and the other, which is still
open, lifts the next pause, whose id is 3. -/
def staleUnpause : List (Invocation ℕ (PauseCall ℕ)) :=
  [.signedBy 0 (.initiatePause 0 "oracle"), .signedBy 1 (.approvePause 1 0),
    .signedBy 0 (.initiateUnpause 0 0), .signedBy 1 (.initiateUnpause 1 0),
    .signedBy 2 (.approveUnpause 2 1), .signedBy 0 (.initiatePause 0 "again"),
    .signedBy 1 (.approvePause 1 3), .signedBy 2 (.approveUnpause 2 2)]

/-- How the last call of `staleUnpause` is seen from outside. -/
def staleChange : PauseChange ℕ where
  paused := false
  call := .approveUnpause 2 2
  ledger := 1000
  pauseId := some 3
  proposal := some {
    approvals := [1]
    expiryLedger := 1180
    applied := false
    distinct := List.nodup_singleton 1
    reason := "unpause"
    initiator := 1 }

/-- A proposal to lift one pause lifts a later one. -/
theorem stale_unpause_not_restrained :
    EmergencyPauseContract.init none ⟨1000, fun _ => true⟩ 9 [0, 1, 2] =
        .ok { admin := 9, keys := [0, 1, 2] } ∧
      ¬Always PauseState.step Restrained (.start { admin := 9, keys := [0, 1, 2] } 1000)
        staleUnpause := by
  refine ⟨rfl, fun halways => ?_⟩
  have hmem : staleChange ∈ (exec PauseState.step
      (.start { admin := 9, keys := [0, 1, 2] } 1000) staleUnpause).changes := by
    decide +kernel
  obtain ⟨key, p, hcauses⟩ := halways.last.justified staleChange hmem
  have happroves := hcauses.approves
  have hnames := hcauses.names rfl
  cases happroves
  revert hnames
  decide +kernel

end LedgerLens.Integrations
