import LedgerLens.Integrations.GovernanceContract

/-!
# Runs of the governance contract

In the runs of a contract that starts within the range and never opens a proposal with a
quorum of one, the threshold is always the one that the last applied proposal asked for,
and a proposal is applied exactly when M keyholders have approved it in time. Neither
condition can be dropped: `init` does not check the initial threshold, and the proposer's
own approval is never held against the quorum.
-/

namespace LedgerLens.Integrations

open Transition

variable {Address : Type}

/-- The ids of the proposals that were applied, in order. -/
def ThresholdGovernanceContract.changedIds (contract : ThresholdGovernanceContract Address) :
    List ℕ :=
  contract.changes.map GovernanceEvent.proposalId

/-- What makes a `t_changed` event legitimate: the proposal that it names asked for the
value, had not expired, and is applied with the approvals of exactly M keyholders, each of
whom signed a call on it. -/
structure Justifies (s : GovernanceState Address) (event : GovernanceEvent)
    (p : Proposal Address) : Prop where
  /-- The proposal is the one that the event names. -/
  found : s.contract.props.find? event.proposalId = some p
  /-- It is applied. -/
  applied : p.applied = true
  /-- It asked for the new threshold. -/
  value_eq : event.value = p.newThreshold
  /-- It had not expired. -/
  unexpired : event.ledger ≤ p.expiryLedger
  /-- It has M approvals. -/
  quorum_eq : p.approvals.length = s.contract.quorum
  /-- They are of different addresses. -/
  distinct : p.approvals.Nodup
  /-- Those who approved are keyholders and signed. -/
  signed : ∀ a ∈ p.approvals,
    a ∈ s.contract.keys ∧ ⟨a, event.proposalId, true⟩ ∈ s.signatures

/-- What the contract is for, given the threshold it was initialised with. -/
structure Lawful (initialThreshold : ℕ) (s : GovernanceState Address) : Prop where
  /-- The threshold is in range. -/
  range : s.contract.currentThreshold ≤ 100
  /-- It is the value of the last change, if there was one. -/
  current : s.contract.currentThreshold =
    (s.contract.changes.getLast?.map GovernanceEvent.value).getD initialThreshold
  /-- No proposal is applied twice. -/
  once : s.contract.changedIds.Nodup
  /-- Every change is legitimate. -/
  justified : ∀ event ∈ s.contract.changes, ∃ p, Justifies s event p
  /-- Every unexpired proposal with M approvals is applied, by a change. -/
  complete : ∀ id p, s.contract.props.find? id = some p → s.ledger ≤ p.expiryLedger →
    s.contract.quorum ≤ p.approvals.length → p.applied = true ∧ id ∈ s.contract.changedIds

/-- When a proposal can be opened: the conditions that `propose_threshold_change` checks. -/
structure MayPropose (contract : ThresholdGovernanceContract Address) (env : Env Address)
    (proposer : Address) (newThreshold : ℕ) : Prop where
  /-- The proposer has signed. -/
  signed : env.signed proposer = true
  /-- The proposer is a keyholder. -/
  keyholder : proposer ∈ contract.keys
  /-- The new threshold is in range. -/
  range : newThreshold ≤ 100
  /-- The last ledger of the proposal does not overflow. -/
  expiry_fits : env.sequence + proposalTtlLedgers < 2 ^ 32
  /-- Neither does the next id. -/
  nextId_fits : contract.nextId + 1 < 2 ^ 64

/-- The condition under which a call keeps the contract lawful: with a quorum of one, it
does not open a proposal. -/
def Countable (s : GovernanceState Address) (i : Invocation Address (GovernanceCall Address)) :
    Prop :=
  2 ≤ s.contract.quorum ∨
    ∀ proposer newThreshold, i.call = .propose proposer newThreshold →
      ¬MayPropose s.contract (s.env i) proposer newThreshold

/-- The state right after `init`. -/
def GovernanceState.start (contract : ThresholdGovernanceContract Address) (ledger : ℕ) :
    GovernanceState Address :=
  { contract, ledger }

/-- What holds of each proposal in a lawful run. -/
structure Consistent (s : GovernanceState Address) (id : ℕ) (p : Proposal Address) : Prop where
  /-- The proposal is applied once it has M approvals. -/
  applied_iff : p.applied = true ↔ s.contract.quorum ≤ p.approvals.length
  /-- It never has more. -/
  few : p.approvals.length ≤ s.contract.quorum
  /-- It is applied by a change. -/
  changed_iff : p.applied = true ↔ id ∈ s.contract.changedIds
  /-- It asks for a threshold in range. -/
  range : p.newThreshold ≤ 100
  /-- Those who approved are keyholders and signed. -/
  signed : ∀ a ∈ p.approvals, a ∈ s.contract.keys ∧ ⟨a, id, true⟩ ∈ s.signatures

/-- The invariant of lawful runs. -/
structure Governed (initialThreshold : ℕ) (s : GovernanceState Address) : Prop where
  /-- The threshold is in range. -/
  range : s.contract.currentThreshold ≤ 100
  /-- It is the value of the last change, if there was one. -/
  current : s.contract.currentThreshold =
    (s.contract.changes.getLast?.map GovernanceEvent.value).getD initialThreshold
  /-- No proposal is applied twice. -/
  once : s.contract.changedIds.Nodup
  /-- Every change is legitimate. -/
  justified : ∀ event ∈ s.contract.changes, ∃ p, Justifies s event p
  /-- The proposals. -/
  consistent : ∀ id p, s.contract.props.find? id = some p → Consistent s id p
  /-- Ids are given out in order. -/
  fresh : ∀ id, s.contract.nextId ≤ id → s.contract.props.find? id = none
  /-- M is positive. -/
  quorum_pos : 1 ≤ s.contract.quorum
  /-- With a quorum of one there are no proposals. -/
  counted : 2 ≤ s.contract.quorum ∨ ∀ id, s.contract.props.find? id = none

/-- The invariant implies what the contract is for. -/
theorem Governed.lawful {initialThreshold : ℕ} {s : GovernanceState Address}
    (h : Governed initialThreshold s) : Lawful initialThreshold s where
  range := h.range
  current := h.current
  once := h.once
  justified := h.justified
  complete id p hfound _ hquorum := by
    have hp := h.consistent id p hfound
    have happlied : p.applied = true := hp.applied_iff.mpr hquorum
    exact ⟨happlied, hp.changed_iff.mp happlied⟩

/-- A proposal stays consistent in a state with the same keyholders, the same quorum and no
signature less, in which it is changed by the same events. -/
theorem Consistent.mono {s s' : GovernanceState Address} {id : ℕ} {p : Proposal Address}
    (h : Consistent s id p) (hkeys : s'.contract.keys = s.contract.keys)
    (hquorum : s'.contract.quorum = s.contract.quorum)
    (hchanged : id ∈ s'.contract.changedIds ↔ id ∈ s.contract.changedIds)
    (hsignatures : s.signatures ⊆ s'.signatures) : Consistent s' id p where
  applied_iff := by rw [hquorum]; exact h.applied_iff
  few := by rw [hquorum]; exact h.few
  changed_iff := by rw [hchanged]; exact h.changed_iff
  range := h.range
  signed a ha := by
    obtain ⟨hkey, hsigned⟩ := h.signed a ha
    exact ⟨by rwa [hkeys], hsignatures hsigned⟩

/-- A change stays legitimate in a state with the same keyholders, the same quorum and no
signature less, in which its proposal is the same. -/
theorem Justifies.mono {s s' : GovernanceState Address} {event : GovernanceEvent}
    {p : Proposal Address} (h : Justifies s event p)
    (hkeys : s'.contract.keys = s.contract.keys)
    (hquorum : s'.contract.quorum = s.contract.quorum)
    (hfound : s'.contract.props.find? event.proposalId =
      s.contract.props.find? event.proposalId)
    (hsignatures : s.signatures ⊆ s'.signatures) : Justifies s' event p where
  found := by rw [hfound]; exact h.found
  applied := h.applied
  value_eq := h.value_eq
  unexpired := h.unexpired
  quorum_eq := by rw [hquorum]; exact h.quorum_eq
  distinct := h.distinct
  signed a ha := by
    obtain ⟨hkey, hsigned⟩ := h.signed a ha
    exact ⟨by rwa [hkeys], hsignatures hsigned⟩

/-- Time alone changes nothing. -/
theorem Governed.advance {initialThreshold : ℕ} {s : GovernanceState Address}
    (h : Governed initialThreshold s) (ledger : ℕ) :
    Governed initialThreshold { s with ledger } where
  range := h.range
  current := h.current
  once := h.once
  justified event hevent := by
    obtain ⟨p, hp⟩ := h.justified event hevent
    exact ⟨p, hp.mono rfl rfl rfl (List.Subset.refl _)⟩
  consistent id p hfound :=
    (h.consistent id p hfound).mono rfl rfl Iff.rfl (List.Subset.refl _)
  fresh := h.fresh
  quorum_pos := h.quorum_pos
  counted := h.counted

/-- The proposal that a change names has an id that was given out. -/
theorem Governed.changedId_lt {initialThreshold : ℕ} {s : GovernanceState Address}
    (h : Governed initialThreshold s) {event : GovernanceEvent}
    (hevent : event ∈ s.contract.changes) : event.proposalId < s.contract.nextId := by
  obtain ⟨p, hp⟩ := h.justified event hevent
  by_contra hle
  have hnone := h.fresh event.proposalId (by omega)
  rw [hp.found] at hnone
  cases hnone

/-- Only a `t_changed` event is a change. -/
@[simp] theorem changes_publish (contract : ThresholdGovernanceContract Address)
    (event : GovernanceEvent) :
    (contract.publish event).changes =
      if event.topic = .tChanged then contract.changes ++ [event] else contract.changes := by
  by_cases h : event.topic = .tChanged <;>
    simp [ThresholdGovernanceContract.changes, ThresholdGovernanceContract.publish, h]

/-- What a call on one proposal does: the proposal is what the call makes of it, the events
that it publishes are about it, and nothing else changes. -/
structure Concerns (s s' : GovernanceState Address) (id : ℕ) (p : Proposal Address)
    (events : List GovernanceEvent) : Prop where
  /-- The keyholders are the same. -/
  keys_eq : s'.contract.keys = s.contract.keys
  /-- So is M. -/
  quorum_eq : s'.contract.quorum = s.contract.quorum
  /-- So are the other proposals. -/
  find?_eq : ∀ id', s'.contract.props.find? id' =
    if id' = id then some p else s.contract.props.find? id'
  /-- The changes come last. -/
  changes_eq : s'.contract.changes = s.contract.changes ++ events
  /-- They are changes by this proposal. -/
  own : ∀ event ∈ events, event.proposalId = id
  /-- No signature is lost. -/
  signatures_subset : s.signatures ⊆ s'.signatures

section

variable {s s' : GovernanceState Address} {id id' : ℕ} {p : Proposal Address}
  {events : List GovernanceEvent}

/-- The proposals that are applied afterwards. -/
theorem Concerns.changedIds_eq (h : Concerns s s' id p events) :
    s'.contract.changedIds =
      s.contract.changedIds ++ events.map GovernanceEvent.proposalId := by
  rw [ThresholdGovernanceContract.changedIds, h.changes_eq, List.map_append]
  rfl

/-- The other proposals are applied afterwards if they were before. -/
theorem Concerns.mem_changedIds_iff (h : Concerns s s' id p events) (hne : id' ≠ id) :
    id' ∈ s'.contract.changedIds ↔ id' ∈ s.contract.changedIds := by
  rw [h.changedIds_eq, List.mem_append]
  refine or_iff_left ?_
  intro hmem
  obtain ⟨event, hevent, heq⟩ := List.mem_map.mp hmem
  exact hne (heq.symm.trans (h.own event hevent))

/-- All proposals are consistent afterwards if this one is. -/
theorem Concerns.consistent (h : Concerns s s' id p events)
    (hall : ∀ id' q, s.contract.props.find? id' = some q → Consistent s id' q)
    (hp : Consistent s' id p) {q : Proposal Address}
    (hfound : s'.contract.props.find? id' = some q) : Consistent s' id' q := by
  rw [h.find?_eq] at hfound
  by_cases hid : id' = id
  · rw [if_pos hid, Option.some.injEq] at hfound
    subst hid hfound
    exact hp
  · rw [if_neg hid] at hfound
    exact (hall id' q hfound).mono h.keys_eq h.quorum_eq (h.mem_changedIds_iff hid)
      h.signatures_subset

/-- The earlier changes stay legitimate if this proposal had made none of them. -/
theorem Concerns.justified (h : Concerns s s' id p events)
    (hall : ∀ event ∈ s.contract.changes, ∃ p, Justifies s event p)
    (hunchanged : id ∉ s.contract.changedIds) {event : GovernanceEvent}
    (hevent : event ∈ s.contract.changes) : ∃ p, Justifies s' event p := by
  obtain ⟨q, hq⟩ := hall event hevent
  have hne : event.proposalId ≠ id := by
    rintro rfl
    exact hunchanged (List.mem_map_of_mem hevent)
  exact ⟨q, hq.mono h.keys_eq h.quorum_eq (by rw [h.find?_eq, if_neg hne]) h.signatures_subset⟩

end

/-- Opening a proposal with a quorum above one keeps the invariant. -/
theorem Governed.propose {initialThreshold : ℕ} {s s' : GovernanceState Address}
    (h : Governed initialThreshold s) (hquorum : 2 ≤ s.contract.quorum) {proposer : Address}
    {newThreshold sequence : ℕ} (hrange : newThreshold ≤ 100)
    (hkey : proposer ∈ s.contract.keys) {ballot : Ballot Address}
    (hballot : ballot.Started proposalTtlLedgers sequence proposer)
    (hcontract : s'.contract = { s.contract with
      props := s.contract.props.put s.contract.nextId { ballot with newThreshold, proposer }
      nextId := s.contract.nextId + 1 }.publish
        ⟨sequence, .proposed, s.contract.nextId, newThreshold⟩)
    (hsignatures : s'.signatures = s.signatures ++ [⟨proposer, s.contract.nextId, true⟩]) :
    Governed initialThreshold s' := by
  have hthresh : s'.contract.currentThreshold = s.contract.currentThreshold := by
    rw [hcontract]
    rfl
  have hchanges : s'.contract.changes = s.contract.changes := by
    rw [hcontract, changes_publish, if_neg (by simp)]
    rfl
  have hconcerns :
      Concerns s s' s.contract.nextId { ballot with newThreshold, proposer } [] := {
    keys_eq := by rw [hcontract]; rfl
    quorum_eq := by rw [hcontract]; rfl
    find?_eq id := by rw [hcontract]; exact UniqueTable.find?_put _ _ _ _
    changes_eq := by rw [hchanges, List.append_nil]
    own := by simp
    signatures_subset := by rw [hsignatures]; exact List.subset_append_left _ _ }
  -- The id is new, so no change names it.
  have hunchanged : s.contract.nextId ∉ s.contract.changedIds := by
    intro hmem
    obtain ⟨event, hevent, heq⟩ := List.mem_map.mp hmem
    have hlt := h.changedId_lt hevent
    omega
  have hids : s'.contract.changedIds = s.contract.changedIds := by
    rw [hconcerns.changedIds_eq, List.map_nil, List.append_nil]
  have hlength : ballot.approvals.length = 1 := by
    rw [hballot.approvals_eq, List.length_singleton]
  have hp : Consistent s' s.contract.nextId { ballot with newThreshold, proposer } := {
    applied_iff := by
      rw [hconcerns.quorum_eq, hballot.unapplied, hlength]
      simp only [Bool.false_eq_true, false_iff]
      omega
    few := by
      rw [hconcerns.quorum_eq, hlength]
      omega
    changed_iff := by
      rw [hballot.unapplied, hids]
      simp [hunchanged]
    range := hrange
    signed a ha := by
      rw [hballot.approvals_eq, List.mem_singleton] at ha
      subst ha
      rw [hconcerns.keys_eq, hsignatures]
      exact ⟨hkey, List.mem_append_right _ (List.mem_singleton_self _)⟩ }
  constructor
  case range => rw [hthresh]; exact h.range
  case current => rw [hthresh, hchanges]; exact h.current
  case once => rw [hids]; exact h.once
  case quorum_pos => rw [hconcerns.quorum_eq]; exact h.quorum_pos
  case counted => rw [hconcerns.quorum_eq]; exact .inl hquorum
  case justified =>
    intro event hevent
    rw [hchanges] at hevent
    exact hconcerns.justified h.justified hunchanged hevent
  case consistent => exact fun id p hfound => hconcerns.consistent h.consistent hp hfound
  case fresh =>
    intro id hle
    have hlt : s.contract.nextId + 1 ≤ id := by rwa [hcontract] at hle
    rw [hconcerns.find?_eq, if_neg (by omega)]
    exact h.fresh id (by omega)

/-- What an approval does to the state, given the ballot that it leaves. -/
structure Approves (s s' : GovernanceState Address) (approver : Address) (id sequence : ℕ)
    (p : Proposal Address) (ballot : Ballot Address) : Prop where
  /-- The approver is a keyholder. -/
  keyholder : approver ∈ s.contract.keys
  /-- The proposal was there. -/
  found : s.contract.props.find? id = some p
  /-- The vote was due. -/
  vote : p.toBallot.Approved s.contract.quorum sequence approver ballot
  /-- The threshold is the proposed one once the proposal is applied. -/
  contract_eq : s'.contract =
    if ballot.applied then
      { s.contract with
        props := s.contract.props.put id { p with toBallot := ballot }
        thresh := p.newThreshold }.publish ⟨sequence, .tChanged, id, p.newThreshold⟩
    else
      { s.contract with props := s.contract.props.put id { p with toBallot := ballot } }
  /-- The approver has signed. -/
  signatures_eq : s'.signatures = s.signatures ++ [⟨approver, id, true⟩]

section

variable {initialThreshold : ℕ} {s s' : GovernanceState Address} {approver : Address}
  {id sequence : ℕ} {p : Proposal Address} {ballot : Ballot Address}

/-- An approval concerns the proposal that it names. -/
theorem Approves.concerns (happroves : Approves s s' approver id sequence p ballot) :
    Concerns s s' id { p with toBallot := ballot }
      (if ballot.applied then [⟨sequence, .tChanged, id, p.newThreshold⟩] else []) where
  keys_eq := by
    rw [happroves.contract_eq]
    split <;> rfl
  quorum_eq := by
    rw [happroves.contract_eq]
    split <;> rfl
  find?_eq id' := by
    rw [happroves.contract_eq]
    split <;> exact UniqueTable.find?_put _ _ _ _
  changes_eq := by
    rw [happroves.contract_eq]
    split
    · rw [changes_publish, if_pos rfl]
      rfl
    · exact (List.append_nil _).symm
  own event hevent := by
    split at hevent
    · rw [List.mem_singleton.mp hevent]
    · cases hevent
  signatures_subset := by
    rw [happroves.signatures_eq]
    exact List.subset_append_left _ _

/-- The proposal was open: it has made no change yet. -/
theorem Approves.unchanged (h : Governed initialThreshold s)
    (happroves : Approves s s' approver id sequence p ballot) : id ∉ s.contract.changedIds := by
  intro hmem
  have happlied := (h.consistent id p happroves.found).changed_iff.mpr hmem
  rw [happroves.vote.unapplied] at happlied
  cases happlied

/-- It lacked at least one approval. -/
theorem Approves.length_le (h : Governed initialThreshold s)
    (happroves : Approves s s' approver id sequence p ballot) :
    ballot.approvals.length ≤ s.contract.quorum := by
  rw [happroves.vote.approvals_eq, List.length_append, List.length_singleton]
  by_contra hnot
  have happlied := (h.consistent id p happroves.found).applied_iff.mpr (by omega)
  rw [happroves.vote.unapplied] at happlied
  cases happlied

/-- Those who have approved it now are keyholders and signed. -/
theorem Approves.signed (h : Governed initialThreshold s)
    (happroves : Approves s s' approver id sequence p ballot) :
    ∀ a ∈ ballot.approvals, a ∈ s'.contract.keys ∧ ⟨a, id, true⟩ ∈ s'.signatures := by
  intro a ha
  rw [happroves.vote.approvals_eq, List.mem_append, List.mem_singleton] at ha
  rw [happroves.concerns.keys_eq]
  obtain hold | rfl := ha
  · obtain ⟨hmem, hsigned⟩ := (h.consistent id p happroves.found).signed a hold
    exact ⟨hmem, happroves.concerns.signatures_subset hsigned⟩
  · rw [happroves.signatures_eq]
    exact ⟨happroves.keyholder, List.mem_append_right _ (List.mem_singleton_self _)⟩

/-- The proposal stays consistent. -/
theorem Approves.consistent (h : Governed initialThreshold s)
    (happroves : Approves s s' approver id sequence p ballot) :
    Consistent s' id { p with toBallot := ballot } where
  applied_iff := by
    rw [happroves.concerns.quorum_eq]
    exact happroves.vote.applied_iff
  few := by
    rw [happroves.concerns.quorum_eq]
    exact happroves.length_le h
  changed_iff := by
    rw [happroves.concerns.changedIds_eq]
    have hunchanged := happroves.unchanged h
    cases ballot.applied <;> simp [hunchanged]
  range := (h.consistent id p happroves.found).range
  signed := happroves.signed h

/-- If the proposal is applied, its change is legitimate. -/
theorem Approves.justifies (h : Governed initialThreshold s)
    (happroves : Approves s s' approver id sequence p ballot) (happlied : ballot.applied = true) :
    Justifies s' ⟨sequence, .tChanged, id, p.newThreshold⟩ { p with toBallot := ballot } where
  found := by rw [happroves.concerns.find?_eq, if_pos rfl]
  applied := happlied
  value_eq := rfl
  unexpired := by
    rw [happroves.vote.expiryLedger_eq]
    exact happroves.vote.unexpired
  quorum_eq := by
    have hreached := happroves.vote.applied_iff.mp happlied
    have hle := happroves.length_le h
    rw [happroves.concerns.quorum_eq]
    show ballot.approvals.length = _
    omega
  distinct := ballot.distinct
  signed := happroves.signed h

/-- An approval keeps the invariant, whether it completes the quorum or not. -/
theorem Governed.approve (h : Governed initialThreshold s)
    (happroves : Approves s s' approver id sequence p ballot) : Governed initialThreshold s' := by
  have hconcerns := happroves.concerns
  have hunchanged := happroves.unchanged h
  have hthresh : s'.contract.currentThreshold =
      if ballot.applied then p.newThreshold else s.contract.currentThreshold := by
    rw [happroves.contract_eq]
    split <;> rfl
  constructor
  case range =>
    rw [hthresh]
    split
    · exact (h.consistent id p happroves.found).range
    · exact h.range
  case current =>
    rw [hthresh, hconcerns.changes_eq]
    split
    · simp
    · rw [List.append_nil]
      exact h.current
  case once =>
    rw [hconcerns.changedIds_eq]
    split
    · rw [List.map_singleton, ← List.concat_eq_append]
      exact h.once.concat hunchanged
    · rw [List.map_nil, List.append_nil]
      exact h.once
  case justified =>
    intro event hevent
    rw [hconcerns.changes_eq, List.mem_append] at hevent
    obtain hold | hnew := hevent
    · exact hconcerns.justified h.justified hunchanged hold
    · split at hnew
      · next happlied =>
        rw [List.mem_singleton.mp hnew]
        exact ⟨_, happroves.justifies h happlied⟩
      · cases hnew
  case consistent =>
    exact fun id' q hfound =>
      hconcerns.consistent h.consistent (happroves.consistent h) hfound
  case fresh =>
    intro id' hle
    have hnext : s'.contract.nextId = s.contract.nextId := by
      rw [happroves.contract_eq]
      split <;> rfl
    rw [hnext] at hle
    have hnone := h.fresh id' hle
    have hne : id' ≠ id := by
      rintro rfl
      rw [happroves.found] at hnone
      cases hnone
    rw [hconcerns.find?_eq, if_neg hne]
    exact hnone
  case quorum_pos => rw [hconcerns.quorum_eq]; exact h.quorum_pos
  case counted =>
    rw [hconcerns.quorum_eq]
    obtain hquorum | hnone := h.counted
    · exact .inl hquorum
    · have hfound := happroves.found
      rw [hnone id] at hfound
      cases hfound

end

/-- What `init` returns: a contract with a possible quorum, with the initial threshold that
it was given, unchecked, and without proposals. -/
theorem init_eq_ok {deployed : Option (ThresholdGovernanceContract Address)} {env : Env Address}
    {deployer : Address} {keyholders : List Address} {quorum initialThreshold : ℕ}
    {contract : ThresholdGovernanceContract Address}
    (h : ThresholdGovernanceContract.init deployed env deployer keyholders quorum
      initialThreshold = .ok contract) :
    1 ≤ quorum ∧
      contract = { admin := deployer, keys := keyholders, quorum, thresh := initialThreshold } := by
  simp only [ThresholdGovernanceContract.init, Except.bind_eq_ok_iff, Except.pure_eq_ok_iff,
    Except.demand_eq_ok_iff, Env.requireAuth_eq_ok_iff] at h
  obtain ⟨_, -, _, -, _, hquorum, rfl⟩ := h
  exact ⟨hquorum.1, rfl⟩

/-- A contract that is initialised in range starts with the invariant. -/
theorem governed_of_init {deployed : Option (ThresholdGovernanceContract Address)}
    {env : Env Address} {deployer : Address} {keyholders : List Address}
    {quorum initialThreshold : ℕ} {contract : ThresholdGovernanceContract Address}
    (h : ThresholdGovernanceContract.init deployed env deployer keyholders quorum
      initialThreshold = .ok contract)
    (hrange : initialThreshold ≤ 100) (ledger : ℕ) :
    Governed initialThreshold (.start contract ledger) := by
  obtain ⟨hquorum, rfl⟩ := init_eq_ok h
  constructor
  case range => exact hrange
  case current => rfl
  case once => exact List.nodup_nil
  case justified => exact fun _ hevent => nomatch hevent
  case consistent => exact fun _ _ hfound => nomatch hfound
  case fresh => exact fun _ _ => rfl
  case quorum_pos => exact hquorum
  case counted => exact .inr fun _ => rfl

variable [DecidableEq Address]

/-- What `propose_threshold_change` does when it returns. -/
theorem proposeThresholdChange_eq_ok {contract contract' : ThresholdGovernanceContract Address}
    {env : Env Address} {proposer : Address} {newThreshold id : ℕ}
    (h : contract.proposeThresholdChange env proposer newThreshold = .ok (id, contract')) :
    MayPropose contract env proposer newThreshold ∧ id = contract.nextId ∧
      ∃ ballot : Ballot Address, ballot.Started proposalTtlLedgers env.sequence proposer ∧
        contract' = { contract with
          props := contract.props.put id { ballot with newThreshold, proposer }
          nextId := contract.nextId + 1 }.publish ⟨env.sequence, .proposed, id, newThreshold⟩ := by
  simp only [ThresholdGovernanceContract.proposeThresholdChange,
    ThresholdGovernanceContract.requireKeyholder, Except.bind_eq_ok_iff, Except.pure_eq_ok_iff,
    Except.demand_eq_ok_iff, Env.requireAuth_eq_ok_iff, addUnsigned_eq_ok_iff,
    Prod.mk.injEq] at h
  obtain ⟨_, hsigned, _, hkey, _, hrange, ballot, hstart, next, ⟨hnext, rfl⟩, rfl, rfl⟩ := h
  have hstarted := Ballot.start_eq_ok hstart
  exact ⟨⟨hsigned, hkey, hrange, hstarted.fits, hnext⟩, rfl, ballot, hstarted, rfl⟩

/-- A proposal can be opened when all conditions are met. -/
theorem MayPropose.exists_ok {contract : ThresholdGovernanceContract Address}
    {env : Env Address} {proposer : Address} {newThreshold : ℕ}
    (h : MayPropose contract env proposer newThreshold) :
    ∃ r, contract.proposeThresholdChange env proposer newThreshold = .ok r := by
  obtain ⟨ballot, hstart⟩ := Ballot.exists_start proposer h.expiry_fits
  have hnext := addUnsigned_eq_ok_iff.mpr ⟨h.nextId_fits, rfl⟩
  simp only [ThresholdGovernanceContract.proposeThresholdChange,
    ThresholdGovernanceContract.requireKeyholder, Except.bind_eq_ok_iff, Except.pure_eq_ok_iff,
    Except.demand_eq_ok_iff, Env.requireAuth_eq_ok_iff]
  exact ⟨_, ⟨⟩, h.signed, ⟨⟩, h.keyholder, ⟨⟩, h.range, ballot, hstart, _, hnext, rfl⟩

/-- What `approve_threshold_change` does when it returns. -/
theorem approveThresholdChange_eq_ok {contract contract' : ThresholdGovernanceContract Address}
    {env : Env Address} {approver : Address} {id : ℕ} {applied : Bool}
    (h : contract.approveThresholdChange env approver id = .ok (applied, contract')) :
    env.signed approver = true ∧ approver ∈ contract.keys ∧
      ∃ (p : Proposal Address) (ballot : Ballot Address),
        contract.props.find? id = some p ∧
        p.toBallot.Approved contract.quorum env.sequence approver ballot ∧
        contract' =
          if ballot.applied then
            { contract with
              props := contract.props.put id { p with toBallot := ballot }
              thresh := p.newThreshold }.publish
                ⟨env.sequence, .tChanged, id, p.newThreshold⟩
          else
            { contract with props := contract.props.put id { p with toBallot := ballot } } := by
  simp only [ThresholdGovernanceContract.approveThresholdChange,
    ThresholdGovernanceContract.requireKeyholder, Except.bind_eq_ok_iff,
    Except.demand_eq_ok_iff, Env.requireAuth_eq_ok_iff, expect_eq_ok_iff] at h
  obtain ⟨_, hsigned, _, hkey, _, -, p, hfound, ballot, hballot, h⟩ := h
  refine ⟨hsigned, hkey, p, ballot, hfound, Ballot.approve_eq_ok hballot, ?_⟩
  cases happlied : ballot.applied with
  | true =>
    rw [happlied] at h
    cases h
    rfl
  | false =>
    rw [happlied] at h
    cases h
    rfl

/-- A call under the condition keeps the invariant. -/
theorem Governed.step {initialThreshold : ℕ} {s : GovernanceState Address}
    {i : Invocation Address (GovernanceCall Address)} (h : Governed initialThreshold s)
    (hcond : Countable s i) : Governed initialThreshold (s.step i) := by
  cases hperform : s.contract.perform (s.env i) i.call with
  | error e =>
    rw [GovernanceState.step_of_error hperform]
    exact h.advance _
  | ok r =>
    obtain ⟨signature, contract'⟩ := r
    rw [GovernanceState.step_of_ok hperform]
    cases hcall : i.call with
    | propose proposer newThreshold =>
      rw [hcall] at hperform
      simp only [ThresholdGovernanceContract.perform, Except.bind_eq_ok_iff,
        Except.pure_eq_ok_iff, Prod.mk.injEq] at hperform
      obtain ⟨⟨id, contract''⟩, hpropose, rfl, rfl⟩ := hperform
      obtain ⟨hmay, rfl, ballot, hballot, hcontract⟩ := proposeThresholdChange_eq_ok hpropose
      have hquorum : 2 ≤ s.contract.quorum := by
        obtain hquorum | hnot := hcond
        · exact hquorum
        · exact absurd hmay (hnot proposer newThreshold hcall)
      exact h.propose hquorum hmay.range hmay.keyholder hballot hcontract
        (by rw [hmay.signed])
    | approve approver id =>
      rw [hcall] at hperform
      simp only [ThresholdGovernanceContract.perform, Except.bind_eq_ok_iff,
        Except.pure_eq_ok_iff, Prod.mk.injEq] at hperform
      obtain ⟨⟨applied, contract''⟩, happrove, rfl, rfl⟩ := hperform
      obtain ⟨hsigned, hkey, p, ballot, hfound, hballot, hcontract⟩ :=
        approveThresholdChange_eq_ok happrove
      exact h.approve ⟨hkey, hfound, hballot, hcontract, by rw [hsigned]⟩

/-- A proposal that is opened with a quorum of one has all its approvals and is not applied. -/
theorem not_lawful_of_not_countable {initialThreshold : ℕ} {s : GovernanceState Address}
    {i : Invocation Address (GovernanceCall Address)} (hquorum : 1 ≤ s.contract.quorum)
    (hcond : ¬Countable s i) : ¬Lawful initialThreshold (s.step i) := by
  intro hlawful
  obtain ⟨hone, hnot⟩ := not_or.mp hcond
  simp only [not_forall, not_not] at hnot
  obtain ⟨proposer, newThreshold, hcall, hmay⟩ := hnot
  obtain ⟨⟨id, contract'⟩, hpropose⟩ := hmay.exists_ok
  obtain ⟨-, rfl, ballot, hballot, hcontract⟩ := proposeThresholdChange_eq_ok hpropose
  have hperform : s.contract.perform (s.env i) i.call =
      .ok (⟨proposer, s.contract.nextId, i.signed proposer⟩, contract') := by
    rw [hcall, ThresholdGovernanceContract.perform, hpropose]
    rfl
  rw [GovernanceState.step_of_ok hperform, hcontract] at hlawful
  obtain ⟨happlied, -⟩ := hlawful.complete s.contract.nextId
    { ballot with newThreshold, proposer }
    (by rw [ThresholdGovernanceContract.publish, UniqueTable.find?_put, if_pos rfl])
    (by
      show s.ledger + i.elapsed ≤ ballot.expiryLedger
      rw [hballot.expiryLedger_eq]
      exact Nat.le_add_right _ _)
    (by
      show s.contract.quorum ≤ ballot.approvals.length
      rw [hballot.approvals_eq, List.length_singleton]
      omega)
  have hunapplied := hballot.unapplied
  rw [happlied] at hunapplied
  cases hunapplied

/-- After every successful `init`, the contract does in all states of a run what it is for
exactly when the initial threshold is in range and, with a quorum of one, no proposal is
ever opened. -/
theorem governance_lawful_iff {deployed : Option (ThresholdGovernanceContract Address)}
    {env : Env Address} {deployer : Address} {keyholders : List Address}
    {quorum initialThreshold : ℕ} {contract : ThresholdGovernanceContract Address}
    (h : ThresholdGovernanceContract.init deployed env deployer keyholders quorum
      initialThreshold = .ok contract)
    (ledger : ℕ) (calls : List (Invocation Address (GovernanceCall Address))) :
    Always GovernanceState.step (Lawful initialThreshold) (.start contract ledger) calls ↔
      initialThreshold ≤ 100 ∧
        Meets GovernanceState.step Countable (.start contract ledger) calls := by
  have hiff (hrange : initialThreshold ≤ 100) :
      Always GovernanceState.step (Lawful initialThreshold) (.start contract ledger) calls ↔
        Meets GovernanceState.step Countable (.start contract ledger) calls :=
    always_iff_meets (Governed initialThreshold) (fun _ hs => hs.lawful)
      (fun _ _ hs hcond => hs.step hcond)
      (fun _ _ hs hcond => not_lawful_of_not_countable hs.quorum_pos hcond)
      (governed_of_init h hrange ledger) calls
  constructor
  · intro halways
    have hrange : initialThreshold ≤ 100 := by
      obtain ⟨-, rfl⟩ := init_eq_ok h
      exact halways.head.range
    exact ⟨hrange, (hiff hrange).mp halways⟩
  · rintro ⟨hrange, hmeets⟩
    exact (hiff hrange).mpr hmeets

/-- Two of three keyholders, and a proposal that the second approves. -/
theorem two_of_three_lawful :
    Always GovernanceState.step (Lawful 70)
      (.start { admin := 9, keys := [0, 1, 2], quorum := 2, thresh := 70 } 1000)
      [.signedBy 0 (.propose 0 80), .signedBy 1 (.approve 1 0)] := by
  have hinit : ThresholdGovernanceContract.init none ⟨1000, fun _ => true⟩ 9 [0, 1, 2] 2 70 =
      .ok { admin := 9, keys := [0, 1, 2], quorum := 2, thresh := 70 } := rfl
  rw [governance_lawful_iff hinit]
  exact ⟨by decide, .inl (by decide), .inl (by decide), trivial⟩

/-- A single keyholder's proposal has all its approvals and is not applied. Nor is an
initial threshold above 100 refused. -/
theorem init_not_lawful :
    (ThresholdGovernanceContract.init none ⟨1000, fun _ => true⟩ 9 [0] 1 70 =
        .ok { admin := 9, keys := [0], quorum := 1, thresh := 70 } ∧
      ¬Always GovernanceState.step (Lawful 70)
        (.start { admin := 9, keys := [0], quorum := 1, thresh := 70 } 1000)
        [.signedBy 0 (.propose 0 80)]) ∧
    ThresholdGovernanceContract.init none ⟨1000, fun _ => true⟩ 9 [0, 1, 2] 2 250 =
        .ok { admin := 9, keys := [0, 1, 2], quorum := 2, thresh := 250 } ∧
      ¬Always GovernanceState.step (Lawful 250)
        (.start { admin := 9, keys := [0, 1, 2], quorum := 2, thresh := 250 } 1000) [] := by
  refine ⟨⟨rfl, ?_⟩, rfl, ?_⟩
  · intro halways
    have hcomplete := halways.last.complete 0
      { approvals := [0], expiryLedger := 121960, applied := false, distinct := by simp,
        newThreshold := 80, proposer := 0 } (by decide +kernel) (by decide) (by decide)
    cases hcomplete.1
  · intro halways
    have hrange : 250 ≤ 100 := halways.head.range
    omega

end LedgerLens.Integrations
