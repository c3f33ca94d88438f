import LedgerLens.Federated.AsyncCoordinator
import LedgerLens.Federated.RoundAccounting
import Mathlib.Algebra.Order.Ring.Rat
import Mathlib.Algebra.Field.Rat

/-!
# The updates of the asynchronous coordinator

This file follows the updates that `submit_update` accepts and those that `tick` aggregates. An
aggregation that raises has emptied the list of pending updates before, so that they are lost. The
last theorem determines, for both coordinators, the runs in which no failure does damage.
-/

namespace LedgerLens.Federated

open NumArray Raising Transition AsyncState

variable {R : Type} [Field R] [LinearOrder R]

/-- A call of the asynchronous coordinator. -/
inductive AsyncEvent (R : Type) where
  /-- `submit_update`. -/
  | submit (participantId : String) (delta : List R) (gradientModelVersion : ℤ)
    (context : CallContext)
  /-- `tick`. -/
  | tick (context : CallContext)

/-- The coordinator with its history. -/
structure AsyncHistory (R : Type) where
  /-- The coordinator. -/
  state : AsyncState R
  /-- The updates whose submissions returned. -/
  accepted : List ℕ := []
  /-- The updates of each aggregation. -/
  aggregations : List (List ℕ) := []
  /-- The identity of the next update. -/
  nextIdentity : ℕ := 0

namespace AsyncHistory

/-- The pending updates. -/
def pendingIds (s : AsyncState R) : List ℕ := s.pending.map AsyncGradientUpdate.identity

/-- The books of the coordinator. -/
def ledger (h : AsyncHistory R) : BatchLedger ℕ :=
  ⟨h.accepted, pendingIds h.state, h.aggregations⟩

/-- What a call with some new updates adds to the history. -/
def record {α : Type} (h : AsyncHistory R) (arrived : List ℕ)
    (outcome : Except CoordinatorError α × AsyncState R) : AsyncHistory R where
  state := outcome.2
  accepted :=
    match outcome.1 with
    | .ok _ => h.accepted ++ arrived
    | .error _ => h.accepted
  aggregations :=
    if outcome.2.modelVersion = h.state.modelVersion then h.aggregations
    else h.aggregations ++ [pendingIds h.state ++ arrived]
  nextIdentity := h.nextIdentity + arrived.length

/-- What a submission returns or raises, and the state it leaves. -/
def submit (settings : AsyncSettings R) (h : AsyncHistory R) (participantId : String)
    (delta : List R) (gradientModelVersion : ℤ) (context : CallContext) :
    Except CoordinatorError UpdateResponse × AsyncState R :=
  exec (submitUpdate settings h.nextIdentity participantId delta gradientModelVersion context)
    h.state

/-- One call. -/
def step (settings : AsyncSettings R) (h : AsyncHistory R) : AsyncEvent R → AsyncHistory R
  | .submit participantId delta gradientModelVersion context =>
    h.record [h.nextIdentity] (h.submit settings participantId delta gradientModelVersion context)
  | .tick context => h.record [] (exec (AsyncState.tick settings context) h.state)

/-- Two states have the same version, weights and pending updates. -/
def SameModel (s s' : AsyncState R) : Prop :=
  s'.modelVersion = s.modelVersion ∧ s'.globalWeights = s.globalWeights ∧ s'.pending = s.pending

/-- What is expected of a call: a submission that raises leaves the version, the weights and the
pending updates as they were; and afterwards every accepted update is pending or was aggregated
once. -/
def Clean (settings : AsyncSettings R) (h : AsyncHistory R) (event : AsyncEvent R) : Prop :=
  (match event with
    | .submit participantId delta gradientModelVersion context =>
      ∀ e, (h.submit settings participantId delta gradientModelVersion context).1 = .error e →
        SameModel h.state
          (h.submit settings participantId delta gradientModelVersion context).2
    | .tick _ => True) ∧
  (h.step settings event).ledger.Accounted

/-- The lengths that an aggregation of the pending updates and one more delta brings together. -/
def lengthsWith (s : AsyncState R) (delta : List R) : List ℕ :=
  (s.globalWeights.map List.length).getD delta.length ::
    ((s.pending.map fun u => u.delta.length) ++ [delta.length])

/-- The condition. If a submission triggers an aggregation, then either the lengths fit and the
audit trail does not fail, or they do not fit and nothing was pending; and if the timer triggers
one, then the lengths fit. -/
def Fits (settings : AsyncSettings R) (s : AsyncState R) : AsyncEvent R → Prop
  | .submit _ delta gradientModelVersion context =>
    s.staleness gradientModelVersion ≤ settings.maxStaleness →
      settings.triggerN ≤ s.pending.length + 1 →
        Broadcastable (lengthsWith s delta) ∧ context.auditFault = none ∨
          ¬Broadcastable (lengthsWith s delta) ∧ s.pending = []
  | .tick context =>
    TickDue settings s context → ∀ weights ∈ s.globalWeights,
      Broadcastable (weights.length :: s.pending.map fun u => u.delta.length)

/-- The invariant. -/
structure Inv (h : AsyncHistory R) : Prop where
  /-- The books are right. -/
  ledger : h.ledger.Inv
  /-- Identities are given in order. -/
  fresh : ∀ id ∈ h.ledger.items, id < h.nextIdentity
  /-- Without weights nothing is pending. -/
  weights : h.state.globalWeights = none → h.state.pending = []

variable {settings : AsyncSettings R} {h : AsyncHistory R}

omit [LinearOrder R] in
/-- The first update determines the number of weights. -/
theorem length_initialWeights (s : AsyncState R) (delta : List R) :
    (s.globalWeights.getD (List.replicate delta.length 0)).length =
      (s.globalWeights.map List.length).getD delta.length := by
  cases s.globalWeights with
  | none => exact List.length_replicate
  | some weights => rfl

omit [LinearOrder R] in
/-- An update that is added without an aggregation. -/
theorem Inv.received (hinv : h.Inv) {update : AsyncGradientUpdate R}
    (hidentity : update.identity = h.nextIdentity) (response : UpdateResponse) :
    (h.record [h.nextIdentity] (.ok response, h.state.received update)).Inv := by
  have hnew : h.nextIdentity ∉ h.ledger.items := fun hmem => by
    have hlt := hinv.fresh _ hmem
    omega
  have hledger : (h.record [h.nextIdentity] (.ok response, h.state.received update)).ledger =
      h.ledger.accept h.nextIdentity := by
    unfold AsyncHistory.ledger record BatchLedger.accept pendingIds AsyncState.received
    dsimp only
    rw [if_pos rfl, List.map_append, List.map_singleton, hidentity]
  refine ⟨?_, ?_, fun hnone => nomatch hnone⟩
  · rw [hledger]
    exact hinv.ledger.accept hnew
  · intro id hid
    rw [hledger] at hid
    change id < h.nextIdentity + 1
    rw [(h.ledger.items_accept_perm _).mem_iff, List.mem_cons] at hid
    rcases hid with rfl | hold
    · omega
    · have hlt := hinv.fresh id hold
      omega

omit [Field R] [LinearOrder R] in
/-- An aggregation of the pending updates. -/
theorem Inv.aggregated (hinv : h.Inv) (next : List R) (version : ℕ) (now : ℤ) :
    ({ h with
        state := ⟨some next, version, [], now⟩
        aggregations := h.aggregations ++ [pendingIds h.state] } : AsyncHistory R).Inv := by
  refine ⟨hinv.ledger.use, ?_, fun hnone => nomatch hnone⟩
  intro id hid
  exact hinv.fresh id (h.ledger.items_use_perm.mem_iff.mp hid)

omit [LinearOrder R] in
/-- The history after a submission that triggers an aggregation. -/
theorem record_received {update : AsyncGradientUpdate R}
    (hidentity : update.identity = h.nextIdentity) (response : UpdateResponse) (next : List R)
    (now : ℤ) :
    ({ h.record [h.nextIdentity] (.ok response, h.state.received update) with
        state := ⟨some next, h.state.modelVersion + 1, [], now⟩
        aggregations :=
          (h.record [h.nextIdentity] (.ok response, h.state.received update)).aggregations ++
            [pendingIds
              (h.record [h.nextIdentity] (.ok response, h.state.received update)).state] } :
      AsyncHistory R) =
      h.record [h.nextIdentity]
        (.ok response, ⟨some next, h.state.modelVersion + 1, [], now⟩) := by
  have hreceived : pendingIds (h.state.received update) =
      pendingIds h.state ++ [h.nextIdentity] := by
    unfold pendingIds AsyncState.received
    dsimp only
    rw [List.map_append, List.map_singleton, hidentity]
  have hversion : (h.state.received update).modelVersion = h.state.modelVersion := rfl
  have hnext : h.state.modelVersion + 1 ≠ h.state.modelVersion := by omega
  unfold record
  dsimp only
  rw [if_pos hversion, if_neg hnext, hreceived]

omit [Field R] [LinearOrder R] in
/-- A call that leaves version, weights and pending updates as they were and does not return. -/
theorem Inv.refused (hinv : h.Inv) (α : Type) {s' : AsyncState R} (hsame : SameModel h.state s')
    (e : CoordinatorError) (arrived : List ℕ) :
    (h.record arrived ((.error e : Except CoordinatorError α), s')).Inv := by
  obtain ⟨hversion, hweights, hpending⟩ := hsame
  have hledger : (h.record arrived ((.error e : Except CoordinatorError α), s')).ledger =
      h.ledger := by
    unfold AsyncHistory.ledger record pendingIds
    dsimp only
    rw [if_pos hversion, hpending]
  refine ⟨?_, ?_, ?_⟩
  · rw [hledger]
    exact hinv.ledger
  · intro id hid
    rw [hledger] at hid
    have hlt := hinv.fresh id hid
    change id < h.nextIdentity + arrived.length
    omega
  · intro hnone
    change s'.globalWeights = none at hnone
    change s'.pending = []
    rw [hweights] at hnone
    rw [hpending]
    exact hinv.weights hnone

omit [LinearOrder R] in
/-- A submission that triggers an aggregation of updates that do not fit. -/
theorem sameModel_of_misfit_iff (h : AsyncHistory R) (update : AsyncGradientUpdate R)
    (hmisfit : ¬Broadcastable (lengthsWith h.state update.delta)) :
    SameModel h.state { h.state.received update with pending := [] } ↔ h.state.pending = [] := by
  constructor
  · rintro ⟨-, -, hpending⟩
    exact hpending.symm
  · intro hempty
    refine ⟨rfl, ?_, hempty.symm⟩
    cases hweights : h.state.globalWeights with
    | some weights =>
      unfold AsyncState.received
      rw [hweights]
      rfl
    | none =>
      refine absurd ⟨update.delta.length, fun l hl => .inr ?_⟩ hmisfit
      unfold lengthsWith at hl
      rw [hweights, hempty] at hl
      simpa using hl

/-- The lengths that fit, in terms of the aggregation. -/
theorem exists_nextWeights_received_iff (settings : AsyncSettings R) (s : AsyncState R)
    (update : AsyncGradientUpdate R) :
    (∃ next, nextWeights settings.krum
        (s.globalWeights.getD (List.replicate update.delta.length 0)) s.modelVersion
        (s.received update).pending = .ok next) ↔
      Broadcastable (lengthsWith s update.delta) := by
  have hne : (s.received update).pending ≠ [] :=
    List.append_ne_nil_of_right_ne_nil _ (List.cons_ne_nil _ _)
  rw [exists_nextWeights_iff settings.krum _ _ hne, length_initialWeights]
  unfold lengthsWith AsyncState.received
  dsimp only
  rw [List.map_append, List.map_singleton]

/-- A submission is as expected exactly if it meets the condition, and then it keeps the
invariant. -/
theorem Inv.submit (hinv : h.Inv) (participantId : String) (delta : List R)
    (gradientModelVersion : ℤ) (context : CallContext) :
    (Clean settings h (.submit participantId delta gradientModelVersion context) ↔
        Fits settings h.state (.submit participantId delta gradientModelVersion context)) ∧
      (Fits settings h.state (.submit participantId delta gradientModelVersion context) →
        (h.step settings (.submit participantId delta gradientModelVersion context)).Inv) := by
  unfold Clean step AsyncHistory.submit
  dsimp only
  by_cases hstale : settings.maxStaleness < h.state.staleness gradientModelVersion
  · have hfits : Fits settings h.state
        (.submit participantId delta gradientModelVersion context) := by
      intro hle
      omega
    have hsame : SameModel h.state h.state := ⟨rfl, rfl, rfl⟩
    rw [exec_submitUpdate_of_stale settings _ _ _ _ _ hstale]
    have hinv' := hinv.refused UpdateResponse hsame (.value ⟨staleMessage settings h.state
      participantId gradientModelVersion⟩) [h.nextIdentity]
    exact ⟨iff_of_true ⟨fun _ _ => hsame, hinv'.ledger.accounted⟩ hfits, fun _ => hinv'⟩
  · rw [exec_submitUpdate_of_fresh settings _ _ _ _ _ hstale]
    have hlengths := exists_nextWeights_received_iff settings h.state
      ⟨h.nextIdentity, participantId, delta, gradientModelVersion, context.now⟩
    generalize hupdate : (⟨h.nextIdentity, participantId, delta, gradientModelVersion,
      context.now⟩ : AsyncGradientUpdate R) = update at hlengths ⊢
    have hdelta : update.delta = delta := by rw [← hupdate]
    have hidentity : update.identity = h.nextIdentity := by rw [← hupdate]
    have hcount : (h.state.received update).pending.length = h.state.pending.length + 1 :=
      List.length_append
    dsimp only
    by_cases hmany : settings.triggerN ≤ (h.state.received update).pending.length
    · have hfits : Fits settings h.state
            (.submit participantId delta gradientModelVersion context) ↔
          Broadcastable (lengthsWith h.state delta) ∧ context.auditFault = none ∨
            ¬Broadcastable (lengthsWith h.state delta) ∧ h.state.pending = [] := by
        rw [hcount] at hmany
        exact ⟨fun hall => hall (by omega) (by omega), fun hor _ _ => hor⟩
      rw [if_pos hmany, hfits]
      rw [hdelta] at hlengths
      cases hnext : nextWeights settings.krum
          (h.state.globalWeights.getD (List.replicate delta.length 0)) h.state.modelVersion
          (h.state.received update).pending with
      | error e =>
        have hmisfit : ¬Broadcastable (lengthsWith h.state delta) := by
          intro hfit
          obtain ⟨next, hok⟩ := hlengths.mpr hfit
          rw [hnext] at hok
          cases hok
        have hsame := sameModel_of_misfit_iff h update
          (by rw [hdelta]; exact hmisfit)
        have hcond : (Broadcastable (lengthsWith h.state delta) ∧ context.auditFault = none ∨
            ¬Broadcastable (lengthsWith h.state delta) ∧ h.state.pending = []) ↔
              h.state.pending = [] := by simp [hmisfit]
        have hinv' (hempty : h.state.pending = []) :=
          hinv.refused UpdateResponse (hsame.mpr hempty) (.value e) [h.nextIdentity]
        rw [hcond]
        refine ⟨⟨fun hclean => hsame.mp (hclean.1 _ rfl), fun hempty => ?_⟩, hinv'⟩
        exact ⟨fun _ _ => hsame.mpr hempty, (hinv' hempty).ledger.accounted⟩
      | ok next =>
        have hfit := hlengths.mp ⟨next, hnext⟩
        cases hfault : context.auditFault with
        | none =>
          have hinv' := (hinv.received hidentity ⟨true, h.state.modelVersion + 1,
            h.state.staleness gradientModelVersion, true⟩).aggregated next
              (h.state.modelVersion + 1) context.now
          rw [record_received hidentity] at hinv'
          exact ⟨iff_of_true ⟨(fun _ h => nomatch h), hinv'.ledger.accounted⟩ (.inl ⟨hfit, rfl⟩),
            fun _ => hinv'⟩
        | some reason =>
          have hchanged : ¬SameModel h.state
              ⟨some next, h.state.modelVersion + 1, [], context.now⟩ := by
            rintro ⟨hversion, -, -⟩
            dsimp only at hversion
            omega
          have hcond : ¬(Broadcastable (lengthsWith h.state delta) ∧ some reason = none ∨
              ¬Broadcastable (lengthsWith h.state delta) ∧ h.state.pending = []) := by
            simp [hfit]
          exact ⟨iff_of_false (fun hclean => hchanged (hclean.1 _ rfl)) hcond,
            fun h => absurd h hcond⟩
    · have hfits : Fits settings h.state
          (.submit participantId delta gradientModelVersion context) := by
        intro _ hmany'
        omega
      have hinv' := hinv.received hidentity
        ⟨true, h.state.modelVersion, h.state.staleness gradientModelVersion, false⟩
      rw [if_neg hmany]
      exact ⟨iff_of_true ⟨(fun _ h => nomatch h), hinv'.ledger.accounted⟩ hfits, fun _ => hinv'⟩

/-- The timer does what is expected exactly if it meets the condition, and then it keeps the
invariant. -/
theorem Inv.tick (hinv : h.Inv) (context : CallContext) :
    (Clean settings h (.tick context) ↔ Fits settings h.state (.tick context)) ∧
      (Fits settings h.state (.tick context) → (h.step settings (.tick context)).Inv) := by
  have hrecord (r : Except CoordinatorError Bool) (s' : AsyncState R) :
      h.record [] (r, s') =
        { h with
          state := s'
          aggregations :=
            if s'.modelVersion = h.state.modelVersion then h.aggregations
            else h.aggregations ++ [pendingIds h.state] } := by
    unfold record
    cases r <;> simp
  unfold Clean step Fits
  dsimp only
  by_cases hdue : TickDue settings h.state context
  · cases hweights : h.state.globalWeights with
    | none => exact absurd (hinv.weights hweights) hdue.2
    | some weights =>
      have hlengths := exists_nextWeights_iff settings.krum weights h.state.modelVersion hdue.2
      have hfits : (TickDue settings h.state context → ∀ w ∈ some weights,
            Broadcastable (w.length :: h.state.pending.map fun u => u.delta.length)) ↔
          Broadcastable (weights.length :: h.state.pending.map fun u => u.delta.length) :=
        ⟨fun hall => hall hdue weights rfl, fun hb _ w hw => Option.mem_some.mp hw ▸ hb⟩
      rw [exec_tick_of_due settings context hweights hdue, hfits, ← hlengths]
      cases nextWeights settings.krum weights h.state.modelVersion h.state.pending with
      | error e =>
        have hpending : h.ledger.pending ≠ [] := mt List.map_eq_nil_iff.mp hdue.2
        have hlost := hinv.ledger.not_accounted_of_drop hpending
        have hnone : ¬∃ next, (Except.error e : Except ValueError (List R)) = .ok next := by
          rintro ⟨next, hok⟩
          cases hok
        dsimp only
        rw [hrecord, if_pos rfl]
        exact ⟨iff_of_false (fun hclean => hlost hclean.2) hnone, fun hok => absurd hok hnone⟩
      | ok next =>
        have hinv' := hinv.aggregated next (h.state.modelVersion + 1) context.now
        have hnext : h.state.modelVersion + 1 ≠ h.state.modelVersion := by omega
        dsimp only
        rw [hrecord, if_neg hnext]
        exact ⟨iff_of_true ⟨trivial, hinv'.ledger.accounted⟩ ⟨next, rfl⟩, fun _ => hinv'⟩
  · rw [exec_tick_of_not_due settings context hdue, hrecord, if_pos rfl]
    exact ⟨iff_of_true ⟨trivial, hinv.ledger.accounted⟩ fun h => absurd h hdue, fun _ => hinv⟩

/-- In a run of calls all are as expected exactly if all meet the condition. -/
theorem meets_clean_iff (settings : AsyncSettings R) (weightDim : ℕ) (now : ℤ)
    (events : List (AsyncEvent R)) :
    Meets (step settings) (Clean settings) { state := .init weightDim now } events ↔
      Meets (step settings) (fun h => Fits settings h.state) { state := .init weightDim now }
        events := by
  have hevent (h : AsyncHistory R) (event : AsyncEvent R) (hinv : h.Inv) :
      (Clean settings h event ↔ Fits settings h.state event) ∧
        (Fits settings h.state event → (h.step settings event).Inv) := by
    cases event with
    | submit participantId delta gradientModelVersion context =>
      exact hinv.submit participantId delta gradientModelVersion context
    | tick context => exact hinv.tick context
  refine meets_iff_meets Inv (fun h event hinv => (hevent h event hinv).1)
    (fun h event hinv => (hevent h event hinv).2) ?_ events
  exact ⟨.empty, (fun _ h => nomatch h), fun _ => rfl⟩

end AsyncHistory

/-- For both coordinators: in a run all calls are as expected exactly if all meet the condition
on the lengths of their deltas. -/
theorem updates_accounted_iff (config : CoordinatorConfig R) (settings : AsyncSettings R)
    (weightDim : ℕ) (now : ℤ) (submissions : List (String × List R))
    (events : List (AsyncEvent R)) :
    (Meets (RoundHistory.step config) (RoundHistory.Clean config)
        { state := .reset weightDim } submissions ↔
      Meets (RoundHistory.step config) (fun h => RoundHistory.Fits config h.state)
        { state := .reset weightDim } submissions) ∧
    (Meets (AsyncHistory.step settings) (AsyncHistory.Clean settings)
        { state := .init weightDim now } events ↔
      Meets (AsyncHistory.step settings) (fun h => AsyncHistory.Fits settings h.state)
        { state := .init weightDim now } events) :=
  ⟨RoundHistory.meets_clean_iff config weightDim submissions,
    AsyncHistory.meets_clean_iff settings weightDim now events⟩

/-- The default settings of the aggregation. The updates below are too few for the norms to
matter. -/
def defaultKrum : KrumSettings ℚ where
  byzantineTolerance := 1
  clipNorm := 10
  clipNorm_nonneg := by decide
  sqrt := id
  argsort := .stable (WithTop ℚ)

/-- A coordinator whose rounds have three participants. -/
def threeParticipants : CoordinatorConfig ℚ where
  minParticipants := 3
  krum := defaultKrum
  repr := id

/-- An asynchronous coordinator that aggregates three updates. -/
def threeUpdates : AsyncSettings ℚ where
  triggerN := 3
  triggerSeconds := 60
  maxStaleness := 5
  krum := defaultKrum
  repr := id

/-- The deltas of three participants, the last of another length. -/
def misfitDeltas : List (String × List ℚ) := [("a", [1, 2]), ("b", [1, 2]), ("c", [1, 2, 3])]

/-- The last submission of these raises. The synchronous coordinator keeps its delta, and the
asynchronous one loses the two updates that it has accepted. -/
theorem misfit_delta_breaks_accounts :
    ¬Meets (RoundHistory.step threeParticipants) (RoundHistory.Clean threeParticipants)
        { state := .reset 0 } misfitDeltas ∧
      ¬Meets (AsyncHistory.step threeUpdates) (AsyncHistory.Clean threeUpdates)
        { state := .init 0 0 } (misfitDeltas.map fun d => .submit d.1 d.2 0 { now := 0 }) := by
  rw [RoundHistory.meets_clean_iff, AsyncHistory.meets_clean_iff]
  constructor
  · rintro ⟨-, -, hfits, -⟩
    have huniform := (hfits (by decide +kernel) (by decide +kernel)).1
    exact absurd huniform (by decide +kernel)
  · intro hmeets
    obtain ⟨-, -, hfits, -⟩ := hmeets
    rcases hfits (by decide +kernel) (by decide +kernel) with ⟨⟨n, hn⟩, -⟩ | ⟨-, hpending⟩
    · have htwo := hn 2 (by decide +kernel)
      have hthree := hn 3 (by decide +kernel)
      omega
    · exact absurd (congrArg List.length hpending) (by decide +kernel)

end LedgerLens.Federated
