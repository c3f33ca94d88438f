import LedgerLens.Federated.RoundState

/-!
# The asynchronous coordinator

`AsyncFederatedCoordinator` aggregates whenever a number of updates are pending, and when a timer
has run out. It empties the list of pending updates before it adds them up, which may raise.
-/

namespace LedgerLens.Federated

open NumArray Raising

variable {R : Type} [Field R] [LinearOrder R]

/-- The configuration of an asynchronous coordinator. -/
structure AsyncSettings (R : Type) [Field R] [LinearOrder R] where
  /-- `trigger_n`. -/
  triggerN : ℤ
  /-- `trigger_seconds`. -/
  triggerSeconds : ℤ
  /-- `max_staleness`. -/
  maxStaleness : ℤ
  /-- The settings of the aggregation. -/
  krum : KrumSettings R
  /-- `repr` of a string. -/
  repr : String → String

/-- `AsyncGradientUpdate`. -/
structure AsyncGradientUpdate (R : Type) where
  /-- The identity of the object, which the code does not read. -/
  identity : ℕ
  /-- `participant_id`. -/
  participantId : String
  /-- `delta`. -/
  delta : List R
  /-- `gradient_model_version`. -/
  gradientModelVersion : ℤ
  /-- `received_at`. -/
  receivedAt : ℤ

/-- `AsyncFederatedCoordinator`. -/
structure AsyncState (R : Type) where
  /-- `_global_weights`. -/
  globalWeights : Option (List R) := none
  /-- `_model_version`. -/
  modelVersion : ℕ := 0
  /-- `_pending`. -/
  pending : List (AsyncGradientUpdate R) := []
  /-- `_last_aggregation_time`. -/
  lastAggregationTime : ℤ

/-- The answer to an update. -/
structure UpdateResponse where
  /-- `accepted`. -/
  accepted : Bool := true
  /-- `current_model_version`. -/
  currentModelVersion : ℕ
  /-- `staleness`. -/
  staleness : ℤ
  /-- `aggregated`. -/
  aggregated : Bool
  deriving DecidableEq

/-- A method of the coordinator, called with the lock. -/
abbrev AsyncProgram (R α : Type) := Raising (AsyncState R) CoordinatorError α

/-- What a call meets: the reading of the clock, and what the audit trail raises if there is one
and it fails. -/
structure CallContext where
  /-- `time.monotonic()`. -/
  now : ℤ
  /-- The failure of the audit trail. -/
  auditFault : Option String := none

namespace AsyncState

/-- `__init__`. -/
def init (weightDim : ℕ) (now : ℤ) : AsyncState R where
  globalWeights := if 0 < weightDim then some (List.replicate weightDim 0) else none
  lastAggregationTime := now

/-- The weight of an update by its staleness. -/
def stalenessWeight (modelVersion : ℕ) (u : AsyncGradientUpdate R) : R :=
  1 / (1 + ((max 0 ((modelVersion : ℤ) - u.gradientModelVersion) : ℤ) : R))

/-- The deltas with their normalised weights. -/
def weightedDeltas (modelVersion : ℕ) (updates : List (AsyncGradientUpdate R)) : List (List R) :=
  let totalWeight := (updates.map (stalenessWeight modelVersion)).sum
  updates.map fun u => u.delta.map (stalenessWeight modelVersion u / totalWeight * ·)

/-- The aggregate of weighted deltas: that of Krum where it can be used, and otherwise their
sum. -/
def aggregateWeighted (settings : KrumSettings R) (weighted : List (List R)) :
    Except ValueError (List R) :=
  if 3 ≤ (weighted.length : ℤ) - settings.byzantineTolerance then
    match settings.krumAggregate weighted settings.byzantineTolerance 1 with
    | .ok agg => .ok agg
    | .error _ => sumArrays weighted
  else sumArrays weighted

/-- `_aggregate`. -/
def aggregate (settings : KrumSettings R) (context : CallContext) : AsyncProgram R Bool := do
  let s ← get
  match s.pending with
  | [] => pure false
  | updates => do
    modify fun s => { s with pending := [] }
    let agg ← Raising.ofExcept
      ((aggregateWeighted settings (weightedDeltas s.modelVersion updates)).mapError .value)
    let weights ← Raising.ofExcept
      (match s.globalWeights with
        | none => .error .assertion
        | some weights => (add weights agg).mapError .value)
    modify fun s =>
      { s with
        globalWeights := some weights
        modelVersion := s.modelVersion + 1
        lastAggregationTime := context.now }
    match context.auditFault with
    | some reason => throw (.audit reason)
    | none => pure true

/-- `_maybe_aggregate`. -/
def maybeAggregate (settings : AsyncSettings R) (context : CallContext) : AsyncProgram R Bool := do
  let s ← get
  if settings.triggerN ≤ s.pending.length then aggregate settings.krum context
  else pure false

/-- The staleness of an update. -/
def staleness (s : AsyncState R) (gradientModelVersion : ℤ) : ℤ :=
  if (s.modelVersion : ℤ) - gradientModelVersion < 0 then 0
  else (s.modelVersion : ℤ) - gradientModelVersion

/-- The message for an update that is too old. -/
def staleMessage (settings : AsyncSettings R) (s : AsyncState R) (participantId : String)
    (gradientModelVersion : ℤ) : String :=
  "Update from " ++ settings.repr participantId ++ " rejected: staleness " ++
    toString (s.staleness gradientModelVersion) ++ " exceeds max_staleness " ++
    toString settings.maxStaleness ++ " (gradient_model_version=" ++
    toString gradientModelVersion ++ ", current_model_version=" ++ toString s.modelVersion ++ ")"

/-- The state when an update has been added. The first one determines the number of weights,
unless it is known. -/
def received (s : AsyncState R) (update : AsyncGradientUpdate R) : AsyncState R :=
  { s with
    globalWeights := some (s.globalWeights.getD (List.replicate update.delta.length 0))
    pending := s.pending ++ [update] }

/-- `submit_update`. -/
def submitUpdate (settings : AsyncSettings R) (identity : ℕ) (participantId : String)
    (delta : List R) (gradientModelVersion : ℤ) (context : CallContext) :
    AsyncProgram R UpdateResponse := do
  let s ← get
  let staleness := s.staleness gradientModelVersion
  if settings.maxStaleness < staleness then
    throw (.value ⟨staleMessage settings s participantId gradientModelVersion⟩)
  else do
    modify fun s =>
      s.received ⟨identity, participantId, delta, gradientModelVersion, context.now⟩
    let aggregated ← maybeAggregate settings context
    let s ← get
    pure { currentModelVersion := s.modelVersion, staleness := staleness, aggregated := aggregated }

/-- `tick`. -/
def tick (settings : AsyncSettings R) (context : CallContext) : AsyncProgram R Bool := do
  let s ← get
  let elapsed := context.now - s.lastAggregationTime
  if settings.triggerSeconds ≤ elapsed ∧ s.pending ≠ [] then aggregate settings.krum context
  else pure false

/-- The weights after an aggregation. -/
def nextWeights (settings : KrumSettings R) (weights : List R) (modelVersion : ℕ)
    (updates : List (AsyncGradientUpdate R)) : Except ValueError (List R) := do
  let agg ← aggregateWeighted settings (weightedDeltas modelVersion updates)
  add weights agg

variable {s : AsyncState R}

/-- What an aggregation of some updates does. -/
theorem exec_aggregate (settings : KrumSettings R) (context : CallContext) {weights : List R}
    (hweights : s.globalWeights = some weights) (hpending : s.pending ≠ []) :
    exec (aggregate settings context) s =
      match nextWeights settings weights s.modelVersion s.pending with
      | .error e => (.error (.value e), { s with pending := [] })
      | .ok next =>
        (match context.auditFault with
          | some reason => .error (.audit reason)
          | none => .ok true,
          { globalWeights := some next, modelVersion := s.modelVersion + 1, pending := [],
            lastAggregationTime := context.now }) := by
  obtain ⟨globalWeights, modelVersion, pending, lastAggregationTime⟩ := s
  dsimp only at hweights hpending
  obtain ⟨update, rest, rfl⟩ := List.exists_cons_of_ne_nil hpending
  subst hweights
  unfold aggregate nextWeights
  rw [exec_bind_of_ok (exec_get _)]
  dsimp only
  rw [exec_bind_of_ok (exec_modify _ _), exec_bind, exec_ofExcept]
  cases aggregateWeighted settings (weightedDeltas modelVersion (update :: rest)) with
  | error e => rfl
  | ok agg =>
    dsimp only [Except.mapError]
    rw [exec_bind, exec_ofExcept]
    have hbind : (Except.ok agg >>= fun agg => add weights agg) = add weights agg := rfl
    rw [hbind]
    cases add weights agg with
    | error e => rfl
    | ok next => cases context.auditFault <;> rfl

/-- What an update does that is too old. -/
theorem exec_submitUpdate_of_stale (settings : AsyncSettings R) (identity : ℕ)
    (participantId : String) (delta : List R) (gradientModelVersion : ℤ) (context : CallContext)
    (hstale : settings.maxStaleness < s.staleness gradientModelVersion) :
    exec (submitUpdate settings identity participantId delta gradientModelVersion context) s =
      (.error (.value ⟨staleMessage settings s participantId gradientModelVersion⟩), s) := by
  unfold submitUpdate
  rw [exec_bind_of_ok (exec_get s)]
  dsimp only
  rw [if_pos hstale]
  rfl

/-- What an update does that is recent enough. -/
theorem exec_submitUpdate_of_fresh (settings : AsyncSettings R) (identity : ℕ)
    (participantId : String) (delta : List R) (gradientModelVersion : ℤ) (context : CallContext)
    (hfresh : ¬settings.maxStaleness < s.staleness gradientModelVersion) :
    exec (submitUpdate settings identity participantId delta gradientModelVersion context) s =
      let received :=
        s.received ⟨identity, participantId, delta, gradientModelVersion, context.now⟩
      if settings.triggerN ≤ received.pending.length then
        match nextWeights settings.krum (s.globalWeights.getD (List.replicate delta.length 0))
          s.modelVersion received.pending with
        | .error e => (.error (.value e), { received with pending := [] })
        | .ok next =>
          (match context.auditFault with
            | some reason => .error (.audit reason)
            | none => .ok ⟨true, s.modelVersion + 1, s.staleness gradientModelVersion, true⟩,
            { globalWeights := some next, modelVersion := s.modelVersion + 1, pending := [],
              lastAggregationTime := context.now })
      else
        (.ok ⟨true, s.modelVersion, s.staleness gradientModelVersion, false⟩, received) := by
  unfold submitUpdate maybeAggregate
  rw [exec_bind_of_ok (exec_get s)]
  dsimp only
  rw [if_neg hfresh, exec_bind_of_ok (exec_modify _ _), exec_bind,
    exec_bind_of_ok (exec_get _)]
  split_ifs with hmany
  · have hpending : (s.received ⟨identity, participantId, delta, gradientModelVersion,
        context.now⟩).pending ≠ [] := List.append_ne_nil_of_right_ne_nil _ (List.cons_ne_nil _ _)
    rw [exec_aggregate settings.krum context rfl hpending]
    cases hnext : nextWeights settings.krum
        (s.globalWeights.getD (List.replicate delta.length 0)) s.modelVersion
        (s.received
          ⟨identity, participantId, delta, gradientModelVersion, context.now⟩).pending with
    | error e =>
      unfold received at hnext ⊢
      dsimp only at hnext ⊢
      rw [hnext]
    | ok next =>
      unfold received at hnext ⊢
      dsimp only at hnext ⊢
      rw [hnext]
      cases context.auditFault <;> rfl
  · rfl

/-- The timer has run out and updates are pending. -/
def TickDue (settings : AsyncSettings R) (s : AsyncState R) (context : CallContext) : Prop :=
  settings.triggerSeconds ≤ context.now - s.lastAggregationTime ∧ s.pending ≠ []

/-- What the timer does when it has run out. -/
theorem exec_tick_of_due (settings : AsyncSettings R) (context : CallContext) {weights : List R}
    (hweights : s.globalWeights = some weights) (hdue : TickDue settings s context) :
    exec (tick settings context) s =
      match nextWeights settings.krum weights s.modelVersion s.pending with
      | .error e => (.error (.value e), { s with pending := [] })
      | .ok next =>
        (match context.auditFault with
          | some reason => .error (.audit reason)
          | none => .ok true,
          { globalWeights := some next, modelVersion := s.modelVersion + 1, pending := [],
            lastAggregationTime := context.now }) := by
  unfold TickDue at hdue
  unfold tick
  rw [exec_bind_of_ok (exec_get s)]
  dsimp only
  rw [if_pos hdue]
  exact exec_aggregate settings.krum context hweights hdue.2

/-- What it does otherwise. -/
theorem exec_tick_of_not_due (settings : AsyncSettings R) (context : CallContext)
    (hdue : ¬TickDue settings s context) : exec (tick settings context) s = (.ok false, s) := by
  unfold TickDue at hdue
  unfold tick
  rw [exec_bind_of_ok (exec_get s)]
  dsimp only
  rw [if_neg hdue]
  rfl

omit [LinearOrder R] in
/-- The lengths of the weighted deltas. -/
theorem map_length_weightedDeltas (modelVersion : ℕ) (updates : List (AsyncGradientUpdate R)) :
    (weightedDeltas modelVersion updates).map List.length =
      updates.map fun u => u.delta.length := by
  unfold weightedDeltas
  simp [Function.comp_def]

/-- An aggregation succeeds exactly if the lengths of the updates and of the weights fit. -/
theorem exists_nextWeights_iff (settings : KrumSettings R) (weights : List R) (modelVersion : ℕ)
    {updates : List (AsyncGradientUpdate R)} (hne : updates ≠ []) :
    (∃ next, nextWeights settings weights modelVersion updates = .ok next) ↔
      Broadcastable (weights.length :: updates.map fun u => u.delta.length) := by
  have hweighted : weightedDeltas modelVersion updates ≠ [] := mt List.map_eq_nil_iff.mp hne
  rw [← map_length_weightedDeltas modelVersion updates]
  unfold nextWeights aggregateWeighted
  split_ifs with hsafe
  · by_cases huniform : Uniform (weightedDeltas modelVersion updates)
    · obtain ⟨u, hu, hkrum⟩ := settings.krumAggregate_of_uniform hsafe hweighted huniform
      rw [hkrum, broadcastable_cons_iff huniform hu, ← settings.length_clip u]
      exact exists_add_iff weights (settings.clip u)
    · obtain ⟨e, hkrum⟩ :=
        settings.krumAggregate_of_not_uniform settings.byzantineTolerance 1 huniform
      rw [hkrum]
      exact exists_sumArrays_iff weights hweighted
  · exact exists_sumArrays_iff weights hweighted

end AsyncState

end LedgerLens.Federated
