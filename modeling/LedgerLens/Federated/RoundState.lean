import LedgerLens.Federated.Krum
import LedgerLens.Library.Raising
import LedgerLens.Library.UniqueTable

/-!
# The synchronous coordinator

`_RoundState` keeps the deltas of a round until there are enough of them. `submit_delta` adds one
and then tries to aggregate: it first changes the pending deltas, and the aggregation may raise.
-/

namespace LedgerLens.Federated

open NumArray Raising

variable {R : Type} [Field R] [LinearOrder R]

/-- The configuration of the coordinator. -/
structure CoordinatorConfig (R : Type) [Field R] [LinearOrder R] where
  /-- `FED_MIN_PARTICIPANTS`. -/
  minParticipants : ℤ
  /-- The settings of the aggregation. -/
  krum : KrumSettings R
  /-- `repr` of a string. -/
  repr : String → String

/-- What the coordinators raise. -/
inductive CoordinatorError where
  /-- `HTTPException`. -/
  | http (statusCode : ℕ) (detail : String)
  /-- A `ValueError`. -/
  | value (e : ValueError)
  /-- An `AssertionError`. -/
  | assertion
  /-- What the audit trail raises. -/
  | audit (reason : String)
  deriving DecidableEq

/-- `_RoundState`. -/
structure RoundState (R : Type) where
  /-- `round_number`. -/
  roundNumber : ℕ := 0
  /-- `global_weights`. -/
  globalWeights : Option (List R) := none
  /-- `participants`. -/
  participants : List String := []
  /-- `pending`: the masked deltas of each round by their participants. -/
  pending : UniqueTable ℕ (UniqueTable String (List R)) := .empty

/-- The answer to a submission. -/
structure SubmitResponse where
  /-- The round of the submission. -/
  roundNumber : ℕ
  /-- The number of deltas received in it. -/
  deltasReceived : ℕ
  /-- Whether the round is over. -/
  aggregated : Bool
  deriving DecidableEq

/-- A method of the coordinator. -/
abbrev CoordinatorProgram (R α : Type) := Raising (RoundState R) CoordinatorError α

/-- The aggregate of deltas: that of Krum where it can be used, and otherwise their mean. -/
def aggregateDeltas (settings : KrumSettings R) (deltas : List (List R)) :
    Except ValueError (List R) :=
  let mean := (sumRows deltas).map fun total => total.map (· / (deltas.length : R))
  if 3 ≤ (deltas.length : ℤ) - settings.byzantineTolerance then
    match settings.krumAggregate deltas settings.byzantineTolerance 1 with
    | .ok agg => .ok agg
    | .error _ => mean
  else mean

/-- Deltas of one length have an aggregate of that length. -/
theorem aggregateDeltas_of_uniform (settings : KrumSettings R) {deltas : List (List R)}
    (hne : deltas ≠ []) (h : Uniform deltas) :
    ∃ agg, aggregateDeltas settings deltas = .ok agg ∧ ∀ d ∈ deltas, agg.length = d.length := by
  have hmean : ∃ agg, ((sumRows deltas).map fun total => total.map (· / (deltas.length : R))) =
      .ok agg ∧ ∀ d ∈ deltas, agg.length = d.length := by
    unfold sumRows
    rw [if_pos h]
    exact ⟨_, rfl, fun d hd => (List.length_map _).trans (length_addRows h hd)⟩
  unfold aggregateDeltas
  dsimp only
  split_ifs with hsafe
  · obtain ⟨u, hu, hkrum⟩ := settings.krumAggregate_of_uniform hsafe hne h
    rw [hkrum]
    exact ⟨_, rfl, fun d hd => (settings.length_clip u).trans (h u hu d hd)⟩
  · exact hmean

/-- Deltas of different lengths have none. -/
theorem aggregateDeltas_of_not_uniform (settings : KrumSettings R) {deltas : List (List R)}
    (h : ¬Uniform deltas) : ∃ e, aggregateDeltas settings deltas = .error e := by
  obtain ⟨e, hkrum⟩ := settings.krumAggregate_of_not_uniform settings.byzantineTolerance 1 h
  unfold aggregateDeltas sumRows
  rw [hkrum, if_neg h]
  split_ifs <;> exact ⟨_, rfl⟩

namespace RoundState

/-- `reset_state`: the weights are zeros if their number is known. -/
def reset (weightDim : ℕ) : RoundState R where
  globalWeights := if 0 < weightDim then some (List.replicate weightDim 0) else none

/-- `register`. -/
def register (pid : String) (s : RoundState R) : RoundState R :=
  if pid ∈ s.participants then s else { s with participants := s.participants ++ [pid] }

/-- The first delta determines the number of weights, unless it is known. -/
def initialiseWeights (delta : List R) (s : RoundState R) : RoundState R :=
  match s.globalWeights with
  | some _ => s
  | none => { s with globalWeights := some (List.replicate delta.length 0) }

/-- The pending deltas of the current round. -/
def deltas (s : RoundState R) : UniqueTable String (List R) :=
  (s.pending.find? s.roundNumber).getD .empty

/-- `current_pending`: `setdefault` makes an entry for the round if there is none. -/
def currentPending : CoordinatorProgram R (UniqueTable String (List R)) := do
  let s ← get
  match s.pending.find? s.roundNumber with
  | some deltas => pure deltas
  | none => do
    modify fun s => { s with pending := s.pending.put s.roundNumber .empty }
    pure .empty

/-- `_aggregate`. -/
def aggregate (settings : KrumSettings R) (maskedDeltas : List (List R)) :
    CoordinatorProgram R Unit := do
  let agg ← Raising.ofExcept ((aggregateDeltas settings maskedDeltas).mapError .value)
  let s ← get
  let weights ← Raising.ofExcept
    (match s.globalWeights with
      | none => .ok agg
      | some weights => (add weights agg).mapError .value)
  modify fun s => { s with globalWeights := some weights, roundNumber := s.roundNumber + 1 }

/-- `try_aggregate`. -/
def tryAggregate (config : CoordinatorConfig R) : CoordinatorProgram R Bool := do
  let pending ← currentPending
  if (pending.rows.length : ℤ) < config.minParticipants then pure false
  else do
    aggregate config.krum (pending.rows.map Prod.snd)
    pure true

/-- `submit_delta`. -/
def submitDelta (config : CoordinatorConfig R) (pid : String) (delta : List R) :
    CoordinatorProgram R SubmitResponse := do
  modify (register pid)
  modify (initialiseWeights delta)
  let pending ← currentPending
  let s ← get
  match pending.find? pid with
  | some _ =>
    throw (.http 409 ("Participant " ++ config.repr pid ++ " already submitted for round " ++
      toString s.roundNumber ++ "."))
  | none => do
    modify fun s =>
      { s with pending := s.pending.modify s.roundNumber fun pending => pending.put pid delta }
    let nReceived := (pending.put pid delta).rows.length
    let aggregated ← tryAggregate config
    let s ← get
    pure ⟨s.roundNumber - (if aggregated then 1 else 0), nReceived, aggregated⟩

/-- The state after the first steps of a submission. -/
def prepared (s : RoundState R) (pid : String) (delta : List R) : RoundState R :=
  let s := initialiseWeights delta (register pid s)
  { s with pending := if (s.pending.find? s.roundNumber).isSome then s.pending
      else s.pending.put s.roundNumber .empty }

/-- The state when a delta has been added. -/
def stored (s : RoundState R) (pid : String) (delta : List R) : RoundState R :=
  let s := prepared s pid delta
  { s with pending := s.pending.modify s.roundNumber fun pending => pending.put pid delta }

variable {s : RoundState R} {pid : String} {delta : List R}

omit [Field R] [LinearOrder R] in
theorem exec_currentPending (s : RoundState R) :
    exec currentPending s = (.ok s.deltas,
      { s with pending := if (s.pending.find? s.roundNumber).isSome then s.pending
          else s.pending.put s.roundNumber .empty }) := by
  unfold currentPending deltas
  rw [exec_bind_of_ok (exec_get s)]
  cases s.pending.find? s.roundNumber <;> rfl

omit [LinearOrder R] in
@[simp] theorem roundNumber_prepared (s : RoundState R) (pid : String) (delta : List R) :
    (s.prepared pid delta).roundNumber = s.roundNumber := by
  unfold prepared initialiseWeights register
  split_ifs <;> cases s.globalWeights <;> rfl

omit [LinearOrder R] in
@[simp] theorem globalWeights_prepared (s : RoundState R) (pid : String) (delta : List R) :
    (s.prepared pid delta).globalWeights =
      some (s.globalWeights.getD (List.replicate delta.length 0)) := by
  unfold prepared initialiseWeights register
  split_ifs <;> cases hweights : s.globalWeights <;> simp [hweights]

omit [LinearOrder R] in
/-- The first steps of a submission make an entry for the round. -/
theorem find?_pending_prepared (s : RoundState R) (pid : String) (delta : List R) (round : ℕ) :
    (s.prepared pid delta).pending.find? round =
      if round = s.roundNumber then some s.deltas else s.pending.find? round := by
  have hround : (initialiseWeights delta (register pid s)).roundNumber = s.roundNumber :=
    roundNumber_prepared s pid delta
  have hpending : (initialiseWeights delta (register pid s)).pending = s.pending := by
    unfold initialiseWeights register
    split_ifs <;> cases s.globalWeights <;> rfl
  unfold prepared deltas
  dsimp only
  rw [hround, hpending]
  cases hfind : s.pending.find? s.roundNumber with
  | some deltas =>
    rw [if_pos (Option.isSome_some)]
    by_cases heq : round = s.roundNumber
    · rw [if_pos heq, heq, hfind]
      rfl
    · rw [if_neg heq]
  | none =>
    rw [if_neg (by simp), UniqueTable.find?_put]
    rfl

omit [LinearOrder R] in
@[simp] theorem deltas_prepared (s : RoundState R) (pid : String) (delta : List R) :
    (s.prepared pid delta).deltas = s.deltas := by
  rw [deltas, roundNumber_prepared, find?_pending_prepared, if_pos rfl]
  rfl

omit [LinearOrder R] in
/-- A submission adds its delta to the entry for the round. -/
theorem find?_pending_stored (s : RoundState R) (pid : String) (delta : List R) (round : ℕ) :
    (s.stored pid delta).pending.find? round =
      if round = s.roundNumber then some (s.deltas.put pid delta)
      else s.pending.find? round := by
  unfold stored
  dsimp only
  rw [UniqueTable.find?_modify, roundNumber_prepared]
  by_cases heq : round = s.roundNumber
  · rw [if_pos heq, if_pos heq, find?_pending_prepared, if_pos rfl]
    rfl
  · rw [if_neg heq, if_neg heq, find?_pending_prepared, if_neg heq]

omit [LinearOrder R] in
@[simp] theorem roundNumber_stored (s : RoundState R) (pid : String) (delta : List R) :
    (s.stored pid delta).roundNumber = s.roundNumber :=
  roundNumber_prepared s pid delta

omit [LinearOrder R] in
@[simp] theorem deltas_stored (s : RoundState R) (pid : String) (delta : List R) :
    (s.stored pid delta).deltas = s.deltas.put pid delta := by
  rw [deltas, roundNumber_stored, find?_pending_stored, if_pos rfl]
  rfl

/-- The weights after an aggregation. -/
def nextWeights (settings : KrumSettings R) (weights : Option (List R)) (deltas : List (List R)) :
    Except ValueError (List R) := do
  let agg ← aggregateDeltas settings deltas
  match weights with
  | none => .ok agg
  | some weights => add weights agg

/-- An aggregation succeeds exactly if the deltas have one length and it fits the weights. -/
theorem exists_nextWeights_iff (settings : KrumSettings R) (weights : List R)
    {deltas : List (List R)} {delta : List R} (hdelta : delta ∈ deltas) :
    (∃ next, nextWeights settings (some weights) deltas = .ok next) ↔
      Uniform deltas ∧ Broadcastable [weights.length, delta.length] := by
  unfold nextWeights
  by_cases huniform : Uniform deltas
  · obtain ⟨agg, hagg, hlength⟩ :=
      aggregateDeltas_of_uniform settings (List.ne_nil_of_mem hdelta) huniform
    rw [hagg, ← hlength delta hdelta]
    exact (exists_add_iff weights agg).trans (and_iff_right huniform).symm
  · obtain ⟨e, hagg⟩ := aggregateDeltas_of_not_uniform settings huniform
    rw [hagg]
    refine iff_of_false ?_ fun h => huniform h.1
    rintro ⟨next, h⟩
    cases h

/-- What an aggregation does. -/
theorem exec_aggregate (settings : KrumSettings R) (maskedDeltas : List (List R))
    (s : RoundState R) :
    exec (aggregate settings maskedDeltas) s =
      match nextWeights settings s.globalWeights maskedDeltas with
      | .error e => (.error (.value e), s)
      | .ok weights => (.ok (),
          { s with globalWeights := some weights, roundNumber := s.roundNumber + 1 }) := by
  unfold aggregate nextWeights
  rw [exec_bind, exec_ofExcept]
  cases aggregateDeltas settings maskedDeltas with
  | error e => rfl
  | ok agg =>
    dsimp only [Except.mapError]
    rw [exec_bind_of_ok (exec_get s), exec_bind, exec_ofExcept]
    cases s.globalWeights with
    | none => rfl
    | some weights =>
      dsimp only
      have hbind : (Except.ok agg >>= fun agg => add weights agg) = add weights agg := rfl
      rw [hbind]
      cases add weights agg <;> rfl

omit [LinearOrder R] in
/-- The first steps of a submission. -/
theorem exec_prepare {α : Type} (s : RoundState R) (pid : String) (delta : List R)
    (rest : UniqueTable String (List R) → CoordinatorProgram R α) :
    exec (do
        modify (register pid)
        modify (initialiseWeights delta)
        let pending ← currentPending
        rest pending) s = exec (rest s.deltas) (s.prepared pid delta) := by
  rw [exec_bind_of_ok (exec_modify _ s), exec_bind_of_ok (exec_modify _ _),
    exec_bind_of_ok (exec_currentPending _)]
  have hdeltas : (initialiseWeights delta (register pid s)).deltas = s.deltas := by
    unfold deltas initialiseWeights register
    split_ifs <;> cases s.globalWeights <;> rfl
  rw [hdeltas]
  rfl

/-- What a submission does that finds another delta of its participant. -/
theorem exec_submitDelta_of_duplicate (config : CoordinatorConfig R) {earlier : List R}
    (hdup : s.deltas.find? pid = some earlier) :
    exec (submitDelta config pid delta) s =
      (.error (.http 409 ("Participant " ++ config.repr pid ++ " already submitted for round " ++
        toString s.roundNumber ++ ".")), s.prepared pid delta) := by
  unfold submitDelta
  rw [exec_prepare, exec_bind_of_ok (exec_get _), hdup, roundNumber_prepared]
  rfl

/-- What `try_aggregate` does when a delta has been added. -/
theorem exec_tryAggregate (config : CoordinatorConfig R) (s : RoundState R) (pid : String)
    (delta : List R) :
    exec (tryAggregate config) (s.stored pid delta) =
      let received := (s.deltas.put pid delta).rows
      if (received.length : ℤ) < config.minParticipants then (.ok false, s.stored pid delta)
      else
        match nextWeights config.krum (s.stored pid delta).globalWeights
          (received.map Prod.snd) with
        | .error e => (.error (.value e), s.stored pid delta)
        | .ok weights => (.ok true, { s.stored pid delta with
            globalWeights := some weights, roundNumber := s.roundNumber + 1 }) := by
  have hpending : (s.stored pid delta).pending.find? (s.stored pid delta).roundNumber =
      some (s.deltas.put pid delta) := by
    rw [roundNumber_stored, find?_pending_stored, if_pos rfl]
  unfold tryAggregate
  rw [exec_bind_of_ok (exec_currentPending _), hpending, deltas_stored,
    if_pos Option.isSome_some]
  dsimp only
  split_ifs with hfew
  · rfl
  · rw [exec_bind, exec_aggregate]
    cases nextWeights config.krum (s.stored pid delta).globalWeights
      ((s.deltas.put pid delta).rows.map Prod.snd) with
    | error e => rfl
    | ok weights =>
      dsimp only
      rw [roundNumber_stored]
      rfl

/-- What a submission does that is the first of its participant. -/
theorem exec_submitDelta_of_new (config : CoordinatorConfig R) (hnew : s.deltas.find? pid = none) :
    exec (submitDelta config pid delta) s =
      let received := (s.deltas.put pid delta).rows
      if (received.length : ℤ) < config.minParticipants then
        (.ok ⟨s.roundNumber, received.length, false⟩, s.stored pid delta)
      else
        match nextWeights config.krum (s.stored pid delta).globalWeights
          (received.map Prod.snd) with
        | .error e => (.error (.value e), s.stored pid delta)
        | .ok weights => (.ok ⟨s.roundNumber, received.length, true⟩,
            { s.stored pid delta with
              globalWeights := some weights, roundNumber := s.roundNumber + 1 }) := by
  unfold submitDelta
  rw [exec_prepare, exec_bind_of_ok (exec_get _), hnew]
  dsimp only
  rw [exec_bind_of_ok (exec_modify _ _)]
  have hstored : { s.prepared pid delta with
      pending := (s.prepared pid delta).pending.modify (s.prepared pid delta).roundNumber
        fun pending => pending.put pid delta } = s.stored pid delta := rfl
  rw [hstored, exec_bind, exec_tryAggregate]
  dsimp only
  split_ifs with hfew
  · dsimp only
    rw [exec_bind_of_ok (exec_get _), roundNumber_stored]
    rfl
  · cases nextWeights config.krum (s.stored pid delta).globalWeights
      ((s.deltas.put pid delta).rows.map Prod.snd) <;> rfl

end RoundState

end LedgerLens.Federated
