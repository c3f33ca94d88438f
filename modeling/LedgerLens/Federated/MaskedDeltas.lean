import LedgerLens.Federated.PairwiseMasks
import LedgerLens.Federated.RoundState
import Mathlib.Data.Finset.Sort

/-!
# A round with masked deltas

In `run_round` a participant fetches the list of participants, makes masks for all of them and
submits its delta with its own mask. The round is over with the submission that completes the
quorum, and what it adds to the weights is the aggregate of the first submissions.
-/

namespace LedgerLens.Federated

open NumArray Raising RoundState

variable {R : Type} [Field R] [LinearOrder R] {dim : ℕ}

/-- `sorted` of a set. -/
def sorted (ids : Finset String) : List String := ids.sort (· ≤ ·)

/-- `sorted(set(peers) | {self.participant_id})`. -/
def allIds (peers : List String) (participantId : String) : List String :=
  sorted (insert participantId peers.toFinset)

/-- The delta that a participant submits. Its identifier is one of those that get a mask. -/
def maskedDelta {A : Type} [AddCommGroup A] (peers : List String) (participantId : String)
    (compressedDelta : A) (draws : PairDraws A) : A :=
  let masks := generateMasks (allIds peers participantId) draws
  maskDelta compressedDelta ((masks.find? participantId).getD 0)

/-- What `run_round` does with the coordinator when the compressed delta is known. -/
def runRound (config : CoordinatorConfig R) (participantId : String)
    (compressedDelta : Fin dim → R) (draws : PairDraws (Fin dim → R)) :
    CoordinatorProgram R SubmitResponse := do
  let s ← get
  match s.globalWeights with
  | none => throw (.http 503 "No global model yet; wait for the first aggregation round.")
  | some _ =>
    submitDelta config participantId
      (List.ofFn (maskedDelta s.participants participantId compressedDelta draws))

/-- The coordinator when the round is over: participants submit until the round number changes. -/
def closeRound (config : CoordinatorConfig R) (deltas : String → Fin dim → R)
    (draws : String → PairDraws (Fin dim → R)) : RoundState R → List String → RoundState R
  | s, [] => s
  | s, pid :: rest =>
    let s' := (exec (runRound config pid (deltas pid) (draws pid)) s).2
    if s'.roundNumber = s.roundNumber then closeRound config deltas draws s' rest else s'

/-- The number of submissions that end a round. -/
def CoordinatorConfig.quorum (config : CoordinatorConfig R) : ℕ :=
  max 1 config.minParticipants.toNat

theorem mem_sorted {ids : Finset String} {pid : String} : pid ∈ sorted ids ↔ pid ∈ ids :=
  Finset.mem_sort _

theorem nodup_sorted (ids : Finset String) : (sorted ids).Nodup := Finset.sort_nodup ids _

theorem length_sorted (ids : Finset String) : (sorted ids).length = ids.card :=
  Finset.length_sort _

theorem mem_allIds (peers : List String) (participantId : String) :
    participantId ∈ allIds peers participantId :=
  mem_sorted.mpr (Finset.mem_insert_self _ _)

theorem nodup_allIds (peers : List String) (participantId : String) :
    (allIds peers participantId).Nodup := nodup_sorted _

/-- A registered participant makes masks for the registered participants. -/
theorem allIds_of_mem {peers : List String} {participantId : String}
    (hmem : participantId ∈ peers) : allIds peers participantId = sorted peers.toFinset := by
  unfold allIds
  rw [Finset.insert_eq_of_mem (List.mem_toFinset.mpr hmem)]

/-- The submitted delta is the sum of the delta and the participant's mask. -/
theorem maskedDelta_eq {A : Type} [AddCommGroup A] (peers : List String) (participantId : String)
    (compressedDelta : A) (draws : PairDraws A) :
    maskedDelta peers participantId compressedDelta draws =
      compressedDelta + netMask (allIds peers participantId) draws participantId := by
  unfold maskedDelta maskDelta
  dsimp only
  rw [find?_generateMasks, if_pos (mem_allIds peers participantId)]
  rfl

omit [LinearOrder R] in
/-- A sum of arrays of the same shape. -/
theorem zipWith_add_ofFn (u v : Fin dim → R) :
    (List.ofFn u).zipWith (· + ·) (List.ofFn v) = List.ofFn (u + v) := by
  refine List.ext_getElem (by simp) fun i _ _ => ?_
  simp

omit [LinearOrder R] in
theorem add_ofFn (u v : Fin dim → R) :
    add (List.ofFn u) (List.ofFn v) = .ok (List.ofFn (u + v)) := by
  unfold add
  rw [if_pos (by simp), zipWith_add_ofFn]

omit [Field R] [LinearOrder R] in
/-- Arrays of the same shape have one length. -/
theorem uniform_map_ofFn (vs : List (Fin dim → R)) : Uniform (vs.map List.ofFn) := by
  intro a ha b hb
  obtain ⟨u, -, rfl⟩ := List.mem_map.mp ha
  obtain ⟨v, -, rfl⟩ := List.mem_map.mp hb
  rw [List.length_ofFn, List.length_ofFn]

omit [LinearOrder R] in
/-- The sum of arrays of the same shape. -/
theorem addRows_map_ofFn {vs : List (Fin dim → R)} (hne : vs ≠ []) :
    addRows (vs.map List.ofFn) = List.ofFn vs.sum := by
  induction vs with
  | nil => exact absurd rfl hne
  | cons v rest ih =>
    cases rest with
    | nil => simp [addRows]
    | cons v' rest =>
      have hrest := ih (List.cons_ne_nil v' rest)
      have hrows : addRows ((v :: v' :: rest).map List.ofFn) =
          (List.ofFn v).zipWith (· + ·) (addRows ((v' :: rest).map List.ofFn)) := rfl
      rw [hrows, hrest, zipWith_add_ofFn]
      exact congrArg List.ofFn List.sum_cons.symm

/-- Arrays of the same shape have an aggregate of that shape. -/
theorem exists_aggregateDeltas_ofFn (settings : KrumSettings R) {vs : List (Fin dim → R)}
    (hne : vs ≠ []) :
    ∃ agg : Fin dim → R, aggregateDeltas settings (vs.map List.ofFn) = .ok (List.ofFn agg) := by
  obtain ⟨v, hv⟩ := List.exists_mem_of_ne_nil vs hne
  have hdeltas : vs.map List.ofFn ≠ [] := mt List.map_eq_nil_iff.mp hne
  obtain ⟨agg, hagg, hlength⟩ :=
    aggregateDeltas_of_uniform settings hdeltas (uniform_map_ofFn vs)
  have hdim : agg.length = dim :=
    (hlength _ (List.mem_map_of_mem hv)).trans (List.length_ofFn)
  subst hdim
  exact ⟨agg.get, by rw [hagg, List.ofFn_get]⟩

/-- Without Krum the aggregate is the mean. -/
theorem aggregateDeltas_of_few (settings : KrumSettings R) {vs : List (Fin dim → R)}
    (hne : vs ≠ []) (hfew : ¬3 ≤ (vs.length : ℤ) - settings.byzantineTolerance) :
    aggregateDeltas settings (vs.map List.ofFn) =
      .ok (List.ofFn fun i => vs.sum i / (vs.length : R)) := by
  unfold aggregateDeltas sumRows
  dsimp only
  rw [List.length_map, if_neg hfew, if_pos (uniform_map_ofFn vs), addRows_map_ofFn hne]
  refine congrArg Except.ok (List.ext_getElem (by simp) fun i _ _ => ?_)
  simp

/-- With Krum it is one of the arrays, clipped. -/
theorem aggregateDeltas_of_many (settings : KrumSettings R) {vs : List (Fin dim → R)}
    (hne : vs ≠ []) (hmany : 3 ≤ (vs.length : ℤ) - settings.byzantineTolerance) :
    ∃ v ∈ vs, aggregateDeltas settings (vs.map List.ofFn) =
      .ok (settings.clip (List.ofFn v)) := by
  have hlength : 3 ≤ ((vs.map List.ofFn).length : ℤ) - settings.byzantineTolerance := by
    rw [List.length_map]
    exact hmany
  obtain ⟨u, hu, hkrum⟩ := settings.krumAggregate_of_uniform hlength
    (mt List.map_eq_nil_iff.mp hne) (uniform_map_ofFn vs)
  obtain ⟨v, hv, rfl⟩ := List.mem_map.mp hu
  refine ⟨v, hv, ?_⟩
  unfold aggregateDeltas
  dsimp only
  rw [if_pos hlength, hkrum]

/-- The weights after an aggregation. -/
theorem nextWeights_of_aggregate {settings : KrumSettings R} {deltas : List (List R)}
    {weights agg : Fin dim → R} (hagg : aggregateDeltas settings deltas = .ok (List.ofFn agg)) :
    nextWeights settings (some (List.ofFn weights)) deltas =
      .ok (List.ofFn (weights + agg)) := by
  unfold nextWeights
  rw [hagg]
  exact add_ofFn weights agg

variable {config : CoordinatorConfig R} {deltas : String → Fin dim → R}
  {draws : String → PairDraws (Fin dim → R)}

omit [LinearOrder R] in
/-- A registered participant is not registered again. -/
theorem RoundState.participants_stored {s : RoundState R} {pid : String}
    (hmem : pid ∈ s.participants) (delta : List R) :
    (s.stored pid delta).participants = s.participants := by
  unfold RoundState.stored RoundState.prepared RoundState.initialiseWeights RoundState.register
  dsimp only
  rw [if_pos hmem]
  cases s.globalWeights <;> rfl

/-- A round adds to the weights the aggregate of the submissions that complete the quorum. -/
theorem globalWeights_closeRound {weights next : List R} {order : List String} {s : RoundState R}
    (hweights : s.globalWeights = some weights) (hregistered : ∀ pid ∈ order, pid ∈ s.participants)
    (hnodup : order.Nodup) (hnew : ∀ pid ∈ order, s.deltas.find? pid = none)
    (hfew : s.deltas.rows.length < config.quorum)
    (hmany : config.quorum ≤ s.deltas.rows.length + order.length)
    (hnext : nextWeights config.krum (some weights)
      ((s.deltas.rows.map Prod.snd ++ order.map fun pid =>
        List.ofFn (maskedDelta s.participants pid (deltas pid) (draws pid))).take config.quorum) =
          .ok next) :
    (closeRound config deltas draws s order).globalWeights = some next := by
  induction order generalizing s with
  | nil =>
    rw [List.length_nil] at hmany
    omega
  | cons pid rest ih =>
    have hpid := hnew pid List.mem_cons_self
    have hmem := hregistered pid List.mem_cons_self
    let delta := List.ofFn (maskedDelta s.participants pid (deltas pid) (draws pid))
    have hrun : exec (runRound config pid (deltas pid) (draws pid)) s =
        exec (submitDelta config pid delta) s := by
      unfold runRound
      rw [exec_bind_of_ok (exec_get s), hweights]
    have hstored : (s.stored pid delta).globalWeights = some weights := by
      have hprepared := globalWeights_prepared s pid delta
      rw [hweights] at hprepared
      exact hprepared
    have hrows := UniqueTable.rows_put_of_new hpid delta
    have hlength := UniqueTable.length_put s.deltas pid delta hpid
    have hquorum : ((s.deltas.put pid delta).rows.length : ℤ) < config.minParticipants ↔
        s.deltas.rows.length + 1 < config.quorum := by
      unfold CoordinatorConfig.quorum
      rw [hlength]
      omega
    rw [List.map_cons, List.append_cons] at hnext
    unfold closeRound
    dsimp only
    rw [hrun, exec_submitDelta_of_new config hpid]
    dsimp only
    by_cases hopen : s.deltas.rows.length + 1 < config.quorum
    · -- The quorum is not complete, and the others submit.
      rw [if_pos (hquorum.mpr hopen), if_pos (roundNumber_stored ..)]
      have hparticipants := participants_stored hmem delta
      refine ih hstored ?_ (List.nodup_cons.mp hnodup).2 ?_ ?_ ?_ ?_
      · intro other hother
        rw [hparticipants]
        exact hregistered other (List.mem_cons_of_mem _ hother)
      · intro other hother
        have hne : other ≠ pid := fun heq => (List.nodup_cons.mp hnodup).1 (heq ▸ hother)
        rw [deltas_stored, UniqueTable.find?_put, if_neg hne]
        exact hnew other (List.mem_cons_of_mem _ hother)
      · rw [deltas_stored, hlength]
        exact hopen
      · rw [deltas_stored, hlength]
        rw [List.length_cons] at hmany
        omega
      · rw [deltas_stored, hrows, hparticipants, List.map_append]
        exact hnext
    · -- This submission completes the quorum.
      have hreceived : (s.deltas.put pid delta).rows.map Prod.snd =
          s.deltas.rows.map Prod.snd ++ [delta] := by
        rw [hrows, List.map_append]
        rfl
      have hquorum_eq : (s.deltas.rows.map Prod.snd ++ [delta]).length = config.quorum := by
        rw [List.length_append, List.length_map, List.length_singleton]
        omega
      rw [List.take_append_of_le_length (le_of_eq hquorum_eq.symm),
        List.take_of_length_le (le_of_eq hquorum_eq)] at hnext
      rw [if_neg (mt hquorum.mp hopen), hstored, hreceived, hnext]
      dsimp only
      rw [if_neg (by omega)]

end LedgerLens.Federated
