import LedgerLens.Federated.RoundState
import LedgerLens.Library.BatchLedger
import LedgerLens.Library.Runs

/-!
# The deltas of the synchronous coordinator

This file follows the deltas that `submit_delta` accepts through sequences of submissions and
determines when a submission that fails leaves everything as it was: a delta that brings a round
to its end has to fit the deltas before it and the weights.
-/

namespace LedgerLens.Federated

open NumArray Raising Transition RoundState

variable {R : Type} [Field R] [LinearOrder R]

/-- The deltas of a round: which round and whose. -/
def RoundState.ids (s : RoundState R) (round : ℕ) : List (ℕ × String) :=
  ((s.pending.find? round).getD .empty).rows.map fun row => (round, row.1)

/-- The coordinator with its history. -/
structure RoundHistory (R : Type) where
  /-- The coordinator. -/
  state : RoundState R
  /-- The deltas whose submissions were answered. -/
  accepted : List (ℕ × String) := []
  /-- The deltas of each aggregation. -/
  aggregations : List (List (ℕ × String)) := []

namespace RoundHistory

/-- The books of the coordinator. -/
def ledger (h : RoundHistory R) : BatchLedger (ℕ × String) :=
  ⟨h.accepted, h.state.ids h.state.roundNumber, h.aggregations⟩

/-- What a submission returns or raises, and the state it leaves. -/
def submit (config : CoordinatorConfig R) (s : RoundState R) (submission : String × List R) :
    Except CoordinatorError SubmitResponse × RoundState R :=
  exec (submitDelta config submission.1 submission.2) s

/-- What a submission of a participant adds to the history. -/
def record (h : RoundHistory R) (pid : String)
    (outcome : Except CoordinatorError SubmitResponse × RoundState R) : RoundHistory R where
  state := outcome.2
  accepted :=
    match outcome.1 with
    | .ok _ => h.accepted ++ [(h.state.roundNumber, pid)]
    | .error _ => h.accepted
  aggregations :=
    if outcome.2.roundNumber = h.state.roundNumber then h.aggregations
    else h.aggregations ++ [outcome.2.ids h.state.roundNumber]

/-- One submission. -/
def step (config : CoordinatorConfig R) (h : RoundHistory R) (submission : String × List R) :
    RoundHistory R :=
  h.record submission.1 (submit config h.state submission)

/-- Two states have the same round, weights and pending deltas. -/
def SameRound (s s' : RoundState R) : Prop :=
  s'.roundNumber = s.roundNumber ∧ s'.globalWeights = s.globalWeights ∧ s'.deltas = s.deltas

/-- What is expected of a submission: if it raises, it leaves the round, the weights and the
pending deltas as they were; and afterwards every accepted delta is pending or was aggregated
once. -/
def Clean (config : CoordinatorConfig R) (h : RoundHistory R) (submission : String × List R) :
    Prop :=
  (∀ e, (submit config h.state submission).1 = .error e →
    SameRound h.state (submit config h.state submission).2) ∧
  (h.step config submission).ledger.Accounted

/-- The condition: a delta that completes a round has the length of the others, and this fits the
weights. -/
def Fits (config : CoordinatorConfig R) (s : RoundState R) (submission : String × List R) : Prop :=
  s.deltas.find? submission.1 = none → config.minParticipants ≤ s.deltas.rows.length + 1 →
    Uniform (s.deltas.rows.map Prod.snd ++ [submission.2]) ∧
      Broadcastable [(s.globalWeights.map List.length).getD submission.2.length,
        submission.2.length]

/-- The invariant. -/
structure Inv (h : RoundHistory R) : Prop where
  /-- The books are right. -/
  ledger : h.ledger.Inv
  /-- Aggregations were in earlier rounds. -/
  earlier : ∀ id ∈ h.aggregations.flatten, id.1 < h.state.roundNumber
  /-- There are no deltas of later rounds. -/
  later : ∀ round, h.state.roundNumber < round → h.state.pending.find? round = none
  /-- Without weights nothing is pending. -/
  weights : h.state.globalWeights = none → h.state.deltas.rows = []

variable {config : CoordinatorConfig R} {h : RoundHistory R} {pid : String} {delta : List R}

omit [Field R] [LinearOrder R] in
theorem ids_current (s : RoundState R) :
    s.ids s.roundNumber = s.deltas.rows.map fun row => (s.roundNumber, row.1) := rfl

omit [Field R] [LinearOrder R] in
/-- A delta that is new to its round is new to the books. -/
theorem Inv.not_mem_items (hinv : h.Inv) (hnew : h.state.deltas.find? pid = none) :
    (h.state.roundNumber, pid) ∉ h.ledger.items := by
  intro hmem
  rcases List.mem_append.mp hmem with hpending | hbatch
  · obtain ⟨row, hrow, heq⟩ := List.mem_map.mp hpending
    have hkey : row.1 = pid := congrArg Prod.snd heq
    refine (UniqueTable.find?_eq_none_iff _ _).mp hnew ?_
    rw [← hkey]
    exact List.mem_map_of_mem hrow
  · have hlt := hinv.earlier _ hbatch
    omega

omit [LinearOrder R] in
/-- The deltas of the round after a delta has been added. -/
theorem ids_stored (s : RoundState R) (hnew : s.deltas.find? pid = none) :
    (s.stored pid delta).ids s.roundNumber =
      s.ids s.roundNumber ++ [(s.roundNumber, pid)] := by
  unfold RoundState.ids
  rw [find?_pending_stored, if_pos rfl]
  dsimp only [Option.getD_some]
  rw [UniqueTable.rows_put_of_new hnew, List.map_append]
  rfl

omit [LinearOrder R] in
/-- A submission whose delta is added and does not complete the round. -/
theorem Inv.stored (hinv : h.Inv) (hnew : h.state.deltas.find? pid = none) (delta : List R) :
    ({ state := h.state.stored pid delta
       accepted := h.accepted ++ [(h.state.roundNumber, pid)]
       aggregations := h.aggregations } : RoundHistory R).Inv := by
  have hledger : ({ state := h.state.stored pid delta
                    accepted := h.accepted ++ [(h.state.roundNumber, pid)]
                    aggregations := h.aggregations } : RoundHistory R).ledger =
      h.ledger.accept (h.state.roundNumber, pid) := by
    unfold RoundHistory.ledger BatchLedger.accept
    dsimp only
    rw [roundNumber_stored, ids_stored _ hnew]
  refine ⟨?_, ?_, ?_, ?_⟩
  · rw [hledger]
    exact hinv.ledger.accept (hinv.not_mem_items hnew)
  · intro id hid
    rw [roundNumber_stored]
    exact hinv.earlier id hid
  · intro round hround
    rw [roundNumber_stored] at hround
    rw [find?_pending_stored, if_neg (by omega)]
    exact hinv.later round hround
  · intro hnone
    have hsome : (h.state.stored pid delta).globalWeights = some _ :=
      globalWeights_prepared h.state pid delta
    rw [hsome] at hnone
    cases hnone

omit [LinearOrder R] in
/-- A submission whose delta completes the round. -/
theorem Inv.completed (hinv : h.Inv) (hnew : h.state.deltas.find? pid = none)
    (delta next : List R) :
    ({ state := { h.state.stored pid delta with
         globalWeights := some next, roundNumber := h.state.roundNumber + 1 }
       accepted := h.accepted ++ [(h.state.roundNumber, pid)]
       aggregations := h.aggregations ++ [(h.state.stored pid delta).ids h.state.roundNumber] } :
      RoundHistory R).Inv := by
  have hstored := hinv.stored hnew delta
  have hempty : (h.state.stored pid delta).pending.find? (h.state.roundNumber + 1) = none := by
    rw [find?_pending_stored, if_neg (by omega)]
    exact hinv.later _ (by omega)
  refine ⟨?_, ?_, ?_, ?_⟩
  · have hledger : ({ state := { h.state.stored pid delta with
                        globalWeights := some next, roundNumber := h.state.roundNumber + 1 }
                      accepted := h.accepted ++ [(h.state.roundNumber, pid)]
                      aggregations :=
                        h.aggregations ++ [(h.state.stored pid delta).ids h.state.roundNumber] } :
          RoundHistory R).ledger =
        BatchLedger.use ({ state := h.state.stored pid delta
                           accepted := h.accepted ++ [(h.state.roundNumber, pid)]
                           aggregations := h.aggregations } : RoundHistory R).ledger := by
      unfold RoundHistory.ledger BatchLedger.use RoundState.ids
      dsimp only
      rw [hempty, roundNumber_stored]
      rfl
    rw [hledger]
    exact hstored.ledger.use
  · intro id hid
    dsimp only at hid ⊢
    rw [List.flatten_append, List.flatten_singleton, List.mem_append] at hid
    rcases hid with hold | hself
    · have hlt := hinv.earlier id hold
      omega
    · obtain ⟨row, -, rfl⟩ := List.mem_map.mp hself
      dsimp only
      omega
  · intro round hround
    dsimp only at hround ⊢
    rw [find?_pending_stored, if_neg (by omega)]
    exact hinv.later round (by omega)
  · intro hnone
    cases hnone

omit [LinearOrder R] in
/-- A submission that is refused. -/
theorem Inv.prepared (hinv : h.Inv) {earlier : List R}
    (hdup : h.state.deltas.find? pid = some earlier) (delta : List R) :
    SameRound h.state (h.state.prepared pid delta) ∧
      ({ h with state := h.state.prepared pid delta } : RoundHistory R).Inv := by
  have hweights : (h.state.prepared pid delta).globalWeights = h.state.globalWeights := by
    rw [globalWeights_prepared]
    cases hnone : h.state.globalWeights with
    | some weights => rfl
    | none =>
      have hrows := hinv.weights hnone
      unfold UniqueTable.find? at hdup
      rw [hrows] at hdup
      cases hdup
  have hledger : ({ h with state := h.state.prepared pid delta } : RoundHistory R).ledger =
      h.ledger := by
    unfold RoundHistory.ledger
    dsimp only
    rw [ids_current, ids_current, deltas_prepared, roundNumber_prepared]
  refine ⟨⟨roundNumber_prepared .., hweights, deltas_prepared ..⟩, ?_, ?_, ?_, ?_⟩
  · rw [hledger]
    exact hinv.ledger
  · intro id hid
    rw [roundNumber_prepared]
    exact hinv.earlier id hid
  · intro round hround
    rw [roundNumber_prepared] at hround
    rw [find?_pending_prepared, if_neg (by omega)]
    exact hinv.later round hround
  · intro hnone
    rw [hweights] at hnone
    rw [deltas_prepared]
    exact hinv.weights hnone

/-- The condition on a delta that completes its round, in terms of the aggregation. -/
theorem fits_iff (hnew : h.state.deltas.find? pid = none)
    (hmany : config.minParticipants ≤ h.state.deltas.rows.length + 1) :
    Fits config h.state (pid, delta) ↔
      ∃ next, nextWeights config.krum (h.state.stored pid delta).globalWeights
        ((h.state.deltas.put pid delta).rows.map Prod.snd) = .ok next := by
  have hweights : (h.state.stored pid delta).globalWeights = some _ :=
    globalWeights_prepared h.state pid delta
  have hlength : (h.state.globalWeights.getD (List.replicate delta.length 0)).length =
      (h.state.globalWeights.map List.length).getD delta.length := by
    cases h.state.globalWeights with
    | none => exact List.length_replicate
    | some weights => rfl
  have hreceived : (h.state.deltas.put pid delta).rows.map Prod.snd =
      h.state.deltas.rows.map Prod.snd ++ [delta] := by
    rw [UniqueTable.rows_put_of_new hnew, List.map_append]
    rfl
  have hmem : delta ∈ h.state.deltas.rows.map Prod.snd ++ [delta] :=
    List.mem_append_right _ List.mem_cons_self
  rw [hweights, hreceived, exists_nextWeights_iff config.krum _ hmem, hlength]
  exact ⟨fun hfits => hfits hnew hmany, fun hok _ _ => hok⟩

/-- A submission is as expected exactly if it meets the condition, and then it keeps the
invariant. -/
theorem Inv.clean_iff_and_step (hinv : h.Inv) (submission : String × List R) :
    (Clean config h submission ↔ Fits config h.state submission) ∧
      (Fits config h.state submission → (h.step config submission).Inv) := by
  obtain ⟨pid, delta⟩ := submission
  unfold Clean step submit
  dsimp only
  cases hfind : h.state.deltas.find? pid with
  | some earlier =>
    obtain ⟨hsame, hinv'⟩ := hinv.prepared hfind delta
    have hfits : Fits config h.state (pid, delta) := by
      intro hnone
      rw [hfind] at hnone
      cases hnone
    have hrecord (e : CoordinatorError) :
        h.record pid (.error e, h.state.prepared pid delta) =
          { h with state := h.state.prepared pid delta } := by
      unfold record
      dsimp only
      rw [if_pos (roundNumber_prepared ..)]
    rw [exec_submitDelta_of_duplicate config hfind, hrecord]
    exact ⟨iff_of_true ⟨fun _ _ => hsame, hinv'.ledger.accounted⟩ hfits, fun _ => hinv'⟩
  | none =>
    rw [exec_submitDelta_of_new config hfind]
    dsimp only
    have hrows := UniqueTable.rows_put_of_new hfind delta
    have hlength : (h.state.deltas.put pid delta).rows.length =
        h.state.deltas.rows.length + 1 := UniqueTable.length_put _ _ _ hfind
    by_cases hfew : ((h.state.deltas.put pid delta).rows.length : ℤ) < config.minParticipants
    · have hrecord (r : SubmitResponse) : h.record pid (.ok r, h.state.stored pid delta) =
          { state := h.state.stored pid delta
            accepted := h.accepted ++ [(h.state.roundNumber, pid)]
            aggregations := h.aggregations } := by
        unfold record
        dsimp only
        rw [if_pos (roundNumber_stored ..)]
      have hfits : Fits config h.state (pid, delta) := by
        intro _ hmany
        rw [hlength] at hfew
        omega
      have hinv' := hinv.stored hfind delta
      rw [if_pos hfew, hrecord]
      exact ⟨iff_of_true ⟨(fun _ h => nomatch h), hinv'.ledger.accounted⟩ hfits, fun _ => hinv'⟩
    · rw [if_neg hfew, fits_iff hfind (by rw [hlength] at hfew; omega)]
      cases hnext : nextWeights config.krum (h.state.stored pid delta).globalWeights
          ((h.state.deltas.put pid delta).rows.map Prod.snd) with
      | error e =>
        -- The delta has been added to the pending ones.
        have hchanged : ¬SameRound h.state (h.state.stored pid delta) := by
          rintro ⟨-, -, hdeltas⟩
          rw [deltas_stored] at hdeltas
          rw [hdeltas] at hlength
          omega
        have hnone : ¬∃ next, (Except.error e : Except ValueError (List R)) = .ok next := by
          rintro ⟨next, hok⟩
          cases hok
        exact ⟨iff_of_false (fun hclean => hchanged (hclean.1 _ rfl)) hnone,
          fun hok => absurd hok hnone⟩
      | ok next =>
        have hrecord (r : SubmitResponse) :
            h.record pid (.ok r, { h.state.stored pid delta with
                globalWeights := some next, roundNumber := h.state.roundNumber + 1 }) =
              { state := { h.state.stored pid delta with
                  globalWeights := some next, roundNumber := h.state.roundNumber + 1 }
                accepted := h.accepted ++ [(h.state.roundNumber, pid)]
                aggregations :=
                  h.aggregations ++ [(h.state.stored pid delta).ids h.state.roundNumber] } := by
          unfold record
          dsimp only
          rw [if_neg (by omega)]
          rfl
        have hinv' := hinv.completed hfind delta next
        dsimp only
        rw [hrecord]
        exact ⟨iff_of_true ⟨(fun _ h => nomatch h), hinv'.ledger.accounted⟩ ⟨next, rfl⟩,
          fun _ => hinv'⟩

/-- In a run of submissions all are as expected exactly if all meet the condition. -/
theorem meets_clean_iff (config : CoordinatorConfig R) (weightDim : ℕ)
    (submissions : List (String × List R)) :
    Meets (step config) (Clean config) { state := .reset weightDim } submissions ↔
      Meets (step config) (fun h => Fits config h.state) { state := .reset weightDim }
        submissions := by
  refine meets_iff_meets Inv (fun h submission hinv => (hinv.clean_iff_and_step submission).1)
    (fun h submission hinv => (hinv.clean_iff_and_step submission).2) ?_ submissions
  exact ⟨.empty, (fun _ h => nomatch h), fun _ _ => rfl, fun _ => rfl⟩

end RoundHistory

end LedgerLens.Federated
