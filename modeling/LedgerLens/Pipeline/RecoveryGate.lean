import LedgerLens.Library.Runs
import LedgerLens.Pipeline.Recovery
import Mathlib.Data.List.Induction

/-!
# The gate after a recovery

`complete_recovery` compares what a recovery was expected to restore with what it restored,
and puts the report on file under the run and the pair. `stage` does not enter its block while
the report on file is of a failed comparison that nobody approved. This file follows the
reports through sequences of calls, in which blocks may be nested or overlap, and says for
every call of `stage` whether its block runs.
-/

namespace LedgerLens.Pipeline

open Transition

/-- `list(dict.fromkeys(keys))`: the keys without repetitions, in their order. -/
def fromKeys (keys : List String) : List String :=
  let table : UniqueTable String Unit :=
    keys.foldl (fun table key => table.put key ()) .empty
  table.rows.map Prod.fst

/-- Snapshots of the stages, by their names. -/
abbrev Snapshots := UniqueTable String StageSnapshot

/-- A `RecoveryReport` with what it is about. -/
structure VerifiedRecovery extends RecoveryReport where
  /-- `run_id`. -/
  runId : String
  /-- `pair_id`. -/
  pairId : String
  /-- `recovered_range`. -/
  recoveredRange : Option (String × String)
  /-- `recovered_stages`. -/
  recoveredStages : List String

/-- `verify_recovery`. -/
def verifyRecovery (runId pairId : String) (expected actual : Snapshots)
    (recoveredRange : Option (String × String)) (recoveredStages : Option (List String)) :
    VerifiedRecovery :=
  let stages := fromKeys (expected.rows.map Prod.fst ++ actual.rows.map Prod.fst)
  { runId := runId
    pairId := pairId
    recoveredRange := recoveredRange
    recoveredStages := recoveredStages.getD stages
    checks := stages.map fun stage => ⟨stage, expected.find? stage, actual.find? stage⟩ }

/-- The exceptions of `approve_resume`. -/
inductive ApprovalError where
  /-- `ValueError`. -/
  | valueError (message : String)
  /-- `KeyError`. -/
  | keyError (message : String)
  deriving DecidableEq, Repr

namespace RecoveryManager

variable {Payload : Type*}

/-- `complete_recovery`. -/
def completeRecovery (manager : RecoveryManager Payload) (runId pairId : String)
    (expected actual : Snapshots) (recoveredRange : Option (String × String)) :
    RecoveryManager Payload × VerifiedRecovery :=
  let recoveredStages := (manager.trackers (runId, pairId)).filterMap fun result =>
    if result.status = .completed then some result.stage else none
  let report := verifyRecovery runId pairId expected actual recoveredRange
    (if recoveredStages = [] then none else some recoveredStages)
  ({ manager with
      reports := Function.update manager.reports (runId, pairId) (some report.toRecoveryReport) },
    report)

/-- `approve_resume`. -/
def approveResume (manager : RecoveryManager Payload) (runId pairId reviewer : String) :
    Except ApprovalError (RecoveryManager Payload) :=
  if reviewer = "" then .error (.valueError "reviewer must be a non-empty identifier")
  else
    match manager.reports (runId, pairId) with
    | none =>
      .error (.keyError ("no recovery report for run=" ++ runId ++ " pair=" ++ pairId))
    | some report =>
      .ok { manager with
        reports := Function.update manager.reports (runId, pairId)
          (some { report with approvedBy := some reviewer }) }

/-- `stage` up to its `yield`: what the block is given, or the report that blocks it. -/
def enterStage (manager : RecoveryManager Payload) (codec : JsonCodec Payload)
    (cp : PipelineCheckpoint) (times : EnterTimes) :
    RecoveryManager Payload × Except RecoveryReport (StageContext Payload) :=
  let enter :=
    let (store, context) := cp.enter codec times manager.store
    ({ manager with store := store }, .ok context)
  match manager.reports (cp.key.runId, cp.key.pairId) with
  | none => enter
  | some report => if report.resumeAllowed then enter else (manager, .error report)

/-- `stage` after its `yield`, with the exception that leaves the block; and the exception
that leaves `stage`. -/
def leaveStage (manager : RecoveryManager Payload) (codec : JsonCodec Payload)
    (cp : PipelineCheckpoint) (exitAt : ℤ) (elapsed : ℚ) (context : StageContext Payload)
    (pending : Option Payload) (raised : Option PyException) :
    RecoveryManager Payload × Option PyException :=
  let told := caught raised
  match cp.exit codec exitAt context pending told manager.store with
  | .error e => (manager, some e)
  | .ok store =>
    let result : StageResult Payload :=
      { stage := cp.key.stage
        status := if context.skip then .skipped else if told = none then .completed else .failed
        wallSeconds := elapsed
        resultPayload := pending
        error := if context.skip then "" else (told.map PyException.describe).getD "" }
    let pair := (cp.key.runId, cp.key.pairId)
    ({ manager with
        store := store
        trackers := Function.update manager.trackers pair (manager.trackers pair ++ [result]) },
      raised)

/-- A whole `stage` is its two parts with the block between them. -/
theorem stage_eq_enter_leave (manager : RecoveryManager Payload) (codec : JsonCodec Payload)
    (cp : PipelineCheckpoint) (times : StageTimes) (body : StageBody Payload cp.key) :
    manager.stage codec cp times body =
      match manager.enterStage codec cp times.enter with
      | (manager, .error report) => (manager, .blocked report)
      | (manager, .ok context) =>
        let (manager, raised) := { manager with store := body.meanwhile manager.store }.leaveStage
          codec cp times.exitAt times.elapsed context body.pending body.raised
        (manager, .left context raised) := by
  have hrun : manager.runStage codec cp times body =
      let entered := cp.enter codec times.enter manager.store
      let (manager, raised) :=
        { manager with store := body.meanwhile entered.1 }.leaveStage
          codec cp times.exitAt times.elapsed entered.2 body.pending body.raised
      (manager, .left entered.2 raised) := by
    unfold runStage leaveStage
    dsimp only
    cases cp.exit codec times.exitAt (cp.enter codec times.enter manager.store).2 body.pending
      (caught body.raised) (body.meanwhile (cp.enter codec times.enter manager.store).1) <;> rfl
  unfold stage enterStage
  cases manager.reports (cp.key.runId, cp.key.pairId) with
  | none => exact hrun
  | some report =>
    dsimp only
    split_ifs
    · exact hrun
    · rfl

end RecoveryManager

/-- A call of the recovery manager. The two parts of `stage` are calls of their own, with
anything between them. -/
inductive RecoveryCall (Payload : Type*) where
  /-- `complete_recovery`. -/
  | completeRecovery (runId pairId : String) (expected actual : Snapshots)
      (recoveredRange : Option (String × String))
  /-- `approve_resume`. -/
  | approveResume (runId pairId reviewer : String)
  /-- The first part of `stage`. -/
  | enterStage (cp : PipelineCheckpoint) (times : EnterTimes)
  /-- The second part of `stage`. -/
  | leaveStage (cp : PipelineCheckpoint) (exitAt : ℤ) (elapsed : ℚ)
      (context : StageContext Payload) (pending : Option Payload) (raised : Option PyException)

variable {Payload : Type*}

/-- One call; one that raises leaves the manager as it is. -/
def RecoveryManager.step (codec : JsonCodec Payload) (manager : RecoveryManager Payload) :
    RecoveryCall Payload → RecoveryManager Payload
  | .completeRecovery runId pairId expected actual recoveredRange =>
    (manager.completeRecovery runId pairId expected actual recoveredRange).1
  | .approveResume runId pairId reviewer =>
    match manager.approveResume runId pairId reviewer with
    | .ok manager => manager
    | .error _ => manager
  | .enterStage cp times => (manager.enterStage codec cp times).1
  | .leaveStage cp exitAt elapsed context pending raised =>
    (manager.leaveStage codec cp exitAt elapsed context pending raised).1

/-- What was expected of a stage and what was recovered differ: one of them is missing, or the
record counts differ, or there are two checksums and they differ. -/
def StageDiffers : Option StageSnapshot → Option StageSnapshot → Prop
  | none, none => False
  | some expected, some actual =>
    expected.recordCount ≠ actual.recordCount ∨
      ∃ want got, expected.checksum = some want ∧ actual.checksum = some got ∧ want ≠ got
  | _, _ => True

/-- What was expected and what was recovered differ in some stage. -/
def SnapshotsDiffer (expected actual : Snapshots) : Prop :=
  ∃ stage, StageDiffers (expected.find? stage) (actual.find? stage)

namespace RecoveryCall

/-- A `complete_recovery` for a run and a pair, which puts a new report on file. -/
def Completes (runId pairId : String) : RecoveryCall Payload → Prop
  | .completeRecovery runId' pairId' _ _ _ => runId' = runId ∧ pairId' = pairId
  | _ => False

/-- An `approve_resume` for a run and a pair by a reviewer who is named. -/
def Approves (runId pairId : String) : RecoveryCall Payload → Prop
  | .approveResume runId' pairId' reviewer => runId' = runId ∧ pairId' = pairId ∧ reviewer ≠ ""
  | _ => False

end RecoveryCall

/-- The latest `complete_recovery` for a run and a pair found a difference, and nobody has
approved its report. -/
def AwaitsReview (runId pairId : String) (calls : List (RecoveryCall Payload)) : Prop :=
  ∃ before expected actual recoveredRange after,
    calls = before ++ .completeRecovery runId pairId expected actual recoveredRange :: after ∧
      SnapshotsDiffer expected actual ∧
      ∀ call ∈ after, ¬call.Completes runId pairId ∧ ¬call.Approves runId pairId

theorem mem_fromKeys {keys : List String} {key : String} : key ∈ fromKeys keys ↔ key ∈ keys := by
  unfold fromKeys
  rw [← UniqueTable.isSome_find?_iff, UniqueTable.isSome_find?_foldl_put]
  simp

/-- A check is passed exactly when there is no difference, if there is anything to compare. -/
theorem ConsistencyCheck.passed_iff {check : ConsistencyCheck}
    (hsome : check.expected.isSome = true ∨ check.actual.isSome = true) :
    check.passed = true ↔ ¬StageDiffers check.expected check.actual := by
  obtain ⟨stage, expected, actual⟩ := check
  unfold ConsistencyCheck.passed ConsistencyCheck.issues StageDiffers
  cases expected with
  | none =>
    cases actual with
    | none => simp at hsome
    | some actual => simp
  | some expected =>
    cases actual with
    | none => simp
    | some actual =>
      obtain ⟨wantCount, wantSum⟩ := expected
      obtain ⟨gotCount, gotSum⟩ := actual
      dsimp only
      rw [List.isEmpty_iff, List.append_eq_nil_iff, not_or]
      refine and_congr ?_ ?_
      · by_cases hcount : wantCount = gotCount <;> simp [hcount]
      · cases wantSum with
        | none => simp
        | some want =>
          cases gotSum with
          | none => simp
          | some got => by_cases hsum : want = got <;> simp [hsum]

/-- A verification is passed exactly when nothing differs. -/
theorem verifyRecovery_passed_iff (runId pairId : String) (expected actual : Snapshots)
    (recoveredRange : Option (String × String)) (recoveredStages : Option (List String)) :
    (verifyRecovery runId pairId expected actual recoveredRange
        recoveredStages).toRecoveryReport.passed = true ↔ ¬SnapshotsDiffer expected actual := by
  have hmem : ∀ stage, stage ∈ fromKeys (expected.rows.map Prod.fst ++ actual.rows.map Prod.fst) ↔
      (expected.find? stage).isSome = true ∨ (actual.find? stage).isSome = true := by
    intro stage
    rw [mem_fromKeys, List.mem_append, UniqueTable.isSome_find?_iff, UniqueTable.isSome_find?_iff]
  unfold verifyRecovery RecoveryReport.passed SnapshotsDiffer
  dsimp only
  rw [List.all_map, List.all_eq_true]
  constructor
  · rintro hall ⟨stage, hdiffers⟩
    have hsome : (expected.find? stage).isSome = true ∨ (actual.find? stage).isSome = true := by
      by_contra hnone
      rw [not_or, Bool.not_eq_true, Option.isSome_eq_false_iff, Option.isNone_iff_eq_none,
        Bool.not_eq_true, Option.isSome_eq_false_iff, Option.isNone_iff_eq_none] at hnone
      rw [hnone.1, hnone.2] at hdiffers
      exact hdiffers
    have hpassed := hall stage ((hmem stage).mpr hsome)
    exact (ConsistencyCheck.passed_iff hsome).mp hpassed hdiffers
  · intro hsame stage hstage
    exact (ConsistencyCheck.passed_iff ((hmem stage).mp hstage)).mpr fun h => hsame ⟨stage, h⟩

namespace RecoveryManager

/-- The report on file for a run and a pair does not allow to resume. -/
def Blocked (manager : RecoveryManager Payload) (runId pairId : String) : Prop :=
  ∃ report, manager.reports (runId, pairId) = some report ∧ report.resumeAllowed = false

variable {manager : RecoveryManager Payload} {codec : JsonCodec Payload} {runId pairId : String}

/-- A new report blocks exactly if something differs; the other reports stay. -/
theorem blocked_completeRecovery_iff (runId' pairId' : String) (expected actual : Snapshots)
    (recoveredRange : Option (String × String)) :
    (manager.completeRecovery runId' pairId' expected actual recoveredRange).1.Blocked
        runId pairId ↔
      if runId' = runId ∧ pairId' = pairId then SnapshotsDiffer expected actual
      else manager.Blocked runId pairId := by
  unfold Blocked completeRecovery
  dsimp only
  by_cases hkey : runId' = runId ∧ pairId' = pairId
  · obtain ⟨rfl, rfl⟩ := hkey
    have hpassed := verifyRecovery_passed_iff runId' pairId' expected actual recoveredRange
    rw [Function.update_self, if_pos (show runId' = runId' ∧ pairId' = pairId' from ⟨rfl, rfl⟩)]
    simp only [Option.some.injEq, exists_eq_left', RecoveryReport.resumeAllowed]
    rw [Bool.or_eq_false_iff, and_iff_left (by rfl), ← Bool.not_eq_true, hpassed, not_not]
  · have hne : (runId, pairId) ≠ (runId', pairId') := by
      intro heq
      obtain ⟨rfl, rfl⟩ := Prod.mk.inj heq
      exact hkey ⟨rfl, rfl⟩
    rw [Function.update_of_ne hne, if_neg hkey]

/-- An approval by a reviewer lifts the block of its run and pair; the others stay. -/
theorem blocked_approveResume_iff (runId' pairId' reviewer : String) :
    (manager.step codec (.approveResume runId' pairId' reviewer)).Blocked runId pairId ↔
      ¬(runId' = runId ∧ pairId' = pairId ∧ reviewer ≠ "") ∧ manager.Blocked runId pairId := by
  unfold step approveResume Blocked
  dsimp only
  by_cases hreviewer : reviewer = ""
  · simp [hreviewer]
  · rw [if_neg hreviewer]
    by_cases hkey : runId' = runId ∧ pairId' = pairId
    · obtain ⟨rfl, rfl⟩ := hkey
      cases hreport : manager.reports (runId', pairId') with
      | none => simp [hreport]
      | some report => simp [hreviewer, RecoveryReport.resumeAllowed]
    · have hne : (runId, pairId) ≠ (runId', pairId') := by
        intro heq
        obtain ⟨rfl, rfl⟩ := Prod.mk.inj heq
        exact hkey ⟨rfl, rfl⟩
      have hnot : ¬(runId' = runId ∧ pairId' = pairId ∧ reviewer ≠ "") :=
        fun h => hkey ⟨h.1, h.2.1⟩
      cases hreport : manager.reports (runId', pairId') with
      | none => simp [hnot]
      | some report => simp [hnot, Function.update_of_ne hne]

/-- A stage does not touch the reports. -/
theorem reports_enterStage (cp : PipelineCheckpoint) (times : EnterTimes) :
    (manager.enterStage codec cp times).1.reports = manager.reports := by
  unfold enterStage
  dsimp only
  split
  · rfl
  · split <;> rfl

theorem reports_leaveStage (cp : PipelineCheckpoint) (exitAt : ℤ) (elapsed : ℚ)
    (context : StageContext Payload) (pending : Option Payload) (raised : Option PyException) :
    (manager.leaveStage codec cp exitAt elapsed context pending raised).1.reports =
      manager.reports := by
  unfold leaveStage
  dsimp only
  split <;> rfl

/-- After a call a run and a pair are blocked if it put a failed report on file, or if they
were before and it neither replaced nor approved their report. -/
theorem blocked_step_iff (call : RecoveryCall Payload) :
    (manager.step codec call).Blocked runId pairId ↔
      (∃ expected actual recoveredRange,
        call = .completeRecovery runId pairId expected actual recoveredRange ∧
          SnapshotsDiffer expected actual) ∨
      (¬call.Completes runId pairId ∧ ¬call.Approves runId pairId) ∧
        manager.Blocked runId pairId := by
  cases call with
  | completeRecovery runId' pairId' expected actual recoveredRange =>
    refine (blocked_completeRecovery_iff _ _ _ _ _).trans ?_
    by_cases hkey : runId' = runId ∧ pairId' = pairId
    · obtain ⟨rfl, rfl⟩ := hkey
      simp [RecoveryCall.Completes]
    · rw [if_neg hkey]
      have hcall : ¬∃ expected' actual' recoveredRange',
          (RecoveryCall.completeRecovery runId' pairId' expected actual recoveredRange :
            RecoveryCall Payload) =
              .completeRecovery runId pairId expected' actual' recoveredRange' ∧
            SnapshotsDiffer expected' actual' := by
        rintro ⟨_, _, _, heq, -⟩
        cases heq
        exact hkey ⟨rfl, rfl⟩
      simp only [hcall, RecoveryCall.Completes, hkey, RecoveryCall.Approves, not_false_eq_true,
        and_self, true_and, false_or]
  | approveResume runId' pairId' reviewer =>
    refine (blocked_approveResume_iff _ _ _).trans ?_
    simp [RecoveryCall.Completes, RecoveryCall.Approves]
  | enterStage cp times =>
    unfold Blocked step
    dsimp only
    rw [reports_enterStage]
    simp [RecoveryCall.Completes, RecoveryCall.Approves]
  | leaveStage cp exitAt elapsed context pending raised =>
    unfold Blocked step
    dsimp only
    rw [reports_leaveStage]
    simp [RecoveryCall.Completes, RecoveryCall.Approves]

/-- Whether a run and a pair await a review after one more call. -/
theorem awaitsReview_concat_iff (calls : List (RecoveryCall Payload))
    (call : RecoveryCall Payload) :
    AwaitsReview runId pairId (calls ++ [call]) ↔
      (∃ expected actual recoveredRange,
        call = .completeRecovery runId pairId expected actual recoveredRange ∧
          SnapshotsDiffer expected actual) ∨
      (¬call.Completes runId pairId ∧ ¬call.Approves runId pairId) ∧
        AwaitsReview runId pairId calls := by
  constructor
  · rintro ⟨before, expected, actual, recoveredRange, after, hsplit, hdiffers, hquiet⟩
    rcases List.eq_nil_or_concat after with rfl | ⟨after, last, rfl⟩
    · obtain ⟨-, rfl⟩ := List.append_singleton_inj.mp hsplit
      exact .inl ⟨expected, actual, recoveredRange, rfl, hdiffers⟩
    · rw [List.concat_eq_append] at hsplit hquiet
      rw [← List.cons_append, ← List.append_assoc] at hsplit
      obtain ⟨rfl, rfl⟩ := List.append_singleton_inj.mp hsplit
      refine .inr ⟨hquiet call (by simp), before, expected, actual, recoveredRange, after, rfl,
        hdiffers, fun c hc => hquiet c (List.mem_append_left _ hc)⟩
  · rintro (⟨expected, actual, recoveredRange, rfl, hdiffers⟩ | ⟨hcall, before, expected, actual,
      recoveredRange, after, rfl, hdiffers, hquiet⟩)
    · exact ⟨calls, expected, actual, recoveredRange, [], rfl, hdiffers, by simp⟩
    · refine ⟨before, expected, actual, recoveredRange, after ++ [call], by simp, hdiffers, ?_⟩
      intro c hc
      rcases List.mem_append.mp hc with hc | hc
      · exact hquiet c hc
      · rw [List.mem_singleton.mp hc]
        exact hcall

/-- After any calls of a new manager a run and a pair are blocked exactly if they await a
review. -/
theorem blocked_iff_awaitsReview (store : CheckpointStore) (calls : List (RecoveryCall Payload)) :
    (exec (step codec) { store := store } calls).Blocked runId pairId ↔
      AwaitsReview runId pairId calls := by
  induction calls using List.reverseRecOn with
  | nil =>
    constructor
    · rintro ⟨report, hreport, -⟩
      cases hreport
    · rintro ⟨before, expected, actual, recoveredRange, after, hsplit, -⟩
      simp at hsplit
  | append_singleton calls call ih =>
    rw [exec_append, exec_cons, exec_nil, blocked_step_iff, awaitsReview_concat_iff, ih]

/-- A stage enters its block exactly if its run and pair are not blocked. -/
theorem stage_left_iff (cp : PipelineCheckpoint) (times : StageTimes)
    (body : StageBody Payload cp.key) :
    (∃ context raised, (manager.stage codec cp times body).2 = .left context raised) ↔
      ¬manager.Blocked cp.key.runId cp.key.pairId := by
  have hrun : ∃ context raised,
      (manager.runStage codec cp times body).2 = .left context raised := by
    unfold runStage
    dsimp only
    split <;> exact ⟨_, _, rfl⟩
  unfold stage Blocked
  cases manager.reports (cp.key.runId, cp.key.pairId) with
  | none => simpa using hrun
  | some report =>
    dsimp only
    cases hallowed : report.resumeAllowed with
    | true => simpa [hallowed] using hrun
    | false => simp [hallowed]

/-- After any calls of a new manager, the block of a stage is executed exactly if its own run
and pair do not await a review. -/
theorem stage_gated_by_review (codec : JsonCodec Payload) (store : CheckpointStore)
    (calls : List (RecoveryCall Payload)) (cp : PipelineCheckpoint) (times : StageTimes)
    (body : StageBody Payload cp.key) :
    (∃ context raised,
        ((exec (step codec) { store := store } calls).stage codec cp times body).2 =
          .left context raised) ↔
      ¬AwaitsReview cp.key.runId cp.key.pairId calls := by
  rw [stage_left_iff, blocked_iff_awaitsReview]

end RecoveryManager

end LedgerLens.Pipeline
