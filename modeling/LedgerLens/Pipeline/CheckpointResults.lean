import LedgerLens.Library.Runs
import LedgerLens.Pipeline.Recovery

/-!
# The results of skipped stages

A checkpoint that skips its stage yields the result in the stage's row. The row is written by
an upsert that leaves a column alone when it is given no value for it, so that a run which
succeeds without a result leaves the result of an earlier run behind. This file follows the
rows through sequences of runs and determines after which runs a skipped stage yields the
result of its latest successful run.
-/

namespace LedgerLens.Pipeline

open Transition

variable {Payload : Type*}

/-- How the block of a checkpoint ends. -/
inductive BlockEnd where
  /-- It returns. -/
  | returned
  /-- It raises an exception, an interrupt included. -/
  | raised (e : PyException)
  /-- The process ends within the block. -/
  | crashed
  deriving DecidableEq

/-- A run of a `PipelineCheckpoint`: what is not decided by the store. -/
structure CheckpointRun (Payload : Type*) where
  /-- The checkpoint. -/
  cp : PipelineCheckpoint
  /-- The readings of the clock on entering. -/
  times : EnterTimes
  /-- The date of the end. -/
  exitAt : ℤ
  /-- The last payload given to `set_result`. -/
  pending : Option Payload
  /-- How the block ends. -/
  blockEnd : BlockEnd

/-- A store with the results of the runs. -/
structure ResultHistory (Payload : Type*) where
  /-- The store. -/
  store : CheckpointStore
  /-- The payload of the latest successful run of each stage, if there was one. -/
  lastSuccess : CheckpointKey → Option (Option Payload) := fun _ => none

namespace ResultHistory

/-- The run skips its stage. -/
def skips (h : ResultHistory Payload) (run : CheckpointRun Payload) : Bool :=
  !run.cp.force && h.store.isComplete run.times.checkedAt run.cp.key

/-- One run. A run is successful if its block was executed and returned and the stage was
marked as done. -/
def step (codec : JsonCodec Payload) (h : ResultHistory Payload) (run : CheckpointRun Payload) :
    ResultHistory Payload :=
  let (store, context) := run.cp.enter codec run.times h.store
  let exit (told : Option PyException) : Except PyException CheckpointStore :=
    run.cp.exit codec run.exitAt context run.pending told store
  match run.blockEnd with
  | .crashed => { h with store := store }
  | .raised e =>
    match exit (some e) with
    | .error _ => { h with store := store }
    | .ok store => { h with store := store }
  | .returned =>
    match exit none with
    | .error _ => { h with store := store }
    | .ok store =>
      { store := store
        lastSuccess :=
          if context.skip then h.lastSuccess
          else Function.update h.lastSuccess run.cp.key (some run.pending) }

/-- A checkpoint that skips its stage yields the payload of the latest successful run. -/
def YieldsLatest (codec : JsonCodec Payload) (h : ResultHistory Payload) : Prop :=
  ∀ (cp : PipelineCheckpoint) (times : EnterTimes),
    (cp.enter codec times h.store).2.skip = true →
      (cp.enter codec times h.store).2.result = (h.lastSuccess cp.key).join

/-- The result text that a run finds in the row of its stage, unless the row is evicted when
the stage is marked as started. -/
def foundText (h : ResultHistory Payload) (run : CheckpointRun Payload) : Option String :=
  let times := run.times.start
  let evicts := evictionIntervalSeconds ≤ times.monotonic - h.store.lastEviction
  let cutoff := times.evictAt - hours h.store.ttlHours
  ((h.store.get run.cp.key).filter fun record =>
    !(decide evicts && CheckpointStore.expired cutoff record)).bind CheckpointRecord.resultJson

/-- The condition under which a run keeps the results right. A successful run sets a payload
that JSON reproduces, or it sets none and finds no readable result. -/
def SetsResult (codec : JsonCodec Payload) (h : ResultHistory Payload)
    (run : CheckpointRun Payload) : Prop :=
  h.skips run = false → run.blockEnd = .returned →
    match run.pending with
    | some payload => ∀ text, codec.dumps payload = .ok text → codec.loads text = some payload
    | none => ∀ text, h.foundText run = some text → codec.loads text = none

/-- The invariant: the row of a stage that is done has the result of its latest success. -/
def Inv (codec : JsonCodec Payload) (h : ResultHistory Payload) : Prop :=
  ∀ key record, h.store.get key = some record → record.status = .done →
    record.resultJson.bind codec.loads = (h.lastSuccess key).join

end ResultHistory

variable {codec : JsonCodec Payload} {store : CheckpointStore} {h : ResultHistory Payload}
  {run : CheckpointRun Payload} {key : CheckpointKey}

namespace CheckpointStore

/-- What an upsert leaves in the store. -/
theorem get_upsertStatus (store : CheckpointStore) (key key' : CheckpointKey)
    (status : CheckpointStatus) (startedAt completedAt : Option ℤ)
    (resultJson errorMessage : Option String) :
    (store.upsertStatus key status startedAt completedAt resultJson errorMessage).get key' =
      if key' = key then
        let record := (store.get key).getD {}
        some { status := status
               startedAt := startedAt.or record.startedAt
               completedAt := completedAt.or record.completedAt
               resultJson := resultJson.or record.resultJson
               errorMessage := errorMessage.or record.errorMessage }
      else store.get key' :=
  UniqueTable.find?_put _ _ _ _

/-- The rows that an eviction leaves, if it is due. -/
theorem get_markStarted (store : CheckpointStore) (times : StartTimes) (key key' : CheckpointKey) :
    (store.markStarted times key).get key' =
      if key' = key then
        let record := ((store.get key).filter fun record =>
          !(decide (evictionIntervalSeconds ≤ times.monotonic - store.lastEviction) &&
            expired (times.evictAt - hours store.ttlHours) record)).getD {}
        some { record with status := .running, startedAt := some times.startedAt }
      else (store.get key').filter fun record =>
        !(decide (evictionIntervalSeconds ≤ times.monotonic - store.lastEviction) &&
          expired (times.evictAt - hours store.ttlHours) record) := by
  unfold markStarted
  rw [get_upsertStatus]
  by_cases hdue : evictionIntervalSeconds ≤ times.monotonic - store.lastEviction
  · simp only [hdue, if_true, decide_true, Bool.true_and]
    simp only [get, evictExpired, UniqueTable.find?_deleteWhere, Option.none_or, Option.some_or]
  · simp only [hdue, if_false, decide_false, Bool.false_and, Bool.not_false]
    have hall : ∀ row : Option CheckpointRecord, (row.filter fun _ => true) = row := by
      intro row
      cases row <;> rfl
    simp only [hall, Option.none_or, Option.some_or]

end CheckpointStore

namespace PipelineCheckpoint

/-- A checkpoint skips its stage exactly if that is complete and need not be run again. -/
theorem enter_of_skips {cp : PipelineCheckpoint} {times : EnterTimes}
    (hskip : (!cp.force && store.isComplete times.checkedAt cp.key) = true) :
    cp.enter codec times store = (store, ⟨true, store.getResult codec cp.key⟩) :=
  if_pos hskip

theorem enter_of_runs {cp : PipelineCheckpoint} {times : EnterTimes}
    (hskip : (!cp.force && store.isComplete times.checkedAt cp.key) = false) :
    cp.enter codec times store = (store.markStarted times.start cp.key, ⟨false, none⟩) :=
  if_neg (by rw [hskip]; exact Bool.false_ne_true)

end PipelineCheckpoint

namespace ResultHistory

open CheckpointStore PipelineCheckpoint

/-- A run that skips its stage changes nothing. -/
theorem step_of_skips (hskip : h.skips run = true) : h.step codec run = h := by
  unfold step
  rw [enter_of_skips hskip]
  dsimp only [PipelineCheckpoint.exit]
  cases run.blockEnd <;> rfl

/-- The store when the block of a run is executed. -/
def started (h : ResultHistory Payload) (run : CheckpointRun Payload) : CheckpointStore :=
  h.store.markStarted run.times.start run.cp.key

/-- The row of a stage whose block is executed. -/
theorem get_started_self (h : ResultHistory Payload) (run : CheckpointRun Payload) :
    ∃ record, (h.started run).get run.cp.key = some record ∧ record.status = .running ∧
      record.resultJson = h.foundText run := by
  unfold started
  rw [get_markStarted, if_pos rfl]
  refine ⟨_, rfl, rfl, ?_⟩
  unfold foundText
  dsimp only
  cases (h.store.get run.cp.key).filter _ <;> rfl

/-- A row of another stage is one from before. -/
theorem get_started_of_ne {record : CheckpointRecord} (hne : key ≠ run.cp.key)
    (hget : (h.started run).get key = some record) : h.store.get key = some record := by
  unfold started at hget
  rw [get_markStarted, if_neg hne, Option.filter_eq_some_iff] at hget
  exact hget.1

/-- While a block is executed the invariant holds. -/
theorem Inv.started (hinv : h.Inv codec) (run : CheckpointRun Payload) :
    ({ h with store := h.started run } : ResultHistory Payload).Inv codec := by
  intro key record hget hdone
  by_cases hkey : key = run.cp.key
  · obtain ⟨record', hget', hrunning, -⟩ := get_started_self h run
    dsimp only at hget
    rw [hkey, hget', Option.some.injEq] at hget
    rw [← hget, hrunning] at hdone
    cases hdone
  · exact hinv key record (get_started_of_ne hkey hget) hdone

/-- A block that fails leaves the invariant. -/
theorem Inv.failed (hinv : h.Inv codec) (run : CheckpointRun Payload) (error : String) :
    ({ h with store := (h.started run).markFailed run.exitAt run.cp.key error } :
      ResultHistory Payload).Inv codec := by
  intro key record hget hdone
  dsimp only [markFailed] at hget
  rw [get_upsertStatus] at hget
  by_cases hkey : key = run.cp.key
  · rw [if_pos hkey, Option.some.injEq] at hget
    rw [← hget] at hdone
    cases hdone
  · rw [if_neg hkey] at hget
    exact hinv.started run key record hget hdone

/-- The result text that a successful run leaves in the row of its stage. -/
def leftText (codec : JsonCodec Payload) (h : ResultHistory Payload)
    (run : CheckpointRun Payload) : Option String :=
  match run.pending with
  | none => h.foundText run
  | some payload => (codec.dumps payload).toOption

/-- What a block leaves that returns, if its payload can be encoded: a row that is done, with
its result text, next to the rows of the other stages. -/
theorem markDone_started {store : CheckpointStore}
    (hdone : (h.started run).markDone codec run.exitAt run.cp.key run.pending = .ok store) :
    (∃ record, store.get run.cp.key = some record ∧ record.status = .done ∧
      record.completedAt = some run.exitAt ∧ record.resultJson = h.leftText codec run) ∧
      ∀ key, key ≠ run.cp.key → store.get key = (h.started run).get key := by
  obtain ⟨old, hold, -, htext⟩ := get_started_self h run
  unfold markDone at hdone
  unfold leftText
  cases hpending : run.pending with
  | none =>
    rw [hpending] at hdone
    cases hdone
    refine ⟨⟨_, (get_upsertStatus _ _ _ _ _ _ _ _).trans (if_pos rfl), rfl, rfl, ?_⟩, ?_⟩
    · dsimp only
      rw [hold, Option.none_or]
      exact htext
    · intro key hkey
      exact (get_upsertStatus _ _ _ _ _ _ _ _).trans (if_neg hkey)
  | some payload =>
    rw [hpending] at hdone
    dsimp only at hdone
    cases hdumps : codec.dumps payload with
    | error e =>
      rw [hdumps] at hdone
      cases hdone
    | ok text =>
      rw [hdumps] at hdone
      cases hdone
      refine ⟨⟨_, (get_upsertStatus _ _ _ _ _ _ _ _).trans (if_pos rfl), rfl, rfl, ?_⟩, ?_⟩
      · dsimp only
        rw [hdumps, Option.some_or]
        rfl
      intro key hkey
      exact (get_upsertStatus _ _ _ _ _ _ _ _).trans (if_neg hkey)

/-- The condition on a successful run says that its result can be read from its row. -/
theorem setsResult_iff {store : CheckpointStore} (hskip : h.skips run = false)
    (hreturned : run.blockEnd = .returned)
    (hdone : (h.started run).markDone codec run.exitAt run.cp.key run.pending = .ok store) :
    h.SetsResult codec run ↔ (h.leftText codec run).bind codec.loads = run.pending := by
  have hcond : h.SetsResult codec run ↔
      match run.pending with
      | some payload => ∀ text, codec.dumps payload = .ok text → codec.loads text = some payload
      | none => ∀ text, h.foundText run = some text → codec.loads text = none :=
    ⟨fun hsets => hsets hskip hreturned, fun hsets _ _ => hsets⟩
  rw [hcond]
  unfold leftText markDone at *
  cases hpending : run.pending with
  | none =>
    dsimp only
    cases h.foundText run with
    | none => simp
    | some text => simp
  | some payload =>
    rw [hpending] at hdone
    dsimp only at hdone ⊢
    cases hdumps : codec.dumps payload with
    | error e =>
      rw [hdumps] at hdone
      cases hdone
    | ok text => simp [Except.toOption]

/-- A run that is not skipped, by how its block ends. -/
theorem step_of_runs (hskip : h.skips run = false) :
    h.step codec run =
      match run.blockEnd with
      | .crashed => { h with store := h.started run }
      | .raised e =>
        { h with store := (h.started run).markFailed run.exitAt run.cp.key e.describe }
      | .returned =>
        match (h.started run).markDone codec run.exitAt run.cp.key run.pending with
        | .error _ => { h with store := h.started run }
        | .ok store =>
          { store := store
            lastSuccess := Function.update h.lastSuccess run.cp.key (some run.pending) } := by
  unfold step
  rw [enter_of_runs hskip]
  rfl

/-- A run that meets the condition keeps the invariant. -/
theorem Inv.step (hinv : h.Inv codec) (run : CheckpointRun Payload)
    (hrun : h.SetsResult codec run) : (h.step codec run).Inv codec := by
  cases hskip : h.skips run with
  | true =>
    rw [step_of_skips hskip]
    exact hinv
  | false =>
    rw [step_of_runs hskip]
    cases hend : run.blockEnd with
    | crashed => exact hinv.started run
    | raised e => exact hinv.failed run e.describe
    | returned =>
      dsimp only
      cases hdone : (h.started run).markDone codec run.exitAt run.cp.key run.pending with
      | error e => exact hinv.started run
      | ok store =>
        obtain ⟨⟨record, hself, -, -, htext⟩, hother⟩ := markDone_started hdone
        intro key record' hget hstatus
        dsimp only at hget ⊢
        by_cases hkey : key = run.cp.key
        · rw [hkey, hself, Option.some.injEq] at hget
          rw [hkey, Function.update_self, ← hget, htext]
          exact (setsResult_iff hskip hend hdone).mp hrun
        · rw [hother key hkey] at hget
          rw [Function.update_of_ne hkey]
          exact hinv.started run key record' hget hstatus

/-- The invariant says that skipped stages yield their latest results. -/
theorem Inv.yieldsLatest (hinv : h.Inv codec) : h.YieldsLatest codec := by
  intro cp times hskip
  cases hcond : (!cp.force && h.store.isComplete times.checkedAt cp.key) with
  | false =>
    rw [enter_of_runs hcond] at hskip
    cases hskip
  | true =>
    rw [enter_of_skips hcond]
    obtain ⟨-, hcomplete⟩ := Bool.and_eq_true_iff.mp hcond
    obtain ⟨record, -, hget, hdone, -⟩ := CheckpointStore.isComplete_iff.mp hcomplete
    dsimp only [CheckpointStore.getResult]
    rw [hget]
    exact hinv cp.key record hget hdone

/-- After a run that does not meet the condition, its stage is skipped with another result. -/
theorem not_yieldsLatest_step (hrun : ¬h.SetsResult codec run) :
    ¬(h.step codec run).YieldsLatest codec := by
  have hskip : h.skips run = false := by
    by_contra hne
    exact hrun fun hfalse => absurd hfalse hne
  have hreturned : run.blockEnd = .returned := by
    by_contra hne
    exact hrun fun _ heq => absurd heq hne
  rw [step_of_runs hskip, hreturned]
  dsimp only
  cases hdone : (h.started run).markDone codec run.exitAt run.cp.key run.pending with
  | error e =>
    -- A payload that cannot be encoded has no text, so that the condition holds.
    refine absurd (fun _ _ => ?_) hrun
    unfold markDone at hdone
    cases hpending : run.pending with
    | none =>
      rw [hpending] at hdone
      cases hdone
    | some payload =>
      intro text htext
      rw [hpending] at hdone
      dsimp only at hdone
      rw [htext] at hdone
      cases hdone
  | ok store =>
    intro hyields
    obtain ⟨⟨record, hself, hstatus, hdate, htext⟩, -⟩ := markDone_started hdone
    have hcomplete : store.isComplete (run.exitAt + hours store.ttlHours) run.cp.key = true :=
      CheckpointStore.isComplete_iff.mpr
        ⟨record, run.exitAt, hself, hstatus, hdate, by omega⟩
    have hresult := hyields ⟨run.cp.key, false⟩
      ⟨run.exitAt + hours store.ttlHours, run.times.start⟩
    rw [enter_of_skips (by simpa using hcomplete)] at hresult
    dsimp only [CheckpointStore.getResult] at hresult
    rw [hself, Function.update_self] at hresult
    refine hrun ((setsResult_iff hskip hreturned hdone).mpr ?_)
    rw [← htext]
    exact hresult rfl

/-- Skipped stages yield their latest results throughout a sequence of runs, of one stage or of
several, exactly if all runs meet the condition. -/
theorem always_yieldsLatest_iff (codec : JsonCodec Payload) (ttlHours : ℤ)
    (runs : List (CheckpointRun Payload)) :
    Always (step codec) (YieldsLatest codec) { store := { ttlHours := ttlHours } } runs ↔
      Meets (step codec) (SetsResult codec) { store := { ttlHours := ttlHours } } runs := by
  refine always_iff_meets (Inv codec) (fun _ hinv => hinv.yieldsLatest)
    (fun _ run hinv => hinv.step run) (fun _ _ _ => not_yieldsLatest_step) ?_ runs
  intro key record hget
  cases hget

end ResultHistory

/-- Truth values as JSON. -/
def flagCodec : JsonCodec Bool where
  dumps flag := .ok (if flag then "true" else "false")
  loads text := if text = "true" then some true else if text = "false" then some false else none

/-- Ingestion sets a flag; then it is forced to run again, and sets none. -/
def rerunWithoutResult : List (CheckpointRun Bool) :=
  [{ cp := RecoveryManager.ingestCheckpoint, times := ⟨0, ⟨0, 0, 0, 0⟩⟩, exitAt := 1000000,
     pending := some true, blockEnd := .returned },
   { cp := { RecoveryManager.ingestCheckpoint with force := true },
     times := ⟨2000000, ⟨2, 2000000, 2, 2000000⟩⟩, exitAt := 3000000,
     pending := none, blockEnd := .returned }]

/-- After that a checkpoint skips ingestion with the flag of the first run. -/
theorem earlier_result_yielded :
    ¬Always (ResultHistory.step flagCodec) (ResultHistory.YieldsLatest flagCodec)
      { store := {} } rerunWithoutResult := by
  intro h
  have hresult := h.last RecoveryManager.ingestCheckpoint ⟨4000000, ⟨0, 0, 0, 0⟩⟩
    (by decide +kernel)
  exact absurd hresult (by decide +kernel)

end LedgerLens.Pipeline
