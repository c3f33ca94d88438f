import LedgerLens.Library.PyJson
import LedgerLens.Library.Runs
import LedgerLens.Utils.IdempotencyLedger

/-!
# Replays of the idempotency ledger

Calls of `IdempotencyLedger.run` one after the other. A result is stored as JSON after `fn` has
returned, and a later call returns what is read from that. Such a call is one of the calls that
others may come between, with nothing between its steps. This file says for which results a later
call neither executes `fn` again nor returns something else.
-/

namespace LedgerLens.Utils.IdempotencyLedger

open PyJson Transition

/-- A row of `idempotency_jobs`, with the JSON of its result. -/
structure StoredJob where
  /-- `status`. -/
  status : JobStatus
  /-- `input_hash`. -/
  inputHash : String
  /-- `result`. -/
  result : Option Json
  /-- `error`. -/
  error : Option String
  /-- `attempts`. -/
  attempts : ℕ
  /-- `created_at`. -/
  createdAt : ℚ
  /-- `updated_at`. -/
  updatedAt : ℚ

/-- The table. -/
abbrev StoredJobs := UniqueTable String StoredJob

/-- What `fn` does when it is executed. -/
inductive FnOutcome where
  /-- It returns. -/
  | returns (v : PyValue)
  /-- It raises an `Exception`. -/
  | raises (error : String)
  /-- It raises something else. -/
  | interrupted

/-- A call of `run`, with what the clock shows on the way. -/
structure RunCall where
  /-- `key`. -/
  key : String
  /-- `input_payload` as canonical JSON text. -/
  payload : String
  /-- `lease_seconds`. -/
  leaseSeconds : ℚ
  /-- What `fn` does. -/
  fn : FnOutcome
  /-- The time in `_begin_attempt`. -/
  begun : ℚ
  /-- The time of the lease's age. -/
  checked : ℚ
  /-- The time in `_touch_pending`. -/
  touched : ℚ
  /-- The time in `_mark_success` and in `_mark_failed`. -/
  marked : ℚ

/-- How a call ends. -/
inductive RunResult where
  /-- The result of `fn`. -/
  | returned (v : PyValue)
  /-- The result of an earlier call, without executing `fn`. -/
  | replayed (v : PyValue)
  /-- `IdempotencyConflictError`. -/
  | conflict
  /-- `ConcurrentExecutionError`. -/
  | concurrent (leaseAge : ℚ)
  /-- The exception of `fn`. -/
  | raised (error : String)
  /-- An exception of `fn` that is no `Exception`. -/
  | interrupted
  /-- The `TypeError` of `json.dumps`. -/
  | typeError

/-- `_row_to_record(row).result`. -/
def StoredJob.value (row : StoredJob) : PyValue :=
  match row.result with
  | some text => loads text
  | none => .none

/-- `_begin_attempt`: the table, the row of the key and whether it is a new one. -/
def beginAttempt (table : StoredJobs) (call : RunCall) : StoredJobs × StoredJob × Bool :=
  match table.find? call.key with
  | some row => (table, row, false)
  | none =>
    let row : StoredJob :=
      ⟨.pending, hashPayload call.payload, none, none, 0, call.begun, call.begun⟩
    (table.put call.key row, row, true)

/-- The execution of `fn` at the end of `run`. -/
def executeFn (table : StoredJobs) (call : RunCall) : StoredJobs × RunResult :=
  match call.fn with
  | .raises error =>
    (table.modify call.key fun row =>
      { row with
        status := .failed
        error := some error
        attempts := row.attempts + 1
        updatedAt := call.marked }, .raised error)
  | .interrupted => (table, .interrupted)
  | .returns v =>
    match dumps v with
    | none => (table, .typeError)
    | some text =>
      (table.modify call.key fun row =>
        { row with
          status := .success
          result := some text
          error := none
          attempts := row.attempts + 1
          updatedAt := call.marked }, .returned v)

/-- `run`: the table, whether `fn` is executed, and how the call ends. -/
def run (table : StoredJobs) (call : RunCall) : StoredJobs × Bool × RunResult :=
  let (table, record, created) := beginAttempt table call
  if record.inputHash ≠ hashPayload call.payload then (table, false, .conflict)
  else if record.status = .success then (table, false, .replayed record.value)
  else if created = false ∧ record.status = .pending then
    if call.checked - record.updatedAt < call.leaseSeconds then
      (table, false, .concurrent (call.checked - record.updatedAt))
    else
      let table := table.modify call.key fun row =>
        { row with status := .pending, attempts := row.attempts + 1, updatedAt := call.touched }
      ((executeFn table call).1, true, (executeFn table call).2)
  else ((executeFn table call).1, true, (executeFn table call).2)

/-- What `fn` returns in a call. -/
def returnedBy (executed : Bool) (call : RunCall) : List (String × String × PyValue) :=
  match executed, call.fn with
  | true, .returns v => [(call.key, call.payload, v)]
  | _, _ => []

/-- The calls so far. -/
structure RunHistory where
  /-- The table. -/
  table : StoredJobs
  /-- What `fn` has returned normally, with the key and the payload of the call. -/
  returned : List (String × String × PyValue)
  /-- After a normal return, no call with the same key and payload has executed `fn` again, and
  each has returned an equal value. -/
  Sound : Prop

/-- A call gives back a value without executing `fn`. -/
def GivesBack (v : PyValue) (executed : Bool) (result : RunResult) : Prop :=
  executed = false ∧ ∃ w, result = .replayed w ∧ v.Equal w

/-- One more call. -/
def RunHistory.step (h : RunHistory) (call : RunCall) : RunHistory where
  table := (run h.table call).1
  returned := returnedBy (run h.table call).2.1 call ++ h.returned
  Sound := h.Sound ∧ ∀ v, (call.key, call.payload, v) ∈ h.returned →
    GivesBack v (run h.table call).2.1 (run h.table call).2.2

/-- No call so far. -/
def RunHistory.start (table : StoredJobs) : RunHistory where
  table := table
  returned := []
  Sound := True

/-- A key has succeeded with a result. -/
def Completed (table : StoredJobs) (key payload : String) (text : Json) : Prop :=
  ∃ row, table.find? key = some row ∧ row.status = .success ∧
    row.inputHash = hashPayload payload ∧ row.result = some text

section Run

variable {table : StoredJobs} {call : RunCall}

/-- A call does not touch other keys. -/
theorem find?_run_of_ne {key : String} (hne : key ≠ call.key) :
    (run table call).1.find? key = table.find? key := by
  have hbegin : (beginAttempt table call).1.find? key = table.find? key := by
    unfold beginAttempt
    cases table.find? call.key with
    | some row => rfl
    | none =>
      dsimp only
      rw [UniqueTable.find?_put, if_neg hne]
  have hexecute : ∀ t : StoredJobs, (executeFn t call).1.find? key = t.find? key := by
    intro t
    unfold executeFn
    cases call.fn with
    | raises error =>
      dsimp only
      rw [UniqueTable.find?_modify, if_neg hne]
    | interrupted => rfl
    | returns v =>
      dsimp only
      cases dumps v with
      | none => rfl
      | some text =>
        dsimp only
        rw [UniqueTable.find?_modify, if_neg hne]
  unfold run
  dsimp only
  split_ifs
  · exact hbegin
  · exact hbegin
  · exact hbegin
  · dsimp only
    rw [hexecute, UniqueTable.find?_modify, if_neg hne, hbegin]
  · dsimp only
    rw [hexecute, hbegin]

/-- A key that has succeeded is replayed, unless the payload is another one. -/
theorem run_of_success {row : StoredJob} (hfind : table.find? call.key = some row)
    (hstatus : row.status = .success) :
    run table call = if row.inputHash ≠ hashPayload call.payload then (table, false, .conflict)
      else (table, false, .replayed row.value) := by
  have hbegin : beginAttempt table call = (table, row, false) := by
    unfold beginAttempt
    rw [hfind]
  unfold run
  rw [hbegin]
  dsimp only
  rw [if_pos hstatus]

/-- A key that has succeeded stays as it is. -/
theorem Completed.run {key payload : String} {text : Json} (h : Completed table key payload text) :
    Completed (IdempotencyLedger.run table call).1 key payload text := by
  obtain ⟨row, hfind, hstatus, hhash, hresult⟩ := h
  refine ⟨row, ?_, hstatus, hhash, hresult⟩
  by_cases hkey : key = call.key
  · subst hkey
    rw [run_of_success hfind hstatus]
    split_ifs
    · exact hfind
    · exact hfind
  · rw [find?_run_of_ne hkey]
    exact hfind

/-- A key that has succeeded gives its result back. -/
theorem Completed.givesBack {text : Json} (h : Completed table call.key call.payload text)
    {v : PyValue} (hequal : v.Equal (loads text)) :
    GivesBack v (IdempotencyLedger.run table call).2.1 (IdempotencyLedger.run table call).2.2 := by
  obtain ⟨row, hfind, hstatus, hhash, hresult⟩ := h
  rw [run_of_success hfind hstatus, if_neg (not_not.mpr hhash)]
  refine ⟨rfl, row.value, rfl, ?_⟩
  unfold StoredJob.value
  rw [hresult]
  exact hequal

/-- The row of a key after `_begin_attempt`. -/
theorem find?_beginAttempt (table : StoredJobs) (call : RunCall) :
    (beginAttempt table call).1.find? call.key = some (beginAttempt table call).2.1 := by
  unfold beginAttempt
  cases hfind : table.find? call.key with
  | some row => exact hfind
  | none =>
    dsimp only
    rw [UniqueTable.find?_put, if_pos rfl]

/-- A call that executes `fn` does so when the row of its key has its payload. -/
theorem exists_of_executed (h : (run table call).2.1 = true) :
    ∃ t row, t.find? call.key = some row ∧ row.inputHash = hashPayload call.payload ∧
      (run table call).1 = (executeFn t call).1 := by
  have hfind := find?_beginAttempt table call
  unfold run at h ⊢
  dsimp only at h ⊢
  split_ifs at h ⊢ with hhash hsuccess hpending hlease
  · refine ⟨_, { (beginAttempt table call).2.1 with
      status := .pending
      attempts := (beginAttempt table call).2.1.attempts + 1
      updatedAt := call.touched }, ?_, not_not.mp hhash, rfl⟩
    rw [UniqueTable.find?_modify, if_pos rfl, hfind]
    rfl
  · exact ⟨_, _, hfind, not_not.mp hhash, rfl⟩

theorem mem_returnedBy_iff {executed : Bool} {key payload : String} {v : PyValue} :
    (key, payload, v) ∈ returnedBy executed call ↔
      executed = true ∧ call.fn = .returns v ∧ key = call.key ∧ payload = call.payload := by
  unfold returnedBy
  cases executed with
  | false => simp
  | true =>
    cases call.fn with
    | raises error => simp
    | interrupted => simp
    | returns w =>
      simp
      tauto

/-- A key has succeeded when `fn` has returned a value with a text. -/
theorem completed_of_returned {v : PyValue} {text : Json} (htext : dumps v = some text)
    (hexecuted : (run table call).2.1 = true) (hfn : call.fn = .returns v) :
    Completed (run table call).1 call.key call.payload text := by
  obtain ⟨t, row, hfind, hhash, htable⟩ := exists_of_executed hexecuted
  rw [htable]
  unfold executeFn
  rw [hfn]
  dsimp only
  rw [htext]
  dsimp only
  refine ⟨{ row with
    status := .success
    result := some text
    error := none
    attempts := row.attempts + 1
    updatedAt := call.marked }, ?_, rfl, hhash, rfl⟩
  rw [UniqueTable.find?_modify, if_pos rfl, hfind]
  rfl

/-- What is given back has been read from JSON. -/
theorem exists_of_replayed {w : PyValue} (h : (run table call).2.2 = .replayed w) :
    ∃ text, w = loads text := by
  have hvalue : ∀ row : StoredJob, ∃ text, row.value = loads text := by
    intro row
    unfold StoredJob.value
    cases row.result with
    | none => exact ⟨.null, rfl⟩
    | some text => exact ⟨text, rfl⟩
  have hexecute : ∀ t : StoredJobs, (executeFn t call).2 ≠ .replayed w := by
    intro t
    unfold executeFn
    cases call.fn with
    | raises error => simp
    | interrupted => simp
    | returns v =>
      dsimp only
      cases dumps v with
      | none => simp
      | some text => simp
  unfold run at h
  dsimp only at h
  split_ifs at h
  · rw [← RunResult.replayed.inj h]
    exact hvalue (beginAttempt table call).2.1
  · exact absurd h (hexecute _)
  · exact absurd h (hexecute _)

end Run

section Steps

variable (render : Json → String)

/-- The row with its JSON as a text. -/
def StoredJob.record (row : StoredJob) : JobRecord where
  status := row.status
  inputHash := row.inputHash
  result := row.result.map render
  error := row.error
  attempts := row.attempts
  createdAt := row.createdAt
  updatedAt := row.updatedAt

/-- The table with its JSON as texts. -/
def records (table : StoredJobs) : JobTable := table.mapRows fun _ row => row.record render

/-- The arguments of a call. -/
def RunCall.arguments (call : RunCall) : Call PyValue where
  key := call.key
  payload := call.payload
  leaseSeconds := call.leaseSeconds
  dumps := fun v => (dumps v).map render

/-- The end of `fn`. -/
def FnOutcome.act : FnOutcome → Act PyValue
  | .returns v => .fnReturns v
  | .raises error => .fnRaises error
  | .interrupted => .fnInterrupted

/-- The steps of a call that nothing comes between. -/
def RunCall.acts (call : RunCall) : List (Act PyValue) :=
  -- A call that is over, or is in `fn` already, stays where it is in the steps to the end of `fn`.
  [.clock call.begun, .statement, .statement, .statement] ++
    ([.clock call.checked, .statement] ++
      ([.clock call.touched, .statement, .statement] ++
        [call.fn.act, .clock call.marked, .statement]))

/-- How a call ends, with the JSON of a result that is given back as a text. -/
inductive RunResult.Shows : RunResult → Outcome PyValue → Prop
  | returned (v : PyValue) : Shows (.returned v) (.returned v)
  | replayed (row : StoredJob) :
    Shows (.replayed row.value) (.replayed (row.record render).result)
  | conflict (expectedHash actualHash : String) :
    Shows .conflict (.conflict expectedHash actualHash)
  | concurrent (leaseAge : ℚ) : Shows (.concurrent leaseAge) (.concurrent leaseAge)
  | raised (error : String) : Shows (.raised error) (.raised error)
  | interrupted : Shows .interrupted .interrupted
  | typeError : Shows .typeError .typeError

/-- A call is over, with a table, a number of normal returns of `fn` and a result. -/
def Ends (table : StoredJobs) (returns : ℕ) (result : RunResult) (s : Ledger × Phase PyValue) :
    Prop :=
  s.1.table = records render table ∧ s.1.normalReturns = returns ∧
    ∃ outcome, s.2 = .finished outcome ∧ result.Shows render outcome

/-- The steps of a call. -/
def RunCall.execSteps (call : RunCall) (s : Ledger × Phase PyValue) (acts : List (Act PyValue)) :
    Ledger × Phase PyValue :=
  exec (fun s act => (call.arguments render).step act s.1 s.2) s acts

variable {render} {table : StoredJobs} {call : RunCall}

/-- Writing to a row before or after its JSON is made a text. -/
theorem records_modify {key : String} {f : StoredJob → StoredJob} {g : JobRecord → JobRecord}
    (h : ∀ row : StoredJob, (f row).record render = g (row.record render)) :
    records render (table.modify key f) = (records render table).modify key g :=
  UniqueTable.mapRows_modify h

/-- `fn` and what is written about it are the last steps of a call. -/
theorem ends_executeFn {ledger : Ledger} (claim : Option ℚ)
    (htable : ledger.table = records render table) :
    Ends render (executeFn table call).1
      (ledger.normalReturns + (returnedBy true call).length) (executeFn table call).2
      (call.execSteps render (ledger, .executing claim)
        [call.fn.act, .clock call.marked, .statement]) := by
  unfold RunCall.execSteps executeFn returnedBy
  cases call.fn with
  | raises error =>
    refine ⟨?_, rfl, _, rfl, .raised error⟩
    change markFailed ledger.table call.key error call.marked = _
    rw [htable]
    exact (records_modify fun _ => rfl).symm
  | interrupted => exact ⟨htable, rfl, _, rfl, .interrupted⟩
  | returns v =>
    change Ends render _ _ _ ((call.arguments render).statement
      { ledger with normalReturns := ledger.normalReturns + 1, clock := call.marked }
      (.returned claim v))
    have hdumps : (call.arguments render).dumps v = (dumps v).map render := rfl
    rw [Call.statement, hdumps]
    dsimp only
    cases dumps v with
    | none => exact ⟨htable, rfl, _, rfl, .typeError⟩
    | some text =>
      refine ⟨?_, rfl, _, rfl, .returned v⟩
      change markSuccess ledger.table call.key (render text) call.marked = _
      rw [htable]
      exact (records_modify fun _ => rfl).symm

/-- A call that is over stays so. -/
theorem execSteps_finished (acts : List (Act PyValue)) (ledger : Ledger)
    (outcome : Outcome PyValue) :
    (call.execSteps render (ledger, .finished outcome) acts).1.table = ledger.table ∧
      (call.execSteps render (ledger, .finished outcome) acts).1.normalReturns =
        ledger.normalReturns ∧
      (call.execSteps render (ledger, .finished outcome) acts).2 = .finished outcome := by
  induction acts generalizing ledger with
  | nil => exact ⟨rfl, rfl, rfl⟩
  | cons act acts ih =>
    cases act with
    | clock now => exact ih { ledger with clock := now }
    | statement => exact ih ledger
    | fnReturns v => exact ih ledger
    | fnRaises error => exact ih ledger
    | fnInterrupted => exact ih ledger

/-- A call that is over with a result ends with it. -/
theorem ends_of_finished {ledger : Ledger} {outcome : Outcome PyValue} {result : RunResult}
    (htable : ledger.table = records render table) (hshows : result.Shows render outcome)
    (acts : List (Act PyValue)) :
    Ends render table ledger.normalReturns result
      (call.execSteps render (ledger, .finished outcome) acts) := by
  obtain ⟨hsame, hreturns, hfinished⟩ := execSteps_finished acts ledger outcome
  exact ⟨hsame.trans htable, hreturns, outcome, hfinished, hshows⟩

/-- The first steps of a call are those of `_begin_attempt`. -/
theorem execSteps_beginAttempt (call : RunCall) {ledger : Ledger}
    (htable : ledger.table = records render table) :
    call.execSteps render (ledger, .called)
        [.clock call.begun, .statement, .statement, .statement] =
      ({ ledger with
          table := records render (beginAttempt table call).1
          clock := call.begun },
        .hasRead (beginAttempt table call).2.2 call.begun
          ((beginAttempt table call).2.1.record render)) := by
  have hinsert : insertOrIgnore ledger.table call.key (hashPayload call.payload) call.begun =
      (records render (beginAttempt table call).1, (beginAttempt table call).2.2) := by
    unfold insertOrIgnore beginAttempt
    rw [htable]
    cases hfind : table.find? call.key with
    | some row =>
      have htaken : (records render table).find? call.key ≠ none := by
        simp [records, hfind]
      rw [(UniqueTable.insert?_eq_none_iff _ _ _).mpr htaken]
    | none =>
      have hnew : (records render table).insert? call.key
          ⟨.pending, hashPayload call.payload, none, none, 0, call.begun, call.begun⟩ =
          some (records render (table.put call.key
            ⟨.pending, hashPayload call.payload, none, none, 0, call.begun, call.begun⟩)) :=
        UniqueTable.insert?_mapRows hfind
          ⟨.pending, hashPayload call.payload, none, none, 0, call.begun, call.begun⟩
      rw [hnew]
  have hread : (records render (beginAttempt table call).1).find? call.key =
      some ((beginAttempt table call).2.1.record render) := by
    unfold records
    rw [UniqueTable.find?_mapRows, find?_beginAttempt]
    rfl
  change (call.arguments render).statement
    { ledger with
      table := (insertOrIgnore ledger.table call.key (hashPayload call.payload) call.begun).1
      clock := call.begun }
    (.inserted (insertOrIgnore ledger.table call.key (hashPayload call.payload) call.begun).2
      call.begun) = _
  rw [hinsert, Call.statement]
  have hkey : (call.arguments render).key = call.key := rfl
  rw [hkey]
  dsimp only
  rw [hread]

/-- Where nothing comes between its steps, a call ends as `run` says. -/
theorem ends_run {ledger : Ledger} (htable : ledger.table = records render table) :
    Ends render (run table call).1
      (ledger.normalReturns + (returnedBy (run table call).2.1 call).length) (run table call).2.2
      (call.execSteps render (ledger, .called) call.acts) := by
  have hfirst := execSteps_beginAttempt call htable
  unfold run
  generalize beginAttempt table call = attempt at hfirst ⊢
  obtain ⟨begun, record, created⟩ := attempt
  dsimp only at hfirst ⊢
  have hcheck : (call.arguments render).check call.checked created call.begun
      (record.record render) =
        if record.inputHash ≠ hashPayload call.payload then
          .finished (.conflict record.inputHash (hashPayload call.payload))
        else if record.status = .success then .finished (.replayed (record.record render).result)
        else if created = false ∧ record.status = .pending then
          if call.checked - record.updatedAt < call.leaseSeconds then
            .finished (.concurrent (call.checked - record.updatedAt))
          else .reclaiming
        else .executing (if created then some call.begun else none) := rfl
  have hsteps : call.execSteps render (ledger, .called) call.acts =
      call.execSteps render
        ({ ledger with
            table := records render begun
            clock := call.checked },
          (call.arguments render).check call.checked created call.begun (record.record render))
        ([.clock call.touched, .statement, .statement] ++
          [call.fn.act, .clock call.marked, .statement]) := by
    unfold RunCall.execSteps at hfirst ⊢
    rw [RunCall.acts, exec_append, hfirst, exec_append]
    rfl
  have htouched : touchPending (records render begun) call.key call.touched =
      records render (begun.modify call.key fun row =>
        { row with
          status := .pending
          attempts := row.attempts + 1
          updatedAt := call.touched }) := (records_modify fun _ => rfl).symm
  rw [hsteps, hcheck]
  split_ifs with hhash hsuccess hpending hlease hcreated
  · exact ends_of_finished rfl (.conflict _ _) _
  · exact ends_of_finished rfl (.replayed record) _
  · exact ends_of_finished rfl (.concurrent _) _
  · exact ends_executeFn (some call.touched) htouched
  · exact ends_executeFn (some call.begun) rfl
  · exact ends_executeFn none rfl

/-- The first call for a key, whose `fn` raises. -/
theorem ends_run_raises :
    let call : RunCall := ⟨"job", "null", 300, .raises "timeout", 0, 0, 0, 1⟩
    let ledger : Ledger := ⟨.empty, 0, 0⟩
    Ends (fun _ => "null") (run .empty call).1
      (ledger.normalReturns + (returnedBy (run .empty call).2.1 call).length)
      (run .empty call).2.2 (call.execSteps (fun _ => "null") (ledger, .called) call.acts) :=
  ends_run rfl

end Steps

/-- The condition on a call: what `fn` has returned for its key and payload is plain. -/
def PlainSoFar (h : RunHistory) (call : RunCall) : Prop :=
  ∀ v, (call.key, call.payload, v) ∈ h.returned → v.Plain

/-- The calls so far are sound, and what `fn` has returned is stored if it has a text. -/
structure ReplayInvariant (h : RunHistory) : Prop where
  /-- The calls so far are sound. -/
  sound : h.Sound
  /-- The keys have succeeded. -/
  completed : ∀ key payload v, (key, payload, v) ∈ h.returned → ∀ text, dumps v = some text →
    Completed h.table key payload text

section History

variable {h : RunHistory} {call : RunCall}

/-- A call keeps the invariant if what has been returned for it is plain. -/
theorem ReplayInvariant.step (hinv : ReplayInvariant h) (hplain : PlainSoFar h call) :
    ReplayInvariant (h.step call) where
  sound := by
    refine ⟨hinv.sound, fun v hv => ?_⟩
    obtain ⟨text, htext, hequal⟩ := equal_loads_of_plain (hplain v hv)
    exact (hinv.completed _ _ v hv text htext).givesBack hequal
  completed := by
    intro key payload v hv text htext
    obtain hv | hv := List.mem_append.mp hv
    · obtain ⟨hexecuted, hfn, rfl, rfl⟩ := mem_returnedBy_iff.mp hv
      exact completed_of_returned htext hexecuted hfn
    · exact (hinv.completed key payload v hv text htext).run

/-- A call is sound only if what has been returned for it is plain. -/
theorem plainSoFar_of_sound (hsound : (h.step call).Sound) : PlainSoFar h call := by
  intro v hv
  obtain ⟨-, w, hw, hequal⟩ := hsound.2 v hv
  obtain ⟨text, rfl⟩ := exists_of_replayed hw
  exact plain_of_equal_loads hequal

theorem ReplayInvariant.start (table : StoredJobs) : ReplayInvariant (.start table) where
  sound := trivial
  completed := by
    intro key payload v hv
    cases hv

end History

/-- In calls one after the other, no call after a normal return executes `fn` again or gives back
anything but an equal value, exactly as long as no call has the key and the payload of one for which
`fn` returned a value that is not plain. -/
theorem replays_iff (table : StoredJobs) (calls : List RunCall) :
    Always RunHistory.step RunHistory.Sound (.start table) calls ↔
      Meets RunHistory.step PlainSoFar (.start table) calls :=
  always_iff_meets ReplayInvariant (fun _ hinv => hinv.sound)
    (fun _ _ hinv hplain => hinv.step hplain)
    (fun _ _ _ hplain hsound => hplain (plainSoFar_of_sound hsound)) (.start table) calls

/-- A call whose `fn` returns a value. -/
private def returningCall (v : PyValue) (now : ℚ) : RunCall where
  key := "job"
  payload := "null"
  leaseSeconds := 300
  fn := .returns v
  begun := now
  checked := now
  touched := now
  marked := now

/-- A tuple is given back as a list. After a value that JSON does not have, `fn` is executed once
more when the lease is over. -/
theorem replays_not_given_back :
    ¬Always RunHistory.step RunHistory.Sound (.start .empty)
      [returningCall (.tuple 0 Fin.elim0) 0, returningCall (.tuple 0 Fin.elim0) 1] ∧
      (run (run .empty (returningCall (.other 0) 0)).1
        (returningCall (.other 0) 301)).2.1 = true := by
  constructor
  · rintro ⟨-, -, hsound⟩
    have hexecuted : (run .empty (returningCall (.tuple 0 Fin.elim0) 0)).2.1 = true := by
      simp [run, beginAttempt, returningCall]
    refine plainSoFar_of_sound hsound (.tuple 0 Fin.elim0) (List.mem_append_left _ ?_)
    exact mem_returnedBy_iff.mpr ⟨hexecuted, rfl, rfl, rfl⟩
  · have hfirst : (run .empty (returningCall (.other 0) 0)).1 =
        UniqueTable.put .empty "job" ⟨.pending, hashPayload "null", none, none, 0, 0, 0⟩ := by
      simp [run, beginAttempt, executeFn, returningCall, dumps]
    have hlease : ¬(301 : ℚ) < 300 := by decide +kernel
    rw [hfirst]
    simp [run, beginAttempt, returningCall, hlease]

end LedgerLens.Utils.IdempotencyLedger
