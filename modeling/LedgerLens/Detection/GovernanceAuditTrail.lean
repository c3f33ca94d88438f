import LedgerLens.Library.Runs
import LedgerLens.Library.UniqueTable

/-!
# The audit trail of governance events

`AuditTrail` answers from a store in memory and writes each change through to a table. The
store changes first. When the write fails, the call raises, and a retry of
`record_governance_event` finds the event in the store and returns without writing. This
file shows in which runs every call that returns has its event in the table.

`json.dumps` and `json.loads` are parameters, and so are the payloads and the times.
-/

namespace LedgerLens.Detection

open Transition

/-- `AuditEntry`: one governance event with its justification. -/
structure AuditEntry (Data Time : Type*) where
  /-- The identifier of the event. -/
  eventId : String
  /-- The kind of governance action. -/
  eventType : String
  /-- The payload. -/
  eventData : Data
  /-- When the event was observed. -/
  timestamp : Time
  /-- The justification, once there is one. -/
  justification : Option String
  /-- Who gave it. -/
  submitter : Option String
  /-- When it was linked. -/
  correlatedAt : Option Time
  deriving DecidableEq

/-- `_AuditEntryRecord`, stored under its unique `event_id`. -/
structure AuditEntryRecord (Time : Type*) where
  /-- The kind of governance action. -/
  eventType : String
  /-- The payload as text. -/
  eventDataJson : String
  /-- When the event was observed. -/
  timestamp : Time
  /-- The justification, once there is one. -/
  justification : Option String
  /-- Who gave it. -/
  submitter : Option String
  /-- When it was linked. -/
  correlatedAt : Option Time
  deriving DecidableEq

/-- `AuditTrail` with its database. -/
structure AuditTrail (Data Time : Type*) where
  /-- `_store`. -/
  store : UniqueTable String (AuditEntry Data Time)
  /-- `_use_db`. -/
  useDb : Bool
  /-- `governance_audit_entries`. -/
  db : UniqueTable String (AuditEntryRecord Time)

/-- What the calls raise. -/
inductive AuditTrailError where
  /-- `KeyError`: the event has not been recorded. -/
  | notFound (eventId : String)
  /-- `json.dumps` raises. -/
  | notSerialisable (reason : String)
  /-- The database raises. -/
  | database (reason : String)
  deriving DecidableEq

/-- How a write fails. -/
inductive WriteFault where
  /-- Nothing is written. -/
  | rolledBack (reason : String)
  /-- The row is written, but the answer does not arrive. -/
  | unacknowledged (reason : String)
  deriving DecidableEq

/-- A call, with what happens to its write, or a new `AuditTrail` over the same database. -/
inductive AuditTrailCall (Data Time : Type*) where
  /-- `record_governance_event`. -/
  | recordGovernanceEvent (eventId eventType : String) (eventData : Data) (timestamp : Time)
      (fault : Option WriteFault)
  /-- `add_justification`, at a time. -/
  | addJustification (eventId justification submitter : String) (now : Time)
      (fault : Option WriteFault)
  /-- The process ends and another one opens the trail. -/
  | restart

variable {Data Time : Type*}

namespace AuditTrail

section Operations

variable (dumps : Data → Except String String) (loads : String → Data)

/-- `json.loads(row.event_data_json or "\x7b\x7d")`. -/
def loadData (eventDataJson : String) : Data :=
  loads (if eventDataJson = "" then "\x7b\x7d" else eventDataJson)

/-- The entry that `_load_from_db` makes of a row. -/
def loadRow (eventId : String) (row : AuditEntryRecord Time) : AuditEntry Data Time :=
  ⟨eventId, row.eventType, loadData loads row.eventDataJson, row.timestamp, row.justification,
    row.submitter, row.correlatedAt⟩

/-- `AuditTrail(db_url)`: `_init_db` with `_load_from_db`. -/
def openDb (db : UniqueTable String (AuditEntryRecord Time)) : AuditTrail Data Time where
  store := db.mapRows (loadRow loads)
  useDb := true
  db := db

/-- `session.commit()` of a changed table. -/
def commit (trail : AuditTrail Data Time) (db : UniqueTable String (AuditEntryRecord Time)) :
    Option WriteFault → Except AuditTrailError Unit × AuditTrail Data Time
  | none => (.ok (), { trail with db := db })
  | some (.rolledBack reason) => (.error (.database reason), trail)
  | some (.unacknowledged reason) => (.error (.database reason), { trail with db := db })

/-- The table with the row of an entry: a row that is there keeps its payload. -/
def writeRow (db : UniqueTable String (AuditEntryRecord Time)) (entry : AuditEntry Data Time) :
    Except AuditTrailError (UniqueTable String (AuditEntryRecord Time)) :=
  match db.find? entry.eventId with
  | none =>
    match dumps entry.eventData with
    | .error reason => .error (.notSerialisable reason)
    | .ok text => .ok (db.put entry.eventId ⟨entry.eventType, text, entry.timestamp,
        entry.justification, entry.submitter, entry.correlatedAt⟩)
  | some _ => .ok (db.modify entry.eventId fun row =>
      { row with
        justification := entry.justification
        submitter := entry.submitter
        correlatedAt := entry.correlatedAt })

/-- `_persist_entry`. -/
def persistEntry (trail : AuditTrail Data Time) (entry : AuditEntry Data Time)
    (fault : Option WriteFault) : Except AuditTrailError Unit × AuditTrail Data Time :=
  if trail.useDb then
    match writeRow dumps trail.db entry with
    | .error e => (.error e, trail)
    | .ok db => trail.commit db fault
  else (.ok (), trail)

/-- The entry goes into the store, then into the database. -/
def save (trail : AuditTrail Data Time) (entry : AuditEntry Data Time)
    (fault : Option WriteFault) :
    Except AuditTrailError (AuditEntry Data Time) × AuditTrail Data Time :=
  match persistEntry dumps { trail with store := trail.store.put entry.eventId entry } entry
      fault with
  | (.ok _, trail') => (.ok entry, trail')
  | (.error e, trail') => (.error e, trail')

/-- `record_governance_event`. -/
def recordGovernanceEvent (trail : AuditTrail Data Time) (eventId eventType : String)
    (eventData : Data) (timestamp : Time) (fault : Option WriteFault) :
    Except AuditTrailError (AuditEntry Data Time) × AuditTrail Data Time :=
  match trail.store.find? eventId with
  | some entry => (.ok entry, trail)
  | none => trail.save dumps ⟨eventId, eventType, eventData, timestamp, none, none, none⟩ fault

/-- `add_justification`. -/
def addJustification (trail : AuditTrail Data Time) (eventId justification submitter : String)
    (now : Time) (fault : Option WriteFault) :
    Except AuditTrailError (AuditEntry Data Time) × AuditTrail Data Time :=
  match trail.store.find? eventId with
  | none => (.error (.notFound eventId), trail)
  | some entry => trail.save dumps
      { entry with
        justification := some justification
        submitter := some submitter
        correlatedAt := some now } fault

/-- The entry that a call returns, if it returns one, and the trail after it. -/
def perform (trail : AuditTrail Data Time) :
    AuditTrailCall Data Time →
      Option (Except AuditTrailError (AuditEntry Data Time)) × AuditTrail Data Time
  | .recordGovernanceEvent eventId eventType eventData timestamp fault =>
    let (r, trail') := trail.recordGovernanceEvent dumps eventId eventType eventData timestamp fault
    (some r, trail')
  | .addJustification eventId justification submitter now fault =>
    let (r, trail') := trail.addJustification dumps eventId justification submitter now fault
    (some r, trail')
  | .restart => (none, openDb loads trail.db)

/-- The trail after a call. -/
def trailStep (trail : AuditTrail Data Time) (call : AuditTrailCall Data Time) :
    AuditTrail Data Time :=
  (trail.perform dumps loads call).2

/-- When the call returns an entry, then the store has that entry and the database has a row
that reads back as it. -/
def ReturnsSaved (trail : AuditTrail Data Time) (call : AuditTrailCall Data Time) : Prop :=
  ∀ entry, (trail.perform dumps loads call).1 = some (.ok entry) →
    (trailStep dumps loads trail call).store.find? entry.eventId = some entry ∧
      ((trailStep dumps loads trail call).db.find? entry.eventId).map
        (loadRow loads entry.eventId) = some entry

/-- The last write for the event did not arrive: it has no row, or the row has another
justification than the entry in memory. -/
def Unsaved (trail : AuditTrail Data Time) (entry : AuditEntry Data Time) : Prop :=
  ∀ row, trail.db.find? entry.eventId = some row →
    (row.justification, row.submitter, row.correlatedAt) ≠
      (entry.justification, entry.submitter, entry.correlatedAt)

/-- The payload that the database has for the event, or else would be given, reads back as
the one in memory. -/
def DataKept (trail : AuditTrail Data Time) (entry : AuditEntry Data Time) : Prop :=
  match trail.db.find? entry.eventId with
  | some row => loadData loads row.eventDataJson = entry.eventData
  | none => ∀ text, dumps entry.eventData = .ok text → loadData loads text = entry.eventData

/-- A call does not return early for an event whose last write failed, and does not save a
payload that does not survive `json.dumps` and `json.loads`. -/
def SavesEntry (trail : AuditTrail Data Time) : AuditTrailCall Data Time → Prop
  | .recordGovernanceEvent eventId eventType eventData timestamp fault =>
    match trail.store.find? eventId with
    | some entry => ¬trail.Unsaved entry ∧ trail.DataKept dumps loads entry
    | none => fault = none →
        trail.DataKept dumps loads ⟨eventId, eventType, eventData, timestamp, none, none, none⟩
  | .addJustification eventId _ _ _ fault =>
    ∀ entry, trail.store.find? eventId = some entry → fault = none →
      trail.DataKept dumps loads entry
  | .restart => True

end Operations

/-- The store and the database agree on what a row never changes, and the store has every
event of the database. -/
structure InStep (trail : AuditTrail Data Time) : Prop where
  /-- The trail has a database. -/
  useDb : trail.useDb = true
  /-- The entries of the store have the identifiers they are stored under. -/
  ids : ∀ eventId entry, trail.store.find? eventId = some entry → entry.eventId = eventId
  /-- A row belongs to an entry of the store, of the same kind and time. -/
  rows : ∀ eventId row, trail.db.find? eventId = some row →
    ∃ entry, trail.store.find? eventId = some entry ∧
      row.eventType = entry.eventType ∧ row.timestamp = entry.timestamp

variable {dumps : Data → Except String String} {loads : String → Data}
  {trail : AuditTrail Data Time} {entry : AuditEntry Data Time} {fault : Option WriteFault}

/-- A trail that was just opened is in step. -/
theorem inStep_openDb (db : UniqueTable String (AuditEntryRecord Time)) :
    (openDb loads db : AuditTrail Data Time).InStep where
  useDb := rfl
  ids eventId entry h := by
    simp only [openDb, UniqueTable.find?_mapRows, Option.map_eq_some_iff] at h
    obtain ⟨row, _, rfl⟩ := h
    rfl
  rows eventId row h := by
    have hrow : db.find? eventId = some row := h
    refine ⟨loadRow loads eventId row, ?_, rfl, rfl⟩
    simp [openDb, hrow]

/-- A row that the database has for an entry is of its kind and time. -/
def RowFits (trail : AuditTrail Data Time) (entry : AuditEntry Data Time) : Prop :=
  ∀ row, trail.db.find? entry.eventId = some row →
    row.eventType = entry.eventType ∧ row.timestamp = entry.timestamp

/-- A row that is written is the entry's, with the payload that the database had or is given. -/
theorem writeRow_ok {db : UniqueTable String (AuditEntryRecord Time)}
    (hfits : trail.RowFits entry) (h : writeRow dumps trail.db entry = .ok db) :
    (∀ eventId, eventId ≠ entry.eventId → db.find? eventId = trail.db.find? eventId) ∧
      ∃ text, db.find? entry.eventId = some ⟨entry.eventType, text, entry.timestamp,
          entry.justification, entry.submitter, entry.correlatedAt⟩ ∧
        ∀ loads, trail.DataKept dumps loads entry ↔ loadData loads text = entry.eventData := by
  unfold writeRow at h
  unfold DataKept
  cases hrow : trail.db.find? entry.eventId with
  | none =>
    rw [hrow] at h
    cases hdumps : dumps entry.eventData with
    | error reason => simp [hdumps] at h
    | ok text =>
      simp only [hdumps, Except.ok.injEq] at h
      subst h
      refine ⟨fun eventId hne => by simp [hne], text, by simp, fun loads => ?_⟩
      constructor
      · intro hkept
        exact hkept text rfl
      · intro hkept other hother
        rw [← Except.ok.inj hother]
        exact hkept
  | some row =>
    rw [hrow, Except.ok.injEq] at h
    subst h
    obtain ⟨htype, htime⟩ := hfits row hrow
    refine ⟨fun eventId hne => by simp [hne], row.eventDataJson, ?_, fun _ => Iff.rfl⟩
    simp [hrow, htype, htime]

/-- A payload that cannot be written is not lost either. -/
theorem dataKept_of_writeRow_error {e : AuditTrailError}
    (h : writeRow dumps trail.db entry = .error e) : trail.DataKept dumps loads entry := by
  unfold writeRow at h
  unfold DataKept
  cases hrow : trail.db.find? entry.eventId with
  | none =>
    rw [hrow] at h
    cases hdumps : dumps entry.eventData with
    | error reason => exact fun text hok => nomatch hok
    | ok text => simp [hdumps] at h
  | some row =>
    rw [hrow] at h
    cases h

/-- A trail stays in step when an entry goes into the store and its row, or no row, into the
database. -/
theorem InStep.put (h : trail.InStep) {db : UniqueTable String (AuditEntryRecord Time)}
    (hdb : ∀ eventId, eventId ≠ entry.eventId → db.find? eventId = trail.db.find? eventId)
    (hfits : ∀ row, db.find? entry.eventId = some row →
      row.eventType = entry.eventType ∧ row.timestamp = entry.timestamp) :
    InStep ⟨trail.store.put entry.eventId entry, trail.useDb, db⟩ where
  useDb := h.useDb
  ids eventId entry' hentry := by
    rw [UniqueTable.find?_put] at hentry
    split_ifs at hentry with heq
    · obtain rfl := Option.some.inj hentry
      exact heq.symm
    · exact h.ids eventId entry' hentry
  rows eventId row hrow := by
    simp only [UniqueTable.find?_put]
    by_cases heq : eventId = entry.eventId
    · subst heq
      exact ⟨entry, if_pos rfl, hfits row hrow⟩
    · rw [if_neg heq]
      rw [hdb eventId heq] at hrow
      exact h.rows eventId row hrow

/-- Saving puts the entry into the store; the database keeps its table, or gets the row. -/
theorem save_trail (huse : trail.useDb = true) :
    ∃ db, (trail.save dumps entry fault).2 =
        ⟨trail.store.put entry.eventId entry, trail.useDb, db⟩ ∧
      (db = trail.db ∨ writeRow dumps trail.db entry = .ok db) := by
  unfold save persistEntry
  dsimp only
  rw [if_pos huse]
  cases hwrite : writeRow dumps trail.db entry with
  | error e => exact ⟨trail.db, rfl, Or.inl rfl⟩
  | ok db =>
    cases fault with
    | none => exact ⟨db, rfl, Or.inr rfl⟩
    | some fault =>
      cases fault with
      | rolledBack reason => exact ⟨trail.db, rfl, Or.inl rfl⟩
      | unacknowledged reason => exact ⟨db, rfl, Or.inr rfl⟩

/-- Saving keeps a trail in step. -/
theorem inStep_save (h : trail.InStep) (hfits : trail.RowFits entry) :
    (trail.save dumps entry fault).2.InStep := by
  have hafter : ∃ db, (trail.save dumps entry fault).2 =
        ⟨trail.store.put entry.eventId entry, trail.useDb, db⟩ ∧
      (db = trail.db ∨ writeRow dumps trail.db entry = .ok db) := save_trail h.useDb
  obtain ⟨db, hsave, rfl | hwrite⟩ := hafter
  · rw [hsave]
    exact h.put (fun _ _ => rfl) hfits
  · rw [hsave]
    obtain ⟨hothers, text, hrow, _⟩ := writeRow_ok hfits hwrite
    refine h.put hothers fun row hrow' => ?_
    rw [hrow] at hrow'
    obtain rfl := Option.some.inj hrow'
    exact ⟨rfl, rfl⟩

/-- Saving returns the entry when the row is written and acknowledged, and raises otherwise. -/
theorem save_ok_iff (huse : trail.useDb = true) {entry' : AuditEntry Data Time} :
    (trail.save dumps entry fault).1 = .ok entry' ↔
      entry' = entry ∧ fault = none ∧ ∃ db, writeRow dumps trail.db entry = .ok db ∧
        (trail.save dumps entry fault).2 =
          ⟨trail.store.put entry.eventId entry, trail.useDb, db⟩ := by
  unfold save persistEntry
  dsimp only
  rw [if_pos huse]
  cases hwrite : writeRow dumps trail.db entry with
  | error e => simp
  | ok db =>
    cases fault with
    | none => simp [commit, eq_comm]
    | some fault => cases fault <;> simp [commit]

/-- When saving returns, the entry is in the store and in the database exactly if its payload
is kept. -/
theorem save_saved_iff (h : trail.InStep) (hfits : trail.RowFits entry) :
    (∀ entry', (trail.save dumps entry fault).1 = .ok entry' →
      (trail.save dumps entry fault).2.store.find? entry'.eventId = some entry' ∧
        ((trail.save dumps entry fault).2.db.find? entry'.eventId).map
          (loadRow loads entry'.eventId) = some entry') ↔
      (fault = none → trail.DataKept dumps loads entry) := by
  constructor
  · intro hsaved hfault
    cases hwrite : writeRow dumps trail.db entry with
    | error e => exact dataKept_of_writeRow_error hwrite
    | ok db =>
      obtain ⟨_, text, hrow, hiff⟩ := writeRow_ok hfits hwrite
      have htrail : (trail.save dumps entry fault).2 =
          ⟨trail.store.put entry.eventId entry, trail.useDb, db⟩ := by
        simp [save, persistEntry, h.useDb, hwrite, hfault, commit]
      have hok := (save_ok_iff h.useDb).mpr ⟨rfl, hfault, db, hwrite, htrail⟩
      obtain ⟨_, hload⟩ := hsaved entry hok
      rw [htrail, hrow, Option.map_some, Option.some.injEq] at hload
      exact (hiff loads).mpr (congrArg AuditEntry.eventData hload)
  · intro hkept entry' hok
    obtain ⟨rfl, hfault, db, hwrite, htrail⟩ := (save_ok_iff h.useDb).mp hok
    obtain ⟨_, text, hrow, hiff⟩ := writeRow_ok hfits hwrite
    have hdata := (hiff loads).mp (hkept hfault)
    rw [htrail]
    refine ⟨by simp, ?_⟩
    simp [hrow, loadRow, hdata]

/-- An event that the store lacks has no row. -/
theorem InStep.rowFits_of_new (h : trail.InStep)
    (hnew : trail.store.find? entry.eventId = none) : trail.RowFits entry := by
  intro row hrow
  obtain ⟨old, hold, _⟩ := h.rows _ row hrow
  rw [hnew] at hold
  cases hold

/-- An event that the store has keeps its kind and time. -/
theorem InStep.rowFits_of_old (h : trail.InStep) {old : AuditEntry Data Time}
    (hold : trail.store.find? entry.eventId = some old)
    (htype : entry.eventType = old.eventType) (htime : entry.timestamp = old.timestamp) :
    trail.RowFits entry := by
  intro row hrow
  obtain ⟨stored, hstored, hrowType, hrowTime⟩ := h.rows _ row hrow
  obtain rfl := Option.some.inj (hold.symm.trans hstored)
  exact ⟨hrowType.trans htype.symm, hrowTime.trans htime.symm⟩

/-- In a trail in step an entry of the store is in the database exactly when its last write
arrived and its payload is kept. -/
theorem loadRow_eq_iff (h : trail.InStep) (hstore : trail.store.find? entry.eventId = some entry) :
    (trail.db.find? entry.eventId).map (loadRow loads entry.eventId) = some entry ↔
      ¬trail.Unsaved entry ∧ trail.DataKept dumps loads entry := by
  unfold Unsaved DataKept
  cases hrow : trail.db.find? entry.eventId with
  | none => simp
  | some row =>
    obtain ⟨htype, htime⟩ := h.rowFits_of_old hstore rfl rfl row hrow
    obtain ⟨eventId, eventType, eventData, timestamp, justification, submitter, correlatedAt⟩ :=
      entry
    dsimp only at htype htime ⊢
    simp only [Option.map_some, loadRow, Option.some.injEq, AuditEntry.mk.injEq, htype, htime,
      true_and, Prod.mk.injEq, ne_eq, forall_eq', not_not]
    tauto

/-- A call in a trail in step returns only what is saved exactly when it saves its entry. -/
theorem returnsSaved_iff (h : trail.InStep) (call : AuditTrailCall Data Time) :
    trail.ReturnsSaved dumps loads call ↔ trail.SavesEntry dumps loads call := by
  cases call with
  | restart => simp [ReturnsSaved, SavesEntry, perform]
  | recordGovernanceEvent eventId eventType eventData timestamp fault =>
    unfold ReturnsSaved SavesEntry trailStep
    simp only [perform, recordGovernanceEvent]
    cases hstore : trail.store.find? eventId with
    | some entry =>
      obtain rfl := h.ids _ _ hstore
      simp only [Option.some.injEq, Except.ok.injEq, forall_eq', hstore, true_and]
      exact loadRow_eq_iff h hstore
    | none =>
      simp only [Option.some.injEq]
      exact save_saved_iff h (h.rowFits_of_new hstore)
  | addJustification eventId justification submitter now fault =>
    unfold ReturnsSaved SavesEntry trailStep
    simp only [perform, addJustification]
    cases hstore : trail.store.find? eventId with
    | none => simp
    | some entry =>
      obtain rfl := h.ids _ _ hstore
      simp only [Option.some.injEq, forall_eq']
      exact save_saved_iff h (h.rowFits_of_old hstore rfl rfl)

/-- Every call keeps a trail in step. -/
theorem inStep_trailStep (h : trail.InStep) (call : AuditTrailCall Data Time) :
    (trailStep dumps loads trail call).InStep := by
  unfold trailStep
  cases call with
  | restart => exact inStep_openDb trail.db
  | recordGovernanceEvent eventId eventType eventData timestamp fault =>
    simp only [perform, recordGovernanceEvent]
    cases hstore : trail.store.find? eventId with
    | some entry => exact h
    | none => exact inStep_save h (h.rowFits_of_new hstore)
  | addJustification eventId justification submitter now fault =>
    simp only [perform, addJustification]
    cases hstore : trail.store.find? eventId with
    | none => exact h
    | some entry =>
      obtain rfl := h.ids _ _ hstore
      exact inStep_save h (h.rowFits_of_old hstore rfl rfl)

/-- In a run of calls with failing writes and restarts, over any database at the start, each
call that returns has its event in the database, as the store has it, exactly when no call
returns early for an event whose last write failed and no payload is changed by `json.dumps`
and `json.loads`. -/
theorem returned_saved_iff (dumps : Data → Except String String) (loads : String → Data)
    (db : UniqueTable String (AuditEntryRecord Time)) (calls : List (AuditTrailCall Data Time)) :
    Meets (trailStep dumps loads) (ReturnsSaved dumps loads) (openDb loads db) calls ↔
      Meets (trailStep dumps loads) (SavesEntry dumps loads) (openDb loads db) calls :=
  meets_iff_meets InStep (fun _ call h => returnsSaved_iff h call)
    (fun _ call h _ => inStep_trailStep h call) (inStep_openDb db) calls

/-- An event is recorded while the database is locked, and the call is made again. -/
def lockedThenRetried : List (AuditTrailCall String ℕ) :=
  [.recordGovernanceEvent "gov-001" "parameter_change" "\x7b\x7d" 0
      (some (.rolledBack "database is locked")),
    .recordGovernanceEvent "gov-001" "parameter_change" "\x7b\x7d" 0 none]

/-- The second call returns although the database has no row for the event. -/
theorem retried_event_not_saved :
    ¬Meets (trailStep Except.ok id) (ReturnsSaved Except.ok id) (openDb id .empty)
      lockedThenRetried := by
  rintro ⟨_, hretry, _⟩
  have hsaved := (hretry ⟨"gov-001", "parameter_change", "\x7b\x7d", 0, none, none, none⟩
    (by decide)).2
  revert hsaved
  decide

end AuditTrail

end LedgerLens.Detection
