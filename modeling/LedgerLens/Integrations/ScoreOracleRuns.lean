import LedgerLens.Integrations.ScoreOracleListener
import LedgerLens.Library.Runs

/-!
# Runs of the score-oracle event listener

A run is a sequence of polls, each of which may break off after any of its steps; nothing but
the database survives, so a restart changes nothing. The watermark never runs ahead of the
events, and an event is stored once. But the ledger of the watermark is read again by every
poll, and what `persist_event` returns is ignored: an event that is read again is checked
again, and every check that finds the score stale dispatches an alert.
-/

namespace LedgerLens.Integrations

open Transition

/-- The database, with what was checked and the alerts that were dispatched. -/
structure OracleHistory where
  /-- The database. -/
  db : OracleDatabase := {}
  /-- The ids of the events that were checked for staleness. -/
  checked : List String := []
  /-- The alerts. -/
  alerts : List StaleScoreAlert := []

namespace OracleHistory

variable (listener : ScoreOracleEventListener) (stream : EventStream) (poll : OraclePoll)

/-- The ids of the events that have caused an alert. -/
def alerted (h : OracleHistory) : List String := h.alerts.map (·.event.eventId)

/-- The alert that the check of an event dispatches. -/
def alertOf (event : ContractEvent) : Option StaleScoreAlert :=
  if listener.checks event then
    checkStaleScoreAlert event (poll.currentScore event) listener.staleThreshold
  else none

/-- One step of a poll. -/
def runStep (h : OracleHistory) : BatchStep → OracleHistory
  | .persist event => { h with db := (persistEvent event h.db).2 }
  | .check event =>
    { h with
      checked := if listener.checks event then h.checked ++ [event.eventId] else h.checked
      alerts := h.alerts ++ (alertOf listener poll event).toList }
  | .saveWatermark ledgerSequence =>
    { h with db := setWatermark listener.contractId ledgerSequence h.db }

/-- The steps that a poll gets to. -/
def completedSteps (h : OracleHistory) : List BatchStep :=
  (listener.pollOnce stream poll h.db).take poll.completed

/-- One poll. -/
def step (h : OracleHistory) (poll : OraclePoll) : OracleHistory :=
  (completedSteps listener stream poll h).foldl (runStep listener poll) h

/-- What the listener is meant to keep. -/
structure HandledOnce (h : OracleHistory) : Prop where
  /-- An event causes at most one alert. -/
  alertedOnce : h.alerted.Nodup
  /-- It is stored at most once. -/
  storedOnce : (h.db.events.rows.map (·.2.eventId)).Nodup
  /-- What is recognized in a ledger below the watermark is stored and has been checked. -/
  covered : ∀ raw ∈ stream.events, ∀ event, parseContractEvent listener.secret raw = some event →
    raw.ledger < getWatermark listener.contractId h.db →
      h.db.events.find? event.eventId = some event ∧
        (listener.checks event = true → event.eventId ∈ h.checked)

/-- The condition under which a poll does so: no check that it gets to finds the score of an
event stale that has caused an alert before. -/
def Unrepeated (h : OracleHistory) (poll : OraclePoll) : Prop :=
  ∀ event, .check event ∈ completedSteps listener stream poll h →
    (alertOf listener poll event).isSome = true → event.eventId ∉ h.alerted

end OracleHistory

section

variable {listener : ScoreOracleEventListener} {stream : EventStream} {poll : OraclePoll}
  {raw raw' : RawEvent} {event : ContractEvent} {events : List ContractEvent}

/-- What parsing keeps of an event. -/
theorem parseContractEvent_spec {secret : String} (h : parseContractEvent secret raw = some event) :
    event.eventId = raw.id ∧ event.ledgerSequence = raw.ledger := by
  unfold parseContractEvent at h
  split at h
  · cases h
  · split at h
    · cases h
    · obtain rfl := Option.some.inj h
      exact ⟨rfl, rfl⟩

/-- Two events of the stream with the same paging token are the same. -/
theorem EventStream.eq_of_id_eq (hraw : raw ∈ stream.events) (hraw' : raw' ∈ stream.events)
    (h : raw.id = raw'.id) : raw = raw' :=
  List.inj_on_of_nodup_map stream.distinct hraw hraw' h

/-- The beginning of an ordered list holds all elements in earlier ledgers than one of its
own. -/
theorem mem_take_of_ledger_lt {raws : List RawEvent}
    (hordered : raws.Pairwise fun e e' => e.ledger ≤ e'.ledger) {n : ℕ} (hraw : raw ∈ raws)
    (hraw' : raw' ∈ raws.take n) (h : raw.ledger < raw'.ledger) : raw ∈ raws.take n := by
  rw [← List.take_append_drop n raws, List.mem_append] at hraw
  obtain htake | hdrop := hraw
  · exact htake
  · rw [← List.take_append_drop n raws, List.pairwise_append] at hordered
    have hle := hordered.2.2 raw' hraw' raw hdrop
    omega

/-- The highest ledger is that of an event. -/
theorem exists_of_maxLedger_eq {ledger : ℕ} (h : maxLedger events = some ledger) :
    ∃ event ∈ events, event.ledgerSequence = ledger := by
  suffices hall : ∀ ledger, maxLedger events = some ledger →
      ∃ event ∈ events, event.ledgerSequence = ledger from hall ledger h
  unfold maxLedger
  refine List.foldlRecOn (motive := fun best => ∀ ledger, best = some ledger →
    ∃ event ∈ events, event.ledgerSequence = ledger) _ _ (by simp) ?_
  intro best hbest event hmem ledger hledger
  cases best with
  | none => exact ⟨event, hmem, Option.some.inj hledger⟩
  | some first =>
    have hmax : max first event.ledgerSequence = ledger := Option.some.inj hledger
    obtain hle | hle := Nat.le_total first event.ledgerSequence
    · exact ⟨event, hmem, by omega⟩
    · exact hbest ledger (congrArg some (by omega))

/-- The events of a poll: they are parsed from different events of the stream, and none that
is recognized is left out between the watermark and the highest ledger. -/
structure PolledEvents (listener : ScoreOracleEventListener) (stream : EventStream)
    (watermark : ℕ) (events : List ContractEvent) : Prop where
  /-- Where they come from. -/
  parsed : ∀ event ∈ events, ∃ raw ∈ stream.events,
    parseContractEvent listener.secret raw = some event
  /-- They are different. -/
  distinct : (events.map ContractEvent.eventId).Nodup
  /-- None is left out. -/
  complete : ∀ ledger, maxLedger events = some ledger → ∀ raw ∈ stream.events, ∀ event,
    parseContractEvent listener.secret raw = some event → watermark ≤ raw.ledger →
      raw.ledger < ledger → event ∈ events

/-- The steps for some events. -/
def batchSteps (events : List ContractEvent) : List BatchStep :=
  events.flatMap (fun event => [.persist event, .check event]) ++
    (maxLedger events).toList.map .saveWatermark

/-- The parsed events of a list have the ids of some of its events. -/
theorem map_eventId_filterMap_sublist (secret : String) (raws : List RawEvent) :
    ((raws.filterMap (parseContractEvent secret)).map ContractEvent.eventId).Sublist
      (raws.map RawEvent.id) := by
  induction raws with
  | nil => exact List.Sublist.slnil
  | cons raw raws ih =>
    cases hparse : parseContractEvent secret raw with
    | none =>
      rw [List.filterMap_cons_none hparse, List.map_cons]
      exact ih.cons _
    | some event =>
      rw [List.filterMap_cons_some hparse, List.map_cons, List.map_cons,
        (parseContractEvent_spec hparse).1]
      exact ih.cons_cons _

/-- A page of events, or the confirmed part of it, is gone through without gaps. -/
theorem polledEvents_parsedEvents (known : ℕ) (latestLedger : Option ℕ) (db : OracleDatabase) :
    PolledEvents listener stream (getWatermark listener.contractId db)
      (listener.parsedEvents (listener.fetchRawEvents stream known db) latestLedger) := by
  let page := listener.fetchRawEvents stream known db
  have hordered : ((stream.events.take known).filter fun raw =>
      decide (getWatermark listener.contractId db ≤ raw.ledger)).Pairwise
        fun e e' => e.ledger ≤ e'.ledger :=
    (stream.ordered.sublist (List.take_sublist _ _)).filter _
  have hpage : page.Sublist stream.events :=
    ((List.take_sublist _ _).trans List.filter_sublist).trans (List.take_sublist _ _)
  -- The confirmed part of the page, as a filter.
  obtain ⟨confirmed, hconfirmed, hclosed⟩ : ∃ confirmed : RawEvent → Bool,
      listener.parsedEvents page latestLedger =
        (page.filter confirmed).filterMap (parseContractEvent listener.secret) ∧
      ∀ raw raw', raw.ledger < raw'.ledger → confirmed raw' = true → confirmed raw = true := by
    unfold ScoreOracleEventListener.parsedEvents
    cases latestLedger with
    | none => exact ⟨fun _ => true, by simp, fun _ _ _ _ => rfl⟩
    | some latest =>
      by_cases hdepth : 0 < listener.confirmationDepth
      · refine ⟨fun raw => raw.ledger ≤ (latest : ℤ) - listener.confirmationDepth, ?_, ?_⟩
        · have hnot : ¬listener.confirmationDepth ≤ 0 := by omega
          simp [splitConfirmed, hdepth, hnot, List.partition_eq_filter_filter]
        · intro raw raw' hlt hraw'
          rw [decide_eq_true_eq] at hraw' ⊢
          omega
      · exact ⟨fun _ => true, by simp [hdepth], fun _ _ _ _ => rfl⟩
  rw [hconfirmed]
  have hsublist : (page.filter confirmed).Sublist stream.events := List.filter_sublist.trans hpage
  constructor
  case parsed =>
    intro event hevent
    obtain ⟨raw, hraw, hparse⟩ := List.mem_filterMap.mp hevent
    exact ⟨raw, hsublist.subset hraw, hparse⟩
  case distinct =>
    have hids := map_eventId_filterMap_sublist listener.secret (page.filter confirmed)
    exact hids.nodup ((hsublist.map RawEvent.id).nodup stream.distinct)
  case complete =>
    intro ledger hmax raw hraw event hparse hwatermark hlt
    obtain ⟨last, hlast, hledger⟩ := exists_of_maxLedger_eq hmax
    obtain ⟨raw', hraw', hparse'⟩ := List.mem_filterMap.mp hlast
    rw [(parseContractEvent_spec hparse').2] at hledger
    obtain ⟨hmem', hconfirmed'⟩ := List.mem_filter.mp hraw'
    have hearlier : raw.ledger < raw'.ledger := by omega
    have hknown : raw ∈ stream.events.take known :=
      mem_take_of_ledger_lt stream.ordered hraw
        (List.filter_sublist.subset ((List.take_sublist _ _).subset hmem')) hearlier
    have hmem : raw ∈ page :=
      mem_take_of_ledger_lt hordered
        (List.mem_filter.mpr ⟨hknown, by rwa [decide_eq_true_eq]⟩) hmem' hearlier
    exact List.mem_filterMap.mpr
      ⟨raw, List.mem_filter.mpr ⟨hmem, hclosed raw raw' hearlier hconfirmed'⟩, hparse⟩

/-- A poll goes through such events, or through none. -/
theorem exists_polledEvents (listener : ScoreOracleEventListener) (stream : EventStream)
    (poll : OraclePoll) (db : OracleDatabase) :
    ∃ events, listener.pollOnce stream poll db = batchSteps events ∧
      PolledEvents listener stream (getWatermark listener.contractId db) events := by
  have hnone : PolledEvents listener stream (getWatermark listener.contractId db) [] := by
    constructor
    · intro event hevent
      cases hevent
    · exact List.nodup_nil
    · intro ledger hmax
      cases hmax
  let latestLedger := if 0 < listener.confirmationDepth then poll.latestLedger else none
  unfold ScoreOracleEventListener.pollOnce
  dsimp only
  by_cases hempty : listener.fetchRawEvents stream poll.known db = []
  · exact ⟨[], if_pos hempty, hnone⟩
  · rw [if_neg hempty]
    by_cases hdefer : 0 < listener.confirmationDepth ∧ latestLedger = none
    · exact ⟨[], if_pos hdefer, hnone⟩
    · exact ⟨_, if_neg hdefer, polledEvents_parsedEvents poll.known latestLedger db⟩

/-- What is stored after an event is persisted: the row that was there, or the event. -/
theorem find?_persistEvent (event : ContractEvent) (db : OracleDatabase) (id : String) :
    (persistEvent event db).2.events.find? id =
      if id = event.eventId then some ((db.events.find? id).getD event)
      else db.events.find? id := by
  unfold persistEvent
  cases hfind : db.events.find? event.eventId with
  | some row =>
    by_cases hid : id = event.eventId
    · simp [hid, hfind]
    · simp [hid]
  | none =>
    simp only [Option.isSome_none, Bool.false_eq_true, if_false]
    cases hinsert : db.events.insert? event.eventId event with
    | none => exact absurd hfind ((UniqueTable.insert?_eq_none_iff _ _ _).mp hinsert)
    | some events =>
      have hrows := UniqueTable.find?_of_insert? hinsert id
      simp only [hrows]
      by_cases hid : id = event.eventId
      · simp [hid, hfind]
      · simp [hid]

/-- Persisting an event does not move a watermark. -/
theorem watermarks_persistEvent (event : ContractEvent) (db : OracleDatabase) :
    (persistEvent event db).2.watermarks = db.watermarks := by
  unfold persistEvent
  split
  · rfl
  · split <;> rfl

namespace OracleHistory

variable {h : OracleHistory} {steps : List BatchStep}

/-- Each stored row is an event of the stream. -/
def Stored (listener : ScoreOracleEventListener) (stream : EventStream) (h : OracleHistory) :
    Prop :=
  ∀ id row, h.db.events.find? id = some row → ∃ raw ∈ stream.events,
    parseContractEvent listener.secret raw = some row ∧ raw.id = id

/-- Events of the stream have one row each. -/
theorem Stored.storedOnce (hstored : h.Stored listener stream) :
    (h.db.events.rows.map (·.2.eventId)).Nodup := by
  have hkeys : h.db.events.rows.map (·.2.eventId) = h.db.events.rows.map Prod.fst := by
    apply List.map_congr_left
    rintro ⟨id, row⟩ hmem
    obtain ⟨raw, -, hparse, hid⟩ :=
      hstored id row ((UniqueTable.find?_eq_some_iff _ _ _).mpr hmem)
    exact (parseContractEvent_spec hparse).1.trans hid
  rw [hkeys]
  exact h.db.events.nodup

/-- The alert of a step. -/
def stepAlert (listener : ScoreOracleEventListener) (poll : OraclePoll) :
    BatchStep → Option StaleScoreAlert
  | .check event => alertOf listener poll event
  | _ => none

/-- What some steps have done. -/
structure Ran (listener : ScoreOracleEventListener) (stream : EventStream) (poll : OraclePoll)
    (h : OracleHistory) (steps : List BatchStep) (h' : OracleHistory) : Prop where
  /-- The rows are events of the stream. -/
  stored : h'.Stored listener stream
  /-- The rows that were there are there. -/
  kept : ∀ id row, h.db.events.find? id = some row → h'.db.events.find? id = some row
  /-- The events that were persisted are, too. -/
  persisted : ∀ event, .persist event ∈ steps → h'.db.events.find? event.eventId = some event
  /-- What was checked stays so. -/
  checkedKept : ∀ id ∈ h.checked, id ∈ h'.checked
  /-- Some events have been checked. -/
  checked : ∀ event, .check event ∈ steps → listener.checks event = true →
    event.eventId ∈ h'.checked
  /-- The alerts. -/
  alerts : h'.alerts = h.alerts ++ steps.filterMap (stepAlert listener poll)
  /-- Only the last step of a batch moves the watermark. -/
  watermark : (∀ ledger, .saveWatermark ledger ∉ steps) →
    getWatermark listener.contractId h'.db = getWatermark listener.contractId h.db

/-- Persisting an event of the stream. -/
theorem ran_persist (poll : OraclePoll) (hstored : h.Stored listener stream)
    {event : ContractEvent} {raw : RawEvent} (hraw : raw ∈ stream.events)
    (hparse : parseContractEvent listener.secret raw = some event) :
    Ran listener stream poll h [.persist event] (runStep listener poll h (.persist event)) := by
  have hid := (parseContractEvent_spec hparse).1
  have hfind := find?_persistEvent event h.db
  -- A row under the id of the event is the event.
  have hsame : (h.db.events.find? event.eventId).getD event = event := by
    cases hrow : h.db.events.find? event.eventId with
    | none => rfl
    | some row =>
      obtain ⟨raw', hraw', hparse', hid'⟩ := hstored event.eventId row hrow
      obtain rfl := EventStream.eq_of_id_eq hraw hraw' (hid.symm.trans hid'.symm)
      exact Option.some.inj (hparse'.symm.trans hparse)
  refine ⟨?_, ?_, ?_, fun _ hmem => hmem, ?_, by simp [runStep, stepAlert], ?_⟩
  · intro id row hrow
    rw [runStep, hfind] at hrow
    by_cases heq : id = event.eventId
    · rw [if_pos heq, heq, hsame, Option.some.injEq] at hrow
      subst hrow
      exact ⟨raw, hraw, hparse, (heq.trans hid).symm⟩
    · rw [if_neg heq] at hrow
      exact hstored id row hrow
  · intro id row hrow
    rw [runStep, hfind]
    by_cases heq : id = event.eventId
    · rw [if_pos heq, hrow, Option.getD_some]
    · rw [if_neg heq]
      exact hrow
  · intro event' hmem
    obtain rfl : event' = event := by simpa using hmem
    rw [runStep, hfind, if_pos rfl, hsame]
  · intro event' hmem
    simp at hmem
  · intro _
    simp [runStep, getWatermark, watermarks_persistEvent]

/-- One step. -/
theorem ran_runStep (poll : OraclePoll) (hstored : h.Stored listener stream) (step : BatchStep)
    (hfrom : ∀ event, step = .persist event → ∃ raw ∈ stream.events,
      parseContractEvent listener.secret raw = some event) :
    Ran listener stream poll h [step] (runStep listener poll h step) := by
  cases step with
  | persist event =>
    obtain ⟨raw, hraw, hparse⟩ := hfrom event rfl
    exact ran_persist poll hstored hraw hparse
  | check event =>
    refine ⟨hstored, fun _ _ hrow => hrow, ?_, ?_, ?_, ?_, fun _ => rfl⟩
    · intro event' hmem
      simp at hmem
    · intro id hmem
      have hchecked : (runStep listener poll h (.check event)).checked =
          if listener.checks event then h.checked ++ [event.eventId] else h.checked := rfl
      rw [hchecked]
      split
      · exact List.mem_append_left _ hmem
      · exact hmem
    · intro event' hmem hchecks
      obtain rfl : event' = event := by simpa using hmem
      simp [runStep, hchecks]
    · cases halert : alertOf listener poll event <;> simp [runStep, stepAlert, halert]
  | saveWatermark ledger =>
    refine ⟨hstored, fun _ _ hrow => hrow, ?_, fun _ hmem => hmem, ?_, by simp [runStep, stepAlert],
      ?_⟩
    · intro event' hmem
      simp at hmem
    · intro event' hmem
      simp at hmem
    · intro hnot
      exact absurd List.mem_cons_self (hnot ledger)

/-- Some steps, one after another. -/
theorem ran_foldl (hstored : h.Stored listener stream)
    (hfrom : ∀ event, .persist event ∈ steps → ∃ raw ∈ stream.events,
      parseContractEvent listener.secret raw = some event) :
    Ran listener stream poll h steps (steps.foldl (runStep listener poll) h) := by
  induction steps generalizing h with
  | nil =>
    refine ⟨hstored, fun _ _ hrow => hrow, ?_, fun _ hmem => hmem, ?_, by simp, fun _ => rfl⟩
    · intro event hmem
      cases hmem
    · intro event hmem
      cases hmem
  | cons step steps ih =>
    have hfirst := ran_runStep poll hstored step fun event heq =>
      hfrom event (heq ▸ List.mem_cons_self)
    have hrest := ih hfirst.stored fun event hmem => hfrom event (List.mem_cons_of_mem _ hmem)
    rw [List.foldl_cons]
    refine ⟨hrest.stored, ?_, ?_, ?_, ?_, ?_, ?_⟩
    · exact fun id row hrow => hrest.kept id row (hfirst.kept id row hrow)
    · intro event hmem
      obtain rfl | hmem := List.mem_cons.mp hmem
      · exact hrest.kept _ _ (hfirst.persisted event List.mem_cons_self)
      · exact hrest.persisted event hmem
    · exact fun id hmem => hrest.checkedKept id (hfirst.checkedKept id hmem)
    · intro event hmem hchecks
      obtain rfl | hmem := List.mem_cons.mp hmem
      · exact hrest.checkedKept _ (hfirst.checked event List.mem_cons_self hchecks)
      · exact hrest.checked event hmem hchecks
    · rw [hrest.alerts, hfirst.alerts, List.append_assoc, ← List.filterMap_append]
      rfl
    · intro hnot
      have hnotFirst : ∀ ledger, .saveWatermark ledger ∉ [step] := by
        intro ledger hmem
        rw [List.mem_singleton] at hmem
        exact hnot ledger (hmem ▸ List.mem_cons_self)
      exact (hrest.watermark fun ledger hmem => hnot ledger (List.mem_cons_of_mem _ hmem)).trans
        (hfirst.watermark hnotFirst)

/-- The alert of an event is about that event. -/
theorem event_of_alertOf {alert : StaleScoreAlert} (h : alertOf listener poll event = some alert) :
    alert.event = event := by
  unfold alertOf checkStaleScoreAlert at h
  split at h
  · split at h
    · cases h
    · split at h
      · dsimp only at h
        split at h
        · cases h
        · cases h
          rfl
      · cases h
  · cases h

/-- The alerts of the steps that a poll gets to are about different events. -/
theorem nodup_newAlerts (listener : ScoreOracleEventListener) (poll : OraclePoll)
    (hdistinct : (events.map ContractEvent.eventId).Nodup) (n : ℕ) :
    ((((batchSteps events).take n).filterMap (stepAlert listener poll)).map
      (·.event.eventId)).Nodup := by
  have hall : (batchSteps events).filterMap (stepAlert listener poll) =
      events.filterMap (alertOf listener poll) := by
    have hbody : (events.flatMap fun event => [.persist event, .check event]).filterMap
        (stepAlert listener poll) = events.filterMap (alertOf listener poll) := by
      induction events with
      | nil => rfl
      | cons event events ih =>
        have hrest := ih (List.nodup_cons.mp hdistinct).2
        have hcheck : stepAlert listener poll (.check event) = alertOf listener poll event := rfl
        rw [List.flatMap_cons, List.filterMap_append, hrest, List.filterMap_cons_none rfl]
        cases halert : alertOf listener poll event with
        | none =>
          rw [List.filterMap_cons_none (hcheck.trans halert), List.filterMap_cons_none halert]
          rfl
        | some alert =>
          rw [List.filterMap_cons_some (hcheck.trans halert), List.filterMap_cons_some halert]
          rfl
    rw [batchSteps, List.filterMap_append, hbody]
    cases maxLedger events <;> simp [stepAlert]
  have hids : ((events.filterMap (alertOf listener poll)).map (·.event.eventId)).Sublist
      (events.map ContractEvent.eventId) := by
    clear hall hdistinct
    induction events with
    | nil => exact List.Sublist.slnil
    | cons event events ih =>
      cases halert : alertOf listener poll event with
      | none =>
        rw [List.filterMap_cons_none halert, List.map_cons]
        exact ih.cons _
      | some alert =>
        rw [List.filterMap_cons_some halert, List.map_cons, List.map_cons,
          event_of_alertOf halert]
        exact ih.cons_cons _
  have htaken := ((List.take_sublist n (batchSteps events)).filterMap
    (stepAlert listener poll)).map (·.event.eventId)
  rw [hall] at htaken
  exact (htaken.trans hids).nodup hdistinct

/-- What a poll has done. -/
theorem ran_step (poll : OraclePoll) (hstored : h.Stored listener stream) :
    Ran listener stream poll h (completedSteps listener stream poll h)
      (h.step listener stream poll) := by
  obtain ⟨events, hsteps, hpolled⟩ := exists_polledEvents listener stream poll h.db
  refine ran_foldl hstored fun event hmem => ?_
  have hmem' : .persist event ∈ listener.pollOnce stream poll h.db := List.mem_of_mem_take hmem
  rw [hsteps, batchSteps] at hmem'
  refine hpolled.parsed event ?_
  simpa using hmem'

/-- The alerts are about different events after a poll exactly if it repeats none. -/
theorem nodup_alerted_step_iff (hstored : h.Stored listener stream) (hnodup : h.alerted.Nodup) :
    (h.step listener stream poll).alerted.Nodup ↔ h.Unrepeated listener stream poll := by
  obtain ⟨events, hsteps, hpolled⟩ := exists_polledEvents listener stream poll h.db
  have hnew := nodup_newAlerts listener poll hpolled.distinct poll.completed
  rw [← hsteps] at hnew
  unfold alerted
  rw [(ran_step poll hstored).alerts, List.map_append, List.nodup_append]
  constructor
  · rintro ⟨-, -, hdisjoint⟩ event hmem hsome hbefore
    obtain ⟨alert, halert⟩ := Option.isSome_iff_exists.mp hsome
    have hid : alert.event.eventId = event.eventId := by rw [event_of_alertOf halert]
    refine hdisjoint _ hbefore alert.event.eventId ?_ hid.symm
    exact List.mem_map_of_mem (List.mem_filterMap.mpr ⟨_, hmem, halert⟩)
  · intro hunrepeated
    refine ⟨hnodup, hnew, ?_⟩
    rintro id hbefore id' hafter rfl
    obtain ⟨alert, hmem, rfl⟩ := List.mem_map.mp hafter
    obtain ⟨step, hstep, halert⟩ := List.mem_filterMap.mp hmem
    cases step with
    | check event =>
      have halert' : alertOf listener poll event = some alert := halert
      refine hunrepeated event hstep (Option.isSome_of_eq_some halert') ?_
      rw [event_of_alertOf halert'] at hbefore
      exact hbefore
    | persist event => cases halert
    | saveWatermark ledger => cases halert

/-- A batch that is cut off does not get to the watermark. -/
theorem take_batchSteps (events : List ContractEvent) (n : ℕ) :
    (∀ ledger, .saveWatermark ledger ∉ (batchSteps events).take n) ∨
      (batchSteps events).take n = batchSteps events ∧ (maxLedger events).isSome = true := by
  have hbody (n : ℕ) (ledger : ℕ) : BatchStep.saveWatermark ledger ∉
      (events.flatMap fun event => [.persist event, .check event]).take n := by
    intro hmem
    have hmem' := List.mem_of_mem_take hmem
    simp at hmem'
  unfold batchSteps
  cases hmax : maxLedger events with
  | none =>
    left
    simpa using hbody n
  | some ledger =>
    by_cases hle : n ≤
      (events.flatMap fun event => [BatchStep.persist event, .check event]).length
    · left
      rw [List.take_append_of_le_length hle]
      exact hbody n
    · right
      refine ⟨List.take_of_length_le ?_, rfl⟩
      simp only [List.length_append, Option.toList_some, List.map_cons, List.map_nil,
        List.length_cons, List.length_nil]
      omega

/-- A poll keeps the watermark behind what is stored and checked. -/
theorem HandledOnce.covered_step (hstored : h.Stored listener stream)
    (hhandled : h.HandledOnce listener stream) (hraw : raw ∈ stream.events)
    (hparse : parseContractEvent listener.secret raw = some event)
    (hlt : raw.ledger < getWatermark listener.contractId (h.step listener stream poll).db) :
    (h.step listener stream poll).db.events.find? event.eventId = some event ∧
      (listener.checks event = true → event.eventId ∈ (h.step listener stream poll).checked) := by
  have hran := ran_step poll hstored
  have hbefore (hold : raw.ledger < getWatermark listener.contractId h.db) :
      (h.step listener stream poll).db.events.find? event.eventId = some event ∧
        (listener.checks event = true →
          event.eventId ∈ (h.step listener stream poll).checked) := by
    obtain ⟨hrow, hchecked⟩ := hhandled.covered raw hraw event hparse hold
    exact ⟨hran.kept _ _ hrow, fun hchecks => hran.checkedKept _ (hchecked hchecks)⟩
  obtain ⟨events, hsteps, hpolled⟩ := exists_polledEvents listener stream poll h.db
  obtain hcut | ⟨hall, hsome⟩ := take_batchSteps events poll.completed
  · rw [← hsteps] at hcut
    rw [hran.watermark hcut] at hlt
    exact hbefore hlt
  · rw [← hsteps] at hall
    by_cases hold : raw.ledger < getWatermark listener.contractId h.db
    · exact hbefore hold
    · obtain ⟨ledger, hmax⟩ := Option.isSome_iff_exists.mp hsome
      have hwatermark : getWatermark listener.contractId (h.step listener stream poll).db =
          ledger := by
        unfold step completedSteps
        rw [hall, hsteps, batchSteps, hmax, List.foldl_append]
        simp [runStep, getWatermark, setWatermark]
      rw [hwatermark] at hlt
      have hmem := hpolled.complete ledger hmax raw hraw event hparse (by omega) hlt
      have hsteps' : ∀ step ∈ [BatchStep.persist event, .check event],
          step ∈ completedSteps listener stream poll h := by
        intro step hstep
        unfold completedSteps
        rw [hall, hsteps, batchSteps]
        exact List.mem_append_left _ (List.mem_flatMap.mpr ⟨event, hmem, hstep⟩)
      exact ⟨hran.persisted event (hsteps' _ (by simp)), hran.checked event (hsteps' _ (by simp))⟩

end OracleHistory

end

open OracleHistory in
/-- In every state of every run, each event has caused at most one alert, is stored at most
once, and is stored and checked before the watermark passes its ledger, exactly if no poll
gets to a check that finds the score of an event stale that has caused an alert before. -/
theorem always_handledOnce_iff (listener : ScoreOracleEventListener) (stream : EventStream)
    (polls : List OraclePoll) :
    Always (step listener stream) (HandledOnce listener stream) {} polls ↔
      Meets (step listener stream) (fun h poll => h.Unrepeated listener stream poll) {}
        polls := by
  refine always_iff_meets
    (fun h : OracleHistory => h.Stored listener stream ∧ h.HandledOnce listener stream)
    (fun h hinv => hinv.2) ?_ ?_ ⟨?_, ?_⟩ polls
  · rintro h poll ⟨hstored, hhandled⟩ hunrepeated
    have hran := ran_step poll hstored
    refine ⟨hran.stored, ?_, hran.stored.storedOnce, ?_⟩
    · exact (nodup_alerted_step_iff hstored hhandled.alertedOnce).mpr hunrepeated
    · exact fun raw hraw event hparse hlt => hhandled.covered_step hstored hraw hparse hlt
  · rintro h poll ⟨hstored, hhandled⟩ hnot hafter
    exact hnot ((nodup_alerted_step_iff hstored hhandled.alertedOnce).mp hafter.alertedOnce)
  · intro id row hrow
    cases hrow
  · refine ⟨List.nodup_nil, List.nodup_nil, ?_⟩
    intro raw _ event _ hlt
    exact absurd hlt (Nat.not_lt_zero _)

/-- One reading of a score of 75, in a ledger where nothing else happens. -/
def oneReading : EventStream where
  events :=
    [{ id := "0000232-1", ledger := 54321, contractId := "CTEST"
       topic := [⟨"symbol", "score_read"⟩, ⟨"address", "GWALLET"⟩]
       value := { score := some 75, assetPair := some "XLM/USDC" } }]
  ordered := List.pairwise_singleton _ _
  distinct := List.nodup_singleton _

/-- A listener with a dispatcher. -/
def alertingListener : ScoreOracleEventListener where
  contractId := "CTEST"
  secret := "secret"
  hasDispatcher := true
  hasCurrentScoreFn := true

/-- A poll that is not interrupted, long after the reading; the current score is 99. -/
def quietPoll : OraclePoll where
  known := 1
  latestLedger := some 60000
  currentScore _ := some 99
  completed := 1000

/-- Two polls of a quiet chain dispatch two alerts for the same event. -/
theorem reread_event_alerted_twice :
    (exec (OracleHistory.step alertingListener oneReading) {} [quietPoll, quietPoll]).alerted =
        ["0000232-1", "0000232-1"] ∧
      ¬Always (OracleHistory.step alertingListener oneReading)
        (OracleHistory.HandledOnce alertingListener oneReading) {} [quietPoll, quietPoll] := by
  have halerted : (exec (OracleHistory.step alertingListener oneReading) {}
      [quietPoll, quietPoll]).alerted = ["0000232-1", "0000232-1"] := by
    decide +kernel
  refine ⟨halerted, fun halways => ?_⟩
  have hnodup := halways.last.alertedOnce
  rw [halerted] at hnodup
  simp at hnodup

end LedgerLens.Integrations
