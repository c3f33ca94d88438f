import LedgerLens.Library.Runs
import LedgerLens.Library.UniqueTable
import Mathlib.Data.Finset.Basic
import Mathlib.Data.List.Count

/-!
# Events that wait for their confirmation

`ReorgAwareEventProcessor` holds events back until their ledger is deep enough, or until they
are retracted because the ledger was orphaned. All events of a ledger leave the buffer before
the first of them is delivered, so that a callback that raises can lose those after it. This
file says in which runs every event stays in one place.
-/

namespace LedgerLens.Integrations

open Transition

/-- What stands under the key `ledger`, as `int(value or 0)` takes it. -/
inductive LedgerValue where
  /-- `None`, zero or an empty value. -/
  | falsy
  /-- Another value, and what `int` makes of it if it does not raise. -/
  | value (asInt : Option ℤ)

/-- What stands under the key `data`. -/
inductive LedgerData where
  /-- A dictionary, and what it has under the key `ledger`. -/
  | dict (ledger : Option LedgerValue)
  /-- Another value. -/
  | other

/-- What is passed to `process_event`, as far as it is looked into. -/
inductive EventData where
  /-- A `ContractEvent`. -/
  | contractEvent (ledgerSequence : ℤ)
  /-- A dictionary with what it has under the keys `ledger` and `data`. -/
  | dict (ledger : Option LedgerValue) (data : Option LedgerData)
  /-- Another value. -/
  | other

/-- `int(value or 0)`, nothing if it raises. -/
def LedgerValue.toInt : LedgerValue → Option ℤ
  | falsy => some 0
  | value asInt => asInt

/-- `_extract_ledger_seq`, nothing if it raises. -/
def EventData.extractLedgerSeq : EventData → Option ℤ
  | contractEvent ledgerSequence => some ledgerSequence
  | dict (some ledger) _ => ledger.toInt
  | dict none (some (.dict (some ledger))) => ledger.toInt
  | dict none _ => some 0
  | other => some 0

/-- `PendingEvent`. -/
structure PendingEvent where
  /-- Which object this is: the number of the `process_event` call that made it. -/
  id : ℕ
  /-- Its ledger. -/
  ledgerSequence : ℤ
  /-- What was passed. -/
  eventData : EventData

/-- `ReorgAwareEventProcessor`, with the invocations of its callback. -/
structure ReorgAwareEventProcessor where
  /-- `confirmation_depth`. -/
  confirmationDepth : ℤ
  /-- Whether there is an `on_finalized` callback. -/
  hasCallback : Bool
  /-- `_pending`. -/
  pending : UniqueTable ℤ (List PendingEvent) := .empty
  /-- `_finalized`. -/
  finalized : List PendingEvent := []
  /-- `_retracted_sequences`. -/
  retractedSequences : Finset ℤ := ∅
  /-- The events that the callback was invoked with. -/
  invoked : List PendingEvent := []

namespace ReorgAwareEventProcessor

/-- Finalize one event, up to the end of the callback. -/
def finalizeEvent (p : ReorgAwareEventProcessor) (ev : PendingEvent) : ReorgAwareEventProcessor :=
  { p with
    finalized := p.finalized ++ [ev]
    invoked := if p.hasCallback then p.invoked ++ [ev] else p.invoked }

/-- The inner loop of `finalize_events`, and whether the callback has raised in it. -/
def finalizeBatch (raises : PendingEvent → Bool) (p : ReorgAwareEventProcessor) :
    List PendingEvent → ReorgAwareEventProcessor × Bool
  | [] => (p, false)
  | ev :: evs =>
    if p.hasCallback && raises ev then (p.finalizeEvent ev, true)
    else finalizeBatch raises (p.finalizeEvent ev) evs

/-- The loop of `finalize_events` over the ledgers with their events. -/
def finalizeLoop (raises : PendingEvent → Bool) (cutoff : ℤ) (p : ReorgAwareEventProcessor) :
    List (ℤ × List PendingEvent) → ReorgAwareEventProcessor × Bool
  | [] => (p, false)
  | (seq, events) :: rest =>
    if cutoff < seq then (p, false)
    else
      let r := finalizeBatch raises { p with pending := p.pending.erase seq } events
      if r.2 then r else finalizeLoop raises cutoff r.1 rest

/-- `finalize_events`, with the events for which the callback raises: the processor it leaves
and whether it raises. -/
def finalizeEvents (p : ReorgAwareEventProcessor) (raises : PendingEvent → Bool)
    (currentLedgerSeq : ℤ) : ReorgAwareEventProcessor × Bool :=
  finalizeLoop raises (currentLedgerSeq - p.confirmationDepth) p p.pending.sortKeys.rows

/-- The new event in the buffer. -/
def buffer (p : ReorgAwareEventProcessor) (ev : PendingEvent) : ReorgAwareEventProcessor :=
  { p with
    pending := p.pending.put ev.ledgerSequence
      ((p.pending.find? ev.ledgerSequence).getD [] ++ [ev]) }

/-- `process_event`, where the number of the call is that of the event. -/
def processEvent (p : ReorgAwareEventProcessor) (raises : PendingEvent → Bool) (id : ℕ)
    (eventData : EventData) (currentLedgerSeq : ℤ) : ReorgAwareEventProcessor × Bool :=
  match eventData.extractLedgerSeq with
  | none => (p, true)
  | some seq => (p.buffer ⟨id, seq, eventData⟩).finalizeEvents raises currentLedgerSeq

/-- One round of the loop of `handle_reorg`. -/
def retract (p : ReorgAwareEventProcessor) (seq : ℤ) : ReorgAwareEventProcessor :=
  { p with
    pending := p.pending.erase seq
    retractedSequences := insert seq p.retractedSequences }

/-- `handle_reorg`: the retracted events and the processor it leaves. -/
def handleReorg (p : ReorgAwareEventProcessor) :
    List ℤ → List PendingEvent × ReorgAwareEventProcessor
  | [] => ([], p)
  | seq :: seqs =>
    let r := (p.retract seq).handleReorg seqs
    ((p.pending.find? seq).getD [] ++ r.1, r.2)

/-- The events in the buffer. -/
def pendingEvents (p : ReorgAwareEventProcessor) : List PendingEvent :=
  p.pending.rows.flatMap Prod.snd

end ReorgAwareEventProcessor

/-- A call of the processor; where events are finalized, with those for which the callback
raises. -/
inductive ReorgCall where
  /-- `process_event`. -/
  | processEvent (eventData : EventData) (currentLedgerSeq : ℤ) (raises : PendingEvent → Bool)
  /-- `finalize_events`. -/
  | finalizeEvents (currentLedgerSeq : ℤ) (raises : PendingEvent → Bool)
  /-- `handle_reorg`. -/
  | handleReorg (orphanedSequences : List ℤ)

/-- A processor with what has become of the events passed to it. -/
structure ReorgHistory where
  /-- The processor. -/
  processor : ReorgAwareEventProcessor
  /-- The number of events passed to `process_event`. -/
  passed : ℕ := 0
  /-- The events that `handle_reorg` has returned. -/
  returned : List PendingEvent := []
  /-- For each call that finalizes events the tip and the events it finalized. -/
  batches : List (ℤ × List PendingEvent) := []

/-- How often an event stands in a list. -/
def occurrences (events : List PendingEvent) (id : ℕ) : ℕ := events.countP fun ev => ev.id = id

namespace ReorgHistory

/-- The processor after a call that finalizes events, with the events it finalized. -/
def finalizedBy (h : ReorgHistory) (tip : ℤ) (processor : ReorgAwareEventProcessor) :
    ReorgHistory :=
  { h with
    processor := processor
    batches := h.batches ++ [(tip, processor.finalized.drop h.processor.finalized.length)] }

/-- One call. -/
def step (h : ReorgHistory) (call : ReorgCall) : ReorgHistory :=
  match call with
  | .processEvent eventData tip raises =>
    { h.finalizedBy tip (h.processor.processEvent raises h.passed eventData tip).1 with
      passed := h.passed + 1 }
  | .finalizeEvents tip raises => h.finalizedBy tip (h.processor.finalizeEvents raises tip).1
  | .handleReorg seqs =>
    { h with
      processor := (h.processor.handleReorg seqs).2
      returned := h.returned ++ (h.processor.handleReorg seqs).1 }

/-- In how many places an event is. -/
def places (h : ReorgHistory) (id : ℕ) : ℕ :=
  occurrences h.processor.pendingEvents id + occurrences h.processor.finalized id +
    occurrences h.returned id

/-- What the processor is meant to keep. -/
structure Partitioned (h : ReorgHistory) : Prop where
  /-- Every event is in one place. -/
  places : ∀ id < h.passed, h.places id = 1
  /-- The callback was invoked once with each finalized event. -/
  invoked : h.processor.hasCallback = true → h.processor.invoked = h.processor.finalized
  /-- Only confirmed events are finalized. -/
  confirmed : ∀ batch ∈ h.batches, ∀ ev ∈ batch.2,
    h.processor.confirmationDepth ≤ batch.1 - ev.ledgerSequence
  /-- In each call the events of smaller ledgers come first. -/
  ordered : ∀ batch ∈ h.batches,
    batch.2.Pairwise fun ev ev' => ev.ledgerSequence ≤ ev'.ledgerSequence

end ReorgHistory

/-- Where the callback raises, it raises for the last pending event of a ledger: in no confirmed
ledger that is reached does it raise for an event before the last. -/
def ReorgAwareEventProcessor.RaisesLast (p : ReorgAwareEventProcessor)
    (raises : PendingEvent → Bool) (tip : ℤ) : Prop :=
  p.hasCallback = true → ∀ seq events, p.pending.find? seq = some events →
    p.confirmationDepth ≤ tip - seq →
    (∀ seq' events', seq' < seq → p.pending.find? seq' = some events' →
      ∀ ev ∈ events', raises ev = false) →
    ∀ ev ∈ events.dropLast, raises ev = false

namespace ReorgHistory

/-- The condition under which a call keeps every event in one place: an event that is passed has
a ledger that can be read, and the callback raises for no event before the last of a ledger. -/
def DeliversBatches (h : ReorgHistory) (call : ReorgCall) : Prop :=
  match call with
  | .processEvent eventData tip raises => ∃ seq, eventData.extractLedgerSeq = some seq ∧
      (h.processor.buffer ⟨h.passed, seq, eventData⟩).RaisesLast raises tip
  | .finalizeEvents tip raises => h.processor.RaisesLast raises tip
  | .handleReorg _ => True

end ReorgHistory

/-- The events of a table of pending events. -/
def eventsOf (pending : UniqueTable ℤ (List PendingEvent)) : List PendingEvent :=
  pending.rows.flatMap Prod.snd

@[simp] theorem occurrences_nil (id : ℕ) : occurrences [] id = 0 := rfl

@[simp] theorem occurrences_append (evs evs' : List PendingEvent) (id : ℕ) :
    occurrences (evs ++ evs') id = occurrences evs id + occurrences evs' id :=
  List.countP_append

/-- The events of one ledger and those of the others. -/
theorem occurrences_erase (pending : UniqueTable ℤ (List PendingEvent)) (seq : ℤ) (id : ℕ) :
    occurrences (eventsOf pending) id =
      occurrences ((pending.find? seq).getD []) id +
        occurrences (eventsOf (pending.erase seq)) id := by
  unfold eventsOf
  rw [← occurrences_append]
  exact (UniqueTable.flatMap_snd_perm pending seq).countP_eq _

namespace ReorgAwareEventProcessor

variable {p : ReorgAwareEventProcessor} {raises : PendingEvent → Bool} {cutoff : ℤ}

/-- Several events finalized, with the callback invoked for each. -/
def deliver (p : ReorgAwareEventProcessor) (evs : List PendingEvent) : ReorgAwareEventProcessor :=
  { p with
    finalized := p.finalized ++ evs
    invoked := if p.hasCallback then p.invoked ++ evs else p.invoked }

theorem deliver_nil : p.deliver [] = p := by
  simp [deliver]

theorem deliver_deliver (evs evs' : List PendingEvent) :
    (p.deliver evs).deliver evs' = p.deliver (evs ++ evs') := by
  cases hcallback : p.hasCallback <;> simp [deliver, hcallback]

/-- Events are delivered up to the first for which the callback raises; those after it are
lost. -/
theorem finalizeBatch_spec (p : ReorgAwareEventProcessor) (raises : PendingEvent → Bool)
    (events : List PendingEvent) :
    ∃ delivered lost, events = delivered ++ lost ∧
      (finalizeBatch raises p events).1 = p.deliver delivered ∧
      ((finalizeBatch raises p events).2 = true ↔
        p.hasCallback = true ∧ ∃ ev ∈ events, raises ev = true) ∧
      (lost = [] ↔ (p.hasCallback = true → ∀ ev ∈ events.dropLast, raises ev = false)) ∧
      ((finalizeBatch raises p events).2 = false → lost = []) := by
  induction events generalizing p with
  | nil => exact ⟨[], [], rfl, deliver_nil.symm, by simp [finalizeBatch], by simp, fun _ => rfl⟩
  | cons ev evs ih =>
    unfold finalizeBatch
    by_cases hraise : (p.hasCallback && raises ev) = true
    · rw [if_pos hraise]
      obtain ⟨hcallback, hev⟩ := Bool.and_eq_true_iff.mp hraise
      refine ⟨[ev], evs, rfl, rfl, ?_, ?_, fun h => nomatch h⟩
      · simp [hcallback, hev]
      · constructor
        · rintro rfl
          simp
        · intro hall
          by_contra hne
          have hfirst := hall hcallback ev (by
            rw [List.dropLast_cons_of_ne_nil hne]
            exact List.mem_cons_self)
          rw [hev] at hfirst
          cases hfirst
    · rw [if_neg hraise]
      obtain ⟨delivered, lost, hsplit, hdeliver, hraised, hlost, hnone⟩ :=
        ih (p.finalizeEvent ev)
      have hquiet : p.hasCallback = true → raises ev = false := by
        intro hcallback
        simpa [hcallback] using hraise
      refine ⟨ev :: delivered, lost, by rw [hsplit]; rfl, ?_, ?_, ?_, hnone⟩
      · rw [hdeliver]
        exact deliver_deliver [ev] delivered
      · rw [hraised]
        constructor
        · rintro ⟨hcallback, ev', hmem, hev'⟩
          exact ⟨hcallback, ev', List.mem_cons_of_mem _ hmem, hev'⟩
        · rintro ⟨hcallback, ev', hmem, hev'⟩
          obtain rfl | hmem := List.mem_cons.mp hmem
          · rw [hquiet hcallback] at hev'
            cases hev'
          · exact ⟨hcallback, ev', hmem, hev'⟩
      · rw [hlost]
        constructor
        · intro hall hcallback ev' hmem
          cases evs with
          | nil => cases hmem
          | cons ev₂ evs =>
            rw [List.dropLast_cons_of_ne_nil (List.cons_ne_nil _ _)] at hmem
            obtain rfl | hmem := List.mem_cons.mp hmem
            · exact hquiet hcallback
            · exact hall hcallback ev' hmem
        · intro hall hcallback ev' hmem
          refine hall hcallback ev' ?_
          have hne : evs ≠ [] := by
            rintro rfl
            cases hmem
          rw [List.dropLast_cons_of_ne_nil hne]
          exact List.mem_cons_of_mem _ hmem

/-- In no ledger that is reached the callback raises for an event before the last. -/
def LastRaises (hasCallback : Bool) (raises : PendingEvent → Bool) (cutoff : ℤ)
    (rows : List (ℤ × List PendingEvent)) : Prop :=
  hasCallback = true → ∀ kr ∈ rows, kr.1 ≤ cutoff →
    (∀ kr' ∈ rows, kr'.1 < kr.1 → ∀ ev ∈ kr'.2, raises ev = false) →
    ∀ ev ∈ kr.2.dropLast, raises ev = false

/-- What the loop over the ledgers leaves: some events are finalized, in the order of their
ledgers, and some may be lost; all others stay where they were. -/
structure Finalizes (raises : PendingEvent → Bool) (cutoff : ℤ) (p : ReorgAwareEventProcessor)
    (rows : List (ℤ × List PendingEvent)) (after : ReorgAwareEventProcessor)
    (delivered lost : List PendingEvent) : Prop where
  /-- The processor. -/
  after_eq : after = { p.deliver delivered with pending := after.pending }
  /-- The events that were pending. -/
  accounted : ∀ id, occurrences (eventsOf p.pending) id =
    occurrences delivered id + occurrences lost id + occurrences (eventsOf after.pending) id
  /-- Those that still are. -/
  remaining : after.pending.rows.Sublist p.pending.rows
  /-- Those that are finalized. -/
  confirmed : ∀ ev ∈ delivered, ev.ledgerSequence ≤ cutoff
  /-- Where they come from. -/
  source : ∀ ev ∈ delivered ++ lost, ∃ kr ∈ rows, ev ∈ kr.2
  /-- Their order. -/
  ordered : delivered.Pairwise fun ev ev' => ev.ledgerSequence ≤ ev'.ledgerSequence
  /-- None is lost exactly if the callback raises for none before the last of a ledger. -/
  complete : lost = [] ↔ LastRaises p.hasCallback raises cutoff rows

/-- Nothing is done where no ledger is confirmed. -/
theorem Finalizes.refl {rows : List (ℤ × List PendingEvent)} (hcut : ∀ kr ∈ rows, cutoff < kr.1) :
    Finalizes raises cutoff p rows p [] [] where
  after_eq := by rw [deliver_nil]
  accounted id := by simp
  remaining := List.Sublist.refl _
  confirmed _ hmem := absurd hmem List.not_mem_nil
  source _ hmem := absurd hmem List.not_mem_nil
  ordered := List.Pairwise.nil
  complete := by
    refine iff_of_true rfl fun _ kr hkr hle => ?_
    exact absurd hle (not_le.mpr (hcut kr hkr))

/-- Some events of the first ledger are delivered, and the callback raises for one of them. -/
theorem Finalizes.stopped {seq : ℤ} {delivered lost : List PendingEvent}
    {rest : List (ℤ × List PendingEvent)}
    (hfind : p.pending.find? seq = some (delivered ++ lost))
    (hfirst : ∀ kr ∈ rest, seq < kr.1) (hcut : seq ≤ cutoff)
    (hkeys : ∀ ev ∈ delivered ++ lost, ev.ledgerSequence = seq)
    (hraised : p.hasCallback = true ∧ ∃ ev ∈ delivered ++ lost, raises ev = true)
    (hlost : lost = [] ↔
      (p.hasCallback = true → ∀ ev ∈ (delivered ++ lost).dropLast, raises ev = false)) :
    Finalizes raises cutoff p ((seq, delivered ++ lost) :: rest)
      (deliver { p with pending := p.pending.erase seq } delivered) delivered lost where
  after_eq := rfl
  accounted id := by
    rw [occurrences_erase p.pending seq, hfind, Option.getD_some, occurrences_append]
    rfl
  remaining := List.filter_sublist
  confirmed ev hev := by
    rw [hkeys ev (List.mem_append_left _ hev)]
    exact hcut
  source ev hev := ⟨_, List.mem_cons_self, hev⟩
  ordered := by
    refine List.pairwise_of_forall_mem_list fun ev hev ev' hev' => ?_
    rw [hkeys ev (List.mem_append_left _ hev), hkeys ev' (List.mem_append_left _ hev')]
  complete := by
    obtain ⟨hcallback, ev₀, hev₀, hraise⟩ := hraised
    rw [hlost]
    constructor
    · intro hall _ kr hkr hle hbefore
      obtain rfl | hkr := List.mem_cons.mp hkr
      · exact hall hcallback
      · have hquiet := hbefore _ List.mem_cons_self (hfirst kr hkr) ev₀ hev₀
        rw [hraise] at hquiet
        cases hquiet
    · intro hall _
      refine hall hcallback _ List.mem_cons_self hcut fun kr hkr hlt => ?_
      exfalso
      obtain rfl | hkr := List.mem_cons.mp hkr
      · exact lt_irrefl _ hlt
      · exact lt_asymm hlt (hfirst kr hkr)

/-- All events of the first ledger are delivered, and the loop goes on with the others. -/
theorem Finalizes.cons {seq : ℤ} {events delivered lost : List PendingEvent}
    {rest : List (ℤ × List PendingEvent)} {after : ReorgAwareEventProcessor}
    (hfind : p.pending.find? seq = some events) (hfirst : ∀ kr ∈ rest, seq < kr.1)
    (hcut : seq ≤ cutoff)
    (hkeyed : ∀ kr ∈ (seq, events) :: rest, ∀ ev ∈ kr.2, ev.ledgerSequence = kr.1)
    (hquiet : p.hasCallback = true → ∀ ev ∈ events, raises ev = false)
    (hrest : Finalizes raises cutoff (deliver { p with pending := p.pending.erase seq } events)
      rest after delivered lost) :
    Finalizes raises cutoff p ((seq, events) :: rest) after (events ++ delivered) lost where
  after_eq := by
    have hafter := hrest.after_eq
    rw [deliver_deliver] at hafter
    exact hafter
  accounted id := by
    have hcount : occurrences (eventsOf (p.pending.erase seq)) id = _ := hrest.accounted id
    rw [occurrences_erase p.pending seq, hfind, Option.getD_some, hcount, occurrences_append]
    omega
  remaining := hrest.remaining.trans List.filter_sublist
  confirmed ev hev := by
    obtain hev | hev := List.mem_append.mp hev
    · rw [hkeyed _ List.mem_cons_self ev hev]
      exact hcut
    · exact hrest.confirmed ev hev
  source ev hev := by
    rw [List.append_assoc] at hev
    obtain hev | hev := List.mem_append.mp hev
    · exact ⟨(seq, events), List.mem_cons_self, hev⟩
    · obtain ⟨kr, hkr, hmem⟩ := hrest.source ev hev
      exact ⟨kr, List.mem_cons_of_mem _ hkr, hmem⟩
  ordered := by
    have hkeys := hkeyed _ List.mem_cons_self
    rw [List.pairwise_append]
    refine ⟨?_, hrest.ordered, ?_⟩
    · refine List.pairwise_of_forall_mem_list fun ev hev ev' hev' => ?_
      rw [hkeys ev hev, hkeys ev' hev']
    · intro ev hev ev' hev'
      obtain ⟨kr, hkr, hmem⟩ := hrest.source ev' (List.mem_append_left _ hev')
      rw [hkeys ev hev, hkeyed kr (List.mem_cons_of_mem _ hkr) ev' hmem]
      exact (hfirst kr hkr).le
  complete := by
    rw [hrest.complete]
    constructor
    · intro hall hcallback kr hkr hle hbefore ev hev
      obtain rfl | hkr := List.mem_cons.mp hkr
      · exact hquiet hcallback ev (List.dropLast_subset _ hev)
      · refine hall hcallback kr hkr hle (fun kr' hkr' => ?_) ev hev
        exact hbefore kr' (List.mem_cons_of_mem _ hkr')
    · intro hall hcallback kr hkr hle hbefore
      refine hall hcallback kr (List.mem_cons_of_mem _ hkr) hle fun kr' hkr' hlt => ?_
      obtain rfl | hkr' := List.mem_cons.mp hkr'
      · exact hquiet hcallback
      · exact hbefore kr' hkr' hlt

theorem finalizeLoop_spec {rows : List (ℤ × List PendingEvent)}
    (hrows : ∀ kr ∈ rows, p.pending.find? kr.1 = some kr.2)
    (hsorted : rows.Pairwise fun a b => a.1 < b.1)
    (hkeyed : ∀ kr ∈ rows, ∀ ev ∈ kr.2, ev.ledgerSequence = kr.1) :
    ∃ delivered lost, Finalizes raises cutoff p rows (finalizeLoop raises cutoff p rows).1
      delivered lost := by
  induction rows generalizing p with
  | nil => exact ⟨[], [], .refl fun _ hkr => absurd hkr List.not_mem_nil⟩
  | cons kr rest ih =>
    obtain ⟨seq, events⟩ := kr
    obtain ⟨hfirst, hrest⟩ := List.pairwise_cons.mp hsorted
    have hfind := hrows (seq, events) List.mem_cons_self
    unfold finalizeLoop
    by_cases hcut : cutoff < seq
    · rw [if_pos hcut]
      refine ⟨[], [], .refl fun kr hkr => ?_⟩
      obtain rfl | hkr := List.mem_cons.mp hkr
      · exact hcut
      · exact hcut.trans (hfirst kr hkr)
    · rw [if_neg hcut]
      obtain ⟨delivered, lost, hsplit, hdeliver, hraised, hlost, hnone⟩ :=
        finalizeBatch_spec { p with pending := p.pending.erase seq } raises events
      dsimp only
      cases hstop : (finalizeBatch raises { p with pending := p.pending.erase seq } events).2 with
      | true =>
        rw [if_pos rfl, hdeliver]
        have hstopped := hraised.mp hstop
        subst hsplit
        exact ⟨delivered, lost, .stopped hfind hfirst (not_lt.mp hcut)
          (hkeyed _ List.mem_cons_self) hstopped hlost⟩
      | false =>
        obtain rfl := hnone hstop
        rw [List.append_nil] at hsplit
        subst hsplit
        have hquiet : p.hasCallback = true → ∀ ev ∈ events, raises ev = false := by
          intro hcallback ev hev
          by_contra hraise
          have hstop' := hraised.mpr ⟨hcallback, ev, hev, by simpa using hraise⟩
          rw [hstop] at hstop'
          cases hstop'
        rw [if_neg (by simp), hdeliver]
        have hrows' : ∀ kr ∈ rest, (p.pending.erase seq).find? kr.1 = some kr.2 := by
          intro kr hkr
          rw [UniqueTable.find?_erase, if_neg (hfirst kr hkr).ne']
          exact hrows kr (List.mem_cons_of_mem _ hkr)
        obtain ⟨delivered, lost, hrec⟩ :=
          ih (p := deliver { p with pending := p.pending.erase seq } events) hrows' hrest
            fun kr hkr => hkeyed kr (List.mem_cons_of_mem _ hkr)
        exact ⟨events ++ delivered, lost,
          .cons hfind hfirst (not_lt.mp hcut) hkeyed hquiet hrec⟩

/-- The rows of a buffer in which every event stands under its ledger. -/
def Keyed (pending : UniqueTable ℤ (List PendingEvent)) : Prop :=
  ∀ kr ∈ pending.rows, ∀ ev ∈ kr.2, ev.ledgerSequence = kr.1

/-- What `finalize_events` leaves. -/
theorem finalizeEvents_spec (hkeyed : Keyed p.pending) (raises : PendingEvent → Bool) (tip : ℤ) :
    ∃ delivered lost, Finalizes raises (tip - p.confirmationDepth) p p.pending.sortKeys.rows
      (p.finalizeEvents raises tip).1 delivered lost := by
  have hperm : p.pending.sortKeys.rows.Perm p.pending.rows := List.perm_insertionSort _ _
  refine finalizeLoop_spec ?_ ?_ fun kr hkr => hkeyed kr (hperm.mem_iff.mp hkr)
  · intro kr hkr
    rw [← UniqueTable.find?_sortKeys, UniqueTable.find?_eq_some_iff]
    exact hkr
  · have hle : p.pending.sortKeys.rows.Pairwise fun a b => a.1 ≤ b.1 :=
      List.pairwise_insertionSort (fun a b : ℤ × List PendingEvent => a.1 ≤ b.1) _
    have hne : p.pending.sortKeys.rows.Pairwise fun a b => a.1 ≠ b.1 :=
      List.pairwise_map.mp p.pending.sortKeys.nodup
    exact hle.imp₂ (fun a b h h' => lt_of_le_of_ne h h') hne

/-- The condition of `finalize_events`, as the loop meets it. -/
theorem lastRaises_iff (tip : ℤ) :
    LastRaises p.hasCallback raises (tip - p.confirmationDepth) p.pending.sortKeys.rows ↔
      p.RaisesLast raises tip := by
  have hmem : ∀ seq events, (seq, events) ∈ p.pending.sortKeys.rows ↔
      p.pending.find? seq = some events := by
    intro seq events
    rw [← UniqueTable.find?_eq_some_iff, UniqueTable.find?_sortKeys]
  constructor
  · intro hlast hcallback seq events hfind hdepth hbefore
    refine hlast hcallback (seq, events) ((hmem seq events).mpr hfind) (by omega) ?_
    rintro ⟨seq', events'⟩ hkr hlt
    exact hbefore seq' events' hlt ((hmem seq' events').mp hkr)
  · rintro hlast hcallback ⟨seq, events⟩ hkr hle hbefore
    refine hlast hcallback seq events ((hmem seq events).mp hkr) (by omega) ?_
    intro seq' events' hlt hfind
    exact hbefore (seq', events') ((hmem seq' events').mpr hfind) hlt

end ReorgAwareEventProcessor

namespace ReorgHistory

open ReorgAwareEventProcessor

/-- The invariant. -/
structure Inv (h : ReorgHistory) : Prop where
  /-- What holds of the calls so far. -/
  partitioned : h.Partitioned
  /-- Pending events stand under their ledger. -/
  keyed : Keyed h.processor.pending
  /-- There are no events but those passed. -/
  known : ∀ id, h.passed ≤ id → h.places id = 0

variable {h : ReorgHistory}

theorem places_eq (id : ℕ) : h.places id =
    occurrences (eventsOf h.processor.pending) id + occurrences h.processor.finalized id +
      occurrences h.returned id := rfl

/-- What a call of `finalize_events` does to the places of the events. -/
theorem finalizeEvents_places (hkeyed : Keyed h.processor.pending) (raises : PendingEvent → Bool)
    (tip : ℤ) :
    ∃ delivered lost, Finalizes raises (tip - h.processor.confirmationDepth) h.processor
        h.processor.pending.sortKeys.rows (h.processor.finalizeEvents raises tip).1
        delivered lost ∧
      (h.step (.finalizeEvents tip raises)).batches = h.batches ++ [(tip, delivered)] ∧
      ∀ id, h.places id =
        (h.step (.finalizeEvents tip raises)).places id + occurrences lost id := by
  obtain ⟨delivered, lost, hfin⟩ := finalizeEvents_spec hkeyed raises tip
  have hfinalized : (h.processor.finalizeEvents raises tip).1.finalized =
      h.processor.finalized ++ delivered := by
    rw [hfin.after_eq]
    rfl
  refine ⟨delivered, lost, hfin, ?_, fun id => ?_⟩
  · simp only [step, finalizedBy]
    rw [hfinalized, List.drop_left]
  · have hcount := hfin.accounted id
    rw [places_eq, places_eq]
    simp only [step, finalizedBy]
    rw [hfinalized, occurrences_append]
    omega

/-- A call of `finalize_events` that loses nothing. -/
theorem inv_finalizeEvents (hinv : h.Inv) {tip : ℤ} {raises : PendingEvent → Bool}
    (hlast : h.processor.RaisesLast raises tip) : (h.step (.finalizeEvents tip raises)).Inv := by
  obtain ⟨delivered, lost, hfin, hbatches, hplaces⟩ :=
    finalizeEvents_places hinv.keyed raises tip
  obtain rfl : lost = [] := hfin.complete.mpr ((lastRaises_iff tip).mpr hlast)
  have hsame : ∀ id, (h.step (.finalizeEvents tip raises)).places id = h.places id :=
    fun id => (hplaces id).symm
  have hprocessor : (h.step (.finalizeEvents tip raises)).processor =
      { h.processor.deliver delivered with
        pending := (h.processor.finalizeEvents raises tip).1.pending } := hfin.after_eq
  refine
    { partitioned :=
        { places := fun id hid => (hsame id).trans (hinv.partitioned.places id hid)
          invoked := ?_
          confirmed := ?_
          ordered := ?_ }
      keyed := fun kr hkr => hinv.keyed kr (hfin.remaining.subset hkr)
      known := fun id hid => (hsame id).trans (hinv.known id hid) }
  · rw [hprocessor]
    intro hcallback
    have hinvoked := hinv.partitioned.invoked hcallback
    simp only [deliver, if_pos (show h.processor.hasCallback = true from hcallback), hinvoked]
  · rw [hprocessor, hbatches]
    intro batch hbatch ev hev
    obtain hbatch | hbatch := List.mem_append.mp hbatch
    · exact hinv.partitioned.confirmed batch hbatch ev hev
    · obtain rfl := List.mem_singleton.mp hbatch
      have hle := hfin.confirmed ev hev
      simp only [deliver]
      omega
  · rw [hbatches]
    intro batch hbatch
    obtain hbatch | hbatch := List.mem_append.mp hbatch
    · exact hinv.partitioned.ordered batch hbatch
    · obtain rfl := List.mem_singleton.mp hbatch
      exact hfin.ordered

/-- An event that is lost is in no place any more. -/
theorem not_partitioned_finalizeEvents (hinv : h.Inv) {tip : ℤ} {raises : PendingEvent → Bool}
    (hlast : ¬h.processor.RaisesLast raises tip) :
    ¬(h.step (.finalizeEvents tip raises)).Partitioned := by
  obtain ⟨delivered, lost, hfin, -, hplaces⟩ := finalizeEvents_places hinv.keyed raises tip
  have hne : lost ≠ [] := fun h0 => hlast ((lastRaises_iff tip).mp (hfin.complete.mp h0))
  obtain ⟨ev, hev⟩ := List.exists_mem_of_ne_nil lost hne
  have hlost : 0 < occurrences lost ev.id :=
    List.countP_pos_iff.mpr ⟨ev, hev, by simp⟩
  have hold := hplaces ev.id
  have hid : ev.id < h.passed := by
    by_contra hge
    have hzero := hinv.known ev.id (not_lt.mp hge)
    omega
  intro hpart
  have hone := hinv.partitioned.places ev.id hid
  have hone' := hpart.places ev.id hid
  omega

/-- The history with one more event in the buffer. -/
def buffered (h : ReorgHistory) (seq : ℤ) (eventData : EventData) : ReorgHistory :=
  { h with
    processor := h.processor.buffer ⟨h.passed, seq, eventData⟩
    passed := h.passed + 1 }

/-- A `process_event` that can read the ledger puts the event into the buffer and finalizes. -/
theorem step_processEvent {eventData : EventData} {seq : ℤ}
    (hseq : eventData.extractLedgerSeq = some seq) (tip : ℤ) (raises : PendingEvent → Bool) :
    h.step (.processEvent eventData tip raises) =
      (h.buffered seq eventData).step (.finalizeEvents tip raises) := by
  simp only [step, processEvent, hseq]
  rfl

/-- What stands in the buffer after an event is put into it. -/
theorem eventsOf_buffer (p : ReorgAwareEventProcessor) (ev : PendingEvent) (id : ℕ) :
    occurrences (eventsOf (p.buffer ev).pending) id =
      occurrences (eventsOf p.pending) id + occurrences [ev] id := by
  unfold buffer
  dsimp only
  rw [occurrences_erase _ ev.ledgerSequence, UniqueTable.find?_put, if_pos rfl,
    UniqueTable.erase_put, Option.getD_some, occurrences_append,
    occurrences_erase p.pending ev.ledgerSequence]
  omega

theorem keyed_buffer {p : ReorgAwareEventProcessor} (hkeyed : Keyed p.pending)
    (ev : PendingEvent) : Keyed (p.buffer ev).pending := by
  rintro ⟨seq, events⟩ hkr ev' hev'
  rw [← UniqueTable.find?_eq_some_iff] at hkr
  unfold buffer at hkr
  dsimp only at hkr
  rw [UniqueTable.find?_put] at hkr
  split_ifs at hkr with hseq
  · obtain rfl := Option.some.inj hkr
    obtain hold | hnew := List.mem_append.mp hev'
    · cases hfind : p.pending.find? ev.ledgerSequence with
      | none =>
        rw [hfind] at hold
        cases hold
      | some old =>
        rw [hfind, Option.getD_some] at hold
        rw [hseq]
        exact hkeyed (_, old) ((UniqueTable.find?_eq_some_iff _ _ _).mp hfind) ev' hold
    · rw [List.mem_singleton.mp hnew, hseq]
  · exact hkeyed (seq, events) ((UniqueTable.find?_eq_some_iff _ _ _).mp hkr) ev' hev'

/-- A new event has one place, the buffer. -/
theorem inv_buffered (hinv : h.Inv) (seq : ℤ) (eventData : EventData) :
    (h.buffered seq eventData).Inv := by
  have hplaces (id : ℕ) : (h.buffered seq eventData).places id =
      h.places id + occurrences [⟨h.passed, seq, eventData⟩] id := by
    have hcount := eventsOf_buffer h.processor ⟨h.passed, seq, eventData⟩ id
    rw [places_eq, places_eq]
    simp only [buffered]
    rw [hcount]
    simp only [buffer]
    omega
  have hnew (id : ℕ) : occurrences [⟨h.passed, seq, eventData⟩] id =
      if h.passed = id then 1 else 0 := by
    simp [occurrences, List.countP_cons]
  refine
    { partitioned :=
        { places := fun id hid => ?_
          invoked := hinv.partitioned.invoked
          confirmed := hinv.partitioned.confirmed
          ordered := hinv.partitioned.ordered }
      keyed := keyed_buffer hinv.keyed _
      known := fun id hid => ?_ }
  · rw [hplaces, hnew]
    have hlt : id < h.passed + 1 := hid
    obtain hlt | rfl := Nat.lt_succ_iff_lt_or_eq.mp hlt
    · rw [hinv.partitioned.places id hlt, if_neg hlt.ne']
    · rw [hinv.known _ le_rfl, if_pos rfl]
  · rw [hplaces, hnew]
    have hle : h.passed + 1 ≤ id := hid
    rw [hinv.known id (by omega), if_neg (by omega)]

/-- An event whose ledger cannot be read is in no place. -/
theorem not_partitioned_of_unreadable (hinv : h.Inv) {eventData : EventData}
    (hseq : eventData.extractLedgerSeq = none) (tip : ℤ) (raises : PendingEvent → Bool) :
    ¬(h.step (.processEvent eventData tip raises)).Partitioned := by
  intro hpart
  have hone := hpart.places h.passed (Nat.lt_succ_self _)
  have hzero := hinv.known h.passed le_rfl
  simp only [step, processEvent, hseq] at hone
  rw [places_eq] at hone hzero
  simp only [finalizedBy] at hone
  omega

/-- What `handle_reorg` does to the places of the events, and that it leaves the rest alone. -/
theorem handleReorg_spec (p : ReorgAwareEventProcessor) (seqs : List ℤ) :
    (p.handleReorg seqs).2 =
      { p with
        pending := (p.handleReorg seqs).2.pending
        retractedSequences := (p.handleReorg seqs).2.retractedSequences } ∧
    (p.handleReorg seqs).2.pending.rows.Sublist p.pending.rows ∧
    ∀ id, occurrences (eventsOf p.pending) id =
      occurrences (p.handleReorg seqs).1 id +
        occurrences (eventsOf (p.handleReorg seqs).2.pending) id := by
  induction seqs generalizing p with
  | nil => exact ⟨rfl, List.Sublist.refl _, fun id => by simp [handleReorg]⟩
  | cons seq seqs ih =>
    obtain ⟨hrest, hsub, hcount⟩ := ih (p.retract seq)
    unfold handleReorg
    dsimp only
    refine ⟨hrest, hsub.trans List.filter_sublist, fun id => ?_⟩
    have herased : occurrences (eventsOf p.pending) id =
        occurrences ((p.pending.find? seq).getD []) id +
          occurrences (eventsOf (p.retract seq).pending) id := occurrences_erase p.pending seq id
    rw [herased, hcount, occurrences_append]
    omega

/-- A reorg moves events from the buffer to those returned. -/
theorem inv_handleReorg (hinv : h.Inv) (seqs : List ℤ) : (h.step (.handleReorg seqs)).Inv := by
  obtain ⟨hrest, hsub, hcount⟩ := handleReorg_spec h.processor seqs
  have hprocessor : (h.step (.handleReorg seqs)).processor = (h.processor.handleReorg seqs).2 := rfl
  have hsame (id : ℕ) : (h.step (.handleReorg seqs)).places id = h.places id := by
    have hfinalized : (h.processor.handleReorg seqs).2.finalized = h.processor.finalized := by
      rw [hrest]
    have hid := hcount id
    rw [places_eq, places_eq]
    simp only [step]
    rw [hfinalized, occurrences_append]
    omega
  refine
    { partitioned :=
        { places := fun id hid => (hsame id).trans (hinv.partitioned.places id hid)
          invoked := ?_
          confirmed := ?_
          ordered := hinv.partitioned.ordered }
      keyed := fun kr hkr => hinv.keyed kr (hsub.subset hkr)
      known := fun id hid => (hsame id).trans (hinv.known id hid) }
  · rw [hprocessor, hrest]
    exact hinv.partitioned.invoked
  · rw [hprocessor, hrest]
    exact hinv.partitioned.confirmed

/-- A call that delivers whole batches keeps every event in one place. -/
theorem inv_step (hinv : h.Inv) (call : ReorgCall) (hcond : h.DeliversBatches call) :
    (h.step call).Inv := by
  cases call with
  | processEvent eventData tip raises =>
    obtain ⟨seq, hseq, hlast⟩ := hcond
    rw [step_processEvent hseq]
    exact inv_finalizeEvents (inv_buffered hinv seq eventData) hlast
  | finalizeEvents tip raises => exact inv_finalizeEvents hinv hcond
  | handleReorg seqs => exact inv_handleReorg hinv seqs

/-- Any other call leaves an event in no place. -/
theorem not_partitioned_step (hinv : h.Inv) (call : ReorgCall)
    (hcond : ¬h.DeliversBatches call) : ¬(h.step call).Partitioned := by
  cases call with
  | processEvent eventData tip raises =>
    cases hseq : eventData.extractLedgerSeq with
    | none => exact not_partitioned_of_unreadable hinv hseq tip raises
    | some seq =>
      rw [step_processEvent hseq]
      refine not_partitioned_finalizeEvents (inv_buffered hinv seq eventData) fun hlast => ?_
      exact hcond ⟨seq, hseq, hlast⟩
  | finalizeEvents tip raises => exact not_partitioned_finalizeEvents hinv hcond
  | handleReorg seqs => exact absurd trivial hcond

/-- A processor that is new. -/
def start (confirmationDepth : ℤ) (hasCallback : Bool) : ReorgHistory where
  processor := { confirmationDepth := confirmationDepth, hasCallback := hasCallback }

theorem inv_start (confirmationDepth : ℤ) (hasCallback : Bool) :
    (start confirmationDepth hasCallback).Inv where
  partitioned :=
    { places := fun _ hid => absurd hid (Nat.not_lt_zero _)
      invoked := fun _ => rfl
      confirmed := fun _ hbatch => nomatch hbatch
      ordered := fun _ hbatch => nomatch hbatch }
  keyed := fun _ hkr => nomatch hkr
  known := fun _ _ => rfl

/-- Every event passed to the processor is in one place, was delivered once if it is finalized,
not before it was confirmed and in the order of the ledgers, in exactly the runs in which each
event has a ledger that can be read and the callback raises for no event before the last of a
ledger. -/
theorem always_partitioned_iff (confirmationDepth : ℤ) (hasCallback : Bool)
    (calls : List ReorgCall) :
    Always step Partitioned (start confirmationDepth hasCallback) calls ↔
      Meets step DeliversBatches (start confirmationDepth hasCallback) calls :=
  always_iff_meets Inv (fun _ hinv => hinv.partitioned) (fun _ call hinv => inv_step hinv call)
    (fun _ call hinv => not_partitioned_step hinv call)
    (inv_start confirmationDepth hasCallback) calls

/-- Two events of ledger 5; the callback raises for the first of them at tip 7. -/
private def raisedAtFirst : List ReorgCall :=
  [.processEvent (.contractEvent 5) 5 fun _ => false,
    .processEvent (.contractEvent 5) 5 fun _ => false,
    .finalizeEvents 7 fun ev => ev.id = 0]

/-- The second event is neither pending nor finalized nor returned. -/
theorem second_event_lost : (exec step (start 2 true) raisedAtFirst).passed = 2 ∧
    (exec step (start 2 true) raisedAtFirst).places 1 = 0 ∧
    ¬Always step Partitioned (start 2 true) raisedAtFirst := by
  have hlost : (exec step (start 2 true) raisedAtFirst).passed = 2 ∧
      (exec step (start 2 true) raisedAtFirst).places 1 = 0 := by decide +kernel
  refine ⟨hlost.1, hlost.2, fun halways => ?_⟩
  have hone := halways.last.places 1 (by
    rw [hlost.1]
    decide)
  rw [hlost.2] at hone
  cases hone

end ReorgHistory

end LedgerLens.Integrations
