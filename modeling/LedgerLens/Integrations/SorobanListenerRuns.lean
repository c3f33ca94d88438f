import LedgerLens.Integrations.SorobanEventListener
import LedgerLens.Library.Runs

/-!
# Runs of the Soroban event listener

The start ledger is saved before the events of a page are dispatched, a page may end in the
middle of a ledger, and a new listener believes that nothing is paused. This file determines
the runs in which every event below the start ledger has been notified and the flag is what
the last pause or unpause below the start ledger says.
-/

namespace LedgerLens.Integrations.SorobanEventListener

open Transition

/-- What can happen next. -/
inductive ListenerEvent where
  /-- A poll, which ends normally or with a logged exception. -/
  | poll (input : PollInput)
  /-- A poll in which the process dies, and a restart. -/
  | crash (input : PollInput) (dispatched : ℕ)
  /-- A restart between two polls. -/
  | restart

/-- A listener within its run. -/
structure RunState where
  /-- The listener. -/
  listener : ListenerState := {}
  /-- No poll has ended since it was constructed. -/
  fresh : Bool := true

/-- The next state of a run. -/
def step (l : SorobanEventListener) (chain : Chain) (s : RunState) : ListenerEvent → RunState
  | .poll input => ⟨l.pollOnce chain input s.listener, false⟩
  | .crash input dispatched => ⟨l.crashedPoll chain input dispatched s.listener, true⟩
  | .restart => ⟨reconstruct s.listener, true⟩

variable {l : SorobanEventListener} {chain : Chain} {s : ListenerState} {input : PollInput}
  {raises : ChainEvent → Bool} {events : List ChainEvent} {event : ChainEvent}

/-- What a callback says about being paused. -/
def Callback.flag : Callback → Option Bool
  | .thresholdChanged _ => none
  | .contractPaused _ => some true
  | .contractUnpaused => some false

/-- The events of a list that lead to a callback, with it. -/
def callbacks (l : SorobanEventListener) (events : List ChainEvent) :
    List (ChainEvent × Callback) :=
  events.filterMap fun event => (l.callbackOf event).map (event, ·)

/-- What the last pause or unpause in a list of callbacks says. -/
def lastFlag (invoked : List (ChainEvent × Callback)) : Option Bool :=
  (invoked.filterMap fun entry => Callback.flag entry.2).getLast?

/-- The events below a ledger that lead to a callback, with it. -/
def callbacksBelow (l : SorobanEventListener) (chain : Chain) (n : ℕ) :
    List (ChainEvent × Callback) :=
  l.callbacks (chain.events.filter fun event => decide (event.ledger < n))

/-- Every event below the start ledger that leads to a callback has led to it. -/
def Notified (l : SorobanEventListener) (chain : Chain) (s : ListenerState) : Prop :=
  ∀ entry ∈ l.callbacksBelow chain s.startLedger, entry ∈ s.invoked

/-- The flag is set exactly when the last pause or unpause below the start ledger is a
pause. -/
def FlagTells (l : SorobanEventListener) (chain : Chain) (s : ListenerState) : Prop :=
  s.paused = true ↔ lastFlag (l.callbacksBelow chain s.startLedger) = some true

/-- What is to hold in every state of a run, of the flag only after a poll. -/
def InStep (l : SorobanEventListener) (chain : Chain) (s : RunState) : Prop :=
  l.Notified chain s.listener ∧ (s.fresh = false → l.FlagTells chain s.listener)

instance (l : SorobanEventListener) (chain : Chain) : DecidablePred (l.InStep chain) := fun s =>
  inferInstanceAs (Decidable
    ((∀ entry ∈ l.callbacksBelow chain s.listener.startLedger, entry ∈ s.listener.invoked) ∧
      (s.fresh = false → (s.listener.paused = true ↔
        lastFlag (l.callbacksBelow chain s.listener.startLedger) = some true))))

/-- Dispatching an event is invoking its callback, if there is one. -/
theorem dispatch_eq (event : ChainEvent) (s : ListenerState) :
    l.dispatch event s =
      match l.callbackOf event with
      | none => s
      | some callback => invoke event callback
          { s with paused := (Callback.flag callback).getD s.paused } := by
  unfold dispatch callbackOf
  cases event.topic with
  | nil => rfl
  | cons name rest =>
    dsimp only
    split_ifs
    · cases extractU32 event.value <;> rfl
    · rfl
    · rfl
    · rfl

/-- No callback that raises has an event after it that leads to a callback. -/
def Uninterrupted (l : SorobanEventListener) (raises : ChainEvent → Bool)
    (events : List ChainEvent) : Prop :=
  events.Pairwise fun a b => (l.callbackOf a).isSome && raises a → l.callbackOf b = none

theorem callbacks_eq_nil (h : ∀ event ∈ events, l.callbackOf event = none) :
    l.callbacks events = [] := by
  unfold callbacks
  rw [List.filterMap_eq_nil_iff]
  intro event hevent
  rw [h event hevent, Option.map_none]

theorem lastFlag_append (a b : List (ChainEvent × Callback)) :
    lastFlag (a ++ b) = (lastFlag b).or (lastFlag a) := by
  simp [lastFlag, List.filterMap_append, List.getLast?_append]

/-- Events that are dispatched without interruption all lead to their callbacks, and the
last pause or unpause among them decides the flag. -/
theorem dispatchAll_of_uninterrupted (h : l.Uninterrupted raises events) (s : ListenerState) :
    l.dispatchAll raises events s =
      { startLedger := s.startLedger
        paused := (lastFlag (l.callbacks events)).getD s.paused
        invoked := s.invoked ++ l.callbacks events } := by
  induction events generalizing s with
  | nil => simp [dispatchAll, callbacks, lastFlag]
  | cons event rest ih =>
    rw [Uninterrupted, List.pairwise_cons] at h
    have hcons : l.callbacks (event :: rest) =
        ((l.callbackOf event).map (event, ·)).toList ++ l.callbacks rest := by
      unfold callbacks
      rw [List.filterMap_cons]
      cases l.callbackOf event <;> rfl
    unfold dispatchAll
    rw [dispatch_eq, hcons, lastFlag_append]
    cases hcallback : l.callbackOf event with
    | none => simp [ih h.2, lastFlag]
    | some callback =>
      have hone : lastFlag [(event, callback)] = Callback.flag callback := by
        cases hflag : Callback.flag callback <;> simp [lastFlag, hflag]
      simp only [Option.isSome_some, Bool.true_and, Option.map_some, Option.toList_some]
      split_ifs with hraises
      · have hrest := callbacks_eq_nil fun b hb => h.1 b hb (by rw [hcallback]; exact hraises)
        rw [hrest, hone]
        simp [invoke, lastFlag]
      · rw [ih h.2, hone]
        cases hlast : lastFlag (l.callbacks rest) <;> simp [invoke]

@[simp] theorem mem_callbacks {callback : Callback} :
    (event, callback) ∈ l.callbacks events ↔
      event ∈ events ∧ l.callbackOf event = some callback := by
  simp [callbacks]

/-- Dispatching an event invokes no callback for another. -/
theorem mem_invoked_dispatch {entry : ChainEvent × Callback} (hne : entry.1 ≠ event)
    (h : entry ∈ (l.dispatch event s).invoked) : entry ∈ s.invoked := by
  rw [dispatch_eq] at h
  cases hcallback : l.callbackOf event with
  | none => simpa [hcallback] using h
  | some callback =>
    simp only [hcallback, invoke, List.mem_append, List.mem_singleton] at h
    rcases h with h | rfl
    · exact h
    · exact absurd rfl hne

/-- An interrupted dispatch leaves out an event that leads to a callback. -/
theorem dispatchAll_of_interrupted (hnodup : events.Nodup) (h : ¬l.Uninterrupted raises events)
    (s : ListenerState) :
    ∃ entry ∈ l.callbacks events,
      entry ∈ (l.dispatchAll raises events s).invoked → entry ∈ s.invoked := by
  induction events generalizing s with
  | nil => exact absurd List.Pairwise.nil h
  | cons event rest ih =>
    rw [List.nodup_cons] at hnodup
    have hother : ∀ entry ∈ l.callbacks rest, entry.1 ≠ event := by
      rintro ⟨e, callback⟩ hentry rfl
      exact hnodup.1 (mem_callbacks.mp hentry).1
    have hrest : ∀ entry ∈ l.callbacks rest, entry ∈ l.callbacks (event :: rest) := by
      rintro ⟨e, callback⟩ hentry
      obtain ⟨he, hcallback⟩ := mem_callbacks.mp hentry
      exact mem_callbacks.mpr ⟨List.mem_cons_of_mem _ he, hcallback⟩
    unfold dispatchAll
    split_ifs with hstop
    · -- whatever the reason for the interruption, an event with a callback comes later
      obtain ⟨e, he, hsome⟩ : ∃ e ∈ rest, l.callbackOf e ≠ none := by
        by_contra hnone
        push Not at hnone
        apply h
        exact List.pairwise_cons.mpr ⟨fun b hb _ => hnone b hb,
          List.pairwise_of_forall_mem_list fun _ _ b hb _ => hnone b hb⟩
      obtain ⟨callback, hcallback⟩ := Option.ne_none_iff_exists'.mp hsome
      have hentry := mem_callbacks.mpr ⟨he, hcallback⟩
      exact ⟨_, hrest _ hentry, mem_invoked_dispatch (hother _ hentry)⟩
    · have hlater : ¬l.Uninterrupted raises rest := fun hp =>
        h (List.pairwise_cons.mpr ⟨fun _ _ hraises => absurd hraises hstop, hp⟩)
      obtain ⟨entry, hentry, hkeep⟩ := ih hnodup.2 hlater (l.dispatch event s)
      exact ⟨entry, hrest _ hentry, fun hmem =>
        mem_invoked_dispatch (hother _ hentry) (hkeep hmem)⟩

/-- The start ledger after a page. -/
def startAfter (events : List ChainEvent) (startLedger : ℕ) : ℕ :=
  match events.getLast? with
  | none => startLedger
  | some last => last.ledger + 1

theorem fetchEvents_eq (l : SorobanEventListener) (chain : Chain) (input : PollInput)
    (s : ListenerState) :
    l.fetchEvents chain input s =
      (l.page chain input s,
        { s with startLedger := startAfter (l.page chain input s) s.startLedger }) := by
  unfold fetchEvents startAfter
  cases hlast : (l.page chain input s).getLast? with
  | none => rw [List.getLast?_eq_none_iff.mp hlast]
  | some last => rfl

/-- A page is a part of the chain. -/
theorem page_sublist : (l.page chain input s).Sublist chain.events := by
  have hfetched : (l.getEvents chain s.startLedger input.upTo).Sublist chain.events :=
    (List.take_sublist _ _).trans List.filter_sublist
  unfold page confirmed
  split_ifs
  · exact hfetched
  · cases input.latestLedger with
    | none => exact List.nil_sublist _
    | some latest => exact List.filter_sublist.trans hfetched

/-- The events of a page lie between the start ledger before and after it. -/
theorem ledger_of_mem_page (h : event ∈ l.page chain input s) :
    s.startLedger ≤ event.ledger ∧
      event.ledger < startAfter (l.page chain input s) s.startLedger := by
  constructor
  · have hfetched : event ∈ l.getEvents chain s.startLedger input.upTo := by
      unfold page confirmed at h
      split_ifs at h
      · exact h
      · cases hlatest : input.latestLedger with
        | none => simp [hlatest] at h
        | some latest =>
          rw [hlatest] at h
          exact List.mem_of_mem_filter h
    have hmem := List.mem_of_mem_take hfetched
    simp only [List.mem_filter, decide_eq_true_eq] at hmem
    exact hmem.2.2.1
  · have hpage : (l.page chain input s).Sublist chain.events := page_sublist
    have hordered := chain.ordered.sublist hpage
    unfold startAfter
    cases hlast : (l.page chain input s).getLast? with
    | none =>
      rw [List.getLast?_eq_none_iff.mp hlast] at h
      cases h
    | some last =>
      have hsplit := List.dropLast_append_getLast? last (Option.mem_def.mpr hlast)
      rw [← hsplit] at hordered h
      rcases List.mem_append.mp h with hbefore | hsame
      · have hle := (List.pairwise_append.mp hordered).2.2 event hbefore last (by simp)
        dsimp only
        omega
      · rw [List.mem_singleton.mp hsame]
        exact Nat.lt_succ_self _

theorem le_startAfter (l : SorobanEventListener) (chain : Chain) (input : PollInput)
    (s : ListenerState) : s.startLedger ≤ startAfter (l.page chain input s) s.startLedger := by
  cases hlast : (l.page chain input s).getLast? with
  | none => rw [startAfter, hlast]
  | some last =>
    have hmem := ledger_of_mem_page (List.mem_of_getLast? hlast)
    omega

/-- The page reaches as far as the start ledger moves: it does not end in the middle of a
ledger of which a watched event is left. -/
def PageComplete (l : SorobanEventListener) (chain : Chain) (input : PollInput)
    (s : ListenerState) : Prop :=
  ∀ event ∈ chain.events, l.callbackOf event ≠ none → s.startLedger ≤ event.ledger →
    event.ledger < startAfter (l.page chain input s) s.startLedger → event ∈ l.page chain input s

/-- What lies below `b` in a list of nondecreasing rank is what lies below `a`, followed by
what lies between. -/
theorem filter_lt_eq_append {α : Type*} {rank : α → ℕ} {list : List α}
    (hsorted : list.Pairwise fun x y => rank x ≤ rank y) {a b : ℕ} (hab : a ≤ b) :
    list.filter (fun x => decide (rank x < b)) =
      list.filter (fun x => decide (rank x < a)) ++
        list.filter (fun x => decide (a ≤ rank x) && decide (rank x < b)) := by
  induction list with
  | nil => rfl
  | cons x list ih =>
    rw [List.pairwise_cons] at hsorted
    rcases Nat.lt_or_ge (rank x) a with hlow | hhigh
    · have hb : rank x < b := by omega
      have ha : ¬a ≤ rank x := by omega
      simp [hlow, hb, ha, ih hsorted.2]
    · have hnone : list.filter (fun x => decide (rank x < a)) = [] := by
        apply List.filter_eq_nil_iff.mpr
        intro y hy
        have hrank := hsorted.1 y hy
        simp only [decide_eq_true_eq]
        omega
      have hnot : ¬rank x < a := by omega
      have hrest := ih hsorted.2
      rw [hnone, List.nil_append] at hrest
      simp [List.filter_cons, hnone, hrest, hnot, hhigh]

/-- The events of a list that lead to a callback decide which callbacks it leads to. -/
theorem callbacks_filter (events : List ChainEvent) :
    l.callbacks (events.filter fun e => (l.callbackOf e).isSome) = l.callbacks events := by
  unfold callbacks
  rw [List.filterMap_filter]
  congr 1
  funext e
  cases l.callbackOf e <;> rfl

/-- A complete page leads to exactly the callbacks between the start ledger before and after
it. -/
theorem callbacksBelow_startAfter (h : l.PageComplete chain input s) :
    l.callbacksBelow chain (startAfter (l.page chain input s) s.startLedger) =
      l.callbacksBelow chain s.startLedger ++ l.callbacks (l.page chain input s) := by
  unfold callbacksBelow
  rw [filter_lt_eq_append chain.ordered (le_startAfter l chain input s), callbacks,
    List.filterMap_append]
  congr 1
  change l.callbacks _ = _
  rw [← callbacks_filter, ← callbacks_filter (l.page chain input s)]
  congr 1
  -- both are the watched events of the page, in the order of the chain
  have hirrefl : Std.Irrefl fun e e' : ChainEvent => e.id < e'.id := ⟨fun _ => lt_irrefl _⟩
  have hantisymm : Std.Antisymm fun e e' : ChainEvent => e.id < e'.id :=
    ⟨fun _ _ hab hba => absurd hab (lt_asymm hba)⟩
  apply List.Pairwise.eq_of_mem_iff (r := fun e e' : ChainEvent => e.id < e'.id)
    (chain.numbered.sublist (List.filter_sublist.trans List.filter_sublist))
    (chain.numbered.sublist (List.filter_sublist.trans page_sublist))
  intro event
  simp only [List.mem_filter, Bool.and_eq_true, decide_eq_true_eq]
  constructor
  · rintro ⟨⟨hmem, hlow, hhigh⟩, hsome⟩
    exact ⟨h event hmem (Option.isSome_iff_ne_none.mp hsome) hlow hhigh, hsome⟩
  · rintro ⟨hmem, hsome⟩
    exact ⟨⟨page_sublist.subset hmem, ledger_of_mem_page hmem⟩, hsome⟩

theorem startLedger_dispatchAll (events : List ChainEvent) (s : ListenerState) :
    (l.dispatchAll raises events s).startLedger = s.startLedger := by
  have hone : ∀ event s, (l.dispatch event s).startLedger = s.startLedger := by
    intro event s
    rw [dispatch_eq]
    cases l.callbackOf event <;> rfl
  induction events generalizing s with
  | nil => rfl
  | cons event rest ih =>
    unfold dispatchAll
    split_ifs
    · exact hone event s
    · rw [ih, hone]

/-- Only callbacks that the events lead to are invoked. -/
theorem mem_invoked_dispatchAll {entry : ChainEvent × Callback} (events : List ChainEvent)
    (s : ListenerState) (h : entry ∈ (l.dispatchAll raises events s).invoked) :
    entry ∈ s.invoked ∨ entry ∈ l.callbacks events := by
  have hone : ∀ event s, entry ∈ (l.dispatch event s).invoked →
      entry ∈ s.invoked ∨ entry ∈ l.callbacks [event] := by
    intro event s h
    rw [dispatch_eq] at h
    cases hcallback : l.callbackOf event with
    | none => simpa [hcallback] using Or.inl (b := entry ∈ l.callbacks [event]) h
    | some callback => simpa [hcallback, invoke, callbacks] using h
  induction events generalizing s with
  | nil => exact Or.inl h
  | cons event rest ih =>
    have hcons : l.callbacks (event :: rest) = l.callbacks [event] ++ l.callbacks rest := by
      simp only [callbacks, ← List.filterMap_append, List.singleton_append]
    rw [hcons, List.mem_append, ← or_assoc]
    unfold dispatchAll at h
    split_ifs at h
    · exact Or.inl (hone event s h)
    · rcases ih _ h with h | h
      · exact Or.inl (hone event s h)
      · exact Or.inr h

/-- The invariant of a run: besides being in step, a listener has invoked callbacks for
events below the start ledger only, and a fresh one believes that nothing is paused. -/
structure Sound (l : SorobanEventListener) (chain : Chain) (s : RunState) : Prop where
  /-- It is in step. -/
  inStep : l.InStep chain s
  /-- Nothing at or above the start ledger was notified. -/
  below : ∀ entry ∈ s.listener.invoked, entry.1.ledger < s.listener.startLedger
  /-- The flag of a fresh listener is not set. -/
  unset : s.fresh = true → s.listener.paused = false

/-- What keeps a listener in step. A poll gets a complete page and no callback raises before
another is due; and the first poll after a restart brings a pause or an unpause, unless the
last one below the start ledger is no pause. A crash leaves nothing of a complete page
undispatched that leads to a callback. -/
def KeepsUp (l : SorobanEventListener) (chain : Chain) (s : RunState) : ListenerEvent → Prop
  | .poll input =>
    l.PageComplete chain input s.listener ∧
      l.Uninterrupted input.raises (l.page chain input s.listener) ∧
      (s.fresh = true → lastFlag (l.callbacks (l.page chain input s.listener)) = none →
        lastFlag (l.callbacksBelow chain s.listener.startLedger) ≠ some true)
  | .crash input dispatched =>
    l.PageComplete chain input s.listener ∧
      ∀ event ∈ (l.page chain input s.listener).drop dispatched, l.callbackOf event = none
  | .restart => True

/-- Nothing interrupts the dispatch of events none of whose callbacks raises. -/
theorem uninterrupted_of_quiet : l.Uninterrupted (fun _ => false) events :=
  List.pairwise_of_forall fun _ _ h => by simp at h

/-- Whatever a poll dispatches of its page, the notified events are below the start ledger
that was saved. -/
theorem below_dispatchAll (raises : ChainEvent → Bool)
    (h : ∀ entry ∈ s.invoked, entry.1.ledger < s.startLedger)
    (hsub : events.Sublist (l.page chain input s)) :
    ∀ entry ∈ (l.dispatchAll raises events
        { s with startLedger := startAfter (l.page chain input s) s.startLedger }).invoked,
      entry.1.ledger < startAfter (l.page chain input s) s.startLedger := by
  intro entry hentry
  rcases mem_invoked_dispatchAll _ _ hentry with hold | hnew
  · exact (h entry hold).trans_le (le_startAfter l chain input s)
  · exact (ledger_of_mem_page (hsub.subset (mem_callbacks.mp hnew).1)).2

/-- An event of an incomplete page is lost: it is below the start ledger and was not
notified, whatever the poll dispatched. -/
theorem not_notified_of_incomplete
    (h : ∀ entry ∈ s.invoked, entry.1.ledger < s.startLedger)
    (hsub : events.Sublist (l.page chain input s)) (hpage : ¬l.PageComplete chain input s) :
    ¬l.Notified chain (l.dispatchAll raises events
      { s with startLedger := startAfter (l.page chain input s) s.startLedger }) := by
  simp only [PageComplete, not_forall] at hpage
  obtain ⟨event, hmem, hsome, hlow, hhigh, hmissing⟩ := hpage
  obtain ⟨callback, hcallback⟩ := Option.ne_none_iff_exists'.mp hsome
  intro hnotified
  have hinvoked := hnotified (event, callback) (by
    rw [startLedger_dispatchAll]
    exact mem_callbacks.mpr ⟨List.mem_filter.mpr ⟨hmem, decide_eq_true hhigh⟩, hcallback⟩)
  rcases mem_invoked_dispatchAll _ _ hinvoked with hold | hnew
  · exact absurd (h _ hold) (Nat.not_lt.mpr hlow)
  · exact hmissing (hsub.subset (mem_callbacks.mp hnew).1)

theorem pollOnce_eq (l : SorobanEventListener) (chain : Chain) (input : PollInput)
    (s : ListenerState) :
    l.pollOnce chain input s = l.dispatchAll input.raises (l.page chain input s)
      { s with startLedger := startAfter (l.page chain input s) s.startLedger } := by
  unfold pollOnce
  rw [fetchEvents_eq]

theorem crashedPoll_eq (l : SorobanEventListener) (chain : Chain) (input : PollInput)
    (dispatched : ℕ) (s : ListenerState) :
    l.crashedPoll chain input dispatched s =
      reconstruct (l.dispatchAll (fun _ => false) ((l.page chain input s).take dispatched)
        { s with startLedger := startAfter (l.page chain input s) s.startLedger }) := by
  unfold crashedPoll
  rw [fetchEvents_eq]

/-- When all callbacks of a complete page were invoked, every event below the new start
ledger has been notified. -/
theorem notified_of_complete (hs : l.Notified chain s) (hpage : l.PageComplete chain input s)
    {paused : Bool} :
    l.Notified chain
      { startLedger := startAfter (l.page chain input s) s.startLedger
        paused := paused
        invoked := s.invoked ++ l.callbacks (l.page chain input s) } := by
  intro entry hentry
  rw [callbacksBelow_startAfter hpage] at hentry
  rcases List.mem_append.mp hentry with hold | hnew
  · exact List.mem_append_left _ (hs entry hold)
  · exact List.mem_append_right _ hnew

/-- The flag after a complete page that is dispatched without interruption. -/
theorem flagTells_iff_of_complete (hpage : l.PageComplete chain input s)
    {invoked : List (ChainEvent × Callback)} :
    l.FlagTells chain
        { startLedger := startAfter (l.page chain input s) s.startLedger
          paused := (lastFlag (l.callbacks (l.page chain input s))).getD s.paused
          invoked := invoked } ↔
      (lastFlag (l.callbacks (l.page chain input s)) = none → l.FlagTells chain s) := by
  unfold FlagTells
  rw [callbacksBelow_startAfter hpage, lastFlag_append]
  cases lastFlag (l.callbacks (l.page chain input s)) <;> simp

/-- The flag of a fresh listener tells unless the last pause or unpause is a pause. -/
theorem flagTells_iff_of_unset (h : s.paused = false) :
    l.FlagTells chain s ↔ lastFlag (l.callbacksBelow chain s.startLedger) ≠ some true := by
  simp [FlagTells, h]

/-- What is dropped of a page leads to no callback exactly when what is taken leads to all. -/
theorem callbacks_take {n : ℕ} (h : ∀ event ∈ events.drop n, l.callbackOf event = none) :
    l.callbacks (events.take n) = l.callbacks events := by
  conv_rhs => rw [← List.take_append_drop n events]
  have hdrop := callbacks_eq_nil h
  unfold callbacks at hdrop ⊢
  rw [List.filterMap_append, hdrop, List.append_nil]

/-- A step that keeps up keeps the invariant. -/
theorem sound_step {s : RunState} {e : ListenerEvent} (hs : l.Sound chain s)
    (hcond : l.KeepsUp chain s e) : l.Sound chain (l.step chain s e) := by
  cases e with
  | poll input =>
    obtain ⟨hpage, huninterrupted, hfresh⟩ := hcond
    have hbelow := below_dispatchAll input.raises hs.below
      (List.Sublist.refl (l.page chain input s.listener))
    simp only [step, pollOnce_eq]
    rw [dispatchAll_of_uninterrupted huninterrupted] at hbelow ⊢
    refine ⟨⟨notified_of_complete hs.inStep.1 hpage, fun _ => ?_⟩, fun entry => hbelow entry,
      fun h => by cases h⟩
    refine (flagTells_iff_of_complete hpage).mpr fun hnone => ?_
    cases hisfresh : s.fresh with
    | true => exact (flagTells_iff_of_unset (hs.unset hisfresh)).mpr (hfresh hisfresh hnone)
    | false => exact hs.inStep.2 hisfresh
  | crash input dispatched =>
    obtain ⟨hpage, hrest⟩ := hcond
    have hbelow := below_dispatchAll (fun _ => false) hs.below
      (List.take_sublist dispatched (l.page chain input s.listener))
    simp only [step, crashedPoll_eq]
    rw [dispatchAll_of_uninterrupted uninterrupted_of_quiet, callbacks_take hrest] at hbelow ⊢
    exact ⟨⟨notified_of_complete hs.inStep.1 hpage, fun h => by cases h⟩,
      fun entry => hbelow entry, fun _ => rfl⟩
  | restart => exact ⟨⟨hs.inStep.1, fun h => by cases h⟩, hs.below, fun _ => rfl⟩

/-- A step that does not keep up leaves the listener out of step. -/
theorem not_inStep_step {s : RunState} {e : ListenerEvent} (hs : l.Sound chain s)
    (hcond : ¬l.KeepsUp chain s e) : ¬l.InStep chain (l.step chain s e) := by
  have hnodup : ∀ input, (l.page chain input s.listener).Nodup := fun input =>
    (chain.numbered.sublist page_sublist).imp fun hlt heq => by simp [heq] at hlt
  cases e with
  | poll input =>
    rintro ⟨hnotified, hflag⟩
    simp only [step, pollOnce_eq] at hnotified hflag
    have hpage : l.PageComplete chain input s.listener := by
      by_contra hincomplete
      exact not_notified_of_incomplete hs.below (List.Sublist.refl _) hincomplete hnotified
    have huninterrupted : l.Uninterrupted input.raises (l.page chain input s.listener) := by
      by_contra hinterrupted
      obtain ⟨⟨event, callback⟩, hentry, hmissing⟩ := dispatchAll_of_interrupted (hnodup input)
        hinterrupted { s.listener with
          startLedger := startAfter (l.page chain input s.listener) s.listener.startLedger }
      have hmem := mem_callbacks.mp hentry
      have hold := hmissing (hnotified _ (by
        rw [startLedger_dispatchAll, callbacksBelow_startAfter hpage]
        exact List.mem_append_right _ hentry))
      exact absurd (hs.below _ hold) (Nat.not_lt.mpr (ledger_of_mem_page hmem.1).1)
    rw [dispatchAll_of_uninterrupted huninterrupted] at hflag
    refine hcond ⟨hpage, huninterrupted, fun hisfresh hnone => ?_⟩
    exact (flagTells_iff_of_unset (hs.unset hisfresh)).mp
      ((flagTells_iff_of_complete hpage).mp (hflag trivial) hnone)
  | crash input dispatched =>
    rintro ⟨hnotified, _⟩
    simp only [step, crashedPoll_eq] at hnotified
    have hpage : l.PageComplete chain input s.listener := by
      by_contra hincomplete
      exact not_notified_of_incomplete hs.below (List.take_sublist _ _) hincomplete hnotified
    refine hcond ⟨hpage, fun event hevent => ?_⟩
    by_contra hsome
    obtain ⟨callback, hcallback⟩ := Option.ne_none_iff_exists'.mp hsome
    have hmem := List.mem_of_mem_drop hevent
    have hinvoked := hnotified (event, callback) (by
      simp only [reconstruct, startLedger_dispatchAll]
      rw [callbacksBelow_startAfter hpage]
      exact List.mem_append_right _ (mem_callbacks.mpr ⟨hmem, hcallback⟩))
    rcases mem_invoked_dispatchAll _ _ hinvoked with hold | hnew
    · exact absurd (hs.below _ hold) (Nat.not_lt.mpr (ledger_of_mem_page hmem).1)
    · have htaken := (mem_callbacks.mp hnew).1
      exact List.disjoint_take_drop (hnodup input) le_rfl htaken hevent
  | restart => exact absurd trivial hcond

/-- In every state of a run all events below the start ledger have been notified, and after
every poll the flag tells whether the last pause or unpause below it is a pause, exactly when
every step of the run keeps up. -/
theorem in_step_iff (l : SorobanEventListener) (chain : Chain) (es : List ListenerEvent) :
    Always (l.step chain) (l.InStep chain) {} es ↔
      Meets (l.step chain) (l.KeepsUp chain) {} es := by
  refine always_iff_meets (l.Sound chain) (fun _ h => h.inStep) (fun _ _ => sound_step)
    (fun _ _ => not_inStep_step) ⟨⟨?_, fun h => by cases h⟩, ?_, fun _ => rfl⟩ es
  · rintro ⟨event, callback⟩ hentry
    have hmem := (mem_callbacks.mp hentry).1
    simp at hmem
  · intro entry hentry
    cases hentry

/-- A threshold change and an emergency pause in two successive ledgers. -/
def changeThenPause : Chain where
  events := [⟨0, 5, "GOV", [{ sym := some "t_changed" }], some { u32 := some 80 }⟩,
    ⟨1, 6, "PAUSE", [{ sym := some "c_paused" }], some { str := some "exploit" }⟩]
  numbered := by decide
  ordered := by decide

/-- The handler of the threshold change raises: the pause is not noticed, and will not be. -/
theorem pause_missed :
    ¬Always (step ⟨"GOV", "PAUSE", 10⟩ changeThenPause)
      (InStep ⟨"GOV", "PAUSE", 10⟩ changeThenPause) {}
      [.poll ⟨20, some 20, fun event => decide (event.contractId = "GOV")⟩] := by
  decide +kernel

end LedgerLens.Integrations.SorobanEventListener
