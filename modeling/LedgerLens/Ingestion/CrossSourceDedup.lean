import LedgerLens.Ingestion.CanonicalTradeKey
import LedgerLens.Library.ExpiringRows
import LedgerLens.Library.Runs
import LedgerLens.Library.UniqueTable
import Mathlib.Algebra.Order.Ring.Rat
import Mathlib.Data.Finset.Card

/-!
# Duplicates across sources

`CrossSourceDeduplicator` remembers the keys of the trades that it has accepted. Before it looks
at a record it drops the oldest keys while they are out of the window or too many, and only then
it may add one. It accepts exactly the trades that it should, but after that there can be one key
too many.
-/

namespace LedgerLens.Ingestion

open ExpiringRows Transition

/-- The configuration of a `CrossSourceDeduplicator`, with what its constructor checks. -/
structure DedupSettings (T : Type) [LT T] [Zero T] where
  /-- `window_seconds`. -/
  windowSeconds : T
  /-- `max_entries`. -/
  maxEntries : ℕ
  /-- The window is not empty. -/
  windowSeconds_pos : 0 < windowSeconds

/-- `_seen`: the keys with the time at which they were first seen, and their source. -/
abbrev SeenTrades (T : Type) := UniqueTable CanonicalTradeKey (T × String)

/-- A key with the time at which it was accepted. -/
abbrev Acceptance (T : Type) := CanonicalTradeKey × T

/-- A call of `accept`: the record, its source, and how far the clock has gone since the last
call. -/
structure AcceptCall (T : Type) [LE T] [Zero T] where
  /-- `record`. -/
  record : TradeRecord
  /-- `source`. -/
  source : String
  /-- The clock never goes back. -/
  elapsed : {d : T // 0 ≤ d}

/-- What a call returned. -/
structure DedupVerdict (T : Type) where
  /-- The key of its record. -/
  key : CanonicalTradeKey
  /-- The reading of the clock. -/
  now : T
  /-- Whether the record was new. -/
  accepted : Bool

section Code

variable {T : Type} [AddCommGroup T] [LinearOrder T] (settings : DedupSettings T)

/-- `_evict`. -/
def evict (now : T) (seen : SeenTrades T) : SeenTrades T where
  rows := expire (fun row => row.2.1) settings.windowSeconds settings.maxEntries now seen.rows
  nodup := ((expire_sublist _ _ _ _ seen.rows).map Prod.fst).nodup seen.nodup

/-- `accept`. -/
def accept (now : T) (record : TradeRecord) (source : String) (seen : SeenTrades T) :
    Except CanonicalKeyError Bool × SeenTrades T :=
  let seen := evict settings now seen
  match canonicalKeyFromRecord record with
  | .error e => (.error e, seen)
  | .ok key =>
    if (seen.find? key).isSome then (.ok false, seen) else (.ok true, seen.put key (now, source))

end Code

/-- A deduplicator with what its calls have returned. -/
structure DedupHistory (T : Type) where
  /-- `_seen`. -/
  seen : SeenTrades T := .empty
  /-- The clock. -/
  now : T
  /-- What the calls have returned, the oldest first. -/
  verdicts : List (DedupVerdict T) := []

namespace DedupHistory

variable {T : Type} [AddCommGroup T] [LinearOrder T] (settings : DedupSettings T)

/-- One call. -/
def step (h : DedupHistory T) (call : AcceptCall T) : DedupHistory T :=
  let now := h.now + call.elapsed
  match canonicalKeyFromRecord call.record, accept settings now call.record call.source h.seen with
  | .ok key, (.ok accepted, seen) =>
    { seen := seen, now := now, verdicts := h.verdicts ++ [⟨key, now, accepted⟩] }
  | _, (_, seen) => { h with seen := seen, now := now }

/-- The trades that were accepted, in their order. -/
def acceptances (verdicts : List (DedupVerdict T)) : List (Acceptance T) :=
  verdicts.filterMap fun v => if v.accepted then some (v.key, v.now) else none

/-- An acceptance no longer matters: it is out of the window, or there are too many keys since. -/
def Stale (now time : T) (since : List CanonicalTradeKey) : Prop :=
  settings.windowSeconds ≤ now - time ∨ settings.maxEntries ≤ since.toFinset.card

/-- A trade is to be accepted: it was not accepted before, or its last acceptance no longer
matters. -/
def Fresh (accepted : List (Acceptance T)) (key : CanonicalTradeKey) (now : T) : Prop :=
  ∀ before time since, accepted = before ++ (key, time) :: since →
    key ∉ since.map Prod.fst → Stale settings now time (since.map Prod.fst)

/-- Every call has accepted its trade exactly if it is to be accepted. -/
def VerdictsRight (verdicts : List (DedupVerdict T)) : Prop :=
  ∀ before v after, verdicts = before ++ v :: after →
    (v.accepted = true ↔ Fresh settings (acceptances before) v.key v.now)

/-- What a deduplicator is for: its verdicts are right, and it does not remember too many keys. -/
def Correct (h : DedupHistory T) : Prop :=
  VerdictsRight settings h.verdicts ∧ h.seen.rows.length ≤ settings.maxEntries

/-- A row that is not out of the window. -/
def Unexpired (now : T) (row : CanonicalTradeKey × T × String) : Prop :=
  now - row.2.1 < settings.windowSeconds

instance (now : T) (row : CanonicalTradeKey × T × String) :
    Decidable (Unexpired settings now row) :=
  inferInstanceAs (Decidable (_ < _))

/-- There is room for a record: it has no key, or its key is remembered and in the window, or the
window has fewer keys than the maximum. -/
def Room (h : DedupHistory T) (call : AcceptCall T) : Prop :=
  match canonicalKeyFromRecord call.record with
  | .error _ => True
  | .ok key =>
    (∃ row ∈ h.seen.rows, row.1 = key ∧ Unexpired settings (h.now + call.elapsed) row) ∨
      (h.seen.rows.countP fun row => Unexpired settings (h.now + call.elapsed) row) <
        settings.maxEntries

/-- The state when the old keys have been dropped. -/
def evicted (h : DedupHistory T) (call : AcceptCall T) : DedupHistory T :=
  { h with
    seen := evict settings (h.now + call.elapsed) h.seen
    now := h.now + call.elapsed }

variable {settings} {h : DedupHistory T} {call : AcceptCall T}

/-- What a call does: after the old keys have been dropped it raises, rejects or accepts. -/
theorem step_cases (settings : DedupSettings T) (h : DedupHistory T) (call : AcceptCall T) :
    (∃ e, canonicalKeyFromRecord call.record = .error e ∧
      step settings h call = evicted settings h call) ∨
    (∃ key, canonicalKeyFromRecord call.record = .ok key ∧
      key ∈ (evicted settings h call).seen.rows.map Prod.fst ∧
      step settings h call =
        { evicted settings h call with
          verdicts := h.verdicts ++ [⟨key, h.now + call.elapsed, false⟩] }) ∨
    (∃ key, canonicalKeyFromRecord call.record = .ok key ∧
      (evicted settings h call).seen.find? key = none ∧
      step settings h call =
        { evicted settings h call with
          seen := (evicted settings h call).seen.put key (h.now + call.elapsed, call.source)
          verdicts := h.verdicts ++ [⟨key, h.now + call.elapsed, true⟩] }) := by
  unfold step accept
  cases hkey : canonicalKeyFromRecord call.record with
  | error e => exact Or.inl ⟨e, rfl, rfl⟩
  | ok key =>
    right
    dsimp only
    have hevicted : evict settings (h.now + call.elapsed) h.seen =
        (evicted settings h call).seen := rfl
    rw [hevicted]
    by_cases hseen : ((evicted settings h call).seen.find? key).isSome = true
    · rw [if_pos hseen]
      exact Or.inl ⟨key, rfl, (UniqueTable.isSome_find?_iff _ key).mp hseen, rfl⟩
    · rw [if_neg hseen]
      refine Or.inr ⟨key, rfl, ?_, rfl⟩
      simpa using hseen

omit [AddCommGroup T] [LinearOrder T] in
/-- An entry of two lists is one of the first or of the second. -/
theorem split_append_eq {α : Type*} {l₁ l₂ before after : List α} {a : α}
    (h : l₁ ++ l₂ = before ++ a :: after) :
    (∃ mid, l₁ = before ++ a :: mid ∧ after = mid ++ l₂) ∨
      ∃ mid, before = l₁ ++ mid ∧ l₂ = mid ++ a :: after := by
  obtain ⟨mid, hbefore, hl₂⟩ | ⟨mid, hl₁, hrest⟩ := List.append_eq_append_iff.mp h
  · exact Or.inr ⟨mid, hbefore, hl₂⟩
  · cases mid with
    | nil =>
      rw [List.append_nil] at hl₁
      exact Or.inr ⟨[], by rw [List.append_nil, hl₁], hrest.symm⟩
    | cons first mid =>
      obtain ⟨rfl, rfl⟩ := List.cons.inj hrest
      exact Or.inl ⟨mid, hl₁, rfl⟩

/-- Rows as acceptances. -/
def rowAcceptances (rows : List (CanonicalTradeKey × T × String)) : List (Acceptance T) :=
  rows.map fun row => (row.1, row.2.1)

omit [AddCommGroup T] [LinearOrder T] in
theorem map_fst_rowAcceptances (rows : List (CanonicalTradeKey × T × String)) :
    (rowAcceptances rows).map Prod.fst = rows.map Prod.fst := by
  unfold rowAcceptances
  rw [List.map_map]
  rfl

/-- What holds of a deduplicator: the remembered keys are the last acceptances, in the order of
their times, and the acceptances before them no longer matter. -/
structure Inv (settings : DedupSettings T) (h : DedupHistory T) : Prop where
  /-- The times are in order. -/
  sorted : h.seen.rows.Pairwise fun a b => a.2.1 ≤ b.2.1
  /-- No time is later than now. -/
  le_now : ∀ row ∈ h.seen.rows, row.2.1 ≤ h.now
  /-- The last acceptances are remembered. -/
  remembered : ∃ dropped, acceptances h.verdicts = dropped ++ rowAcceptances h.seen.rows ∧
    ∀ before a after, dropped = before ++ a :: after →
      Stale settings h.now a.2 ((after ++ rowAcceptances h.seen.rows).map Prod.fst)
  /-- The verdicts are right. -/
  right : VerdictsRight settings h.verdicts

/-- A deduplicator that has not been called. -/
theorem Inv.start (settings : DedupSettings T) (now : T) :
    Inv settings ({ now := now } : DedupHistory T) where
  sorted := List.Pairwise.nil
  le_now := by
    intro row hrow
    cases hrow
  remembered := by
    refine ⟨[], rfl, fun before a after h => ?_⟩
    exact absurd h (by simp)
  right := by
    intro before v after h
    exact absurd h (by simp)

variable [IsOrderedAddMonoid T]

/-- More keys and a later time do not make an acceptance matter again. -/
theorem Stale.mono {now now' time : T} {since since' : List CanonicalTradeKey}
    (hstale : Stale settings now time since) (hnow : now ≤ now') (hsince : since ⊆ since') :
    Stale settings now' time since' := by
  refine hstale.imp (fun h => h.trans (sub_le_sub_right hnow time)) fun h => h.trans ?_
  refine Finset.card_le_card fun key hkey => ?_
  rw [List.mem_toFinset] at hkey ⊢
  exact hsince hkey

/-- The clock has not gone back. -/
theorem le_now_evicted (h : DedupHistory T) (call : AcceptCall T) :
    h.now ≤ (evicted settings h call).now :=
  le_add_of_nonneg_right call.elapsed.property

omit [AddCommGroup T] [LinearOrder T] [IsOrderedAddMonoid T] in
/-- Rows of the table are acceptances of as many keys. -/
theorem card_keys_of_sublist {rows rows' : List (CanonicalTradeKey × T × String)}
    (hsublist : (rows ++ rows').Sublist h.seen.rows) {n : ℕ} (hmany : n ≤ (rows ++ rows').length) :
    n ≤ ((rowAcceptances rows ++ rowAcceptances rows').map Prod.fst).toFinset.card := by
  have hkeys : (rowAcceptances rows ++ rowAcceptances rows').map Prod.fst =
      (rows ++ rows').map Prod.fst := by
    have hrows : rowAcceptances rows ++ rowAcceptances rows' = rowAcceptances (rows ++ rows') :=
      List.map_append.symm
    rw [hrows, map_fst_rowAcceptances]
  have hnodup : ((rows ++ rows').map Prod.fst).Nodup :=
    h.seen.nodup.sublist (hsublist.map Prod.fst)
  rw [hkeys, List.toFinset_card_of_nodup hnodup, List.length_map]
  exact hmany

/-- Dropping the old keys keeps what holds. -/
theorem Inv.evicted (hinv : Inv settings h) (call : AcceptCall T) :
    Inv settings (evicted settings h call) := by
  obtain ⟨dropped, hrows, hstale⟩ := exists_dropped (fun row => row.2.1) settings.windowSeconds
    settings.maxEntries (h.now + call.elapsed) h.seen.rows
  obtain ⟨dropped₀, haccepted, hstale₀⟩ := hinv.remembered
  obtain ⟨rows, hleft⟩ : ∃ rows, rows = (DedupHistory.evicted settings h call).seen.rows :=
    ⟨_, rfl⟩
  have hexpire : expire (fun row => row.2.1) settings.windowSeconds settings.maxEntries
      (h.now + call.elapsed) h.seen.rows = rows := hleft.symm
  rw [hexpire] at hrows hstale
  have hsublist : rows.Sublist h.seen.rows := by
    rw [hrows]
    exact List.sublist_append_right _ _
  refine ⟨?_, fun row hrow => ?_, ?_, hinv.right⟩
  · rw [← hleft]
    exact hinv.sorted.sublist hsublist
  · rw [← hleft] at hrow
    exact (hinv.le_now row (hsublist.subset hrow)).trans (le_now_evicted h call)
  · rw [← hleft]
    have hsplit : rowAcceptances h.seen.rows = rowAcceptances dropped ++ rowAcceptances rows := by
      rw [hrows]
      exact List.map_append
    refine ⟨dropped₀ ++ rowAcceptances dropped, ?_, fun before a after hbefore => ?_⟩
    · rw [List.append_assoc, ← hsplit]
      exact haccepted
    · obtain ⟨mid, hmid, hafter⟩ | ⟨mid, -, hrowdropped⟩ :=
        split_append_eq hbefore
      · have hold := hstale₀ before a mid hmid
        rw [hsplit, ← List.append_assoc, ← hafter] at hold
        exact hold.mono (le_now_evicted h call) (List.Subset.refl _)
      · obtain ⟨rows₁, rows₂, hdropped, -, hrows₂⟩ := List.map_eq_append_iff.mp hrowdropped
        obtain ⟨row, rows₃, rfl, rfl, rfl⟩ := List.map_eq_cons_iff.mp hrows₂
        obtain hold | hmany := hstale rows₁ row rows₃ hdropped
        · exact Or.inl hold
        · right
          have hsublist : (rows₃ ++ rows).Sublist h.seen.rows := by
            rw [hrows, hdropped, List.append_assoc, List.cons_append]
            exact (List.sublist_cons_self _ _).trans (List.sublist_append_right _ _)
          exact card_keys_of_sublist hsublist hmany

/-- No remembered key is out of the window once the old keys have been dropped, and there are not
too many. -/
theorem Inv.evicted_fresh (hinv : Inv settings h) (call : AcceptCall T) :
    (∀ row ∈ (DedupHistory.evicted settings h call).seen.rows,
      Unexpired settings (h.now + call.elapsed) row) ∧
      (DedupHistory.evicted settings h call).seen.rows.length ≤ settings.maxEntries :=
  ⟨fresh_of_mem_expire _ _ _ _ hinv.sorted, length_expire_le _ _ _ _ _⟩

omit [AddCommGroup T] [LinearOrder T] [IsOrderedAddMonoid T] in
theorem acceptances_append_rejected (verdicts : List (DedupVerdict T)) (key : CanonicalTradeKey)
    (now : T) : acceptances (verdicts ++ [⟨key, now, false⟩]) = acceptances verdicts := by
  unfold acceptances
  rw [List.filterMap_append]
  exact List.append_nil _

omit [AddCommGroup T] [LinearOrder T] [IsOrderedAddMonoid T] in
theorem acceptances_append_accepted (verdicts : List (DedupVerdict T)) (key : CanonicalTradeKey)
    (now : T) :
    acceptances (verdicts ++ [⟨key, now, true⟩]) = acceptances verdicts ++ [(key, now)] := by
  unfold acceptances
  rw [List.filterMap_append]
  rfl

omit [IsOrderedAddMonoid T] in
/-- One more verdict. -/
theorem VerdictsRight.append {verdicts : List (DedupVerdict T)} {v : DedupVerdict T}
    (hright : VerdictsRight settings verdicts)
    (hv : v.accepted = true ↔ Fresh settings (acceptances verdicts) v.key v.now) :
    VerdictsRight settings (verdicts ++ [v]) := by
  intro before v' after h
  obtain ⟨mid, hmid, -⟩ | ⟨mid, rfl, hmid⟩ := split_append_eq h
  · exact hright before v' mid hmid
  · cases mid with
    | nil =>
      obtain ⟨rfl, -⟩ := List.cons.inj hmid
      rw [List.append_nil]
      exact hv
    | cons first mid =>
      rw [List.cons_append] at hmid
      have hlength := congrArg List.length (List.cons.inj hmid).2
      rw [List.length_nil, List.length_append, List.length_cons] at hlength
      omega

omit [IsOrderedAddMonoid T] in
/-- A trade is fresh exactly if its key is not remembered once the old keys have been dropped. -/
theorem Inv.fresh_iff (hinv : Inv settings h) (hlength : h.seen.rows.length ≤ settings.maxEntries)
    (hunexpired : ∀ row ∈ h.seen.rows, Unexpired settings h.now row) (key : CanonicalTradeKey) :
    Fresh settings (acceptances h.verdicts) key h.now ↔ key ∉ h.seen.rows.map Prod.fst := by
  obtain ⟨dropped, haccepted, hstale⟩ := hinv.remembered
  constructor
  · intro hfresh hmem
    obtain ⟨row, hrow, rfl⟩ := List.mem_map.mp hmem
    obtain ⟨rows₁, rows₂, hrows⟩ := List.append_of_mem hrow
    have hnodup := h.seen.nodup
    rw [hrows, List.map_append, List.map_cons] at hnodup
    have hlater := (List.nodup_cons.mp (List.nodup_append.mp hnodup).2.1).1
    rw [← map_fst_rowAcceptances] at hlater
    have hsplit : acceptances h.verdicts =
        (dropped ++ rowAcceptances rows₁) ++ (row.1, row.2.1) :: rowAcceptances rows₂ := by
      rw [haccepted, hrows, List.append_assoc]
      unfold rowAcceptances
      rw [List.map_append, List.map_cons]
    obtain hold | hmany := hfresh _ _ _ hsplit hlater
    · exact absurd (hunexpired row hrow) (not_lt.mpr hold)
    · have hcard := List.toFinset_card_le ((rowAcceptances rows₂).map Prod.fst)
      rw [map_fst_rowAcceptances, List.length_map] at hcard
      rw [map_fst_rowAcceptances] at hmany
      rw [hrows, List.length_append, List.length_cons] at hlength
      omega
  · intro hnotin before time since hsplit _
    rw [haccepted] at hsplit
    obtain ⟨mid, hmid, hsince⟩ | ⟨mid, -, hrows⟩ := split_append_eq hsplit
    · rw [hsince]
      exact hstale before (key, time) mid hmid
    · rw [← map_fst_rowAcceptances, hrows, List.map_append, List.map_cons] at hnotin
      exact absurd (List.mem_append_right _ List.mem_cons_self) hnotin

omit [IsOrderedAddMonoid T] in
/-- Rejecting a trade whose key is remembered keeps what holds. -/
theorem Inv.rejected (hinv : Inv settings h) (hlength : h.seen.rows.length ≤ settings.maxEntries)
    (hunexpired : ∀ row ∈ h.seen.rows, Unexpired settings h.now row) {key : CanonicalTradeKey}
    (hkey : key ∈ h.seen.rows.map Prod.fst) :
    Inv settings { h with verdicts := h.verdicts ++ [⟨key, h.now, false⟩] } where
  sorted := hinv.sorted
  le_now := hinv.le_now
  remembered := by
    dsimp only
    rw [acceptances_append_rejected]
    exact hinv.remembered
  right := by
    refine hinv.right.append ⟨fun hfalse => absurd hfalse Bool.false_ne_true, fun hfresh => ?_⟩
    exact absurd hkey ((hinv.fresh_iff hlength hunexpired key).mp hfresh)

/-- Accepting a trade whose key is not remembered keeps what holds. -/
theorem Inv.accepted (hinv : Inv settings h) (hlength : h.seen.rows.length ≤ settings.maxEntries)
    (hunexpired : ∀ row ∈ h.seen.rows, Unexpired settings h.now row) {key : CanonicalTradeKey}
    (hkey : h.seen.find? key = none) (source : String) :
    Inv settings
      { h with
        seen := h.seen.put key (h.now, source)
        verdicts := h.verdicts ++ [⟨key, h.now, true⟩] } where
  sorted := by
    dsimp only
    rw [UniqueTable.rows_put_of_new hkey, List.pairwise_append]
    refine ⟨hinv.sorted, List.pairwise_singleton _ _, fun row hrow last hlast => ?_⟩
    obtain rfl := List.mem_singleton.mp hlast
    exact hinv.le_now row hrow
  le_now := by
    intro row hrow
    dsimp only at hrow ⊢
    rw [UniqueTable.rows_put_of_new hkey, List.mem_append] at hrow
    obtain hrow | hrow := hrow
    · exact hinv.le_now row hrow
    · obtain rfl := List.mem_singleton.mp hrow
      exact le_rfl
  remembered := by
    obtain ⟨dropped, haccepted, hstale⟩ := hinv.remembered
    have hrows : rowAcceptances (h.seen.put key (h.now, source)).rows =
        rowAcceptances h.seen.rows ++ [(key, h.now)] := by
      rw [UniqueTable.rows_put_of_new hkey]
      exact List.map_append
    refine ⟨dropped, ?_, fun before a after hbefore => ?_⟩
    · dsimp only
      rw [acceptances_append_accepted, haccepted, hrows, List.append_assoc]
    · dsimp only
      rw [hrows, ← List.append_assoc, List.map_append]
      exact (hstale before a after hbefore).mono le_rfl (List.subset_append_left _ _)
  right := by
    refine hinv.right.append ⟨fun _ => ?_, fun _ => rfl⟩
    refine (hinv.fresh_iff hlength hunexpired key).mpr ?_
    exact (h.seen.find?_eq_none_iff key).mp hkey

/-- A call keeps what holds. -/
theorem Inv.step (hinv : Inv settings h) (call : AcceptCall T) :
    Inv settings (DedupHistory.step settings h call) := by
  obtain ⟨hunexpired, hlength⟩ := hinv.evicted_fresh call
  obtain ⟨-, -, hstep⟩ | ⟨key, -, hkey, hstep⟩ | ⟨key, -, hkey, hstep⟩ := step_cases settings h call
  · rw [hstep]
    exact hinv.evicted call
  · rw [hstep]
    exact (hinv.evicted call).rejected hlength hunexpired hkey
  · rw [hstep]
    exact (hinv.evicted call).accepted hlength hunexpired hkey call.source

/-- The rows that are left if there are not too many. -/
theorem Inv.rows_evicted (hinv : Inv settings h)
    (hlength : h.seen.rows.length ≤ settings.maxEntries) (call : AcceptCall T) :
    (DedupHistory.evicted settings h call).seen.rows =
      h.seen.rows.filter fun row => Unexpired settings (h.now + call.elapsed) row :=
  expire_eq_filter _ _ _ _ hinv.sorted hlength

/-- After a call there are not too many keys exactly if there was room. -/
theorem Inv.length_step_le_iff (hinv : Inv settings h)
    (hlength : h.seen.rows.length ≤ settings.maxEntries) (call : AcceptCall T) :
    (DedupHistory.step settings h call).seen.rows.length ≤ settings.maxEntries ↔
      Room settings h call := by
  have hrows := hinv.rows_evicted hlength call
  have hevicted := (hinv.evicted_fresh call).2
  have hmem : ∀ key, key ∈ (DedupHistory.evicted settings h call).seen.rows.map Prod.fst ↔
      ∃ row ∈ h.seen.rows, row.1 = key ∧ Unexpired settings (h.now + call.elapsed) row := by
    intro key
    rw [hrows, List.mem_map]
    simp only [List.mem_filter, decide_eq_true_eq]
    constructor
    · rintro ⟨row, ⟨hrow, hunexpired⟩, hkey⟩
      exact ⟨row, hrow, hkey, hunexpired⟩
    · rintro ⟨row, hrow, hkey, hunexpired⟩
      exact ⟨row, ⟨hrow, hunexpired⟩, hkey⟩
  unfold Room
  obtain ⟨e, hrecord, hstep⟩ | ⟨key, hrecord, hkey, hstep⟩ | ⟨key, hrecord, hkey, hstep⟩ :=
    step_cases settings h call
  · rw [hstep, hrecord]
    exact iff_of_true hevicted trivial
  · rw [hstep, hrecord]
    exact iff_of_true hevicted (Or.inl ((hmem key).mp hkey))
  · have hnotin := ((DedupHistory.evicted settings h call).seen.find?_eq_none_iff key).mp hkey
    have hcount : (DedupHistory.evicted settings h call).seen.rows.length =
        h.seen.rows.countP fun row => Unexpired settings (h.now + call.elapsed) row := by
      rw [hrows, List.countP_eq_length_filter]
    rw [hstep, hrecord]
    dsimp only
    rw [UniqueTable.length_put _ _ _ hkey, hcount, Nat.succ_le_iff]
    exact ⟨Or.inr, fun hroom => hroom.resolve_left fun hrow => hnotin ((hmem key).mpr hrow)⟩

/-- In every run, the deduplicator accepts exactly the trades that it should. It also remembers
at most the maximum of keys exactly if in every call there is room. -/
theorem dedup_correct_iff (settings : DedupSettings T) (now : T) (calls : List (AcceptCall T)) :
    VerdictsRight settings
        (exec (DedupHistory.step settings) ({ now := now } : DedupHistory T) calls).verdicts ∧
      (Always (DedupHistory.step settings) (Correct settings) { now := now } calls ↔
        Meets (DedupHistory.step settings) (Room settings) { now := now } calls) := by
  constructor
  · have hinv : Inv settings
        (exec (DedupHistory.step settings) ({ now := now } : DedupHistory T) calls) :=
      exec_invariant (fun h call hinv => hinv.step call) calls (Inv.start settings now)
    exact hinv.right
  · refine always_iff_meets
      (fun h => Inv settings h ∧ h.seen.rows.length ≤ settings.maxEntries)
      (fun h hinv => ⟨hinv.1.right, hinv.2⟩) (fun h call hinv hroom => ?_)
      (fun h call hinv hroom hcorrect => ?_) ⟨Inv.start settings now, Nat.zero_le _⟩ calls
    · exact ⟨hinv.1.step call, (hinv.1.length_step_le_iff hinv.2 call).mpr hroom⟩
    · exact hroom ((hinv.1.length_step_le_iff hinv.2 call).mp hcorrect.2)

end DedupHistory

/-- A deduplicator with room for one key. -/
private def oneEntry : DedupSettings ℚ where
  windowSeconds := 300
  maxEntries := 1
  windowSeconds_pos := by decide +kernel

/-- A call with a trade of a ledger, without the clock having moved. -/
private def callAt (ledger : ℤ) : AcceptCall ℚ where
  record := { ledgerSequence := some (.int ledger), operationIndex := some (.int 0) }
  source := "horizon"
  elapsed := ⟨0, le_rfl⟩

open DedupHistory in
/-- The same trade twice: the second time it is rejected, and there is room. -/
theorem dedup_correct_twice :
    Always (DedupHistory.step oneEntry) (Correct oneEntry) { now := 0 } [callAt 1, callAt 1] := by
  refine (dedup_correct_iff oneEntry 0 _).2.mpr ⟨?_, ?_, trivial⟩
  · exact Or.inr (by decide +kernel)
  · exact Or.inl ⟨((1, 0, 0), 0, "horizon"), by decide +kernel, rfl, by decide +kernel⟩

open DedupHistory in
/-- Two trades: two keys are remembered, where there should be one at most. -/
theorem two_entries_remembered :
    (exec (DedupHistory.step oneEntry) { now := 0 } [callAt 1, callAt 2]).seen.rows.length = 2 ∧
      ¬Always (DedupHistory.step oneEntry) (Correct oneEntry) { now := 0 }
        [callAt 1, callAt 2] := by
  have hlength : (exec (DedupHistory.step oneEntry) { now := 0 }
      [callAt 1, callAt 2]).seen.rows.length = 2 := by
    decide +kernel
  refine ⟨hlength, fun halways => ?_⟩
  have hle := halways.last.2
  rw [hlength] at hle
  exact absurd hle (by decide)

end LedgerLens.Ingestion
