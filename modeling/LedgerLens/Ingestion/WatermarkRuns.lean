import LedgerLens.Ingestion.WatermarkTracker
import LedgerLens.Library.Runs
import Mathlib

/-!
# Watermarks over runs

A position is a ledger close time with a paging token. `advance` skips a position whose close
time is older than the stored one, but takes any token of the same close time. This file follows
the positions that a tracker accepts through calls, writes and restarts, and determines the runs
in which the watermark of every pair is the greatest of them.
-/

namespace LedgerLens.Ingestion

open Raising Locking Transition WatermarkState

section Positions

variable {V : Type} (tokenValue : String → V)

/-- Positions: a close time and the value of a paging token, both of which may be missing. -/
abbrev Position (V : Type) := WithBot ℤ ×ₗ WithBot V

/-- The position of a close time and a paging token. -/
def position (closeTime : Option CloseTime) (token : Option String) : Position V :=
  toLex (closeTime.elim ⊥ fun t => (t.micros : WithBot ℤ),
    token.elim ⊥ fun text => (tokenValue text : WithBot V))

/-- The position of a watermark. -/
def Watermark.position (wm : Watermark) : Position V :=
  Ingestion.position tokenValue wm.ledgerCloseTime wm.pagingToken

/-- The position of a call to `advance`. -/
def Advance.position (args : Advance) : Position V :=
  Ingestion.position tokenValue (some args.ledgerCloseTime) (some args.pagingToken)

end Positions

/-- What happens to a tracker: a call, or a restart that reads the file. -/
inductive WatermarkEvent where
  /-- `advance`, and how a write fails, if it does. -/
  | advance (args : Advance) (fault : Option String)
  /-- `flush`. -/
  | flush (fault : Option String)
  /-- `reset`. -/
  | reset (pairId : String) (fault : Option String)
  /-- `reset_all`. -/
  | resetAll (fault : Option String)
  /-- A new tracker for the same file. -/
  | restart (flushEveryN : ℤ)

/-- The tracker after an event. -/
def WatermarkState.after (s : WatermarkState) : WatermarkEvent → WatermarkState
  | .advance args fault => (exec (WatermarkTracker.advance () args fault) ⟨none, s⟩).2.state
  | .flush fault => (exec (WatermarkTracker.flush () fault) ⟨none, s⟩).2.state
  | .reset pairId fault => (exec (WatermarkTracker.reset () pairId fault) ⟨none, s⟩).2.state
  | .resetAll fault => (exec (WatermarkTracker.resetAll () fault) ⟨none, s⟩).2.state
  | .restart flushEveryN => .construct flushEveryN s.file

/-- `advance` accepts a position: it neither skips it nor raises when it compares dates. -/
def accepts (s : WatermarkState) (args : Advance) : Bool :=
  match s.watermarks.find? args.pairId with
  | none => true
  | some existing =>
    match outOfOrder args existing with
    | .ok older => !older
    | .error _ => false

/-- A write of the file is completed during an event. -/
def Flushes (s : WatermarkState) : WatermarkEvent → Bool
  | .advance args fault =>
    accepts s args && decide (WriteDue s.flushEveryN (s.updateCounter + 1)) && fault.isNone
  | .flush fault => fault.isNone
  | .reset _ fault => fault.isNone
  | .resetAll fault => fault.isNone
  | .restart _ => false

/-- A tracker with what is known from outside. -/
structure WatermarkHistory (V : Type) where
  /-- The tracker. -/
  tracker : WatermarkState
  /-- The positions of each pair accepted since it was reset, for the watermarks in memory. -/
  accepted : String → List (Position V)
  /-- These positions at the last completed write. -/
  flushed : String → List (Position V)
  /-- The watermarks at the last completed write. -/
  flushedTable : UniqueTable String Watermark

namespace WatermarkHistory

variable {V : Type} (tokenValue : String → V)

/-- The positions of a table's watermarks. -/
def positions (table : UniqueTable String Watermark) (pairId : String) : List (Position V) :=
  ((table.find? pairId).map (Watermark.position tokenValue)).toList

/-- A tracker that reads a file. -/
def start (flushEveryN : ℤ) (file : StoreFile) : WatermarkHistory V where
  tracker := .construct flushEveryN file
  accepted := positions tokenValue file.load
  flushed := positions tokenValue file.load
  flushedTable := file.load

/-- The positions accepted after an event. -/
def acceptedAfter (h : WatermarkHistory V) : WatermarkEvent → String → List (Position V)
  | .advance args _ =>
    if accepts h.tracker args then
      Function.update h.accepted args.pairId
        (h.accepted args.pairId ++ [args.position tokenValue])
    else h.accepted
  | .flush _ => h.accepted
  | .reset pairId _ => Function.update h.accepted pairId []
  | .resetAll _ => fun _ => []
  | .restart _ => h.flushed

/-- One event. -/
def step (h : WatermarkHistory V) (e : WatermarkEvent) : WatermarkHistory V where
  tracker := h.tracker.after e
  accepted := h.acceptedAfter tokenValue e
  flushed := if Flushes h.tracker e then h.acceptedAfter tokenValue e else h.flushed
  flushedTable := if Flushes h.tracker e then (h.tracker.after e).watermarks else h.flushedTable

variable [LinearOrder V]

/-- The watermark of every pair is the greatest of some positions. -/
def Greatest (table : UniqueTable String Watermark) (accepted : String → List (Position V)) :
    Prop :=
  ∀ pairId,
    match table.find? pairId with
    | none => accepted pairId = []
    | some wm => IsGreatest {p | p ∈ accepted pairId} (wm.position tokenValue)

/-- What is expected: the watermarks are the greatest positions accepted, and a tracker that read
the file now would have the watermarks of the last completed write. -/
def Sound (h : WatermarkHistory V) : Prop :=
  Greatest tokenValue h.tracker.watermarks h.accepted ∧ h.tracker.file.load = h.flushedTable

/-- The condition: a position with the close time of the watermark has no smaller token. -/
def KeepsTokenOrder (h : WatermarkHistory V) : WatermarkEvent → Prop
  | .advance args _ =>
    ∀ wm ∈ h.tracker.watermarks.find? args.pairId,
      wm.ledgerCloseTime = some args.ledgerCloseTime →
        ∀ token ∈ wm.pagingToken, tokenValue token ≤ tokenValue args.pagingToken
  | _ => True

/-- The invariant: both the watermarks in memory and those of the last write are greatest. -/
structure Inv (h : WatermarkHistory V) : Prop where
  /-- The watermarks in memory. -/
  memory : Greatest tokenValue h.tracker.watermarks h.accepted
  /-- The watermarks of the last write. -/
  disk : Greatest tokenValue h.flushedTable h.flushed
  /-- The file has the watermarks of the last write. -/
  load_eq : h.tracker.file.load = h.flushedTable

end WatermarkHistory

/-! ### What the events do to the tracker -/

variable {s : WatermarkState} {args : Advance} {fault : Option String}

/-- The watermark that `advance` stores if it accepts. -/
def storedBy (s : WatermarkState) (args : Advance) : Watermark :=
  match s.watermarks.find? args.pairId with
  | none => Advance.first args
  | some existing => Advance.moved args existing

theorem exec_flushUnlocked (s : WatermarkState) (fault : Option String) :
    (exec (flushUnlocked fault) s).2 =
      if fault.isNone then { s with file := .watermarks s.watermarks } else s := by
  cases fault <;> rfl

/-- What `advance` leaves when it accepts. -/
theorem exec_storeUnlocked (s : WatermarkState) (wm : Watermark) (pairId : String)
    (fault : Option String) :
    (exec (storeUnlocked wm pairId fault) s).2 =
      let stored := { s with
        watermarks := s.watermarks.put pairId wm, updateCounter := s.updateCounter + 1 }
      if WriteDue s.flushEveryN (s.updateCounter + 1) ∧ fault.isNone then
        { stored with file := .watermarks stored.watermarks }
      else stored := by
  unfold storeUnlocked
  rw [exec_bind_of_ok (exec_modify _ s), exec_bind_of_ok (exec_get _)]
  dsimp only
  by_cases hdue : WriteDue s.flushEveryN (s.updateCounter + 1)
  · rw [if_pos hdue]
    cases fault with
    | none =>
      rw [if_pos ⟨hdue, rfl⟩]
      rfl
    | some reason =>
      rw [if_neg fun h => absurd h.2 Bool.false_ne_true]
      rfl
  · rw [if_neg hdue, if_neg fun h => hdue h.1]
    rfl

/-- What `advance` leaves. -/
theorem after_advance (s : WatermarkState) (args : Advance) (fault : Option String) :
    s.after (.advance args fault) =
      if accepts s args then (exec (storeUnlocked (storedBy s args) args.pairId fault) s).2
      else s := by
  have hlocked : s.after (.advance args fault) = (exec (advanceUnlocked args fault) s).2 :=
    congrArg (fun outcome => outcome.2.state) (exec_withLock_lift () (advanceUnlocked args fault) s)
  rw [hlocked]
  unfold advanceUnlocked storedBy
  rw [exec_bind_of_ok (exec_get s)]
  rcases hfind : s.watermarks.find? args.pairId with _ | existing
  · have haccepts : accepts s args = true := by
      unfold accepts
      rw [hfind]
    rw [if_pos haccepts]
  · dsimp only
    rcases hout : outOfOrder args existing with e | older
    · have haccepts : accepts s args = false := by
        unfold accepts
        simp only [hfind, hout]
      rw [haccepts, if_neg Bool.false_ne_true]
      rfl
    · have haccepts : accepts s args = !older := by
        unfold accepts
        simp only [hfind, hout]
      rw [haccepts, exec_bind_of_ok (exec_ofExcept _ s)]
      cases older <;> rfl

/-- A write replaces the file by the watermarks in memory, and nothing else changes it. -/
theorem file_after (s : WatermarkState) (e : WatermarkEvent) :
    (s.after e).file = if Flushes s e then .watermarks (s.after e).watermarks else s.file := by
  cases e with
  | advance args fault =>
    rw [after_advance, exec_storeUnlocked]
    unfold Flushes
    cases haccepts : accepts s args with
    | false => simp [haccepts]
    | true =>
      by_cases hdue : WriteDue s.flushEveryN (s.updateCounter + 1)
      · cases fault <;> simp [haccepts, hdue]
      · simp [haccepts, hdue]
  | flush fault => cases fault <;> rfl
  | reset pairId fault => cases fault <;> rfl
  | resetAll fault => cases fault <;> rfl
  | restart flushEveryN => rfl

/-- The watermarks after `advance`. -/
theorem watermarks_after_advance (s : WatermarkState) (args : Advance) (fault : Option String) :
    (s.after (.advance args fault)).watermarks =
      if accepts s args then s.watermarks.put args.pairId (storedBy s args)
      else s.watermarks := by
  rw [after_advance, exec_storeUnlocked]
  split_ifs <;> rfl

/-! ### Positions -/

section Order

variable {V : Type} {tokenValue : String → V}

/-- The position that `advance` stores is the one it was given. -/
theorem position_storedBy (s : WatermarkState) (args : Advance) :
    (storedBy s args).position tokenValue = args.position tokenValue := by
  unfold storedBy
  cases s.watermarks.find? args.pairId <;> rfl

variable [LinearOrder V]

/-- What a position that is accepted for a pair with a watermark has to do with it. -/
theorem position_le_iff {args : Advance} {existing : Watermark}
    (hout : outOfOrder args existing = .ok false) :
    existing.position tokenValue ≤ args.position tokenValue ↔
      (existing.ledgerCloseTime = some args.ledgerCloseTime →
        ∀ token ∈ existing.pagingToken, tokenValue token ≤ tokenValue args.pagingToken) := by
  have htoken : (existing.pagingToken.elim ⊥ fun text => (tokenValue text : WithBot V)) ≤
      tokenValue args.pagingToken ↔
        ∀ token ∈ existing.pagingToken, tokenValue token ≤ tokenValue args.pagingToken := by
    cases existing.pagingToken with
    | none => simp
    | some token => simp
  unfold Watermark.position Advance.position position
  rw [Prod.Lex.toLex_le_toLex]
  dsimp only [Option.elim_some]
  rw [htoken]
  unfold outOfOrder CloseTime.older at hout
  cases htime : existing.ledgerCloseTime with
  | none => simp
  | some closeTime =>
    simp only [htime] at hout
    split_ifs at hout with haware
    have hle : closeTime.micros ≤ args.ledgerCloseTime.micros := by simpa using hout
    have heq : closeTime = args.ledgerCloseTime ↔
        closeTime.micros = args.ledgerCloseTime.micros := by
      constructor
      · intro h
        rw [h]
      · intro hmicros
        exact CloseTime.ext hmicros haware.symm
    rw [Option.elim_some, Option.some.injEq, heq, WithBot.coe_lt_coe, WithBot.coe_inj]
    constructor
    · rintro (hlt | ⟨-, htokens⟩) hsame
      · omega
      · exact htokens
    · intro h
      rcases lt_or_eq_of_le hle with hlt | hsame
      · exact .inl hlt
      · exact .inr ⟨hsame, h hsame⟩

end Order

namespace WatermarkHistory

variable {V : Type} {tokenValue : String → V} [LinearOrder V] {h : WatermarkHistory V}
  {table : UniqueTable String Watermark} {accepted : String → List (Position V)}

/-- At the start the watermarks are the only positions. -/
theorem greatest_positions (table : UniqueTable String Watermark) :
    Greatest tokenValue table (positions tokenValue table) := by
  intro pairId
  unfold positions
  cases table.find? pairId with
  | none => rfl
  | some wm => simp

/-- Forgetting a pair. -/
theorem Greatest.erase (hgreatest : Greatest tokenValue table accepted) (pairId : String) :
    Greatest tokenValue (table.erase pairId) (Function.update accepted pairId []) := by
  intro pairId'
  rw [UniqueTable.find?_erase]
  by_cases hpair : pairId' = pairId
  · rw [if_pos hpair, hpair]
    exact Function.update_self ..
  · rw [if_neg hpair, Function.update_of_ne hpair]
    exact hgreatest pairId'

/-- A position that is accepted keeps the watermarks greatest exactly if the watermark of its
pair is not greater. -/
theorem Greatest.put_iff (hgreatest : Greatest tokenValue table accepted) (pairId : String)
    (wm : Watermark) :
    Greatest tokenValue (table.put pairId wm)
        (Function.update accepted pairId (accepted pairId ++ [wm.position tokenValue])) ↔
      ∀ existing ∈ table.find? pairId,
        existing.position tokenValue ≤ wm.position tokenValue := by
  have hpair := hgreatest pairId
  constructor
  · intro hput existing hexisting
    have hself := hput pairId
    rw [UniqueTable.find?_put, if_pos rfl, Function.update_self] at hself
    rw [hexisting] at hpair
    exact hself.2 (List.mem_append_left _ hpair.1)
  · intro hle pairId'
    rw [UniqueTable.find?_put]
    by_cases hsame : pairId' = pairId
    · rw [if_pos hsame, hsame, Function.update_self]
      refine ⟨List.mem_append_right _ List.mem_cons_self, ?_⟩
      intro p hp
      rcases List.mem_append.mp hp with hold | hnew
      · cases hfind : table.find? pairId with
        | none =>
          rw [hfind] at hpair
          rw [hpair] at hold
          cases hold
        | some existing =>
          rw [hfind] at hpair
          exact (hpair.2 hold).trans (hle existing hfind)
      · rw [List.mem_singleton.mp hnew]
    · rw [if_neg hsame, Function.update_of_ne hsame]
      exact hgreatest pairId'

/-- The condition on a position that is accepted, in terms of positions. -/
theorem keepsTokenOrder_iff {args : Advance} {fault : Option String}
    (haccepts : accepts h.tracker args = true) :
    h.KeepsTokenOrder tokenValue (.advance args fault) ↔
      ∀ existing ∈ h.tracker.watermarks.find? args.pairId,
        existing.position tokenValue ≤ args.position tokenValue := by
  refine forall₂_congr fun existing hexisting => ?_
  unfold accepts at haccepts
  rw [hexisting] at haccepts
  cases hout : outOfOrder args existing with
  | error e => simp [hout] at haccepts
  | ok older =>
    cases older with
    | true => simp [hout] at haccepts
    | false => exact (position_le_iff hout).symm

/-- A position that is not accepted meets the condition. -/
theorem keepsTokenOrder_of_not_accepts {args : Advance} {fault : Option String}
    (haccepts : accepts h.tracker args = false) :
    h.KeepsTokenOrder tokenValue (.advance args fault) := by
  intro existing hexisting htime
  unfold accepts at haccepts
  rw [hexisting] at haccepts
  simp [outOfOrder, htime, CloseTime.older] at haccepts

/-- After an event the watermarks in memory are greatest exactly if it meets the condition. -/
theorem Inv.greatest_step_iff (hinv : h.Inv tokenValue) (e : WatermarkEvent) :
    Greatest tokenValue (h.tracker.after e).watermarks (h.acceptedAfter tokenValue e) ↔
      h.KeepsTokenOrder tokenValue e := by
  cases e with
  | advance args fault =>
    rw [watermarks_after_advance]
    dsimp only [acceptedAfter]
    cases haccepts : accepts h.tracker args with
    | false =>
      simp only [if_neg Bool.false_ne_true]
      exact iff_of_true hinv.memory (keepsTokenOrder_of_not_accepts haccepts)
    | true =>
      rw [if_pos rfl, if_pos rfl, keepsTokenOrder_iff haccepts,
        ← position_storedBy h.tracker args]
      exact hinv.memory.put_iff args.pairId _
  | flush fault => cases fault <;> exact iff_of_true hinv.memory trivial
  | reset pairId fault =>
    cases fault <;> exact iff_of_true (hinv.memory.erase pairId) trivial
  | resetAll fault => cases fault <;> exact iff_of_true (fun _ => rfl) trivial
  | restart flushEveryN =>
    have hload : (h.tracker.after (.restart flushEveryN)).watermarks = h.flushedTable :=
      hinv.load_eq
    rw [hload]
    exact iff_of_true hinv.disk trivial

/-- After an event the file has the watermarks of the last completed write. -/
theorem Inv.load_step (hinv : h.Inv tokenValue) (e : WatermarkEvent) :
    (h.step tokenValue e).tracker.file.load = (h.step tokenValue e).flushedTable := by
  dsimp only [step]
  rw [file_after]
  split_ifs
  · rfl
  · exact hinv.load_eq

/-- An event that meets the condition keeps the invariant. -/
theorem Inv.step (hinv : h.Inv tokenValue) (e : WatermarkEvent)
    (hkeeps : h.KeepsTokenOrder tokenValue e) : (h.step tokenValue e).Inv tokenValue where
  memory := (hinv.greatest_step_iff e).mpr hkeeps
  disk := by
    dsimp only [WatermarkHistory.step]
    split_ifs
    · exact (hinv.greatest_step_iff e).mpr hkeeps
    · exact hinv.disk
  load_eq := hinv.load_step e

/-- Through all calls, writes and restarts the watermark of every pair is the greatest position
accepted and a restart finds the watermarks of the last completed write, exactly if no position
is accepted that has the close time of its watermark and a smaller token. -/
theorem always_sound_iff (tokenValue : String → V) (flushEveryN : ℤ) (file : StoreFile)
    (events : List WatermarkEvent) :
    Always (step tokenValue) (Sound tokenValue) (start tokenValue flushEveryN file) events ↔
      Meets (step tokenValue) (KeepsTokenOrder tokenValue) (start tokenValue flushEveryN file)
        events := by
  refine always_iff_meets (Inv tokenValue) (fun h hinv => ⟨hinv.memory, hinv.load_eq⟩)
    (fun h e hinv hkeeps => hinv.step e hkeeps) (fun h e hinv hnot hsound => ?_) ?_ events
  · exact hnot ((hinv.greatest_step_iff e).mp hsound.1)
  · exact ⟨greatest_positions file.load, greatest_positions file.load, rfl⟩

end WatermarkHistory

/-- The value of a token of digits. -/
def numericToken (token : String) : ℕ :=
  token.toList.foldl (fun value digit => 10 * value + (digit.toNat - 48)) 0

/-- Two trades of one ledger, the later one first. -/
def laterTradeFirst : List WatermarkEvent :=
  [.advance ⟨"USDC/XLM", "20", ⟨0, true⟩, 1, 0⟩ none,
   .advance ⟨"USDC/XLM", "10", ⟨0, true⟩, 1, 0⟩ none]

/-- The tracker and the positions after them. -/
def afterLaterTradeFirst : WatermarkHistory ℕ :=
  exec (WatermarkHistory.step numericToken) (.start numericToken 1 .absent) laterTradeFirst

/-- The watermark moves backwards from the later trade to the earlier one. -/
theorem watermark_moves_backwards :
    ¬Always (WatermarkHistory.step numericToken) (WatermarkHistory.Sound numericToken)
      (WatermarkHistory.start numericToken 1 .absent) laterTradeFirst := by
  intro h
  have hgreatest := h.last.1 "USDC/XLM"
  have hwatermark : afterLaterTradeFirst.tracker.watermarks.find? "USDC/XLM" =
      some ⟨"USDC/XLM", some "10", some ⟨0, true⟩, 2, 0⟩ := by decide +kernel
  have haccepted : position numericToken (some ⟨0, true⟩) (some "20") ∈
      afterLaterTradeFirst.accepted "USDC/XLM" := by decide +kernel
  unfold afterLaterTradeFirst at hwatermark haccepted
  rw [hwatermark] at hgreatest
  have hle := hgreatest.2 haccepted
  revert hle
  decide +kernel

end LedgerLens.Ingestion
