import LedgerLens.Ingestion.WatermarkTracker
import LedgerLens.Library.Runs

/-!
# The lock of the watermark tracker

Methods of `WatermarkTracker` call each other, and its lock is not reentrant. This file shows that
every call ends, except `summary` on a tracker with a watermark: that holds the lock when it calls
`lag_seconds`, which asks for it.
-/

namespace LedgerLens.Ingestion

open Raising Locking Transition

variable {Thread : Type}

namespace WatermarkTracker

open WatermarkState

theorem ends_get (thread : Thread) (pairId : String) (s : WatermarkState) :
    Ends (get thread pairId) s :=
  ends_withLock_lift thread _ s

theorem ends_lagSeconds (thread : Thread) (now : ℤ) (pairId : String) (s : WatermarkState) :
    Ends (lagSeconds thread now pairId) s :=
  (ends_get thread pairId s).bind fun _ s' => Ends.pure _ s'

/-- A thread that holds the lock waits for itself in `lag_seconds`. -/
theorem exec_lagSeconds_held (thread holder : Thread) (now : ℤ) (pairId : String)
    (s : WatermarkState) :
    exec (lagSeconds thread now pairId) ⟨some holder, s⟩ =
      (.error (.waits holder), ⟨some holder, s⟩) :=
  exec_bind_of_error (exec_withLock_held thread holder _ s)

/-- `summary` of a tracker without watermarks ends. -/
theorem ends_summary (thread : Thread) (now : ℤ) {s : WatermarkState}
    (hempty : s.watermarks.rows = []) : Ends (summary thread now) s := by
  have hsorted := s.watermarks.rows_sortKeys_eq_nil_iff.mpr hempty
  refine ⟨.ok [], s, ?_, fun _ h => nomatch h⟩
  unfold summary
  rw [exec_withLock_free, exec_bind_of_ok (exec_get _)]
  dsimp only
  rw [hsorted]
  rfl

/-- `summary` of a tracker with a watermark waits for a lock that its thread holds. -/
theorem exec_summary_waits (thread : Thread) (now : ℤ) {s : WatermarkState}
    (hrows : s.watermarks.rows ≠ []) :
    exec (summary thread now) ⟨none, s⟩ = (.error (.waits thread), ⟨some thread, s⟩) := by
  have hsorted := mt s.watermarks.rows_sortKeys_eq_nil_iff.mp hrows
  obtain ⟨row, rest, hcons⟩ := List.exists_cons_of_ne_nil hsorted
  refine exec_withLock_of_waits ?_
  rw [exec_bind_of_ok (exec_get _)]
  dsimp only
  rw [hcons]
  exact exec_bind_of_error (exec_lagSeconds_held thread thread now row.1 s)

end WatermarkTracker

namespace TrackerCall

/-- The kind of call that does not end: a summary of some watermarks. -/
def SummarisesSome (call : TrackerCall) (s : WatermarkState) : Prop :=
  (∃ now, call = .summary now) ∧ s.watermarks.rows ≠ []

open WatermarkTracker in
/-- A call on a tracker whose lock is free ends unless it summarises some watermarks. -/
theorem ends_iff (thread : Thread) (call : TrackerCall) (s : WatermarkState) :
    Ends (call.perform thread) s ↔ ¬call.SummarisesSome s := by
  have hother (hne : ∀ now, call ≠ .summary now) : ¬call.SummarisesSome s := by
    rintro ⟨⟨now, heq⟩, -⟩
    exact hne now heq
  cases call with
  | get pairId => exact iff_of_true (ends_get thread pairId s).discard (hother nofun)
  | getCursor pairId =>
    exact iff_of_true ((ends_get thread pairId s).bind fun _ s' => Ends.pure _ s').discard
      (hother nofun)
  | getSince pairId =>
    exact iff_of_true ((ends_get thread pairId s).bind fun _ s' => Ends.pure _ s').discard
      (hother nofun)
  | allPairIds => exact iff_of_true (ends_withLock_lift thread _ s).discard (hother nofun)
  | toDict => exact iff_of_true (ends_withLock_lift thread _ s).discard (hother nofun)
  | advance args fault => exact iff_of_true (ends_withLock_lift thread _ s).discard (hother nofun)
  | reset pairId fault => exact iff_of_true (ends_withLock_lift thread _ s) (hother nofun)
  | resetAll fault => exact iff_of_true (ends_withLock_lift thread _ s) (hother nofun)
  | flush fault => exact iff_of_true (ends_withLock_lift thread _ s) (hother nofun)
  | lagSeconds now pairId =>
    exact iff_of_true (ends_lagSeconds thread now pairId s).discard (hother nofun)
  | exit fault => exact iff_of_true (ends_withLock_lift thread _ s) (hother nofun)
  | summary now =>
    by_cases hrows : s.watermarks.rows = []
    · exact iff_of_true (ends_summary thread now hrows).discard fun h => h.2 hrows
    · have hwaits : exec (perform thread (.summary now)) ⟨none, s⟩ =
          (.error (.waits thread), ⟨some thread, s⟩) :=
        exec_bind_of_error (exec_summary_waits thread now hrows)
      exact iff_of_false (not_ends_of_waits hwaits) fun h => h ⟨⟨now, rfl⟩, hrows⟩

end TrackerCall

/-- The tracker with its lock after a call of a thread. -/
def lockStep (m : Guarded Thread WatermarkState) (call : Thread × TrackerCall) :
    Guarded Thread WatermarkState :=
  (exec (call.2.perform call.1) m).2

/-- A call ends: it returns or raises and leaves the lock free. -/
def CallEnds (m : Guarded Thread WatermarkState) (call : Thread × TrackerCall) : Prop :=
  (lockStep m call).owner = none ∧
    ∀ holder, (exec (call.2.perform call.1) m).1 ≠ .error (.waits holder)

theorem callEnds_iff (s : WatermarkState) (call : Thread × TrackerCall) :
    CallEnds ⟨none, s⟩ call ↔ Ends (call.2.perform call.1) s := by
  constructor
  · rintro ⟨howner, hwaits⟩
    cases hexec : exec (call.2.perform call.1) ⟨none, s⟩ with
    | mk r m =>
      unfold lockStep at howner
      rw [hexec] at howner hwaits
      obtain ⟨owner, s'⟩ := m
      cases howner
      exact ⟨r, s', hexec, hwaits⟩
  · rintro ⟨r, s', hexec, hwaits⟩
    unfold CallEnds lockStep
    rw [hexec]
    exact ⟨rfl, hwaits⟩

/-- In a run of calls of any threads all calls end exactly if none summarises watermarks. -/
theorem meets_callEnds_iff (flushEveryN : ℤ) (file : StoreFile)
    (calls : List (Thread × TrackerCall)) :
    Meets lockStep CallEnds ⟨none, .construct flushEveryN file⟩ calls ↔
      Meets lockStep (fun m call => ¬call.2.SummarisesSome m.state)
        ⟨none, .construct flushEveryN file⟩ calls := by
  have hiff (m : Guarded Thread WatermarkState) (call : Thread × TrackerCall)
      (hfree : m.owner = none) : CallEnds m call ↔ ¬call.2.SummarisesSome m.state := by
    obtain ⟨owner, s⟩ := m
    cases hfree
    exact (callEnds_iff s call).trans (TrackerCall.ends_iff call.1 call.2 s)
  refine meets_iff_meets (fun m => m.owner = none) hiff ?_ rfl calls
  intro m call hfree hcond
  exact ((hiff m call hfree).mpr hcond).1

/-- A trade of a pair is ingested. -/
def firstAdvance : Unit × TrackerCall :=
  ((), .advance ⟨"USDC/XLM", "10-0", ⟨0, true⟩, 1, 0⟩ none)

/-- After that the tracker is asked for a summary. -/
def summaryAfterAdvance : List (Unit × TrackerCall) := [firstAdvance, ((), .summary 1000000)]

/-- The summary does not end. -/
theorem summary_waits_for_itself :
    ¬Meets lockStep CallEnds ⟨none, .construct 1 .absent⟩ summaryAfterAdvance := by
  intro h
  have hsummary : CallEnds ⟨none, (lockStep ⟨none, .construct 1 .absent⟩ firstAdvance).state⟩
      ((), .summary 1000000) := h.2.1
  have hends := (TrackerCall.ends_iff _ _ _).mp ((callEnds_iff _ _).mp hsummary)
  exact hends ⟨⟨_, rfl⟩, by decide +kernel⟩

end LedgerLens.Ingestion
