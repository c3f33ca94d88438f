import LedgerLens.ExactlyOnce.SqlBackend

/-!
# Concurrent callers of the SQL backend

Any number of callers run `check_and_stage` on one key, their statements interleaved in
any order, with no `commit` or `mark_failed` between them. The insert branch is guarded
by the UNIQUE constraint. The branch that takes a FAILED row back is a read followed by
an update, guarded by nothing: it answers NEW again when another caller has taken the
row back in the meantime. This file shows that this is the only way to a second NEW.
-/

namespace LedgerLens.ExactlyOnce

open Interleaving Transition

variable {Payload Caller : Type*} [DecidableEq Caller]

/-- All callers of one key, over the dedup table. -/
abbrev SqlConfig (Payload Caller : Type*) := Config Caller (DedupTable Payload) (SqlCall Payload)

/-- One statement of the caller that the event names. -/
def SqlExactlyOnceBackend.raceStep (backend : SqlExactlyOnceBackend) (key : DedupKey)
    (c : SqlConfig Payload Caller) (e : Caller × SqlInput) : SqlConfig Payload Caller :=
  stepAt (backend.step key) c e

/-- Every caller is about to run its first statement on this table. -/
def SqlConfig.start (table : DedupTable Payload) : SqlConfig Payload Caller :=
  ⟨table, fun _ => SqlCall.start⟩

/-- A call that is answered is answered NEW, STAGED or COMMITTED. -/
def SqlCall.AnswerAllowed (call : SqlCall Payload) : Prop :=
  ∀ decision, call.phase = .answered decision →
    decision.state = .new ∨ decision.state = .staged ∨ decision.state = .committed

/-- At most one caller is answered NEW, and whoever is answered otherwise is answered
STAGED or COMMITTED. -/
def SingleNew (c : SqlConfig Payload Caller) : Prop :=
  AtMostOne SqlCall.AnsweredNew c ∧ ∀ i, (c.locals i).AnswerAllowed

/-- The row of the key is in the FAILED state. -/
def RowFailed (key : DedupKey) (table : DedupTable Payload) : Prop :=
  ∃ row, table.find? key.canonical = some row ∧ row.state = .failed

/-- A step that takes a FAILED row back finds the row still FAILED. -/
def ReclaimFindsFailed (key : DedupKey) (c : SqlConfig Payload Caller)
    (e : Caller × SqlInput) : Prop :=
  e.2.operationalError = false → (c.locals e.1).phase = .reclaim → RowFailed key c.shared

/-- The rows from which the race may start: absent, STAGED or FAILED. -/
def Uncommitted (key : DedupKey) (table : DedupTable Payload) : Prop :=
  ∀ row, table.find? key.canonical = some row → row.state = .staged ∨ row.state = .failed

/-- A call that has not taken the key and does not mean to. -/
def SqlCall.Unclaiming (call : SqlCall Payload) : Prop :=
  ¬call.AnsweredNew ∧ call.phase ≠ .reclaim

/-- What the callers and the row have to do with each other while at most one caller
has been answered NEW. -/
structure RaceInvariant (key : DedupKey) (c : SqlConfig Payload Caller) : Prop where
  /-- At most one caller is answered NEW. -/
  single : AtMostOne SqlCall.AnsweredNew c
  /-- The other answers are STAGED or COMMITTED. -/
  answers : ∀ i, (c.locals i).AnswerAllowed
  /-- Nobody commits. -/
  uncommitted : Uncommitted key c.shared
  /-- As long as there is no row, nobody is answered NEW or takes a row back. -/
  absent : c.shared.find? key.canonical = none → ∀ i, (c.locals i).Unclaiming
  /-- As long as the row is FAILED, nobody is answered NEW. -/
  failed : RowFailed key c.shared → ∀ i, ¬(c.locals i).AnsweredNew
  /-- A caller that still means to take the row back either can, or is too late: some
  caller has been answered NEW. -/
  reclaim : ∀ i, (c.locals i).phase = .reclaim →
    RowFailed key c.shared ∨ ∃ j, (c.locals j).AnsweredNew

variable {backend : SqlExactlyOnceBackend} {key : DedupKey}

theorem SqlCall.not_answeredNew_start : ¬(SqlCall.start : SqlCall Payload).AnsweredNew := by
  rintro ⟨payload, h⟩
  cases h

theorem SqlCall.AnsweredNew.ended {call : SqlCall Payload} (h : call.AnsweredNew) :
    call.ended = true := by
  obtain ⟨payload, h⟩ := h
  simp [SqlCall.ended, h]

omit [DecidableEq Caller] in
/-- The invariant holds before the first statement. -/
theorem RaceInvariant.start {table : DedupTable Payload} (h : Uncommitted key table) :
    RaceInvariant key (SqlConfig.start table : SqlConfig Payload Caller) where
  single i _ hi _ := absurd hi SqlCall.not_answeredNew_start
  answers i decision hi := by cases hi
  uncommitted := h
  absent _ i := ⟨SqlCall.not_answeredNew_start, by simp [SqlConfig.start, SqlCall.start]⟩
  failed _ i := SqlCall.not_answeredNew_start
  reclaim i hi := by cases hi

/-- What one step of a caller can do while nobody commits: nothing, because the call has
ended; move on or answer STAGED; see the FAILED row and mean to take it back; or write
the row as STAGED and answer NEW. -/
theorem step_cases {input : SqlInput} {table table' : DedupTable Payload}
    {call call' : SqlCall Payload} (hrow : Uncommitted key table)
    (hstep : backend.step key input table call = (table', call')) :
    (call.ended = true ∧ table' = table ∧ call' = call) ∨
    (call.ended = false ∧ table' = table ∧ ¬call'.AnsweredNew ∧ call'.phase ≠ .reclaim ∧
      ∀ decision, call'.phase = .answered decision → decision.state = .staged) ∨
    (call.ended = false ∧ table' = table ∧ call'.phase = .reclaim ∧ RowFailed key table) ∨
    (call.ended = false ∧ input.operationalError = false ∧
      call'.phase = .answered ⟨.new, none⟩ ∧
      (table.find? key.canonical = none ∨ call.phase = .reclaim) ∧
      ∃ row, table'.find? key.canonical = some row ∧ row.state = .staged) := by
  cases hended : call.ended with
  | true =>
    rw [step_of_ended hended, Prod.mk.injEq] at hstep
    exact Or.inl ⟨rfl, hstep.1.symm, hstep.2.symm⟩
  | false =>
    right
    cases herr : input.operationalError with
    | true =>
      rw [step_of_operationalError hended herr, Prod.mk.injEq] at hstep
      obtain ⟨rfl, rfl⟩ := hstep
      left
      rcases retry_phase call with h | h <;> simp [SqlCall.AnsweredNew, h]
    | false =>
      rw [step_of_statement hended herr, Prod.mk.injEq] at hstep
      obtain ⟨rfl, rfl⟩ := hstep
      cases hphase : call.phase with
      | select =>
        cases hfind : table.find? key.canonical with
        | none =>
          left
          simp [SqlExactlyOnceBackend.statement, SqlExactlyOnceBackend.afterSelect, hfind,
            SqlCall.AnsweredNew]
        | some row =>
          rcases hrow row hfind with hstate | hstate
          · left
            simp [SqlExactlyOnceBackend.statement, SqlExactlyOnceBackend.afterSelect, hfind,
              SqlCall.AnsweredNew, hstate]
          · right
            left
            simp [SqlExactlyOnceBackend.statement, SqlExactlyOnceBackend.afterSelect, hfind,
              RowFailed, hstate]
      | insert =>
        cases hins : table.insert? key.canonical
            (⟨.staged, none, input.now, none⟩ : DedupRecord Payload) with
        | none =>
          left
          simp [SqlExactlyOnceBackend.statement, hins, SqlCall.AnsweredNew]
        | some table' =>
          have hfree : table.find? key.canonical = none := by
            by_contra hne
            rw [(table.insert?_eq_none_iff _ _).mpr hne] at hins
            cases hins
          right
          right
          simp [SqlExactlyOnceBackend.statement, hins, hfree, UniqueTable.find?_of_insert? hins]
      | reselect =>
        left
        cases hfind : table.find? key.canonical with
        | none => simp [SqlExactlyOnceBackend.statement, afterReselect, hfind, SqlCall.AnsweredNew]
        | some row =>
          have hne : row.state ≠ .committed := by
            rcases hrow row hfind with h | h <;> simp [h]
          simp [SqlExactlyOnceBackend.statement, afterReselect, hfind, SqlCall.AnsweredNew, hne]
      | reclaim =>
        cases hfind : table.find? key.canonical with
        | none =>
          left
          simp [SqlExactlyOnceBackend.statement, hfind, SqlCall.AnsweredNew]
        | some row =>
          right
          right
          simp [SqlExactlyOnceBackend.statement, hfind]
      | answered decision => simp [SqlCall.ended, hphase] at hended
      | raised error => simp [SqlCall.ended, hphase] at hended

/-- A row that is STAGED is not FAILED. -/
theorem not_rowFailed_of_staged {table : DedupTable Payload} {row : DedupRecord Payload}
    (hfind : table.find? key.canonical = some row) (hstate : row.state = .staged) :
    ¬RowFailed key table := by
  rintro ⟨row', hfind', hfailed⟩
  rw [hfind, Option.some.injEq] at hfind'
  rw [← hfind', hstate] at hfailed
  cases hfailed

/-- A caller that is answered NEW stays so while another one moves. -/
theorem answeredNew_raceStep {c : SqlConfig Payload Caller} {e : Caller × SqlInput}
    (h : ∃ j, (c.locals j).AnsweredNew) :
    ∃ j, ((backend.raceStep key c e).locals j).AnsweredNew := by
  apply exists_stepAt h
  intro hnew
  rwa [step_of_ended hnew.ended]

/-- The invariant survives a step that writes the row as STAGED and answers NEW, as
long as nobody had been answered NEW before. -/
theorem RaceInvariant.claim {c : SqlConfig Payload Caller} {e : Caller × SqlInput}
    (hinv : RaceInvariant key c) (hnobody : ∀ j, ¬(c.locals j).AnsweredNew)
    (hphase : (backend.step key e.2 c.shared (c.locals e.1)).2.phase = .answered ⟨.new, none⟩)
    {row : DedupRecord Payload} (hstate : row.state = .staged)
    (hrow : (backend.step key e.2 c.shared (c.locals e.1)).1.find? key.canonical = some row) :
    RaceInvariant key (backend.raceStep key c e) := by
  have hnew : ((backend.raceStep key c e).locals e.1).AnsweredNew :=
    ⟨none, by simpa [SqlExactlyOnceBackend.raceStep] using hphase⟩
  constructor
  · exact atMostOne_stepAt hinv.single fun _ => Or.inr hnobody
  · apply forall_stepAt hinv.answers
    intro decision h
    rw [hphase, Phase.answered.injEq] at h
    exact Or.inl (by rw [← h])
  · intro row' h
    left
    rw [SqlExactlyOnceBackend.raceStep, stepAt_shared, hrow, Option.some.injEq] at h
    rw [← h, hstate]
  · intro hnone
    rw [SqlExactlyOnceBackend.raceStep, stepAt_shared, hrow] at hnone
    cases hnone
  · intro hfailed
    exact absurd hfailed (not_rowFailed_of_staged hrow hstate)
  · exact fun _ _ => Or.inr ⟨e.1, hnew⟩

/-- The invariant survives a step that leaves the table alone and does not answer NEW. -/
theorem RaceInvariant.quiet {c : SqlConfig Payload Caller} {e : Caller × SqlInput}
    (hinv : RaceInvariant key c)
    (htable : (backend.step key e.2 c.shared (c.locals e.1)).1 = c.shared)
    (hnew : ¬(backend.step key e.2 c.shared (c.locals e.1)).2.AnsweredNew)
    (hreclaim : (backend.step key e.2 c.shared (c.locals e.1)).2.phase = .reclaim →
      RowFailed key c.shared)
    (hanswer : ∀ decision, (backend.step key e.2 c.shared (c.locals e.1)).2.phase =
      .answered decision → decision.state = .staged) :
    RaceInvariant key (backend.raceStep key c e) := by
  have hshared : (backend.raceStep key c e).shared = c.shared := htable
  constructor
  · exact atMostOne_stepAt hinv.single fun h => absurd h hnew
  · apply forall_stepAt hinv.answers
    exact fun decision h => Or.inr (Or.inl (hanswer decision h))
  · rw [hshared]
    exact hinv.uncommitted
  · rw [hshared]
    intro hnone
    apply forall_stepAt (hinv.absent hnone)
    refine ⟨hnew, fun h => ?_⟩
    obtain ⟨row, hfind, _⟩ := hreclaim h
    rw [hnone] at hfind
    cases hfind
  · rw [hshared]
    intro hfailed
    exact forall_stepAt (P := fun call : SqlCall Payload => ¬call.AnsweredNew)
      (hinv.failed hfailed) hnew
  · rw [hshared]
    intro i hi
    by_cases hie : i = e.1
    · subst hie
      rw [SqlExactlyOnceBackend.raceStep, stepAt_locals_self] at hi
      exact Or.inl (hreclaim hi)
    · rw [SqlExactlyOnceBackend.raceStep, stepAt_locals_ne hie] at hi
      exact (hinv.reclaim i hi).imp id answeredNew_raceStep

/-- A step keeps the invariant when it takes a FAILED row back only while the row is
still FAILED. -/
theorem RaceInvariant.raceStep {c : SqlConfig Payload Caller} {e : Caller × SqlInput}
    (hinv : RaceInvariant key c) (hcond : ReclaimFindsFailed key c e) :
    RaceInvariant key (backend.raceStep key c e) := by
  have hstep : backend.step key e.2 c.shared (c.locals e.1) =
      ((backend.step key e.2 c.shared (c.locals e.1)).1,
        (backend.step key e.2 c.shared (c.locals e.1)).2) := rfl
  rcases step_cases hinv.uncommitted hstep with
    ⟨_, htable, hcall⟩ | ⟨_, htable, hnew, hreclaim, hanswer⟩ |
    ⟨_, htable, hreclaim, hfailed⟩ | ⟨_, herr, hphase, hfree, row, hrow, hstate⟩
  · have hsame : backend.raceStep key c e = c := by
      unfold SqlExactlyOnceBackend.raceStep stepAt
      rw [htable, hcall, Function.update_eq_self]
    rwa [hsame]
  · exact hinv.quiet htable hnew (fun h => absurd h hreclaim) hanswer
  · apply hinv.quiet htable
    · rintro ⟨payload, h⟩
      rw [hreclaim] at h
      cases h
    · exact fun _ => hfailed
    · intro decision h
      rw [hreclaim] at h
      cases h
  · apply hinv.claim _ hphase hstate hrow
    rcases hfree with hnone | hreclaim
    · exact fun j => (hinv.absent hnone j).1
    · exact hinv.failed (hcond herr hreclaim)

/-- A step that takes the row back although it is no longer FAILED answers a second
caller NEW. -/
theorem RaceInvariant.not_singleNew {c : SqlConfig Payload Caller} {e : Caller × SqlInput}
    (hinv : RaceInvariant key c) (hcond : ¬ReclaimFindsFailed key c e) :
    ¬SingleNew (backend.raceStep key c e) := by
  simp only [ReclaimFindsFailed, not_forall] at hcond
  obtain ⟨herr, hreclaim, hnotFailed⟩ := hcond
  obtain ⟨j, hj⟩ := (hinv.reclaim e.1 hreclaim).resolve_left hnotFailed
  have hne : j ≠ e.1 := by
    rintro rfl
    obtain ⟨payload, h⟩ := hj
    rw [hreclaim] at h
    cases h
  have hended : (c.locals e.1).ended = false := by simp [SqlCall.ended, hreclaim]
  have hentered : (backend.step key e.2 c.shared (c.locals e.1)).2.AnsweredNew := by
    rw [step_of_statement hended herr, hreclaim]
    cases hfind : c.shared.find? key.canonical with
    | none => exact absurd hreclaim (hinv.absent hfind e.1).2
    | some row => exact ⟨none, by simp [SqlExactlyOnceBackend.statement, hfind]⟩
  exact fun h => not_atMostOne_stepAt hj hne hentered h.1

/-- From an absent, STAGED or FAILED row, at most one of any number of interleaved
callers is answered NEW, in every state of the run, exactly when every step that takes
a FAILED row back still finds it FAILED. -/
theorem check_and_stage_single_new_iff (backend : SqlExactlyOnceBackend) (key : DedupKey)
    (table : DedupTable Payload) (hrow : Uncommitted key table) (es : List (Caller × SqlInput)) :
    Always (backend.raceStep key) SingleNew (SqlConfig.start table) es ↔
      Meets (backend.raceStep key) (ReclaimFindsFailed key) (SqlConfig.start table) es :=
  always_iff_meets (RaceInvariant key) (fun _ h => ⟨h.single, h.answers⟩)
    (fun _ _ h hcond => h.raceStep hcond) (fun _ _ h hcond => h.not_singleNew hcond)
    (RaceInvariant.start hrow) es

/-- A table whose only row is the FAILED row of a key. -/
def failedTable (key : DedupKey) : DedupTable ℕ :=
  UniqueTable.empty.put key.canonical ⟨.failed, none, 0, none⟩

/-- Two callers that both select the FAILED row before either writes it back. -/
def overlappingReclaims : List (ℕ × SqlInput) :=
  [(0, ⟨1, false⟩), (1, ⟨2, false⟩), (0, ⟨3, false⟩), (1, ⟨4, false⟩)]

theorem uncommitted_failedTable (key : DedupKey) : Uncommitted key (failedTable key) := by
  intro row h
  simp only [failedTable, UniqueTable.find?_put, if_true, Option.some.injEq] at h
  exact Or.inr (by rw [← h])

/-- Two overlapping calls on a FAILED row are both answered NEW. -/
theorem check_and_stage_two_new :
    ¬SingleNew (exec (({} : SqlExactlyOnceBackend).raceStep ⟨"job", "unit", none⟩)
      (SqlConfig.start (failedTable ⟨"job", "unit", none⟩)) overlappingReclaims) := by
  intro h
  have heq : 0 = 1 := by
    apply h.1 0 1
    · exact ⟨none, rfl⟩
    · exact ⟨none, rfl⟩
  cases heq

/-- Two calls on a FAILED row, one after the other: the second is answered STAGED. -/
theorem check_and_stage_single_new_sequential :
    Always (({} : SqlExactlyOnceBackend).raceStep ⟨"job", "unit", none⟩) SingleNew
      (SqlConfig.start (failedTable ⟨"job", "unit", none⟩))
      [(0, ⟨1, false⟩), (0, ⟨2, false⟩), (1, ⟨3, false⟩)] := by
  apply (check_and_stage_single_new_iff _ _ _ (uncommitted_failedTable _) _).mpr
  refine ⟨fun _ h => ?_, fun _ _ => ?_, fun _ h => ?_, trivial⟩
  · cases h
  · exact ⟨_, rfl, rfl⟩
  · cases h

end LedgerLens.ExactlyOnce
