import LedgerLens.Utils.IdempotencyLedger
import Mathlib.Data.Fintype.Basic

/-!
# Concurrent callers of one idempotency key

Any number of callers run a job under one key, their statements interleaved in any order.
Whoever inserts the row has the key. Taking a failed row again, or one whose lease has run
out, is a read followed by an action: a failed row is not even touched before `fn` is called.
This file shows that these two branches are the only way to a second execution.
-/

namespace LedgerLens.Utils.IdempotencyLedger

open Interleaving Transition

variable {Result Caller : Type*} [DecidableEq Caller]

/-- All callers of one key, over the ledger. -/
abbrev RaceState (Result Caller : Type*) := Config Caller Ledger (Phase Result)

/-- What happens next to the caller that the event names. -/
def raceStep (call : Call Result) (c : RaceState Result Caller) (e : Caller × Act Result) :
    RaceState Result Caller :=
  stepAt call.step c e

/-- Every caller is about to call `run`, and `fn` has not returned yet. -/
def RaceState.start (table : JobTable) (clock : ℚ) : RaceState Result Caller :=
  ⟨⟨table, clock, 0⟩, fun _ => .called⟩

namespace Phase

/-- The call is in `fn`. -/
def Executes : Phase Result → Prop
  | executing _ => True
  | _ => False

/-- `fn` has returned, and the row does not say so yet. -/
def Returned : Phase Result → Prop
  | returned _ _ => True
  | _ => False

/-- The stamp that a call has put into the row and has not replaced by a status yet. -/
def ownStamp : Phase Result → Option ℚ
  | inserted created now => if created then some now else none
  | hasRead created now _ => if created then some now else none
  | executing claim => claim
  | returned claim _ => claim
  | raised claim _ => claim
  | _ => none

/-- The record that a call which has not inserted the row is about to look at. -/
def readRecord : Phase Result → Option JobRecord
  | hasRead false _ record => some record
  | _ => none

/-- The call has decided to execute on a row that it has not written to. -/
def Unwritten : Phase Result → Prop
  | reclaiming => True
  | touching _ => True
  | executing claim => claim = none
  | returned claim _ => claim = none
  | raised claim _ => claim = none
  | _ => False

/-- The call has the key, or has decided to take it. -/
def InFlight (phase : Phase Result) : Prop := phase.ownStamp ≠ none ∨ phase.Unwritten

instance decidableExecutes (phase : Phase Result) : Decidable phase.Executes := by
  cases phase <;> unfold Executes <;> infer_instance

instance decidableUnwritten (phase : Phase Result) : Decidable phase.Unwritten := by
  cases phase <;> unfold Unwritten <;> infer_instance

theorem Executes.inFlight {phase : Phase Result} (h : phase.Executes) : phase.InFlight := by
  cases phase with
  | executing claim => cases claim <;> simp [InFlight, ownStamp, Unwritten]
  | _ => exact absurd h id

theorem Returned.inFlight {phase : Phase Result} (h : phase.Returned) : phase.InFlight := by
  cases phase with
  | returned claim result => cases claim <;> simp [InFlight, ownStamp, Unwritten]
  | _ => exact absurd h id

theorem not_inFlight_finished (outcome : Outcome Result) : ¬(finished outcome).InFlight := by
  simp [InFlight, ownStamp, Unwritten]

end Phase

/-- At most one caller is in `fn`, and `fn` has returned normally at most once. -/
def ExecutesOnce (c : RaceState Result Caller) : Prop :=
  AtMostOne Phase.Executes c ∧ c.shared.normalReturns ≤ 1

/-- The row is there and does not say that the job succeeded. -/
def RowOpen (key : String) (table : JobTable) : Prop :=
  ∃ row, table.find? key = some row ∧ row.status ≠ .success

/-- The row says that the job succeeded. -/
def RowSuccess (key : String) (table : JobTable) : Prop :=
  ∃ row, table.find? key = some row ∧ row.status = .success

/-- A record on which a caller that has not inserted the row goes on to execute `fn`: it
failed, or its lease has run out. -/
def Retryable (call : Call Result) (clock : ℚ) (record : JobRecord) : Prop :=
  record.inputHash = call.inputHash ∧
    (record.status = .failed ∨
      record.status = .pending ∧ call.leaseSeconds ≤ clock - record.updatedAt)

/-- Every execution is shorter than the lease, from the stamp in the row to the mark. -/
def WithinLease (call : Call Result) (c : RaceState Result Caller) : Prop :=
  ∀ i, ∀ now ∈ (c.locals i).ownStamp, c.shared.clock - now < call.leaseSeconds

/-- When a caller takes a failed row or an expired lease, the job has not succeeded since the
row was read, nobody has claimed the row since, and nobody else has decided to execute on the
row without having written to it. -/
def Unraced (call : Call Result) (c : RaceState Result Caller) (i : Caller) : Prop :=
  ∀ record ∈ (c.locals i).readRecord, Retryable call c.shared.clock record →
    RowOpen call.key c.shared.table ∧
    ∀ j, j ≠ i → ¬(c.locals j).Unwritten ∧
      ((c.locals j).ownStamp ≠ none → c.shared.table.find? call.key = some record)

/-- What `fn` returns in a step. -/
def Act.fnResult : Act Result → Option Result
  | fnReturns result => some result
  | _ => none

/-- The condition on a step. -/
structure Guarded (call : Call Result) (c : RaceState Result Caller)
    (e : Caller × Act Result) : Prop where
  /-- No execution lasts as long as the lease. -/
  lease : WithinLease call c
  /-- Nobody races for a failed row or an expired lease. -/
  unraced : e.2 = .statement → Unraced call c e.1
  /-- A result can be stored. -/
  storable : ∀ result ∈ e.2.fnResult, (call.dumps result).isSome

/-- What the row has to do with where a call stands. -/
structure Phase.Sound (call : Call Result) (table : JobTable) (phase : Phase Result) : Prop where
  /-- The row still has the stamp of a call that has the key. -/
  own : ∀ now, phase.ownStamp = some now →
    ∃ row, table.find? call.key = some row ∧ row.status = .pending ∧ row.updatedAt = now
  /-- A call does not go on to execute on a success. -/
  unwritten : phase.Unwritten → RowOpen call.key table
  /-- The result can be stored. -/
  stored : ∀ claim result, phase = .returned claim result → (call.dumps result).isSome

/-- What the callers and the row have to do with each other. -/
structure RaceInvariant (call : Call Result) (c : RaceState Result Caller) : Prop where
  /-- At most one caller has the key or has decided to take it. -/
  single : AtMostOne Phase.InFlight c
  /-- The row agrees with where each caller stands. -/
  sound : ∀ i, (c.locals i).Sound call c.shared.table
  /-- `fn` has returned at most once. -/
  once : c.shared.normalReturns ≤ 1
  /-- If it has, the row says so or its caller is about to write it. -/
  settled : 0 < c.shared.normalReturns →
    (∃ i, (c.locals i).Returned) ∨ RowSuccess call.key c.shared.table

instance decidableRowOpen (key : String) (table : JobTable) : Decidable (RowOpen key table) :=
  decidable_of_iff (∃ row ∈ table.find? key, row.status ≠ .success) Iff.rfl

instance decidableRetryable (call : Call Result) (clock : ℚ) (record : JobRecord) :
    Decidable (Retryable call clock record) := by
  unfold Retryable
  infer_instance

instance decidableWithinLease [Fintype Caller] (call : Call Result)
    (c : RaceState Result Caller) : Decidable (WithinLease call c) := by
  unfold WithinLease
  infer_instance

instance decidableUnraced [Fintype Caller] (call : Call Result) (c : RaceState Result Caller)
    (i : Caller) : Decidable (Unraced call c i) := by
  unfold Unraced
  infer_instance

instance decidableGuarded [Fintype Caller] [DecidableEq Result] (call : Call Result)
    (c : RaceState Result Caller) (e : Caller × Act Result) : Decidable (Guarded call c e) :=
  decidable_of_iff (WithinLease call c ∧ (e.2 = .statement → Unraced call c e.1) ∧
      ∀ result ∈ e.2.fnResult, (call.dumps result).isSome)
    ⟨fun h => ⟨h.1, h.2.1, h.2.2⟩, fun h => ⟨h.lease, h.unraced, h.storable⟩⟩

variable {call : Call Result} {c : RaceState Result Caller} {e : Caller × Act Result}
  {table table' : JobTable} {phase : Phase Result}

/-- The row has nothing to do with a call that is not in flight. -/
theorem Phase.Sound.of_not_inFlight (h : ¬phase.InFlight) : phase.Sound call table where
  own now hown := absurd (Or.inl (by simp [hown])) h
  unwritten hunwritten := absurd (Or.inr hunwritten) h
  stored claim result hreturned := by
    subst hreturned
    have hback : (Phase.returned claim result).Returned := trivial
    exact absurd hback.inFlight h

/-- The row has the stamp of a call that has the key. -/
theorem Phase.Sound.of_stamp {now : ℚ} (hstamp : phase.ownStamp = some now)
    (hwritten : ¬phase.Unwritten) (hback : ¬phase.Returned)
    (hrow : ∃ row, table.find? call.key = some row ∧ row.status = .pending ∧
      row.updatedAt = now) : phase.Sound call table where
  own now' hnow' := by
    rw [hstamp, Option.some.injEq] at hnow'
    rwa [← hnow']
  unwritten hunwritten := absurd hunwritten hwritten
  stored claim result hreturned := by
    subst hreturned
    exact absurd trivial hback

/-- The row is open for a call that has decided to take it. -/
theorem Phase.Sound.of_open (hstamp : phase.ownStamp = none) (hback : ¬phase.Returned)
    (hopen : RowOpen call.key table) : phase.Sound call table where
  own now hnow := by simp [hstamp] at hnow
  unwritten _ := hopen
  stored claim result hreturned := by
    subst hreturned
    exact absurd trivial hback

/-- Only the row of the key matters. -/
theorem Phase.Sound.congr (h : phase.Sound call table)
    (hsame : table'.find? call.key = table.find? call.key) : phase.Sound call table' where
  own := by simpa [hsame] using h.own
  unwritten := by simpa [RowOpen, hsame] using h.unwritten
  stored := h.stored

/-- The row is there and open while a call is in flight. -/
theorem Phase.Sound.rowOpen (h : phase.Sound call table) (hflight : phase.InFlight) :
    RowOpen call.key table := by
  rcases hflight with hown | hunwritten
  · obtain ⟨now, hnow⟩ := Option.ne_none_iff_exists'.mp hown
    obtain ⟨row, hrow, hstatus, -⟩ := h.own now hnow
    exact ⟨row, hrow, by simp [hstatus]⟩
  · exact h.unwritten hunwritten

theorem RowOpen.not_success {key : String} (h : RowOpen key table) : ¬RowSuccess key table := by
  rintro ⟨row, hrow, hsuccess⟩
  obtain ⟨row', hrow', hopen⟩ := h
  rw [hrow] at hrow'
  cases hrow'
  exact hopen hsuccess

omit [DecidableEq Caller] in
/-- The invariant holds before the first statement. -/
theorem RaceInvariant.start (call : Call Result) (table : JobTable) (clock : ℚ) :
    RaceInvariant call (RaceState.start table clock : RaceState Result Caller) where
  single i _ hi _ := by simp [RaceState.start, Phase.InFlight, Phase.ownStamp,
    Phase.Unwritten] at hi
  sound i := Phase.Sound.of_not_inFlight
    (by simp [RaceState.start, Phase.InFlight, Phase.ownStamp, Phase.Unwritten])
  once := Nat.zero_le 1
  settled h := absurd h (Nat.lt_irrefl 0)

omit [DecidableEq Caller] in
/-- `fn` has not returned while a caller is in flight that is not just back from it. -/
theorem RaceInvariant.not_returned (h : RaceInvariant call c) {i : Caller}
    (hflight : (c.locals i).InFlight) (hi : ¬(c.locals i).Returned) :
    c.shared.normalReturns = 0 := by
  by_contra hne
  rcases h.settled (by omega) with ⟨j, hj⟩ | hsuccess
  · rw [h.single j i hj.inFlight hflight] at hj
    exact hi hj
  · exact ((h.sound i).rowOpen hflight).not_success hsuccess

omit [DecidableEq Caller] in
/-- Nobody is in flight before the row is there, and `fn` has not returned. -/
theorem RaceInvariant.of_no_row (h : RaceInvariant call c)
    (hrow : c.shared.table.find? call.key = none) :
    (∀ j, ¬(c.locals j).InFlight) ∧ c.shared.normalReturns = 0 := by
  have hnobody : ∀ j, ¬(c.locals j).InFlight := by
    intro j hj
    obtain ⟨row, hrow', -⟩ := (h.sound j).rowOpen hj
    simp [hrow] at hrow'
  refine ⟨hnobody, ?_⟩
  by_contra hne
  rcases h.settled (by omega) with ⟨j, hj⟩ | ⟨row, hrow', -⟩
  · exact hnobody j hj.inFlight
  · simp [hrow] at hrow'

/-- What a step has to leave behind for the invariant to go on. -/
theorem RaceInvariant.moved (h : RaceInvariant call c) {ledger : Ledger}
    (hstep : call.step e.2 c.shared (c.locals e.1) = (ledger, phase))
    (hothers : ledger.table.find? call.key = c.shared.table.find? call.key ∨
      ∀ j, j ≠ e.1 → ¬(c.locals j).InFlight)
    (henter : phase.InFlight → (c.locals e.1).InFlight ∨ ∀ j, ¬(c.locals j).InFlight)
    (hsound : phase.Sound call ledger.table) (honce : ledger.normalReturns ≤ 1)
    (hsettled : 0 < ledger.normalReturns → phase.Returned ∨
      (∃ j, j ≠ e.1 ∧ (c.locals j).Returned) ∨ RowSuccess call.key ledger.table) :
    RaceInvariant call (raceStep call c e) where
  single := atMostOne_stepAt h.single (by rwa [hstep])
  sound i := by
    by_cases hi : i = e.1
    · subst hi
      simpa [raceStep, hstep] using hsound
    · have hsame : (raceStep call c e).locals i = c.locals i := stepAt_locals_ne hi
      rw [hsame]
      rcases hothers with hrow | hnobody
      · exact (h.sound i).congr (by simpa [raceStep, hstep] using hrow)
      · exact Phase.Sound.of_not_inFlight (hnobody i hi)
  once := by simpa [raceStep, hstep] using honce
  settled hpos := by
    rcases hsettled (by simpa [raceStep, hstep] using hpos) with hself | ⟨j, hj, hreturned⟩ | hrow
    · exact Or.inl ⟨e.1, by simpa [raceStep, hstep] using hself⟩
    · refine Or.inl ⟨j, ?_⟩
      rwa [raceStep, stepAt_locals_ne hj]
    · exact Or.inr (by simpa [raceStep, hstep] using hrow)

/-- A step that leaves the table and the count alone keeps the invariant, if its caller does
not come back from `fn` and the row agrees with where it stands now. -/
theorem RaceInvariant.moved_on (h : RaceInvariant call c) {ledger : Ledger}
    (hstep : call.step e.2 c.shared (c.locals e.1) = (ledger, phase))
    (htable : ledger.table = c.shared.table)
    (hreturns : ledger.normalReturns = c.shared.normalReturns)
    (hback : (c.locals e.1).Returned → phase.Returned)
    (henter : phase.InFlight → (c.locals e.1).InFlight ∨ ∀ j, ¬(c.locals j).InFlight)
    (hsound : phase.Sound call c.shared.table) : RaceInvariant call (raceStep call c e) := by
  refine h.moved hstep (Or.inl (by rw [htable])) henter (htable ▸ hsound) (hreturns ▸ h.once) ?_
  intro hpos
  rw [hreturns] at hpos
  rcases h.settled hpos with ⟨j, hj⟩ | hrow
  · by_cases hje : j = e.1
    · subst hje
      exact Or.inl (hback hj)
    · exact Or.inr (Or.inl ⟨j, hje, hj⟩)
  · exact Or.inr (Or.inr (htable ▸ hrow))

/-- A step that leaves the table and the count alone keeps the invariant, if its caller is not
in flight afterwards and was not just back from `fn`. -/
theorem RaceInvariant.moved_idle (h : RaceInvariant call c) {ledger : Ledger}
    (hstep : call.step e.2 c.shared (c.locals e.1) = (ledger, phase))
    (htable : ledger.table = c.shared.table)
    (hreturns : ledger.normalReturns = c.shared.normalReturns)
    (hback : ¬(c.locals e.1).Returned) (hidle : ¬phase.InFlight) :
    RaceInvariant call (raceStep call c e) :=
  h.moved_on hstep htable hreturns (fun hreturned => absurd hreturned hback)
    (fun hflight => absurd hflight hidle) (Phase.Sound.of_not_inFlight hidle)

/-- A step that leaves its caller where it is keeps the invariant. -/
theorem RaceInvariant.stayed (h : RaceInvariant call c) {ledger : Ledger}
    (hstep : call.step e.2 c.shared (c.locals e.1) = (ledger, c.locals e.1))
    (htable : ledger.table = c.shared.table)
    (hreturns : ledger.normalReturns = c.shared.normalReturns) :
    RaceInvariant call (raceStep call c e) :=
  h.moved_on hstep htable hreturns id Or.inl (h.sound e.1)

/-- Whoever reads an open row that it may retry takes it alone, if nobody races for it. -/
theorem RaceInvariant.nobody_of_unraced (h : RaceInvariant call c) {i : Caller} {now : ℚ}
    {record : JobRecord} (hlease : WithinLease call c) (hunraced : Unraced call c i)
    (hphase : c.locals i = .hasRead false now record)
    (hretry : Retryable call c.shared.clock record) :
    RowOpen call.key c.shared.table ∧ ∀ j, ¬(c.locals j).InFlight := by
  obtain ⟨hopen, hothers⟩ := hunraced record (by simp [hphase, Phase.readRecord]) hretry
  refine ⟨hopen, ?_⟩
  intro j hj
  by_cases hji : j = i
  · subst hji
    simp [hphase, Phase.InFlight, Phase.ownStamp, Phase.Unwritten] at hj
  · obtain ⟨hunwritten, hsince⟩ := hothers j hji
    rcases hj with hown | hj
    · -- The row still is the record that was read, so its lease has not run out.
      obtain ⟨stamp, hstamp⟩ := Option.ne_none_iff_exists'.mp hown
      obtain ⟨row, hrow, hpending, hupdated⟩ := (h.sound j).own stamp hstamp
      have hrecord := hsince hown
      rw [hrow, Option.some.injEq] at hrecord
      subst hrecord
      have hwithin := hlease j stamp hstamp
      rcases hretry.2 with hfailed | ⟨-, hexpired⟩
      · rw [hpending] at hfailed
        exact absurd hfailed (by decide)
      · rw [hupdated] at hexpired
        exact absurd hwithin (not_lt.mpr hexpired)
    · exact hunwritten hj

/-- What `run` decides about a record: to stop, or to go on as the record allows. -/
theorem Call.check_cases (call : Call Result) (clock : ℚ) (created : Bool) (now : ℚ)
    (record : JobRecord) :
    (∃ outcome, call.check clock created now record = .finished outcome) ∨
    (created = false ∧ Retryable call clock record ∧
      (call.check clock created now record = .reclaiming ∨
        call.check clock created now record = .executing none)) ∨
    (created = true ∧ call.check clock created now record = .executing (some now)) := by
  unfold Call.check
  by_cases hhash : record.inputHash = call.inputHash
  · rw [if_neg (by simpa using hhash)]
    by_cases hsuccess : record.status = .success
    · rw [if_pos hsuccess]
      exact Or.inl ⟨_, rfl⟩
    · rw [if_neg hsuccess]
      cases created with
      | true => simp
      | false =>
        by_cases hpending : record.status = .pending
        · rw [if_pos ⟨rfl, hpending⟩]
          by_cases hlive : clock - record.updatedAt < call.leaseSeconds
          · rw [if_pos hlive]
            exact Or.inl ⟨_, rfl⟩
          · rw [if_neg hlive]
            exact Or.inr (Or.inl ⟨rfl, ⟨hhash, Or.inr ⟨hpending, not_lt.mp hlive⟩⟩, Or.inl rfl⟩)
        · have hfailed : record.status = .failed := by
            cases hstatus : record.status <;> simp_all
          rw [if_neg fun hboth => hpending hboth.2]
          exact Or.inr (Or.inl ⟨rfl, ⟨hhash, Or.inl hfailed⟩, Or.inr rfl⟩)
  · rw [if_pos hhash]
    exact Or.inl ⟨_, rfl⟩

/-- `INSERT OR IGNORE` makes the row or finds one. -/
theorem insertOrIgnore_cases (table : JobTable) (key inputHash : String) (now : ℚ) :
    (table.find? key = none ∧ (insertOrIgnore table key inputHash now).2 = true ∧
      (insertOrIgnore table key inputHash now).1.find? key =
        some ⟨.pending, inputHash, none, none, 0, now, now⟩) ∨
    insertOrIgnore table key inputHash now = (table, false) := by
  unfold insertOrIgnore
  cases hinsert : table.insert? key ⟨.pending, inputHash, none, none, 0, now, now⟩ with
  | none => exact Or.inr rfl
  | some table' =>
    left
    refine ⟨UniqueTable.find?_eq_none_of_insert? hinsert, rfl, ?_⟩
    simp [UniqueTable.find?_of_insert? hinsert]

namespace RaceInvariant

omit [DecidableEq Caller] in
/-- Nobody else is in flight. -/
theorem others (h : RaceInvariant call c) {i : Caller} (hflight : (c.locals i).InFlight) :
    ∀ j, j ≠ i → ¬(c.locals j).InFlight :=
  fun j hj hflight' => hj (h.single j i hflight' hflight)

/-- The insert keeps the invariant. -/
theorem step_insert (h : RaceInvariant call c) (he : e.2 = .statement) {now : ℚ}
    (hphase : c.locals e.1 = .stamped now) : RaceInvariant call (raceStep call c e) := by
  have hstep : call.step e.2 c.shared (c.locals e.1) =
      ({ c.shared with
          table := (insertOrIgnore c.shared.table call.key call.inputHash now).1 },
        .inserted (insertOrIgnore c.shared.table call.key call.inputHash now).2 now) := by
    rw [he, hphase]
    rfl
  rcases insertOrIgnore_cases c.shared.table call.key call.inputHash now with
    ⟨hfree, hcreated, hrow⟩ | hignored
  · obtain ⟨hnobody, hreturns⟩ := h.of_no_row hfree
    rw [hcreated] at hstep
    refine h.moved hstep (Or.inr fun j _ => hnobody j) (fun _ => Or.inr hnobody) ?_
      (hreturns ▸ Nat.zero_le 1) (fun hpos => absurd hpos (by simp [hreturns]))
    exact Phase.Sound.of_stamp rfl id id ⟨_, hrow, rfl, rfl⟩
  · rw [hignored] at hstep
    exact h.moved_idle hstep rfl rfl (by simp [hphase, Phase.Returned])
      (by simp [Phase.InFlight, Phase.ownStamp, Phase.Unwritten])

/-- The read keeps the invariant. -/
theorem step_read (h : RaceInvariant call c) (he : e.2 = .statement) {created : Bool} {now : ℚ}
    (hphase : c.locals e.1 = .inserted created now) : RaceInvariant call (raceStep call c e) := by
  have hback : ¬(c.locals e.1).Returned := by
    simp [hphase, Phase.Returned]
  cases hrow : c.shared.table.find? call.key with
  | none =>
    have hstep : call.step e.2 c.shared (c.locals e.1) =
        (c.shared, .finished .assertionError) := by
      rw [he, hphase]
      simp [Call.step, Call.statement, hrow]
    exact h.moved_idle hstep rfl rfl hback (Phase.not_inFlight_finished _)
  | some record =>
    have hstep : call.step e.2 c.shared (c.locals e.1) =
        (c.shared, .hasRead created now record) := by
      rw [he, hphase]
      simp [Call.step, Call.statement, hrow]
    have hown : (Phase.hasRead created now record : Phase Result).ownStamp =
        (c.locals e.1).ownStamp := by
      rw [hphase]
      rfl
    refine h.moved_on hstep rfl rfl (fun hreturned => absurd hreturned hback) ?_ ?_
    · rintro (hflight | hflight)
      · exact Or.inl (Or.inl (hown ▸ hflight))
      · exact absurd hflight id
    · exact
        { own := fun stamp hstamp => (h.sound e.1).own stamp (hown ▸ hstamp)
          unwritten := fun hunwritten => absurd hunwritten id
          stored := fun _ _ hstored => by simp at hstored }

/-- The decision about the record keeps the invariant, if nobody races for the row. -/
theorem step_check (h : RaceInvariant call c) (hguard : Guarded call c e) (he : e.2 = .statement)
    {created : Bool} {now : ℚ} {record : JobRecord}
    (hphase : c.locals e.1 = .hasRead created now record) :
    RaceInvariant call (raceStep call c e) := by
  have hstep : call.step e.2 c.shared (c.locals e.1) =
      (c.shared, call.check c.shared.clock created now record) := by
    rw [he, hphase]
    rfl
  have hback : ¬(c.locals e.1).Returned := by
    simp [hphase, Phase.Returned]
  rcases call.check_cases c.shared.clock created now record with
    ⟨outcome, hcheck⟩ | ⟨rfl, hretry, hcheck⟩ | ⟨rfl, hcheck⟩
  · rw [hcheck] at hstep
    exact h.moved_idle hstep rfl rfl hback (Phase.not_inFlight_finished outcome)
  · -- The caller retries: it is alone, and writes nothing yet.
    obtain ⟨hopen, hnobody⟩ := h.nobody_of_unraced hguard.lease (hguard.unraced he) hphase hretry
    refine h.moved_on hstep rfl rfl (fun hreturned => absurd hreturned hback)
      (fun _ => Or.inr hnobody) ?_
    rcases hcheck with hcheck | hcheck
    · rw [hcheck]
      exact Phase.Sound.of_open rfl id hopen
    · rw [hcheck]
      exact Phase.Sound.of_open rfl id hopen
  · -- The caller has inserted the row, and goes on with its own stamp.
    have hown : (c.locals e.1).ownStamp = some now := by
      rw [hphase]
      rfl
    rw [hcheck] at hstep
    refine h.moved_on hstep rfl rfl (fun hreturned => absurd hreturned hback)
      (fun _ => Or.inl (Or.inl (by simp [hown]))) ?_
    exact Phase.Sound.of_stamp rfl (by simp [Phase.Unwritten]) id ((h.sound e.1).own now hown)

/-- The touch keeps the invariant. -/
theorem step_touch (h : RaceInvariant call c) (he : e.2 = .statement) {now : ℚ}
    (hphase : c.locals e.1 = .touching now) : RaceInvariant call (raceStep call c e) := by
  have hstep : call.step e.2 c.shared (c.locals e.1) =
      ({ c.shared with table := touchPending c.shared.table call.key now },
        .executing (some now)) := by
    rw [he, hphase]
    rfl
  have hflight : (c.locals e.1).InFlight := by
    rw [hphase]
    exact Or.inr trivial
  have hreturns := h.not_returned hflight (by simp [hphase, Phase.Returned])
  obtain ⟨row, hrow, -⟩ := (h.sound e.1).rowOpen hflight
  refine h.moved hstep (Or.inr (h.others hflight)) (fun _ => Or.inl hflight) ?_
    (hreturns ▸ Nat.zero_le 1) (fun hpos => absurd hpos (by simp [hreturns]))
  refine Phase.Sound.of_stamp rfl (by simp [Phase.Unwritten]) id ?_
  simp [touchPending, hrow]

/-- `_mark_success` keeps the invariant. -/
theorem step_success (h : RaceInvariant call c) (he : e.2 = .statement) {claim : Option ℚ}
    {result : Result} (hphase : c.locals e.1 = .returned claim result) :
    RaceInvariant call (raceStep call c e) := by
  obtain ⟨text, htext⟩ := Option.isSome_iff_exists.mp ((h.sound e.1).stored claim result hphase)
  have hstep : call.step e.2 c.shared (c.locals e.1) =
      ({ c.shared with table := markSuccess c.shared.table call.key text c.shared.clock },
        .finished (.returned result)) := by
    rw [he, hphase]
    simp [Call.step, Call.statement, htext]
  have hreturned : (c.locals e.1).Returned := by
    rw [hphase]
    trivial
  have hidle := Phase.not_inFlight_finished (.returned result)
  obtain ⟨row, hrow, -⟩ := (h.sound e.1).rowOpen hreturned.inFlight
  refine h.moved hstep (Or.inr (h.others hreturned.inFlight))
    (fun hflight => absurd hflight hidle) (Phase.Sound.of_not_inFlight hidle) h.once ?_
  intro _
  have hsuccess : RowSuccess call.key
      (markSuccess c.shared.table call.key text c.shared.clock) := by
    simp [RowSuccess, markSuccess, hrow]
  exact Or.inr (Or.inr hsuccess)

/-- `_mark_failed` keeps the invariant. -/
theorem step_failed (h : RaceInvariant call c) (he : e.2 = .statement) {claim : Option ℚ}
    {error : String} (hphase : c.locals e.1 = .raised claim error) :
    RaceInvariant call (raceStep call c e) := by
  have hstep : call.step e.2 c.shared (c.locals e.1) =
      ({ c.shared with table := markFailed c.shared.table call.key error c.shared.clock },
        .finished (.raised error)) := by
    rw [he, hphase]
    rfl
  have hflight : (c.locals e.1).InFlight := by
    rw [hphase]
    cases claim <;> simp [Phase.InFlight, Phase.ownStamp, Phase.Unwritten]
  have hreturns := h.not_returned hflight (by simp [hphase, Phase.Returned])
  have hidle : ¬(Phase.finished (.raised error) : Phase Result).InFlight :=
    Phase.not_inFlight_finished _
  exact h.moved hstep (Or.inr (h.others hflight)) (fun hflight => absurd hflight hidle)
    (Phase.Sound.of_not_inFlight hidle) (hreturns ▸ Nat.zero_le 1)
    (fun hpos => absurd hpos (by simp [hreturns]))

/-- A normal return of `fn` keeps the invariant. -/
theorem step_fnReturns (h : RaceInvariant call c) {result : Result} (he : e.2 = .fnReturns result)
    (hstorable : (call.dumps result).isSome) {claim : Option ℚ}
    (hphase : c.locals e.1 = .executing claim) : RaceInvariant call (raceStep call c e) := by
  have hstep : call.step e.2 c.shared (c.locals e.1) =
      ({ c.shared with normalReturns := c.shared.normalReturns + 1 }, .returned claim result) := by
    rw [he, hphase]
    rfl
  have hexecutes : (c.locals e.1).Executes := by
    rw [hphase]
    trivial
  have hreturns := h.not_returned hexecutes.inFlight (by simp [hphase, Phase.Returned])
  refine h.moved hstep (Or.inl rfl) (fun _ => Or.inl hexecutes.inFlight) ?_ (by simp [hreturns])
    (fun _ => Or.inl trivial)
  have hsound := h.sound e.1
  rw [hphase] at hsound
  exact
    { own := hsound.own
      unwritten := hsound.unwritten
      stored := by
        intro _ _ hreturned
        simp only [Phase.returned.injEq] at hreturned
        rwa [← hreturned.2] }

/-- An `Exception` of `fn` keeps the invariant. -/
theorem step_fnRaises (h : RaceInvariant call c) {error : String} (he : e.2 = .fnRaises error)
    {claim : Option ℚ} (hphase : c.locals e.1 = .executing claim) :
    RaceInvariant call (raceStep call c e) := by
  have hstep : call.step e.2 c.shared (c.locals e.1) = (c.shared, .raised claim error) := by
    rw [he, hphase]
    rfl
  have hexecutes : (c.locals e.1).Executes := by
    rw [hphase]
    trivial
  have hsound := h.sound e.1
  rw [hphase] at hsound
  refine h.moved_on hstep rfl rfl (fun hback => by simp [hphase, Phase.Returned] at hback)
    (fun _ => Or.inl hexecutes.inFlight) ?_
  exact
    { own := hsound.own
      unwritten := hsound.unwritten
      stored := fun _ _ hstored => by simp at hstored }

/-- An exception of `fn` that `run` does not catch keeps the invariant. -/
theorem step_fnInterrupted (h : RaceInvariant call c) (he : e.2 = .fnInterrupted)
    {claim : Option ℚ} (hphase : c.locals e.1 = .executing claim) :
    RaceInvariant call (raceStep call c e) := by
  have hstep : call.step e.2 c.shared (c.locals e.1) = (c.shared, .finished .interrupted) := by
    rw [he, hphase]
    rfl
  exact h.moved_idle hstep rfl rfl (by simp [hphase, Phase.Returned])
    (Phase.not_inFlight_finished _)

/-- A statement of `run` keeps the invariant, if nobody races for the row. -/
theorem step_statement (h : RaceInvariant call c) (hguard : Guarded call c e)
    (he : e.2 = .statement) : RaceInvariant call (raceStep call c e) := by
  cases hphase : c.locals e.1 with
  | called =>
    have hstep : call.step e.2 c.shared (c.locals e.1) =
        (c.shared, .stamped c.shared.clock) := by
      rw [he, hphase]
      rfl
    exact h.moved_idle hstep rfl rfl (by simp [hphase, Phase.Returned])
      (by simp [Phase.InFlight, Phase.ownStamp, Phase.Unwritten])
  | stamped now => exact h.step_insert he hphase
  | inserted created now => exact h.step_read he hphase
  | hasRead created now record => exact h.step_check hguard he hphase
  | reclaiming =>
    have hsound := h.sound e.1
    have hflight : (c.locals e.1).InFlight := by
      rw [hphase]
      exact Or.inr trivial
    have hstep : call.step e.2 c.shared (c.locals e.1) =
        (c.shared, .touching c.shared.clock) := by
      rw [he, hphase]
      rfl
    refine h.moved_on hstep rfl rfl (fun hback => by simp [hphase, Phase.Returned] at hback)
      (fun _ => Or.inl hflight) ?_
    exact Phase.Sound.of_open rfl id (hsound.rowOpen hflight)
  | touching now => exact h.step_touch he hphase
  | executing claim => exact h.stayed (by rw [he, hphase]; rfl) rfl rfl
  | returned claim result => exact h.step_success he hphase
  | raised claim error => exact h.step_failed he hphase
  | finished outcome => exact h.stayed (by rw [he, hphase]; rfl) rfl rfl

/-- Every guarded step keeps the invariant. -/
theorem step (h : RaceInvariant call c) (hguard : Guarded call c e) :
    RaceInvariant call (raceStep call c e) := by
  obtain ⟨i, act⟩ := e
  cases act with
  | clock now => exact h.stayed rfl rfl rfl
  | statement => exact h.step_statement hguard rfl
  | fnReturns result =>
    cases hphase : c.locals i with
    | executing claim => exact h.step_fnReturns rfl (hguard.storable result rfl) hphase
    | _ => exact h.stayed (by simp only [hphase]; rfl) rfl rfl
  | fnRaises error =>
    cases hphase : c.locals i with
    | executing claim => exact h.step_fnRaises rfl hphase
    | _ => exact h.stayed (by simp only [hphase]; rfl) rfl rfl
  | fnInterrupted =>
    cases hphase : c.locals i with
    | executing claim => exact h.step_fnInterrupted rfl hphase
    | _ => exact h.stayed (by simp only [hphase]; rfl) rfl rfl

omit [DecidableEq Caller] in
/-- The invariant is about executions. -/
theorem executesOnce (h : RaceInvariant call c) : ExecutesOnce c :=
  ⟨fun i j hi hj => h.single i j hi.inFlight hj.inFlight, h.once⟩

end RaceInvariant

/-- From any row, a run of any number of callers has at most one of them in `fn` at any time,
and `fn` returns normally at most once, if no execution lasts as long as the lease, results
can be stored, and nobody races for a failed row or an expired lease. -/
theorem guarded_callers_execute_once (call : Call Result) (table : JobTable) (clock : ℚ)
    {es : List (Caller × Act Result)}
    (h : Meets (raceStep call) (Guarded call) (RaceState.start table clock) es) :
    Always (raceStep call) ExecutesOnce (RaceState.start table clock) es :=
  always_of_meets (RaceInvariant call) (fun _ => RaceInvariant.executesOnce)
    (fun _ _ hinv hguard => hinv.step hguard) (RaceInvariant.start call table clock) h

/-- A call without payload. -/
def sampleCall : Call String := ⟨"job", "null", 300, some⟩

/-- The row of the sample call in a status, last written at time zero. -/
def sampleRow (status : JobStatus) : JobTable :=
  UniqueTable.empty.put "job" ⟨status, sampleCall.inputHash, none, none, 0, 0, 0⟩

/-- A number of statements of one caller. -/
def statements (i : Bool) (n : ℕ) : List (Bool × Act String) := List.replicate n (i, .statement)

/-- Two callers read the row before either acts on it, and `fn` returns to both. -/
def racedRun : List (Bool × Act String) :=
  [statements false 3, statements true 3, statements false 3, statements true 3,
    [(false, .fnReturns "first"), (true, .fnReturns "second")]].flatten

/-- Two callers of a failed row are in `fn` at the same time, and it returns normally to both,
although the clock does not move. So are two callers of a row whose lease has run out. -/
theorem raced_callers_execute_twice :
    (∀ e ∈ racedRun, ∀ now, e.2 ≠ .clock now) ∧
    (¬Always (raceStep sampleCall) (AtMostOne Phase.Executes)
        (RaceState.start (sampleRow .failed) 300) racedRun ∧
      (exec (raceStep sampleCall) (RaceState.start (sampleRow .failed) 300)
        racedRun).shared.normalReturns = 2) ∧
    ¬Always (raceStep sampleCall) (AtMostOne Phase.Executes)
        (RaceState.start (sampleRow .pending) 300) racedRun ∧
      (exec (raceStep sampleCall) (RaceState.start (sampleRow .pending) 300)
        racedRun).shared.normalReturns = 2 := by
  refine ⟨by simp [racedRun, statements], ?_, ?_⟩
  · decide +kernel
  · decide +kernel

/-- One caller inserts the row and fails, and another one retries and succeeds. -/
def retriedRun : List (Bool × Act String) :=
  [statements false 4, [(false, .clock 400), (false, .fnRaises "boom")], statements false 1,
    statements true 4, [(true, .fnReturns "second")], statements true 1].flatten

/-- The retry is no race. -/
theorem retriedRun_executes_once :
    Always (raceStep sampleCall) ExecutesOnce (RaceState.start .empty 200) retriedRun :=
  guarded_callers_execute_once sampleCall .empty 200 (by decide +kernel)

end LedgerLens.Utils.IdempotencyLedger
