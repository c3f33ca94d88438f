import LedgerLens.Library.Interleaving
import Mathlib.Algebra.BigOperators.Group.List.Basic

/-!
# The privacy budget

`DPBudgetTracker` keeps the total epsilon spent in the latest row of a log. `_append` reads
that row, adds its epsilon and inserts the next row. Nothing holds the log between the read
and the insert. This file shows which interleavings of any number of processes keep the
total right.

There is one log; it has no column for a tenant. Amounts are exact.
-/

namespace LedgerLens.Detection

open Interleaving Transition

variable {E : Type*} {Process : Type*} [DecidableEq Process]

/-- `QueryKind`: what epsilon is spent on. -/
inductive QueryKind where
  /-- `"training"`. -/
  | training
  /-- `"inference"`. -/
  | inference
  deriving DecidableEq

/-- The column `kind`. -/
inductive BudgetEventKind where
  /-- A row that spends epsilon. -/
  | spend (kind : QueryKind)
  /-- `"rollover"`. -/
  | rollover
  deriving DecidableEq

/-- `DPBudgetEvent`, without its number and date. -/
structure DPBudgetEvent (E : Type*) where
  /-- What the row records. -/
  kind : BudgetEventKind
  /-- The model the epsilon was spent on. -/
  modelVersion : Option String
  /-- The kind of inference query. -/
  queryType : Option String
  /-- The epsilon spent; a rollover gives back what it read. -/
  epsilon : E
  /-- The delta spent. -/
  delta : Option E
  /-- The total after the row. -/
  cumulativeEpsilon : E
  /-- The hash of the row before. -/
  prevLogHash : String
  /-- The hash of this row. -/
  logHash : String
  deriving DecidableEq

/-- The public calls that write a row. -/
inductive BudgetCall (E : Type*) where
  /-- `_append`. -/
  | append (kind : QueryKind) (epsilon : E) (delta : Option E)
      (modelVersion queryType : Option String)
  /-- `rollover`. -/
  | rollover (operatorConfirmation newModelVersion : String)
  deriving DecidableEq

/-- `record_training_round`. -/
def recordTrainingRound (epsilon : E) (delta : Option E) (modelVersion : Option String) :
    BudgetCall E :=
  .append .training epsilon delta modelVersion none

/-- `record_inference_query`. -/
def recordInferenceQuery (epsilon : E) (queryType : String := "generic")
    (delta : Option E := none) : BudgetCall E :=
  .append .inference epsilon delta none (some queryType)

/-- Where a process stands. -/
inductive BudgetProcess (E : Type*) where
  /-- It is in no call. -/
  | idle
  /-- It has read the latest row and not yet inserted its own. -/
  | hasRead (call : BudgetCall E) (cumEps : E) (prevHash : String)
  /-- A rollover was refused. -/
  | refused (expected : String)
  deriving DecidableEq

/-- One step of a process. -/
inductive BudgetAct (E : Type*) where
  /-- It starts a call and reads the latest row. -/
  | read (call : BudgetCall E)
  /-- It inserts its row and commits, at a time. -/
  | insert (ts : String)
  /-- Its commit fails, or it dies. -/
  | fail

/-- The confirmation that `rollover` asks for. -/
def expectedConfirmation (newModelVersion : String) : String :=
  "CONFIRM_ROLLOVER_" ++ newModelVersion

variable [AddCommGroup E]

/-- `_cumulative_epsilon`. -/
def cumulativeEpsilon (log : List (DPBudgetEvent E)) : E × String :=
  match log.getLast? with
  | none => (0, "genesis")
  | some row => (row.cumulativeEpsilon, row.logHash)

/-- `_rdp_compose`. -/
def rdpCompose (epsilons : List E) : E := epsilons.sum

section Program

variable (entryHash : String → BudgetEventKind → E → E → String → String)

/-- The row that a call inserts after what it has read. -/
def newRow (cumEps : E) (prevHash ts : String) : BudgetCall E → DPBudgetEvent E
  | .append kind epsilon delta modelVersion queryType =>
    let newCum := rdpCompose [cumEps, epsilon]
    ⟨.spend kind, modelVersion, queryType, epsilon, delta, newCum, prevHash,
      entryHash prevHash (.spend kind) epsilon newCum ts⟩
  | .rollover _ newModelVersion =>
    ⟨.rollover, some newModelVersion, none, -cumEps, none, 0, prevHash,
      entryHash prevHash .rollover (-cumEps) 0 ts⟩

/-- One step of a process over the log. -/
def budgetStep (act : BudgetAct E) (log : List (DPBudgetEvent E)) (p : BudgetProcess E) :
    List (DPBudgetEvent E) × BudgetProcess E :=
  match act, p with
  | .read _, .hasRead call cumEps prevHash => (log, .hasRead call cumEps prevHash)
  | .read (.rollover operatorConfirmation newModelVersion), _ =>
    if operatorConfirmation ≠ expectedConfirmation newModelVersion then
      (log, .refused (expectedConfirmation newModelVersion))
    else
      (log, .hasRead (.rollover operatorConfirmation newModelVersion) (cumulativeEpsilon log).1
        (cumulativeEpsilon log).2)
  | .read call, _ => (log, .hasRead call (cumulativeEpsilon log).1 (cumulativeEpsilon log).2)
  | .insert ts, .hasRead call cumEps prevHash =>
    (log ++ [newRow entryHash cumEps prevHash ts call], .idle)
  | .insert _, p => (log, p)
  | .fail, _ => (log, .idle)

/-- One step of the process that the event names. -/
def budgetStepAt (c : Config Process (List (DPBudgetEvent E)) (BudgetProcess E))
    (e : Process × BudgetAct E) : Config Process (List (DPBudgetEvent E)) (BudgetProcess E) :=
  stepAt (budgetStep entryHash) c e

end Program

/-- The epsilon of the spend rows after the last rollover. -/
def spentSinceRollover (log : List (DPBudgetEvent E)) : E :=
  ((log.reverse.takeWhile fun row => row.kind ≠ .rollover).map DPBudgetEvent.epsilon).sum

/-- The latest row has the right total: no spend is lost from it. -/
def TotalRight (log : List (DPBudgetEvent E)) : Prop :=
  (cumulativeEpsilon log).1 = spentSinceRollover log

/-- When a process inserts the row of a spend, the latest row has the total that it read. -/
def InsertsOnLatest (c : Config Process (List (DPBudgetEvent E)) (BudgetProcess E))
    (e : Process × BudgetAct E) : Prop :=
  ∀ ts kind epsilon delta modelVersion queryType cumEps prevHash, e.2 = .insert ts →
    c.locals e.1 = .hasRead (.append kind epsilon delta modelVersion queryType) cumEps prevHash →
      (cumulativeEpsilon c.shared).1 = cumEps

/-- A spend adds to the total, a rollover starts a new one. -/
theorem spentSinceRollover_snoc (log : List (DPBudgetEvent E)) (row : DPBudgetEvent E) :
    spentSinceRollover (log ++ [row]) =
      if row.kind = .rollover then 0 else row.epsilon + spentSinceRollover log := by
  unfold spentSinceRollover
  rw [List.reverse_append, List.reverse_singleton, List.singleton_append, List.takeWhile_cons]
  by_cases h : row.kind = .rollover
  · simp [h]
  · simp [h]

@[simp] theorem cumulativeEpsilon_snoc (log : List (DPBudgetEvent E)) (row : DPBudgetEvent E) :
    cumulativeEpsilon (log ++ [row]) = (row.cumulativeEpsilon, row.logHash) := by
  simp [cumulativeEpsilon]

section Rows

variable {entryHash : String → BudgetEventKind → E → E → String → String}
  {log : List (DPBudgetEvent E)} {cumEps : E} {prevHash ts : String}

/-- The row of a rollover has the right total, whatever was read. -/
theorem totalRight_rollover (confirmation version : String) :
    TotalRight (log ++ [newRow entryHash cumEps prevHash ts (.rollover confirmation version)]) := by
  unfold TotalRight
  rw [cumulativeEpsilon_snoc, spentSinceRollover_snoc]
  simp [newRow]

/-- After a log with the right total, the row of a spend has the right total exactly when the
latest row has the total that was read. -/
theorem totalRight_spend_iff (h : TotalRight log) (kind : QueryKind) (epsilon : E)
    (delta : Option E) (modelVersion queryType : Option String) :
    TotalRight (log ++ [newRow entryHash cumEps prevHash ts
        (.append kind epsilon delta modelVersion queryType)]) ↔
      (cumulativeEpsilon log).1 = cumEps := by
  have hnew : TotalRight (log ++ [newRow entryHash cumEps prevHash ts
      (.append kind epsilon delta modelVersion queryType)]) ↔
        cumEps + epsilon = epsilon + spentSinceRollover log := by
    unfold TotalRight
    rw [cumulativeEpsilon_snoc, spentSinceRollover_snoc]
    simp [newRow, rdpCompose]
  rw [hnew, add_comm epsilon, add_left_inj, ← h, eq_comm]

end Rows

section Steps

variable {entryHash : String → BudgetEventKind → E → E → String → String}
  {c : Config Process (List (DPBudgetEvent E)) (BudgetProcess E)} {e : Process × BudgetAct E}

/-- A process that has read inserts the row of its call. -/
theorem budgetStepAt_insert {ts : String} {call : BudgetCall E} {cumEps : E} {prevHash : String}
    (hact : e.2 = .insert ts) (hlocal : c.locals e.1 = .hasRead call cumEps prevHash) :
    (budgetStepAt entryHash c e).shared =
      c.shared ++ [newRow entryHash cumEps prevHash ts call] := by
  unfold budgetStepAt
  rw [stepAt_shared, hact, hlocal]
  rfl

/-- The other steps write nothing. -/
theorem budgetStepAt_other (h : ∀ ts call cumEps prevHash, e.2 = .insert ts →
    c.locals e.1 ≠ .hasRead call cumEps prevHash) :
    (budgetStepAt entryHash c e).shared = c.shared := by
  unfold budgetStepAt
  rw [stepAt_shared]
  cases hact : e.2 with
  | fail => rfl
  | insert ts =>
    cases hlocal : c.locals e.1 with
    | hasRead call cumEps prevHash => exact absurd hlocal (h ts call cumEps prevHash hact)
    | idle => rfl
    | refused expected => rfl
  | read call =>
    unfold budgetStep
    split
    · rfl
    · split_ifs <;> rfl
    · rfl
    · contradiction
    · contradiction
    · rfl

/-- A step keeps the total right exactly when it does not insert the row of a spend after
another total than the one read. -/
theorem totalRight_step_iff (h : TotalRight c.shared) :
    TotalRight (budgetStepAt entryHash c e).shared ↔ InsertsOnLatest c e := by
  by_cases hinserts : ∃ ts call cumEps prevHash, e.2 = .insert ts ∧
      c.locals e.1 = .hasRead call cumEps prevHash
  · obtain ⟨ts, call, cumEps, prevHash, hact, hlocal⟩ := hinserts
    rw [budgetStepAt_insert hact hlocal]
    cases call with
    | rollover confirmation version =>
      refine iff_of_true (totalRight_rollover confirmation version) ?_
      intro ts' kind epsilon delta modelVersion queryType cumEps' prevHash' _ hother
      rw [hlocal] at hother
      cases hother
    | append kind epsilon delta modelVersion queryType =>
      rw [totalRight_spend_iff h]
      constructor
      · intro hlatest ts' _ _ _ _ _ cumEps' _ _ hother
        rw [hlocal] at hother
        cases hother
        exact hlatest
      · intro hlatest
        exact hlatest ts kind epsilon delta modelVersion queryType cumEps prevHash hact hlocal
  · have hother : ∀ ts call cumEps prevHash, e.2 = .insert ts →
        c.locals e.1 ≠ .hasRead call cumEps prevHash :=
      fun ts call cumEps prevHash hact hlocal =>
        hinserts ⟨ts, call, cumEps, prevHash, hact, hlocal⟩
    rw [budgetStepAt_other hother]
    refine iff_of_true h ?_
    intro ts kind epsilon delta modelVersion queryType cumEps prevHash hact hlocal
    exact absurd hlocal (hother ts _ cumEps prevHash hact)

end Steps

/-- Any number of processes run calls, their steps interleaved in any order. The latest row
always has the right total exactly when it has it at the start and every row of a spend is
inserted after the total that its process read. -/
theorem total_always_right_iff (entryHash : String → BudgetEventKind → E → E → String → String)
    (c : Config Process (List (DPBudgetEvent E)) (BudgetProcess E))
    (es : List (Process × BudgetAct E)) :
    Always (budgetStepAt entryHash) (fun c => TotalRight c.shared) c es ↔
      TotalRight c.shared ∧ Meets (budgetStepAt entryHash) InsertsOnLatest c es := by
  have hexact : TotalRight c.shared →
      (Always (budgetStepAt entryHash) (fun c => TotalRight c.shared) c es ↔
        Meets (budgetStepAt entryHash) InsertsOnLatest c es) := by
    intro h
    exact always_iff_meets
      (fun c : Config Process (List (DPBudgetEvent E)) (BudgetProcess E) => TotalRight c.shared)
      (fun _ hright => hright)
      (fun _ _ hright hcond => (totalRight_step_iff hright).mpr hcond)
      (fun _ _ hright hnot => mt (totalRight_step_iff hright).mp hnot) h es
  constructor
  · intro halways
    exact ⟨halways.head, (hexact halways.head).mp halways⟩
  · rintro ⟨h, hmeets⟩
    exact (hexact h).mpr hmeets

/-- Two processes are in no call, over an empty log. -/
def emptyBudget : Config Bool (List (DPBudgetEvent ℤ)) (BudgetProcess ℤ) := ⟨[], fun _ => .idle⟩

/-- Two inference queries of one epsilon each: both read before either inserts. -/
def overlappingQueries : List (Bool × BudgetAct ℤ) :=
  [(false, .read (recordInferenceQuery 1)), (true, .read (recordInferenceQuery 1)),
    (false, .insert "2026-01-01T00:00:00+00:00"), (true, .insert "2026-01-01T00:00:01+00:00")]

/-- One of the two is lost from the total. -/
theorem overlapping_query_lost :
    ¬Always (budgetStepAt fun _ _ _ _ ts => ts) (fun c => TotalRight c.shared) emptyBudget
      overlappingQueries := by
  intro h
  have hlast : TotalRight
      (exec (budgetStepAt fun _ _ _ _ ts => ts) emptyBudget overlappingQueries).shared := h.last
  revert hlast
  unfold TotalRight
  decide

end LedgerLens.Detection
