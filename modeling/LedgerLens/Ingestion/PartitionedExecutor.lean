import LedgerLens.Library.Runs
import Mathlib.Algebra.Order.BigOperators.Group.List
import Mathlib.Algebra.Order.Field.Basic
import Mathlib.Algebra.Order.Ring.Rat
import Mathlib.Algebra.Field.Rat
import Mathlib.Data.List.Perm.Basic
import Mathlib.Logic.Function.Basic

/-!
# The partitioned executor

`PartitionedExecutor` has one pool of workers for each category of tasks, so that a category that is
slow cannot take the workers of another one. One thread gives the tasks, and the workers of all
pools take their steps in any order.
-/

namespace LedgerLens.Ingestion.Partitioned

open Transition

/-- How a task ends: it gives a result, raises an `Exception`, or raises another `BaseException`. -/
inductive Outcome where
  | ok
  | exception
  | other
  deriving DecidableEq

/-- `CategoryMetrics`. -/
structure CategoryMetrics (K : Type) where
  queued : ℤ := 0
  inFlight : ℤ := 0
  completed : ℕ := 0
  failed : ℕ := 0
  durations : List K := []

/-- `snapshot`. -/
structure Snapshot (K : Type) where
  queueDepth : ℤ
  inFlight : ℤ
  completed : ℕ
  failed : ℕ
  avgDuration : K
  maxDuration : K

/-- `CategoryMetrics.snapshot`. -/
def CategoryMetrics.snapshot {K : Type} [Field K] [LinearOrder K] (m : CategoryMetrics K) :
    Snapshot K where
  queueDepth := m.queued
  inFlight := m.inFlight
  completed := m.completed
  failed := m.failed
  avgDuration := if m.durations = [] then 0 else m.durations.sum / m.durations.length
  maxDuration := m.durations.max?.getD 0

/-- `PartitionedExecutor`. -/
structure PartitionedExecutor (C : Type) where
  categoryLimits : C → Option ℤ
  defaultLimit : ℤ

/-- A `ThreadPoolExecutor` of one category. -/
structure Pool (K : Type) where
  maxWorkers : ℕ
  /-- How many tasks it was given. -/
  given : ℕ
  /-- The tasks that no worker has taken. -/
  queue : List ℕ
  /-- The tasks that a worker has taken, but not counted yet. -/
  taken : List ℕ
  /-- The tasks that a worker is at, and since when. -/
  running : List (ℕ × K)
  /-- The tasks that are done. -/
  finished : List ℕ
  /-- `shutdown` was called. -/
  closed : Bool

/-- The executor, the caller and the pools. -/
structure State (C K : Type) where
  pools : C → Option (Pool K)
  metrics : C → Option (CategoryMetrics K)
  /-- The category in which the caller is giving a task. -/
  giving : Option C
  /-- How many calls of `submit` have raised. -/
  refused : C → ℕ

/-- The steps of the system. -/
inductive Event (C K : Type) where
  /-- The caller counts a task as queued. -/
  | submit (c : C)
  /-- The caller gives the task to the pool. -/
  | enqueue (c : C)
  | shutdown
  /-- A worker takes a task. -/
  | take (c : C)
  /-- A worker begins with a task. -/
  | begin (c : C) (id : ℕ) (now : K)
  | finish (c : C) (id : ℕ) (outcome : Outcome) (now : K)
  deriving DecidableEq

variable {C K : Type} [DecidableEq C]

/-- The number of workers of a category. -/
def PartitionedExecutor.limit (x : PartitionedExecutor C) (c : C) : ℤ :=
  (x.categoryLimits c).getD x.defaultLimit

/-- The executor as it is made. -/
def State.init : State C K where
  pools _ := none
  metrics _ := none
  giving := none
  refused _ := 0

/-- `_metrics[c]`. -/
def State.metricsOf (s : State C K) (c : C) : CategoryMetrics K := (s.metrics c).getD {}

def State.setMetrics (s : State C K) (c : C) (m : CategoryMetrics K) : State C K :=
  { s with metrics := Function.update s.metrics c (some m) }

def State.setPool (s : State C K) (c : C) (p : Pool K) : State C K :=
  { s with pools := Function.update s.pools c (some p) }

/-- A pool that was given one more task. -/
def Pool.submit (p : Pool K) : Pool K :=
  { p with given := p.given + 1, queue := p.queue ++ [p.given] }

/-- `_pool`. With less than one worker the constructor of the pool raises a `ValueError`. -/
def PartitionedExecutor.pool (x : PartitionedExecutor C) (s : State C K) (c : C) :
    Option (Pool K) :=
  match s.pools c with
  | some p => some p
  | none =>
    if x.limit c ≤ 0 then none
    else some
      { maxWorkers := (x.limit c).toNat
        given := 0
        queue := []
        taken := []
        running := []
        finished := []
        closed := false }

/-- What becomes of the counts when a task is done. After a `BaseException` that is no `Exception`,
`ok` has no value, and to ask for it raises. -/
def CategoryMetrics.finish (m : CategoryMetrics K) (outcome : Outcome) (duration : K) :
    CategoryMetrics K :=
  let m := { m with inFlight := m.inFlight - 1, durations := m.durations ++ [duration] }
  match outcome with
  | .ok => { m with completed := m.completed + 1 }
  | .exception => { m with failed := m.failed + 1 }
  | .other => m

/-- A call of `submit` raises. The task stays counted as queued. -/
def State.refuse (s : State C K) (c : C) : State C K :=
  { s with giving := none, refused := Function.update s.refused c (s.refused c + 1) }

/-- A step of the system. -/
def step [Sub K] (x : PartitionedExecutor C) (s : State C K) : Event C K → State C K
  | .submit c =>
    let m := s.metricsOf c
    { s.setMetrics c { m with queued := m.queued + 1 } with giving := some c }
  | .enqueue c =>
    match x.pool s c with
    | none => s.refuse c
    -- a pool that is shut down takes no task, and it is not made anew
    | some p => if p.closed then s.refuse c else { s with giving := none }.setPool c p.submit
  | .shutdown =>
    { s with pools := fun c => (s.pools c).map fun p => { p with closed := true } }
  | .take c =>
    match s.pools c with
    | none => s
    | some p =>
      s.setPool c { p with queue := p.queue.tail, taken := p.taken ++ p.queue.head?.toList }
  | .begin c id now =>
    match s.pools c with
    | none => s
    | some p =>
      let m := s.metricsOf c
      (s.setMetrics c { m with queued := m.queued - 1, inFlight := m.inFlight + 1 }).setPool c
        { p with taken := p.taken.erase id, running := p.running ++ [(id, now)] }
  | .finish c id outcome now =>
    match s.pools c with
    | none => s
    | some p =>
      match p.running.find? (·.1 = id) with
      | none => s
      | some (_, start) =>
        (s.setMetrics c ((s.metricsOf c).finish outcome (now - start))).setPool c
          { p with
            running := p.running.eraseP (·.1 = id)
            finished := p.finished ++ [id] }

/-- A step can be taken. -/
def Enabled (s : State C K) : Event C K → Prop
  | .submit _ => s.giving = none
  | .enqueue c => s.giving = some c
  | .shutdown => s.giving = none
  | .take c => ∃ p, s.pools c = some p ∧ p.queue ≠ [] ∧
      p.taken.length + p.running.length < p.maxWorkers
  | .begin c id _ => ∃ p, s.pools c = some p ∧ id ∈ p.taken
  | .finish c id _ _ => ∃ p, s.pools c = some p ∧ id ∈ p.running.map Prod.fst

/-- The steps until now. -/
def Runs [Sub K] (x : PartitionedExecutor C) (es : List (Event C K)) : Prop :=
  Meets (step x) Enabled State.init es

/-- The state after some steps. -/
def after [Sub K] (x : PartitionedExecutor C) (es : List (Event C K)) : State C K :=
  exec (step x) State.init es

section Isolation

/-- The event is one of a category. A shutdown is one of all. -/
def Event.concerns (c : C) : Event C K → Bool
  | .submit c' => c' = c
  | .enqueue c' => c' = c
  | .shutdown => true
  | .take c' => c' = c
  | .begin c' _ _ => c' = c
  | .finish c' _ _ _ => c' = c

/-- What there is of a category. -/
structure View (K : Type) where
  pool : Option (Pool K)
  metrics : Option (CategoryMetrics K)
  giving : Prop
  refused : ℕ

def State.view (s : State C K) (c : C) : View K where
  pool := s.pools c
  metrics := s.metrics c
  giving := s.giving = some c
  refused := s.refused c

variable [Sub K] {x x' : PartitionedExecutor C} {c : C} {s s' : State C K} {e : Event C K}

/-- A step of another category changes nothing of this one. -/
theorem view_step_of_not_concerns (hother : e.concerns c = false) (henabled : Enabled s e) :
    (step x s e).view c = s.view c := by
  cases e with
  | shutdown => cases hother
  | submit c' =>
    have hne : c ≠ c' := by rintro rfl; simp [Event.concerns] at hother
    have hidle : s.giving = none := henabled
    simp [State.view, step, State.setMetrics, Function.update_of_ne hne, hidle, hne.symm]
  | enqueue c' =>
    have hne : c ≠ c' := by rintro rfl; simp [Event.concerns] at hother
    have hgiving : s.giving = some c' := henabled
    simp only [State.view, step]
    split
    · simp [State.refuse, Function.update_of_ne hne, hgiving, hne.symm]
    · split_ifs
      · simp [State.refuse, Function.update_of_ne hne, hgiving, hne.symm]
      · simp [State.setPool, Function.update_of_ne hne, hgiving, hne.symm]
  | take c' =>
    have hne : c ≠ c' := by rintro rfl; simp [Event.concerns] at hother
    simp only [State.view, step]
    split
    · rfl
    · simp [State.setPool, Function.update_of_ne hne]
  | begin c' id now =>
    have hne : c ≠ c' := by rintro rfl; simp [Event.concerns] at hother
    simp only [State.view, step]
    split
    · rfl
    · simp [State.setPool, State.setMetrics, Function.update_of_ne hne]
  | finish c' id outcome now =>
    have hne : c ≠ c' := by rintro rfl; simp [Event.concerns] at hother
    simp only [State.view, step]
    split
    · rfl
    · split
      · rfl
      · simp [State.setPool, State.setMetrics, Function.update_of_ne hne]

/-- A step of a category depends on nothing else. -/
theorem view_step_of_concerns (hlimit : x.limit c = x'.limit c) (hown : e.concerns c = true)
    (hview : s.view c = s'.view c) : (step x s e).view c = (step x' s' e).view c := by
  have hpool : s.pools c = s'.pools c := congrArg View.pool hview
  have hmetrics : s.metrics c = s'.metrics c := congrArg View.metrics hview
  have hgiving : (s.giving = some c) = (s'.giving = some c) := congrArg View.giving hview
  have hrefused : s.refused c = s'.refused c := congrArg View.refused hview
  have hof : s.metricsOf c = s'.metricsOf c := by rw [State.metricsOf, State.metricsOf, hmetrics]
  cases e with
  | shutdown => simp [State.view, step, hpool, hmetrics, hgiving, hrefused]
  | submit c' =>
    obtain rfl : c' = c := by simpa [Event.concerns] using hown
    simp [State.view, step, State.setMetrics, hpool, hof, hrefused]
  | enqueue c' =>
    obtain rfl : c' = c := by simpa [Event.concerns] using hown
    have hget : x.pool s c' = x'.pool s' c' := by
      simp only [PartitionedExecutor.pool, hpool, hlimit]
    simp only [State.view, step, hget]
    split
    · simp [State.refuse, hpool, hmetrics, hrefused]
    · split_ifs
      · simp [State.refuse, hpool, hmetrics, hrefused]
      · simp [State.setPool, hmetrics, hrefused]
  | take c' =>
    obtain rfl : c' = c := by simpa [Event.concerns] using hown
    simp only [State.view, step, ← hpool]
    cases hcases : s.pools c' with
    | none => simp [hcases, ← hpool, hmetrics, hgiving, hrefused]
    | some p => simp [State.setPool, hmetrics, hgiving, hrefused]
  | begin c' id now =>
    obtain rfl : c' = c := by simpa [Event.concerns] using hown
    simp only [State.view, step, ← hpool]
    cases hcases : s.pools c' with
    | none => simp [hcases, ← hpool, hmetrics, hgiving, hrefused]
    | some p => simp [State.setPool, State.setMetrics, hof, hgiving, hrefused]
  | finish c' id outcome now =>
    obtain rfl : c' = c := by simpa [Event.concerns] using hown
    simp only [State.view, step, ← hpool]
    cases hcases : s.pools c' with
    | none => simp [hcases, ← hpool, hmetrics, hgiving, hrefused]
    | some p =>
      cases hfind : p.running.find? (·.1 = id) with
      | none => simp [hfind, hcases, ← hpool, hmetrics, hgiving, hrefused]
      | some task => simp [hfind, State.setPool, State.setMetrics, hof, hgiving, hrefused]

/-- Whether a worker can take a step depends on its category alone. -/
def Event.worker : Event C K → Bool
  | .take _ => true
  | .begin _ _ _ => true
  | .finish _ _ _ _ => true
  | _ => false

omit [Sub K] in
theorem enabled_worker_iff (hworker : e.worker = true) (hown : e.concerns c = true)
    (hview : s.view c = s'.view c) : Enabled s e ↔ Enabled s' e := by
  have hpool : s.pools c = s'.pools c := congrArg View.pool hview
  cases e with
  | submit c' => cases hworker
  | enqueue c' => cases hworker
  | shutdown => cases hworker
  | take c' =>
    obtain rfl : c' = c := by simpa [Event.concerns] using hown
    simp only [Enabled, hpool]
  | begin c' id now =>
    obtain rfl : c' = c := by simpa [Event.concerns] using hown
    simp only [Enabled, hpool]
  | finish c' id outcome now =>
    obtain rfl : c' = c := by simpa [Event.concerns] using hown
    simp only [Enabled, hpool]

omit [Sub K] in
/-- Alone, the caller can do at least what it can do among others. -/
theorem enabled_of_view (hown : e.concerns c = true) (hview : s.view c = s'.view c)
    (hgiving : s'.giving = none ∨ s'.giving = some c) (henabled : Enabled s e) : Enabled s' e := by
  have hsame : s.giving = some c ↔ s'.giving = some c := iff_of_eq (congrArg View.giving hview)
  cases e with
  | submit c' | shutdown =>
    have hidle : s.giving = none := henabled
    refine hgiving.resolve_right fun h => ?_
    rw [hsame.mpr h] at hidle
    cases hidle
  | enqueue c' =>
    obtain rfl : c' = c := by simpa [Event.concerns] using hown
    exact hsame.mp henabled
  | take c' => exact (enabled_worker_iff rfl hown hview).mp henabled
  | begin c' id now => exact (enabled_worker_iff rfl hown hview).mp henabled
  | finish c' id outcome now => exact (enabled_worker_iff rfl hown hview).mp henabled

/-- Alone, the caller gives tasks of the category only. -/
theorem giving_step (hown : e.concerns c = true)
    (hgiving : s.giving = none ∨ s.giving = some c) :
    (step x s e).giving = none ∨ (step x s e).giving = some c := by
  cases e with
  | submit c' =>
    obtain rfl : c' = c := by simpa [Event.concerns] using hown
    exact Or.inr rfl
  | enqueue c' =>
    left
    simp only [step]
    split
    · rfl
    · split_ifs <;> rfl
  | shutdown => exact hgiving
  | take c' | begin c' id now =>
    simp only [step]
    split <;> exact hgiving
  | finish c' id outcome now =>
    simp only [step]
    split
    · exact hgiving
    · split <;> exact hgiving

/-- One run has the steps of all categories, and the other those of one. -/
def Alone (c : C) (s s' : State C K) : Prop :=
  s.view c = s'.view c ∧ (s'.giving = none ∨ s'.giving = some c)

theorem Alone.own (hlimit : x.limit c = x'.limit c) (hown : e.concerns c = true)
    (h : Alone c s s') (henabled : Enabled s e) :
    Enabled s' e ∧ Alone c (step x s e) (step x' s' e) :=
  ⟨enabled_of_view hown h.1 h.2 henabled, view_step_of_concerns hlimit hown h.1,
    giving_step hown h.2⟩

theorem Alone.other (hother : e.concerns c = false) (h : Alone c s s') (henabled : Enabled s e) :
    Alone c (step x s e) s' :=
  ⟨(view_step_of_not_concerns hother henabled).trans h.1, h.2⟩

end Isolation

/-- No category has an effect on another one. In every run, what becomes of the tasks and the counts
of a category is what becomes of them if only its own steps are taken, those can be taken alone, and
its workers can go on exactly if they can then; whatever the tasks, the failures and the limits of
the other categories are. -/
theorem category_isolation [Sub K] (x x' : PartitionedExecutor C) (c : C)
    (hlimit : x.limit c = x'.limit c) (es : List (Event C K)) (hruns : Runs x es) :
    Runs x' (es.filter (Event.concerns c)) ∧
    (after x es).view c = (after x' (es.filter (Event.concerns c))).view c ∧
    ∀ e : Event C K, e.worker = true → e.concerns c = true →
      (Enabled (after x es) e ↔ Enabled (after x' (es.filter (Event.concerns c))) e) := by
  have hboth : Runs x' (es.filter (Event.concerns c)) ∧
      Alone c (after x es) (after x' (es.filter (Event.concerns c))) :=
    exec_filter_of_meets (Alone c) (Event.concerns c)
      (fun _ _ _ hown h henabled => h.own hlimit hown henabled)
      (fun _ _ _ hother h henabled => h.other hother henabled) ⟨rfl, Or.inl rfl⟩ hruns
  obtain ⟨halone, hview, -⟩ := hboth
  exact ⟨halone, hview, fun e hworker hown => enabled_worker_iff hworker hown hview⟩

section Accounting

/-- The event is a call of `submit` for the category. -/
def Event.submits (c : C) : Event C K → Bool
  | .submit c' => c' = c
  | _ => false

/-- How a task of the category ends with the event, if one does. -/
def Event.ends (c : C) : Event C K → Option Outcome
  | .finish c' _ outcome _ => if c' = c then some outcome else none
  | _ => none

/-- The pool of a category, or one without tasks. -/
def State.poolOf (s : State C K) (c : C) : Pool K :=
  (s.pools c).getD ⟨0, 0, [], [], [], [], false⟩

/-- How many calls of `submit` are not through. -/
def State.entering (s : State C K) (c : C) : ℕ := if s.giving = some c then 1 else 0

/-- The books of a category. -/
structure Books (x : PartitionedExecutor C) (c : C) (s : State C K) : Prop where
  queued : (s.metricsOf c).queued = (s.poolOf c).queue.length + (s.poolOf c).taken.length +
    s.entering c + s.refused c
  inFlight : (s.metricsOf c).inFlight = (s.poolOf c).running.length
  ended : (s.metricsOf c).durations.length = (s.poolOf c).finished.length
  /-- The pool has each task once. -/
  once : ((s.poolOf c).queue ++ (s.poolOf c).taken ++ (s.poolOf c).running.map Prod.fst ++
    (s.poolOf c).finished).Perm (List.range (s.poolOf c).given)
  workers : (s.poolOf c).taken.length + (s.poolOf c).running.length ≤ (x.limit c).toNat
  maxWorkers : ∀ p, s.pools c = some p → p.maxWorkers = (x.limit c).toNat

variable {x : PartitionedExecutor C} {c : C} {s : State C K} {e : Event C K}

theorem Books.init : Books x c (State.init : State C K) where
  queued := rfl
  inFlight := rfl
  ended := rfl
  once := .refl _
  workers := Nat.zero_le _
  maxWorkers p h := by cases h

/-- The books of a category are about what there is of it. -/
theorem Books.of_view {s' : State C K} (hb : Books x c s) (hview : s'.view c = s.view c) :
    Books x c s' := by
  have hpool : s'.pools c = s.pools c := congrArg View.pool hview
  have hmetrics : s'.metrics c = s.metrics c := congrArg View.metrics hview
  have hgiving : s'.giving = some c ↔ s.giving = some c := iff_of_eq (congrArg View.giving hview)
  have hrefused : s'.refused c = s.refused c := congrArg View.refused hview
  have hof : s'.metricsOf c = s.metricsOf c := by rw [State.metricsOf, State.metricsOf, hmetrics]
  have hpoolOf : s'.poolOf c = s.poolOf c := by rw [State.poolOf, State.poolOf, hpool]
  have hentering : s'.entering c = s.entering c := by
    simp only [State.entering, hgiving]
  exact ⟨by rw [hof, hpoolOf, hentering, hrefused]; exact hb.queued,
    by rw [hof, hpoolOf]; exact hb.inFlight, by rw [hof, hpoolOf]; exact hb.ended,
    by rw [hpoolOf]; exact hb.once, by rw [hpoolOf]; exact hb.workers,
    by rw [hpool]; exact hb.maxWorkers⟩

@[simp] theorem poolOf_setPool (s : State C K) (c : C) (p : Pool K) :
    (s.setPool c p).poolOf c = p := by
  simp [State.poolOf, State.setPool]

@[simp] theorem poolOf_setMetrics (s : State C K) (c c' : C) (m : CategoryMetrics K) :
    (s.setMetrics c m).poolOf c' = s.poolOf c' := rfl

@[simp] theorem metricsOf_setMetrics (s : State C K) (c : C) (m : CategoryMetrics K) :
    (s.setMetrics c m).metricsOf c = m := by
  simp [State.metricsOf, State.setMetrics]

@[simp] theorem metricsOf_setPool (s : State C K) (c c' : C) (p : Pool K) :
    (s.setPool c p).metricsOf c' = s.metricsOf c' := rfl

theorem maxWorkers_setPool {n : ℕ} {p : Pool K} (h : p.maxWorkers = n) (q : Pool K)
    (hq : (s.setPool c p).pools c = some q) : q.maxWorkers = n := by
  simp only [State.setPool, Function.update_self, Option.some.injEq] at hq
  rw [← hq]
  exact h

omit [DecidableEq C] in
theorem poolOf_of_some {p : Pool K} (h : s.pools c = some p) : s.poolOf c = p := by
  rw [State.poolOf, h, Option.getD_some]

theorem Books.submit [Sub K] (hb : Books x c s) (henabled : Enabled s (.submit c)) :
    Books x c (step x s (.submit c)) := by
  have hidle : s.giving = none := henabled
  have hqueued := hb.queued
  have hpool : (step x s (.submit c)).poolOf c = s.poolOf c := rfl
  have hmetrics : (step x s (.submit c)).metricsOf c =
      { s.metricsOf c with queued := (s.metricsOf c).queued + 1 } := metricsOf_setMetrics _ _ _
  have hbefore : s.entering c = 0 := by simp [State.entering, hidle]
  have hafter : (step x s (.submit c)).entering c = 1 := by simp [State.entering, step]
  refine ⟨?_, ?_, ?_, ?_, ?_, hb.maxWorkers⟩ <;> rw [hpool]
  · rw [hmetrics, hafter]
    change (s.metricsOf c).queued + 1 = _ + _ + 1 + (s.refused c : ℤ)
    omega
  · rw [hmetrics]
    exact hb.inFlight
  · rw [hmetrics]
    exact hb.ended
  · exact hb.once
  · exact hb.workers

/-- A pool that is found is the one that there is, or a new one. -/
theorem pool_eq_some {p : Pool K} (h : x.pool s c = some p) :
    p = { s.poolOf c with maxWorkers := p.maxWorkers } ∧
      (Books x c s → p.maxWorkers = (x.limit c).toNat) := by
  unfold PartitionedExecutor.pool at h
  cases hpool : s.pools c with
  | some q =>
    rw [hpool] at h
    cases h
    exact ⟨by rw [poolOf_of_some hpool], fun hb => hb.maxWorkers p hpool⟩
  | none =>
    rw [hpool] at h
    simp only at h
    split_ifs at h with hlimit
    cases h
    exact ⟨by rw [State.poolOf, hpool]; rfl, fun _ => rfl⟩

/-- The pool takes the task, or the call raises. -/
theorem enqueue_cases [Sub K] (x : PartitionedExecutor C) (s : State C K) (c : C) :
    step x s (.enqueue c) = s.refuse c ∨
      ∃ p, x.pool s c = some p ∧
        step x s (.enqueue c) = { s with giving := none }.setPool c p.submit := by
  simp only [step]
  cases hpool : x.pool s c with
  | none => exact Or.inl rfl
  | some p =>
    simp only
    split_ifs
    · exact Or.inl rfl
    · exact Or.inr ⟨p, rfl, rfl⟩

theorem Books.refuse (hb : Books x c s) (hgiving : s.giving = some c) :
    Books x c (s.refuse c) := by
  have hqueued := hb.queued
  have hbefore : s.entering c = 1 := by simp [State.entering, hgiving]
  refine ⟨?_, hb.inFlight, hb.ended, hb.once, hb.workers, hb.maxWorkers⟩
  simp only [State.refuse, State.entering, Function.update_self]
  change (s.metricsOf c).queued =
    (s.poolOf c).queue.length + (s.poolOf c).taken.length + 0 + _
  push_cast
  omega

theorem Books.enqueue [Sub K] (hb : Books x c s) (henabled : Enabled s (.enqueue c)) :
    Books x c (step x s (.enqueue c)) := by
  have hgiving : s.giving = some c := henabled
  have hqueued := hb.queued
  have hbefore : s.entering c = 1 := by simp [State.entering, hgiving]
  rcases enqueue_cases x s c with hstep | ⟨p, hpool, hstep⟩
  · rw [hstep]
    exact hb.refuse hgiving
  rw [hstep]
  obtain ⟨hsame, hmax⟩ := pool_eq_some hpool
  have hqueue : p.submit.queue = (s.poolOf c).queue ++ [(s.poolOf c).given] := by
    rw [hsame]
    rfl
  have htaken : p.submit.taken = (s.poolOf c).taken := by
    rw [hsame]
    rfl
  have hrunning : p.submit.running = (s.poolOf c).running := by
    rw [hsame]
    rfl
  have hfinished : p.submit.finished = (s.poolOf c).finished := by
    rw [hsame]
    rfl
  have hgiven : p.submit.given = (s.poolOf c).given + 1 := by
    rw [hsame]
    rfl
  refine ⟨?_, ?_, ?_, ?_, ?_, maxWorkers_setPool (hmax hb)⟩ <;>
    simp only [poolOf_setPool, metricsOf_setPool]
  · rw [hqueue, htaken, List.length_append]
    simp only [State.entering, State.setPool]
    change (s.metricsOf c).queued = _ + _ + 0 + (s.refused c : ℤ)
    push_cast [List.length_singleton]
    omega
  · rw [hrunning]
    exact hb.inFlight
  · rw [hfinished]
    exact hb.ended
  · rw [hqueue, htaken, hrunning, hfinished, hgiven, List.range_succ]
    have honce := hb.once
    simp only [List.append_assoc, List.singleton_append] at honce ⊢
    exact (List.perm_middle.trans (honce.cons _)).trans (List.perm_append_singleton _ _).symm
  · rw [htaken, hrunning]
    exact hb.workers

theorem Books.shutdown [Sub K] (hb : Books x c s) : Books x c (step x s .shutdown) := by
  have hpool : (step x s .shutdown).poolOf c =
      { s.poolOf c with closed := ((step x s .shutdown).poolOf c).closed } := by
    simp only [State.poolOf, step]
    cases s.pools c <;> rfl
  refine ⟨?_, ?_, ?_, ?_, ?_, fun p h => ?_⟩
  · rw [hpool]
    exact hb.queued
  · rw [hpool]
    exact hb.inFlight
  · rw [hpool]
    exact hb.ended
  · rw [hpool]
    exact hb.once
  · rw [hpool]
    exact hb.workers
  · simp only [step] at h
    obtain ⟨q, hq, rfl⟩ := Option.map_eq_some_iff.mp h
    exact hb.maxWorkers q hq

theorem Books.take [Sub K] (hb : Books x c s) (henabled : Enabled s (.take c)) :
    Books x c (step x s (.take c)) := by
  obtain ⟨p, hp, hsome, hidle⟩ := henabled
  have hpool := poolOf_of_some hp
  have hmax := hb.maxWorkers p hp
  have hqueued := hb.queued
  have honce := hb.once
  simp only [step, hp]
  cases hqueue : p.queue with
  | nil => exact absurd hqueue hsome
  | cons id queue =>
    rw [hpool, hqueue] at hqueued honce
    refine ⟨?_, ?_, ?_, ?_, ?_, maxWorkers_setPool hmax⟩ <;>
      simp only [poolOf_setPool, metricsOf_setPool]
    · simp only [List.tail_cons, List.head?_cons, Option.toList_some, List.length_append,
        List.length_cons, List.length_nil] at hqueued ⊢
      change (s.metricsOf c).queued = _ + _ + s.entering c + (s.refused c : ℤ)
      push_cast at hqueued ⊢
      omega
    · rw [← hpool]
      exact hb.inFlight
    · rw [← hpool]
      exact hb.ended
    · refine List.Perm.trans ?_ honce
      simp only [List.tail_cons, List.head?_cons, Option.toList_some, List.append_assoc,
        List.cons_append, List.nil_append]
      rw [← List.append_assoc]
      refine List.perm_middle.trans ?_
      simp
    · simp only [List.head?_cons, Option.toList_some, List.length_append, List.length_singleton]
      omega

theorem Books.begin [Sub K] {id : ℕ} {now : K} (hb : Books x c s)
    (henabled : Enabled s (.begin c id now)) : Books x c (step x s (.begin c id now)) := by
  obtain ⟨p, hp, hid⟩ := henabled
  have hpool := poolOf_of_some hp
  have hqueued := hb.queued
  have hinFlight := hb.inFlight
  have honce := hb.once
  have hworkers := hb.workers
  have hlength := List.length_erase_of_mem hid
  have hpos := List.length_pos_of_mem hid
  rw [hpool] at hqueued hinFlight honce hworkers
  simp only [step, hp]
  refine ⟨?_, ?_, ?_, ?_, ?_, maxWorkers_setPool (hb.maxWorkers p hp)⟩ <;>
    simp only [poolOf_setPool, metricsOf_setPool, metricsOf_setMetrics]
  · change (s.metricsOf c).queued - 1 = _ + _ + s.entering c + (s.refused c : ℤ)
    omega
  · rw [List.length_append, List.length_singleton]
    push_cast
    omega
  · rw [← hpool]
    exact hb.ended
  · refine List.Perm.trans ?_ honce
    simp only [List.map_append, List.map_cons, List.map_nil, List.append_assoc,
      List.singleton_append]
    refine List.Perm.append_left _ ?_
    have hmove : (p.taken.erase id ++ (p.running.map Prod.fst ++ id :: p.finished)).Perm
        (id :: (p.taken.erase id ++ (p.running.map Prod.fst ++ p.finished))) := by
      rw [← List.append_assoc, ← List.append_assoc]
      exact List.perm_middle
    refine hmove.trans ?_
    rw [← List.cons_append]
    exact (List.perm_cons_erase hid).symm.append_right _
  · rw [List.length_append, List.length_singleton]
    omega

omit [DecidableEq C] in
/-- A worker that is done was at the task. -/
theorem exists_started {id : ℕ} {outcome : Outcome} {now : K}
    (henabled : Enabled s (.finish c id outcome now)) :
    ∃ p start, s.pools c = some p ∧ p.running.find? (·.1 = id) = some (id, start) := by
  obtain ⟨p, hp, hid⟩ := henabled
  obtain ⟨task, htask, rfl⟩ := List.mem_map.mp hid
  have hfound : (p.running.find? (·.1 = task.1)).isSome := by
    rw [List.find?_isSome]
    exact ⟨task, htask, by simp⟩
  obtain ⟨⟨id, start⟩, hfind⟩ := Option.isSome_iff_exists.mp hfound
  have hsame := List.find?_some hfind
  simp only [decide_eq_true_eq] at hsame
  rw [hsame] at hfind
  exact ⟨p, start, hp, hfind⟩

theorem Books.finish [Sub K] {id : ℕ} {outcome : Outcome} {now : K} (hb : Books x c s)
    (henabled : Enabled s (.finish c id outcome now)) :
    Books x c (step x s (.finish c id outcome now)) := by
  obtain ⟨p, start, hp, hfind⟩ := exists_started henabled
  have htask := List.mem_of_find?_eq_some hfind
  have hpool := poolOf_of_some hp
  have hqueued := hb.queued
  have hinFlight := hb.inFlight
  have hended := hb.ended
  have honce := hb.once
  have hworkers := hb.workers
  rw [hpool] at hqueued hinFlight hended honce hworkers
  -- what is left of the tasks that workers are at
  obtain ⟨t, before, after, -, ht, hsplit, herase⟩ :=
    List.exists_of_eraseP (p := fun t : ℕ × K => decide (t.1 = id)) htask (by simp)
  have hfirst : t.1 = id := by simpa using ht
  rw [hsplit] at hinFlight honce hworkers
  simp only [List.map_append, List.map_cons] at honce
  simp only [List.length_append, List.length_cons] at hinFlight hworkers
  have hcount (m : CategoryMetrics K) (d : K) : (m.finish outcome d).queued = m.queued ∧
      (m.finish outcome d).inFlight = m.inFlight - 1 ∧
      (m.finish outcome d).durations.length = m.durations.length + 1 := by
    cases outcome <;> simp [CategoryMetrics.finish]
  simp only [step, hp, hfind]
  obtain ⟨hq, hf, hd⟩ := hcount (s.metricsOf c) (now - start)
  refine ⟨?_, ?_, ?_, ?_, ?_, maxWorkers_setPool (hb.maxWorkers p hp)⟩ <;>
    simp only [poolOf_setPool, metricsOf_setPool, metricsOf_setMetrics]
  · rw [hq]
    exact hqueued
  · rw [hf, herase, List.length_append]
    push_cast
    omega
  · rw [hd, List.length_append, List.length_singleton, hended]
  · rw [herase]
    refine List.Perm.trans ?_ honce
    rw [hfirst]
    simp only [List.map_append, List.append_assoc]
    refine List.Perm.append_left _ (List.Perm.append_left _ (List.Perm.append_left _ ?_))
    rw [← List.append_assoc]
    exact List.perm_append_singleton _ _
  · rw [herase, List.length_append]
    omega

/-- Every step keeps the books of every category. -/
theorem Books.step [Sub K] (hb : Books x c s) (henabled : Enabled s e) :
    Books x c (step x s e) := by
  cases hown : e.concerns c with
  | false => exact hb.of_view (view_step_of_not_concerns hown henabled)
  | true =>
    cases e with
    | shutdown => exact hb.shutdown
    | submit c' =>
      obtain rfl : c' = c := by simpa [Event.concerns] using hown
      exact hb.submit henabled
    | enqueue c' =>
      obtain rfl : c' = c := by simpa [Event.concerns] using hown
      exact hb.enqueue henabled
    | take c' =>
      obtain rfl : c' = c := by simpa [Event.concerns] using hown
      exact hb.take henabled
    | begin c' id now =>
      obtain rfl : c' = c := by simpa [Event.concerns] using hown
      exact hb.begin henabled
    | finish c' id outcome now =>
      obtain rfl : c' = c := by simpa [Event.concerns] using hown
      exact hb.finish henabled

/-- The events of a category change its counts as they say, and no others do. -/
theorem counts_step [Sub K] (hb : Books x c s) (henabled : Enabled s e) :
    ((step x s e).metricsOf c).completed = (s.metricsOf c).completed +
        (if e.ends c = some .ok then 1 else 0) ∧
      ((step x s e).metricsOf c).failed = (s.metricsOf c).failed +
        (if e.ends c = some .exception then 1 else 0) ∧
      ((step x s e).metricsOf c).durations.length = (s.metricsOf c).durations.length +
        (if (e.ends c).isSome then 1 else 0) ∧
      (step x s e).entering c + (step x s e).refused c + ((step x s e).poolOf c).given =
        s.entering c + s.refused c + (s.poolOf c).given + (if e.submits c then 1 else 0) := by
  cases hown : e.concerns c with
  | false =>
    have hview := view_step_of_not_concerns (x := x) hown henabled
    have hpool : (step x s e).pools c = s.pools c := congrArg View.pool hview
    have hmetrics : (step x s e).metrics c = s.metrics c := congrArg View.metrics hview
    have hgiving : (step x s e).giving = some c ↔ s.giving = some c :=
      iff_of_eq (congrArg View.giving hview)
    have hrefused : (step x s e).refused c = s.refused c := congrArg View.refused hview
    have hends : e.ends c = none := by
      cases e <;> simp_all [Event.ends, Event.concerns]
    have hsubmits : e.submits c = false := by
      cases e <;> simp_all [Event.submits, Event.concerns]
    simp [State.metricsOf, State.poolOf, State.entering, hpool, hmetrics, hgiving, hrefused, hends,
      hsubmits]
  | true =>
    cases e with
    | shutdown =>
      have hgiven : ((step x s .shutdown).poolOf c).given = (s.poolOf c).given := by
        simp only [State.poolOf, step]
        cases s.pools c <;> rfl
      rw [hgiven]
      exact ⟨rfl, rfl, rfl, rfl⟩
    | submit c' =>
      obtain rfl : c' = c := by simpa [Event.concerns] using hown
      have hidle : s.giving = none := henabled
      have hmetrics : (step x s (.submit c')).metricsOf c' =
          { s.metricsOf c' with queued := (s.metricsOf c').queued + 1 } :=
        metricsOf_setMetrics _ _ _
      have hpool : (step x s (.submit c')).poolOf c' = s.poolOf c' := rfl
      have hrefused : (step x s (.submit c')).refused c' = s.refused c' := rfl
      rw [hmetrics, hpool, hrefused]
      refine ⟨rfl, rfl, rfl, ?_⟩
      simp only [State.entering, step, hidle, Event.submits, decide_true, if_true, reduceCtorEq,
        if_false]
      omega
    | enqueue c' =>
      obtain rfl : c' = c := by simpa [Event.concerns] using hown
      have hgiving : s.giving = some c' := henabled
      rcases enqueue_cases x s c' with hstep | ⟨p, hpool, hstep⟩
      · rw [hstep]
        refine ⟨rfl, rfl, rfl, ?_⟩
        simp only [State.refuse, State.entering, hgiving, Function.update_self, State.poolOf,
          Event.submits, reduceCtorEq, if_true, if_false]
        omega
      · have hgiven : p.submit.given = (s.poolOf c').given + 1 := by
          rw [(pool_eq_some hpool).1]
          rfl
        rw [hstep, poolOf_setPool, hgiven]
        refine ⟨rfl, rfl, rfl, ?_⟩
        simp only [State.entering, State.setPool, hgiving, Event.submits, reduceCtorEq, if_true,
          if_false]
        omega
    | take c' =>
      obtain rfl : c' = c := by simpa [Event.concerns] using hown
      obtain ⟨p, hp, -⟩ := henabled
      have hpool := poolOf_of_some hp
      simp only [step, hp, poolOf_setPool, hpool]
      exact ⟨rfl, rfl, rfl, rfl⟩
    | begin c' id now =>
      obtain rfl : c' = c := by simpa [Event.concerns] using hown
      obtain ⟨p, hp, -⟩ := henabled
      have hpool := poolOf_of_some hp
      simp only [step, hp, poolOf_setPool, metricsOf_setPool, metricsOf_setMetrics, hpool]
      exact ⟨rfl, rfl, rfl, rfl⟩
    | finish c' id outcome now =>
      obtain rfl : c' = c := by simpa [Event.concerns] using hown
      obtain ⟨p, start, hp, hfind⟩ := exists_started henabled
      have hpool := poolOf_of_some hp
      simp only [step, hp, hfind, poolOf_setPool, metricsOf_setPool, metricsOf_setMetrics, hpool,
        Event.ends, if_true, Option.isSome_some]
      cases outcome <;> exact ⟨rfl, rfl, by simp [CategoryMetrics.finish], rfl⟩

end Accounting

/-- What `metrics` says of a category is true. -/
structure Accounted [Field K] [LinearOrder K] (x : PartitionedExecutor C) (c : C)
    (es : List (Event C K)) (s : State C K) : Prop where
  /-- A call that raised has left its task counted as queued. -/
  queueDepth : (s.metricsOf c).snapshot.queueDepth =
    (s.poolOf c).queue.length + (s.poolOf c).taken.length + s.entering c + s.refused c
  inFlight : (s.metricsOf c).snapshot.inFlight = (s.poolOf c).running.length
  limit : (s.poolOf c).taken.length + (s.poolOf c).running.length ≤ (x.limit c).toNat
  completed : (s.metricsOf c).snapshot.completed = es.countP fun e => e.ends c = some .ok
  failed : (s.metricsOf c).snapshot.failed = es.countP fun e => e.ends c = some .exception
  /-- Every call is accounted for. -/
  total : (es.countP (Event.submits c) : ℤ) = (s.metricsOf c).snapshot.queueDepth +
    (s.metricsOf c).snapshot.inFlight + es.countP fun e => (e.ends c).isSome
  /-- The pool has each task once. -/
  once : ((s.poolOf c).queue ++ (s.poolOf c).taken ++ (s.poolOf c).running.map Prod.fst ++
    (s.poolOf c).finished).Perm (List.range (s.poolOf c).given)
  average : (s.metricsOf c).snapshot.avgDuration ≤ (s.metricsOf c).snapshot.maxDuration

/-- No mean is above the greatest. -/
theorem avgDuration_le [Field K] [LinearOrder K] [IsStrictOrderedRing K] (m : CategoryMetrics K) :
    m.snapshot.avgDuration ≤ m.snapshot.maxDuration := by
  simp only [CategoryMetrics.snapshot]
  by_cases hempty : m.durations = []
  · simp [hempty]
  rw [if_neg hempty]
  have hpos : (0 : K) < m.durations.length := by
    exact_mod_cast List.length_pos_iff.mpr hempty
  cases hmax : m.durations.max? with
  | none => exact absurd (List.max?_eq_none_iff.mp hmax) hempty
  | some d =>
    rw [List.max?_eq_some_iff] at hmax
    rw [Option.getD_some, div_le_iff₀ hpos, mul_comm, ← nsmul_eq_mul]
    exact List.sum_le_card_nsmul _ _ hmax.2

/-- The categories of the example in the documentation, but for one. -/
inductive Source where
  | horizon
  | amm
  deriving DecidableEq

/-- One worker for each category. -/
def oneWorker : PartitionedExecutor Source where
  categoryLimits _ := some 1
  defaultLimit := 4

/-- A task of one category that fails while one of the other category waits. -/
def slowHorizon : List (Event Source ℚ) :=
  [.submit .horizon, .enqueue .horizon, .take .horizon, .begin .horizon 0 0, .submit .amm,
    .enqueue .amm, .finish .horizon 0 .exception 5]

theorem runs_slowHorizon : Runs oneWorker slowHorizon :=
  ⟨rfl, rfl, ⟨_, rfl, by decide, by decide⟩, ⟨_, rfl, by decide⟩, rfl, rfl, ⟨_, rfl, by decide⟩,
    trivial⟩

theorem category_isolation_slowHorizon :
    Runs oneWorker (slowHorizon.filter (Event.concerns .amm)) ∧
    (after oneWorker slowHorizon).view .amm =
      (after oneWorker (slowHorizon.filter (Event.concerns .amm))).view .amm ∧
    ∀ e : Event Source ℚ, e.worker = true → e.concerns .amm = true →
      (Enabled (after oneWorker slowHorizon) e ↔
        Enabled (after oneWorker (slowHorizon.filter (Event.concerns .amm))) e) :=
  category_isolation oneWorker oneWorker .amm rfl slowHorizon runs_slowHorizon

end LedgerLens.Ingestion.Partitioned
