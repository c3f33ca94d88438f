import LedgerLens.Library.Interleaving
import LedgerLens.Utils.CircuitBreaker
import Mathlib.Tactic.Linarith

/-!
# Overlapping calls through a circuit breaker

Any number of callers go through one `CircuitBreaker`, each as often as it likes: admission,
start of the function, outcome. Between these steps the others move, so a call may be
admitted before the circuit opens, and start its function or report its success after that.
This file determines what that can do.
-/

namespace LedgerLens.Utils

open Interleaving Transition CircuitBreaker

/-- An admission: how often the circuit had been opened before, and the time. -/
structure Admission where
  /-- The openings before it. -/
  opening : ℕ
  /-- Its time. -/
  time : ℚ
  deriving DecidableEq

/-- Where a caller stands. -/
inductive CallPhase where
  /-- Not in `call`, or before its first critical section. -/
  | outside
  /-- Admitted, with the function not started yet. -/
  | admitted (admission : Admission)
  /-- In the function. -/
  | running (admission : Admission)
  deriving DecidableEq

/-- The admission of a call that has been admitted. -/
def CallPhase.admission? : CallPhase → Option Admission
  | .outside => none
  | .admitted admission => some admission
  | .running admission => some admission

/-- How a function ends. -/
inductive FuncResult where
  /-- It returns normally. -/
  | returned
  /-- It raises an `Exception`. -/
  | raised
  /-- It raises something that `except Exception` does not catch. -/
  | aborted
  deriving DecidableEq

/-- What the environment decides about a step. -/
structure BreakerInput where
  /-- The clock; a reading before an earlier one counts as that one. -/
  now : ℚ
  /-- How the function ends, if the step is the end of one. -/
  result : FuncResult := .returned
  deriving DecidableEq

/-- An outcome recorded after the latest opening: whether the call was admitted after that
opening's timeout, and whether it returned normally. -/
structure Outcome where
  /-- The call was admitted after the opening, when its timeout had elapsed. -/
  fresh : Bool
  /-- It returned normally. -/
  ok : Bool
  deriving DecidableEq

/-- The breaker, and what has happened. -/
structure BreakerWorld where
  /-- The breaker's fields. -/
  breaker : BreakerFields := {}
  /-- The latest clock reading. -/
  now : ℚ
  /-- How often the circuit has been opened. -/
  openings : ℕ := 0
  /-- The outcomes recorded since the latest opening. -/
  outcomes : List Outcome := []
  /-- The successes of calls from before the latest opening that were counted since the
  circuit is half open. -/
  staleCounted : ℕ := 0
  /-- The starts of functions: the time, and the opening from which the circuit was still
  open. -/
  starts : List (ℚ × Option ℚ) := []
  /-- The outcomes since the latest opening at each change to CLOSED. -/
  closings : List (List Outcome) := []

/-- The calls from after the opening's timeout that returned normally. -/
def probes (outcomes : List Outcome) : ℕ := outcomes.countP fun o => o.fresh && o.ok

/-- One of them failed. -/
def ProbeFailed (outcomes : List Outcome) : Prop := ⟨true, false⟩ ∈ outcomes

instance (outcomes : List Outcome) : Decidable (ProbeFailed outcomes) :=
  inferInstanceAs (Decidable (_ ∈ _))

namespace CircuitBreaker

/-- The outcome of a call as it counts for the latest opening. -/
def outcome (cb : CircuitBreaker) (s : BreakerWorld) (admission : Admission) (ok : Bool) :
    Outcome where
  fresh := decide (admission.opening = s.openings) &&
    match s.breaker.openedAt with
    | some openedAt => decide (openedAt + cb.timeoutSeconds ≤ admission.time)
    | none => false
  ok := ok

/-- The world after the breaker's fields have changed to `b` with an outcome recorded. -/
def recorded (cb : CircuitBreaker) (s : BreakerWorld) (now : ℚ) (admission : Admission)
    (ok : Bool) (b : BreakerFields) : BreakerWorld :=
  if s.breaker.state ≠ .open ∧ b.state = .open then
    { s with breaker := b, now := now, openings := s.openings + 1, outcomes := [] }
  else
    { s with
      breaker := b
      now := now
      outcomes := s.outcomes ++ [cb.outcome s admission ok]
      staleCounted :=
        if ok ∧ s.breaker.state = .halfOpen ∧ admission.opening ≠ s.openings then
          s.staleCounted + 1
        else s.staleCounted
      closings :=
        if s.breaker.state ≠ .closed ∧ b.state = .closed then
          s.closings ++ [s.outcomes ++ [cb.outcome s admission ok]]
        else s.closings }

/-- One step of a caller. -/
def callStep (cb : CircuitBreaker) (input : BreakerInput) (s : BreakerWorld) :
    CallPhase → BreakerWorld × CallPhase
  | .outside =>
    match cb.enterCall (max s.now input.now) s.breaker with
    | .error _ => ({ s with now := max s.now input.now }, .outside)
    | .ok b =>
      ({ s with
          breaker := b
          now := max s.now input.now
          staleCounted := if s.breaker.state = .open then 0 else s.staleCounted },
        .admitted ⟨s.openings, max s.now input.now⟩)
  | .admitted admission =>
    ({ s with
        now := max s.now input.now
        starts := s.starts ++ [(max s.now input.now,
          if s.breaker.state = .open then s.breaker.openedAt else none)] },
      .running admission)
  | .running admission =>
    match input.result with
    | .returned =>
      (cb.recorded s (max s.now input.now) admission true (cb.recordSuccess s.breaker), .outside)
    | .raised =>
      (cb.recorded s (max s.now input.now) admission false
        (cb.recordFailure (max s.now input.now) s.breaker), .outside)
    | .aborted => ({ s with now := max s.now input.now }, .outside)

end CircuitBreaker

/-- The callers of one breaker. -/
abbrev BreakerConfig (Caller : Type*) := Config Caller BreakerWorld CallPhase

variable {Caller : Type*} [DecidableEq Caller]

/-- One step of the caller that the event names. -/
def CircuitBreaker.callsStep (cb : CircuitBreaker) (c : BreakerConfig Caller)
    (e : Caller × BreakerInput) : BreakerConfig Caller :=
  stepAt cb.callStep c e

/-- A new breaker, which nobody has called. -/
def BreakerConfig.start (now : ℚ) : BreakerConfig Caller := ⟨{ now := now }, fun _ => .outside⟩

/-- No function was started while the circuit was open less than its timeout, and whenever
the circuit became CLOSED, enough calls from after the opening's timeout had returned
normally and none had failed. -/
def CircuitBreaker.Protects (cb : CircuitBreaker) (c : BreakerConfig Caller) : Prop :=
  (∀ start ∈ c.shared.starts, ∀ openedAt ∈ start.2,
    cb.timeoutSeconds ≤ start.1 - openedAt) ∧
  ∀ outcomes ∈ c.shared.closings, cb.successThreshold ≤ probes outcomes ∧ ¬ProbeFailed outcomes

instance (cb : CircuitBreaker) :
    DecidablePred (cb.Protects : BreakerConfig Caller → Prop) := fun _ =>
  inferInstanceAs (Decidable ((∀ start ∈ _, ∀ openedAt ∈ _, _) ∧ ∀ outcomes ∈ _, _ ∧ ¬_))

/-- A call that starts its function although the circuit has been opened since it was
admitted finds the timeout elapsed or the circuit half open or closed; and the success that
closes the circuit, as well as the others counted since it is half open, comes from a call
admitted after the latest opening. -/
def CircuitBreaker.OutcomesFresh (cb : CircuitBreaker) (c : BreakerConfig Caller)
    (e : Caller × BreakerInput) : Prop :=
  match c.locals e.1 with
  | .outside => True
  | .admitted admission =>
    admission.opening < c.shared.openings →
      cb.effectiveState (max c.shared.now e.2.now) c.shared.breaker ≠ .ok .open
  | .running admission =>
    e.2.result = .returned → c.shared.breaker.state = .halfOpen →
      cb.successThreshold ≤ c.shared.breaker.consecutiveSuccesses + 1 →
        admission.opening = c.shared.openings ∧ c.shared.staleCounted = 0

/-- What the breaker's fields have to do with what has happened. -/
structure FieldsAgree (cb : CircuitBreaker) (s : BreakerWorld) : Prop where
  /-- An open or half open circuit knows when it was opened. -/
  openedAt : s.breaker.state ≠ .closed → ∃ openedAt, s.breaker.openedAt = some openedAt
  /-- As long as the circuit is open, no outcome comes from a call admitted later. -/
  openOutcomes : s.breaker.state = .open → ∀ o ∈ s.outcomes, o.fresh = false
  /-- While it is half open, its timeout has elapsed. -/
  elapsed : s.breaker.state = .halfOpen → ∀ openedAt ∈ s.breaker.openedAt,
    openedAt + cb.timeoutSeconds ≤ s.now
  /-- No call admitted after the timeout has failed. -/
  halfOpenOutcomes : s.breaker.state = .halfOpen → ¬ProbeFailed s.outcomes
  /-- The counter counts these calls and the stale ones. -/
  successes : s.breaker.state = .halfOpen →
    s.breaker.consecutiveSuccesses = probes s.outcomes + s.staleCounted
  /-- It has not reached the threshold. -/
  below : s.breaker.state = .halfOpen → s.breaker.consecutiveSuccesses < cb.successThreshold

/-- What a call under way has to do with the openings. -/
structure AdmissionAgrees (cb : CircuitBreaker) (s : BreakerWorld) (phase : CallPhase) : Prop where
  /-- It counts no more openings than there were. -/
  opening_le : ∀ admission ∈ phase.admission?, admission.opening ≤ s.openings
  /-- While the circuit is open, it was admitted before. -/
  beforeOpen : s.breaker.state = .open → ∀ admission ∈ phase.admission?,
    admission.opening < s.openings
  /-- While the circuit is half open, it was admitted before the opening or after its
  timeout. -/
  afterTimeout : s.breaker.state = .halfOpen → ∀ admission ∈ phase.admission?,
    admission.opening = s.openings → ∀ openedAt ∈ s.breaker.openedAt,
      openedAt + cb.timeoutSeconds ≤ admission.time

/-- What holds in every state of a run whose steps are fresh. -/
structure BreakerInvariant (cb : CircuitBreaker) (c : BreakerConfig Caller) : Prop where
  /-- The fields agree with what has happened. -/
  fields : FieldsAgree cb c.shared
  /-- So do the calls under way. -/
  admissions : ∀ i, AdmissionAgrees cb c.shared (c.locals i)
  /-- The breaker has protected its component. -/
  protects : cb.Protects c

section Steps

variable {cb : CircuitBreaker} {s : BreakerWorld} {now : ℚ} {admission : Admission}
  {phase : CallPhase} {b : BreakerFields}

@[simp] theorem probes_append (outcomes : List Outcome) (o : Outcome) :
    probes (outcomes ++ [o]) = probes outcomes + if o.fresh && o.ok then 1 else 0 := by
  unfold probes
  rw [List.countP_append, List.countP_singleton]

theorem probeFailed_append (outcomes : List Outcome) (o : Outcome) :
    ProbeFailed (outcomes ++ [o]) ↔ ProbeFailed outcomes ∨ o = ⟨true, false⟩ := by
  simp [ProbeFailed, eq_comm]

/-- Outcomes of stale calls are no probes. -/
theorem probes_of_stale {outcomes : List Outcome} (h : ∀ o ∈ outcomes, o.fresh = false) :
    probes outcomes = 0 ∧ ¬ProbeFailed outcomes := by
  constructor
  · unfold probes
    rw [List.countP_eq_zero]
    intro o ho
    simp [h o ho]
  · intro hfailed
    exact absurd (h _ hfailed) (by simp)

/-- Time alone changes nothing, nor does the start of a function. -/
theorem FieldsAgree.later (h : FieldsAgree cb s) (hnow : s.now ≤ now)
    (starts : List (ℚ × Option ℚ)) : FieldsAgree cb { s with now := now, starts := starts } where
  openedAt := h.openedAt
  openOutcomes := h.openOutcomes
  elapsed hhalf openedAt hopened := (h.elapsed hhalf openedAt hopened).trans hnow
  halfOpenOutcomes := h.halfOpenOutcomes
  successes := h.successes
  below := h.below

/-- A caller that is outside has nothing to agree with. -/
theorem AdmissionAgrees.outside : AdmissionAgrees cb s .outside where
  opening_le admission h := by cases h
  beforeOpen _ admission h := by cases h
  afterTimeout _ admission h := by cases h

/-- A call goes on agreeing when the circuit does not change its state. -/
theorem AdmissionAgrees.of_state_eq {s' : BreakerWorld} (h : AdmissionAgrees cb s phase)
    (hstate : s'.breaker.state = s.breaker.state) (hopenings : s'.openings = s.openings)
    (hopened : s'.breaker.openedAt = s.breaker.openedAt) : AdmissionAgrees cb s' phase where
  opening_le := by
    rw [hopenings]
    exact h.opening_le
  beforeOpen := by
    rw [hopenings, hstate]
    exact h.beforeOpen
  afterTimeout := by
    rw [hopenings, hstate, hopened]
    exact h.afterTimeout

/-- Starting the function does not change the admission. -/
theorem AdmissionAgrees.running (h : AdmissionAgrees cb s (.admitted admission)) :
    AdmissionAgrees cb s (.running admission) :=
  ⟨h.opening_le, h.beforeOpen, h.afterTimeout⟩

/-- A call goes on agreeing when the circuit becomes closed. -/
theorem AdmissionAgrees.of_closed {s' : BreakerWorld} (h : AdmissionAgrees cb s phase)
    (hclosed : s'.breaker.state = .closed) (hopenings : s'.openings = s.openings) :
    AdmissionAgrees cb s' phase where
  opening_le := by
    rw [hopenings]
    exact h.opening_le
  beforeOpen hopen := by simp [hclosed] at hopen
  afterTimeout hhalf := by simp [hclosed] at hhalf

/-- A call is from before an opening that happens now. -/
theorem AdmissionAgrees.of_opened {s' : BreakerWorld} (h : AdmissionAgrees cb s phase)
    (hopen : s'.breaker.state = .open) (hopenings : s'.openings = s.openings + 1) :
    AdmissionAgrees cb s' phase where
  opening_le admission hmem := by
    have hle := h.opening_le admission hmem
    omega
  beforeOpen _ admission hmem := by
    have hle := h.opening_le admission hmem
    omega
  afterTimeout hhalf := by simp [hopen] at hhalf

/-- An admission keeps the agreement, and the admitted call agrees. -/
theorem agree_enterCall (h : FieldsAgree cb s) (hnow : s.now ≤ now)
    (henter : cb.enterCall now s.breaker = .ok b) :
    let s' : BreakerWorld := { s with
      breaker := b
      now := now
      staleCounted := if s.breaker.state = .open then 0 else s.staleCounted }
    FieldsAgree cb s' ∧ AdmissionAgrees cb s' (.admitted ⟨s.openings, now⟩) ∧
      ∀ phase, AdmissionAgrees cb s phase → AdmissionAgrees cb s' phase := by
  intro s'
  rcases enterCall_cases henter with ⟨hnotOpen, rfl⟩ | ⟨hopen, ⟨openedAt, hopened, helapsed⟩, rfl⟩
  · have hsame : s' = { s with now := now } := by simp [s', hnotOpen]
    rw [hsame]
    refine ⟨h.later hnow _, ⟨?_, ?_, ?_⟩, fun phase hphase => hphase.of_state_eq rfl rfl rfl⟩
    · rintro admission ⟨⟩
      exact le_rfl
    · intro hopen
      exact absurd hopen hnotOpen
    · rintro hhalf admission ⟨⟩ - openedAt hopened
      exact (h.elapsed hhalf openedAt hopened).trans hnow
  · have htimeout : ∀ o ∈ s.breaker.openedAt, o + cb.timeoutSeconds ≤ now := by
      intro o ho
      rw [hopened] at ho
      cases ho
      linarith
    obtain ⟨hprobes, hfailed⟩ := probes_of_stale (h.openOutcomes hopen)
    refine ⟨⟨?_, ?_, ?_, ?_, ?_, ?_⟩, ⟨?_, ?_, ?_⟩, fun phase hphase => ⟨?_, ?_, ?_⟩⟩
    · exact fun _ => ⟨openedAt, hopened⟩
    · exact fun hopen' => by cases hopen'
    · exact fun _ => htimeout
    · exact fun _ => hfailed
    · simp [s', hopen, hprobes]
    · exact fun _ => cb.successThreshold_pos
    · rintro admission ⟨⟩
      exact le_rfl
    · exact fun hopen' => by cases hopen'
    · rintro - admission ⟨⟩ - o ho
      exact htimeout o ho
    · exact hphase.opening_le
    · exact fun hopen' => by cases hopen'
    · rintro - admission hmem hsame
      exact absurd hsame (hphase.beforeOpen hopen admission hmem).ne

/-- The outcome of a call from before the latest opening is stale. -/
theorem outcome_stale {ok : Bool} (h : admission.opening ≠ s.openings) :
    (cb.outcome s admission ok).fresh = false := by
  simp [outcome, h]

/-- While the circuit is half open, that of a call from after it is fresh. -/
theorem outcome_fresh {ok : Bool} (h : FieldsAgree cb s)
    (hadmission : AdmissionAgrees cb s (.running admission)) (hhalf : s.breaker.state = .halfOpen)
    (hsame : admission.opening = s.openings) : (cb.outcome s admission ok).fresh = true := by
  obtain ⟨openedAt, hopened⟩ := h.openedAt (by simp [hhalf])
  have htime := hadmission.afterTimeout hhalf admission rfl hsame openedAt hopened
  simp [outcome, hsame, hopened, htime]

/-- Recording a failure opens the circuit or is counted. -/
theorem agree_recordFailure (now : ℚ) (h : FieldsAgree cb s)
    (hadmission : AdmissionAgrees cb s (.running admission)) :
    let s' := cb.recorded s now admission false (cb.recordFailure now s.breaker)
    FieldsAgree cb s' ∧ (∀ phase, AdmissionAgrees cb s phase → AdmissionAgrees cb s' phase) ∧
      s'.starts = s.starts ∧ s'.closings = s.closings := by
  intro s'
  rcases recordFailure_cases cb now s.breaker with ⟨hnotOpen, hopen, hopened⟩ | ⟨hnotHalf, hsame⟩
  · have hs' : s' = { s with
        breaker := cb.recordFailure now s.breaker, now := now, openings := s.openings + 1
        outcomes := [] } := if_pos ⟨hnotOpen, hopen⟩
    rw [hs']
    refine ⟨⟨fun _ => ⟨now, hopened⟩, fun _ o ho => (by cases ho), ?_, ?_, ?_, ?_⟩,
      fun phase hphase => hphase.of_opened hopen rfl, rfl, rfl⟩
    all_goals
      intro hhalf
      rw [hopen] at hhalf
      cases hhalf
  · have hstate : (cb.recordFailure now s.breaker).state = s.breaker.state := by rw [hsame]
    have hs' : s' = { s with
        breaker := { s.breaker with consecutiveFailures := s.breaker.consecutiveFailures + 1 }
        now := now
        outcomes := s.outcomes ++ [cb.outcome s admission false] } := by
      simp only [s', recorded]
      rw [if_neg (by rw [hstate]; exact fun hboth => hboth.1 hboth.2), if_neg (by simp),
        if_neg (by rw [hstate]; exact fun hboth => hboth.1 hboth.2), hsame]
    rw [hs']
    refine ⟨⟨h.openedAt, ?_, ?_, ?_, ?_, ?_⟩,
      fun phase hphase => hphase.of_state_eq rfl rfl rfl, rfl, rfl⟩
    · intro hopen o ho
      rcases List.mem_append.mp ho with ho | ho
      · exact h.openOutcomes hopen o ho
      · rw [List.mem_singleton.mp ho]
        exact outcome_stale (hadmission.beforeOpen hopen admission rfl).ne
    all_goals exact fun hhalf => absurd hhalf hnotHalf

/-- A success closes the circuit. -/
theorem agree_recordSuccess_closes (h : FieldsAgree cb s)
    (hadmission : AdmissionAgrees cb s (.running admission)) (hstate : s.breaker.state = .halfOpen)
    (hreached : cb.successThreshold ≤ s.breaker.consecutiveSuccesses + 1)
    (hsame : admission.opening = s.openings) (hstale : s.staleCounted = 0) (now : ℚ) :
    let s' := cb.recorded s now admission true (cb.recordSuccess s.breaker)
    FieldsAgree cb s' ∧ (∀ phase, AdmissionAgrees cb s phase → AdmissionAgrees cb s' phase) ∧
      s'.starts = s.starts ∧ ∀ outcomes ∈ s'.closings, outcomes ∈ s.closings ∨
        cb.successThreshold ≤ probes outcomes ∧ ¬ProbeFailed outcomes := by
  intro s'
  have hs' : s' = { s with
      breaker := { gauge := some 0 }, now := now
      outcomes := s.outcomes ++ [cb.outcome s admission true]
      closings := s.closings ++ [s.outcomes ++ [cb.outcome s admission true]] } := by
    simp [s', recorded, recordSuccess_of_halfOpen hstate, hstate, hreached, hsame]
  have hprobe : (cb.outcome s admission true).fresh = true :=
    outcome_fresh h hadmission hstate hsame
  rw [hs']
  refine ⟨⟨?_, ?_, ?_, ?_, ?_, ?_⟩, fun phase hphase => hphase.of_closed rfl rfl, rfl,
    fun outcomes ho => ?_⟩
  · exact fun hother => absurd rfl hother
  · exact fun hother => by cases hother
  · exact fun hother => by cases hother
  · exact fun hother => by cases hother
  · exact fun hother => by cases hother
  · exact fun hother => by cases hother
  · rcases List.mem_append.mp ho with ho | ho
    · exact Or.inl ho
    · right
      have hcount := h.successes hstate
      rw [List.mem_singleton.mp ho, probes_append, probeFailed_append]
      refine ⟨?_, fun hfailed => ?_⟩
      · have hok : (cb.outcome s admission true).ok = true := rfl
        have hone : (if (cb.outcome s admission true).fresh &&
            (cb.outcome s admission true).ok then 1 else 0) = 1 := by
          rw [hprobe, hok]
          rfl
        omega
      · rcases hfailed with hfailed | hfailed
        · exact h.halfOpenOutcomes hstate hfailed
        · simp [CircuitBreaker.outcome] at hfailed

/-- A success is counted in the half-open circuit. -/
theorem agree_recordSuccess_counts (h : FieldsAgree cb s)
    (hadmission : AdmissionAgrees cb s (.running admission)) (hstate : s.breaker.state = .halfOpen)
    (hreached : ¬cb.successThreshold ≤ s.breaker.consecutiveSuccesses + 1) (hnow : s.now ≤ now) :
    let s' := cb.recorded s now admission true (cb.recordSuccess s.breaker)
    FieldsAgree cb s' ∧ (∀ phase, AdmissionAgrees cb s phase → AdmissionAgrees cb s' phase) ∧
      s'.starts = s.starts ∧ ∀ outcomes ∈ s'.closings, outcomes ∈ s.closings ∨
        cb.successThreshold ≤ probes outcomes ∧ ¬ProbeFailed outcomes := by
  intro s'
  have hs' : s' = { s with
      breaker := { s.breaker with
        consecutiveSuccesses := s.breaker.consecutiveSuccesses + 1 }
      now := now
      outcomes := s.outcomes ++ [cb.outcome s admission true]
      staleCounted := if admission.opening = s.openings then s.staleCounted
        else s.staleCounted + 1 } := by
    simp [s', recorded, recordSuccess_of_halfOpen hstate, hstate, hreached]
  rw [hs']
  refine ⟨⟨h.openedAt, ?_, ?_, ?_, ?_, ?_⟩,
    fun phase hphase => hphase.of_state_eq rfl rfl rfl, rfl, fun outcomes ho => Or.inl ho⟩
  · intro hopen
    rw [hstate] at hopen
    cases hopen
  · exact fun hhalf openedAt hopened => (h.elapsed hhalf openedAt hopened).trans hnow
  · intro hhalf hfailed
    rcases (probeFailed_append _ _).mp hfailed with hfailed | hfailed
    · exact h.halfOpenOutcomes hhalf hfailed
    · simp [CircuitBreaker.outcome] at hfailed
  · intro hhalf
    have hcount := h.successes hhalf
    dsimp only
    rw [probes_append]
    by_cases hsame : admission.opening = s.openings
    · have hone : ((cb.outcome s admission true).fresh &&
          (cb.outcome s admission true).ok) = true := by
        rw [outcome_fresh h hadmission hstate hsame]
        rfl
      rw [if_pos hone, if_pos hsame]
      omega
    · have hzero : ((cb.outcome s admission true).fresh &&
          (cb.outcome s admission true).ok) = false := by
        rw [outcome_stale hsame]
        rfl
      rw [hzero, if_neg (by simp), if_neg hsame]
      omega
  · intro _
    dsimp only
    omega

/-- Recording a success keeps the agreement, and if it closes the circuit then enough probes
have returned and none has failed, as long as no stale success has been counted. -/
theorem agree_recordSuccess (h : FieldsAgree cb s)
    (hadmission : AdmissionAgrees cb s (.running admission))
    (hfresh : s.breaker.state = .halfOpen →
      cb.successThreshold ≤ s.breaker.consecutiveSuccesses + 1 →
        admission.opening = s.openings ∧ s.staleCounted = 0) (hnow : s.now ≤ now) :
    let s' := cb.recorded s now admission true (cb.recordSuccess s.breaker)
    FieldsAgree cb s' ∧ (∀ phase, AdmissionAgrees cb s phase → AdmissionAgrees cb s' phase) ∧
      s'.starts = s.starts ∧ ∀ outcomes ∈ s'.closings, outcomes ∈ s.closings ∨
        cb.successThreshold ≤ probes outcomes ∧ ¬ProbeFailed outcomes := by
  intro s'
  cases hstate : s.breaker.state with
  | closed =>
    have hs' : s' = { s with
        breaker := { s.breaker with consecutiveFailures := 0 }, now := now
        outcomes := s.outcomes ++ [cb.outcome s admission true] } := by
      simp [s', recorded, recordSuccess_of_closed hstate, hstate]
    rw [hs']
    refine ⟨⟨h.openedAt, ?_, ?_, ?_, ?_, ?_⟩,
      fun phase hphase => hphase.of_state_eq rfl rfl rfl, rfl, fun outcomes ho => Or.inl ho⟩
    all_goals
      intro hother
      rw [hstate] at hother
      cases hother
  | «open» =>
    have hs' : s' = { s with
        now := now, outcomes := s.outcomes ++ [cb.outcome s admission true] } := by
      simp [s', recorded, recordSuccess_of_open hstate, hstate]
    rw [hs']
    refine ⟨⟨h.openedAt, ?_, ?_, ?_, ?_, ?_⟩,
      fun phase hphase => hphase.of_state_eq rfl rfl rfl, rfl, fun outcomes ho => Or.inl ho⟩
    · intro _ o ho
      rcases List.mem_append.mp ho with ho | ho
      · exact h.openOutcomes hstate o ho
      · rw [List.mem_singleton.mp ho]
        exact outcome_stale (hadmission.beforeOpen hstate admission rfl).ne
    all_goals
      intro hother
      rw [hstate] at hother
      cases hother
  | halfOpen =>
    by_cases hreached : cb.successThreshold ≤ s.breaker.consecutiveSuccesses + 1
    · obtain ⟨hsame, hstale⟩ := hfresh hstate hreached
      exact agree_recordSuccess_closes h hadmission hstate hreached hsame hstale now
    · exact agree_recordSuccess_counts h hadmission hstate hreached hnow

/-- A success that closes the circuit although a stale one has been counted closes it too
early. -/
theorem closes_early (now : ℚ) (h : FieldsAgree cb s) (hstate : s.breaker.state = .halfOpen)
    (hreached : cb.successThreshold ≤ s.breaker.consecutiveSuccesses + 1)
    (hstale : ¬(admission.opening = s.openings ∧ s.staleCounted = 0)) :
    ∃ outcomes ∈ (cb.recorded s now admission true (cb.recordSuccess s.breaker)).closings,
      probes outcomes < cb.successThreshold := by
  refine ⟨s.outcomes ++ [cb.outcome s admission true], ?_, ?_⟩
  · simp [recorded, recordSuccess_of_halfOpen hstate, hstate, hreached]
  · have hcount := h.successes hstate
    have hbelow := h.below hstate
    rw [probes_append]
    by_cases hsame : admission.opening = s.openings
    · have hpositive : s.staleCounted ≠ 0 := fun hzero => hstale ⟨hsame, hzero⟩
      split_ifs <;> omega
    · rw [outcome_stale hsame]
      simp only [Bool.false_and, Bool.false_eq_true, if_false]
      omega

end Steps

section Runs

variable {cb : CircuitBreaker} {c : BreakerConfig Caller} {e : Caller × BreakerInput}

/-- The invariant survives a step after which the fields, the mover and the others agree. -/
theorem BreakerInvariant.of_step (h : BreakerInvariant cb c) {s' : BreakerWorld}
    {phase' : CallPhase} (hstep : cb.callStep e.2 c.shared (c.locals e.1) = (s', phase'))
    (hfields : FieldsAgree cb s') (hmover : AdmissionAgrees cb s' phase')
    (hothers : ∀ phase, AdmissionAgrees cb c.shared phase → AdmissionAgrees cb s' phase)
    (hprotects : cb.Protects (⟨s', c.locals⟩ : BreakerConfig Caller)) :
    BreakerInvariant cb (cb.callsStep c e) := by
  have hshared : (cb.callsStep c e).shared = s' := by
    rw [callsStep, stepAt_shared, hstep]
  refine ⟨by rwa [hshared], fun i => ?_, ?_⟩
  · rw [hshared]
    refine forall_stepAt (P := AdmissionAgrees cb s') (fun j => hothers _ (h.admissions j)) ?_ i
    rw [hstep]
    exact hmover
  · unfold CircuitBreaker.Protects at hprotects ⊢
    rwa [hshared]

/-- A step whose outcome is fresh keeps the invariant. -/
theorem BreakerInvariant.step (h : BreakerInvariant cb c) (hcond : cb.OutcomesFresh c e) :
    BreakerInvariant cb (cb.callsStep c e) := by
  have hnow : c.shared.now ≤ max c.shared.now e.2.now := le_max_left _ _
  have hself := h.admissions e.1
  have hquiet : ∀ phase', cb.callStep e.2 c.shared (c.locals e.1) =
      ({ c.shared with now := max c.shared.now e.2.now }, phase') → phase' = .outside →
      BreakerInvariant cb (cb.callsStep c e) := by
    rintro phase' hstep rfl
    exact h.of_step hstep (h.fields.later hnow _) .outside
      (fun phase hphase => hphase.of_state_eq rfl rfl rfl) h.protects
  unfold CircuitBreaker.OutcomesFresh at hcond
  cases hphase : c.locals e.1 with
  | outside =>
    cases henter : cb.enterCall (max c.shared.now e.2.now) c.shared.breaker with
    | error _ => exact hquiet .outside (by simp [callStep, hphase, henter]) rfl
    | ok b =>
      obtain ⟨hfields, hmover, hothers⟩ := agree_enterCall h.fields hnow henter
      exact h.of_step (by simp [callStep, hphase, henter]) hfields hmover hothers h.protects
  | admitted admission =>
    rw [hphase] at hself hcond
    have hstep : cb.callStep e.2 c.shared (c.locals e.1) =
        ({ c.shared with
            now := max c.shared.now e.2.now
            starts := c.shared.starts ++ [(max c.shared.now e.2.now,
              if c.shared.breaker.state = .open then c.shared.breaker.openedAt else none)] },
          .running admission) := by
      rw [hphase]
      rfl
    refine h.of_step hstep (h.fields.later hnow _)
      (hself.running.of_state_eq rfl rfl rfl)
      (fun phase hphase => hphase.of_state_eq rfl rfl rfl) ⟨?_, h.protects.2⟩
    intro start hstart openedAt hopened
    rcases List.mem_append.mp hstart with hstart | hstart
    · exact h.protects.1 start hstart openedAt hopened
    · rw [List.mem_singleton.mp hstart] at hopened ⊢
      dsimp only at hopened ⊢
      split_ifs at hopened with hopen
      · have hbefore := hself.beforeOpen hopen admission rfl
        have hstate := hcond hbefore
        have hopened' : c.shared.breaker.openedAt = some openedAt := hopened
        by_contra hearly
        refine hstate ?_
        unfold effectiveState
        simp [hopen, hopened', hearly]
      · cases hopened
  | running admission =>
    rw [hphase] at hself hcond
    cases hresult : e.2.result with
    | aborted => exact hquiet .outside (by simp [callStep, hphase, hresult]) rfl
    | returned =>
      obtain ⟨hfields, hothers, hstarts, hclosings⟩ :=
        agree_recordSuccess h.fields hself (hcond hresult) hnow
      refine h.of_step (by simp only [callStep, hphase, hresult]) hfields .outside hothers ⟨?_, ?_⟩
      · rw [hstarts]
        exact h.protects.1
      · intro outcomes ho
        rcases hclosings outcomes ho with hold | hnew
        · exact h.protects.2 outcomes hold
        · exact hnew
    | raised =>
      obtain ⟨hfields, hothers, hstarts, hclosings⟩ :=
        agree_recordFailure (max c.shared.now e.2.now) h.fields hself
      refine h.of_step (by simp only [callStep, hphase, hresult]) hfields .outside hothers ⟨?_, ?_⟩
      · rw [hstarts]
        exact h.protects.1
      · rw [hclosings]
        exact h.protects.2

/-- A step whose outcome is not fresh leaves the component unprotected. -/
theorem BreakerInvariant.not_protects (h : BreakerInvariant cb c)
    (hcond : ¬cb.OutcomesFresh c e) : ¬cb.Protects (cb.callsStep c e) := by
  unfold CircuitBreaker.OutcomesFresh at hcond
  cases hphase : c.locals e.1 with
  | outside => simp [hphase] at hcond
  | admitted admission =>
    simp only [hphase, not_forall, not_not] at hcond
    obtain ⟨-, heffective⟩ := hcond
    unfold effectiveState at heffective
    cases hstate : c.shared.breaker.state with
    | closed => simp [hstate] at heffective
    | halfOpen => simp [hstate] at heffective
    | «open» =>
      obtain ⟨openedAt, hopened⟩ := h.fields.openedAt (by simp [hstate])
      simp only [hstate, hopened] at heffective
      split_ifs at heffective with helapsed
      · cases heffective
      rintro ⟨hstarts, -⟩
      refine helapsed (hstarts (max c.shared.now e.2.now, some openedAt) ?_ openedAt rfl)
      simp [callsStep, callStep, hphase, hstate, hopened]
  | running admission =>
    simp only [hphase, not_forall] at hcond
    obtain ⟨hresult, hstate, hreached, hstale⟩ := hcond
    obtain ⟨outcomes, ho, hfew⟩ := closes_early (max c.shared.now e.2.now) h.fields hstate
      hreached hstale
    rintro ⟨-, hclosings⟩
    have henough := hclosings outcomes (by
      rw [callsStep, stepAt_shared]
      simp only [callStep, hphase, hresult]
      exact ho)
    omega

/-- For any number of overlapping calls, in any order of their steps, no function starts
while the circuit is open less than its timeout, and the circuit closes only after enough
successful probes and no failed one, exactly when no call starts after an opening that came
after its admission as long as that one counts, and the successes that close the circuit all
come from calls admitted after the latest opening. -/
theorem breaker_protects_iff (cb : CircuitBreaker) (now : ℚ)
    (es : List (Caller × BreakerInput)) :
    Always cb.callsStep cb.Protects (BreakerConfig.start now : BreakerConfig Caller) es ↔
      Meets cb.callsStep cb.OutcomesFresh (BreakerConfig.start now) es := by
  apply always_iff_meets (BreakerInvariant cb) (fun _ h => h.protects)
  · exact fun _ _ h hcond => h.step hcond
  · exact fun _ _ h hcond => h.not_protects hcond
  · refine ⟨⟨?_, ?_, ?_, ?_, ?_, ?_⟩, fun i => .outside, ?_, ?_⟩
    · exact fun hother => absurd rfl hother
    · exact fun hother => by cases hother
    · exact fun hother => by cases hother
    · exact fun hother => by cases hother
    · exact fun hother => by cases hother
    · exact fun hother => by cases hother
    · exact fun _ hstart => by cases hstart
    · exact fun _ ho => by cases ho

/-- A breaker that opens at the first failure and closes at the first success. -/
def touchyBreaker : CircuitBreaker where
  name := "horizon"
  failureThreshold := 1
  timeoutSeconds := 60
  successThreshold := 1

/-- Two calls are admitted at once; the first fails and opens the circuit. After the timeout
a third is admitted as a probe. Before it has an outcome, the second returns, and the circuit
closes. -/
theorem stale_success_closes :
    ¬Always touchyBreaker.callsStep touchyBreaker.Protects
      (BreakerConfig.start 0 : BreakerConfig ℕ)
      [(0, ⟨0, .returned⟩), (0, ⟨0, .returned⟩), (1, ⟨0, .returned⟩), (1, ⟨0, .returned⟩),
        (0, ⟨1, .raised⟩), (2, ⟨61, .returned⟩), (2, ⟨61, .returned⟩), (1, ⟨62, .returned⟩)] := by
  decide +kernel

end Runs

end LedgerLens.Utils
