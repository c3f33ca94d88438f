import Mathlib.Algebra.Order.Field.Rat

/-!
# The circuit breaker

`CircuitBreaker` of `utils/circuit_breaker.py` guards the calls to a component. A call is
admitted under the lock, its function runs outside, and its outcome is recorded under the
lock again. Nothing links the outcome to the state in which the call was admitted.
-/

namespace LedgerLens.Utils

/-- `CircuitState`. -/
inductive CircuitState where
  | closed
  | open
  | halfOpen
  deriving DecidableEq, Repr

/-- The settings of a `CircuitBreaker`. -/
structure CircuitBreaker where
  /-- `name`. -/
  name : String
  /-- `failure_threshold`. -/
  failureThreshold : ℕ := 5
  /-- `timeout_seconds`. -/
  timeoutSeconds : ℚ := 60
  /-- `success_threshold`. -/
  successThreshold : ℕ := 2
  /-- At least one failure opens the circuit. -/
  failureThreshold_pos : 1 ≤ failureThreshold := by decide
  /-- The circuit does not stay open for a negative time. -/
  timeoutSeconds_nonneg : 0 ≤ timeoutSeconds := by decide
  /-- At least one success closes the circuit. -/
  successThreshold_pos : 1 ≤ successThreshold := by decide

/-- The fields that the lock protects, and the gauge of the component. -/
structure BreakerFields where
  /-- `_state`. -/
  state : CircuitState := .closed
  /-- `_consecutive_failures`. -/
  consecutiveFailures : ℕ := 0
  /-- `_consecutive_successes`. -/
  consecutiveSuccesses : ℕ := 0
  /-- `_opened_at`. -/
  openedAt : Option ℚ := none
  /-- What was last written to `ledgerlens_circuit_open`. -/
  gauge : Option ℕ := none
  deriving DecidableEq

namespace CircuitBreaker

/-- `_effective_state`: an open circuit counts as half open once the timeout has elapsed. -/
def effectiveState (cb : CircuitBreaker) (now : ℚ) (b : BreakerFields) :
    Except String CircuitState :=
  match b.state with
  | .open =>
    match b.openedAt with
    | none => .error "AssertionError"
    | some openedAt => if cb.timeoutSeconds ≤ now - openedAt then .ok .halfOpen else .ok .open
  | state => .ok state

/-- The message of `CircuitOpenError`. -/
def circuitOpenError (cb : CircuitBreaker) : String :=
  "Circuit '" ++ cb.name ++ "' is OPEN — call rejected"

/-- The first critical section of `call`: reject it, or let it through. -/
def enterCall (cb : CircuitBreaker) (now : ℚ) (b : BreakerFields) : Except String BreakerFields :=
  match cb.effectiveState now b with
  | .error e => .error e
  | .ok .open => .error cb.circuitOpenError
  | .ok _ =>
    .ok (if b.state = .open then { b with state := .halfOpen, consecutiveSuccesses := 0 } else b)

/-- `_record_success`. -/
def recordSuccess (cb : CircuitBreaker) (b : BreakerFields) : BreakerFields :=
  match b.state with
  | .halfOpen =>
    if cb.successThreshold ≤ b.consecutiveSuccesses + 1 then { gauge := some 0 }
    else { b with consecutiveSuccesses := b.consecutiveSuccesses + 1 }
  | .closed => { b with consecutiveFailures := 0 }
  | .open => b

/-- `_record_failure`. -/
def recordFailure (cb : CircuitBreaker) (now : ℚ) (b : BreakerFields) : BreakerFields :=
  if b.state = .halfOpen then
    { b with state := .open, openedAt := some now, consecutiveSuccesses := 0, gauge := some 1 }
  else if b.state = .closed ∧ cb.failureThreshold ≤ b.consecutiveFailures + 1 then
    { b with
      consecutiveFailures := b.consecutiveFailures + 1
      state := .open
      openedAt := some now
      gauge := some 1 }
  else { b with consecutiveFailures := b.consecutiveFailures + 1 }

variable {cb : CircuitBreaker} {now : ℚ} {b b' : BreakerFields}

/-- What an admission does: nothing, or it makes an open circuit half open whose timeout
has elapsed. -/
theorem enterCall_cases (h : cb.enterCall now b = .ok b') :
    b.state ≠ .open ∧ b' = b ∨
      b.state = .open ∧ (∃ openedAt, b.openedAt = some openedAt ∧
        cb.timeoutSeconds ≤ now - openedAt) ∧
        b' = { b with state := .halfOpen, consecutiveSuccesses := 0 } := by
  unfold enterCall effectiveState at h
  cases hstate : b.state with
  | closed => simp_all
  | halfOpen => simp_all
  | «open» =>
    simp only [hstate] at h
    cases hopened : b.openedAt with
    | none => simp [hopened] at h
    | some openedAt =>
      simp only [hopened] at h
      by_cases helapsed : cb.timeoutSeconds ≤ now - openedAt
      · simp only [if_pos helapsed, if_true, Except.ok.injEq] at h
        exact Or.inr ⟨rfl, ⟨openedAt, rfl, helapsed⟩, h.symm⟩
      · simp [if_neg helapsed] at h

/-- A failure opens the circuit, from half open or at the threshold, or is counted. -/
theorem recordFailure_cases (cb : CircuitBreaker) (now : ℚ) (b : BreakerFields) :
    b.state ≠ .open ∧ (cb.recordFailure now b).state = .open ∧
        (cb.recordFailure now b).openedAt = some now ∨
      b.state ≠ .halfOpen ∧
        cb.recordFailure now b = { b with consecutiveFailures := b.consecutiveFailures + 1 } := by
  unfold recordFailure
  split_ifs with hhalf hclosed
  · exact Or.inl ⟨by simp [hhalf], rfl, rfl⟩
  · exact Or.inl ⟨by simp [hclosed.1], rfl, rfl⟩
  · exact Or.inr ⟨hhalf, rfl⟩

/-- A success counts only while the circuit is half open or closed. -/
theorem recordSuccess_of_halfOpen (h : b.state = .halfOpen) :
    cb.recordSuccess b =
      if cb.successThreshold ≤ b.consecutiveSuccesses + 1 then { gauge := some 0 }
      else { b with consecutiveSuccesses := b.consecutiveSuccesses + 1 } := by
  simp [recordSuccess, h]

theorem recordSuccess_of_closed (h : b.state = .closed) :
    cb.recordSuccess b = { b with consecutiveFailures := 0 } := by
  simp [recordSuccess, h]

theorem recordSuccess_of_open (h : b.state = .open) : cb.recordSuccess b = b := by
  simp [recordSuccess, h]

end CircuitBreaker

end LedgerLens.Utils
