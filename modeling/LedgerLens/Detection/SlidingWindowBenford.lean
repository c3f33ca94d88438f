import LedgerLens.Library.Raising
import Mathlib.Data.List.Sort
import Mathlib.Data.Prod.Lex
import Mathlib.Algebra.BigOperators.Fin

/-!
# The sliding-window Benford aggregator

`SlidingWindowBenfordAggregator` counts the leading digits of the trades of a trailing time
window. A trade leaves the counts when `add_trade` finds its heap entry older than the window,
or when `expire_trade` is called for it.

Floating-point numbers are a parameter: a type of amounts, and a linearly ordered type of
timestamps with the cutoff of the window.
-/

namespace LedgerLens.Detection

open Raising

/-- What `_leading_digit` computes with floating-point amounts. -/
structure AmountTools (Amount : Type) where
  /-- `math.isfinite(amount)`. -/
  isFinite : Amount → Bool
  /-- `amount <= 0`. -/
  nonpos : Amount → Bool
  /-- `int(amount / (10.0**math.floor(math.log10(amount))))`; there is none where the power
  underflows and the division raises. -/
  scaledDigit : Amount → Option ℤ

/-- The exceptions of the aggregator. -/
inductive AggregatorError where
  /-- `ZeroDivisionError`. -/
  | zeroDivision
  deriving DecidableEq, Repr

/-- The index `digit - 1` of `max(1, min(9, digit))`. -/
def digitIndex (digit : ℤ) : Fin 9 := ⟨(max 1 (min 9 digit) - 1).toNat, by omega⟩

/-- `_leading_digit`, as an index of the counts. -/
def leadingDigit {Amount : Type} (tools : AmountTools Amount) (amount : Amount) :
    Except AggregatorError (Option (Fin 9)) :=
  if !tools.isFinite amount || tools.nonpos amount then .ok none
  else
    match tools.scaledDigit amount with
    | none => .error .zeroDivision
    | some digit => .ok (some (digitIndex digit))

/-- `SlidingWindowBenfordAggregator`. -/
structure WindowAggregator (Time : Type) where
  /-- `_digit_counts`. -/
  digitCounts : Fin 9 → ℕ := fun _ => 0
  /-- `_total`. -/
  total : ℤ := 0
  /-- `_heap`: timestamps and digits, in the order in which they are popped. -/
  heap : List (Time ×ₗ Fin 9) := []

/-- How an aggregator is made. -/
structure WindowConfig (Amount Time : Type) where
  /-- The arithmetic of the amounts. -/
  tools : AmountTools Amount
  /-- `current_ts - self.window_seconds`. -/
  cutoff : Time → Time

section

variable {Amount Time : Type} [LinearOrder Time]

namespace WindowAggregator

omit [LinearOrder Time] in
/-- Take one trade of a digit off the counts, unless there is none. -/
def subtract (aggregator : WindowAggregator Time) (digit : Fin 9) : WindowAggregator Time :=
  if 0 < aggregator.digitCounts digit then
    { aggregator with
      digitCounts := Function.update aggregator.digitCounts digit
        (aggregator.digitCounts digit - 1)
      total := aggregator.total - 1 }
  else aggregator

/-- The loop of `_lazy_expire` over the heap. -/
def expireLoop (cutoff : Time) (aggregator : WindowAggregator Time) :
    List (Time ×ₗ Fin 9) → WindowAggregator Time
  | [] => { aggregator with heap := [] }
  | entry :: heap =>
    if (ofLex entry).1 ≤ cutoff then
      expireLoop cutoff (aggregator.subtract (ofLex entry).2) heap
    else { aggregator with heap := entry :: heap }

/-- `_lazy_expire`. -/
def lazyExpire (config : WindowConfig Amount Time) (currentTs : Time)
    (aggregator : WindowAggregator Time) : WindowAggregator Time :=
  expireLoop (config.cutoff currentTs) aggregator aggregator.heap

/-- The part of `add_trade` that counts an accepted trade. -/
def count (timestamp : Time) (digit : Fin 9) (aggregator : WindowAggregator Time) :
    WindowAggregator Time where
  digitCounts := Function.update aggregator.digitCounts digit (aggregator.digitCounts digit + 1)
  total := aggregator.total + 1
  heap := aggregator.heap.orderedInsert (· ≤ ·) (toLex (timestamp, digit))

/-- `add_trade`. -/
def addTrade (config : WindowConfig Amount Time) (amount : Amount) (timestamp : Time) :
    Raising (WindowAggregator Time) AggregatorError Unit := do
  modify (lazyExpire config timestamp)
  match ← Raising.ofExcept (leadingDigit config.tools amount) with
  | none => pure ()
  | some digit => modify (count timestamp digit)

/-- `expire_trade`, which does not look at the timestamp. -/
def expireTrade (config : WindowConfig Amount Time) (amount : Amount) (_timestamp : Time) :
    Raising (WindowAggregator Time) AggregatorError Unit := do
  match ← Raising.ofExcept (leadingDigit config.tools amount) with
  | none => pure ()
  | some digit => modify fun aggregator => aggregator.subtract digit

variable {config : WindowConfig Amount Time} {amount : Amount} {timestamp : Time}
  {aggregator : WindowAggregator Time}

/-- What `add_trade` leaves behind. -/
theorem exec_addTrade (config : WindowConfig Amount Time) (amount : Amount) (timestamp : Time)
    (aggregator : WindowAggregator Time) :
    (exec (addTrade config amount timestamp) aggregator).2 =
      match leadingDigit config.tools amount with
      | .ok (some digit) => (aggregator.lazyExpire config timestamp).count timestamp digit
      | _ => aggregator.lazyExpire config timestamp := by
  unfold addTrade
  rw [exec_bind, exec_modify]
  dsimp only
  rw [exec_bind, exec_ofExcept]
  cases leadingDigit config.tools amount with
  | error e => rfl
  | ok digit => cases digit <;> rfl

omit [LinearOrder Time] in
/-- What `expire_trade` leaves behind. -/
theorem exec_expireTrade (config : WindowConfig Amount Time) (amount : Amount)
    (timestamp : Time) (aggregator : WindowAggregator Time) :
    (exec (expireTrade config amount timestamp) aggregator).2 =
      match leadingDigit config.tools amount with
      | .ok (some digit) => aggregator.subtract digit
      | _ => aggregator := by
  unfold expireTrade
  rw [exec_bind, exec_ofExcept]
  cases leadingDigit config.tools amount with
  | error e => rfl
  | ok digit => cases digit <;> rfl

/-- The total is the sum of the counts. -/
def Totals (aggregator : WindowAggregator Time) : Prop :=
  aggregator.total = ∑ digit, (aggregator.digitCounts digit : ℤ)

omit [LinearOrder Time] in
/-- Changing one count changes the sum by as much. -/
private theorem sum_update (counts : Fin 9 → ℕ) (digit : Fin 9) (n : ℕ) :
    ∑ d, ((Function.update counts digit n d : ℕ) : ℤ) =
      ∑ d, (counts d : ℤ) + (n - counts digit) := by
  have hcast : ∀ d, ((Function.update counts digit n d : ℕ) : ℤ) =
      Function.update (fun d => (counts d : ℤ)) digit (n : ℤ) d := by
    intro d
    by_cases h : d = digit
    · subst h
      simp
    · simp [h]
  have hsum := Finset.add_sum_erase Finset.univ (fun d => (counts d : ℤ)) (Finset.mem_univ digit)
  have hupdate := Finset.sum_update_of_mem (Finset.mem_univ digit)
    (fun d => (counts d : ℤ)) (n : ℤ)
  rw [Finset.sdiff_singleton_eq_erase] at hupdate
  rw [Finset.sum_congr rfl fun d _ => hcast d, hupdate]
  omega

omit [LinearOrder Time] in
theorem Totals.subtract (h : aggregator.Totals) (digit : Fin 9) :
    (aggregator.subtract digit).Totals := by
  unfold WindowAggregator.subtract
  split_ifs with hpos
  · unfold Totals at h ⊢
    have hsum := sum_update aggregator.digitCounts digit (aggregator.digitCounts digit - 1)
    dsimp only
    omega
  · exact h

theorem Totals.expireLoop (cutoff : Time) (heap : List (Time ×ₗ Fin 9))
    (h : aggregator.Totals) : (aggregator.expireLoop cutoff heap).Totals := by
  induction heap generalizing aggregator with
  | nil => exact h
  | cons entry heap ih =>
    unfold WindowAggregator.expireLoop
    split_ifs with hold
    · exact ih (h.subtract _)
    · exact h

theorem Totals.count (h : aggregator.Totals) (digit : Fin 9) :
    (aggregator.count timestamp digit).Totals := by
  unfold Totals at h ⊢
  have hsum := sum_update aggregator.digitCounts digit (aggregator.digitCounts digit + 1)
  dsimp only [WindowAggregator.count]
  omega

/-- The heap after `_lazy_expire`: the entries behind the cutoff are gone. -/
theorem heap_expireLoop (cutoff : Time) (heap : List (Time ×ₗ Fin 9))
    (aggregator : WindowAggregator Time) :
    (aggregator.expireLoop cutoff heap).heap =
      heap.dropWhile fun entry => (ofLex entry).1 ≤ cutoff := by
  induction heap generalizing aggregator with
  | nil => rfl
  | cons entry heap ih =>
    unfold expireLoop
    by_cases h : (ofLex entry).1 ≤ cutoff
    · rw [if_pos h, ih]
      simp [h]
    · simp [h]

end WindowAggregator

end

end LedgerLens.Detection
