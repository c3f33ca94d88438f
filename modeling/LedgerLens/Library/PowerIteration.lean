import Mathlib.Algebra.BigOperators.Ring.Finset
import Mathlib.Algebra.Order.BigOperators.Ring.Finset
import Mathlib.Algebra.Order.Field.Basic
import Mathlib.Tactic.Linarith
import Mathlib.Tactic.SplitIfs

/-!
# Power iteration with restarts

A vector is multiplied by a matrix and pulled back to where it started, again and again, until it
hardly changes or a number of turns is over. What every turn preserves holds of the result: its
entries are not negative, and they are zero outside of every set that the matrix does not leave.
They add up to one as long as nothing has come to a row that does not.
-/

namespace PowerIteration

section Until

variable {X : Type*} (step : X → X) (done : X → X → Prop) [∀ x x', Decidable (done x x')]

/-- Take turns until one is done, at most a number of times. -/
def iterateUntil : ℕ → X → X
  | 0, x => x
  | turns + 1, x => if done x (step x) then step x else iterateUntil turns (step x)

/-- How many turns are taken. -/
def turnsTaken : ℕ → X → ℕ
  | 0, _ => 0
  | turns + 1, x => if done x (step x) then 1 else turnsTaken turns (step x) + 1

/-- The result is that of the turns that are taken. -/
theorem iterateUntil_eq (turns : ℕ) (x : X) :
    iterateUntil step done turns x = step^[turnsTaken step done turns x] x := by
  induction turns generalizing x with
  | zero => rfl
  | succ turns ih =>
    unfold iterateUntil turnsTaken
    split_ifs
    · rfl
    · rw [ih, Function.iterate_succ_apply]

theorem turnsTaken_le (turns : ℕ) (x : X) : turnsTaken step done turns x ≤ turns := by
  induction turns generalizing x with
  | zero => exact le_rfl
  | succ turns ih =>
    unfold turnsTaken
    split_ifs
    · exact Nat.succ_le_succ (Nat.zero_le turns)
    · exact Nat.succ_le_succ (ih (step x))

/-- A further turn is taken as long as none before was done. -/
theorem lt_turnsTaken_iff {d : ℕ} (turns : ℕ) (x : X) :
    d < turnsTaken step done turns x ↔
      d < turns ∧ ∀ t < d, ¬done (step^[t] x) (step^[t + 1] x) := by
  induction turns generalizing x d with
  | zero => simp [turnsTaken]
  | succ turns ih =>
    unfold turnsTaken
    cases d with
    | zero =>
      split_ifs <;> simp
    | succ d =>
      have hsplit : (∀ t < d + 1, ¬done (step^[t] x) (step^[t + 1] x)) ↔
          ¬done x (step x) ∧ ∀ t < d, ¬done (step^[t] (step x)) (step^[t + 1] (step x)) := by
        rw [Nat.forall_lt_succ_left]
        rfl
      rw [hsplit]
      split_ifs with hdone
      · exact iff_of_false (by omega) fun h => h.2.1 hdone
      · rw [Nat.succ_lt_succ_iff, Nat.succ_lt_succ_iff, ih]
        exact ⟨fun h => ⟨h.1, hdone, h.2⟩, fun h => ⟨h.1, h.2.2⟩⟩

end Until

variable {ι K : Type*} [Fintype ι] [Field K] [LinearOrder K]

/-- One turn: follow the matrix from rows to columns, and restart with a certain weight. -/
def restartStep (A : ι → ι → K) (alpha : K) (start x : ι → K) : ι → K :=
  fun j => (1 - alpha) * ∑ i, A i j * x i + alpha * start j

/-- Take turns until the change is less than the tolerance, at most a number of times. -/
def iterate (step : (ι → K) → ι → K) (tolerance : K) : ℕ → (ι → K) → ι → K
  | 0, x => x
  | turns + 1, x =>
    if ∑ i, |step x i - x i| < tolerance then step x
    else iterate step tolerance turns (step x)

/-- Power iteration is done when a turn changes little. -/
theorem iterate_eq_iterateUntil (step : (ι → K) → ι → K) (tolerance : K) (turns : ℕ) (x : ι → K) :
    iterate step tolerance turns x =
      iterateUntil step (fun x x' => ∑ i, |x' i - x i| < tolerance) turns x := by
  induction turns generalizing x with
  | zero => rfl
  | succ turns ih =>
    unfold iterate iterateUntil
    rw [ih]

/-- What every turn preserves holds of the result. -/
theorem iterate_invariant {step : (ι → K) → ι → K} {P : (ι → K) → Prop}
    (hstep : ∀ x, P x → P (step x)) (tolerance : K) (turns : ℕ) {x : ι → K} (hx : P x) :
    P (iterate step tolerance turns x) := by
  induction turns generalizing x with
  | zero => exact hx
  | succ turns ih =>
    unfold iterate
    split_ifs
    · exact hstep x hx
    · exact ih (hstep x hx)

variable {A : ι → ι → K} {alpha : K} {start : ι → K}

/-- Entries outside of a set that the matrix does not leave stay zero. -/
theorem iterate_eq_zero {s : Set ι} (hclosed : ∀ i ∈ s, ∀ j, A i j ≠ 0 → j ∈ s)
    (hstart : ∀ i ∉ s, start i = 0) (tolerance : K) (turns : ℕ) :
    ∀ j ∉ s, iterate (restartStep A alpha start) tolerance turns start j = 0 := by
  refine iterate_invariant (P := fun x => ∀ j ∉ s, x j = 0) (fun x hx j hj => ?_) tolerance turns
    hstart
  unfold restartStep
  have hterm : ∀ i, A i j * x i = 0 := by
    intro i
    by_cases hi : i ∈ s
    · have hA : A i j = 0 := by
        by_contra hne
        exact hj (hclosed i hi j hne)
      rw [hA, zero_mul]
    · rw [hx i hi, mul_zero]
  rw [Finset.sum_eq_zero fun i _ => hterm i, hstart j hj, mul_zero, mul_zero, add_zero]

omit [LinearOrder K] in
/-- What is spread over the entries after a turn. -/
theorem sum_restartStep (x : ι → K) :
    ∑ j, restartStep A alpha start x j =
      (1 - alpha) * ∑ i, (∑ j, A i j) * x i + alpha * ∑ j, start j := by
  unfold restartStep
  rw [Finset.sum_add_distrib, ← Finset.mul_sum, ← Finset.mul_sum, Finset.sum_comm]
  simp only [Finset.sum_mul]

omit [LinearOrder K] in
/-- The difference of two vectors after a turn. -/
theorem restartStep_sub (x y : ι → K) (j : ι) :
    restartStep A alpha start y j - restartStep A alpha start x j =
      (1 - alpha) * ∑ i, A i j * (y i - x i) := by
  simp only [restartStep, mul_sub, Finset.sum_sub_distrib]
  ring

/-- One step along the matrix without a restart. -/
def walkStep (A : ι → ι → K) (x : ι → K) : ι → K := fun j => ∑ i, A i j * x i

omit [LinearOrder K] in
/-- A turn changes what the walks from the start do in their next step, by less in each turn. -/
theorem orbit_change (t : ℕ) (j : ι) :
    (restartStep A alpha start)^[t + 1] start j - (restartStep A alpha start)^[t] start j =
      (1 - alpha) ^ (t + 1) *
        ((walkStep A)^[t + 1] start j - (walkStep A)^[t] start j) := by
  induction t generalizing j with
  | zero =>
    simp only [Function.iterate_succ_apply', Function.iterate_zero, id_eq, restartStep, walkStep]
    ring
  | succ t ih =>
    rw [Function.iterate_succ_apply' (restartStep A alpha start) (t + 1),
      Function.iterate_succ_apply' (walkStep A) (t + 1)]
    nth_rewrite 2 [Function.iterate_succ_apply' (restartStep A alpha start) t]
    nth_rewrite 2 [Function.iterate_succ_apply' (walkStep A) t]
    rw [restartStep_sub]
    unfold walkStep
    rw [← Finset.sum_sub_distrib, Finset.mul_sum, Finset.mul_sum]
    refine Finset.sum_congr rfl fun i _ => ?_
    rw [ih i]
    unfold walkStep
    ring

variable [IsStrictOrderedRing K]

/-- Entries stay nonnegative. -/
theorem iterate_nonneg (hA : ∀ i j, 0 ≤ A i j) (halpha : 0 ≤ alpha) (halpha' : alpha ≤ 1)
    (hstart : ∀ i, 0 ≤ start i) (tolerance : K) (turns : ℕ) (j : ι) :
    0 ≤ iterate (restartStep A alpha start) tolerance turns start j := by
  refine iterate_invariant (P := fun x => ∀ j, 0 ≤ x j) (fun x hx j => ?_) tolerance turns
    hstart j
  have hsum : 0 ≤ ∑ i, A i j * x i := Finset.sum_nonneg fun i _ => mul_nonneg (hA i j) (hx i)
  exact add_nonneg (mul_nonneg (sub_nonneg.mpr halpha') hsum) (mul_nonneg halpha (hstart j))

/-- An index is reached from another one in some steps along positive entries. -/
def Hops (A : ι → ι → K) : ℕ → ι → ι → Prop
  | 0, i, j => i = j
  | d + 1, i, j => ∃ m, Hops A d i m ∧ 0 < A m j

section Mass

variable (hA : ∀ i j, 0 ≤ A i j) (halpha : 0 ≤ alpha) (halpha' : alpha < 1)
  (hstart : ∀ i, 0 ≤ start i)

include hA halpha halpha' hstart

/-- Entries stay nonnegative in each turn. -/
theorem orbit_nonneg (t : ℕ) (j : ι) : 0 ≤ (restartStep A alpha start)^[t] start j := by
  induction t generalizing j with
  | zero => exact hstart j
  | succ t ih =>
    rw [Function.iterate_succ_apply']
    have hsum : 0 ≤ ∑ i, A i j * (restartStep A alpha start)^[t] start i :=
      Finset.sum_nonneg fun i _ => mul_nonneg (hA i j) (ih i)
    exact add_nonneg (mul_nonneg (sub_nonneg.mpr halpha'.le) hsum) (mul_nonneg halpha (hstart j))

/-- The entries add up to one exactly as long as nothing was at an index whose row does not. -/
theorem sum_orbit_eq_one_iff (hrow : ∀ i, ∑ j, A i j ≤ 1) (hone : ∑ j, start j = 1) (t : ℕ) :
    ∑ j, (restartStep A alpha start)^[t] start j ≤ 1 ∧
      (∑ j, (restartStep A alpha start)^[t] start j = 1 ↔
        ∀ s < t, ∀ i, ∑ j, A i j ≠ 1 → (restartStep A alpha start)^[s] start i = 0) := by
  induction t with
  | zero => exact ⟨hone.le, iff_of_true hone fun s hs => absurd hs (Nat.not_lt_zero s)⟩
  | succ t ih =>
    obtain ⟨hle, hiff⟩ := ih
    obtain ⟨x, hx⟩ : ∃ x, x = (restartStep A alpha start)^[t] start := ⟨_, rfl⟩
    have hnonneg : ∀ i, 0 ≤ x i := by
      rw [hx]
      exact orbit_nonneg hA halpha halpha' hstart t
    rw [← hx] at hle hiff
    rw [Function.iterate_succ_apply', ← hx, sum_restartStep, hone, mul_one]
    have hpos : 0 < 1 - alpha := sub_pos.mpr halpha'
    have hterm : ∀ i ∈ Finset.univ, (∑ j, A i j) * x i ≤ x i := fun i _ =>
      mul_le_of_le_one_left (hnonneg i) (hrow i)
    have hspread : ∑ i, (∑ j, A i j) * x i ≤ ∑ i, x i := Finset.sum_le_sum hterm
    have hmass : (1 - alpha) * ∑ i, (∑ j, A i j) * x i ≤ (1 - alpha) * 1 :=
      mul_le_mul_of_nonneg_left (hspread.trans hle) hpos.le
    refine ⟨by linarith, ?_⟩
    have hfull : (1 - alpha) * ∑ i, (∑ j, A i j) * x i + alpha = 1 ↔
        ∑ i, (∑ j, A i j) * x i = ∑ i, x i ∧ ∑ i, x i = 1 := by
      constructor
      · intro h
        have hall : (1 - alpha) * ∑ i, (∑ j, A i j) * x i = (1 - alpha) * 1 := by linarith
        have hsum := mul_left_cancel₀ hpos.ne' hall
        have hx1 : ∑ i, x i = 1 := le_antisymm hle (hsum.symm.trans_le hspread)
        exact ⟨hsum.trans hx1.symm, hx1⟩
      · rintro ⟨hsum, hx1⟩
        rw [hsum, hx1]
        ring
    have hkept : ∑ i, (∑ j, A i j) * x i = ∑ i, x i ↔ ∀ i, ∑ j, A i j ≠ 1 → x i = 0 := by
      rw [Finset.sum_eq_sum_iff_of_le hterm]
      refine forall_congr' fun i => ?_
      rw [← sub_eq_zero, ← sub_one_mul, mul_eq_zero, sub_eq_zero]
      simp [or_iff_not_imp_left]
    rw [hfull, hkept, hiff, Nat.forall_lt_succ_right, ← hx, and_comm]

/-- What is positive in a turn has been reached from the start. -/
theorem orbit_pos_iff (hpos : 0 < alpha) (t : ℕ) (j : ι) :
    0 < (restartStep A alpha start)^[t] start j ↔
      ∃ d ≤ t, ∃ i, 0 < start i ∧ Hops A d i j := by
  induction t generalizing j with
  | zero =>
    constructor
    · exact fun h => ⟨0, le_rfl, j, h, rfl⟩
    · rintro ⟨d, hd, i, hi, hreach⟩
      obtain rfl := Nat.le_zero.mp hd
      obtain rfl : i = j := hreach
      exact hi
  | succ t ih =>
    have hterm : ∀ i ∈ Finset.univ, 0 ≤ A i j * (restartStep A alpha start)^[t] start i :=
      fun i _ => mul_nonneg (hA i j) (orbit_nonneg hA halpha halpha' hstart t i)
    have hstep : 0 < (restartStep A alpha start)^[t + 1] start j ↔
        (∃ i, 0 < A i j ∧ 0 < (restartStep A alpha start)^[t] start i) ∨ 0 < start j := by
      rw [Function.iterate_succ_apply']
      have hspread : 0 < (1 - alpha) * ∑ i, A i j * (restartStep A alpha start)^[t] start i ↔
          ∃ i, 0 < A i j ∧ 0 < (restartStep A alpha start)^[t] start i := by
        rw [mul_pos_iff_of_pos_left (sub_pos.mpr halpha'), Finset.sum_pos_iff_of_nonneg hterm]
        refine exists_congr fun i => ?_
        rw [and_iff_right (Finset.mem_univ i)]
        have hentry := orbit_nonneg hA halpha halpha' hstart t i
        constructor
        · intro h
          exact ⟨pos_of_mul_pos_left h hentry, pos_of_mul_pos_right h (hA i j)⟩
        · exact fun h => mul_pos h.1 h.2
      have hback : 0 < alpha * start j ↔ 0 < start j := mul_pos_iff_of_pos_left hpos
      rw [← hspread, ← hback]
      have hleft := mul_nonneg (sub_nonneg.mpr halpha'.le) (Finset.sum_nonneg hterm)
      have hright := mul_nonneg halpha (hstart j)
      constructor
      · intro h
        by_contra hno
        rw [not_or, not_lt, not_lt] at hno
        exact absurd h (not_lt.mpr (add_nonpos hno.1 hno.2))
      · rintro (h | h)
        · exact add_pos_of_pos_of_nonneg h hright
        · exact add_pos_of_nonneg_of_pos hleft h
    rw [hstep]
    constructor
    · rintro (⟨m, hentry, hm⟩ | hj)
      · obtain ⟨d, hd, i, hi, hreach⟩ := (ih m).mp hm
        exact ⟨d + 1, Nat.succ_le_succ hd, i, hi, m, hreach, hentry⟩
      · exact ⟨0, Nat.zero_le _, j, hj, rfl⟩
    · rintro ⟨d, hd, i, hi, hreach⟩
      cases d with
      | zero =>
        obtain rfl : i = j := hreach
        exact Or.inr hi
      | succ d =>
        obtain ⟨m, hm, hentry⟩ := hreach
        exact Or.inl ⟨m, hentry, (ih m).mpr ⟨d, Nat.le_of_succ_le_succ hd, i, hi, hm⟩⟩

end Mass

/-- The distance of two vectors. -/
def distance (x y : ι → K) : K := ∑ i, |y i - x i|

theorem distance_triangle (x y z : ι → K) : distance x z ≤ distance x y + distance y z := by
  unfold distance
  rw [← Finset.sum_add_distrib]
  refine Finset.sum_le_sum fun i _ => ?_
  rw [add_comm]
  exact abs_sub_le (z i) (y i) (x i)

theorem abs_sub_le_distance (x y : ι → K) (i : ι) : |y i - x i| ≤ distance x y :=
  Finset.single_le_sum (f := fun i => |y i - x i|) (fun i _ => abs_nonneg (y i - x i))
    (Finset.mem_univ i)

/-- A turn brings vectors closer together. -/
theorem distance_restartStep_le (hA : ∀ i j, 0 ≤ A i j) (halpha' : alpha ≤ 1)
    (hrow : ∀ i, ∑ j, A i j ≤ 1) (x y : ι → K) :
    distance (restartStep A alpha start x) (restartStep A alpha start y) ≤
      (1 - alpha) * distance x y := by
  have hnonneg : 0 ≤ 1 - alpha := sub_nonneg.mpr halpha'
  have hbound : ∀ j ∈ Finset.univ,
      |restartStep A alpha start y j - restartStep A alpha start x j| ≤
        (1 - alpha) * ∑ i, A i j * |y i - x i| := by
    intro j _
    rw [restartStep_sub, abs_mul, abs_of_nonneg hnonneg]
    refine mul_le_mul_of_nonneg_left ?_ hnonneg
    calc |∑ i, A i j * (y i - x i)|
        ≤ ∑ i, |A i j * (y i - x i)| := Finset.abs_sum_le_sum_abs _ _
      _ = ∑ i, A i j * |y i - x i| := by
        simp only [abs_mul, abs_of_nonneg (hA _ j)]
  refine (Finset.sum_le_sum hbound).trans ?_
  unfold distance
  rw [← Finset.mul_sum, Finset.sum_comm]
  refine mul_le_mul_of_nonneg_left (Finset.sum_le_sum fun i _ => ?_) hnonneg
  rw [← Finset.sum_mul]
  exact mul_le_of_le_one_left (abs_nonneg _) (hrow i)

/-- After a turn, all later ones together move the vector by little more than this turn did. -/
theorem distance_later_le (hA : ∀ i j, 0 ≤ A i j) (halpha : 0 ≤ alpha) (halpha' : alpha ≤ 1)
    (hrow : ∀ i, ∑ j, A i j ≤ 1) (x : ι → K) (m : ℕ) :
    alpha * distance (restartStep A alpha start x)
        ((restartStep A alpha start)^[m] (restartStep A alpha start x)) ≤
      (1 - alpha) * distance x (restartStep A alpha start x) := by
  obtain ⟨f, hf⟩ : ∃ f, f = restartStep A alpha start := ⟨_, rfl⟩
  rw [← hf]
  have hcloser : ∀ y z, distance (f y) (f z) ≤ (1 - alpha) * distance y z := by
    rw [hf]
    exact distance_restartStep_le hA halpha' hrow
  -- What the turns so far have moved, and what the next one will.
  have hsum : alpha * distance (f x) (f^[m] (f x)) +
      distance (f^[m] (f x)) (f^[m + 1] (f x)) ≤ distance (f x) (f (f x)) := by
    induction m with
    | zero =>
      have hself : distance (f x) (f x) = 0 := by simp [distance]
      rw [Function.iterate_zero_apply, hself, mul_zero, zero_add, zero_add,
        Function.iterate_one]
    | succ m ih =>
      have htriangle := distance_triangle (f x) (f^[m] (f x)) (f^[m + 1] (f x))
      have hnext := hcloser (f^[m] (f x)) (f^[m + 1] (f x))
      rw [← Function.iterate_succ_apply' f m, ← Function.iterate_succ_apply' f (m + 1)] at hnext
      have hscaled := mul_le_mul_of_nonneg_left htriangle halpha
      linarith
  have hfirst := hcloser x (f x)
  have hmoved : 0 ≤ distance (f^[m] (f x)) (f^[m + 1] (f x)) :=
    Finset.sum_nonneg fun i _ => abs_nonneg _
  linarith

end PowerIteration
