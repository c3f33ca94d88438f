import Mathlib.Algebra.BigOperators.Group.List.Basic
import Mathlib.Algebra.Order.Field.Basic
import Mathlib.Tactic.Linarith

/-!
# Token buckets

A bucket holds tokens up to a capacity and is filled at a constant rate. What is taken out of it
between two times is at most the capacity and what was filled in between.
-/

namespace TokenBucket

variable {K : Type*} [Field K] [LinearOrder K]

/-- What may be taken out of a bucket with a level at a time: a list of times and amounts. After
each of them the bucket has a new level, and level and amount together are at most the capacity and
at most what the bucket was filled up to. -/
inductive Spends (capacity rate : K) : K → K → List (K × K) → Prop
  /-- Nothing more is taken. -/
  | nil {level time : K} : 0 ≤ level → Spends capacity rate level time []
  /-- An amount is taken at a later time. -/
  | cons {level level' time time' amount : K} {rest : List (K × K)} :
    time ≤ time' → 0 ≤ level → 0 ≤ level' → level' + amount ≤ capacity →
    level' + amount ≤ level + rate * (time' - time) → Spends capacity rate level' time' rest →
    Spends capacity rate level time ((time', amount) :: rest)

/-- The amounts that are taken in an interval. -/
def total (t₁ t₂ : K) (taken : List (K × K)) : K :=
  (taken.map fun x => if t₁ ≤ x.1 ∧ x.1 ≤ t₂ then x.2 else 0).sum

@[simp] theorem total_nil (t₁ t₂ : K) : total t₁ t₂ [] = 0 := rfl

@[simp] theorem total_cons (t₁ t₂ : K) (x : K × K) (taken : List (K × K)) :
    total t₁ t₂ (x :: taken) =
      (if t₁ ≤ x.1 ∧ x.1 ≤ t₂ then x.2 else 0) + total t₁ t₂ taken := rfl

variable {capacity rate level time t₁ t₂ : K} {taken : List (K × K)}

theorem Spends.level_nonneg (h : Spends capacity rate level time taken) : 0 ≤ level := by
  cases h with
  | nil hlevel => exact hlevel
  | cons _ hlevel => exact hlevel

/-- Nothing is taken before the time of the level. -/
theorem Spends.total_eq_zero (h : Spends capacity rate level time taken) (ht : t₂ < time) :
    total t₁ t₂ taken = 0 := by
  induction h with
  | nil => rfl
  | cons htime _ _ _ _ _ ih =>
    rw [total_cons, if_neg fun hmem => (ht.trans_le htime).not_ge hmem.2, zero_add,
      ih (ht.trans_le htime)]

variable [IsStrictOrderedRing K]

/-- What is never more than nothing is nothing in total. -/
theorem total_nonpos (h : ∀ x ∈ taken, x.2 ≤ 0) : total t₁ t₂ taken ≤ 0 := by
  induction taken with
  | nil => exact le_rfl
  | cons x taken ih =>
    have hrest := ih fun y hy => h y (List.mem_cons_of_mem x hy)
    have hx := h x List.mem_cons_self
    rw [total_cons]
    split_ifs <;> linarith

/-- Until a time no more is taken than the level and what was filled in. -/
theorem Spends.total_le_level (h : Spends capacity rate level time taken) (hrate : 0 ≤ rate)
    (ht₁ : t₁ ≤ time) (ht₂ : time ≤ t₂) : total t₁ t₂ taken ≤ level + rate * (t₂ - time) := by
  induction h with
  | nil hlevel =>
    have hfilled := mul_nonneg hrate (sub_nonneg.mpr ht₂)
    rw [total_nil]
    linarith
  | @cons level level' time time' amount rest htime hlevel hlevel' _ hle hrest ih =>
    rcases le_or_gt time' t₂ with hin | hout
    · have hlater := ih (ht₁.trans htime) hin
      rw [total_cons, if_pos ⟨ht₁.trans htime, hin⟩]
      dsimp only
      linarith
    · have hfilled := mul_nonneg hrate (sub_nonneg.mpr ht₂)
      rw [total_cons, if_neg fun hmem => hout.not_ge hmem.2, hrest.total_eq_zero hout]
      linarith

/-- In an interval no more is taken than the capacity and what was filled in. -/
theorem Spends.total_le (h : Spends capacity rate level time taken) (hcapacity : 0 ≤ capacity)
    (hrate : 0 ≤ rate) (ht : t₁ ≤ t₂) : total t₁ t₂ taken ≤ capacity + rate * (t₂ - t₁) := by
  have hfilled := mul_nonneg hrate (sub_nonneg.mpr ht)
  induction h with
  | nil =>
    rw [total_nil]
    linarith
  | @cons level level' time time' amount rest htime _ _ hle _ hrest ih =>
    rw [total_cons]
    split_ifs with hmem
    · -- the first amount in the interval: the bucket is full at most before it
      have hlater := hrest.total_le_level hrate hmem.1 hmem.2
      have hwait := mul_le_mul_of_nonneg_left (sub_le_sub_left hmem.1 t₂) hrate
      dsimp only
      linarith
    · rw [zero_add]
      exact ih

end TokenBucket
