import Mathlib.Algebra.Order.Group.Defs
import Mathlib.Data.List.Basic
import Mathlib.Tactic.SplitIfs

/-!
# Rows that expire

Rows in the order of their times, of which the oldest are dropped while they are too old or too
many. What is left are the last rows, none of which is too old, and every row that was dropped was
too old or had too many rows after it.
-/

namespace ExpiringRows

variable {T Row : Type*} [AddCommGroup T] [LinearOrder T] (time : Row → T) (window : T)
  (limit : ℕ) (now : T)

/-- Drop the oldest rows while they are too old or too many. -/
def expire : List Row → List Row
  | [] => []
  | row :: rest =>
    if now - time row < window ∧ (row :: rest).length ≤ limit then row :: rest
    else expire rest

/-- What is dropped comes before what is left, and it was too old or had too many rows after it. -/
theorem exists_dropped (rows : List Row) :
    ∃ dropped, rows = dropped ++ expire time window limit now rows ∧
      ∀ before row after, dropped = before ++ row :: after → window ≤ now - time row ∨
        limit ≤ (after ++ expire time window limit now rows).length := by
  induction rows with
  | nil =>
    refine ⟨[], rfl, fun before row after h => ?_⟩
    exact absurd h (by simp)
  | cons row rest ih =>
    unfold expire
    split_ifs with hkeep
    · refine ⟨[], rfl, fun before row after h => ?_⟩
      exact absurd h (by simp)
    · obtain ⟨dropped, hrest, hstale⟩ := ih
      refine ⟨row :: dropped, by rw [List.cons_append, ← hrest], fun before row' after h => ?_⟩
      cases before with
      | nil =>
        obtain ⟨rfl, rfl⟩ := List.cons.inj h
        rw [← hrest]
        rw [not_and_or, not_lt, not_le, List.length_cons, Nat.lt_succ_iff] at hkeep
        exact hkeep
      | cons first before => exact hstale before row' after (List.cons.inj h).2

/-- There are not too many rows left. -/
theorem length_expire_le (rows : List Row) :
    (expire time window limit now rows).length ≤ limit := by
  induction rows with
  | nil => exact Nat.zero_le _
  | cons row rest ih =>
    unfold expire
    split_ifs with hkeep
    · exact hkeep.2
    · exact ih

theorem expire_sublist (rows : List Row) : (expire time window limit now rows).Sublist rows := by
  obtain ⟨dropped, hrows, -⟩ := exists_dropped time window limit now rows
  conv_rhs => rw [hrows]
  exact List.sublist_append_right _ _

section Cutoff

omit [AddCommGroup T]

variable {time} {cutoff cutoff' : T}

/-- Of rows in order, dropping the old ones from the front leaves those that are not old. -/
theorem dropWhile_eq_filter {rows : List Row} (hsorted : rows.Pairwise fun a b => time a ≤ time b) :
    (rows.dropWhile fun row => time row < cutoff) = rows.filter fun row => cutoff ≤ time row := by
  induction rows with
  | nil => rfl
  | cons first rest ih =>
    obtain ⟨hfirst, hrest⟩ := List.pairwise_cons.mp hsorted
    by_cases hold : time first < cutoff
    · rw [List.dropWhile_cons_of_pos (by simpa using hold),
        List.filter_cons_of_neg (by simpa using hold), ih hrest]
    · rw [List.dropWhile_cons_of_neg (by simpa using hold), eq_comm, List.filter_eq_self]
      rw [not_lt] at hold
      intro row hrow
      obtain rfl | hrow := List.mem_cons.mp hrow
      · exact decide_eq_true hold
      · exact decide_eq_true (hold.trans (hfirst row hrow))

/-- A later cutoff does not see what an earlier one has dropped. -/
theorem filter_dropWhile (hle : cutoff ≤ cutoff') (rows : List Row) :
    ((rows.dropWhile fun row => time row < cutoff).filter fun row => cutoff' ≤ time row) =
      rows.filter fun row => cutoff' ≤ time row := by
  induction rows with
  | nil => rfl
  | cons first rest ih =>
    by_cases hold : time first < cutoff
    · rw [List.dropWhile_cons_of_pos (by simpa using hold),
        List.filter_cons_of_neg (by simpa using hold.trans_le hle), ih]
    · rw [List.dropWhile_cons_of_neg (by simpa using hold)]

end Cutoff

variable [IsOrderedAddMonoid T]

/-- A row after one that is not too old is not too old. -/
theorem fresh_of_le {time : Row → T} {window now : T} {row row' : Row}
    (hle : time row ≤ time row') (hfresh : now - time row < window) :
    now - time row' < window :=
  (sub_le_sub_left hle now).trans_lt hfresh

/-- No row that is left is too old. -/
theorem fresh_of_mem_expire {rows : List Row}
    (hsorted : rows.Pairwise fun a b => time a ≤ time b) :
    ∀ row ∈ expire time window limit now rows, now - time row < window := by
  induction rows with
  | nil =>
    intro row hrow
    cases hrow
  | cons first rest ih =>
    obtain ⟨hfirst, hrest⟩ := List.pairwise_cons.mp hsorted
    unfold expire
    split_ifs with hkeep
    · intro row hrow
      obtain rfl | hrow := List.mem_cons.mp hrow
      · exact hkeep.1
      · exact fresh_of_le (hfirst row hrow) hkeep.1
    · exact ih hrest

/-- If there are not too many rows, those that are not too old are left. -/
theorem expire_eq_filter {rows : List Row} (hsorted : rows.Pairwise fun a b => time a ≤ time b)
    (hlimit : rows.length ≤ limit) :
    expire time window limit now rows = rows.filter fun row => now - time row < window := by
  induction rows with
  | nil => rfl
  | cons first rest ih =>
    obtain ⟨hfirst, hrest⟩ := List.pairwise_cons.mp hsorted
    unfold expire
    by_cases hfresh : now - time first < window
    · rw [if_pos ⟨hfresh, hlimit⟩, eq_comm, List.filter_eq_self]
      intro row hrow
      obtain rfl | hrow := List.mem_cons.mp hrow
      · exact decide_eq_true hfresh
      · exact decide_eq_true (fresh_of_le (hfirst row hrow) hfresh)
    · rw [if_neg fun h => hfresh h.1, List.filter_cons_of_neg (by simpa using hfresh)]
      exact ih hrest (Nat.le_of_succ_le hlimit)

end ExpiringRows
