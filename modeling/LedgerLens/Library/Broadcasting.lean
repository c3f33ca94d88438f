import Mathlib.Algebra.BigOperators.Group.List.Basic
import Mathlib.Tactic.SplitIfs

/-!
# One-dimensional arrays

Arrays of numbers as numpy adds them: arrays of the same length are added element by element, an
array with one element is added to each element of the other, and anything else is an error.
Stacks and sums along the first axis ask for rows of one length. Whether a sum exists depends on
the lengths alone.
-/

namespace NumArray

variable {R : Type}

/-- A `ValueError` of numpy. -/
structure ValueError where
  /-- Its message. -/
  message : String
  deriving DecidableEq

/-- The length of a sum, if there is one. -/
def broadcastLength (m n : ℕ) : Option ℕ :=
  if m = n then some n else if m = 1 then some n else if n = 1 then some m else none

/-- `a + b`. -/
def add [Add R] (a b : List R) : Except ValueError (List R) :=
  if a.length = b.length then .ok (a.zipWith (· + ·) b)
  else
    match a, b with
    | [x], b => .ok (b.map (x + ·))
    | a, [y] => .ok (a.map (· + y))
    | a, b => .error ⟨"operands could not be broadcast together with shapes (" ++
        toString a.length ++ ",) (" ++ toString b.length ++ ",)"⟩

/-- All rows have the same length. -/
def Uniform (rows : List (List R)) : Prop := ∀ a ∈ rows, ∀ b ∈ rows, a.length = b.length

instance (rows : List (List R)) : Decidable (Uniform rows) :=
  inferInstanceAs (Decidable (∀ a ∈ rows, ∀ b ∈ rows, a.length = b.length))

/-- `np.stack(rows, axis=0)` of some rows. -/
def stack (rows : List (List R)) : Except ValueError (List (List R)) :=
  if Uniform rows then .ok rows
  else .error ⟨"all input arrays must have the same shape"⟩

/-- The sum of rows of one length, element by element. -/
def addRows [Add R] : List (List R) → List R
  | [] => []
  | [row] => row
  | row :: rows => row.zipWith (· + ·) (addRows rows)

/-- `np.sum(rows, axis=0)` of some rows. -/
def sumRows [Add R] (rows : List (List R)) : Except ValueError (List R) :=
  if Uniform rows then .ok (addRows rows)
  else .error ⟨"setting an array element with a sequence. The requested array has an " ++
    "inhomogeneous shape after 1 dimensions."⟩

/-- `sum(rows)` of Python for some rows, which adds one after the other. -/
def sumArrays [Add R] : List (List R) → Except ValueError (List R)
  | [] => .ok []
  | row :: rows => rows.foldlM add row

/-- Lengths that can be broadcast together: those that are not one are equal. -/
def Broadcastable (lengths : List ℕ) : Prop := ∃ n, ∀ l ∈ lengths, l = 1 ∨ l = n

/-- The length of an array, if it exists. -/
def length? (x : Except ValueError (List R)) : Option ℕ := x.toOption.map List.length

/-- The sum of rows of one length has that length. -/
theorem length_addRows [Add R] {rows : List (List R)} (h : Uniform rows) {row : List R}
    (hrow : row ∈ rows) : (addRows rows).length = row.length := by
  induction rows generalizing row with
  | nil => cases hrow
  | cons first rest ih =>
    have hfirst := h row hrow first List.mem_cons_self
    have hrest : Uniform rest := fun a ha b hb =>
      h a (List.mem_cons_of_mem _ ha) b (List.mem_cons_of_mem _ hb)
    cases rest with
    | nil => exact hfirst.symm
    | cons second rest =>
      have hsum := ih hrest List.mem_cons_self
      have hsecond := h second (by simp) first List.mem_cons_self
      unfold addRows
      rw [List.length_zipWith]
      omega

theorem broadcastLength_eq_some_iff {m n l : ℕ} :
    broadcastLength m n = some l ↔ m = n ∧ l = n ∨ m = 1 ∧ l = n ∨ n = 1 ∧ l = m := by
  unfold broadcastLength
  split_ifs with hmn hm hn
  · rw [Option.some.injEq]
    omega
  · rw [Option.some.injEq]
    omega
  · rw [Option.some.injEq]
    omega
  · constructor
    · intro h
      cases h
    · omega

/-- The length of `a + b`. -/
theorem length?_add [Add R] (a b : List R) :
    length? (add a b) = broadcastLength a.length b.length := by
  unfold add broadcastLength
  by_cases heq : a.length = b.length
  · rw [if_pos heq, if_pos heq]
    simp [length?, Except.toOption, heq]
  · rw [if_neg heq, if_neg heq]
    split
    · simp [length?, Except.toOption]
    · rename_i hne
      have ha : a.length ≠ 1 := by
        intro hone
        obtain ⟨x, rfl⟩ := List.length_eq_one_iff.mp hone
        exact hne x rfl
      rw [if_neg ha]
      simp [length?, Except.toOption]
    · rename_i hne hne'
      have ha : a.length ≠ 1 := by
        intro hone
        obtain ⟨x, rfl⟩ := List.length_eq_one_iff.mp hone
        exact hne x rfl
      have hb : b.length ≠ 1 := by
        intro hone
        obtain ⟨y, rfl⟩ := List.length_eq_one_iff.mp hone
        exact hne' y rfl
      rw [if_neg ha, if_neg hb]
      rfl

/-- What is known of a sum's length. -/
theorem length_of_add [Add R] {a b c : List R} (h : add a b = .ok c) :
    broadcastLength a.length b.length = some c.length := by
  rw [← length?_add, h]
  rfl

/-- `a + b` exists exactly if the lengths can be broadcast together. -/
theorem exists_add_iff [Add R] (a b : List R) :
    (∃ c, add a b = .ok c) ↔ Broadcastable [a.length, b.length] := by
  have hlength := length?_add a b
  constructor
  · rintro ⟨c, h⟩
    have hsome := broadcastLength_eq_some_iff.mp (length_of_add h)
    refine ⟨c.length, fun l hl => ?_⟩
    simp only [List.mem_cons, List.not_mem_nil, or_false] at hl
    rcases hl with rfl | rfl <;> omega
  · rintro ⟨n, hn⟩
    have ha := hn a.length (by simp)
    have hb := hn b.length (by simp)
    cases hadd : add a b with
    | ok c => exact ⟨c, rfl⟩
    | error e =>
      rw [hadd] at hlength
      have hnone : broadcastLength a.length b.length = none := hlength.symm
      unfold broadcastLength at hnone
      split_ifs at hnone
      omega

/-- A sum of arrays can be broadcast with a length exactly if the arrays can. -/
theorem exists_foldlM_add_iff [Add R] (rows : List (List R)) (a : List R) (n : ℕ) :
    (∃ c, rows.foldlM add a = .ok c ∧ Broadcastable [n, c.length]) ↔
      Broadcastable (n :: a.length :: rows.map List.length) := by
  induction rows generalizing a with
  | nil =>
    constructor
    · rintro ⟨c, h, hn⟩
      cases h
      exact hn
    · intro hn
      exact ⟨a, rfl, hn⟩
  | cons row rows ih =>
    rw [List.foldlM_cons]
    constructor
    · rintro ⟨c, h, hn⟩
      cases hadd : add a row with
      | error e =>
        rw [hadd] at h
        cases h
      | ok b =>
        rw [hadd] at h
        obtain ⟨l, hl⟩ := (ih b).mp ⟨c, h, hn⟩
        have hb := hl b.length (by simp)
        have hsome := broadcastLength_eq_some_iff.mp (length_of_add hadd)
        -- A sum of length one has summands of length one.
        refine ⟨l, fun k hk => ?_⟩
        simp only [List.map_cons, List.mem_cons] at hk
        rcases hk with rfl | rfl | rfl | hk
        · exact hl _ (by simp)
        · omega
        · omega
        · exact hl k (by simp [hk])
    · rintro ⟨l, hl⟩
      have ha := hl a.length (by simp)
      have hrow := hl row.length (by simp)
      obtain ⟨b, hadd⟩ := (exists_add_iff a row).mpr ⟨l, fun k hk => hl k (by
        simp only [List.mem_cons, List.not_mem_nil, or_false] at hk
        rcases hk with rfl | rfl <;> simp)⟩
      rw [hadd]
      refine (ih b).mpr ⟨l, fun k hk => ?_⟩
      have hsome := broadcastLength_eq_some_iff.mp (length_of_add hadd)
      simp only [List.mem_cons] at hk
      rcases hk with rfl | rfl | hk
      · exact hl _ (by simp)
      · omega
      · exact hl k (by simp [hk])

/-- Adding to an array that may not exist. -/
theorem exists_bind_add_iff [Add R] (x : Except ValueError (List R)) (a : List R) :
    (∃ c, (x >>= fun b => add a b) = .ok c) ↔
      ∃ b, x = .ok b ∧ Broadcastable [a.length, b.length] := by
  cases x with
  | error e =>
    constructor
    · rintro ⟨c, h⟩
      cases h
    · rintro ⟨b, h, -⟩
      cases h
  | ok b =>
    have hadd : (∃ c, (Except.ok b >>= fun b => add a b) = .ok c) ↔
        Broadcastable [a.length, b.length] := exists_add_iff a b
    rw [hadd]
    constructor
    · intro h
      exact ⟨b, rfl, h⟩
    · rintro ⟨b', heq, h⟩
      cases heq
      exact h

/-- Rows of one length fit a length exactly if one of them does. -/
theorem broadcastable_cons_iff {rows : List (List R)} (h : Uniform rows) {row : List R}
    (hrow : row ∈ rows) (n : ℕ) :
    Broadcastable (n :: rows.map List.length) ↔ Broadcastable [n, row.length] := by
  constructor
  · rintro ⟨l, hl⟩
    refine ⟨l, fun k hk => hl k ?_⟩
    simp only [List.mem_cons, List.not_mem_nil, or_false] at hk
    rcases hk with rfl | rfl
    · exact List.mem_cons_self
    · exact List.mem_cons_of_mem _ (List.mem_map_of_mem hrow)
  · rintro ⟨l, hl⟩
    refine ⟨l, fun k hk => ?_⟩
    rcases List.mem_cons.mp hk with rfl | hk
    · exact hl _ List.mem_cons_self
    · obtain ⟨row', hrow', rfl⟩ := List.mem_map.mp hk
      rw [h row' hrow' row hrow]
      exact hl _ (by simp)

/-- Arrays have a sum that can be added to another array exactly if all lengths fit. -/
theorem exists_sumArrays_iff [Add R] (a : List R) {rows : List (List R)} (hne : rows ≠ []) :
    (∃ c, (sumArrays rows >>= fun total => add a total) = .ok c) ↔
      Broadcastable (a.length :: rows.map List.length) := by
  obtain ⟨row, rows, rfl⟩ := List.exists_cons_of_ne_nil hne
  rw [exists_bind_add_iff]
  exact exists_foldlM_add_iff rows row a.length

end NumArray
