import Mathlib.Algebra.Order.BigOperators.Group.List
import Mathlib.Algebra.Order.Field.Basic
import Mathlib.Data.List.Sort
import Mathlib.Tactic.FieldSimp
import Mathlib.Tactic.Linarith
import Mathlib.Tactic.Ring

/-!
# Means of lists with an outlier

The mean of a list lies between its entries. If one entry may be anything, the mean still lies
between the others when the smallest and the greatest entry are left out; and if they are not,
it leaves the range of the others by at most the spread of the list divided by its length.
-/

namespace TrimmedMean

variable {K : Type*} [Field K] [LinearOrder K] [IsStrictOrderedRing K]

/-- A value lies between entries of a list. -/
def Between (xs : List K) (y : K) : Prop := (∃ a ∈ xs, a ≤ y) ∧ ∃ b ∈ xs, y ≤ b

/-- A value lies between entries of a list or is no farther from them than `d`. -/
def Near (d : K) (xs : List K) (y : K) : Prop := (∃ a ∈ xs, a - d ≤ y) ∧ ∃ b ∈ xs, y ≤ b + d

/-- The sorted list without its first and its last entry. -/
def trim (xs : List K) : List K := ((xs.insertionSort (· ≤ ·)).drop 1).dropLast

variable {xs ys honest : List K} {x y lo hi : K}

omit [Field K] [IsStrictOrderedRing K] in
/-- An entry lies between entries. -/
theorem between_of_mem (h : y ∈ xs) : Between xs y := ⟨⟨y, h, le_rfl⟩, y, h, le_rfl⟩

omit [Field K] [IsStrictOrderedRing K] in
/-- What lies between values that lie between entries does so itself. -/
theorem Between.trans (hxs : ∀ x ∈ xs, Between ys x) (h : Between xs y) : Between ys y := by
  obtain ⟨⟨a, ha, hay⟩, b, hb, hyb⟩ := h
  obtain ⟨a', ha', haa⟩ := (hxs a ha).1
  obtain ⟨b', hb', hbb⟩ := (hxs b hb).2
  exact ⟨⟨a', ha', haa.trans hay⟩, b', hb', hyb.trans hbb⟩

omit [Field K] [IsStrictOrderedRing K] in
/-- What bounds all entries bounds what lies between them. -/
theorem Between.bounds (h : Between xs y) (hxs : ∀ x ∈ xs, lo ≤ x ∧ x ≤ hi) :
    lo ≤ y ∧ y ≤ hi := by
  obtain ⟨⟨a, ha, hay⟩, b, hb, hyb⟩ := h
  exact ⟨(hxs a ha).1.trans hay, hyb.trans (hxs b hb).2⟩

/-- What lies between entries is near them. -/
theorem Between.near {d : K} (h : Between xs y) (hd : 0 ≤ d) : Near d xs y := by
  obtain ⟨⟨a, ha, hay⟩, b, hb, hyb⟩ := h
  exact ⟨⟨a, ha, by linarith⟩, b, hb, by linarith⟩

omit [Field K] [IsStrictOrderedRing K] in
@[simp] theorem length_trim (xs : List K) : (trim xs).length = xs.length - 2 := by
  simp only [trim, List.length_dropLast, List.length_drop, List.length_insertionSort]
  omega

/-- The mean of a list lies between its entries. -/
theorem between_mean (h : xs ≠ []) : Between xs (xs.sum / xs.length) := by
  have hlength : (0 : K) < xs.length := by
    exact_mod_cast List.length_pos_iff.mpr h
  have hconst : (xs.map fun _ => xs.sum / xs.length).sum = xs.sum := by
    rw [List.map_const', List.sum_replicate, nsmul_eq_mul]
    field_simp
  have hid : (xs.map fun x => x).sum = xs.sum := by rw [List.map_id']
  constructor
  · exact List.exists_le_of_sum_le h (fun x => x) (fun _ => xs.sum / xs.length) (by
      rw [hid, hconst])
  · exact List.exists_le_of_sum_le h (fun _ => xs.sum / xs.length) (fun x => x) (by
      rw [hid, hconst])

omit [Field K] [IsStrictOrderedRing K] in
/-- An inner entry of a sorted list has two entries up to it and two entries from it on. -/
theorem countP_of_mem_trim (h : y ∈ trim xs) :
    2 ≤ xs.countP (fun x => x ≤ y) ∧ 2 ≤ xs.countP (fun x => y ≤ x) := by
  have hperm := List.perm_insertionSort (· ≤ ·) xs
  have hsorted := List.pairwise_insertionSort (· ≤ ·) xs
  unfold trim at h
  rw [← hperm.countP_eq, ← hperm.countP_eq]
  cases hlist : xs.insertionSort (· ≤ ·) with
  | nil =>
    rw [hlist] at h
    cases h
  | cons first rest =>
    rw [hlist] at h hsorted
    rw [List.drop_succ_cons, List.drop_zero] at h
    rw [List.pairwise_cons] at hsorted
    obtain ⟨hfirst, hrest⟩ := hsorted
    have hne : rest ≠ [] := by
      rintro rfl
      cases h
    obtain ⟨inner, last, rfl⟩ : ∃ inner last, rest = inner ++ [last] :=
      ⟨_, _, (List.dropLast_append_getLast hne).symm⟩
    rw [List.dropLast_concat] at h
    have hlast : y ≤ last := (List.pairwise_append.mp hrest).2.2 y h last List.mem_cons_self
    have hlow : first ≤ y := hfirst y (List.mem_append_left _ h)
    have hlower : 0 < inner.countP (fun x => x ≤ y) :=
      List.countP_pos_iff.mpr ⟨y, h, by simp⟩
    have hupper : 0 < inner.countP (fun x => y ≤ x) :=
      List.countP_pos_iff.mpr ⟨y, h, by simp⟩
    constructor
    · rw [List.countP_cons_of_pos (by simpa using hlow), List.countP_append]
      omega
    · rw [List.countP_cons, List.countP_append, List.countP_singleton,
        if_pos (by simpa using hlast)]
      omega

omit [Field K] [IsStrictOrderedRing K] in
/-- An inner entry is an entry. -/
theorem mem_of_mem_trim (h : y ∈ trim xs) : y ∈ xs :=
  (List.perm_insertionSort _ _).mem_iff.mp (List.mem_of_mem_drop (List.dropLast_subset _ h))

/-- The mean of the inner entries lies between the entries. -/
theorem between_mean_of_trim (h : trim xs ≠ []) :
    Between xs ((trim xs).sum / (trim xs).length) :=
  (between_mean h).trans fun _ hy => between_of_mem (mem_of_mem_trim hy)

omit [Field K] [IsStrictOrderedRing K] in
/-- If one entry may be anything, an inner entry still lies between the others. -/
theorem between_of_mem_trim (hperm : xs.Perm (x :: honest)) (h : y ∈ trim xs) :
    Between honest y := by
  obtain ⟨hlower, hupper⟩ := countP_of_mem_trim h
  rw [hperm.countP_eq, List.countP_cons] at hlower hupper
  have hlower' : 0 < honest.countP (fun x => x ≤ y) := by
    split_ifs at hlower <;> omega
  have hupper' : 0 < honest.countP (fun x => y ≤ x) := by
    split_ifs at hupper <;> omega
  obtain ⟨a, ha, hay⟩ := List.countP_pos_iff.mp hlower'
  obtain ⟨b, hb, hyb⟩ := List.countP_pos_iff.mp hupper'
  exact ⟨⟨a, ha, by simpa using hay⟩, b, hb, by simpa using hyb⟩

/-- The mean of the inner entries lies between the entries other than one. -/
theorem between_mean_trim (hperm : xs.Perm (x :: honest)) (h : trim xs ≠ []) :
    Between honest ((trim xs).sum / (trim xs).length) :=
  (between_mean h).trans fun _ hy => between_of_mem_trim hperm hy

/-- The mean of all entries is near the entries other than one, if no two entries are farther
apart than `spread`. -/
theorem near_mean {spread : K} (hperm : xs.Perm (x :: honest)) (hhonest : honest ≠ [])
    (hspread : ∀ a ∈ xs, ∀ b ∈ xs, b - a ≤ spread) :
    Near (spread / xs.length) honest (xs.sum / xs.length) := by
  have hlength : (xs.length : K) = honest.length + 1 := by
    rw [hperm.length_eq, List.length_cons]
    push_cast
    ring
  have hpos : (0 : K) < xs.length := by
    rw [hlength]
    positivity
  have hsum : xs.sum = x + honest.sum := by rw [hperm.sum_eq, List.sum_cons]
  have hmem : ∀ a ∈ honest, a ∈ xs := fun a ha => hperm.mem_iff.mpr (List.mem_cons_of_mem _ ha)
  have hx : x ∈ xs := hperm.mem_iff.mpr List.mem_cons_self
  have hhpos : (0 : K) < honest.length := by
    exact_mod_cast List.length_pos_iff.mpr hhonest
  obtain ⟨⟨a, ha, hlow⟩, b, hb, hhigh⟩ := between_mean hhonest
  have hmean : honest.sum / honest.length * honest.length = honest.sum := by field_simp
  constructor
  · refine ⟨a, ha, ?_⟩
    have hax := hspread x hx a (hmem a ha)
    have hbound : a * honest.length ≤ honest.sum := by
      rw [← hmean]
      exact mul_le_mul_of_nonneg_right hlow hhpos.le
    rw [le_div_iff₀ hpos, sub_mul, div_mul_cancel₀ _ hpos.ne', hlength, hsum]
    linarith
  · refine ⟨b, hb, ?_⟩
    have hxb := hspread b (hmem b hb) x hx
    have hbound : honest.sum ≤ b * honest.length := by
      rw [← hmean]
      exact mul_le_mul_of_nonneg_right hhigh hhpos.le
    rw [div_le_iff₀ hpos, add_mul, div_mul_cancel₀ _ hpos.ne', hlength, hsum]
    linarith

/-- A loop that keeps one of two values ends with an entry that is related to all others. -/
theorem foldl_select {α : Type*} (r : α → α → Prop) (select : α → α → α)
    (hrefl : ∀ a, r a a) (htrans : ∀ a b c, r a b → r b c → r a c)
    (hselect : ∀ a b, (select a b = a ∨ select a b = b) ∧ r a (select a b) ∧ r b (select a b))
    (a : α) (xs : List α) :
    xs.foldl select a ∈ a :: xs ∧ ∀ b ∈ a :: xs, r b (xs.foldl select a) := by
  induction xs generalizing a with
  | nil => exact ⟨List.mem_cons_self, fun b hb => List.mem_singleton.mp hb ▸ hrefl a⟩
  | cons x xs ih =>
    obtain ⟨hmem, hall⟩ := ih (select a x)
    obtain ⟨hone, ha, hx⟩ := hselect a x
    rw [List.foldl_cons]
    have hfirst := hall (select a x) List.mem_cons_self
    constructor
    · obtain heq | hrest := List.mem_cons.mp hmem
      · rw [heq]
        obtain hone | hone := hone <;> simp [hone]
      · exact List.mem_cons_of_mem _ (List.mem_cons_of_mem _ hrest)
    · intro b hb
      obtain rfl | hb := List.mem_cons.mp hb
      · exact htrans _ _ _ ha hfirst
      · obtain rfl | hb := List.mem_cons.mp hb
        · exact htrans _ _ _ hx hfirst
        · exact hall b (List.mem_cons_of_mem _ hb)

end TrimmedMean
