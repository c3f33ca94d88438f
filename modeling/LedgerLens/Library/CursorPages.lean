import Mathlib.Data.List.Basic
import Mathlib.Data.List.Nodup

/-!
# Reading a list page by page

A server has a list of items, each with a token of its own, and gives some items after the one
that a cursor points at. A reader that takes the token of the last item it got as its next
cursor reads all that is left, whatever the size of the pages.
-/

namespace CursorPages

variable {Item Token : Type*} [DecidableEq Token] (token : Item → Token) (items : List Item)

/-- The items after the one that the cursor points at, all of them without a cursor. -/
def after (cursor : Option Token) : List Item :=
  match cursor with
  | none => items
  | some c => (items.dropWhile fun item => token item ≠ c).tail

/-- What is read from a cursor on, in pages of a size, until there is an empty page. -/
def readPages (limit : ℕ) : ℕ → Option Token → Option (List Item)
  | 0, _ => none
  | fuel + 1, cursor =>
    match (after token items cursor).take limit with
    | [] => some []
    | item :: page =>
      (readPages limit fuel ((item :: page).getLast?.map token)).map fun rest =>
        item :: page ++ rest

omit [DecidableEq Token] in
/-- The cursor of a reader that has read some items. -/
def cursorOf (read : List Item) : Option Token := read.getLast?.map token

variable {token items} {read rest : List Item}

/-- The cursor points at what is left. -/
theorem after_cursorOf (hnodup : (items.map token).Nodup) (hitems : items = read ++ rest) :
    after token items (cursorOf token read) = rest := by
  subst hitems
  rcases List.eq_nil_or_concat' read with rfl | ⟨before, last, rfl⟩
  · rfl
  · have hapart : ∀ item ∈ before, decide (token item ≠ token last) = true := by
      intro item hitem
      rw [decide_eq_true_eq]
      intro heq
      rw [List.append_assoc, List.map_append, List.nodup_append] at hnodup
      refine hnodup.2.2 _ (List.mem_map_of_mem hitem) (token last) ?_ heq
      simp
    simp only [after, cursorOf, List.getLast?_append, List.getLast?_singleton, Option.some_or,
      Option.map_some]
    rw [List.append_assoc, List.dropWhile_append_of_pos hapart, List.singleton_append,
      List.dropWhile_cons_of_neg (by simp), List.tail_cons]

/-- All that is left is read. -/
theorem readPages_cursorOf (hnodup : (items.map token).Nodup) {limit fuel : ℕ}
    (hlimit : 0 < limit) (hitems : items = read ++ rest) (hfuel : rest.length < fuel) :
    readPages token items limit fuel (cursorOf token read) = some rest := by
  induction fuel generalizing read rest with
  | zero => omega
  | succ fuel ih =>
    unfold readPages
    rw [after_cursorOf hnodup hitems]
    have hsplit := List.take_append_drop limit rest
    cases hpage : rest.take limit with
    | nil =>
      have hrest : rest = [] := by
        cases rest with
        | nil => rfl
        | cons item rest =>
          have hlength := congrArg List.length hpage
          rw [List.length_take, List.length_cons, List.length_nil] at hlength
          omega
      rw [hrest]
    | cons item page =>
      rw [hpage] at hsplit
      have hlength : (rest.drop limit).length < fuel := by
        have hall := congrArg List.length hsplit
        rw [List.length_append, List.length_cons] at hall
        omega
      have hitems' : items = (read ++ item :: page) ++ rest.drop limit := by
        rw [List.append_assoc, hsplit, hitems]
      have hcursor : (item :: page).getLast?.map token = cursorOf token (read ++ item :: page) := by
        unfold cursorOf
        rw [List.getLast?_append_of_ne_nil _ (List.cons_ne_nil _ _)]
      dsimp only
      rw [hcursor, ih hitems' hlength, Option.map_some, hsplit]

end CursorPages
