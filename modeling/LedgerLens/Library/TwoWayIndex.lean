import Mathlib.Data.List.Basic
import Mathlib.Data.List.Nodup

/-!
# Relations indexed in both directions

A relation between two types that is stored twice, once for each side, so that what belongs to
an element of either side can be listed. That the two halves agree is a field of the structure.
The rules say what the operations do to the image of an element; the other half follows.
-/

/-- A relation, stored for both sides. -/
structure TwoWayIndex (α β : Type*) where
  /-- What belongs to an element of the left side. -/
  image : α → List β
  /-- What belongs to an element of the right side. -/
  preimage : β → List α
  /-- The halves agree. -/
  mirrored : ∀ a b, b ∈ image a ↔ a ∈ preimage b
  /-- Nothing is listed twice. -/
  nodup : ∀ b, (preimage b).Nodup

namespace TwoWayIndex

variable {α β : Type*}

/-- The empty relation. -/
def empty : TwoWayIndex α β where
  image _ := []
  preimage _ := []
  mirrored _ _ := by simp
  nodup _ := List.nodup_nil

@[simp] theorem image_empty (a : α) : (empty : TwoWayIndex α β).image a = [] := rfl

@[simp] theorem preimage_empty (b : β) : (empty : TwoWayIndex α β).preimage b = [] := rfl

variable [DecidableEq α] [DecidableEq β]

/-- Relate two elements. -/
def link (t : TwoWayIndex α β) (a : α) (b : β) : TwoWayIndex α β where
  image x := if x = a then (t.image x).insert b else t.image x
  preimage y := if y = b then (t.preimage y).insert a else t.preimage y
  mirrored x y := by
    have hold := t.mirrored x y
    by_cases hx : x = a <;> by_cases hy : y = b <;> simp [hx, hy, List.mem_insert_iff] <;>
      simpa [hx, hy] using hold
  nodup y := by
    split
    · exact (t.nodup y).insert
    · exact t.nodup y

/-- Relate two elements no longer. -/
def unlink (t : TwoWayIndex α β) (a : α) (b : β) : TwoWayIndex α β where
  image x := if x = a then (t.image x).filter (· ≠ b) else t.image x
  preimage y := if y = b then (t.preimage y).filter (· ≠ a) else t.preimage y
  mirrored x y := by
    have hold := t.mirrored x y
    by_cases hx : x = a <;> by_cases hy : y = b <;> simp [hx, hy] <;>
      simpa [hx, hy] using hold
  nodup y := by
    split
    · exact (t.nodup y).filter _
    · exact t.nodup y

/-- Relate an element of the left side to nothing. -/
def forget (t : TwoWayIndex α β) (a : α) : TwoWayIndex α β where
  image x := if x = a then [] else t.image x
  preimage y := if y ∈ t.image a then (t.preimage y).filter (· ≠ a) else t.preimage y
  mirrored x y := by
    have hold := t.mirrored x y
    have hself := t.mirrored a y
    by_cases hx : x = a
    · subst hx
      by_cases hy : y ∈ t.image x
      · simp [hy]
      · simpa [hy] using fun hmem => hy (hself.mpr hmem)
    · by_cases hy : y ∈ t.image a <;> simpa [hx, hy] using hold
  nodup y := by
    split
    · exact (t.nodup y).filter _
    · exact t.nodup y

variable {t : TwoWayIndex α β} {a a' : α} {b b' : β} {bs : List β}

@[simp] theorem mem_image_link :
    b' ∈ (t.link a b).image a' ↔ (a' = a ∧ b' = b) ∨ b' ∈ t.image a' := by
  unfold link
  by_cases ha : a' = a <;> simp [ha, List.mem_insert_iff]

@[simp] theorem mem_image_unlink :
    b' ∈ (t.unlink a b).image a' ↔ b' ∈ t.image a' ∧ ¬(a' = a ∧ b' = b) := by
  unfold unlink
  by_cases ha : a' = a <;> simp [ha]

@[simp] theorem mem_image_forget : b' ∈ (t.forget a).image a' ↔ b' ∈ t.image a' ∧ a' ≠ a := by
  unfold forget
  by_cases ha : a' = a <;> simp [ha]

/-- Relating an element to several, one after the other. -/
theorem mem_image_foldl_link :
    b' ∈ (bs.foldl (fun t b => t.link a b) t).image a' ↔ (a' = a ∧ b' ∈ bs) ∨ b' ∈ t.image a' := by
  induction bs generalizing t with
  | nil => simp
  | cons b bs ih =>
    rw [List.foldl_cons, ih, mem_image_link, List.mem_cons]
    tauto

/-- Relating an element to several no longer, one after the other. -/
theorem mem_image_foldl_unlink :
    b' ∈ (bs.foldl (fun t b => t.unlink a b) t).image a' ↔
      b' ∈ t.image a' ∧ ¬(a' = a ∧ b' ∈ bs) := by
  induction bs generalizing t with
  | nil => simp
  | cons b bs ih =>
    rw [List.foldl_cons, ih, mem_image_unlink, List.mem_cons]
    tauto

end TwoWayIndex
