import Mathlib.Data.List.Basic
import Mathlib.Data.List.Forall2

/-!
# Checks in sequence

A function that validates its input is a sequence of checks, each of which may raise, and
then its result. It returns exactly when every check passes; these are the rules that say so.
-/

/-- A check: raise an error unless the condition holds. -/
def demand {ε : Type*} (p : Prop) [Decidable p] (e : ε) : Except ε PUnit :=
  if p then .ok ⟨⟩ else .error e

namespace Except

universe u v

variable {ε : Type u} {α β : Type v}

/-- A sequence returns exactly when both parts do. -/
theorem bind_eq_ok_iff {x : Except ε α} {f : α → Except ε β} {b : β} :
    (x >>= f) = .ok b ↔ ∃ a, x = .ok a ∧ f a = .ok b := by
  cases x with
  | error e => simp [bind, Except.bind]
  | ok a => simp [bind, Except.bind]

/-- A sequence raises what one of its parts does. -/
theorem bind_eq_error_iff {x : Except ε α} {f : α → Except ε β} {e : ε} :
    (x >>= f) = .error e ↔ x = .error e ∨ ∃ a, x = .ok a ∧ f a = .error e := by
  cases x with
  | error e' => simp [bind, Except.bind]
  | ok a => simp [bind, Except.bind]

/-- A result is returned as it is. -/
theorem pure_eq_ok_iff {a b : α} : (pure a : Except ε α) = .ok b ↔ a = b := by
  simp [pure, Except.pure]

/-- A check is passed exactly when its condition holds. -/
theorem demand_eq_ok_iff {p : Prop} [Decidable p] {e : ε} {u : PUnit} :
    demand p e = .ok u ↔ p := by
  unfold demand
  by_cases h : p <;> simp [h]

/-- A check that is passed gives way to what follows. -/
theorem demand_bind_of_pos {p : Prop} [Decidable p] (h : p) (e : ε) (f : PUnit → Except ε α) :
    (demand p e >>= f) = f ⟨⟩ := by
  unfold demand
  rw [if_pos h]
  rfl

/-- A loop none of whose rounds raises. -/
theorem foldlM_eq_ok {f : β → α → Except ε β} {g : β → α → β} {as : List α}
    (h : ∀ b, ∀ a ∈ as, f b a = .ok (g b a)) (b : β) : as.foldlM f b = .ok (as.foldl g b) := by
  induction as generalizing b with
  | nil => rfl
  | cons a as ih =>
    rw [List.foldlM_cons, h b a List.mem_cons_self]
    exact ih (fun b a' ha' => h b a' (List.mem_cons_of_mem _ ha')) (g b a)

/-- A computation on every item, none of which raises. -/
theorem mapM_eq_ok {f : α → Except ε β} {g : α → β} {as : List α}
    (h : ∀ a ∈ as, f a = .ok (g a)) : as.mapM f = .ok (as.map g) := by
  induction as with
  | nil => rfl
  | cons a as ih =>
    rw [List.mapM_cons, h a List.mem_cons_self,
      ih fun a' ha' => h a' (List.mem_cons_of_mem _ ha')]
    rfl

/-- A computation on every item that does not raise has a result for each. -/
theorem length_of_mapM_eq_ok {f : α → Except ε β} {as : List α} {bs : List β}
    (h : as.mapM f = .ok bs) : bs.length = as.length := by
  induction as generalizing bs with
  | nil =>
    rw [List.mapM_nil, pure_eq_ok_iff] at h
    rw [← h, List.length_nil, List.length_nil]
  | cons a as ih =>
    rw [List.mapM_cons] at h
    obtain ⟨b, -, h⟩ := bind_eq_ok_iff.mp h
    obtain ⟨rest, hrest, h⟩ := bind_eq_ok_iff.mp h
    rw [pure_eq_ok_iff] at h
    rw [← h, List.length_cons, List.length_cons, ih hrest]

/-- A computation on every item returns exactly the results for the items. -/
theorem mapM_eq_ok_iff {f : α → Except ε β} {as : List α} {bs : List β} :
    as.mapM f = .ok bs ↔ List.Forall₂ (fun a b => f a = .ok b) as bs := by
  induction as generalizing bs with
  | nil => rw [List.mapM_nil, pure_eq_ok_iff, List.forall₂_nil_left_iff, eq_comm]
  | cons a as ih =>
    rw [List.mapM_cons, bind_eq_ok_iff, List.forall₂_cons_left_iff]
    simp only [bind_eq_ok_iff, pure_eq_ok_iff, ih]
    constructor
    · rintro ⟨b, hb, rest, hrest, rfl⟩
      exact ⟨b, rest, hb, hrest, rfl⟩
    · rintro ⟨b, rest, hb, hrest, rfl⟩
      exact ⟨b, hb, rest, hrest, rfl⟩

/-- A computation on every item returns exactly if it returns for each. -/
theorem exists_mapM_eq_ok_iff {f : α → Except ε β} {as : List α} :
    (∃ bs, as.mapM f = .ok bs) ↔ ∀ a ∈ as, ∃ b, f a = .ok b := by
  simp only [mapM_eq_ok_iff]
  constructor
  · rintro ⟨bs, hbs⟩ a ha
    induction hbs with
    | nil => cases ha
    | cons hb _ ih =>
      obtain rfl | hmem := List.mem_cons.mp ha
      · exact ⟨_, hb⟩
      · exact ih hmem
  · intro h
    induction as with
    | nil => exact ⟨[], .nil⟩
    | cons a as ih =>
      obtain ⟨b, hb⟩ := h a List.mem_cons_self
      obtain ⟨bs, hbs⟩ := ih fun a' ha' => h a' (List.mem_cons_of_mem _ ha')
      exact ⟨b :: bs, .cons hb hbs⟩

theorem toOption_eq_none_iff {x : Except ε α} : x.toOption = none ↔ ∀ a, x ≠ .ok a := by
  cases x <;> simp [Except.toOption]

/-- Two computations on every item have the same results exactly if they have on each item, or if
each of them raises for some item. -/
theorem toOption_mapM_eq_iff {f g : α → Except ε β} {as : List α} :
    (as.mapM f).toOption = (as.mapM g).toOption ↔
      (∀ a ∈ as, ∃ b, f a = .ok b ∧ g a = .ok b) ∨
        ((∃ a ∈ as, ∀ b, f a ≠ .ok b) ∧ ∃ a ∈ as, ∀ b, g a ≠ .ok b) := by
  have hfails (f : α → Except ε β) : (∃ a ∈ as, ∀ b, f a ≠ .ok b) ↔ ∀ bs, as.mapM f ≠ .ok bs := by
    have h : ¬(∃ bs, as.mapM f = .ok bs) ↔ ¬∀ a ∈ as, ∃ b, f a = .ok b :=
      not_congr exists_mapM_eq_ok_iff
    push Not at h
    exact h.symm
  rw [hfails, hfails]
  constructor
  · intro hsame
    cases hf : as.mapM f with
    | error e =>
      right
      rw [hf] at hsame
      exact ⟨by simp, toOption_eq_none_iff.mp hsame.symm⟩
    | ok bs =>
      left
      have hg : as.mapM g = .ok bs := by
        cases hg : as.mapM g with
        | error e =>
          rw [hf, hg] at hsame
          cases hsame
        | ok cs =>
          rw [hf, hg] at hsame
          rw [Option.some.inj hsame]
      intro a ha
      obtain ⟨i, hi, rfl⟩ := List.getElem_of_mem ha
      have hf' := List.forall₂_iff_get.mp (mapM_eq_ok_iff.mp hf)
      have hg' := List.forall₂_iff_get.mp (mapM_eq_ok_iff.mp hg)
      have hi' : i < bs.length := hf'.1 ▸ hi
      exact ⟨bs[i], hf'.2 i hi hi', hg'.2 i hi hi'⟩
  · rintro (hboth | ⟨hf, hg⟩)
    · obtain ⟨bs, hf⟩ := exists_mapM_eq_ok_iff.mpr fun a ha => (hboth a ha).imp fun _ => And.left
      have hf' := List.forall₂_iff_get.mp (mapM_eq_ok_iff.mp hf)
      have hg : as.mapM g = .ok bs := by
        refine mapM_eq_ok_iff.mpr (List.forall₂_iff_get.mpr ⟨hf'.1, fun i hi hi' => ?_⟩)
        obtain ⟨b, hb, hg⟩ := hboth _ (List.get_mem as ⟨i, hi⟩)
        rw [hg, ← hb]
        exact hf'.2 i hi hi'
      rw [hf, hg]
    · rw [toOption_eq_none_iff.mpr hf, toOption_eq_none_iff.mpr hg]

end Except
