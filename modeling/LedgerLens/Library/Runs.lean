import Mathlib.Data.List.Basic

/-!
# Runs of a step function

A system that takes one event after another is a total step function. This file
collects what is said about its runs: the state reached, a property of every state
on the way, and a condition that every step meets. The two rules used most are the
invariant rule and the exactness rule `always_iff_meets`, which turns a statement
about one step into an equivalence about whole runs.
-/

namespace Transition

variable {State Event : Type*}

/-- The state reached from `s` by a list of events. -/
def exec (step : State → Event → State) (s : State) (es : List Event) : State :=
  es.foldl step s

/-- Every state of the run satisfies `P`, the first and the last included. -/
def Always (step : State → Event → State) (P : State → Prop) : State → List Event → Prop
  | s, [] => P s
  | s, e :: es => P s ∧ Always step P (step s e) es

/-- Every step of the run meets a condition on its event and the state before it. -/
def Meets (step : State → Event → State) (cond : State → Event → Prop) :
    State → List Event → Prop
  | _, [] => True
  | s, e :: es => cond s e ∧ Meets step cond (step s e) es

instance decidableAlways (step : State → Event → State) (P : State → Prop) [DecidablePred P] :
    ∀ (s : State) (es : List Event), Decidable (Always step P s es)
  | s, [] => inferInstanceAs (Decidable (P s))
  | s, e :: es =>
    have := decidableAlways step P (step s e) es
    inferInstanceAs (Decidable (_ ∧ _))

instance decidableMeets (step : State → Event → State) (cond : State → Event → Prop)
    [∀ s e, Decidable (cond s e)] :
    ∀ (s : State) (es : List Event), Decidable (Meets step cond s es)
  | _, [] => inferInstanceAs (Decidable True)
  | s, e :: es =>
    have := decidableMeets step cond (step s e) es
    inferInstanceAs (Decidable (_ ∧ _))

variable {step : State → Event → State} {P : State → Prop} {cond : State → Event → Prop}

@[simp] theorem exec_nil (s : State) : exec step s [] = s := rfl

@[simp] theorem exec_cons (s : State) (e : Event) (es : List Event) :
    exec step s (e :: es) = exec step (step s e) es := rfl

@[simp] theorem exec_append (s : State) (es fs : List Event) :
    exec step s (es ++ fs) = exec step (exec step s es) fs :=
  List.foldl_append

/-- A property that one step keeps is kept by every run. -/
theorem exec_invariant {Inv : State → Prop} (hstep : ∀ s e, Inv s → Inv (step s e))
    (es : List Event) {s : State} (hs : Inv s) : Inv (exec step s es) := by
  induction es generalizing s with
  | nil => exact hs
  | cons e es ih => exact ih (hstep s e hs)

/-- A property that a step keeps under a condition is kept by every run all of
whose steps meet the condition. -/
theorem exec_invariant_of_meets (Inv : State → Prop)
    (hstep : ∀ s e, Inv s → cond s e → Inv (step s e))
    {es : List Event} {s : State} (hs : Inv s) (hmeets : Meets step cond s es) :
    Inv (exec step s es) := by
  induction es generalizing s with
  | nil => exact hs
  | cons e es ih => exact ih (hstep s e hs hmeets.1) hmeets.2

/-- If the events of others keep a relation to a state in which they do not happen, a run is related
to the one of the own events alone. -/
theorem exec_filter {R : State → State → Prop} {own : Event → Bool}
    (hown : ∀ s s' e, own e = true → R s s' → R (step s e) (step s' e))
    (hother : ∀ s s' e, own e = false → R s s' → R (step s e) s') (es : List Event)
    {s s' : State} (h : R s s') : R (exec step s es) (exec step s' (es.filter own)) := by
  induction es generalizing s s' with
  | nil => exact h
  | cons e es ih =>
    cases he : own e with
    | true =>
      rw [List.filter_cons_of_pos he]
      exact ih (hown s s' e he h)
    | false =>
      rw [List.filter_cons_of_neg (by simp [he])]
      exact ih (hother s s' e he h)

/-- The same for two systems, where the environment takes only the steps that a condition allows.
The second system takes the own steps. -/
theorem exec_filter_of_meets {State' : Type*} {step' : State' → Event → State'}
    {cond' : State' → Event → Prop} (R : State → State' → Prop) (own : Event → Bool)
    (hown : ∀ s s' e, own e = true → R s s' → cond s e → cond' s' e ∧ R (step s e) (step' s' e))
    (hother : ∀ s s' e, own e = false → R s s' → cond s e → R (step s e) s') {es : List Event}
    {s : State} {s' : State'} (h : R s s') (hmeets : Meets step cond s es) :
    Meets step' cond' s' (es.filter own) ∧
      R (exec step s es) (exec step' s' (es.filter own)) := by
  induction es generalizing s s' with
  | nil => exact ⟨trivial, h⟩
  | cons e es ih =>
    cases he : own e with
    | true =>
      rw [List.filter_cons_of_pos he]
      obtain ⟨hcond, hnext⟩ := hown s s' e he h hmeets.1
      obtain ⟨hrest, hlast⟩ := ih hnext hmeets.2
      exact ⟨⟨hcond, hrest⟩, hlast⟩
    | false =>
      rw [List.filter_cons_of_neg (by simp [he])]
      exact ih (hother s s' e he h hmeets.1) hmeets.2

/-- What a run counts. If a step adds one exactly for the events that count, a run adds their
number. -/
theorem exec_countP_of_meets {Inv : State → Prop} (f : State → ℕ) (p : Event → Bool)
    (hkeep : ∀ s e, Inv s → cond s e → Inv (step s e))
    (hstep : ∀ s e, Inv s → cond s e → f (step s e) = f s + (if p e then 1 else 0))
    {es : List Event} {s : State} (hs : Inv s) (hmeets : Meets step cond s es) :
    f (exec step s es) = f s + es.countP p := by
  induction es generalizing s with
  | nil => simp
  | cons e es ih =>
    rw [exec_cons, ih (hkeep s e hs hmeets.1) hmeets.2, hstep s e hs hmeets.1, List.countP_cons]
    omega

/-- The gain of a run. If a step gains a property exactly under a condition, then a run gains
it exactly in a step that meets the condition. -/
theorem exec_gains_iff {gain : State → Event → Prop}
    (hstep : ∀ s e, P (step s e) ↔ P s ∨ gain s e) (es : List Event) (s : State) :
    P (exec step s es) ↔ P s ∨ ∃ before e after, es = before ++ e :: after ∧
      gain (exec step s before) e := by
  induction es generalizing s with
  | nil => simp
  | cons e es ih =>
    rw [exec_cons, ih, hstep, or_assoc]
    refine or_congr_right ⟨?_, ?_⟩
    · rintro (hgain | ⟨before, e', after, rfl, hgain⟩)
      · exact ⟨[], e, es, rfl, hgain⟩
      · exact ⟨e :: before, e', after, rfl, hgain⟩
    · rintro ⟨before, e', after, hsplit, hgain⟩
      cases before with
      | nil =>
        obtain ⟨rfl, rfl⟩ := List.cons.inj hsplit
        exact .inl hgain
      | cons e₀ before =>
        obtain ⟨rfl, rfl⟩ := List.cons.inj hsplit
        exact .inr ⟨before, e', after, rfl, hgain⟩

/-- What an invariant implies holds in every state of every run. -/
theorem always_of_invariant (Inv : State → Prop) (hsafe : ∀ s, Inv s → P s)
    (hstep : ∀ s e, Inv s → Inv (step s e)) {s : State} (hs : Inv s) (es : List Event) :
    Always step P s es := by
  induction es generalizing s with
  | nil => exact hsafe s hs
  | cons e es ih => exact ⟨hsafe s hs, ih (hstep s e hs)⟩

/-- What an invariant implies holds in every state of a run all of whose steps meet the
condition under which the invariant is kept. -/
theorem always_of_meets (Inv : State → Prop) (hsafe : ∀ s, Inv s → P s)
    (hkeep : ∀ s e, Inv s → cond s e → Inv (step s e)) {s : State} (hs : Inv s)
    {es : List Event} (hmeets : Meets step cond s es) : Always step P s es := by
  induction es generalizing s with
  | nil => exact hsafe s hs
  | cons e es ih => exact ⟨hsafe s hs, ih (hkeep s e hs hmeets.1) hmeets.2⟩

/-- The first state of a run on which `P` always holds satisfies `P`. -/
theorem Always.head {s : State} {es : List Event} (h : Always step P s es) : P s := by
  cases es with
  | nil => exact h
  | cons e es => exact h.1

/-- The last state of a run on which `P` always holds satisfies `P`. -/
theorem Always.last {s : State} {es : List Event} (h : Always step P s es) :
    P (exec step s es) := by
  induction es generalizing s with
  | nil => exact h
  | cons e es ih => exact ih h.2

/-- A run meets a condition exactly when its first part does and the rest does from there. -/
theorem meets_append_iff {s : State} {es fs : List Event} :
    Meets step cond s (es ++ fs) ↔ Meets step cond s es ∧ Meets step cond (exec step s es) fs := by
  induction es generalizing s with
  | nil => simp [Meets]
  | cons e es ih => simp only [List.cons_append, Meets, ih, exec_cons, and_assoc]

/-- A run that is cut off meets what the whole run meets. -/
theorem Meets.take {s : State} {es : List Event} (h : Meets step cond s es) (n : ℕ) :
    Meets step cond s (es.take n) := by
  rw [← List.take_append_drop n es] at h
  exact (meets_append_iff.mp h).1

/-- A run meets what its steps imply. -/
theorem Meets.imp {cond' : State → Event → Prop} (himp : ∀ s e, cond s e → cond' s e) {s : State}
    {es : List Event} (h : Meets step cond s es) : Meets step cond' s es := by
  induction es generalizing s with
  | nil => trivial
  | cons e es ih => exact ⟨himp s e h.1, ih h.2⟩

/-- A run on which two conditions agree meets both or none. -/
theorem Meets.congr {cond' : State → Event → Prop} {s : State} {es : List Event}
    (h : Meets step (fun s e => cond s e ↔ cond' s e) s es) :
    Meets step cond s es ↔ Meets step cond' s es := by
  induction es generalizing s with
  | nil => exact Iff.rfl
  | cons e es ih => exact and_congr h.1 (ih h.2)

/-- Two conditions are met together exactly when each is met. -/
theorem meets_and_iff {cond' : State → Event → Prop} {s : State} {es : List Event} :
    Meets step (fun s e => cond s e ∧ cond' s e) s es ↔
      Meets step cond s es ∧ Meets step cond' s es := by
  induction es generalizing s with
  | nil => simp [Meets]
  | cons e es ih =>
    simp only [Meets, ih]
    exact and_and_and_comm

/-- Two conditions that agree under an invariant are met by the same runs, if the invariant is
kept where they are met. -/
theorem meets_iff_meets {cond' : State → Event → Prop} (Inv : State → Prop)
    (hiff : ∀ s e, Inv s → (cond' s e ↔ cond s e))
    (hkeep : ∀ s e, Inv s → cond s e → Inv (step s e)) {s : State} (hs : Inv s)
    (es : List Event) : Meets step cond' s es ↔ Meets step cond s es := by
  induction es generalizing s with
  | nil => exact Iff.rfl
  | cons e es ih =>
    constructor
    · rintro ⟨hfirst, hrest⟩
      have hcond := (hiff s e hs).mp hfirst
      exact ⟨hcond, (ih (hkeep s e hs hcond)).mp hrest⟩
    · rintro ⟨hcond, hrest⟩
      exact ⟨(hiff s e hs).mpr hcond, (ih (hkeep s e hs hcond)).mpr hrest⟩

/-- A condition on the events alone is met by a run exactly when all its events meet it. -/
theorem meets_event_iff {cond : Event → Prop} {s : State} {es : List Event} :
    Meets step (fun _ e => cond e) s es ↔ ∀ e ∈ es, cond e := by
  induction es generalizing s with
  | nil => simp [Meets]
  | cons e es ih => simp only [Meets, ih, List.forall_mem_cons]

/-- A step that does not meet the condition does damage that is never repaired while the steps are
those of the environment. -/
theorem damaged_of_not_meets_env (Inv Damaged : State → Prop) (env : State → Event → Prop)
    (hkeep : ∀ s e, Inv s → env s e → Inv (step s e))
    (hbreak : ∀ s e, Inv s → env s e → ¬cond s e → Damaged (step s e))
    (hstable : ∀ s e, Inv s → env s e → Damaged s → Damaged (step s e)) {s : State} (hs : Inv s)
    {es : List Event} (henv : Meets step env s es) (hmeets : ¬Meets step cond s es) :
    Damaged (exec step s es) := by
  have hlater : ∀ (es : List Event) {s : State}, Inv s → Damaged s → Meets step env s es →
      Damaged (exec step s es) := by
    intro es
    induction es with
    | nil => exact fun _ hdamaged _ => hdamaged
    | cons e es ih =>
      exact fun hs hdamaged henv =>
        ih (hkeep _ e hs henv.1) (hstable _ e hs henv.1 hdamaged) henv.2
  induction es generalizing s with
  | nil => exact absurd trivial hmeets
  | cons e es ih =>
    by_cases hcond : cond s e
    · exact ih (hkeep s e hs henv.1) henv.2 fun h => hmeets ⟨hcond, h⟩
    · exact hlater es (hkeep s e hs henv.1) (hbreak s e hs henv.1 hcond) henv.2

/-- A step that does not meet the condition does damage that is never repaired. -/
theorem damaged_of_not_meets {Inv Damaged : State → Prop} {env : State → Event → Prop}
    (hkeep : ∀ s e, Inv s → env s e → Inv (step s e))
    (hbreak : ∀ s e, Inv s → env s e → ¬cond s e → Damaged (step s e))
    (hstable : ∀ s e, Damaged s → Damaged (step s e)) {s : State} (hs : Inv s)
    {es : List Event} (henv : Meets step env s es) (hmeets : ¬Meets step cond s es) :
    Damaged (exec step s es) :=
  damaged_of_not_meets_env Inv Damaged env hkeep hbreak (fun s e _ _ => hstable s e) hs henv hmeets

/-- The exactness rule. Suppose that an invariant implies `P`, is kept by every step
that meets the condition, and that a step which does not meet it leaves `P`. Then
`P` holds in all states of a run exactly when all its steps meet the condition. -/
theorem always_iff_meets (Inv : State → Prop) (hsafe : ∀ s, Inv s → P s)
    (hkeep : ∀ s e, Inv s → cond s e → Inv (step s e))
    (hbreak : ∀ s e, Inv s → ¬cond s e → ¬P (step s e))
    {s : State} (hs : Inv s) (es : List Event) :
    Always step P s es ↔ Meets step cond s es := by
  constructor
  · intro halways
    induction es generalizing s with
    | nil => trivial
    | cons e es ih =>
      have hcond : cond s e := by
        by_contra hnot
        exact hbreak s e hs hnot halways.2.head
      exact ⟨hcond, ih (hkeep s e hs hcond) halways.2⟩
  · exact always_of_meets Inv hsafe hkeep hs

end Transition
