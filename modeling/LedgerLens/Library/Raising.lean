import Mathlib.Data.List.Basic

/-!
# Programs that raise and keep their state

An imperative program over a state: it returns or raises, and in both cases leaves the
state it had reached. Nothing is undone when an exception leaves a block. The rules for
sequences, handlers and loops take such a program apart at its outcome.
-/

/-- A program with state `σ` and exceptions `ε`. -/
abbrev Raising (σ ε : Type) := ExceptT ε (StateM σ)

namespace Raising

variable {σ ε α β : Type}

/-- Run a program: what it returns or raises, and the state it leaves. -/
def exec (x : Raising σ ε α) (s : σ) : Except ε α × σ := x.run.run s

/-- A computation without effects that may raise. -/
def ofExcept (x : Except ε α) : Raising σ ε α :=
  match x with
  | .ok a => pure a
  | .error e => throw e

@[simp] theorem exec_pure (a : α) (s : σ) : exec (pure a : Raising σ ε α) s = (.ok a, s) := rfl

@[simp] theorem exec_throw (e : ε) (s : σ) :
    exec (throw e : Raising σ ε α) s = (.error e, s) := rfl

@[simp] theorem exec_get (s : σ) : exec (get : Raising σ ε σ) s = (.ok s, s) := rfl

@[simp] theorem exec_modify (f : σ → σ) (s : σ) :
    exec (modify f : Raising σ ε PUnit) s = (.ok ⟨⟩, f s) := rfl

@[simp] theorem exec_ofExcept (x : Except ε α) (s : σ) :
    exec (ofExcept x : Raising σ ε α) s = (x, s) := by
  cases x <;> rfl

/-- A sequence stops at the first exception. -/
theorem exec_bind (x : Raising σ ε α) (f : α → Raising σ ε β) (s : σ) :
    exec (x >>= f) s =
      match exec x s with
      | (.ok a, s') => exec (f a) s'
      | (.error e, s') => (.error e, s') := by
  unfold exec
  simp only [ExceptT.run_bind, StateT.run_bind]
  cases h : x.run.run s with
  | mk r s' => cases r <;> rfl

/-- Only the outcome of the first part of a sequence matters. -/
theorem exec_bind_congr {x y : Raising σ ε α} {s s' : σ} (h : exec x s = exec y s')
    (f : α → Raising σ ε β) : exec (x >>= f) s = exec (y >>= f) s' := by
  rw [exec_bind, exec_bind, h]

/-- A sequence whose first part returns goes on where that left off. -/
theorem exec_bind_of_ok {x : Raising σ ε α} {f : α → Raising σ ε β} {s s' : σ} {a : α}
    (h : exec x s = (.ok a, s')) : exec (x >>= f) s = exec (f a) s' := by
  rw [exec_bind, h]

/-- A sequence whose first part raises raises the same. -/
theorem exec_bind_of_error {x : Raising σ ε α} {f : α → Raising σ ε β} {s s' : σ} {e : ε}
    (h : exec x s = (.error e, s')) : exec (x >>= f) s = (.error e, s') := by
  rw [exec_bind, h]

/-- A sequence returns exactly when both parts do. -/
theorem exec_bind_eq_ok_iff {x : Raising σ ε α} {f : α → Raising σ ε β} {s s'' : σ} {b : β} :
    exec (x >>= f) s = (.ok b, s'') ↔
      ∃ a s', exec x s = (.ok a, s') ∧ exec (f a) s' = (.ok b, s'') := by
  rw [exec_bind]
  cases h : exec x s with
  | mk r s' =>
    cases r with
    | error e => simp
    | ok a =>
      constructor
      · intro hf
        exact ⟨a, s', rfl, hf⟩
      · rintro ⟨a', s₁, heq, hf⟩
        cases heq
        exact hf

/-- A sequence that ends by raising does not return. -/
theorem exec_bind_throw_ne_ok {x : Raising σ ε α} {e : ε} {s s' : σ} {b : β} :
    exec (x >>= fun _ => throw e) s ≠ (.ok b, s') := by
  intro h
  obtain ⟨a, s₁, -, hthrow⟩ := exec_bind_eq_ok_iff.mp h
  cases hthrow

/-- A handler runs in the state that the exception left. -/
theorem exec_tryCatch (x : Raising σ ε α) (handle : ε → Raising σ ε α) (s : σ) :
    exec (tryCatch x handle) s =
      match exec x s with
      | (.ok a, s') => (.ok a, s')
      | (.error e, s') => exec (handle e) s' := by
  have hrun : exec (tryCatch x handle) s = exec (ExceptT.tryCatch x handle) s := rfl
  rw [hrun]
  unfold exec ExceptT.tryCatch
  simp only [ExceptT.run_mk, StateT.run_bind]
  cases h : x.run.run s with
  | mk r s' =>
    have hx : StateT.run x s = (r, s') := h
    rw [hx]
    cases r <;> rfl

/-- A block whose handlers all raise returns exactly what its body returns. -/
theorem exec_tryCatch_eq_ok_iff {x : Raising σ ε α} {handle : ε → Raising σ ε α} {s s' : σ}
    {a : α} (hhandle : ∀ e s, ∃ e' s', exec (handle e) s = (.error e', s')) :
    exec (tryCatch x handle) s = (.ok a, s') ↔ exec x s = (.ok a, s') := by
  rw [exec_tryCatch]
  cases exec x s with
  | mk r s₁ =>
    cases r with
    | ok a₁ => exact Iff.rfl
    | error e =>
      obtain ⟨e', s₂, h⟩ := hhandle e s₁
      simp [h]

/-- A program keeps a property of its state, whether it returns or raises. -/
def Keeps (P : σ → Prop) (x : Raising σ ε α) : Prop := ∀ s, P s → P (exec x s).2

variable {P : σ → Prop}

/-- What a program keeps holds where it returns. -/
theorem Keeps.of_ok {x : Raising σ ε α} (hx : Keeps P x) {s s' : σ} {a : α} (hs : P s)
    (h : exec x s = (.ok a, s')) : P s' := by
  have hx' := hx s hs
  rwa [h] at hx'

/-- Returning keeps everything. -/
theorem Keeps.pure (a : α) : Keeps P (Pure.pure a : Raising σ ε α) := fun _ hs => hs

/-- Raising keeps everything. -/
theorem Keeps.throw (e : ε) : Keeps P (throw e : Raising σ ε α) := fun _ hs => hs

/-- Reading keeps everything. -/
theorem Keeps.get : Keeps P (get : Raising σ ε σ) := fun _ hs => hs

/-- A computation without effects keeps everything. -/
theorem Keeps.ofExcept (x : Except ε α) : Keeps P (ofExcept x : Raising σ ε α) := by
  intro s hs
  rw [exec_ofExcept]
  exact hs

/-- A change keeps what it keeps. -/
theorem Keeps.modify {f : σ → σ} (hf : ∀ s, P s → P (f s)) :
    Keeps P (modify f : Raising σ ε PUnit) := hf

/-- A handler keeps what the body and the handlers keep. -/
theorem Keeps.tryCatch {x : Raising σ ε α} {handle : ε → Raising σ ε α} (hx : Keeps P x)
    (hhandle : ∀ e, Keeps P (handle e)) : Keeps P (tryCatch x handle) := by
  intro s hs
  have hx' := hx s hs
  rw [exec_tryCatch]
  cases h : exec x s with
  | mk r s' =>
    rw [h] at hx'
    cases r with
    | ok a => exact hx'
    | error e => exact hhandle e s' hx'

/-- A sequence keeps what both parts keep. -/
theorem Keeps.bind {x : Raising σ ε α} {f : α → Raising σ ε β} (hx : Keeps P x)
    (hf : ∀ a, Keeps P (f a)) : Keeps P (x >>= f) := by
  intro s hs
  have hx' := hx s hs
  rw [exec_bind]
  cases h : exec x s with
  | mk r s' =>
    rw [h] at hx'
    cases r with
    | error e => exact hx'
    | ok a => exact hf a s' hx'

/-- A loop keeps what the rounds of its items keep. -/
theorem Keeps.foldlM_of_mem {f : β → α → Raising σ ε β} {as : List α}
    (hf : ∀ b, ∀ a ∈ as, Keeps P (f b a)) (b : β) : Keeps P (as.foldlM f b) := by
  induction as generalizing b with
  | nil => exact fun s hs => hs
  | cons a as ih =>
    exact (hf b a List.mem_cons_self).bind fun b' =>
      ih (fun b a' ha' => hf b a' (List.mem_cons_of_mem _ ha')) b'

/-- A loop keeps what each round keeps. -/
theorem Keeps.foldlM {f : β → α → Raising σ ε β} (hf : ∀ b a, Keeps P (f b a)) (as : List α)
    (b : β) : Keeps P (as.foldlM f b) :=
  Keeps.foldlM_of_mem (fun b a _ => hf b a) b

/-- A loop without results keeps what each round keeps. -/
theorem Keeps.forM {f : α → Raising σ ε PUnit} (hf : ∀ a, Keeps P (f a)) (as : List α) :
    Keeps P (as.forM f) := by
  induction as with
  | nil => exact fun s hs => hs
  | cons a as ih => exact (hf a).bind fun _ => ih

/-- A program that reads the state keeps what it keeps where it goes on with that state. -/
theorem Keeps.get_bind {f : σ → Raising σ ε α} (hf : ∀ s, P s → P (exec (f s) s).2) :
    Keeps P (MonadState.get >>= f) := fun s hs => hf s hs

/-- What the rest of a sequence keeps is decided by the first part. -/
theorem exec_bind_of_keeps {γ : Type} (p : σ → γ) {x : Raising σ ε α} {f : α → Raising σ ε β}
    (hf : ∀ a c, Keeps (fun s => p s = c) (f a)) (s : σ) :
    p (exec (x >>= f) s).2 = p (exec x s).2 := by
  rw [exec_bind]
  cases exec x s with
  | mk r s' =>
    cases r with
    | error e => rfl
    | ok a => exact hf a (p s') s' rfl

/-- What the handlers keep is decided by the body. -/
theorem exec_tryCatch_of_keeps {γ : Type} (p : σ → γ) {x : Raising σ ε α}
    {handle : ε → Raising σ ε α} (hhandle : ∀ e c, Keeps (fun s => p s = c) (handle e)) (s : σ) :
    p (exec (tryCatch x handle) s).2 = p (exec x s).2 := by
  rw [exec_tryCatch]
  cases exec x s with
  | mk r s' =>
    cases r with
    | ok a => rfl
    | error e => exact hhandle e (p s') s' rfl

/-- The gain of a loop. If a round gains a property exactly under a condition, then the loop
gains it exactly in a round that it reaches and that meets the condition. -/
theorem exec_foldlM_gains_iff {f : β → α → Raising σ ε β} {gain : α → σ → Prop}
    (hround : ∀ b a s, P (exec (f b a) s).2 ↔ P s ∨ gain a s) (as : List α) (b : β) (s : σ) :
    P (exec (as.foldlM f b) s).2 ↔ P s ∨ ∃ k a b' s', as[k]? = some a ∧
      exec ((as.take k).foldlM f b) s = (.ok b', s') ∧ gain a s' := by
  induction as generalizing b s with
  | nil => simp
  | cons a as ih =>
    have hfirst := hround b a s
    rw [List.foldlM_cons, exec_bind]
    cases hexec : exec (f b a) s with
    | mk r s₁ =>
      rw [hexec] at hfirst
      cases r with
      | error e =>
        refine hfirst.trans (or_congr_right ⟨fun hgain => ⟨0, a, b, s, rfl, rfl, hgain⟩, ?_⟩)
        rintro ⟨k, a', b', s', hk, hloop, hgain⟩
        cases k with
        | zero =>
          cases hk
          cases hloop
          exact hgain
        | succ k =>
          rw [List.take_succ_cons, List.foldlM_cons, exec_bind_of_error hexec] at hloop
          cases hloop
      | ok b₁ =>
        refine (ih b₁ s₁).trans ?_
        rw [hfirst, or_assoc]
        refine or_congr_right ⟨?_, ?_⟩
        · rintro (hgain | ⟨k, a', b', s', hk, hloop, hgain⟩)
          · exact ⟨0, a, b, s, rfl, rfl, hgain⟩
          · refine ⟨k + 1, a', b', s', hk, ?_, hgain⟩
            rw [List.take_succ_cons, List.foldlM_cons, exec_bind_of_ok hexec]
            exact hloop
        · rintro ⟨k, a', b', s', hk, hloop, hgain⟩
          cases k with
          | zero =>
            cases hk
            cases hloop
            exact .inl hgain
          | succ k =>
            rw [List.take_succ_cons, List.foldlM_cons, exec_bind_of_ok hexec] at hloop
            exact .inr ⟨k, a', b', s', hk, hloop, hgain⟩

/-- A program returns from a state. -/
def Returns (x : Raising σ ε α) (s : σ) : Prop := ∃ a s', exec x s = (.ok a, s')

/-- A program that does not return raises. -/
theorem exists_error_of_not_returns {x : Raising σ ε α} {s : σ} (h : ¬Returns x s) :
    ∃ e s', exec x s = (.error e, s') := by
  cases hx : exec x s with
  | mk r s' =>
    cases r with
    | error e => exact ⟨e, s', rfl⟩
    | ok a => exact absurd ⟨a, s', hx⟩ h

/-- A sequence returns exactly when both parts do. -/
theorem returns_bind_iff {x : Raising σ ε α} {f : α → Raising σ ε β} {s : σ} :
    Returns (x >>= f) s ↔ ∃ a s', exec x s = (.ok a, s') ∧ Returns (f a) s' := by
  constructor
  · rintro ⟨b, s'', h⟩
    obtain ⟨a, s', hx, hf⟩ := exec_bind_eq_ok_iff.mp h
    exact ⟨a, s', hx, b, s'', hf⟩
  · rintro ⟨a, s', hx, b, s'', hf⟩
    exact ⟨b, s'', exec_bind_eq_ok_iff.mpr ⟨a, s', hx, hf⟩⟩

/-- The exactness rule for loops. If the rounds keep an invariant under which a round
returns exactly when its item meets a condition, then the loop returns exactly when all
items meet it. -/
theorem returns_foldlM_iff {f : β → α → Raising σ ε β} (Inv : β → σ → Prop) {cond : α → Prop}
    {as : List α} (hround : ∀ b s, ∀ a ∈ as, Inv b s → (Returns (f b a) s ↔ cond a))
    (hkeep : ∀ b s, ∀ a ∈ as, ∀ b' s', Inv b s → exec (f b a) s = (.ok b', s') → Inv b' s')
    {b : β} {s : σ} (hinv : Inv b s) : Returns (as.foldlM f b) s ↔ ∀ a ∈ as, cond a := by
  induction as generalizing b s with
  | nil =>
    constructor
    · intro _ a ha
      cases ha
    · intro _
      exact ⟨b, s, rfl⟩
  | cons a as ih =>
    rw [List.foldlM_cons, returns_bind_iff, List.forall_mem_cons]
    have hfirst := hround b s a List.mem_cons_self hinv
    have hrest {b' : β} {s' : σ} (hinv' : Inv b' s') := ih
      (fun b s a ha => hround b s a (List.mem_cons_of_mem _ ha))
      (fun b s a ha => hkeep b s a (List.mem_cons_of_mem _ ha)) hinv'
    constructor
    · rintro ⟨b', s', hx, hloop⟩
      have hinv' := hkeep b s a List.mem_cons_self b' s' hinv hx
      exact ⟨hfirst.mp ⟨b', s', hx⟩, (hrest hinv').mp hloop⟩
    · rintro ⟨hcond, hall⟩
      obtain ⟨b', s', hx⟩ := hfirst.mpr hcond
      have hinv' := hkeep b s a List.mem_cons_self b' s' hinv hx
      exact ⟨b', s', hx, (hrest hinv').mpr hall⟩

/-- What holds of the items done so far, round by round, holds of all of them after a loop
that returns. -/
theorem foldlM_invariant {f : β → α → Raising σ ε β} (Inv : List α → β → σ → Prop)
    (hkeep : ∀ done b s a b' s', Inv done b s → exec (f b a) s = (.ok b', s') →
      Inv (done ++ [a]) b' s') {as : List α} (done : List α) {b b' : β} {s s' : σ}
    (hinv : Inv done b s) (h : exec (as.foldlM f b) s = (.ok b', s')) : Inv (done ++ as) b' s' := by
  induction as generalizing done b s with
  | nil =>
    cases h
    rwa [List.append_nil]
  | cons a as ih =>
    rw [List.foldlM_cons] at h
    obtain ⟨b₁, s₁, hx, hloop⟩ := exec_bind_eq_ok_iff.mp h
    have hinv₁ := ih (done ++ [a]) (hkeep done b s a b₁ s₁ hinv hx) hloop
    rwa [List.append_assoc, List.singleton_append] at hinv₁

section

variable {f : α → Raising σ ε β} {s : σ}

@[simp] theorem returns_pure (a : α) : Returns (pure a : Raising σ ε α) s := ⟨a, s, rfl⟩

@[simp] theorem not_returns_throw (e : ε) : ¬Returns (throw e : Raising σ ε α) s := by
  rintro ⟨a, s', h⟩
  cases h

/-- Where a sequence goes on after a part that returns. -/
theorem returns_bind_of_ok {x : Raising σ ε α} {a : α} {s' : σ} (h : exec x s = (.ok a, s')) :
    Returns (x >>= f) s ↔ Returns (f a) s' := by
  unfold Returns
  rw [exec_bind_of_ok h]

/-- Where a sequence goes on decides whether it returns. -/
theorem returns_bind_iff_of_exec {x : Raising σ ε α} {cond : Prop} {a : α} {s₁ : σ}
    (h : ∀ b s', exec (x >>= f) s = (.ok b, s') ↔ cond ∧ exec (f a) s₁ = (.ok b, s')) :
    Returns (x >>= f) s ↔ cond ∧ Returns (f a) s₁ := by
  simp only [Returns, h, exists_and_left]

theorem returns_get_bind {f : σ → Raising σ ε β} : Returns (get >>= f) s ↔ Returns (f s) s :=
  returns_bind_of_ok (exec_get s)

theorem returns_modify_bind {g : σ → σ} {f : PUnit → Raising σ ε β} :
    Returns (modify g >>= f) s ↔ Returns (f ⟨⟩) (g s) :=
  returns_bind_of_ok (exec_modify g s)

@[simp] theorem not_returns_throw_bind (e : ε) : ¬Returns (throw e >>= f) s := by
  rintro ⟨a, s', h⟩
  cases h

end

end Raising
