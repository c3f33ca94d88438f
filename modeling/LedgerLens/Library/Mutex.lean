import LedgerLens.Library.Raising

/-!
# A mutex that is not reentrant

A state is guarded by a lock that knows its holder. A block under the lock releases it when it
returns and when it raises. A thread that asks for a lock that is held waits, and if it holds the
lock itself it waits for ever; for the program of one thread that is a third way to end.
-/

/-- A state with its lock. -/
structure Guarded (Thread σ : Type) where
  /-- The thread that holds the lock. -/
  owner : Option Thread := none
  /-- The guarded state. -/
  state : σ

/-- Why a program does not return. -/
inductive Stop (Thread ε : Type) where
  /-- It raises. -/
  | raised (e : ε)
  /-- It waits for a lock that a thread holds. -/
  | waits (holder : Thread)
  deriving DecidableEq

/-- A program that works with a guarded state. -/
abbrev Locking (Thread σ ε : Type) := Raising (Guarded Thread σ) (Stop Thread ε)

namespace Locking

open Raising

variable {Thread σ ε α β : Type}

/-- Take the lock. -/
def acquire (thread : Thread) : Locking Thread σ ε PUnit := do
  let s ← get
  match s.owner with
  | none => modify fun s => { s with owner := some thread }
  | some holder => throw (.waits holder)

/-- Give the lock back. -/
def release : Locking Thread σ ε PUnit := modify fun s => { s with owner := none }

/-- A block under the lock, `with lock:`. -/
def withLock (thread : Thread) (body : Locking Thread σ ε α) : Locking Thread σ ε α := do
  acquire thread
  let a ← tryCatch body fun
    | .raised e => do
      release
      throw (.raised e)
    | .waits holder => throw (.waits holder)
  release
  pure a

/-- A program that works with the state and leaves the lock alone. -/
def lift (x : Raising σ ε α) : Locking Thread σ ε α := do
  let s ← get
  let outcome := exec x s.state
  modify fun s => { s with state := outcome.2 }
  Raising.ofExcept (outcome.1.mapError .raised)

theorem exec_acquire_free (thread : Thread) (s : σ) :
    exec (acquire thread : Locking Thread σ ε PUnit) ⟨none, s⟩ = (.ok ⟨⟩, ⟨some thread, s⟩) := rfl

theorem exec_acquire_held (thread holder : Thread) (s : σ) :
    exec (acquire thread : Locking Thread σ ε PUnit) ⟨some holder, s⟩ =
      (.error (.waits holder), ⟨some holder, s⟩) := rfl

@[simp] theorem exec_lift (x : Raising σ ε α) (s : Guarded Thread σ) :
    exec (lift x : Locking Thread σ ε α) s =
      ((exec x s.state).1.mapError .raised, { s with state := (exec x s.state).2 }) := by
  unfold lift
  rw [exec_bind_of_ok (exec_get s), exec_bind_of_ok (exec_modify _ s), exec_ofExcept]

/-- A block under a lock that is held waits. -/
theorem exec_withLock_held (thread holder : Thread) (body : Locking Thread σ ε α) (s : σ) :
    exec (withLock thread body) ⟨some holder, s⟩ =
      (.error (.waits holder), ⟨some holder, s⟩) :=
  exec_bind_of_error (exec_acquire_held thread holder s)

/-- A block under a lock that is free, by how the block ends. -/
theorem exec_withLock_free (thread : Thread) (body : Locking Thread σ ε α) (s : σ) :
    exec (withLock thread body) ⟨none, s⟩ =
      match exec body ⟨some thread, s⟩ with
      | (.ok a, s') => (.ok a, ⟨none, s'.state⟩)
      | (.error (.raised e), s') => (.error (.raised e), ⟨none, s'.state⟩)
      | (.error (.waits holder), s') => (.error (.waits holder), s') := by
  unfold withLock
  rw [exec_bind_of_ok (exec_acquire_free thread s), exec_bind, exec_tryCatch]
  cases exec body ⟨some thread, s⟩ with
  | mk r s' =>
    cases r with
    | ok a => rfl
    | error stop => cases stop <;> rfl

/-- A block that leaves the lock alone, under a lock that is free. -/
theorem exec_withLock_lift (thread : Thread) (x : Raising σ ε α) (s : σ) :
    exec (withLock thread (lift x)) ⟨none, s⟩ =
      ((exec x s).1.mapError .raised, ⟨none, (exec x s).2⟩) := by
  rw [exec_withLock_free, exec_lift]
  cases exec x s with
  | mk r s' => cases r <;> rfl

/-- A program ends: it returns or raises and leaves the lock free. -/
def Ends (x : Locking Thread σ ε α) (s : σ) : Prop :=
  ∃ r s', exec x ⟨none, s⟩ = (r, ⟨none, s'⟩) ∧ ∀ holder, r ≠ .error (.waits holder)

/-- A block that leaves the lock alone ends. -/
theorem ends_withLock_lift (thread : Thread) (x : Raising σ ε α) (s : σ) :
    Ends (withLock thread (lift x)) s := by
  refine ⟨_, _, exec_withLock_lift thread x s, fun holder => ?_⟩
  cases (exec x s).1 with
  | ok a => exact fun h => nomatch h
  | error e => exact fun h => nomatch h

/-- A sequence ends if its parts do. -/
theorem Ends.bind {x : Locking Thread σ ε α} {f : α → Locking Thread σ ε β} {s : σ}
    (hx : Ends x s) (hf : ∀ a s', Ends (f a) s') : Ends (x >>= f) s := by
  obtain ⟨r, s', hexec, hwaits⟩ := hx
  cases r with
  | ok a =>
    obtain ⟨r', s'', hexec', hwaits'⟩ := hf a s'
    exact ⟨r', s'', (exec_bind_of_ok hexec).trans hexec', hwaits'⟩
  | error stop =>
    refine ⟨.error stop, s', exec_bind_of_error hexec, fun holder h => ?_⟩
    exact hwaits holder (congrArg _ (Except.error.inj h))

/-- What follows a block without asking for the lock ends. -/
theorem Ends.pure (a : α) (s : σ) : Ends (Pure.pure a : Locking Thread σ ε α) s :=
  ⟨.ok a, s, rfl, fun _ h => nomatch h⟩

/-- Dropping the result of a program that ends. -/
theorem Ends.discard {x : Locking Thread σ ε α} {s : σ} (hx : Ends x s) :
    Ends (Functor.discard x) s := by
  have hbind : (Functor.discard x : Locking Thread σ ε PUnit) =
      x >>= fun _ => Pure.pure PUnit.unit := (bind_pure_comp _ x).symm
  rw [hbind]
  exact hx.bind fun _ s' => Ends.pure PUnit.unit s'

/-- A block in which the lock is asked for again waits for its own thread. -/
theorem exec_withLock_of_waits {thread : Thread} {body : Locking Thread σ ε α} {s : σ}
    {s' : Guarded Thread σ}
    (h : exec body ⟨some thread, s⟩ = (.error (.waits thread), s')) :
    exec (withLock thread body) ⟨none, s⟩ = (.error (.waits thread), s') := by
  rw [exec_withLock_free, h]

/-- A program that waits does not end. -/
theorem not_ends_of_waits {x : Locking Thread σ ε α} {s : σ} {holder : Thread}
    {s' : Guarded Thread σ} (h : exec x ⟨none, s⟩ = (.error (.waits holder), s')) :
    ¬Ends x s := by
  rintro ⟨r, s'', hexec, hwaits⟩
  rw [h] at hexec
  exact hwaits holder (Prod.ext_iff.mp hexec).1.symm

end Locking
