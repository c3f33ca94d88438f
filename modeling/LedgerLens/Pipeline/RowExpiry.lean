import LedgerLens.Library.Runs
import LedgerLens.Pipeline.CheckpointResults

/-!
# The expiry of checkpoint rows

`evict_expired` is meant to delete the rows whose last update is older than the time to live.
A row keeps the date of its last end when its stage is started again, and the eviction looks
at that date first. This file records the last update of each row beside the store and
determines which evictions delete the right rows.
-/

namespace LedgerLens.Pipeline

open Transition

variable {Payload : Type*}

/-- A call that writes to the store. -/
inductive StoreCall (Payload : Type*) where
  /-- `mark_started`, which may evict expired rows first. -/
  | markStarted (times : StartTimes) (key : CheckpointKey)
  /-- `mark_done`. -/
  | markDone (now : ℤ) (key : CheckpointKey) (result : Option Payload)
  /-- `mark_failed`. -/
  | markFailed (now : ℤ) (key : CheckpointKey) (error : String)
  /-- `evict_expired`, with the date and the monotonic clock after it. -/
  | evictExpired (now : ℤ) (monotonic : ℚ)

/-- A store with the date of the last transition of each stage. -/
structure UpdateHistory where
  /-- The store. -/
  store : CheckpointStore
  /-- When the stage was last marked as started, done or failed. -/
  lastUpdate : CheckpointKey → Option ℤ := fun _ => none

namespace UpdateHistory

/-- A transition of a stage that leaves a store. -/
def update (h : UpdateHistory) (store : CheckpointStore) (key : CheckpointKey) (now : ℤ) :
    UpdateHistory where
  store := store
  lastUpdate := Function.update h.lastUpdate key (some now)

/-- One call. A result that cannot be encoded leaves everything as it was. -/
def step (codec : JsonCodec Payload) (h : UpdateHistory) (call : StoreCall Payload) :
    UpdateHistory :=
  match call with
  | .markStarted times key => h.update (h.store.markStarted times key) key times.startedAt
  | .markDone now key result =>
    match h.store.markDone codec now key result with
    | .error _ => h
    | .ok store => h.update store key now
  | .markFailed now key error => h.update (h.store.markFailed now key error) key now
  | .evictExpired now monotonic => { h with store := h.store.evictExpired now monotonic }

/-- The last update of a stage is before a date. -/
def Older (h : UpdateHistory) (cutoff : ℤ) (key : CheckpointKey) : Prop :=
  ∃ t, h.lastUpdate key = some t ∧ t < cutoff

/-- An eviction at this time deletes exactly the rows whose last update is older than the time
to live, and leaves the others alone. -/
def EvictsOlder (h : UpdateHistory) (now : ℤ) (monotonic : ℚ) : Prop :=
  ∀ key, (h.Older (now - hours h.store.ttlHours) key →
      (h.store.evictExpired now monotonic).get key = none) ∧
    (¬h.Older (now - hours h.store.ttlHours) key →
      (h.store.evictExpired now monotonic).get key = h.store.get key)

/-- The condition for that: if a stage is running and its row has the date of an earlier end,
that date and the date of the start lie on the same side of the cutoff. -/
def RestartsAgree (h : UpdateHistory) (now : ℤ) : Prop :=
  ∀ key record completedAt startedAt, h.store.get key = some record → record.status = .running →
    record.completedAt = some completedAt → record.startedAt = some startedAt →
    (completedAt < now - hours h.store.ttlHours ↔ startedAt < now - hours h.store.ttlHours)

/-- The date in a row that the last transition wrote. -/
def written (record : CheckpointRecord) : Option ℤ :=
  match record.status with
  | .running => record.startedAt
  | _ => record.completedAt

/-- The invariant: each row has the date of the last transition of its stage. -/
def Inv (h : UpdateHistory) : Prop :=
  ∀ key record, h.store.get key = some record →
    ∃ t, h.lastUpdate key = some t ∧ written record = some t

variable {h : UpdateHistory} {codec : JsonCodec Payload} {key : CheckpointKey} {now : ℤ}
  {monotonic : ℚ}

/-- The rows that an eviction leaves. -/
theorem get_evictExpired (store : CheckpointStore) (key : CheckpointKey) :
    (store.evictExpired now monotonic).get key = (store.get key).filter fun record =>
      !CheckpointStore.expired (now - hours store.ttlHours) record :=
  UniqueTable.find?_deleteWhere _ _ _

/-- Rows that are deleted do no harm. -/
theorem Inv.of_rows (hinv : h.Inv) {store : CheckpointStore}
    (hrows : ∀ key record, store.get key = some record → h.store.get key = some record) :
    Inv { h with store := store } :=
  fun key record hget => hinv key record (hrows key record hget)

/-- A transition that writes its date into the row of its stage. -/
theorem Inv.update (hinv : h.Inv) {store : CheckpointStore} {record : CheckpointRecord}
    (hself : store.get key = some record) (hwritten : written record = some now)
    (hothers : ∀ key' record', key' ≠ key → store.get key' = some record' →
      h.store.get key' = some record') : Inv (h.update store key now) := by
  intro key' record' hget
  have hget' : store.get key' = some record' := hget
  have hlast : (h.update store key now).lastUpdate key' =
      if key' = key then some now else h.lastUpdate key' := Function.update_apply _ _ _ _
  rw [hlast]
  by_cases hkey : key' = key
  · subst hkey
    obtain rfl := Option.some.inj (hself.symm.trans hget')
    exact ⟨now, if_pos rfl, hwritten⟩
  · rw [if_neg hkey]
    exact hinv key' record' (hothers key' record' hkey hget')

/-- The invariant holds after every call. -/
theorem Inv.step (hinv : h.Inv) (call : StoreCall Payload) : (h.step codec call).Inv := by
  cases call with
  | markStarted times key =>
    have hget := fun key' => CheckpointStore.get_markStarted h.store times key key'
    refine hinv.update ((hget key).trans (if_pos rfl)) rfl fun key' record' hne hrecord => ?_
    rw [hget, if_neg hne] at hrecord
    exact (Option.filter_eq_some_iff.mp hrecord).1
  | markDone now key result =>
    have hput : ∀ text, (h.update (h.store.upsertStatus key .done none (some now) text) key
        now).Inv := by
      intro text
      have hget := fun key' => CheckpointStore.get_upsertStatus h.store key key' .done none
        (some now) text none
      refine hinv.update ((hget key).trans (if_pos rfl)) rfl fun key' record' hne hrecord => ?_
      rwa [hget, if_neg hne] at hrecord
    unfold UpdateHistory.step CheckpointStore.markDone
    cases result with
    | none => exact hput none
    | some payload =>
      cases hdumps : codec.dumps payload with
      | error e => simpa only [hdumps] using hinv
      | ok text => simpa only [hdumps] using hput (some text)
  | markFailed now key error =>
    have hget := fun key' => CheckpointStore.get_upsertStatus h.store key key' .failed none
      (some now) none (some error)
    refine hinv.update ((hget key).trans (if_pos rfl)) rfl fun key' record' hne hrecord => ?_
    have hrecord' : (h.store.upsertStatus key .failed none (some now) none (some error)).get
        key' = some record' := hrecord
    rwa [hget, if_neg hne] at hrecord'
  | evictExpired now monotonic =>
    refine hinv.of_rows fun key record hget => ?_
    rw [get_evictExpired] at hget
    exact (Option.filter_eq_some_iff.mp hget).1

/-- What an eviction looks at is the date of the last transition, unless the stage is running
and has an earlier end. -/
theorem expired_iff {record : CheckpointRecord} {cutoff t : ℤ} (ht : written record = some t) :
    CheckpointStore.expired cutoff record = true ↔
      if record.status = .running then record.completedAt.getD t < cutoff else t < cutoff := by
  unfold written at ht
  unfold CheckpointStore.expired
  cases hstatus : record.status with
  | running =>
    rw [hstatus] at ht
    have hstarted : record.startedAt = some t := ht
    cases hcompleted : record.completedAt with
    | none => simp [hstarted]
    | some completedAt => simp
  | pending | done | failed =>
    rw [hstatus] at ht
    have hcompleted : record.completedAt = some t := ht
    simp [hcompleted]

/-- An eviction is right about a row exactly if the row is expired when its last update is
older. -/
theorem evictsOlder_iff (hinv : h.Inv) :
    h.EvictsOlder now monotonic ↔
      ∀ key record t, h.store.get key = some record → h.lastUpdate key = some t →
        (CheckpointStore.expired (now - hours h.store.ttlHours) record = true ↔
          t < now - hours h.store.ttlHours) := by
  constructor
  · intro hevicts key record t hget hlast
    have hfilter : (h.store.evictExpired now monotonic).get key = _ :=
      get_evictExpired h.store key
    rw [hget] at hfilter
    obtain ⟨hdeleted, hkept⟩ := hevicts key
    constructor
    · intro hexpired
      by_contra hyoung
      have hsame := hkept fun hold => by
        obtain ⟨t', hlast', hlt⟩ := hold
        obtain rfl := Option.some.inj (hlast.symm.trans hlast')
        exact hyoung hlt
      rw [hfilter, hget] at hsame
      simp [hexpired] at hsame
    · intro hold
      have hnone := hdeleted ⟨t, hlast, hold⟩
      rw [hfilter] at hnone
      by_contra hfresh
      simp [hfresh] at hnone
  · intro hrows key
    rw [get_evictExpired]
    cases hget : h.store.get key with
    | none => simp
    | some record =>
      obtain ⟨t, hlast, -⟩ := hinv key record hget
      have hrow := hrows key record t hget hlast
      have holder : h.Older (now - hours h.store.ttlHours) key ↔
          t < now - hours h.store.ttlHours := by
        constructor
        · rintro ⟨t', hlast', hlt⟩
          obtain rfl := Option.some.inj (hlast.symm.trans hlast')
          exact hlt
        · exact fun hlt => ⟨t, hlast, hlt⟩
      rw [holder, ← hrow]
      cases hexpired : CheckpointStore.expired (now - hours h.store.ttlHours) record with
      | false => simp [hexpired]
      | true => simp [hexpired]

end UpdateHistory

/-- After every history of calls, an eviction at any time deletes exactly the rows whose last
update is older than the time to live exactly if no running stage has in its row an earlier
end for which the cutoff decides otherwise than for its start. -/
theorem evictExpired_exact_iff (codec : JsonCodec Payload) (ttlHours : ℤ) (lastEviction : ℚ)
    (calls : List (StoreCall Payload)) (now : ℤ) (monotonic : ℚ) :
    let h := exec (UpdateHistory.step codec)
      { store := { ttlHours := ttlHours, lastEviction := lastEviction } } calls
    h.EvictsOlder now monotonic ↔ h.RestartsAgree now := by
  intro h
  have hinv : h.Inv := by
    refine exec_invariant (fun h call hinv => hinv.step call) calls ?_
    intro key record hget
    exact absurd hget (by simp [CheckpointStore.get])
  rw [UpdateHistory.evictsOlder_iff hinv]
  constructor
  · intro hrows key record completedAt startedAt hget hrunning hcompleted hstarted
    obtain ⟨t, hlast, hwritten⟩ := hinv key record hget
    have hrow := hrows key record t hget hlast
    have ht : t = startedAt := by
      unfold UpdateHistory.written at hwritten
      rw [hrunning] at hwritten
      exact Option.some.inj (hwritten.symm.trans hstarted)
    rw [UpdateHistory.expired_iff hwritten, if_pos hrunning, hcompleted] at hrow
    rw [← ht]
    exact hrow
  · intro hagree key record t hget hlast
    obtain ⟨t', hlast', hwritten⟩ := hinv key record hget
    obtain rfl := Option.some.inj (hlast.symm.trans hlast')
    rw [UpdateHistory.expired_iff hwritten]
    split_ifs with hrunning
    · cases hcompleted : record.completedAt with
      | none => rfl
      | some completedAt =>
        have hstarted : record.startedAt = some t := by
          unfold UpdateHistory.written at hwritten
          rwa [hrunning] at hwritten
        exact hagree key record completedAt t hget hrunning hcompleted hstarted
    · rfl

/-- A stage ends at once and is started again two days later, less than an hour after an
eviction. -/
def restartAfterTwoDays (key : CheckpointKey) : List (StoreCall Bool) :=
  [.markStarted ⟨0, 0, 0, 0⟩ key, .markDone 0 key none, .evictExpired (hours 47) 169200,
    .markStarted ⟨172000, 0, 0, 172000000000⟩ key]

/-- A quarter of an hour later an eviction deletes the row of the running stage. -/
theorem running_row_evicted :
    ¬(exec (UpdateHistory.step flagCodec) { store := {} }
      (restartAfterTwoDays RecoveryManager.ingestCheckpoint.key)).EvictsOlder
        173000000000 173000 := by
  intro h
  have hkept := (h RecoveryManager.ingestCheckpoint.key).2 (by
    rintro ⟨t, hlast, hold⟩
    have hstart : t = 172000000000 := (Option.some.inj hlast).symm
    subst hstart
    exact absurd hold (by decide +kernel))
  exact absurd hkept (by decide +kernel)

end LedgerLens.Pipeline
