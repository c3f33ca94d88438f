import LedgerLens.Detection.CacheInvalidation
import Mathlib.Data.List.DropRight
import Mathlib.Data.List.Sort
import Mathlib.Data.String.Basic

/-!
# Evictors that fail

`invalidate_source` goes on when an evictor raises, and raises the first error at the end. It drops
what the registry knows about a key in the same step, whether its evictors failed or not. This file
follows the calls of the evictors through an invalidation and those after it.

Counters, log lines and the times of events are left out.
-/

namespace LedgerLens.Detection

/-- `InvalidationEvent`, without its time. -/
structure InvalidationEvent where
  /-- `key`. -/
  key : String
  /-- `source`. -/
  source : Option String
  /-- `reason`. -/
  reason : String
  /-- `cache_names`. -/
  cacheNames : List String
  deriving DecidableEq

/-- `CacheInvalidationError`, without the exception that it wraps. -/
structure CacheInvalidationError where
  /-- `cache_name`. -/
  cacheName : String
  /-- `key`. -/
  key : String
  deriving DecidableEq

/-- `InvalidationRegistry`, with what it keeps for diagnostics. -/
structure AuditedRegistry where
  /-- The graph, the caches that are registered and those of each key. -/
  registry : InvalidationRegistry
  /-- `max_audit_events_per_key`. -/
  maxAuditEvents : ℕ := 20
  /-- `_audit`. -/
  audit : UniqueTable String (List InvalidationEvent) := .empty
  /-- `_fingerprints`. -/
  fingerprints : UniqueTable String String := .empty

/-- The calls of evictors, each with its key and its cache, the errors and what is left. -/
structure Cascade where
  /-- The evictors that were called. -/
  called : List (String × String) := []
  /-- `errors`. -/
  errors : List CacheInvalidationError := []
  /-- The registry afterwards. -/
  left : AuditedRegistry

namespace AuditedRegistry

/-- The caches of a key of which `_evict_key_locked` calls the evictors. -/
def evictable (r : AuditedRegistry) (key : String) : List String :=
  ((r.registry.keyCaches.get key).insertionSort (· ≤ ·)).filter (· ∈ r.registry.evictors)

/-- What is left of the registry after a key was evicted. -/
def forget (r : AuditedRegistry) (key : String) (event : InvalidationEvent) : AuditedRegistry :=
  { r with
    registry :=
      { r.registry with
        graph := r.registry.graph.removeKey key
        keyCaches := r.registry.keyCaches.erase key }
    audit := r.audit.put key (((r.audit.find? key).getD [] ++ [event]).rtake r.maxAuditEvents)
    fingerprints := r.fingerprints.erase key }

/-- `_evict_key_locked`. The evictor of a cache raises for some keys. -/
def evictKeyLocked (r : AuditedRegistry) (raises : String → String → Bool) (key : String)
    (source : Option String) (reason : String) : Cascade where
  called := (r.evictable key).map fun cache => (key, cache)
  errors := ((r.evictable key).filter fun cache => raises cache key).map fun cache => ⟨cache, key⟩
  left := r.forget key
    ⟨key, source, reason, (r.evictable key).filter fun cache => !raises cache key⟩

/-- The loop of `invalidate_source`. -/
def evictAll (raises : String → String → Bool) (source reason : String) :
    AuditedRegistry → List String → Cascade
  | r, [] => { left := r }
  | r, key :: keys =>
    let first := r.evictKeyLocked raises key (some source) reason
    let rest := evictAll raises source reason first.left keys
    ⟨first.called ++ rest.called, first.errors ++ rest.errors, rest.left⟩

/-- `invalidate_source`: the keys it returns or the error it raises, and what it did. -/
def invalidateSource (r : AuditedRegistry) (raises : String → String → Bool)
    (source reason : String) : Except CacheInvalidationError (List String) × Cascade :=
  let affected := r.registry.graph.dependentsOf source
  let c := evictAll raises source reason r affected
  let left := { c.left with
    registry := { c.left.registry with graph := c.left.registry.graph.forgetSource source } }
  (match c.errors with
    | [] => .ok affected
    | e :: _ => .error e, { c with left := left })

/-- `invalidate_key`. -/
def invalidateKey (r : AuditedRegistry) (raises : String → String → Bool)
    (key reason : String) : Except CacheInvalidationError Unit × Cascade :=
  let c := r.evictKeyLocked raises key none reason
  (match c.errors with
    | [] => .ok ()
    | e :: _ => .error e, c)

/-- `register_cache`. -/
def registerCache (r : AuditedRegistry) (cacheName : String) : AuditedRegistry :=
  { r with registry := { r.registry with evictors := r.registry.evictors.insert cacheName } }

/-- `record_dependency`, which raises `KeyError` if the cache is not registered. -/
def recordDependency (r : AuditedRegistry) (key : String) (sources : List String)
    (cacheName : String) (fingerprint : Option String) : Except String AuditedRegistry :=
  if cacheName ∈ r.registry.evictors then
    .ok { r with
      registry :=
        { r.registry with
          graph := r.registry.graph.setDependencies key sources
          keyCaches := r.registry.keyCaches.add key cacheName }
      fingerprints :=
        match fingerprint with
        | none => r.fingerprints
        | some fp => r.fingerprints.put key fp }
  else .error cacheName

/-- If an evictor raises, the next invalidation of the source with evictors that work for the entry
calls it for the same key. -/
def Remembers (r : AuditedRegistry) (raises : String → String → Bool) (source reason : String) :
    Prop :=
  ∀ cache key, ⟨cache, key⟩ ∈ (r.invalidateSource raises source reason).2.errors →
    ∀ (raises' : String → String → Bool) (reason' : String), raises' cache key = false →
      (key, cache) ∈ ((r.invalidateSource raises source reason).2.left.invalidateSource raises'
        source reason').2.called

/-- Every entry of a key that depends on the source is evicted, unless its evictor raises. -/
def EvictsOthers (r : AuditedRegistry) (raises : String → String → Bool) (source reason : String) :
    Prop :=
  ∀ key ∈ r.registry.graph.dependentsOf source, ∀ cache ∈ r.evictable key,
    raises cache key = false → (key, cache) ∈ (r.invalidateSource raises source reason).2.called

section Cascades

variable {r : AuditedRegistry} {raises : String → String → Bool} {source reason : String}

/-- A key that was evicted is in no cache any more, as far as the registry knows. -/
theorem evictable_forget (key key' : String) (event : InvalidationEvent) :
    (r.forget key event).evictable key' = if key' = key then [] else r.evictable key' := by
  unfold evictable forget SetDict.get
  rw [UniqueTable.find?_erase]
  split_ifs <;> rfl

/-- After the loop no cache of the keys is known, and those of other keys still are. -/
theorem evictable_evictAll (r : AuditedRegistry) (keys : List String) (key : String) :
    (evictAll raises source reason r keys).left.evictable key =
      if key ∈ keys then [] else r.evictable key := by
  induction keys generalizing r with
  | nil => rfl
  | cons first keys ih =>
    unfold evictAll
    dsimp only
    rw [ih]
    unfold evictKeyLocked
    rw [evictable_forget]
    by_cases hfirst : key = first
    · simp [hfirst]
    · simp [hfirst]

/-- The loop calls the evictors of all caches of the keys. -/
theorem mem_called_evictAll (r : AuditedRegistry) (keys : List String) (key cache : String) :
    (key, cache) ∈ (evictAll raises source reason r keys).called ↔
      key ∈ keys ∧ cache ∈ r.evictable key := by
  induction keys generalizing r with
  | nil => simp [evictAll]
  | cons first keys ih =>
    unfold evictAll
    dsimp only
    rw [List.mem_append, ih]
    unfold evictKeyLocked
    rw [evictable_forget, List.mem_map, List.mem_cons]
    by_cases hfirst : key = first
    · subst hfirst
      simp
    · simp [hfirst, Ne.symm hfirst]

/-- The loop collects the errors of all evictors that raise. -/
theorem mem_errors_evictAll (r : AuditedRegistry) (keys : List String) (key cache : String) :
    ⟨cache, key⟩ ∈ (evictAll raises source reason r keys).errors ↔
      key ∈ keys ∧ cache ∈ r.evictable key ∧ raises cache key = true := by
  induction keys generalizing r with
  | nil => simp [evictAll]
  | cons first keys ih =>
    unfold evictAll
    dsimp only
    rw [List.mem_append, ih]
    unfold evictKeyLocked
    rw [evictable_forget, List.mem_map, List.mem_cons]
    by_cases hfirst : key = first
    · subst hfirst
      simp
    · simp [hfirst, Ne.symm hfirst]

theorem mem_called_invalidateSource (key cache : String) :
    (key, cache) ∈ (r.invalidateSource raises source reason).2.called ↔
      key ∈ r.registry.graph.dependentsOf source ∧ cache ∈ r.evictable key :=
  mem_called_evictAll r _ key cache

theorem mem_errors_invalidateSource (key cache : String) :
    ⟨cache, key⟩ ∈ (r.invalidateSource raises source reason).2.errors ↔
      key ∈ r.registry.graph.dependentsOf source ∧ cache ∈ r.evictable key ∧
        raises cache key = true :=
  mem_errors_evictAll r _ key cache

/-- An invalidation leaves no cache of a key that depends on the source, whether its evictors raise
or not. -/
theorem evictable_invalidateSource {key : String}
    (hkey : key ∈ r.registry.graph.dependentsOf source) :
    (r.invalidateSource raises source reason).2.left.evictable key = [] := by
  exact (evictable_evictAll r (r.registry.graph.dependentsOf source) key).trans (if_pos hkey)

/-- The entries of which the evictor works are all evicted. -/
theorem evictsOthers (r : AuditedRegistry) (raises : String → String → Bool)
    (source reason : String) : r.EvictsOthers raises source reason :=
  fun key hkey cache hcache _ => (mem_called_invalidateSource key cache).mpr ⟨hkey, hcache⟩

/-- Failed evictions are not forgotten, and all others happen, exactly if no evictor raises for an
entry of a key that depends on the source. -/
theorem remembers_failures_iff (r : AuditedRegistry) (raises : String → String → Bool)
    (source reason : String) :
    (r.Remembers raises source reason ∧ r.EvictsOthers raises source reason) ↔
      ∀ key ∈ r.registry.graph.dependentsOf source, ∀ cache ∈ r.evictable key,
        raises cache key = false := by
  constructor
  · rintro ⟨hremembers, -⟩ key hkey cache hcache
    by_contra hraises
    have herror : ⟨cache, key⟩ ∈ (r.invalidateSource raises source reason).2.errors :=
      (mem_errors_invalidateSource key cache).mpr ⟨hkey, hcache, by simpa using hraises⟩
    have hcalled := hremembers cache key herror (fun _ _ => false) reason rfl
    have hagain := ((mem_called_invalidateSource key cache).mp hcalled).2
    rw [evictable_invalidateSource hkey] at hagain
    exact absurd hagain List.not_mem_nil
  · intro hworks
    refine ⟨fun cache key herror => ?_, evictsOthers r raises source reason⟩
    obtain ⟨hkey, hcache, hraises⟩ := (mem_errors_invalidateSource key cache).mp herror
    rw [hworks key hkey cache hcache] at hraises
    cases hraises

/-- The wallet `A` is computed from `S` and held by the cache `features`. -/
private def oneEntry : AuditedRegistry where
  registry :=
    { graph := DependencyGraph.setDependencies {} "A" ["S"]
      evictors := ["features"]
      keyCaches := SetDict.add .empty "A" "features" }

/-- The evictor of `features` raises, and works when `S` is invalidated again, but is not called. -/
theorem failed_eviction_forgotten :
    (oneEntry.invalidateSource (fun _ _ => true) "S" "new_trade").2.errors =
        [⟨"features", "A"⟩] ∧
      ((oneEntry.invalidateSource (fun _ _ => true) "S" "new_trade").2.left.invalidateSource
        (fun _ _ => false) "S" "new_trade").2.called = [] ∧
      ¬ oneEntry.Remembers (fun _ _ => true) "S" "new_trade" := by
  have hfailed : (oneEntry.invalidateSource (fun _ _ => true) "S" "new_trade").2.errors =
      [⟨"features", "A"⟩] := by decide +kernel
  have hsilent : ((oneEntry.invalidateSource (fun _ _ => true) "S"
      "new_trade").2.left.invalidateSource (fun _ _ => false) "S" "new_trade").2.called = [] := by
    decide +kernel
  refine ⟨hfailed, hsilent, fun hremembers => ?_⟩
  have hcalled := hremembers "features" "A" (by rw [hfailed]; exact List.mem_singleton_self _)
    (fun _ _ => false) "new_trade" rfl
  rw [hsilent] at hcalled
  exact absurd hcalled List.not_mem_nil

end Cascades

end AuditedRegistry

end LedgerLens.Detection
