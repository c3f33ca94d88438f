import LedgerLens.Library.Runs
import LedgerLens.Library.SetDict
import Mathlib.Logic.Function.Basic

/-!
# Invalidation of derived cache entries

`InvalidationRegistry` evicts what was computed from a source that has changed. It goes by a
graph with the sources of each key as they were last recorded, and forgets them when the key is
evicted or recorded again. This file says which histories keep the paths that a later
invalidation needs.
-/

namespace LedgerLens.Detection

open Transition

/-- `DependencyGraph`. -/
structure DependencyGraph where
  /-- `_forward`: the keys that depend on a source. -/
  forward : SetDict String String := .empty
  /-- `_reverse`: the sources that a key depends on. -/
  reverse : SetDict String String := .empty

namespace DependencyGraph

/-- `add_edge`. -/
def addEdge (g : DependencyGraph) (derivedKey source : String) : DependencyGraph where
  forward := g.forward.add source derivedKey
  reverse := g.reverse.add derivedKey source

/-- `remove_key`. -/
def removeKey (g : DependencyGraph) (derivedKey : String) : DependencyGraph where
  forward :=
    (g.reverse.get derivedKey).foldl (fun t source => t.discard source derivedKey) g.forward
  reverse := g.reverse.erase derivedKey

/-- `set_dependencies`. -/
def setDependencies (g : DependencyGraph) (derivedKey : String) (sources : List String) :
    DependencyGraph :=
  sources.foldl (fun g source => g.addEdge derivedKey source) (g.removeKey derivedKey)

/-- `dependents_of`. -/
def dependentsOf (g : DependencyGraph) (source : String) : List String := g.forward.reach source

/-- `_graph_forget_source`. -/
def forgetSource (g : DependencyGraph) (source : String) : DependencyGraph :=
  { g with forward := g.forward.erase source }

/-- A key depends on a source. -/
def Edge (g : DependencyGraph) (source key : String) : Prop := g.forward.Arc source key

/-- The two dictionaries agree. -/
def Consistent (g : DependencyGraph) : Prop :=
  ∀ source key, g.Edge source key ↔ source ∈ g.reverse.get key

variable {g : DependencyGraph}

/-- A key that is removed depends on nothing. -/
theorem edge_removeKey_iff (hg : g.Consistent) (key : String) (source key' : String) :
    (g.removeKey key).Edge source key' ↔ g.Edge source key' ∧ key' ≠ key := by
  have hedge := hg source key
  unfold Edge SetDict.Arc at hedge ⊢
  unfold removeKey
  rw [SetDict.mem_get_foldl_discard, ← hedge]
  by_cases hkey : key' = key
  · subst hkey
    tauto
  · tauto

theorem Consistent.removeKey (hg : g.Consistent) (key : String) :
    (g.removeKey key).Consistent := by
  intro source key'
  rw [edge_removeKey_iff hg, hg source key']
  simp [DependencyGraph.removeKey]

theorem edge_addEdge_iff (key source source' key' : String) :
    (g.addEdge key source).Edge source' key' ↔
      (key' = key ∧ source' = source) ∨ g.Edge source' key' := by
  unfold Edge SetDict.Arc addEdge
  rw [SetDict.mem_get_add]
  tauto

theorem Consistent.addEdge (hg : g.Consistent) (key source : String) :
    (g.addEdge key source).Consistent := by
  intro source' key'
  rw [edge_addEdge_iff, hg source' key']
  unfold DependencyGraph.addEdge
  rw [SetDict.mem_get_add]

/-- A key whose dependencies are set depends on these sources only. -/
theorem edge_setDependencies_iff (hg : g.Consistent) (key : String) (sources : List String)
    (source key' : String) :
    (g.setDependencies key sources).Edge source key' ↔
      (key' = key ∧ source ∈ sources) ∨ (g.Edge source key' ∧ key' ≠ key) := by
  have hfold (g' : DependencyGraph) :
      (sources.foldl (fun g source => g.addEdge key source) g').Edge source key' ↔
        (key' = key ∧ source ∈ sources) ∨ g'.Edge source key' := by
    induction sources generalizing g' with
    | nil => simp
    | cons source' sources ih =>
      rw [List.foldl_cons, ih, edge_addEdge_iff, List.mem_cons]
      tauto
  unfold setDependencies
  rw [hfold, edge_removeKey_iff hg]

theorem Consistent.setDependencies (hg : g.Consistent) (key : String) (sources : List String) :
    (g.setDependencies key sources).Consistent := by
  have hfold (g' : DependencyGraph) (hg' : g'.Consistent) :
      (sources.foldl (fun g source => g.addEdge key source) g').Consistent := by
    induction sources generalizing g' with
    | nil => exact hg'
    | cons source sources ih => exact ih _ (hg'.addEdge key source)
  exact hfold _ (hg.removeKey key)

/-- The keys that depend on a source, possibly through others. -/
theorem mem_dependentsOf_iff (source key : String) :
    key ∈ g.dependentsOf source ↔ Relation.TransGen g.Edge source key :=
  SetDict.mem_reach_iff

end DependencyGraph

/-- `InvalidationRegistry`. -/
structure InvalidationRegistry where
  /-- `_graph`. -/
  graph : DependencyGraph := {}
  /-- `_evictors`: the caches that are registered. -/
  evictors : List String
  /-- `_key_caches`. -/
  keyCaches : SetDict String String := .empty

/-- An entry of a cache. -/
structure HeldEntry where
  /-- Its key. -/
  key : String
  /-- Its cache. -/
  cache : String
  /-- The sources it was computed from, also through other keys, with their versions then. -/
  computedFrom : List (String × ℕ)

/-- A registry with what the caches hold. -/
structure InvalidationHistory where
  /-- The registry. -/
  registry : InvalidationRegistry
  /-- The entries that were recorded and not evicted since. -/
  held : List HeldEntry := []
  /-- How often each source was invalidated. -/
  versions : String → ℕ := fun _ => 0

/-- A call of the registry. -/
inductive InvalidationCall where
  /-- `record_dependency`. -/
  | recordDependency (derivedKey : String) (sources : List String) (cacheName : String)
  /-- `invalidate_source`. -/
  | invalidateSource (source : String)
  /-- `invalidate_key`. -/
  | invalidateKey (derivedKey : String)

namespace InvalidationHistory

/-- What a new entry is computed from: its sources, and what the entries held of them were. -/
def computedFrom (h : InvalidationHistory) (sources : List String) : List (String × ℕ) :=
  sources.map (fun source => (source, h.versions source)) ++
    (h.held.filter fun e => e.key ∈ sources).flatMap HeldEntry.computedFrom

/-- What `record_dependency` leaves for a registered cache. -/
def recorded (h : InvalidationHistory) (derivedKey : String) (sources : List String)
    (cacheName : String) : InvalidationHistory :=
  { h with
    registry :=
      { h.registry with
        graph := h.registry.graph.setDependencies derivedKey sources
        keyCaches := h.registry.keyCaches.add derivedKey cacheName }
    held := (h.held.filter fun e => ¬(e.key = derivedKey ∧ e.cache = cacheName)) ++
      [⟨derivedKey, cacheName, h.computedFrom sources⟩] }

/-- `record_dependency`, nothing if the cache is not registered. -/
def recordDependency (h : InvalidationHistory) (derivedKey : String) (sources : List String)
    (cacheName : String) : Option InvalidationHistory :=
  if cacheName ∈ h.registry.evictors then some (h.recorded derivedKey sources cacheName) else none

/-- `_evict_key_locked`, where no evictor fails. -/
def evictKey (h : InvalidationHistory) (derivedKey : String) : InvalidationHistory :=
  let cacheNames := (h.registry.keyCaches.get derivedKey).filter (· ∈ h.registry.evictors)
  { h with
    registry :=
      { h.registry with
        graph := h.registry.graph.removeKey derivedKey
        keyCaches := h.registry.keyCaches.erase derivedKey }
    held := h.held.filter fun e => ¬(e.key = derivedKey ∧ e.cache ∈ cacheNames) }

/-- `invalidate_source`: the keys that are evicted, and what is left. -/
def invalidateSource (h : InvalidationHistory) (source : String) :
    List String × InvalidationHistory :=
  let affected := h.registry.graph.dependentsOf source
  let rest := affected.foldl evictKey h
  (affected, { rest with
    registry := { rest.registry with graph := rest.registry.graph.forgetSource source }
    versions := Function.update h.versions source (h.versions source + 1) })

/-- One call. -/
def step (h : InvalidationHistory) (call : InvalidationCall) : InvalidationHistory :=
  match call with
  | .recordDependency derivedKey sources cacheName =>
    (h.recordDependency derivedKey sources cacheName).getD h
  | .invalidateSource source => (h.invalidateSource source).2
  | .invalidateKey derivedKey => h.evictKey derivedKey

/-- No entry is held that was computed from an older version of a source. -/
def NoStale (h : InvalidationHistory) : Prop :=
  ∀ e ∈ h.held, ∀ sv ∈ e.computedFrom, h.versions sv.1 ≤ sv.2

instance (h : InvalidationHistory) : Decidable h.NoStale :=
  inferInstanceAs (Decidable (∀ e ∈ h.held, ∀ sv ∈ e.computedFrom, h.versions sv.1 ≤ sv.2))

/-- Whichever source is invalidated next, no entry computed from an older version survives. -/
def Cascades (h : InvalidationHistory) : Prop := ∀ source, (h.invalidateSource source).2.NoStale

end InvalidationHistory

/-- The key of an entry is reached from everything that the entry was computed from. -/
def HeldEntry.Reached (edge : String → String → Prop) (e : HeldEntry) : Prop :=
  ∀ sv ∈ e.computedFrom, Relation.TransGen edge sv.1 e.key

namespace InvalidationHistory

/-- The condition under which a call keeps the paths that later invalidations need: without the
edges to a key that is evicted or recorded again, and with those from its new sources, every entry
that is still held or used is reached from everything that it was computed from. -/
def KeepsPaths (h : InvalidationHistory) (call : InvalidationCall) : Prop :=
  match call with
  | .recordDependency key sources cacheName => cacheName ∈ h.registry.evictors →
    ∀ e ∈ h.held, (e.key = key → e.cache = cacheName → key ∈ sources) →
      e.Reached fun source key' =>
        (key' = key ∧ source ∈ sources) ∨ (h.registry.graph.Edge source key' ∧ key' ≠ key)
  | .invalidateSource _ => True
  | .invalidateKey key => ∀ e ∈ h.held, e.key ≠ key →
      e.Reached fun source key' => h.registry.graph.Edge source key' ∧ key' ≠ key

variable {h : InvalidationHistory}

/-- What always holds of the registry and the caches. -/
structure Wired (h : InvalidationHistory) : Prop where
  /-- The dictionaries of the graph agree. -/
  consistent : h.registry.graph.Consistent
  /-- The registry knows where entries are held. -/
  cached : ∀ e ∈ h.held, e.cache ∈ h.registry.keyCaches.get e.key
  /-- It knows registered caches only. -/
  registered : ∀ key, ∀ c ∈ h.registry.keyCaches.get key, c ∈ h.registry.evictors
  /-- Entries were computed from versions that there have been. -/
  known : ∀ e ∈ h.held, ∀ sv ∈ e.computedFrom, sv.2 ≤ h.versions sv.1

/-- A key that is evicted is in no cache any more. -/
theorem held_evictKey (hwired : h.Wired) (key : String) :
    (h.evictKey key).held = h.held.filter fun e => e.key ≠ key := by
  unfold evictKey
  refine List.filter_congr fun e he => ?_
  by_cases hkey : e.key = key
  · have hcached := hwired.cached e he
    rw [hkey] at hcached
    simp [hkey, hcached, hwired.registered key e.cache hcached]
  · simp [hkey]

theorem Wired.evictKey (hwired : h.Wired) (key : String) : (h.evictKey key).Wired := by
  have hheld := held_evictKey hwired key
  constructor
  case consistent => exact hwired.consistent.removeKey key
  case cached =>
    intro e he
    rw [hheld, List.mem_filter] at he
    exact SetDict.mem_get_erase.mpr ⟨hwired.cached e he.1, by simpa using he.2⟩
  case registered =>
    intro key' c hc
    exact hwired.registered key' c (SetDict.mem_get_erase.mp hc).1
  case known =>
    intro e he
    rw [hheld, List.mem_filter] at he
    exact hwired.known e he.1

/-- What is left after some keys were evicted. -/
theorem foldl_evictKey_spec (hwired : h.Wired) (keys : List String) :
    (keys.foldl evictKey h).Wired ∧
      (keys.foldl evictKey h).held = (h.held.filter fun e => e.key ∉ keys) ∧
      (keys.foldl evictKey h).versions = h.versions ∧
      ∀ source key, (keys.foldl evictKey h).registry.graph.Edge source key ↔
        h.registry.graph.Edge source key ∧ key ∉ keys := by
  induction keys generalizing h with
  | nil => exact ⟨hwired, by simp, rfl, by simp⟩
  | cons key keys ih =>
    obtain ⟨hwired', hheld, hversions, hedge⟩ := ih (hwired.evictKey key)
    refine ⟨hwired', ?_, hversions, fun source key' => ?_⟩
    · rw [List.foldl_cons, hheld, held_evictKey hwired, List.filter_filter]
      refine List.filter_congr fun e _ => ?_
      simp [Bool.and_comm]
    · have hremoved := DependencyGraph.edge_removeKey_iff hwired.consistent key source key'
      rw [List.foldl_cons, hedge, List.mem_cons]
      unfold evictKey
      rw [hremoved]
      tauto

/-- What an invalidation leaves: the entries of the keys that do not depend on the source. -/
theorem mem_held_invalidateSource (hwired : h.Wired) (source : String) (e : HeldEntry) :
    e ∈ (h.invalidateSource source).2.held ↔
      e ∈ h.held ∧ ¬Relation.TransGen h.registry.graph.Edge source e.key := by
  obtain ⟨-, hheld, -, -⟩ :=
    foldl_evictKey_spec hwired (h.registry.graph.dependentsOf source)
  unfold invalidateSource
  dsimp only
  rw [hheld, List.mem_filter, ← DependencyGraph.mem_dependentsOf_iff]
  simp

/-- The edges that an invalidation leaves: those to keys that do not depend on the source. -/
theorem edge_invalidateSource_iff (hwired : h.Wired) (source source' key : String) :
    (h.invalidateSource source).2.registry.graph.Edge source' key ↔
      h.registry.graph.Edge source' key ∧
        ¬Relation.TransGen h.registry.graph.Edge source key := by
  obtain ⟨-, -, -, hedge⟩ :=
    foldl_evictKey_spec hwired (h.registry.graph.dependentsOf source)
  have hfold := hedge source' key
  unfold DependencyGraph.Edge SetDict.Arc at hfold
  unfold invalidateSource DependencyGraph.forgetSource DependencyGraph.Edge SetDict.Arc
  dsimp only
  rw [SetDict.mem_get_erase, hfold, DependencyGraph.mem_dependentsOf_iff]
  constructor
  · exact And.left
  · intro hand
    refine ⟨hand, ?_⟩
    rintro rfl
    exact hand.2 (.single hand.1)

theorem Wired.invalidateSource (hwired : h.Wired) (source : String) :
    (h.invalidateSource source).2.Wired := by
  obtain ⟨hwired', -, -, -⟩ :=
    foldl_evictKey_spec hwired (h.registry.graph.dependentsOf source)
  constructor
  case consistent =>
    -- The row that is dropped is empty, so that the other dictionary need not change.
    intro source' key
    have hreverse := hwired'.consistent source' key
    have hedge := (foldl_evictKey_spec hwired (h.registry.graph.dependentsOf source)).2.2.2
      source' key
    rw [edge_invalidateSource_iff hwired, ← DependencyGraph.mem_dependentsOf_iff, ← hedge]
    exact hreverse
  case cached => exact hwired'.cached
  case registered => exact hwired'.registered
  case known =>
    intro e he sv hsv
    have hle := hwired.known e ((mem_held_invalidateSource hwired source e).mp he).1 sv hsv
    refine hle.trans ?_
    unfold InvalidationHistory.invalidateSource
    dsimp only
    rw [Function.update_apply]
    split_ifs with hsource
    · rw [hsource]
      exact Nat.le_succ _
    · exact le_rfl

/-- A path to a key that does not depend on a source avoids all keys that do. -/
theorem path_invalidateSource (hwired : h.Wired) {source source' key : String}
    (hpath : Relation.TransGen h.registry.graph.Edge source' key)
    (hnot : ¬Relation.TransGen h.registry.graph.Edge source key) :
    Relation.TransGen (h.invalidateSource source).2.registry.graph.Edge source' key := by
  induction hpath with
  | single hedge => exact .single ((edge_invalidateSource_iff hwired _ _ _).mpr ⟨hedge, hnot⟩)
  | tail _ hedge ih =>
    have hbefore := ih fun hdepends => hnot (hdepends.tail hedge)
    exact hbefore.tail ((edge_invalidateSource_iff hwired _ _ _).mpr ⟨hedge, hnot⟩)

/-- An entry that is not reached from something it was computed from survives the invalidation of
that. -/
theorem not_cascades (hwired : h.Wired) {e : HeldEntry} (he : e ∈ h.held)
    (hnot : ¬e.Reached h.registry.graph.Edge) : ¬h.Cascades := by
  unfold HeldEntry.Reached at hnot
  push Not at hnot
  obtain ⟨sv, hsv, hunreached⟩ := hnot
  intro hcascades
  have hfresh := hcascades sv.1 e
    ((mem_held_invalidateSource hwired sv.1 e).mpr ⟨he, hunreached⟩) sv hsv
  have hold := hwired.known e he sv hsv
  have hversion : (h.invalidateSource sv.1).2.versions sv.1 = h.versions sv.1 + 1 :=
    Function.update_self _ _ _
  omega

/-- The invariant: every entry was computed from the versions of today, and is reached from
everything it was computed from. -/
structure Inv (h : InvalidationHistory) : Prop where
  /-- What always holds. -/
  wired : h.Wired
  /-- The versions. -/
  current : h.NoStale
  /-- The paths. -/
  reached : ∀ e ∈ h.held, e.Reached h.registry.graph.Edge

theorem Inv.invalidateSource (hinv : h.Inv) (source : String) :
    (h.invalidateSource source).2.Inv := by
  constructor
  case wired => exact hinv.wired.invalidateSource source
  case current =>
    intro e he sv hsv
    obtain ⟨hheld, hnot⟩ := (mem_held_invalidateSource hinv.wired source e).mp he
    have hne : sv.1 ≠ source := by
      intro heq
      exact hnot (heq ▸ hinv.reached e hheld sv hsv)
    have hversion : (h.invalidateSource source).2.versions sv.1 = h.versions sv.1 :=
      Function.update_of_ne hne _ _
    rw [hversion]
    exact hinv.current e hheld sv hsv
  case reached =>
    intro e he sv hsv
    obtain ⟨hheld, hnot⟩ := (mem_held_invalidateSource hinv.wired source e).mp he
    exact path_invalidateSource hinv.wired (hinv.reached e hheld sv hsv) hnot

/-- Under the invariant every invalidation reaches what it has to. -/
theorem Inv.cascades (hinv : h.Inv) : h.Cascades :=
  fun source => (hinv.invalidateSource source).current

/-- The edges once a key was evicted. -/
theorem edge_evictKey (hwired : h.Wired) (key : String) :
    (h.evictKey key).registry.graph.Edge =
      fun source key' => h.registry.graph.Edge source key' ∧ key' ≠ key := by
  funext source key'
  exact propext (DependencyGraph.edge_removeKey_iff hwired.consistent key source key')

theorem mem_held_evictKey (hwired : h.Wired) (key : String) (e : HeldEntry) :
    e ∈ (h.evictKey key).held ↔ e ∈ h.held ∧ e.key ≠ key := by
  rw [held_evictKey hwired, List.mem_filter]
  simp

theorem Inv.evictKey (hinv : h.Inv) {key : String} (hkeeps : h.KeepsPaths (.invalidateKey key)) :
    (h.evictKey key).Inv := by
  have hheld := mem_held_evictKey hinv.wired key
  constructor
  case wired => exact hinv.wired.evictKey key
  case current => exact fun e he => hinv.current e ((hheld e).mp he).1
  case reached =>
    intro e he
    rw [edge_evictKey hinv.wired]
    exact hkeeps e ((hheld e).mp he).1 ((hheld e).mp he).2

/-- An entry that depends on a key that is evicted is no longer reached. -/
theorem not_cascades_evictKey (hwired : h.Wired) {key : String}
    (hkeeps : ¬h.KeepsPaths (.invalidateKey key)) : ¬(h.evictKey key).Cascades := by
  unfold KeepsPaths at hkeeps
  push Not at hkeeps
  obtain ⟨e, he, hkey, hnot⟩ := hkeeps
  rw [← edge_evictKey hwired key] at hnot
  exact not_cascades (hwired.evictKey key) ((mem_held_evictKey hwired key e).mpr ⟨he, hkey⟩) hnot

section Record

variable {key cacheName : String} {sources : List String}

/-- The entries after a record. -/
theorem mem_held_recorded (e : HeldEntry) : e ∈ (h.recorded key sources cacheName).held ↔
    (e ∈ h.held ∧ ¬(e.key = key ∧ e.cache = cacheName)) ∨
      e = ⟨key, cacheName, h.computedFrom sources⟩ := by
  unfold recorded
  rw [List.mem_append, List.mem_filter, List.mem_singleton, decide_eq_true_eq]

/-- The edges after a record. -/
theorem edge_recorded (hwired : h.Wired) (key cacheName : String) (sources : List String) :
    (h.recorded key sources cacheName).registry.graph.Edge = fun source key' =>
      (key' = key ∧ source ∈ sources) ∨ (h.registry.graph.Edge source key' ∧ key' ≠ key) := by
  funext source key'
  exact propext (DependencyGraph.edge_setDependencies_iff hwired.consistent key sources source key')

theorem mem_computedFrom_iff (sv : String × ℕ) : sv ∈ h.computedFrom sources ↔
    (sv.1 ∈ sources ∧ sv.2 = h.versions sv.1) ∨
      ∃ e ∈ h.held, e.key ∈ sources ∧ sv ∈ e.computedFrom := by
  obtain ⟨source, v⟩ := sv
  unfold computedFrom
  simp only [List.mem_append, List.mem_map, List.mem_flatMap, List.mem_filter, decide_eq_true_eq,
    Prod.mk.injEq]
  constructor
  · rintro (⟨s, hs, rfl, rfl⟩ | ⟨e, ⟨he, hkey⟩, hsv⟩)
    · exact .inl ⟨hs, rfl⟩
    · exact .inr ⟨e, he, hkey, hsv⟩
  · rintro (⟨hs, rfl⟩ | ⟨e, he, hkey, hsv⟩)
    · exact .inl ⟨source, hs, rfl, rfl⟩
    · exact .inr ⟨e, ⟨he, hkey⟩, hsv⟩

theorem Wired.recorded (hwired : h.Wired) (hregistered : cacheName ∈ h.registry.evictors)
    (key : String) (sources : List String) : (h.recorded key sources cacheName).Wired := by
  constructor
  case consistent => exact hwired.consistent.setDependencies key sources
  case cached =>
    intro e he
    obtain ⟨hold, -⟩ | rfl := (mem_held_recorded e).mp he
    · exact SetDict.mem_get_add.mpr (.inr (hwired.cached e hold))
    · exact SetDict.mem_get_add.mpr (.inl ⟨rfl, rfl⟩)
  case registered =>
    intro key' c hc
    obtain ⟨-, rfl⟩ | hold := SetDict.mem_get_add.mp hc
    · exact hregistered
    · exact hwired.registered key' c hold
  case known =>
    intro e he sv hsv
    obtain ⟨hold, -⟩ | rfl := (mem_held_recorded e).mp he
    · exact hwired.known e hold sv hsv
    · obtain ⟨-, heq⟩ | ⟨e', he', -, hsv'⟩ := (mem_computedFrom_iff sv).mp hsv
      · exact heq.le
      · exact hwired.known e' he' sv hsv'

theorem Inv.recorded (hinv : h.Inv) (hregistered : cacheName ∈ h.registry.evictors)
    (hkeeps : h.KeepsPaths (.recordDependency key sources cacheName)) :
    (h.recorded key sources cacheName).Inv := by
  have hreached := hkeeps hregistered
  rw [← edge_recorded hinv.wired key cacheName sources] at hreached
  have hdirect : ∀ source ∈ sources,
      (h.recorded key sources cacheName).registry.graph.Edge source key := by
    intro source hsource
    rw [edge_recorded hinv.wired]
    exact .inl ⟨rfl, hsource⟩
  constructor
  case wired => exact hinv.wired.recorded hregistered key sources
  case current =>
    intro e he sv hsv
    obtain ⟨hold, -⟩ | rfl := (mem_held_recorded e).mp he
    · exact hinv.current e hold sv hsv
    · obtain ⟨-, heq⟩ | ⟨e', he', -, hsv'⟩ := (mem_computedFrom_iff sv).mp hsv
      · exact heq.ge
      · exact hinv.current e' he' sv hsv'
  case reached =>
    intro e he sv hsv
    obtain ⟨hold, hother⟩ | rfl := (mem_held_recorded e).mp he
    · exact hreached e hold (fun hkey hcache => absurd ⟨hkey, hcache⟩ hother) sv hsv
    · obtain ⟨hsource, -⟩ | ⟨e', he', hkey', hsv'⟩ := (mem_computedFrom_iff sv).mp hsv
      · exact .single (hdirect sv.1 hsource)
      · have hpath := hreached e' he' (fun hkey _ => hkey ▸ hkey') sv hsv'
        exact hpath.tail (hdirect e'.key hkey')

/-- An entry whose paths led through what is replaced is no longer reached. -/
theorem not_cascades_recorded (hwired : h.Wired)
    (hkeeps : ¬h.KeepsPaths (.recordDependency key sources cacheName)) :
    ¬(h.recorded key sources cacheName).Cascades := by
  unfold KeepsPaths at hkeeps
  push Not at hkeeps
  obtain ⟨hregistered, e, he, hused, hnot⟩ := hkeeps
  rw [← edge_recorded hwired key cacheName sources] at hnot
  have hwired' := hwired.recorded hregistered key sources
  by_cases hsame : e.key = key ∧ e.cache = cacheName
  · -- The entry is replaced by one that is computed from it.
    obtain ⟨hkey, hcache⟩ := hsame
    refine not_cascades hwired' ((mem_held_recorded _).mpr (.inr rfl)) fun hreached => ?_
    refine hnot fun sv hsv => ?_
    rw [hkey]
    exact hreached sv ((mem_computedFrom_iff sv).mpr
      (.inr ⟨e, he, hkey ▸ hused hkey hcache, hsv⟩))
  · exact not_cascades hwired' ((mem_held_recorded e).mpr (.inl ⟨he, hsame⟩)) hnot

end Record

theorem Inv.step (hinv : h.Inv) (call : InvalidationCall) (hkeeps : h.KeepsPaths call) :
    (h.step call).Inv := by
  cases call with
  | recordDependency key sources cacheName =>
    unfold InvalidationHistory.step recordDependency
    dsimp only
    split_ifs with hregistered
    · exact hinv.recorded hregistered hkeeps
    · exact hinv
  | invalidateSource source => exact hinv.invalidateSource source
  | invalidateKey key => exact hinv.evictKey hkeeps

/-- A call that does not meet the condition leaves an entry that a later invalidation misses. -/
theorem Inv.not_cascades_step (hinv : h.Inv) (call : InvalidationCall)
    (hkeeps : ¬h.KeepsPaths call) : ¬(h.step call).Cascades := by
  cases call with
  | recordDependency key sources cacheName =>
    unfold InvalidationHistory.step recordDependency
    dsimp only
    split_ifs with hregistered
    · exact not_cascades_recorded hinv.wired hkeeps
    · exact absurd (fun hmem => absurd hmem hregistered) hkeeps
  | invalidateSource source => exact absurd trivial hkeeps
  | invalidateKey key => exact not_cascades_evictKey hinv.wired hkeeps

/-- A registry in which nothing is recorded. -/
def start (evictors : List String) : InvalidationHistory where
  registry := { evictors := evictors }

theorem inv_start (evictors : List String) : (start evictors).Inv where
  wired :=
    { consistent := fun _ _ => by
        simp [start, DependencyGraph.Edge, SetDict.Arc, SetDict.get, UniqueTable.empty,
          UniqueTable.find?]
      cached := fun _ he => absurd he List.not_mem_nil
      registered := fun _ _ hc => absurd hc List.not_mem_nil
      known := fun _ he => absurd he List.not_mem_nil }
  current := fun _ he => absurd he List.not_mem_nil
  reached := fun _ he => absurd he List.not_mem_nil

/-- An invalidation never leaves an entry that was computed from an older version of a source, in
exactly the histories in which every direct invalidation and every new record keep a path to each
entry that is held from everything that it was computed from. -/
theorem always_cascades_iff (evictors : List String) (calls : List InvalidationCall) :
    Always step Cascades (start evictors) calls ↔ Meets step KeepsPaths (start evictors) calls :=
  always_iff_meets Inv (fun _ hinv => hinv.cascades) (fun _ call hinv => hinv.step call)
    (fun _ call hinv => hinv.not_cascades_step call) (inv_start evictors) calls

/-- `B` is computed from `A`, and `A` from `S`; then `A` is invalidated directly. -/
private def chainBroken : List InvalidationCall :=
  [.recordDependency "A" ["S"] "features", .recordDependency "B" ["A"] "features",
    .invalidateKey "A"]

/-- One cache holds `A` computed from `S`, then another one holds `A` computed from `T`. -/
private def twoCaches : List InvalidationCall :=
  [.recordDependency "A" ["S"] "features", .recordDependency "A" ["T"] "benford"]

/-- The invalidation of `S` then leaves `B`, or the first entry of `A`. -/
theorem entry_survives_invalidation :
    ¬((exec step (start ["features"]) chainBroken).invalidateSource "S").2.NoStale ∧
      ¬Always step Cascades (start ["features"]) chainBroken ∧
      ¬((exec step (start ["features", "benford"]) twoCaches).invalidateSource "S").2.NoStale ∧
      ¬Always step Cascades (start ["features", "benford"]) twoCaches := by
  have hchain : ¬((exec step (start ["features"]) chainBroken).invalidateSource "S").2.NoStale := by
    decide +kernel
  have hcaches : ¬((exec step (start ["features", "benford"]) twoCaches).invalidateSource
      "S").2.NoStale := by decide +kernel
  exact ⟨hchain, fun halways => hchain (halways.last "S"), hcaches,
    fun halways => hcaches (halways.last "S")⟩

end InvalidationHistory

end LedgerLens.Detection
