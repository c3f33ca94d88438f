import LedgerLens.Library.Runs
import LedgerLens.Library.UniqueTable
import Mathlib.Data.List.DropRight
import Mathlib.Data.Rat.Defs
import Mathlib.Order.Basic
import Mathlib.Tactic.Linarith

/-!
# The cache of feature matrices

`FeatureCache` keeps the feature matrices of wallets for some time, at most so many and the
least recently used no longer than needed, and only for the active version of the feature
schema. A matrix can be stored under another version. A lookup that finds such an entry deletes
the entry of the wallet's plain name, although keys begin with the tenant: this file says in
which runs that does no harm.

`RecentDataBuffer` collects the rows for incremental training, at most so many, the latest.
-/

namespace LedgerLens.Detection

open Transition

variable {Series : Type*}

/-- A version of the feature contract, an `int` or a `str`. -/
inductive SchemaVersion where
  | int (n : ℤ)
  | str (s : String)
  deriving DecidableEq

/-- An entry of the cache. -/
structure CachedFeatures (Series : Type*) where
  /-- The feature matrix. -/
  series : Series
  /-- When it was stored, on the monotonic clock. -/
  cachedAt : ℚ
  /-- The version it was stored under. -/
  schema : SchemaVersion

/-- What an operation of the cache raises. -/
inductive CacheError where
  /-- `KeyError` of `del` with this key. -/
  | keyError (key : String)
  /-- `KeyError` of `popitem` on an empty dictionary. -/
  | emptyDictionary
  deriving DecidableEq

/-- `FeatureCache`. -/
structure FeatureCache (Series : Type*) where
  /-- `_ttl`, in seconds. -/
  ttl : ℤ
  /-- `_maxsize`. -/
  maxsize : ℤ
  /-- `_schema_version`. -/
  schemaVersion : SchemaVersion
  /-- The tenant whose wallets these are. -/
  tenantId : Option String
  /-- `_cache`, the least recently used entry first. -/
  cache : UniqueTable String (CachedFeatures Series) := .empty

/-- `UNSCOPED_TENANT_NAMESPACE`. -/
def unscopedTenantNamespace : String := "_unscoped"

namespace FeatureCache

/-- `_key`. -/
def key (c : FeatureCache Series) (wallet : String) : String :=
  (c.tenantId.filter (· ≠ "")).getD unscopedTenantNamespace ++ "\x1f" ++ wallet

/-- The setter of `schema_version`. -/
def setSchemaVersion (c : FeatureCache Series) (version : SchemaVersion) : FeatureCache Series :=
  { c with schemaVersion := version, cache := .empty }

/-- `get`, at a time of the monotonic clock. -/
def get (c : FeatureCache Series) (now : ℚ) (wallet : String) :
    Except CacheError (Option Series) × FeatureCache Series :=
  match c.cache.find? (c.key wallet) with
  | none => (.ok none, c)
  | some entry =>
    if entry.schema ≠ c.schemaVersion then
      match c.cache.find? wallet with
      | none => (.error (.keyError wallet), c)
      | some _ => (.ok none, { c with cache := c.cache.erase wallet })
    else if c.ttl ≤ now - entry.cachedAt then
      (.ok none, { c with cache := c.cache.erase (c.key wallet) })
    else (.ok (some entry.series), { c with cache := c.cache.moveToEnd (c.key wallet) })

/-- The loop of `put`, for at most a number of rounds: it drops the oldest entry while there
are more than `maxsize`. -/
def dropOldest (maxsize : ℤ) : ℕ → UniqueTable String (CachedFeatures Series) →
    Except CacheError Unit × UniqueTable String (CachedFeatures Series)
  | 0, t => (.ok (), t)
  | n + 1, t =>
    if maxsize < t.rows.length then
      if t.rows.length = 0 then (.error .emptyDictionary, t)
      else dropOldest maxsize n t.dropFirst
    else (.ok (), t)

/-- The entries of `put` before the loop. -/
def stored (c : FeatureCache Series) (now : ℚ) (wallet : String) (features : Series)
    (schemaVersion : Option SchemaVersion) : UniqueTable String (CachedFeatures Series) :=
  (c.cache.erase (c.key wallet)).put (c.key wallet)
    { series := features, cachedAt := now, schema := schemaVersion.getD c.schemaVersion }

/-- `put`, at a time of the monotonic clock. -/
def put (c : FeatureCache Series) (now : ℚ) (wallet : String) (features : Series)
    (schemaVersion : Option SchemaVersion) : Except CacheError Unit × FeatureCache Series :=
  let stored := c.stored now wallet features schemaVersion
  let r := dropOldest c.maxsize (stored.rows.length + 1) stored
  (r.1, { c with cache := r.2 })

/-- `invalidate`. -/
def invalidate (c : FeatureCache Series) (wallet : String) : FeatureCache Series :=
  { c with cache := c.cache.erase (c.key wallet) }

end FeatureCache

/-- A use of the cache. -/
inductive CacheCall (Series : Type*) where
  /-- `get` at a time. -/
  | get (now : ℚ) (wallet : String)
  /-- `put` at a time. -/
  | put (now : ℚ) (wallet : String) (features : Series) (schemaVersion : Option SchemaVersion)
  /-- `invalidate`. -/
  | invalidate (wallet : String)
  /-- An assignment to `schema_version`. -/
  | setSchemaVersion (version : SchemaVersion)

/-- What a lookup gave, and what was known at the time. -/
structure CacheRead (Series : Type*) where
  /-- When. -/
  now : ℚ
  /-- The time to live. -/
  ttl : ℤ
  /-- The active version. -/
  active : SchemaVersion
  /-- What was last stored for the wallet, unless it has been invalidated since. -/
  live : Option (CachedFeatures Series)
  /-- What `get` returned or raised. -/
  result : Except CacheError (Option Series)

/-- The lookup did not raise, and what it returned was stored for the wallet under the active
version, not too long ago, and not invalidated since. -/
def CacheRead.Right (read : CacheRead Series) : Prop :=
  ∃ found, read.result = .ok found ∧ ∀ series, found = some series →
    ∃ entry, read.live = some entry ∧ entry.series = series ∧ entry.schema = read.active ∧
      read.now - entry.cachedAt < read.ttl

/-- A cache with what has been done with it. -/
structure CacheHistory (Series : Type*) where
  /-- The cache. -/
  cache : FeatureCache Series
  /-- What was last stored for each wallet, unless it has been invalidated since. -/
  live : String → Option (CachedFeatures Series) := fun _ => none
  /-- A number for each key: when it was last stored or found. -/
  lastUse : String → ℕ := fun _ => 0
  /-- The number of uses so far. -/
  uses : ℕ := 0
  /-- The lookups so far. -/
  reads : List (CacheRead Series) := []
  /-- For each `put` the last uses of the entries that it dropped and of those it kept. -/
  drops : List (List ℕ × List ℕ) := []

namespace CacheHistory

/-- The last uses after one more use, of this key. -/
def touch (h : CacheHistory Series) (key : String) : String → ℕ :=
  Function.update h.lastUse key h.uses

/-- One call. -/
def step (h : CacheHistory Series) (call : CacheCall Series) : CacheHistory Series :=
  match call with
  | .get now wallet =>
    let r := h.cache.get now wallet
    let reads := h.reads ++ [{ now := now, ttl := h.cache.ttl, active := h.cache.schemaVersion,
                               live := h.live wallet, result := r.1 }]
    match r.1 with
    | .ok (some _) =>
      { h with cache := r.2, reads := reads, lastUse := h.touch (h.cache.key wallet),
               uses := h.uses + 1 }
    | _ => { h with cache := r.2, reads := reads }
  | .put now wallet features schemaVersion =>
    let stored := h.cache.stored now wallet features schemaVersion
    let after := (h.cache.put now wallet features schemaVersion).2
    let lastUse := h.touch (h.cache.key wallet)
    { h with
      cache := after
      live := Function.update h.live wallet (some
        { series := features, cachedAt := now
          schema := schemaVersion.getD h.cache.schemaVersion })
      lastUse := lastUse
      uses := h.uses + 1
      drops := h.drops ++
        [(((stored.rows.map Prod.fst).filter fun key => (after.cache.find? key).isNone).map
            lastUse, (after.cache.rows.map Prod.fst).map lastUse)] }
  | .invalidate wallet =>
    { h with cache := h.cache.invalidate wallet, live := Function.update h.live wallet none }
  | .setSchemaVersion version => { h with cache := h.cache.setSchemaVersion version }

/-- What the cache promises: lookups are right, there are never too many entries, and those
dropped for that were used before those that were kept. -/
structure Sound (h : CacheHistory Series) : Prop where
  /-- The lookups. -/
  reads : ∀ read ∈ h.reads, read.Right
  /-- The number of entries. -/
  size : (h.cache.cache.rows.length : ℤ) ≤ h.cache.maxsize
  /-- The order in which entries are dropped. -/
  drops : ∀ drop ∈ h.drops, ∀ a ∈ drop.1, ∀ b ∈ drop.2, a < b

/-- The condition for that: a lookup does not find an entry that was stored under another
version, unless the wallet's plain name is a key too. -/
def VersionsFit (h : CacheHistory Series) (call : CacheCall Series) : Prop :=
  match call with
  | .get _ wallet => ∀ entry, h.cache.cache.find? (h.cache.key wallet) = some entry →
      entry.schema ≠ h.cache.schemaVersion → (h.cache.cache.find? wallet).isSome = true
  | _ => True

/-- The invariant. -/
structure Inv (h : CacheHistory Series) : Prop where
  /-- There can be entries. -/
  nonneg : 0 ≤ h.cache.maxsize
  /-- The promises so far. -/
  sound : h.Sound
  /-- Each entry is what was last stored for a wallet. -/
  live : ∀ key entry, h.cache.cache.find? key = some entry →
    ∃ wallet, key = h.cache.key wallet ∧ h.live wallet = some entry
  /-- The entries stand in the order of their last uses. -/
  order : (h.cache.cache.rows.map Prod.fst).Pairwise fun a b => h.lastUse a < h.lastUse b
  /-- The next use is the last. -/
  fresh : ∀ key ∈ h.cache.cache.rows.map Prod.fst, h.lastUse key < h.uses

end CacheHistory

variable {c : FeatureCache Series} {h : CacheHistory Series} {key : String}

/-- Wallets of one tenant have different keys. -/
theorem FeatureCache.key_inj {wallet wallet' : String} (h : c.key wallet = c.key wallet') :
    wallet = wallet' := by
  have hlist := congrArg String.toList h
  unfold FeatureCache.key at hlist
  simp only [String.toList_append] at hlist
  exact String.toList_inj.mp (List.append_cancel_left hlist)

/-- The keys that are left when rows are deleted. -/
theorem keys_erase (t : UniqueTable String (CachedFeatures Series)) (key : String) :
    (t.erase key).rows.map Prod.fst = (t.rows.map Prod.fst).filter (· ≠ key) := by
  rw [List.filter_map]
  unfold UniqueTable.erase UniqueTable.deleteWhere
  simp [Function.comp_def]

/-- The keys after an entry was used. -/
theorem keys_moveToEnd {t : UniqueTable String (CachedFeatures Series)} {key : String}
    {entry : CachedFeatures Series} (h : t.find? key = some entry) :
    (t.moveToEnd key).rows.map Prod.fst = (t.rows.map Prod.fst).filter (· ≠ key) ++ [key] := by
  rw [UniqueTable.rows_moveToEnd h, List.map_append, List.filter_map]
  rfl

/-- The keys after an entry was stored. -/
theorem keys_stored (now : ℚ) (wallet : String) (features : Series)
    (schemaVersion : Option SchemaVersion) :
    (c.stored now wallet features schemaVersion).rows.map Prod.fst =
      (c.cache.rows.map Prod.fst).filter (· ≠ c.key wallet) ++ [c.key wallet] := by
  unfold FeatureCache.stored
  rw [UniqueTable.rows_put_of_new (by simp), List.map_append, keys_erase]
  rfl

/-- Keys that stand in the order of their uses still do so when one becomes the last. -/
theorem pairwise_touch {lastUse : String → ℕ} {uses : ℕ} {keys : List String}
    (horder : keys.Pairwise fun a b => lastUse a < lastUse b)
    (hfresh : ∀ key ∈ keys, lastUse key < uses) (key : String) :
    (keys.filter (· ≠ key) ++ [key]).Pairwise fun a b =>
      Function.update lastUse key uses a < Function.update lastUse key uses b := by
  have hold : ∀ a ∈ keys.filter (· ≠ key), a ∈ keys ∧ a ≠ key := by
    intro a ha
    simpa using List.mem_filter.mp ha
  rw [List.pairwise_append]
  refine ⟨?_, List.pairwise_singleton _ _, ?_⟩
  · refine (horder.sublist List.filter_sublist).imp_of_mem ?_
    intro a b ha hb hlt
    rwa [Function.update_of_ne (hold a ha).2, Function.update_of_ne (hold b hb).2]
  · intro a ha b hb
    rw [List.mem_singleton.mp hb, Function.update_self, Function.update_of_ne (hold a ha).2]
    exact hfresh a (hold a ha).1

/-- No key has been used after the last use. -/
theorem touch_lt {lastUse : String → ℕ} {uses : ℕ} {keys : List String}
    (hfresh : ∀ key ∈ keys, lastUse key < uses) (key : String) :
    ∀ a ∈ keys.filter (· ≠ key) ++ [key], Function.update lastUse key uses a < uses + 1 := by
  intro a ha
  obtain hold | hnew := List.mem_append.mp ha
  · have hold' : a ∈ keys ∧ a ≠ key := by simpa using List.mem_filter.mp hold
    rw [Function.update_of_ne hold'.2]
    have hlt := hfresh a hold'.1
    omega
  · rw [List.mem_singleton.mp hnew, Function.update_self]
    omega

/-- The loop of `put` drops the first entries until there are no more than `maxsize`. -/
theorem dropOldest_rows {maxsize : ℤ} (hmax : 0 ≤ maxsize) {n : ℕ}
    {t : UniqueTable String (CachedFeatures Series)} (hn : t.rows.length < n) :
    ∃ k, (FeatureCache.dropOldest maxsize n t).2.rows = t.rows.drop k ∧
      ((FeatureCache.dropOldest maxsize n t).2.rows.length : ℤ) ≤ maxsize := by
  induction n generalizing t with
  | zero => omega
  | succ n ih =>
    unfold FeatureCache.dropOldest
    split_ifs with hlong hempty
    · rw [hempty] at hlong
      omega
    · have htail : t.dropFirst.rows = t.rows.drop 1 := (List.drop_one).symm
      have hlength : t.dropFirst.rows.length < n := by
        rw [htail, List.length_drop]
        omega
      obtain ⟨k, hrows, hle⟩ := ih hlength
      refine ⟨1 + k, ?_, hle⟩
      rw [hrows, htail, List.drop_drop]
    · exact ⟨0, rfl, not_lt.mp hlong⟩

namespace CacheHistory

/-- Entries that are left of the old ones. -/
theorem Inv.shrink (hinv : h.Inv) {c : FeatureCache Series}
    {live : String → Option (CachedFeatures Series)} {reads : List (CacheRead Series)}
    (hmax : c.maxsize = h.cache.maxsize) (hsub : c.cache.rows.Sublist h.cache.cache.rows)
    (hlive : ∀ key entry, c.cache.find? key = some entry →
      ∃ wallet, key = c.key wallet ∧ live wallet = some entry)
    (hreads : ∀ read ∈ reads, read.Right) :
    Inv { h with cache := c, live := live, reads := reads } where
  nonneg := by
    show 0 ≤ c.maxsize
    rw [hmax]
    exact hinv.nonneg
  sound :=
    { reads := hreads
      size := by
        have hsize := hinv.sound.size
        have hle := hsub.length_le
        show (c.cache.rows.length : ℤ) ≤ c.maxsize
        omega
      drops := hinv.sound.drops }
  live := hlive
  order := hinv.order.sublist (hsub.map Prod.fst)
  fresh := fun key hkey => hinv.fresh key ((hsub.map Prod.fst).subset hkey)

/-- An entry that is left belongs to a wallet as before. -/
theorem Inv.live_of_sublist (hinv : h.Inv) {t : UniqueTable String (CachedFeatures Series)}
    (hsub : t.rows.Sublist h.cache.cache.rows) {key : String} {entry : CachedFeatures Series}
    (hfind : t.find? key = some entry) :
    ∃ wallet, key = h.cache.key wallet ∧ h.live wallet = some entry := by
  rw [UniqueTable.find?_eq_some_iff] at hfind
  exact hinv.live key entry ((UniqueTable.find?_eq_some_iff _ _ _).mpr (hsub.subset hfind))

/-- What a lookup does: it returns nothing and leaves some of the entries; or it returns a
matrix of the active version that is not too old, which becomes the last; or it finds another
version and raises. -/
theorem get_cases (c : FeatureCache Series) (now : ℚ) (wallet : String) :
    (∃ t, c.get now wallet = (.ok none, { c with cache := t }) ∧ t.rows.Sublist c.cache.rows) ∨
    (∃ entry, c.cache.find? (c.key wallet) = some entry ∧ entry.schema = c.schemaVersion ∧
      now - entry.cachedAt < c.ttl ∧ c.get now wallet =
        (.ok (some entry.series), { c with cache := c.cache.moveToEnd (c.key wallet) })) ∨
    (∃ entry, c.cache.find? (c.key wallet) = some entry ∧ entry.schema ≠ c.schemaVersion ∧
      c.cache.find? wallet = none ∧ c.get now wallet = (.error (.keyError wallet), c)) := by
  unfold FeatureCache.get
  cases hentry : c.cache.find? (c.key wallet) with
  | none => exact .inl ⟨c.cache, rfl, List.Sublist.refl _⟩
  | some entry =>
    dsimp only
    by_cases hschema : entry.schema = c.schemaVersion
    · rw [if_neg (not_not_intro hschema)]
      by_cases hold : c.ttl ≤ now - entry.cachedAt
      · rw [if_pos hold]
        exact .inl ⟨_, rfl, List.filter_sublist⟩
      · rw [if_neg hold]
        exact .inr (.inl ⟨entry, rfl, hschema, not_le.mp hold, rfl⟩)
    · rw [if_pos hschema]
      cases hplain : c.cache.find? wallet with
      | none => exact .inr (.inr ⟨entry, rfl, hschema, rfl, rfl⟩)
      | some other => exact .inl ⟨_, rfl, List.filter_sublist⟩

/-- A list of lookups with one more. -/
theorem right_append {reads : List (CacheRead Series)} {read : CacheRead Series}
    (hreads : ∀ read ∈ reads, read.Right) (hread : read.Right) :
    ∀ read' ∈ reads ++ [read], read'.Right := by
  intro read' hmem
  obtain hold | hnew := List.mem_append.mp hmem
  · exact hreads read' hold
  · rwa [List.mem_singleton.mp hnew]

/-- A lookup under the condition keeps the invariant. -/
theorem Inv.get (hinv : h.Inv) {now : ℚ} {wallet : String}
    (hfit : h.VersionsFit (.get now wallet)) : (h.step (.get now wallet)).Inv := by
  unfold step
  obtain ⟨t, hget, hsub⟩ | ⟨entry, hentry, hschema, hyoung, hget⟩ |
    ⟨entry, hentry, hschema, hplain, hget⟩ := get_cases h.cache now wallet
  · simp only [hget]
    refine hinv.shrink rfl hsub (fun key entry hfind => hinv.live_of_sublist hsub hfind) ?_
    exact right_append hinv.sound.reads ⟨none, rfl, fun _ hnone => nomatch hnone⟩
  · simp only [hget]
    have hkeys := keys_moveToEnd hentry
    obtain ⟨wallet', hkey, hlive⟩ := hinv.live _ entry hentry
    obtain rfl : wallet = wallet' := FeatureCache.key_inj hkey
    constructor
    case nonneg => exact hinv.nonneg
    case sound =>
      constructor
      case reads =>
        refine right_append hinv.sound.reads ⟨_, rfl, fun series hseries => ?_⟩
        obtain rfl := Option.some.inj hseries
        exact ⟨entry, hlive, rfl, hschema, hyoung⟩
      case size =>
        show ((h.cache.cache.moveToEnd (h.cache.key wallet)).rows.length : ℤ) ≤ h.cache.maxsize
        rw [UniqueTable.length_moveToEnd]
        exact hinv.sound.size
      case drops => exact hinv.sound.drops
    case live =>
      intro key entry' hfind
      have hfind' : (h.cache.cache.moveToEnd (h.cache.key wallet)).find? key = some entry' := hfind
      rw [UniqueTable.find?_moveToEnd] at hfind'
      exact hinv.live key entry' hfind'
    case order =>
      show ((h.cache.cache.moveToEnd (h.cache.key wallet)).rows.map Prod.fst).Pairwise _
      rw [hkeys]
      exact pairwise_touch hinv.order hinv.fresh _
    case fresh =>
      show ∀ key ∈ (h.cache.cache.moveToEnd (h.cache.key wallet)).rows.map Prod.fst, _
      rw [hkeys]
      exact touch_lt hinv.fresh _
  · have hsome := hfit entry hentry hschema
    rw [hplain] at hsome
    cases hsome

/-- Storing a matrix keeps the invariant. -/
theorem Inv.put (hinv : h.Inv) (now : ℚ) (wallet : String) (features : Series)
    (schemaVersion : Option SchemaVersion) :
    (h.step (.put now wallet features schemaVersion)).Inv := by
  have hkeys := keys_stored (c := h.cache) now wallet features schemaVersion
  have horder := pairwise_touch hinv.order hinv.fresh (h.cache.key wallet)
  have hfresh := touch_lt hinv.fresh (h.cache.key wallet)
  rw [← hkeys] at horder hfresh
  obtain ⟨k, hrows, hsize⟩ := dropOldest_rows hinv.nonneg
    (t := h.cache.stored now wallet features schemaVersion) (Nat.lt_succ_self _)
  have hsub : ((h.cache.put now wallet features schemaVersion).2.cache.rows).Sublist
      (h.cache.stored now wallet features schemaVersion).rows := by
    show (FeatureCache.dropOldest _ _ _).2.rows.Sublist _
    rw [hrows]
    exact List.drop_sublist _ _
  have hlive : ∀ key entry, (h.cache.stored now wallet features schemaVersion).find? key =
      some entry → ∃ wallet', key = h.cache.key wallet' ∧
        (h.step (.put now wallet features schemaVersion)).live wallet' = some entry := by
    intro key entry hfind
    unfold FeatureCache.stored at hfind
    rw [UniqueTable.find?_put] at hfind
    unfold step
    split_ifs at hfind with hkey
    · refine ⟨wallet, hkey, ?_⟩
      simpa using hfind
    · rw [UniqueTable.find?_erase, if_neg hkey] at hfind
      obtain ⟨wallet', hkey', hlive⟩ := hinv.live key entry hfind
      have hne : wallet' ≠ wallet := by
        rintro rfl
        exact hkey hkey'
      refine ⟨wallet', hkey', ?_⟩
      simpa [hne] using hlive
  constructor
  case nonneg => exact hinv.nonneg
  case sound =>
    constructor
    case reads => exact hinv.sound.reads
    case size => exact hsize
    case drops =>
      intro drop hmem
      obtain hold | hnew := List.mem_append.mp hmem
      · exact hinv.sound.drops drop hold
      · rw [List.mem_singleton.mp hnew]
        intro a ha b hb
        obtain ⟨key, hkey, rfl⟩ := List.mem_map.mp ha
        obtain ⟨key', hkey', rfl⟩ := List.mem_map.mp hb
        obtain ⟨hstored, hdropped⟩ := List.mem_filter.mp hkey
        have hsplit := List.take_append_drop k
          (h.cache.stored now wallet features schemaVersion).rows
        have hkept : (h.cache.put now wallet features schemaVersion).2.cache.rows =
            (h.cache.stored now wallet features schemaVersion).rows.drop k := hrows
        rw [← hsplit, List.map_append, List.pairwise_append] at horder
        rw [← hsplit, List.map_append, List.mem_append] at hstored
        have hfirst : key ∈ ((h.cache.stored now wallet features schemaVersion).rows.take k).map
            Prod.fst := by
          refine hstored.resolve_right fun hlater => ?_
          rw [← hkept] at hlater
          have hsome := (UniqueTable.isSome_find?_iff _ _).mpr hlater
          rw [Option.isNone_iff_eq_none] at hdropped
          rw [hdropped] at hsome
          cases hsome
        rw [hkept] at hkey'
        exact horder.2.2 key hfirst key' hkey'
  case live =>
    intro key entry hfind
    have hmem := (UniqueTable.find?_eq_some_iff _ _ _).mp hfind
    exact hlive key entry ((UniqueTable.find?_eq_some_iff _ _ _).mpr (hsub.subset hmem))
  case order => exact horder.sublist (hsub.map Prod.fst)
  case fresh => exact fun key hkey => hfresh key ((hsub.map Prod.fst).subset hkey)

/-- A call under the condition keeps the invariant. -/
theorem Inv.step (hinv : h.Inv) {call : CacheCall Series} (hfit : h.VersionsFit call) :
    (h.step call).Inv := by
  cases call with
  | get now wallet => exact hinv.get hfit
  | put now wallet features schemaVersion => exact hinv.put now wallet features schemaVersion
  | invalidate wallet =>
    have hsub : (h.cache.cache.erase (h.cache.key wallet)).rows.Sublist h.cache.cache.rows :=
      List.filter_sublist
    refine hinv.shrink rfl hsub (fun key entry hfind => ?_) hinv.sound.reads
    obtain ⟨wallet', hkey, hlive⟩ := hinv.live_of_sublist hsub hfind
    refine ⟨wallet', hkey, ?_⟩
    have hne : wallet' ≠ wallet := by
      rintro rfl
      have hfind' : (h.cache.cache.erase (h.cache.key wallet')).find? key = some entry := hfind
      rw [UniqueTable.find?_erase, if_pos hkey] at hfind'
      cases hfind'
    rwa [Function.update_of_ne hne]
  | setSchemaVersion version =>
    exact hinv.shrink rfl (List.nil_sublist _) (fun _ _ hfind => nomatch hfind) hinv.sound.reads

/-- A lookup that does not meet the condition raises. -/
theorem not_sound_of_not_fit {call : CacheCall Series} (hfit : ¬h.VersionsFit call) :
    ¬(h.step call).Sound := by
  cases call with
  | get now wallet =>
    intro hsound
    unfold VersionsFit at hfit
    push Not at hfit
    obtain ⟨entry, hentry, hschema, hplain⟩ := hfit
    have hnone : h.cache.cache.find? wallet = none := by simpa using hplain
    have hget : h.cache.get now wallet = (.error (.keyError wallet), h.cache) := by
      unfold FeatureCache.get
      rw [hentry]
      dsimp only
      rw [if_pos hschema, hnone]
    have hright := hsound.reads { now := now, ttl := h.cache.ttl, active := h.cache.schemaVersion,
                                  live := h.live wallet, result := .error (.keyError wallet) } (by
      unfold step
      simp only [hget]
      exact List.mem_append_right _ (List.mem_singleton_self _))
    obtain ⟨found, hfound, -⟩ := hright
    cases hfound
  | put _ _ _ _ => exact absurd trivial hfit
  | invalidate _ => exact absurd trivial hfit
  | setSchemaVersion _ => exact absurd trivial hfit

end CacheHistory

/-- For every cache and every sequence of uses at any times, the cache keeps its promises
exactly if its size is not negative and no lookup finds an entry of another version, unless the
wallet's plain name is a key. -/
theorem featureCache_always_sound_iff (ttl maxsize : ℤ) (schemaVersion : SchemaVersion)
    (tenantId : Option String) (calls : List (CacheCall Series)) :
    let start : CacheHistory Series :=
      { cache := { ttl := ttl, maxsize := maxsize, schemaVersion := schemaVersion,
                   tenantId := tenantId } }
    Always CacheHistory.step CacheHistory.Sound start calls ↔
      0 ≤ maxsize ∧ Meets CacheHistory.step CacheHistory.VersionsFit start calls := by
  intro start
  by_cases hmax : 0 ≤ maxsize
  · have hinv : start.Inv :=
      { nonneg := hmax
        sound :=
          { reads := fun _ hmem => nomatch hmem
            size := hmax
            drops := fun _ hmem => nomatch hmem }
        live := fun _ _ hfind => nomatch hfind
        order := List.Pairwise.nil
        fresh := fun _ hmem => nomatch hmem }
    rw [always_iff_meets CacheHistory.Inv (fun _ h => h.sound) (fun _ _ h hfit => h.step hfit)
      (fun _ _ _ hfit => CacheHistory.not_sound_of_not_fit hfit) hinv calls]
    exact (and_iff_right hmax).symm
  · constructor
    · intro hsound
      exact absurd hsound.head.size hmax
    · exact fun h => absurd h.1 hmax

/-- A matrix is stored under the next version of the schema and looked up. -/
def storeAhead : List (CacheCall ℕ) :=
  [.put 0 "GWALLET" 1 (some (.int 2)), .get 1 "GWALLET"]

/-- The lookup raises. -/
theorem get_after_storeAhead_raises :
    ¬Always CacheHistory.step CacheHistory.Sound
      { cache := { ttl := 300, maxsize := 10, schemaVersion := .int 1, tenantId := none } }
      storeAhead := by
  intro h
  have hraised : (exec CacheHistory.step
      { cache := { ttl := 300, maxsize := 10, schemaVersion := .int 1, tenantId := none } }
      storeAhead).reads.map (fun read => read.result.isOk) = [false] := by decide +kernel
  obtain ⟨read, hread⟩ := List.map_eq_singleton_iff.mp hraised
  obtain ⟨found, hfound, -⟩ := h.last.reads read (by rw [hread.1]; exact List.mem_singleton_self _)
  have hisOk := hread.2
  rw [hfound] at hisOk
  cases hisOk

/-- `RecentDataBuffer`. -/
structure RecentDataBuffer (Row : Type*) where
  /-- `_max_size`. -/
  maxSize : ℤ
  /-- `min_samples`. -/
  minSamples : ℤ
  /-- `_chunks`. -/
  chunks : List (List Row) := []
  /-- `_n_rows`. -/
  nRows : ℤ := 0

/-- A call of a buffer that changes it. -/
inductive BufferCall (Row : Type*) where
  /-- `add`. -/
  | add (rows : List Row)
  /-- `flush`. -/
  | flush
  /-- `clear`. -/
  | clear

namespace RecentDataBuffer

variable {Row : Type*}

/-- `_evict_oldest_locked`. -/
def evictOldest (maxSize nRows : ℤ) : List (List Row) → ℤ × List (List Row)
  | [] => (nRows, [])
  | oldest :: chunks =>
    if nRows ≤ maxSize then (nRows, oldest :: chunks)
    else
      let excess := nRows - maxSize
      if oldest.length ≤ excess then evictOldest maxSize (nRows - oldest.length) chunks
      else (nRows - excess, oldest.drop excess.toNat :: chunks)

/-- `add`. -/
def add (b : RecentDataBuffer Row) (rows : List Row) : RecentDataBuffer Row :=
  if rows.isEmpty then b
  else
    let chunks := b.chunks ++ [rows]
    let nRows := b.nRows + rows.length
    if b.maxSize < nRows then
      { b with
        nRows := (evictOldest b.maxSize nRows chunks).1
        chunks := (evictOldest b.maxSize nRows chunks).2 }
    else { b with nRows := nRows, chunks := chunks }

/-- `is_ready`. -/
def isReady (b : RecentDataBuffer Row) (force : Bool) : Bool :=
  if force then max 1 b.minSamples ≤ b.nRows else b.maxSize ≤ b.nRows

/-- `peek`. -/
def peek (b : RecentDataBuffer Row) : List Row := b.chunks.flatten

/-- `clear`. -/
def clear (b : RecentDataBuffer Row) : RecentDataBuffer Row := { b with nRows := 0, chunks := [] }

/-- `flush`: what it returns, unless it raises a `ValueError`, and the buffer after it. -/
def flush (b : RecentDataBuffer Row) : Option (List Row) × RecentDataBuffer Row :=
  if b.chunks.isEmpty then (none, b) else (some b.chunks.flatten, b.clear)

/-- A call, together with what the calls of `flush` have returned. -/
def step (s : RecentDataBuffer Row × List (Option (List Row))) :
    BufferCall Row → RecentDataBuffer Row × List (Option (List Row))
  | .add rows => (s.1.add rows, s.2)
  | .flush => (s.1.flush.2, s.2 ++ [s.1.flush.1])
  | .clear => (s.1.clear, s.2)

/-- What the buffer is for: all rows since it was last made empty, of which a call of `flush`
returns the latest. -/
def specStep (limit : ℕ) (s : List Row × List (Option (List Row))) :
    BufferCall Row → List Row × List (Option (List Row))
  | .add rows => (s.1 ++ rows, s.2)
  | .flush =>
    if s.1.rtake limit = [] then (s.1, s.2 ++ [none])
    else ([], s.2 ++ [some (s.1.rtake limit)])
  | .clear => ([], s.2)

theorem length_rtake (k : ℕ) (l : List Row) : (l.rtake k).length = min k l.length := by
  rw [List.rtake, List.length_drop]
  omega

theorem rtake_of_length_le {k : ℕ} {l : List Row} (h : l.length ≤ k) : l.rtake k = l := by
  rw [List.rtake, Nat.sub_eq_zero_of_le h, List.drop_zero]

theorem rtake_append (k : ℕ) (l m : List Row) :
    (l ++ m).rtake k = l.rtake (k - m.length) ++ m.rtake k := by
  simp only [List.rtake, List.drop_append, List.length_append]
  rcases Nat.le_total m.length k with hle | hle
  · congr 2 <;> omega
  · have hnone : l.drop (l.length + m.length - k) = [] := List.drop_of_length_le (by omega)
    have hzero : l.drop (l.length - (k - m.length)) = [] := List.drop_of_length_le (by omega)
    rw [hnone, hzero]
    congr 2
    omega

theorem rtake_rtake {j k : ℕ} (hle : j ≤ k) (l : List Row) : (l.rtake k).rtake j = l.rtake j := by
  simp only [List.rtake, List.drop_drop, List.length_drop]
  congr 1
  omega

/-- The latest of the latest rows and some more are the latest of all. -/
theorem rtake_rtake_append (k : ℕ) (l m : List Row) :
    (l.rtake k ++ m).rtake k = (l ++ m).rtake k := by
  rw [rtake_append, rtake_append, rtake_rtake (Nat.sub_le k _)]

/-- `_evict_oldest_locked` leaves the latest rows. -/
theorem evictOldest_spec (maxSize : ℤ) (chunks : List (List Row))
    (hsome : ∀ chunk ∈ chunks, chunk ≠ []) :
    (evictOldest maxSize chunks.flatten.length chunks).2.flatten =
        chunks.flatten.rtake maxSize.toNat ∧
      (evictOldest maxSize chunks.flatten.length chunks).1 =
        (chunks.flatten.rtake maxSize.toNat).length ∧
      ∀ chunk ∈ (evictOldest maxSize chunks.flatten.length chunks).2, chunk ≠ [] := by
  induction chunks with
  | nil => simp [evictOldest, List.rtake]
  | cons oldest chunks ih =>
    obtain ⟨hrows, hcount, hkept⟩ := ih fun chunk h => hsome chunk (List.mem_cons_of_mem _ h)
    have hlength : (oldest :: chunks).flatten.length = oldest.length + chunks.flatten.length := by
      rw [List.flatten_cons, List.length_append]
    simp only [evictOldest]
    split_ifs with hfits hall
    · -- nothing is too much
      rw [rtake_of_length_le (by omega)]
      exact ⟨rfl, rfl, hsome⟩
    · -- the oldest chunk goes as a whole
      have hrest : (oldest :: chunks).flatten.rtake maxSize.toNat =
          chunks.flatten.rtake maxSize.toNat := by
        rw [List.flatten_cons, rtake_append, Nat.sub_eq_zero_of_le (by omega), List.rtake_zero,
          List.nil_append]
      have hless : ((oldest :: chunks).flatten.length : ℤ) - oldest.length =
          chunks.flatten.length := by omega
      rw [hrest, hless]
      exact ⟨hrows, hcount, hkept⟩
    · -- a part of the oldest chunk stays
      have hpart : (oldest :: chunks).flatten.rtake maxSize.toNat =
          oldest.drop (((oldest :: chunks).flatten.length : ℤ) - maxSize).toNat ++
            chunks.flatten := by
        rw [List.flatten_cons, rtake_append, rtake_of_length_le (l := chunks.flatten) (by omega),
          List.rtake]
        congr 2
        rw [← List.flatten_cons]
        omega
      rw [hpart]
      refine ⟨rfl, ?_, ?_⟩
      · rw [List.length_append, List.length_drop]
        omega
      · intro chunk hchunk
        rcases List.mem_cons.mp hchunk with rfl | hchunk
        · refine List.ne_nil_of_length_pos ?_
          rw [List.length_drop]
          omega
        · exact hsome chunk (List.mem_cons_of_mem _ hchunk)

/-- The buffer has the latest of some rows. -/
structure Holds (b : RecentDataBuffer Row) (rows : List Row) : Prop where
  peek : b.peek = rows.rtake b.maxSize.toNat
  nRows : b.nRows = b.peek.length
  chunks : ∀ chunk ∈ b.chunks, chunk ≠ []

theorem Holds.isEmpty_iff {b : RecentDataBuffer Row} {rows : List Row} (h : b.Holds rows) :
    b.chunks.isEmpty ↔ rows.rtake b.maxSize.toNat = [] := by
  have hpeek := h.peek
  rw [RecentDataBuffer.peek] at hpeek
  rw [← hpeek, List.isEmpty_iff, List.flatten_eq_nil_iff]
  constructor
  · intro hnil
    simp [hnil]
  · intro hall
    rw [List.eq_nil_iff_forall_not_mem]
    exact fun chunk hchunk => h.chunks chunk hchunk (hall chunk hchunk)

theorem maxSize_add (b : RecentDataBuffer Row) (rows : List Row) :
    (b.add rows).maxSize = b.maxSize := by
  unfold add
  dsimp only
  split_ifs <;> rfl

theorem Holds.clear {b : RecentDataBuffer Row} : b.clear.Holds [] :=
  ⟨by simp [RecentDataBuffer.clear, RecentDataBuffer.peek, List.rtake], rfl,
    fun _ h => by cases h⟩

theorem Holds.add {b : RecentDataBuffer Row} {rows : List Row} (h : b.Holds rows)
    (more : List Row) : (b.add more).Holds (rows ++ more) := by
  have hmax := maxSize_add b more
  cases hmore : more.isEmpty with
  | true =>
    rw [RecentDataBuffer.add, if_pos hmore, List.isEmpty_iff.mp hmore, List.append_nil]
    exact h
  | false =>
    have hsome : ∀ chunk ∈ b.chunks ++ [more], chunk ≠ [] := by
      intro chunk hchunk
      rcases List.mem_append.mp hchunk with hchunk | hchunk
      · exact h.chunks chunk hchunk
      · rw [List.mem_singleton.mp hchunk]
        simpa using hmore
    have hflatten : (b.chunks ++ [more]).flatten = rows.rtake b.maxSize.toNat ++ more := by
      rw [List.flatten_append, List.flatten_singleton, ← h.peek, RecentDataBuffer.peek]
    have hcount : b.nRows + more.length = (b.chunks ++ [more]).flatten.length := by
      rw [h.nRows, hflatten, List.length_append, ← h.peek]
      push_cast
      rfl
    unfold RecentDataBuffer.add
    rw [if_neg (by simp [hmore])]
    dsimp only
    split_ifs with hover
    · obtain ⟨hrows, hlength, hkept⟩ := evictOldest_spec b.maxSize _ hsome
      rw [← hcount] at hrows hlength hkept
      refine ⟨?_, ?_, hkept⟩
      · rw [RecentDataBuffer.peek, hrows, hflatten, rtake_rtake_append]
      · rw [RecentDataBuffer.peek, hlength, hrows]
    · refine ⟨?_, ?_, hsome⟩
      · have hfits : (b.chunks ++ [more]).flatten.length ≤ b.maxSize.toNat := by omega
        rw [RecentDataBuffer.peek, ← rtake_rtake_append, ← hflatten, rtake_of_length_le hfits]
      · rw [RecentDataBuffer.peek, hcount]

/-- The buffer goes along with all rows since it was last made empty. -/
def Follows (maxSize minSamples : ℤ) (s : RecentDataBuffer Row × List (Option (List Row)))
    (t : List Row × List (Option (List Row))) : Prop :=
  s.1.Holds t.1 ∧ s.1.maxSize = maxSize ∧ s.1.minSamples = minSamples ∧ s.2 = t.2

theorem minSamples_add (b : RecentDataBuffer Row) (rows : List Row) :
    (b.add rows).minSamples = b.minSamples := by
  unfold add
  dsimp only
  split_ifs <;> rfl

theorem Follows.step {maxSize minSamples : ℤ} {s : RecentDataBuffer Row × List (Option (List Row))}
    {t : List Row × List (Option (List Row))} (h : Follows maxSize minSamples s t)
    (call : BufferCall Row) :
    Follows maxSize minSamples (step s call) (specStep maxSize.toNat t call) := by
  obtain ⟨hholds, hmax, hmin, hresults⟩ := h
  cases call with
  | add rows =>
    exact ⟨hholds.add rows, (maxSize_add _ _).trans hmax, (minSamples_add _ _).trans hmin, hresults⟩
  | clear => exact ⟨.clear, hmax, hmin, hresults⟩
  | flush =>
    have hempty := hholds.isEmpty_iff
    rw [hmax] at hempty
    unfold RecentDataBuffer.step specStep flush
    dsimp only
    by_cases hnone : s.1.chunks.isEmpty
    · rw [if_pos hnone, if_pos (hempty.mp hnone)]
      exact ⟨hholds, hmax, hmin, by rw [hresults]⟩
    · rw [if_neg hnone, if_neg fun h => hnone (hempty.mpr h)]
      refine ⟨.clear, hmax, hmin, ?_⟩
      have hpeek := hholds.peek
      rw [RecentDataBuffer.peek, hmax] at hpeek
      rw [hresults, hpeek]

theorem follows_exec {maxSize minSamples : ℤ}
    {s : RecentDataBuffer Row × List (Option (List Row))}
    {t : List Row × List (Option (List Row))} (h : Follows maxSize minSamples s t)
    (calls : List (BufferCall Row)) :
    Follows maxSize minSamples (exec step s calls) (exec (specStep maxSize.toNat) t calls) := by
  induction calls generalizing s t with
  | nil => exact h
  | cons call calls ih => exact ih (h.step call)

/-- A buffer after some calls, and what the calls of `flush` have returned. -/
def after (maxSize minSamples : ℤ) (calls : List (BufferCall Row)) :
    RecentDataBuffer Row × List (Option (List Row)) :=
  exec step (⟨maxSize, minSamples, [], 0⟩, []) calls

/-- All rows since the buffer was last made empty, and what the calls of `flush` should return. -/
def log (limit : ℕ) (calls : List (BufferCall Row)) : List Row × List (Option (List Row)) :=
  exec (specStep limit) ([], []) calls

theorem follows_after (maxSize minSamples : ℤ) (calls : List (BufferCall Row)) :
    Follows maxSize minSamples (after maxSize minSamples calls) (log maxSize.toNat calls) := by
  have hstart : Follows maxSize minSamples
      ((⟨maxSize, minSamples, [], 0⟩, []) : RecentDataBuffer Row × List (Option (List Row)))
      ([], []) :=
    ⟨⟨by simp [peek, List.rtake], rfl, fun _ h => by cases h⟩, rfl, rfl, rfl⟩
  exact follows_exec hstart calls

end RecentDataBuffer

/-- After any calls, of any threads, the buffer has the latest of the rows that were added since it
was last made empty, in their order, and counts them; the calls of `flush` have returned what they
should; and it is ready exactly if enough rows were added. -/
theorem recentDataBuffer_follows {Row : Type*} (maxSize minSamples : ℤ)
    (calls : List (BufferCall Row)) :
    let b := (RecentDataBuffer.after maxSize minSamples calls).1
    let rows := (RecentDataBuffer.log maxSize.toNat calls).1
    b.peek = rows.rtake maxSize.toNat ∧ b.nRows = min maxSize.toNat rows.length ∧
    (RecentDataBuffer.after maxSize minSamples calls).2 =
      (RecentDataBuffer.log maxSize.toNat calls).2 ∧
    (b.isReady false ↔ maxSize ≤ rows.length) ∧
    (b.isReady true ↔ max 1 minSamples ≤ min maxSize.toNat rows.length) := by
  obtain ⟨hholds, hmax, hmin, hresults⟩ :=
    RecentDataBuffer.follows_after maxSize minSamples calls
  dsimp only
  generalize (RecentDataBuffer.after maxSize minSamples calls).1 = b at hholds hmax hmin
  generalize (RecentDataBuffer.log maxSize.toNat calls).1 = rows at hholds
  have hpeek := hholds.peek
  rw [hmax] at hpeek
  have hcount : b.nRows = min maxSize.toNat rows.length := by
    rw [hholds.nRows, hpeek, RecentDataBuffer.length_rtake, Nat.cast_min]
  refine ⟨hpeek, hcount, hresults, ?_, ?_⟩
  · simp only [RecentDataBuffer.isReady, hcount, hmax, Bool.false_eq_true, if_false,
      decide_eq_true_eq]
    omega
  · simp only [RecentDataBuffer.isReady, hcount, hmin, if_true, decide_eq_true_eq]

end LedgerLens.Detection
