import LedgerLens.ExactlyOnce.RedisBackend
import LedgerLens.Library.Runs
import Mathlib.Order.Lattice

/-!
# The exactly-once store over Redis

`ExactlyOnceStore` is configured with a time to live. It hands it to the backend's
`check_and_stage`, but calls `commit` without one, so a committed marker lives for the
default of `RedisExactlyOnceBackend.commit`, which is a day. The time to live also ends up
as a whole number of seconds, and Redis accepts no such number below one. This file
determines when a committed key is answered COMMITTED for as long as it was to be.
-/

namespace LedgerLens.ExactlyOnce

open Transition

/-- `RedisExactlyOnceBackend.mark_failed`: the key is deleted. -/
def RedisExactlyOnceBackend.markFailed (backend : RedisExactlyOnceBackend) (key : DedupKey)
    (input : RedisInput) (redis : Redis) : Except DedupBackendUnavailableError Redis :=
  match input.outage with
  | some reason => .error ⟨key.source, reason⟩
  | none => .ok (Function.update redis (backend.redisKey key) none)

/-- `ExactlyOnceStore` over Redis. -/
structure ExactlyOnceStore where
  /-- `_backend`. -/
  backend : RedisExactlyOnceBackend
  /-- `_ttl_seconds`. -/
  ttlSeconds : ℚ := 86400

/-- The calls on a store, with the inputs of their Redis commands. -/
inductive StoreCall where
  /-- `check_and_stage`, with its `SET NX` and its `GET`. -/
  | checkAndStage (first second : RedisInput)
  /-- `commit`. -/
  | commit (input : RedisInput)
  /-- `mark_failed`. -/
  | markFailed (input : RedisInput)

/-- The server, and what has happened to one key. -/
structure StoreHistory where
  /-- The server. -/
  redis : Redis
  /-- The time of the last command. -/
  now : ℚ
  /-- The time of the last commit of the key, unless the key was marked failed after it. -/
  committedSince : Option ℚ := none
  /-- If the last call was a `check_and_stage` of the key, and the server was reachable: the
  time at which it ended and its result. -/
  answer : Option (ℚ × Except DedupBackendUnavailableError DedupState) := none

/-- A clock reading that comes after another one: time does not go backwards. -/
def RedisInput.after (input : RedisInput) (now : ℚ) : RedisInput :=
  { input with now := max now input.now }

namespace ExactlyOnceStore

/-- `check_and_stage` hands the configured time to live to the backend. -/
def checkAndStage (store : ExactlyOnceStore) (key : DedupKey) (first second : RedisInput)
    (redis : Redis) : Redis × Except DedupBackendUnavailableError DedupState :=
  store.backend.checkAndStage key store.ttlSeconds first second redis

/-- `commit` does not. -/
def commit (store : ExactlyOnceStore) (key : DedupKey) (input : RedisInput) (redis : Redis) :
    Except DedupBackendUnavailableError Redis :=
  store.backend.commit key input redis

/-- `mark_failed`. -/
def markFailed (store : ExactlyOnceStore) (key : DedupKey) (input : RedisInput)
    (redis : Redis) : Except DedupBackendUnavailableError Redis :=
  store.backend.markFailed key input redis

/-- Whether a call with key `k` is about `key`. -/
def same (store : ExactlyOnceStore) (k key : DedupKey) : Bool :=
  store.backend.redisKey k == store.backend.redisKey key

/-- One call with key `k`, watched for `key`. -/
def watch (store : ExactlyOnceStore) (key : DedupKey) (s : StoreHistory) :
    DedupKey × StoreCall → StoreHistory
  | (k, .checkAndStage first second) =>
    let first := first.after s.now
    let second := second.after first.now
    { redis := (store.checkAndStage k first second s.redis).1
      now := second.now
      committedSince := s.committedSince
      answer :=
        if store.same k key && first.outage.isNone && second.outage.isNone then
          some (second.now, (store.checkAndStage k first second s.redis).2)
        else none }
  | (k, .commit input) =>
    let input := input.after s.now
    match store.commit k input s.redis with
    | .ok redis =>
      { redis := redis, now := input.now
        committedSince := if store.same k key then some input.now else s.committedSince }
    | .error _ => { s with now := input.now, answer := none }
  | (k, .markFailed input) =>
    let input := input.after s.now
    match store.markFailed k input s.redis with
    | .ok redis =>
      { redis := redis, now := input.now
        committedSince := if store.same k key then none else s.committedSince }
    | .error _ => { s with now := input.now, answer := none }

/-- A key is answered COMMITTED for `ttl_seconds` after its commit. -/
def HonoursTtl (store : ExactlyOnceStore) (s : StoreHistory) : Prop :=
  ∀ since ∈ s.committedSince, ∀ answer ∈ s.answer, answer.1 < since + store.ttlSeconds →
    match answer.2 with
    | .ok state => state = .committed
    | .error _ => False

instance (store : ExactlyOnceStore) : DecidablePred store.HonoursTtl := fun s =>
  have : ∀ answer : ℚ × Except DedupBackendUnavailableError DedupState, Decidable
      (match answer.2 with
        | .ok state => state = .committed
        | .error _ => False) := fun answer =>
    match answer.2 with
    | .ok state => inferInstanceAs (Decidable (state = .committed))
    | .error _ => inferInstanceAs (Decidable False)
  inferInstanceAs (Decidable (∀ since ∈ s.committedSince, ∀ answer ∈ s.answer, _ → _))

/-- A `check_and_stage` of the key that ends within `ttl_seconds` of the commit ends within
a day of it, and the time to live is at least a second. -/
def ChecksWithinDay (store : ExactlyOnceStore) (key : DedupKey) (s : StoreHistory) :
    DedupKey × StoreCall → Prop
  | (k, .checkAndStage first second) =>
    store.same k key = true → first.outage = none → second.outage = none →
      ∀ since ∈ s.committedSince,
        max (max s.now first.now) second.now < since + store.ttlSeconds →
          1 ≤ store.ttlSeconds ∧ max (max s.now first.now) second.now < since + 86400
  | _ => True

/-- What the server holds for a key that has been committed: the marker, for a day from the
commit, or when the day is over what a later `check_and_stage` has staged. -/
def Holds (store : ExactlyOnceStore) (key : DedupKey) (s : StoreHistory) : Prop :=
  ∀ since ∈ s.committedSince, ∃ entry, s.redis (store.backend.redisKey key) = some entry ∧
    (entry = ⟨DedupState.committed.value, since + 86400⟩ ∨
      since + 86400 ≤ s.now ∧ entry.value = DedupState.staged.value)

section Backend

variable {backend : RedisExactlyOnceBackend} {key : DedupKey} {ttlSeconds : ℚ}
  {first second : RedisInput} {redis : Redis}

/-- A time to live has whole seconds exactly from one second on. -/
theorem pyInt_pos_iff : 0 < pyInt ttlSeconds ↔ 1 ≤ ttlSeconds := by
  unfold pyInt
  by_cases h : 0 ≤ ttlSeconds
  · rw [if_pos h, Int.floor_pos]
  · rw [if_neg h]
    have hceil : ⌈ttlSeconds⌉ ≤ 0 := Int.ceil_le.mpr (by push_cast; linarith)
    constructor
    · intro hpos
      omega
    · intro hone
      linarith

/-- With the server reachable, a key is answered COMMITTED exactly when the marker is there
for both commands and the server accepts the time to live. -/
theorem checkAndStage_eq_committed_iff (hfirst : first.outage = none)
    (hsecond : second.outage = none) :
    (backend.checkAndStage key ttlSeconds first second redis).2 = .ok .committed ↔
      1 ≤ ttlSeconds ∧ redis.get first.now (backend.redisKey key) ≠ none ∧
        redis.get second.now (backend.redisKey key) = some DedupState.committed.value := by
  rw [← pyInt_pos_iff]
  by_cases hpos : 0 < pyInt ttlSeconds
  · by_cases hget : redis.get first.now (backend.redisKey key) = none
    · simp [RedisExactlyOnceBackend.checkAndStage, RedisExactlyOnceBackend.claim, hfirst,
        Redis.setNx_of_absent hpos hget, hget]
    · simp only [RedisExactlyOnceBackend.checkAndStage, RedisExactlyOnceBackend.claim, hfirst,
        Redis.setNx_of_present hpos hget, RedisExactlyOnceBackend.existing, hsecond]
      split_ifs with hcommitted <;> simp [hpos, hget, hcommitted]
  · simp [RedisExactlyOnceBackend.checkAndStage, RedisExactlyOnceBackend.claim, hfirst,
      Redis.setNx_of_nonpos hpos, hpos]

/-- `check_and_stage` leaves the server alone or stages a key that has no live entry. -/
theorem checkAndStage_redis_cases (backend : RedisExactlyOnceBackend) (key : DedupKey)
    (ttlSeconds : ℚ) (first second : RedisInput) (redis : Redis) :
    (backend.checkAndStage key ttlSeconds first second redis).1 = redis ∨
      redis.get first.now (backend.redisKey key) = none ∧
        (backend.checkAndStage key ttlSeconds first second redis).1 =
          Function.update redis (backend.redisKey key)
            (some ⟨DedupState.staged.value, first.now + pyInt ttlSeconds⟩) := by
  cases hfirst : first.outage with
  | some reason =>
    simp [RedisExactlyOnceBackend.checkAndStage, RedisExactlyOnceBackend.claim, hfirst]
  | none =>
    by_cases hpos : 0 < pyInt ttlSeconds
    · by_cases hget : redis.get first.now (backend.redisKey key) = none
      · simp [RedisExactlyOnceBackend.checkAndStage, RedisExactlyOnceBackend.claim, hfirst,
          Redis.setNx_of_absent hpos hget, hget]
      · simp [RedisExactlyOnceBackend.checkAndStage, RedisExactlyOnceBackend.claim, hfirst,
          Redis.setNx_of_present hpos hget]
    · simp [RedisExactlyOnceBackend.checkAndStage, RedisExactlyOnceBackend.claim, hfirst,
        Redis.setNx_of_nonpos hpos]

end Backend

variable {store : ExactlyOnceStore} {key k : DedupKey} {s : StoreHistory}
  {first second input : RedisInput}

/-- A call with another key, or one that changes nothing, takes only time. -/
theorem Holds.mono {s' : StoreHistory} (h : store.Holds key s)
    (hredis : s'.redis (store.backend.redisKey key) = s.redis (store.backend.redisKey key))
    (hsince : s'.committedSince = s.committedSince) (hnow : s.now ≤ s'.now) :
    store.Holds key s' := by
  intro since hmem
  rw [hsince] at hmem
  obtain ⟨entry, hentry, hcase⟩ := h since hmem
  refine ⟨entry, by rw [hredis, hentry], ?_⟩
  exact hcase.imp id fun hstaged => ⟨hstaged.1.trans hnow, hstaged.2⟩

/-- The marker is the only thing that makes the server answer COMMITTED, and it is there for
a day. -/
theorem Holds.committed_iff (h : store.Holds key s) (first second : RedisInput) {since : ℚ}
    (hsince : s.committedSince = some since)
    (hname : store.backend.redisKey k = store.backend.redisKey key)
    (hfirst : first.outage = none) (hsecond : second.outage = none) (hstart : s.now ≤ first.now)
    (hend : first.now ≤ second.now) :
    (store.checkAndStage k first second s.redis).2 = .ok .committed ↔
      1 ≤ store.ttlSeconds ∧ second.now < since + 86400 := by
  unfold checkAndStage
  rw [checkAndStage_eq_committed_iff hfirst hsecond, hname]
  obtain ⟨entry, hentry, rfl | ⟨hover, hstaged⟩⟩ := h since hsince
  · have hget (now : ℚ) : s.redis.get now (store.backend.redisKey key) =
        if now < since + 86400 then some DedupState.committed.value else none := by
      simp [Redis.get, hentry]
    rw [hget, hget]
    constructor
    · rintro ⟨hone, -, hlive⟩
      refine ⟨hone, ?_⟩
      by_contra hdead
      rw [if_neg hdead] at hlive
      cases hlive
    · rintro ⟨hone, hlive⟩
      refine ⟨hone, ?_, if_pos hlive⟩
      rw [if_pos (hend.trans_lt hlive)]
      simp
  · constructor
    · rintro ⟨-, -, hget⟩
      unfold Redis.get at hget
      rw [hentry] at hget
      dsimp only at hget
      split_ifs at hget
      rw [hstaged, Option.some.injEq] at hget
      exact absurd hget (by decide)
    · rintro ⟨-, hlive⟩
      exact absurd hlive (not_lt.mpr (hover.trans (hstart.trans hend)))

/-- A `check_and_stage` keeps what the server holds. -/
theorem Holds.watch_check (h : store.Holds key s) :
    store.Holds key (store.watch key s (k, .checkAndStage first second)) := by
  have hstart : s.now ≤ (first.after s.now).now := le_max_left _ _
  have hend : (first.after s.now).now ≤ (second.after (first.after s.now).now).now :=
    le_max_left _ _
  rcases checkAndStage_redis_cases store.backend k store.ttlSeconds (first.after s.now)
    (second.after (first.after s.now).now) s.redis with
    hsame | ⟨habsent, hstaged⟩
  · exact h.mono (congrFun hsame _) rfl (hstart.trans hend)
  · by_cases hkey : store.backend.redisKey key = store.backend.redisKey k
    · intro since hsince
      obtain ⟨entry, hentry, hcase⟩ := h since hsince
      refine ⟨⟨DedupState.staged.value, (first.after s.now).now + pyInt store.ttlSeconds⟩, ?_,
        Or.inr ⟨?_, rfl⟩⟩
      · simp only [watch, checkAndStage, hstaged]
        rw [hkey, Function.update_self]
      · rcases hcase with rfl | ⟨hover, -⟩
        · rw [← hkey] at habsent
          by_contra hlive
          rw [Redis.get_of_live hentry (hend.trans_lt (not_le.mp hlive))] at habsent
          cases habsent
        · exact hover.trans (hstart.trans hend)
    · refine h.mono ?_ rfl (hstart.trans hend)
      simp only [watch, checkAndStage, hstaged]
      rw [Function.update_of_ne hkey]

/-- A `commit` that succeeds leaves the marker for a day. -/
theorem Holds.watch_commit (h : store.Holds key s) :
    store.Holds key (store.watch key s (k, .commit input)) := by
  have hnow : s.now ≤ (input.after s.now).now := le_max_left _ _
  cases hout : input.outage with
  | some reason =>
    have hfails : store.commit k (input.after s.now) s.redis = .error ⟨k.source, reason⟩ := by
      simp [commit, RedisExactlyOnceBackend.commit, RedisInput.after, hout]
    simp only [watch, hfails]
    exact h.mono rfl rfl hnow
  | none =>
    have hcommit : store.commit k (input.after s.now) s.redis = .ok
        (Function.update s.redis (store.backend.redisKey k)
          (some ⟨DedupState.committed.value, (input.after s.now).now + 86400⟩)) :=
      RedisExactlyOnceBackend.commit_of_reachable (by simp [RedisInput.after, hout])
    simp only [watch, hcommit]
    by_cases hkey : store.same k key = true
    · have hname : store.backend.redisKey k = store.backend.redisKey key := by
        simpa [same] using hkey
      rw [if_pos hkey]
      rintro since ⟨⟩
      exact ⟨_, by simp only [hname, Function.update_self], Or.inl rfl⟩
    · have hname : store.backend.redisKey key ≠ store.backend.redisKey k := by
        intro heq
        exact hkey (by simp [same, heq])
      rw [if_neg hkey]
      exact h.mono (Function.update_of_ne hname _ _) rfl hnow

/-- A `mark_failed` ends the watch or is about another key. -/
theorem Holds.watch_markFailed (h : store.Holds key s) :
    store.Holds key (store.watch key s (k, .markFailed input)) := by
  have hnow : s.now ≤ (input.after s.now).now := le_max_left _ _
  cases hout : input.outage with
  | some reason =>
    have hfails : store.markFailed k (input.after s.now) s.redis = .error ⟨k.source, reason⟩ := by
      simp [markFailed, RedisExactlyOnceBackend.markFailed, RedisInput.after, hout]
    simp only [watch, hfails]
    exact h.mono rfl rfl hnow
  | none =>
    have hdelete : store.markFailed k (input.after s.now) s.redis =
        .ok (Function.update s.redis (store.backend.redisKey k) none) := by
      simp [markFailed, RedisExactlyOnceBackend.markFailed, RedisInput.after, hout]
    simp only [watch, hdelete]
    by_cases hkey : store.same k key = true
    · rw [if_pos hkey]
      rintro since ⟨⟩
    · have hname : store.backend.redisKey key ≠ store.backend.redisKey k := by
        intro heq
        exact hkey (by simp [same, heq])
      rw [if_neg hkey]
      exact h.mono (Function.update_of_ne hname _ _) rfl hnow

/-- Whether a `check_and_stage` honours the time to live depends on when it is made. -/
theorem Holds.honoursTtl_check_iff (h : store.Holds key s) :
    store.HonoursTtl (store.watch key s (k, .checkAndStage first second)) ↔
      store.ChecksWithinDay key s (k, .checkAndStage first second) := by
  have hstart : s.now ≤ (first.after s.now).now := le_max_left _ _
  have hend : (first.after s.now).now ≤ (second.after (first.after s.now).now).now :=
    le_max_left _ _
  by_cases hwatched : store.same k key = true ∧ first.outage = none ∧ second.outage = none
  · obtain ⟨hkey, hfirst, hsecond⟩ := hwatched
    have hname : store.backend.redisKey k = store.backend.redisKey key := by
      simpa [same] using hkey
    cases hsince : s.committedSince with
    | none => simp [HonoursTtl, watch, ChecksWithinDay, hsince]
    | some since =>
      have hcommitted := h.committed_iff (first.after s.now)
        (second.after (first.after s.now).now) hsince hname hfirst hsecond hstart hend
      have hstate : ∀ result : Except DedupBackendUnavailableError DedupState,
          (match result with
            | .ok state => state = .committed
            | .error _ => False) ↔ result = .ok .committed := by
        intro result
        cases result <;> simp
      simp only [HonoursTtl, watch, ChecksWithinDay, hkey, hfirst, hsecond, hsince,
        RedisInput.after, Option.isNone_none, Bool.and_self, if_true, Option.mem_def,
        Option.some.injEq, forall_eq', hstate, forall_const] at hcommitted ⊢
      exact imp_congr_right fun _ => hcommitted
  · have hunwatched : (store.watch key s (k, .checkAndStage first second)).answer = none := by
      simp only [watch]
      rw [if_neg]
      simp only [RedisInput.after, Bool.and_eq_true, Option.isNone_iff_eq_none, and_assoc]
      exact hwatched
    constructor
    · intro _ hkey hfirst hsecond
      exact absurd ⟨hkey, hfirst, hsecond⟩ hwatched
    · intro _ since _ answer hanswer
      rw [hunwatched] at hanswer
      cases hanswer

/-- Other calls answer nothing. -/
theorem honoursTtl_of_answer_eq_none (h : s.answer = none) : store.HonoursTtl s := by
  intro since _ answer hanswer
  rw [h] at hanswer
  cases hanswer

theorem answer_watch_commit :
    (store.watch key s (k, .commit input)).answer = none := by
  simp only [watch]
  split <;> rfl

theorem answer_watch_markFailed :
    (store.watch key s (k, .markFailed input)).answer = none := by
  simp only [watch]
  split <;> rfl

/-- Over any sequence of calls, a key that is committed and not marked failed is answered
COMMITTED for `ttl_seconds`, exactly when the calls that check it within that time come
within a day of its last commit and the time to live is at least a second. -/
theorem committed_for_ttl_iff (store : ExactlyOnceStore) (key : DedupKey) (redis : Redis)
    (now : ℚ) (calls : List (DedupKey × StoreCall)) :
    Always (store.watch key) store.HonoursTtl { redis := redis, now := now } calls ↔
      Meets (store.watch key) (store.ChecksWithinDay key) { redis := redis, now := now }
        calls := by
  apply always_iff_meets fun s => store.Holds key s ∧ store.HonoursTtl s
  · exact fun _ h => h.2
  · rintro s ⟨k, call⟩ ⟨h, -⟩ hcond
    cases call with
    | checkAndStage first second =>
      exact ⟨h.watch_check, h.honoursTtl_check_iff.mpr hcond⟩
    | commit input => exact ⟨h.watch_commit, honoursTtl_of_answer_eq_none answer_watch_commit⟩
    | markFailed input =>
      exact ⟨h.watch_markFailed, honoursTtl_of_answer_eq_none answer_watch_markFailed⟩
  · rintro s ⟨k, call⟩ ⟨h, -⟩ hcond
    cases call with
    | checkAndStage first second => exact fun hhonours => hcond (h.honoursTtl_check_iff.mp hhonours)
    | commit input => exact absurd trivial hcond
    | markFailed input => exact absurd trivial hcond
  · exact ⟨fun since hsince => (by cases hsince), fun since hsince => (by cases hsince)⟩

/-- With a time to live between a second and a day nothing can go wrong. -/
theorem committed_for_short_ttl {store : ExactlyOnceStore} (hone : 1 ≤ store.ttlSeconds)
    (hday : store.ttlSeconds ≤ 86400) (key : DedupKey) (redis : Redis) (now : ℚ)
    (calls : List (DedupKey × StoreCall)) :
    Always (store.watch key) store.HonoursTtl { redis := redis, now := now } calls := by
  apply always_of_invariant fun s => store.Holds key s ∧ store.HonoursTtl s
  · exact fun _ h => h.2
  · rintro s ⟨k, call⟩ ⟨h, -⟩
    cases call with
    | checkAndStage first second =>
      refine ⟨h.watch_check, h.honoursTtl_check_iff.mpr fun _ _ _ since _ hlt => ⟨hone, ?_⟩⟩
      exact hlt.trans_le (by linarith)
    | commit input => exact ⟨h.watch_commit, honoursTtl_of_answer_eq_none answer_watch_commit⟩
    | markFailed input =>
      exact ⟨h.watch_markFailed, honoursTtl_of_answer_eq_none answer_watch_markFailed⟩
  · exact ⟨fun since hsince => (by cases hsince), fun since hsince => (by cases hsince)⟩

/-- With a time to live of two days, a key committed at time 0 is answered NEW after a day
and an hour. -/
theorem long_ttl_answered_new :
    ¬Always ((⟨{}, 172800⟩ : ExactlyOnceStore).watch ⟨"kafka_trade", "7:a", none⟩)
      (⟨{}, 172800⟩ : ExactlyOnceStore).HonoursTtl { redis := fun _ => none, now := 0 }
      [(⟨"kafka_trade", "7:a", none⟩, .checkAndStage { now := 0 } { now := 0 }),
        (⟨"kafka_trade", "7:a", none⟩, .commit { now := 0 }),
        (⟨"kafka_trade", "7:a", none⟩, .checkAndStage { now := 90000 } { now := 90000 })] := by
  decide +kernel

end ExactlyOnceStore

end LedgerLens.ExactlyOnce
