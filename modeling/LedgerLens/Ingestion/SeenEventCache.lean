import LedgerLens.ExactlyOnce.RedisBackend
import LedgerLens.Library.Interleaving

/-!
# Concurrent duplicate checks

`SeenEventCache.is_duplicate` of `ingestion/trade_deduplicator.py` claims a trade's key,
reads it if the claim failed, and commits it unless the read said COMMITTED. Each command
is atomic in Redis and other callers run between them. A read that comes after the first
claim but before its commit says STAGED, which the method takes for "not a duplicate".
-/

namespace LedgerLens.Ingestion

open ExactlyOnce Interleaving Transition

/-- `SeenEventCache`. -/
structure SeenEventCache where
  /-- The `ttl_seconds` setting. -/
  ttlSeconds : ℤ
  /-- The Redis backend with its key prefix. -/
  backend : RedisExactlyOnceBackend

/-- `SeenEventCache._key`: the hash of the paging token, or of the trade id where the
token is missing or empty. -/
def SeenEventCache.key (sha256 : String → String) (tradeId : String)
    (pagingToken : Option String) (assetPair : String) : DedupKey :=
  let hashInput := match pagingToken with
    | some token => if token = "" then tradeId else token
    | none => tradeId
  ⟨"horizon_trade:" ++ assetPair, sha256 hashInput, none⟩

/-- Where a call of `is_duplicate` stands: the command it runs next, or how it ended. -/
inductive CheckPhase where
  /-- `SET NX`. -/
  | claim
  /-- `GET`, the claim having failed. -/
  | read
  /-- `SET committed`. -/
  | commit
  /-- The call returned. -/
  | returned (duplicate : Bool)
  /-- The call raised. -/
  | raised (error : DedupBackendUnavailableError)
  deriving DecidableEq

/-- One Redis command of `is_duplicate`. -/
def SeenEventCache.step (cache : SeenEventCache) (key : DedupKey) (input : RedisInput)
    (redis : Redis) : CheckPhase → Redis × CheckPhase
  | .claim =>
    match cache.backend.claim key cache.ttlSeconds input redis with
    | .error e => (redis, .raised e)
    | .ok (redis', true) => (redis', .commit)
    | .ok (redis', false) => (redis', .read)
  | .read =>
    match cache.backend.existing key input redis with
    | .error e => (redis, .raised e)
    | .ok .committed => (redis, .returned true)
    | .ok _ => (redis, .commit)
  | .commit =>
    match cache.backend.commit key input redis with
    | .error e => (redis, .raised e)
    | .ok redis' => (redis', .returned false)
  | .returned duplicate => (redis, .returned duplicate)
  | .raised e => (redis, .raised e)

variable {Caller : Type*} [DecidableEq Caller]

/-- All callers checking one trade, over the Redis keyspace. -/
abbrev CheckConfig (Caller : Type*) := Config Caller Redis CheckPhase

/-- One command of the caller that the event names. -/
def SeenEventCache.raceStep (cache : SeenEventCache) (key : DedupKey) (c : CheckConfig Caller)
    (e : Caller × RedisInput) : CheckConfig Caller :=
  stepAt (cache.step key) c e

/-- Every caller is about to claim the key. -/
def CheckConfig.start (redis : Redis) : CheckConfig Caller := ⟨redis, fun _ => .claim⟩

/-- Every call has returned. -/
def CheckConfig.Returned (c : CheckConfig Caller) : Prop :=
  ∀ i, ∃ duplicate, c.locals i = .returned duplicate

/-- Exactly one call says that the trade is not a duplicate, all others say it is. -/
def ExactlyOneFresh (c : CheckConfig Caller) : Prop :=
  ∃ i, c.locals i = .returned false ∧ ∀ j, j ≠ i → c.locals j = .returned true

/-- The step runs while the key, if it has an entry, has not expired. -/
def KeyLive (cache : SeenEventCache) (key : DedupKey) (c : CheckConfig Caller)
    (e : Caller × RedisInput) : Prop :=
  ∀ entry ∈ c.shared (cache.backend.redisKey key), e.2.now < entry.expiresAt

/-- A caller that reads the key finds it committed. -/
def ReadFindsCommitted (cache : SeenEventCache) (key : DedupKey) (c : CheckConfig Caller)
    (e : Caller × RedisInput) : Prop :=
  c.locals e.1 = .read → e.2.outage = none →
    c.shared.get e.2.now (cache.backend.redisKey key) = some DedupState.committed.value

instance (cache : SeenEventCache) (key : DedupKey) (c : CheckConfig Caller)
    (e : Caller × RedisInput) : Decidable (KeyLive cache key c e) :=
  inferInstanceAs (Decidable (∀ _ ∈ _, _))

instance (cache : SeenEventCache) (key : DedupKey) (c : CheckConfig Caller)
    (e : Caller × RedisInput) : Decidable (ReadFindsCommitted cache key c e) :=
  inferInstanceAs (Decidable (_ → _ → _))

/-- A call that has decided to say "not a duplicate". -/
def CheckPhase.Fresh (phase : CheckPhase) : Prop := phase = .commit ∨ phase = .returned false

/-- A call that will not say "duplicate" any more. -/
def CheckPhase.Diverted (phase : CheckPhase) : Prop := phase.Fresh ∨ ∃ e, phase = .raised e

/-- A call that has not looked at the key yet, or has failed. -/
def CheckPhase.Unseeing (phase : CheckPhase) : Prop := phase = .claim ∨ ∃ e, phase = .raised e

/-- The key has an entry once some call has got past its claim. -/
structure CheckInvariant (cache : SeenEventCache) (key : DedupKey) (c : CheckConfig Caller) :
    Prop where
  /-- Without an entry, no call has got past its claim. -/
  absent : c.shared (cache.backend.redisKey key) = none → ∀ i, (c.locals i).Unseeing
  /-- With an entry, somebody made it. -/
  present : c.shared (cache.backend.redisKey key) ≠ none → ∃ i, (c.locals i).Diverted

variable {cache : SeenEventCache} {key : DedupKey}

/-- What one command can do to a key that does not expire: fail; claim an absent key;
find it present; answer "duplicate" to a committed key; mean to commit although the key
was not committed; or commit; or nothing, the call having ended. -/
theorem SeenEventCache.step_cases {input : RedisInput} {redis redis' : Redis}
    {phase phase' : CheckPhase}
    (hlive : ∀ entry ∈ redis (cache.backend.redisKey key), input.now < entry.expiresAt)
    (hstep : cache.step key input redis phase = (redis', phase')) :
    (redis' = redis ∧ ∃ e, phase' = .raised e) ∨
    (phase = .claim ∧ redis (cache.backend.redisKey key) = none ∧
      redis' (cache.backend.redisKey key) ≠ none ∧ phase' = .commit) ∨
    (phase = .claim ∧ redis (cache.backend.redisKey key) ≠ none ∧ redis' = redis ∧
      phase' = .read) ∨
    (phase = .read ∧ redis' = redis ∧ phase' = .returned true) ∨
    (phase = .read ∧ redis' = redis ∧ phase' = .commit ∧
      redis.get input.now (cache.backend.redisKey key) ≠ some DedupState.committed.value) ∨
    (phase = .commit ∧ redis' (cache.backend.redisKey key) ≠ none ∧ phase' = .returned false) ∨
    (redis' = redis ∧ phase' = phase ∧ ∃ duplicate, phase = .returned duplicate) := by
  cases phase with
  | claim =>
    cases hout : input.outage with
    | some reason =>
      left
      simp only [step, RedisExactlyOnceBackend.claim, hout, Prod.mk.injEq] at hstep
      exact ⟨hstep.1.symm, _, hstep.2.symm⟩
    | none =>
      by_cases hpos : 0 < pyInt cache.ttlSeconds
      · cases hentry : redis (cache.backend.redisKey key) with
        | none =>
          right
          left
          simp only [step, RedisExactlyOnceBackend.claim, hout,
            Redis.setNx_of_absent hpos (Redis.get_of_absent hentry), Prod.mk.injEq] at hstep
          obtain ⟨rfl, rfl⟩ := hstep
          simp
        | some entry =>
          have hget : redis.get input.now (cache.backend.redisKey key) ≠ none := by
            simp [Redis.get_of_live hentry (hlive entry hentry)]
          right
          right
          left
          simp only [step, RedisExactlyOnceBackend.claim, hout,
            Redis.setNx_of_present hpos hget, Prod.mk.injEq] at hstep
          obtain ⟨rfl, rfl⟩ := hstep
          simp
      · left
        simp only [step, RedisExactlyOnceBackend.claim, hout, Redis.setNx_of_nonpos hpos,
          Prod.mk.injEq] at hstep
        exact ⟨hstep.1.symm, _, hstep.2.symm⟩
  | read =>
    cases hout : input.outage with
    | some reason =>
      left
      simp only [step, RedisExactlyOnceBackend.existing, hout, Prod.mk.injEq] at hstep
      exact ⟨hstep.1.symm, _, hstep.2.symm⟩
    | none =>
      right
      right
      right
      by_cases hget : redis.get input.now (cache.backend.redisKey key) =
          some DedupState.committed.value
      · left
        simp only [step, RedisExactlyOnceBackend.existing, hout, if_pos hget,
          Prod.mk.injEq] at hstep
        exact ⟨rfl, hstep.1.symm, hstep.2.symm⟩
      · right
        left
        simp only [step, RedisExactlyOnceBackend.existing, hout, if_neg hget,
          Prod.mk.injEq] at hstep
        exact ⟨rfl, hstep.1.symm, hstep.2.symm, hget⟩
  | commit =>
    cases hout : input.outage with
    | some reason =>
      left
      simp only [step, RedisExactlyOnceBackend.commit, hout, Prod.mk.injEq] at hstep
      exact ⟨hstep.1.symm, _, hstep.2.symm⟩
    | none =>
      simp only [step, RedisExactlyOnceBackend.commit_of_reachable hout, Prod.mk.injEq] at hstep
      obtain ⟨rfl, rfl⟩ := hstep
      simp
  | returned duplicate =>
    simp only [step, Prod.mk.injEq] at hstep
    obtain ⟨rfl, rfl⟩ := hstep
    simp
  | raised e =>
    simp only [step, Prod.mk.injEq] at hstep
    exact Or.inl ⟨hstep.1.symm, e, hstep.2.symm⟩

/-- A call that will not say "duplicate" stays that way. -/
theorem CheckPhase.Diverted.step {input : RedisInput} {redis : Redis} {phase : CheckPhase}
    (h : phase.Diverted) : (cache.step key input redis phase).2.Diverted := by
  rcases h with (rfl | rfl) | ⟨e, rfl⟩
  · cases hcommit : cache.backend.commit key input redis with
    | error e => exact Or.inr ⟨e, by simp [SeenEventCache.step, hcommit]⟩
    | ok redis' => exact Or.inl (Or.inr (by simp [SeenEventCache.step, hcommit]))
  · exact Or.inl (Or.inr rfl)
  · exact Or.inr ⟨e, rfl⟩

omit [DecidableEq Caller] in
/-- The invariant holds before the first claim of a key without an entry. -/
theorem CheckInvariant.start {redis : Redis} (h : redis (cache.backend.redisKey key) = none) :
    CheckInvariant cache key (CheckConfig.start redis : CheckConfig Caller) where
  absent _ _ := Or.inl rfl
  present hne := absurd h hne

/-- Every command keeps the invariant while the key does not expire. -/
theorem CheckInvariant.raceStep {c : CheckConfig Caller} {e : Caller × RedisInput}
    (hinv : CheckInvariant cache key c) (hlive : KeyLive cache key c e) :
    CheckInvariant cache key (cache.raceStep key c e) := by
  have hstep : cache.step key e.2 c.shared (c.locals e.1) =
      ((cache.step key e.2 c.shared (c.locals e.1)).1,
        (cache.step key e.2 c.shared (c.locals e.1)).2) := rfl
  have hkept : c.shared (cache.backend.redisKey key) ≠ none →
      ∃ i, ((cache.raceStep key c e).locals i).Diverted := fun hne =>
    exists_stepAt (hinv.present hne) fun h => h.step
  have hmover : ((cache.raceStep key c e).locals e.1) =
      (cache.step key e.2 c.shared (c.locals e.1)).2 := stepAt_locals_self
  rcases SeenEventCache.step_cases hlive hstep with
    ⟨hredis, err, hphase⟩ | ⟨_, _, hset, hphase⟩ | ⟨_, hne, hredis, _⟩ | ⟨hread, hredis, _⟩ |
    ⟨hread, hredis, _, _⟩ | ⟨_, hset, hphase⟩ | ⟨hredis, hphase, duplicate, hended⟩
  · constructor
    · intro hnone
      rw [SeenEventCache.raceStep, stepAt_shared, hredis] at hnone
      exact forall_stepAt (hinv.absent hnone) (Or.inr ⟨err, hphase⟩)
    · intro hne
      rw [SeenEventCache.raceStep, stepAt_shared, hredis] at hne
      exact hkept hne
  · exact ⟨fun hnone => absurd hnone hset,
      fun _ => ⟨e.1, by rw [hmover, hphase]; exact Or.inl (Or.inl rfl)⟩⟩
  · have hshared : (cache.raceStep key c e).shared = c.shared := hredis
    exact ⟨fun hnone => absurd (by rwa [hshared] at hnone) hne, fun _ => hkept hne⟩
  · have hshared : (cache.raceStep key c e).shared = c.shared := hredis
    refine ⟨fun hnone => ?_, fun hne => hkept (by rwa [hshared] at hne)⟩
    rw [hshared] at hnone
    rcases hinv.absent hnone e.1 with h | ⟨err, h⟩ <;> rw [hread] at h <;> cases h
  · have hshared : (cache.raceStep key c e).shared = c.shared := hredis
    refine ⟨fun hnone => ?_, fun hne => hkept (by rwa [hshared] at hne)⟩
    rw [hshared] at hnone
    rcases hinv.absent hnone e.1 with h | ⟨err, h⟩ <;> rw [hread] at h <;> cases h
  · exact ⟨fun hnone => absurd hnone hset,
      fun _ => ⟨e.1, by rw [hmover, hphase]; exact Or.inl (Or.inr rfl)⟩⟩
  · have hsame : cache.raceStep key c e = c := by
      unfold SeenEventCache.raceStep stepAt
      rw [hredis, hphase, Function.update_eq_self]
    rwa [hsame]

/-- A call that decides to say "not a duplicate" is the first one to, if every read
finds the key committed. -/
theorem CheckInvariant.atMostOne_raceStep {c : CheckConfig Caller} {e : Caller × RedisInput}
    (hinv : CheckInvariant cache key c) (hone : AtMostOne CheckPhase.Fresh c)
    (hlive : KeyLive cache key c e) (hread : ReadFindsCommitted cache key c e) :
    AtMostOne CheckPhase.Fresh (cache.raceStep key c e) := by
  have hstep : cache.step key e.2 c.shared (c.locals e.1) =
      ((cache.step key e.2 c.shared (c.locals e.1)).1,
        (cache.step key e.2 c.shared (c.locals e.1)).2) := rfl
  apply atMostOne_stepAt hone
  intro hfresh
  rcases SeenEventCache.step_cases hlive hstep with
    ⟨_, err, hphase⟩ | ⟨_, hnone, _, _⟩ | ⟨_, _, _, hphase⟩ | ⟨_, _, hphase⟩ |
    ⟨hreads, _, hphase, hget⟩ | ⟨hcommit, _, _⟩ | ⟨_, hphase, _⟩
  · rw [hphase] at hfresh
    rcases hfresh with h | h <;> cases h
  · right
    intro j hj
    rcases hinv.absent hnone j with h | ⟨err, h⟩ <;> rw [h] at hj <;> rcases hj with h | h <;>
      cases h
  · rw [hphase] at hfresh
    rcases hfresh with h | h <;> cases h
  · rw [hphase] at hfresh
    rcases hfresh with h | h <;> cases h
  · cases hout : e.2.outage with
    | none => exact absurd (hread hreads hout) hget
    | some reason =>
      rw [hreads] at hphase
      simp [SeenEventCache.step, RedisExactlyOnceBackend.existing, hout] at hphase
  · exact Or.inl (Or.inl hcommit)
  · rw [hphase] at hfresh
    exact Or.inl hfresh

/-- Two calls have been diverted: neither will say "duplicate". -/
def TwoDiverted (c : CheckConfig Caller) : Prop :=
  ∃ i j, i ≠ j ∧ (c.locals i).Diverted ∧ (c.locals j).Diverted

theorem TwoDiverted.raceStep {c : CheckConfig Caller} {e : Caller × RedisInput}
    (h : TwoDiverted c) : TwoDiverted (cache.raceStep key c e) := by
  obtain ⟨i, j, hne, hi, hj⟩ := h
  have hkept : ∀ k, (c.locals k).Diverted → ((cache.raceStep key c e).locals k).Diverted := by
    intro k hk
    by_cases hke : k = e.1
    · subst hke
      rw [SeenEventCache.raceStep, stepAt_locals_self]
      exact hk.step
    · rwa [SeenEventCache.raceStep, stepAt_locals_ne hke]
  exact ⟨i, j, hne, hkept i hi, hkept j hj⟩

/-- A read that does not find the key committed diverts a second call. -/
theorem CheckInvariant.twoDiverted_raceStep {c : CheckConfig Caller} {e : Caller × RedisInput}
    (hinv : CheckInvariant cache key c) (hread : ¬ReadFindsCommitted cache key c e) :
    TwoDiverted (cache.raceStep key c e) := by
  simp only [ReadFindsCommitted, not_forall] at hread
  obtain ⟨hreads, hout, hget⟩ := hread
  have hpresent : c.shared (cache.backend.redisKey key) ≠ none := by
    intro hnone
    rcases hinv.absent hnone e.1 with h | ⟨err, h⟩ <;> rw [hreads] at h <;> cases h
  obtain ⟨j, hj⟩ := hinv.present hpresent
  have hne : j ≠ e.1 := by
    rintro rfl
    rw [hreads] at hj
    rcases hj with (h | h) | ⟨err, h⟩ <;> cases h
  refine ⟨j, e.1, hne, ?_, ?_⟩
  · rwa [SeenEventCache.raceStep, stepAt_locals_ne hne]
  · rw [SeenEventCache.raceStep, stepAt_locals_self, hreads]
    exact Or.inl (Or.inl (by
      simp [SeenEventCache.step, RedisExactlyOnceBackend.existing, hout, hget]))

omit [DecidableEq Caller] in
/-- A diverted call that has returned has said "not a duplicate". -/
theorem CheckPhase.Diverted.eq_returned {phase : CheckPhase} (h : phase.Diverted)
    (hreturned : ∃ duplicate, phase = .returned duplicate) : phase = .returned false := by
  obtain ⟨duplicate, rfl⟩ := hreturned
  rcases h with (h | h) | ⟨e, h⟩
  · cases h
  · exact h
  · cases h

/-- Any number of interleaved checks of a trade not seen before, whose key does not
expire meanwhile: once all have returned, exactly one has said "not a duplicate" if and
only if every call that had to read the key found it committed. -/
theorem is_duplicate_exactly_one_iff [Nonempty Caller] (cache : SeenEventCache) (key : DedupKey)
    (redis : Redis) (hunseen : redis (cache.backend.redisKey key) = none)
    (es : List (Caller × RedisInput))
    (hlive : Meets (cache.raceStep key) (KeyLive cache key) (CheckConfig.start redis) es)
    (hreturned : (exec (cache.raceStep key) (CheckConfig.start redis) es).Returned) :
    ExactlyOneFresh (exec (cache.raceStep key) (CheckConfig.start redis) es) ↔
      Meets (cache.raceStep key) (ReadFindsCommitted cache key) (CheckConfig.start redis) es := by
  constructor
  · rintro ⟨i, _, hothers⟩
    by_contra hmeets
    obtain ⟨j, k, hjk, hj, hk⟩ := damaged_of_not_meets (fun _ _ h hl => h.raceStep hl)
      (fun _ _ h _ hr => h.twoDiverted_raceStep hr) (fun _ _ h => h.raceStep)
      (CheckInvariant.start hunseen) hlive hmeets
    have hunique : ∀ m, (exec (cache.raceStep key) (CheckConfig.start redis) es).locals m =
        .returned false → m = i := by
      intro m hm
      by_contra hmi
      rw [hothers m hmi] at hm
      cases hm
    exact hjk ((hunique j (hj.eq_returned (hreturned j))).trans
      (hunique k (hk.eq_returned (hreturned k))).symm)
  · intro hmeets
    obtain ⟨hinv, hone⟩ := exec_invariant_of_meets
      (fun c => CheckInvariant cache key c ∧ AtMostOne CheckPhase.Fresh c)
      (fun _ _ h hc => ⟨h.1.raceStep hc.1, h.1.atMostOne_raceStep h.2 hc.1 hc.2⟩)
      ⟨CheckInvariant.start hunseen, fun i _ hi _ => by rcases hi with h | h <;> cases h⟩
      (meets_and_iff.mpr ⟨hlive, hmeets⟩)
    have hpresent : (exec (cache.raceStep key) (CheckConfig.start redis) es).shared
        (cache.backend.redisKey key) ≠ none := by
      intro hnone
      obtain ⟨i⟩ := ‹Nonempty Caller›
      obtain ⟨duplicate, hi⟩ := hreturned i
      rcases hinv.absent hnone i with h | ⟨e, h⟩ <;> rw [hi] at h <;> cases h
    obtain ⟨i, hi⟩ := hinv.present hpresent
    have hfalse := hi.eq_returned (hreturned i)
    refine ⟨i, hfalse, fun j hji => ?_⟩
    obtain ⟨duplicate, hj⟩ := hreturned j
    cases duplicate with
    | true => exact hj
    | false => exact absurd (hone j i (Or.inr hj) (Or.inr hfalse)) hji

/-- A cache with a time to live of an hour. -/
def hourCache : SeenEventCache := ⟨3600, {}⟩

/-- The key of one trade, with hashing left out. -/
def tradeKey : DedupKey := SeenEventCache.key id "trade-1" (some "paging-1") "USDC/XLM"

/-- The second caller reads the key after the first has claimed it and before it has
committed it. -/
def readBeforeCommit : List (Fin 2 × RedisInput) :=
  [(0, ⟨0, none⟩), (1, ⟨1, none⟩), (1, ⟨2, none⟩), (0, ⟨3, none⟩), (1, ⟨4, none⟩)]

/-- The second caller reads the key after the first has committed it. -/
def readAfterCommit : List (Fin 2 × RedisInput) :=
  [(0, ⟨0, none⟩), (1, ⟨1, none⟩), (0, ⟨2, none⟩), (1, ⟨3, none⟩)]

/-- Both checks of one trade say "not a duplicate", with the key live all along. -/
theorem is_duplicate_two_fresh :
    Meets (hourCache.raceStep tradeKey) (KeyLive hourCache tradeKey)
      (CheckConfig.start fun _ => none) readBeforeCommit ∧
    (exec (hourCache.raceStep tradeKey) (CheckConfig.start fun _ => none)
      readBeforeCommit).Returned ∧
    ¬ExactlyOneFresh (exec (hourCache.raceStep tradeKey) (CheckConfig.start fun _ => none)
      readBeforeCommit) := by
  have hboth : ∀ i, (exec (hourCache.raceStep tradeKey) (CheckConfig.start fun _ => none)
      readBeforeCommit).locals i = .returned false := by decide +kernel
  refine ⟨by decide +kernel, fun i => ⟨false, hboth i⟩, ?_⟩
  rintro ⟨i, _, hothers⟩
  have hne : ∀ i : Fin 2, 1 - i ≠ i := by decide
  have hother := hothers (1 - i) (hne i)
  rw [hboth] at hother
  cases hother

/-- A second check that reads after the commit says "duplicate". -/
theorem is_duplicate_exactly_one_sequential :
    ExactlyOneFresh (exec (hourCache.raceStep tradeKey)
      (CheckConfig.start fun _ => none) readAfterCommit) := by
  apply (is_duplicate_exactly_one_iff hourCache tradeKey _ rfl _ (by decide +kernel) _).mpr
  · decide +kernel
  · have hends : ∀ i, (exec (hourCache.raceStep tradeKey) (CheckConfig.start fun _ => none)
        readAfterCommit).locals i = .returned (decide (i = 1)) := by decide +kernel
    exact fun i => ⟨decide (i = 1), hends i⟩

end LedgerLens.Ingestion