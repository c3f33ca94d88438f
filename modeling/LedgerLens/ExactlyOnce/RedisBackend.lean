import LedgerLens.ExactlyOnce.Basic
import Mathlib.Logic.Function.Basic
import Mathlib.Data.Rat.Floor

/-!
# The Redis backend

`RedisExactlyOnceBackend` claims a key with `SET key staged NX EX ttl`, reads it with
`GET` and marks it with `SET key committed EX ttl`. Redis itself is a map from keys to
values with an expiry time; an entry whose time has come is as good as absent. A command
can fail because the server is unreachable, and every failure is reported as
`DedupBackendUnavailableError`.
-/

namespace LedgerLens.ExactlyOnce

/-- A value stored with `EX`. -/
structure RedisEntry where
  /-- The stored string. -/
  value : String
  /-- The time from which the entry is gone. -/
  expiresAt : ℚ
  deriving DecidableEq

/-- The keyspace of a Redis server. -/
abbrev Redis := String → Option RedisEntry

/-- `GET`. -/
def Redis.get (redis : Redis) (now : ℚ) (name : String) : Option String :=
  match redis name with
  | some entry => if now < entry.expiresAt then some entry.value else none
  | none => none

/-- `SET name value EX seconds`; the server rejects a time to live that is not positive. -/
def Redis.set (redis : Redis) (now : ℚ) (name value : String) (seconds : ℤ) :
    Except String Redis :=
  if 0 < seconds then .ok (Function.update redis name (some ⟨value, now + seconds⟩))
  else .error "invalid expire time in 'set' command"

/-- `SET name value NX EX seconds`, with whether the value was set. -/
def Redis.setNx (redis : Redis) (now : ℚ) (name value : String) (seconds : ℤ) :
    Except String (Redis × Bool) :=
  match redis.set now name value seconds with
  | .error reason => .error reason
  | .ok redis' => if redis.get now name = none then .ok (redis', true) else .ok (redis, false)

/-- Python's `int` on a number of seconds: truncation toward zero. -/
def pyInt (seconds : ℚ) : ℤ := if 0 ≤ seconds then ⌊seconds⌋ else ⌈seconds⌉

/-- `DedupBackendUnavailableError`: the backend cannot answer authoritatively. -/
structure DedupBackendUnavailableError where
  /-- The source of the key that was asked about. -/
  source : String
  /-- The text of the underlying failure. -/
  reason : String
  deriving DecidableEq

/-- What the environment decides about one Redis command. -/
structure RedisInput where
  /-- The server's clock. -/
  now : ℚ
  /-- The text of the client's exception, when the command does not get through. -/
  outage : Option String := none
  deriving DecidableEq

/-- `RedisExactlyOnceBackend`. -/
structure RedisExactlyOnceBackend where
  /-- The `key_prefix` argument. -/
  keyPrefix : String := "ledgerlens:dedup:"

namespace RedisExactlyOnceBackend

/-- `_redis_key`. -/
def redisKey (backend : RedisExactlyOnceBackend) (key : DedupKey) : String :=
  backend.keyPrefix ++ key.canonical

/-- The first command of `check_and_stage`: claim the key unless it is taken. -/
def claim (backend : RedisExactlyOnceBackend) (key : DedupKey) (ttlSeconds : ℚ)
    (input : RedisInput) (redis : Redis) : Except DedupBackendUnavailableError (Redis × Bool) :=
  match input.outage with
  | some reason => .error ⟨key.source, reason⟩
  | none =>
    match redis.setNx input.now (backend.redisKey key) DedupState.staged.value
        (pyInt ttlSeconds) with
    | .error reason => .error ⟨key.source, reason⟩
    | .ok claimed => .ok claimed

/-- The second command of `check_and_stage`, after a claim that failed: COMMITTED if
that is what the key holds, else STAGED, also when the key has expired meanwhile. -/
def existing (backend : RedisExactlyOnceBackend) (key : DedupKey) (input : RedisInput)
    (redis : Redis) : Except DedupBackendUnavailableError DedupState :=
  match input.outage with
  | some reason => .error ⟨key.source, reason⟩
  | none =>
    if redis.get input.now (backend.redisKey key) = some DedupState.committed.value then
      .ok .committed
    else .ok .staged

/-- `check_and_stage` without anyone in between: each command has its own input. -/
def checkAndStage (backend : RedisExactlyOnceBackend) (key : DedupKey) (ttlSeconds : ℚ)
    (first second : RedisInput) (redis : Redis) :
    Redis × Except DedupBackendUnavailableError DedupState :=
  match backend.claim key ttlSeconds first redis with
  | .error e => (redis, .error e)
  | .ok (redis', true) => (redis', .ok .new)
  | .ok (redis', false) => (redis', backend.existing key second redis')

/-- `commit`; nothing passes it a time to live, so it is a day. -/
def commit (backend : RedisExactlyOnceBackend) (key : DedupKey) (input : RedisInput)
    (redis : Redis) (ttlSeconds : ℚ := 86400) : Except DedupBackendUnavailableError Redis :=
  match input.outage with
  | some reason => .error ⟨key.source, reason⟩
  | none =>
    match redis.set input.now (backend.redisKey key) DedupState.committed.value
        (pyInt ttlSeconds) with
    | .error reason => .error ⟨key.source, reason⟩
    | .ok redis' => .ok redis'

end RedisExactlyOnceBackend

variable {redis redis' : Redis} {now : ℚ} {name value : String} {seconds : ℤ}

/-- An entry that is live is what `GET` returns. -/
theorem Redis.get_of_live {entry : RedisEntry} (h : redis name = some entry)
    (hlive : now < entry.expiresAt) : redis.get now name = some entry.value := by
  simp [Redis.get, h, hlive]

theorem Redis.get_of_absent (h : redis name = none) : redis.get now name = none := by
  simp [Redis.get, h]

/-- `SET` with a positive time to live stores the value. -/
theorem Redis.set_of_pos (h : 0 < seconds) :
    redis.set now name value seconds =
      .ok (Function.update redis name (some ⟨value, now + seconds⟩)) := by
  simp [Redis.set, h]

/-- `SET NX` sets a key without a live entry. -/
theorem Redis.setNx_of_absent (h : 0 < seconds) (hget : redis.get now name = none) :
    redis.setNx now name value seconds =
      .ok (Function.update redis name (some ⟨value, now + seconds⟩), true) := by
  simp [Redis.setNx, Redis.set_of_pos h, hget]

/-- `SET NX` leaves a live entry alone. -/
theorem Redis.setNx_of_present (h : 0 < seconds) (hget : redis.get now name ≠ none) :
    redis.setNx now name value seconds = .ok (redis, false) := by
  simp [Redis.setNx, Redis.set_of_pos h, hget]

/-- `SET` fails on a time to live that is not positive. -/
theorem Redis.setNx_of_nonpos (h : ¬0 < seconds) :
    redis.setNx now name value seconds = .error "invalid expire time in 'set' command" := by
  simp [Redis.setNx, Redis.set, h]

theorem pyInt_day : pyInt 86400 = 86400 := by
  unfold pyInt
  rw [if_pos (by norm_num)]
  exact Int.floor_natCast 86400

/-- The commit command stores the committed marker for a day. -/
theorem RedisExactlyOnceBackend.commit_of_reachable {backend : RedisExactlyOnceBackend}
    {key : DedupKey} {input : RedisInput} (h : input.outage = none) :
    backend.commit key input redis = .ok (Function.update redis (backend.redisKey key)
      (some ⟨DedupState.committed.value, input.now + 86400⟩)) := by
  simp [RedisExactlyOnceBackend.commit, h, pyInt_day, Redis.set_of_pos]

end LedgerLens.ExactlyOnce
