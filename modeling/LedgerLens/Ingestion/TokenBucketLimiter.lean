import LedgerLens.Library.Runs
import LedgerLens.Library.TokenBucket
import Mathlib.Algebra.Order.Field.Rat
import Mathlib.Data.List.Sort
import Mathlib.Tactic.Ring

/-!
# The rate limiter of Horizon calls

All workers share a token bucket in a Redis hash, which each of them fills up by its own clock and
which expires a minute after the last write. This file shows for which clocks and rates the workers
together stay within the budget.

`AdaptiveRateLimiter` instead paces the calls to each source by what the answers of the source say.

Times and tokens are rational numbers. A transaction takes place at one moment: an attempt that
another worker's write makes void changes nothing and is made again.
-/

namespace LedgerLens.Ingestion

/-- The Redis hash of the bucket. -/
structure BucketHash where
  /-- `tokens`. -/
  tokens : ℚ
  /-- `updated_at`, by the clock of the worker that wrote it. -/
  updatedAt : ℚ
  /-- When the key expires. -/
  expiresAt : ℚ

/-- `TokenBucketLimiter`. -/
structure TokenBucketLimiter where
  /-- `_capacity`. -/
  capacity : ℚ
  /-- `_refill_rate`. -/
  refillRate : ℚ

/-- The lifetime of the key after a write. -/
def keyTtl : ℚ := 60

namespace TokenBucketLimiter

variable (limiter : TokenBucketLimiter)

/-- `current_tokens` after the refill, at a time and by a clock that is off by an offset. -/
def currentTokens (offset time : ℚ) (stored : Option BucketHash) : ℚ :=
  let raw := stored.filter fun hash => time < hash.expiresAt
  let now := time + offset
  let currentTokens := (raw.map BucketHash.tokens).getD limiter.capacity
  let updatedAt := (raw.map BucketHash.updatedAt).getD now
  let elapsed := max 0 (now - updatedAt)
  min limiter.capacity (currentTokens + elapsed * limiter.refillRate)

/-- The transaction of `try_acquire`: whether the tokens are granted, and the hash that is
written. -/
def transact (offset time tokens : ℚ) (stored : Option BucketHash) : Bool × BucketHash :=
  let currentTokens := limiter.currentTokens offset time stored
  let granted : Bool := tokens ≤ currentTokens
  let currentTokens := if granted then currentTokens - tokens else currentTokens
  (granted, ⟨currentTokens, time + offset, time + keyTtl⟩)

/-- `try_acquire`, for a worker that has a client or not, and Redis that answers or not: whether the
tokens are granted, whether the worker keeps its client, and what is stored. -/
def tryAcquire (client answers : Bool) (offset time tokens : ℚ) (stored : Option BucketHash) :
    Bool × Bool × Option BucketHash :=
  if !client then (true, false, stored)
  else if !answers then (true, false, stored)
  else
    let result := limiter.transact offset time tokens stored
    (result.1, true, some result.2)

end TokenBucketLimiter

/-- A call of `try_acquire` that reaches Redis. -/
structure AcquireCall (Worker : Type) where
  /-- Who calls. -/
  worker : Worker
  /-- The true time. -/
  time : ℚ
  /-- `tokens`. -/
  tokens : ℚ := 1

namespace TokenBucketLimiter

variable {Worker : Type} (limiter : TokenBucketLimiter) (offset : Worker → ℚ)

/-- The calls of all workers while Redis answers, in the order of their transactions: the tokens
that are granted, with the times. -/
def grants : Option BucketHash → List (AcquireCall Worker) → List (ℚ × ℚ)
  | _, [] => []
  | stored, call :: rest =>
    let (granted, _, stored) :=
      limiter.tryAcquire true true (offset call.worker) call.time call.tokens stored
    (call.time, if granted then call.tokens else 0) :: grants stored rest

/-- The tokens that are granted in an interval. -/
def grantedIn (calls : List (AcquireCall Worker)) (t₁ t₂ : ℚ) : ℚ :=
  TokenBucket.total t₁ t₂ (limiter.grants offset none calls)

/-- In every interval of every run no more is granted than the capacity and what is filled in. -/
def WithinBudget : Prop :=
  ∀ calls : List (AcquireCall Worker), calls.Pairwise (fun call later => call.time ≤ later.time) →
    ∀ t₁ t₂, t₁ ≤ t₂ →
      limiter.grantedIn offset calls t₁ t₂ ≤ limiter.capacity + limiter.refillRate * (t₂ - t₁)

section Transact

variable {limiter} {offset time tokens : ℚ} {stored : Option BucketHash}

variable (limiter offset time tokens stored) in
/-- What is granted and what is left are together what there was. -/
theorem transact_tokens : (limiter.transact offset time tokens stored).2.tokens +
      (if (limiter.transact offset time tokens stored).1 then tokens else 0) =
    limiter.currentTokens offset time stored := by
  unfold transact
  dsimp only
  split_ifs
  · rw [sub_add_cancel]
  · rw [add_zero]

variable (tokens) in
theorem transact_nonneg (h : 0 ≤ limiter.currentTokens offset time stored) :
    0 ≤ (limiter.transact offset time tokens stored).2.tokens := by
  unfold transact
  dsimp only
  split_ifs with hgranted
  · exact sub_nonneg.mpr (of_decide_eq_true hgranted)
  · exact h

/-- A call that asks for what is there is granted it. -/
theorem transact_current (h : limiter.currentTokens offset time stored = tokens) :
    limiter.transact offset time tokens stored = (true, ⟨0, time + offset, time + keyTtl⟩) := by
  unfold transact
  simp [h]

theorem currentTokens_le : limiter.currentTokens offset time stored ≤ limiter.capacity :=
  min_le_left _ _

/-- Without a hash the bucket is full. -/
theorem currentTokens_none : limiter.currentTokens offset time none = limiter.capacity := by
  simp [currentTokens]

/-- A hash that has expired is none. -/
theorem currentTokens_expired {hash : BucketHash} (h : hash.expiresAt ≤ time) :
    limiter.currentTokens offset time (some hash) = limiter.capacity := by
  simp [currentTokens, Option.filter_some, h.not_gt]

/-- A hash that has not expired is filled up. -/
theorem currentTokens_live {hash : BucketHash} (h : time < hash.expiresAt) :
    limiter.currentTokens offset time (some hash) = min limiter.capacity
      (hash.tokens + max 0 (time + offset - hash.updatedAt) * limiter.refillRate) := by
  simp [currentTokens, Option.filter_some, h]

end Transact

section Common

variable {limiter offset} {d level time : ℚ}

/-- By the clock that wrote it, a hash is filled up by what came in since, also if it has expired
in the meantime: then it was full. -/
theorem currentTokens_common (hfull : limiter.capacity ≤ keyTtl * limiter.refillRate)
    (hrate : 0 < limiter.refillRate) (hcapacity : 0 ≤ limiter.capacity) (hlevel : 0 ≤ level)
    {time' : ℚ} (htime : time ≤ time') :
    let current := limiter.currentTokens d time' (some ⟨level, time + d, time + keyTtl⟩)
    0 ≤ current ∧ current ≤ level + limiter.refillRate * (time' - time) := by
  have hfilled := mul_nonneg hrate.le (sub_nonneg.mpr htime)
  rcases le_or_gt (time + keyTtl) time' with hexpired | hlive
  · intro current
    have hcurrent : current = limiter.capacity := currentTokens_expired hexpired
    have hwait := mul_le_mul_of_nonneg_left (le_sub_iff_add_le'.mpr hexpired) hrate.le
    rw [hcurrent]
    exact ⟨hcapacity, by linarith⟩
  · intro current
    have helapsed : max 0 (time' + d - (time + d)) = time' - time := by
      rw [add_sub_add_right_eq_sub, max_eq_right (sub_nonneg.mpr htime)]
    have hcurrent : current = min limiter.capacity
        (level + (time' - time) * limiter.refillRate) := by
      rw [← helapsed]
      exact currentTokens_live hlive
    rw [hcurrent, mul_comm]
    exact ⟨le_min hcapacity (add_nonneg hlevel hfilled), min_le_right _ _⟩

/-- Under a common clock, and if a bucket is full again before its key expires, the workers take
tokens out of one bucket. -/
theorem spends_grants {calls : List (AcquireCall Worker)} (hoffset : ∀ worker, offset worker = d)
    (hfull : limiter.capacity ≤ keyTtl * limiter.refillRate) (hrate : 0 < limiter.refillRate)
    (hcapacity : 0 ≤ limiter.capacity) (hlevel : 0 ≤ level)
    (hlater : ∀ call ∈ calls, time ≤ call.time)
    (hsorted : calls.Pairwise fun call later => call.time ≤ later.time) :
    TokenBucket.Spends limiter.capacity limiter.refillRate level time
      (limiter.grants offset (some ⟨level, time + d, time + keyTtl⟩) calls) := by
  induction calls generalizing level time with
  | nil => exact .nil hlevel
  | cons call rest ih =>
    obtain ⟨hrest, hsorted⟩ := List.pairwise_cons.mp hsorted
    obtain ⟨hnonneg, hle⟩ := currentTokens_common (d := d) hfull hrate hcapacity hlevel
      (hlater call List.mem_cons_self)
    have htokens := transact_tokens limiter d call.time call.tokens
      (some ⟨level, time + d, time + keyTtl⟩)
    have hleft := transact_nonneg call.tokens hnonneg
    rw [← htokens] at hle
    unfold grants tryAcquire
    rw [hoffset]
    exact .cons (hlater call List.mem_cons_self) hlevel hleft (htokens.trans_le currentTokens_le)
      hle (ih hleft hrest hsorted)

/-- The first call finds a full bucket. -/
theorem grantedIn_le {calls : List (AcquireCall Worker)} (hoffset : ∀ worker, offset worker = d)
    (hfull : limiter.capacity ≤ keyTtl * limiter.refillRate) (hrate : 0 < limiter.refillRate)
    (hcapacity : 0 ≤ limiter.capacity)
    (hsorted : calls.Pairwise fun call later => call.time ≤ later.time) {t₁ t₂ : ℚ}
    (ht : t₁ ≤ t₂) : limiter.grantedIn offset calls t₁ t₂ ≤
      limiter.capacity + limiter.refillRate * (t₂ - t₁) := by
  cases calls with
  | nil =>
    have hfilled := mul_nonneg hrate.le (sub_nonneg.mpr ht)
    exact add_nonneg hcapacity hfilled
  | cons call rest =>
    obtain ⟨hrest, hsorted⟩ := List.pairwise_cons.mp hsorted
    have hcurrent : limiter.currentTokens d call.time none = limiter.capacity := currentTokens_none
    have htokens := transact_tokens limiter d call.time call.tokens none
    have hleft := transact_nonneg call.tokens (hcapacity.trans_eq hcurrent.symm)
    rw [hcurrent] at htokens
    have hspends : TokenBucket.Spends limiter.capacity limiter.refillRate limiter.capacity
        call.time (limiter.grants offset none (call :: rest)) := by
      unfold grants tryAcquire
      rw [hoffset]
      refine .cons le_rfl hcapacity hleft htokens.le ?_
        (spends_grants hoffset hfull hrate hcapacity hleft hrest hsorted)
      rw [sub_self, mul_zero, add_zero]
      exact htokens.le
    exact hspends.total_le hcapacity hrate.le ht

/-- Nothing is granted beyond the capacity. -/
theorem le_capacity_of_mem_grants {calls : List (AcquireCall Worker)} {stored : Option BucketHash}
    (hcapacity : 0 ≤ limiter.capacity) {x : ℚ × ℚ} (h : x ∈ limiter.grants offset stored calls) :
    x.2 ≤ limiter.capacity := by
  induction calls generalizing stored with
  | nil => cases h
  | cons call rest ih =>
    rcases List.mem_cons.mp h with rfl | hrest
    · change (if (limiter.transact _ _ _ _).1 then call.tokens else 0) ≤ limiter.capacity
      split_ifs with hgranted
      · exact (of_decide_eq_true hgranted).trans currentTokens_le
      · exact hcapacity
    · exact ih hrest

/-- A worker takes all tokens of a new bucket, and then one takes what there is. -/
theorem grantedIn_pair {a b : Worker} {t tokens : ℚ} (ht : 0 ≤ t)
    (h : limiter.currentTokens (offset b) t (some ⟨0, offset a, keyTtl⟩) = tokens) :
    limiter.grantedIn offset [⟨a, 0, limiter.capacity⟩, ⟨b, t, tokens⟩] 0 t =
      limiter.capacity + tokens := by
  have hfirst : limiter.transact (offset a) 0 limiter.capacity none =
      (true, ⟨0, offset a, keyTtl⟩) := by
    rw [transact_current currentTokens_none, zero_add, zero_add]
  have hsecond := transact_current h
  unfold grantedIn grants tryAcquire
  simp [hfirst, grants, tryAcquire, hsecond, ht]

/-- Within the budget, what is left to take is not more than what came in. -/
theorem WithinBudget.currentTokens_le (h : limiter.WithinBudget offset) (a b : Worker) {t : ℚ}
    (ht : 0 ≤ t) : limiter.currentTokens (offset b) t (some ⟨0, offset a, keyTtl⟩) ≤
      limiter.refillRate * t := by
  have hle := h [⟨a, 0, limiter.capacity⟩,
    ⟨b, t, limiter.currentTokens (offset b) t (some ⟨0, offset a, keyTtl⟩)⟩] (by simp [ht]) 0 t ht
  rw [grantedIn_pair ht rfl, sub_zero] at hle
  exact le_of_add_le_add_left hle

/-- Clocks agree if the workers stay within the budget: a worker whose clock is ahead finds tokens
where another one has just taken all. -/
theorem WithinBudget.offset_le (h : limiter.WithinBudget offset) (hrate : 0 < limiter.refillRate)
    (hcapacity : 0 < limiter.capacity) (a b : Worker) : offset b ≤ offset a := by
  by_contra hlt
  have hahead : 0 < offset b - offset a := sub_pos.mpr (not_le.mp hlt)
  have hle := h.currentTokens_le a b le_rfl
  rw [currentTokens_live (by norm_num [keyTtl]), zero_add, zero_add, max_eq_right hahead.le,
    mul_zero] at hle
  exact hle.not_gt (lt_min hcapacity (mul_pos hahead hrate))

/-- An empty bucket is full again before its key expires if a worker stays within the budget. -/
theorem WithinBudget.capacity_le (h : limiter.WithinBudget offset) (a : Worker) :
    limiter.capacity ≤ keyTtl * limiter.refillRate := by
  have hle := h.currentTokens_le a a (show 0 ≤ keyTtl by norm_num [keyTtl])
  have hexpired : limiter.currentTokens (offset a) keyTtl (some ⟨0, offset a, keyTtl⟩) =
      limiter.capacity := currentTokens_expired le_rfl
  rwa [hexpired, mul_comm] at hle

end Common

/-- The workers together stay within the budget exactly if their clocks agree and an empty bucket
is full again before its key expires, or if there is nothing to take. -/
theorem withinBudget_iff [Nonempty Worker] (limiter : TokenBucketLimiter) (offset : Worker → ℚ)
    (hrate : 0 < limiter.refillRate) :
    limiter.WithinBudget offset ↔ 0 ≤ limiter.capacity ∧ (limiter.capacity = 0 ∨
      (∀ a b, offset a = offset b) ∧ limiter.capacity ≤ keyTtl * limiter.refillRate) := by
  constructor
  · intro h
    have hnonneg : 0 ≤ limiter.capacity := by
      simpa [grantedIn, grants] using h [] List.Pairwise.nil 0 0 le_rfl
    refine ⟨hnonneg, hnonneg.eq_or_lt.imp Eq.symm fun hpos => ⟨fun a b => ?_, ?_⟩⟩
    · exact le_antisymm (h.offset_le hrate hpos b a) (h.offset_le hrate hpos a b)
    · exact h.capacity_le (Classical.arbitrary Worker)
  · rintro ⟨hnonneg, hzero | ⟨hoffset, hfull⟩⟩ calls hsorted t₁ t₂ ht
    · have hfilled := mul_nonneg hrate.le (sub_nonneg.mpr ht)
      have htotal : limiter.grantedIn offset calls t₁ t₂ ≤ 0 :=
        TokenBucket.total_nonpos fun x hx =>
          (le_capacity_of_mem_grants hnonneg hx).trans_eq hzero
      linarith
    · exact grantedIn_le (fun worker => hoffset worker (Classical.arbitrary Worker)) hfull hrate
        hnonneg hsorted ht

/-- Workers with one clock and the default rates. -/
theorem withinBudget_default :
    (⟨80, 80⟩ : TokenBucketLimiter).WithinBudget fun _ : Bool => 0 :=
  (withinBudget_iff ⟨80, 80⟩ (fun _ : Bool => 0) (by norm_num)).mpr
    ⟨by norm_num, .inr ⟨fun _ _ => rfl, by norm_num [keyTtl]⟩⟩

/-- Two workers whose clocks differ by a second get 160 tokens at once. -/
theorem grantedIn_ahead :
    (⟨80, 80⟩ : TokenBucketLimiter).grantedIn (fun worker : Bool => if worker then 1 else 0)
        [⟨false, 0, 80⟩, ⟨true, 0, 80⟩] 0 0 = 160 ∧
      ¬∀ (limiter : TokenBucketLimiter) (offset : Bool → ℚ), 0 < limiter.capacity →
        0 < limiter.refillRate → limiter.WithinBudget offset := by
  have hgranted : (⟨80, 80⟩ : TokenBucketLimiter).grantedIn
      (fun worker : Bool => if worker then 1 else 0)
      [⟨false, 0, 80⟩, ⟨true, 0, 80⟩] 0 0 = 160 := by
    decide +kernel
  refine ⟨hgranted, fun hall => ?_⟩
  have hle := hall ⟨80, 80⟩ (fun worker => if worker then 1 else 0) (by norm_num) (by norm_num)
    [⟨false, 0, 80⟩, ⟨true, 0, 80⟩] (by simp) 0 0 le_rfl
  rw [hgranted] at hle
  norm_num at hle

end TokenBucketLimiter

/-- `AdaptiveRateLimiter`. -/
structure AdaptiveRateLimiter (Source : Type) where
  /-- `_ceilings`. -/
  ceilings : Source → Option ℚ
  /-- `_default`. -/
  default : ℚ
  /-- `_epoch_threshold`. -/
  epochThreshold : ℚ

/-- What an `AdaptiveRateLimiter` keeps of the sources. -/
structure AdaptiveState (Source : Type) where
  /-- `_rates`. -/
  rates : Source → Option ℚ
  /-- `_next_allowed`. -/
  nextAllowed : Source → Option ℚ

/-- `_header_float`, for texts that `parse` reads as finite numbers. The last of the headers of one
name counts, and the first name that there is. -/
def headerFloat {Text : Type} (parse : Text → Option ℚ) (headers : List (String × Text)) :
    List String → Option ℚ
  | [] => none
  | name :: names =>
    match headers.reverse.find? fun header => header.1.toLower = name with
    | some header => parse header.2
    | none => headerFloat parse headers names

/-- `_REMAINING_HEADERS`. -/
def remainingHeaders : List String := ["x-ratelimit-remaining", "ratelimit-remaining"]

/-- `_RESET_HEADERS`. -/
def resetHeaders : List String := ["x-ratelimit-reset", "ratelimit-reset"]

/-- What a step of the limiter is: an answer of a source, or a call of it, which begins at one
reading of the clock and is sent at another. -/
inductive PacingEvent (Source Text : Type) where
  | response (source : Source) (status : ℕ) (headers : List (String × Text)) (now : ℚ)
  | acquire (source : Source) (start now : ℚ)

namespace AdaptiveRateLimiter

open Transition

variable {Source Text : Type} [DecidableEq Source] (limiter : AdaptiveRateLimiter Source)
  (parse : Text → Option ℚ)

/-- `__init__`. -/
def init : AdaptiveState Source := ⟨fun _ => none, fun _ => none⟩

/-- `ceiling`. -/
def ceiling (source : Source) : ℚ := (limiter.ceilings source).getD limiter.default

/-- `effective_rate`. -/
def effectiveRate (s : AdaptiveState Source) (source : Source) : ℚ :=
  (s.rates source).getD (limiter.ceiling source)

/-- `_next_allowed.get(source, 0.0)`. -/
def next (s : AdaptiveState Source) (source : Source) : ℚ := (s.nextAllowed source).getD 0

/-- `_next_allowed[source] = max(_next_allowed.get(source, 0.0), deadline)`. -/
def pause (s : AdaptiveState Source) (source : Source) (deadline : ℚ) : AdaptiveState Source :=
  { s with nextAllowed :=
      Function.update s.nextAllowed source (some (max (next s source) deadline)) }

/-- `window` in `update_from_response`. -/
def window (headers : List (String × Text)) (now : ℚ) : ℚ :=
  match headerFloat parse headers resetHeaders with
  | none => 1
  | some reset => max (if limiter.epochThreshold < reset then reset - now else reset) (1 / 1000)

/-- What `Retry-After` does in `update_from_response`. -/
def retryLater (s : AdaptiveState Source) (source : Source) (status : ℕ)
    (headers : List (String × Text)) (now : ℚ) : AdaptiveState Source :=
  match headerFloat parse headers ["retry-after"] with
  | some retryAfter => if status = 429 ∨ status = 503 then pause s source (now + retryAfter) else s
  | none => s

/-- `update_from_response`: the state after it and the rate that it returns. -/
def updateFromResponse (s : AdaptiveState Source) (source : Source) (status : ℕ)
    (headers : List (String × Text)) (now : ℚ) : AdaptiveState Source × ℚ :=
  let s := retryLater parse s source status headers now
  match headerFloat parse headers remainingHeaders with
  | none => (s, limiter.effectiveRate s source)
  | some remaining =>
    let window := limiter.window parse headers now
    let (s, rate) :=
      if remaining ≤ 0 then (pause s source (now + window), limiter.ceiling source)
      else (s, min (remaining / window) (limiter.ceiling source))
    ({ s with rates := Function.update s.rates source (some rate) }, rate)

/-- `delay_for`. -/
def delayFor (s : AdaptiveState Source) (source : Source) (now : ℚ) : ℚ :=
  max 0 (next s source - now)

/-- `acquire`, after it has slept. -/
def acquire (s : AdaptiveState Source) (source : Source) (now : ℚ) : AdaptiveState Source :=
  { s with
    nextAllowed := Function.update s.nextAllowed source
      (some (max now (next s source) + 1 / limiter.effectiveRate s source)) }

/-- A step. -/
def step (s : AdaptiveState Source) : PacingEvent Source Text → AdaptiveState Source
  | .response source status headers now =>
    (limiter.updateFromResponse parse s source status headers now).1
  | .acquire source _ now => limiter.acquire s source now

/-- `acquire` sleeps at least as long as it wants to. -/
def Sleeps (s : AdaptiveState Source) : PacingEvent Source Text → Prop
  | .response _ _ _ _ => True
  | .acquire source start now => start + delayFor s source start ≤ now

/-- The steps until now, each of them after the other. -/
def Paces (es : List (PacingEvent Source Text)) : Prop :=
  Meets (limiter.step parse) Sleeps init es

/-- When a call to the source is sent, with its number, which is one. -/
def sends (source : Source) (es : List (PacingEvent Source Text)) : List (ℚ × ℚ) :=
  es.filterMap fun
    | .acquire source' _ now => if source' = source then some (now, 1) else none
    | .response _ _ _ _ => none

/-- Until when an answer of the source forbids calls. -/
def pausedUntil (source : Source) : PacingEvent Source Text → List ℚ
  | .acquire _ _ _ => []
  | .response source' status headers now =>
    if source' = source then
      (((headerFloat parse headers ["retry-after"]).filter
          fun _ => status = 429 ∨ status = 503).map (now + ·)).toList ++
        (((headerFloat parse headers remainingHeaders).filter (· ≤ 0)).map
          fun _ => now + limiter.window parse headers now).toList
    else []

section Pacing

variable {limiter} {parse} {s : AdaptiveState Source} {source : Source}

@[simp] theorem next_pause_self (deadline : ℚ) :
    next (pause s source deadline) source = max (next s source) deadline := by
  simp [next, pause]

theorem next_pause_of_ne {source' : Source} (hne : source ≠ source') (deadline : ℚ) :
    next (pause s source' deadline) source = next s source := by
  simp [next, pause, Function.update_of_ne hne]

@[simp] theorem effectiveRate_pause (source' : Source) (deadline : ℚ) :
    limiter.effectiveRate (pause s source' deadline) source = limiter.effectiveRate s source := rfl

omit [DecidableEq Source] in
theorem window_pos (headers : List (String × Text)) (now : ℚ) :
    0 < limiter.window parse headers now := by
  unfold window
  split
  · norm_num
  · exact lt_max_of_lt_right (by norm_num)

/-- The rate of a source is never above its ceiling, and it is never zero. -/
def RateWithin (limiter : AdaptiveRateLimiter Source) (source : Source) (s : AdaptiveState Source) :
    Prop :=
  0 < limiter.effectiveRate s source ∧ limiter.effectiveRate s source ≤ limiter.ceiling source

omit [DecidableEq Source] in
theorem RateWithin.init (hceiling : 0 < limiter.ceiling source) : limiter.RateWithin source init :=
  ⟨hceiling, le_rfl⟩

theorem next_le_pause (source' : Source) (deadline : ℚ) :
    next s source ≤ next (pause s source' deadline) source := by
  by_cases hsame : source = source'
  · subst hsame
    rw [next_pause_self]
    exact le_max_left _ _
  · exact (next_pause_of_ne hsame deadline).ge

theorem effectiveRate_retryLater (source' : Source) (status : ℕ) (headers : List (String × Text))
    (now : ℚ) : limiter.effectiveRate (retryLater parse s source' status headers now) source =
      limiter.effectiveRate s source := by
  unfold retryLater
  split
  · split_ifs <;> rfl
  · rfl

theorem next_le_retryLater (source' : Source) (status : ℕ) (headers : List (String × Text))
    (now : ℚ) : next s source ≤ next (retryLater parse s source' status headers now) source := by
  unfold retryLater
  split
  · split_ifs
    · exact next_le_pause source' _
    · exact le_rfl
  · exact le_rfl

/-- After a `Retry-After` no call is allowed before it is over. -/
theorem le_next_retryLater {status : ℕ} {headers : List (String × Text)} {now retryAfter : ℚ}
    (hretry : headerFloat parse headers ["retry-after"] = some retryAfter)
    (hstatus : status = 429 ∨ status = 503) :
    now + retryAfter ≤ next (retryLater parse s source status headers now) source := by
  simp only [retryLater, hretry, if_pos hstatus, next_pause_self]
  exact le_max_right _ _

/-- What forbids calls: a `Retry-After`, or that no calls remain. -/
theorem forbids_of_mem (s : AdaptiveState Source) {source' : Source} {status : ℕ}
    {headers : List (String × Text)} {now deadline : ℚ}
    (hdeadline : deadline ∈
      limiter.pausedUntil parse source (.response source' status headers now)) :
    source' = source ∧ (deadline ≤ next (retryLater parse s source' status headers now) source ∨
      ∃ remaining, headerFloat parse headers remainingHeaders = some remaining ∧ remaining ≤ 0 ∧
        deadline = now + limiter.window parse headers now) := by
  simp only [pausedUntil] at hdeadline
  split_ifs at hdeadline with hsame
  · subst hsame
    refine ⟨rfl, ?_⟩
    simp only [List.mem_append, Option.mem_toList, Option.map_eq_some_iff,
      Option.filter_eq_some_iff, decide_eq_true_eq] at hdeadline
    rcases hdeadline with ⟨retryAfter, ⟨hretry, hstatus⟩, rfl⟩ | ⟨remaining, ⟨hsome, hnone⟩, rfl⟩
    · exact Or.inl (le_next_retryLater hretry hstatus)
    · exact Or.inr ⟨remaining, hsome, hnone, rfl⟩
  · cases hdeadline

/-- What an answer of a source does: it keeps the rate within the ceiling, it can only put off the
next call, and it puts it off past what it forbids. -/
theorem response_spec (hrate : limiter.RateWithin source s) (source' : Source) (status : ℕ)
    (headers : List (String × Text)) (now : ℚ) :
    limiter.RateWithin source (limiter.updateFromResponse parse s source' status headers now).1 ∧
      next s source ≤
        next (limiter.updateFromResponse parse s source' status headers now).1 source ∧
      ∀ deadline ∈ limiter.pausedUntil parse source (.response source' status headers now),
        deadline ≤
          next (limiter.updateFromResponse parse s source' status headers now).1 source := by
  have hceiling : 0 < limiter.ceiling source := hrate.1.trans_le hrate.2
  have hkept : limiter.RateWithin source (retryLater parse s source' status headers now) := by
    unfold RateWithin
    rw [effectiveRate_retryLater]
    exact hrate
  have hlater : next s source ≤ next (retryLater parse s source' status headers now) source :=
    next_le_retryLater source' status headers now
  have hforbids (deadline : ℚ)
      (hdeadline : deadline ∈
        limiter.pausedUntil parse source (.response source' status headers now)) :=
    forbids_of_mem s hdeadline
  generalize hs' : retryLater parse s source' status headers now = s' at hkept hlater hforbids
  unfold updateFromResponse
  rw [hs']
  cases hremaining : headerFloat parse headers remainingHeaders with
  | none =>
    refine ⟨hkept, hlater, fun deadline hdeadline => ?_⟩
    obtain ⟨-, h | ⟨remaining, hsome, -⟩⟩ := hforbids deadline hdeadline
    · exact h
    · rw [hremaining] at hsome
      cases hsome
  | some remaining =>
    dsimp only
    split_ifs with hnone
    · refine ⟨?_, hlater.trans (next_le_pause source' _), fun deadline hdeadline => ?_⟩
      · by_cases hsame : source = source'
        · subst hsame
          simp [RateWithin, effectiveRate, hceiling]
        · simpa [RateWithin, effectiveRate, pause, Function.update_of_ne hsame] using hkept
      · obtain ⟨rfl, h⟩ := hforbids deadline hdeadline
        change deadline ≤ next (pause s' source' _) source'
        rw [next_pause_self]
        rcases h with h | ⟨-, -, -, rfl⟩
        · exact h.trans (le_max_left _ _)
        · exact le_max_right _ _
    · refine ⟨?_, hlater, fun deadline hdeadline => ?_⟩
      · by_cases hsame : source = source'
        · subst hsame
          simp only [RateWithin, effectiveRate, Function.update_self, Option.getD_some]
          exact ⟨lt_min (div_pos (not_le.mp hnone) (window_pos headers now)) hceiling,
            min_le_right _ _⟩
        · simpa [RateWithin, effectiveRate, Function.update_of_ne hsame] using hkept
      · obtain ⟨-, h | ⟨remaining', hsome, hle, -⟩⟩ := hforbids deadline hdeadline
        · exact h
        · rw [hremaining] at hsome
          cases hsome
          exact absurd hle hnone

/-- A call is sent when it is allowed, and the next one a while after it. -/
theorem acquire_spec (hrate : limiter.RateWithin source s) {start now : ℚ}
    (hsleeps : start + delayFor s source start ≤ now) :
    next s source ≤ now ∧
      now + 1 / limiter.ceiling source ≤ next (limiter.acquire s source now) source := by
  have hallowed : next s source ≤ now := by
    have := le_max_right 0 (next s source - start)
    unfold delayFor at hsleeps
    linarith
  have hpace : 1 / limiter.ceiling source ≤ 1 / limiter.effectiveRate s source :=
    one_div_le_one_div_of_le hrate.1 hrate.2
  refine ⟨hallowed, ?_⟩
  simp only [next, acquire, Function.update_self, Option.getD_some]
  exact add_le_add (le_max_left _ _) hpace

/-- Every step keeps the rate within the ceiling and can only put off the next call. -/
theorem step_spec (hrate : limiter.RateWithin source s) {e : PacingEvent Source Text}
    (hsleeps : Sleeps s e) :
    limiter.RateWithin source (limiter.step parse s e) ∧
      next s source ≤ next (limiter.step parse s e) source := by
  cases e with
  | response source' status headers now =>
    exact (response_spec hrate source' status headers now).imp_right And.left
  | acquire source' start now =>
    refine ⟨hrate, ?_⟩
    by_cases hsame : source' = source
    · subst hsame
      obtain ⟨hallowed, hlater⟩ := acquire_spec hrate hsleeps
      have := one_div_pos.mpr (hrate.1.trans_le hrate.2)
      change next s source' ≤ next (limiter.acquire s source' now) source'
      linarith
    · simp [step, acquire, next, Function.update_of_ne (Ne.symm hsame)]

/-- What is sent spends the tokens of a bucket of one token that is filled at the ceiling. -/
theorem spends_sends {es : List (PacingEvent Source Text)} (hrate : limiter.RateWithin source s)
    (hpaces : Meets (limiter.step parse) Sleeps s es) {time : ℚ}
    (htime : time + 1 / limiter.ceiling source ≤ next s source) :
    TokenBucket.Spends 1 (limiter.ceiling source) 0 time (sends source es) := by
  induction es generalizing s time with
  | nil => exact .nil le_rfl
  | cons e es ih =>
    have hwithin : limiter.RateWithin source (limiter.step parse s e) :=
      (step_spec hrate hpaces.1).1
    have hnext : next s source ≤ next (limiter.step parse s e) source :=
      (step_spec hrate hpaces.1).2
    have hrest := ih hwithin hpaces.2 (htime.trans hnext)
    cases e with
    | response source' status headers now => exact hrest
    | acquire source' start now =>
      by_cases hsame : source' = source
      · subst hsame
        have hceiling : 0 < limiter.ceiling source' := hrate.1.trans_le hrate.2
        obtain ⟨hallowed, hlater⟩ := acquire_spec hrate hpaces.1
        have hgap : 1 / limiter.ceiling source' ≤ now - time := by linarith
        have hfilled : 1 ≤ limiter.ceiling source' * (now - time) := by
          rwa [div_le_iff₀' hceiling] at hgap
        have hpos := one_div_pos.mpr hceiling
        have hsends : sends source' (PacingEvent.acquire source' start now :: es) =
            (now, 1) :: sends source' es := by simp [sends]
        rw [hsends]
        exact .cons (by linarith) le_rfl le_rfl (by norm_num) (by linarith)
          (ih hwithin hpaces.2 hlater)
      · have hsends : sends source (PacingEvent.acquire source' start now :: es) =
            sends source es := by simp [sends, hsame]
        rw [hsends]
        exact hrest

/-- No call is sent before it is allowed. -/
theorem next_le_of_mem_sends {es : List (PacingEvent Source Text)}
    (hrate : limiter.RateWithin source s) (hpaces : Meets (limiter.step parse) Sleeps s es)
    {x : ℚ × ℚ} (hx : x ∈ sends source es) : next s source ≤ x.1 := by
  induction es generalizing s with
  | nil => cases hx
  | cons e es ih =>
    have hwithin : limiter.RateWithin source (limiter.step parse s e) :=
      (step_spec hrate hpaces.1).1
    have hnext : next s source ≤ next (limiter.step parse s e) source :=
      (step_spec hrate hpaces.1).2
    obtain ⟨e', he', hsent⟩ := List.mem_filterMap.mp hx
    rcases List.mem_cons.mp he' with rfl | hlater
    · cases e' with
      | response source' status headers now => cases hsent
      | acquire source' start now =>
        simp only [Option.ite_none_right_eq_some, Option.some.injEq] at hsent
        obtain ⟨rfl, rfl⟩ := hsent
        exact (acquire_spec hrate hpaces.1).1
    · exact hnext.trans (ih hwithin hpaces.2 (List.mem_filterMap.mpr ⟨e', hlater, hsent⟩))

end Pacing

/-- Two calls a second to the one source that there is, and texts that are the numbers themselves. -/
def twoPerSecond : AdaptiveRateLimiter Unit := ⟨fun _ => none, 2, 1000000000⟩

/-- The second call waits for what the answer to the first one asked for. -/
def throttled : List (PacingEvent Unit ℚ) :=
  [.acquire () 10 10, .response () 429 [("Retry-After", 5)] 11, .acquire () 12 16]

end AdaptiveRateLimiter

end LedgerLens.Ingestion
