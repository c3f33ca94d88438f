import LedgerLens.Library.Runs
import LedgerLens.Library.SuffixSums
import LedgerLens.Library.UniqueTable
import Mathlib.Algebra.Order.Field.Basic
import Mathlib.Algebra.Order.Ring.Rat
import Mathlib.Tactic.Linarith
import Mathlib.Tactic.NormNum

/-!
# The CUSUM detectors

`CUSUMDetector` adds up how far observations lie above and below a mean and raises an alarm when
one of the two sums reaches a threshold. The alarm stays until it is acknowledged. Its state is
kept in Redis, if there is a client, where every operation may fail. `PerPairCUSUMTracker` has a
detector for each trading pair. `CUSUMFeedbackStore` keeps what operators say about the alarms, and
moves the threshold of a detector by it. Numbers are exact.
-/

namespace LedgerLens.Monitoring

/-- The keys of Redis and what is stored under them. -/
abbrev RedisFlags := String → Option String

/-- The configured defaults. -/
structure CusumConfig (K : Type) where
  /-- `CUSUM_TARGET_MEAN`. -/
  targetMean : K
  /-- `CUSUM_ALLOWABLE_SLACK`. -/
  allowableSlack : K
  /-- `CUSUM_DECISION_THRESHOLD`. -/
  decisionThreshold : K

/-- The numbers that a detector is made with. -/
structure CusumArgs (K : Type) where
  /-- `target_mean`. -/
  targetMean : Option K
  /-- `allowable_slack`. -/
  allowableSlack : Option K
  /-- `decision_threshold`. -/
  decisionThreshold : Option K

/-- `CUSUMDetector`. -/
structure CUSUMDetector (K : Type) where
  /-- `metric_name`. -/
  metricName : String
  /-- `mu0`. -/
  mu0 : K
  /-- `k`. -/
  k : K
  /-- `h`. -/
  h : K
  /-- `_s_high`. -/
  sHigh : K
  /-- `_s_low`. -/
  sLow : K
  /-- `_alarm`. -/
  alarm : Bool

/-- The `ValueError` of `CUSUMDetector`. -/
inductive CusumError where
  /-- `allowable_slack (k) must be >= 0`. -/
  | negativeSlack
  /-- `decision_threshold (h) must be > 0`. -/
  | nonpositiveThreshold
  deriving DecidableEq

/-- The key of the alarm of a metric. -/
def alarmKey (metricName : String) : String := "ledgerlens:cusum:" ++ metricName ++ ":alarm"

/-- `_persist_alarm`, where the operation may fail. -/
def persistAlarm (redis : Option RedisFlags) (fails : Bool) (metricName : String) (state : Bool) :
    Option RedisFlags :=
  redis.map fun flags =>
    if fails then flags
    else Function.update flags (alarmKey metricName) (some (if state then "1" else "0"))

/-- The alarm state in Redis, where the operation may fail. -/
def restoredAlarm (redis : Option RedisFlags) (fails : Bool) (metricName : String) : Bool :=
  match redis with
  | none => false
  | some flags => !fails && decide (flags (alarmKey metricName) = some "1")

section

variable {K : Type} [AddCommGroup K] [LinearOrder K]

/-- `CUSUMDetector.__init__`. -/
def CUSUMDetector.new (config : CusumConfig K) (args : CusumArgs K) (metricName : String)
    (redis : Option RedisFlags) (fails : Bool) : Except CusumError (CUSUMDetector K) :=
  let k := args.allowableSlack.getD config.allowableSlack
  let h := args.decisionThreshold.getD config.decisionThreshold
  if k < 0 then .error .negativeSlack
  else if h ≤ 0 then .error .nonpositiveThreshold
  else
    .ok
      { metricName := metricName
        mu0 := args.targetMean.getD config.targetMean
        k := k
        h := h
        sHigh := 0
        sLow := 0
        alarm := restoredAlarm redis fails metricName }

namespace CUSUMDetector

variable (d : CUSUMDetector K)

/-- `_s_high` after an observation. -/
def nextHigh (value : K) : K := max 0 (d.sHigh + value - (d.mu0 + d.k))

/-- `_s_low` after an observation. -/
def nextLow (value : K) : K := max 0 (d.sLow - value + (d.mu0 - d.k))

/-- `update`: the detector, and whether an alarm is triggered, which is then written to Redis. -/
def update (value : K) : CUSUMDetector K × Bool :=
  if d.alarm then (d, false)
  else if d.h ≤ d.nextHigh value ∨ d.h ≤ d.nextLow value then
    ({ d with sHigh := 0, sLow := 0, alarm := true }, true)
  else ({ d with sHigh := d.nextHigh value, sLow := d.nextLow value }, false)

/-- `acknowledge`. -/
def acknowledge : CUSUMDetector K := { d with sHigh := 0, sLow := 0, alarm := false }

end CUSUMDetector

/-- A call of a detector. -/
inductive DetectorCall (K : Type) where
  /-- `update`. -/
  | update (value : K)
  /-- `acknowledge`. -/
  | acknowledge

/-- The detector after a call. -/
def CUSUMDetector.step (d : CUSUMDetector K) : DetectorCall K → CUSUMDetector K
  | .update value => (d.update value).1
  | .acknowledge => d.acknowledge

/-- `direction`. -/
inductive Direction where
  /-- `"high"`. -/
  | high
  /-- `"low"`. -/
  | low
  deriving DecidableEq

/-- `PerPairAlarm`. -/
structure PerPairAlarm (K : Type) where
  /-- `pair`. -/
  pair : String
  /-- `metric`. -/
  metric : String
  /-- `direction`. -/
  direction : Direction
  /-- `magnitude`. -/
  magnitude : K
  /-- `threshold`. -/
  threshold : K

/-- How a tracker is made. -/
structure TrackerConfig (K : Type) where
  /-- The configured defaults of detectors. -/
  defaults : CusumConfig K
  /-- `metric_name`. -/
  metricName : String
  /-- The numbers for all detectors. -/
  args : CusumArgs K

/-- `PerPairCUSUMTracker` with Redis. -/
structure PerPairCUSUMTracker (K : Type) where
  /-- `_detectors`. -/
  detectors : UniqueTable String (CUSUMDetector K)
  /-- `_redis`, if there is a client. -/
  redis : Option RedisFlags

/-- A call of a tracker for a pair, with the operations of Redis that fail in it. -/
inductive TrackerCall (K : Type) where
  /-- `update`. -/
  | update (pair : String) (value : K) (getFails setFails : Bool)
  /-- `acknowledge`. -/
  | acknowledge (pair : String) (setFails : Bool)

/-- The pair of a call. -/
def TrackerCall.pair : TrackerCall K → String
  | .update pair _ _ _ => pair
  | .acknowledge pair _ => pair

namespace PerPairCUSUMTracker

variable (config : TrackerConfig K)

/-- The metric of a pair. -/
def pairMetric (pair : String) : String := config.metricName ++ ":" ++ pair

/-- `_detector_for`, given what `_detectors` has for the pair. -/
def detectorFor (found : Option (CUSUMDetector K)) (redis : Option RedisFlags) (pair : String)
    (getFails : Bool) : Except CusumError (CUSUMDetector K) :=
  match found with
  | some d => .ok d
  | none => CUSUMDetector.new config.defaults config.args (pairMetric config pair) redis getFails

/-- The alarm of a detector for the observation that triggers it. -/
def alarmOf (pair : String) (d : CUSUMDetector K) (value : K) : PerPairAlarm K :=
  { pair := pair
    metric := config.metricName
    direction := if d.nextLow value ≤ d.nextHigh value then .high else .low
    magnitude := if d.nextLow value ≤ d.nextHigh value then d.nextHigh value else d.nextLow value
    threshold := d.h }

/-- What `update` returns. -/
def updateResult (tracker : PerPairCUSUMTracker K) (pair : String) (value : K) (getFails : Bool) :
    Except CusumError (Option (PerPairAlarm K)) :=
  match detectorFor config (tracker.detectors.find? pair) tracker.redis pair getFails with
  | .error e => .error e
  | .ok d => .ok (if (d.update value).2 then some (alarmOf config pair d value) else none)

/-- A call. -/
def step (tracker : PerPairCUSUMTracker K) : TrackerCall K → PerPairCUSUMTracker K
  | .update pair value getFails setFails =>
    match detectorFor config (tracker.detectors.find? pair) tracker.redis pair getFails with
    | .error _ => tracker
    | .ok d =>
      { detectors := tracker.detectors.put pair (d.update value).1
        redis :=
          if (d.update value).2 then
            persistAlarm tracker.redis setFails (pairMetric config pair) true
          else tracker.redis }
  | .acknowledge pair setFails =>
    match tracker.detectors.find? pair with
    | none => tracker
    | some d =>
      { detectors := tracker.detectors.put pair d.acknowledge
        redis := persistAlarm tracker.redis setFails (pairMetric config pair) false }

/-- `__init__`. -/
def start (redis : Option RedisFlags) : PerPairCUSUMTracker K := ⟨.empty, redis⟩

end PerPairCUSUMTracker

end

/-- `FeedbackOutcome`. -/
inductive FeedbackOutcome where
  /-- `"true_positive"`. -/
  | truePositive
  /-- `"false_positive"`. -/
  | falsePositive
  deriving DecidableEq

/-- `CUSUMFeedbackRecord`. -/
structure CUSUMFeedbackRecord where
  /-- `alert_id`. -/
  alertId : String
  /-- `outcome`. -/
  outcome : FeedbackOutcome
  deriving DecidableEq

section Feedback

variable {K : Type} [Field K] [LinearOrder K]

variable (K) in
/-- What `CUSUMFeedbackStore` is made with. The constructor raises a `ValueError` otherwise. -/
structure FeedbackConfig where
  /-- `fp_rate_target`. -/
  fpRateTarget : K
  /-- `min_feedback_samples`. -/
  minFeedbackSamples : ℕ
  /-- `learning_rate`. -/
  learningRate : K
  /-- `h_min`. -/
  hMin : K
  /-- `h_max`. -/
  hMax : K
  target_pos : 0 < fpRateTarget
  target_lt : fpRateTarget < 1
  one_le_samples : 1 ≤ minFeedbackSamples
  hMin_pos : 0 < hMin
  hMin_lt : hMin < hMax
  rate_pos : 0 < learningRate
  rate_le : learningRate ≤ 1

/-- `RecalibrationResult`, without the name of the metric and the target. -/
structure RecalibrationResult (K : Type) where
  /-- `old_threshold`. -/
  oldThreshold : K
  /-- `new_threshold`. -/
  newThreshold : K
  /-- `fp_rate`. -/
  fpRate : K
  /-- `n_samples`. -/
  nSamples : ℕ
  /-- `clamped`. -/
  clamped : Bool

/-- A store and the detector that it is for. -/
structure FeedbackState (K : Type) where
  /-- `_records`. -/
  records : List CUSUMFeedbackRecord
  detector : CUSUMDetector K

/-- `record_feedback`. -/
def recordFeedback (records : List CUSUMFeedbackRecord) (alertId : String)
    (outcome : FeedbackOutcome) : List CUSUMFeedbackRecord :=
  records.filter (·.alertId ≠ alertId) ++ [⟨alertId, outcome⟩]

/-- `n_fp`. -/
def falsePositives (records : List CUSUMFeedbackRecord) : ℕ :=
  records.countP (·.outcome = .falsePositive)

/-- `fp_rate`. -/
def fpRate (records : List CUSUMFeedbackRecord) : Option K :=
  if records.isEmpty then none else some (falsePositives records / records.length)

/-- The safety clamp of `recalibrate`, and whether it changes anything. -/
def FeedbackConfig.clamp (c : FeedbackConfig K) (hNewRaw : K) : K × Bool :=
  if hNewRaw < c.hMin then (c.hMin, true)
  else if c.hMax < hNewRaw then (c.hMax, true)
  else (hNewRaw, false)

/-- `recalibrate`: the state after it, and what it returns. -/
def FeedbackState.recalibrate (c : FeedbackConfig K) (s : FeedbackState K) :
    FeedbackState K × Option (RecalibrationResult K) :=
  let n := s.records.length
  if n < c.minFeedbackSamples then (s, none)
  else
    let fpRate : K := falsePositives s.records / n
    let oldH := s.detector.h
    let delta := c.learningRate * (fpRate - c.fpRateTarget)
    let (hNew, clamped) := c.clamp (oldH * (1 + delta))
    (⟨[], { s.detector with h := hNew }⟩, some ⟨oldH, hNew, fpRate, n, clamped⟩)

/-- The calls of operators and of the pipeline. -/
inductive FeedbackCall (K : Type) where
  /-- `record_feedback`. -/
  | feedback (alertId : String) (outcome : FeedbackOutcome)
  /-- `recalibrate`. -/
  | recalibrate
  /-- `clear`. -/
  | clear
  /-- A call of the detector. -/
  | detector (call : DetectorCall K)

/-- A call. -/
def FeedbackState.step (c : FeedbackConfig K) (s : FeedbackState K) :
    FeedbackCall K → FeedbackState K
  | .feedback alertId outcome => { s with records := recordFeedback s.records alertId outcome }
  | .recalibrate => (s.recalibrate c).1
  | .clear => { s with records := [] }
  | .detector call => { s with detector := s.detector.step call }

/-- The feedback since the store was last made empty. -/
def epoch (c : FeedbackConfig K) (s : FeedbackState K) (given : List CUSUMFeedbackRecord) :
    List (FeedbackCall K) → List CUSUMFeedbackRecord
  | [] => given
  | .feedback alertId outcome :: calls =>
    epoch c (s.step c (.feedback alertId outcome)) (given ++ [⟨alertId, outcome⟩]) calls
  | .recalibrate :: calls =>
    epoch c (s.step c .recalibrate) (if (s.recalibrate c).2.isSome then [] else given) calls
  | .clear :: calls => epoch c (s.step c .clear) [] calls
  | .detector call :: calls => epoch c (s.step c (.detector call)) given calls

/-- What was said last about an alarm. -/
def lastLabel (given : List CUSUMFeedbackRecord) (alertId : String) : Option FeedbackOutcome :=
  (given.reverse.find? (·.alertId = alertId)).map (·.outcome)

/-- The store has the last label of every alarm that has one, once. -/
structure Reflects (given records : List CUSUMFeedbackRecord) : Prop where
  nodup : (records.map (·.alertId)).Nodup
  label : ∀ alertId outcome,
    ⟨alertId, outcome⟩ ∈ records ↔ lastLabel given alertId = some outcome

theorem Reflects.nil : Reflects [] [] where
  nodup := List.nodup_nil
  label alertId outcome := by simp [lastLabel]

theorem lastLabel_concat (given : List CUSUMFeedbackRecord) (alertId : String)
    (outcome : FeedbackOutcome) (id : String) :
    lastLabel (given ++ [⟨alertId, outcome⟩]) id =
      if alertId = id then some outcome else lastLabel given id := by
  unfold lastLabel
  rw [List.reverse_append, List.reverse_singleton, List.singleton_append, List.find?_cons]
  by_cases hsame : alertId = id
  · simp [hsame]
  · simp [hsame]

/-- A new label takes the place of the old one. -/
theorem Reflects.recordFeedback {given records : List CUSUMFeedbackRecord}
    (h : Reflects given records) (alertId : String) (outcome : FeedbackOutcome) :
    Reflects (given ++ [⟨alertId, outcome⟩]) (recordFeedback records alertId outcome) := by
  constructor
  · unfold Monitoring.recordFeedback
    rw [List.map_append, List.nodup_append]
    refine ⟨(List.filter_sublist.map _).nodup h.nodup, by simp, ?_⟩
    intro id hid id' hid' heq
    obtain ⟨r, hr, rfl⟩ := List.mem_map.mp hid
    have hne := (List.mem_filter.mp hr).2
    simp only [List.map_cons, List.map_nil, List.mem_singleton] at hid'
    rw [heq, hid'] at hne
    simp at hne
  · intro id label
    rw [lastLabel_concat]
    unfold Monitoring.recordFeedback
    rw [List.mem_append, List.mem_filter, List.mem_singleton, h.label]
    by_cases hsame : alertId = id
    · subst hsame
      simp [eq_comm]
    · simp [hsame, Ne.symm hsame, eq_comm]

theorem recalibrate_of_few {c : FeedbackConfig K} {s : FeedbackState K}
    (hfew : s.records.length < c.minFeedbackSamples) : s.recalibrate c = (s, none) :=
  if_pos hfew

theorem recalibrate_of_enough {c : FeedbackConfig K} {s : FeedbackState K}
    (henough : ¬s.records.length < c.minFeedbackSamples) :
    s.recalibrate c =
      let fpRate : K := falsePositives s.records / s.records.length
      let new := c.clamp (s.detector.h * (1 + c.learningRate * (fpRate - c.fpRateTarget)))
      (⟨[], { s.detector with h := new.1 }⟩,
        some ⟨s.detector.h, new.1, fpRate, s.records.length, new.2⟩) :=
  if_neg henough

/-- The store reflects the feedback since it was last made empty. -/
theorem reflects_exec (c : FeedbackConfig K) {s : FeedbackState K}
    {given : List CUSUMFeedbackRecord} (h : Reflects given s.records)
    (calls : List (FeedbackCall K)) :
    Reflects (epoch c s given calls) (Transition.exec (FeedbackState.step c) s calls).records := by
  induction calls generalizing s given with
  | nil => exact h
  | cons call calls ih =>
    cases call with
    | feedback alertId outcome => exact ih (h.recordFeedback alertId outcome)
    | clear => exact ih .nil
    | detector call => exact ih h
    | recalibrate =>
      refine ih ?_
      rw [FeedbackState.step]
      by_cases hfew : s.records.length < c.minFeedbackSamples
      · rw [recalibrate_of_few hfew]
        exact h
      · rw [recalibrate_of_enough hfew]
        exact .nil

/-- The threshold is within the bounds of the store. -/
def FeedbackConfig.Within (c : FeedbackConfig K) (h : K) : Prop := c.hMin ≤ h ∧ h ≤ c.hMax

/-- What `recalibrate` returns, and what it does. -/
structure Recalibrated (c : FeedbackConfig K) (s : FeedbackState K) (r : RecalibrationResult K) :
    Prop where
  enough : c.minFeedbackSamples ≤ s.records.length
  state : (s.recalibrate c).1 = ⟨[], { s.detector with h := r.newThreshold }⟩
  oldThreshold : r.oldThreshold = s.detector.h
  nSamples : r.nSamples = s.records.length
  fpRate : Monitoring.fpRate s.records = some r.fpRate
  fpRate_nonneg : 0 ≤ r.fpRate
  fpRate_le : r.fpRate ≤ 1
  within : c.Within r.newThreshold
  /-- Too many false positives make the detector less sensitive. -/
  raises : c.Within r.oldThreshold → c.fpRateTarget ≤ r.fpRate → r.oldThreshold ≤ r.newThreshold
  /-- With few of them it becomes more sensitive. -/
  lowers : c.Within r.oldThreshold → r.fpRate ≤ c.fpRateTarget → r.newThreshold ≤ r.oldThreshold
  clamped : r.clamped = true ↔
    ¬c.Within (r.oldThreshold * (1 + c.learningRate * (r.fpRate - c.fpRateTarget)))

theorem recalibrate_eq_none_iff (c : FeedbackConfig K) (s : FeedbackState K) :
    (s.recalibrate c).2 = none ↔ s.records.length < c.minFeedbackSamples := by
  by_cases hfew : s.records.length < c.minFeedbackSamples
  · simp [recalibrate_of_few hfew, hfew]
  · simp [recalibrate_of_enough hfew, hfew]

/-- What the clamp does to a threshold that is moved. -/
theorem clamp_spec (c : FeedbackConfig K) (raw : K) :
    c.Within (c.clamp raw).1 ∧
      (∀ old, c.Within old → old ≤ raw → old ≤ (c.clamp raw).1) ∧
      (∀ old, c.Within old → raw ≤ old → (c.clamp raw).1 ≤ old) ∧
      ((c.clamp raw).2 = true ↔ ¬c.Within raw) := by
  have hlt := c.hMin_lt
  unfold FeedbackConfig.clamp
  split_ifs with hlow hhigh
  · exact ⟨⟨le_rfl, hlt.le⟩, fun old _ hle => hle.trans hlow.le, fun old hold _ => hold.1,
      fun _ h => hlow.not_ge h.1, fun _ => rfl⟩
  · exact ⟨⟨hlt.le, le_rfl⟩, fun old hold _ => hold.2, fun old _ hle => hhigh.le.trans hle,
      fun _ h => hhigh.not_ge h.2, fun _ => rfl⟩
  · have hwithin : c.Within raw := ⟨not_lt.mp hlow, not_lt.mp hhigh⟩
    exact ⟨hwithin, fun old _ hle => hle, fun old _ hle => hle,
      fun h => absurd h (by simp), fun h => absurd hwithin h⟩

/-- Only `recalibrate` changes the threshold, and to one within the bounds. -/
theorem threshold_exec (c : FeedbackConfig K) (s : FeedbackState K)
    (calls : List (FeedbackCall K)) :
    let h := (Transition.exec (FeedbackState.step c) s calls).detector.h
    h = s.detector.h ∨ c.Within h := by
  have hkeep (t : FeedbackState K) (call : FeedbackCall K)
      (ht : t.detector.h = s.detector.h ∨ c.Within t.detector.h) :
      (t.step c call).detector.h = s.detector.h ∨ c.Within (t.step c call).detector.h := by
    cases call with
    | feedback alertId outcome => exact ht
    | clear => exact ht
    | detector call =>
      cases call with
      | acknowledge => exact ht
      | update value =>
        simp only [FeedbackState.step, CUSUMDetector.step, CUSUMDetector.update]
        split_ifs <;> exact ht
    | recalibrate =>
      rw [FeedbackState.step]
      by_cases hfew : t.records.length < c.minFeedbackSamples
      · rw [recalibrate_of_few hfew]
        exact ht
      · rw [recalibrate_of_enough hfew]
        exact Or.inr (clamp_spec c _).1
  exact Transition.exec_invariant hkeep calls (Or.inl rfl)

variable [IsStrictOrderedRing K]

/-- A share of false positives is one. -/
theorem falsePositives_div_mem {records : List CUSUMFeedbackRecord} (hpos : 0 < records.length) :
    (0 : K) ≤ falsePositives records / records.length ∧
      (falsePositives records / records.length : K) ≤ 1 := by
  have hlength : (0 : K) < records.length := by exact_mod_cast hpos
  have hle : falsePositives records ≤ records.length := List.countP_le_length
  constructor
  · positivity
  · rw [div_le_one hlength]
    exact_mod_cast hle

theorem recalibrated (c : FeedbackConfig K) {s : FeedbackState K} {r : RecalibrationResult K}
    (hr : (s.recalibrate c).2 = some r) : Recalibrated c s r := by
  have henough : ¬s.records.length < c.minFeedbackSamples := by
    rw [← recalibrate_eq_none_iff, hr]
    simp
  have hpos : 0 < s.records.length := by
    have := c.one_le_samples
    omega
  rw [recalibrate_of_enough henough] at hr
  obtain rfl := (Option.some.inj hr).symm
  obtain ⟨hnonneg, hle⟩ := falsePositives_div_mem (K := K) hpos
  generalize hrate : (falsePositives s.records / s.records.length : K) = rate at hnonneg hle
  obtain ⟨hwithin, hraises, hlowers, hclamped⟩ :=
    clamp_spec c (s.detector.h * (1 + c.learningRate * (rate - c.fpRateTarget)))
  have hlearning := c.rate_pos
  have hmin := c.hMin_pos
  refine ⟨not_lt.mp henough, ?_, rfl, rfl, ?_, hnonneg, hle, hwithin, ?_, ?_, hclamped⟩
  · rw [recalibrate_of_enough henough, hrate]
  · rw [fpRate, if_neg (by simpa [List.isEmpty_iff] using List.ne_nil_of_length_pos hpos), hrate]
  · intro hold hmany
    refine hraises _ hold ?_
    have hpositive : 0 < s.detector.h := hmin.trans_le hold.1
    have hdelta : 0 ≤ c.learningRate * (rate - c.fpRateTarget) :=
      mul_nonneg hlearning.le (sub_nonneg.mpr hmany)
    nlinarith only [mul_nonneg hpositive.le hdelta]
  · intro hold hfew
    refine hlowers _ hold ?_
    have hpositive : 0 < s.detector.h := hmin.trans_le hold.1
    have hdelta : c.learningRate * (rate - c.fpRateTarget) ≤ 0 :=
      mul_nonpos_of_nonneg_of_nonpos hlearning.le (sub_nonpos.mpr hfew)
    nlinarith only [mul_nonpos_of_nonneg_of_nonpos hpositive.le hdelta]

/-- A store and its detector after some calls. -/
structure SoundStore (c : FeedbackConfig K) (d : CUSUMDetector K) (calls : List (FeedbackCall K))
    (s : FeedbackState K) : Prop where
  reflects : Reflects (epoch c ⟨[], d⟩ [] calls) s.records
  threshold : s.detector.h = d.h ∨ c.Within s.detector.h
  deferred : (s.recalibrate c).2 = none ↔ s.records.length < c.minFeedbackSamples
  recalibrated : ∀ r, (s.recalibrate c).2 = some r → Recalibrated c s r

private theorem twentieth_pos : (0 : ℚ) < 1 / 20 := by norm_num

private theorem twentieth_lt_one : (1 : ℚ) / 20 < 1 := by norm_num

private theorem one_le_two_samples : 1 ≤ 2 := by norm_num

private theorem one_pos_threshold : (0 : ℚ) < 1 := by norm_num

private theorem one_lt_hundred : (1 : ℚ) < 100 := by norm_num

private theorem tenth_pos : (0 : ℚ) < 1 / 10 := by norm_num

private theorem tenth_le_one : (1 : ℚ) / 10 ≤ 1 := by norm_num

/-- Two samples are enough. -/
def twoSamples : FeedbackConfig ℚ where
  fpRateTarget := 1 / 20
  minFeedbackSamples := 2
  learningRate := 1 / 10
  hMin := 1
  hMax := 100
  target_pos := twentieth_pos
  target_lt := twentieth_lt_one
  one_le_samples := one_le_two_samples
  hMin_pos := one_pos_threshold
  hMin_lt := one_lt_hundred
  rate_pos := tenth_pos
  rate_le := tenth_le_one

/-- An operator changes a label. -/
def relabelled : List (FeedbackCall ℚ) :=
  [.feedback "a" .falsePositive, .feedback "b" .falsePositive, .feedback "a" .truePositive]

end Feedback

end LedgerLens.Monitoring
