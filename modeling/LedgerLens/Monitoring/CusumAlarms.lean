import LedgerLens.Monitoring.CusumDetector
import Mathlib.Algebra.Order.Group.Int
import Mathlib.Tactic.Abel

/-!
# The alarms of the CUSUM detectors

When a detector raises an alarm, in terms of the observations alone: at the first of them that ends
a block of consecutive observations which lies above or below the mean by the threshold, slack
taken off. The alarms for a pair are those that its observations alone would raise.
-/

namespace LedgerLens.Monitoring

open SuffixSums Transition

variable {K : Type} [AddCommGroup K] [LinearOrder K]

/-- Some block of consecutive observations up to the last one lies above the mean by the threshold,
slack taken off. -/
def CrossesHigh (mu0 k h : K) (xs : List K) : Prop :=
  ∃ ys, ys ≠ [] ∧ ys <:+ xs ∧ h ≤ (ys.map fun x => x - mu0 - k).sum

/-- Some such block lies below the mean. -/
def CrossesLow (mu0 k h : K) (xs : List K) : Prop :=
  ∃ ys, ys ≠ [] ∧ ys <:+ xs ∧ h ≤ (ys.map fun x => mu0 - k - x).sum

/-- Some such block lies above or below the mean. -/
def Crosses (mu0 k h : K) (xs : List K) : Prop := CrossesHigh mu0 k h xs ∨ CrossesLow mu0 k h xs

/-- The last observation is the first that ends such a block. -/
def FirstCrossing (mu0 k h : K) (xs : List K) : Prop :=
  Crosses mu0 k h xs ∧ ∀ ys, ys <+: xs → Crosses mu0 k h ys → ys = xs

/-- The observations since the last acknowledgement. -/
def sinceAcknowledged (calls : List (DetectorCall K)) : List K :=
  calls.foldl
    (fun xs call =>
      match call with
      | .update value => xs ++ [value]
      | .acknowledge => []) []

omit [AddCommGroup K] [LinearOrder K] in
@[simp] theorem sinceAcknowledged_update (calls : List (DetectorCall K)) (value : K) :
    sinceAcknowledged (calls ++ [.update value]) = sinceAcknowledged calls ++ [value] := by
  simp [sinceAcknowledged]

omit [AddCommGroup K] [LinearOrder K] in
@[simp] theorem sinceAcknowledged_acknowledge (calls : List (DetectorCall K)) :
    sinceAcknowledged (calls ++ [.acknowledge]) = [] := by
  simp [sinceAcknowledged]

/-- The statistic above the mean. -/
def highClimb (mu0 k : K) (xs : List K) : K := climb (xs.map fun x => x - mu0 - k)

/-- The statistic below the mean. -/
def lowClimb (mu0 k : K) (xs : List K) : K := climb (xs.map fun x => mu0 - k - x)

section Statistics

variable [IsOrderedAddMonoid K] {mu0 k h : K}

/-- A bound is reached by a statistic exactly when a block reaches it. -/
theorem le_climb_map_iff (f : K → K) (hpos : 0 < h) (xs : List K) :
    h ≤ climb (xs.map f) ↔ ∃ ys, ys ≠ [] ∧ ys <:+ xs ∧ h ≤ (ys.map f).sum := by
  rw [le_climb_iff hpos]
  constructor
  · rintro ⟨zs, hne, hsuffix, hle⟩
    obtain ⟨ys, hys, rfl⟩ := List.suffix_map_iff.mp hsuffix
    exact ⟨ys, fun hnil => hne (by rw [hnil, List.map_nil]), hys, hle⟩
  · rintro ⟨ys, hne, hys, hle⟩
    exact ⟨ys.map f, by simpa using hne, hys.map f, hle⟩

theorem crosses_iff (hpos : 0 < h) (xs : List K) :
    Crosses mu0 k h xs ↔ h ≤ highClimb mu0 k xs ∨ h ≤ lowClimb mu0 k xs :=
  or_congr (le_climb_map_iff _ hpos xs).symm (le_climb_map_iff _ hpos xs).symm

omit [IsOrderedAddMonoid K] in
/-- A statistic that is not zero is the sum of a block. -/
theorem exists_block_sum_eq (f : K → K) {xs : List K} (hne : climb (xs.map f) ≠ 0) :
    ∃ ys, ys ≠ [] ∧ ys <:+ xs ∧ (ys.map f).sum = climb (xs.map f) := by
  obtain ⟨zs, hsuffix, hsum⟩ := exists_suffix_sum_eq (xs.map f)
  obtain ⟨ys, hys, rfl⟩ := List.suffix_map_iff.mp hsuffix
  refine ⟨ys, ?_, hys, hsum⟩
  rintro rfl
  exact hne hsum.symm

/-- Before the first observation nothing crosses. -/
theorem not_crosses_nil (hpos : 0 < h) : ¬Crosses mu0 k h [] := by
  rw [crosses_iff hpos]
  simp [highClimb, lowClimb, hpos]

omit [IsOrderedAddMonoid K] in
theorem highClimb_concat (xs : List K) (x : K) :
    highClimb mu0 k (xs ++ [x]) = max 0 (highClimb mu0 k xs + x - (mu0 + k)) := by
  have hshift : highClimb mu0 k xs + (x - mu0 - k) = highClimb mu0 k xs + x - (mu0 + k) := by
    abel
  rw [← hshift]
  simp [highClimb]

omit [IsOrderedAddMonoid K] in
theorem lowClimb_concat (xs : List K) (x : K) :
    lowClimb mu0 k (xs ++ [x]) = max 0 (lowClimb mu0 k xs - x + (mu0 - k)) := by
  have hshift : lowClimb mu0 k xs + (mu0 - k - x) = lowClimb mu0 k xs - x + (mu0 - k) := by
    abel
  rw [← hshift]
  simp [lowClimb]

omit [IsOrderedAddMonoid K] in
/-- The first crossing, by the observations before the last. -/
theorem firstCrossing_concat_iff {xs : List K} {x : K} :
    FirstCrossing mu0 k h (xs ++ [x]) ↔
      Crosses mu0 k h (xs ++ [x]) ∧ ¬∃ ys, ys <+: xs ∧ Crosses mu0 k h ys := by
  constructor
  · rintro ⟨hcrosses, hfirst⟩
    refine ⟨hcrosses, ?_⟩
    rintro ⟨ys, hys, hcross⟩
    have heq := hfirst ys (hys.trans (List.prefix_append xs [x])) hcross
    have hlength := hys.length_le
    rw [heq, List.length_append, List.length_singleton] at hlength
    omega
  · rintro ⟨hcrosses, hnone⟩
    refine ⟨hcrosses, fun ys hys hcross => ?_⟩
    obtain heq | hys := List.prefix_concat_iff.mp hys
    · exact heq
    · exact absurd ⟨ys, hys, hcross⟩ hnone

end Statistics

/-- A detector has seen some observations since it was last at rest. It may be waiting for an
acknowledgement from before. -/
structure Tracks (mu0 k h : K) (waiting : Prop) (xs : List K) (d : CUSUMDetector K) : Prop where
  /-- The numbers of the detector. -/
  numbers : d.mu0 = mu0 ∧ d.k = k ∧ d.h = h
  /-- Why there is an alarm. -/
  alarm : d.alarm = true ↔ waiting ∨ ∃ ys, ys <+: xs ∧ Crosses mu0 k h ys
  /-- The statistics, if there is none. -/
  statistics : d.alarm = false → d.sHigh = highClimb mu0 k xs ∧ d.sLow = lowClimb mu0 k xs

namespace Tracks

variable [IsOrderedAddMonoid K] {mu0 k h : K} {waiting : Prop} {xs : List K} {d : CUSUMDetector K}

omit [IsOrderedAddMonoid K] in
/-- The statistics after one more observation. -/
theorem next (ht : Tracks mu0 k h waiting xs d) (halarm : d.alarm = false) (x : K) :
    d.nextHigh x = highClimb mu0 k (xs ++ [x]) ∧ d.nextLow x = lowClimb mu0 k (xs ++ [x]) := by
  obtain ⟨hmu0, hk, -⟩ := ht.numbers
  obtain ⟨hhigh, hlow⟩ := ht.statistics halarm
  rw [highClimb_concat, lowClimb_concat, CUSUMDetector.nextHigh, CUSUMDetector.nextLow, hmu0, hk,
    hhigh, hlow]
  exact ⟨rfl, rfl⟩

/-- An alarm is triggered by the first crossing, unless the detector is waiting. -/
theorem triggered_iff (ht : Tracks mu0 k h waiting xs d) (hpos : 0 < h) (x : K) :
    (d.update x).2 = true ↔ ¬waiting ∧ FirstCrossing mu0 k h (xs ++ [x]) := by
  rw [firstCrossing_concat_iff, crosses_iff hpos, and_left_comm, ← not_or, ← ht.alarm]
  unfold CUSUMDetector.update
  cases halarm : d.alarm with
  | true => simp
  | false =>
    obtain ⟨hhigh, hlow⟩ := ht.next halarm x
    rw [hhigh, hlow, ht.numbers.2.2, if_neg Bool.false_ne_true]
    split_ifs with hcross
    · simpa using hcross
    · simpa using hcross

/-- A detector after one more observation. -/
theorem update (ht : Tracks mu0 k h waiting xs d) (hpos : 0 < h) (x : K) :
    Tracks mu0 k h waiting (xs ++ [x]) (d.update x).1 := by
  have hprefixes : (∃ ys, ys <+: xs ++ [x] ∧ Crosses mu0 k h ys) ↔
      Crosses mu0 k h (xs ++ [x]) ∨ ∃ ys, ys <+: xs ∧ Crosses mu0 k h ys := by
    simp only [List.prefix_concat_iff, or_and_right, exists_or, exists_eq_left]
  unfold CUSUMDetector.update
  cases halarm : d.alarm with
  | true =>
    rw [if_pos rfl]
    refine ⟨ht.numbers, ?_, fun hfalse => by simp [halarm] at hfalse⟩
    rw [hprefixes, or_left_comm, ← ht.alarm]
    simp [halarm]
  | false =>
    obtain ⟨hhigh, hlow⟩ := ht.next halarm x
    have hnone : ¬(waiting ∨ ∃ ys, ys <+: xs ∧ Crosses mu0 k h ys) := by
      rw [← ht.alarm, halarm]
      exact Bool.false_ne_true
    rw [if_neg Bool.false_ne_true, hhigh, hlow, ht.numbers.2.2]
    split_ifs with hcross
    · refine ⟨⟨ht.numbers.1, ht.numbers.2.1, rfl⟩, ?_, fun hfalse => by cases hfalse⟩
      rw [hprefixes, crosses_iff hpos]
      simp [hcross]
    · refine ⟨⟨ht.numbers.1, ht.numbers.2.1, rfl⟩, ?_, fun _ => ⟨rfl, rfl⟩⟩
      rw [hprefixes, or_left_comm, crosses_iff hpos]
      simp [hcross, hnone]

/-- A detector is at rest after an acknowledgement. -/
theorem acknowledge (ht : Tracks mu0 k h waiting xs d) (hpos : 0 < h) :
    Tracks mu0 k h False [] d.acknowledge where
  numbers := ht.numbers
  alarm := by simp [CUSUMDetector.acknowledge, not_crosses_nil hpos]
  statistics := fun _ => ⟨rfl, rfl⟩

/-- A new detector may be waiting. -/
theorem new {config : CusumConfig K} {args : CusumArgs K} {metricName : String}
    {redis : Option RedisFlags} {fails : Bool}
    (hnew : CUSUMDetector.new config args metricName redis fails = .ok d) :
    Tracks (args.targetMean.getD config.targetMean)
      (args.allowableSlack.getD config.allowableSlack)
      (args.decisionThreshold.getD config.decisionThreshold) (d.alarm = true) [] d := by
  unfold CUSUMDetector.new at hnew
  dsimp only at hnew
  split_ifs at hnew with hslack hthreshold
  obtain rfl := Except.ok.inj hnew
  refine ⟨⟨rfl, rfl, rfl⟩, ?_, fun _ => ⟨rfl, rfl⟩⟩
  simp [not_crosses_nil (not_le.mp hthreshold)]

end Tracks

section Detector

variable [IsOrderedAddMonoid K] {mu0 k h : K} {d₀ : CUSUMDetector K}

/-- A detector that was made and called. -/
theorem Tracks.exec (hpos : 0 < h) (hnew : Tracks mu0 k h (d₀.alarm = true) [] d₀)
    (calls : List (DetectorCall K)) :
    Tracks mu0 k h (d₀.alarm = true ∧ .acknowledge ∉ calls) (sinceAcknowledged calls)
      (Transition.exec CUSUMDetector.step d₀ calls) := by
  induction calls using List.reverseRecOn with
  | nil => simpa [sinceAcknowledged] using hnew
  | append_singleton calls call ih =>
    rw [exec_append]
    cases call with
    | update value =>
      rw [sinceAcknowledged_update]
      simpa [CUSUMDetector.step] using ih.update hpos value
    | acknowledge =>
      rw [sinceAcknowledged_acknowledge]
      simpa [CUSUMDetector.step] using ih.acknowledge hpos

end Detector

section Tracker

variable {config : TrackerConfig K} {t t' : PerPairCUSUMTracker K} {pair : String}

/-- What is stored in Redis for a pair. -/
def PerPairCUSUMTracker.flag (config : TrackerConfig K) (pair : String)
    (t : PerPairCUSUMTracker K) : Option (Option String) :=
  t.redis.map fun flags => flags (alarmKey (PerPairCUSUMTracker.pairMetric config pair))

/-- Two trackers have the same for a pair. -/
def Agree (config : TrackerConfig K) (pair : String) (t t' : PerPairCUSUMTracker K) : Prop :=
  t.detectors.find? pair = t'.detectors.find? pair ∧ t.flag config pair = t'.flag config pair

omit [AddCommGroup K] [LinearOrder K] in
/-- Different pairs have different keys. -/
theorem alarmKey_inj {p q : String} (h : alarmKey (PerPairCUSUMTracker.pairMetric config p) =
    alarmKey (PerPairCUSUMTracker.pairMetric config q)) : p = q := by
  unfold alarmKey PerPairCUSUMTracker.pairMetric at h
  have hlists := congrArg String.toList h
  simp only [String.toList_append, List.append_assoc] at hlists
  have hpair := List.append_cancel_right (List.append_cancel_left (List.append_cancel_left
    (List.append_cancel_left hlists)))
  exact String.toList_inj.mp hpair

omit [AddCommGroup K] [LinearOrder K] in
/-- What writing the alarm of a pair leaves for another. -/
theorem flag_persistAlarm {q : String} (hne : q ≠ pair) (redis : Option RedisFlags)
    (fails state : Bool) :
    (persistAlarm redis fails (PerPairCUSUMTracker.pairMetric config pair) state).map
        (fun flags => flags (alarmKey (PerPairCUSUMTracker.pairMetric config q))) =
      redis.map fun flags => flags (alarmKey (PerPairCUSUMTracker.pairMetric config q)) := by
  have hkey : alarmKey (PerPairCUSUMTracker.pairMetric config q) ≠
      alarmKey (PerPairCUSUMTracker.pairMetric config pair) := fun h => hne (alarmKey_inj h)
  unfold persistAlarm
  rw [Option.map_map]
  congr 1
  funext flags
  cases fails with
  | true => rfl
  | false =>
    simp only [Function.comp_apply, Bool.false_eq_true, if_false]
    rw [Function.update_of_ne hkey]

/-- What writing the alarm of a pair leaves for it. -/
theorem flag_persistAlarm_congr {redis redis' : Option RedisFlags} {metricName : String}
    (h : redis.map (fun flags => flags (alarmKey metricName)) =
      redis'.map fun flags => flags (alarmKey metricName)) (fails state : Bool) :
    (persistAlarm redis fails metricName state).map (fun flags => flags (alarmKey metricName)) =
      (persistAlarm redis' fails metricName state).map
        fun flags => flags (alarmKey metricName) := by
  unfold persistAlarm
  rw [Option.map_map, Option.map_map]
  cases fails with
  | true => exact h
  | false =>
    have hsome := congrArg Option.isSome h
    rw [Option.isSome_map, Option.isSome_map] at hsome
    cases redis <;> cases redis' <;> simp_all

/-- The detector for a pair is made alike by trackers that have the same for it. -/
theorem Agree.detectorFor (h : Agree config pair t t') (getFails : Bool) :
    PerPairCUSUMTracker.detectorFor config (t.detectors.find? pair) t.redis pair getFails =
      PerPairCUSUMTracker.detectorFor config (t'.detectors.find? pair) t'.redis pair getFails := by
  obtain ⟨hfind, hflag⟩ := h
  have hrestored : restoredAlarm t.redis getFails (PerPairCUSUMTracker.pairMetric config pair) =
      restoredAlarm t'.redis getFails (PerPairCUSUMTracker.pairMetric config pair) := by
    unfold PerPairCUSUMTracker.flag at hflag
    unfold restoredAlarm
    cases hredis : t.redis <;> cases hredis' : t'.redis <;> simp_all
  unfold PerPairCUSUMTracker.detectorFor CUSUMDetector.new
  rw [hfind, hrestored]

/-- A call for a pair. -/
theorem Agree.step_own (h : Agree config pair t t') {call : TrackerCall K}
    (hcall : call.pair = pair) : Agree config pair (t.step config call) (t'.step config call) := by
  cases call with
  | update q value getFails setFails =>
    obtain rfl : q = pair := hcall
    have hdetector := h.detectorFor getFails
    simp only [PerPairCUSUMTracker.step]
    rw [hdetector]
    cases PerPairCUSUMTracker.detectorFor config (t'.detectors.find? q) t'.redis q getFails with
    | error e => exact h
    | ok d =>
      refine ⟨by simp, ?_⟩
      unfold PerPairCUSUMTracker.flag
      dsimp only
      split_ifs
      · exact flag_persistAlarm_congr h.2 setFails true
      · exact h.2
  | acknowledge q setFails =>
    obtain rfl : q = pair := hcall
    simp only [PerPairCUSUMTracker.step]
    rw [h.1]
    cases t'.detectors.find? q with
    | none => exact h
    | some d => exact ⟨by simp, flag_persistAlarm_congr h.2 setFails false⟩

/-- A call for another pair. -/
theorem Agree.step_other (h : Agree config pair t t') {call : TrackerCall K}
    (hcall : call.pair ≠ pair) : Agree config pair (t.step config call) t' := by
  cases call with
  | update q value getFails setFails =>
    have hne : pair ≠ q := Ne.symm hcall
    simp only [PerPairCUSUMTracker.step]
    cases PerPairCUSUMTracker.detectorFor config (t.detectors.find? q) t.redis q getFails with
    | error e => exact h
    | ok d =>
      constructor
      · dsimp only
        rw [UniqueTable.find?_put, if_neg hne]
        exact h.1
      · unfold PerPairCUSUMTracker.flag
        dsimp only
        split_ifs
        · exact (flag_persistAlarm hne t.redis setFails true).trans h.2
        · exact h.2
  | acknowledge q setFails =>
    have hne : pair ≠ q := Ne.symm hcall
    simp only [PerPairCUSUMTracker.step]
    cases t.detectors.find? q with
    | none => exact h
    | some d =>
      constructor
      · dsimp only
        rw [UniqueTable.find?_put, if_neg hne]
        exact h.1
      · exact (flag_persistAlarm hne t.redis setFails false).trans h.2

/-- After any calls a pair has what its own calls alone lead to. -/
theorem agree_exec (config : TrackerConfig K) (pair : String) (calls : List (TrackerCall K))
    (t : PerPairCUSUMTracker K) :
    Agree config pair (exec (PerPairCUSUMTracker.step config) t calls)
      (exec (PerPairCUSUMTracker.step config) t
        (calls.filter fun call => call.pair = pair)) := by
  have hown : ∀ s s' : PerPairCUSUMTracker K, ∀ call, decide (call.pair = pair) = true →
      Agree config pair s s' → Agree config pair (s.step config call) (s'.step config call) :=
    fun _ _ _ hcall h => h.step_own (of_decide_eq_true hcall)
  have hother : ∀ s s' : PerPairCUSUMTracker K, ∀ call, decide (call.pair = pair) = false →
      Agree config pair s s' → Agree config pair (s.step config call) s' :=
    fun _ _ _ hcall h => h.step_other (of_decide_eq_false hcall)
  exact exec_filter hown hother calls ⟨rfl, rfl⟩

/-- `allowable_slack` of all detectors. -/
def TrackerConfig.slack (config : TrackerConfig K) : K :=
  config.args.allowableSlack.getD config.defaults.allowableSlack

/-- `target_mean` of all detectors. -/
def TrackerConfig.mean (config : TrackerConfig K) : K :=
  config.args.targetMean.getD config.defaults.targetMean

/-- `decision_threshold` of all detectors. -/
def TrackerConfig.threshold (config : TrackerConfig K) : K :=
  config.args.decisionThreshold.getD config.defaults.decisionThreshold

/-- A call of a tracker as one of the pair's detector. -/
def TrackerCall.detectorCall : TrackerCall K → DetectorCall K
  | .update _ value _ _ => .update value
  | .acknowledge _ _ => .acknowledge

/-- The calls for a pair. -/
def pairCalls (pair : String) (calls : List (TrackerCall K)) : List (DetectorCall K) :=
  (calls.filter fun call => call.pair = pair).map TrackerCall.detectorCall

/-- What a tracker has for a pair of which it has seen some observations. -/
structure PairTracks (config : TrackerConfig K) (pair : String) (flag : Option (Option String))
    (xs : List K) (t : PerPairCUSUMTracker K) : Prop where
  /-- There is no detector yet. -/
  unknown : t.detectors.find? pair = none → xs = [] ∧ t.flag config pair = flag
  /-- There is one, which waits only if there was an alarm in Redis. -/
  known : ∀ d, t.detectors.find? pair = some d → ∃ waiting : Prop,
    (waiting → flag = some (some "1")) ∧
      Tracks config.mean config.slack config.threshold waiting xs d

namespace PairTracks

variable [IsOrderedAddMonoid K] {flag : Option (Option String)} {xs : List K}

/-- The detector for the pair. -/
theorem detector (h : PairTracks config pair flag xs t) (hslack : 0 ≤ config.slack)
    (hpos : 0 < config.threshold) (getFails : Bool) :
    ∃ d, PerPairCUSUMTracker.detectorFor config (t.detectors.find? pair) t.redis pair getFails =
      .ok d ∧ ∃ waiting : Prop, (waiting → flag = some (some "1")) ∧
        Tracks config.mean config.slack config.threshold waiting xs d := by
  cases hfind : t.detectors.find? pair with
  | some d => exact ⟨d, rfl, h.known d hfind⟩
  | none =>
    obtain ⟨rfl, hflag⟩ := h.unknown hfind
    have hnew : CUSUMDetector.new config.defaults config.args
        (PerPairCUSUMTracker.pairMetric config pair) t.redis getFails =
        .ok ⟨PerPairCUSUMTracker.pairMetric config pair, config.mean, config.slack,
          config.threshold, 0, 0,
          restoredAlarm t.redis getFails (PerPairCUSUMTracker.pairMetric config pair)⟩ :=
      (if_neg (not_lt.mpr hslack)).trans (if_neg (not_le.mpr hpos))
    refine ⟨_, hnew, _, ?_, Tracks.new hnew⟩
    intro hrestored
    rw [← hflag, PerPairCUSUMTracker.flag]
    unfold restoredAlarm at hrestored
    cases hredis : t.redis with
    | none => simp [hredis] at hrestored
    | some flags =>
      simp only [hredis, Bool.and_eq_true, decide_eq_true_eq] at hrestored
      rw [Option.map_some, hrestored.2]

/-- A call for the pair. -/
theorem step (h : PairTracks config pair flag xs t) (hslack : 0 ≤ config.slack)
    (hpos : 0 < config.threshold) {calls : List (DetectorCall K)}
    (hxs : xs = sinceAcknowledged calls) {call : TrackerCall K} (hcall : call.pair = pair) :
    PairTracks config pair flag (sinceAcknowledged (calls ++ [call.detectorCall]))
      (t.step config call) := by
  subst hxs
  cases call with
  | update q value getFails setFails =>
    obtain rfl : q = pair := hcall
    obtain ⟨d, hdetector, waiting, hwaiting, htracks⟩ := h.detector hslack hpos getFails
    simp only [PerPairCUSUMTracker.step, TrackerCall.detectorCall, sinceAcknowledged_update]
    rw [hdetector]
    refine ⟨fun hnone => by simp at hnone, fun d' hd' => ?_⟩
    obtain rfl : (d.update value).1 = d' := by simpa using hd'
    exact ⟨waiting, hwaiting, htracks.update hpos value⟩
  | acknowledge q setFails =>
    obtain rfl : q = pair := hcall
    simp only [PerPairCUSUMTracker.step, TrackerCall.detectorCall, sinceAcknowledged_acknowledge]
    cases hfind : t.detectors.find? q with
    | none => exact ⟨fun _ => ⟨rfl, (h.unknown hfind).2⟩, fun d hd => by simp [hfind] at hd⟩
    | some d =>
      obtain ⟨waiting, -, htracks⟩ := h.known d hfind
      refine ⟨fun hnone => by simp at hnone, fun d' hd' => ?_⟩
      obtain rfl : d.acknowledge = d' := by simpa using hd'
      exact ⟨False, False.elim, htracks.acknowledge hpos⟩

/-- After any calls. -/
theorem exec (hslack : 0 ≤ config.slack) (hpos : 0 < config.threshold) (pair : String)
    (redis : Option RedisFlags) (calls : List (TrackerCall K)) :
    PairTracks config pair ((PerPairCUSUMTracker.start (K := K) redis).flag config pair)
      (sinceAcknowledged (pairCalls pair calls))
      (Transition.exec (PerPairCUSUMTracker.step config) (.start redis) calls) := by
  have hstart : PairTracks config pair ((PerPairCUSUMTracker.start (K := K) redis).flag config pair)
      [] (.start redis) := ⟨fun _ => ⟨rfl, rfl⟩, fun d hd => by cases hd⟩
  have hown : ∀ calls : List (TrackerCall K), (∀ call ∈ calls, call.pair = pair) →
      PairTracks config pair ((PerPairCUSUMTracker.start (K := K) redis).flag config pair)
        (sinceAcknowledged (calls.map TrackerCall.detectorCall))
        (Transition.exec (PerPairCUSUMTracker.step config) (.start redis) calls) := by
    intro calls hcalls
    induction calls using List.reverseRecOn with
    | nil => exact hstart
    | append_singleton calls call ih =>
      rw [exec_append, List.map_append]
      exact (ih fun c hc => hcalls c (List.mem_append_left _ hc)).step hslack hpos rfl
        (hcalls call (by simp))
  obtain ⟨hfind, hflag⟩ := agree_exec config pair calls (.start redis)
  have hpair := hown (calls.filter fun call => call.pair = pair) fun call hcall => by
    simpa using (List.mem_filter.mp hcall).2
  constructor
  · rw [hfind, hflag]
    exact hpair.unknown
  · rw [hfind]
    exact hpair.known

end PairTracks

/-- What an alarm says about the observations since the last acknowledgement: it has the side and
the sum of a block of them that reaches the threshold. -/
structure AlarmTells (config : TrackerConfig K) (pair : String) (xs : List K)
    (alarm : PerPairAlarm K) : Prop where
  /-- The names. -/
  names : alarm.pair = pair ∧ alarm.metric = config.metricName
  /-- The threshold. -/
  threshold : alarm.threshold = config.threshold ∧ config.threshold ≤ alarm.magnitude
  /-- A block above the mean. -/
  high : alarm.direction = .high → ∃ ys, ys ≠ [] ∧ ys <:+ xs ∧
    (ys.map fun x => x - config.mean - config.slack).sum = alarm.magnitude
  /-- A block below the mean. -/
  low : alarm.direction = .low → ∃ ys, ys ≠ [] ∧ ys <:+ xs ∧
    (ys.map fun x => config.mean - config.slack - x).sum = alarm.magnitude

section Alarm

variable [IsOrderedAddMonoid K] {waiting : Prop} {xs : List K} {d : CUSUMDetector K}

/-- The alarm that an observation triggers. -/
theorem Tracks.alarmTells (ht : Tracks config.mean config.slack config.threshold waiting xs d)
    (hpos : 0 < config.threshold) {x : K} (htriggered : (d.update x).2 = true) :
    AlarmTells config pair (xs ++ [x]) (PerPairCUSUMTracker.alarmOf config pair d x) := by
  have hidle : d.alarm = false := by
    unfold CUSUMDetector.update at htriggered
    cases halarm : d.alarm with
    | true => simp [halarm] at htriggered
    | false => rfl
  obtain ⟨hhigh, hlow⟩ := ht.next hidle x
  have hcross := (crosses_iff hpos _).mp ((ht.triggered_iff hpos x).mp htriggered).2.1
  unfold PerPairCUSUMTracker.alarmOf
  rw [hhigh, hlow, ht.numbers.2.2]
  by_cases hside : lowClimb config.mean config.slack (xs ++ [x]) ≤
      highClimb config.mean config.slack (xs ++ [x])
  · have hreached : config.threshold ≤ highClimb config.mean config.slack (xs ++ [x]) :=
      hcross.elim id fun hle => hle.trans hside
    rw [if_pos hside, if_pos hside]
    exact ⟨⟨rfl, rfl⟩, ⟨rfl, hreached⟩, fun _ => exists_block_sum_eq _ (hpos.trans_le hreached).ne',
      fun hlow => by cases hlow⟩
  · have hreached : config.threshold ≤ lowClimb config.mean config.slack (xs ++ [x]) :=
      hcross.elim (fun hle => hle.trans (le_of_not_ge hside)) id
    rw [if_neg hside, if_neg hside]
    exact ⟨⟨rfl, rfl⟩, ⟨rfl, hreached⟩, (fun hhigh => by cases hhigh),
      fun _ => exists_block_sum_eq _ (hpos.trans_le hreached).ne'⟩

end Alarm

end Tracker

/-- A detector triggers an alarm by the first crossing since the last acknowledgement, unless it is
still to be acknowledged after a restart. A tracker never raises; for a pair it gives the alarms
that the calls for the pair alone would give, which are those of the detector, each with the side
and the sum of a block that reaches the threshold. -/
theorem alarm_iff_firstCrossing [IsOrderedAddMonoid K] (config : TrackerConfig K)
    (hslack : 0 ≤ config.slack) (hpos : 0 < config.threshold) :
    (∀ metricName redis fails d₀,
      CUSUMDetector.new config.defaults config.args metricName redis fails = .ok d₀ →
      ∀ calls x, ((exec CUSUMDetector.step d₀ calls).update x).2 = true ↔
        (d₀.alarm = true → .acknowledge ∈ calls) ∧
          FirstCrossing config.mean config.slack config.threshold
            (sinceAcknowledged calls ++ [x])) ∧
    ∀ redis calls pair x getFails,
      let result := (exec (PerPairCUSUMTracker.step config) (.start redis) calls).updateResult
        config pair x getFails
      (∃ answer, result = .ok answer) ∧
      result = (exec (PerPairCUSUMTracker.step config) (.start redis)
        (calls.filter fun call => call.pair = pair)).updateResult config pair x getFails ∧
      ((PerPairCUSUMTracker.start (K := K) redis).flag config pair ≠ some (some "1") →
        ((∃ alarm, result = .ok (some alarm)) ↔
          FirstCrossing config.mean config.slack config.threshold
            (sinceAcknowledged (pairCalls pair calls) ++ [x]))) ∧
      ∀ alarm, result = .ok (some alarm) →
        AlarmTells config pair (sinceAcknowledged (pairCalls pair calls) ++ [x]) alarm := by
  constructor
  · intro metricName redis fails d₀ hnew calls x
    have htracks := (Tracks.new hnew).exec hpos calls
    rw [htracks.triggered_iff hpos x]
    simp only [not_and, not_not]
    rfl
  · intro redis calls pair x getFails result
    obtain ⟨d, hdetector, waiting, hwaiting, htracks⟩ :=
      (PairTracks.exec hslack hpos pair redis calls).detector hslack hpos getFails
    have hresult : result = .ok (if (d.update x).2 = true then
        some (PerPairCUSUMTracker.alarmOf config pair d x) else none) := by
      dsimp only [result]
      unfold PerPairCUSUMTracker.updateResult
      rw [hdetector]
    refine ⟨⟨_, hresult⟩, ?_, fun hflag => ?_, fun alarm halarm => ?_⟩
    · dsimp only [result]
      unfold PerPairCUSUMTracker.updateResult
      rw [(agree_exec config pair calls (.start redis)).detectorFor getFails]
    · have hidle : ¬waiting := fun hwait => hflag (hwaiting hwait)
      have htriggered := htracks.triggered_iff hpos x
      rw [and_iff_right hidle] at htriggered
      rw [hresult, ← htriggered]
      split_ifs with hupdate
      · simp [hupdate]
      · simp [hupdate]
    · rw [hresult, Except.ok.injEq] at halarm
      split_ifs at halarm with hupdate
      obtain rfl := Option.some.inj halarm
      exact htracks.alarmTells hpos hupdate

/-- A tracker with whole numbers: a mean of 10, no slack and a threshold of 3. -/
private def wholeNumbers : TrackerConfig ℤ := ⟨⟨10, 0, 3⟩, "auc", ⟨none, none, none⟩⟩

/-- With twelve and twelve the second observation is the first to cross. -/
theorem firstCrossing_twelve : FirstCrossing (10 : ℤ) 0 3 [12, 12] :=
  (((alarm_iff_firstCrossing wholeNumbers (by decide) (by decide)).2 none
    [.update "a" 12 false false] "a" 12 false).2.2.1 (by decide)).mp ⟨_, rfl⟩

end LedgerLens.Monitoring
