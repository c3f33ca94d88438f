import LedgerLens.Detection.RiskPropagation
import LedgerLens.Library.ExpiringRows
import LedgerLens.Library.Runs

/-!
# The emergency watchdog

`EmergencyWatchdog` keeps the scores of the last minute and proposes a pause to the contract when
too many of them are anomalous, or too late. The proposal is made at most once. The call of the
contract may raise, which is logged and otherwise not noticed: `check` returns `True` all the same.
-/

namespace LedgerLens.Monitoring

open Detection.Propagation (roundHalfEven)
open Transition

/-- A score that was recorded. -/
structure Observation where
  /-- `time.monotonic()`. -/
  timestamp : ℚ
  /-- `score`. -/
  score : ℤ
  /-- `e2e_latency_ms`. -/
  latency : Option ℚ
  deriving DecidableEq

/-- How a watchdog is made. -/
structure WatchdogConfig where
  /-- `window_seconds`. -/
  windowSeconds : ℤ := 60
  /-- `anomaly_score_threshold`. -/
  anomalyScoreThreshold : ℤ := 95
  /-- `anomaly_rate_threshold`. -/
  anomalyRateThreshold : ℚ := 9 / 10
  /-- `latency_budget_ms`. -/
  latencyBudgetMs : ℤ := 2000
  /-- There is a `heartbeat_url`, given or from the environment. -/
  heartbeatUrl : Bool := false
  /-- `heartbeat_interval_seconds`. -/
  heartbeatIntervalSeconds : ℤ := 30
  /-- There is an `on_pause_proposed`. -/
  hasCallback : Bool := false

/-- `EmergencyWatchdog`. -/
structure EmergencyWatchdog where
  /-- `_window`. -/
  window : List Observation := []
  /-- `_pause_proposed`. -/
  pauseProposed : Bool := false
  /-- `_last_heartbeat`. -/
  lastHeartbeat : ℚ := 0

/-- What comes of `initiate_emergency_pause`. -/
inductive ContractCall where
  /-- The client cannot be made. -/
  | noClient
  /-- The call raises. -/
  | raises
  /-- The call returns the proposal. -/
  | returns (proposalId : ℤ)
  deriving DecidableEq

/-- The proposal that is on the chain after the call. -/
def ContractCall.proposal? : ContractCall → Option ℤ
  | .noClient => none
  | .raises => none
  | .returns proposalId => some proposalId

/-- What `check` finds outside. -/
structure CheckInput where
  /-- The clock in `_maybe_heartbeat`. -/
  heartbeatTime : ℚ
  /-- The clock in `_evict_old`. -/
  now : ℚ
  /-- The call of the contract, if it is made. -/
  contract : ContractCall
  /-- The callback raises, if it is called. -/
  callbackRaises : Bool := false

/-- What `check` does. -/
structure CheckOutcome where
  /-- The watchdog after it. -/
  watchdog : EmergencyWatchdog
  /-- What it returns. -/
  returned : Bool
  /-- The reason with which a pause is proposed. -/
  attempted : Option String := none
  /-- The proposal that the contract has accepted. -/
  submitted : Option ℤ := none
  /-- The arguments of the callback. -/
  notified : Option (ℤ × String) := none
  /-- `failed to propose emergency pause` is logged. -/
  failureLogged : Bool := false

variable (config : WatchdogConfig)

/-- The fraction of the scores above the threshold. -/
def scoreRate (window : List Observation) : ℚ :=
  (window.countP fun o => config.anomalyScoreThreshold < o.score : ℚ) / window.length

/-- The fraction of the latencies above the budget. -/
def latencyRate (window : List Observation) : ℚ :=
  let latencyRecords := window.countP fun o => o.latency.isSome
  if 0 < latencyRecords then
    (window.countP fun o => o.latency.any fun l => (config.latencyBudgetMs : ℚ) < l : ℚ) /
      latencyRecords
  else 0

/-- `f"{x:.0%}"`. -/
def percent (x : ℚ) : String := toString (roundHalfEven (x * 100)) ++ "%"

/-- The reason of a proposal because of the scores. -/
def scoreReason (window : List Observation) : String :=
  "Anomalous score distribution: " ++ percent (scoreRate config window) ++
    " of scores in the last " ++ toString config.windowSeconds ++ "s exceed " ++
    toString config.anomalyScoreThreshold ++ " (threshold: " ++
    percent config.anomalyRateThreshold ++ ")"

/-- The reason of a proposal because of the latencies. -/
def latencyReason (window : List Observation) : String :=
  "Latency budget breached: " ++ percent (latencyRate config window) ++
    " of events in the last " ++ toString config.windowSeconds ++ "s exceed " ++
    toString config.latencyBudgetMs ++ "ms (threshold: " ++
    percent config.anomalyRateThreshold ++ ")"

namespace EmergencyWatchdog

variable (w : EmergencyWatchdog)

/-- `record_score`. -/
def recordScore (now : ℚ) (score : ℤ) (latency : Option ℚ) : EmergencyWatchdog :=
  { w with window := w.window ++ [⟨now, score, latency⟩] }

/-- `_evict_old`. -/
def evictOld (now : ℚ) : EmergencyWatchdog :=
  { w with window := w.window.dropWhile fun o => o.timestamp < now - config.windowSeconds }

/-- `_maybe_heartbeat`, of which a failure is only logged. -/
def maybeHeartbeat (now : ℚ) : EmergencyWatchdog :=
  if !config.heartbeatUrl then w
  else if now - w.lastHeartbeat < config.heartbeatIntervalSeconds then w
  else { w with lastHeartbeat := now }

/-- `_propose_pause`, after which `check` returns `True`. What is raised in it goes to the log. -/
def proposePause (input : CheckInput) (reason : String) : CheckOutcome :=
  match input.contract.proposal? with
  | none => { watchdog := w, returned := true, attempted := some reason, failureLogged := true }
  | some proposalId =>
    { watchdog := { w with pauseProposed := true }
      returned := true
      attempted := some reason
      submitted := some proposalId
      notified := if config.hasCallback then some (proposalId, reason) else none
      failureLogged := config.hasCallback && input.callbackRaises }

/-- `check` from the window on. -/
def evaluate (input : CheckInput) : CheckOutcome :=
  if w.window.length < 10 then { watchdog := w, returned := false }
  else if config.anomalyRateThreshold < scoreRate config w.window then
    w.proposePause config input (scoreReason config w.window)
  else if config.anomalyRateThreshold < latencyRate config w.window then
    w.proposePause config input (latencyReason config w.window)
  else { watchdog := w, returned := false }

/-- `check`. -/
def check (input : CheckInput) : CheckOutcome :=
  let w := w.maybeHeartbeat config input.heartbeatTime
  if w.pauseProposed then { watchdog := w, returned := false }
  else (w.evictOld config input.now).evaluate config input

/-- `anomaly_rate`, and the watchdog after it. -/
def anomalyRate (now : ℚ) : EmergencyWatchdog × ℚ :=
  let w := w.evictOld config now
  (w, if w.window = [] then 0 else scoreRate config w.window)

end EmergencyWatchdog

/-- A call of the watchdog. -/
inductive WatchdogCall where
  /-- `record_score`. -/
  | recordScore (now : ℚ) (score : ℤ) (latency : Option ℚ)
  /-- `check`. -/
  | check (input : CheckInput)
  /-- `anomaly_rate`. -/
  | anomalyRate (now : ℚ)

/-- The reading of the clock by which a call keeps the window. -/
def WatchdogCall.now : WatchdogCall → ℚ
  | .recordScore now _ _ => now
  | .check input => input.now
  | .anomalyRate now => now

/-- The watchdog, and what has happened. -/
structure Watch where
  /-- The watchdog. -/
  watchdog : EmergencyWatchdog := {}
  /-- All scores that were recorded. -/
  recorded : List Observation := []
  /-- The proposals that the contract has accepted. -/
  proposals : List ℤ := []

/-- A call. -/
def Watch.step (s : Watch) : WatchdogCall → Watch
  | .recordScore now score latency =>
    { s with
      watchdog := s.watchdog.recordScore now score latency
      recorded := s.recorded ++ [⟨now, score, latency⟩] }
  | .check input =>
    { s with
      watchdog := (s.watchdog.check config input).watchdog
      proposals := s.proposals ++ (s.watchdog.check config input).submitted.toList }
  | .anomalyRate now => { s with watchdog := (s.watchdog.anomalyRate config now).1 }

/-- The scores that were recorded within the last minute, or what the window is set to. -/
def Watch.recent (s : Watch) (now : ℚ) : List Observation :=
  s.recorded.filter fun o => now - config.windowSeconds ≤ o.timestamp

/-- There are enough scores, of which too many are anomalous. -/
def TooAnomalous (window : List Observation) : Prop :=
  10 ≤ window.length ∧ config.anomalyRateThreshold < scoreRate config window

/-- There are enough scores, of which too many are late. -/
def TooLate (window : List Observation) : Prop :=
  10 ≤ window.length ∧ config.anomalyRateThreshold < latencyRate config window

/-- There is a reason for a proposal. -/
def Alarming (window : List Observation) : Prop :=
  TooAnomalous config window ∨ TooLate config window

/-- `check` returns `True` exactly if the contract has accepted a proposal in it. -/
def TellsProposal (s : Watch) : WatchdogCall → Prop
  | .check input =>
    (s.watchdog.check config input).returned = true ↔
      ∃ proposalId, (s.watchdog.check config input).submitted = some proposalId
  | _ => True

/-- `check` makes an attempt exactly if no proposal was accepted before and there is a reason in
the scores of the last minute. -/
def AttemptsOnAlarm (s : Watch) : WatchdogCall → Prop
  | .check input =>
    (∃ reason, (s.watchdog.check config input).attempted = some reason) ↔
      s.proposals = [] ∧ Alarming config (s.recent config input.now)
  | _ => True

/-- If no proposal was accepted before and there is a reason for one, the contract accepts it. -/
def AcceptedOnAlarm (s : Watch) : WatchdogCall → Prop
  | .check input =>
    s.proposals = [] → Alarming config (s.recent config input.now) →
      ∃ proposalId, input.contract = .returns proposalId
  | _ => True

variable {config} {s : Watch} {clock : ℚ}

namespace EmergencyWatchdog

variable {w : EmergencyWatchdog} {input : CheckInput}

@[simp] theorem maybeHeartbeat_window (now : ℚ) :
    (w.maybeHeartbeat config now).window = w.window := by
  unfold maybeHeartbeat
  split_ifs <;> rfl

@[simp] theorem maybeHeartbeat_pauseProposed (now : ℚ) :
    (w.maybeHeartbeat config now).pauseProposed = w.pauseProposed := by
  unfold maybeHeartbeat
  split_ifs <;> rfl

/-- What follows the eviction: a proposal, if there is a reason for one. -/
theorem evaluate_cases (config : WatchdogConfig) (w : EmergencyWatchdog) (input : CheckInput) :
    (¬Alarming config w.window ∧ w.evaluate config input = { watchdog := w, returned := false }) ∨
      (Alarming config w.window ∧
        ∃ reason, w.evaluate config input = w.proposePause config input reason) := by
  unfold evaluate Alarming TooAnomalous TooLate
  by_cases hfew : w.window.length < 10
  · exact .inl ⟨by omega, if_pos hfew⟩
  · rw [if_neg hfew]
    have henough : 10 ≤ w.window.length := not_lt.mp hfew
    by_cases hscores : config.anomalyRateThreshold < scoreRate config w.window
    · exact .inr ⟨.inl ⟨henough, hscores⟩, _, if_pos hscores⟩
    · rw [if_neg hscores]
      by_cases hlatency : config.anomalyRateThreshold < latencyRate config w.window
      · exact .inr ⟨.inr ⟨henough, hlatency⟩, _, if_pos hlatency⟩
      · exact .inl ⟨fun h => h.elim (fun h => hscores h.2) fun h => hlatency h.2, if_neg hlatency⟩

/-- The window after an eviction. -/
def seen (config : WatchdogConfig) (w : EmergencyWatchdog) (now : ℚ) : List Observation :=
  (w.evictOld config now).window

/-- What a check does: nothing, if a proposal was accepted before; otherwise it evicts, and
proposes a pause if there is a reason. -/
theorem check_cases (config : WatchdogConfig) (w : EmergencyWatchdog) (input : CheckInput) :
    (w.pauseProposed = true ∧ w.check config input =
      { watchdog := w.maybeHeartbeat config input.heartbeatTime, returned := false }) ∨
    ∃ w', w'.window = w.seen config input.now ∧ w'.pauseProposed = false ∧
      w.pauseProposed = false ∧
      ((¬Alarming config w'.window ∧
        w.check config input = { watchdog := w', returned := false }) ∨
      (Alarming config w'.window ∧
        ∃ reason, w.check config input = w'.proposePause config input reason)) := by
  unfold check
  cases hproposed : w.pauseProposed with
  | true => exact .inl ⟨rfl, by simp [hproposed]⟩
  | false =>
    have hcheck : (w.maybeHeartbeat config input.heartbeatTime).pauseProposed = false := by
      rw [maybeHeartbeat_pauseProposed, hproposed]
    refine .inr ⟨(w.maybeHeartbeat config input.heartbeatTime).evictOld config input.now,
      by simp [seen, evictOld], hcheck, rfl, ?_⟩
    dsimp only
    rw [hcheck, if_neg Bool.false_ne_true]
    exact evaluate_cases config _ input

/-- No proposal was accepted before, and there is a reason for one in the window. -/
def Attempts (config : WatchdogConfig) (w : EmergencyWatchdog) (now : ℚ) : Prop :=
  w.pauseProposed = false ∧ Alarming config (w.seen config now)

/-- What a check does, by whether it makes an attempt. -/
structure Checks (config : WatchdogConfig) (w : EmergencyWatchdog) (input : CheckInput) : Prop where
  /-- When it makes one. -/
  attempted : (∃ reason, (w.check config input).attempted = some reason) ↔
    w.Attempts config input.now
  /-- When it returns `True`. -/
  returned : (w.check config input).returned = true ↔ w.Attempts config input.now
  /-- When a proposal is accepted. -/
  submitted : ∀ proposalId, (w.check config input).submitted = some proposalId ↔
    w.Attempts config input.now ∧ input.contract = .returns proposalId
  /-- The window after it. -/
  window : (w.check config input).watchdog.window = w.window ∨
    (w.check config input).watchdog.window = w.seen config input.now
  /-- What is noted after it. -/
  noted : (w.check config input).watchdog.pauseProposed =
    (w.pauseProposed || (w.check config input).submitted.isSome)

theorem checks (config : WatchdogConfig) (w : EmergencyWatchdog) (input : CheckInput) :
    Checks config w input := by
  obtain ⟨hproposed, hcheck⟩ | ⟨w', hwindow, hidle, hproposed, hcases⟩ :=
    check_cases config w input
  · have hnone : ¬w.Attempts config input.now := fun h => by simp [h.1] at hproposed
    constructor <;> simp [hcheck, hproposed, hnone]
  · obtain ⟨hquiet, hcheck⟩ | ⟨halarm, reason, hcheck⟩ := hcases
    · have hnone : ¬w.Attempts config input.now := fun h => hquiet (hwindow ▸ h.2)
      constructor <;> simp [hcheck, hproposed, hnone, hidle, hwindow]
    · have hattempts : w.Attempts config input.now := ⟨hproposed, hwindow ▸ halarm⟩
      unfold proposePause at hcheck
      cases hcontract : input.contract with
      | returns proposalId =>
        simp only [hcontract, ContractCall.proposal?] at hcheck
        constructor <;> simp [hcheck, hproposed, hattempts, hwindow, hcontract]
      | _ =>
        simp only [hcontract, ContractCall.proposal?] at hcheck
        constructor <;> simp [hcheck, hproposed, hattempts, hidle, hwindow, hcontract]

end EmergencyWatchdog

open EmergencyWatchdog

/-- The window has the scores of the last minute, and a proposal was accepted if it is noted. -/
structure KeepsWatch (config : WatchdogConfig) (s : Watch) (clock : ℚ) : Prop where
  /-- The scores are in order. -/
  sorted : s.watchdog.window.Pairwise fun a b => a.timestamp ≤ b.timestamp
  /-- None is from later. -/
  past : ∀ o ∈ s.watchdog.window, o.timestamp ≤ clock
  /-- From now on none is missing. -/
  complete : ∀ now, clock ≤ now →
    (s.watchdog.window.filter fun o => now - config.windowSeconds ≤ o.timestamp) =
      s.recent config now
  /-- What is noted of the proposals. -/
  noted : s.watchdog.pauseProposed = true ↔ s.proposals ≠ []
  /-- There is at most one. -/
  once : s.proposals.length ≤ 1

namespace KeepsWatch

/-- The window that a check sees. -/
theorem seen_eq (h : KeepsWatch config s clock) {now : ℚ} (hnow : clock ≤ now) :
    s.watchdog.seen config now = s.recent config now :=
  (ExpiringRows.dropWhile_eq_filter h.sorted).trans (h.complete now hnow)

/-- The window as it was, or after an eviction. -/
theorem next (h : KeepsWatch config s clock) {now : ℚ} (hnow : clock ≤ now) {w : EmergencyWatchdog}
    (hwindow : w.window = s.watchdog.window ∨ w.window = s.watchdog.seen config now)
    {proposals : List ℤ} (hnoted : w.pauseProposed = true ↔ proposals ≠ [])
    (honce : proposals.length ≤ 1) :
    KeepsWatch config { s with watchdog := w, proposals := proposals } now := by
  have hsub : w.window.Sublist s.watchdog.window := by
    obtain hwindow | hwindow := hwindow
    · rw [hwindow]
    · rw [hwindow]
      exact List.dropWhile_sublist _
  refine ⟨h.sorted.sublist hsub, fun o ho => (h.past o (hsub.subset ho)).trans hnow, ?_, hnoted,
    honce⟩
  intro later hlater
  have hcomplete := h.complete later (hnow.trans hlater)
  obtain hwindow | hwindow := hwindow
  · dsimp only
    rw [hwindow]
    exact hcomplete
  · have hcutoff : now - config.windowSeconds ≤ later - config.windowSeconds :=
      sub_le_sub_right hlater _
    dsimp only
    rw [hwindow]
    exact (ExpiringRows.filter_dropWhile hcutoff _).trans hcomplete

/-- A watchdog attempts a proposal if none was accepted and there is a reason for one in the scores
of the last minute. -/
theorem attempts_iff (h : KeepsWatch config s clock) {now : ℚ} (hnow : clock ≤ now) :
    s.watchdog.Attempts config now ↔ s.proposals = [] ∧ Alarming config (s.recent config now) := by
  rw [Attempts, h.seen_eq hnow, ← Bool.not_eq_true, h.noted, not_not]

/-- A check. -/
theorem check (h : KeepsWatch config s clock) (input : CheckInput) (hnow : clock ≤ input.now) :
    KeepsWatch config (s.step config (.check input)) input.now := by
  have hchecks := checks config s.watchdog input
  have hnoted : (s.watchdog.check config input).watchdog.pauseProposed = true ↔
      s.proposals ++ (s.watchdog.check config input).submitted.toList ≠ [] := by
    rw [hchecks.noted, Bool.or_eq_true, h.noted]
    cases (s.watchdog.check config input).submitted <;> simp
  have honce : (s.proposals ++ (s.watchdog.check config input).submitted.toList).length ≤ 1 := by
    cases hsubmitted : (s.watchdog.check config input).submitted with
    | none => simpa using h.once
    | some proposalId =>
      have hattempts := ((hchecks.submitted proposalId).mp hsubmitted).1
      simp [((h.attempts_iff hnow).mp hattempts).1]
  exact h.next hnow hchecks.window hnoted honce

/-- Calls keep the watch. -/
theorem step (h : KeepsWatch config s clock) (call : WatchdogCall) (hnow : clock ≤ call.now) :
    KeepsWatch config (s.step config call) call.now := by
  cases call with
  | check input => exact h.check input hnow
  | anomalyRate now => exact h.next hnow (.inr rfl) h.noted h.once
  | recordScore now score latency =>
    refine ⟨?_, ?_, ?_, h.noted, h.once⟩
    · refine List.pairwise_append.mpr ⟨h.sorted, List.pairwise_singleton _ _, ?_⟩
      intro o ho o' ho'
      rw [List.mem_singleton.mp ho']
      exact (h.past o ho).trans hnow
    · intro o ho
      obtain ho | ho := List.mem_append.mp ho
      · exact (h.past o ho).trans hnow
      · rw [List.mem_singleton.mp ho]
        exact le_rfl
    · intro later hlater
      simp only [Watch.step, recordScore, Watch.recent, List.filter_append]
      rw [h.complete later (hnow.trans hlater), Watch.recent]

end KeepsWatch

/-- The start. -/
theorem keepsWatch_start (clock : ℚ) : KeepsWatch config {} clock :=
  ⟨List.Pairwise.nil, fun o ho => (List.not_mem_nil ho).elim, fun _ _ => rfl, by decide,
    Nat.zero_le 1⟩

/-- What a call in a watch does. -/
structure WatchedCall (config : WatchdogConfig) (s : Watch) (call : WatchdogCall) : Prop where
  /-- An attempt is made when there is a reason. -/
  attempts : AttemptsOnAlarm config s call
  /-- What is returned tells whether there is a proposal, if and only if an attempt succeeds. -/
  tells_iff : TellsProposal config s call ↔ AcceptedOnAlarm config s call

theorem KeepsWatch.watchedCall (h : KeepsWatch config s clock) (call : WatchdogCall)
    (hnow : clock ≤ call.now) : WatchedCall config s call := by
  cases call with
  | recordScore => exact ⟨trivial, Iff.rfl⟩
  | anomalyRate => exact ⟨trivial, Iff.rfl⟩
  | check input =>
    have hchecks := checks config s.watchdog input
    have hattempts : s.watchdog.Attempts config input.now ↔ _ := h.attempts_iff hnow
    refine ⟨hchecks.attempted.trans hattempts, ?_⟩
    unfold TellsProposal AcceptedOnAlarm
    dsimp only
    simp only [hchecks.returned, hchecks.submitted, exists_and_left, ← and_imp, ← hattempts]
    tauto

/-- A run with a monotone clock is a watch. -/
theorem watched {calls : List WatchdogCall}
    (hclock : (calls.map WatchdogCall.now).Pairwise (· ≤ ·)) (h : KeepsWatch config s clock)
    (hnow : ∀ call ∈ calls, clock ≤ call.now) :
    Always (Watch.step config) (fun s => s.proposals.length ≤ 1) s calls ∧
      Meets (Watch.step config) (WatchedCall config) s calls := by
  induction calls generalizing s clock with
  | nil => exact ⟨h.once, trivial⟩
  | cons call calls ih =>
    rw [List.map_cons, List.pairwise_cons] at hclock
    have hcall := hnow call List.mem_cons_self
    obtain ⟨honce, hrest⟩ := ih hclock.2 (h.step call hcall)
      fun later hlater => hclock.1 _ (List.mem_map_of_mem hlater)
    exact ⟨⟨h.once, honce⟩, h.watchedCall call hcall, hrest⟩

/-- If the clock never goes back, the contract accepts at most one proposal, and a check makes an
attempt exactly if none was accepted and there is a reason for one in the scores of the last minute.
All checks tell whether a proposal was accepted in them exactly if no attempt fails. -/
theorem check_tells_iff (config : WatchdogConfig) {calls : List WatchdogCall}
    (hclock : (calls.map WatchdogCall.now).Pairwise (· ≤ ·)) :
    Always (Watch.step config) (fun s => s.proposals.length ≤ 1) {} calls ∧
      Meets (Watch.step config) (AttemptsOnAlarm config) {} calls ∧
      (Meets (Watch.step config) (TellsProposal config) {} calls ↔
        Meets (Watch.step config) (AcceptedOnAlarm config) {} calls) := by
  have hwatched : Always (Watch.step config) (fun s => s.proposals.length ≤ 1) {} calls ∧
      Meets (Watch.step config) (WatchedCall config) {} calls := by
    cases calls with
    | nil => exact ⟨Nat.zero_le 1, trivial⟩
    | cons call calls =>
      refine watched hclock (keepsWatch_start call.now) fun later hlater => ?_
      obtain rfl | hlater := List.mem_cons.mp hlater
      · exact le_rfl
      · exact (List.pairwise_cons.mp hclock).1 _ (List.mem_map_of_mem hlater)
  exact ⟨hwatched.1, hwatched.2.imp fun _ _ h => h.attempts,
    (hwatched.2.imp fun _ _ h => h.tells_iff).congr⟩

/-- Ten anomalous scores. -/
private def tenScores : List WatchdogCall := List.replicate 10 (.recordScore 0 99 none)

/-- A check. -/
private def checkWith (contract : ContractCall) : WatchdogCall := .check ⟨1, 1, contract, false⟩

/-- The contract accepts the proposal after ten anomalous scores. -/
theorem check_tells_accepted :
    Meets (Watch.step {}) (TellsProposal {}) {} (tenScores ++ [checkWith (.returns 42)]) := by
  have hclock : ((tenScores ++ [checkWith (.returns 42)]).map WatchdogCall.now).Pairwise
      (· ≤ ·) := by decide +kernel
  refine (check_tells_iff {} hclock).2.2.mpr (meets_append_iff.mpr ⟨?_, fun _ _ => ⟨42, rfl⟩,
    trivial⟩)
  simp [tenScores, List.replicate, Meets, AcceptedOnAlarm]

/-- If its call raises, the check returns `True` although there is no proposal. -/
theorem check_raising_call :
    ((tenScores ++ [checkWith .raises]).map WatchdogCall.now).Pairwise (· ≤ ·) ∧
      ¬Meets (Watch.step {}) (TellsProposal {}) {} (tenScores ++ [checkWith .raises]) := by
  constructor
  · decide +kernel
  · intro hmeets
    have htells := (meets_append_iff.mp hmeets).2.1
    have hnone : ((exec (Watch.step {}) {} tenScores).watchdog.check {}
        ⟨1, 1, .raises, false⟩).submitted = none := by decide +kernel
    obtain ⟨proposalId, hsome⟩ := htells.mp (by decide +kernel)
    rw [hnone] at hsome
    cases hsome

end LedgerLens.Monitoring
