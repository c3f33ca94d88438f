import LedgerLens.Streaming.AlertDispatcher

/-!
# Alerts over crashes

A dispatcher may die after any durable step of a call, and `reconcile_on_startup` closes what
was left in flight. This file determines when that hands each key to the channel at most once.
What the protocol needs is that the ledger keeps its records: a record that replaces another
one can make a delivered alert look new.
-/

namespace LedgerLens.Streaming

open ExactlyOnce Transition

variable {Score : Type*}

/-- A dispatcher's process and the world around it. -/
structure DispatcherRun (Score : Type*) where
  /-- The process is ready to dispatch. -/
  up : Bool := true
  /-- Its cooldowns. -/
  cooldowns : Cooldowns := fun _ => none
  /-- What outlives it. -/
  world : AlertWorld Score := {}
  /-- What was in flight each time `reconcile_on_startup` returned. -/
  reconciled : List (List (AlertDeliveryRecord Score)) := []

/-- What can happen next. A crash comes after a number of the call's durable steps. -/
inductive DispatcherEvent (Score : Type*) where
  /-- A call of `dispatch`, if the process is ready. -/
  | dispatch (input : DispatchInput) (alert : Alert Score) (crash : Option ℕ)
  /-- A new process starts with `reconcile_on_startup`. -/
  | restart (inputs : ℕ → DispatchInput) (crash : Option ℕ)

/-- The durable steps of a call that a crash leaves. -/
def executed (crash : Option ℕ) (steps : List (DurableStep Score)) : List (DurableStep Score) :=
  match crash with
  | none => steps
  | some n => steps.take n

namespace AlertDispatcher

/-- The durable steps that happen with an event. -/
def durable (d : AlertDispatcher Score) (s : DispatcherRun Score) :
    DispatcherEvent Score → List (DurableStep Score)
  | .dispatch input alert crash =>
    if s.up then executed crash (d.dispatch input alert s.cooldowns s.world.ledger).steps else []
  | .restart inputs crash => executed crash (d.reconcileOnStartup inputs s.world.ledger)

/-- One event. -/
def next (d : AlertDispatcher Score) (s : DispatcherRun Score) (e : DispatcherEvent Score) :
    DispatcherRun Score :=
  let world := exec AlertWorld.apply s.world (d.durable s e)
  match e with
  | .dispatch input alert crash =>
    if s.up then
      { s with
        up := crash.isNone
        cooldowns := (d.dispatch input alert s.cooldowns s.world.ledger).cooldowns
        world := world }
    else s
  | .restart _ crash =>
    { up := crash.isNone
      cooldowns := fun _ => none
      world := world
      reconciled :=
        if crash.isNone then s.reconciled ++ [world.ledger.inFlight] else s.reconciled }

end AlertDispatcher

/-- Each key was handed to the channel at most once, and nothing was in flight whenever
`reconcile_on_startup` returned. -/
def DispatcherRun.AtMostOnce (s : DispatcherRun Score) : Prop :=
  (s.world.sends.map Prod.fst).Nodup ∧ ∀ pending ∈ s.reconciled, pending = []

instance : DecidablePred (DispatcherRun.AtMostOnce : DispatcherRun Score → Prop) := fun s =>
  decidable_of_iff
    ((s.world.sends.map Prod.fst).Nodup ∧ ∀ pending ∈ s.reconciled, pending.isEmpty = true)
    (by simp [DispatcherRun.AtMostOnce])

/-- A durable step replaces no record of the ledger that has a key, except for an intent by a
record of the same key. -/
def KeepsRecords (world : AlertWorld Score) : DurableStep Score → Prop
  | .record id r =>
    ∀ old ∈ world.ledger.find? id, old.idempotencyKey = none ∨
      old.outcome = .inFlight ∧ r.idempotencyKey = old.idempotencyKey
  | .send _ _ => True
  | .deadLetter _ => True

/-- All durable steps of an event keep the records. -/
def AlertDispatcher.RecordsKept (d : AlertDispatcher Score) (s : DispatcherRun Score)
    (e : DispatcherEvent Score) : Prop :=
  Meets AlertWorld.apply KeepsRecords s.world (d.durable s e)

/-- A durable step that writes no suppression under a key, and hands nothing to the channel but
a new key whose intent is recorded. -/
def Careful (world : AlertWorld Score) : DurableStep Score → Prop
  | .record _ r => r.outcome = .suppressedCooldown → r.idempotencyKey = none
  | .send key _ => key ≠ "" ∧ key ∉ world.sends.map Prod.fst ∧ world.ledger.Opened key
  | .deadLetter _ => True

/-- The ledger knows the key. -/
def AlertDeliveryLedger.Known (ledger : AlertDeliveryLedger Score) (key : String) : Prop :=
  ledger.Closed key ∨ ledger.Opened key

/-- Each key was handed to the channel at most once, and the ledger knows them all. -/
structure AlertWorld.Sound (world : AlertWorld Score) : Prop where
  /-- No key twice. -/
  nodup : (world.sends.map Prod.fst).Nodup
  /-- All are known. -/
  known : ∀ key ∈ world.sends.map Prod.fst, key ≠ "" ∧ world.ledger.Known key

section Steps

variable {world : AlertWorld Score} {x : DurableStep Score} {key : String}
  {steps : List (DurableStep Score)}

/-- A key stays closed. -/
theorem closed_apply (h : world.ledger.Closed key) (hkeeps : KeepsRecords world x) :
    (world.apply x).ledger.Closed key := by
  cases x with
  | record id r =>
    obtain ⟨id₀, old, hfind, hkey, hterminal⟩ := h
    have hne : id₀ ≠ id := by
      rintro rfl
      rcases hkeeps old hfind with hnone | ⟨houtcome, _⟩
      · rw [hkey] at hnone
        cases hnone
      · rw [houtcome] at hterminal
        cases hterminal
    refine ⟨id₀, old, ?_, hkey, hterminal⟩
    rw [AlertWorld.apply, UniqueTable.find?_put, if_neg hne, hfind]
  | send _ _ => exact h
  | deadLetter _ => exact h

/-- A key stays known. -/
theorem known_apply (h : world.ledger.Known key) (hkeeps : KeepsRecords world x)
    (hcareful : Careful world x) : (world.apply x).ledger.Known key := by
  rcases h with hclosed | ⟨id₀, old, hfind, hkey, hopen⟩
  · exact Or.inl (closed_apply hclosed hkeeps)
  · cases x with
    | record id r =>
      by_cases hsame : id₀ = id
      · subst hsame
        have hrkey : r.idempotencyKey = some key := by
          rcases hkeeps old hfind with hnone | ⟨_, hrkey⟩
          · rw [hkey] at hnone
            cases hnone
          · rw [hrkey, hkey]
        have hnew : (world.apply (.record id₀ r)).ledger.find? id₀ = some r := by
          simp [AlertWorld.apply]
        cases houtcome : r.outcome with
        | inFlight => exact Or.inr ⟨id₀, r, hnew, hrkey, houtcome⟩
        | suppressedCooldown =>
          rw [hcareful houtcome] at hrkey
          cases hrkey
        | delivered => exact Or.inl ⟨id₀, r, hnew, hrkey, by rw [houtcome]; rfl⟩
        | deadLettered => exact Or.inl ⟨id₀, r, hnew, hrkey, by rw [houtcome]; rfl⟩
        | reconciledSkipped => exact Or.inl ⟨id₀, r, hnew, hrkey, by rw [houtcome]; rfl⟩
      · refine Or.inr ⟨id₀, old, ?_, hkey, hopen⟩
        rw [AlertWorld.apply, UniqueTable.find?_put, if_neg hsame, hfind]
    | send _ _ => exact Or.inr ⟨id₀, old, hfind, hkey, hopen⟩
    | deadLetter _ => exact Or.inr ⟨id₀, old, hfind, hkey, hopen⟩

/-- The keys handed to the channel change with a `send` only. -/
theorem sound_apply (h : world.Sound) (hkeeps : KeepsRecords world x)
    (hcareful : Careful world x) : (world.apply x).Sound := by
  have hknown : ∀ k ∈ world.sends.map Prod.fst, k ≠ "" ∧ (world.apply x).ledger.Known k :=
    fun k hk => ⟨(h.known k hk).1, known_apply (h.known k hk).2 hkeeps hcareful⟩
  cases x with
  | record id r => exact ⟨h.nodup, hknown⟩
  | send k taken =>
    have hsends : (world.apply (.send k taken)).sends.map Prod.fst =
        world.sends.map Prod.fst ++ [k] := by
      simp [AlertWorld.apply]
    refine ⟨?_, fun k' hk' => ?_⟩
    · rw [hsends, List.nodup_append]
      refine ⟨h.nodup, List.nodup_singleton k, ?_⟩
      rintro a ha b hb rfl
      rw [List.mem_singleton.mp hb] at ha
      exact hcareful.2.1 ha
    · rw [hsends] at hk'
      rcases List.mem_append.mp hk' with hold | hnew
      · exact hknown k' hold
      · rw [List.mem_singleton.mp hnew]
        exact ⟨hcareful.1, Or.inr hcareful.2.2⟩
  | deadLetter _ => exact ⟨h.nodup, hknown⟩

/-- Careful steps that keep the records keep the world sound. -/
theorem sound_exec (h : world.Sound) (hkeeps : Meets AlertWorld.apply KeepsRecords world steps)
    (hcareful : Meets AlertWorld.apply Careful world steps) :
    (exec AlertWorld.apply world steps).Sound :=
  exec_invariant_of_meets AlertWorld.Sound (fun _ _ hs hcond => sound_apply hs hcond.1 hcond.2) h
    (meets_and_iff.mpr ⟨hkeeps, hcareful⟩)

/-- Steps that keep the records keep every key closed. -/
theorem closed_exec (h : world.ledger.Closed key)
    (hkeeps : Meets AlertWorld.apply KeepsRecords world steps) :
    (exec AlertWorld.apply world steps).ledger.Closed key :=
  exec_invariant_of_meets (fun world => world.ledger.Closed key)
    (fun _ _ hs hcond => closed_apply hs hcond) h hkeeps

/-- A terminal record closes its key for good. -/
theorem closed_of_mem {id : String} {r : AlertDeliveryRecord Score}
    (hmem : .record id r ∈ steps) (hkey : r.idempotencyKey = some key)
    (hterminal : r.outcome.terminal = true)
    (hkeeps : Meets AlertWorld.apply KeepsRecords world steps) :
    (exec AlertWorld.apply world steps).ledger.Closed key := by
  obtain ⟨before, after, rfl⟩ := List.append_of_mem hmem
  rw [meets_append_iff] at hkeeps
  rw [exec_append, exec_cons]
  refine closed_exec ⟨id, r, ?_, hkey, hterminal⟩ hkeeps.2.2
  simp [AlertWorld.apply]

/-- A row of the ledger was there before or is written by one of the steps. -/
theorem find?_exec {id : String} {r : AlertDeliveryRecord Score}
    (h : (exec AlertWorld.apply world steps).ledger.find? id = some r) :
    world.ledger.find? id = some r ∨ .record id r ∈ steps := by
  induction steps generalizing world with
  | nil => exact Or.inl h
  | cons x steps ih =>
    rcases ih h with hfind | hmem
    · cases x with
      | record id' r' =>
        rw [AlertWorld.apply, UniqueTable.find?_put] at hfind
        split_ifs at hfind with hsame
        · cases hfind
          rw [hsame]
          exact Or.inr List.mem_cons_self
        · exact Or.inl hfind
      | send _ _ => exact Or.inl hfind
      | deadLetter _ => exact Or.inl hfind
    · exact Or.inr (List.mem_cons_of_mem _ hmem)

/-- Steps without a `send` hand nothing to the channel. -/
theorem sends_exec (h : ∀ y ∈ steps, ∃ id r, y = .record id r) :
    (exec AlertWorld.apply world steps).sends = world.sends := by
  induction steps generalizing world with
  | nil => rfl
  | cons y steps ih =>
    obtain ⟨id, r, rfl⟩ := h y List.mem_cons_self
    exact ih fun z hz => h z (List.mem_cons_of_mem _ hz)

end Steps

/-- What holds in every state of a run in which the ledger keeps its records. -/
structure DispatcherRun.Sound (s : DispatcherRun Score) : Prop where
  /-- The world is sound. -/
  world : s.world.Sound
  /-- When the process is ready, every key handed to the channel is closed. -/
  closed : s.up = true → ∀ key ∈ s.world.sends.map Prod.fst, s.world.ledger.Closed key
  /-- Reconciliation has left nothing in flight. -/
  reconciled : ∀ pending ∈ s.reconciled, pending = []

section Events

variable {d : AlertDispatcher Score} {s : DispatcherRun Score} {input : DispatchInput}
  {alert : Alert Score} {cooldowns : Cooldowns} {ledger : AlertDeliveryLedger Score}
  {crash : Option ℕ}

/-- A list of records none of which suppresses under a key. -/
def OnlyRecords (steps : List (DurableStep Score)) : Prop :=
  ∀ x ∈ steps, ∃ id r, x = .record id r ∧
    (r.outcome = .suppressedCooldown → r.idempotencyKey = none)

/-- The intent, the `send` and the outcome of an alert. -/
def FullDelivery (ledger : AlertDeliveryLedger Score) (steps : List (DurableStep Score)) : Prop :=
  ∃ key id₁ r₁ id₂ r₂, steps = [.record id₁ r₁, .send key true, .record id₂ r₂] ∧
    key ≠ "" ∧ ¬ledger.Closed key ∧ (r₁.idempotencyKey = some key ∧ r₁.outcome = .inFlight) ∧
    r₂.idempotencyKey = some key ∧ r₂.outcome = .delivered

/-- What a call of `dispatch` does on a channel other than the webhook: it writes records, or
it delivers an alert whose key is not closed. -/
theorem dispatch_steps (input : DispatchInput) (alert : Alert Score) (cooldowns : Cooldowns)
    (ledger : AlertDeliveryLedger Score) (hledger : d.deliveryLedger = true)
    (hchannel : d.channel ≠ .webhook) :
    OnlyRecords (d.dispatch input alert cooldowns ledger).steps ∨
      FullDelivery ledger (d.dispatch input alert cooldowns ledger).steps := by
  by_cases hbelow : d.score alert.score < input.threshold
  · rw [AlertDispatcher.dispatch_of_below hbelow]
    exact Or.inl fun x hx => by cases hx
  · cases hactive : cooldowns.active alert.wallet input.now with
    | true =>
      rw [AlertDispatcher.dispatch_of_active hbelow hactive, AlertDispatcher.record, if_pos hledger]
      left
      intro x hx
      rw [List.mem_singleton.mp hx]
      exact ⟨_, _, rfl, fun _ => rfl⟩
    | false =>
      cases hnew : d.deliveryLedger && ledger.isDelivered (d.idempotencyKey alert input.now) with
      | true =>
        rw [AlertDispatcher.dispatch_of_isDelivered hbelow hactive hnew]
        exact Or.inl fun x hx => by cases hx
      | false =>
        have hopen : ¬ledger.Closed (d.idempotencyKey alert input.now) := by
          rw [← AlertDeliveryLedger.isDelivered_iff]
          simpa [hledger] using hnew
        have hkey := AlertDispatcher.idempotencyKey_ne_empty d alert input.now
        rw [AlertDispatcher.dispatch_of_new hbelow hactive hnew]
        simp only [AlertDispatcher.record, if_pos hledger, AlertDispatcher.deliver]
        cases hd : d.channel with
        | webhook => exact absurd hd hchannel
        | stdout =>
          exact Or.inr ⟨_, _, _, _, _, rfl, hkey, hopen, ⟨rfl, rfl⟩, rfl, rfl⟩
        | websocket =>
          cases input.websocketError with
          | none => exact Or.inr ⟨_, _, _, _, _, rfl, hkey, hopen, ⟨rfl, rfl⟩, rfl, rfl⟩
          | some error =>
            left
            intro x hx
            rw [List.append_nil] at hx
            rw [List.mem_singleton.mp hx]
            exact ⟨_, _, rfl, fun houtcome => by cases houtcome⟩

/-- Records are careful wherever they are written. -/
theorem OnlyRecords.careful {steps : List (DurableStep Score)} (h : OnlyRecords steps)
    (world : AlertWorld Score) : Meets AlertWorld.apply Careful world steps := by
  induction steps generalizing world with
  | nil => trivial
  | cons x steps ih =>
    obtain ⟨id, r, rfl, hr⟩ := h x List.mem_cons_self
    exact ⟨hr, ih (fun y hy => h y (List.mem_cons_of_mem _ hy)) _⟩

/-- So is a delivery in a world where everything handed over is closed. -/
theorem FullDelivery.careful {world : AlertWorld Score} {steps : List (DurableStep Score)}
    (h : FullDelivery world.ledger steps)
    (hclosed : ∀ key ∈ world.sends.map Prod.fst, world.ledger.Closed key) :
    Meets AlertWorld.apply Careful world steps := by
  obtain ⟨key, id₁, r₁, id₂, r₂, rfl, hne, hopen, ⟨hkey, houtcome⟩, _, hdelivered⟩ := h
  refine ⟨fun hsuppressed => ?_, ⟨hne, ?_, id₁, r₁, ?_, hkey, houtcome⟩, fun hsuppressed => ?_,
    trivial⟩
  · rw [houtcome] at hsuppressed
    cases hsuppressed
  · exact fun hmem => hopen (hclosed key hmem)
  · simp [AlertWorld.apply]
  · rw [hdelivered] at hsuppressed
    cases hsuppressed

/-- A call that a crash cuts off does what a part of the call does. -/
theorem Meets.executed {cond : AlertWorld Score → DurableStep Score → Prop}
    {world : AlertWorld Score} {steps : List (DurableStep Score)}
    (h : Meets AlertWorld.apply cond world steps) (crash : Option ℕ) :
    Meets AlertWorld.apply cond world (executed crash steps) := by
  cases crash with
  | none => exact h
  | some n => exact h.take n

/-- `reconcile_on_startup` without a webhook skips every intent in flight, and does nothing
else. -/
theorem reconcile_steps (hledger : d.deliveryLedger = true) (hchannel : d.channel ≠ .webhook)
    (inputs : ℕ → DispatchInput) (ledger : AlertDeliveryLedger Score) :
    (∀ x ∈ d.reconcileOnStartup inputs ledger, ∃ id r, x = .record id r ∧
        r.outcome = .reconciledSkipped) ∧
      ∀ r ∈ ledger.inFlight, ∃ id r', .record id r' ∈ d.reconcileOnStartup inputs ledger ∧
        r'.idempotencyKey = r.idempotencyKey ∧ r'.outcome = .reconciledSkipped := by
  have hskip (input : DispatchInput) (r : AlertDeliveryRecord Score) :
      d.reconcileRecord input r = d.record ⟨r.wallet, r.riskScore, r.pairId⟩ .reconciledSkipped
        r.channel r.idempotencyKey input.outcomeNs :=
    if_neg fun hboth => hchannel hboth.2
  simp only [AlertDispatcher.reconcileOnStartup, if_pos hledger, hskip, AlertDispatcher.record,
    List.mem_flatMap, List.mem_singleton]
  constructor
  · rintro x ⟨ri, _, rfl⟩
    exact ⟨_, _, rfl, rfl⟩
  · intro r hr
    obtain ⟨i, hi⟩ := List.mem_iff_getElem?.mp hr
    exact ⟨_, _, ⟨(r, i), by simpa [List.mem_zipIdx_iff_getElem?] using hi, rfl⟩, rfl, rfl⟩

/-- A complete reconciliation closes every intent. -/
theorem reconcile_closes {world : AlertWorld Score} {key : String}
    (hledger : d.deliveryLedger = true) (hchannel : d.channel ≠ .webhook)
    {inputs : ℕ → DispatchInput}
    (hkeeps : Meets AlertWorld.apply KeepsRecords world
      (d.reconcileOnStartup inputs world.ledger))
    (hopened : world.ledger.Opened key) (hne : key ≠ "") :
    (exec AlertWorld.apply world (d.reconcileOnStartup inputs world.ledger)).ledger.Closed
      key := by
  by_cases hclosed : world.ledger.Closed key
  · exact closed_exec hclosed hkeeps
  · obtain ⟨id, r, hfind, hkey, houtcome⟩ := hopened
    have hpending : world.ledger.isPending r = true :=
      AlertDeliveryLedger.isPending_iff.mpr ⟨houtcome, key, hkey, hne, hclosed⟩
    obtain ⟨r', hr', hr'key⟩ := AlertDeliveryLedger.exists_mem_inFlight
      (AlertDeliveryLedger.mem_allRecords.mpr ⟨id, hfind⟩) hpending
    obtain ⟨id', skipped, hmem, hskey, hskipped⟩ :=
      (reconcile_steps hledger hchannel inputs world.ledger).2 r' hr'
    exact closed_of_mem hmem (by rw [hskey, hr'key, hkey]) (by rw [hskipped]; rfl) hkeeps

/-- A call of `dispatch` keeps the run sound. -/
theorem sound_dispatch (hledger : d.deliveryLedger = true) (hchannel : d.channel ≠ .webhook)
    (h : s.Sound) (hcond : d.RecordsKept s (.dispatch input alert crash)) :
    (d.next s (.dispatch input alert crash)).Sound := by
  unfold AlertDispatcher.RecordsKept at hcond
  by_cases hup : s.up = true
  · simp only [AlertDispatcher.durable, if_pos hup] at hcond
    simp only [AlertDispatcher.next, AlertDispatcher.durable, if_pos hup]
    have hsteps := dispatch_steps input alert s.cooldowns s.world.ledger hledger hchannel
    have hcareful : Meets AlertWorld.apply Careful s.world
        (d.dispatch input alert s.cooldowns s.world.ledger).steps := by
      rcases hsteps with honly | hfull
      · exact honly.careful s.world
      · exact hfull.careful (h.closed hup)
    refine ⟨sound_exec h.world hcond (Meets.executed hcareful crash), fun hcrash => ?_,
      h.reconciled⟩
    have hnone : crash = none := Option.isNone_iff_eq_none.mp hcrash
    subst hnone
    dsimp only [executed] at hcond ⊢
    intro key hkey
    rcases hsteps with honly | hfull
    · rw [sends_exec fun y hy => (honly y hy).imp fun id hid => hid.imp fun r hr => hr.1] at hkey
      exact closed_exec (h.closed hup key hkey) hcond
    · obtain ⟨k, id₁, r₁, id₂, r₂, hshape, _, _, _, hkey₂, hdelivered⟩ := hfull
      have hsends : (exec AlertWorld.apply s.world
          (d.dispatch input alert s.cooldowns s.world.ledger).steps).sends.map Prod.fst =
          s.world.sends.map Prod.fst ++ [k] := by
        rw [hshape]
        simp [AlertWorld.apply]
      rw [hsends] at hkey
      rcases List.mem_append.mp hkey with hold | hnew
      · exact closed_exec (h.closed hup key hold) hcond
      · rw [List.mem_singleton.mp hnew]
        have hmem : DurableStep.record id₂ r₂ ∈
            (d.dispatch input alert s.cooldowns s.world.ledger).steps := by simp [hshape]
        exact closed_of_mem hmem hkey₂ (by rw [hdelivered]; rfl) hcond
  · simpa only [AlertDispatcher.next, if_neg hup] using h

/-- A restart keeps the run sound. -/
theorem sound_restart (hledger : d.deliveryLedger = true) (hchannel : d.channel ≠ .webhook)
    (h : s.Sound) {inputs : ℕ → DispatchInput} (hcond : d.RecordsKept s (.restart inputs crash)) :
    (d.next s (.restart inputs crash)).Sound := by
  unfold AlertDispatcher.RecordsKept at hcond
  simp only [AlertDispatcher.durable] at hcond
  simp only [AlertDispatcher.next, AlertDispatcher.durable]
  have hrecords := (reconcile_steps hledger hchannel inputs s.world.ledger).1
  have honly : OnlyRecords (d.reconcileOnStartup inputs s.world.ledger) := by
    intro x hx
    obtain ⟨id, r, rfl, houtcome⟩ := hrecords x hx
    refine ⟨id, r, rfl, fun hsuppressed => ?_⟩
    rw [houtcome] at hsuppressed
    cases hsuppressed
  refine ⟨sound_exec h.world hcond (Meets.executed (honly.careful s.world) crash),
    fun hcrash key hkey => ?_, ?_⟩
  · have hnone : crash = none := Option.isNone_iff_eq_none.mp hcrash
    subst hnone
    dsimp only [executed] at hcond hkey ⊢
    rw [sends_exec fun y hy => (honly y hy).imp fun id hid => hid.imp fun r hr => hr.1] at hkey
    obtain ⟨hne, hclosed | hopened⟩ := h.world.known key hkey
    · exact closed_exec hclosed hcond
    · exact reconcile_closes hledger hchannel hcond hopened hne
  · cases crash with
    | some n => exact h.reconciled
    | none =>
      intro pending hpending
      rcases List.mem_append.mp hpending with hold | hnew
      · exact h.reconciled pending hold
      · rw [List.mem_singleton.mp hnew]
        apply AlertDeliveryLedger.inFlight_eq_nil
        rintro key ⟨id, r, hfind, hkey, houtcome⟩ hne
        rcases find?_exec hfind with hold | hwritten
        · exact reconcile_closes hledger hchannel hcond ⟨id, r, hold, hkey, houtcome⟩ hne
        · obtain ⟨id', r', heq, hskipped⟩ := hrecords _ hwritten
          obtain ⟨rfl, rfl⟩ := DurableStep.record.inj heq
          rw [houtcome] at hskipped
          cases hskipped

end Events

/-- On a channel other than the webhook and with a ledger, over any dispatches, crashes between
any durable steps and restarts: as long as no record replaces another one that has a key, other
than an intent by a record of its key, each key is handed to the channel at most once, and
after each reconciliation nothing is in flight. -/
theorem alerts_at_most_once {d : AlertDispatcher Score} (hledger : d.deliveryLedger = true)
    (hchannel : d.channel ≠ .webhook) {es : List (DispatcherEvent Score)}
    (hkept : Meets d.next d.RecordsKept {} es) : Always d.next DispatcherRun.AtMostOnce {} es := by
  refine always_of_meets DispatcherRun.Sound (fun _ h => ⟨h.world.nodup, h.reconciled⟩) ?_ ?_ hkept
  · intro s e h hcond
    cases e with
    | dispatch input alert crash => exact sound_dispatch hledger hchannel h hcond
    | restart inputs crash => exact sound_restart hledger hchannel h hcond
  · refine ⟨⟨List.nodup_nil, fun key hkey => ?_⟩, fun _ key hkey => ?_, fun pending hpending => ?_⟩
    · cases hkey
    · cases hkey
    · cases hpending

instance (world : AlertWorld Score) : DecidablePred (KeepsRecords world)
  | .record id _ => inferInstanceAs (Decidable (∀ old ∈ world.ledger.find? id, _ ∨ _ ∧ _))
  | .send _ _ => inferInstanceAs (Decidable True)
  | .deadLetter _ => inferInstanceAs (Decidable True)

instance (d : AlertDispatcher Score) (s : DispatcherRun Score) :
    DecidablePred (d.RecordsKept s) := fun e =>
  inferInstanceAs (Decidable (Meets AlertWorld.apply KeepsRecords s.world (d.durable s e)))

/-- A dispatcher for whole-number scores. -/
def stdoutDispatcher : AlertDispatcher ℕ where
  score := fun score => score
  scoreText := toString

/-- A call of it at a time in nanoseconds, when the ledger is written at two others. -/
def dispatchAt (now intentNs outcomeNs : ℤ) : DispatchInput where
  threshold := 70
  now := now / 1000000000
  intentNs := intentNs
  outcomeNs := outcomeNs

/-- A high score. -/
def highScore : Alert ℕ := ⟨"GA", 90, "XLM/USDC"⟩

/-- A process that dies after the alert was handed over, and the next one. -/
theorem alerts_at_most_once_after_crash :
    Always stdoutDispatcher.next DispatcherRun.AtMostOnce {}
      [.dispatch (dispatchAt 0 1 2) highScore (some 2), .restart (fun _ => dispatchAt 3 4 5) none,
        .dispatch (dispatchAt 6 7 8) highScore none] :=
  alerts_at_most_once rfl (by decide) (by decide +kernel)

/-- The clock stands still: the record of a suppressed alert replaces that of the delivered
one, and after a restart the same alert is handed over again. -/
theorem replaced_record_sends_twice :
    ¬Always stdoutDispatcher.next DispatcherRun.AtMostOnce {}
      [.dispatch (dispatchAt 0 0 0) highScore none, .dispatch (dispatchAt 0 0 0) highScore none,
        .restart (fun _ => dispatchAt 0 0 0) none,
        .dispatch (dispatchAt 0 0 0) highScore none] := by
  decide +kernel

end LedgerLens.Streaming
