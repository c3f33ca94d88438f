import LedgerLens.ExactlyOnce.Basic
import LedgerLens.Library.UniqueTable
import Mathlib.Data.List.Induction

/-!
# The ledger of alert deliveries

`AlertDeliveryLedger` keeps one row for each step of a dispatch: the intent, and the outcome
that closes it. A row is stored under its wallet, pair, score and the time in nanoseconds; a
second record under the same key replaces the first.
-/

namespace LedgerLens.Streaming

open ExactlyOnce

/-- `AlertOutcome`. -/
inductive AlertOutcome where
  | inFlight
  | delivered
  | deadLettered
  | suppressedCooldown
  | reconciledSkipped
  deriving DecidableEq, Repr

/-- `TERMINAL_OUTCOMES`: the outcomes that close an intent. -/
def AlertOutcome.terminal : AlertOutcome → Bool
  | .inFlight => false
  | .delivered => true
  | .deadLettered => true
  | .suppressedCooldown => false
  | .reconciledSkipped => true

/-- The delivery channels. -/
inductive AlertChannel where
  | stdout
  | webhook
  | websocket
  deriving DecidableEq, Repr

/-- `AlertDeliveryRecord`. -/
structure AlertDeliveryRecord (Score : Type*) where
  /-- The alerted wallet. -/
  wallet : String
  /-- The pair. -/
  pairId : String
  /-- The risk score. -/
  riskScore : Score
  /-- What happened. -/
  outcome : AlertOutcome
  /-- The channel. -/
  channel : AlertChannel
  /-- The key of the alert. -/
  idempotencyKey : Option String := none
  deriving DecidableEq

/-- `AlertDeliveryLedger`: the rows by canonical key, oldest first. -/
abbrev AlertDeliveryLedger (Score : Type*) := UniqueTable String (AlertDeliveryRecord Score)

/-- `AlertDeliveryLedger._key`. -/
def alertDeliveryKey (wallet pairId scoreText : String) (timeNs : ℤ) : DedupKey where
  source := "alert_delivery"
  externalId := wallet ++ ":" ++ pairId ++ ":" ++ scoreText ++ ":" ++ toString timeNs

namespace AlertDeliveryLedger

variable {Score : Type*}

/-- `all_records`. -/
def allRecords (ledger : AlertDeliveryLedger Score) : List (AlertDeliveryRecord Score) :=
  ledger.rows.map Prod.snd

/-- `is_delivered`. -/
def isDelivered (ledger : AlertDeliveryLedger Score) (key : String) : Bool :=
  ledger.allRecords.any fun r => decide (r.idempotencyKey = some key) && r.outcome.terminal

/-- The intents that `in_flight` looks for: with a key that no terminal outcome closes. -/
def isPending (ledger : AlertDeliveryLedger Score) (r : AlertDeliveryRecord Score) : Bool :=
  decide (r.outcome = .inFlight) &&
    match r.idempotencyKey with
    | none => false
    | some key => decide (key ≠ "") && !ledger.isDelivered key

/-- The dictionary that `in_flight` fills: the latest pending record of each key. -/
def pendingByKey (records : List (AlertDeliveryRecord Score)) :
    UniqueTable String (AlertDeliveryRecord Score) :=
  records.foldl (fun pending r => pending.put (r.idempotencyKey.getD "") r) .empty

/-- `in_flight`. -/
def inFlight (ledger : AlertDeliveryLedger Score) : List (AlertDeliveryRecord Score) :=
  (pendingByKey (ledger.allRecords.filter ledger.isPending)).rows.map Prod.snd

/-- A terminal outcome is recorded for the key. -/
def Closed (ledger : AlertDeliveryLedger Score) (key : String) : Prop :=
  ∃ id r, ledger.find? id = some r ∧ r.idempotencyKey = some key ∧ r.outcome.terminal = true

/-- An intent is recorded for the key. -/
def Opened (ledger : AlertDeliveryLedger Score) (key : String) : Prop :=
  ∃ id r, ledger.find? id = some r ∧ r.idempotencyKey = some key ∧ r.outcome = .inFlight

variable {ledger : AlertDeliveryLedger Score} {key : String} {r : AlertDeliveryRecord Score}

theorem mem_allRecords : r ∈ ledger.allRecords ↔ ∃ id, ledger.find? id = some r := by
  simp [allRecords, UniqueTable.find?_eq_some_iff]

/-- `is_delivered` answers whether a terminal outcome is recorded. -/
theorem isDelivered_iff : ledger.isDelivered key = true ↔ ledger.Closed key := by
  simp only [isDelivered, List.any_eq_true, mem_allRecords, Bool.and_eq_true, decide_eq_true_eq,
    Closed]
  constructor
  · rintro ⟨r, ⟨id, hr⟩, hkey, hterminal⟩
    exact ⟨id, r, hr, hkey, hterminal⟩
  · rintro ⟨id, r, hr, hkey, hterminal⟩
    exact ⟨r, ⟨id, hr⟩, hkey, hterminal⟩

/-- A pending record is an intent that is not closed. -/
theorem isPending_iff : ledger.isPending r = true ↔
    r.outcome = .inFlight ∧ ∃ key, r.idempotencyKey = some key ∧ key ≠ "" ∧
      ¬ledger.Closed key := by
  unfold isPending
  cases hkey : r.idempotencyKey with
  | none => simp
  | some key => simp [← isDelivered_iff]

/-- The dictionary holds a record for each key of the list, and only records of the list under
their own keys. -/
theorem find?_pendingByKey (records : List (AlertDeliveryRecord Score)) (key : String) :
    ((∃ r ∈ records, r.idempotencyKey.getD "" = key) →
        (pendingByKey records).find? key ≠ none) ∧
      ∀ r, (pendingByKey records).find? key = some r →
        r ∈ records ∧ r.idempotencyKey.getD "" = key := by
  induction records using List.reverseRecOn with
  | nil => simp [pendingByKey]
  | append_singleton records last ih =>
    obtain ⟨hfound, hmem⟩ := ih
    have hput : pendingByKey (records ++ [last]) =
        (pendingByKey records).put (last.idempotencyKey.getD "") last := by
      simp [pendingByKey]
    rw [hput, UniqueTable.find?_put]
    by_cases hkey : key = last.idempotencyKey.getD ""
    · rw [if_pos hkey]
      refine ⟨fun _ => Option.some_ne_none _, fun r hr => ?_⟩
      obtain rfl := Option.some.inj hr
      exact ⟨by simp, hkey.symm⟩
    · rw [if_neg hkey]
      refine ⟨?_, fun r hr => ?_⟩
      · rintro ⟨r, hr, hrkey⟩
        rcases List.mem_append.mp hr with hr | hr
        · exact hfound ⟨r, hr, hrkey⟩
        · rw [List.mem_singleton.mp hr] at hrkey
          exact absurd hrkey.symm hkey
      · exact ⟨List.mem_append_left _ (hmem r hr).1, (hmem r hr).2⟩

/-- What `in_flight` returns is pending. -/
theorem of_mem_inFlight (h : r ∈ ledger.inFlight) :
    r ∈ ledger.allRecords ∧ ledger.isPending r = true := by
  simp only [inFlight, List.mem_map] at h
  obtain ⟨⟨key, r'⟩, hmem, rfl⟩ := h
  rw [← UniqueTable.find?_eq_some_iff] at hmem
  exact List.mem_filter.mp ((find?_pendingByKey _ key).2 _ hmem).1

/-- It returns a record for each key that is pending. -/
theorem exists_mem_inFlight (hr : r ∈ ledger.allRecords) (hpending : ledger.isPending r = true) :
    ∃ r' ∈ ledger.inFlight, r'.idempotencyKey = r.idempotencyKey := by
  obtain ⟨_, key, hkey, hne, _⟩ := isPending_iff.mp hpending
  have hfound := (find?_pendingByKey (ledger.allRecords.filter ledger.isPending) key).1
    ⟨r, List.mem_filter.mpr ⟨hr, hpending⟩, by simp [hkey]⟩
  obtain ⟨r', hr'⟩ := Option.ne_none_iff_exists'.mp hfound
  have hrows := (UniqueTable.find?_eq_some_iff _ _ _).mp hr'
  obtain ⟨hmem, hkey'⟩ := (find?_pendingByKey _ key).2 r' hr'
  refine ⟨r', List.mem_map.mpr ⟨_, hrows, rfl⟩, ?_⟩
  obtain ⟨_, key', hr'key, _⟩ := isPending_iff.mp (List.mem_filter.mp hmem).2
  rw [hr'key, Option.getD_some] at hkey'
  rw [hr'key, hkey', hkey]

/-- Nothing is in flight if every intent is closed. -/
theorem inFlight_eq_nil (h : ∀ key, ledger.Opened key → key ≠ "" → ledger.Closed key) :
    ledger.inFlight = [] := by
  rw [List.eq_nil_iff_forall_not_mem]
  intro r hr
  obtain ⟨hmem, hpending⟩ := of_mem_inFlight hr
  obtain ⟨id, hid⟩ := mem_allRecords.mp hmem
  obtain ⟨houtcome, key, hkey, hne, hopen⟩ := isPending_iff.mp hpending
  exact hopen (h key ⟨id, r, hid, hkey, houtcome⟩ hne)

end AlertDeliveryLedger

end LedgerLens.Streaming
