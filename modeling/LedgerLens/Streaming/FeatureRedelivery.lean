import LedgerLens.Library.Runs
import LedgerLens.Streaming.FeatureBuffer

/-!
# Redelivered trades

A history of a feature buffer with the record of what was applied: one entry whenever a
trade's id is applied to a wallet. The buffer recognizes a redelivered trade by the wallet's
index, which forgets an id together with the trade: when the deque is full, and when the
wallet is evicted. So a redelivery is without effect exactly as long as the trade is still
in the deques.
-/

namespace LedgerLens.Streaming

open Transition

variable {R : Type}

/-- The wallet holds a trade with the id in its deque. -/
def FeatureBuffer.Holds (buffer : FeatureBuffer R) (wallet tradeId : String) : Prop :=
  ∃ state, buffer.wallets.find? wallet = some state ∧ ∃ record ∈ state.trades,
    record.tradeId = tradeId

/-- Where a new wallet would take the place of another: the buffer is full, and the other is
the least recently used. -/
def FeatureBuffer.Evicts (config : BufferConfig R) (buffer : FeatureBuffer R)
    (wallet victim : String) : Prop :=
  buffer.wallets.find? wallet = none ∧
    config.maxWallets = some buffer.wallets.rows.length ∧ buffer.wallets.first? = some victim

/-- A buffer with the record of its updates. -/
structure BufferHistory (R : Type) where
  /-- The buffer. -/
  buffer : FeatureBuffer R := {}
  /-- The wallets and trade ids of the feature-state updates so far. -/
  applied : List (String × String) := []

/-- A call of the buffer. -/
inductive BufferCall where
  /-- `update`. -/
  | update (trade : Trade)
  /-- `get_feature_row`. -/
  | getFeatureRow (wallet : String)

/-- Whether a round of the loop of `update` applies the trade to the wallet. -/
def FeatureBuffer.applies (config : BufferConfig R) (buffer : FeatureBuffer R) (trade : Trade)
    (wallet : String) : Bool :=
  ((buffer.ensureWallet config wallet).wallets.find? wallet).any fun state =>
    (state.seenTradeIds.find? trade.tradeId).isNone

namespace BufferHistory

/-- One round of the loop of `update`. -/
def updateWallet (config : BufferConfig R) (trade : Trade) (h : BufferHistory R)
    (wallet : String) : BufferHistory R where
  buffer := h.buffer.updateWallet config trade wallet
  applied :=
    if h.buffer.applies config trade wallet then h.applied ++ [(wallet, trade.tradeId)]
    else h.applied

/-- One call. -/
def step (config : BufferConfig R) (h : BufferHistory R) : BufferCall → BufferHistory R
  | .update trade =>
    [trade.baseAccount, trade.counterAccount].foldl (updateWallet config trade) h
  | .getFeatureRow wallet => { h with buffer := (h.buffer.getFeatureRow config wallet).2 }

/-- A trade is redelivered: both of its wallets have applied it. -/
def Redelivered (h : BufferHistory R) (trade : Trade) : Prop :=
  (trade.baseAccount, trade.tradeId) ∈ h.applied ∧
    (trade.counterAccount, trade.tradeId) ∈ h.applied

/-- What a call is meant to keep: a redelivered trade changes nothing for its wallets, and
no trade was applied twice to a wallet. -/
structure Idempotent (config : BufferConfig R) (h : BufferHistory R) (call : BufferCall) :
    Prop where
  /-- The states of both wallets stay as they are. -/
  unchanged : ∀ trade, call = .update trade → h.Redelivered trade →
    ∀ wallet ∈ [trade.baseAccount, trade.counterAccount],
      (h.step config call).buffer.wallets.find? wallet = h.buffer.wallets.find? wallet
  /-- There is at most one update for a wallet and an id. -/
  once : (h.step config call).applied.Nodup

/-- The condition under which a call does so: what a wallet has applied is still in its
deque, and the counter account does not have to make room for the base account. -/
def Remembers (config : BufferConfig R) (h : BufferHistory R) : BufferCall → Prop
  | .update trade =>
    ((trade.baseAccount, trade.tradeId) ∈ h.applied →
      h.buffer.Holds trade.baseAccount trade.tradeId) ∧
    ((trade.counterAccount, trade.tradeId) ∈ h.applied →
      h.buffer.Holds trade.counterAccount trade.tradeId ∧
        ¬h.buffer.Evicts config trade.baseAccount trade.counterAccount)
  | .getFeatureRow _ => True

end BufferHistory

/-- The index of a wallet lists the ids of its deque, in their order. -/
def WalletState.LockStep (state : WalletState R) : Prop :=
  state.seenTradeIds.rows.map Prod.fst = state.trades.map BufferRecord.tradeId

/-- The invariant of a buffer: the index of each wallet is in lock-step with its deque, and
there are not too many wallets. -/
structure FeatureBuffer.Sound (config : BufferConfig R) (buffer : FeatureBuffer R) : Prop where
  /-- The indices. -/
  lockStep : ∀ wallet state, buffer.wallets.find? wallet = some state → state.LockStep
  /-- The bound. -/
  bounded : ∀ maxWallets, config.maxWallets = some maxWallets →
    buffer.wallets.rows.length ≤ maxWallets

section

variable {config : BufferConfig R} {state : WalletState R} {trade : Trade}
  {buffer : FeatureBuffer R} {wallet tradeId : String}

namespace WalletState

/-- The index knows exactly the ids of the deque. -/
theorem LockStep.isSome_iff (h : state.LockStep) :
    (state.seenTradeIds.find? tradeId).isSome = true ↔
      ∃ record ∈ state.trades, record.tradeId = tradeId := by
  rw [Option.isSome_iff_ne_none, ne_eq, UniqueTable.find?_eq_none_iff, not_not, h, List.mem_map]

/-- Deleting the first key leaves the others. -/
theorem keys_deleteWhere_first {table : UniqueTable String Unit} {first : String}
    {ids : List String} (h : table.rows.map Prod.fst = first :: ids) :
    (table.deleteWhere fun id _ => id = first).rows.map Prod.fst = ids := by
  obtain ⟨rows, hnodup⟩ := table
  cases rows with
  | nil => cases h
  | cons row rows =>
    obtain ⟨id, _⟩ := row
    obtain ⟨rfl, hids⟩ := List.cons.inj h
    have hrest : ∀ row ∈ rows, row.1 ≠ id := by
      intro row hrow heq
      exact (List.nodup_cons.mp hnodup).1 (heq ▸ List.mem_map_of_mem hrow)
    have hkept : rows.filter (fun row => !decide (row.1 = id)) = rows :=
      List.filter_eq_self.mpr fun row hrow => by simp [hrest row hrow]
    simpa [UniqueTable.deleteWhere, hkept] using hids

/-- The index stays in lock-step when a new trade is applied. -/
theorem LockStep.apply (h : state.LockStep)
    (hnew : ∀ record ∈ state.trades, record.tradeId ≠ trade.tradeId) :
    (state.apply config trade).LockStep := by
  have hput (table : UniqueTable String Unit) (hfree : trade.tradeId ∉ table.rows.map Prod.fst) :
      (table.put trade.tradeId ()).rows.map Prod.fst =
        table.rows.map Prod.fst ++ [trade.tradeId] := by
    have hnone := (table.find?_eq_none_iff _).mpr hfree
    rw [UniqueTable.put, dif_pos hnone]
    simp [UniqueTable.insert]
  have hids : trade.tradeId ∉ state.trades.map BufferRecord.tradeId := by
    rw [List.mem_map]
    rintro ⟨record, hmem, heq⟩
    exact hnew record hmem heq
  unfold LockStep at h ⊢
  unfold WalletState.apply
  by_cases hfull : config.maxTrades ≤ state.trades.length
  · cases htrades : state.trades with
    | nil =>
      have hpos := config.maxTrades_pos
      rw [htrades] at hfull
      simp only [List.length_nil] at hfull
      omega
    | cons oldest trades =>
      rw [htrades] at h hids hfull
      have hkeys := keys_deleteWhere_first h
      have hfree : trade.tradeId ∉ (state.seenTradeIds.deleteWhere
          fun id _ => id = oldest.tradeId).rows.map Prod.fst := by
        rw [hkeys]
        exact fun hmem => hids (List.mem_cons_of_mem _ hmem)
      have hrows := hput _ hfree
      rw [hkeys] at hrows
      simp only [hfull, decide_true, List.head?_cons, Option.filter_some, if_true,
        List.tail_cons, List.map_append, List.map_cons, List.map_nil]
      exact hrows
  · have hrows := hput state.seenTradeIds (by rw [h]; exact hids)
    rw [h] at hrows
    have hnone : state.trades.head?.filter (fun _ => false) = none := by
      cases state.trades.head? <;> rfl
    simp only [hfull, decide_false, hnone, Bool.false_eq_true, if_false, List.map_append,
      List.map_cons, List.map_nil]
    exact hrows

/-- A trade that is applied is the last of the deque, after trades that were there. -/
theorem trades_apply (config : BufferConfig R) (state : WalletState R) (trade : Trade) :
    ∃ kept, kept.Sublist state.trades ∧
      (state.apply config trade).trades = kept ++ [trade.record config.floats] := by
  refine ⟨if config.maxTrades ≤ state.trades.length then state.trades.tail else state.trades,
    ?_, ?_⟩
  · split
    · exact List.tail_sublist _
    · exact List.Sublist.refl _
  · simp [WalletState.apply]

end WalletState

namespace FeatureBuffer

/-- A bound on the wallets is at least one. -/
theorem maxWallets_pos {maxWallets : ℕ} (h : config.maxWallets = some maxWallets) :
    0 < maxWallets := by
  unfold BufferConfig.maxWallets at h
  rw [Option.filter_eq_some_iff] at h
  have hne : maxWallets ≠ 0 := by simpa using h.2
  omega

/-- In a full buffer one wallet makes room. -/
theorem makeRoom_of_full (h : config.maxWallets = some buffer.wallets.rows.length) :
    buffer.makeRoom config = buffer.evictLru := by
  unfold makeRoom
  rw [h]
  have hone : buffer.wallets.rows.length + 1 - buffer.wallets.rows.length = 1 := by omega
  simp only [hone, Function.iterate_one]

/-- In a buffer that is not full no wallet has to. -/
theorem makeRoom_of_not_full (hbuffer : buffer.Sound config)
    (h : config.maxWallets ≠ some buffer.wallets.rows.length) :
    buffer.makeRoom config = buffer := by
  unfold makeRoom
  cases hmax : config.maxWallets with
  | none => rfl
  | some maxWallets =>
    have hle := hbuffer.bounded maxWallets hmax
    have hne : buffer.wallets.rows.length ≠ maxWallets := fun heq => h (by rw [hmax, heq])
    have hzero : buffer.wallets.rows.length + 1 - maxWallets = 0 := by omega
    simp only [hzero, Function.iterate_zero, id_eq]

/-- A wallet has a state after it is ensured: its own or a new one. -/
theorem find?_ensureWallet_self (config : BufferConfig R) (buffer : FeatureBuffer R)
    (wallet : String) :
    (buffer.ensureWallet config wallet).wallets.find? wallet =
      some ((buffer.wallets.find? wallet).getD config.newWallet) := by
  unfold ensureWallet
  cases h : buffer.wallets.find? wallet with
  | some state => simp [h]
  | none => simp

/-- The other wallets keep theirs, but for the one that is evicted. -/
theorem find?_ensureWallet_of_ne (hbuffer : buffer.Sound config) {other : String}
    (hne : other ≠ wallet) :
    (buffer.Evicts config wallet other ∧
        (buffer.ensureWallet config wallet).wallets.find? other = none) ∨
      ¬buffer.Evicts config wallet other ∧
        (buffer.ensureWallet config wallet).wallets.find? other =
          buffer.wallets.find? other := by
  unfold ensureWallet Evicts
  cases h : buffer.wallets.find? wallet with
  | some state => simp
  | none =>
    by_cases hfull : config.maxWallets = some buffer.wallets.rows.length
    · have hroom := makeRoom_of_full hfull
      by_cases hfirst : buffer.wallets.first? = some other
      · simp [hroom, evictLru, hne, hfull, hfirst]
      · simp [hroom, evictLru, hne, hfirst]
    · have hroom := makeRoom_of_not_full hbuffer hfull
      simp [hroom, hne, hfull]

/-- Ensuring a wallet keeps the invariant. -/
theorem Sound.ensureWallet (hbuffer : buffer.Sound config) :
    (buffer.ensureWallet config wallet).Sound config := by
  constructor
  case lockStep =>
    intro other state hfind
    by_cases hne : other = wallet
    · rw [hne, find?_ensureWallet_self, Option.some.injEq] at hfind
      subst hfind
      cases hold : buffer.wallets.find? wallet with
      | some state => exact hbuffer.lockStep wallet state hold
      | none => rfl
    · obtain ⟨-, hnone⟩ | ⟨-, hsame⟩ := find?_ensureWallet_of_ne hbuffer hne
      · rw [hnone] at hfind
        cases hfind
      · rw [hsame] at hfind
        exact hbuffer.lockStep other state hfind
  case bounded =>
    intro maxWallets hmax
    have hle := hbuffer.bounded maxWallets hmax
    unfold FeatureBuffer.ensureWallet
    cases hold : buffer.wallets.find? wallet with
    | some state => simpa using hle
    | none =>
      by_cases hfull : config.maxWallets = some buffer.wallets.rows.length
      · have hroom := makeRoom_of_full hfull
        have hpos := maxWallets_pos hfull
        have hnone : buffer.evictLru.wallets.find? wallet = none := by
          simp [evictLru, hold]
        have hlength := UniqueTable.length_put _ wallet config.newWallet hnone
        have htail : buffer.evictLru.wallets.rows.length = buffer.wallets.rows.length - 1 :=
          List.length_tail
        simp only [Option.isSome_none, Bool.false_eq_true, if_false, hroom]
        omega
      · have hroom := makeRoom_of_not_full hbuffer hfull
        have hlength := UniqueTable.length_put _ wallet config.newWallet hold
        have hne : buffer.wallets.rows.length ≠ maxWallets := fun heq => hfull (by rw [hmax, heq])
        simp only [Option.isSome_none, Bool.false_eq_true, if_false, hroom]
        omega

/-- The state with which a wallet enters a round of `update`. -/
def enteringState (config : BufferConfig R) (buffer : FeatureBuffer R) (wallet : String) :
    WalletState R :=
  (buffer.wallets.find? wallet).getD config.newWallet

/-- This state knows the trade exactly if the wallet holds it. -/
theorem isSome_enteringState_iff (hbuffer : buffer.Sound config) :
    ((enteringState config buffer wallet).seenTradeIds.find? tradeId).isSome = true ↔
      buffer.Holds wallet tradeId := by
  unfold enteringState Holds
  cases hold : buffer.wallets.find? wallet with
  | some state =>
    simpa using (hbuffer.lockStep wallet state hold).isSome_iff
  | none => simp [BufferConfig.newWallet]

/-- A trade that the wallet holds is not applied again. -/
theorem updateWallet_of_holds (hbuffer : buffer.Sound config)
    (h : buffer.Holds wallet trade.tradeId) :
    buffer.updateWallet config trade wallet = buffer.ensureWallet config wallet ∧
      buffer.applies config trade wallet = false := by
  have hseen := (isSome_enteringState_iff hbuffer).mpr h
  have hself := find?_ensureWallet_self config buffer wallet
  rw [enteringState] at hseen
  constructor
  · simp [updateWallet, hself, hseen]
  · simp [applies, hself, hseen]

/-- A trade that it does not hold is applied. -/
theorem updateWallet_of_not_holds (hbuffer : buffer.Sound config)
    (h : ¬buffer.Holds wallet trade.tradeId) :
    (∀ other, (buffer.updateWallet config trade wallet).wallets.find? other =
        if other = wallet then some ((enteringState config buffer wallet).apply config trade)
        else (buffer.ensureWallet config wallet).wallets.find? other) ∧
      (buffer.updateWallet config trade wallet).wallets.rows.length =
        (buffer.ensureWallet config wallet).wallets.rows.length ∧
      buffer.applies config trade wallet = true := by
  have hseen := mt (isSome_enteringState_iff hbuffer).mp h
  have hself := find?_ensureWallet_self config buffer wallet
  unfold enteringState at hseen ⊢
  refine ⟨?_, ?_, ?_⟩
  · intro other
    by_cases hne : other = wallet
    · simp [updateWallet, hself, hseen, hne]
    · simp [updateWallet, hself, hseen, hne]
  · simp [updateWallet, hself, hseen, UniqueTable.modify]
  · simpa [applies, hself] using hseen

/-- A round of `update` keeps the invariant. -/
theorem Sound.updateWallet (hbuffer : buffer.Sound config) :
    (buffer.updateWallet config trade wallet).Sound config := by
  have hensured : (buffer.ensureWallet config wallet).Sound config := hbuffer.ensureWallet
  by_cases h : buffer.Holds wallet trade.tradeId
  · rw [(updateWallet_of_holds hbuffer h).1]
    exact hensured
  · obtain ⟨hfind, hlength, -⟩ := updateWallet_of_not_holds hbuffer h
    constructor
    · intro other state hstate
      rw [hfind] at hstate
      by_cases hne : other = wallet
      · rw [if_pos hne, Option.some.injEq] at hstate
        rw [← hstate]
        have hself := find?_ensureWallet_self config buffer wallet
        have hentering : (enteringState config buffer wallet).LockStep :=
          hensured.lockStep wallet _ hself
        refine hentering.apply fun record hmem heq => h ?_
        rw [← isSome_enteringState_iff hbuffer, hentering.isSome_iff]
        exact ⟨record, hmem, heq⟩
      · rw [if_neg hne] at hstate
        exact hensured.lockStep other state hstate
    · intro maxWallets hmax
      rw [hlength]
      exact hensured.bounded maxWallets hmax

/-- After a round of `update` the wallet holds the trade. -/
theorem holds_updateWallet (hbuffer : buffer.Sound config) :
    (buffer.updateWallet config trade wallet).Holds wallet trade.tradeId := by
  by_cases h : buffer.Holds wallet trade.tradeId
  · obtain ⟨state, hstate, hrecord⟩ := h
    rw [(updateWallet_of_holds hbuffer ⟨state, hstate, hrecord⟩).1]
    refine ⟨state, ?_, hrecord⟩
    rw [find?_ensureWallet_self, hstate, Option.getD_some]
  · obtain ⟨hfind, -, -⟩ := updateWallet_of_not_holds hbuffer h
    obtain ⟨kept, -, htrades⟩ :=
      WalletState.trades_apply config (enteringState config buffer wallet) trade
    refine ⟨_, (hfind wallet).trans (if_pos rfl), trade.record config.floats, ?_, rfl⟩
    rw [htrades]
    simp

/-- What the other wallets hold after it: the same, but for the one that is evicted. -/
theorem holds_updateWallet_of_ne_iff (hbuffer : buffer.Sound config) {other : String}
    (hne : other ≠ wallet) :
    (buffer.updateWallet config trade wallet).Holds other tradeId ↔
      buffer.Holds other tradeId ∧ ¬buffer.Evicts config wallet other := by
  have hsame : (buffer.updateWallet config trade wallet).wallets.find? other =
      (buffer.ensureWallet config wallet).wallets.find? other := by
    by_cases h : buffer.Holds wallet trade.tradeId
    · rw [(updateWallet_of_holds hbuffer h).1]
    · rw [(updateWallet_of_not_holds hbuffer h).1, if_neg hne]
  unfold Holds
  rw [hsame]
  obtain ⟨hevicts, hnone⟩ | ⟨hnot, hkept⟩ := find?_ensureWallet_of_ne hbuffer hne
  · simp [hevicts, hnone]
  · simp [hnot, hkept]

/-- After a round of `update` a wallet holds nothing but what it held and the trade. -/
theorem holds_of_holds_updateWallet (hbuffer : buffer.Sound config) {other : String}
    (h : (buffer.updateWallet config trade wallet).Holds other tradeId) :
    buffer.Holds other tradeId ∨ other = wallet ∧ tradeId = trade.tradeId ∧
      ¬buffer.Holds wallet trade.tradeId := by
  by_cases hne : other = wallet
  · subst hne
    by_cases hholds : buffer.Holds other trade.tradeId
    · obtain ⟨state, hstate, hrecord⟩ := h
      rw [(updateWallet_of_holds hbuffer hholds).1, find?_ensureWallet_self,
        Option.some.injEq] at hstate
      obtain ⟨state', hstate', -⟩ := hholds
      rw [hstate', Option.getD_some] at hstate
      exact .inl ⟨state', hstate', hstate ▸ hrecord⟩
    · obtain ⟨state, hstate, record, hmem, rfl⟩ := h
      rw [(updateWallet_of_not_holds hbuffer hholds).1, if_pos rfl, Option.some.injEq] at hstate
      obtain ⟨kept, hsub, htrades⟩ :=
        WalletState.trades_apply config (enteringState config buffer other) trade
      rw [← hstate, htrades, List.mem_append, List.mem_singleton] at hmem
      obtain hkept | rfl := hmem
      · have hlockStep : (enteringState config buffer other).LockStep :=
          hbuffer.ensureWallet.lockStep other _ (find?_ensureWallet_self config buffer other)
        left
        rw [← isSome_enteringState_iff hbuffer, hlockStep.isSome_iff]
        exact ⟨record, hsub.subset hkept, rfl⟩
      · exact .inr ⟨rfl, rfl, hholds⟩
  · exact .inl ((holds_updateWallet_of_ne_iff hbuffer hne).mp h).1

end FeatureBuffer

namespace BufferHistory

variable {h : BufferHistory R}

/-- The invariant of a history: that of its buffer, and what a wallet holds is on record. -/
structure Recorded (config : BufferConfig R) (h : BufferHistory R) : Prop where
  /-- The invariant of the buffer. -/
  sound : h.buffer.Sound config
  /-- What is held was applied. -/
  recorded : ∀ wallet tradeId, h.buffer.Holds wallet tradeId → (wallet, tradeId) ∈ h.applied

/-- What a round of `update` adds to the record. -/
theorem applied_updateWallet (trade : Trade) (wallet : String) (hrecorded : h.Recorded config) :
    h.buffer.Holds wallet trade.tradeId ∧
        (h.updateWallet config trade wallet).applied = h.applied ∨
      ¬h.buffer.Holds wallet trade.tradeId ∧
        (h.updateWallet config trade wallet).applied =
          h.applied ++ [(wallet, trade.tradeId)] := by
  by_cases hholds : h.buffer.Holds wallet trade.tradeId
  · have happlies := (FeatureBuffer.updateWallet_of_holds hrecorded.sound hholds).2
    exact .inl ⟨hholds, by simp [updateWallet, happlies]⟩
  · have happlies := (FeatureBuffer.updateWallet_of_not_holds hrecorded.sound hholds).2.2
    exact .inr ⟨hholds, by simp [updateWallet, happlies]⟩

/-- A round of `update` keeps the invariant. -/
theorem Recorded.updateWallet (hrecorded : h.Recorded config) :
    (h.updateWallet config trade wallet).Recorded config := by
  refine ⟨hrecorded.sound.updateWallet, ?_⟩
  intro other tradeId hholds
  obtain hheld | ⟨rfl, rfl, hnew⟩ :=
    FeatureBuffer.holds_of_holds_updateWallet hrecorded.sound hholds
  · have hold := hrecorded.recorded other tradeId hheld
    obtain ⟨-, heq⟩ | ⟨-, heq⟩ := applied_updateWallet trade wallet hrecorded
    · rwa [heq]
    · rw [heq]
      exact List.mem_append_left _ hold
  · obtain ⟨hheld, -⟩ | ⟨-, heq⟩ := applied_updateWallet trade other hrecorded
    · exact absurd hheld hnew
    · rw [heq]
      simp

/-- Every call keeps the invariant. -/
theorem Recorded.step (hrecorded : h.Recorded config) (call : BufferCall) :
    (h.step config call).Recorded config := by
  cases call with
  | update trade => exact hrecorded.updateWallet.updateWallet
  | getFeatureRow wallet =>
    refine ⟨hrecorded.sound.ensureWallet, ?_⟩
    rintro other tradeId ⟨state, hstate, record, hmem, rfl⟩
    have hensured : (h.buffer.ensureWallet config wallet).wallets.find? other = some state :=
      hstate
    by_cases hne : other = wallet
    · rw [hne, FeatureBuffer.find?_ensureWallet_self, Option.some.injEq] at hensured
      subst hensured
      cases hold : h.buffer.wallets.find? wallet with
      | none =>
        rw [hold] at hmem
        cases hmem
      | some state =>
        rw [hold, Option.getD_some] at hmem
        exact hrecorded.recorded other _ ⟨state, hne ▸ hold, record, hmem, rfl⟩
    · obtain ⟨-, hnone⟩ | ⟨-, hsame⟩ :=
        FeatureBuffer.find?_ensureWallet_of_ne hrecorded.sound hne
      · rw [hnone] at hensured
        cases hensured
      · rw [hsame] at hensured
        exact hrecorded.recorded other _ ⟨state, hensured, record, hmem, rfl⟩

/-- A round of `update` applies no trade twice exactly if the wallet still holds what it has
applied. -/
theorem nodup_updateWallet_iff (hrecorded : h.Recorded config) (hnodup : h.applied.Nodup) :
    (h.updateWallet config trade wallet).applied.Nodup ↔
      ((wallet, trade.tradeId) ∈ h.applied → h.buffer.Holds wallet trade.tradeId) := by
  obtain ⟨hholds, heq⟩ | ⟨hnot, heq⟩ := applied_updateWallet trade wallet hrecorded
  · rw [heq]
    exact ⟨fun _ _ => hholds, fun _ => hnodup⟩
  · rw [heq, List.nodup_append]
    constructor
    · rintro ⟨-, -, hdisjoint⟩ hmem
      exact absurd rfl (hdisjoint _ hmem _ (List.mem_singleton_self _))
    · intro hheld
      refine ⟨hnodup, List.nodup_singleton _, ?_⟩
      intro entry hentry other hother heq'
      rw [List.mem_singleton] at hother
      subst hother heq'
      exact hnot (hheld hentry)

/-- What was applied stays on record. -/
theorem applied_prefix_updateWallet (hrecorded : h.Recorded config) :
    h.applied <+: (h.updateWallet config trade wallet).applied := by
  obtain ⟨-, heq⟩ | ⟨-, heq⟩ := applied_updateWallet trade wallet hrecorded
  · exact ⟨[], by rw [heq, List.append_nil]⟩
  · rw [heq]
    exact List.prefix_append _ _

/-- An update applies no trade twice exactly if it meets the condition. -/
theorem nodup_update_iff (hrecorded : h.Recorded config) (hnodup : h.applied.Nodup) :
    (h.step config (.update trade)).applied.Nodup ↔ h.Remembers config (.update trade) := by
  let base := trade.baseAccount
  let counter := trade.counterAccount
  let h₁ := h.updateWallet config trade base
  have hrecorded₁ : h₁.Recorded config := hrecorded.updateWallet
  have hbase : h₁.applied.Nodup ↔
      ((base, trade.tradeId) ∈ h.applied → h.buffer.Holds base trade.tradeId) :=
    nodup_updateWallet_iff hrecorded hnodup
  have hcounter (hnodup₁ : h₁.applied.Nodup) :
      (h.step config (.update trade)).applied.Nodup ↔
        ((counter, trade.tradeId) ∈ h₁.applied → h₁.buffer.Holds counter trade.tradeId) :=
    nodup_updateWallet_iff hrecorded₁ hnodup₁
  have hprefix : h₁.applied <+: (h.step config (.update trade)).applied :=
    applied_prefix_updateWallet hrecorded₁
  have hprefix₁ : h.applied <+: h₁.applied := applied_prefix_updateWallet hrecorded
  constructor
  · intro hafter
    have hnodup₁ : h₁.applied.Nodup := hprefix.sublist.nodup hafter
    have hheld := hbase.mp hnodup₁
    refine ⟨hheld, fun hmem => ?_⟩
    have hholds := (hcounter hnodup₁).mp hafter (hprefix₁.subset hmem)
    by_cases hne : counter = base
    · have hholds' : h.buffer.Holds counter trade.tradeId := hne ▸ hheld (hne ▸ hmem)
      refine ⟨hholds', fun hevicts => ?_⟩
      obtain ⟨state, hstate, -⟩ := hholds'
      have hnone : h.buffer.wallets.find? counter = none := hne ▸ hevicts.1
      rw [hnone] at hstate
      cases hstate
    · exact (FeatureBuffer.holds_updateWallet_of_ne_iff hrecorded.sound hne).mp hholds
  · rintro ⟨hheld, hremembers⟩
    have hnodup₁ := hbase.mpr hheld
    refine (hcounter hnodup₁).mpr fun hmem => ?_
    by_cases hne : counter = base
    · rw [hne]
      exact FeatureBuffer.holds_updateWallet hrecorded.sound
    · have hold : (counter, trade.tradeId) ∈ h.applied := by
        obtain ⟨-, heq⟩ | ⟨-, heq⟩ :=
          applied_updateWallet trade base hrecorded
        · exact heq ▸ hmem
        · have hmem' : (counter, trade.tradeId) ∈ h.applied ++ [(base, trade.tradeId)] :=
            heq ▸ hmem
          simpa [hne] using hmem'
      exact (FeatureBuffer.holds_updateWallet_of_ne_iff hrecorded.sound hne).mpr (hremembers hold)

/-- A trade that both of its wallets hold changes no wallet. -/
theorem find?_update_of_holds (hrecorded : h.Recorded config)
    (hbase : h.buffer.Holds trade.baseAccount trade.tradeId)
    (hcounter : h.buffer.Holds trade.counterAccount trade.tradeId) (other : String) :
    (h.step config (.update trade)).buffer.wallets.find? other =
      h.buffer.wallets.find? other := by
  have hround {buffer : FeatureBuffer R} {wallet : String} (hbuffer : buffer.Sound config)
      (hholds : buffer.Holds wallet trade.tradeId) (other : String) :
      (buffer.updateWallet config trade wallet).wallets.find? other =
        buffer.wallets.find? other := by
    rw [(FeatureBuffer.updateWallet_of_holds hbuffer hholds).1]
    obtain ⟨state, hstate, -⟩ := hholds
    by_cases hne : other = wallet
    · rw [hne, FeatureBuffer.find?_ensureWallet_self, hstate, Option.getD_some]
    · obtain ⟨hevicts, -⟩ | ⟨-, hsame⟩ := FeatureBuffer.find?_ensureWallet_of_ne hbuffer hne
      · rw [hevicts.1] at hstate
        cases hstate
      · exact hsame
  have hfirst := hround hrecorded.sound hbase
  have hcounter' : (h.buffer.updateWallet config trade trade.baseAccount).Holds
      trade.counterAccount trade.tradeId := by
    obtain ⟨state, hstate, hrecord⟩ := hcounter
    exact ⟨state, (hfirst _).trans hstate, hrecord⟩
  have hsound : (h.buffer.updateWallet config trade trade.baseAccount).Sound config :=
    hrecorded.sound.updateWallet
  exact (hround hsound hcounter' other).trans (hfirst other)

/-- A call keeps what it is meant to keep exactly if it meets the condition. -/
theorem idempotent_iff_remembers (hrecorded : h.Recorded config) (hnodup : h.applied.Nodup)
    (call : BufferCall) : h.Idempotent config call ↔ h.Remembers config call := by
  cases call with
  | getFeatureRow wallet =>
    constructor
    · intro _
      trivial
    · intro _
      refine ⟨?_, hnodup⟩
      intro trade heq
      cases heq
  | update trade =>
    rw [← nodup_update_iff hrecorded hnodup]
    constructor
    · exact fun hidempotent => hidempotent.once
    · intro honce
      refine ⟨?_, honce⟩
      rintro trade' heq ⟨hbase, hcounter⟩ wallet -
      obtain rfl := BufferCall.update.inj heq
      obtain ⟨hheld, hremembers⟩ := (nodup_update_iff hrecorded hnodup).mp honce
      exact find?_update_of_holds hrecorded (hheld hbase) (hremembers hcounter).1 wallet

end BufferHistory

end

/-- Exact arithmetic for trades that close in the same ledger, with amounts below ten. -/
def sameLedgerTools : FloatTools ℚ where
  zero := 0
  succ := (· + 1)
  decay _ _ x := x
  ofAmount x := x
  nonpos x := decide (x ≤ 0)
  leadingDigit x := x.num / x.den

/-- A buffer with one window that keeps some trades of each wallet. -/
def smallBuffer (maxTrades : ℕ) (h : 1 ≤ maxTrades) (maxWallets : Option ℕ) :
    BufferConfig ℚ where
  floats := sameLedgerTools
  maxTrades := maxTrades
  maxTrades_pos := h
  maxWalletsArgument := maxWallets
  configuredMaxWallets := 100000
  benfordWindowsHours := [1]

/-- A trade between two accounts. -/
def smallTrade (tradeId : String) : Trade where
  tradeId := tradeId
  ledgerCloseTime := 0
  baseAccount := "GA"
  counterAccount := "GB"
  baseAsset := ⟨"XLM", none⟩
  counterAsset := ⟨"USDC", some "GC"⟩
  amount := 5

/-- The counts of a wallet's sketches. -/
def FeatureBuffer.counts (buffer : FeatureBuffer R) (wallet : String) :
    Option (List (List R)) :=
  (buffer.wallets.find? wallet).map fun state =>
    state.benfordSketches.rows.map fun row => row.2.counts

/-- Some trades of the same accounts, one after another. -/
def deliveries (tradeIds : List String) : List BufferCall :=
  tradeIds.map fun tradeId => .update (smallTrade tradeId)

end LedgerLens.Streaming
