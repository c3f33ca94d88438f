import LedgerLens.Library.Raising
import LedgerLens.Streaming.FeatureRedelivery

/-!
# The maps of the feature buffer

`FeatureBuffer` does not hold one record for each wallet but five dictionaries with the
wallets as their keys. They change one after the other, and `update` may raise between two
changes. This file follows the dictionaries and shows that they always have the same keys,
and that the bounds and the index of the trade ids hold after every call.
-/

namespace LedgerLens.Streaming

open Raising Transition

/-- The exceptions of the buffer's methods. -/
inductive BufferError where
  /-- `KeyError`, of a lookup or of `popitem`. -/
  | keyError
  /-- `TypeError`: a sketch compares a naive date with an aware one. -/
  | typeError
  deriving DecidableEq, Repr

/-- `FeatureBuffer` with its dictionaries. -/
structure FeatureMaps (R : Type) where
  /-- `_buffers`, least recently used first. -/
  buffers : UniqueTable String (List (BufferRecord R)) := .empty
  /-- `_wallet_locks`. -/
  walletLocks : UniqueTable String Unit := .empty
  /-- `_seen_trade_ids`. -/
  seenTradeIds : UniqueTable String (UniqueTable String Unit) := .empty
  /-- `_benford_sketches`. -/
  benfordSketches : UniqueTable String (WindowSketches R) := .empty
  /-- `_pair_benford_sketches`. -/
  pairBenfordSketches : UniqueTable String (UniqueTable String (WindowSketches R)) := .empty
  /-- `evictions_total`. -/
  evictionsTotal : ℕ := 0

/-- A method of the buffer. -/
abbrev BufferProgram (R α : Type) := Raising (FeatureMaps R) BufferError α

namespace FeatureMaps

variable {R : Type}

/-- `table[key]`. -/
def item {Key Row : Type} [DecidableEq Key] (table : UniqueTable Key Row) (key : Key) :
    BufferProgram R Row :=
  match table.find? key with
  | none => throw .keyError
  | some row => pure row

/-- `_evict_lru`. -/
def evictLru : BufferProgram R Unit := do
  let maps ← get
  match maps.buffers.first? with
  | none => throw .keyError
  | some victim =>
    modify fun maps =>
      { buffers := maps.buffers.dropFirst
        walletLocks := maps.walletLocks.erase victim
        benfordSketches := maps.benfordSketches.erase victim
        pairBenfordSketches := maps.pairBenfordSketches.erase victim
        seenTradeIds := maps.seenTradeIds.erase victim
        evictionsTotal := maps.evictionsTotal + 1 }

/-- The loop of `_ensure_wallet`, for a number of rounds that it does not exceed. -/
def evictLoop (maxWallets : ℕ) : ℕ → BufferProgram R Unit
  | 0 => pure ()
  | rounds + 1 => do
    let maps ← get
    if maxWallets ≤ maps.buffers.rows.length then
      evictLru
      evictLoop maxWallets rounds

/-- The part of `_ensure_wallet` that makes room for a new wallet. -/
def makeRoom (config : BufferConfig R) : BufferProgram R Unit := do
  let maps ← get
  match config.maxWallets with
  | none => pure ()
  | some maxWallets => evictLoop maxWallets (maps.buffers.rows.length + 1)

/-- The entries of a wallet that is new to the buffer. -/
def addWallet (config : BufferConfig R) (wallet : String) (maps : FeatureMaps R) :
    FeatureMaps R :=
  { maps with
    walletLocks := maps.walletLocks.put wallet ()
    buffers := maps.buffers.put wallet []
    benfordSketches := maps.benfordSketches.put wallet config.newSketches
    pairBenfordSketches := maps.pairBenfordSketches.put wallet .empty
    seenTradeIds := maps.seenTradeIds.put wallet .empty }

/-- `_ensure_wallet`. -/
def ensureWallet (config : BufferConfig R) (wallet : String) : BufferProgram R Unit := do
  let maps ← get
  if (maps.buffers.find? wallet).isSome then
    modify fun maps => { maps with buffers := maps.buffers.moveToEnd wallet }
  else
    makeRoom config
    modify (addWallet config wallet)
  let maps ← get
  item maps.walletLocks wallet

/-- `append` to a deque with a `maxlen`. -/
def dequeAppend {α : Type} (maxlen : ℕ) (deque : List α) (a : α) : List α :=
  (deque ++ [a]).drop (deque.length + 1 - maxlen)

/-- A trade to be added, and the sketches whose update raises because of its date. -/
structure TradeUpdate (R : Type) where
  /-- The trade. -/
  trade : Trade
  /-- Whether the update of a sketch raises. -/
  raises : BenfordSketch R → Bool := fun _ => false

/-- The loop of `update` over sketches: each is changed where it is kept. -/
def updateSketches (config : BufferConfig R) (call : TradeUpdate R)
    (sketches : WindowSketches R)
    (change : (WindowSketches R → WindowSketches R) → FeatureMaps R → FeatureMaps R) :
    BufferProgram R Unit :=
  sketches.rows.forM fun row =>
    if call.raises row.2 then throw .typeError
    else
      modify (change fun sketches => sketches.modify row.1 fun sketch =>
        sketch.update config.floats (config.floats.ofAmount call.trade.amount)
          call.trade.ledgerCloseTime)

/-- The part of `update` that makes sketches for a pair, unless there are some. -/
def ensurePair (config : BufferConfig R) (wallet pairId : String) : BufferProgram R Unit := do
  let maps ← get
  let pairs ← item maps.pairBenfordSketches wallet
  match pairs.find? pairId with
  | some _ => pure ()
  | none =>
    modify fun maps =>
      { maps with
        pairBenfordSketches := maps.pairBenfordSketches.modify wallet fun pairs =>
          pairs.put pairId config.newSketches }

/-- The part of `update` that adds the trade to the deque of a wallet and to its index. -/
def addTrade (config : BufferConfig R) (trade : Trade) (wallet : String)
    (buf : List (BufferRecord R)) (seen : UniqueTable String Unit) (maps : FeatureMaps R) :
    FeatureMaps R :=
  let seen :=
    match buf.head? with
    | some oldest => if config.maxTrades ≤ buf.length then seen.erase oldest.tradeId else seen
    | none => seen
  { maps with
    buffers := maps.buffers.modify wallet fun buf =>
      dequeAppend config.maxTrades buf (trade.record config.floats)
    seenTradeIds := maps.seenTradeIds.modify wallet fun _ => seen.put trade.tradeId () }

/-- One round of the loop of `update`. -/
def updateWallet (config : BufferConfig R) (call : TradeUpdate R) (wallet : String) :
    BufferProgram R Unit := do
  ensureWallet config wallet
  let maps ← get
  match maps.seenTradeIds.find? wallet with
  | none => pure ()
  | some seen =>
    if (seen.find? call.trade.tradeId).isSome then
      pure ()
    else
      let buf ← item maps.buffers wallet
      modify (addTrade config call.trade wallet buf seen)
      let sketches ← item maps.benfordSketches wallet
      updateSketches config call sketches fun change maps =>
        { maps with benfordSketches := maps.benfordSketches.modify wallet change }
      let pairId := call.trade.baseAsset.pairId call.trade.counterAsset
      ensurePair config wallet pairId
      let maps ← get
      let pairs ← item maps.pairBenfordSketches wallet
      let sketches ← item pairs pairId
      updateSketches config call sketches fun change maps =>
        { maps with
          pairBenfordSketches := maps.pairBenfordSketches.modify wallet fun pairs =>
            pairs.modify pairId change }

/-- `update`. -/
def update (config : BufferConfig R) (call : TradeUpdate R) : BufferProgram R Unit :=
  [call.trade.baseAccount, call.trade.counterAccount].forM (updateWallet config call)

/-- What `get_feature_row` computes a row from. -/
structure FeatureInput (R : Type) where
  /-- The records of the wallet. -/
  records : List (BufferRecord R)
  /-- Its sketches. -/
  benfordSketches : WindowSketches R
  /-- Its sketches for pairs. -/
  pairBenfordSketches : UniqueTable String (WindowSketches R)

/-- `get_feature_row`, up to what the row is computed from. -/
def getFeatureRow (config : BufferConfig R) (wallet : String) :
    BufferProgram R (Option (FeatureInput R)) := do
  ensureWallet config wallet
  let maps ← get
  match maps.buffers.find? wallet with
  | none => pure none
  | some records =>
    let sketches ← item maps.benfordSketches wallet
    let pairs ← item maps.pairBenfordSketches wallet
    if records.isEmpty then pure none
    else pure (some ⟨records, sketches, pairs⟩)

/-- A call of the buffer. -/
inductive Call (R : Type) where
  /-- `update`. -/
  | update (call : TradeUpdate R)
  /-- `get_feature_row`. -/
  | getFeatureRow (wallet : String)

/-- One call, whether it returns or raises. -/
def step (config : BufferConfig R) (maps : FeatureMaps R) : Call R → FeatureMaps R
  | .update call => (exec (update config call) maps).2
  | .getFeatureRow wallet => (exec (getFeatureRow config wallet) maps).2

/-- The entries of one wallet in the five maps agree with each other. -/
structure Aligned (config : BufferConfig R) (trades : Option (List (BufferRecord R)))
    (lock : Option Unit) (seen : Option (UniqueTable String Unit))
    (sketches : Option (WindowSketches R))
    (pairs : Option (UniqueTable String (WindowSketches R))) : Prop where
  /-- The deque is not too long. -/
  short : ∀ records ∈ trades, records.length ≤ config.maxTrades
  /-- The trades of the deque have different ids. -/
  distinct : ∀ records ∈ trades, (records.map BufferRecord.tradeId).Nodup
  /-- The index has exactly the ids of the deque. -/
  indexed : ∀ records ∈ trades, ∀ ids ∈ seen, ∀ id,
    (ids.find? id).isSome = true ↔ id ∈ records.map BufferRecord.tradeId
  /-- There is a lock exactly if there is a deque. -/
  lock : lock.isSome = trades.isSome
  /-- There is an index exactly if there is a deque. -/
  index : seen.isSome = trades.isSome
  /-- There are sketches exactly if there is a deque. -/
  sketches : sketches.isSome = trades.isSome
  /-- There are sketches for pairs exactly if there is a deque. -/
  pairs : pairs.isSome = trades.isSome

/-- What holds of the maps after every call. -/
structure Consistent (config : BufferConfig R) (maps : FeatureMaps R) : Prop where
  /-- There are not too many wallets. -/
  bounded : ∀ maxWallets, config.maxWallets = some maxWallets →
    maps.buffers.rows.length ≤ maxWallets
  /-- The entries of every wallet agree. -/
  aligned : ∀ wallet, Aligned config (maps.buffers.find? wallet) (maps.walletLocks.find? wallet)
    (maps.seenTradeIds.find? wallet) (maps.benfordSketches.find? wallet)
    (maps.pairBenfordSketches.find? wallet)

variable {config : BufferConfig R} {maps : FeatureMaps R} {wallet : String}

/-- A lookup of a key that is there returns. -/
theorem exec_item_of_some {Key Row : Type} [DecidableEq Key] {table : UniqueTable Key Row}
    {key : Key} {row : Row} (h : table.find? key = some row) (maps : FeatureMaps R) :
    exec (item table key) maps = (.ok row, maps) := by
  unfold item
  rw [h]
  rfl

/-- Looking up keeps everything. -/
theorem keeps_item {Key Row : Type} [DecidableEq Key] {P : FeatureMaps R → Prop}
    (table : UniqueTable Key Row) (key : Key) : Keeps P (item table key) := by
  intro maps hmaps
  unfold item
  cases table.find? key <;> exact hmaps

/-- The entries of a wallet without any. -/
theorem aligned_none (config : BufferConfig R) : Aligned config none none none none none where
  short _ h := by cases h
  distinct _ h := by cases h
  indexed _ h := by cases h
  lock := rfl
  index := rfl
  sketches := rfl
  pairs := rfl

/-- The entries of a new wallet. -/
theorem aligned_new (config : BufferConfig R) (sketches : WindowSketches R) :
    Aligned config (some []) (some ()) (some .empty) (some sketches) (some .empty) where
  short := by
    rintro records ⟨⟩
    exact Nat.zero_le _
  distinct := by
    rintro records ⟨⟩
    exact List.nodup_nil
  indexed := by
    rintro records ⟨⟩ ids ⟨⟩ id
    simp
  lock := rfl
  index := rfl
  sketches := rfl
  pairs := rfl

/-- A new buffer is consistent. -/
theorem consistent_new (config : BufferConfig R) : Consistent config {} where
  bounded _ _ := Nat.zero_le _
  aligned _ := aligned_none config

/-- Evicting the least recently used wallet keeps the maps consistent. -/
theorem evictLru_spec (h : Consistent config maps) (hpos : 0 < maps.buffers.rows.length) :
    ∃ maps', exec evictLru maps = (.ok ⟨⟩, maps') ∧ Consistent config maps' ∧
      maps'.buffers.rows.length + 1 = maps.buffers.rows.length ∧
      ∀ wallet, maps.buffers.find? wallet = none → maps'.buffers.find? wallet = none := by
  have hne : maps.buffers.rows ≠ [] := List.length_pos_iff.mp hpos
  obtain ⟨victim, row, hfirst, -⟩ := UniqueTable.exists_first? hne
  have hlength : maps.buffers.dropFirst.rows.length + 1 = maps.buffers.rows.length := by
    have htail : maps.buffers.dropFirst.rows.length = maps.buffers.rows.length - 1 :=
      List.length_tail
    omega
  have hexec : exec evictLru maps = (.ok ⟨⟩,
      { buffers := maps.buffers.dropFirst
        walletLocks := maps.walletLocks.erase victim
        benfordSketches := maps.benfordSketches.erase victim
        pairBenfordSketches := maps.pairBenfordSketches.erase victim
        seenTradeIds := maps.seenTradeIds.erase victim
        evictionsTotal := maps.evictionsTotal + 1 }) := by
    unfold evictLru
    rw [exec_bind, exec_get]
    simp only [hfirst]
    rfl
  refine ⟨_, hexec, ⟨?_, ?_⟩, hlength, ?_⟩
  · intro maxWallets hmax
    have hle := h.bounded maxWallets hmax
    dsimp only
    omega
  · intro wallet
    dsimp only
    simp only [UniqueTable.find?_dropFirst, UniqueTable.find?_erase, hfirst, Option.some.injEq]
    by_cases hvictim : wallet = victim
    · simp only [hvictim, if_true]
      exact aligned_none config
    · simp only [hvictim, Ne.symm hvictim, if_false]
      exact h.aligned wallet
  · intro wallet hnone
    dsimp only
    rw [UniqueTable.find?_dropFirst, hnone, ite_self]

/-- The loop of `_ensure_wallet` ends with room for a wallet. -/
theorem evictLoop_spec {maxWallets : ℕ} (hmax : 0 < maxWallets) (rounds : ℕ)
    (h : Consistent config maps) (hrounds : maps.buffers.rows.length < rounds) :
    ∃ maps', exec (evictLoop maxWallets rounds) maps = (.ok ⟨⟩, maps') ∧
      Consistent config maps' ∧ maps'.buffers.rows.length < maxWallets ∧
      ∀ wallet, maps.buffers.find? wallet = none → maps'.buffers.find? wallet = none := by
  induction rounds generalizing maps with
  | zero => omega
  | succ rounds ih =>
    unfold evictLoop
    rw [exec_bind, exec_get]
    dsimp only
    by_cases hfull : maxWallets ≤ maps.buffers.rows.length
    · rw [if_pos hfull]
      obtain ⟨maps₁, hevict, h₁, hlength, hnone₁⟩ := evictLru_spec h (by omega)
      obtain ⟨maps₂, hloop, h₂, hroom, hnone₂⟩ := ih h₁ (by omega)
      refine ⟨maps₂, ?_, h₂, hroom, fun wallet hnone => hnone₂ wallet (hnone₁ wallet hnone)⟩
      rw [exec_bind_of_ok hevict]
      exact hloop
    · rw [if_neg hfull]
      exact ⟨maps, rfl, h, by omega, fun _ hnone => hnone⟩

/-- Room for a wallet is made in any case. -/
theorem makeRoom_spec (h : Consistent config maps) :
    ∃ maps', exec (makeRoom config) maps = (.ok ⟨⟩, maps') ∧ Consistent config maps' ∧
      (∀ maxWallets, config.maxWallets = some maxWallets →
        maps'.buffers.rows.length < maxWallets) ∧
      ∀ wallet, maps.buffers.find? wallet = none → maps'.buffers.find? wallet = none := by
  unfold makeRoom
  rw [exec_bind, exec_get]
  dsimp only
  cases hmax : config.maxWallets with
  | none => exact ⟨maps, rfl, h, by simp, fun _ hnone => hnone⟩
  | some maxWallets =>
    obtain ⟨maps', hloop, h', hroom, hnone⟩ :=
      evictLoop_spec (FeatureBuffer.maxWallets_pos hmax) _ h (Nat.lt_succ_self _)
    refine ⟨maps', hloop, h', ?_, hnone⟩
    rintro _ ⟨⟩
    exact hroom

/-- A wallet that becomes the last keeps the maps consistent. -/
theorem Consistent.moveToEnd (h : Consistent config maps) (wallet : String) :
    Consistent config { maps with buffers := maps.buffers.moveToEnd wallet } where
  bounded maxWallets hmax := by
    rw [UniqueTable.length_moveToEnd]
    exact h.bounded maxWallets hmax
  aligned other := by
    rw [UniqueTable.find?_moveToEnd]
    exact h.aligned other

/-- A new wallet keeps the maps consistent if there is room for it. -/
theorem Consistent.addWallet (h : Consistent config maps)
    (hnew : maps.buffers.find? wallet = none)
    (hroom : ∀ maxWallets, config.maxWallets = some maxWallets →
      maps.buffers.rows.length < maxWallets) :
    Consistent config (maps.addWallet config wallet) := by
  unfold FeatureMaps.addWallet
  constructor
  · intro maxWallets hmax
    have hlt := hroom maxWallets hmax
    have hlength := UniqueTable.length_put maps.buffers wallet [] hnew
    dsimp only
    omega
  · intro other
    simp only [UniqueTable.find?_put]
    by_cases hother : other = wallet
    · simp only [hother, if_true]
      exact aligned_new config config.newSketches
    · simp only [hother, if_false]
      exact h.aligned other

/-- `_ensure_wallet` returns, keeps the maps consistent and leaves the wallet among them. -/
theorem ensureWallet_spec (config : BufferConfig R) (wallet : String)
    (h : Consistent config maps) :
    ∃ maps', exec (ensureWallet config wallet) maps = (.ok ⟨⟩, maps') ∧ Consistent config maps' ∧
      (maps'.buffers.find? wallet).isSome = true := by
  have hlock {maps' : FeatureMaps R} (h' : Consistent config maps')
      (hsome : (maps'.buffers.find? wallet).isSome = true) :
      exec (get >>= fun maps : FeatureMaps R => item maps.walletLocks wallet) maps' =
        (.ok ⟨⟩, maps') := by
    rw [exec_bind, exec_get]
    rw [← (h'.aligned wallet).lock, Option.isSome_iff_exists] at hsome
    obtain ⟨lock, hlock⟩ := hsome
    exact exec_item_of_some hlock maps'
  unfold ensureWallet
  rw [exec_bind, exec_get]
  dsimp only
  by_cases hsome : (maps.buffers.find? wallet).isSome = true
  · rw [if_pos hsome, exec_bind, exec_modify]
    have hmoved := h.moveToEnd wallet
    have hsome' : ((maps.buffers.moveToEnd wallet).find? wallet).isSome = true := by
      rwa [UniqueTable.find?_moveToEnd]
    exact ⟨_, hlock hmoved hsome', hmoved, hsome'⟩
  · rw [if_neg hsome]
    have hnew : maps.buffers.find? wallet = none := by simpa using hsome
    obtain ⟨maps₁, hloop, h₁, hroom, hnone⟩ := makeRoom_spec h
    have hadded := h₁.addWallet (hnone wallet hnew) hroom
    have hsome' : ((maps₁.addWallet config wallet).buffers.find? wallet).isSome = true := by
      simp [FeatureMaps.addWallet]
    refine ⟨_, ?_, hadded, hsome'⟩
    rw [exec_bind_of_ok hloop, exec_bind, exec_modify]
    exact hlock hadded hsome'

/-- Changing a row leaves the keys. -/
theorem isSome_find?_modify {Key Row : Type} [DecidableEq Key] (table : UniqueTable Key Row)
    (key key' : Key) (f : Row → Row) :
    ((table.modify key f).find? key').isSome = (table.find? key').isSome := by
  rw [UniqueTable.find?_modify]
  split_ifs with h
  · rw [h, Option.isSome_map]
  · rfl

/-- Changing the sketches of a wallet keeps the maps consistent. -/
theorem Consistent.modifySketches (h : Consistent config maps) (wallet : String)
    (f : WindowSketches R → WindowSketches R) :
    Consistent config
      { maps with benfordSketches := maps.benfordSketches.modify wallet f } where
  bounded := h.bounded
  aligned other :=
    { h.aligned other with
      sketches := (isSome_find?_modify _ _ _ _).trans (h.aligned other).sketches }

/-- So does changing its sketches for pairs. -/
theorem Consistent.modifyPairs (h : Consistent config maps) (wallet : String)
    (f : UniqueTable String (WindowSketches R) → UniqueTable String (WindowSketches R)) :
    Consistent config
      { maps with pairBenfordSketches := maps.pairBenfordSketches.modify wallet f } where
  bounded := h.bounded
  aligned other :=
    { h.aligned other with
      pairs := (isSome_find?_modify _ _ _ _).trans (h.aligned other).pairs }

/-- A deque after an `append` is not too long. -/
theorem length_dequeAppend_le {α : Type} (maxlen : ℕ) (deque : List α) (a : α) :
    (dequeAppend maxlen deque a).length ≤ maxlen := by
  unfold dequeAppend
  rw [List.length_drop, List.length_append, List.length_singleton]
  omega

/-- A deque that is not full keeps all of its entries. -/
theorem dequeAppend_of_lt {α : Type} {maxlen : ℕ} {deque : List α} (h : deque.length < maxlen)
    (a : α) : dequeAppend maxlen deque a = deque ++ [a] := by
  unfold dequeAppend
  have hzero : deque.length + 1 - maxlen = 0 := by omega
  rw [hzero, List.drop_zero]

/-- A full deque drops its first entry. -/
theorem dequeAppend_of_full {α : Type} {maxlen : ℕ} {first : α} {deque : List α}
    (h : (first :: deque).length = maxlen) (a : α) :
    dequeAppend maxlen (first :: deque) a = deque ++ [a] := by
  unfold dequeAppend
  have hone : (first :: deque).length + 1 - maxlen = 1 := by omega
  rw [hone]
  rfl

/-- Adding a trade keeps the entries of the wallet in agreement. -/
theorem Aligned.addTrade {buf : List (BufferRecord R)} {seen : UniqueTable String Unit}
    {lock : Option Unit} {sketches : Option (WindowSketches R)}
    {pairs : Option (UniqueTable String (WindowSketches R))} {trade : Trade}
    (h : Aligned config (some buf) lock (some seen) sketches pairs)
    (hnew : seen.find? trade.tradeId = none) :
    Aligned config (some (dequeAppend config.maxTrades buf (trade.record config.floats))) lock
      (some ((match buf.head? with
        | some oldest =>
          if config.maxTrades ≤ buf.length then seen.erase oldest.tradeId else seen
        | none => seen).put trade.tradeId ())) sketches pairs := by
  have hshort : buf.length ≤ config.maxTrades := h.short buf rfl
  have hdistinct : (buf.map BufferRecord.tradeId).Nodup := h.distinct buf rfl
  have hindexed : ∀ id, (seen.find? id).isSome = true ↔ id ∈ buf.map BufferRecord.tradeId :=
    h.indexed buf rfl seen rfl
  have hfree : trade.tradeId ∉ buf.map BufferRecord.tradeId := by
    rw [← hindexed, hnew]
    exact Bool.false_ne_true
  refine { h with short := ?_, distinct := ?_, indexed := ?_ }
  · rintro records ⟨⟩
    exact length_dequeAppend_le _ _ _
  · rintro records ⟨⟩
    have hall : ((buf ++ [(trade.record config.floats)]).map BufferRecord.tradeId).Nodup := by
      rw [List.map_append, List.nodup_append_comm]
      exact List.nodup_cons.mpr ⟨hfree, hdistinct⟩
    exact ((List.drop_sublist _ _).map _).nodup hall
  · rintro records ⟨⟩ ids ⟨⟩ id
    rw [UniqueTable.find?_put]
    cases buf with
    | nil =>
      rw [dequeAppend_of_lt config.maxTrades_pos]
      have hnone : (seen.find? id).isSome = true ↔ False := by
        rw [hindexed]
        simp
      by_cases hid : id = trade.tradeId
      · simp [hid, Trade.record]
      · simp [hid, hnone, Trade.record]
    | cons oldest rest =>
      obtain ⟨holdest, -⟩ := List.nodup_cons.mp hdistinct
      dsimp only [List.head?_cons]
      by_cases hfull : config.maxTrades ≤ (oldest :: rest).length
      · rw [if_pos hfull, dequeAppend_of_full (by omega), UniqueTable.find?_erase]
        by_cases hid : id = trade.tradeId
        · simp [hid, Trade.record]
        · rw [if_neg hid, List.map_append, List.mem_append]
          by_cases hdropped : id = oldest.tradeId
          · rw [if_pos hdropped]
            have hgone : id ∉ rest.map BufferRecord.tradeId := hdropped ▸ holdest
            simp [hgone, hid, Trade.record]
          · rw [if_neg hdropped, hindexed, List.map_cons, List.mem_cons]
            simp [hdropped, hid, Trade.record]
      · rw [if_neg hfull, dequeAppend_of_lt (by omega)]
        by_cases hid : id = trade.tradeId
        · simp [hid, Trade.record]
        · rw [if_neg hid, hindexed, List.map_append, List.mem_append]
          simp [hid, Trade.record]

/-- Adding a trade to a wallet keeps the maps consistent. -/
theorem Consistent.addTrade (h : Consistent config maps) {trade : Trade}
    {buf : List (BufferRecord R)} {seen : UniqueTable String Unit}
    (hbuf : maps.buffers.find? wallet = some buf)
    (hseen : maps.seenTradeIds.find? wallet = some seen)
    (hnew : seen.find? trade.tradeId = none) :
    Consistent config (maps.addTrade config trade wallet buf seen) := by
  unfold FeatureMaps.addTrade
  constructor
  · intro maxWallets hmax
    have hlength : (maps.buffers.modify wallet fun buf =>
        dequeAppend config.maxTrades buf (trade.record config.floats)).rows.length =
          maps.buffers.rows.length := List.length_map _
    rw [hlength]
    exact h.bounded maxWallets hmax
  · intro other
    simp only [UniqueTable.find?_modify]
    by_cases hother : other = wallet
    · simp only [hother, if_true, hbuf, hseen, Option.map_some]
      have haligned := h.aligned wallet
      rw [hbuf, hseen] at haligned
      exact haligned.addTrade hnew
    · simp only [hother, if_false]
      exact h.aligned other

/-- The loop of `update` over sketches keeps what the changes keep. -/
theorem keeps_updateSketches {P : FeatureMaps R → Prop} (config : BufferConfig R)
    (call : TradeUpdate R) (sketches : WindowSketches R)
    {change : (WindowSketches R → WindowSketches R) → FeatureMaps R → FeatureMaps R}
    (hchange : ∀ f maps, P maps → P (change f maps)) :
    Keeps P (updateSketches config call sketches change) := by
  apply Keeps.forM
  intro row
  split
  · exact Keeps.throw _
  · exact Keeps.modify (hchange _)

/-- Making sketches for a pair keeps the maps consistent. -/
theorem keeps_ensurePair (config : BufferConfig R) (wallet pairId : String) :
    Keeps (Consistent config) (ensurePair config wallet pairId) := by
  refine Keeps.get.bind fun maps => (keeps_item _ _).bind fun pairs => ?_
  split
  · exact Keeps.pure _
  · exact Keeps.modify fun maps hmaps => hmaps.modifyPairs wallet _

/-- A round of `update` keeps the maps consistent, wherever it raises. -/
theorem keeps_updateWallet (config : BufferConfig R) (call : TradeUpdate R) (wallet : String) :
    Keeps (Consistent config) (updateWallet config call wallet) := by
  intro maps hmaps
  obtain ⟨maps₁, hensure, h₁, hsome⟩ := ensureWallet_spec config wallet hmaps
  unfold updateWallet
  rw [exec_bind_of_ok hensure, exec_bind, exec_get]
  dsimp only
  cases hseen : maps₁.seenTradeIds.find? wallet with
  | none => exact h₁
  | some seen =>
    dsimp only
    by_cases happlied : (seen.find? call.trade.tradeId).isSome = true
    · rw [if_pos happlied]
      exact h₁
    · rw [if_neg happlied]
      have hnew : seen.find? call.trade.tradeId = none := by simpa using happlied
      obtain ⟨buf, hbuf⟩ := Option.isSome_iff_exists.mp hsome
      rw [exec_bind_of_ok (exec_item_of_some hbuf maps₁), exec_bind, exec_modify]
      have hadded := h₁.addTrade hbuf hseen hnew
      refine Keeps.bind (keeps_item _ _) (fun sketches => ?_) _ hadded
      refine (keeps_updateSketches config call sketches fun f maps hmaps =>
        hmaps.modifySketches wallet f).bind fun _ => ?_
      refine (keeps_ensurePair config wallet _).bind fun _ => Keeps.get.bind fun maps => ?_
      refine (keeps_item _ _).bind fun pairs => (keeps_item _ _).bind fun sketches => ?_
      exact keeps_updateSketches config call sketches fun f maps hmaps =>
        hmaps.modifyPairs wallet _

/-- `get_feature_row` keeps the maps consistent. -/
theorem keeps_getFeatureRow (config : BufferConfig R) (wallet : String) :
    Keeps (Consistent config) (getFeatureRow config wallet) := by
  intro maps hmaps
  obtain ⟨maps₁, hensure, h₁, -⟩ := ensureWallet_spec config wallet hmaps
  unfold getFeatureRow
  rw [exec_bind_of_ok hensure]
  refine Keeps.get_bind (fun maps hmaps => ?_) maps₁ h₁
  split
  · exact hmaps
  · refine Keeps.bind (keeps_item _ _) (fun sketches => ?_) maps hmaps
    refine (keeps_item _ _).bind fun pairs => ?_
    split <;> exact Keeps.pure _

/-- After every sequence of calls, and after each call of it, the maps are consistent. -/
theorem maps_always_consistent (config : BufferConfig R) (calls : List (Call R)) :
    Always (step config) (Consistent config) {} calls := by
  refine always_of_invariant (Consistent config) (fun _ h => h) ?_ (consistent_new config) calls
  intro maps call hmaps
  cases call with
  | update call => exact Keeps.forM (keeps_updateWallet config call) _ maps hmaps
  | getFeatureRow wallet => exact keeps_getFeatureRow config wallet maps hmaps

end FeatureMaps

end LedgerLens.Streaming
