import LedgerLens.Library.UniqueTable
import Mathlib.Data.Rat.Defs

/-!
# The feature buffer

`FeatureBuffer` keeps for each wallet a bounded deque of its recent trades, an index of the
ids in the deque, and Benford sketches, one for each time window and again for each pair of
assets. The wallets themselves are bounded as well: a new one takes the place of the least
recently used.

Floating-point numbers are a parameter. Times are in microseconds.
-/

namespace LedgerLens.Streaming

/-- `Asset`. -/
structure Asset where
  /-- `code`. -/
  code : String
  /-- `issuer`. -/
  issuer : Option String
  deriving DecidableEq

/-- `Asset.pair_id`. -/
def Asset.pairId (asset other : Asset) : String :=
  let issuer (a : Asset) : String := (a.issuer.filter (· ≠ "")).getD "native"
  asset.code ++ ":" ++ issuer asset ++ "/" ++ other.code ++ ":" ++ issuer other

/-- `Trade`, with the fields that the buffer reads. -/
structure Trade where
  /-- `trade_id`. -/
  tradeId : String
  /-- `ledger_close_time`. -/
  ledgerCloseTime : ℤ
  /-- `base_account`. -/
  baseAccount : String
  /-- `counter_account`. -/
  counterAccount : String
  /-- `base_asset`. -/
  baseAsset : Asset
  /-- `counter_asset`. -/
  counterAsset : Asset
  /-- `amount`. -/
  amount : ℚ
  deriving DecidableEq

/-- The arithmetic of a type of floating-point numbers. -/
structure FloatTools (R : Type) where
  /-- `0.0`. -/
  zero : R
  /-- `x + 1.0`. -/
  succ : R → R
  /-- `x * math.exp(-delta / window_seconds)`, with the difference in microseconds. -/
  decay : ℤ → ℕ → R → R
  /-- `float(amount)`. -/
  ofAmount : ℚ → R
  /-- `amount <= 0`. -/
  nonpos : R → Bool
  /-- `int(amount / 10.0 ** math.floor(math.log10(amount)))`. -/
  leadingDigit : R → ℤ

/-- `StreamingBenfordSketch`. -/
structure BenfordSketch (R : Type) where
  /-- `window_seconds`. -/
  windowSeconds : ℕ
  /-- `_counts`. -/
  counts : List R
  /-- `_last_update`. -/
  lastUpdate : Option ℤ
  deriving DecidableEq

section

variable {R : Type} (floats : FloatTools R)

namespace BenfordSketch

/-- `StreamingBenfordSketch(window_seconds)`. -/
def new (windowSeconds : ℕ) : BenfordSketch R where
  windowSeconds := windowSeconds
  counts := List.replicate 9 floats.zero
  lastUpdate := none

/-- `_apply_decay`. -/
def applyDecay (sketch : BenfordSketch R) (currentTime : ℤ) : BenfordSketch R :=
  match sketch.lastUpdate with
  | none => { sketch with lastUpdate := some currentTime }
  | some lastUpdate =>
    if currentTime - lastUpdate ≤ 0 then sketch
    else
      { sketch with
        counts := sketch.counts.map
          (floats.decay (currentTime - lastUpdate) sketch.windowSeconds)
        lastUpdate := some currentTime }

/-- `StreamingBenfordSketch.update`. -/
def update (sketch : BenfordSketch R) (amount : R) (timestamp : ℤ) :
    BenfordSketch R :=
  let sketch := sketch.applyDecay floats timestamp
  if floats.nonpos amount then sketch
  else
    let digit := floats.leadingDigit amount
    if 1 ≤ digit ∧ digit ≤ 9 then
      { sketch with counts := sketch.counts.modify (digit - 1).toNat floats.succ }
    else sketch

end BenfordSketch

/-- One entry of a wallet's deque. -/
structure BufferRecord (R : Type) where
  /-- `trade_id`. -/
  tradeId : String
  /-- `ledger_close_time`. -/
  ledgerCloseTime : ℤ
  /-- `base_account`. -/
  baseAccount : String
  /-- `counter_account`. -/
  counterAccount : String
  /-- `base_asset`. -/
  baseAsset : String
  /-- `counter_asset`. -/
  counterAsset : String
  /-- `amount`. -/
  amount : R
  deriving DecidableEq

/-- The record of a trade. -/
def Trade.record (trade : Trade) : BufferRecord R where
  tradeId := trade.tradeId
  ledgerCloseTime := trade.ledgerCloseTime
  baseAccount := trade.baseAccount
  counterAccount := trade.counterAccount
  baseAsset := trade.baseAsset.code
  counterAsset := trade.counterAsset.code
  amount := floats.ofAmount trade.amount

/-- Sketches by the hours of their windows. -/
abbrev WindowSketches (R : Type) := UniqueTable ℕ (BenfordSketch R)

/-- What the buffer holds for one wallet. -/
structure WalletState (R : Type) where
  /-- `_buffers[wallet]`. -/
  trades : List (BufferRecord R)
  /-- `_seen_trade_ids[wallet]`. -/
  seenTradeIds : UniqueTable String Unit
  /-- `_benford_sketches[wallet]`. -/
  benfordSketches : WindowSketches R
  /-- `_pair_benford_sketches[wallet]`. -/
  pairBenfordSketches : UniqueTable String (WindowSketches R)

/-- How a buffer is made. -/
structure BufferConfig (R : Type) where
  /-- The arithmetic. -/
  floats : FloatTools R
  /-- `max_trades`. -/
  maxTrades : ℕ
  /-- At least one trade is kept. -/
  maxTrades_pos : 1 ≤ maxTrades
  /-- The argument `max_wallets`. -/
  maxWalletsArgument : Option ℕ
  /-- `config.FEATURE_BUFFER_MAX_WALLETS`. -/
  configuredMaxWallets : ℕ
  /-- `config.BENFORD_WINDOWS_HOURS`. -/
  benfordWindowsHours : List ℕ

/-- The attribute `max_wallets`: zero counts as no bound. -/
def BufferConfig.maxWallets (config : BufferConfig R) : Option ℕ :=
  some (config.maxWalletsArgument.getD config.configuredMaxWallets) |>.filter (· ≠ 0)

/-- New sketches for all windows. -/
def BufferConfig.newSketches (config : BufferConfig R) : WindowSketches R :=
  config.benfordWindowsHours.foldl
    (fun sketches h => sketches.put h (BenfordSketch.new config.floats (h * 3600))) .empty

/-- The state of a wallet that is new to the buffer. -/
def BufferConfig.newWallet (config : BufferConfig R) : WalletState R where
  trades := []
  seenTradeIds := .empty
  benfordSketches := config.newSketches
  pairBenfordSketches := .empty

/-- The part of `update` that changes the state of a wallet. -/
def WalletState.apply (config : BufferConfig R) (state : WalletState R) (trade : Trade) :
    WalletState R :=
  let amount := config.floats.ofAmount trade.amount
  let pairId := trade.baseAsset.pairId trade.counterAsset
  let updateAll (sketches : WindowSketches R) : WindowSketches R :=
    sketches.mapRows fun _ sketch => sketch.update config.floats amount trade.ledgerCloseTime
  -- The deque drops its oldest record when it is full, and the index follows.
  let full : Bool := config.maxTrades ≤ state.trades.length
  let seen :=
    match state.trades.head?.filter fun _ => full with
    | some oldest => state.seenTradeIds.deleteWhere fun id _ => id = oldest.tradeId
    | none => state.seenTradeIds
  { trades := (if full then state.trades.tail else state.trades) ++ [trade.record config.floats]
    seenTradeIds := seen.put trade.tradeId ()
    benfordSketches := updateAll state.benfordSketches
    pairBenfordSketches :=
      let pairs := state.pairBenfordSketches
      let pairs :=
        if pairs.find? pairId = none then pairs.put pairId config.newSketches else pairs
      pairs.modify pairId updateAll }

/-- `FeatureBuffer`: the states of the wallets, least recently used first. -/
structure FeatureBuffer (R : Type) where
  /-- The tracked wallets. -/
  wallets : UniqueTable String (WalletState R) := .empty
  /-- `evictions_total`. -/
  evictionsTotal : ℕ := 0

namespace FeatureBuffer

/-- `_evict_lru`. -/
def evictLru (buffer : FeatureBuffer R) : FeatureBuffer R where
  wallets := buffer.wallets.dropFirst
  evictionsTotal := buffer.evictionsTotal + 1

/-- The loop that evicts as long as there are `max_wallets` wallets or more. -/
def makeRoom (config : BufferConfig R) (buffer : FeatureBuffer R) :
    FeatureBuffer R :=
  match config.maxWallets with
  | none => buffer
  | some maxWallets => evictLru^[buffer.wallets.rows.length + 1 - maxWallets] buffer

/-- `_ensure_wallet`. -/
def ensureWallet (config : BufferConfig R) (buffer : FeatureBuffer R)
    (wallet : String) : FeatureBuffer R :=
  if (buffer.wallets.find? wallet).isSome then
    { buffer with wallets := buffer.wallets.moveToEnd wallet }
  else
    let buffer := buffer.makeRoom config
    { buffer with wallets := buffer.wallets.put wallet config.newWallet }

/-- One round of the loop of `update`. -/
def updateWallet (config : BufferConfig R) (trade : Trade) (buffer : FeatureBuffer R)
    (wallet : String) : FeatureBuffer R :=
  let buffer := buffer.ensureWallet config wallet
  match buffer.wallets.find? wallet with
  | none => buffer
  | some state =>
    if (state.seenTradeIds.find? trade.tradeId).isSome then buffer
    else
      { buffer with wallets := buffer.wallets.modify wallet fun _ => state.apply config trade }

/-- `update`. -/
def update (config : BufferConfig R) (buffer : FeatureBuffer R) (trade : Trade) :
    FeatureBuffer R :=
  [trade.baseAccount, trade.counterAccount].foldl (updateWallet config trade) buffer

/-- `get_feature_row`: the state that the row is computed from, if there are trades. -/
def getFeatureRow (config : BufferConfig R) (buffer : FeatureBuffer R)
    (wallet : String) : Option (WalletState R) × FeatureBuffer R :=
  let buffer := buffer.ensureWallet config wallet
  ((buffer.wallets.find? wallet).filter fun state => !state.trades.isEmpty, buffer)

end FeatureBuffer

end

end LedgerLens.Streaming
