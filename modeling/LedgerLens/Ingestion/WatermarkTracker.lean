import LedgerLens.Library.Mutex
import LedgerLens.Library.UniqueTable
import Mathlib.Data.String.Basic

/-!
# The watermark tracker

`WatermarkTracker` keeps the position of the last trade of each pair in memory and writes all of
them to a file now and then. Its methods run under a lock that is not reentrant. The methods
whose names end in `Unlocked` here are the blocks under the lock.
-/

namespace LedgerLens.Ingestion

open Raising Locking

/-- A `datetime`. -/
@[ext]
structure CloseTime where
  /-- Microseconds, in UTC if the time zone is known. -/
  micros : ℤ
  /-- Whether it has a time zone. -/
  aware : Bool
  deriving DecidableEq

/-- `Watermark`. -/
structure Watermark where
  /-- The pair. -/
  pairId : String
  /-- The paging token of the last trade. -/
  pagingToken : Option String := none
  /-- Its ledger close time. -/
  ledgerCloseTime : Option CloseTime := none
  /-- The number of trades. -/
  tradeCount : ℤ := 0
  /-- The date of the last update, in microseconds. -/
  updatedAt : ℤ
  deriving DecidableEq

/-- What the methods raise. -/
inductive TrackerError where
  /-- A `TypeError`. -/
  | typeError (message : String)
  /-- An `OSError` of a write. -/
  | osError (reason : String)
  deriving DecidableEq

/-- The file of the watermarks. -/
inductive StoreFile where
  /-- There is none. -/
  | absent
  /-- A file that `_load` logs as an error. -/
  | malformed
  /-- Watermarks by their pairs. -/
  | watermarks (table : UniqueTable String Watermark)

/-- `WatermarkTracker` with its file. -/
structure WatermarkState where
  /-- `_flush_every_n`. -/
  flushEveryN : ℤ
  /-- `_watermarks`. -/
  watermarks : UniqueTable String Watermark := .empty
  /-- `_update_counter`. -/
  updateCounter : ℕ := 0
  /-- The file. -/
  file : StoreFile := .absent

/-- A block under the lock. -/
abbrev TrackerProgram (α : Type) := Raising WatermarkState TrackerError α

/-- A method, called by a thread. -/
abbrev TrackerMethod (Thread α : Type) := Locking Thread WatermarkState TrackerError α

/-- The comparison `a < b` of dates. -/
def CloseTime.older (a b : CloseTime) : Except TrackerError Bool :=
  if a.aware = b.aware then .ok (a.micros < b.micros)
  else .error (.typeError "can't compare offset-naive and offset-aware datetimes")

/-- The watermarks that `_load` finds in a file. -/
def StoreFile.load : StoreFile → UniqueTable String Watermark
  | .absent => .empty
  | .malformed => .empty
  | .watermarks table => table

/-- The arguments of `advance`, and the date of the call. -/
structure Advance where
  /-- The pair. -/
  pairId : String
  /-- The paging token of the trade. -/
  pagingToken : String
  /-- Its ledger close time. -/
  ledgerCloseTime : CloseTime
  /-- The number of trades to be counted. -/
  increment : ℤ := 1
  /-- The date of the call. -/
  now : ℤ := 0

namespace WatermarkState

/-- `__init__`: a new tracker reads the file. -/
def construct (flushEveryN : ℤ) (file : StoreFile) : WatermarkState :=
  { flushEveryN := flushEveryN, watermarks := file.load, file := file }

/-- `_flush_unlocked`. A write may fail; the file is replaced as a whole or not at all. -/
def flushUnlocked (fault : Option String) : TrackerProgram Unit :=
  match fault with
  | some reason => throw (.osError reason)
  | none => modify fun s => { s with file := .watermarks s.watermarks }

/-- A write is due after a number of updates. -/
def WriteDue (flushEveryN : ℤ) (updateCounter : ℕ) : Prop :=
  0 < flushEveryN ∧ (updateCounter : ℤ) % flushEveryN = 0

instance (flushEveryN : ℤ) (updateCounter : ℕ) : Decidable (WriteDue flushEveryN updateCounter) :=
  inferInstanceAs (Decidable (_ ∧ _))

/-- The end of the block of `advance`. -/
def storeUnlocked (wm : Watermark) (pairId : String) (fault : Option String) :
    TrackerProgram Watermark := do
  modify fun s =>
    { s with watermarks := s.watermarks.put pairId wm, updateCounter := s.updateCounter + 1 }
  let s ← get
  if WriteDue s.flushEveryN s.updateCounter then
    flushUnlocked fault
  pure wm

/-- The watermark that `advance` leaves for a pair with a watermark. -/
def Advance.moved (args : Advance) (existing : Watermark) : Watermark :=
  { existing with
    pagingToken := some args.pagingToken
    ledgerCloseTime := some args.ledgerCloseTime
    tradeCount := existing.tradeCount + args.increment
    updatedAt := args.now }

/-- The watermark that `advance` makes for a new pair. -/
def Advance.first (args : Advance) : Watermark where
  pairId := args.pairId
  pagingToken := some args.pagingToken
  ledgerCloseTime := some args.ledgerCloseTime
  tradeCount := args.increment
  updatedAt := args.now

/-- Whether `advance` skips a position because it is older than the existing one. -/
def outOfOrder (args : Advance) (existing : Watermark) : Except TrackerError Bool :=
  match existing.ledgerCloseTime with
  | none => .ok false
  | some closeTime => args.ledgerCloseTime.older closeTime

/-- The block of `advance`. -/
def advanceUnlocked (args : Advance) (fault : Option String) : TrackerProgram Watermark := do
  let s ← get
  match s.watermarks.find? args.pairId with
  | none => storeUnlocked (Advance.first args) args.pairId fault
  | some existing =>
    let older ← Raising.ofExcept (outOfOrder args existing)
    if older then pure existing
    else storeUnlocked (Advance.moved args existing) args.pairId fault

/-- The block of `reset`. -/
def resetUnlocked (pairId : String) (fault : Option String) : TrackerProgram Unit := do
  modify fun s => { s with watermarks := s.watermarks.erase pairId }
  flushUnlocked fault

/-- The block of `reset_all`. -/
def resetAllUnlocked (fault : Option String) : TrackerProgram Unit := do
  modify fun s => { s with watermarks := .empty }
  flushUnlocked fault

end WatermarkState

namespace WatermarkTracker

open WatermarkState

variable {Thread : Type} (thread : Thread)

/-- `get`. -/
def get (pairId : String) : TrackerMethod Thread (Option Watermark) :=
  withLock thread (lift do
    let s ← MonadState.get
    pure (s.watermarks.find? pairId))

/-- `get_cursor`. -/
def getCursor (pairId : String) : TrackerMethod Thread (Option String) := do
  let wm ← get thread pairId
  pure (wm.bind Watermark.pagingToken)

/-- `get_since`. -/
def getSince (pairId : String) : TrackerMethod Thread (Option CloseTime) := do
  let wm ← get thread pairId
  pure (wm.bind Watermark.ledgerCloseTime)

/-- `all_pair_ids`. -/
def allPairIds : TrackerMethod Thread (List String) :=
  withLock thread (lift do
    let s ← MonadState.get
    pure (s.watermarks.rows.map Prod.fst))

/-- `to_dict`. -/
def toDict : TrackerMethod Thread (List (String × Watermark)) :=
  withLock thread (lift do
    let s ← MonadState.get
    pure s.watermarks.rows)

/-- `advance`. -/
def advance (args : Advance) (fault : Option String) : TrackerMethod Thread Watermark :=
  withLock thread (lift (advanceUnlocked args fault))

/-- `reset`. -/
def reset (pairId : String) (fault : Option String) : TrackerMethod Thread Unit :=
  withLock thread (lift (resetUnlocked pairId fault))

/-- `reset_all`. -/
def resetAll (fault : Option String) : TrackerMethod Thread Unit :=
  withLock thread (lift (resetAllUnlocked fault))

/-- `flush`. -/
def flush (fault : Option String) : TrackerMethod Thread Unit :=
  withLock thread (lift (flushUnlocked fault))

/-- `lag_seconds`, in microseconds. A close time without a time zone counts as UTC. -/
def lagSeconds (now : ℤ) (pairId : String) : TrackerMethod Thread (Option ℤ) := do
  let wm ← get thread pairId
  pure ((wm.bind Watermark.ledgerCloseTime).map fun closeTime => now - closeTime.micros)

/-- The rows of `summary`, in the order of the pairs. -/
def summaryRows (now : ℤ) :
    List (String × Watermark) → TrackerMethod Thread (List (String × Watermark × Option ℤ))
  | [] => pure []
  | (pairId, wm) :: rest => do
    let lag ← lagSeconds thread now pairId
    let pairs ← summaryRows now rest
    pure ((pairId, wm, lag) :: pairs)

/-- `summary`: its list of watermarks. -/
def summary (now : ℤ) : TrackerMethod Thread (List (String × Watermark × Option ℤ)) :=
  withLock thread do
    let s ← MonadState.get
    summaryRows thread now s.state.watermarks.sortKeys.rows

/-- `__exit__`. -/
def exit (fault : Option String) : TrackerMethod Thread Unit := flush thread fault

end WatermarkTracker

/-- A call of a public method, with the readings of the clock and the failures of writes that it
meets. -/
inductive TrackerCall where
  /-- `get`. -/
  | get (pairId : String)
  /-- `get_cursor`. -/
  | getCursor (pairId : String)
  /-- `get_since`. -/
  | getSince (pairId : String)
  /-- `all_pair_ids`. -/
  | allPairIds
  /-- `to_dict`. -/
  | toDict
  /-- `advance`. -/
  | advance (args : Advance) (fault : Option String)
  /-- `reset`. -/
  | reset (pairId : String) (fault : Option String)
  /-- `reset_all`. -/
  | resetAll (fault : Option String)
  /-- `flush`. -/
  | flush (fault : Option String)
  /-- `lag_seconds`. -/
  | lagSeconds (now : ℤ) (pairId : String)
  /-- `summary`. -/
  | summary (now : ℤ)
  /-- The end of a `with` block. -/
  | exit (fault : Option String)

/-- The method that a call runs, without its result. -/
def TrackerCall.perform {Thread : Type} (thread : Thread) :
    TrackerCall → TrackerMethod Thread Unit
  | .get pairId => discard (WatermarkTracker.get thread pairId)
  | .getCursor pairId => discard (WatermarkTracker.getCursor thread pairId)
  | .getSince pairId => discard (WatermarkTracker.getSince thread pairId)
  | .allPairIds => discard (WatermarkTracker.allPairIds thread)
  | .toDict => discard (WatermarkTracker.toDict thread)
  | .advance args fault => discard (WatermarkTracker.advance thread args fault)
  | .reset pairId fault => WatermarkTracker.reset thread pairId fault
  | .resetAll fault => WatermarkTracker.resetAll thread fault
  | .flush fault => WatermarkTracker.flush thread fault
  | .lagSeconds now pairId => discard (WatermarkTracker.lagSeconds thread now pairId)
  | .summary now => discard (WatermarkTracker.summary thread now)
  | .exit fault => WatermarkTracker.exit thread fault

end LedgerLens.Ingestion
