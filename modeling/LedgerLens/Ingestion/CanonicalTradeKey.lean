import LedgerLens.Library.Json

/-!
# Canonical trade keys

`canonical_key_from_record` derives the identity of a trade from explicit fields of its record or,
where there are none, from a trade id that packs the position of the operation. The two ways
number the operations of a ledger differently, so that no trade has the same key on both.
-/

namespace LedgerLens.Ingestion

/-- The value of a field. -/
inductive FieldValue where
  /-- An integer. -/
  | int (n : ℤ)
  /-- A string. -/
  | str (s : String)
  deriving DecidableEq

/-- A record, with the fields that are looked up. A field that is `None` is as one that is
missing. -/
structure TradeRecord where
  /-- `ledger_sequence`. -/
  ledgerSequence : Option FieldValue := none
  /-- `operation_index`. -/
  operationIndex : Option FieldValue := none
  /-- `trade_index`. -/
  tradeIndex : Option FieldValue := none
  /-- `trade_id`. -/
  tradeId : Option FieldValue := none
  /-- `id`. -/
  id : Option FieldValue := none
  /-- `paging_token`. -/
  pagingToken : Option FieldValue := none
  deriving DecidableEq

/-- The `ValueError`s of `canonical_key_from_record`. -/
inductive CanonicalKeyError where
  /-- Nothing identifies the trade: "record has no ledger/operation fields or Horizon trade
  id". -/
  | noIdentity
  /-- A text is not an integer: "invalid literal for int() with base 10". -/
  | invalidLiteral (text : String)
  deriving DecidableEq

/-- `CanonicalTradeKey`: the ledger, the operation and the trade. -/
abbrev CanonicalTradeKey := ℤ × ℤ × ℤ

/-- Whether digits follow, with at most one underscore between two of them. -/
def groupedDigits : Bool → List Char → Bool
  | afterDigit, [] => afterDigit
  | afterDigit, c :: cs =>
    if c.isDigit then groupedDigits true cs else c = '_' && afterDigit && groupedDigits false cs

/-- The number with some digits. -/
def digitsValue (digits : List Char) : Option ℤ :=
  if groupedDigits false digits then some (Nat.ofDigitChars 10 (digits.filter Char.isDigit) 0)
  else none

/-- The white space that `int` allows around a number. -/
def isSpace (c : Char) : Bool := c ∈ [' ', '\t', '\n', '\x0b', '\x0c', '\r']

/-- A text without the white space around it. -/
def stripSpace (text : List Char) : List Char :=
  ((text.dropWhile isSpace).reverse.dropWhile isSpace).reverse

/-- The number with some digits and possibly a sign before them. -/
def signedValue (text : List Char) : Option ℤ :=
  if text.head? = some '-' then (digitsValue (text.drop 1)).map fun n => -n
  else if text.head? = some '+' then digitsValue (text.drop 1)
  else digitsValue text

/-- `int(text)`, for a text of ASCII characters. -/
def intOfText (text : String) : Except CanonicalKeyError ℤ :=
  match signedValue (stripSpace text.toList) with
  | some n => .ok n
  | none => .error (.invalidLiteral text)

/-- `int(text or 0)`. -/
def intOrZero (text : String) : Except CanonicalKeyError ℤ :=
  if text = "" then .ok 0 else intOfText text

namespace FieldValue

/-- `int(value)`. -/
def toInt : FieldValue → Except CanonicalKeyError ℤ
  | int n => .ok n
  | str s => intOfText s

/-- `str(value)`. -/
def toText : FieldValue → String
  | int n => toString n
  | str s => s

/-- Whether a value is there and counts as true. -/
def truthy : Option FieldValue → Bool
  | none => false
  | some (int n) => n ≠ 0
  | some (str s) => s ≠ ""

/-- `a or b`. -/
def orElse (a b : Option FieldValue) : Option FieldValue := if truthy a then a else b

end FieldValue

/-- `canonical_trade_key`. -/
def canonicalTradeKey (ledgerSequence operationIndex tradeIndex : ℤ) : CanonicalTradeKey :=
  (ledgerSequence, operationIndex, tradeIndex)

/-- The key of a trade id. -/
def keyOfTradeId (tradeId : String) : Except CanonicalKeyError CanonicalTradeKey := do
  let opIdStr := String.ofList (tradeId.toList.takeWhile (· ≠ '-'))
  let tradeIdx := String.ofList ((tradeId.toList.dropWhile (· ≠ '-')).drop 1)
  let opId ← intOfText opIdStr
  return canonicalTradeKey (opId >>> (32 : ℕ)) (opId % 2 ^ 32) (← intOrZero tradeIdx)

/-- `canonical_key_from_record`. -/
def canonicalKeyFromRecord (record : TradeRecord) :
    Except CanonicalKeyError CanonicalTradeKey :=
  match record.ledgerSequence, record.operationIndex with
  | some ledger, some opIndex => do
    let tradeIndex := (FieldValue.orElse record.tradeIndex (some (.int 0))).getD (.int 0)
    return canonicalTradeKey (← ledger.toInt) (← opIndex.toInt) (← tradeIndex.toInt)
  | _, _ =>
    match FieldValue.orElse (FieldValue.orElse record.tradeId record.id) record.pagingToken with
    | none => .error .noIdentity
    | some tradeId =>
      if FieldValue.truthy (some tradeId) then keyOfTradeId tradeId.toText
      else .error .noIdentity

section Numbers

/-- The digits of a number. -/
theorem groupedDigits_toDigits {digits : List Char} (hdigits : ∀ c ∈ digits, c.isDigit = true)
    (afterDigit : Bool) (hne : digits ≠ [] ∨ afterDigit = true) :
    groupedDigits afterDigit digits = true := by
  induction digits generalizing afterDigit with
  | nil => exact hne.resolve_left fun h => h rfl
  | cons c digits ih =>
    unfold groupedDigits
    rw [if_pos (hdigits c List.mem_cons_self)]
    exact ih (fun x hx => hdigits x (List.mem_cons_of_mem _ hx)) true (Or.inr rfl)

theorem digitsValue_toString (n : ℕ) : digitsValue (toString n).toList = some (n : ℤ) := by
  have hdigits : ∀ c ∈ (toString n).toList, c.isDigit = true :=
    fun c => Json.isDigit_of_mem_toString
  have hne : (toString n).toList ≠ [] := by
    rw [Nat.toString_eq_repr, Nat.toList_repr]
    exact Nat.toDigits_ne_nil
  unfold digitsValue
  rw [if_pos (groupedDigits_toDigits hdigits false (Or.inl hne)), List.filter_eq_self.mpr hdigits,
    Nat.toString_eq_repr, Nat.toList_repr, Nat.ofDigitChars_toDigits (by omega) (by omega)]

/-- There is no white space in a text of digits. -/
theorem stripSpace_of_digits {text : List Char} (hdigits : ∀ c ∈ text, c.isDigit = true) :
    stripSpace text = text := by
  have hspace : ∀ c : Char, c.isDigit = true → isSpace c = false := by
    intro c hc
    unfold isSpace
    rw [decide_eq_false_iff_not]
    simp only [List.mem_cons, List.not_mem_nil, or_false]
    rintro (rfl | rfl | rfl | rfl | rfl | rfl) <;> exact absurd hc (by decide)
  have hdrop : ∀ l : List Char, (∀ c ∈ l, c.isDigit = true) →
      l.dropWhile isSpace = l := by
    intro l hl
    cases l with
    | nil => rfl
    | cons c l => rw [List.dropWhile_cons_of_neg (by rw [hspace c (hl c List.mem_cons_self)]; simp)]
  unfold stripSpace
  rw [hdrop text hdigits, hdrop _ fun c hc => hdigits c (List.mem_reverse.mp hc),
    List.reverse_reverse]

/-- `int(str(n))`. -/
theorem intOfText_toString (n : ℕ) : intOfText (toString n) = .ok (n : ℤ) := by
  have hdigits : ∀ c ∈ (toString n).toList, c.isDigit = true :=
    fun c => Json.isDigit_of_mem_toString
  have hhead : ∀ c, (toString n).toList.head? = some c → c.isDigit = true := fun c hc =>
    hdigits c (List.mem_of_mem_head? hc)
  have hsigned : signedValue (toString n).toList = some (n : ℤ) := by
    unfold signedValue
    rw [if_neg fun h => absurd (hhead _ h) (by decide),
      if_neg fun h => absurd (hhead _ h) (by decide), digitsValue_toString]
  unfold intOfText
  rw [stripSpace_of_digits hdigits, hsigned]

end Numbers

/-- A trade on the ledger, with the bounds that the identifier of an operation has room for. -/
structure OnLedgerTrade where
  /-- The sequence number of the ledger. -/
  ledger : ℕ
  /-- The order of the transaction in the ledger. -/
  transaction : ℕ
  /-- The index of the operation in the transaction. -/
  operation : ℕ
  /-- The index of the trade in the operation. -/
  trade : ℕ
  /-- A ledger has 31 bits. -/
  ledger_lt : ledger < 2 ^ 31
  /-- Transactions are counted from one. -/
  one_le_transaction : 1 ≤ transaction
  /-- A transaction has 20 bits. -/
  transaction_lt : transaction < 2 ^ 20
  /-- An operation has 12 bits. -/
  operation_lt : operation < 2 ^ 12

namespace OnLedgerTrade

/-- The operation id, which packs the position of the operation. -/
def operationId (trade : OnLedgerTrade) : ℕ :=
  trade.ledger <<< 32 ||| trade.transaction <<< 12 ||| trade.operation

/-- The record of a source that has explicit fields. -/
def explicitRecord (trade : OnLedgerTrade) : TradeRecord where
  ledgerSequence := some (.int trade.ledger)
  operationIndex := some (.int trade.operation)
  tradeIndex := some (.int trade.trade)

/-- The record of a source that has the trade id of Horizon. -/
def horizonRecord (trade : OnLedgerTrade) : TradeRecord where
  tradeId := some (.str (toString trade.operationId ++ "-" ++ toString trade.trade))

theorem operationId_eq (trade : OnLedgerTrade) :
    trade.operationId =
      trade.ledger * 2 ^ 32 + (trade.transaction * 2 ^ 12 + trade.operation) := by
  have htransaction := trade.transaction_lt
  have hoperation := trade.operation_lt
  have hlow : trade.transaction * 2 ^ 12 + trade.operation < 2 ^ 32 := by omega
  unfold operationId
  rw [Nat.or_assoc, ← Nat.shiftLeft_add_eq_or_of_lt hoperation, Nat.shiftLeft_eq _ 12,
    ← Nat.shiftLeft_add_eq_or_of_lt hlow, Nat.shiftLeft_eq]

/-- The key of the explicit fields. -/
theorem explicit_key (trade : OnLedgerTrade) :
    canonicalKeyFromRecord trade.explicitRecord =
      .ok (trade.ledger, trade.operation, trade.trade) := by
  unfold canonicalKeyFromRecord explicitRecord FieldValue.orElse
  dsimp only
  split_ifs with htrade
  · rfl
  · have hzero : trade.trade = 0 := by simpa [FieldValue.truthy] using htrade
    rw [hzero]
    rfl

/-- The key of a trade id with an operation and a trade. -/
theorem keyOfTradeId_toString (operationId trade : ℕ) :
    keyOfTradeId (toString operationId ++ "-" ++ toString trade) =
      .ok ((operationId : ℤ) >>> (32 : ℕ), (operationId : ℤ) % 2 ^ 32, (trade : ℤ)) := by
  have htext : (toString operationId ++ "-" ++ toString trade).toList =
      (toString operationId).toList ++ '-' :: (toString trade).toList := by
    rw [String.toList_append, String.toList_append, List.append_assoc]
    rfl
  have hdigits : ∀ c ∈ (toString operationId).toList, decide (c ≠ '-') = true := by
    intro c hc
    have hdigit := Json.isDigit_of_mem_toString hc
    rw [decide_eq_true_eq]
    rintro rfl
    exact absurd hdigit (by decide)
  have htrade : intOrZero (toString trade) = .ok (trade : ℤ) := by
    unfold intOrZero
    rw [if_neg, intOfText_toString]
    intro hempty
    have hdigits := congrArg String.toList hempty
    rw [Nat.toString_eq_repr, Nat.toList_repr] at hdigits
    exact Nat.toDigits_ne_nil hdigits
  unfold keyOfTradeId
  rw [htext, List.takeWhile_append_of_pos hdigits, List.dropWhile_append_of_pos hdigits,
    List.takeWhile_cons_of_neg (by decide), List.dropWhile_cons_of_neg (by decide), List.append_nil,
    List.drop_succ_cons, List.drop_zero, String.ofList_toList, String.ofList_toList]
  dsimp only
  rw [intOfText_toString, htrade]
  rfl

/-- The key that is decoded from the trade id. -/
theorem horizon_key (trade : OnLedgerTrade) :
    canonicalKeyFromRecord trade.horizonRecord =
      .ok ((trade.ledger : ℤ), ((trade.transaction * 2 ^ 12 + trade.operation : ℕ) : ℤ),
        (trade.trade : ℤ)) := by
  have htransaction := trade.transaction_lt
  have hoperation := trade.operation_lt
  have hne : toString trade.operationId ++ "-" ++ toString trade.trade ≠ "" := by
    intro h
    have hlength := congrArg String.length h
    rw [String.length_append, String.length_append] at hlength
    have hdash : "-".length = 1 := rfl
    have hempty : "".length = 0 := rfl
    omega
  have htruthy : FieldValue.truthy (some (.str (toString trade.operationId ++ "-" ++
      toString trade.trade))) = true := decide_eq_true hne
  have hhigh : (trade.operationId : ℤ) >>> (32 : ℕ) = (trade.ledger : ℤ) := by
    rw [Int.shiftRight_eq_div_pow, trade.operationId_eq]
    omega
  have hlow : (trade.operationId : ℤ) % 2 ^ 32 =
      ((trade.transaction * 2 ^ 12 + trade.operation : ℕ) : ℤ) := by
    rw [trade.operationId_eq]
    omega
  unfold canonicalKeyFromRecord horizonRecord FieldValue.orElse
  dsimp only
  rw [if_pos htruthy, if_pos htruthy]
  dsimp only
  rw [if_pos htruthy]
  unfold FieldValue.toText
  dsimp only
  rw [keyOfTradeId_toString, hhigh, hlow]

end OnLedgerTrade

/-- The explicit fields of a trade never make the key that is decoded from its trade id. The
decoded keys of two trades are equal exactly if they have the same position. The keys of explicit
fields are equal also if only the transactions differ. -/
theorem canonical_keys_differ (a b : OnLedgerTrade) :
    canonicalKeyFromRecord a.explicitRecord ≠ canonicalKeyFromRecord a.horizonRecord ∧
      (canonicalKeyFromRecord a.horizonRecord = canonicalKeyFromRecord b.horizonRecord ↔
        a.ledger = b.ledger ∧ a.transaction = b.transaction ∧ a.operation = b.operation ∧
          a.trade = b.trade) ∧
      (canonicalKeyFromRecord a.explicitRecord = canonicalKeyFromRecord b.explicitRecord ↔
        a.ledger = b.ledger ∧ a.operation = b.operation ∧ a.trade = b.trade) := by
  have hone := a.one_le_transaction
  have ha := a.operation_lt
  have hb := b.operation_lt
  rw [a.explicit_key, b.explicit_key, a.horizon_key, b.horizon_key]
  refine ⟨?_, ?_, ?_⟩
  · intro h
    have hoperation := congrArg (fun key => key.2.1) (Except.ok.inj h)
    dsimp only at hoperation
    omega
  · rw [Except.ok.injEq, Prod.mk.injEq, Prod.mk.injEq]
    omega
  · rw [Except.ok.injEq, Prod.mk.injEq, Prod.mk.injEq]
    omega

/-- The first trade of the second operation of the first transaction in a ledger. -/
private def sampleTrade : OnLedgerTrade where
  ledger := 7
  transaction := 1
  operation := 1
  trade := 0
  ledger_lt := by decide
  one_le_transaction := Nat.one_pos
  transaction_lt := by decide
  operation_lt := by decide

/-- Its two keys. -/
theorem sample_keys :
    canonicalKeyFromRecord sampleTrade.explicitRecord = .ok (7, 1, 0) ∧
      sampleTrade.horizonRecord.tradeId = some (.str "30064775169-0") ∧
      canonicalKeyFromRecord sampleTrade.horizonRecord = .ok (7, 4097, 0) := by
  refine ⟨?_, ?_, ?_⟩ <;> decide +kernel

end LedgerLens.Ingestion
