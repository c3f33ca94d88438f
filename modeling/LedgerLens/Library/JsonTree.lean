import LedgerLens.Library.Json
import Mathlib.Data.Bool.AllAny
import Mathlib.Data.List.Basic

/-!
# JSON values

Nested values and their compact text. The text of a value that is followed by a character that ends
values can be read in only one way, and it has no control characters.
-/

namespace Json

/-- The characters of numbers, of `NaN` and of `Infinity`. -/
def NumberChar (c : Char) : Prop := c.isDigit = true ∨ c ∈ "+-.eINafinty".toList

/-- The characters that numbers begin with. -/
def BeginsNumber (c : Char) : Prop := c.isDigit = true ∨ c ∈ ['-', 'N', 'I']

instance (c : Char) : Decidable (BeginsNumber c) := inferInstanceAs (Decidable (_ ∨ _))

/-- The text of a number of floating point. -/
structure FloatText where
  /-- Its characters. -/
  text : List Char
  /-- They are those of numbers. -/
  chars : ∀ c ∈ text, NumberChar c
  /-- It has a fraction or an exponent, or it is `NaN` or an infinity. -/
  notInt : ∃ c ∈ text, c ∈ ['.', 'e', 'N', 'I']
  /-- How it begins. -/
  begins : ∃ c rest, text = c :: rest ∧ BeginsNumber c
  deriving DecidableEq

/-- A number. -/
inductive Number where
  /-- An integer. -/
  | int (n : ℤ)
  /-- A number of floating point. -/
  | float (x : FloatText)
  deriving DecidableEq

/-- The text of a number. -/
def Number.text : Number → List Char
  | int n => Json.int n
  | float x => x.text

/-- A value, or the rest of an array or of an object. -/
inductive Part where
  | value
  | items
  | members
  deriving DecidableEq

/-- A value, the items that follow in an array, or the members that follow in an object. -/
inductive Tree : Part → Type where
  /-- `null`. -/
  | null : Tree .value
  /-- `true` and `false`. -/
  | bool (b : Bool) : Tree .value
  /-- A number. -/
  | number (x : Number) : Tree .value
  /-- A string. -/
  | string (s : String) : Tree .value
  /-- An array. -/
  | array (items : Tree .items) : Tree .value
  /-- An object. -/
  | object (members : Tree .members) : Tree .value
  /-- The end of an array. -/
  | noItem : Tree .items
  /-- A next item. -/
  | item (head : Tree .value) (tail : Tree .items) : Tree .items
  /-- The end of an object. -/
  | noMember : Tree .members
  /-- A next member. -/
  | member (key : String) (head : Tree .value) (tail : Tree .members) : Tree .members
  deriving DecidableEq

/-- The comma before an item or a member that is not the first one. -/
def comma (first : Bool) : List Char := if first then [] else [',']

/-- The text without blanks. -/
def Tree.text : {p : Part} → Tree p → (first : Bool) → List Char
  | _, null, _ => "null".toList
  | _, bool b, _ => (if b then "true" else "false").toList
  | _, number x, _ => x.text
  | _, string s, _ => quote s
  | _, array items, _ => '[' :: items.text true
  | _, object members, _ => '{' :: members.text true
  | _, noItem, _ => [']']
  | _, item head tail, first => comma first ++ (head.text true ++ tail.text false)
  | _, noMember, _ => ['}']
  | _, member key head tail, first =>
    comma first ++ (quote key ++ ':' :: (head.text true ++ tail.text false))

/-- The items that follow. -/
def Tree.toItems : {p : Part} → Tree p → List (Tree .value)
  | _, item head tail => head :: tail.toItems
  | _, _ => []

/-- The members that follow. -/
def Tree.toMembers : {p : Part} → Tree p → List (String × Tree .value)
  | _, member key head tail => (key, head) :: tail.toMembers
  | _, _ => []

/-- All members are in the order of their keys, none of which occurs twice in an object. -/
def Tree.Sorted : {p : Part} → Tree p → Prop
  | _, null | _, bool _ | _, number _ | _, string _ | _, noItem | _, noMember => True
  | _, array items => items.Sorted
  | _, object members => (members.toMembers.map Prod.fst).Pairwise (· < ·) ∧ members.Sorted
  | _, item head tail => head.Sorted ∧ tail.Sorted
  | _, member _ head tail => head.Sorted ∧ tail.Sorted

/-- The characters that end a value: those of JSON, and control characters after it. -/
def EndsValue (c : Char) : Prop := c = ',' ∨ c = ']' ∨ c = '}' ∨ c.toNat < 32

/-- What a value begins with, if it is not a number. -/
def Tree.mark : Tree .value → Option Char
  | null => some 'n'
  | bool _ => some 't'
  | number _ => none
  | string _ => some '"'
  | array _ => some '['
  | object _ => some '{'

/-- What the first character of a value shows. -/
def markOf (c : Char) : Option Char :=
  if BeginsNumber c then none else if c = 'f' then some 't' else some c

theorem Number.mem_text {x : Number} {c : Char} (h : c ∈ x.text) : NumberChar c := by
  cases x with
  | int n =>
    obtain rfl | hdigit := mem_int h
    · exact .inr (by decide)
    · exact .inl hdigit
  | float x => exact x.chars c h

theorem Number.exists_text_eq (x : Number) : ∃ c rest, x.text = c :: rest ∧ BeginsNumber c := by
  cases x with
  | int n =>
    cases htext : Json.int n with
    | nil =>
      rw [int_eq] at htext
      split_ifs at htext
      exact absurd htext Nat.toDigits_ne_nil
    | cons c rest =>
      refine ⟨c, rest, htext, ?_⟩
      obtain rfl | hdigit := mem_int (htext ▸ List.mem_cons_self : c ∈ Json.int n)
      · exact .inr (by decide)
      · exact .inl hdigit
  | float x => exact x.begins

/-- Numbers with the same text are equal. -/
theorem Number.text_inj {x y : Number} (h : x.text = y.text) : x = y := by
  have hne (n : ℤ) (z : FloatText) : Json.int n ≠ z.text := by
    intro heq
    obtain ⟨c, hc, hmark⟩ := z.notInt
    obtain rfl | hdigit := mem_int (heq ▸ hc)
    · exact absurd hmark (by decide)
    · simp only [List.mem_cons, List.not_mem_nil, or_false] at hmark
      obtain rfl | rfl | rfl | rfl := hmark <;> exact absurd hdigit (by decide)
  cases x with
  | int m =>
    cases y with
    | int n => exact congrArg int (int_inj h)
    | float z => exact absurd h (hne m z)
  | float x =>
    cases y with
    | int n => exact absurd h.symm (hne n x)
    | float y =>
      cases x
      cases y
      cases h
      rfl

theorem toNat_of_isDigit {c : Char} (h : c.isDigit = true) : 48 ≤ c.toNat := by
  simp only [Char.isDigit, Bool.and_eq_true, decide_eq_true_eq] at h
  exact UInt32.le_iff_toNat_le.mp h.1

theorem NumberChar.not_endsValue {c : Char} (h : NumberChar c) : ¬EndsValue c := by
  obtain hdigit | hchar := h
  · have hcode := toNat_of_isDigit hdigit
    rintro (rfl | rfl | rfl | hcontrol)
    · exact absurd hdigit (by decide)
    · exact absurd hdigit (by decide)
    · exact absurd hdigit (by decide)
    · omega
  · have hall : ∀ c ∈ "+-.eINafinty".toList, ¬EndsValue c := by
      unfold EndsValue
      exact List.all_iff_forall_prop.mp rfl
    exact hall c hchar

/-- The first character of a value shows what the value is. -/
theorem Tree.exists_mark_eq (t : Tree .value) (first : Bool) :
    ∃ c rest, t.text first = c :: rest ∧ t.mark = markOf c := by
  cases t with
  | null => exact ⟨'n', "ull".toList, rfl, rfl⟩
  | bool b => cases b <;> exact ⟨_, _, rfl, rfl⟩
  | number x =>
    obtain ⟨c, rest, htext, hc⟩ := x.exists_text_eq
    exact ⟨c, rest, htext, (if_pos hc).symm⟩
  | string s => exact ⟨'"', _, rfl, rfl⟩
  | array items => exact ⟨'[', _, rfl, rfl⟩
  | object members => exact ⟨'{', _, rfl, rfl⟩

theorem Tree.mark_eq {t t' : Tree .value} {first : Bool} {r r' : List Char}
    (h : t.text first ++ r = t'.text first ++ r') : t.mark = t'.mark := by
  obtain ⟨c, rest, htext, hmark⟩ := t.exists_mark_eq first
  obtain ⟨c', rest', htext', hmark'⟩ := t'.exists_mark_eq first
  rw [htext, htext'] at h
  rw [hmark, hmark', (List.cons.inj h).1]

/-- What follows an item or a member ends it. -/
theorem Tree.exists_endsValue {p : Part} (hp : p ≠ .value) (t : Tree p) :
    ∃ c rest, t.text false = c :: rest ∧ EndsValue c := by
  cases t with
  | noItem => exact ⟨']', [], rfl, .inr (.inl rfl)⟩
  | item head tail => exact ⟨',', _, rfl, .inl rfl⟩
  | noMember => exact ⟨'}', [], rfl, .inr (.inr (.inl rfl))⟩
  | member key head tail => exact ⟨',', _, rfl, .inl rfl⟩
  | null | bool | number | string | array | object => exact absurd rfl hp

/-- An item does not begin like the end of an array. -/
theorem Tree.item_ne_bracket (head : Tree .value) (tail : Tree .items) (first : Bool)
    (r r' : List Char) : (item head tail).text first ++ r ≠ noItem.text first ++ r' := by
  intro h
  cases first with
  | false => exact absurd (List.cons.inj h).1 (by decide)
  | true =>
    obtain ⟨c, rest, htext, hmark⟩ := head.exists_mark_eq true
    simp only [text, comma, if_true, List.nil_append, htext, List.cons_append] at h
    obtain rfl := (List.cons.inj h).1
    cases head <;> cases hmark

/-- A text that is followed by a character that ends values can be read in only one way. -/
theorem Tree.text_inj {p : Part} {t t' : Tree p} {first : Bool} {d d' : Char} {r r' : List Char}
    (hd : EndsValue d) (hd' : EndsValue d')
    (h : t.text first ++ d :: r = t'.text first ++ d' :: r') : t = t' ∧ d :: r = d' :: r' := by
  induction t generalizing first d d' r r' with
  | null =>
    have hmark := Tree.mark_eq h
    cases t' with
    | null => exact ⟨rfl, List.append_cancel_left h⟩
    | _ => cases hmark
  | bool b =>
    have hmark := Tree.mark_eq h
    cases t' with
    | bool b' =>
      cases b <;> cases b'
      · exact ⟨rfl, List.append_cancel_left h⟩
      · exact absurd (List.cons.inj h).1 (by decide)
      · exact absurd (List.cons.inj h).1 (by decide)
      · exact ⟨rfl, List.append_cancel_left h⟩
    | _ => cases hmark
  | number x =>
    have hmark := Tree.mark_eq h
    cases t' with
    | number y =>
      obtain ⟨htext, hrest⟩ := append_cons_inj (fun c hc => (Number.mem_text hc).not_endsValue)
        (fun c hc => (Number.mem_text hc).not_endsValue) hd hd' h
      rw [Number.text_inj htext]
      exact ⟨rfl, hrest⟩
    | _ => cases hmark
  | string s =>
    have hmark := Tree.mark_eq h
    cases t' with
    | string s' =>
      obtain ⟨rfl, hrest⟩ := quote_inj h
      exact ⟨rfl, hrest⟩
    | _ => cases hmark
  | array items ih =>
    have hmark := Tree.mark_eq h
    cases t' with
    | array items' =>
      obtain ⟨rfl, hrest⟩ := ih hd hd' (List.cons.inj h).2
      exact ⟨rfl, hrest⟩
    | _ => cases hmark
  | object members ih =>
    have hmark := Tree.mark_eq h
    cases t' with
    | object members' =>
      obtain ⟨rfl, hrest⟩ := ih hd hd' (List.cons.inj h).2
      exact ⟨rfl, hrest⟩
    | _ => cases hmark
  | noItem =>
    cases t' with
    | noItem => exact ⟨rfl, (List.cons.inj h).2⟩
    | item head' tail' => exact absurd h (Tree.item_ne_bracket head' tail' first _ _).symm
  | item head tail ihhead ihtail =>
    cases t' with
    | noItem => exact absurd h (Tree.item_ne_bracket head tail first _ _)
    | item head' tail' =>
      obtain ⟨c, rest, htail, hc⟩ := tail.exists_endsValue (by decide)
      obtain ⟨c', rest', htail', hc'⟩ := tail'.exists_endsValue (by decide)
      simp only [Tree.text, List.append_assoc] at h
      have hitems := List.append_cancel_left h
      rw [htail, htail', List.cons_append, List.cons_append] at hitems
      obtain ⟨rfl, hrest⟩ := ihhead hc hc' hitems
      rw [← List.cons_append, ← List.cons_append, ← htail, ← htail'] at hrest
      obtain ⟨rfl, hr⟩ := ihtail hd hd' hrest
      exact ⟨rfl, hr⟩
  | noMember =>
    cases t' with
    | noMember => exact ⟨rfl, (List.cons.inj h).2⟩
    | member key' head' tail' => cases first <;> exact absurd (List.cons.inj h).1 (by decide)
  | member key head tail ihhead ihtail =>
    cases t' with
    | noMember => cases first <;> exact absurd (List.cons.inj h).1 (by decide)
    | member key' head' tail' =>
      obtain ⟨c, rest, htail, hc⟩ := tail.exists_endsValue (by decide)
      obtain ⟨c', rest', htail', hc'⟩ := tail'.exists_endsValue (by decide)
      simp only [Tree.text, List.append_assoc, List.cons_append] at h
      obtain ⟨rfl, hmember⟩ := quote_inj (List.append_cancel_left h)
      have hvalue := (List.cons.inj hmember).2
      rw [htail, htail', List.cons_append, List.cons_append] at hvalue
      obtain ⟨rfl, hrest⟩ := ihhead hc hc' hvalue
      rw [← List.cons_append, ← List.cons_append, ← htail, ← htail'] at hrest
      obtain ⟨rfl, hr⟩ := ihtail hd hd' hrest
      exact ⟨rfl, hr⟩

/-- Values with the same text are equal. -/
theorem Tree.eq_of_text_eq {t t' : Tree .value} {first : Bool}
    (h : t.text first = t'.text first) : t = t' := by
  have hends : EndsValue ',' := .inl rfl
  have hfollowed : t.text first ++ [','] = t'.text first ++ [','] := by rw [h]
  exact (text_inj hends hends hfollowed).1

theorem printable_digitChar (n : ℕ) : 32 ≤ (n % 16).digitChar.toNat := by
  have hall : ∀ d : Fin 16, 32 ≤ d.val.digitChar.toNat := by decide
  exact hall ⟨n % 16, Nat.mod_lt n (by omega)⟩

theorem printable_unicodeEscape {n : ℕ} {c : Char} (h : c ∈ unicodeEscape n) : 32 ≤ c.toNat := by
  simp only [unicodeEscape, List.mem_cons, List.not_mem_nil, or_false] at h
  obtain rfl | rfl | rfl | rfl | rfl | rfl := h
  · decide
  · decide
  · exact printable_digitChar _
  · exact printable_digitChar _
  · exact printable_digitChar _
  · exact printable_digitChar _

/-- What is not printable is escaped. -/
theorem printable_escape {c d : Char} (h : d ∈ escape c) : 32 ≤ d.toNat := by
  unfold escape at h
  cases hshort : shortEscape c with
  | some letter =>
    rw [hshort] at h
    have hletter : 32 ≤ letter.toNat := by
      unfold shortEscape at hshort
      split_ifs at hshort <;> cases hshort <;> decide
    simp only [List.mem_cons, List.not_mem_nil, or_false] at h
    obtain rfl | rfl := h
    · decide
    · exact hletter
  | none =>
    rw [hshort] at h
    dsimp only at h
    split_ifs at h with hplain hsmall
    · rw [List.mem_singleton.mp h]
      exact hplain.1
    · exact printable_unicodeEscape h
    · exact (List.mem_append.mp h).elim printable_unicodeEscape printable_unicodeEscape

theorem printable_quote {s : String} {c : Char} (h : c ∈ quote s) : 32 ≤ c.toNat := by
  simp only [quote, List.cons_append, List.mem_cons, List.mem_append, List.mem_flatMap,
    List.not_mem_nil, or_false] at h
  obtain rfl | ⟨d, -, hc⟩ | rfl := h
  · decide
  · exact printable_escape hc
  · decide

theorem NumberChar.printable {c : Char} (h : NumberChar c) : 32 ≤ c.toNat := by
  by_contra hlt
  exact h.not_endsValue (.inr (.inr (.inr (by omega))))

theorem printable_comma {first : Bool} {c : Char} (h : c ∈ comma first) : 32 ≤ c.toNat := by
  cases first with
  | true => cases h
  | false =>
    rw [List.mem_singleton.mp h]
    decide

/-- A text has no control characters. -/
theorem Tree.printable {p : Part} (t : Tree p) (first : Bool) {c : Char} (h : c ∈ t.text first) :
    32 ≤ c.toNat := by
  induction t generalizing first with
  | null => exact (List.all_iff_forall_prop.mp rfl : ∀ c ∈ "null".toList, 32 ≤ c.toNat) c h
  | bool b =>
    cases b
    · exact (List.all_iff_forall_prop.mp rfl : ∀ c ∈ "false".toList, 32 ≤ c.toNat) c h
    · exact (List.all_iff_forall_prop.mp rfl : ∀ c ∈ "true".toList, 32 ≤ c.toNat) c h
  | number x => exact (Number.mem_text h).printable
  | string s => exact printable_quote h
  | array items ih =>
    obtain rfl | h := List.mem_cons.mp h
    · decide
    · exact ih true h
  | object members ih =>
    obtain rfl | h := List.mem_cons.mp h
    · decide
    · exact ih true h
  | noItem =>
    rw [List.mem_singleton.mp h]
    decide
  | item head tail ihhead ihtail =>
    obtain h | h := List.mem_append.mp h
    · exact printable_comma h
    · exact (List.mem_append.mp h).elim (ihhead true) (ihtail false)
  | noMember =>
    rw [List.mem_singleton.mp h]
    decide
  | member key head tail ihhead ihtail =>
    obtain h | h := List.mem_append.mp h
    · exact printable_comma h
    obtain h | h := List.mem_append.mp h
    · exact printable_quote h
    obtain rfl | h := List.mem_cons.mp h
    · decide
    · exact (List.mem_append.mp h).elim (ihhead true) (ihtail false)

end Json
