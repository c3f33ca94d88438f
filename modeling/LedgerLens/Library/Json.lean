import Mathlib.Data.List.Basic
import Mathlib.Data.List.Sort
import Mathlib.Tactic.IntervalCases

/-!
# JSON texts

The texts that `json.dumps` of Python writes for strings, integers, arrays and objects. An
escaped character can be read in only one way, and so can a string, a member of an object
and an object: two objects of strings and integers with the same text have the same members.
-/

namespace Json

/-- The letter that stands for a character after a backslash. -/
def shortEscape (c : Char) : Option Char :=
  if c = '"' then some '"'
  else if c = '\\' then some '\\'
  else if c = '\n' then some 'n'
  else if c = '\r' then some 'r'
  else if c = '\t' then some 't'
  else if c = '\x0c' then some 'f'
  else if c = '\x08' then some 'b'
  else none

/-- The escape of a UTF-16 unit. -/
def unicodeEscape (n : ℕ) : List Char :=
  ['\\', 'u', (n / 4096 % 16).digitChar, (n / 256 % 16).digitChar, (n / 16 % 16).digitChar,
    (n % 16).digitChar]

/-- A character in a string: what is not printable ASCII is escaped. -/
def escape (c : Char) : List Char :=
  match shortEscape c with
  | some letter => ['\\', letter]
  | none =>
    if 0x20 ≤ c.toNat ∧ c.toNat ≤ 0x7e then [c]
    else if c.toNat < 0x10000 then unicodeEscape c.toNat
    else
      unicodeEscape (0xd800 + (c.toNat - 0x10000) / 1024) ++
        unicodeEscape (0xdc00 + (c.toNat - 0x10000) % 1024)

/-- A string. -/
def quote (s : String) : List Char := '"' :: s.toList.flatMap escape ++ ['"']

/-- An integer. -/
def int (n : ℤ) : List Char := (toString n).toList

/-- An array of texts. -/
def array (separator : List Char) (items : List (List Char)) : List Char :=
  '[' :: separator.intercalate items ++ [']']

/-- A member of an object. -/
def member (colon : List Char) (m : String × List Char) : List Char :=
  quote m.1 ++ colon ++ m.2

/-- An object, its members in the order given. -/
def object (separator colon : List Char) (members : List (String × List Char)) : List Char :=
  '{' :: separator.intercalate (members.map (member colon)) ++ ['}']

/-- The members of an object in the order of their keys. -/
def sortKeys {α : Type*} (members : List (String × α)) : List (String × α) :=
  members.insertionSort fun m m' => m.1 ≤ m'.1

/-- The character that a letter after a backslash stands for. -/
def unescapeLetter (c : Char) : Char :=
  if c = 'n' then '\n'
  else if c = 'r' then '\r'
  else if c = 't' then '\t'
  else if c = 'f' then '\x0c'
  else if c = 'b' then '\x08'
  else c

/-- The value of a hexadecimal digit. -/
def hexValue (c : Char) : ℕ := "0123456789abcdef".toList.idxOf c

/-- Read an escaped unit. -/
def readUnit : List Char → Option (ℕ × List Char)
  | '\\' :: 'u' :: a :: b :: c :: d :: rest =>
    some (4096 * hexValue a + 256 * hexValue b + 16 * hexValue c + hexValue d, rest)
  | _ => none

/-- Read a letter after a backslash or a character that stands for itself. -/
def readLetter : List Char → Option (Char × List Char)
  | [] => none
  | c :: rest =>
    if c = '\\' then rest.head?.map fun letter => (unescapeLetter letter, rest.tail)
    else some (c, rest)

/-- Read a character of a string: a pair of units, a unit or a letter. -/
def readChar (text : List Char) : Option (Char × List Char) :=
  match readUnit text with
  | some (n, rest) =>
    if 0xd800 ≤ n ∧ n < 0xdc00 then
      (readUnit rest).map fun low =>
        (Char.ofNat (0x10000 + 1024 * (n - 0xd800) + (low.1 - 0xdc00)), low.2)
    else some (Char.ofNat n, rest)
  | none => readLetter text

theorem hexValue_digitChar {n : ℕ} (hn : n < 16) : hexValue n.digitChar = n := by
  interval_cases n <;> rfl

theorem readUnit_unicodeEscape {n : ℕ} (hn : n < 0x10000) (rest : List Char) :
    readUnit (unicodeEscape n ++ rest) = some (n, rest) := by
  have hdigits : 4096 * (n / 4096 % 16) + 256 * (n / 256 % 16) + 16 * (n / 16 % 16) + n % 16 = n :=
    by omega
  simp only [unicodeEscape, List.cons_append, List.nil_append, readUnit]
  rw [hexValue_digitChar (by omega), hexValue_digitChar (by omega),
    hexValue_digitChar (by omega), hexValue_digitChar (by omega), hdigits]

theorem shortEscape_eq_some {c letter : Char} (h : shortEscape c = some letter) :
    letter ≠ 'u' ∧ unescapeLetter letter = c := by
  unfold shortEscape at h
  split_ifs at h with h₁ h₂ h₃ h₄ h₅ h₆ h₇ <;> cases h <;> subst c <;> decide

theorem ne_backslash_of_shortEscape {c : Char} (h : shortEscape c = none) :
    c ≠ '"' ∧ c ≠ '\\' := by
  constructor
  · rintro rfl
    cases h
  · rintro rfl
    cases h

/-- What does not start like an escaped unit. -/
theorem readUnit_eq_none {c d : Char} {rest : List Char} (h : c ≠ '\\' ∨ d ≠ 'u') :
    readUnit (c :: d :: rest) = none := by
  unfold readUnit
  split
  · rename_i heq
    simp only [List.cons.injEq] at heq
    rcases h with hc | hd
    · exact absurd heq.1 hc
    · exact absurd heq.2.1 hd
  · rfl

/-- An escaped character is read as itself. -/
theorem readChar_escape (c : Char) (rest : List Char) :
    readChar (escape c ++ rest) = some (c, rest) := by
  have hvalid : c.toNat < 0xd800 ∨ 0xdfff < c.toNat ∧ c.toNat < 0x110000 := c.valid
  unfold escape
  cases hshort : shortEscape c with
  | some letter =>
    obtain ⟨hletter, hchar⟩ := shortEscape_eq_some hshort
    simp only [List.cons_append, List.nil_append]
    unfold readChar
    rw [readUnit_eq_none (.inr hletter)]
    simp [readLetter, hchar]
  | none =>
    obtain ⟨-, hne⟩ := ne_backslash_of_shortEscape hshort
    dsimp only
    split_ifs with hascii hbmp
    · have hunit : readUnit ([c] ++ rest) = none := by
        cases rest with
        | nil => simp [readUnit]
        | cons d rest => exact readUnit_eq_none (.inl hne)
      unfold readChar
      rw [hunit]
      simp [readLetter, hne]
    · unfold readChar
      rw [readUnit_unicodeEscape hbmp]
      dsimp only
      rw [if_neg (by omega), Char.ofNat_toNat]
    · have hcode : 0x10000 + 1024 * (0xd800 + (c.toNat - 0x10000) / 1024 - 0xd800) +
          (0xdc00 + (c.toNat - 0x10000) % 1024 - 0xdc00) = c.toNat := by omega
      unfold readChar
      rw [List.append_assoc, readUnit_unicodeEscape (by omega)]
      dsimp only
      rw [if_pos (by omega), readUnit_unicodeEscape (by omega), Option.map_some, hcode,
        Char.ofNat_toNat]

/-- No escaped character starts like the end of a string. -/
theorem head?_escape (c : Char) (rest : List Char) : (escape c ++ rest).head? ≠ some '"' := by
  unfold escape
  cases hshort : shortEscape c with
  | some letter => simp
  | none =>
    obtain ⟨hne, -⟩ := ne_backslash_of_shortEscape hshort
    dsimp only
    split_ifs <;> simp [unicodeEscape, hne]

/-- Escaped characters up to the end of the string can be read in only one way. -/
theorem flatMap_escape_inj {s t r r' : List Char}
    (h : s.flatMap escape ++ '"' :: r = t.flatMap escape ++ '"' :: r') : s = t ∧ r = r' := by
  induction s generalizing t with
  | nil =>
    cases t with
    | nil => exact ⟨rfl, (List.cons.inj h).2⟩
    | cons d t =>
      rw [List.flatMap_cons, List.append_assoc] at h
      exact absurd (congrArg List.head? h).symm (head?_escape d _)
  | cons c s ih =>
    rw [List.flatMap_cons, List.append_assoc] at h
    cases t with
    | nil => exact absurd (congrArg List.head? h) (head?_escape c _)
    | cons d t =>
      rw [List.flatMap_cons, List.append_assoc] at h
      have hread := congrArg readChar h
      rw [readChar_escape, readChar_escape, Option.some.injEq, Prod.mk.injEq] at hread
      obtain ⟨hst, hr⟩ := ih hread.2
      exact ⟨by rw [hread.1, hst], hr⟩

/-- A string can be read in only one way. -/
theorem quote_inj {s t : String} {r r' : List Char} (h : quote s ++ r = quote t ++ r') :
    s = t ∧ r = r' := by
  unfold quote at h
  simp only [List.cons_append, List.append_assoc, List.nil_append, List.cons.injEq,
    true_and] at h
  obtain ⟨hst, hr⟩ := flatMap_escape_inj h
  exact ⟨String.toList_inj.mp hst, hr⟩

/-- A value of a flat object. -/
inductive Scalar where
  /-- A string. -/
  | string (s : String)
  /-- An integer. -/
  | int (n : ℤ)
  deriving DecidableEq

/-- The text of such a value. -/
def Scalar.dumps : Scalar → List Char
  | .string s => quote s
  | .int n => Json.int n

/-- The text of a flat object, with keys in order and without blanks. -/
def dumpsSorted (members : List (String × Scalar)) : List Char :=
  object [','] [':'] ((sortKeys members).map fun m => (m.1, m.2.dumps))

/-- A member ends at a comma or at the brace that closes the object. -/
def EndsMember (c : Char) : Prop := c = ',' ∨ c = '}'

/-- Texts without a certain character, each followed by such a character, can be told apart. -/
theorem append_cons_inj {α : Type*} {stops : α → Prop} {l l' : List α} {d d' : α} {r r' : List α}
    (hl : ∀ c ∈ l, ¬stops c) (hl' : ∀ c ∈ l', ¬stops c) (hd : stops d) (hd' : stops d')
    (h : l ++ d :: r = l' ++ d' :: r') : l = l' ∧ d :: r = d' :: r' := by
  induction l generalizing l' with
  | nil =>
    cases l' with
    | nil => exact ⟨rfl, h⟩
    | cons c l' =>
      obtain ⟨rfl, -⟩ := List.cons.inj h
      exact absurd hd (hl' d List.mem_cons_self)
  | cons c l ih =>
    cases l' with
    | nil =>
      obtain ⟨rfl, -⟩ := List.cons.inj h
      exact absurd hd' (hl c List.mem_cons_self)
    | cons c' l' =>
      obtain ⟨rfl, hrest⟩ := List.cons.inj h
      obtain ⟨rfl, hdr⟩ := ih (fun x hx => hl x (List.mem_cons_of_mem _ hx))
        (fun x hx => hl' x (List.mem_cons_of_mem _ hx)) hrest
      exact ⟨rfl, hdr⟩

/-- A first part without the separator can be told apart. -/
theorem first_inj {α : Type*} {sep : α} {l l' r r' : List α} (hl : sep ∉ l) (hl' : sep ∉ l')
    (h : l ++ sep :: r = l' ++ sep :: r') : l = l' ∧ r = r' := by
  obtain ⟨hfirst, hrest⟩ := @append_cons_inj _ (· = sep) _ _ _ _ _ _
    (fun c hc heq => hl (heq ▸ hc)) (fun c hc heq => hl' (heq ▸ hc)) rfl rfl h
  exact ⟨hfirst, (List.cons.inj hrest).2⟩

/-- A last part without the separator can be told apart. -/
theorem last_inj {α : Type*} {sep : α} {l l' r r' : List α} (hr : sep ∉ r) (hr' : sep ∉ r')
    (h : l ++ sep :: r = l' ++ sep :: r') : l = l' ∧ r = r' := by
  have hreverse := congrArg List.reverse h
  rw [List.reverse_append, List.reverse_append, List.reverse_cons, List.reverse_cons,
    List.append_assoc, List.append_assoc] at hreverse
  obtain ⟨hlast, hfirst⟩ := first_inj (mt List.mem_reverse.mp hr) (mt List.mem_reverse.mp hr')
    hreverse
  exact ⟨List.reverse_inj.mp hfirst, List.reverse_inj.mp hlast⟩

/-- The digits of an integer, after its sign. -/
theorem int_eq (n : ℤ) :
    int n = if 0 ≤ n then Nat.toDigits 10 n.toNat else '-' :: Nat.toDigits 10 (-n).toNat := by
  unfold int
  rw [Int.toString_eq_repr, Int.repr_eq_if]
  split_ifs
  · rw [Nat.toList_repr]
  · rw [String.toList_append, Nat.toList_repr]
    rfl

/-- The characters of an integer. -/
theorem mem_int {n : ℤ} {c : Char} (h : c ∈ int n) : c = '-' ∨ c.isDigit = true := by
  have hdigit {k : ℕ} (hk : c ∈ Nat.toDigits 10 k) : c.isDigit = true :=
    Nat.isDigit_of_mem_toDigits (by omega) (by omega) hk
  rw [int_eq] at h
  split_ifs at h
  · exact .inr (hdigit h)
  · exact (List.mem_cons.mp h).imp id hdigit

/-- The characters of a natural number. -/
theorem isDigit_of_mem_toString {n : ℕ} {c : Char} (hc : c ∈ (toString n).toList) :
    c.isDigit = true := by
  rw [Nat.toString_eq_repr, Nat.toList_repr] at hc
  exact Nat.isDigit_of_mem_toDigits (by omega) (by omega) hc

/-- Numbers with the same digits are equal. -/
theorem toDigits_inj {m n : ℕ} (h : Nat.toDigits 10 m = Nat.toDigits 10 n) : m = n := by
  have hvalue := congrArg (fun digits => Nat.ofDigitChars 10 digits 0) h
  simpa only [Nat.ofDigitChars_toDigits (by omega : 1 < 10) (by omega : 10 ≤ 10)] using hvalue

/-- A sign is not a digit. -/
theorem toDigits_ne_sign (m : ℕ) (digits : List Char) : Nat.toDigits 10 m ≠ '-' :: digits := by
  intro h
  have hsign : '-' ∈ Nat.toDigits 10 m := h ▸ List.mem_cons_self
  exact absurd (Nat.isDigit_of_mem_toDigits (by omega) (by omega) hsign) (by decide)

/-- Integers with the same text are equal. -/
theorem int_inj {m n : ℤ} (h : int m = int n) : m = n := by
  rw [int_eq, int_eq] at h
  split_ifs at h with hm hn hn
  · have hvalue := toDigits_inj h
    omega
  · exact absurd h (toDigits_ne_sign _ _)
  · exact absurd h.symm (toDigits_ne_sign _ _)
  · have hvalue := toDigits_inj (List.cons.inj h).2
    omega

theorem not_endsMember_of_mem_int {n : ℤ} {c : Char} (h : c ∈ int n) : ¬EndsMember c := by
  rintro (rfl | rfl)
  · rcases mem_int h with hsign | hdigit
    · exact absurd hsign (by decide)
    · exact absurd hdigit (by decide)
  · rcases mem_int h with hsign | hdigit
    · exact absurd hsign (by decide)
    · exact absurd hdigit (by decide)

/-- An integer does not start like a string. -/
theorem int_append_ne_quote (n : ℤ) (s : String) (d : Char) (hd : EndsMember d)
    (r r' : List Char) : int n ++ d :: r ≠ quote s ++ r' := by
  intro h
  unfold quote at h
  cases hint : int n with
  | nil =>
    rw [hint] at h
    obtain ⟨rfl, -⟩ := List.cons.inj h
    rcases hd with hd | hd <;> exact absurd hd (by decide)
  | cons c digits =>
    rw [hint] at h
    obtain ⟨rfl, -⟩ := List.cons.inj h
    have hquote : '"' ∈ int n := hint ▸ List.mem_cons_self
    rcases mem_int hquote with hsign | hdigit
    · exact absurd hsign (by decide)
    · exact absurd hdigit (by decide)

/-- A value at the end of a member can be read in only one way. -/
theorem Scalar.dumps_inj {v w : Scalar} {d d' : Char} {r r' : List Char} (hd : EndsMember d)
    (hd' : EndsMember d') (h : v.dumps ++ d :: r = w.dumps ++ d' :: r') :
    v = w ∧ d :: r = d' :: r' := by
  cases v with
  | string s =>
    cases w with
    | string t =>
      obtain ⟨rfl, hrest⟩ := quote_inj h
      exact ⟨rfl, hrest⟩
    | int n => exact absurd h.symm (int_append_ne_quote n s d' hd' _ _)
  | int m =>
    cases w with
    | string t => exact absurd h (int_append_ne_quote m t d hd _ _)
    | int n =>
      obtain ⟨hint, hrest⟩ := append_cons_inj (fun c hc => not_endsMember_of_mem_int hc)
        (fun c hc => not_endsMember_of_mem_int hc) hd hd' h
      rw [int_inj hint]
      exact ⟨rfl, hrest⟩

/-- What follows a member: further members or the end of the object. -/
def moreMembers : List (String × Scalar) → List Char
  | [] => ['}']
  | m :: members => ',' :: member [':'] (m.1, m.2.dumps) ++ moreMembers members

/-- What follows a member ends it. -/
theorem exists_moreMembers_eq (members : List (String × Scalar)) :
    ∃ d r, EndsMember d ∧ moreMembers members = d :: r := by
  cases members with
  | nil => exact ⟨'}', [], .inr rfl, rfl⟩
  | cons m members => exact ⟨',', _, .inl rfl, rfl⟩

/-- A member can be read in only one way. -/
theorem member_inj {m m' : String × Scalar} {members members' : List (String × Scalar)}
    (h : member [':'] (m.1, m.2.dumps) ++ moreMembers members =
      member [':'] (m'.1, m'.2.dumps) ++ moreMembers members') :
    m = m' ∧ moreMembers members = moreMembers members' := by
  obtain ⟨d, r, hd, hmore⟩ := exists_moreMembers_eq members
  obtain ⟨d', r', hd', hmore'⟩ := exists_moreMembers_eq members'
  rw [hmore, hmore'] at h ⊢
  unfold member at h
  simp only [List.append_assoc] at h
  obtain ⟨hkey, hvalue⟩ := quote_inj h
  obtain ⟨hdumps, hrest⟩ := Scalar.dumps_inj hd hd' (List.cons.inj hvalue).2
  exact ⟨Prod.ext hkey hdumps, hrest⟩

theorem moreMembers_inj {members members' : List (String × Scalar)}
    (h : moreMembers members = moreMembers members') : members = members' := by
  induction members generalizing members' with
  | nil =>
    cases members' with
    | nil => rfl
    | cons m' members' =>
      have hchar := (List.cons.inj h).1
      exact absurd hchar (by decide)
  | cons m members ih =>
    cases members' with
    | nil =>
      have hchar := (List.cons.inj h).1
      exact absurd hchar (by decide)
    | cons m' members' =>
      obtain ⟨rfl, hmore⟩ := member_inj (List.cons.inj h).2
      rw [ih hmore]

theorem object_cons (m : String × Scalar) (members : List (String × Scalar)) :
    object [','] [':'] ((m :: members).map fun m => (m.1, m.2.dumps)) =
      '{' :: member [':'] (m.1, m.2.dumps) ++ moreMembers members := by
  unfold object
  induction members generalizing m with
  | nil => simp [List.intercalate, moreMembers]
  | cons m' members ih =>
    have hmore := ih m'
    simp only [List.map_cons, List.cons_append, List.cons.injEq, true_and] at hmore ⊢
    rw [List.intercalate_cons_cons, moreMembers, List.cons_append, ← hmore]
    simp

/-- Flat objects with the same text have the same members. -/
theorem object_inj {members members' : List (String × Scalar)}
    (h : object [','] [':'] (members.map fun m => (m.1, m.2.dumps)) =
      object [','] [':'] (members'.map fun m => (m.1, m.2.dumps))) : members = members' := by
  cases members with
  | nil =>
    cases members' with
    | nil => rfl
    | cons m' members' =>
      rw [object_cons] at h
      cases h
  | cons m members =>
    cases members' with
    | nil =>
      rw [object_cons] at h
      cases h
    | cons m' members' =>
      rw [object_cons, object_cons] at h
      obtain ⟨rfl, hmore⟩ := member_inj (List.cons.inj h).2
      rw [moreMembers_inj hmore]

/-- Flat objects with the same sorted text have the same sorted members. -/
theorem dumpsSorted_inj {members members' : List (String × Scalar)}
    (h : dumpsSorted members = dumpsSorted members') : sortKeys members = sortKeys members' :=
  object_inj h

end Json
