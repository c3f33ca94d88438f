import LedgerLens.Library.UniqueTable
import Mathlib.Data.List.FinRange
import Mathlib.Data.Rat.Defs

/-!
# Values of Python as JSON

What `json.dumps` makes of a value and `json.loads` of that. A JSON text is given by the tree that
it stands for. Tuples become lists and keys become strings, so that a value does not always come
back as it was; this file says which values do. Numbers of floating point are exact here, and NaN
is equal to itself.
-/

namespace PyJson

/-- The key of a dictionary. -/
inductive PyKey where
  /-- `str`. -/
  | str (s : String)
  /-- `int`. -/
  | int (n : ℤ)
  /-- `bool`. -/
  | bool (b : Bool)
  /-- `None`. -/
  | none
  /-- `float`, with its text. -/
  | float (x : ℚ) (repr : String)
  /-- Another object. -/
  | other (id : ℕ)
  deriving DecidableEq

/-- A value. A dictionary has no key twice. -/
inductive PyValue where
  /-- `None`. -/
  | none
  /-- `bool`. -/
  | bool (b : Bool)
  /-- `int`. -/
  | int (n : ℤ)
  /-- `float`. -/
  | float (x : ℚ)
  /-- `float` of `inf`, `-inf` or `nan`. -/
  | nonfinite (repr : String)
  /-- `str`. -/
  | str (s : String)
  /-- `list`. -/
  | list (n : ℕ) (items : Fin n → PyValue)
  /-- `tuple`. -/
  | tuple (n : ℕ) (items : Fin n → PyValue)
  /-- `dict`. -/
  | dict (n : ℕ) (keys : Fin n → PyKey) (distinct : Function.Injective keys)
    (items : Fin n → PyValue)
  /-- Another object. -/
  | other (id : ℕ)

/-- What a JSON text stands for. A key may occur twice in an object. -/
inductive Json where
  /-- `null`. -/
  | null
  /-- `true` and `false`. -/
  | bool (b : Bool)
  /-- A number without a fraction. -/
  | int (n : ℤ)
  /-- A number with a fraction or an exponent. -/
  | float (x : ℚ)
  /-- `Infinity`, `-Infinity` and `NaN`. -/
  | nonfinite (repr : String)
  /-- A string. -/
  | str (s : String)
  /-- An array. -/
  | array (n : ℕ) (items : Fin n → Json)
  /-- An object. -/
  | object (n : ℕ) (keys : Fin n → String) (items : Fin n → Json)

/-- The text of a key, for which other objects raise `TypeError`. -/
def PyKey.text? : PyKey → Option String
  | str s => some s
  | int n => some (toString n)
  | bool true => some "true"
  | bool false => some "false"
  | none => some "null"
  | float _ repr => some repr
  | other _ => Option.none

/-- `json.dumps`, which raises `TypeError` for other objects. -/
def dumps : PyValue → Option Json
  | .none => some .null
  | .bool b => some (.bool b)
  | .int n => some (.int n)
  | .float x => some (.float x)
  | .nonfinite repr => some (.nonfinite repr)
  | .str s => some (.str s)
  | .list n items | .tuple n items =>
    if h : ∀ i, (dumps (items i)).isSome then some (.array n fun i => (dumps (items i)).get (h i))
    else none
  | .dict n keys _ items =>
    if h : ∀ i, ((keys i).text?).isSome ∧ (dumps (items i)).isSome then
      some (.object n (fun i => ((keys i).text?).get (h i).1)
        fun i => (dumps (items i)).get (h i).2)
    else none
  | .other _ => none

theorem keys_injective (t : UniqueTable String PyValue) :
    Function.Injective fun i : Fin t.rows.length => PyKey.str (t.rows.get i).1 := by
  intro i j h
  have hkey : (t.rows.get i).1 = (t.rows.get j).1 := PyKey.str.inj h
  have hrow := List.inj_on_of_nodup_map t.nodup (List.get_mem _ i) (List.get_mem _ j) hkey
  exact List.nodup_iff_injective_get.mp (List.Nodup.of_map _ t.nodup) hrow

/-- The dictionary with the entries of a table. -/
def PyValue.ofTable (t : UniqueTable String PyValue) : PyValue :=
  .dict t.rows.length (fun i => .str (t.rows.get i).1) (keys_injective t)
    fun i => (t.rows.get i).2

/-- The entries of an object. Of a key that occurs twice the last value counts. -/
def entries {n : ℕ} (names : Fin n → String) (values : Fin n → PyValue) :
    UniqueTable String PyValue :=
  (List.ofFn fun i => (names i, values i)).foldl (fun t e => t.put e.1 e.2) .empty

/-- `json.loads`. -/
def loads : Json → PyValue
  | .null => .none
  | .bool b => .bool b
  | .int n => .int n
  | .float x => .float x
  | .nonfinite repr => .nonfinite repr
  | .str s => .str s
  | .array n items => .list n fun i => loads (items i)
  | .object _ keys items => .ofTable (entries keys fun i => loads (items i))

/-- The number that a value is. -/
def PyValue.number? : PyValue → Option ℚ
  | .bool b => some (if b then 1 else 0)
  | .int n => some n
  | .float x => some x
  | _ => Option.none

/-- The text that a value is. -/
def PyValue.str? : PyValue → Option String
  | .str s => some s
  | _ => Option.none

/-- The value that a key is. -/
def PyKey.value : PyKey → PyValue
  | .str s => .str s
  | .int n => .int n
  | .bool b => .bool b
  | .none => .none
  | .float x _ => .float x
  | .other id => .other id

/-- `list` of a value, which raises `TypeError` for what has no items. -/
def PyValue.toList? : PyValue → Option (List PyValue)
  | .list _ items | .tuple _ items => some (List.ofFn items)
  | .str s => some (s.toList.map fun c => .str (String.singleton c))
  | .dict _ keys _ _ => some (List.ofFn fun i => (keys i).value)
  | _ => Option.none

/-- `items()`, which only a dictionary has. -/
def PyValue.items? : PyValue → Option (UniqueTable PyKey PyValue)
  | .dict _ keys distinct items =>
    some ⟨List.ofFn fun i => (keys i, items i), by
      rw [List.map_ofFn]
      exact List.nodup_ofFn.mpr distinct⟩
  | _ => Option.none

/-- `==`. -/
def PyValue.Equal : PyValue → PyValue → Prop
  | .list n items, w =>
    match w with
    | .list m items' => ∃ h : n = m, ∀ i, (items i).Equal (items' (Fin.cast h i))
    | _ => False
  | .tuple n items, w =>
    match w with
    | .tuple m items' => ∃ h : n = m, ∀ i, (items i).Equal (items' (Fin.cast h i))
    | _ => False
  | .dict n keys _ items, w =>
    match w with
    | .dict m keys' _ items' => n = m ∧ ∀ i, ∃ j, keys i = keys' j ∧ (items i).Equal (items' j)
    | _ => False
  | .none, w => w = .none
  | .str s, w => w = .str s
  | .nonfinite repr, w => w = .nonfinite repr
  | .other id, w => w = .other id
  | .bool b, w => w.number? = some (if b then 1 else 0)
  | .int n, w => w.number? = some (n : ℚ)
  | .float x, w => w.number? = some x

/-- A value without tuples and other objects, of which all dictionaries have strings as keys. -/
def PyValue.Plain : PyValue → Prop
  | .list _ items => ∀ i, (items i).Plain
  | .dict _ keys _ items => ∀ i, (∃ s, keys i = .str s) ∧ (items i).Plain
  | .tuple _ _ | .other _ => False
  | .none | .bool _ | .int _ | .float _ | .nonfinite _ | .str _ => True

section RoundTrip

theorem dumps_list {n : ℕ} {items : Fin n → PyValue} {texts : Fin n → Json}
    (h : ∀ i, dumps (items i) = some (texts i)) :
    dumps (.list n items) = some (.array n texts) := by
  have hsome : ∀ i, (dumps (items i)).isSome := fun i => by rw [h i]; rfl
  unfold dumps
  rw [dif_pos hsome]
  simp only [h, Option.get_some]

theorem dumps_dict {n : ℕ} {keys : Fin n → PyKey} {distinct : Function.Injective keys}
    {items : Fin n → PyValue} {names : Fin n → String} {texts : Fin n → Json}
    (hkeys : ∀ i, keys i = .str (names i)) (h : ∀ i, dumps (items i) = some (texts i)) :
    dumps (.dict n keys distinct items) = some (.object n names texts) := by
  have hname : ∀ i, (keys i).text? = some (names i) := fun i => by rw [hkeys i]; rfl
  have hsome : ∀ i, ((keys i).text?).isSome ∧ (dumps (items i)).isSome := fun i => by
    rw [hname i, h i]
    exact ⟨rfl, rfl⟩
  unfold dumps
  rw [dif_pos hsome]
  simp only [hname, h, Option.get_some]

/-- The entries of an object without a key that occurs twice. -/
theorem rows_entries {n : ℕ} {names : Fin n → String} (hnames : Function.Injective names)
    (values : Fin n → PyValue) :
    (entries names values).rows = List.ofFn fun i => (names i, values i) := by
  have hnodup : ((List.ofFn fun i => (names i, values i)).map Prod.fst).Nodup := by
    rw [List.map_ofFn]
    exact List.nodup_ofFn.mpr hnames
  rw [entries, UniqueTable.rows_foldl_put_of_new Prod.fst Prod.snd hnodup
    fun e _ => UniqueTable.find?_empty _]
  exact List.map_id _

/-- The values of an object are among those that are read. -/
theorem exists_of_mem_entries {n : ℕ} {names : Fin n → String} {values : Fin n → PyValue}
    {e : String × PyValue} (h : e ∈ (entries names values).rows) : ∃ i, e.2 = values i := by
  have hfind := (UniqueTable.find?_eq_some_iff _ e.1 e.2).mpr h
  obtain ⟨e', he', -, hvalue⟩ | hempty := UniqueTable.exists_of_find?_foldl_put hfind
  · obtain ⟨i, rfl⟩ := List.mem_ofFn.mp he'
    exact ⟨i, hvalue.symm⟩
  · cases hempty

/-- A dictionary is equal to that of a table of the same size with the same entries. -/
theorem equal_ofTable {n : ℕ} {keys : Fin n → PyKey} {distinct : Function.Injective keys}
    {items : Fin n → PyValue} {t : UniqueTable String PyValue} (hsize : n = t.rows.length)
    (hentries : ∀ i, ∃ e ∈ t.rows, keys i = .str e.1 ∧ (items i).Equal e.2) :
    (PyValue.dict n keys distinct items).Equal (.ofTable t) := by
  refine ⟨hsize, fun i => ?_⟩
  obtain ⟨e, he, hkey, hequal⟩ := hentries i
  obtain ⟨j, rfl⟩ := List.get_of_mem he
  exact ⟨j, hkey, hequal⟩

/-- A plain value has a text, and comes back as it was. -/
theorem equal_loads_of_plain {v : PyValue} (h : v.Plain) :
    ∃ text, dumps v = some text ∧ v.Equal (loads text) := by
  induction v with
  | none => exact ⟨.null, rfl, rfl⟩
  | bool b => exact ⟨.bool b, rfl, rfl⟩
  | int n => exact ⟨.int n, rfl, rfl⟩
  | float x => exact ⟨.float x, rfl, rfl⟩
  | nonfinite repr => exact ⟨.nonfinite repr, rfl, rfl⟩
  | str s => exact ⟨.str s, rfl, rfl⟩
  | other id => cases h
  | tuple n items ih => cases h
  | list n items ih =>
    choose texts htexts hequal using fun i => ih i (h i)
    exact ⟨.array n texts, dumps_list htexts, rfl, hequal⟩
  | dict n keys distinct items ih =>
    choose names hnames using fun i => (h i).1
    choose texts htexts hequal using fun i => ih i (h i).2
    have hinjective : Function.Injective names := by
      intro i j hname
      exact distinct (by rw [hnames i, hnames j, hname])
    have hrows := rows_entries hinjective fun i => loads (texts i)
    refine ⟨.object n names texts, dumps_dict hnames htexts, equal_ofTable ?_ fun i => ?_⟩
    · rw [hrows, List.length_ofFn]
    · rw [hrows]
      exact ⟨(names i, loads (texts i)), List.mem_ofFn.mpr ⟨i, rfl⟩, hnames i, hequal i⟩

/-- What is equal to something that was read is plain. -/
theorem plain_of_equal_loads {v : PyValue} {text : Json} (h : v.Equal (loads text)) : v.Plain := by
  induction v generalizing text with
  | none => trivial
  | bool b => trivial
  | int n => trivial
  | float x => trivial
  | nonfinite repr => trivial
  | str s => trivial
  | other id =>
    cases text <;> cases h
  | tuple n items ih =>
    cases text <;> cases h
  | list n items ih =>
    cases text with
    | array m texts =>
      obtain ⟨rfl, hitems⟩ := h
      exact fun i => ih i (hitems i)
    | null => cases h
    | bool b => cases h
    | int n => cases h
    | float x => cases h
    | nonfinite repr => cases h
    | str s => cases h
    | object m names texts => cases h
  | dict n keys distinct items ih =>
    cases text with
    | object m names texts =>
      obtain ⟨-, hentries⟩ := h
      intro i
      obtain ⟨j, hkey, hequal⟩ := hentries i
      refine ⟨⟨_, hkey⟩, ?_⟩
      obtain ⟨k, hk⟩ := exists_of_mem_entries (List.get_mem _ j)
      dsimp only at hequal
      rw [hk] at hequal
      exact ih i hequal
    | null => cases h
    | bool b => cases h
    | int n => cases h
    | float x => cases h
    | nonfinite repr => cases h
    | str s => cases h
    | array m texts => cases h

end RoundTrip

end PyJson
