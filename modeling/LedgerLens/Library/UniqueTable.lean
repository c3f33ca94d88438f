import Mathlib.Data.List.Nodup
import Mathlib.Data.List.Basic
import Mathlib.Data.List.Sort

/-!
# Tables with a unique key

A relational table with one UNIQUE key, and equally a dictionary that remembers
insertion order: rows are kept in the order they were inserted, and no two rows
share a key. Uniqueness is a field of the structure, so a table that breaks the
constraint cannot be written down; inserting under a key that is taken has no result.
-/

/-- Rows in insertion order, at most one for each key. -/
structure UniqueTable (Key Row : Type*) where
  /-- The rows with their keys, oldest first. -/
  rows : List (Key × Row)
  /-- The UNIQUE constraint. -/
  nodup : (rows.map Prod.fst).Nodup

namespace UniqueTable

variable {Key Row : Type*}

/-- The table without rows. -/
def empty : UniqueTable Key Row := ⟨[], List.nodup_nil⟩

/-- Delete the rows that satisfy a predicate. -/
def deleteWhere (t : UniqueTable Key Row) (p : Key → Row → Bool) : UniqueTable Key Row where
  rows := t.rows.filter fun kr => !p kr.1 kr.2
  nodup := (List.filter_sublist.map Prod.fst).nodup t.nodup

/-- Change all rows. -/
def mapRows {Row' : Type*} (t : UniqueTable Key Row) (f : Key → Row → Row') :
    UniqueTable Key Row' where
  rows := t.rows.map fun kr => (kr.1, f kr.1 kr.2)
  nodup := by
    rw [List.map_map]
    exact t.nodup

/-- The same rows in the order of their keys. -/
def sortKeys [LinearOrder Key] (t : UniqueTable Key Row) : UniqueTable Key Row where
  rows := t.rows.insertionSort fun a b => a.1 ≤ b.1
  nodup := ((List.perm_insertionSort _ t.rows).map Prod.fst).nodup_iff.mpr t.nodup

theorem rows_sortKeys_eq_nil_iff [LinearOrder Key] (t : UniqueTable Key Row) :
    t.sortKeys.rows = [] ↔ t.rows = [] := by
  have hperm : t.sortKeys.rows.Perm t.rows := List.perm_insertionSort _ t.rows
  constructor
  · intro h
    rw [h] at hperm
    exact hperm.nil_eq.symm
  · intro h
    rw [h] at hperm
    exact hperm.eq_nil

/-- The key of the oldest row. -/
def first? (t : UniqueTable Key Row) : Option Key := t.rows.head?.map Prod.fst

/-- Delete the oldest row. -/
def dropFirst (t : UniqueTable Key Row) : UniqueTable Key Row where
  rows := t.rows.tail
  nodup := ((List.tail_sublist t.rows).map Prod.fst).nodup t.nodup

variable [DecidableEq Key]

/-- The row stored under a key. -/
def find? (t : UniqueTable Key Row) (k : Key) : Option Row := t.rows.lookup k

/-- Change the row stored under a key, if there is one, in place. -/
def modify (t : UniqueTable Key Row) (k : Key) (f : Row → Row) : UniqueTable Key Row where
  rows := t.rows.map fun kr => if kr.1 = k then (kr.1, f kr.2) else kr
  nodup := by
    have hkeys : (t.rows.map fun kr => if kr.1 = k then (kr.1, f kr.2) else kr).map Prod.fst =
        t.rows.map Prod.fst := by
      rw [List.map_map]
      apply List.map_congr_left
      intro kr _
      by_cases h : kr.1 = k <;> simp [h]
    rw [hkeys]
    exact t.nodup

/-- Delete the row of a key, if there is one. -/
def erase (t : UniqueTable Key Row) (k : Key) : UniqueTable Key Row :=
  t.deleteWhere fun k' _ => k' = k

/-- Move the row of a key, if there is one, after all others. -/
def moveToEnd (t : UniqueTable Key Row) (k : Key) : UniqueTable Key Row where
  rows := t.rows.filter (fun kr => kr.1 ≠ k) ++ t.rows.filter fun kr => !decide (kr.1 ≠ k)
  nodup := ((List.filter_append_perm _ t.rows).map Prod.fst).nodup_iff.mpr t.nodup

private theorem lookup_cons_ne {k a : Key} (h : k ≠ a) (b : Row) (rows : List (Key × Row)) :
    ((a, b) :: rows).lookup k = rows.lookup k := by
  have hb : (k == a) = false := by simpa using h
  simp only [List.lookup_cons, hb]

/-- A key without a row does not occur among the keys. -/
theorem find?_eq_none_iff (t : UniqueTable Key Row) (k : Key) :
    t.find? k = none ↔ k ∉ t.rows.map Prod.fst := by
  unfold find?
  induction t.rows with
  | nil => simp
  | cons kr rows ih =>
    obtain ⟨a, b⟩ := kr
    by_cases h : k = a
    · simp [h]
    · rw [lookup_cons_ne h, ih, List.map_cons, List.mem_cons, not_or]
      simp [h]

/-- Insert a row under a new key, after all others. The key being free is what the
UNIQUE constraint asks for. -/
def insert (t : UniqueTable Key Row) (k : Key) (r : Row) (h : t.find? k = none) :
    UniqueTable Key Row where
  rows := t.rows ++ [(k, r)]
  nodup := by
    rw [List.map_append, List.nodup_append]
    refine ⟨t.nodup, by simp, ?_⟩
    intro a ha b hb heq
    have hbk : b = k := by simpa using hb
    exact (t.find?_eq_none_iff k).mp h (by rwa [← hbk, ← heq])

/-- INSERT as a statement: it fails when the key is taken. -/
def insert? (t : UniqueTable Key Row) (k : Key) (r : Row) : Option (UniqueTable Key Row) :=
  if h : t.find? k = none then some (t.insert k r h) else none

/-- Store a row under a key: in place when the key has a row, else after all others. -/
def put (t : UniqueTable Key Row) (k : Key) (r : Row) : UniqueTable Key Row :=
  if h : t.find? k = none then t.insert k r h else t.modify k fun _ => r

@[simp] theorem find?_empty (k : Key) : (empty : UniqueTable Key Row).find? k = none := rfl

@[simp] theorem find?_insert (t : UniqueTable Key Row) (k k' : Key) (r : Row)
    (h : t.find? k = none) :
    (t.insert k r h).find? k' = if k' = k then some r else t.find? k' := by
  unfold find? at h ⊢
  simp only [insert, List.lookup_append]
  by_cases hk : k' = k
  · subst hk
    rw [h]
    simp
  · rw [lookup_cons_ne hk]
    simp [hk]

/-- INSERT has no result exactly when the key is taken. -/
theorem insert?_eq_none_iff (t : UniqueTable Key Row) (k : Key) (r : Row) :
    t.insert? k r = none ↔ t.find? k ≠ none := by
  unfold insert?
  by_cases h : t.find? k = none <;> simp [h]

/-- A successful INSERT found its key free. -/
theorem find?_eq_none_of_insert? {t t' : UniqueTable Key Row} {k : Key} {r : Row}
    (h : t.insert? k r = some t') : t.find? k = none := by
  by_contra htaken
  rw [(insert?_eq_none_iff t k r).mpr htaken] at h
  cases h

/-- A successful INSERT adds one row after all others. -/
theorem rows_of_insert? {t t' : UniqueTable Key Row} {k : Key} {r : Row}
    (h : t.insert? k r = some t') : t'.rows = t.rows ++ [(k, r)] := by
  have hfree := find?_eq_none_of_insert? h
  unfold insert? at h
  rw [dif_pos hfree, Option.some.injEq] at h
  rw [← h]
  rfl

/-- What a successful INSERT leaves under every key. -/
theorem find?_of_insert? {t t' : UniqueTable Key Row} {k : Key} {r : Row}
    (h : t.insert? k r = some t') (k' : Key) :
    t'.find? k' = if k' = k then some r else t.find? k' := by
  unfold insert? at h
  by_cases hk : t.find? k = none
  · rw [dif_pos hk, Option.some.injEq] at h
    rw [← h, find?_insert]
  · simp [hk] at h

@[simp] theorem find?_modify (t : UniqueTable Key Row) (k k' : Key) (f : Row → Row) :
    (t.modify k f).find? k' = if k' = k then (t.find? k).map f else t.find? k' := by
  unfold find?
  simp only [modify]
  induction t.rows with
  | nil => simp
  | cons kr rows ih =>
    obtain ⟨a, b⟩ := kr
    by_cases ha : a = k
    · subst ha
      by_cases hk : k' = a
      · simp [hk]
      · simpa [lookup_cons_ne hk, hk] using ih
    · by_cases hka : k' = a
      · subst hka
        simp [ha]
      · have hka' : k ≠ a := fun h => ha h.symm
        simpa [lookup_cons_ne hka, lookup_cons_ne hka', ha] using ih

@[simp] theorem find?_put (t : UniqueTable Key Row) (k k' : Key) (r : Row) :
    (t.put k r).find? k' = if k' = k then some r else t.find? k' := by
  unfold put
  by_cases h : t.find? k = none
  · rw [dif_pos h, find?_insert]
  · rw [dif_neg h, find?_modify]
    obtain ⟨old, hold⟩ := Option.ne_none_iff_exists'.mp h
    simp [hold]

/-- Deleting rows leaves under a key the row that was there unless it is deleted. -/
@[simp] theorem find?_deleteWhere (t : UniqueTable Key Row) (p : Key → Row → Bool) (k : Key) :
    (t.deleteWhere p).find? k = (t.find? k).filter fun r => !p k r := by
  obtain ⟨rows, hnodup⟩ := t
  unfold find?
  simp only [deleteWhere]
  induction rows with
  | nil => simp
  | cons kr rows ih =>
    obtain ⟨a, b⟩ := kr
    simp only [List.map_cons, List.nodup_cons] at hnodup
    have hrest := ih hnodup.2
    by_cases hka : k = a
    · subst hka
      have habsent : rows.lookup k = none := (find?_eq_none_iff ⟨rows, hnodup.2⟩ k).mpr hnodup.1
      cases hp : p k b with
      | false => simp [hp, Option.filter_some]
      | true => simp [hp, hrest, habsent, Option.filter_some]
    · cases hp : p a b with
      | false => simpa [lookup_cons_ne hka, hp] using hrest
      | true => simpa [lookup_cons_ne hka, hp] using hrest

@[simp] theorem find?_erase (t : UniqueTable Key Row) (k k' : Key) :
    (t.erase k).find? k' = if k' = k then none else t.find? k' := by
  unfold erase
  rw [find?_deleteWhere]
  by_cases h : k' = k
  · simp [h]
  · cases hrow : t.find? k' <;> simp [h, Option.filter_some]

/-- A key has a row exactly when the two stand together in the table. -/
theorem find?_eq_some_iff (t : UniqueTable Key Row) (k : Key) (r : Row) :
    t.find? k = some r ↔ (k, r) ∈ t.rows := by
  obtain ⟨rows, hnodup⟩ := t
  unfold find?
  induction rows with
  | nil => simp
  | cons kr rows ih =>
    obtain ⟨a, b⟩ := kr
    simp only [List.map_cons, List.nodup_cons] at hnodup
    by_cases h : k = a
    · subst h
      have habsent : (k, r) ∉ rows := fun hmem => hnodup.1 (List.mem_map_of_mem hmem)
      simp [habsent, eq_comm]
    · simp only [lookup_cons_ne h, ih hnodup.2, List.mem_cons, Prod.mk.injEq, h, false_and,
        false_or]

/-- The keys that have rows. -/
theorem isSome_find?_iff (t : UniqueTable Key Row) (k : Key) :
    (t.find? k).isSome = true ↔ k ∈ t.rows.map Prod.fst := by
  rw [Option.isSome_iff_ne_none, ne_eq, find?_eq_none_iff, not_not]

/-- Sorting the rows does not change what they are. -/
@[simp] theorem find?_sortKeys [LinearOrder Key] (t : UniqueTable Key Row) (k : Key) :
    t.sortKeys.find? k = t.find? k := by
  have hperm : t.sortKeys.rows.Perm t.rows := List.perm_insertionSort _ t.rows
  ext r
  rw [find?_eq_some_iff, find?_eq_some_iff, hperm.mem_iff]

/-- The keys after a loop that stores a row under each of some keys. -/
theorem isSome_find?_foldl_put (ks : List Key) (f : Key → Row) (t : UniqueTable Key Row)
    (k : Key) :
    ((ks.foldl (fun t k => t.put k (f k)) t).find? k).isSome = true ↔
      (t.find? k).isSome = true ∨ k ∈ ks := by
  induction ks generalizing t with
  | nil => simp
  | cons k' ks ih =>
    rw [List.foldl_cons, ih, find?_put, List.mem_cons]
    by_cases hk : k = k' <;> simp [hk]

/-- A key that becomes the last keeps its row, and so do the others. -/
@[simp] theorem find?_moveToEnd (t : UniqueTable Key Row) (k k' : Key) :
    (t.moveToEnd k).find? k' = t.find? k' := by
  apply Option.ext
  intro r
  rw [find?_eq_some_iff, find?_eq_some_iff]
  exact (List.filter_append_perm _ t.rows).mem_iff

@[simp] theorem length_moveToEnd (t : UniqueTable Key Row) (k : Key) :
    (t.moveToEnd k).rows.length = t.rows.length :=
  (List.filter_append_perm _ t.rows).length_eq

/-- A row that becomes the last comes after all others. -/
theorem rows_moveToEnd {t : UniqueTable Key Row} {k : Key} {r : Row} (h : t.find? k = some r) :
    (t.moveToEnd k).rows = t.rows.filter (fun kr => kr.1 ≠ k) ++ [(k, r)] := by
  suffices hself : t.rows.filter (fun kr => !decide (kr.1 ≠ k)) = [(k, r)] from
    congrArg (t.rows.filter (fun kr => kr.1 ≠ k) ++ ·) hself
  obtain ⟨rows, hnodup⟩ := t
  unfold find? at h
  dsimp only at h ⊢
  induction rows with
  | nil => cases h
  | cons kr rows ih =>
    obtain ⟨a, b⟩ := kr
    simp only [List.map_cons, List.nodup_cons] at hnodup
    by_cases hka : k = a
    · subst hka
      have hrest : rows.filter (fun kr => !decide (kr.1 ≠ k)) = [] := by
        rw [List.filter_eq_nil_iff]
        intro kr hmem heq
        have hkey : kr.1 = k := by simpa using heq
        exact hnodup.1 (hkey ▸ List.mem_map_of_mem hmem)
      rw [List.filter_cons_of_pos (by simp), hrest]
      simpa using h
    · have hak : a ≠ k := fun heq => hka heq.symm
      rw [lookup_cons_ne hka] at h
      rw [List.filter_cons_of_neg (by simp [hak])]
      exact ih hnodup.2 h

/-- The rows are that of a key and those that are left without it. -/
theorem rows_perm_erase {t : UniqueTable Key Row} {k : Key} {r : Row} (h : t.find? k = some r) :
    t.rows.Perm ((k, r) :: (t.erase k).rows) := by
  have hmoved : t.rows.Perm (t.moveToEnd k).rows := (List.filter_append_perm _ t.rows).symm
  have herased : (t.erase k).rows = t.rows.filter fun kr => kr.1 ≠ k := by
    simp [erase, deleteWhere]
  rw [rows_moveToEnd h, ← herased] at hmoved
  exact hmoved.trans (List.perm_append_singleton _ _)

/-- Deleting the row of a key that has none changes nothing. -/
theorem erase_of_new {t : UniqueTable Key Row} {k : Key} (h : t.find? k = none) :
    t.erase k = t := by
  have hrows : t.rows.filter (fun kr => !decide (kr.1 = k)) = t.rows := by
    rw [List.filter_eq_self]
    intro kr hmem
    have hne : kr.1 ≠ k := fun heq =>
      (find?_eq_none_iff t k).mp h (heq ▸ List.mem_map_of_mem hmem)
    simp [hne]
  unfold erase deleteWhere
  simp only [hrows]

/-- What is stored under a key does not matter once it is deleted. -/
theorem erase_put (t : UniqueTable Key Row) (k : Key) (r : Row) :
    (t.put k r).erase k = t.erase k := by
  have hrows : (t.put k r).rows.filter (fun kr => !decide (kr.1 = k)) =
      t.rows.filter fun kr => !decide (kr.1 = k) := by
    unfold put
    split_ifs with hk
    · simp [insert]
    · have hkey (kr : Key × Row) : (if kr.1 = k then (kr.1, r) else kr).1 = kr.1 := by
        split_ifs <;> rfl
      have hkeep : ∀ kr ∈ t.rows.filter (fun kr => !decide (kr.1 = k)),
          (if kr.1 = k then (kr.1, r) else kr) = id kr := by
        intro kr hmem
        rw [if_neg (by simpa using List.of_mem_filter hmem), id]
      simp only [modify]
      rw [List.filter_map]
      simp only [Function.comp_def, hkey]
      rw [List.map_congr_left hkeep, List.map_id]
  unfold erase deleteWhere
  simp only [hrows]

/-- Only the oldest key loses its row when that is deleted. -/
@[simp] theorem find?_dropFirst (t : UniqueTable Key Row) (k : Key) :
    t.dropFirst.find? k = if t.first? = some k then none else t.find? k := by
  obtain ⟨rows, hnodup⟩ := t
  cases rows with
  | nil => rfl
  | cons kr rows =>
    obtain ⟨a, b⟩ := kr
    simp only [List.map_cons, List.nodup_cons] at hnodup
    by_cases h : k = a
    · subst h
      have habsent : (⟨rows, hnodup.2⟩ : UniqueTable Key Row).find? k = none :=
        (find?_eq_none_iff _ k).mpr hnodup.1
      exact habsent.trans (if_pos rfl).symm
    · have hrest : rows.lookup k = ((a, b) :: rows).lookup k := (lookup_cons_ne h b rows).symm
      exact hrest.trans (if_neg fun heq => h (Option.some.inj heq).symm).symm

/-- Storing what is there changes nothing. -/
theorem put_self {t : UniqueTable Key Row} {k : Key} {r : Row} (h : t.find? k = some r) :
    t.put k r = t := by
  have hrow : ∀ kr ∈ t.rows, (if kr.1 = k then (kr.1, r) else kr) = id kr := by
    rintro ⟨k', r'⟩ hmem
    split_ifs with heq
    · obtain rfl : k' = k := heq
      rw [← find?_eq_some_iff, h, Option.some.injEq] at hmem
      rw [hmem, id]
    · rfl
  have hrows := (List.map_congr_left hrow).trans (List.map_id t.rows)
  unfold put
  rw [dif_neg (by simp [h])]
  obtain ⟨rows, hnodup⟩ := t
  simp only [modify, hrows]

/-- Changing each row into itself changes nothing. -/
theorem mapRows_self {t : UniqueTable Key Row} {f : Key → Row → Row}
    (h : ∀ k r, t.find? k = some r → f k r = r) : t.mapRows f = t := by
  have hrow : ∀ kr ∈ t.rows, (kr.1, f kr.1 kr.2) = id kr := by
    rintro ⟨k, r⟩ hmem
    rw [h k r ((find?_eq_some_iff t k r).mpr hmem), id]
  have hrows := (List.map_congr_left hrow).trans (List.map_id t.rows)
  obtain ⟨rows, hnodup⟩ := t
  simp only [mapRows, hrows]

/-- A row under a new key comes after all others. -/
theorem rows_put_of_new {t : UniqueTable Key Row} {k : Key} (h : t.find? k = none) (r : Row) :
    (t.put k r).rows = t.rows ++ [(k, r)] := by
  unfold put
  rw [dif_pos h]
  rfl

/-- A row under a new key is one more. -/
theorem length_put (t : UniqueTable Key Row) (k : Key) (r : Row) (h : t.find? k = none) :
    (t.put k r).rows.length = t.rows.length + 1 := by
  unfold put
  rw [dif_pos h]
  simp [insert]

/-- A row under an old key is no more. -/
theorem length_put_of_old (t : UniqueTable Key Row) (k : Key) (r : Row) (h : t.find? k ≠ none) :
    (t.put k r).rows.length = t.rows.length := by
  unfold put
  rw [dif_neg h]
  simp [modify]

/-- Storing a row makes at most one more. -/
theorem length_put_le (t : UniqueTable Key Row) (k : Key) (r : Row) :
    (t.put k r).rows.length ≤ t.rows.length + 1 := by
  by_cases h : t.find? k = none
  · exact le_of_eq (t.length_put k r h)
  · unfold put
    rw [dif_neg h]
    simp [modify]

@[simp] theorem find?_mapRows {Row' : Type*} (t : UniqueTable Key Row) (f : Key → Row → Row')
    (k : Key) : (t.mapRows f).find? k = (t.find? k).map (f k) := by
  unfold find?
  simp only [mapRows]
  induction t.rows with
  | nil => rfl
  | cons kr rows ih =>
    obtain ⟨a, b⟩ := kr
    by_cases h : k = a
    · simp [h]
    · simpa [lookup_cons_ne h] using ih

/-- Changing the row of a key before all rows are changed. -/
theorem mapRows_modify {Row' : Type*} {t : UniqueTable Key Row} {k : Key} {f : Key → Row → Row'}
    {g : Row → Row} {g' : Row' → Row'} (h : ∀ r, f k (g r) = g' (f k r)) :
    (t.modify k g).mapRows f = (t.mapRows f).modify k g' := by
  unfold modify mapRows
  simp only [List.map_map]
  congr 1
  apply List.map_congr_left
  rintro ⟨k', r⟩ -
  by_cases hkey : k' = k
  · subst hkey
    simp [h]
  · simp [hkey]

/-- A row under a new key can be inserted into the changed rows. -/
theorem insert?_mapRows {Row' : Type*} {t : UniqueTable Key Row} {k : Key} {f : Key → Row → Row'}
    (h : t.find? k = none) (r : Row) :
    (t.mapRows f).insert? k (f k r) = some ((t.put k r).mapRows f) := by
  have hnone : (t.mapRows f).find? k = none := by
    rw [find?_mapRows, h]
    rfl
  unfold insert? put
  rw [dif_pos hnone, dif_pos h]
  simp [insert, mapRows]

/-- A loop over items that adds each to the row of its key; a new row starts as `zero`. -/
def collect {Item : Type*} (zero : Row) (add : Row → Item → Row) (items : List (Key × Item)) :
    UniqueTable Key Row :=
  items.foldl (fun t item => t.put item.1 (add ((t.find? item.1).getD zero) item.2)) empty

/-- Items added to a table go to the row of their key, in their order. -/
theorem find?_foldl_collect {Item : Type*} (zero : Row) (add : Row → Item → Row)
    (items : List (Key × Item)) (t : UniqueTable Key Row) (k : Key) :
    (items.foldl (fun t item => t.put item.1 (add ((t.find? item.1).getD zero) item.2))
        t).find? k =
      if k ∈ items.map Prod.fst then
        some (((items.filter fun item => item.1 = k).map Prod.snd).foldl add
          ((t.find? k).getD zero))
      else t.find? k := by
  induction items generalizing t with
  | nil => simp
  | cons item items ih =>
    rw [List.foldl_cons, ih, find?_put]
    by_cases hk : k = item.1
    · subst hk
      by_cases hmem : item.1 ∈ items.map Prod.fst
      · simp [hmem]
      · have hnone : (items.filter fun item' => item'.1 = item.1) = [] := by
          rw [List.filter_eq_nil_iff]
          intro item' hitem' heq
          exact hmem (List.mem_map.mpr ⟨item', hitem', by simpa using heq⟩)
        simp [hmem, hnone]
    · have hk' : item.1 ≠ k := fun h => hk h.symm
      have hkeys : k ∈ (item :: items).map Prod.fst ↔ k ∈ items.map Prod.fst := by
        rw [List.map_cons, List.mem_cons, or_iff_right hk]
      simp only [hk, hk', if_false, hkeys, decide_false, List.filter_cons, Bool.false_eq_true]

/-- A row has the items of its key, in their order. -/
theorem find?_collect {Item : Type*} (zero : Row) (add : Row → Item → Row)
    (items : List (Key × Item)) (k : Key) :
    (collect zero add items).find? k =
      if k ∈ items.map Prod.fst then
        some (((items.filter fun item => item.1 = k).map Prod.snd).foldl add zero)
      else none :=
  find?_foldl_collect zero add items empty k

/-- There are no more rows than items. -/
theorem length_collect_le {Item : Type*} (zero : Row) (add : Row → Item → Row)
    (items : List (Key × Item)) : (collect zero add items).rows.length ≤ items.length := by
  have hfold : ∀ (items : List (Key × Item)) (t : UniqueTable Key Row),
      (items.foldl (fun t item => t.put item.1 (add ((t.find? item.1).getD zero) item.2))
        t).rows.length ≤ t.rows.length + items.length := by
    intro items
    induction items with
    | nil => simp
    | cons item items ih =>
      intro t
      have hput := length_put_le t item.1 (add ((t.find? item.1).getD zero) item.2)
      have hrest := ih (t.put item.1 (add ((t.find? item.1).getD zero) item.2))
      rw [List.foldl_cons, List.length_cons]
      omega
  simpa [collect, empty] using hfold items empty

/-- A loop that lists items lists those of each key. -/
theorem find?_collect_append {Item : Type*} {items : List (Key × Item)} {k : Key} {item : Item}
    (h : (k, item) ∈ items) :
    ∃ row, (collect [] (fun row item => row ++ [item]) items).find? k = some row ∧
      ∀ item', item' ∈ row ↔ (k, item') ∈ items := by
  refine ⟨_, (find?_collect _ _ _ _).trans
    (if_pos (List.mem_map.mpr ⟨(k, item), h, rfl⟩)), fun item' => ?_⟩
  rw [List.foldl_append_eq_append]
  simp

/-- A key without items has no row. -/
theorem find?_collect_eq_none {Item : Type*} {zero : Row} {add : Row → Item → Row}
    {items : List (Key × Item)} {k : Key} (h : ∀ item, (k, item) ∉ items) :
    (collect zero add items).find? k = none := by
  rw [find?_collect, if_neg]
  intro hmem
  obtain ⟨⟨k', item⟩, hitem, rfl⟩ := List.mem_map.mp hmem
  exact h item hitem

/-- The oldest row of a table that has any. -/
theorem exists_first? {t : UniqueTable Key Row} (h : t.rows ≠ []) :
    ∃ k row, t.first? = some k ∧ t.find? k = some row := by
  obtain ⟨⟨k, row⟩, rest, hrows⟩ := List.exists_cons_of_ne_nil h
  refine ⟨k, row, ?_, ?_⟩
  · simp [first?, hrows]
  · rw [find?_eq_some_iff, hrows]
    exact List.mem_cons_self

/-- A table with rows under two keys has more than one. -/
theorem one_lt_length {t : UniqueTable Key Row} {k k' : Key} {row row' : Row} (hk : k ≠ k')
    (h : t.find? k = some row) (h' : t.find? k' = some row') : 1 < t.rows.length := by
  rw [find?_eq_some_iff] at h h'
  by_contra hlength
  obtain ⟨only, hrows⟩ : ∃ only, t.rows = [only] :=
    List.length_eq_one_iff.mp (by
      have hpos := List.length_pos_of_mem h
      omega)
  rw [hrows, List.mem_singleton] at h h'
  exact hk (congrArg Prod.fst (h.trans h'.symm))

section FlatMap

variable {β : Type*} {f : Key × Row → List β} {t : UniqueTable Key Row} {k : Key}

/-- A new row comes after what the others give. -/
theorem flatMap_put_of_new (h : t.find? k = none) (r : Row) :
    (t.put k r).rows.flatMap f = t.rows.flatMap f ++ f (k, r) := by
  unfold put
  rw [dif_pos h]
  simp [insert]

omit f t k in
/-- Where the rows are lists, their elements are those of one key and those of the others. -/
theorem flatMap_snd_perm (t : UniqueTable Key (List β)) (k : Key) :
    (t.rows.flatMap Prod.snd).Perm
      ((t.find? k).getD [] ++ (t.erase k).rows.flatMap Prod.snd) := by
  cases hfind : t.find? k with
  | none =>
    rw [erase_of_new hfind]
    exact .refl _
  | some r =>
    have hperm := (rows_perm_erase hfind).flatMap_right Prod.snd
    rwa [List.flatMap_cons] at hperm

/-- A row that gives more than the one in its place makes what all give as much more. -/
theorem perm_flatMap_put {g : Row → List β} {r : Row} {more : List β}
    (h : g r = ((t.find? k).map g).getD [] ++ more) :
    ((t.put k r).rows.flatMap fun kr => g kr.2).Perm
      ((t.rows.flatMap fun kr => g kr.2) ++ more) := by
  cases hfind : t.find? k with
  | none =>
    rw [hfind] at h
    rw [flatMap_put_of_new hfind, h]
    exact .refl _
  | some old =>
    rw [hfind] at h
    have hput : (t.put k r).find? k = some r := by rw [find?_put, if_pos rfl]
    have hafter := (rows_perm_erase hput).flatMap_right fun kr => g kr.2
    have hbefore := (rows_perm_erase hfind).flatMap_right fun kr => g kr.2
    rw [erase_put, List.flatMap_cons] at hafter
    rw [List.flatMap_cons] at hbefore
    refine hafter.trans (.trans ?_ (hbefore.symm.append_right more))
    rw [h, Option.map_some, Option.getD_some, List.append_assoc, List.append_assoc]
    exact List.perm_append_comm.append_left _

/-- A loop that lists items by key keeps all of them. -/
theorem flatMap_collect_perm {Item : Type*} (items : List (Key × Item)) :
    ((collect [] (fun row item => row ++ [item]) items).rows.flatMap Prod.snd).Perm
      (items.map Prod.snd) := by
  have hfold (t : UniqueTable Key (List Item)) :
      ((items.foldl (fun t item => t.put item.1 ((t.find? item.1).getD [] ++ [item.2]))
        t).rows.flatMap Prod.snd).Perm (t.rows.flatMap Prod.snd ++ items.map Prod.snd) := by
    induction items generalizing t with
    | nil => simp
    | cons item items ih =>
      have hput : ((t.put item.1 ((t.find? item.1).getD [] ++ [item.2])).rows.flatMap
          fun kr => id kr.2).Perm ((t.rows.flatMap fun kr => id kr.2) ++ [item.2]) :=
        perm_flatMap_put (by simp)
      refine (ih _).trans ?_
      rw [List.map_cons, List.append_cons]
      exact hput.append_right _
  exact hfold empty

/-- A row that gives nothing, whatever it is, does not count. -/
theorem flatMap_put_of_silent (h : ∀ r, f (k, r) = []) (r : Row) :
    (t.put k r).rows.flatMap f = t.rows.flatMap f := by
  by_cases hk : t.find? k = none
  · rw [flatMap_put_of_new hk, h, List.append_nil]
  · have hrow (kr : Key × Row) : f (if kr.1 = k then (kr.1, r) else kr) = f kr := by
      split_ifs with heq
      · obtain ⟨k', r'⟩ := kr
        obtain rfl : k' = k := heq
        rw [h, h]
      · rfl
    unfold put
    rw [dif_neg hk]
    simp only [modify, List.flatMap_map, hrow]

omit [DecidableEq Key] in
/-- Deleting rows that give nothing changes nothing. -/
theorem flatMap_deleteWhere {p : Key → Row → Bool} (h : ∀ k r, p k r = true → f (k, r) = []) :
    (t.deleteWhere p).rows.flatMap f = t.rows.flatMap f := by
  simp only [deleteWhere]
  induction t.rows with
  | nil => rfl
  | cons kr rows ih =>
    cases hp : p kr.1 kr.2 with
    | false => simp [hp, ih]
    | true => simp [hp, ih, h kr.1 kr.2 hp]

/-- Storing a row in place of one that gives something makes what it gives not all of it more. -/
theorem length_flatMap_put_lt {r old : Row} (hfind : t.find? k = some old)
    (hgives : f (k, old) ≠ []) :
    ((t.put k r).rows.flatMap f).length < (t.rows.flatMap f).length + (f (k, r)).length := by
  have hput : (t.put k r).find? k = some r := by rw [find?_put, if_pos rfl]
  have hafter := ((rows_perm_erase hput).flatMap_right f).length_eq
  have hbefore := ((rows_perm_erase hfind).flatMap_right f).length_eq
  have hpos := List.length_pos_iff.mpr hgives
  rw [erase_put, List.flatMap_cons, List.length_append] at hafter
  rw [List.flatMap_cons, List.length_append] at hbefore
  omega

theorem length_flatMap_put_le (hgives : ∀ r, f (k, r) ≠ []) (r : Row) :
    ((t.put k r).rows.flatMap f).length ≤ (t.rows.flatMap f).length + (f (k, r)).length := by
  cases hfind : t.find? k with
  | none => rw [flatMap_put_of_new hfind, List.length_append]
  | some old => exact (length_flatMap_put_lt hfind (hgives old)).le

/-- Storing rows under keys of their own gives at most what they all give, and all of it only if
the keys are new and different. -/
theorem length_flatMap_foldl_put (key : Row → Key) (hgives : ∀ kr, f kr ≠ []) (rs : List Row) :
    ((rs.foldl (fun t r => t.put (key r) r) t).rows.flatMap f).length ≤
        (t.rows.flatMap f).length + (rs.flatMap fun r => f (key r, r)).length ∧
      ((t.rows.flatMap f).length + (rs.flatMap fun r => f (key r, r)).length ≤
          ((rs.foldl (fun t r => t.put (key r) r) t).rows.flatMap f).length →
        (rs.map key).Nodup ∧ ∀ r ∈ rs, t.find? (key r) = none) := by
  induction rs generalizing t with
  | nil => simp
  | cons r rs ih =>
    obtain ⟨hle, hall⟩ := ih (t := t.put (key r) r)
    have hput := length_flatMap_put_le (t := t) (fun r' => hgives (key r, r')) r
    rw [List.foldl_cons, List.flatMap_cons, List.length_append]
    refine ⟨by omega, fun hge => ?_⟩
    obtain ⟨hnodup, hfree⟩ := hall (by omega)
    have hnew : t.find? (key r) = none := by
      cases hfind : t.find? (key r) with
      | none => rfl
      | some old =>
        have hlt := length_flatMap_put_lt (r := r) hfind (hgives _)
        omega
    have hother : ∀ r' ∈ rs, key r' ≠ key r ∧ t.find? (key r') = none := by
      intro r' hr'
      have hnone := hfree r' hr'
      rw [find?_put] at hnone
      split_ifs at hnone with hkey
      exact ⟨hkey, hnone⟩
    refine ⟨List.nodup_cons.mpr ⟨fun hmem => ?_, hnodup⟩, fun r' hr' => ?_⟩
    · obtain ⟨r', hr', hkey⟩ := List.mem_map.mp hmem
      exact (hother r' hr').1 hkey
    · obtain rfl | hr' := List.mem_cons.mp hr'
      · exact hnew
      · exact (hother r' hr').2

omit f k in
/-- Rows under new and different keys come after all others. -/
theorem rows_foldl_put_of_new {Item : Type*} (key : Item → Key) (row : Item → Row)
    {items : List Item} (hnodup : (items.map key).Nodup)
    (hnew : ∀ i ∈ items, t.find? (key i) = none) :
    (items.foldl (fun t i => t.put (key i) (row i)) t).rows =
      t.rows ++ items.map fun i => (key i, row i) := by
  induction items generalizing t with
  | nil => simp
  | cons item items ih =>
    obtain ⟨hfresh, hnodup⟩ := List.nodup_cons.mp hnodup
    have hrest : ∀ i ∈ items, (t.put (key item) (row item)).find? (key i) = none := by
      intro i hi
      have hne : key i ≠ key item := fun h => hfresh (h ▸ List.mem_map_of_mem hi)
      rw [find?_put, if_neg hne]
      exact hnew i (List.mem_cons_of_mem item hi)
    rw [List.foldl_cons, ih hnodup hrest, rows_put_of_new (hnew item List.mem_cons_self),
      List.append_assoc]
    rfl

omit f k in
/-- What is found after some rows are stored is one of them, or was there before. -/
theorem exists_of_find?_foldl_put {Item : Type*} {key : Item → Key} {row : Item → Row}
    {items : List Item} {k : Key} {r : Row}
    (h : (items.foldl (fun t i => t.put (key i) (row i)) t).find? k = some r) :
    (∃ i ∈ items, key i = k ∧ row i = r) ∨ t.find? k = some r := by
  induction items generalizing t with
  | nil => exact Or.inr h
  | cons item items ih =>
    obtain ⟨i, hi, hrow⟩ | hr := ih h
    · exact Or.inl ⟨i, List.mem_cons_of_mem item hi, hrow⟩
    · rw [find?_put] at hr
      split_ifs at hr with hkey
      · exact Or.inl ⟨item, List.mem_cons_self, hkey.symm, Option.some.inj hr⟩
      · exact Or.inr hr

end FlatMap

end UniqueTable
