import LedgerLens.Library.UniqueTable
import Mathlib.Data.List.Infix

/-!
# File trees

A file tree is a table from absolute paths to nodes, a path being the list of its names. Paths
are joined as texts and resolved as a system does that has no links. What a directory holds is
read from the table; the rules say how that changes when a node is stored or a tree removed.
-/

/-- What stands under a path. -/
inductive FileNode (File : Type*)
  /-- A directory. -/
  | dir
  /-- A file with its content. -/
  | file (content : File)

/-- A table from paths to nodes. -/
abbrev FileTree (File : Type*) := UniqueTable (List String) (FileNode File)

namespace FileTree

/-- A path lies strictly below another. -/
def Below (root path : List String) : Prop := root <+: path ∧ path ≠ root

instance (root path : List String) : Decidable (Below root path) :=
  inferInstanceAs (Decidable (_ ∧ _))

/-- The names between the slashes of a text. -/
def splitPath (text : String) : List String :=
  (text.toList.splitOn '/').map String.ofList

/-- Join a text to a path: empty names and single dots are dropped, and a text that starts with
a slash replaces the path. -/
def joinPath (path : List String) (text : String) : List String :=
  let names := (splitPath text).filter fun name => name ≠ "" ∧ name ≠ "."
  if text.toList.head? = some '/' then names else path ++ names

/-- Follow a path from the top: two dots lead one directory up. -/
def resolve (path : List String) : List String :=
  path.foldl (fun dir name => if name = ".." then dir.dropLast else dir ++ [name]) []

/-- The name of a path in a directory. -/
def childName (dir path : List String) : Option String :=
  if path.dropLast = dir then path.getLast? else none

variable {File : Type*}

/-- What a directory holds, by name. -/
def children (t : FileTree File) (dir : List String) : List (String × FileNode File) :=
  t.rows.filterMap fun row => (childName dir row.1).map fun name => (name, row.2)

/-- Remove a directory with all that it holds. -/
def removeTree (t : FileTree File) (dir : List String) : FileTree File :=
  t.deleteWhere fun path _ => dir.isPrefixOf path

section Paths

variable {root path dir : List String} {name : String}

theorem Below.append {names : List String} (h : names ≠ []) : Below root (root ++ names) :=
  ⟨List.prefix_append root names, by simpa using h⟩

/-- What lies below a path that is below the root is below the root. -/
theorem Below.mono (h : Below root dir) (hpath : dir <+: path) : Below root path := by
  refine ⟨h.1.trans hpath, ?_⟩
  rintro rfl
  exact h.2 (List.IsPrefix.eq_of_length h.1 (by
    have hfirst := h.1.length_le
    have hsecond := hpath.length_le
    omega)).symm

/-- A text is split at its slashes. -/
theorem splitPath_intercalate {names : List String} (hne : names ≠ [])
    (hnames : ∀ name ∈ names, '/' ∉ name.toList) :
    splitPath ("/".intercalate names) = names := by
  unfold splitPath
  rw [String.toList_intercalate]
  have hsplit : List.splitOn '/' (['/'].intercalate (names.map String.toList)) =
      names.map String.toList := by
    refine List.splitOn_intercalate '/' (fun l hl => ?_) (by simpa using hne)
    obtain ⟨name, hname, rfl⟩ := List.mem_map.mp hl
    exact hnames name hname
  have hslash : "/".toList = ['/'] := rfl
  rw [hslash, hsplit, List.map_map]
  simp [Function.comp_def]

/-- A text that starts with a slash has an empty first name. -/
theorem head_splitPath {text : String} (h : text.toList.head? = some '/') :
    (splitPath text).head? = some "" := by
  unfold splitPath
  cases htext : text.toList with
  | nil =>
    rw [htext] at h
    cases h
  | cons ch rest =>
    rw [htext] at h
    obtain rfl := Option.some.inj h
    simp [List.splitOn_cons_eq_if_modifyHead]

/-- A path without double dots is resolved. -/
theorem resolve_eq_self (h : ".." ∉ path) : resolve path = path := by
  have hfold (acc : List String) : path.foldl
      (fun dir name => if name = ".." then dir.dropLast else dir ++ [name]) acc = acc ++ path := by
    induction path generalizing acc with
    | nil => simp
    | cons name path ih =>
      rw [List.mem_cons, not_or] at h
      rw [List.foldl_cons, if_neg fun heq => h.1 heq.symm, ih h.2]
      simp
  exact hfold []

theorem childName_eq_some_iff : childName dir path = some name ↔ path = dir ++ [name] := by
  unfold childName
  constructor
  · intro h
    split_ifs at h with hdir
    obtain ⟨front, rfl⟩ := List.getLast?_eq_some_iff.mp h
    rw [List.dropLast_concat] at hdir
    rw [hdir]
  · rintro rfl
    simp

end Paths

section Contents

variable {t : FileTree File} {dir path : List String} {name : String} {node : FileNode File}

/-- A directory holds the nodes one name below it. -/
theorem mem_children_iff : (name, node) ∈ children t dir ↔ t.find? (dir ++ [name]) = some node := by
  rw [UniqueTable.find?_eq_some_iff]
  unfold children
  rw [List.mem_filterMap]
  constructor
  · rintro ⟨⟨path, node'⟩, hrow, hname⟩
    obtain ⟨name', hname', hpair⟩ := Option.map_eq_some_iff.mp hname
    obtain ⟨rfl, rfl⟩ := Prod.mk.inj hpair
    rwa [← childName_eq_some_iff.mp hname']
  · intro hrow
    exact ⟨_, hrow, by rw [childName_eq_some_iff.mpr rfl]; rfl⟩

/-- What the nodes of a directory with accepted names give. -/
def gather {β : Type*} (accepts : String → Bool) (f : FileNode File → List β)
    (t : FileTree File) (dir : List String) : List β :=
  ((children t dir).filter fun child => accepts child.1).flatMap fun child => f child.2

variable {β : Type*} {accepts : String → Bool} {f : FileNode File → List β}

/-- What one row of the table gives. -/
private def gatherRow (accepts : String → Bool) (f : FileNode File → List β) (dir : List String)
    (row : List String × FileNode File) : List β :=
  if ((childName dir row.1).map accepts).getD false then f row.2 else []

private theorem gather_eq : gather accepts f t dir = t.rows.flatMap (gatherRow accepts f dir) := by
  unfold gather children
  induction t.rows with
  | nil => rfl
  | cons row rows ih =>
    cases hname : childName dir row.1 with
    | none =>
      have hrow : gatherRow accepts f dir row = [] := by simp [gatherRow, hname]
      simp [hname, hrow, ih]
    | some name =>
      by_cases haccepts : accepts name = true
      · have hrow : gatherRow accepts f dir row = f row.2 := by simp [gatherRow, hname, haccepts]
        simp [hname, haccepts, hrow, ih]
      · have hrow : gatherRow accepts f dir row = [] := by simp [gatherRow, hname, haccepts]
        simp [hname, haccepts, hrow, ih]

private theorem gatherRow_of_accepts (h : accepts name = true) :
    gatherRow accepts f dir (dir ++ [name], node) = f node := by
  simp [gatherRow, childName, h]

private theorem gatherRow_eq_nil (h : ∀ name, accepts name = true → path ≠ dir ++ [name]) :
    gatherRow accepts f dir (path, node) = [] := by
  unfold gatherRow
  dsimp only
  cases hname : childName dir path with
  | none => rfl
  | some name =>
    have hrejects : ¬accepts name = true := fun haccepts =>
      h name haccepts (childName_eq_some_iff.mp hname)
    simp [hrejects]

/-- A new node with an accepted name comes after the others. -/
theorem gather_put_of_new (hname : accepts name = true) (hnew : t.find? (dir ++ [name]) = none) :
    gather accepts f (t.put (dir ++ [name]) node) dir = gather accepts f t dir ++ f node := by
  rw [gather_eq, gather_eq, UniqueTable.flatMap_put_of_new hnew, gatherRow_of_accepts hname]

/-- A node elsewhere, or with another name, does not count. -/
theorem gather_put_of_ne (h : ∀ name, accepts name = true → path ≠ dir ++ [name]) :
    gather accepts f (t.put path node) dir = gather accepts f t dir := by
  rw [gather_eq, gather_eq]
  exact UniqueTable.flatMap_put_of_silent (fun _ => gatherRow_eq_nil h) node

/-- A new node that gives nothing does not count. -/
theorem gather_put_of_nil (hnew : t.find? path = none) (h : f node = []) :
    gather accepts f (t.put path node) dir = gather accepts f t dir := by
  have hrow : gatherRow accepts f dir (path, node) = [] := by
    unfold gatherRow
    split_ifs
    · exact h
    · rfl
  rw [gather_eq, gather_eq, UniqueTable.flatMap_put_of_new hnew, hrow, List.append_nil]

/-- Removing a tree elsewhere does not count. -/
theorem gather_removeTree (h : ∀ name, ¬path <+: dir ++ [name]) :
    gather accepts f (removeTree t path) dir = gather accepts f t dir := by
  rw [gather_eq, gather_eq]
  refine UniqueTable.flatMap_deleteWhere fun path' node hpath' => gatherRow_eq_nil ?_
  rintro name - rfl
  exact h name (List.isPrefixOf_iff_prefix.mp hpath')

/-- After a tree is removed nothing stands below it, and elsewhere what stood there. -/
theorem find?_removeTree : (removeTree t dir).find? path =
    if dir <+: path then none else t.find? path := by
  unfold removeTree
  rw [UniqueTable.find?_deleteWhere]
  split_ifs with h
  · have hstart : dir.isPrefixOf path = true := List.isPrefixOf_iff_prefix.mpr h
    cases t.find? path <;> simp [hstart]
  · have hstart : dir.isPrefixOf path = false := by
      rw [← Bool.not_eq_true, List.isPrefixOf_iff_prefix]
      exact h
    cases t.find? path <;> simp [hstart]

end Contents

end FileTree
