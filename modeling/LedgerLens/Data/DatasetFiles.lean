import LedgerLens.Data.PartitionKeys
import Mathlib.Data.List.MinMax
import Mathlib.Data.List.Perm.Basic

/-!
# What the programs do to the files

Making directories only adds directories; the next shard has a new name; loading and saving
metadata are read off the tree. Under the condition on the rows these facts carry the invariant
of the runs.
-/

namespace LedgerLens.Data

open FileTree Raising

section Names

theorem toList_shardName (index : ℕ) : (shardName index).toList =
    "data_".toList ++ ((padded 5 index).toList ++ ".parquet".toList) := by
  unfold shardName
  rw [String.toList_append, String.toList_append, List.append_assoc]

/-- The name of a shard matches the pattern. -/
theorem isShardName_shardName (index : ℕ) : isShardName (shardName index) = true := by
  unfold isShardName
  rw [toList_shardName, Bool.and_eq_true, List.isPrefixOf_iff_prefix, List.isSuffixOf_iff_suffix]
  exact ⟨List.prefix_append _ _, List.suffix_append_of_suffix (List.suffix_append _ _)⟩

/-- The number is read off the name of a shard. -/
theorem shardIndex?_shardName (index : ℕ) : shardIndex? (shardName index) = some index := by
  obtain ⟨hne, hdigit⟩ := digitText_padded 5 index
  have hlist : (shardName index).toList.drop 5 =
      (padded 5 index).toList ++ ".parquet".toList := by
    rw [toList_shardName]
    rfl
  have htake : ((shardName index).toList.drop 5).takeWhile Char.isDigit =
      (padded 5 index).toList := by
    rw [hlist, List.takeWhile_append_of_pos hdigit]
    simp
  have hdrop : ((shardName index).toList.drop 5).dropWhile Char.isDigit = ".parquet".toList := by
    rw [hlist, List.dropWhile_append_of_pos hdigit]
    rfl
  have hstart : "data_".toList.isPrefixOf (shardName index).toList = true := by
    rw [toList_shardName, List.isPrefixOf_iff_prefix]
    exact List.prefix_append _ _
  unfold shardIndex?
  dsimp only
  rw [htake, hdrop, if_pos ⟨hstart, hne, rfl⟩, ofDigitChars_padded]

theorem isShardName_metadataFile : isShardName metadataFile = false := by decide +kernel

theorem isShardName_manifestFile : isShardName manifestFile = false := by decide +kernel

end Names

section Tree

variable {Row : Type} {tree : FileTree (Content Row)} {dir root : List String}

/-- The rows in the shards of a directory. -/
def shardRows (tree : FileTree (Content Row)) (dir : List String) : List Row :=
  gather isShardName nodeRows tree dir

/-- The next shard has a new name. -/
theorem find?_nextShard (tree : FileTree (Content Row)) (dir : List String) :
    tree.find? (dir ++ [shardName (nextShardIndex tree dir)]) = none := by
  by_contra hsome
  obtain ⟨node, hnode⟩ := Option.ne_none_iff_exists'.mp hsome
  have hindex : nextShardIndex tree dir ∈ (((children tree dir).filter fun child =>
      isShardName child.1).filterMap fun child => shardIndex? child.1) := by
    rw [List.mem_filterMap]
    refine ⟨(shardName (nextShardIndex tree dir), node), ?_, shardIndex?_shardName _⟩
    rw [List.mem_filter]
    exact ⟨mem_children_iff.mpr hnode, isShardName_shardName _⟩
  have hle := List.le_max_of_le' 0 hindex (Nat.le_refl _)
  have hdef : nextShardIndex tree dir = (((children tree dir).filter fun child =>
      isShardName child.1).filterMap fun child => shardIndex? child.1).foldr max 0 + 1 :=
    if_neg (List.ne_nil_of_mem hindex)
  omega

/-- A directory that holds nothing has no rows. -/
theorem shardRows_eq_nil (h : ∀ name, tree.find? (dir ++ [name]) = none) :
    shardRows tree dir = [] := by
  have hchildren : children tree dir = [] := by
    rw [List.eq_nil_iff_forall_not_mem]
    rintro ⟨name, node⟩ hmem
    cases (h name).symm.trans (mem_children_iff.mp hmem)
  unfold shardRows gather
  rw [hchildren]
  rfl

/-- A directory with rows holds a shard. -/
theorem exists_shard (h : shardRows tree dir ≠ []) :
    ∃ name content, isShardName name = true ∧
      tree.find? (dir ++ [name]) = some (.file content) := by
  obtain ⟨row, hrow⟩ := List.exists_mem_of_ne_nil _ h
  obtain ⟨⟨name, node⟩, hchild, hmem⟩ := List.mem_flatMap.mp hrow
  obtain ⟨hnode, hname⟩ := List.mem_filter.mp hchild
  cases node with
  | dir => cases hmem
  | file content => exact ⟨name, content, hname, mem_children_iff.mp hnode⟩

/-- A directory is discovered exactly when it is below the root and holds a shard. -/
theorem mem_discoverPartitions_iff : dir ∈ discoverPartitions tree root ↔
    root <+: dir ∧ tree.find? dir = some .dir ∧
      ∃ name content, isShardName name = true ∧
        tree.find? (dir ++ [name]) = some (.file content) := by
  have hshard : ((children tree dir).any fun child => isShardName child.1 && isFile child.2) =
      true ↔ ∃ name content, isShardName name = true ∧
        tree.find? (dir ++ [name]) = some (.file content) := by
    rw [List.any_eq_true]
    constructor
    · rintro ⟨⟨name, node⟩, hchild, htest⟩
      rw [Bool.and_eq_true] at htest
      cases node with
      | dir => cases htest.2
      | file content => exact ⟨name, content, htest.1, mem_children_iff.mp hchild⟩
    · rintro ⟨name, content, hname, hfile⟩
      refine ⟨(name, .file content), mem_children_iff.mpr hfile, ?_⟩
      rw [Bool.and_eq_true]
      exact ⟨hname, rfl⟩
  unfold discoverPartitions
  rw [List.mem_map]
  constructor
  · rintro ⟨⟨path, node⟩, hrow, rfl⟩
    obtain ⟨hmem, htest⟩ := List.mem_filter.mp hrow
    rw [Bool.and_eq_true, Bool.and_eq_true, List.isPrefixOf_iff_prefix] at htest
    cases node with
    | dir =>
      exact ⟨htest.1.1, (tree.find?_eq_some_iff _ _).mpr hmem, hshard.mp htest.2⟩
    | file content => cases htest.1.2
  · rintro ⟨hroot, hdir, hfile⟩
    refine ⟨(dir, .dir), ?_, rfl⟩
    rw [List.mem_filter, Bool.and_eq_true, Bool.and_eq_true, List.isPrefixOf_iff_prefix]
    exact ⟨(tree.find?_eq_some_iff _ _).mp hdir, ⟨hroot, rfl⟩, hshard.mpr hfile⟩

theorem nodup_discoverPartitions : (discoverPartitions tree root).Nodup :=
  (List.filter_sublist.map Prod.fst).nodup tree.nodup

theorem readPartition_perm (tree : FileTree (Content Row)) (dir : List String) :
    (readPartition tree dir).Perm (shardRows tree dir) :=
  (List.perm_insertionSort _ _).flatMap_right _

/-- A read collects the rows of the shards, in some order. -/
theorem readDataset_perm :
    (readDataset tree root).Perm ((discoverPartitions tree root).flatMap (shardRows tree)) := by
  unfold readDataset
  exact (List.perm_insertionSort _ _).flatMap fun dir _ => readPartition_perm tree dir

end Tree

section Directories

variable {Row : Type} {refuses : List String → Bool} {path : List String}
  {s s' s'' : Dataset Row}

/-- From one dataset to another only directories were made, on the way to a path. -/
structure MadeDirs (path : List String) (s s' : Dataset Row) : Prop where
  /-- The log is the same. -/
  ledger_eq : s'.ledger = s.ledger
  /-- Only what was made was touched. -/
  touched : ∀ dir ∈ s'.touched, dir ∈ s.touched ∨ dir <+: path ∧ s.tree.find? dir = none
  /-- Nodes stay, and new ones are directories. -/
  find?_eq : ∀ dir, s'.tree.find? dir = s.tree.find? dir ∨
    dir <+: path ∧ s.tree.find? dir = none ∧ s'.tree.find? dir = some .dir
  /-- Rows stay. -/
  shardRows_eq : ∀ dir, shardRows s'.tree dir = shardRows s.tree dir

theorem MadeDirs.refl (path : List String) (s : Dataset Row) : MadeDirs path s s :=
  ⟨rfl, fun _ h => Or.inl h, fun _ => Or.inl rfl, fun _ => rfl⟩

theorem MadeDirs.find?_of_some (h : MadeDirs path s s') {dir : List String}
    {node : FileNode (Content Row)} (hnode : s.tree.find? dir = some node) :
    s'.tree.find? dir = some node := by
  rcases h.find?_eq dir with hsame | ⟨-, hnone, -⟩
  · rw [hsame, hnode]
  · cases hnone.symm.trans hnode

theorem MadeDirs.trans (h : MadeDirs path s s') (h' : MadeDirs path s' s'') :
    MadeDirs path s s'' where
  ledger_eq := h'.ledger_eq.trans h.ledger_eq
  touched := by
    intro dir hdir
    rcases h'.touched dir hdir with hdir | ⟨hstart, hnone⟩
    · exact h.touched dir hdir
    · rcases h.find?_eq dir with hsame | ⟨-, -, hmade⟩
      · exact Or.inr ⟨hstart, by rw [← hsame, hnone]⟩
      · cases hnone.symm.trans hmade
  find?_eq := by
    intro dir
    rcases h.find?_eq dir with hsame | ⟨hstart, hnone, hmade⟩
    · rw [← hsame]
      exact h'.find?_eq dir
    · exact Or.inr ⟨hstart, hnone, h'.find?_of_some hmade⟩
  shardRows_eq dir := (h'.shardRows_eq dir).trans (h.shardRows_eq dir)

/-- Making one directory: it is there afterwards, unless that raises. -/
theorem mkdir_spec (refuses : List String → Bool) {dir : List String} (hdir : dir <+: path)
    (s : Dataset Row) :
    MadeDirs path s (exec (mkdir refuses dir) s).2 ∧
      ((exec (mkdir refuses dir) s).1 = .ok () →
        (exec (mkdir refuses dir) s).2.tree.find? dir = some .dir) := by
  unfold mkdir
  rw [exec_bind_of_ok (exec_get s)]
  cases hnode : s.tree.find? dir with
  | none =>
    dsimp only
    split_ifs
    · exact ⟨MadeDirs.refl path s, fun h => by cases h⟩
    · rw [exec_modify]
      refine ⟨⟨rfl, fun d hd => ?_, fun d => ?_, fun d => ?_⟩, fun _ => ?_⟩
      · rcases List.mem_cons.mp hd with rfl | hd
        · exact Or.inr ⟨hdir, hnode⟩
        · exact Or.inl hd
      · simp only [Dataset.store, UniqueTable.find?_put]
        split_ifs with heq
        · rw [heq]
          exact Or.inr ⟨hdir, hnode, rfl⟩
        · exact Or.inl rfl
      · exact gather_put_of_nil hnode rfl
      · simp [Dataset.store]
  | some node =>
    cases node with
    | dir => exact ⟨MadeDirs.refl path s, fun _ => hnode⟩
    | file content => exact ⟨MadeDirs.refl path s, fun h => by cases h⟩

/-- Making a directory with its parents. -/
theorem mkdirAll_spec (refuses : List String → Bool) (path : List String) (s : Dataset Row) :
    MadeDirs path s (exec (mkdirAll refuses path) s).2 ∧
      ((exec (mkdirAll refuses path) s).1 = .ok () →
        ∀ dir, dir <+: path → (exec (mkdirAll refuses path) s).2.tree.find? dir = some .dir) := by
  have hloop (dirs : List (List String)) (hdirs : ∀ dir ∈ dirs, dir <+: path) (s : Dataset Row) :
      MadeDirs path s (exec (dirs.foldlM (fun _ dir => mkdir refuses dir) ()) s).2 ∧
        ((exec (dirs.foldlM (fun _ dir => mkdir refuses dir) ()) s).1 = .ok () →
          ∀ dir ∈ dirs, (exec (dirs.foldlM (fun _ dir => mkdir refuses dir) ()) s).2.tree.find? dir
            = some .dir) := by
    induction dirs generalizing s with
    | nil =>
      refine ⟨MadeDirs.refl path s, fun _ dir hdir => ?_⟩
      cases hdir
    | cons first dirs ih =>
      obtain ⟨hmade, hthere⟩ := mkdir_spec refuses (hdirs first List.mem_cons_self) s
      rw [List.foldlM_cons]
      cases hexec : exec (mkdir refuses first) s with
      | mk outcome s₁ =>
        rw [hexec] at hmade hthere
        cases outcome with
        | error e =>
          rw [exec_bind_of_error hexec]
          exact ⟨hmade, fun h => by cases h⟩
        | ok u =>
          rw [exec_bind_of_ok hexec]
          obtain ⟨hrest, hall⟩ := ih (fun dir hdir => hdirs dir (List.mem_cons_of_mem _ hdir)) s₁
          refine ⟨hmade.trans hrest, fun hok dir hdir => ?_⟩
          rcases List.mem_cons.mp hdir with rfl | hdir
          · exact hrest.find?_of_some (hthere rfl)
          · exact hall hok dir hdir
  obtain ⟨hmade, hthere⟩ := hloop path.inits (fun dir hdir => (List.mem_inits dir path).mp hdir) s
  exact ⟨hmade, fun hok dir hdir => hthere hok dir ((List.mem_inits dir path).mpr hdir)⟩

/-- Where all directories are there, making them does nothing. -/
theorem exec_mkdirAll_of_dirs (h : ∀ dir, dir <+: path → s.tree.find? dir = some .dir) :
    exec (mkdirAll refuses path) s = (.ok (), s) := by
  have hloop (dirs : List (List String)) (hdirs : ∀ dir ∈ dirs, s.tree.find? dir = some .dir) :
      exec (dirs.foldlM (fun _ dir => mkdir refuses dir) ()) s = (.ok (), s) := by
    induction dirs with
    | nil => rfl
    | cons first dirs ih =>
      have hfirst : exec (mkdir refuses first) s = (.ok (), s) := by
        unfold mkdir
        rw [exec_bind_of_ok (exec_get s), hdirs first List.mem_cons_self]
        rfl
      rw [List.foldlM_cons, exec_bind_of_ok hfirst]
      exact ih fun dir hdir => hdirs dir (List.mem_cons_of_mem _ hdir)
  exact hloop path.inits fun dir hdir => h dir ((List.mem_inits dir path).mp hdir)

end Directories

end LedgerLens.Data
