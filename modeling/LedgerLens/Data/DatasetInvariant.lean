import LedgerLens.Data.DatasetFiles

/-!
# The invariant of a dataset

As long as no identifier is sanitised to a name that leads elsewhere, every file lies below the
root, every partition has its own directory with its rows and its metadata, and a read returns
what the log says. Writing a group keeps this, whether it succeeds or its directory cannot be
made.
-/

namespace LedgerLens.Data

open FileTree Raising PartitionedDatasetWriter

variable {Row : Type} {w : PartitionedDatasetWriter Row} {s s' : Dataset Row} {key : String}

/-- What the files promise, against the log. -/
structure Sound (w : PartitionedDatasetWriter Row) (s : Dataset Row) : Prop where
  /-- Everything that was created, replaced or deleted lies strictly below the root. -/
  below : ∀ path ∈ s.touched, Below w.root path
  /-- A partition has its own directory, strictly below the root. -/
  own : ∀ key p, s.ledger.find? key = some p → Below w.root (w.dirOf key) ∧
    ∀ key' p', s.ledger.find? key' = some p' → w.dirOf key <+: w.dirOf key' → key = key'
  /-- A read returns the rows that were written and not pruned since, each once. -/
  read_perm : (readDataset s.tree w.root).Perm
    (s.ledger.rows.flatMap fun partition => partition.2.rows)
  /-- The metadata of a partition has the number of its rows and the time of its last write. -/
  metadata : ∀ key p, s.ledger.find? key = some p → ∃ data,
    s.tree.find? (w.dirOf key ++ [metadataFile]) = some (.file (.metadata data)) ∧
      data.rowCount = p.rows.length ∧ data.updatedAt = p.updatedAt

/-- The invariant of the runs. -/
structure Inv (w : PartitionedDatasetWriter Row) (s : Dataset Row) : Prop where
  /-- Everything touched lies below the root. -/
  touched_below : ∀ path ∈ s.touched, Below w.root path
  /-- The root and all above it are directories. -/
  above : ∀ path, path <+: w.root → s.tree.find? path = some .dir
  /-- Keys are proper, and partitions have rows. -/
  proper : ∀ key p, s.ledger.find? key = some p → w.ProperKey key ∧ p.rows ≠ []
  /-- The directories of the partitions are there. -/
  dir : ∀ key p, s.ledger.find? key = some p → s.tree.find? (w.dirOf key) = some .dir
  /-- So is their metadata. -/
  metadata : ∀ key p, s.ledger.find? key = some p → ∃ data,
    s.tree.find? (w.dirOf key ++ [metadataFile]) = some (.file (.metadata data)) ∧
      data.rowCount = p.rows.length ∧ data.updatedAt = p.updatedAt
  /-- Their shards have their rows. -/
  shards : ∀ key p, s.ledger.find? key = some p →
    (shardRows s.tree (w.dirOf key)).Perm p.rows
  /-- Directories below the root lead to partitions. -/
  dirs : ∀ path, Below w.root path → s.tree.find? path = some .dir →
    ∃ key, w.ProperKey key ∧ path <+: w.dirOf key
  /-- Files below the root are in partitions, but for the manifest. -/
  files : ∀ path content, Below w.root path → s.tree.find? path = some (.file content) →
    path = w.root ++ [manifestFile] ∨
      ∃ key p name, s.ledger.find? key = some p ∧ path = w.dirOf key ++ [name]

/-- A directory and a node in it are different places. -/
theorem not_isPrefix_of_append {dir : List String} {name : String} : ¬dir ++ [name] <+: dir := by
  intro h
  have hle := h.length_le
  rw [List.length_append, List.length_singleton] at hle
  omega

/-- The directory of a partition holds nothing of another. -/
theorem dirOf_isPrefix_append_iff {key' : String} {name : String} (h : w.ProperKey key)
    (h' : w.ProperKey key') : w.dirOf key <+: w.dirOf key' ++ [name] ↔ key = key' := by
  constructor
  · intro hstart
    rcases List.prefix_concat_iff.mp hstart with heq | hstart
    · have hback : w.dirOf key' <+: w.dirOf key := by
        rw [heq]
        exact List.prefix_append _ _
      exact (h'.eq_of_isPrefix h hback).symm
    · exact h.eq_of_isPrefix h' hstart
  · rintro rfl
    exact List.prefix_append _ _

/-- What a directory of a proper key holds lies below the root. -/
theorem below_append (h : w.ProperKey key) (name : String) :
    Below w.root (w.dirOf key ++ [name]) :=
  h.below.mono (List.prefix_append _ _)

/-- A partition that is not in the log has no files. -/
theorem Inv.find?_of_new (h : Inv w s) (hkey : w.ProperKey key)
    (hnew : s.ledger.find? key = none) (name : String) :
    s.tree.find? (w.dirOf key ++ [name]) = none := by
  by_contra hsome
  obtain ⟨node, hnode⟩ := Option.ne_none_iff_exists'.mp hsome
  cases node with
  | dir =>
    obtain ⟨key', hkey', hstart⟩ := h.dirs _ (below_append hkey name) hnode
    obtain rfl := hkey.eq_of_isPrefix hkey' ((List.prefix_append _ _).trans hstart)
    exact not_isPrefix_of_append hstart
  | file content =>
    rcases h.files _ content (below_append hkey name) hnode with heq | ⟨key', p, name', hp, heq⟩
    · have hroot := (List.append_singleton_inj.mp heq).1
      exact hkey.below.2 hroot
    · have hdir := (List.append_singleton_inj.mp heq).1
      have hproper := (h.proper key' p hp).1
      obtain rfl := hkey.eq_of_isPrefix hproper (by rw [hdir])
      cases hnew.symm.trans hp

/-- The rows in the directory of a key are those of the log. -/
theorem Inv.shardRows_perm (h : Inv w s) (hkey : w.ProperKey key) :
    (shardRows s.tree (w.dirOf key)).Perm
      (((s.ledger.find? key).map Partition.rows).getD []) := by
  cases hp : s.ledger.find? key with
  | none => rw [shardRows_eq_nil (h.find?_of_new hkey hp)]; rfl
  | some p => exact h.shards key p hp

/-- The partitions that a read discovers are those of the log. -/
theorem Inv.mem_discover_iff (h : Inv w s) {dir : List String} :
    dir ∈ discoverPartitions s.tree w.root ↔
      ∃ key p, s.ledger.find? key = some p ∧ dir = w.dirOf key := by
  rw [mem_discoverPartitions_iff]
  constructor
  · rintro ⟨hroot, -, name, content, hname, hfile⟩
    have hbelow : Below w.root (dir ++ [name]) := by
      refine ⟨hroot.trans (List.prefix_append _ _), fun heq => ?_⟩
      rw [← heq] at hroot
      exact not_isPrefix_of_append hroot
    rcases h.files _ content hbelow hfile with heq | ⟨key, p, name', hp, heq⟩
    · obtain rfl := (List.append_singleton_inj.mp heq).2
      rw [isShardName_manifestFile] at hname
      cases hname
    · exact ⟨key, p, hp, (List.append_singleton_inj.mp heq).1⟩
  · rintro ⟨key, p, hp, rfl⟩
    obtain ⟨hkey, hne⟩ := h.proper key p hp
    have hrows : shardRows s.tree (w.dirOf key) ≠ [] := by
      intro hnil
      have hperm := h.shards key p hp
      rw [hnil] at hperm
      exact hne hperm.nil_eq.symm
    exact ⟨hkey.below.1, h.dir key p hp, exists_shard hrows⟩

/-- They are the directories of its keys, each once. -/
theorem Inv.discover_perm (h : Inv w s) : (discoverPartitions s.tree w.root).Perm
    (s.ledger.rows.map fun partition => w.dirOf partition.1) := by
  rw [List.perm_ext_iff_of_nodup nodup_discoverPartitions]
  · intro dir
    rw [h.mem_discover_iff, List.mem_map]
    constructor
    · rintro ⟨key, p, hp, rfl⟩
      exact ⟨(key, p), (s.ledger.find?_eq_some_iff key p).mp hp, rfl⟩
    · rintro ⟨⟨key, p⟩, hrow, rfl⟩
      exact ⟨key, p, (s.ledger.find?_eq_some_iff key p).mpr hrow, rfl⟩
  · have hkeys : (s.ledger.rows.map fun partition => w.dirOf partition.1) =
        (s.ledger.rows.map Prod.fst).map w.dirOf := by
      rw [List.map_map]
      rfl
    rw [hkeys]
    refine s.ledger.nodup.map_on fun key hkey key' hkey' heq => ?_
    obtain ⟨⟨_, p⟩, hrow, rfl⟩ := List.mem_map.mp hkey
    obtain ⟨⟨_, p'⟩, hrow', rfl⟩ := List.mem_map.mp hkey'
    have hproper := (h.proper _ p ((s.ledger.find?_eq_some_iff _ p).mpr hrow)).1
    have hproper' := (h.proper _ p' ((s.ledger.find?_eq_some_iff _ p').mpr hrow')).1
    exact hproper.eq_of_isPrefix hproper' (by rw [heq])

/-- The invariant is enough. -/
theorem Inv.sound (h : Inv w s) : Sound w s where
  below := h.touched_below
  own := by
    intro key p hp
    have hkey := (h.proper key p hp).1
    exact ⟨hkey.below, fun key' p' hp' hstart =>
      hkey.eq_of_isPrefix (h.proper key' p' hp').1 hstart⟩
  metadata := h.metadata
  read_perm := by
    refine readDataset_perm.trans ((h.discover_perm.flatMap_right _).trans ?_)
    rw [List.flatMap_map]
    refine List.Perm.flatMap_left _ fun partition hrow => ?_
    exact h.shards _ _ ((s.ledger.find?_eq_some_iff partition.1 partition.2).mpr hrow)

/-- Making the directories of a proper key keeps the invariant. -/
theorem Inv.madeDirs (h : Inv w s) (hkey : w.ProperKey key)
    (hmade : MadeDirs (w.dirOf key) s s') : Inv w s' := by
  have hbelow {path : List String} (hstart : path <+: w.dirOf key)
      (hnone : s.tree.find? path = none) : Below w.root path := by
    have hnot : ¬path <+: w.root := fun habove => by
      cases hnone.symm.trans (h.above path habove)
    rcases List.prefix_or_prefix_of_prefix hstart hkey.below.1 with hpath | hroot
    · exact absurd hpath hnot
    · refine ⟨hroot, fun heq => hnot ?_⟩
      rw [heq]
  refine { touched_below := ?_, above := ?_, proper := ?_, dir := ?_, metadata := ?_,
           shards := ?_, dirs := ?_, files := ?_ }
  · intro path hpath
    rcases hmade.touched path hpath with hpath | ⟨hstart, hnone⟩
    · exact h.touched_below path hpath
    · exact hbelow hstart hnone
  · exact fun path hpath => hmade.find?_of_some (h.above path hpath)
  · rw [hmade.ledger_eq]
    exact h.proper
  · rw [hmade.ledger_eq]
    exact fun key p hp => hmade.find?_of_some (h.dir key p hp)
  · rw [hmade.ledger_eq]
    intro key p hp
    obtain ⟨data, hdata, hcounts⟩ := h.metadata key p hp
    exact ⟨data, hmade.find?_of_some hdata, hcounts⟩
  · rw [hmade.ledger_eq]
    intro key p hp
    rw [hmade.shardRows_eq]
    exact h.shards key p hp
  · intro path hpath hdir
    rcases hmade.find?_eq path with hsame | ⟨hstart, -, -⟩
    · exact h.dirs path hpath (by rw [← hsame, hdir])
    · exact ⟨key, hkey, hstart⟩
  · rw [hmade.ledger_eq]
    intro path content hpath hfile
    rcases hmade.find?_eq path with hsame | ⟨-, -, hdir⟩
    · exact h.files path content hpath (by rw [← hsame, hfile])
    · cases hdir.symm.trans hfile

/-- The files after a temporary file was renamed to the next shard. -/
def Dataset.renamed (s : Dataset Row) (dir tmpPath : List String) (group : List Row) :
    Dataset Row :=
  ((s.touch tmpPath).touch tmpPath).store (dir ++ [shardName (nextShardIndex s.tree dir)])
    (.file (.parquet group))

/-- The files after a group was written and the metadata stored. -/
def Dataset.wrote (s : Dataset Row) (dir tmpPath : List String) (group : List Row)
    (data : PartitionMetadata) : Dataset Row :=
  (s.renamed dir tmpPath group).store (dir ++ [metadataFile]) (.file (.metadata data))

section Wrote

variable {dir dir' tmpPath path : List String} {group : List Row} {data : PartitionMetadata}

theorem shardName_ne_metadataFile (index : ℕ) : shardName index ≠ metadataFile := by
  intro heq
  have hname := isShardName_shardName index
  rw [heq, isShardName_metadataFile] at hname
  cases hname

theorem find?_wrote : (s.wrote dir tmpPath group data).tree.find? path =
    if path = dir ++ [metadataFile] then some (.file (.metadata data))
    else if path = dir ++ [shardName (nextShardIndex s.tree dir)] then
      some (.file (.parquet group))
    else s.tree.find? path := by
  simp [Dataset.wrote, Dataset.renamed, Dataset.store, Dataset.touch]

/-- The rows of the group come to those of its directory. -/
theorem shardRows_wrote : shardRows (s.wrote dir tmpPath group data).tree dir' =
    if dir' = dir then shardRows s.tree dir ++ group else shardRows s.tree dir' := by
  have hmetadata (name : String) (hname : isShardName name = true) :
      dir ++ [metadataFile] ≠ dir' ++ [name] := by
    intro heq
    obtain rfl := (List.append_singleton_inj.mp heq).2
    rw [isShardName_metadataFile] at hname
    cases hname
  have htree : (s.wrote dir tmpPath group data).tree =
      (s.tree.put (dir ++ [shardName (nextShardIndex s.tree dir)])
        (.file (.parquet group))).put (dir ++ [metadataFile]) (.file (.metadata data)) := rfl
  unfold shardRows
  rw [htree, gather_put_of_ne hmetadata]
  by_cases hdir : dir' = dir
  · rw [if_pos hdir, hdir,
      gather_put_of_new (isShardName_shardName _) (find?_nextShard s.tree dir)]
    rfl
  · rw [if_neg hdir]
    refine gather_put_of_ne fun name _ heq => hdir ?_
    exact (List.append_singleton_inj.mp heq).1.symm

theorem mem_touched_wrote (h : path ∈ (s.wrote dir tmpPath group data).touched) :
    path ∈ s.touched ∨ path = tmpPath ∨ ∃ name, path = dir ++ [name] := by
  rcases List.mem_cons.mp h with rfl | h
  · exact Or.inr (Or.inr ⟨_, rfl⟩)
  · rcases List.mem_cons.mp h with rfl | h
    · exact Or.inr (Or.inr ⟨_, rfl⟩)
    · rcases List.mem_cons.mp h with rfl | h
      · exact Or.inr (Or.inl rfl)
      · rcases List.mem_cons.mp h with rfl | h
        · exact Or.inr (Or.inl rfl)
        · exact Or.inl h

/-- Elsewhere than in the directory the nodes stay. -/
theorem find?_wrote_of_ne (h : ∀ name, path ≠ dir ++ [name]) :
    (s.wrote dir tmpPath group data).tree.find? path = s.tree.find? path := by
  rw [find?_wrote, if_neg (h _), if_neg (h _)]

/-- A written group that is logged keeps the invariant. -/
theorem Inv.log (h : Inv w s) (hkey : w.ProperKey key)
    (hdir : s.tree.find? (w.dirOf key) = some .dir) (hgroup : group ≠ [])
    (htmp : Below w.root tmpPath) {now : ℤ} (hcount : data.rowCount =
      (((s.ledger.find? key).map Partition.rows).getD []).length + group.length)
    (hnow : data.updatedAt = now) :
    Inv w ((s.wrote (w.dirOf key) tmpPath group data).log key group now) := by
  have hledger (key' : String) :
      ((s.wrote (w.dirOf key) tmpPath group data).log key group now).ledger.find? key' =
        if key' = key then
          some ⟨((s.ledger.find? key).map Partition.rows).getD [] ++ group, now⟩
        else s.ledger.find? key' := by
    simp [Dataset.log, Dataset.wrote, Dataset.renamed, Dataset.store, Dataset.touch]
  have hnotIn {key' name : String} (hkey' : w.ProperKey key') :
      w.dirOf key' ≠ w.dirOf key ++ [name] := by
    intro heq
    have hstart : w.dirOf key <+: w.dirOf key' := by
      rw [heq]
      exact List.prefix_append _ _
    obtain rfl := hkey.eq_of_isPrefix hkey' hstart
    rw [heq] at hstart
    have hlength := congrArg List.length heq
    rw [List.length_append, List.length_singleton] at hlength
    omega
  have hother {key' name name' : String} (hkey' : w.ProperKey key') (hne : key' ≠ key) :
      w.dirOf key' ++ [name'] ≠ w.dirOf key ++ [name] := by
    intro heq
    exact hne (hkey'.eq_of_isPrefix hkey (by rw [(List.append_singleton_inj.mp heq).1]))
  refine { touched_below := ?_, above := ?_, proper := ?_, dir := ?_, metadata := ?_,
           shards := ?_, dirs := ?_, files := ?_ }
  · intro path hpath
    have hmem : path ∈ (s.wrote (w.dirOf key) tmpPath group data).touched := hpath
    rcases mem_touched_wrote hmem with hpath | rfl | ⟨name, rfl⟩
    · exact h.touched_below path hpath
    · exact htmp
    · exact below_append hkey name
  · intro path hpath
    refine (find?_wrote_of_ne fun name heq => ?_).trans (h.above path hpath)
    rw [heq] at hpath
    have hle := hpath.length_le
    have hbelow := hkey.below.1.length_le
    rw [List.length_append, List.length_singleton] at hle
    omega
  · intro key' p hp
    rw [hledger] at hp
    split_ifs at hp with heq
    · obtain rfl := Option.some.inj hp
      rw [heq]
      exact ⟨hkey, by simp [hgroup]⟩
    · exact h.proper key' p hp
  · intro key' p hp
    rw [hledger] at hp
    split_ifs at hp with heq
    · rw [heq]
      exact (find?_wrote_of_ne fun name => hnotIn hkey).trans hdir
    · exact (find?_wrote_of_ne fun name => hnotIn (h.proper key' p hp).1).trans (h.dir key' p hp)
  · intro key' p hp
    rw [hledger] at hp
    split_ifs at hp with heq
    · obtain rfl := Option.some.inj hp
      refine ⟨data, ?_, ?_, hnow⟩
      · rw [heq]
        exact find?_wrote.trans (if_pos rfl)
      · rw [hcount, List.length_append]
    · obtain ⟨data', hdata', hcounts⟩ := h.metadata key' p hp
      refine ⟨data', ?_, hcounts⟩
      exact (find?_wrote_of_ne fun name => hother (h.proper key' p hp).1 heq).trans hdata'
  · intro key' p hp
    have hrows : shardRows ((s.wrote (w.dirOf key) tmpPath group data).log key group now).tree
        (w.dirOf key') = if w.dirOf key' = w.dirOf key then shardRows s.tree (w.dirOf key) ++ group
          else shardRows s.tree (w.dirOf key') := shardRows_wrote
    rw [hledger] at hp
    rw [hrows]
    split_ifs at hp with heq
    · obtain rfl := Option.some.inj hp
      rw [if_pos (by rw [heq])]
      exact (h.shardRows_perm hkey).append_right group
    · have hkey' := (h.proper key' p hp).1
      rw [if_neg fun hsame => heq (hkey'.eq_of_isPrefix hkey (by rw [hsame]))]
      exact h.shards key' p hp
  · intro path hpath hnode
    have hfound : (s.wrote (w.dirOf key) tmpPath group data).tree.find? path = some .dir := hnode
    rw [find?_wrote] at hfound
    split_ifs at hfound
    · cases hfound
    · cases hfound
    · exact h.dirs path hpath hfound
  · intro path content hpath hnode
    have hfound : (s.wrote (w.dirOf key) tmpPath group data).tree.find? path =
        some (.file content) := hnode
    rw [find?_wrote] at hfound
    split_ifs at hfound with hmetadata hshard
    · exact Or.inr ⟨key, _, _, (hledger key).trans (if_pos rfl), hmetadata⟩
    · exact Or.inr ⟨key, _, _, (hledger key).trans (if_pos rfl), hshard⟩
    · rcases h.files path content hpath hfound with hmanifest | ⟨key', p, name, hp, hpath'⟩
      · exact Or.inl hmanifest
      · by_cases heq : key' = key
        · exact Or.inr ⟨key', _, name, (hledger key').trans (if_pos heq), hpath'⟩
        · exact Or.inr ⟨key', p, name, (hledger key').trans ((if_neg heq).trans hp), hpath'⟩

end Wrote

section Write

variable {dir : List String} {group : List Row} {data : PartitionMetadata}
  {refuses : List String → Bool}

theorem exec_loadMetadata_none (h : s.tree.find? (dir ++ [metadataFile]) = none) :
    exec (loadMetadata dir) s = (.ok none, s) := by
  unfold loadMetadata
  rw [exec_bind_of_ok (exec_get s), h]
  rfl

theorem exec_loadMetadata_some
    (h : s.tree.find? (dir ++ [metadataFile]) = some (.file (.metadata data))) :
    exec (loadMetadata dir) s = (.ok (some data), s) := by
  unfold loadMetadata
  rw [exec_bind_of_ok (exec_get s), h]
  rfl

/-- Metadata is saved where its directory is there and no directory has its name. -/
theorem exec_saveMetadata (hdirs : ∀ path, path <+: dir → s.tree.find? path = some .dir)
    (h : s.tree.find? (dir ++ [metadataFile]) ≠ some .dir) :
    exec (saveMetadata refuses dir data) s =
      (.ok (), s.store (dir ++ [metadataFile]) (.file (.metadata data))) := by
  unfold saveMetadata
  rw [exec_bind_of_ok (exec_mkdirAll_of_dirs hdirs), exec_bind_of_ok (exec_get s)]
  cases hnode : s.tree.find? (dir ++ [metadataFile]) with
  | none => rfl
  | some node =>
    cases node with
    | dir => exact absurd hnode h
    | file content => rfl

/-- The metadata that is stored for a group counts its rows and those before. -/
theorem exec_updateMetadata {s₀ : Dataset Row} (group : List Row) (now : ℤ) (h : Inv w s₀)
    (hkey : w.ProperKey key)
    (hledger : s.ledger = s₀.ledger)
    (hdirs : ∀ path, path <+: w.dirOf key → s.tree.find? path = some .dir)
    (hsame : s.tree.find? (w.dirOf key ++ [metadataFile]) =
      s₀.tree.find? (w.dirOf key ++ [metadataFile])) :
    ∃ data, exec (w.updateMetadata now key (w.dirOf key) group) s =
        (.ok (), s.store (w.dirOf key ++ [metadataFile]) (.file (.metadata data))) ∧
      data.rowCount =
        (((s.ledger.find? key).map Partition.rows).getD []).length + group.length ∧
      data.updatedAt = now := by
  unfold updateMetadata
  cases hp : s₀.ledger.find? key with
  | none =>
    have hnone := hsame.trans (h.find?_of_new hkey hp metadataFile)
    refine ⟨⟨w.strategy.name, key, group.length, now, now⟩, ?_, ?_, rfl⟩
    · rw [exec_bind_of_ok (exec_loadMetadata_none hnone)]
      exact exec_saveMetadata hdirs (by simp [hnone])
    · rw [hledger, hp]
      simp
  | some p =>
    obtain ⟨data, hdata, hcount, -⟩ := h.metadata key p hp
    have hsome := hsame.trans hdata
    refine ⟨{ data with rowCount := data.rowCount + group.length, updatedAt := now }, ?_, ?_, rfl⟩
    · rw [exec_bind_of_ok (exec_loadMetadata_some hsome)]
      exact exec_saveMetadata hdirs (by simp [hsome])
    · rw [hledger, hp]
      simp [hcount]

/-- A group is written and can be logged, or its directory cannot be made. -/
theorem writeGroup_spec (now : ℤ) (tmpName : String) (h : Inv w s) (hkey : w.ProperKey key)
    (hgroup : group ≠ []) :
    (∃ e s', exec (w.writeGroup now tmpName key group) s = (.error e, s') ∧ Inv w s') ∨
      ∃ s', exec (w.writeGroup now tmpName key group) s = (.ok (), s') ∧
        Inv w (s'.log key group now) := by
  obtain ⟨hmade, hthere⟩ := mkdirAll_spec w.refuses (w.dirOf key) s
  unfold writeGroup
  cases hexec : exec (mkdirAll w.refuses (w.dirOf key)) s with
  | mk outcome s₁ =>
    rw [hexec] at hmade hthere
    dsimp only at hmade hthere
    have hinv := h.madeDirs hkey hmade
    cases outcome with
    | error e => exact Or.inl ⟨e, s₁, exec_bind_of_error hexec, hinv⟩
    | ok u =>
      right
      have hdirs := hthere rfl
      obtain ⟨names, hparent⟩ := hkey.parent
      have htmp : Below w.root (resolve (w.partitionDir key).dropLast ++ [tmpName]) := by
        rw [hparent, List.append_assoc]
        exact Below.append (by simp)
      have hfound (path : List String)
          (hne : path ≠ w.dirOf key ++ [shardName (nextShardIndex s₁.tree (w.dirOf key))]) :
          (s₁.renamed (w.dirOf key) (resolve (w.partitionDir key).dropLast ++ [tmpName])
            group).tree.find? path = s₁.tree.find? path := by
        simp [Dataset.renamed, Dataset.store, Dataset.touch, hne]
      have hafter (path : List String) (hpath : path <+: w.dirOf key) :
          (s₁.renamed (w.dirOf key) (resolve (w.partitionDir key).dropLast ++ [tmpName])
            group).tree.find? path = some .dir := by
        rw [hfound path fun heq => not_isPrefix_of_append (heq ▸ hpath)]
        exact hdirs path hpath
      have hmetadata := hfound (w.dirOf key ++ [metadataFile]) fun heq =>
        shardName_ne_metadataFile _ (List.append_singleton_inj.mp heq).2.symm
      have hledger : (s₁.renamed (w.dirOf key)
          (resolve (w.partitionDir key).dropLast ++ [tmpName]) group).ledger = s₁.ledger := rfl
      obtain ⟨data, hupdate, hcount, hnow⟩ :=
        exec_updateMetadata group now hinv hkey hledger hafter hmetadata
      refine ⟨_, ?_, hinv.log hkey (hdirs _ (List.prefix_refl _)) hgroup htmp hcount hnow⟩
      have hmkdir : exec (mkdirAll w.refuses (resolve (w.partitionDir key))) s =
          (.ok (), s₁) := hexec
      dsimp only
      rw [exec_bind_of_ok hmkdir, exec_bind_of_ok (exec_get s₁),
        exec_bind_of_ok (exec_modify _ _), exec_bind_of_ok (exec_modify _ _)]
      exact hupdate

end Write

end LedgerLens.Data
