import LedgerLens.Data.DatasetInvariant

/-!
# Runs of writes and prunes

Under the condition on the rows every sequence of writes and prunes keeps the dataset sound:
writes add to the partitions, and a prune takes out exactly those that are old. Two dots as an
identifier already lead out of the root.
-/

namespace LedgerLens.Data

open FileTree Raising PartitionedDatasetWriter

variable {Row : Type} {w : PartitionedDatasetWriter Row} {s s' : Dataset Row}

/-- The groups of a data frame have rows, and the keys of rows. -/
theorem groups_spec {df : List Row} {key : String} {group : List Row}
    (h : (key, group) ∈ (w.groups df).rows) :
    group ≠ [] ∧ ∃ row ∈ df, w.strategy.partitionKey w.upper row = key := by
  have hfound := ((w.groups df).find?_eq_some_iff key group).mpr h
  have hitem {row : Row} : (key, row) ∈
      (df.map fun row => (w.strategy.partitionKey w.upper row, row)) ↔
      row ∈ df ∧ w.strategy.partitionKey w.upper row = key := by
    simp only [List.mem_map, Prod.mk.injEq]
    constructor
    · rintro ⟨row', hrow', hkey, rfl⟩
      exact ⟨hrow', hkey⟩
    · rintro ⟨hrow, hkey⟩
      exact ⟨row, hrow, hkey, rfl⟩
  by_cases hrow : ∃ row ∈ df, w.strategy.partitionKey w.upper row = key
  · obtain ⟨row, hrow, hkey⟩ := hrow
    obtain ⟨rows, hrows, hmem⟩ := UniqueTable.find?_collect_append (hitem.mpr ⟨hrow, hkey⟩)
    obtain rfl := Option.some.inj (hfound.symm.trans hrows)
    exact ⟨List.ne_nil_of_mem ((hmem row).mpr (hitem.mpr ⟨hrow, hkey⟩)), row, hrow, hkey⟩
  · have hnone : (w.groups df).find? key = none :=
      UniqueTable.find?_collect_eq_none fun row hmem => hrow ⟨row, hitem.mp hmem⟩
    cases hnone.symm.trans hfound

/-- A write of proper rows keeps the invariant, also when it stops at a directory that cannot be
made. -/
theorem keeps_write (now : ℤ) (tmpName : String → String) {df : List Row}
    (hdf : ∀ row ∈ df, w.strategy.Proper w.upper row) :
    Keeps (Inv w) (w.write now tmpName df) := by
  unfold write
  split_ifs
  · exact Keeps.throw _
  · refine Keeps.foldlM_of_mem (fun result group hgroup s hs => ?_) []
    obtain ⟨hne, row, hrow, hkey⟩ := groups_spec hgroup
    rcases writeGroup_spec now (tmpName group.1) hs
      ⟨row, hdf row hrow, hkey⟩ hne with ⟨e, s', hexec, hinv⟩ | ⟨s', hexec, hinv⟩
    · rw [exec_bind_of_error hexec]
      exact hinv
    · rw [exec_bind_of_ok hexec, exec_bind_of_ok (exec_modify _ _)]
      exact hinv

/-- The dataset with another log. -/
def Dataset.withLedger (s : Dataset Row) (ledger : UniqueTable String (Partition Row)) :
    Dataset Row :=
  { s with ledger := ledger }

/-- The invariant reads the log by its keys. -/
theorem Inv.congr {ledger ledger' : UniqueTable String (Partition Row)}
    (h : Inv w (s.withLedger ledger)) (heq : ∀ key, ledger'.find? key = ledger.find? key) :
    Inv w (s.withLedger ledger') where
  touched_below := h.touched_below
  above := h.above
  proper key p hp := h.proper key p ((heq key).symm.trans hp)
  dir key p hp := h.dir key p ((heq key).symm.trans hp)
  metadata key p hp := h.metadata key p ((heq key).symm.trans hp)
  shards key p hp := h.shards key p ((heq key).symm.trans hp)
  dirs := h.dirs
  files := by
    intro path content hpath hfile
    rcases h.files path content hpath hfile with hmanifest | ⟨key, p, name, hp, hpath'⟩
    · exact Or.inl hmanifest
    · exact Or.inr ⟨key, p, name, (heq key).trans hp, hpath'⟩

/-- Removing the directory of a partition and its entry of the log keeps the invariant. -/
theorem Inv.rmtree {ledger : UniqueTable String (Partition Row)} (h : Inv w (s.withLedger ledger))
    {key : String} {p : Partition Row} (hp : ledger.find? key = some p) :
    Inv w ((s.rmtree (w.dirOf key)).withLedger (ledger.erase key)) := by
  have hkey := (h.proper key p hp).1
  have hfind (path : List String) : (s.rmtree (w.dirOf key)).tree.find? path =
      if w.dirOf key <+: path then none else s.tree.find? path := find?_removeTree
  have hother {key' : String} {p' : Partition Row} (hp' : (ledger.erase key).find? key' = some p') :
      key' ≠ key ∧ ledger.find? key' = some p' := by
    rw [UniqueTable.find?_erase] at hp'
    split_ifs at hp' with heq
    exact ⟨heq, hp'⟩
  have hchild {key' : String} (name : String) (hkey' : w.ProperKey key') (hne : key' ≠ key) :
      ¬w.dirOf key <+: w.dirOf key' ++ [name] :=
    fun hstart => hne ((dirOf_isPrefix_append_iff hkey hkey').mp hstart).symm
  refine { touched_below := ?_, above := ?_, proper := ?_, dir := ?_, metadata := ?_,
           shards := ?_, dirs := ?_, files := ?_ }
  · intro path hpath
    rcases List.mem_append.mp hpath with hpath | hpath
    · obtain ⟨-, hstart⟩ := List.mem_filter.mp hpath
      exact hkey.below.mono (List.isPrefixOf_iff_prefix.mp hstart)
    · exact h.touched_below path hpath
  · intro path hpath
    have hnot : ¬w.dirOf key <+: path := by
      intro hstart
      have hroot := hstart.trans hpath
      exact hkey.below.2 (hroot.eq_of_length (by
        have hle := hroot.length_le
        have hge := hkey.below.1.length_le
        omega))
    exact (hfind path).trans ((if_neg hnot).trans (h.above path hpath))
  · intro key' p' hp'
    exact h.proper key' p' (hother hp').2
  · intro key' p' hp'
    obtain ⟨hne, hold⟩ := hother hp'
    have hkey' := (h.proper key' p' hold).1
    have hnot : ¬w.dirOf key <+: w.dirOf key' := fun hstart =>
      hne (hkey.eq_of_isPrefix hkey' hstart).symm
    exact (hfind _).trans ((if_neg hnot).trans (h.dir key' p' hold))
  · intro key' p' hp'
    obtain ⟨hne, hold⟩ := hother hp'
    obtain ⟨data, hdata, hcounts⟩ := h.metadata key' p' hold
    have hnot := hchild metadataFile (h.proper key' p' hold).1 hne
    exact ⟨data, (hfind _).trans ((if_neg hnot).trans hdata), hcounts⟩
  · intro key' p' hp'
    obtain ⟨hne, hold⟩ := hother hp'
    have hsame : shardRows (removeTree s.tree (w.dirOf key)) (w.dirOf key') =
        shardRows s.tree (w.dirOf key') :=
      gather_removeTree fun name => hchild name (h.proper key' p' hold).1 hne
    have hperm : (shardRows s.tree (w.dirOf key')).Perm p'.rows := h.shards key' p' hold
    rw [← hsame] at hperm
    exact hperm
  · intro path hpath hdir
    have hfound := (hfind path).symm.trans hdir
    split_ifs at hfound
    exact h.dirs path hpath hfound
  · intro path content hpath hfile
    have hfound := (hfind path).symm.trans hfile
    split_ifs at hfound with hstart
    rcases h.files path content hpath hfound with hmanifest | ⟨key', p', name, hp', hpath'⟩
    · exact Or.inl hmanifest
    · have hne : key' ≠ key := by
        rintro rfl
        exact hstart (by rw [hpath']; exact List.prefix_append _ _)
      refine Or.inr ⟨key', p', name, ?_, hpath'⟩
      exact (UniqueTable.find?_erase ledger key key').trans ((if_neg hne).trans hp')

section Prune

variable {ledger : UniqueTable String (Partition Row)}

/-- Pruning one partition removes it exactly if it is old. -/
theorem exec_pruneOne (cutoff : ℤ) (h : Inv w (s.withLedger ledger)) {key : String}
    {p : Partition Row} (hp : ledger.find? key = some p) (pruned : List (List String)) :
    ∃ pruned', exec (pruneOne w.root cutoff false pruned (w.dirOf key)) s =
      (.ok pruned', if p.updatedAt < cutoff then s.rmtree (w.dirOf key) else s) := by
  obtain ⟨data, hdata, -, hupdated⟩ := h.metadata key p hp
  have hload : exec (loadMetadata (w.dirOf key)) s = (.ok (some data), s) :=
    exec_loadMetadata_some hdata
  unfold pruneOne
  rw [exec_bind_of_ok hload, ← hupdated]
  dsimp only
  by_cases hold : data.updatedAt < cutoff
  · rw [if_pos hold, if_pos hold]
    exact ⟨_, rfl⟩
  · rw [if_neg hold, if_neg hold]
    exact ⟨_, rfl⟩

/-- Pruning several partitions takes those that are old out of the log. -/
theorem inv_pruneLoop (cutoff : ℤ) (dirs : List (List String)) (hnodup : dirs.Nodup)
    (hdirs : ∀ dir ∈ dirs, ∃ key p, ledger.find? key = some p ∧ dir = w.dirOf key)
    (h : Inv w (s.withLedger ledger)) (pruned : List (List String)) :
    Inv w ((exec (dirs.foldlM (pruneOne w.root cutoff false) pruned) s).2.withLedger
      (ledger.deleteWhere fun key p =>
        decide (p.updatedAt < cutoff) && decide (w.dirOf key ∈ dirs))) := by
  induction dirs generalizing s ledger pruned with
  | nil =>
    refine h.congr fun key => ?_
    rw [UniqueTable.find?_deleteWhere]
    cases ledger.find? key <;> simp
  | cons dir dirs ih =>
    obtain ⟨key, p, hp, rfl⟩ := hdirs dir List.mem_cons_self
    obtain ⟨hnotIn, hrest⟩ := List.nodup_cons.mp hnodup
    obtain ⟨pruned', hexec⟩ := exec_pruneOne cutoff h hp pruned
    rw [List.foldlM_cons, exec_bind_of_ok hexec]
    by_cases hold : p.updatedAt < cutoff
    · rw [if_pos hold]
      have hothers : ∀ dir ∈ dirs, ∃ key' p', (ledger.erase key).find? key' = some p' ∧
          dir = w.dirOf key' := by
        intro dir hdir
        obtain ⟨key', p', hp', rfl⟩ := hdirs dir (List.mem_cons_of_mem _ hdir)
        refine ⟨key', p', ?_, rfl⟩
        rw [UniqueTable.find?_erase, if_neg, hp']
        rintro rfl
        exact hnotIn hdir
      refine (ih hrest hothers (h.rmtree hp) pruned').congr fun key' => ?_
      rw [UniqueTable.find?_deleteWhere, UniqueTable.find?_deleteWhere, UniqueTable.find?_erase]
      by_cases heq : key' = key
      · simp [heq, hp, hold]
      · rw [if_neg heq]
        cases hp' : ledger.find? key' with
        | none => rfl
        | some p' =>
          have hdiffer : w.dirOf key' ≠ w.dirOf key := fun hsame =>
            heq ((h.proper key' p' hp').1.eq_of_isPrefix (h.proper key p hp).1 (by rw [hsame]))
          simp [hdiffer]
    · rw [if_neg hold]
      have hothers : ∀ dir ∈ dirs, ∃ key' p', ledger.find? key' = some p' ∧
          dir = w.dirOf key' := fun dir hdir => hdirs dir (List.mem_cons_of_mem _ hdir)
      refine (ih hrest hothers h pruned').congr fun key' => ?_
      rw [UniqueTable.find?_deleteWhere, UniqueTable.find?_deleteWhere]
      cases hp' : ledger.find? key' with
      | none => rfl
      | some p' =>
        by_cases hsame : w.dirOf key' = w.dirOf key
        · have heq := (h.proper key' p' hp').1.eq_of_isPrefix (h.proper key p hp).1 (by rw [hsame])
          have hp'' : p' = p := Option.some.inj (hp'.symm.trans (heq ▸ hp))
          simp [hp'', hold, Option.filter_some]
        · simp [hsame]

/-- A prune keeps the invariant when the log is pruned alike. -/
theorem inv_prune (h : Inv w s) (cutoff : ℤ) :
    Inv w ((exec (prunePartitions w.root cutoff false) s).2.withLedger
      (s.ledger.deleteWhere fun _ p => p.updatedAt < cutoff)) := by
  have hroot := h.above w.root (List.prefix_refl _)
  have hexec : exec (prunePartitions w.root cutoff false) s =
      exec ((discoverPartitions s.tree w.root).foldlM (pruneOne w.root cutoff false) []) s := by
    unfold prunePartitions
    rw [exec_bind_of_ok (exec_get s), hroot]
    rfl
  rw [hexec]
  have hloop := inv_pruneLoop cutoff (discoverPartitions s.tree w.root)
    nodup_discoverPartitions (fun dir hdir => h.mem_discover_iff.mp hdir) (s := s) h []
  refine hloop.congr fun key => ?_
  rw [UniqueTable.find?_deleteWhere, UniqueTable.find?_deleteWhere]
  cases hp : s.ledger.find? key with
  | none => rfl
  | some p =>
    have hmem := h.mem_discover_iff.mpr ⟨key, p, hp, rfl⟩
    simp [hmem]

/-- Loading metadata changes nothing. -/
theorem exec_loadMetadata (dir : List String) (s : Dataset Row) :
    (exec (loadMetadata dir) s).2 = s := by
  unfold loadMetadata
  rw [exec_bind_of_ok (exec_get s)]
  cases s.tree.find? (dir ++ [metadataFile]) with
  | none => rfl
  | some node =>
    cases node with
    | dir => rfl
    | file content => cases content <;> rfl

/-- What loading metadata and removing directories keep, a prune keeps. -/
theorem keeps_prune {P : Dataset Row → Prop} {root : List String} {dryRun : Bool}
    (hrmtree : dryRun = false → ∀ s dir, P s → P (s.rmtree dir)) (cutoff : ℤ) :
    Keeps P (prunePartitions root cutoff dryRun) := by
  have hload (dir : List String) : Keeps P (loadMetadata dir) := by
    intro s hs
    rwa [exec_loadMetadata]
  have hone (pruned : List (List String)) (dir : List String) :
      Keeps P (pruneOne root cutoff dryRun pruned dir) := by
    refine (hload dir).bind fun existing => ?_
    cases existing with
    | none => exact Keeps.pure _
    | some data =>
      dsimp only
      split_ifs with hold hdry
      · exact Keeps.pure _
      · refine (Keeps.modify fun s hs => ?_).bind fun _ => Keeps.pure _
        exact hrmtree (by simpa using hdry) s dir hs
      · exact Keeps.pure _
  unfold prunePartitions
  refine Keeps.get.bind fun s => ?_
  split_ifs
  · exact Keeps.throw _
  · exact Keeps.foldlM hone _ _

end Prune

/-- The condition on a call: its rows are proper. -/
def ProperCall (w : PartitionedDatasetWriter Row) : DatasetCall Row → Prop
  | .write _ _ df => ∀ row ∈ df, w.strategy.Proper w.upper row
  | .prune _ _ => True

instance (w : PartitionedDatasetWriter Row) : ∀ call, Decidable (ProperCall w call)
  | .write _ _ df => inferInstanceAs (Decidable (∀ row ∈ df, _))
  | .prune _ _ => inferInstanceAs (Decidable True)

/-- A call with proper rows keeps the invariant. -/
theorem Inv.step (h : Inv w s) {call : DatasetCall Row} (hcall : ProperCall w call) :
    Inv w (w.step s call) := by
  cases call with
  | write now tmpName df => exact keeps_write now tmpName hcall s h
  | prune cutoff dryRun =>
    cases dryRun with
    | true =>
      have hsame : (exec (prunePartitions w.root cutoff true) s).2 = s :=
        keeps_prune (P := fun s' => s' = s) (fun hfalse => by cases hfalse) cutoff s rfl
      have hstep : w.step s (.prune cutoff true) = s := hsame
      rwa [hstep]
    | false =>
      have hledger : (exec (prunePartitions w.root cutoff false) s).2.ledger = s.ledger :=
        keeps_prune (P := fun s' => s'.ledger = s.ledger) (fun _ _ _ hs => hs) cutoff s rfl
      have hinv := inv_prune h cutoff
      rw [← hledger] at hinv
      exact hinv

/-- A new dataset keeps the invariant. -/
theorem inv_new (fresh : FreshRoot Row w.root) : Inv w (w.new fresh) where
  touched_below := by
    intro path hpath
    rw [List.mem_singleton.mp hpath]
    exact Below.append (by simp)
  above := by
    intro path hpath
    have hne : path ≠ w.root ++ [manifestFile] := by
      rintro rfl
      exact not_isPrefix_of_append hpath
    refine (UniqueTable.find?_put fresh.tree _ path _).trans ((if_neg hne).trans ?_)
    exact fresh.find?_above path hpath
  proper key p hp := by cases hp
  dir key p hp := by cases hp
  metadata key p hp := by cases hp
  shards key p hp := by cases hp
  dirs := by
    intro path hpath hdir
    have hfound := (UniqueTable.find?_put fresh.tree _ path _).symm.trans hdir
    split_ifs at hfound
    · cases hfound
    · cases (fresh.find?_below path hpath).symm.trans hfound
  files := by
    intro path content hpath hfile
    have hfound := (UniqueTable.find?_put fresh.tree _ path _).symm.trans hfile
    split_ifs at hfound with heq
    · exact Or.inl heq
    · cases (fresh.find?_below path hpath).symm.trans hfound

/-- In every run of writes and prunes whose rows are proper, every state is sound. -/
theorem always_sound (w : PartitionedDatasetWriter Row) (fresh : FreshRoot Row w.root)
    (calls : List (DatasetCall Row))
    (hcalls : Transition.Meets w.step (fun _ call => ProperCall w call) (w.new fresh) calls) :
    Transition.Always w.step (Sound w) (w.new fresh) calls :=
  Transition.always_of_meets (Inv w) (fun _ h => h.sound) (fun _ _ h hcall => h.step hcall)
    (inv_new fresh) hcalls

section Concrete

/-- The file tree that has a root and nothing else. -/
def FreshRoot.bare (Row : Type) (root : List String) : FreshRoot Row root where
  tree := {
    rows := root.inits.map fun path => (path, .dir)
    nodup := by
      rw [List.map_map]
      have hid : (Prod.fst ∘ fun path => (path, (FileNode.dir : FileNode (Content Row)))) =
          (id : List String → List String) := rfl
      rw [hid, List.map_id]
      induction root with
      | nil => simp
      | cons name root ih =>
        rw [List.inits_cons, List.nodup_cons]
        exact ⟨by simp, ih.map fun _ _ heq => (List.cons.inj heq).2⟩ }
  find?_above := by
    intro path hpath
    rw [UniqueTable.find?_eq_some_iff]
    exact List.mem_map.mpr ⟨path, (List.mem_inits path root).mpr hpath, rfl⟩
  find?_below := by
    rintro path ⟨hpath, hne⟩
    rw [UniqueTable.find?_eq_none_iff]
    intro hmem
    obtain ⟨row, hrow, rfl⟩ := List.mem_map.mp hmem
    obtain ⟨path, habove, rfl⟩ := List.mem_map.mp hrow
    have hstart := (List.mem_inits path root).mp habove
    exact hne (hstart.eq_of_length (Nat.le_antisymm hstart.length_le hpath.length_le))

/-- A writer of pairs, all of one month. -/
def pairWriter (includeTime : Bool) : PartitionedDatasetWriter String where
  root := ["data", "partitioned"]
  root_resolved := by decide
  strategy := .pair {
    pairColumn := id
    includeTime := includeTime
    timestampColumn := fun _ => ⟨2024, 6, 1, 0, by decide, by decide⟩ }
  upper := id
  refuses := fun _ => false

/-- Two pairs are written and then pruned. -/
theorem always_sound_pairs : Transition.Always (pairWriter false).step (Sound (pairWriter false))
    ((pairWriter false).new (FreshRoot.bare String ["data", "partitioned"]))
    [.write 5 (fun _ => "tmp.parquet.tmp") ["XLM/USDC", "BTC", "XLM/USDC"],
      .prune 10 false] :=
  always_sound (pairWriter false) (FreshRoot.bare String ["data", "partitioned"]) _
    (by decide +kernel)

/-- The pair of two dots is written to the parent of the root. -/
theorem not_always_sound_dots : ¬Transition.Always (pairWriter false).step
    (Sound (pairWriter false))
    ((pairWriter false).new (FreshRoot.bare String ["data", "partitioned"]))
    [.write 5 (fun _ => "tmp.parquet.tmp") [".."]] := by
  rintro ⟨-, hsound⟩
  have htouched : ["data", "data_00000.parquet"] ∈ ((pairWriter false).step
      ((pairWriter false).new (FreshRoot.bare String ["data", "partitioned"]))
      (.write 5 (fun _ => "tmp.parquet.tmp") [".."])).touched := by decide +kernel
  exact absurd (hsound.below _ htouched) (by decide)

/-- The empty pair is written to the root itself, and pruning it removes the other pairs. -/
example : (((pairWriter false).step ((pairWriter false).step ((pairWriter false).step
    ((pairWriter false).new (FreshRoot.bare String ["data", "partitioned"]))
    (.write 5 (fun _ => "tmp.parquet.tmp") [""]))
    (.write 20 (fun _ => "tmp.parquet.tmp") ["BTC"]))
    (.prune 10 false)).tree.find? ["data", "partitioned", "BTC"]).isNone := by decide +kernel

end Concrete

end LedgerLens.Data
