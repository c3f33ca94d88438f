import LedgerLens.Data.DatasetRuns

/-!
# Reads with filters

A read can be given filters on the key columns that the strategy injects. They are not evaluated on
the columns but on the metadata of a partition and, for a name that is not in it, on the path of the
partition. This file shows for which rows and filters this is the same: a path of one part is the
column, and a path of more parts is none of its columns.
-/

namespace LedgerLens.Data

open FileTree Raising PartitionedDatasetWriter

/-- The value of a filter. -/
inductive FilterValue
  /-- One text. -/
  | one (value : String)
  /-- A list, tuple or set of texts. -/
  | many (values : List String)

/-- `(column, op, value)`. -/
structure PartitionFilter where
  /-- The column. -/
  column : String
  /-- The operator. -/
  op : String
  /-- The value. -/
  value : FilterValue

/-- The keys of `PartitionMetadata.to_dict`. -/
def metadataColumns : List String :=
  ["strategy_name", "strategy_params", "partition_key", "schema_hash", "row_count", "created_at",
    "updated_at"]

/-- The operators that are supported. -/
def filterOps : List String := ["==", "!=", "in", "not in"]

/-- `PartitionedDatasetReader`, with the texts that the language makes of its values. -/
structure PartitionedDatasetReader where
  /-- The resolved path of the root. -/
  root : List String
  /-- `str` of an entry of the metadata. -/
  metadataText : PartitionMetadata → String → String
  /-- `str` of a list. -/
  listText : List String → String

namespace PartitionedDatasetReader

variable {Row : Type} (r : PartitionedDatasetReader)

/-- `str(value)`. -/
def valueText : FilterValue → String
  | .one value => value
  | .many values => r.listText values

/-- `[str(v) for v in vals]`. -/
def valueTexts : FilterValue → List String
  | .one value => [value]
  | .many values => values

/-- One round of `_row_matches_filters`: whether a cell passes a filter. -/
def passes (f : PartitionFilter) (cell : String) : Except DatasetError Bool :=
  if f.op = "==" then .ok (cell = r.valueText f.value)
  else if f.op = "!=" then .ok (cell ≠ r.valueText f.value)
  else if f.op = "in" then .ok (cell ∈ valueTexts f.value)
  else if f.op = "not in" then .ok (cell ∉ valueTexts f.value)
  else .error .valueError

/-- `_row_matches_filters`. -/
def rowMatchesFilters (row : String → Option String) : List PartitionFilter →
    Except DatasetError Bool
  | [] => .ok true
  | f :: filters => do
    let cell := (row f.column).getD ((row "_partition_key").getD "")
    if ← r.passes f cell then rowMatchesFilters row filters else return false

/-- `str` of a relative path. -/
def relText (rel : List String) : String := if rel = [] then "." else "/".intercalate rel

/-- `rel.replace("\\", "/").split("/")`. -/
def relParts (rel : List String) : List String :=
  splitPath ((relText rel).map fun ch => if ch = '\\' then '/' else ch)

/-- The dictionary that `_apply_filters` makes of a partition. -/
def combined (existing : Option PartitionMetadata) (rel : List String) (column : String) :
    Option String :=
  if column = "_partition_key" then some (relText rel)
  else if column = "_parts" then some (r.listText (relParts rel))
  else if column ∈ metadataColumns then existing.map fun data => r.metadataText data column
  else none

/-- `_apply_filters`. -/
def applyFilters (partitionDirs : List (List String)) (filters : List PartitionFilter) :
    DatasetProgram Row (List (List String)) :=
  partitionDirs.foldlM (fun matched dir => do
    let existing ← loadMetadata dir
    let rel := dir.drop r.root.length
    if ← Raising.ofExcept (r.rowMatchesFilters (r.combined existing rel) filters) then
      return matched ++ [dir]
    else return matched) []

/-- The rows of partitions, in the order of their paths. -/
def readPartitions (tree : FileTree (Content Row)) (partitionDirs : List (List String)) :
    List Row :=
  (partitionDirs.insertionSort (· ≤ ·)).flatMap (readPartition tree)

/-- `read`. -/
def read (filters : List PartitionFilter) : DatasetProgram Row (List Row) := do
  let s ← get
  if filters = [] then return readPartitions s.tree (discoverPartitions s.tree r.root)
  else do
    let partitionDirs ← r.applyFilters (discoverPartitions s.tree r.root) filters
    return readPartitions s.tree partitionDirs

end PartitionedDatasetReader

section Columns

variable {Row : Type}

/-- The columns of `add_partition_columns` beyond year and month. -/
def Period.injected (ts : Timestamp) : Period → List (String × String)
  | .year => []
  | .month => []
  | .day => [("day", padded 2 ts.day)]
  | .hour => [("day", padded 2 ts.day), ("hour", padded 2 ts.hour)]

/-- The names of these columns. -/
def Period.columns : Period → List String
  | .year => []
  | .month => []
  | .day => ["day"]
  | .hour => ["day", "hour"]

/-- The cells of a row in the columns of `add_partition_columns`. -/
def PartitionStrategy.injected (upper : String → String) (row : Row) :
    PartitionStrategy Row → List (String × String)
  | .time s => [("year", padded 0 (s.timestampColumn row).year),
      ("month", padded 2 (s.timestampColumn row).month)] ++
        s.period.injected (s.timestampColumn row)
  | .pair s => [("pair_key", safePathComponent (s.pairColumn row))]
  | .wallet s => [("wallet_bucket", safePathComponent
      (upper (String.ofList ((s.walletColumn row).toList.take s.prefixLength))))]

/-- The names of the columns of `add_partition_columns`. -/
def PartitionStrategy.keyColumns : PartitionStrategy Row → List String
  | .time s => ["year", "month"] ++ s.period.columns
  | .pair _ => ["pair_key"]
  | .wallet _ => ["wallet_bucket"]

/-- The rows that were written and not pruned since. -/
def Dataset.writtenRows (s : Dataset Row) : List Row :=
  s.ledger.rows.flatMap fun partition => partition.2.rows

/-- The path of a row's partition below the root. -/
def PartitionedDatasetWriter.pathText (w : PartitionedDatasetWriter Row) (row : Row) : String :=
  "/".intercalate (w.strategy.pathParts w.upper row)

/-- A row satisfies filters on its key columns. -/
def Satisfies (r : PartitionedDatasetReader) (w : PartitionedDatasetWriter Row)
    (filters : List PartitionFilter) (row : Row) : Prop :=
  ∀ f ∈ filters, ∃ cell ∈ (w.strategy.injected w.upper row).lookup f.column,
    r.passes f cell = .ok true

instance (r : PartitionedDatasetReader) (w : PartitionedDatasetWriter Row)
    (filters : List PartitionFilter) (row : Row) : Decidable (Satisfies r w filters row) :=
  inferInstanceAs (Decidable (∀ f ∈ filters,
    ∃ cell ∈ (w.strategy.injected w.upper row).lookup f.column, r.passes f cell = .ok true))

/-- A text, in place of every cell, passes filters. -/
def AllPass (r : PartitionedDatasetReader) (filters : List PartitionFilter) (text : String) :
    Prop :=
  ∀ f ∈ filters, r.passes f text = .ok true

instance (r : PartitionedDatasetReader) (filters : List PartitionFilter) (text : String) :
    Decidable (AllPass r filters text) :=
  inferInstanceAs (Decidable (∀ f ∈ filters, r.passes f text = .ok true))

/-- Filters have operators that are supported, and are on the key columns of a strategy. -/
def OnKeyColumns (s : PartitionStrategy Row) (filters : List PartitionFilter) : Prop :=
  ∀ f ∈ filters, f.op ∈ filterOps ∧ f.column ∈ s.keyColumns

end Columns

section Matching

variable {Row : Type} {r : PartitionedDatasetReader} {filters : List PartitionFilter}

theorem exists_passes {f : PartitionFilter} (h : f.op ∈ filterOps) (cell : String) :
    ∃ b, r.passes f cell = .ok b := by
  unfold PartitionedDatasetReader.passes
  simp only [filterOps, List.mem_cons, List.not_mem_nil, or_false] at h
  split_ifs with heq hne hin hnotIn
  · exact ⟨_, rfl⟩
  · exact ⟨_, rfl⟩
  · exact ⟨_, rfl⟩
  · exact ⟨_, rfl⟩
  · exact absurd h (by simp [heq, hne, hin, hnotIn])

theorem allPass_cons {f : PartitionFilter} {text : String} :
    AllPass r (f :: filters) text ↔ r.passes f text = .ok true ∧ AllPass r filters text :=
  List.forall_mem_cons

/-- Filters on columns that a partition does not know are filters on its path. -/
theorem rowMatchesFilters_eq {row : String → Option String} {text : String}
    (hops : ∀ f ∈ filters, f.op ∈ filterOps) (hcolumns : ∀ f ∈ filters, row f.column = none)
    (htext : row "_partition_key" = some text) :
    r.rowMatchesFilters row filters = .ok (decide (AllPass r filters text)) := by
  induction filters with
  | nil => rfl
  | cons f filters ih =>
    have hcell : (row f.column).getD ((row "_partition_key").getD "") = text := by
      rw [hcolumns f List.mem_cons_self, htext]
      rfl
    obtain ⟨b, hb⟩ := exists_passes (hops f List.mem_cons_self) text (r := r)
    have hrest := ih (fun g hg => hops g (List.mem_cons_of_mem _ hg))
      (fun g hg => hcolumns g (List.mem_cons_of_mem _ hg))
    unfold PartitionedDatasetReader.rowMatchesFilters
    simp only [hcell, hb, hrest, bind, Except.bind, allPass_cons]
    cases b with
    | true => simp
    | false => simp [pure, Except.pure]

/-- The key columns are no entries of what a partition knows. -/
theorem combined_eq_none {s : PartitionStrategy Row} {column : String}
    (h : column ∈ s.keyColumns) (existing : Option PartitionMetadata) (rel : List String) :
    r.combined existing rel column = none := by
  have hnames : column ∈ ["year", "month", "day", "hour", "pair_key", "wallet_bucket"] := by
    cases s with
    | time s =>
      have hperiod : s.period.columns ⊆ ["day", "hour"] := by cases s.period <;> decide
      rcases List.mem_append.mp h with h | h
      · exact List.mem_append_left _ h
      · exact List.mem_append_right ["year", "month"] (List.mem_append_left _ (hperiod h))
    | pair s =>
      obtain rfl := List.mem_singleton.mp h
      decide
    | wallet s =>
      obtain rfl := List.mem_singleton.mp h
      decide
  unfold PartitionedDatasetReader.combined
  simp only [List.mem_cons, List.not_mem_nil, or_false] at hnames
  obtain rfl | rfl | rfl | rfl | rfl | rfl := hnames <;> rfl

end Matching

section Read

variable {Row : Type} {w : PartitionedDatasetWriter Row} {r : PartitionedDatasetReader}
  {filters : List PartitionFilter} {s : Dataset Row}

/-- Filtering partitions whose metadata can be read. -/
theorem exec_applyFilters {dirs : List (List String)} (hfilters : OnKeyColumns w.strategy filters)
    (hdirs : ∀ dir ∈ dirs, ∃ data,
      s.tree.find? (dir ++ [metadataFile]) = some (.file (.metadata data))) :
    exec (r.applyFilters dirs filters) s = (.ok (dirs.filter fun dir =>
      AllPass r filters (PartitionedDatasetReader.relText (dir.drop r.root.length))), s) := by
  have hloop (matched : List (List String)) :
      exec (dirs.foldlM (fun matched dir => do
          let existing ← loadMetadata dir
          let rel := dir.drop r.root.length
          if ← Raising.ofExcept (r.rowMatchesFilters (r.combined existing rel) filters) then
            return matched ++ [dir]
          else return matched) matched : DatasetProgram Row (List (List String))) s =
        (.ok (matched ++ dirs.filter fun dir =>
          AllPass r filters (PartitionedDatasetReader.relText (dir.drop r.root.length))), s) := by
    induction dirs generalizing matched with
    | nil => simp
    | cons dir dirs ih =>
      obtain ⟨data, hdata⟩ := hdirs dir List.mem_cons_self
      have hmatches : r.rowMatchesFilters (r.combined (some data) (dir.drop r.root.length))
          filters = .ok (decide (AllPass r filters
            (PartitionedDatasetReader.relText (dir.drop r.root.length)))) :=
        rowMatchesFilters_eq (fun f hf => (hfilters f hf).1)
          (fun f hf => combined_eq_none (hfilters f hf).2 _ _) rfl
      have hround : exec (do
          let existing ← loadMetadata dir
          let rel := dir.drop r.root.length
          if ← Raising.ofExcept (r.rowMatchesFilters (r.combined existing rel) filters) then
            return matched ++ [dir]
          else return matched : DatasetProgram Row (List (List String))) s =
          (.ok (matched ++ [dir].filter fun dir =>
            AllPass r filters (PartitionedDatasetReader.relText (dir.drop r.root.length))), s) := by
        rw [exec_bind_of_ok (exec_loadMetadata_some hdata)]
        dsimp only
        rw [hmatches, exec_bind_of_ok (exec_ofExcept _ _), List.filter_singleton]
        split_ifs with hpasses
        · rw [hpasses]
          rfl
        · rw [Bool.not_eq_true] at hpasses
          rw [hpasses, cond_false, List.append_nil]
          rfl
      rw [List.foldlM_cons, exec_bind_of_ok hround,
        ih fun d hd => hdirs d (List.mem_cons_of_mem _ hd), List.append_assoc, ← List.filter_append]
      rfl
  exact hloop []

/-- The rows of a partition are proper, and their key is its key. -/
def Filed (w : PartitionedDatasetWriter Row) (s : Dataset Row) : Prop :=
  ∀ key p, s.ledger.find? key = some p → ∀ row ∈ p.rows,
    w.strategy.Proper w.upper row ∧ w.strategy.partitionKey w.upper row = key

/-- The partition of a proper row has the row's path. -/
theorem relText_dirOf {row : Row} (h : w.strategy.Proper w.upper row) :
    PartitionedDatasetReader.relText
      ((w.dirOf (w.strategy.partitionKey w.upper row)).drop w.root.length) = w.pathText row := by
  unfold PartitionedDatasetReader.relText
  rw [dirOf_eq h, List.drop_left, if_neg (pathParts_proper h).1]
  rfl

/-- Filtering groups by what their members have in common. -/
theorem filter_flatMap_of_forall {α β : Type*} {xs : List α} {f : α → List β} {p : α → Bool}
    {q : β → Bool} (h : ∀ x ∈ xs, ∀ y ∈ f x, q y = p x) :
    (xs.flatMap f).filter q = (xs.filter p).flatMap f := by
  induction xs with
  | nil => rfl
  | cons x xs ih =>
    have hrest := ih fun x hx => h x (List.mem_cons_of_mem _ hx)
    rw [List.flatMap_cons, List.filter_append, hrest]
    have hfirst := h x List.mem_cons_self
    cases hx : p x with
    | true =>
      rw [List.filter_cons_of_pos hx, List.flatMap_cons,
        List.filter_eq_self.mpr fun y hy => (hfirst y hy).trans hx]
    | false =>
      rw [List.filter_cons_of_neg (by rw [hx]; decide), List.filter_eq_nil_iff.mpr fun y hy => by
        rw [hfirst y hy, hx]
        decide, List.nil_append]

/-- A read returns the rows whose partitions have a path that passes the filters. -/
theorem exec_read (h : Inv w s) (hfiled : Filed w s) (hroot : r.root = w.root)
    (hfilters : OnKeyColumns w.strategy filters) :
    ∃ rows, exec (r.read filters) s = (.ok rows, s) ∧
      rows.Perm (s.writtenRows.filter fun row => AllPass r filters (w.pathText row)) := by
  have hread : exec (r.read filters) s =
      (.ok (PartitionedDatasetReader.readPartitions s.tree
        ((discoverPartitions s.tree w.root).filter fun dir =>
          AllPass r filters (PartitionedDatasetReader.relText (dir.drop w.root.length)))), s) := by
    unfold PartitionedDatasetReader.read
    rw [exec_bind_of_ok (exec_get s), ← hroot]
    split_ifs with hnone
    · subst hnone
      have hall (text : String) : AllPass r [] text := fun f hf => absurd hf List.not_mem_nil
      rw [List.filter_eq_self.mpr fun dir _ => decide_eq_true (hall _)]
      rfl
    · have hdirs (dir : List String) (hdir : dir ∈ discoverPartitions s.tree r.root) : ∃ data,
          s.tree.find? (dir ++ [metadataFile]) = some (.file (.metadata data)) := by
        rw [hroot] at hdir
        obtain ⟨key, p, hp, rfl⟩ := h.mem_discover_iff.mp hdir
        obtain ⟨data, hdata, -⟩ := h.metadata key p hp
        exact ⟨data, hdata⟩
      rw [exec_bind_of_ok (exec_applyFilters hfilters hdirs)]
      rfl
  refine ⟨_, hread, ?_⟩
  refine ((List.perm_insertionSort _ _).flatMap fun dir _ => readPartition_perm s.tree dir).trans ?_
  refine ((h.discover_perm.filter _).flatMap_right _).trans ?_
  rw [List.filter_map, List.flatMap_map]
  unfold Dataset.writtenRows
  have hrows {partition : String × Partition Row} (hmem : partition ∈ s.ledger.rows) :
      s.ledger.find? partition.1 = some partition.2 :=
    (s.ledger.find?_eq_some_iff partition.1 partition.2).mpr hmem
  rw [filter_flatMap_of_forall (p := fun partition => decide (AllPass r filters
    (PartitionedDatasetReader.relText ((w.dirOf partition.1).drop w.root.length))))]
  · exact List.Perm.flatMap_left _ fun partition hmem =>
      h.shards _ _ (hrows (List.mem_of_mem_filter hmem))
  · intro partition hmem row hrow
    obtain ⟨hproper, hkey⟩ := hfiled _ _ (hrows hmem) row hrow
    rw [← hkey, relText_dirOf hproper]

end Read

section Write

variable {Row : Type} {w : PartitionedDatasetWriter Row} {s : Dataset Row}

/-- Writing the files of a group leaves the log as it is. -/
theorem ledger_writeGroup (now : ℤ) (tmpName key : String) (group : List Row) (s : Dataset Row) :
    (exec (w.writeGroup now tmpName key group) s).2.ledger = s.ledger := by
  have hmkdirAll (path : List String) :
      Keeps (fun s' : Dataset Row => s'.ledger = s.ledger) (mkdirAll w.refuses path) :=
    fun s' hs' => (mkdirAll_spec w.refuses path s').1.ledger_eq.trans hs'
  have hmodify (f : Dataset Row → Dataset Row) (hf : ∀ s', (f s').ledger = s'.ledger) :
      Keeps (fun s' : Dataset Row => s'.ledger = s.ledger)
        (modify f : DatasetProgram Row PUnit) :=
    Keeps.modify fun s' hs' => (hf s').trans hs'
  have hload (dir : List String) :
      Keeps (fun s' : Dataset Row => s'.ledger = s.ledger) (loadMetadata dir) := by
    intro s' hs'
    rwa [exec_loadMetadata]
  have hsave (dir : List String) (data : PartitionMetadata) :
      Keeps (fun s' : Dataset Row => s'.ledger = s.ledger) (saveMetadata w.refuses dir data) := by
    refine (hmkdirAll dir).bind fun _ => Keeps.get.bind fun s' => ?_
    split
    · exact Keeps.throw _
    · exact Keeps.modify fun _ hs => hs
  have hwrite : Keeps (fun s' : Dataset Row => s'.ledger = s.ledger)
      (w.writeGroup now tmpName key group) := by
    unfold writeGroup
    refine (hmkdirAll _).bind fun _ => Keeps.get.bind fun s' => ?_
    dsimp only
    refine Keeps.bind (hmodify _ ?_) fun _ => Keeps.bind (hmodify _ ?_) fun _ => ?_
    · exact fun _ => rfl
    · exact fun _ => rfl
    · refine (hload _).bind fun existing => ?_
      cases existing with
      | none => exact hsave _ _
      | some data => exact hsave _ _
  exact hwrite s rfl

/-- The rows of a group are rows of the data frame with its key. -/
theorem mem_groups {df : List Row} {key : String} {group : List Row}
    (h : (key, group) ∈ (w.groups df).rows) {row : Row} (hrow : row ∈ group) :
    row ∈ df ∧ w.strategy.partitionKey w.upper row = key := by
  have hfound := ((w.groups df).find?_eq_some_iff key group).mpr h
  obtain ⟨-, first, hfirst, hkey⟩ := groups_spec h
  have hitem : (key, first) ∈ df.map fun row => (w.strategy.partitionKey w.upper row, row) :=
    List.mem_map.mpr ⟨first, hfirst, by rw [hkey]⟩
  obtain ⟨rows, hrows, hmem⟩ := UniqueTable.find?_collect_append hitem
  obtain rfl := Option.some.inj (hfound.symm.trans hrows)
  obtain ⟨row', hrow', heq⟩ := List.mem_map.mp ((hmem row).mp hrow)
  obtain ⟨rfl, rfl⟩ := Prod.mk.inj heq
  exact ⟨hrow', rfl⟩

/-- A group that is logged under its key. -/
theorem Filed.log (h : Filed w s) {key : String} {group : List Row} (now : ℤ)
    (hgroup : ∀ row ∈ group, w.strategy.Proper w.upper row ∧
      w.strategy.partitionKey w.upper row = key) : Filed w (s.log key group now) := by
  intro key' p hp row hrow
  rw [Dataset.log, UniqueTable.find?_put] at hp
  split_ifs at hp with heq
  · obtain rfl := Option.some.inj hp
    rw [heq]
    rcases List.mem_append.mp hrow with hold | hnew
    · cases hfound : s.ledger.find? key with
      | none =>
        rw [hfound] at hold
        exact absurd hold List.not_mem_nil
      | some p =>
        rw [hfound] at hold
        exact h key p hfound row hold
    · exact hgroup row hnew
  · exact h key' p hp row hrow

/-- A write of proper rows files them under their keys, also when it stops half way. -/
theorem keeps_filed (now : ℤ) (tmpName : String → String) {df : List Row}
    (hdf : ∀ row ∈ df, w.strategy.Proper w.upper row) :
    Keeps (Filed w) (w.write now tmpName df) := by
  unfold write
  split_ifs
  · exact Keeps.throw _
  · refine Keeps.foldlM_of_mem (fun result group hgroup => ?_) []
    refine Keeps.bind (fun s hs => ?_) fun _ => Keeps.bind (Keeps.modify fun s hs => ?_) fun _ => ?_
    · intro key p hp
      rw [ledger_writeGroup] at hp
      exact hs key p hp
    · refine hs.log now fun row hrow => ?_
      obtain ⟨hmem, hkey⟩ := mem_groups hgroup hrow
      exact ⟨hdf row hmem, hkey⟩
    · exact Keeps.pure _

theorem Filed.step (h : Filed w s) {call : DatasetCall Row} (hcall : ProperCall w call) :
    Filed w (w.step s call) := by
  cases call with
  | write now tmpName df => exact keeps_filed now tmpName hcall s h
  | prune cutoff dryRun =>
    have hledger : (exec (prunePartitions w.root cutoff dryRun) s).2.ledger = s.ledger :=
      keeps_prune (P := fun s' => s'.ledger = s.ledger) (fun _ _ _ hs => hs) cutoff s rfl
    intro key p hp
    cases dryRun with
    | true =>
      have hsame : (w.step s (.prune cutoff true)).ledger = s.ledger := hledger
      rw [hsame] at hp
      exact h key p hp
    | false =>
      have hpruned : (w.step s (.prune cutoff false)).ledger =
          (exec (prunePartitions w.root cutoff false) s).2.ledger.deleteWhere
            fun _ p => p.updatedAt < cutoff := rfl
      rw [hpruned, hledger, UniqueTable.find?_deleteWhere] at hp
      exact h key p (Option.filter_eq_some_iff.mp hp).1

/-- A write that returns has written its data frame. -/
theorem writtenRows_write {s' : Dataset Row} {now : ℤ} {tmpName : String → String}
    {df : List Row} {result : List (String × ℕ)}
    (h : exec (w.write now tmpName df) s = (.ok result, s')) :
    s'.writtenRows.Perm (s.writtenRows ++ df) := by
  have hloop (groups : List (String × List Row)) (result result' : List (String × ℕ))
      (s s' : Dataset Row)
      (h : exec (groups.foldlM (fun result group => do
        w.writeGroup now (tmpName group.1) group.1 group.2
        modify fun s => s.log group.1 group.2 now
        return result ++ [(group.1, group.2.length)]) result) s = (.ok result', s')) :
      s'.writtenRows.Perm (s.writtenRows ++ groups.flatMap Prod.snd) := by
    induction groups generalizing result s with
    | nil =>
      obtain ⟨-, rfl⟩ := Prod.mk.inj h
      rw [List.flatMap_nil, List.append_nil]
    | cons group groups ih =>
      rw [List.foldlM_cons] at h
      obtain ⟨logged, s₁, hgroup, hrest⟩ := exec_bind_eq_ok_iff.mp h
      obtain ⟨_, s₂, hfiles, hlog⟩ := exec_bind_eq_ok_iff.mp hgroup
      obtain ⟨_, s₃, hmodify, hreturn⟩ := exec_bind_eq_ok_iff.mp hlog
      obtain ⟨-, rfl⟩ := Prod.mk.inj hmodify
      obtain ⟨-, rfl⟩ := Prod.mk.inj hreturn
      have hledger := ledger_writeGroup (w := w) now (tmpName group.1) group.1 group.2 s
      rw [hfiles] at hledger
      have hlogged : (s₂.log group.1 group.2 now).writtenRows.Perm
          (s.writtenRows ++ group.2) := by
        unfold Dataset.writtenRows Dataset.log
        rw [← hledger]
        exact UniqueTable.perm_flatMap_put rfl
      refine (ih _ _ hrest).trans ?_
      rw [List.flatMap_cons, ← List.append_assoc]
      exact hlogged.append_right _
  unfold write at h
  split_ifs at h
  · cases (Prod.mk.inj h).1
  · refine (hloop _ _ _ _ _ h).trans (List.Perm.append_left _ ?_)
    have hgroups := UniqueTable.flatMap_collect_perm
      (df.map fun row => (w.strategy.partitionKey w.upper row, row))
    rwa [List.map_map, show (Prod.snd ∘ fun row => (w.strategy.partitionKey w.upper row, row)) =
      (id : Row → Row) from rfl, List.map_id] at hgroups

end Write

section Runs

variable {Row : Type}

/-- Two tests that keep the same elements of a list agree on it. -/
theorem filter_perm_filter_iff {xs : List Row} {p q : Row → Prop} [DecidablePred p]
    [DecidablePred q] :
    (xs.filter fun x => p x).Perm (xs.filter fun x => q x) ↔ ∀ x ∈ xs, (p x ↔ q x) := by
  constructor
  · intro hperm x hx
    have hmem := hperm.mem_iff (a := x)
    simpa [hx] using hmem
  · intro hsame
    rw [List.filter_congr fun x hx => decide_eq_decide.mpr (hsame x hx)]

/-- After every run a read with filters returns the rows whose key columns satisfy them exactly if,
for every row, the path of its partition passes the filters just when its key columns do. -/
theorem read_perm_iff (w : PartitionedDatasetWriter Row) (fresh : FreshRoot Row w.root)
    (calls : List (DatasetCall Row)) (r : PartitionedDatasetReader) (hroot : r.root = w.root)
    (hcalls : Transition.Meets w.step (fun _ call => ProperCall w call) (w.new fresh) calls)
    (filters : List PartitionFilter) (hfilters : OnKeyColumns w.strategy filters) :
    let s := Transition.exec w.step (w.new fresh) calls
    (∃ rows s', exec (r.read filters) s = (.ok rows, s') ∧
      rows.Perm (s.writtenRows.filter fun row => Satisfies r w filters row)) ↔
    ∀ row ∈ s.writtenRows, AllPass r filters (w.pathText row) ↔ Satisfies r w filters row := by
  intro s
  have hinv : Inv w s ∧ Filed w s :=
    Transition.exec_invariant_of_meets (fun s => Inv w s ∧ Filed w s)
      (fun _ _ h hcall => ⟨h.1.step hcall, h.2.step hcall⟩)
      ⟨inv_new fresh, fun key p hp => nomatch hp⟩ hcalls
  obtain ⟨rows, hread, hperm⟩ := exec_read hinv.1 hinv.2 hroot hfilters
  rw [← filter_perm_filter_iff]
  constructor
  · rintro ⟨rows', s', hread', hperm'⟩
    obtain ⟨heq, -⟩ := Prod.mk.inj (hread.symm.trans hread')
    obtain rfl := Except.ok.inj heq
    exact hperm.symm.trans hperm'
  · intro hsame
    exact ⟨rows, s, hread, hperm.trans hsame⟩

/-- Where the path of a row's partition is its cell in the columns of the filters, it passes just
when the row satisfies them. -/
theorem allPass_iff_satisfies {w : PartitionedDatasetWriter Row} {r : PartitionedDatasetReader}
    {filters : List PartitionFilter} {row : Row}
    (h : ∀ f ∈ filters, (w.strategy.injected w.upper row).lookup f.column =
      some (w.pathText row)) :
    AllPass r filters (w.pathText row) ↔ Satisfies r w filters row := by
  refine forall₂_congr fun f hf => ?_
  rw [h f hf]
  constructor
  · exact fun hpasses => ⟨_, rfl, hpasses⟩
  · rintro ⟨cell, hcell, hpasses⟩
    rwa [Option.some.inj hcell]

/-- Of a key that is an identifier alone, the path is the cell in the key column. -/
theorem lookup_eq_pathText {w : PartitionedDatasetWriter Row} {row : Row} {name column : String}
    (h : w.strategy.Proper w.upper row) (hname : w.strategy.component w.upper row = some name)
    (htime : w.strategy.timeParts row = []) (hcolumn : column ∈ w.strategy.keyColumns) :
    (w.strategy.injected w.upper row).lookup column = some (w.pathText row) := by
  have hpath : w.pathText row = name := by
    have hdot : name ≠ "." := fun hdot => (h name hname).2.2 hdot htime
    unfold PartitionedDatasetWriter.pathText
    rw [pathParts_eq h, hname, htime, List.append_nil, Option.toList_some,
      List.filter_cons_of_pos (by simpa using hdot), List.filter_nil, String.intercalate_singleton]
  rw [hpath]
  cases hstrategy : w.strategy with
  | time s =>
    rw [hstrategy] at hname
    cases hname
  | pair s =>
    rw [hstrategy] at hname hcolumn
    obtain rfl := Option.some.inj hname
    obtain rfl := List.mem_singleton.mp hcolumn
    rfl
  | wallet s =>
    rw [hstrategy] at hname hcolumn
    obtain rfl := Option.some.inj hname
    obtain rfl := List.mem_singleton.mp hcolumn
    rfl

/-- Filters on pairs or wallets are right if keys have no time, after every run. -/
theorem read_perm_of_component (w : PartitionedDatasetWriter Row) (fresh : FreshRoot Row w.root)
    (calls : List (DatasetCall Row)) (r : PartitionedDatasetReader) (hroot : r.root = w.root)
    (hcalls : Transition.Meets w.step (fun _ call => ProperCall w call) (w.new fresh) calls)
    (filters : List PartitionFilter) (hfilters : OnKeyColumns w.strategy filters)
    (hcomponent : ∀ row, (w.strategy.component w.upper row).isSome)
    (htime : ∀ row, w.strategy.timeParts row = []) :
    let s := Transition.exec w.step (w.new fresh) calls
    ∃ rows s', exec (r.read filters) s = (.ok rows, s') ∧
      rows.Perm (s.writtenRows.filter fun row => Satisfies r w filters row) := by
  refine (read_perm_iff w fresh calls r hroot hcalls filters hfilters).mpr fun row hrow => ?_
  have hfiled := Transition.exec_invariant_of_meets (Filed w) (fun _ _ h hcall => h.step hcall)
    (fun key p hp => nomatch hp) hcalls (s := w.new fresh)
  obtain ⟨⟨key, p⟩, hp, hmem⟩ := List.mem_flatMap.mp hrow
  have hproper := (hfiled key p ((UniqueTable.find?_eq_some_iff _ key p).mpr hp) row hmem).1
  obtain ⟨name, hname⟩ := Option.isSome_iff_exists.mp (hcomponent row)
  exact allPass_iff_satisfies fun f hf =>
    lookup_eq_pathText hproper hname (htime row) (hfilters f hf).2

end Runs

section Concrete

/-- A reader of the root of the writers below. -/
private def rootReader : PartitionedDatasetReader where
  root := ["data", "partitioned"]
  metadataText := fun _ column => column
  listText := fun values => ", ".intercalate values

/-- Pairs are read by their key. -/
theorem read_perm_pairs :
    let s := Transition.exec (pairWriter false).step
      ((pairWriter false).new (FreshRoot.bare String ["data", "partitioned"]))
      [.write 5 (fun _ => "tmp.parquet.tmp") ["XLM/USDC", "BTC", "XLM/USDC"]]
    (∃ rows s', exec (rootReader.read [⟨"pair_key", "==", .one "XLM_USDC"⟩]) s = (.ok rows, s') ∧
      rows.Perm (s.writtenRows.filter fun row => Satisfies rootReader (pairWriter false)
        [⟨"pair_key", "==", .one "XLM_USDC"⟩] row)) ↔
    ∀ row ∈ s.writtenRows, AllPass rootReader [⟨"pair_key", "==", .one "XLM_USDC"⟩]
        ((pairWriter false).pathText row) ↔
      Satisfies rootReader (pairWriter false) [⟨"pair_key", "==", .one "XLM_USDC"⟩] row :=
  read_perm_iff (pairWriter false) (FreshRoot.bare String ["data", "partitioned"]) _ rootReader rfl
    (by decide +kernel) _ (by unfold OnKeyColumns; decide +kernel)

/-- No pair has a time in its key. -/
theorem read_perm_of_component_pairs :
    let s := Transition.exec (pairWriter false).step
      ((pairWriter false).new (FreshRoot.bare String ["data", "partitioned"]))
      [.write 5 (fun _ => "tmp.parquet.tmp") ["XLM/USDC", "BTC", "XLM/USDC"]]
    ∃ rows s', exec (rootReader.read [⟨"pair_key", "==", .one "XLM_USDC"⟩]) s = (.ok rows, s') ∧
      rows.Perm (s.writtenRows.filter fun row => Satisfies rootReader (pairWriter false)
        [⟨"pair_key", "==", .one "XLM_USDC"⟩] row) :=
  read_perm_of_component (pairWriter false) (FreshRoot.bare String ["data", "partitioned"]) _
    rootReader rfl (by decide +kernel) _ (by unfold OnKeyColumns; decide +kernel) (fun _ => rfl)
    (fun _ => rfl)

private theorem dataRoot_resolved : ".." ∉ ["data", "partitioned"] := by decide

private theorem year_mem_june : 1677 ≤ 2024 ∧ 2024 ≤ 2262 := by decide

private theorem month_mem_june : 1 ≤ 6 ∧ 6 ≤ 12 := by decide

/-- A writer by month, all of one month. -/
private def monthWriter : PartitionedDatasetWriter String where
  root := ["data", "partitioned"]
  root_resolved := dataRoot_resolved
  strategy := .time { timestampColumn := fun _ => ⟨2024, 6, 1, 0, year_mem_june, month_mem_june⟩ }
  upper := id
  refuses := fun _ => false

/-- A row of June 2024 is not found by its year and month. -/
theorem read_month_empty :
    let filters : List PartitionFilter := [⟨"year", "==", .one "2024"⟩, ⟨"month", "==", .one "06"⟩]
    let s := Transition.exec monthWriter.step
      (monthWriter.new (FreshRoot.bare String ["data", "partitioned"]))
      [.write 5 (fun _ => "tmp.parquet.tmp") ["trade"]]
    (exec (rootReader.read filters) s).1 = .ok [] ∧
      s.writtenRows.filter (fun row => Satisfies rootReader monthWriter filters row) =
        ["trade"] ∧
      ¬∃ rows s', exec (rootReader.read filters) s = (.ok rows, s') ∧
        rows.Perm (s.writtenRows.filter fun row => Satisfies rootReader monthWriter filters row) := by
  intro filters s
  have hread : (exec (rootReader.read filters) s).1 = .ok [] := by decide +kernel
  have hrows : s.writtenRows.filter (fun row => Satisfies rootReader monthWriter filters row) =
      ["trade"] := by decide +kernel
  refine ⟨hread, hrows, ?_⟩
  rintro ⟨rows, s', hexec, hperm⟩
  rw [hexec] at hread
  rw [hrows, Except.ok.inj hread] at hperm
  exact absurd hperm.length_eq (by decide)

end Concrete

end LedgerLens.Data
