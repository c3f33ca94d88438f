import LedgerLens.Library.FileTree
import LedgerLens.Library.Raising
import LedgerLens.Library.Runs
import Mathlib.Data.List.Sort
import Mathlib.Data.List.Lex
import Mathlib.Data.String.Basic

/-!
# Partitioned datasets

Rows are written to directories below a root, one for each partition key, as numbered shards
with a metadata file beside them. Keys are made from times or from sanitised identifiers. A read
collects the shards of all directories that have any, and pruning removes the directories whose
metadata is too old.
-/

namespace LedgerLens.Data

open FileTree

/-- The characters of `_UNSAFE_PATH_RE` are all others. -/
def isSafe (ch : Char) : Bool :=
  ('A' ≤ ch ∧ ch ≤ 'Z') ∨ ('a' ≤ ch ∧ ch ≤ 'z') ∨ ('0' ≤ ch ∧ ch ≤ '9') ∨ ch = '_' ∨ ch = '-' ∨
    ch = '.'

/-- Sanitise a value so it can be used as a path component. -/
def safePathComponent (value : String) : String :=
  String.ofList (value.toList.map fun ch => if isSafe ch then ch else '_')

/-- A number in decimal digits, with leading zeros up to a width. -/
def padded (width n : ℕ) : String :=
  String.ofList (List.replicate (width - (Nat.toDigits 10 n).length) '0' ++ Nat.toDigits 10 n)

/-- A time stamp in UTC, to the hour, in the range of the data frames. -/
structure Timestamp where
  /-- The year. -/
  year : ℕ
  /-- The month. -/
  month : ℕ
  /-- The day. -/
  day : ℕ
  /-- The hour. -/
  hour : ℕ
  /-- Years have four digits. -/
  year_mem : 1677 ≤ year ∧ year ≤ 2262
  /-- There are twelve months. -/
  month_mem : 1 ≤ month ∧ month ≤ 12

/-- The granularity of a partition by time. -/
inductive Period
  /-- By year. -/
  | year
  /-- By month. -/
  | month
  /-- By day. -/
  | day
  /-- By hour. -/
  | hour

/-- Partition by calendar period. -/
structure TimePartitionStrategy (Row : Type) where
  /-- The granularity. -/
  period : Period := .month
  /-- The timestamp column. -/
  timestampColumn : Row → Timestamp

/-- Partition by asset pair. -/
structure PairPartitionStrategy (Row : Type) where
  /-- The pair column. -/
  pairColumn : Row → String
  /-- Whether year and month follow. -/
  includeTime : Bool := false
  /-- The timestamp column. -/
  timestampColumn : Row → Timestamp

/-- Partition by the prefix of a wallet address. -/
structure WalletPartitionStrategy (Row : Type) where
  /-- The wallet column. -/
  walletColumn : Row → String
  /-- The length of the prefix. -/
  prefixLength : ℕ := 2
  /-- The constructor raises otherwise. -/
  prefixLength_mem : 1 ≤ prefixLength ∧ prefixLength ≤ 8
  /-- Whether year and month follow. -/
  includeTime : Bool := false
  /-- The timestamp column. -/
  timestampColumn : Row → Timestamp

/-- The partitioning strategies. -/
inductive PartitionStrategy (Row : Type)
  /-- By time. -/
  | time (s : TimePartitionStrategy Row)
  /-- By pair. -/
  | pair (s : PairPartitionStrategy Row)
  /-- By wallet. -/
  | wallet (s : WalletPartitionStrategy Row)

/-- The metadata stored beside the shards of a partition. -/
structure PartitionMetadata where
  /-- The name of the strategy. -/
  strategyName : String
  /-- The partition key. -/
  partitionKey : String
  /-- The number of rows. -/
  rowCount : ℕ
  /-- When the first rows were written. -/
  createdAt : ℤ
  /-- When the last rows were written. -/
  updatedAt : ℤ

/-- What the files hold. -/
inductive Content (Row : Type)
  /-- A shard with its rows. -/
  | parquet (rows : List Row)
  /-- The metadata of a partition. -/
  | metadata (data : PartitionMetadata)
  /-- The manifest of the root. -/
  | manifest (strategyName : String)

/-- The rows that were written to a partition and not pruned since. -/
structure Partition (Row : Type) where
  /-- The rows, in the order of the writes. -/
  rows : List Row
  /-- The time of the last write. -/
  updatedAt : ℤ

/-- The files, and beside them what happened to them. -/
structure Dataset (Row : Type) where
  /-- The files. -/
  tree : FileTree (Content Row)
  /-- Every path that was created, replaced or deleted. -/
  touched : List (List String) := []
  /-- The log of the written groups, by key, less what pruning took out. -/
  ledger : UniqueTable String (Partition Row) := UniqueTable.empty

/-- The exceptions of a write, a read or a prune. -/
inductive DatasetError
  /-- The data frame is empty. -/
  | valueError
  /-- A file stands where a directory is to be made. -/
  | fileExists
  /-- The file system refuses a directory. -/
  | osError
  /-- A directory stands where a file is expected. -/
  | isADirectory
  /-- The metadata cannot be decoded. -/
  | jsonDecode
  /-- The root does not exist. -/
  | fileNotFound
  deriving DecidableEq

/-- A writer, with what the language and the file system do. -/
structure PartitionedDatasetWriter (Row : Type) where
  /-- The resolved path of the root. -/
  root : List String
  /-- It has no double dots. -/
  root_resolved : ".." ∉ root
  /-- How rows are partitioned. -/
  strategy : PartitionStrategy Row
  /-- The upper case of a text. -/
  upper : String → String
  /-- The directories that the file system does not make, for names too long or the like. -/
  refuses : List String → Bool

variable {Row : Type}

/-- The sanitised identifier of a row, or none when the partition is by time only. -/
def PartitionStrategy.component (upper : String → String) (row : Row) :
    PartitionStrategy Row → Option String
  | .time _ => none
  | .pair s => some (safePathComponent (s.pairColumn row))
  | .wallet s => some (safePathComponent
      (upper (String.ofList ((s.walletColumn row).toList.take s.prefixLength))))

/-- The parts of a key by calendar period. -/
def Period.parts (ts : Timestamp) : Period → List String
  | .year => [padded 0 ts.year]
  | .month => [padded 0 ts.year, padded 2 ts.month]
  | .day => [padded 0 ts.year, padded 2 ts.month, padded 2 ts.day]
  | .hour => [padded 0 ts.year, padded 2 ts.month, padded 2 ts.day, padded 2 ts.hour]

/-- The year and month that a key includes. -/
def includedTime (includeTime : Bool) (ts : Timestamp) : List String :=
  if includeTime then [padded 0 ts.year, padded 2 ts.month] else []

/-- The parts of a row's key that come from its time. -/
def PartitionStrategy.timeParts (row : Row) : PartitionStrategy Row → List String
  | .time s => s.period.parts (s.timestampColumn row)
  | .pair s => includedTime s.includeTime (s.timestampColumn row)
  | .wallet s => includedTime s.includeTime (s.timestampColumn row)

@[simp] theorem timeParts_time (s : TimePartitionStrategy Row) (row : Row) :
    (PartitionStrategy.time s).timeParts row = s.period.parts (s.timestampColumn row) := rfl

@[simp] theorem timeParts_pair (s : PairPartitionStrategy Row) (row : Row) :
    (PartitionStrategy.pair s).timeParts row =
      includedTime s.includeTime (s.timestampColumn row) := rfl

@[simp] theorem timeParts_wallet (s : WalletPartitionStrategy Row) (row : Row) :
    (PartitionStrategy.wallet s).timeParts row =
      includedTime s.includeTime (s.timestampColumn row) := rfl

/-- The parts of a row's key. -/
def PartitionStrategy.keyParts (upper : String → String) (s : PartitionStrategy Row) (row : Row) :
    List String :=
  (s.component upper row).toList ++ s.timeParts row

/-- The relative partition path of a row, as a text. -/
def PartitionStrategy.partitionKey (upper : String → String) (s : PartitionStrategy Row)
    (row : Row) : String :=
  "/".intercalate (s.keyParts upper row)

/-- The name of a strategy. -/
def PartitionStrategy.name : PartitionStrategy Row → String
  | .time _ => "time"
  | .pair _ => "pair"
  | .wallet _ => "wallet"

/-- The name of a shard. -/
def shardName (index : ℕ) : String := "data_" ++ padded 5 index ++ ".parquet"

/-- The pattern `data_*.parquet`. -/
def isShardName (name : String) : Bool :=
  "data_".toList.isPrefixOf name.toList && ".parquet".toList.isSuffixOf name.toList

/-- The number in the name of a shard. -/
def shardIndex? (name : String) : Option ℕ :=
  let digits := (name.toList.drop 5).takeWhile Char.isDigit
  let rest := (name.toList.drop 5).dropWhile Char.isDigit
  if "data_".toList.isPrefixOf name.toList ∧ digits ≠ [] ∧ rest = ".parquet".toList then
    some (Nat.ofDigitChars 10 digits 0)
  else none

/-- The name of the metadata file. -/
def metadataFile : String := "_metadata.json"

/-- The name of the manifest. -/
def manifestFile : String := "_strategy.json"

/-- The rows of a shard. -/
def nodeRows : FileNode (Content Row) → List Row
  | .file (.parquet rows) => rows
  | _ => []

/-- Whether a node is a file. -/
def isFile : FileNode (Content Row) → Bool
  | .file _ => true
  | .dir => false

namespace Dataset

/-- Note that a path was touched. -/
def touch (s : Dataset Row) (path : List String) : Dataset Row :=
  { s with touched := path :: s.touched }

/-- Store a node under a path. -/
def store (s : Dataset Row) (path : List String) (node : FileNode (Content Row)) : Dataset Row :=
  { s with tree := s.tree.put path node, touched := path :: s.touched }

/-- Remove a directory with all that it holds. -/
def rmtree (s : Dataset Row) (dir : List String) : Dataset Row :=
  { s with
    tree := removeTree s.tree dir
    touched := (s.tree.rows.map Prod.fst).filter (fun path => dir.isPrefixOf path) ++ s.touched }

/-- Log that rows were written under a key. -/
def log (s : Dataset Row) (key : String) (rows : List Row) (now : ℤ) : Dataset Row :=
  let old := ((s.ledger.find? key).map Partition.rows).getD []
  { s with ledger := s.ledger.put key ⟨old ++ rows, now⟩ }

end Dataset

/-- Programs on a dataset. -/
abbrev DatasetProgram (Row : Type) := Raising (Dataset Row) DatasetError

/-- Make one directory unless it is there. -/
def mkdir (refuses : List String → Bool) (path : List String) : DatasetProgram Row Unit := do
  let s ← get
  match s.tree.find? path with
  | some .dir => pure ()
  | some (.file _) => throw .fileExists
  | none => if refuses path then throw .osError else modify fun s => s.store path .dir

/-- Make a directory with its parents. -/
def mkdirAll (refuses : List String → Bool) (path : List String) : DatasetProgram Row Unit :=
  path.inits.foldlM (fun _ dir => mkdir refuses dir) ()

/-- The index of the next shard of a directory. -/
def nextShardIndex (tree : FileTree (Content Row)) (dir : List String) : ℕ :=
  let existing := (children tree dir).filter fun child => isShardName child.1
  let indices := existing.filterMap fun child => shardIndex? child.1
  if indices = [] then 0 else indices.foldr max 0 + 1

/-- Load the metadata of a directory, if there is any. -/
def loadMetadata (dir : List String) : DatasetProgram Row (Option PartitionMetadata) := do
  let s ← get
  match s.tree.find? (dir ++ [metadataFile]) with
  | none => return none
  | some (.file (.metadata data)) => return some data
  | some (.file _) => throw .jsonDecode
  | some .dir => throw .isADirectory

/-- Save the metadata of a directory. -/
def saveMetadata (refuses : List String → Bool) (dir : List String) (data : PartitionMetadata) :
    DatasetProgram Row Unit := do
  mkdirAll refuses dir
  let s ← get
  match s.tree.find? (dir ++ [metadataFile]) with
  | some .dir => throw .isADirectory
  | _ => modify fun s => s.store (dir ++ [metadataFile]) (.file (.metadata data))

namespace PartitionedDatasetWriter

variable (w : PartitionedDatasetWriter Row)

/-- The path of a partition, as it is joined. -/
def partitionDir (key : String) : List String := joinPath w.root key

/-- Update the metadata of a partition for more rows. -/
def updateMetadata (now : ℤ) (key : String) (dir : List String) (group : List Row) :
    DatasetProgram Row Unit := do
  let existing ← loadMetadata dir
  match existing with
  | none => saveMetadata w.refuses dir ⟨w.strategy.name, key, group.length, now, now⟩
  | some data =>
    saveMetadata w.refuses dir
      { data with rowCount := data.rowCount + group.length, updatedAt := now }

/-- Write the rows of one partition: a temporary file in the parent of its directory is renamed
to the next shard. -/
def writeGroup (now : ℤ) (tmpName key : String) (group : List Row) : DatasetProgram Row Unit := do
  let dir := resolve (w.partitionDir key)
  let tmpPath := resolve (w.partitionDir key).dropLast ++ [tmpName]
  mkdirAll w.refuses dir
  let s ← get
  let target := dir ++ [shardName (nextShardIndex s.tree dir)]
  modify fun s => s.touch tmpPath
  modify fun s => (s.touch tmpPath).store target (.file (.parquet group))
  w.updateMetadata now key dir group

/-- The rows of a data frame by key, in the order of first appearance. -/
def groups (df : List Row) : UniqueTable String (List Row) :=
  UniqueTable.collect [] (fun group row => group ++ [row])
    (df.map fun row => (w.strategy.partitionKey w.upper row, row))

/-- Partition a data frame and write each group. The log line of a group is the ledger's. -/
def write (now : ℤ) (tmpName : String → String) (df : List Row) :
    DatasetProgram Row (List (String × ℕ)) :=
  if df = [] then throw .valueError
  else
    (w.groups df).rows.foldlM
      (fun result group => do
        w.writeGroup now (tmpName group.1) group.1 group.2
        modify fun s => s.log group.1 group.2 now
        return result ++ [(group.1, group.2.length)]) []

end PartitionedDatasetWriter

/-- The directories below a root that hold a shard. -/
def discoverPartitions (tree : FileTree (Content Row)) (root : List String) :
    List (List String) :=
  (tree.rows.filter fun row => root.isPrefixOf row.1 && !isFile row.2 &&
    (children tree row.1).any fun child => isShardName child.1 && isFile child.2).map Prod.fst

/-- Read the shards of a directory, in the order of their names. -/
def readPartition (tree : FileTree (Content Row)) (dir : List String) : List Row :=
  (((children tree dir).filter fun child => isShardName child.1).insertionSort
    fun child child' => child.1 ≤ child'.1).flatMap fun child => nodeRows child.2

/-- Read all partitions below a root, in the order of their paths. -/
def readDataset (tree : FileTree (Content Row)) (root : List String) : List Row :=
  ((discoverPartitions tree root).insertionSort (· ≤ ·)).flatMap (readPartition tree)

/-- Remove one partition if it has not been updated since a cutoff. -/
def pruneOne (root : List String) (cutoff : ℤ) (dryRun : Bool) (pruned : List (List String))
    (dir : List String) : DatasetProgram Row (List (List String)) := do
  let existing ← loadMetadata dir
  match existing with
  | none => return pruned
  | some data =>
    if data.updatedAt < cutoff then do
      if dryRun then pure () else modify fun s => s.rmtree dir
      return pruned ++ [dir.drop root.length]
    else return pruned

/-- Remove the partitions below a root that have not been updated since a cutoff. -/
def prunePartitions (root : List String) (cutoff : ℤ) (dryRun : Bool) :
    DatasetProgram Row (List (List String)) := do
  let s ← get
  if (s.tree.find? root).isNone then throw .fileNotFound
  else (discoverPartitions s.tree root).foldlM (pruneOne root cutoff dryRun) []

/-- The calls on one root: a write with its time and the names of its temporary files, and a
prune with its cutoff. -/
inductive DatasetCall (Row : Type)
  /-- Write a data frame. -/
  | write (now : ℤ) (tmpName : String → String) (df : List Row)
  /-- Prune. -/
  | prune (cutoff : ℤ) (dryRun : Bool)

/-- The partitions that are left when those last written before a cutoff are pruned. -/
def Dataset.pruned (s : Dataset Row) (cutoff : ℤ) : Dataset Row :=
  { s with ledger := s.ledger.deleteWhere fun _ p => p.updatedAt < cutoff }

/-- The dataset after a call, also after one that raised. -/
def PartitionedDatasetWriter.step (w : PartitionedDatasetWriter Row) (s : Dataset Row) :
    DatasetCall Row → Dataset Row
  | .write now tmpName df => (Raising.exec (w.write now tmpName df) s).2
  | .prune cutoff dryRun =>
    let s' := (Raising.exec (prunePartitions w.root cutoff dryRun) s).2
    if dryRun then s' else s'.pruned cutoff

/-- A file tree in which a root was just made. -/
structure FreshRoot (Row : Type) (root : List String) where
  /-- The files. -/
  tree : FileTree (Content Row)
  /-- The root and all above it are directories. -/
  find?_above : ∀ path, path <+: root → tree.find? path = some .dir
  /-- Nothing is below the root. -/
  find?_below : ∀ path, Below root path → tree.find? path = none

/-- The dataset of a new writer: its manifest is all there is below the root. -/
def PartitionedDatasetWriter.new (w : PartitionedDatasetWriter Row) (fresh : FreshRoot Row w.root) :
    Dataset Row :=
  let s : Dataset Row := { tree := fresh.tree }
  s.store (w.root ++ [manifestFile]) (.file (.manifest w.strategy.name))

end LedgerLens.Data
