import StatsRecommender.Storage.RowVersionManager

/-!
# What an undo buffer changes

The versions of catalog entries, the tables behind them with their row groups, indexes and
blocks, the row versions and the update chains, with the operations that commits, reverted
commits and rollbacks run on them.
-/

namespace StatsRecommender

/-! ## Row groups -/

/-- `ColumnSegment`: its rows, its block if it is persistent, and its string state if any. -/
structure BlockSegment where
  start : Nat
  count : Nat
  blockId : Option Nat
  stringState : Option Nat
  deriving DecidableEq, Repr

/-- `ColumnData`: the segments of a column in a row group, or of its validity. -/
structure BlockColumn where
  start : Nat
  count : Nat
  data : List BlockSegment
  deriving DecidableEq, Repr

/-- `StandardColumnData`. -/
structure StoredColumn where
  main : BlockColumn
  validity : BlockColumn
  deriving DecidableEq, Repr

/-- `RowGroup`, with the number of its `RowVersionManager`. -/
structure StoredRowGroup where
  start : Nat
  count : Nat
  versionInfo : Nat
  columns : List StoredColumn
  deriving DecidableEq, Repr

/-- `RowGroupCollection`. -/
structure StoredRows where
  totalRows : Nat
  rowGroups : List StoredRowGroup
  deriving DecidableEq, Repr

/-- `EraseSegments` behind the segment at an index, which keeps what is in front of a row. -/
def cutFrom {Segment : Type} (start : Segment → Nat) (revert : Segment → Segment)
    (segments : List Segment) (index startRow : Nat) : List Segment :=
  match segments[index]? with
  | none => segments
  | some segment =>
      if start segment = startRow then segments.take index
      else segments.take index ++ [revert segment]

namespace BlockSegment

def node (segment : BlockSegment) : SegmentNode := ⟨segment.start, segment.count⟩

/-- `ColumnSegment::RevertAppend`. -/
def revertAppend (segment : BlockSegment) (startRow : Nat) : BlockSegment :=
  { segment with count := startRow - segment.start }

end BlockSegment

namespace BlockColumn

/-- `ColumnData::RevertAppend`; the search throws for rows that no segment holds. -/
def revertAppend (column : BlockColumn) (startRow : Nat) : BlockColumn :=
  match column.data.getLast? with
  | none => column
  | some last =>
      if last.start + last.count ≤ startRow then column
      else
        match SegmentTree.tryGetSegmentIndex (column.data.map BlockSegment.node) startRow with
        | .ok (some index) =>
            { column with
              data := cutFrom BlockSegment.start (BlockSegment.revertAppend · startRow) column.data
                index startRow
              count := startRow - column.start }
        | _ => column

end BlockColumn

namespace StoredColumn

/-- `StandardColumnData::RevertAppend`. -/
def revertAppend (column : StoredColumn) (startRow : Nat) : StoredColumn :=
  ⟨column.main.revertAppend startRow, column.validity.revertAppend startRow⟩

/-- The segments that `StandardColumnData::CommitDropColumn` drops. -/
def segments (column : StoredColumn) : List BlockSegment :=
  column.main.data ++ column.validity.data

end StoredColumn

namespace StoredRowGroup

def node (rowGroup : StoredRowGroup) : SegmentNode := ⟨rowGroup.start, rowGroup.count⟩

/-- `RowGroup::RevertAppend`, but for the version info. -/
def revertAppend (rowGroup : StoredRowGroup) (startRow : Nat) : StoredRowGroup :=
  { rowGroup with
    count := min (startRow - rowGroup.start) rowGroup.count
    columns := rowGroup.columns.map (StoredColumn.revertAppend · startRow) }

/-- The segments that `RowGroup::CommitDropColumn` drops. -/
def columnSegments (rowGroup : StoredRowGroup) (columnIndex : Nat) : List BlockSegment :=
  (rowGroup.columns[columnIndex]?.map StoredColumn.segments).getD []

/-- The segments that `RowGroup::CommitDrop` drops. -/
def segments (rowGroup : StoredRowGroup) : List BlockSegment :=
  rowGroup.columns.flatMap StoredColumn.segments

end StoredRowGroup

namespace StoredRows

/-- The row group from which `RevertAppendInternal` reverts; without the row, it is the last. -/
def revertIndex (rows : StoredRows) (startRow : Nat) : Nat :=
  match SegmentTree.tryGetSegmentIndex (rows.rowGroups.map StoredRowGroup.node) startRow with
  | .ok (some index) => index
  | _ => rows.rowGroups.length - 1

/-- `RowGroupCollection::RevertAppendInternal`, but for the version info. -/
def revertAppendInternal (rows : StoredRows) (startRow : Nat) : StoredRows where
  totalRows := startRow
  rowGroups := cutFrom StoredRowGroup.start (StoredRowGroup.revertAppend · startRow)
    rows.rowGroups (rows.revertIndex startRow) startRow

/-- The version info that `RevertAppendInternal` cuts, and the row in its row group. -/
def revertedVersions (rows : StoredRows) (startRow : Nat) : Option (Nat × Nat) :=
  match rows.rowGroups[rows.revertIndex startRow]? with
  | none => none
  | some segment =>
      if segment.start = startRow then none
      else some (segment.versionInfo, startRow - segment.start)

/-- The segments that `RowGroupCollection::CommitDropColumn` drops. -/
def columnSegments (rows : StoredRows) (columnIndex : Nat) : List BlockSegment :=
  rows.rowGroups.flatMap (StoredRowGroup.columnSegments · columnIndex)

/-- The segments that `RowGroupCollection::CommitDropTable` drops. -/
def segments (rows : StoredRows) : List BlockSegment :=
  rows.rowGroups.flatMap StoredRowGroup.segments

/-- The loop of `RowGroupCollection::CommitAppend`, from the row group of the current row on. -/
def commitAppendLoop (commitId : Nat) : List StoredRowGroup → Nat → Nat →
    (Nat → RowVersionManager) → Except String (Nat → RowVersionManager)
  | [], _, _, _ => throw "Attempted to dereference a row group that is NULL!"
  | rowGroup :: rest, currentRow, remaining, infos => do
      let startInRowGroup := currentRow - rowGroup.start
      let appendCount := min (rowGroup.count - startInRowGroup) remaining
      let info ← (infos rowGroup.versionInfo).commitAppend commitId startInRowGroup appendCount
      let infos := Function.update infos rowGroup.versionInfo info
      if remaining - appendCount = 0 then pure infos
      else commitAppendLoop commitId rest (currentRow + appendCount) (remaining - appendCount) infos

/-- `RowGroupCollection::CommitAppend`. -/
def commitAppend (rows : StoredRows) (commitId rowStart count : Nat)
    (infos : Nat → RowVersionManager) : Except String (Nat → RowVersionManager) := do
  let index ← SegmentTree.getSegmentIndex (rows.rowGroups.map StoredRowGroup.node) rowStart
  commitAppendLoop commitId (rows.rowGroups.drop index) rowStart count infos

end StoredRows

/-! ## Catalog entries, tables and indexes -/

/-- `CatalogType`. -/
inductive CatalogType
  | invalid
  | tableEntry
  | schemaEntry
  | viewEntry
  | indexEntry
  | preparedStatement
  | sequenceEntry
  | collationEntry
  | typeEntry
  | databaseEntry
  | tableFunctionEntry
  | scalarFunctionEntry
  | aggregateFunctionEntry
  | pragmaFunctionEntry
  | copyFunctionEntry
  | macroEntry
  | tableMacroEntry
  | deletedEntry
  | renamedEntry
  | secretEntry
  | secretTypeEntry
  | secretFunctionEntry
  | dependencyEntry
  deriving DecidableEq, Repr

/-- `DependencyEntryType`. -/
inductive DependencyEntryType
  | subject
  | dependent
  deriving DecidableEq, Repr

/-- `ColumnDefinition`. -/
structure ColumnDefinition where
  name : String
  generated : Bool
  deriving DecidableEq, Repr

/--
`CatalogEntry`, without its timestamp and its place in the chain of its name.  Storage, columns
and names of primary key indexes are those of a `DuckTableEntry`, the info that of a
`DuckIndexEntry`, and the side that of a `DependencyEntry`.
-/
structure CatalogEntry where
  type : CatalogType
  name : String
  temporary : Bool
  chain : Nat
  storage : Nat
  columns : List ColumnDefinition
  primaryKeys : List String
  info : Option Nat
  side : DependencyEntryType
  deriving DecidableEq, Repr

/-- `DataTableVersion`. -/
inductive DataTableVersion
  | mainTable
  | altered
  | dropped
  deriving DecidableEq, Repr

/-- `DataTable`, without its version: its `DataTableInfo` and its row groups. -/
structure DataTable where
  info : Nat
  rowGroups : Nat
  deriving DecidableEq, Repr

/-- `Index`; `key` is what the expressions of a bound index make of a row. -/
structure TableIndex (Row Key : Type) where
  name : String
  bound : Bool
  key : Row → Key
  entries : List (Key × Nat)

/-- `UpdateInfo`, with the updated tuples beside their values. -/
structure UpdateInfo (Value : Type) where
  segment : Nat
  table : Nat
  versionNumber : Nat
  vectorIndex : Nat
  tuples : List (Nat × Value)
  prev : Option Nat
  next : Option Nat
  deriving DecidableEq, Repr

/-- The next newer version in a chain that starts with the newest: `CatalogEntry::Parent`. -/
def parentOf : List Nat → Nat → Option Nat
  | newer :: older :: rest, entry =>
      if older = entry then some newer else parentOf (older :: rest) entry
  | _, _ => none

/--
The column that `DuckTableEntry::CommitAlter` drops: none for a generated column, and the
physical index of the first other one of that name.
-/
def alteredColumn (columns : List ColumnDefinition) (columnName : String) :
    Except String (Option Nat) :=
  match columns.findIdx? (·.name == columnName) with
  | none => throw "Attempting to get the index of an optional_idx that is not set"
  | some index =>
      if (columns[index]?.map ColumnDefinition.generated).getD false then pure none
      else pure (some ((columns.take index).filter (!·.generated)).length)

namespace TableIndex

variable {Row Key : Type}

/-- Keeps some of the entries. -/
def restrict (index : TableIndex Row Key) (keep : Key × Nat → Bool) : TableIndex Row Key :=
  { index with entries := index.entries.filter keep }

/-- `BoundIndex::CommitDrop`. -/
def commitDrop (index : TableIndex Row Key) : TableIndex Row Key :=
  { index with entries := [] }

/-- `BoundIndex::Delete` of some rows; nothing is deleted from an unbound index. -/
def delete [DecidableEq Key] (index : TableIndex Row Key) (rowAt : Nat → Row) (rows : List Nat) :
    TableIndex Row Key :=
  if index.bound then
    index.restrict fun entry => !(rows.map fun row => (index.key (rowAt row), row)).contains entry
  else index

end TableIndex

/-- The loop of `RollbackUpdate`, at a place of the base info and of the info rolled back. -/
def rollbackUpdateLoop {Value : Type} : List (Nat × Value) → List (Nat × Value) →
    List (Nat × Value)
  | base, [] => base
  | [], _ => []
  | (tuple, value) :: base, (id, old) :: rest =>
      if tuple < id then (tuple, value) :: rollbackUpdateLoop base ((id, old) :: rest)
      else rollbackUpdateLoop ((tuple, old) :: base) rest
  termination_by base rollback => base.length + rollback.length

/-! ## The state -/

/--
What the entries of an undo buffer point at.  `chains` are the versions in a `CatalogEntryMap`
with the newest first, `timestamps` are those of catalog entries, `tableNames` and `indexes`
belong to a `DataTableInfo`, and `onDiskBlocks` to a string state; `markedBlocks` are the
blocks that `MarkBlockAsModified` was called with.
-/
structure UndoState (Row Key Value : Type) where
  chains : Nat → List Nat
  timestamps : Nat → Nat
  tableVersions : Nat → DataTableVersion
  tableNames : Nat → String
  indexes : Nat → List (TableIndex Row Key)
  rows : Nat → StoredRows
  versionInfos : Nat → RowVersionManager
  updateInfos : Nat → UpdateInfo Value
  updateNodes : Nat → Nat → Option Nat
  onDiskBlocks : Nat → List Nat
  markedBlocks : List Nat
  databases : List String

/--
The catalog entries and tables, the rows as `ScanCommitted` reads them, and the transaction.
The last two fields are the checks of the dependency manager at a commit.
-/
structure UndoContext (Row Key Value : Type) where
  entries : Nat → CatalogEntry
  tables : Nat → DataTable
  rowAt : Nat → Nat → Row
  transactionId : Nat
  startTime : Nat
  verifyExistence : Nat → Nat → UndoState Row Key Value → Option String
  verifyCommitDrop : Nat → Nat → Nat → UndoState Row Key Value → Option String

namespace UndoState

variable {Row Key Value : Type} {context : UndoContext Row Key Value}
  {state : UndoState Row Key Value}

/-! ## Catalog entries -/

/-- `CatalogSet::UpdateTimestamp`. -/
def updateTimestamp (state : UndoState Row Key Value) (entry timestamp : Nat) :
    UndoState Row Key Value :=
  { state with timestamps := Function.update state.timestamps entry timestamp }

/-- `CatalogEntry::OnDrop`. -/
def onDrop (context : UndoContext Row Key Value) (state : UndoState Row Key Value) (entry : Nat) :
    UndoState Row Key Value :=
  let old := context.entries entry
  if old.type = .tableEntry then
    { state with tableVersions := Function.update state.tableVersions old.storage .dropped }
  else state

/-- `CatalogEntry::SetAsRoot`. -/
def setAsRoot (context : UndoContext Row Key Value) (state : UndoState Row Key Value)
    (entry : Nat) : UndoState Row Key Value :=
  let root := context.entries entry
  if root.type = .tableEntry then
    { state with
      tableVersions := Function.update state.tableVersions root.storage .mainTable
      tableNames := Function.update state.tableNames (context.tables root.storage).info root.name }
  else state

/-- `TableIndexList::RemoveIndex`. -/
def removeIndex (state : UndoState Row Key Value) (info : Nat) (name : String) :
    UndoState Row Key Value :=
  { state with
    indexes := Function.update state.indexes info
      ((state.indexes info).eraseP fun index => index.name == name) }

/-- `TableIndexList::CommitDrop`. -/
def commitDropIndex (state : UndoState Row Key Value) (info : Nat) (name : String) :
    UndoState Row Key Value :=
  let indexes := state.indexes info
  match indexes.findIdx? fun index => index.name == name with
  | none => state
  | some position =>
      { state with
        indexes := Function.update state.indexes info
          (indexes.modify position TableIndex.commitDrop) }

/-- The indexes that `CatalogEntry::Rollback` removes, with the infos they are listed in. -/
def rolledBackIndexes (context : UndoContext Row Key Value) (removed previous : CatalogEntry) :
    List (Nat × String) :=
  if removed.type = .indexEntry then removed.info.toList.map fun info => (info, removed.name)
  else if removed.type = .tableEntry ∧ previous.type = .tableEntry then
    (removed.primaryKeys.filter fun name => !previous.primaryKeys.contains name).map fun name =>
      ((context.tables previous.storage).info, name)
  else []

/-- `CatalogEntry::Rollback`. -/
def rollbackCatalogEntry (context : UndoContext Row Key Value) (state : UndoState Row Key Value)
    (removed previous : CatalogEntry) : UndoState Row Key Value :=
  (rolledBackIndexes context removed previous).foldl
    (fun state index => state.removeIndex index.1 index.2) state

/-- `CatalogSet::Undo`. -/
def undo (context : UndoContext Row Key Value) (state : UndoState Row Key Value) (entry : Nat) :
    UndoState Row Key Value :=
  let previous := context.entries entry
  let chain := state.chains previous.chain
  match parentOf chain entry with
  | none => state
  | some removed =>
      let state := state.rollbackCatalogEntry context (context.entries removed) previous
      let state := if chain.head? = some removed then state.setAsRoot context entry else state
      let left := chain.erase removed
      -- this was the root of the chain
      let left := if previous.type = .invalid then left.erase entry else left
      { state with chains := Function.update state.chains previous.chain left }

/-! ## Tables -/

/-- `ColumnSegment::CommitDropSegment`. -/
def commitDropSegment (state : UndoState Row Key Value) (segment : BlockSegment) :
    UndoState Row Key Value :=
  let state := { state with markedBlocks := state.markedBlocks ++ segment.blockId.toList }
  match segment.stringState with
  | none => state
  | some id =>
      -- `UncompressedStringSegmentState::Cleanup`
      { state with
        markedBlocks := state.markedBlocks ++ state.onDiskBlocks id
        onDiskBlocks := Function.update state.onDiskBlocks id [] }

/-- `DataTable::CommitDropColumn`. -/
def commitDropColumn (context : UndoContext Row Key Value) (state : UndoState Row Key Value)
    (table columnIndex : Nat) : UndoState Row Key Value :=
  ((state.rows (context.tables table).rowGroups).columnSegments columnIndex).foldl
    commitDropSegment state

/-- `DataTable::CommitDropTable`. -/
def commitDropTable (context : UndoContext Row Key Value) (state : UndoState Row Key Value)
    (table : Nat) : UndoState Row Key Value :=
  let info := (context.tables table).info
  let state := (state.rows (context.tables table).rowGroups).segments.foldl commitDropSegment state
  { state with
    indexes := Function.update state.indexes info ((state.indexes info).map TableIndex.commitDrop) }

/-- `DataTable::TableModification`. -/
def tableModification : DataTableVersion → String
  | .mainTable => "no changes"
  | .altered => "altered"
  | .dropped => "dropped"

/-- The error for a table that is not the main table, as its checks at a commit throw it. -/
def modifiedError (context : UndoContext Row Key Value) (state : UndoState Row Key Value)
    (table : Nat) : Option String :=
  let version := state.tableVersions table
  if version = .mainTable then none
  else
    some ("Attempting to modify table " ++ state.tableNames (context.tables table).info ++
      " but another transaction has " ++ tableModification version ++ " this table")

/-- `RowGroupCollection::RevertAppendInternal`. -/
def revertAppendInternal (state : UndoState Row Key Value) (collection startRow : Nat) :
    UndoState Row Key Value :=
  let rows := state.rows collection
  { state with
    rows := Function.update state.rows collection (rows.revertAppendInternal startRow)
    versionInfos :=
      match rows.revertedVersions startRow with
      | none => state.versionInfos
      | some (info, row) =>
          Function.update state.versionInfos info ((state.versionInfos info).revertAppend row) }

/-- The part of `DataTable::RevertAppend` that deletes the rows from the indexes. -/
def revertIndexes [DecidableEq Key] (context : UndoContext Row Key Value)
    (state : UndoState Row Key Value) (table startRow count : Nat) : UndoState Row Key Value :=
  let data := context.tables table
  let scanCount := min count ((state.rows data.rowGroups).totalRows - startRow)
  { state with
    indexes := Function.update state.indexes data.info
      ((state.indexes data.info).map fun index =>
        index.delete (context.rowAt data.rowGroups) (List.range' startRow scanCount)) }

/-- `DataTable::RevertAppend`. -/
def revertAppend [DecidableEq Key] (context : UndoContext Row Key Value)
    (state : UndoState Row Key Value) (table startRow count : Nat) : UndoState Row Key Value :=
  (state.revertIndexes context table startRow count).revertAppendInternal
    (context.tables table).rowGroups startRow

theorem versionInfos_revertAppend_none [DecidableEq Key] {table startRow : Nat} (count : Nat)
    (none_cut : (state.rows (context.tables table).rowGroups).revertedVersions startRow = none) :
    (state.revertAppend context table startRow count).versionInfos = state.versionInfos := by
  simp only [revertAppend, revertAppendInternal, revertIndexes, none_cut]

theorem versionInfos_revertAppend_some [DecidableEq Key] {table startRow info row : Nat}
    (count : Nat) (cut : (state.rows (context.tables table).rowGroups).revertedVersions startRow =
      some (info, row)) :
    (state.revertAppend context table startRow count).versionInfos =
      Function.update state.versionInfos info ((state.versionInfos info).revertAppend row) := by
  simp only [revertAppend, revertAppendInternal, revertIndexes, cut]

/-! ## Rows -/

/-- `RowVersionManager::CommitDelete`. -/
def commitDelete (state : UndoState Row Key Value) (versionInfo commitId : Nat)
    (info : DeleteInfo) : UndoState Row Key Value :=
  { state with
    versionInfos := Function.update state.versionInfos versionInfo
      ((state.versionInfos versionInfo).commitDelete commitId info) }

/-- The version number of an update info is set. -/
def setVersionNumber (state : UndoState Row Key Value) (info versionNumber : Nat) :
    UndoState Row Key Value :=
  { state with
    updateInfos := Function.update state.updateInfos info
      { state.updateInfos info with versionNumber } }

/-- `UpdateSegment::CleanupUpdateInternal`. -/
def cleanupUpdate (state : UndoState Row Key Value) (info : Nat) : UndoState Row Key Value :=
  let removed := state.updateInfos info
  let infos :=
    match removed.prev with
    | none => state.updateInfos
    | some prev =>
        Function.update state.updateInfos prev
          { state.updateInfos prev with next := removed.next }
  let infos :=
    match removed.next with
    | none => infos
    | some next => Function.update infos next { infos next with prev := removed.prev }
  { state with updateInfos := infos }

/-- `UpdateSegment::RollbackUpdate`. -/
def rollbackUpdate (state : UndoState Row Key Value) (info : Nat) : UndoState Row Key Value :=
  let removed := state.updateInfos info
  match state.updateNodes removed.segment removed.vectorIndex with
  | none => state
  | some base =>
      let baseInfo := state.updateInfos base
      let tuples := rollbackUpdateLoop baseInfo.tuples removed.tuples
      { state with
        updateInfos := Function.update state.updateInfos base { baseInfo with tuples } }.cleanupUpdate
        info

end UndoState

end StatsRecommender
