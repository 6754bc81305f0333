import StatsRecommender.Storage.RowGroupCollection
import StatsRecommender.Storage.ColumnChanges
import StatsRecommender.Library.Transition

/-!
# The storage

All collections over shared column data and shared table statistics, with the operations
that create, fill, change, alter, merge, write and load them.
-/

namespace StatsRecommender

variable {width : Nat}

/-- A collection, whose columns and table statistics are given by their addresses. -/
structure StoredCollection where
  width : Nat
  collection : RowGroupCollection width Nat Nat
  appendState : Option TableAppendState

/-- The objects in memory, the mapping in force, and the statistics that were written to disk. -/
structure Storage where
  statisticsSet : StatisticsSet
  columns : List ColumnData
  tableStats : List BaseStatistics
  collections : List StoredCollection
  dataPointerStats : List BaseStatistics
  persistentStats : List BaseStatistics

/-- The operations that work on one collection. -/
inductive CollectionOperation where
  | initializeAppend
  | append (chunk : Σ width, DataChunk width)
  | finalizeAppend
  | revertAppendInternal (startRow : Nat)
  | initStats (rowGroup : Nat)
  | update (rowGroup column : Nat) (rows : List (Nat × VectorSlot))
  | updateColumn (rowGroup column : Nat) (path : ColumnPath) (rows : List (Nat × VectorSlot))

namespace RowGroupCollection

/-- Changes one column of a row group and merges its statistics into those of the table. -/
def changeColumn (collection : LoadedCollection width) (rowGroup : Nat) (column : Fin width)
    (change : ColumnData → ColumnData) : LoadedCollection width :=
  match collection.rowGroups[rowGroup]? with
  | none => collection
  | some current =>
      let changed := change (current.columns column)
      { collection with
        rowGroups := collection.rowGroups.set rowGroup
          { current with columns := Function.update current.columns column changed }
        stats := Function.update collection.stats column
          ((collection.stats column).merge changed.statistics) }

/-- One operation on a collection whose columns are at hand. -/
def run (environment : Environment) (collection : LoadedCollection width)
    (appendState : Option TableAppendState) :
    CollectionOperation → Except String (LoadedCollection width × Option TableAppendState)
  | .initializeAppend =>
      let started := collection.initializeAppend
      pure (started.1, some started.2)
  | .append chunk =>
      match appendState with
      | none => pure (collection, none)
      | some state =>
          if same : chunk.1 = width then
            let written := collection.append environment state (same ▸ chunk.2)
            pure (written.1, some written.2)
          else pure (collection, some state)
  | .finalizeAppend =>
      match appendState with
      | none => pure (collection, none)
      | some state => do
          let finalized ← collection.finalizeAppend state
          pure (finalized, none)
  | .revertAppendInternal startRow => do
      let reverted ← collection.revertAppendInternal startRow
      pure (reverted, none)
  | .initStats rowGroup =>
      pure
        ({ collection with
            rowGroups := collection.rowGroups.modify rowGroup
              (RowGroup.initStats environment collection.tableName rowGroup) },
          appendState)
  | .update rowGroup column rows =>
      if inside : column < width then
        pure (collection.changeColumn rowGroup ⟨column, inside⟩ fun data =>
          data.update environment rows, appendState)
      else pure (collection, appendState)
  | .updateColumn rowGroup column path rows =>
      if inside : column < width then
        pure (collection.changeColumn rowGroup ⟨column, inside⟩ fun data =>
          data.updateColumn environment path rows, appendState)
      else pure (collection, appendState)

end RowGroupCollection

/-- A row group as it is read from disk; statistics are given by where they were written. -/
structure PersistentRowGroup (width : Nat) where
  start : Nat
  count : Nat
  main : Fin width → List (List Payload × Nat)
  validity : Fin width → List (List Bool × Nat)

/-- The operations on the storage. -/
inductive StorageOperation where
  | loadMapping (statisticsSet : StatisticsSet)
  | create (width rowGroupSize : Nat) (positive : 0 < rowGroupSize) (tableName : String)
      (types : Fin width → LogicalType) (rowStart : Nat)
  | load (width rowGroupSize : Nat) (positive : 0 < rowGroupSize) (tableName : String)
      (types : Fin width → LogicalType) (rowGroups : List (PersistentRowGroup width))
      (stats : Option (Fin width → Nat))
  | onCollection (index : Nat) (operation : CollectionOperation)
  | addColumn (index : Nat) (type : LogicalType) (vectors : Nat → List (List VectorSlot))
  | removeColumn (index column : Nat)
  | alterType (index column : Nat) (type : LogicalType) (vectors : Nat → List (List VectorSlot))
  | mergeStorage (target source : Nat)
  | checkpoint (index : Nat) (sizes validitySizes : List Nat)

namespace Storage

def initial (statisticsSet : StatisticsSet) : Storage := ⟨statisticsSet, [], [], [], [], []⟩

/-- The environment with the mapping in force. -/
def environment (base : Environment) (storage : Storage) : Environment :=
  { base with statisticsSet := storage.statisticsSet }

/-- What a pointer to no object is read as. -/
def noColumn : ColumnData := .create 0 .integer

def noStats : BaseStatistics := .createEmpty .integer

/-- The collection with its columns and statistics at hand. -/
def loaded (storage : Storage) (collection : RowGroupCollection width Nat Nat) :
    LoadedCollection width where
  rowGroupSize := collection.rowGroupSize
  rowGroupSize_pos := collection.rowGroupSize_pos
  tableName := collection.tableName
  types := collection.types
  rowStart := collection.rowStart
  totalRows := collection.totalRows
  requiresNewRowGroup := collection.requiresNewRowGroup
  rowGroups := collection.rowGroups.map
    (RowGroup.mapColumns fun _ id => storage.columns.getD id noColumn)
  stats column := storage.tableStats.getD (collection.stats column) noStats

/-- Writes objects back to their addresses. -/
def writeBack {α : Type} (heap : List α) (ids : Fin width → Nat) (values : Fin width → α) :
    List α :=
  (List.finRange width).foldl (fun heap column => heap.set (ids column) (values column)) heap

/-- Row groups are written back to where they were; the columns of new ones get new addresses. -/
def saveRowGroups (heap : List ColumnData) : List (RowGroup width Nat) →
    List (RowGroup width ColumnData) → List ColumnData × List (RowGroup width Nat)
  | _, [] => (heap, [])
  | [], rowGroup :: rest =>
      let saved := saveRowGroups (heap ++ List.ofFn rowGroup.columns) [] rest
      (saved.1, rowGroup.mapColumns (fun column _ => heap.length + column) :: saved.2)
  | old :: olds, rowGroup :: rest =>
      let saved := saveRowGroups (writeBack heap old.columns rowGroup.columns) olds rest
      (saved.1, rowGroup.mapColumns (fun column _ => old.columns column) :: saved.2)

/-- The storage after a collection was changed, and the collection over addresses again. -/
def save (storage : Storage) (old : RowGroupCollection width Nat Nat)
    (changed : LoadedCollection width) : Storage × RowGroupCollection width Nat Nat :=
  let saved := saveRowGroups storage.columns old.rowGroups changed.rowGroups
  ({ storage with
      columns := saved.1
      tableStats := writeBack storage.tableStats old.stats changed.stats },
    { changed with
      rowGroups := saved.2
      stats := old.stats })

/-- The storage with a new collection, all objects of which are new. -/
def allocate (storage : Storage) (created : LoadedCollection width) : Storage :=
  let saved := saveRowGroups storage.columns [] created.rowGroups
  { storage with
    columns := saved.1
    tableStats := storage.tableStats ++ List.ofFn created.stats
    collections := storage.collections ++
      [⟨width, { created with
        rowGroups := saved.2
        stats := fun column => storage.tableStats.length + column }, none⟩] }

/-- Changes a collection in place. -/
def onCollection (base : Environment) (storage : Storage) (index : Nat)
    (operation : CollectionOperation) : Except String Storage :=
  match storage.collections[index]? with
  | none => pure storage
  | some entry => do
      let changed ← (storage.loaded entry.collection).run (storage.environment base)
        entry.appendState operation
      let saved := storage.save entry.collection changed.1
      pure
        { saved.1 with
          collections := saved.1.collections.set index ⟨entry.width, saved.2, changed.2⟩ }

/-- The column data of a row group read from disk. -/
def loadColumn (storage : Storage) (start : Nat) (type : LogicalType)
    (main : List (List Payload × Nat)) (validity : List (List Bool × Nat)) : ColumnData :=
  .load start type
    (main.map fun pointer => ⟨pointer.1, storage.dataPointerStats.getD pointer.2 noStats⟩)
    (validity.map fun pointer => ⟨pointer.1, storage.dataPointerStats.getD pointer.2 noStats⟩)

def loadRowGroup (storage : Storage) (types : Fin width → LogicalType)
    (rowGroup : PersistentRowGroup width) : RowGroup width ColumnData where
  start := rowGroup.start
  count := rowGroup.count
  versionInfo := []
  columns column := storage.loadColumn rowGroup.start (types column) (rowGroup.main column)
    (rowGroup.validity column)

/--
`RowGroupCollection::Initialize`: with the table statistics read from a database file, or,
for rows from the write-ahead log, with the statistics of the row groups merged.
-/
def loadCollection (storage : Storage) (rowGroupSize : Nat) (positive : 0 < rowGroupSize)
    (tableName : String) (types : Fin width → LogicalType)
    (rowGroups : List (PersistentRowGroup width)) (stats : Option (Fin width → Nat)) :
    LoadedCollection width :=
  { RowGroupCollection.initializeEmpty rowGroupSize positive tableName types 0 with
    totalRows := (rowGroups.map PersistentRowGroup.count).sum
    rowGroups := rowGroups.map (storage.loadRowGroup types)
    stats :=
      match stats with
      | some written => fun column => storage.persistentStats.getD (written column) noStats
      | none => (rowGroups.map (storage.loadRowGroup types)).foldl
          RowGroupCollection.mergeIntoStatistics fun column => .createEmpty (types column) }

/-- A column filled by `AddColumn` or `AlterType`; no statistic is built for it. -/
def fillColumn (compression : Compression) (start : Nat) (type : LogicalType)
    (vectors : List (List VectorSlot)) : ColumnData :=
  vectors.foldl (ColumnData.append compression) (ColumnData.create start type).initializeAppend

/-- The new columns of all row groups, from their statistics on. -/
def fillColumns (compression : Compression) (type : LogicalType)
    (vectors : Nat → List (List VectorSlot)) (rowGroups : List (RowGroup width Nat)) :
    List ColumnData :=
  rowGroups.zipIdx.map fun rowGroup =>
    fillColumn compression rowGroup.1.start type (vectors rowGroup.2)

def mergedStats (type : LogicalType) (columns : List ColumnData) : BaseStatistics :=
  columns.foldl (fun stats column => stats.merge column.statistics) (.createEmpty type)

/-- `RowGroupCollection::AddColumn`: all other columns and their statistics are shared. -/
def addColumn (base : Environment) (storage : Storage) (index : Nat) (type : LogicalType)
    (vectors : Nat → List (List VectorSlot)) : Storage :=
  match storage.collections[index]? with
  | none => storage
  | some ⟨_, collection, _⟩ =>
      let added := fillColumns base.compression type vectors collection.rowGroups
      { storage with
        columns := storage.columns ++ added
        tableStats := storage.tableStats ++ [mergedStats type added]
        collections := storage.collections ++ [⟨_,
          { collection with
            types := Fin.snoc collection.types type
            requiresNewRowGroup := false
            rowGroups := collection.rowGroups.zipIdx.map fun rowGroup =>
              { rowGroup.1 with
                columns := Fin.snoc rowGroup.1.columns (storage.columns.length + rowGroup.2) }
            stats := Fin.snoc collection.stats storage.tableStats.length }, none⟩] }

/-- `RowGroupCollection::RemoveColumn`. -/
def removeColumn (storage : Storage) (index column : Nat) : Storage :=
  match storage.collections[index]? with
  | some ⟨width + 1, collection, _⟩ =>
      if inside : column < width + 1 then
        { storage with
          collections := storage.collections ++ [⟨width,
            { collection with
              types := fun other => collection.types (Fin.succAbove ⟨column, inside⟩ other)
              requiresNewRowGroup := false
              rowGroups := collection.rowGroups.map fun rowGroup =>
                { rowGroup with
                  columns := fun other => rowGroup.columns (Fin.succAbove ⟨column, inside⟩ other) }
              stats := fun other => collection.stats (Fin.succAbove ⟨column, inside⟩ other) },
            none⟩] }
      else storage
  | _ => storage

/-- `RowGroupCollection::AlterType`: the changed column is filled anew, the others are shared. -/
def alterType (base : Environment) (storage : Storage) (index column : Nat) (type : LogicalType)
    (vectors : Nat → List (List VectorSlot)) : Storage :=
  match storage.collections[index]? with
  | none => storage
  | some ⟨width, collection, _⟩ =>
      if inside : column < width then
        let altered := fillColumns base.compression type vectors collection.rowGroups
        { storage with
          columns := storage.columns ++ altered
          tableStats := storage.tableStats ++ [mergedStats type altered]
          collections := storage.collections ++ [⟨width,
            { collection with
              types := Function.update collection.types ⟨column, inside⟩ type
              requiresNewRowGroup := false
              rowGroups := collection.rowGroups.zipIdx.map fun rowGroup =>
                { rowGroup.1 with
                  columns := Function.update rowGroup.1.columns ⟨column, inside⟩
                    (storage.columns.length + rowGroup.2) }
              stats := Function.update collection.stats ⟨column, inside⟩
                storage.tableStats.length }, none⟩] }
      else storage

/-- `MoveToCollection` of row groups behind each other. -/
def moveRowGroups (start : Nat) : List (RowGroup width ColumnData) →
    List (RowGroup width ColumnData)
  | [] => []
  | rowGroup :: rest =>
      rowGroup.moveToCollection start :: moveRowGroups (start + rowGroup.count) rest

/-- `RowGroupCollection::MergeStorage`: the row groups of the source move to the target. -/
def mergeStorage (storage : Storage) (target source : Nat) : Storage :=
  match storage.collections[target]?, storage.collections[source]? with
  | some ⟨width, collection, appendState⟩, some ⟨otherWidth, other, _⟩ =>
      if same : otherWidth = width then
        let data := storage.loaded other
        let start := collection.rowStart + collection.totalRows
        let moved := saveRowGroups storage.columns other.rowGroups
          (moveRowGroups start data.rowGroups)
        let targetStats := (storage.loaded collection).stats
        { storage with
          columns := moved.1
          tableStats := writeBack storage.tableStats collection.stats fun column =>
            (targetStats column).merge ((same ▸ data : LoadedCollection width).stats column)
          collections :=
            (storage.collections.set source ⟨otherWidth, { other with rowGroups := [] }, none⟩).set
              target ⟨width,
                { collection with
                  rowGroups := collection.rowGroups ++ (same ▸ moved.2 : List (RowGroup width Nat))
                  totalRows := collection.totalRows + other.totalRows }, appendState⟩ }
      else storage
  | _, _ => storage

/-- The columns after a checkpoint has written them. -/
def checkpointed (environment : Environment) (sizes validitySizes : List Nat)
    (collection : LoadedCollection width) : LoadedCollection width :=
  { collection with
    rowGroups := collection.rowGroups.map
      (RowGroup.mapColumns fun _ data => data.checkpoint environment sizes validitySizes) }

/--
`RowGroupCollection::Checkpoint`: the columns are written with copies of their segments'
statistics, and the table statistics, copied and merged with those, behind them.
-/
def checkpoint (base : Environment) (storage : Storage) (index : Nat)
    (sizes validitySizes : List Nat) : Storage :=
  match storage.collections[index]? with
  | none => storage
  | some ⟨width, collection, appendState⟩ =>
      let written := checkpointed base sizes validitySizes (storage.loaded collection)
      let saved := storage.save collection written
      let columns := written.rowGroups.flatMap fun rowGroup => List.ofFn rowGroup.columns
      { saved.1 with
        collections := saved.1.collections.set index ⟨width, saved.2, appendState⟩
        dataPointerStats := storage.dataPointerStats ++
          columns.flatMap ColumnData.checkpointStatistics
        persistentStats := storage.persistentStats ++ List.ofFn fun column =>
          (written.rowGroups.map fun rowGroup =>
            (rowGroup.columns column).globalStatistics).foldl BaseStatistics.merge
              (written.stats column) }

/-- One operation. -/
def step (base : Environment) (storage : Storage) : StorageOperation → Except String Storage
  | .loadMapping statisticsSet => pure { storage with statisticsSet }
  | .create _ rowGroupSize positive tableName types rowStart =>
      pure (storage.allocate (.initializeEmpty rowGroupSize positive tableName types rowStart))
  | .load _ rowGroupSize positive tableName types rowGroups stats =>
      pure (storage.allocate
        (storage.loadCollection rowGroupSize positive tableName types rowGroups stats))
  | .onCollection index operation => storage.onCollection base index operation
  | .addColumn index type vectors => pure (storage.addColumn base index type vectors)
  | .removeColumn index column => pure (storage.removeColumn index column)
  | .alterType index column type vectors => pure (storage.alterType base index column type vectors)
  | .mergeStorage target source => pure (storage.mergeStorage target source)
  | .checkpoint index sizes validitySizes =>
      pure (storage.checkpoint base index sizes validitySizes)

/-- An insert of two rows into a new table, at whose end the statistics are built. -/
def insertedRows : List StorageOperation :=
  [.create 1 2048 standardVectorSize_pos "t" (fun _ => .integer) 0, .onCollection 0 .initializeAppend,
    .onCollection 0 (.append ⟨1, .replicate 1 2 ⟨.integer 7, true⟩⟩),
    .onCollection 0 .finalizeAppend, .onCollection 0 (.initStats 0)]

end Storage

end StatsRecommender
