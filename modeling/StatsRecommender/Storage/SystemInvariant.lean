import StatsRecommender.Storage.System

/-!
# Invariants of the storage

What every operation on a column keeps, every operation of the storage keeps: the rule that
turns invariants of single columns into invariants of the runs of the storage.
-/

namespace StatsRecommender

variable {width : Nat} {rowGroupSize startRow index : Nat}
  {rowGroups : List (RowGroup width ColumnData)} {result : LoadedCollection width}
  {operation : CollectionOperation} {α : Type} {P : α → Prop} {heap : List α}
  {values : Fin width → α} {vectors : Nat → List (List VectorSlot)} {type : LogicalType}

/-- What is asked of the column operations that the operations of the storage come down to. -/
structure StorageGuard where
  append : ColumnData → List VectorSlot → Prop
  initStats : Environment → String → Nat → Nat → ColumnData → Prop
  updateColumn : ColumnPath → ColumnData → List (Nat × VectorSlot) → Prop

namespace RowGroupCollection

/-- The guard for every column operation of the loop of an append, round by round. -/
def AppendMeets (guard : StorageGuard) (environment : Environment) : Nat →
    LoadedCollection width → TableAppendState → DataChunk width → Prop
  | 0, _, _, _ => True
  | fuel + 1, collection, state, chunk =>
      let appendCount := min chunk.size (collection.rowGroupSize - state.offsetInRowGroup)
      let written :=
        if 0 < appendCount then
          collection.appendHead environment state (chunk.head appendCount)
        else (collection, state)
      (0 < appendCount → ∀ current ∈ collection.rowGroups[state.rowGroup]?, ∀ column,
        guard.append (current.columns column) ((chunk.head appendCount).data column)) ∧
      (0 < chunk.size - appendCount →
        (∀ current ∈ written.1.rowGroups[written.2.rowGroup]?, ∀ column : Fin width,
          guard.initStats environment written.1.tableName written.2.rowGroup column
            (current.columns column)) ∧
        AppendMeets guard environment fuel (written.1.appendOverflow environment written.2).1
          (written.1.appendOverflow environment written.2).2 (chunk.slice appendCount))

/-- The guard for an operation on a collection. -/
def Meets (guard : StorageGuard) (environment : Environment) (collection : LoadedCollection width)
    (appendState : Option TableAppendState) : CollectionOperation → Prop
  | .append chunk => ∀ state, appendState = some state → ∀ same : chunk.1 = width,
      AppendMeets guard environment ((same ▸ chunk.2 : DataChunk width).size + 2) collection
        { state with
          totalAppendCount := state.totalAppendCount + (same ▸ chunk.2 : DataChunk width).size }
        (same ▸ chunk.2)
  | .initStats rowGroup => ∀ current ∈ collection.rowGroups[rowGroup]?, ∀ column : Fin width,
      guard.initStats environment collection.tableName rowGroup column (current.columns column)
  | .updateColumn rowGroup column path rows => ∀ current ∈ collection.rowGroups[rowGroup]?,
      ∀ inside : column < width,
        guard.updateColumn path (current.columns ⟨column, inside⟩) rows
  | _ => True

/-- All columns and all table statistics of the collection have these properties. -/
structure All (Column : ColumnData → Prop) (Table : BaseStatistics → Prop)
    (collection : LoadedCollection width) : Prop where
  columns : ∀ rowGroup ∈ collection.rowGroups, ∀ column, Column (rowGroup.columns column)
  stats : ∀ column, Table (collection.stats column)

end RowGroupCollection

namespace Storage

/-- The guard for the vectors of a column that `AddColumn` or `AlterType` fills. -/
def FillMeets (guard : StorageGuard) (compression : Compression) :
    ColumnData → List (List VectorSlot) → Prop
  | _, [] => True
  | column, vector :: rest =>
      guard.append column vector ∧
        FillMeets guard compression (column.append compression vector) rest

/-- The guard for an operation of the storage. -/
def Meets (guard : StorageGuard) (base : Environment) (storage : Storage) :
    StorageOperation → Prop
  | .onCollection index operation => ∀ entry ∈ storage.collections[index]?,
      (storage.loaded entry.collection).Meets guard (storage.environment base) entry.appendState
        operation
  | .addColumn _ type vectors => ∀ rowGroup start,
      FillMeets guard base.compression (ColumnData.create start type).initializeAppend
        (vectors rowGroup)
  | .alterType _ _ type vectors => ∀ rowGroup start,
      FillMeets guard base.compression (ColumnData.create start type).initializeAppend
        (vectors rowGroup)
  | _ => True

end Storage

/--
Properties of columns, of table statistics and of the statistics of data pointers that the
operations on columns keep, as far as the guard allows them.
-/
structure StorageInvariant (guard : StorageGuard) (base : Environment)
    (Column : ColumnData → Prop) (Table Pointer : BaseStatistics → Prop) : Prop where
  create : ∀ start type, Column (.create start type)
  createEmpty : ∀ type, Table (.createEmpty type) ∧ Pointer (.createEmpty type)
  merge : ∀ stats other, Table stats → Table other → Table (stats.merge other)
  pointer : ∀ stats, Pointer stats → Table stats
  setStart : ∀ column start, Column column → Column (column.setStart start)
  initializeAppend : ∀ column, Column column → Column column.initializeAppend
  append : ∀ column vector, Column column → guard.append column vector →
    Column (column.append base.compression vector) ∧
      Table (column.append base.compression vector).statistics
  initStats : ∀ statisticsSet tableName index columnIndex column, Column column →
    guard.initStats { base with statisticsSet } tableName index columnIndex column →
      Column (column.initStats { base with statisticsSet } tableName index columnIndex)
  revertAppend : ∀ column startRow result, Column column →
    column.revertAppend startRow = .ok result → Column result
  update : ∀ column rows, Column column →
    Column (column.update base rows) ∧ Table (column.update base rows).statistics
  updateColumn : ∀ path column rows, Column column → guard.updateColumn path column rows →
    Column (column.updateColumn base path rows) ∧
      Table (column.updateColumn base path rows).statistics
  load : ∀ start type main validity, (∀ pointer ∈ main, Pointer pointer.statistics) →
    (∀ pointer ∈ validity, Pointer pointer.statistics) →
      Column (.load start type main validity) ∧
        Table (ColumnData.load start type main validity).statistics
  checkpoint : ∀ column sizes validitySizes, Column column →
    Column (column.checkpoint base sizes validitySizes)
  checkpointStatistics : ∀ column, Column column →
    (∀ stats ∈ column.checkpointStatistics, Pointer stats) ∧ Table column.globalStatistics

variable {guard : StorageGuard} {base : Environment} {Column : ColumnData → Prop}
  {Table Pointer : BaseStatistics → Prop}

namespace RowGroupCollection

variable {collection : LoadedCollection width} {state : TableAppendState}

theorem All.append_columns (all : collection.All Column Table)
    {added : List (RowGroup width ColumnData)}
    (addedColumns : ∀ rowGroup ∈ added, ∀ column, Column (rowGroup.columns column)) :
    ∀ rowGroup ∈ collection.rowGroups ++ added, ∀ column, Column (rowGroup.columns column) := by
  intro rowGroup member
  rcases List.mem_append.mp member with old | new
  · exact all.columns rowGroup old
  · exact addedColumns rowGroup new

/-- Replacing a row group by one whose columns have the property. -/
theorem All.set_columns (all : collection.All Column Table) (index : Nat)
    {replaced : RowGroup width ColumnData} (replacedColumns : ∀ column, Column (replaced.columns column)) :
    ∀ rowGroup ∈ collection.rowGroups.set index replaced, ∀ column,
      Column (rowGroup.columns column) := by
  intro rowGroup member
  rcases List.mem_or_eq_of_mem_set member with old | rfl
  · exact all.columns rowGroup old
  · exact replacedColumns

theorem All.modify_columns (all : collection.All Column Table) (index : Nat)
    {change : RowGroup width ColumnData → RowGroup width ColumnData}
    (changed : ∀ rowGroup, collection.rowGroups[index]? = some rowGroup →
      ∀ column, Column ((change rowGroup).columns column)) :
    ∀ rowGroup ∈ collection.rowGroups.modify index change, ∀ column,
      Column (rowGroup.columns column) := by
  intro rowGroup member
  rw [List.mem_iff_getElem?] at member
  obtain ⟨position, found⟩ := member
  rw [List.getElem?_modify] at found
  cases held : collection.rowGroups[position]? with
  | none =>
      rw [held] at found
      cases found
  | some original =>
      rw [held, Option.map_eq_map, Option.map_some] at found
      cases found
      split
      · rename_i here
        exact changed original (here ▸ held)
      · exact all.columns original (List.mem_of_getElem? held)

variable (invariant : StorageInvariant guard base Column Table Pointer)
include invariant

section

variable (all : collection.All Column Table)
include all

theorem All.appendRowGroup (startRow : Nat) :
    (collection.appendRowGroup startRow).All Column Table where
  columns := all.append_columns fun rowGroup member column => by
    rw [List.mem_singleton.mp member]
    exact invariant.create _ _
  stats := all.stats

theorem All.initializeLast :
    collection.initializeLast.All Column Table where
  columns := all.modify_columns _ fun rowGroup found column =>
    invariant.initializeAppend _ (all.columns rowGroup (List.mem_of_getElem? found) column)
  stats := all.stats

theorem All.initializeAppend : collection.initializeAppend.1.All Column Table := by
  rw [RowGroupCollection.initializeAppend]
  dsimp only
  split
  · exact (all.appendRowGroup invariant _).initializeLast invariant
  · exact all.initializeLast invariant

/-- The rows of a chunk are appended to the current row group. -/
theorem All.appendHead (statisticsSet : StatisticsSet) (chunk : DataChunk width)
    (meets : ∀ current ∈ collection.rowGroups[state.rowGroup]?, ∀ column,
      guard.append (current.columns column) (chunk.data column)) :
    (collection.appendHead { base with statisticsSet } state chunk).1.All Column Table := by
  rw [RowGroupCollection.appendHead]
  split
  · exact all
  · rename_i current found
    have appended := fun column => invariant.append _ _
      (all.columns current (List.mem_of_getElem? found) column) (meets current found column)
    exact
      { columns := all.set_columns _ fun column => (appended column).1
        stats := fun column => invariant.merge _ _ (all.stats column) (appended column).2 }

/-- The current row group is full, and a new one is begun. -/
theorem All.appendOverflow (statisticsSet : StatisticsSet)
    (meets : ∀ current ∈ collection.rowGroups[state.rowGroup]?, ∀ column : Fin width,
      guard.initStats { base with statisticsSet } collection.tableName state.rowGroup column
        (current.columns column)) :
    (collection.appendOverflow { base with statisticsSet } state).1.All Column Table := by
  rw [RowGroupCollection.appendOverflow]
  split
  · exact all
  · rename_i current found
    have initialised : ({ collection with
        rowGroups := collection.rowGroups.set state.rowGroup
          (current.initStats { base with statisticsSet } collection.tableName state.rowGroup) } :
        LoadedCollection width).All Column Table :=
      { columns := all.set_columns _ fun column => invariant.initStats _ _ _ _ _
          (all.columns current (List.mem_of_getElem? found) column) (meets current found column)
        stats := all.stats }
    exact (initialised.appendRowGroup invariant _).initializeLast invariant

end

theorem All.appendLoop (statisticsSet : StatisticsSet) (fuel : Nat)
    (all : collection.All Column Table) {chunk : DataChunk width}
    (meets : AppendMeets guard { base with statisticsSet } fuel collection state chunk) :
    (appendLoop { base with statisticsSet } fuel collection state chunk).1.All Column Table := by
  induction fuel generalizing collection state chunk with
  | zero => exact all
  | succ fuel ih =>
      obtain ⟨headMeets, restMeets⟩ := meets
      rw [RowGroupCollection.appendLoop]
      dsimp only
      have writtenAll :
          (if 0 < min chunk.size (collection.rowGroupSize - state.offsetInRowGroup) then
            collection.appendHead { base with statisticsSet } state
              (chunk.head (min chunk.size (collection.rowGroupSize - state.offsetInRowGroup)))
          else (collection, state)).1.All Column Table := by
        split
        · rename_i room
          exact all.appendHead invariant statisticsSet _ (headMeets room)
        · exact all
      split
      · rename_i more
        obtain ⟨overflowMeets, nextMeets⟩ := restMeets more
        exact ih (writtenAll.appendOverflow invariant statisticsSet overflowMeets) nextMeets
      · exact writtenAll

omit invariant in
/-- Finalizing an append changes no column. -/
theorem finalizeLoop_columns {remaining : Nat} {finalized : List (RowGroup width ColumnData)}
    (ok : finalizeLoop rowGroupSize rowGroups remaining = .ok finalized) :
    finalized.map RowGroup.columns = rowGroups.map RowGroup.columns := by
  induction rowGroups generalizing remaining finalized with
  | nil =>
      cases remaining with
      | zero =>
          cases ok
          rfl
      | succ remaining => cases ok
  | cons rowGroup rest ih =>
      cases remaining with
      | zero =>
          cases ok
          rfl
      | succ remaining =>
          rw [finalizeLoop, RowGroup.appendVersionInfo] at ok
          cases hversion : rowGroup.versionInfo.append rowGroup.count
              (min (rowGroup.count + min (remaining + 1) (rowGroupSize - rowGroup.count))
                rowGroupSize) with
          | error message =>
              rw [hversion] at ok
              cases ok
          | ok versionInfo =>
              cases hbehind : finalizeLoop rowGroupSize rest
                  (remaining + 1 - min (remaining + 1) (rowGroupSize - rowGroup.count)) with
              | error message =>
                  rw [hversion, hbehind] at ok
                  cases ok
              | ok behind =>
                  rw [hversion, hbehind] at ok
                  cases ok
                  rw [List.map_cons, List.map_cons, ih hbehind]

section

variable (all : collection.All Column Table)
include all

omit invariant in
theorem All.finalizeAppend (ok : collection.finalizeAppend state = .ok result) :
    result.All Column Table := by
  rw [RowGroupCollection.finalizeAppend] at ok
  cases hloop : finalizeLoop collection.rowGroupSize
      (collection.rowGroups.drop state.startRowGroup) state.totalAppendCount with
  | error message =>
      rw [hloop] at ok
      cases ok
  | ok finalized =>
      rw [hloop] at ok
      cases ok
      refine ⟨?_, all.stats⟩
      intro rowGroup member column
      rcases List.mem_append.mp member with early | late
      · exact all.columns rowGroup (List.mem_of_mem_take early) column
      · have held := List.mem_map_of_mem (f := RowGroup.columns) late
        rw [finalizeLoop_columns hloop] at held
        obtain ⟨original, horiginal, same⟩ := List.mem_map.mp held
        rw [← same]
        exact all.columns original (List.mem_of_mem_drop horiginal) column

theorem All.revertFrom (ok : collection.revertFrom startRow index = .ok result) :
    result.All Column Table := by
  rw [RowGroupCollection.revertFrom] at ok
  split at ok
  · cases ok
  · rename_i segment found
    have early : ∀ rowGroup ∈ collection.rowGroups.take index, ∀ column,
        Column (rowGroup.columns column) :=
      fun rowGroup member => all.columns rowGroup (List.mem_of_mem_take member)
    split at ok
    · cases ok
      exact ⟨early, all.stats⟩
    · rw [RowGroup.revertAppend] at ok
      cases hcolumns : allColumns fun column => (segment.columns column).revertAppend startRow with
      | error message =>
          rw [hcolumns] at ok
          cases ok
      | ok columns =>
          rw [hcolumns] at ok
          cases ok
          refine ⟨?_, all.stats⟩
          intro rowGroup member column
          rcases List.mem_append.mp member with old | cut
          · exact early rowGroup old column
          · rw [List.mem_singleton.mp cut]
            exact invariant.revertAppend _ _ _
              (all.columns segment (List.mem_of_getElem? found) column)
              (of_allColumns_ok hcolumns column)

theorem All.revertAppendInternal (ok : collection.revertAppendInternal startRow = .ok result) :
    result.All Column Table := by
  rw [RowGroupCollection.revertAppendInternal] at ok
  split at ok
  · cases ok
    exact ⟨all.columns, all.stats⟩
  · cases hfound : SegmentTree.tryGetSegmentIndex
        (collection.rowGroups.map RowGroup.node) startRow with
    | error message =>
        rw [hfound] at ok
        cases ok
    | ok found =>
        rw [hfound] at ok
        exact all.revertFrom invariant ok

theorem All.changeColumn {rowGroup : Nat} {column : Fin width} {change : ColumnData → ColumnData}
    (changed : ∀ current ∈ collection.rowGroups[rowGroup]?,
      Column (change (current.columns column)) ∧
        Table (change (current.columns column)).statistics) :
    (collection.changeColumn rowGroup column change).All Column Table := by
  rw [RowGroupCollection.changeColumn]
  split
  · exact all
  · rename_i current found
    obtain ⟨columnChanged, statsChanged⟩ := changed current found
    constructor
    · apply all.set_columns
      intro other
      dsimp only
      by_cases same : other = column
      · subst same
        rw [Function.update_self]
        exact columnChanged
      · rw [Function.update_of_ne same]
        exact all.columns current (List.mem_of_getElem? found) other
    · intro other
      dsimp only
      by_cases same : other = column
      · subst same
        rw [Function.update_self]
        exact invariant.merge _ _ (all.stats other) statsChanged
      · rw [Function.update_of_ne same]
        exact all.stats other

/-- Every operation on a collection that meets the guard keeps the properties. -/
theorem All.run (statisticsSet : StatisticsSet) {appendState : Option TableAppendState}
    (meets : collection.Meets guard { base with statisticsSet } appendState operation)
    {result : LoadedCollection width × Option TableAppendState}
    (ok : collection.run { base with statisticsSet } appendState operation = .ok result) :
    result.1.All Column Table := by
  cases operation with
  | initializeAppend =>
      cases ok
      exact all.initializeAppend invariant
  | append chunk =>
      cases appendState with
      | none =>
          cases ok
          exact all
      | some state =>
          rw [RowGroupCollection.run] at ok
          dsimp only at ok
          split at ok
          · rename_i same
            cases ok
            exact all.appendLoop invariant statisticsSet _ (meets state rfl same)
          · cases ok
            exact all
  | finalizeAppend =>
      cases appendState with
      | none =>
          cases ok
          exact all
      | some state =>
          rw [RowGroupCollection.run] at ok
          cases hfinalized : collection.finalizeAppend state with
          | error message =>
              rw [hfinalized] at ok
              cases ok
          | ok finalized =>
              rw [hfinalized] at ok
              cases ok
              exact all.finalizeAppend hfinalized
  | revertAppendInternal startRow =>
      rw [RowGroupCollection.run] at ok
      cases hreverted : collection.revertAppendInternal startRow with
      | error message =>
          rw [hreverted] at ok
          cases ok
      | ok reverted =>
          rw [hreverted] at ok
          cases ok
          exact all.revertAppendInternal invariant hreverted
  | initStats rowGroup =>
      cases ok
      refine ⟨all.modify_columns _ fun current found column => ?_, all.stats⟩
      exact invariant.initStats _ _ _ _ _ (all.columns current (List.mem_of_getElem? found) column)
        (meets current found column)
  | update rowGroup column rows =>
      rw [RowGroupCollection.run] at ok
      split at ok
      · cases ok
        dsimp only
        apply all.changeColumn invariant
        intro current found
        exact invariant.update _ _ (all.columns current (List.mem_of_getElem? found) _)
      · cases ok
        exact all
  | updateColumn rowGroup column path rows =>
      rw [RowGroupCollection.run] at ok
      split at ok
      · rename_i inside
        cases ok
        dsimp only
        apply all.changeColumn invariant
        intro current found
        exact invariant.updateColumn _ _ _ (all.columns current (List.mem_of_getElem? found) _)
          (meets current found inside)
      · cases ok
        exact all

end

end RowGroupCollection

namespace Storage

open RowGroupCollection

/-- What is written back has the property, so all objects have it. -/
theorem mem_writeBack (ids : Fin width → Nat) (held : ∀ value ∈ heap, P value)
    (new : ∀ column, P (values column)) : ∀ value ∈ writeBack heap ids values, P value := by
  have all : ∀ (pending : List (Fin width)) (heap : List α), (∀ value ∈ heap, P value) →
      ∀ value ∈ pending.foldl (fun heap column => heap.set (ids column) (values column)) heap,
        P value := by
    intro pending
    induction pending with
    | nil => exact fun _ held => held
    | cons column rest ih =>
        intro heap held
        apply ih
        intro value member
        rcases List.mem_or_eq_of_mem_set member with old | rfl
        · exact held value old
        · exact new column
  exact all _ heap held

theorem mem_append_ofFn (held : ∀ value ∈ heap, P value) (new : ∀ column, P (values column)) :
    ∀ value ∈ heap ++ List.ofFn values, P value := by
  intro value member
  rcases List.mem_append.mp member with old | added
  · exact held value old
  · obtain ⟨column, rfl⟩ := List.mem_ofFn.mp added
    exact new column

theorem mem_saveRowGroups {heap : List ColumnData} {olds : List (RowGroup width Nat)}
    (held : ∀ column ∈ heap, Column column)
    (new : ∀ rowGroup ∈ rowGroups, ∀ column, Column (rowGroup.columns column)) :
    ∀ column ∈ (saveRowGroups heap olds rowGroups).1, Column column := by
  induction rowGroups generalizing heap olds with
  | nil =>
      rw [saveRowGroups]
      exact held
  | cons rowGroup rest ih =>
      have first := new rowGroup List.mem_cons_self
      have later := fun other member => new other (List.mem_cons_of_mem _ member)
      cases olds with
      | nil => exact ih (mem_append_ofFn held first) later
      | cons old olds => exact ih (mem_writeBack old.columns held first) later

theorem getD_mem (held : ∀ value ∈ heap, P value) {default : α} (free : P default) (id : Nat) :
    P (heap.getD id default) := by
  rw [List.getD_eq_getElem?_getD]
  cases found : heap[id]? with
  | none => exact free
  | some value => exact held value (List.mem_of_getElem? found)

/-- All objects of the storage have these properties. -/
structure Holds (Column : ColumnData → Prop) (Table Pointer : BaseStatistics → Prop)
    (storage : Storage) : Prop where
  columns : ∀ column ∈ storage.columns, Column column
  tableStats : ∀ stats ∈ storage.tableStats, Table stats
  dataPointerStats : ∀ stats ∈ storage.dataPointerStats, Pointer stats
  persistentStats : ∀ stats ∈ storage.persistentStats, Table stats

theorem initial_holds (statisticsSet : StatisticsSet) :
    (initial statisticsSet).Holds Column Table Pointer where
  columns := fun _ member => by cases member
  tableStats := fun _ member => by cases member
  dataPointerStats := fun _ member => by cases member
  persistentStats := fun _ member => by cases member

variable {storage : Storage} (invariant : StorageInvariant guard base Column Table Pointer)
include invariant

theorem Holds.loaded (holds : storage.Holds Column Table Pointer)
    (collection : RowGroupCollection width Nat Nat) :
    (storage.loaded collection).All Column Table where
  columns := by
    intro rowGroup member column
    obtain ⟨original, -, rfl⟩ := List.mem_map.mp member
    exact getD_mem holds.columns (invariant.create _ _) _
  stats := fun column => getD_mem holds.tableStats (invariant.createEmpty _).1 _

omit invariant in
theorem Holds.save (holds : storage.Holds Column Table Pointer)
    (old : RowGroupCollection width Nat Nat) {changed : LoadedCollection width}
    (all : changed.All Column Table) : (storage.save old changed).1.Holds Column Table Pointer :=
  { holds with
    columns := mem_saveRowGroups holds.columns all.columns
    tableStats := mem_writeBack old.stats holds.tableStats all.stats }

omit invariant in
theorem Holds.allocate (holds : storage.Holds Column Table Pointer)
    {created : LoadedCollection width} (all : created.All Column Table) :
    (storage.allocate created).Holds Column Table Pointer :=
  { holds with
    columns := mem_saveRowGroups holds.columns all.columns
    tableStats := mem_append_ofFn holds.tableStats all.stats }

theorem Holds.onCollection (holds : storage.Holds Column Table Pointer)
    (meets : storage.Meets guard base (.onCollection index operation)) {result : Storage}
    (ok : storage.onCollection base index operation = .ok result) :
    result.Holds Column Table Pointer := by
  rw [Storage.onCollection] at ok
  split at ok
  · cases ok
    exact holds
  · rename_i entry found
    cases hrun : (storage.loaded entry.collection).run (storage.environment base)
        entry.appendState operation with
    | error message =>
        rw [hrun] at ok
        cases ok
    | ok changed =>
        rw [hrun] at ok
        cases ok
        have all := (holds.loaded invariant entry.collection).run invariant _ (meets entry found) hrun
        exact { holds.save entry.collection all with }

/-- A new column holds what its filling leaves. -/
theorem fillColumn_holds (start : Nat) (type : LogicalType) {vectors : List (List VectorSlot)}
    (meets : FillMeets guard base.compression (ColumnData.create start type).initializeAppend
      vectors) :
    Column (fillColumn base.compression start type vectors) ∧
      Table (fillColumn base.compression start type vectors).statistics := by
  have filled : ∀ (vectors : List (List VectorSlot)) (column : ColumnData),
      FillMeets guard base.compression column vectors → Column column →
        Table column.statistics →
          Column (vectors.foldl (ColumnData.append base.compression) column) ∧
            Table (vectors.foldl (ColumnData.append base.compression) column).statistics := by
    intro vectors
    induction vectors with
    | nil => exact fun column _ holds stats => ⟨holds, stats⟩
    | cons vector rest ih =>
        intro column meets holds _
        have appended := invariant.append column vector holds meets.1
        exact ih _ meets.2 appended.1 appended.2
  exact filled vectors _ meets (invariant.initializeAppend _ (invariant.create _ _))
    (invariant.createEmpty type).1

theorem fillColumns_holds (meets : ∀ rowGroup start, FillMeets guard base.compression
      (ColumnData.create start type).initializeAppend (vectors rowGroup))
    (rowGroups : List (RowGroup width Nat)) :
    ∀ column ∈ fillColumns base.compression type vectors rowGroups,
      Column column ∧ Table column.statistics := by
  intro column member
  obtain ⟨rowGroup, -, rfl⟩ := List.mem_map.mp member
  exact fillColumn_holds invariant _ _ (meets _ _)

theorem mergedStats_holds (type : LogicalType) {columns : List ColumnData}
    (stats : ∀ column ∈ columns, Table column.statistics) : Table (mergedStats type columns) := by
  have merged : ∀ (columns : List ColumnData) (start : BaseStatistics), Table start →
      (∀ column ∈ columns, Table column.statistics) →
        Table (columns.foldl (fun stats column => stats.merge column.statistics) start) := by
    intro columns
    induction columns with
    | nil => exact fun _ start _ => start
    | cons column rest ih =>
        intro start holds stats
        exact ih _ (invariant.merge _ _ holds (stats column List.mem_cons_self))
          fun other member => stats other (List.mem_cons_of_mem _ member)
  exact merged columns _ (invariant.createEmpty type).1 stats

/-- The columns and the statistics that an alteration adds. -/
theorem Holds.fill (holds : storage.Holds Column Table Pointer)
    (meets : ∀ rowGroup start, FillMeets guard base.compression
      (ColumnData.create start type).initializeAppend (vectors rowGroup))
    (rowGroups : List (RowGroup width Nat)) :
    ({ storage with
        columns := storage.columns ++ fillColumns base.compression type vectors rowGroups
        tableStats := storage.tableStats ++
          [mergedStats type (fillColumns base.compression type vectors rowGroups)] } :
      Storage).Holds Column Table Pointer := by
  have filled := fillColumns_holds invariant meets rowGroups
  refine { holds with columns := ?_, tableStats := ?_ }
  · intro column member
    rcases List.mem_append.mp member with old | new
    · exact holds.columns column old
    · exact (filled column new).1
  · intro stats member
    rcases List.mem_append.mp member with old | new
    · exact holds.tableStats stats old
    · rw [List.mem_singleton.mp new]
      exact mergedStats_holds invariant type fun column member => (filled column member).2

theorem Holds.addColumn (holds : storage.Holds Column Table Pointer)
    (meets : storage.Meets guard base (.addColumn index type vectors)) :
    (storage.addColumn base index type vectors).Holds Column Table Pointer := by
  rw [Storage.addColumn]
  split
  · exact holds
  · rename_i width collection appendState found
    exact { holds.fill invariant meets collection.rowGroups with }

omit invariant in
theorem Holds.removeColumn (holds : storage.Holds Column Table Pointer) (index column : Nat) :
    (storage.removeColumn index column).Holds Column Table Pointer := by
  rw [Storage.removeColumn]
  split
  · split
    · exact { holds with }
    · exact holds
  · exact holds

theorem Holds.alterType (holds : storage.Holds Column Table Pointer) {column : Nat}
    (meets : storage.Meets guard base (.alterType index column type vectors)) :
    (storage.alterType base index column type vectors).Holds Column Table Pointer := by
  rw [Storage.alterType]
  split
  · exact holds
  · rename_i width collection appendState found
    split
    · exact { holds.fill invariant meets collection.rowGroups with }
    · exact holds

theorem moveRowGroups_holds (start : Nat)
    (columns : ∀ rowGroup ∈ rowGroups, ∀ column, Column (rowGroup.columns column)) :
    ∀ rowGroup ∈ moveRowGroups start rowGroups, ∀ column, Column (rowGroup.columns column) := by
  induction rowGroups generalizing start with
  | nil => exact columns
  | cons rowGroup rest ih =>
      intro moved member column
      rcases List.mem_cons.mp member with rfl | later
      · exact invariant.setStart _ _ (columns rowGroup List.mem_cons_self column)
      · exact ih _ (fun other member => columns other (List.mem_cons_of_mem _ member)) moved later
          column

theorem Holds.mergeStorage (holds : storage.Holds Column Table Pointer) (target source : Nat) :
    (storage.mergeStorage target source).Holds Column Table Pointer := by
  rw [Storage.mergeStorage]
  split
  · rename_i width collection appendState otherWidth other otherState _ _
    split
    · rename_i same
      subst same
      have targetAll := holds.loaded invariant collection
      have sourceAll := holds.loaded invariant other
      exact
        { holds with
          columns := mem_saveRowGroups holds.columns
            (moveRowGroups_holds invariant _ sourceAll.columns)
          tableStats := mem_writeBack _ holds.tableStats fun column =>
            invariant.merge _ _ (targetAll.stats column) (sourceAll.stats column) }
    · exact holds
  · exact holds

theorem foldl_merge_holds (others : List BaseStatistics) {stats : BaseStatistics}
    (holds : Table stats) (othersHold : ∀ other ∈ others, Table other) :
    Table (others.foldl BaseStatistics.merge stats) := by
  induction others generalizing stats with
  | nil => exact holds
  | cons other rest ih =>
      exact ih (invariant.merge _ _ holds (othersHold other List.mem_cons_self))
        fun next member => othersHold next (List.mem_cons_of_mem _ member)

theorem Holds.checkpoint (holds : storage.Holds Column Table Pointer) (index : Nat)
    (sizes validitySizes : List Nat) :
    (storage.checkpoint base index sizes validitySizes).Holds Column Table Pointer := by
  rw [Storage.checkpoint]
  split
  · exact holds
  · rename_i width collection appendState found
    have all := holds.loaded invariant collection
    have written : (checkpointed base sizes validitySizes (storage.loaded collection)).All
        Column Table := by
      refine ⟨?_, all.stats⟩
      intro rowGroup member column
      obtain ⟨original, horiginal, rfl⟩ := List.mem_map.mp member
      exact invariant.checkpoint _ _ _ (all.columns original horiginal column)
    refine { holds.save collection written with dataPointerStats := ?_, persistentStats := ?_ }
    · intro stats member
      rcases List.mem_append.mp member with old | new
      · exact holds.dataPointerStats stats old
      · obtain ⟨column, hcolumn, hstats⟩ := List.mem_flatMap.mp new
        obtain ⟨rowGroup, hrowGroup, hheld⟩ := List.mem_flatMap.mp hcolumn
        obtain ⟨position, rfl⟩ := List.mem_ofFn.mp hheld
        exact (invariant.checkpointStatistics _
          (written.columns rowGroup hrowGroup position)).1 stats hstats
    · apply mem_append_ofFn holds.persistentStats
      intro column
      apply foldl_merge_holds invariant _ (written.stats column)
      intro stats member
      obtain ⟨rowGroup, hrowGroup, rfl⟩ := List.mem_map.mp member
      exact (invariant.checkpointStatistics _ (written.columns rowGroup hrowGroup column)).2

/-- A collection read from disk. -/
theorem Holds.loadCollection (holds : storage.Holds Column Table Pointer)
    (positive : 0 < rowGroupSize) (tableName : String) (types : Fin width → LogicalType)
    (rowGroups : List (PersistentRowGroup width)) (stats : Option (Fin width → Nat)) :
    (storage.loadCollection rowGroupSize positive tableName types rowGroups stats).All
      Column Table := by
  have pointers : ∀ id, Pointer (storage.dataPointerStats.getD id noStats) :=
    getD_mem holds.dataPointerStats (invariant.createEmpty _).2
  have loaded : ∀ (rowGroup : PersistentRowGroup width) (column : Fin width),
      Column ((storage.loadRowGroup types rowGroup).columns column) ∧
        Table ((storage.loadRowGroup types rowGroup).columns column).statistics := by
    intro rowGroup column
    apply invariant.load
    · intro pointer member
      obtain ⟨original, -, rfl⟩ := List.mem_map.mp member
      exact pointers _
    · intro pointer member
      obtain ⟨original, -, rfl⟩ := List.mem_map.mp member
      exact pointers _
  constructor
  · intro rowGroup member column
    obtain ⟨original, -, rfl⟩ := List.mem_map.mp member
    exact (loaded original column).1
  · intro column
    cases stats with
    | some written => exact getD_mem holds.persistentStats (invariant.createEmpty _).1 _
    | none =>
        have merged : ∀ (rowGroups : List (RowGroup width ColumnData))
            (stats : Fin width → BaseStatistics), Table (stats column) →
            (∀ rowGroup ∈ rowGroups, Table (rowGroup.columns column).statistics) →
              Table (rowGroups.foldl mergeIntoStatistics stats column) := by
          intro rowGroups
          induction rowGroups with
          | nil => exact fun _ holds _ => holds
          | cons rowGroup rest ih =>
              intro stats holds others
              exact ih _ (invariant.merge _ _ holds (others rowGroup List.mem_cons_self))
                fun other member => others other (List.mem_cons_of_mem _ member)
        apply merged _ _ (invariant.createEmpty _).1
        intro rowGroup member
        obtain ⟨original, -, rfl⟩ := List.mem_map.mp member
        exact (loaded original column).2

/-- Every operation that meets the guard keeps the properties. -/
theorem Holds.step (holds : storage.Holds Column Table Pointer) {operation : StorageOperation}
    (meets : storage.Meets guard base operation) {result : Storage}
    (ok : storage.step base operation = .ok result) : result.Holds Column Table Pointer := by
  cases operation with
  | loadMapping statisticsSet =>
      cases ok
      exact { holds with }
  | create width rowGroupSize positive tableName types rowStart =>
      cases ok
      apply holds.allocate
      exact ⟨fun _ member => (by cases member), fun _ => (invariant.createEmpty _).1⟩
  | load width rowGroupSize positive tableName types rowGroups stats =>
      cases ok
      exact holds.allocate
        (holds.loadCollection invariant positive tableName types rowGroups stats)
  | onCollection index operation => exact holds.onCollection invariant meets ok
  | addColumn index type vectors =>
      cases ok
      exact holds.addColumn invariant meets
  | removeColumn index column =>
      cases ok
      exact holds.removeColumn index column
  | alterType index column type vectors =>
      cases ok
      exact holds.alterType invariant meets
  | mergeStorage target source =>
      cases ok
      exact holds.mergeStorage invariant target source
  | checkpoint index sizes validitySizes =>
      cases ok
      exact holds.checkpoint invariant index sizes validitySizes

/-- What the column operations keep holds in every state that a guarded run reaches. -/
theorem Holds.run {statisticsSet : StatisticsSet} {operations : List StorageOperation}
    (reaches : Reaches (Storage.step base) (Storage.Meets guard base) (initial statisticsSet)
      operations storage) :
    storage.Holds Column Table Pointer :=
  reaches.state_invariant (Holds Column Table Pointer) (initial_holds statisticsSet)
    fun _ _ _ holds meets ok => holds.step invariant meets ok

end Storage

end StatsRecommender
