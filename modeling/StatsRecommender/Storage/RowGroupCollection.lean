import StatsRecommender.Storage.RowGroup

/-!
# Row group collections

`RowGroupCollection` with its append state: chunks are appended across row groups, the
count of a row group is set when the append is finalized, and an append can be reverted.
-/

namespace StatsRecommender

variable {width : Nat} {C S : Type}

/-- `RowGroupCollection`, over its column data and its table statistics. -/
structure RowGroupCollection (width : Nat) (C S : Type) where
  rowGroupSize : Nat
  rowGroupSize_pos : 0 < rowGroupSize
  tableName : String
  types : Fin width → LogicalType
  rowStart : Nat
  totalRows : Nat
  requiresNewRowGroup : Bool
  rowGroups : List (RowGroup width C)
  stats : Fin width → S

/-- `TableAppendState`; a row group is given by its index. -/
structure TableAppendState where
  rowStart : Nat
  startRowGroup : Nat
  rowGroup : Nat
  offsetInRowGroup : Nat
  totalAppendCount : Nat
  deriving DecidableEq, Repr

/-- A collection with its columns and statistics at hand. -/
abbrev LoadedCollection (width : Nat) := RowGroupCollection width ColumnData BaseStatistics

namespace RowGroupCollection

/-- The constructor and `InitializeEmpty`. -/
def initializeEmpty (rowGroupSize : Nat) (positive : 0 < rowGroupSize) (tableName : String)
    (types : Fin width → LogicalType) (rowStart : Nat) : LoadedCollection width where
  rowGroupSize := rowGroupSize
  rowGroupSize_pos := positive
  tableName := tableName
  types := types
  rowStart := rowStart
  totalRows := 0
  requiresNewRowGroup := false
  rowGroups := []
  stats column := .createEmpty (types column)

/-- `AppendRowGroup`. -/
def appendRowGroup (collection : LoadedCollection width) (startRow : Nat) :
    LoadedCollection width :=
  { collection with
    rowGroups := collection.rowGroups ++ [.initializeEmpty collection.types startRow]
    requiresNewRowGroup := false }

/-- `RowGroup::InitializeAppend` of the last row group. -/
def initializeLast (collection : LoadedCollection width) : LoadedCollection width :=
  { collection with
    rowGroups :=
      collection.rowGroups.modify (collection.rowGroups.length - 1) RowGroup.initializeAppend }

def lastCount (collection : RowGroupCollection width C S) : Nat :=
  (collection.rowGroups.getLast?.map RowGroup.count).getD 0

/-- `RowGroupCollection::InitializeAppend`. -/
def initializeAppend (collection : LoadedCollection width) :
    LoadedCollection width × TableAppendState :=
  let ready :=
    if collection.rowGroups.isEmpty || collection.requiresNewRowGroup then
      collection.appendRowGroup (collection.rowStart + collection.totalRows)
    else collection
  (ready.initializeLast,
    { rowStart := collection.totalRows
      startRowGroup := ready.rowGroups.length - 1
      rowGroup := ready.rowGroups.length - 1
      offsetInRowGroup := ready.lastCount
      totalAppendCount := 0 })

/-- `RowGroup::MergeIntoStatistics` into the statistics of the table. -/
def mergeIntoStatistics (stats : Fin width → BaseStatistics) (rowGroup : RowGroup width ColumnData) :
    Fin width → BaseStatistics :=
  fun column => (stats column).merge (rowGroup.columns column).statistics

/-- The first half of a round of `Append`: what fits into the current row group. -/
def appendHead (environment : Environment) (collection : LoadedCollection width)
    (state : TableAppendState) (chunk : DataChunk width) :
    LoadedCollection width × TableAppendState :=
  match collection.rowGroups[state.rowGroup]? with
  | none => (collection, state)
  | some current =>
      let filled := current.append environment.compression chunk
      ({ collection with
          rowGroups := collection.rowGroups.set state.rowGroup filled
          stats := mergeIntoStatistics collection.stats filled },
        { state with offsetInRowGroup := state.offsetInRowGroup + chunk.size })

/-- The second half of a round of `Append`: the current row group is full, a new one follows. -/
def appendOverflow (environment : Environment) (collection : LoadedCollection width)
    (state : TableAppendState) : LoadedCollection width × TableAppendState :=
  match collection.rowGroups[state.rowGroup]? with
  | none => (collection, state)
  | some current =>
      let initialised : LoadedCollection width :=
        { collection with
          rowGroups := collection.rowGroups.set state.rowGroup
            (current.initStats environment collection.tableName state.rowGroup) }
      let extended := initialised.appendRowGroup (current.start + state.offsetInRowGroup)
      (extended.initializeLast,
        { state with
          rowGroup := extended.rowGroups.length - 1
          offsetInRowGroup := extended.lastCount })

/-- The loop of `RowGroupCollection::Append`; `fuel` bounds the number of rounds. -/
def appendLoop (environment : Environment) : Nat → LoadedCollection width → TableAppendState →
    DataChunk width → LoadedCollection width × TableAppendState
  | 0, collection, state, _ => (collection, state)
  | fuel + 1, collection, state, chunk =>
      let appendCount := min chunk.size (collection.rowGroupSize - state.offsetInRowGroup)
      let written :=
        if 0 < appendCount then
          collection.appendHead environment state (chunk.head appendCount)
        else (collection, state)
      if 0 < chunk.size - appendCount then
        let next := written.1.appendOverflow environment written.2
        appendLoop environment fuel next.1 next.2 (chunk.slice appendCount)
      else written

/-- `RowGroupCollection::Append`. -/
def append (environment : Environment) (collection : LoadedCollection width)
    (state : TableAppendState) (chunk : DataChunk width) :
    LoadedCollection width × TableAppendState :=
  appendLoop environment (chunk.size + 2) collection
    { state with totalAppendCount := state.totalAppendCount + chunk.size } chunk

/-- The loop of `FinalizeAppend`, from the row group the append started in. -/
def finalizeLoop (rowGroupSize : Nat) : List (RowGroup width C) → Nat →
    Except String (List (RowGroup width C))
  | rowGroups, 0 => pure rowGroups
  -- the next row group is a null pointer here, which the code does not check
  | [], _ + 1 => throw "Attempted to dereference a null row group"
  | rowGroup :: rest, remaining + 1 => do
      let appendCount := min (remaining + 1) (rowGroupSize - rowGroup.count)
      let finalized ← rowGroup.appendVersionInfo rowGroupSize appendCount
      let behind ← finalizeLoop rowGroupSize rest (remaining + 1 - appendCount)
      pure (finalized :: behind)

/-- `RowGroupCollection::FinalizeAppend`. -/
def finalizeAppend (collection : RowGroupCollection width C S) (state : TableAppendState) :
    Except String (RowGroupCollection width C S) := do
  let finalized ← finalizeLoop collection.rowGroupSize
    (collection.rowGroups.drop state.startRowGroup) state.totalAppendCount
  pure
    { collection with
      rowGroups := collection.rowGroups.take state.startRowGroup ++ finalized
      totalRows := collection.totalRows + state.totalAppendCount }

/-- The end of `RevertAppendInternal`, once the row group of the start row is found. -/
def revertFrom (collection : LoadedCollection width) (startRow index : Nat) :
    Except String (LoadedCollection width) :=
  match collection.rowGroups[index]? with
  | none => throw "Attempted to access index within vector"
  | some segment =>
      if segment.start = startRow then
        pure
          { collection with
            totalRows := startRow
            rowGroups := collection.rowGroups.take index }
      else do
        let reverted ← segment.revertAppend startRow
        pure
          { collection with
            totalRows := startRow
            rowGroups := collection.rowGroups.take index ++ [reverted] }

/-- `RowGroupCollection::RevertAppendInternal`. -/
def revertAppendInternal (collection : LoadedCollection width) (startRow : Nat) :
    Except String (LoadedCollection width) :=
  if collection.rowGroups.isEmpty then pure { collection with totalRows := startRow }
  else do
    let found ← SegmentTree.tryGetSegmentIndex (collection.rowGroups.map RowGroup.node) startRow
    -- a row that no finalized count reaches is looked for in the last row group
    collection.revertFrom startRow (found.getD (collection.rowGroups.length - 1))

end RowGroupCollection

end StatsRecommender
