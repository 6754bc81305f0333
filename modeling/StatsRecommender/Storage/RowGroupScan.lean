import StatsRecommender.Storage.RowVersionManager
import StatsRecommender.Storage.ScannedColumn

/-!
# Scanning a row group

`RowGroup::TemplatedScan` for a regular scan: vector by vector, the zone maps of the segments, the
rows that the transaction sees, the filters in the order of the adaptive filter, and the columns
that are left.
-/

namespace StatsRecommender

/-- `RowGroup`, with a column for each of the column ids of a scan. -/
structure ScannedRowGroup (columnCount : Nat) (Cell : Type) where
  start : Nat
  count : Nat
  columns : Fin columnCount → ScannedColumn Cell start count
  versionInfo : RowVersionManager

/-- `CollectionScanState`. -/
structure CollectionScanState {columnCount : Nat} {Cell : Type}
    (group : ScannedRowGroup columnCount Cell) where
  vectorIndex : Nat
  maxRow : Nat
  maxRowGroupRow : Nat
  columnScans : ∀ column, (group.columns column).State

/-- What a scan is given: its transaction, its filters and its sampling. -/
structure ScanParameters (columnCount : Nat) where
  transaction : TransactionData
  filterList : List (ScanFilter columnCount)
  /-- The order of the adaptive filter, at each vector. -/
  permutation : Nat → List Nat
  /-- The vectors that the system sample leaves out. -/
  sampleSkips : Nat → Bool

/-- `DataChunk` of a result. -/
structure ResultChunk (columnCount : Nat) (Cell : Type) where
  count : Nat
  data : Fin columnCount → VectorValues Cell

/-- The rows of a chunk. -/
def ResultChunk.rows {columnCount : Nat} {Cell : Type} (chunk : ResultChunk columnCount Cell) :
    List (Fin columnCount → Option Cell) :=
  (List.range chunk.count).map fun row column => chunk.data column row

namespace ScanParameters

variable {columnCount : Nat} (parameters : ScanParameters columnCount)

/-- `ScanFilterInfo::HasFilters`. -/
def hasFilters : Bool := parameters.filterList.any fun entry => !entry.alwaysTrue

/-- `ScanFilterInfo::ColumnHasFilters`. -/
def columnHasFilters (column : Fin columnCount) : Bool :=
  parameters.filterList.any fun entry =>
    !entry.alwaysTrue && decide (entry.tableColumnIndex = column)

/-- The filters in the order in which a vector is filtered. -/
def filterOrder (vectorIndex : Nat) : List (ScanFilter columnCount) :=
  (parameters.permutation vectorIndex).filterMap fun index => parameters.filterList[index]?

end ScanParameters

section Scan

variable {columnCount : Nat} {Cell : Type} {group : ScannedRowGroup columnCount Cell}

/-- What a round of the loop of `TemplatedScan` comes to. -/
inductive ScanRound (group : ScannedRowGroup columnCount Cell) where
  | continued (state : CollectionScanState group)
  | finished (state : CollectionScanState group)
  | produced (state : CollectionScanState group) (chunk : ResultChunk columnCount Cell)

namespace CollectionScanState

/-- `RowGroup::NextVector`. -/
def nextVector (state : CollectionScanState group) : CollectionScanState group :=
  { state with
    vectorIndex := state.vectorIndex + 1
    columnScans := fun column => (group.columns column).skip (state.columnScans column) }

/-- `NextVector`, some times. -/
def nextVectors : Nat → CollectionScanState group → CollectionScanState group
  | 0, state => state
  | times + 1, state => nextVectors times state.nextVector

/-- The loop of `RowGroup::CheckZonemapSegments`, with whether the vector has to be scanned. -/
def checkZonemapSegments :
    List (ScanFilter columnCount) → CollectionScanState group → Bool × CollectionScanState group
  | [], state => (true, state)
  | entry :: rest, state =>
      if entry.alwaysTrue then checkZonemapSegments rest state
      else
        let column := entry.tableColumnIndex
        let (columnScan, pruneResult) :=
          (group.columns column).checkZonemap entry.filter (state.columnScans column)
        let state :=
          { state with columnScans := Function.update state.columnScans column columnScan }
        if pruneResult ≠ .filterAlwaysFalse then checkZonemapSegments rest state
        else
          match (group.columns column).current columnScan with
          | none => checkZonemapSegments rest state
          | some currentSegment =>
              let targetRow :=
                if state.maxRow ≤ currentSegment.stop then state.maxRow else currentSegment.stop
              let targetVectorIndex := (targetRow - group.start) / standardVectorSize
              if state.vectorIndex = targetVectorIndex then (true, state)
              else (false, nextVectors (targetVectorIndex - state.vectorIndex) state)

end CollectionScanState

/-- The scan states of the columns and the result, as the loops over the columns leave them. -/
structure ColumnProgress (group : ScannedRowGroup columnCount Cell) where
  columnScans : ∀ column, (group.columns column).State
  data : Fin columnCount → VectorValues Cell

/-- A loop over the columns, some of which are read into the result. -/
def readColumns (reads : Fin columnCount → Bool)
    (read : ∀ column, (group.columns column).State →
      Except String ((group.columns column).State × VectorValues Cell))
    (progress : ColumnProgress group) : Except String (ColumnProgress group) :=
  (List.finRange columnCount).foldlM
    (fun progress column =>
      if reads column then do
        let (columnScan, values) ← read column (progress.columnScans column)
        pure ⟨Function.update progress.columnScans column columnScan,
          Function.update progress.data column values⟩
      else pure progress)
    progress

/-- What the loop over the filters carries, with the selection of the rows that are left. -/
structure FilterProgress (group : ScannedRowGroup columnCount Cell) extends ColumnProgress group where
  sel : SelectionVector
  approvedTupleCount : Nat

/-- A round of the loop over the filters of a vector. -/
def filterColumn (vectorIndex : Nat) (progress : FilterProgress group)
    (entry : ScanFilter columnCount) : Except String (FilterProgress group) :=
  let column := entry.tableColumnIndex
  if entry.alwaysTrue then pure progress
  else if progress.approvedTupleCount = 0 then
    pure { progress with
      columnScans := Function.update progress.columnScans column
        ((group.columns column).skip (progress.columnScans column)) }
  else do
    let (columnScan, values, sel, approvedTupleCount) ←
      (group.columns column).filter vectorIndex (progress.columnScans column) entry.filter
        progress.sel progress.approvedTupleCount
    pure ⟨⟨Function.update progress.columnScans column columnScan,
      Function.update progress.data column values⟩, sel, approvedTupleCount⟩

namespace ScanParameters

variable (parameters : ScanParameters columnCount)

/-- The columns with filters, and what they leave of the rows that are selected. -/
def filterColumns (vectorIndex : Nat) (progress : FilterProgress group) :
    Except String (FilterProgress group) :=
  if parameters.hasFilters then do
    let progress ← (parameters.filterOrder vectorIndex).foldlM (filterColumn vectorIndex) progress
    pure { progress with
      data := fun column =>
        if parameters.columnHasFilters column then
          (progress.data column).slice progress.sel progress.approvedTupleCount
        else progress.data column }
  else pure progress

/-- The part of a round behind the check for deleted rows. -/
def scanVector (state : CollectionScanState group) (maxCount : Nat) (validSel : List Nat) :
    Except String (ScanRound group) := do
  let count := validSel.length
  let vectorIndex := state.vectorIndex
  if count = maxCount && !parameters.hasFilters then
    let progress ← readColumns (fun _ => true)
      (fun column columnScan => (group.columns column).scan vectorIndex columnScan)
      ⟨state.columnScans, fun _ _ => none⟩
    pure (.produced
      { state with columnScans := progress.columnScans, vectorIndex := vectorIndex + 1 }
      ⟨count, progress.data⟩)
  else
    let sel : SelectionVector := if count = maxCount then none else some validSel
    let filtered ← parameters.filterColumns vectorIndex
      ⟨⟨state.columnScans, fun _ _ => none⟩, sel, count⟩
    if filtered.approvedTupleCount = 0 then
      pure (.continued { state with
        columnScans := fun column =>
          if parameters.columnHasFilters column then filtered.columnScans column
          else (group.columns column).skip (filtered.columnScans column)
        vectorIndex := vectorIndex + 1 })
    else
      let progress ← readColumns (fun column => !parameters.columnHasFilters column)
        (fun column columnScan =>
          (group.columns column).select vectorIndex columnScan filtered.sel
            filtered.approvedTupleCount)
        filtered.toColumnProgress
      pure (.produced
        { state with columnScans := progress.columnScans, vectorIndex := vectorIndex + 1 }
        ⟨filtered.approvedTupleCount, progress.data⟩)

/-- One round of the loop of `TemplatedScan`. -/
def scanRound (state : CollectionScanState group) : Except String (ScanRound group) :=
  let currentRow := state.vectorIndex * standardVectorSize
  if state.maxRowGroupRow ≤ currentRow then pure (.finished state)
  else if parameters.sampleSkips state.vectorIndex then pure (.continued state.nextVector)
  else
    let maxCount := min standardVectorSize (state.maxRowGroupRow - currentRow)
    let (needed, state) := state.checkZonemapSegments parameters.filterList
    if !needed then pure (.continued state)
    else
      let validSel :=
        group.versionInfo.getSelVector parameters.transaction state.vectorIndex maxCount
      if validSel.length = 0 then pure (.continued state.nextVector)
      else parameters.scanVector state maxCount validSel

/-- `RowGroup::TemplatedScan`: the chunk is none where all rows have been scanned. -/
def templatedScan : Nat → CollectionScanState group →
    Except String (CollectionScanState group × Option (ResultChunk columnCount Cell))
  | 0, _ => throw "the scan of the row group goes on"
  | rounds + 1, state => do
      match ← parameters.scanRound state with
      | .continued state => templatedScan rounds state
      | .finished state => pure (state, none)
      | .produced state chunk => pure (state, some chunk)

/-- The chunks of calls of `TemplatedScan` until all rows have been scanned. -/
def scanChunks (rounds : Nat) :
    Nat → CollectionScanState group → Except String (List (ResultChunk columnCount Cell))
  | 0, _ => throw "the scan of the row group goes on"
  | calls + 1, state => do
      let (state, chunk) ← parameters.templatedScan rounds state
      match chunk with
      | none => pure []
      | some chunk => do
          let chunks ← scanChunks rounds calls state
          pure (chunk :: chunks)

end ScanParameters

end Scan

end StatsRecommender
