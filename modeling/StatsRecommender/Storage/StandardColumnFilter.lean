import StatsRecommender.Compression.RLEFilter

/-!
# Filters on standard columns

`StandardColumnData::Filter` filters the runs and the validity of a vector where it can, and
otherwise scans the vector and filters its rows as `ColumnData::Filter` does.
-/

namespace StatsRecommender

open RLE

/-- `Vector` with its validity mask. -/
structure NullableVector where
  vector : ResultVector Payload
  valid : Nat → Bool

namespace NullableVector

/-- A flat vector without NULLs, over what the memory holds. -/
def fresh (data : Nat → Payload) : NullableVector := ⟨⟨data, false⟩, fun _ => true⟩

def get (result : NullableVector) (row : Nat) : Option Payload :=
  if result.valid (if result.vector.isConstant then 0 else row) then some (result.vector.get row)
  else none

end NullableVector

/-- A constant segment of a validity mask: all rows are NULL, or all are valid. -/
structure ValiditySegment where
  start : Nat
  count : Nat
  canHaveNull : Bool
  deriving DecidableEq, Repr

def ValiditySegment.node (segment : ValiditySegment) : SegmentNode := ⟨segment.start, segment.count⟩

/-- `StandardColumnData` without updates, its data in RLE segments and its validity constant. -/
structure StandardColumn where
  start : Nat
  count : Nat
  layout : ValueLayout
  data : List (RLESegment Payload)
  validity : List ValiditySegment
  data_contiguous : SegmentTree.Contiguous start (data.map RLESegment.node)
  data_count : (data.map RLESegment.count).sum = count
  data_valid : ∀ segment ∈ data, Run.Proper segment.entries ∧
    (Run.expand segment.entries).length = segment.count ∧ 0 < segment.count
  validity_contiguous : SegmentTree.Contiguous start (validity.map ValiditySegment.node)
  validity_count : (validity.map ValiditySegment.count).sum = count
  validity_pos : ∀ segment ∈ validity, 0 < segment.count

/-! ## Scanning segments -/

/-- `ColumnScanState`; the current segment is named by its position. -/
structure ColumnScanState (S : Type) where
  current : Option Nat
  rowIndex : Nat
  internalIndex : Nat
  initialized : Bool
  scanState : S

/-- What the compression functions do with the segments of a column. -/
structure SegmentReader (S : Type) where
  nodes : List SegmentNode
  initScan : S
  skip : Nat → S → Nat → Except String S
  scanVector : Nat → S → Nat → NullableVector → Except String (S × NullableVector)
  scanPartial : Nat → S → Nat → NullableVector → Nat → Except String (S × NullableVector)

namespace SegmentReader

variable {S : Type}

/-- `ColumnData::InitializeScan`. -/
def initializeScan (reader : SegmentReader S) : ColumnScanState S :=
  let start := (reader.nodes.head?.map SegmentNode.rowStart).getD 0
  ⟨if reader.nodes.isEmpty then none else some 0, start, start, false, reader.initScan⟩

/-- The current segment. -/
def currentNode (reader : SegmentReader S) (state : ColumnScanState S) :
    Except String (Nat × SegmentNode) :=
  match state.current with
  | none => throw "there is no column segment"
  | some index =>
      match reader.nodes[index]? with
      | none => throw "there is no column segment"
      | some node => pure (index, node)

/-- `ColumnData::GetVectorScanType` for a flat result: whether the vector lies in one segment. -/
def scansEntireVector (reader : SegmentReader S) (state : ColumnScanState S) (scanCount : Nat) :
    Except String Bool := do
  let (_, node) ← reader.currentNode state
  pure (decide (scanCount ≤ node.stop - state.rowIndex))

/-- The part of `ColumnData::BeginScanVectorInternal` that initialises the state of a segment. -/
def initializeSegment (reader : SegmentReader S) (node : SegmentNode) (state : ColumnScanState S) :
    ColumnScanState S :=
  if state.initialized then state
  else { state with
    scanState := reader.initScan, internalIndex := node.rowStart, initialized := true }

/-- `ColumnData::BeginScanVectorInternal`. -/
def beginScanVector (reader : SegmentReader S) (state : ColumnScanState S) :
    Except String (ColumnScanState S) := do
  let (index, node) ← reader.currentNode state
  let state := reader.initializeSegment node state
  if state.internalIndex < state.rowIndex then
    let scanState ← reader.skip index state.scanState (state.rowIndex - state.internalIndex)
    pure { state with scanState, internalIndex := state.rowIndex }
  else pure state

/-- What `ColumnData::ScanVector` reads from one segment. -/
def scanSegment (reader : SegmentReader S) (entireVector : Bool) (index : Nat) (scanState : S)
    (result : NullableVector) (scanCount resultOffset : Nat) : Except String (S × NullableVector) :=
  if scanCount = 0 then pure (scanState, result)
  else if entireVector then reader.scanVector index scanState scanCount result
  else reader.scanPartial index scanState scanCount result resultOffset

/-- The loop of `ColumnData::ScanVector`, over the segments from the current one on. -/
def scanSegments (reader : SegmentReader S) (entireVector : Bool) :
    List SegmentNode → Nat → ColumnScanState S → NullableVector → Nat → Nat →
      Except String (ColumnScanState S × NullableVector)
  | [], _, state, result, _, _ => pure (state, result)
  | node :: rest, index, state, result, remaining, resultOffset =>
      if remaining = 0 then pure (state, result)
      else do
        let scanCount := min remaining (node.stop - state.rowIndex)
        let (scanState, result) ←
          reader.scanSegment entireVector index state.scanState result scanCount resultOffset
        let state := { state with scanState, rowIndex := state.rowIndex + scanCount }
        if remaining - scanCount = 0 || rest.isEmpty then pure (state, result)
        else
          scanSegments reader entireVector rest (index + 1)
            { state with current := some (index + 1), scanState := reader.initScan } result
            (remaining - scanCount) (resultOffset + scanCount)

/-- `ColumnData::ScanVector`. -/
def scan (reader : SegmentReader S) (entireVector : Bool) (state : ColumnScanState S)
    (result : NullableVector) (scanCount : Nat) :
    Except String (ColumnScanState S × NullableVector) := do
  let state ← reader.beginScanVector state
  let (index, _) ← reader.currentNode state
  let (state, result) ← reader.scanSegments entireVector (reader.nodes.drop index) index state result
    scanCount 0
  pure ({ state with internalIndex := state.rowIndex }, result)

/-- The loop of `ColumnScanState::NextInternal`, over the segments from the current one on. -/
def nextSegment : List SegmentNode → Nat → ColumnScanState S → ColumnScanState S
  | [], _, state => { state with current := none }
  | node :: rest, index, state =>
      if node.stop ≤ state.rowIndex then
        nextSegment rest (index + 1) { state with current := some (index + 1), initialized := false }
      else state

/-- `ColumnScanState::NextInternal`. -/
def next (reader : SegmentReader S) (state : ColumnScanState S) (count : Nat) : ColumnScanState S :=
  match state.current with
  | none => state
  | some index =>
      nextSegment (reader.nodes.drop index) index { state with rowIndex := state.rowIndex + count }

end SegmentReader

/-! ## The two columns -/

/-- `ConstantScanFunctionValidity`. -/
def constantScanFunctionValidity (segment : ValiditySegment) (scanCount : Nat)
    (result : NullableVector) : NullableVector :=
  if segment.canHaveNull then
    { result with
      valid :=
        if result.vector.isConstant then writeRange result.valid 0 1 false
        else writeRange result.valid 0 scanCount false }
  else result

/-- `ConstantScanPartialValidity`. -/
def constantScanPartialValidity (segment : ValiditySegment) (scanCount : Nat)
    (result : NullableVector) (resultOffset : Nat) : NullableVector :=
  if segment.canHaveNull then
    { result with valid := writeRange result.valid resultOffset (resultOffset + scanCount) false }
  else result

/-- Looking up a segment by its position. -/
def segmentAt {α : Type} (segments : List α) (index : Nat) : Except String α :=
  match segments[index]? with
  | none => throw "there is no column segment"
  | some segment => pure segment

namespace StandardColumn

def dataReader (column : StandardColumn) : SegmentReader RLEScanState where
  nodes := column.data.map RLESegment.node
  initScan := .create
  skip index state skipCount := do
    let segment ← segmentAt column.data index
    state.skipInternal segment skipCount
  scanVector index state scanCount result := do
    let segment ← segmentAt column.data index
    let (state, vector) ← RLE.scan segment state scanCount result.vector
    pure (state, { result with vector })
  scanPartial index state scanCount result resultOffset := do
    let segment ← segmentAt column.data index
    let (state, vector) ← RLE.scanPartial segment state scanCount result.vector resultOffset
    pure (state, { result with vector })

def validityReader (column : StandardColumn) : SegmentReader Unit where
  nodes := column.validity.map ValiditySegment.node
  initScan := ()
  skip _ _ _ := pure ()
  scanVector index _ scanCount result := do
    let segment ← segmentAt column.validity index
    pure ((), constantScanFunctionValidity segment scanCount result)
  scanPartial index _ scanCount result resultOffset := do
    let segment ← segmentAt column.validity index
    pure ((), constantScanPartialValidity segment scanCount result resultOffset)

/-- `ColumnData::GetVectorCount`. -/
def vectorCount (column : StandardColumn) (vectorIndex : Nat) : Nat :=
  min standardVectorSize (column.count - vectorIndex * standardVectorSize)

end StandardColumn

/-- The scan state of a standard column, with that of its validity as the child. -/
structure StandardScan where
  data : ColumnScanState RLEScanState
  validity : ColumnScanState Unit

/-- What a filter leaves: the result vector and the selection with its count. -/
structure FilterResult where
  result : NullableVector
  sel : SelectionVector
  count : Nat

namespace FilterResult

def rows (result : FilterResult) : List Nat := result.sel.rows result.count

end FilterResult

namespace StandardColumn

variable (column : StandardColumn)

/-- `StandardColumnData::GetVectorScanType`. -/
def scansEntireVector (scan : StandardScan) (scanCount : Nat) : Except String Bool := do
  if ← column.dataReader.scansEntireVector scan.data scanCount then
    column.validityReader.scansEntireVector scan.validity scanCount
  else pure false

/-- `ColumnData::Filter`, with `StandardColumnData::Scan`. -/
def columnDataFilter (scan : StandardScan) (vectorIndex : Nat) (data : Nat → Payload)
    (sel : SelectionVector) (count : Nat) (filter : TableFilter) :
    Except String (StandardScan × FilterResult) := do
  let scanCount := column.vectorCount vectorIndex
  let entireVector ← column.scansEntireVector scan scanCount
  let (dataState, result) ←
    column.dataReader.scan entireVector scan.data (.fresh data) scanCount
  let (validityState, result) ←
    column.validityReader.scan entireVector scan.validity result scanCount
  let (sel, count, _) ← filter.filterSelection result.get
    ((List.range scanCount).all fun row => (result.get row).isSome) scanCount sel count
  pure (⟨dataState, validityState⟩, ⟨result, sel, count⟩)

/-- `ColumnData::FilterVector` of the data. -/
def filterData (state : ColumnScanState RLEScanState) (data : Nat → Payload) (targetCount : Nat)
    (sel : SelectionVector) (count : Nat) (filter : TableFilter) :
    Except String (ColumnScanState RLEScanState × (Nat → Payload) × SelectionVector × Nat) := do
  let state ← column.dataReader.beginScanVector state
  let (index, node) ← column.dataReader.currentNode state
  if node.stop - state.rowIndex < targetCount then
    throw "ColumnData::Filter should be able to fetch everything from one segment"
  let segment ← segmentAt column.data index
  let (scanState, data, sel, count) ←
    rleFilter column.layout segment state.scanState targetCount data sel count filter
  pure ({ state with
    scanState, rowIndex := state.rowIndex + targetCount
    internalIndex := state.rowIndex + targetCount }, data, sel, count)

/-- `ConstantFilterValidity`. -/
def constantFilterValidity (segment : ValiditySegment) (vectorCount : Nat) (result : FilterResult)
    (filter : TableFilter) : Except String FilterResult := do
  let (filtersNulls, filtersValidValues) ← filter.filtersNullValues
  if segment.canHaveNull && filtersNulls then pure { result with count := 0 }
  else if !segment.canHaveNull && filtersValidValues then pure { result with count := 0 }
  else
    pure { result with
      result := constantScanFunctionValidity segment vectorCount result.result }

/-- `ColumnData::FilterVector` of the validity. -/
def filterValidity (state : ColumnScanState Unit) (targetCount : Nat) (result : FilterResult)
    (filter : TableFilter) : Except String (ColumnScanState Unit × FilterResult) := do
  let state ← column.validityReader.beginScanVector state
  let (index, node) ← column.validityReader.currentNode state
  if node.stop - state.rowIndex < targetCount then
    throw "ColumnData::Filter should be able to fetch everything from one segment"
  let segment ← segmentAt column.validity index
  let result ← constantFilterValidity segment targetCount result filter
  pure ({ state with
    rowIndex := state.rowIndex + targetCount, internalIndex := state.rowIndex + targetCount }, result)

/-- `StandardColumnData::Filter`. -/
def filter (scan : StandardScan) (vectorIndex : Nat) (data : Nat → Payload) (sel : SelectionVector)
    (count : Nat) (filter : TableFilter) : Except String (StandardScan × FilterResult) := do
  let targetCount := column.vectorCount vectorIndex
  if ← column.scansEntireVector scan targetCount then
    let (dataState, data, sel, count) ← column.filterData scan.data data targetCount sel count filter
    let (validityState, result) ←
      column.filterValidity scan.validity targetCount ⟨.fresh data, sel, count⟩ filter
    pure (⟨dataState, validityState⟩, result)
  else column.columnDataFilter scan vectorIndex data sel count filter

/-- `ColumnScanState::Next`. -/
def skip (scan : StandardScan) : StandardScan :=
  ⟨column.dataReader.next scan.data standardVectorSize,
    column.validityReader.next scan.validity standardVectorSize⟩

end StandardColumn

end StatsRecommender
