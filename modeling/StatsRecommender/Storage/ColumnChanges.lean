import StatsRecommender.Storage.ColumnData

/-!
# Changes of a column

The in-memory updates of a column, its checkpoint and its loading from disk, and which
values a column stores.
-/

namespace StatsRecommender

variable {α : Type}

/-- A `DataPointer`: the rows and the statistics of a persistent segment. -/
structure DataPointer (α : Type) where
  values : List α
  statistics : BaseStatistics

namespace ColumnSegments

/-- Persistent segments behind each other. -/
def persistentSegments : Nat → List (DataPointer α) → List (ColumnSegment α)
  | _, [] => []
  | start, pointer :: rest =>
      ⟨start, pointer.values, pointer.statistics, true⟩ ::
        persistentSegments (start + pointer.values.length) rest

/-- `ColumnData::InitializeColumn`, without the statistics of the column. -/
def ofPointers (type : LogicalType) (start : Nat) (pointers : List (DataPointer α)) :
    ColumnSegments α where
  type := type
  start := start
  count := (pointers.map fun pointer => pointer.values.length).sum
  data := persistentSegments start pointers

def isTransient (column : ColumnSegments α) : Bool :=
  column.data.any fun segment => !segment.persistent

end ColumnSegments

/-- The values after some updates, the last of which wins. -/
def applyUpdates (values : List α) (updates : List (Nat × α)) : List α :=
  updates.foldl (fun values update => values.set update.1 update.2) values

/-- The pieces in which a checkpoint writes the rows; it writes no empty segment. -/
def splitRows : List Nat → List α → List (List α)
  | [], [] => []
  | [], value :: rest => [value :: rest]
  | size :: sizes, values =>
      if values.take size = [] then splitRows sizes values
      else values.take size :: splitRows sizes (values.drop size)

/-- The part of a column that `column_path` of `UpdateColumn` names. -/
inductive ColumnPath where
  | main
  | validity
  deriving DecidableEq, Repr

namespace ColumnData

/-- `ColumnData::UpdateInternal`; the update segment leaves NULLs to the validity mask. -/
def updateInternal (environment : Environment) (column : ColumnData)
    (rows : List (Nat × VectorSlot)) : ColumnData :=
  { column with
    updates := column.updates ++
      (rows.filter fun row => row.2.valid).map fun row => (row.1, row.2.data)
    updateStatistics := some (environment.onUpdate.observe (rows.map fun row => row.2.value)
      (column.updateStatistics.getD (.createEmpty column.type)))
    additionalStatsInvalidated := true
    statistics := dropAdditionalStats column.statistics }

/-- `UpdateInternal` of the validity mask, which has no statistics of its own. -/
def updateValidity (environment : Environment) (column : ColumnData)
    (rows : List (Nat × VectorSlot)) : ColumnData :=
  { column with
    validityUpdates := column.validityUpdates ++ rows.map fun row => (row.1, row.2.valid)
    validityUpdateStatistics := some (environment.onUpdate.observe (rows.map fun row => row.2.value)
      (column.validityUpdateStatistics.getD (.createEmpty validityType))) }

/-- `StandardColumnData::GetUpdateStatistics`. -/
def getUpdateStatistics (column : ColumnData) : Option BaseStatistics :=
  match column.updateStatistics, column.validityUpdateStatistics with
  | none, none => none
  | some stats, none => some stats
  | some stats, some validity => some (stats.merge validity)
  | none, some validity => some ((BaseStatistics.createEmpty column.type).merge validity)

/-- `RowGroup::MergeStatistics` with the statistics of the updates. -/
def mergeUpdateStatistics (column : ColumnData) : ColumnData :=
  match column.getUpdateStatistics with
  | none => column
  | some stats => { column with statistics := column.statistics.merge stats }

/-- What `RowGroup::Update` does to one column. -/
def update (environment : Environment) (column : ColumnData) (rows : List (Nat × VectorSlot)) :
    ColumnData :=
  ((column.updateInternal environment rows).updateValidity environment rows).mergeUpdateStatistics

/-- What `RowGroup::UpdateColumn` does to its column. -/
def updateColumn (environment : Environment) (column : ColumnData) (path : ColumnPath)
    (rows : List (Nat × VectorSlot)) : ColumnData :=
  match path with
  | .main => (column.updateInternal environment rows).mergeUpdateStatistics
  | .validity => (column.updateValidity environment rows).mergeUpdateStatistics

/-- `CreateColumn` and `InitializeColumn` with the data pointers read from disk. -/
def load (start : Nat) (type : LogicalType) (main : List (DataPointer Payload))
    (validity : List (DataPointer Bool)) : ColumnData :=
  { create start type with
    main := .ofPointers type start main
    validity := .ofPointers validityType start validity
    statistics := (main.map DataPointer.statistics ++ validity.map DataPointer.statistics).foldl
      BaseStatistics.merge (.createEmpty type) }

def hasUpdates (column : ColumnData) : Bool := column.updateStatistics.isSome

def validityHasUpdates (column : ColumnData) : Bool := column.validityUpdateStatistics.isSome

/-- `HasAnyChanges` of the validity mask. -/
def validityHasChanges (column : ColumnData) : Bool :=
  column.validity.isTransient || column.validityHasUpdates

/-- `StandardColumnData::HasAnyChanges`. -/
def hasChanges (column : ColumnData) : Bool :=
  column.main.isTransient || column.hasUpdates || column.validityHasChanges

/-- The segments a checkpoint leaves: rewritten with the updates if anything has changed. -/
def checkpoint (environment : Environment) (column : ColumnData) (sizes validitySizes : List Nat) :
    ColumnData :=
  let mainValues := applyUpdates column.main.values column.updates
  let validityValues := applyUpdates column.validity.values column.validityUpdates
  let mainPointers := (splitRows sizes mainValues).map fun values =>
    ⟨values, environment.onCheckpoint.observe (values.map some) (.createEmpty column.type)⟩
  let validityPointers := (splitRows validitySizes validityValues).map fun values =>
    ⟨values, environment.onCheckpoint.observe
      (values.map fun valid => if valid then some (.boolean true) else none)
      (.createEmpty validityType)⟩
  { column with
    main := if column.hasChanges then .ofPointers column.main.type column.start mainPointers
      else column.main
    validity := if column.validityHasChanges then
        .ofPointers column.validity.type column.validity.start validityPointers
      else column.validity
    updates := []
    updateStatistics := none
    validityUpdates := []
    validityUpdateStatistics := none }

/-- The statistics of the data pointers that a checkpoint writes, main data first. -/
def checkpointStatistics (column : ColumnData) : List BaseStatistics :=
  column.main.data.map ColumnSegment.statistics ++
    column.validity.data.map ColumnSegment.statistics

/-- The `global_stats` of the checkpoint of a column. -/
def globalStatistics (column : ColumnData) : BaseStatistics :=
  (column.main.data.map ColumnSegment.statistics).foldl BaseStatistics.merge
    (.createEmpty column.type)

/-- Some version of some row is this value. -/
def Stores (column : ColumnData) (payload : Payload) : Prop :=
  ∃ row, (column.main.values[row]? = some payload ∨ (row, payload) ∈ column.updates) ∧
    (column.validity.values[row]? = some true ∨ (row, true) ∈ column.validityUpdates)

end ColumnData

end StatsRecommender
