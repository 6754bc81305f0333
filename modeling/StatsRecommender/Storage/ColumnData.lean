import StatsRecommender.Storage.ColumnSegments

/-!
# Column data

`StandardColumnData`: a column of a row group with its validity mask, its statistics, the
temp vector an additional statistic is built from, and its in-memory updates.
-/

namespace StatsRecommender

/-- The uncompressed `append` functions of the columns and of their validity masks. -/
structure Compression where
  main : PhysicalType → SegmentFunction Payload
  store_valid : ∀ type slot, slot.valid = true → (main type).store slot = slot.data
  validity : SegmentFunction Bool
  store_validity : ∀ slot, validity.store slot = slot.valid

/-- How values that are written change statistics. -/
structure StatisticsObserver where
  observe : List (Option Payload) → BaseStatistics → BaseStatistics
  observe_additional : ∀ values stats,
    (observe values stats).additionalStats = stats.additionalStats

/-- What storage operations read besides the storage itself. -/
structure Environment where
  runtime : Runtime
  compression : Compression
  /-- The `statistics_update_function` of an update segment. -/
  onUpdate : StatisticsObserver
  /-- The statistics of a segment that a checkpoint writes. -/
  onCheckpoint : StatisticsObserver
  statisticsSet : StatisticsSet

/-- An `append` for segments with room for every vector. -/
def SegmentFunction.roomy {α : Type} (store : VectorSlot → α) : SegmentFunction α where
  appendCount _ vector := vector.length
  appendCount_le _ _ := Nat.le_refl _
  appendCount_pos _ nonempty := List.length_pos_iff.mpr nonempty
  store := store
  observe _ taken stats :=
    { stats with
      hasNull := stats.hasNull || taken.any fun slot => !slot.valid
      hasNoNull := stats.hasNoNull || taken.any VectorSlot.valid }
  observe_additional _ _ _ := rfl

def Compression.roomy : Compression where
  main _ := .roomy VectorSlot.data
  store_valid _ _ _ := rfl
  validity := .roomy VectorSlot.valid
  store_validity _ := rfl

/-- Statistics that note whether there are NULLs and other values. -/
def StatisticsObserver.nulls : StatisticsObserver where
  observe values stats :=
    { stats with
      hasNull := stats.hasNull || values.any Option.isNone
      hasNoNull := stats.hasNoNull || values.any Option.isSome }
  observe_additional _ _ := rfl

/-- An environment whose mapping recommends one kind for every column. -/
def Environment.uniform (kind : StatisticType) (proper : kind ≠ .error) : Environment where
  runtime := .identityHash
  compression := .roomy
  onUpdate := .nulls
  onCheckpoint := .nulls
  statisticsSet := ⟨kind, [], proper, by simp⟩

/-- The physical types with temp vectors, which are those that can have additional statistics. -/
def PhysicalType.hasTempVector : PhysicalType → Bool
  | .bool | .int8 | .int16 | .int32 | .int64 | .uint8 | .uint16 | .uint32 | .uint64
  | .int128 | .uint128 | .float | .double | .varchar => true
  | _ => false

/--
`StandardColumnData`.  The entry of the column in the static map of temp vectors is kept as
a field, and an update segment as the list of the new values it was given.
-/
structure ColumnData where
  main : ColumnSegments Payload
  validity : ColumnSegments Bool
  statistics : BaseStatistics
  additionalStatsInvalidated : Bool
  tempVector : List Payload
  updates : List (Nat × Payload)
  updateStatistics : Option BaseStatistics
  validityUpdates : List (Nat × Bool)
  validityUpdateStatistics : Option BaseStatistics
  deriving Repr

variable {column : ColumnData}

namespace ColumnData

def type (column : ColumnData) : LogicalType := column.main.type
def start (column : ColumnData) : Nat := column.main.start
def count (column : ColumnData) : Nat := column.main.count

/-- The rows as the segments hold them. -/
def values (column : ColumnData) : List (Option Payload) :=
  List.zipWith (fun data valid => VectorSlot.value ⟨data, valid⟩)
    column.main.values column.validity.values

/-- The validity mask is a column of its own, of this type. -/
def validityType : LogicalType := ⟨.validity, .bit⟩

/-- `CreateColumn`, for a type without children. -/
def create (start : Nat) (type : LogicalType) : ColumnData where
  main := .empty type start
  validity := .empty validityType start
  statistics := .createEmpty type
  additionalStatsInvalidated := false
  tempVector := []
  updates := []
  updateStatistics := none
  validityUpdates := []
  validityUpdateStatistics := none

/-- `StandardColumnData::SetStart`. -/
def setStart (column : ColumnData) (newStart : Nat) : ColumnData :=
  { column with
    main := column.main.setStart newStart
    validity := column.validity.setStart newStart }

/-- `StandardColumnData::InitializeAppend`. -/
def initializeAppend (column : ColumnData) : ColumnData :=
  { column with
    main := column.main.initializeAppend
    validity := column.validity.initializeAppend }

/-- Forget the additional statistic. -/
def dropAdditionalStats (statistics : BaseStatistics) : BaseStatistics :=
  { statistics with additionalStats := none }

/-- `ColumnData::Append` with `StandardColumnData::AppendData`. -/
def append (compression : Compression) (column : ColumnData) (vector : List VectorSlot) :
    ColumnData :=
  let held := column.statistics.additionalStats.isSome
  let main := column.main.appendData (compression.main column.type.internalType)
    column.type.internalType.hasTempVector (dropAdditionalStats column.statistics)
    column.tempVector vector
  let validity := column.validity.appendData compression.validity false main.2.1 [] vector
  { column with
    main := main.1
    validity := validity.1
    statistics := validity.2.1
    additionalStatsInvalidated := column.additionalStatsInvalidated || held
    tempVector := main.2.2 }

/-- `ColumnData::InitStats` with `InitAdditionalStats`. -/
def initStats (environment : Environment) (tableName : String) (index columnIndex : Nat)
    (column : ColumnData) : ColumnData :=
  if column.type.internalType.hasTempVector then
    if column.additionalStatsInvalidated then { column with tempVector := [] }
    else
      { column with
        statistics :=
          { column.statistics with
            additionalStats := environment.statisticsSet.construct environment.runtime
              column.type.internalType column.tempVector tableName index columnIndex }
        tempVector := [] }
  else column

/-- `StandardColumnData::RevertAppend`. -/
def revertAppend (column : ColumnData) (startRow : Nat) : Except String ColumnData := do
  let main ← column.main.revertAppend startRow
  let validity ← column.validity.revertAppend startRow
  pure { column with main, validity }

/-! ## Rows -/

/-- The column and its validity mask hold the same rows, and can be appended to. -/
structure WellFormed (column : ColumnData) : Prop where
  main : column.main.WellFormed
  validity : column.validity.WellFormed
  start_eq : column.validity.start = column.main.start
  count_eq : column.validity.count = column.main.count

/-- Both parts have a segment to append to. -/
structure Initialized (column : ColumnData) : Prop where
  main : column.main.data ≠ []
  validity : column.validity.data ≠ []

theorem WellFormed.length_values (wellFormed : column.WellFormed) :
    column.values.length = column.count := by
  rw [values, List.length_zipWith, ← wellFormed.main.count_eq, ← wellFormed.validity.count_eq,
    wellFormed.count_eq, Nat.min_self]
  rfl

theorem create_wellFormed (start : Nat) (type : LogicalType) : (create start type).WellFormed :=
  ⟨ColumnSegments.empty_wellFormed _ _, ColumnSegments.empty_wellFormed _ _, rfl, rfl⟩

@[simp]
theorem count_create (start : Nat) (type : LogicalType) : (create start type).count = 0 := rfl

@[simp]
theorem start_create (start : Nat) (type : LogicalType) : (create start type).start = start := rfl

@[simp]
theorem values_create (start : Nat) (type : LogicalType) : (create start type).values = [] := rfl

@[simp]
theorem values_initializeAppend (column : ColumnData) :
    column.initializeAppend.values = column.values := by
  simp [values, initializeAppend]

@[simp]
theorem count_initializeAppend (column : ColumnData) :
    column.initializeAppend.count = column.count :=
  ColumnSegments.count_initializeAppend _

@[simp]
theorem start_initializeAppend (column : ColumnData) :
    column.initializeAppend.start = column.start :=
  ColumnSegments.start_initializeAppend _

theorem initializeAppend_wellFormed (wellFormed : column.WellFormed) :
    column.initializeAppend.WellFormed where
  main := ColumnSegments.initializeAppend_wellFormed wellFormed.main
  validity := ColumnSegments.initializeAppend_wellFormed wellFormed.validity
  start_eq := by
    simpa [initializeAppend] using wellFormed.start_eq
  count_eq := by
    simpa [initializeAppend] using wellFormed.count_eq

theorem initializeAppend_initialized (column : ColumnData) :
    column.initializeAppend.Initialized :=
  ⟨ColumnSegments.initializeAppend_ne_nil _, ColumnSegments.initializeAppend_ne_nil _⟩

/-- A stored slot reads back as its value. -/
theorem zipWith_store (compression : Compression) (type : PhysicalType)
    (vector : List VectorSlot) :
    List.zipWith (fun data valid => VectorSlot.value ⟨data, valid⟩)
      (vector.map (compression.main type).store) (vector.map compression.validity.store) =
    vector.map VectorSlot.value := by
  rw [List.zipWith_map, List.zipWith_self]
  apply List.map_congr_left
  intro slot _
  rw [compression.store_validity, VectorSlot.value, VectorSlot.value]
  cases hvalid : slot.valid with
  | false => rfl
  | true => rw [if_pos rfl, if_pos rfl, compression.store_valid type slot hvalid]

/-- What an append does to the rows and to the temp vector. -/
structure Appended (column result : ColumnData) (vector : List VectorSlot) : Prop where
  wellFormed : result.WellFormed
  initialized : result.Initialized
  start_eq : result.start = column.start
  count_eq : result.count = column.count + vector.length
  values_eq : result.values = column.values ++ vector.map VectorSlot.value

theorem append_spec (compression : Compression) (wellFormed : column.WellFormed)
    (initialized : column.Initialized) (vector : List VectorSlot) :
    Appended column (column.append compression vector) vector := by
  obtain ⟨mainValues, mainWellFormed, mainData, -⟩ := ColumnSegments.appendData_spec
    (compression.main column.type.internalType) column.type.internalType.hasTempVector
    (dropAdditionalStats column.statistics) column.tempVector vector wellFormed.main
    initialized.main
  obtain ⟨validValues, validWellFormed, validData, -⟩ := ColumnSegments.appendData_spec
    compression.validity false
    (column.main.appendData (compression.main column.type.internalType)
      column.type.internalType.hasTempVector (dropAdditionalStats column.statistics)
      column.tempVector vector).2.1 [] vector wellFormed.validity initialized.validity
  have mainCount : (column.append compression vector).count = column.count + vector.length := by
    have counted := mainWellFormed.count_eq
    rw [mainValues, List.length_append, List.length_map, ← wellFormed.main.count_eq] at counted
    exact counted
  refine ⟨⟨mainWellFormed, validWellFormed, ?_, ?_⟩, ⟨mainData, validData⟩, ?_, mainCount, ?_⟩
  · change (ColumnSegments.appendData _ _ _ _ _ _).1.start =
      (ColumnSegments.appendData _ _ _ _ _ _).1.start
    rw [ColumnSegments.start_appendData, ColumnSegments.start_appendData, wellFormed.start_eq]
  · have counted := validWellFormed.count_eq
    rw [validValues, List.length_append, List.length_map, ← wellFormed.validity.count_eq,
      wellFormed.count_eq] at counted
    exact counted.trans mainCount.symm
  · exact ColumnSegments.start_appendData _ _ _ _ _ _
  · have lengths : column.main.values.length = column.validity.values.length := by
      rw [← wellFormed.main.count_eq, ← wellFormed.validity.count_eq, wellFormed.count_eq]
    have both : (column.append compression vector).values = List.zipWith
        (fun data valid => VectorSlot.value ⟨data, valid⟩)
        (column.main.values ++ vector.map (compression.main column.type.internalType).store)
        (column.validity.values ++ vector.map compression.validity.store) := by
      rw [← mainValues, ← validValues]
      rfl
    rw [both, List.zipWith_append lengths, zipWith_store]
    rfl

section InitStats

variable (environment : Environment) (tableName : String) (index columnIndex : Nat)
  (column : ColumnData)

/-- Building the statistic leaves the rows alone. -/
@[simp]
theorem main_initStats :
    (column.initStats environment tableName index columnIndex).main = column.main := by
  rw [initStats]
  split
  · split <;> rfl
  · rfl

@[simp]
theorem validity_initStats :
    (column.initStats environment tableName index columnIndex).validity = column.validity := by
  rw [initStats]
  split
  · split <;> rfl
  · rfl

@[simp]
theorem values_initStats :
    (column.initStats environment tableName index columnIndex).values = column.values := by
  rw [values, values, main_initStats, validity_initStats]

theorem start_initStats :
    (column.initStats environment tableName index columnIndex).start = column.start := by
  rw [start, start, main_initStats]

theorem count_initStats :
    (column.initStats environment tableName index columnIndex).count = column.count := by
  rw [count, count, main_initStats]

theorem initStats_wellFormed {column : ColumnData} (wellFormed : column.WellFormed) :
    (column.initStats environment tableName index columnIndex).WellFormed := by
  constructor
  · rw [main_initStats]
    exact wellFormed.main
  · rw [validity_initStats]
    exact wellFormed.validity
  · rw [main_initStats, validity_initStats]
    exact wellFormed.start_eq
  · rw [main_initStats, validity_initStats]
    exact wellFormed.count_eq

end InitStats

theorem revertAppend_parts {startRow : Nat} {result : ColumnData}
    (reverted : column.revertAppend startRow = .ok result) :
    ∃ main validity, column.main.revertAppend startRow = .ok main ∧
      column.validity.revertAppend startRow = .ok validity ∧
      result = { column with main, validity } := by
  rw [ColumnData.revertAppend] at reverted
  cases hmain : column.main.revertAppend startRow with
  | error message =>
      rw [hmain] at reverted
      cases reverted
  | ok main =>
      cases hvalidity : column.validity.revertAppend startRow with
      | error message =>
          rw [hmain, hvalidity] at reverted
          cases reverted
      | ok validity =>
          rw [hmain, hvalidity] at reverted
          cases reverted
          exact ⟨main, validity, rfl, rfl, rfl⟩

/-- The revert cuts the column and its validity mask off at the start row. -/
theorem revertAppend_spec (wellFormed : column.WellFormed) {startRow : Nat}
    (low : column.start ≤ startRow) (high : startRow ≤ column.start + column.count) :
    ∃ result, column.revertAppend startRow = .ok result ∧ result.WellFormed ∧
      result.start = column.start ∧ result.count = startRow - column.start ∧
      result.values = column.values.take (startRow - column.start) := by
  obtain ⟨main, hmain, mainWellFormed, mainStart, mainCount, mainValues⟩ :=
    ColumnSegments.revertAppend_spec wellFormed.main low high
  have validLow : column.validity.start ≤ startRow := by
    rw [wellFormed.start_eq]
    exact low
  have validHigh : startRow ≤ column.validity.start + column.validity.count := by
    rw [wellFormed.start_eq, wellFormed.count_eq]
    exact high
  obtain ⟨validity, hvalidity, validWellFormed, validStart, validCount, validValues⟩ :=
    ColumnSegments.revertAppend_spec wellFormed.validity validLow validHigh
  refine ⟨{ column with main, validity }, ?_, ⟨mainWellFormed, validWellFormed, ?_, ?_⟩,
    mainStart, mainCount, ?_⟩
  · rw [revertAppend, hmain, hvalidity]
    rfl
  · exact validStart.trans (wellFormed.start_eq.trans mainStart.symm)
  · rw [validCount, mainCount, wellFormed.start_eq]
  · change List.zipWith _ main.values validity.values = _
    rw [mainValues, validValues, wellFormed.start_eq, ← List.take_zipWith]
    rfl

end ColumnData

end StatsRecommender
