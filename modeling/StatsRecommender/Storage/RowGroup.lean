import StatsRecommender.Storage.ColumnData

/-!
# Row groups

`RowGroup` over its columns, and the version information of its vectors.
-/

namespace StatsRecommender

/-- `ChunkInfoType`. -/
inductive ChunkInfoType where
  | constantInfo
  | vectorInfo
  deriving DecidableEq, Repr

/-- The `vector_info` of `RowVersionManager`: the kind of information kept for each vector. -/
abbrev VersionInfo := List (Option ChunkInfoType)

namespace VersionInfo

/-- The rows of a vector that an append from `first` to `last` covers. -/
def covered (first last vectorIndex : Nat) : Nat × Nat :=
  (if vectorIndex = first / standardVectorSize then first - vectorIndex * standardVectorSize else 0,
    if vectorIndex = (last - 1) / standardVectorSize then last - vectorIndex * standardVectorSize
    else standardVectorSize)

/-- One round of the loop of `AppendVersionInfo`. -/
def appendVector (first last : Nat) (info : VersionInfo) (vectorIndex : Nat) :
    Except String VersionInfo :=
  if covered first last vectorIndex = (0, standardVectorSize) then
    pure (info.set vectorIndex (some .constantInfo))
  else
    match info[vectorIndex]? with
    | some (some .constantInfo) =>
        throw ("Error in RowVersionManager::AppendVersionInfo - expected either a " ++
          "ChunkVectorInfo or no version info")
    | _ => pure (info.set vectorIndex (some .vectorInfo))

/-- The vectors that the rows from `first` to `last` lie in. -/
def vectors (first last : Nat) : List Nat :=
  List.range' (first / standardVectorSize)
    ((last - 1) / standardVectorSize + 1 - first / standardVectorSize)

/-- `RowVersionManager::AppendVersionInfo`. -/
def append (info : VersionInfo) (first last : Nat) : Except String VersionInfo :=
  (vectors first last).foldlM (appendVector first last)
    (info ++ List.replicate ((last - 1) / standardVectorSize + 1 - info.length) none)

/-- `RowVersionManager::RevertAppend`. -/
def revertAppend (info : VersionInfo) (startRow : Nat) : VersionInfo :=
  let kept := (startRow + (standardVectorSize - 1)) / standardVectorSize
  info.take kept ++ List.replicate (info.length - kept) none

/-- No vector that an append covers in part has constant information. -/
def Fits (info : VersionInfo) (first last : Nat) : Prop :=
  ∀ vectorIndex ∈ vectors first last, covered first last vectorIndex ≠ (0, standardVectorSize) →
    info[vectorIndex]? ≠ some (some .constantInfo)

/-- The loop leaves the vectors still to come as they were. -/
theorem foldlM_appendVector {first last : Nat} (pending : List Nat) (info : VersionInfo)
    (nodup : pending.Nodup)
    (fits : ∀ vectorIndex ∈ pending, covered first last vectorIndex ≠ (0, standardVectorSize) →
      info[vectorIndex]? ≠ some (some .constantInfo)) :
    ∃ result, pending.foldlM (appendVector first last) info = .ok result := by
  induction pending generalizing info with
  | nil => exact ⟨info, rfl⟩
  | cons vectorIndex rest ih =>
      obtain ⟨fresh, nodup⟩ := List.nodup_cons.mp nodup
      obtain ⟨kind, hkind⟩ : ∃ kind, appendVector first last info vectorIndex =
          .ok (info.set vectorIndex (some kind)) := by
        rw [appendVector]
        split
        · exact ⟨_, rfl⟩
        · rename_i partly
          have free := fits vectorIndex List.mem_cons_self partly
          split
          · rename_i constant
            exact absurd constant free
          · exact ⟨_, rfl⟩
      obtain ⟨result, hresult⟩ := ih (info.set vectorIndex (some kind)) nodup fun other member => by
        have different : vectorIndex ≠ other := fun same => fresh (same ▸ member)
        rw [List.getElem?_set_ne different]
        exact fits other (List.mem_cons_of_mem _ member)
      refine ⟨result, ?_⟩
      rw [List.foldlM_cons, hkind]
      exact hresult

theorem append_ok {info : VersionInfo} {first last : Nat} (fits : info.Fits first last) :
    ∃ result, info.append first last = .ok result := by
  refine foldlM_appendVector _ _ List.nodup_range' fun vectorIndex member partly => ?_
  rcases Nat.lt_or_ge vectorIndex info.length with inside | outside
  · rw [List.getElem?_append_left inside]
    exact fits vectorIndex member partly
  · rw [List.getElem?_append_right outside, List.getElem?_replicate]
    split <;> simp

end VersionInfo

variable {width : Nat} {C D : Type} {result : Fin width → Except String C} {values : Fin width → C}
  {count kept : Nat}

/-- `RowGroup`; its `index` is its position in the collection. -/
structure RowGroup (width : Nat) (C : Type) where
  start : Nat
  count : Nat
  versionInfo : VersionInfo
  columns : Fin width → C

/-- `DataChunk`. -/
structure DataChunk (width : Nat) where
  size : Nat
  data : Fin width → List VectorSlot
  length_data : ∀ column, (data column).length = size

/-- A chunk of equal rows. -/
def DataChunk.replicate (width count : Nat) (slot : VectorSlot) : DataChunk width where
  size := count
  data _ := List.replicate count slot
  length_data _ := List.length_replicate

namespace DataChunk

/-- The first rows, which is what an append of `count` rows looks at. -/
def head (chunk : DataChunk width) (count : Nat) : DataChunk width where
  size := min count chunk.size
  data column := (chunk.data column).take count
  length_data column := by rw [List.length_take, chunk.length_data]

/-- `DataChunk::Slice` from an offset to the end. -/
def slice (chunk : DataChunk width) (offset : Nat) : DataChunk width where
  size := chunk.size - offset
  data column := (chunk.data column).drop offset
  length_data column := by rw [List.length_drop, chunk.length_data]

end DataChunk

/-- The results for all columns, or the first exception. -/
def allColumns : {width : Nat} → (Fin width → Except String C) → Except String (Fin width → C)
  | 0, _ => pure Fin.elim0
  | _ + 1, result => do
      let first ← result 0
      let rest ← allColumns fun column => result column.succ
      pure (Fin.cons first rest)

theorem allColumns_ok (ok : ∀ column, result column = .ok (values column)) :
    allColumns result = .ok values := by
  induction width with
  | zero =>
      have same : (Fin.elim0 : Fin 0 → C) = values := funext fun column => column.elim0
      exact congrArg Except.ok same
  | succ width ih =>
      rw [allColumns, ok 0, ih fun column => ok column.succ]
      exact congrArg Except.ok (Fin.cons_self_tail values)

theorem of_allColumns_ok (ok : allColumns result = .ok values) (column : Fin width) :
    result column = .ok (values column) := by
  induction width with
  | zero => exact column.elim0
  | succ width ih =>
      rw [allColumns] at ok
      cases hfirst : result 0 with
      | error message =>
          rw [hfirst] at ok
          cases ok
      | ok first =>
          cases hrest : allColumns fun column : Fin width => result column.succ with
          | error message =>
              rw [hfirst, hrest] at ok
              cases ok
          | ok rest =>
              rw [hfirst, hrest] at ok
              cases ok
              cases column using Fin.cases with
              | zero => exact hfirst
              | succ column => exact ih hrest column

namespace RowGroup

def node (rowGroup : RowGroup width C) : SegmentNode := ⟨rowGroup.start, rowGroup.count⟩

def mapColumns (map : Fin width → C → D) (rowGroup : RowGroup width C) : RowGroup width D where
  start := rowGroup.start
  count := rowGroup.count
  versionInfo := rowGroup.versionInfo
  columns column := map column (rowGroup.columns column)

/-- A new row group after `InitializeEmpty`. -/
def initializeEmpty (types : Fin width → LogicalType) (start : Nat) : RowGroup width ColumnData :=
  ⟨start, 0, [], fun column => .create start (types column)⟩

/-- `RowGroup::MoveToCollection`. -/
def moveToCollection (rowGroup : RowGroup width ColumnData) (newStart : Nat) :
    RowGroup width ColumnData :=
  { rowGroup with
    start := newStart
    columns := fun column => (rowGroup.columns column).setStart newStart }

/-- `RowGroup::InitializeAppend`, on the columns. -/
def initializeAppend (rowGroup : RowGroup width ColumnData) : RowGroup width ColumnData :=
  rowGroup.mapColumns fun _ => ColumnData.initializeAppend

/-- `RowGroup::Append` of all rows of a chunk. -/
def append (compression : Compression) (rowGroup : RowGroup width ColumnData)
    (chunk : DataChunk width) : RowGroup width ColumnData :=
  rowGroup.mapColumns fun column data => data.append compression (chunk.data column)

/-- `RowGroup::InitStats`. -/
def initStats (environment : Environment) (tableName : String) (index : Nat)
    (rowGroup : RowGroup width ColumnData) : RowGroup width ColumnData :=
  rowGroup.mapColumns fun column => ColumnData.initStats environment tableName index column

/-- `RowGroup::AppendVersionInfo`. -/
def appendVersionInfo (rowGroupSize : Nat) (rowGroup : RowGroup width C) (count : Nat) :
    Except String (RowGroup width C) := do
  let rowGroupEnd := min (rowGroup.count + count) rowGroupSize
  let versionInfo ← rowGroup.versionInfo.append rowGroup.count rowGroupEnd
  pure { rowGroup with versionInfo, count := rowGroupEnd }

/-- `RowGroup::RevertAppend`. -/
def revertAppend (rowGroup : RowGroup width ColumnData) (rowGroupStart : Nat) :
    Except String (RowGroup width ColumnData) := do
  let columns ← allColumns fun column => (rowGroup.columns column).revertAppend rowGroupStart
  pure
    { rowGroup with
      versionInfo := rowGroup.versionInfo.revertAppend (rowGroupStart - rowGroup.start)
      columns
      count := min (rowGroupStart - rowGroup.start) rowGroup.count }

end RowGroup

/-! ## Rows -/

/-- The first rows of some columns of values. -/
def rowsOf (count : Nat) (columns : Fin width → List (Option Payload)) :
    List (Fin width → Option Payload) :=
  (List.range count).map fun row column => ((columns column)[row]?).getD none

theorem length_rowsOf (count : Nat) (columns : Fin width → List (Option Payload)) :
    (rowsOf count columns).length = count := by
  rw [rowsOf, List.length_map, List.length_range]

theorem rowsOf_append (more : Nat) {columns : Fin width → List (Option Payload)}
    (behind : Fin width → List (Option Payload))
    (length : ∀ column, (columns column).length = count) :
    rowsOf (count + more) (fun column => columns column ++ behind column) =
      rowsOf count columns ++ rowsOf more behind := by
  rw [rowsOf, rowsOf, rowsOf, List.range_add, List.map_append, List.map_map]
  congr 1
  · apply List.map_congr_left
    intro row member
    funext column
    rw [List.getElem?_append_left]
    rw [length]
    exact List.mem_range.mp member
  · apply List.map_congr_left
    intro row _
    funext column
    rw [Function.comp_apply, List.getElem?_append_right, length, Nat.add_sub_cancel_left]
    rw [length]
    exact Nat.le_add_right _ _

theorem take_rowsOf (short : kept ≤ count) (columns : Fin width → List (Option Payload)) :
    (rowsOf count columns).take kept = rowsOf kept columns := by
  rw [rowsOf, rowsOf, ← List.map_take, List.take_range, Nat.min_eq_left short]

theorem rowsOf_take (columns : Fin width → List (Option Payload)) :
    rowsOf kept (fun column => (columns column).take kept) = rowsOf kept columns := by
  apply List.map_congr_left
  intro row member
  funext column
  rw [List.getElem?_take_of_lt (List.mem_range.mp member)]

namespace DataChunk

/-- The rows of a chunk. -/
def rows (chunk : DataChunk width) : List (Fin width → Option Payload) :=
  rowsOf chunk.size fun column => (chunk.data column).map VectorSlot.value

theorem length_rows (chunk : DataChunk width) : chunk.rows.length = chunk.size :=
  length_rowsOf _ _

/-- A chunk that is sliced keeps its rows. -/
theorem rows_head_slice (chunk : DataChunk width) (short : count ≤ chunk.size) :
    (chunk.head count).rows ++ (chunk.slice count).rows = chunk.rows := by
  have length : ∀ column, (((chunk.head count).data column).map VectorSlot.value).length =
      count := fun column => by
    rw [List.length_map, (chunk.head count).length_data]
    exact Nat.min_eq_left short
  have size : (chunk.head count).size = count := Nat.min_eq_left short
  rw [rows, rows, size, ← rowsOf_append _ _ length, rows, slice, Nat.add_sub_cancel' short]
  congr 1
  funext column
  rw [← List.map_append, head, List.take_append_drop]

end DataChunk

variable {rowGroup : RowGroup width ColumnData}

namespace RowGroup

/-- The first rows of a row group. -/
def rowsUpTo (count : Nat) (rowGroup : RowGroup width ColumnData) :
    List (Fin width → Option Payload) :=
  rowsOf count fun column => (rowGroup.columns column).values

/-- The rows of a row group. -/
def rows (rowGroup : RowGroup width ColumnData) : List (Fin width → Option Payload) :=
  rowGroup.rowsUpTo rowGroup.count

/-- Every column of the row group holds the given number of rows. -/
structure Holds (rowGroup : RowGroup width ColumnData) (count : Nat) : Prop where
  wellFormed : ∀ column, (rowGroup.columns column).WellFormed
  start_eq : ∀ column, (rowGroup.columns column).start = rowGroup.start
  count_eq : ∀ column, (rowGroup.columns column).count = count

def Initialized (rowGroup : RowGroup width ColumnData) : Prop :=
  ∀ column, (rowGroup.columns column).Initialized

theorem initializeEmpty_holds (types : Fin width → LogicalType) (start : Nat) :
    (initializeEmpty types start).Holds 0 :=
  ⟨fun _ => ColumnData.create_wellFormed _ _, fun _ => rfl, fun _ => rfl⟩

theorem Holds.initializeAppend (holds : rowGroup.Holds count) :
    rowGroup.initializeAppend.Holds count where
  wellFormed column := ColumnData.initializeAppend_wellFormed (holds.wellFormed column)
  start_eq column := (ColumnData.start_initializeAppend _).trans (holds.start_eq column)
  count_eq column := (ColumnData.count_initializeAppend _).trans (holds.count_eq column)

theorem initializeAppend_initialized (rowGroup : RowGroup width ColumnData) :
    rowGroup.initializeAppend.Initialized :=
  fun _ => ColumnData.initializeAppend_initialized _

@[simp]
theorem rowsUpTo_initializeAppend (count : Nat) (rowGroup : RowGroup width ColumnData) :
    rowGroup.initializeAppend.rowsUpTo count = rowGroup.rowsUpTo count := by
  simp [rowsUpTo, initializeAppend, mapColumns]

@[simp]
theorem start_initializeAppend (rowGroup : RowGroup width ColumnData) :
    rowGroup.initializeAppend.start = rowGroup.start := rfl

@[simp]
theorem count_initializeAppend (rowGroup : RowGroup width ColumnData) :
    rowGroup.initializeAppend.count = rowGroup.count := rfl

/-- An append writes the rows of the chunk behind those of the row group. -/
theorem Holds.append (compression : Compression) (holds : rowGroup.Holds count)
    (initialized : rowGroup.Initialized) (chunk : DataChunk width) :
    (rowGroup.append compression chunk).Holds (count + chunk.size) ∧
      (rowGroup.append compression chunk).Initialized ∧
      (rowGroup.append compression chunk).rowsUpTo (count + chunk.size) =
        rowGroup.rowsUpTo count ++ chunk.rows := by
  have appended := fun column => ColumnData.append_spec compression (holds.wellFormed column)
    (initialized column) (chunk.data column)
  refine ⟨⟨fun column => (appended column).wellFormed, fun column => ?_, fun column => ?_⟩,
    fun column => (appended column).initialized, ?_⟩
  · exact (appended column).start_eq.trans (holds.start_eq column)
  · rw [← chunk.length_data column, ← holds.count_eq column]
    exact (appended column).count_eq
  · rw [rowsUpTo, rowsUpTo, DataChunk.rows, ← rowsOf_append]
    · congr 1
      funext column
      exact (appended column).values_eq
    · intro column
      rw [(holds.wellFormed column).length_values, holds.count_eq]

/-- Building the statistics leaves the rows alone. -/
theorem Holds.initStats (environment : Environment) (tableName : String) (index : Nat)
    (holds : rowGroup.Holds count) :
    (rowGroup.initStats environment tableName index).Holds count := by
  refine ⟨fun column => ?_, fun column => ?_, fun column => ?_⟩
  · exact ColumnData.initStats_wellFormed _ _ _ _ (holds.wellFormed column)
  · exact (ColumnData.start_initStats _ _ _ _ _).trans (holds.start_eq column)
  · exact (ColumnData.count_initStats _ _ _ _ _).trans (holds.count_eq column)

@[simp]
theorem rowsUpTo_initStats (environment : Environment) (tableName : String) (index count : Nat)
    (rowGroup : RowGroup width ColumnData) :
    (rowGroup.initStats environment tableName index).rowsUpTo count = rowGroup.rowsUpTo count := by
  simp [rowsUpTo, RowGroup.initStats, mapColumns]

/-- A revert keeps the rows in front of the start row. -/
theorem Holds.revertAppend {startRow : Nat} (holds : rowGroup.Holds count)
    (low : rowGroup.start ≤ startRow) (high : startRow ≤ rowGroup.start + count) :
    ∃ result, rowGroup.revertAppend startRow = .ok result ∧ result.start = rowGroup.start ∧
      result.count = min (startRow - rowGroup.start) rowGroup.count ∧
      result.Holds (startRow - rowGroup.start) ∧
      result.rowsUpTo (startRow - rowGroup.start) =
        (rowGroup.rowsUpTo count).take (startRow - rowGroup.start) := by
  have cut : ∀ column, ∃ data, (rowGroup.columns column).revertAppend startRow = .ok data ∧
      data.WellFormed ∧ data.start = rowGroup.start ∧ data.count = startRow - rowGroup.start ∧
      data.values = (rowGroup.columns column).values.take (startRow - rowGroup.start) := by
    intro column
    have start := holds.start_eq column
    have reverted := ColumnData.revertAppend_spec (holds.wellFormed column) (start.le.trans low)
      (by rw [start, holds.count_eq]; exact high)
    rwa [start] at reverted
  choose columns reverted wellFormed start_eq count_eq values_eq using cut
  refine ⟨{ rowGroup with
      versionInfo := rowGroup.versionInfo.revertAppend (startRow - rowGroup.start)
      columns
      count := min (startRow - rowGroup.start) rowGroup.count }, ?_, rfl, rfl,
    ⟨wellFormed, start_eq, count_eq⟩, ?_⟩
  · rw [RowGroup.revertAppend, allColumns_ok reverted]
    rfl
  · rw [rowsUpTo, rowsUpTo, take_rowsOf (Nat.sub_le_iff_le_add'.mpr high)]
    rw [← rowsOf_take fun column => (rowGroup.columns column).values]
    exact congrArg _ (funext values_eq)

end RowGroup

end StatsRecommender
