import StatsRecommender.Storage.FilledColumn

/-!
# When a revert is exact

Rows that are taken back leave their strings in the dictionary of their segment, and the next
string is read together with them.  Columns of all other types can be appended to as if the rows
had never been there.
-/

namespace StatsRecommender

namespace FilledColumn

/-! ## Whole runs -/

/-- The calls that change a column. -/
inductive ColumnOperation where
  | append (data : ScannedFormat) (appendCount : Nat)
  | revertAppend (startRow : Nat)

def step {functions : SegmentFunctions} (column : FilledColumn functions) :
    ColumnOperation → Except String (FilledColumn functions)
  | .append data appendCount => pure (column.initializeAppend.appendData data appendCount)
  | .revertAppend startRow => column.revertAppend startRow

/-- A revert goes back to a row of the column, or to its end. -/
def Permitted {functions : SegmentFunctions} (column : FilledColumn functions) :
    ColumnOperation → Prop
  | .append _ _ => True
  | .revertAppend startRow =>
      column.start ≤ startRow ∧ startRow ≤ column.start + column.count

variable {type : UncompressedType}

theorem wellFormed_step {column next : FilledColumn type.getFunction}
    {operation : ColumnOperation} (wellFormed : column.WellFormed type.Held)
    (permitted : column.Permitted operation) (taken : column.step operation = .ok next) :
    next.WellFormed type.Held := by
  cases operation with
  | append data appendCount =>
      cases taken
      exact (appendData_spec type.laws wellFormed data appendCount).1
  | revertAppend startRow =>
      rcases Nat.lt_or_ge startRow (column.start + column.count) with inside | outside
      · obtain ⟨reverted, result, holds, -⟩ :=
          revertAppend_spec type.laws wellFormed permitted.1 inside
        cases result.symm.trans taken
        exact holds
      · change column.revertAppend startRow = .ok next at taken
        rw [revertAppend] at taken
        split at taken
        · cases taken
          exact wellFormed
        · rename_i last hlast
          obtain ⟨-, -, -, stop⟩ := wellFormed.last hlast
          rw [if_pos (by omega)] at taken
          cases taken
          exact wellFormed

/-- Every column that appends and reverts come to is well formed. -/
theorem wellFormed_of_run {column reached : FilledColumn type.getFunction}
    {operations : List ColumnOperation} (wellFormed : column.WellFormed type.Held)
    (run : Reaches step Permitted column operations reached) : reached.WellFormed type.Held :=
  run.state_invariant (fun column => column.WellFormed type.Held) wellFormed
    fun _ _ _ holds permitted taken => wellFormed_step holds permitted taken

/-! ## Exact reverts -/

/-- Exactly the rows in front of a row are left, and another append goes on from there. -/
structure Reverted (column : FilledColumn type.getFunction) (startRow : Nat)
    (reverted : FilledColumn type.getFunction) : Prop where
  start_eq : reverted.start = column.start
  count_eq : reverted.count = startRow - column.start
  contiguous : SegmentTree.Contiguous reverted.start reverted.nodes
  tiled : (reverted.nodes.map SegmentNode.count).sum = reverted.count
  nonempty : ∀ segment ∈ reverted.data, 0 < segment.count
  rows : reverted.values = column.values.take (startRow - column.start)
  continues : ∀ data appendCount,
    let again := reverted.initializeAppend.appendData data appendCount
    again.count = reverted.count + appendCount ∧
      SegmentTree.Contiguous again.start again.nodes ∧
      (again.nodes.map SegmentNode.count).sum = again.count ∧
      again.values.length = again.count ∧
      again.values.take reverted.count = reverted.values ∧
      ∀ row < appendCount, ∀ value ∈ type.getFunction.valueOf data row,
        again.values[reverted.count + row]? = some value

/-- What is left is exact if and only if its last segment can be appended to. -/
theorem reverted_iff {column reverted : FilledColumn type.getFunction} {startRow : Nat}
    (wellFormed : reverted.WellFormed type.Held) (start_eq : reverted.start = column.start)
    (count_eq : reverted.count = startRow - column.start)
    (nonempty : ∀ segment ∈ reverted.data, 0 < segment.count)
    (rows : reverted.values = column.values.take (startRow - column.start)) :
    Reverted column startRow reverted ↔ reverted.LastReady type.Ready := by
  constructor
  · intro exact_rows
    by_contra unready
    obtain ⟨data, value, expected, misread⟩ := appendData_misread type.laws wellFormed unready
    exact misread ((exact_rows.continues data 1).2.2.2.2.2 0 Nat.one_pos value expected)
  · intro ready
    refine ⟨start_eq, count_eq, wellFormed.contiguous, wellFormed.count_eq.symm, nonempty, rows,
      fun data appendCount => ?_⟩
    obtain ⟨holds, -, total, added, values_eq, length, reads⟩ :=
      appendData_spec type.laws wellFormed data appendCount
    have width := wellFormed.count_values
    refine ⟨total, holds.contiguous, holds.count_eq.symm, holds.count_values.symm, ?_, ?_⟩
    · rw [values_eq, width, List.take_left]
    · intro row below value expected
      rw [values_eq, width, List.getElem?_append_right (Nat.le_add_right _ _),
        Nat.add_sub_cancel_left]
      refine reads ready row (length.symm ▸ below) value ?_
      rwa [Nat.zero_add]

/-- A revert behind an append is exact if and only if the segment it cuts can be appended to. -/
theorem revert_exact_iff {column : FilledColumn type.getFunction}
    (wellFormed : column.WellFormed type.Held) (data : ScannedFormat) (appendCount : Nat)
    {startRow : Nat} (low : column.start ≤ startRow)
    (high : startRow < column.start + column.count + appendCount) :
    (∃ reverted,
      (column.initializeAppend.appendData data appendCount).revertAppend startRow =
        .ok reverted ∧
      Reverted (column.initializeAppend.appendData data appendCount) startRow reverted) ↔
      (column.initializeAppend.appendData data appendCount).RevertReady type.Ready startRow := by
  obtain ⟨holds, start_eq, count_eq, -⟩ := appendData_spec type.laws wellFormed data appendCount
  generalize column.initializeAppend.appendData data appendCount = appended at *
  obtain ⟨reverted, result, reverted_holds, reverted_start, reverted_count, nonempty, rows,
    ready⟩ := revertAppend_spec type.laws holds (start_eq.trans_le low) (by omega)
  rw [← ready, ← reverted_iff reverted_holds reverted_start reverted_count nonempty rows]
  constructor
  · rintro ⟨other, otherResult, exact_rows⟩
    cases result.symm.trans otherResult
    exact exact_rows
  · intro exact_rows
    exact ⟨reverted, result, exact_rows⟩

/-- A column without rows. -/
def empty (functions : SegmentFunctions) : FilledColumn functions := ⟨0, 0, []⟩

theorem empty_wellFormed : (empty type.getFunction).WellFormed type.Held :=
  ⟨trivial, rfl, fun _ member => (by cases member), fun _ member => (by cases member)⟩

/-- Blocks of 256 KiB for values of four bytes. -/
def integerLayout : FixedSizeLayout where
  segmentSize := fun _ => 262136
  typeSize := 4
  nullValue := .integer (-2147483648)
  memory := fun _ => .integer 0
  typeSize_pos := by decide
  typeSize_le := fun _ => by decide

/-- The vector of the numbers from zero on. -/
def numbers : ScannedFormat := ⟨⟨id, none⟩, fun row => .integer row⟩

theorem revert_exact_iff_of_numbers :
    ∃ reverted,
      ((empty (UncompressedType.fixedSize integerLayout).getFunction).initializeAppend.appendData
        numbers 3).revertAppend 1 = .ok reverted ∧
      Reverted ((empty (UncompressedType.fixedSize integerLayout).getFunction).initializeAppend
        |>.appendData numbers 3) 1 reverted :=
  (revert_exact_iff empty_wellFormed numbers 3 (Nat.zero_le 1) (by decide)).mpr
    fun _ _ _ _ _ _ => trivial

/-- Blocks of 256 KiB for strings. -/
def stringLayout : StringLayout where
  blockSize := 262136
  segmentSize := fun _ => 262136
  stringBlockLimit := 4096
  memory := fun _ => 0
  resultData := fun _ => 0
  limit_pos := by decide
  limit_le := fun _ => by decide
  marker_le := fun _ => by decide
  segmentSize_lt := fun _ => by decide

/-- A vector of one string. -/
def oneString (bytes : List UInt8) : ScannedFormat := ⟨⟨id, none⟩, fun _ => .varchar bytes⟩

/-- A column that holds the string `a`. -/
def columnA : FilledColumn (UncompressedType.varchar stringLayout).getFunction :=
  (empty (UncompressedType.varchar stringLayout).getFunction).initializeAppend.appendData
    (oneString [97]) 1

/-- Once `bcd` is taken back, `x` is read as `xbcd`. -/
theorem string_revert_misread :
    columnA.WellFormed (UncompressedType.varchar stringLayout).Held ∧ columnA.start ≤ 1 ∧
      1 < columnA.start + columnA.count + 1 ∧
      ¬∃ reverted,
        (columnA.initializeAppend.appendData (oneString [98, 99, 100]) 1).revertAppend 1 =
          .ok reverted ∧
        Reverted (columnA.initializeAppend.appendData (oneString [98, 99, 100]) 1) 1 reverted := by
  refine ⟨(appendData_spec (UncompressedType.varchar stringLayout).laws empty_wellFormed _ 1).1,
    by decide +kernel, by decide +kernel, ?_⟩
  rintro ⟨reverted, result, exact_rows⟩
  have read := (exact_rows.continues (oneString [120]) 1).2.2.2.2.2 0 Nat.one_pos
    (.varchar [120]) rfl
  have misread : ((columnA.initializeAppend.appendData (oneString [98, 99, 100]) 1).revertAppend
      1).toOption.bind (fun reverted => (reverted.initializeAppend.appendData
        (oneString [120]) 1).values[reverted.count + 0]?) = some (.varchar [120, 98, 99, 100]) := by
    decide +kernel
  rw [result] at misread
  cases read.symm.trans misread

end FilledColumn

end StatsRecommender
