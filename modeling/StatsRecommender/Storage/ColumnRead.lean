import StatsRecommender.Storage.SegmentScan

/-!
# Reading a standard column

What a standard column holds at its rows, and that `ColumnData::Filter` reads the rows of a vector
and leaves those that pass.
-/

namespace StatsRecommender

open RLE

/-! ## The rows of a column -/

/-- A row of segments without gaps is a row of the segment it lies in. -/
theorem SegmentTree.Contiguous.getElem?_flatMap {α β : Type} {node : α → SegmentNode}
    {content : α → List β} {segments : List α} {start : Nat}
    (contiguous : SegmentTree.Contiguous start (segments.map node))
    (lengths : ∀ segment ∈ segments, (content segment).length = (node segment).count)
    {index : Nat} {segment : α} (found : segments[index]? = some segment) {place : Nat}
    (inside : place < (node segment).count) :
    (segments.flatMap content)[(node segment).rowStart + place - start]? =
      (content segment)[place]? := by
  induction segments generalizing start index with
  | nil => cases found
  | cons head rest ih =>
      obtain ⟨rfl, tail⟩ := contiguous
      have head_length := lengths head List.mem_cons_self
      rw [List.flatMap_cons]
      cases index with
      | zero =>
          cases found
          rw [Nat.add_sub_cancel_left, List.getElem?_append_left (by rw [head_length]; exact inside)]
      | succ index =>
          have behind := tail.le_rowStart (node segment)
            (List.mem_map_of_mem (List.mem_of_getElem? found))
          rw [SegmentNode.stop] at behind
          have place_behind : (content head).length ≤
              (node segment).rowStart + place - (node head).rowStart := by
            rw [head_length]
            omega
          have shifted : (node segment).rowStart + place - (node head).rowStart -
              (content head).length = (node segment).rowStart + place - (node head).stop := by
            rw [head_length, SegmentNode.stop]
            omega
          rw [List.getElem?_append_right place_behind, shifted]
          exact ih tail (fun segment member => lengths segment (List.mem_cons_of_mem _ member)) found

namespace StandardColumn

/-- The value that is stored at a row, of whatever validity. -/
def valueAt (column : StandardColumn) (row : Nat) : Option Payload :=
  (column.data.flatMap fun segment => Run.expand segment.entries)[row - column.start]?

/-- The validity of a row. -/
def validAt (column : StandardColumn) (row : Nat) : Bool :=
  ((column.validity.flatMap fun segment =>
    List.replicate segment.count (!segment.canHaveNull))[row - column.start]?).getD false

/-- What the column holds at a row. -/
def get (column : StandardColumn) (row : Nat) : Option Payload :=
  if column.validAt row then column.valueAt row else none

variable (column : StandardColumn)

theorem valueAt_of_segment {index : Nat} {segment : RLESegment Payload}
    (found : column.data[index]? = some segment) {place : Nat} (inside : place < segment.count) :
    column.valueAt (segment.start + place) = segment.row place :=
  column.data_contiguous.getElem?_flatMap
    (fun segment member => (column.data_valid segment member).2.1) found inside

theorem isSome_valueAt {row : Nat} (low : column.start ≤ row)
    (high : row < column.start + column.count) : (column.valueAt row).isSome = true := by
  have lengths : column.data.map (fun segment => (Run.expand segment.entries).length) =
      column.data.map RLESegment.count :=
    List.map_congr_left fun segment member => (column.data_valid segment member).2.1
  have bound : row - column.start <
      (column.data.flatMap fun segment => Run.expand segment.entries).length := by
    rw [List.length_flatMap, lengths, column.data_count]
    omega
  rw [valueAt, List.getElem?_eq_getElem bound]
  rfl

theorem validAt_of_segment {index : Nat} {segment : ValiditySegment}
    (found : column.validity[index]? = some segment) {place : Nat} (inside : place < segment.count) :
    column.validAt (segment.start + place) = !segment.canHaveNull := by
  have lengths : ∀ segment ∈ column.validity,
      ((fun segment => List.replicate segment.count (!segment.canHaveNull) :
        ValiditySegment → List Bool) segment).length = segment.node.count :=
    fun segment _ => List.length_replicate
  have value := column.validity_contiguous.getElem?_flatMap lengths found inside
  rw [List.getElem?_replicate_of_lt inside] at value
  rw [validAt]
  change (_[segment.node.rowStart + place - column.start]?).getD false = _
  rw [value]
  rfl

theorem data_found {index : Nat} {node : SegmentNode}
    (found : column.dataReader.nodes[index]? = some node) :
    ∃ segment, column.data[index]? = some segment ∧ segment.node = node := by
  rw [dataReader, List.getElem?_map, Option.map_eq_some_iff] at found
  exact found

theorem node_of_data {index : Nat} {segment : RLESegment Payload} {node : SegmentNode}
    (hsegment : column.data[index]? = some segment)
    (found : column.dataReader.nodes[index]? = some node) : segment.node = node := by
  rw [dataReader, List.getElem?_map, hsegment] at found
  exact Option.some.inj found

theorem validity_found {index : Nat} {node : SegmentNode}
    (found : column.validityReader.nodes[index]? = some node) :
    ∃ segment, column.validity[index]? = some segment ∧ segment.node = node := by
  rw [validityReader, List.getElem?_map, Option.map_eq_some_iff] at found
  exact found

theorem segmentAt_of_found {α : Type} {segments : List α} {index : Nat} {segment : α}
    (found : segments[index]? = some segment) : segmentAt segments index = .ok segment := by
  rw [segmentAt, found]
  rfl

theorem data_total :
    (column.dataReader.nodes.map SegmentNode.count).sum = column.count := by
  rw [dataReader, List.map_map]
  exact column.data_count

theorem validity_total :
    (column.validityReader.nodes.map SegmentNode.count).sum = column.count := by
  rw [validityReader, List.map_map]
  exact column.validity_count

/-! ## Reading the data -/

theorem dataReader_skip {index : Nat} {segment : RLESegment Payload}
    (found : column.data[index]? = some segment) (state : RLEScanState) (skipCount : Nat) :
    column.dataReader.skip index state skipCount = state.skipInternal segment skipCount := by
  change (segmentAt column.data index >>= fun segment => state.skipInternal segment skipCount) = _
  rw [segmentAt_of_found found]
  rfl

theorem dataReader_scanVector {index : Nat} {segment : RLESegment Payload}
    (found : column.data[index]? = some segment) {state state' : RLEScanState} {scanCount : Nat}
    {result : NullableVector} {vector : ResultVector Payload}
    (scanned : RLE.scan segment state scanCount result.vector = .ok (state', vector)) :
    column.dataReader.scanVector index state scanCount result =
      .ok (state', { result with vector }) := by
  change (segmentAt column.data index >>= fun segment =>
    RLE.scan segment state scanCount result.vector >>= fun read => _) = _
  rw [segmentAt_of_found found]
  dsimp only [bind, Except.bind]
  rw [scanned]
  rfl

theorem dataReader_scanPartial {index : Nat} {segment : RLESegment Payload}
    (found : column.data[index]? = some segment) {state state' : RLEScanState} {scanCount : Nat}
    {result : NullableVector} {vector : ResultVector Payload} {resultOffset : Nat}
    (scanned : RLE.scanPartial segment state scanCount result.vector resultOffset =
      .ok (state', vector)) :
    column.dataReader.scanPartial index state scanCount result resultOffset =
      .ok (state', { result with vector }) := by
  change (segmentAt column.data index >>= fun segment =>
    RLE.scanPartial segment state scanCount result.vector resultOffset >>= fun read => _) = _
  rw [segmentAt_of_found found]
  dsimp only [bind, Except.bind]
  rw [scanned]
  rfl

/-- A state of a data segment stands at a row. -/
def DataAt (index : Nat) (state : RLEScanState) (position : Nat) : Prop :=
  ∃ segment, column.data[index]? = some segment ∧ state.At segment position

/-- The first rows of a result hold the values of the column from a row on. -/
structure DataRead (entireVector : Bool) (base : Nat) (result : NullableVector) (count : Nat) :
    Prop where
  valid : result.valid = fun _ => true
  flat : entireVector = false → result.vector.isConstant = false
  value : ∀ row < count, column.valueAt (base + row) = some (result.vector.get row)

theorem data_entries {index : Nat} {segment : RLESegment Payload}
    (found : column.data[index]? = some segment) :
    Run.Proper segment.entries ∧ (Run.expand segment.entries).length = segment.count ∧
      0 < segment.count :=
  column.data_valid segment (List.mem_of_getElem? found)

/-- A partial scan keeps what was read before. -/
theorem scanPartial_kept {segment : RLESegment Payload} (proper : Run.Proper segment.entries)
    {state : RLEScanState} {position : Nat} (at_position : state.At segment position)
    {scanCount : Nat} (inside : position + scanCount ≤ (Run.expand segment.entries).length)
    (result : ResultVector Payload) (resultOffset : Nat) :
    ∃ entry offset data',
      RLE.scanPartial segment state scanCount result resultOffset =
        .ok (state.moveTo entry offset, ⟨data', false⟩) ∧
      (state.moveTo entry offset).At segment (position + scanCount) ∧
      (∀ ahead, ahead < scanCount →
        segment.row (position + ahead) = some (data' (resultOffset + ahead))) ∧
      ∀ place, place < resultOffset → data' place = result.data place := by
  obtain ⟨entry, offset, data', scanned, arrived, read, kept⟩ :=
    scanRuns_spec proper _ state position result.data resultOffset scanCount rfl at_position inside
  rw [RLE.scanPartial, scanPartialInternal, if_neg (by rw [canEmitConstantVector]; simp), scanned]
  exact ⟨entry, offset, data', rfl, arrived, read, kept⟩

/-- Reading the vectors of a column reads its values. -/
theorem data_sound (entireVector : Bool) :
    column.dataReader.Sound column.DataAt entireVector (column.DataRead entireVector) where
  init index node found := by
    obtain ⟨segment, found, -⟩ := column.data_found found
    exact ⟨segment, found, Run.at_start (column.data_entries found).1⟩
  skip index node state position skipCount found := by
    rintro ⟨segment, hsegment, at_position⟩ inside
    obtain rfl := column.node_of_data hsegment found
    obtain ⟨proper, length, -⟩ := column.data_entries hsegment
    obtain ⟨entry, offset, skipped, arrived⟩ := at_position.skipInternal proper
      (show position + skipCount ≤ _ from length.symm ▸ inside)
    exact ⟨state.moveTo entry offset, (column.dataReader_skip hsegment _ _).trans skipped, segment,
      hsegment, arrived⟩
  scanVector whole index node state position scanCount result found := by
    rintro ⟨segment, hsegment, at_position⟩ - inside done
    obtain rfl := column.node_of_data hsegment found
    obtain ⟨proper, length, -⟩ := column.data_entries hsegment
    obtain ⟨entry, offset, vector, scanned, arrived, read⟩ :=
      scanPartialInternal_spec proper at_position true
        (show position + scanCount ≤ _ from length.symm ▸ inside) result.vector 0
    refine ⟨state.moveTo entry offset, { result with vector },
      column.dataReader_scanVector hsegment scanned, ⟨segment, hsegment, arrived⟩,
      done.valid, fun apart => ?_, fun row short => ?_⟩
    · rw [whole] at apart
      cases apart
    · have value := read row short
      rw [Nat.zero_add] at value
      rw [← value, ← column.valueAt_of_segment hsegment
        (Nat.lt_of_lt_of_le (Nat.add_lt_add_left short position) inside), Nat.add_assoc]
      rfl
  scanPartial apart index node state position scanCount base result resultOffset found := by
    rintro ⟨segment, hsegment, at_position⟩ inside place done
    obtain rfl := column.node_of_data hsegment found
    obtain ⟨proper, length, -⟩ := column.data_entries hsegment
    obtain ⟨entry, offset, data', scanned, arrived, read, kept⟩ :=
      scanPartial_kept proper at_position
        (show position + scanCount ≤ _ from length.symm ▸ inside) result.vector resultOffset
    refine ⟨state.moveTo entry offset, { result with vector := ⟨data', false⟩ },
      column.dataReader_scanPartial hsegment scanned, ⟨segment, hsegment, arrived⟩, done.valid,
      fun _ => rfl, fun row short => ?_⟩
    rcases Nat.lt_or_ge row resultOffset with before | behind
    · rw [done.value row before, ResultVector.get, ResultVector.get, done.flat apart]
      exact congrArg some (kept row before).symm
    · have value := read (row - resultOffset) (by omega)
      rw [Nat.add_sub_cancel' behind] at value
      have same_row : base + row = segment.start + (position + (row - resultOffset)) := by
        change _ = segment.start + position at place
        omega
      rw [same_row, column.valueAt_of_segment hsegment (by
        change _ ≤ segment.count at inside
        omega), value]
      rfl

/-! ## Reading the validity -/

/-- The first rows of a result have the validity of the column from a row on. -/
structure ValidityRead (vector : ResultVector Payload) (base : Nat) (result : NullableVector)
    (count : Nat) : Prop where
  vector_eq : result.vector = vector
  valid : ∀ row < count,
    result.valid (if vector.isConstant then 0 else row) = column.validAt (base + row)
  untouched : ∀ place, count ≤ place → result.valid place = true

theorem validityReader_scanVector {index : Nat} {segment : ValiditySegment}
    (found : column.validity[index]? = some segment) (scanCount : Nat) (result : NullableVector) :
    column.validityReader.scanVector index () scanCount result =
      .ok ((), constantScanFunctionValidity segment scanCount result) := by
  change (segmentAt column.validity index >>= fun segment => _) = _
  rw [segmentAt_of_found found]
  rfl

theorem validityReader_scanPartial {index : Nat} {segment : ValiditySegment}
    (found : column.validity[index]? = some segment) (scanCount : Nat) (result : NullableVector)
    (resultOffset : Nat) :
    column.validityReader.scanPartial index () scanCount result resultOffset =
      .ok ((), constantScanPartialValidity segment scanCount result resultOffset) := by
  change (segmentAt column.validity index >>= fun segment => _) = _
  rw [segmentAt_of_found found]
  rfl

/-- The validity that a whole vector gets from one segment. -/
theorem constantScanFunctionValidity_valid (segment : ValiditySegment) {scanCount row : Nat}
    (short : row < scanCount) (result : NullableVector)
    (fresh : ∀ place, result.valid place = true) :
    (constantScanFunctionValidity segment scanCount result).valid
      (if result.vector.isConstant then 0 else row) = !segment.canHaveNull := by
  rw [constantScanFunctionValidity]
  cases segment.canHaveNull with
  | false =>
      rw [if_neg Bool.false_ne_true]
      exact fresh _
  | true =>
      rw [if_pos rfl]
      dsimp only
      split
      · exact writeRange_of_mem ⟨Nat.le_refl _, Nat.zero_lt_one⟩
      · exact writeRange_of_mem ⟨Nat.zero_le _, short⟩

/-- The validity that a part of a vector gets from one segment. -/
theorem constantScanPartialValidity_valid (segment : ValiditySegment) (scanCount : Nat)
    (result : NullableVector) (resultOffset place : Nat) :
    (constantScanPartialValidity segment scanCount result resultOffset).valid place =
      if segment.canHaveNull = true ∧ resultOffset ≤ place ∧ place < resultOffset + scanCount then false
      else result.valid place := by
  rw [constantScanPartialValidity]
  cases segment.canHaveNull with
  | false => simp
  | true => simp [writeRange]

/-- Reading the vectors of the validity reads it. -/
theorem validity_sound (entireVector : Bool) (vector : ResultVector Payload)
    (flat : entireVector = false → vector.isConstant = false) :
    column.validityReader.Sound (fun _ _ _ => True) entireVector (column.ValidityRead vector) where
  init _ _ _ := trivial
  skip _ _ state _ _ _ _ _ := ⟨state, rfl, trivial⟩
  scanVector _ index node state position scanCount result found _ some_rows inside done := by
    obtain ⟨segment, hsegment, rfl⟩ := column.validity_found found
    refine ⟨(), _, column.validityReader_scanVector hsegment scanCount result, trivial, ?_, ?_, ?_⟩
    · rw [constantScanFunctionValidity, ← done.vector_eq]
      split <;> rfl
    · intro row short
      rw [← done.vector_eq, constantScanFunctionValidity_valid segment short result
        fun place => done.untouched place (Nat.zero_le _)]
      rw [Nat.add_assoc]
      exact (column.validAt_of_segment hsegment
        (Nat.lt_of_lt_of_le (Nat.add_lt_add_left short position) inside)).symm
    · intro place behind
      rw [constantScanFunctionValidity]
      split
      · dsimp only
        split
        · rw [writeRange_of_not_mem (by omega)]
          exact done.untouched place (Nat.zero_le _)
        · rw [writeRange_of_not_mem (by omega)]
          exact done.untouched place (Nat.zero_le _)
      · exact done.untouched place (Nat.zero_le _)
  scanPartial apart index node state position scanCount base result resultOffset found _ inside place
      done := by
    obtain ⟨segment, hsegment, rfl⟩ := column.validity_found found
    refine ⟨(), _, column.validityReader_scanPartial hsegment scanCount result resultOffset, trivial,
      ?_, ?_, ?_⟩
    · rw [constantScanPartialValidity, ← done.vector_eq]
      split <;> rfl
    · intro row short
      have valid := done.valid row
      rw [flat apart] at valid ⊢
      rcases Nat.lt_or_ge row resultOffset with before | behind
      · rw [constantScanPartialValidity_valid, if_neg (by simp; omega)]
        exact valid before
      · have same_row : base + row = segment.start + (position + (row - resultOffset)) := by
          change _ = segment.start + position at place
          omega
        rw [same_row, column.validAt_of_segment hsegment (by
          change _ ≤ segment.count at inside
          omega)]
        rw [constantScanPartialValidity_valid, done.untouched _ (by simpa using behind)]
        cases segment.canHaveNull with
        | false => simp
        | true => simp [behind, short]
    · intro place behind
      rw [constantScanPartialValidity_valid, if_neg (by omega)]
      exact done.untouched place ((Nat.le_add_right _ _).trans behind)

/-- Reading the validity does not fail. -/
theorem validity_unread (entireVector : Bool) :
    column.validityReader.Sound (fun _ _ _ => True) entireVector (fun _ _ _ => True) where
  init _ _ _ := trivial
  skip _ _ state _ _ _ _ _ := ⟨state, rfl, trivial⟩
  scanVector _ index node state position scanCount result found _ _ _ _ := by
    obtain ⟨segment, hsegment, rfl⟩ := column.validity_found found
    exact ⟨(), _, column.validityReader_scanVector hsegment scanCount result, trivial, trivial⟩
  scanPartial _ index node state position scanCount base result resultOffset found _ _ _ _ := by
    obtain ⟨segment, hsegment, rfl⟩ := column.validity_found found
    exact ⟨(), _, column.validityReader_scanPartial hsegment scanCount result resultOffset, trivial,
      trivial⟩

/-! ## Filtering a vector that was read -/

/-- Where the scan of a standard column stands. -/
structure StandsAt (Standing : Nat → RLEScanState → Nat → Prop) (scan : StandardScan) (row : Nat) :
    Prop where
  data : column.dataReader.StandsAt Standing scan.data row
  validity : column.validityReader.StandsAt (fun _ _ _ => True) scan.validity row

variable {column} {Standing : Nat → RLEScanState → Nat → Prop} {scan : StandardScan} {row : Nat}

theorem StandsAt.scansEntireVector (stands : column.StandsAt Standing scan row) (scanCount : Nat) :
    ∃ entireVector, column.scansEntireVector scan scanCount = .ok entireVector ∧
      (entireVector = true → column.dataReader.scansEntireVector scan.data scanCount = .ok true ∧
        column.validityReader.scansEntireVector scan.validity scanCount = .ok true) := by
  obtain ⟨entireData, hdata⟩ := stands.data.scansEntireVector scanCount
  obtain ⟨entireValidity, hvalidity⟩ := stands.validity.scansEntireVector scanCount
  rw [StandardColumn.scansEntireVector, hdata]
  cases entireData with
  | false => exact ⟨false, rfl, fun impossible => by cases impossible⟩
  | true =>
      refine ⟨entireValidity, hvalidity, fun entire => ⟨rfl, ?_⟩⟩
      rw [← entire]
      exact hvalidity

/-- The result of a filter has the rows of the column that pass, and reads them. -/
structure Filtered (column : StandardColumn) (filter : TableFilter) (row : Nat) (selected : List Nat)
    (result : FilterResult) : Prop where
  rows_perm : result.rows.Perm
    (selected.filter fun place => filter.passes (column.get (row + place)))
  rows_eq : filter.orFree = true → result.rows =
    selected.filter fun place => filter.passes (column.get (row + place))
  full : result.rows.length = result.count
  get_eq : ∀ place ∈ result.rows, result.result.get place = column.get (row + place)

/-- Vectors read with their NULLs hold what the column holds. -/
theorem get_of_read {vector : ResultVector Payload} {result : NullableVector}
    {entireVector : Bool} {data : NullableVector} {count : Nat}
    (read : column.DataRead entireVector row data count) (same : data.vector = vector)
    (valid : column.ValidityRead vector row result count) {place : Nat} (short : place < count) :
    result.get place = column.get (row + place) := by
  have value := read.value place short
  rw [same] at value
  rw [NullableVector.get, StandardColumn.get, valid.vector_eq, valid.valid place short]
  split
  · exact value.symm
  · rfl

/-- `ColumnData::Filter` leaves the rows that pass. -/
theorem columnDataFilter_spec {vectorIndex : Nat} (stands : column.StandsAt column.DataAt scan row)
    (inside : row + column.vectorCount vectorIndex ≤ column.start + column.count)
    (memory : Nat → Payload) {sel : SelectionVector} {selCount : Nat}
    (selects : Selects sel selCount (column.vectorCount vectorIndex)) {filter : TableFilter}
    (supported : filter.supported = true) :
    ∃ scan' result, column.columnDataFilter scan vectorIndex memory sel selCount filter =
        .ok (scan', result) ∧
      column.StandsAt column.DataAt scan' (row + column.vectorCount vectorIndex) ∧
      column.Filtered filter row (sel.rows selCount) result := by
  obtain ⟨scanCount, hscanCount⟩ : ∃ scanCount, scanCount = column.vectorCount vectorIndex := ⟨_, rfl⟩
  rw [← hscanCount] at inside selects ⊢
  obtain ⟨entireVector, entire, both⟩ := stands.scansEntireVector scanCount
  obtain ⟨dataState, data, scannedData, standsData, read⟩ := SegmentReader.scan_spec
    (column.data_sound entireVector) column.data_contiguous stands.data
    (by rw [column.data_total]; exact inside) (fun whole => (both whole).1) (.fresh memory)
    ⟨rfl, fun _ => rfl, fun _ impossible => absurd impossible (Nat.not_lt_zero _)⟩
  obtain ⟨validityState, result, scannedValidity, standsValidity, valid⟩ := SegmentReader.scan_spec
    (column.validity_sound entireVector data.vector read.flat) column.validity_contiguous
    stands.validity (by rw [column.validity_total]; exact inside) (fun whole => (both whole).2)
    data ⟨rfl, fun _ impossible => absurd impossible (Nat.not_lt_zero _),
      fun _ _ => by rw [read.valid]⟩
  have values : ∀ place, place < scanCount → result.get place = column.get (row + place) :=
    fun place short => get_of_read read rfl valid short
  obtain ⟨sel', count', returned, chosen, rows_eq, full, -⟩ := TableFilter.filterSelection_spec
    result.get ((List.range scanCount).all fun row => (result.get row).isSome) scanCount filter
    (fun all place short => List.all_eq_true.mp all place (List.mem_range.mpr short)) supported sel
    selCount selects.full (selects.increasing.imp Nat.ne_of_lt) selects.below
    (Or.inl (by rw [hscanCount]; exact Nat.min_le_left _ _))
  have same_tests : ((sel.rows selCount).filter fun place => filter.passes (result.get place)) =
      (sel.rows selCount).filter fun place => filter.passes (column.get (row + place)) :=
    List.filter_congr fun place member => by rw [values place (selects.below place member)]
  rw [columnDataFilter, ← hscanCount, entire]
  dsimp only [bind, Except.bind]
  rw [scannedData]
  dsimp only
  rw [scannedValidity]
  dsimp only
  rw [chosen]
  have perm : (sel'.rows count').Perm ((sel.rows selCount).filter fun place =>
      filter.passes (column.get (row + place))) := by
    rw [rows_eq, ← same_tests]
    exact TableFilter.matching_perm _ _ _ (selects.increasing.imp Nat.ne_of_lt)
  refine ⟨_, _, rfl, ⟨standsData, standsValidity⟩, perm, fun free => ?_, full,
    fun place member => values place (selects.below place
      (List.mem_filter.mp (perm.mem_iff.mp member)).1)⟩
  · rw [FilterResult.rows, rows_eq, ← same_tests]
    exact TableFilter.matching_eq_of_orFree _ _ free

end StandardColumn

end StatsRecommender
