import StatsRecommender.Storage.ColumnRead

/-!
# Filtering runs and validity

`StandardColumnData::Filter` filters the runs as if no row were NULL, and the validity apart from
them.  What it leaves is right where every NULL that passes covers a value that passes.
-/

namespace StatsRecommender

open RLE

variable {state : ColumnScanState RLEScanState} {position vectorIndex selCount count : Nat}
  {sel : SelectionVector}

namespace StandardColumn

variable {column : StandardColumn} {Standing : Nat → RLEScanState → Nat → Prop}
  {scan : StandardScan} {row : Nat}

/-! ## Following a scan -/

variable (column) in
/-- A state of a data segment follows the scan, as far as a filter needs it. -/
def DataFollows (filter : TableFilter) (index : Nat) (state : RLEScanState) (position : Nat) : Prop :=
  ∃ segment, column.data[index]? = some segment ∧ Follows segment filter state position

/-- A state that follows the scan can be moved on, wherever it stands. -/
theorem follows_of_moved {segment : RLESegment Payload} {filter : TableFilter}
    {state : RLEScanState} {ahead : Nat} (follows : Follows segment filter state position)
    {place : Nat} (early : place ≤ position)
    (settled : place = position ∨ state.matchingRuns.isSome = true ∧
      state.matchingRunCount = 0) {entry offset : Nat}
    (arrived : (state.moveTo entry offset).At segment (place + ahead)) :
    Follows segment filter (state.moveTo entry offset) (position + ahead) := by
  refine ⟨follows.matched.moveTo entry offset, ?_⟩
  rcases settled with rfl | nothing
  · exact Or.inl arrived
  · exact Or.inr ⟨_, Nat.add_le_add_right early ahead, arrived, nothing⟩

theorem follows_place {segment : RLESegment Payload} {filter : TableFilter} {state : RLEScanState}
    (follows : Follows segment filter state position) :
    ∃ place, place ≤ position ∧ state.At segment place ∧
      (place = position ∨ state.matchingRuns.isSome = true ∧ state.matchingRunCount = 0) := by
  rcases follows.place with here | ⟨reached, early, behind, nothing⟩
  · exact ⟨position, Nat.le_refl _, here, Or.inl rfl⟩
  · exact ⟨reached, early, behind, Or.inr nothing⟩

variable (column) in
/-- States that follow the scan go on following it when vectors are read. -/
theorem follows_sound (filter : TableFilter) (entireVector : Bool) :
    column.dataReader.Sound (column.DataFollows filter) entireVector (fun _ _ _ => True) where
  init index node found := by
    obtain ⟨segment, found, -⟩ := column.data_found found
    exact ⟨segment, found, fun _ impossible => (by cases impossible),
      Or.inl (Run.at_start (column.data_entries found).1)⟩
  skip index node state position skipCount found := by
    rintro ⟨segment, hsegment, follows⟩ inside
    obtain rfl := column.node_of_data hsegment found
    obtain ⟨proper, length, -⟩ := column.data_entries hsegment
    obtain ⟨place, early, at_place, settled⟩ := follows_place follows
    obtain ⟨entry, offset, skipped, arrived⟩ := at_place.skipInternal proper
      (show place + skipCount ≤ _ from length.symm ▸ (Nat.add_le_add_right early _).trans inside)
    exact ⟨state.moveTo entry offset, (column.dataReader_skip hsegment _ _).trans skipped, segment,
      hsegment, follows_of_moved follows early settled arrived⟩
  scanVector _ index node state position scanCount result found := by
    rintro ⟨segment, hsegment, follows⟩ - inside -
    obtain rfl := column.node_of_data hsegment found
    obtain ⟨proper, length, -⟩ := column.data_entries hsegment
    obtain ⟨place, early, at_place, settled⟩ := follows_place follows
    obtain ⟨entry, offset, vector, scanned, arrived, -⟩ :=
      scanPartialInternal_spec proper at_place true
        (show place + scanCount ≤ _ from length.symm ▸ (Nat.add_le_add_right early _).trans inside)
        result.vector 0
    exact ⟨_, _, column.dataReader_scanVector hsegment scanned, ⟨segment, hsegment,
      follows_of_moved follows early settled arrived⟩, trivial⟩
  scanPartial _ index node state position scanCount base result resultOffset found := by
    rintro ⟨segment, hsegment, follows⟩ inside - -
    obtain rfl := column.node_of_data hsegment found
    obtain ⟨proper, length, -⟩ := column.data_entries hsegment
    obtain ⟨place, early, at_place, settled⟩ := follows_place follows
    obtain ⟨entry, offset, data', scanned, arrived, -⟩ :=
      scanPartial_kept proper at_place
        (show place + scanCount ≤ _ from length.symm ▸ (Nat.add_le_add_right early _).trans inside)
        result.vector resultOffset
    exact ⟨_, _, column.dataReader_scanPartial hsegment scanned, ⟨segment, hsegment,
      follows_of_moved follows early settled arrived⟩, trivial⟩

/-- Reading a vector on the way, in a scan that filters runs. -/
theorem columnDataFilter_follows {filter : TableFilter}
    (stands : column.StandsAt (column.DataFollows filter) scan row)
    (inside : row + column.vectorCount vectorIndex ≤ column.start + column.count)
    (memory : Nat → Payload) (selects : Selects sel selCount (column.vectorCount vectorIndex))
    (supported : filter.supported = true) :
    ∃ scan' result, column.columnDataFilter scan vectorIndex memory sel selCount filter =
        .ok (scan', result) ∧
      column.StandsAt (column.DataFollows filter) scan' (row + column.vectorCount vectorIndex) := by
  obtain ⟨scanCount, hscanCount⟩ : ∃ scanCount, scanCount = column.vectorCount vectorIndex := ⟨_, rfl⟩
  rw [← hscanCount] at inside selects ⊢
  obtain ⟨entireVector, entire, both⟩ := stands.scansEntireVector scanCount
  obtain ⟨dataState, data, scannedData, standsData, -⟩ := SegmentReader.scan_spec
    (column.follows_sound filter entireVector) column.data_contiguous stands.data
    (by rw [column.data_total]; exact inside) (fun whole => (both whole).1) (.fresh memory) trivial
  obtain ⟨validityState, result, scannedValidity, standsValidity, -⟩ := SegmentReader.scan_spec
    (column.validity_unread entireVector) column.validity_contiguous
    stands.validity (by rw [column.validity_total]; exact inside) (fun whole => (both whole).2)
    data trivial
  obtain ⟨sel', count', returned, chosen, -⟩ := TableFilter.filterSelection_spec
    result.get ((List.range scanCount).all fun row => (result.get row).isSome) scanCount filter
    (fun all place short => List.all_eq_true.mp all place (List.mem_range.mpr short)) supported sel
    selCount selects.full (selects.increasing.imp Nat.ne_of_lt) selects.below
    (Or.inl (by rw [hscanCount]; exact Nat.min_le_left _ _))
  rw [columnDataFilter, ← hscanCount, entire]
  dsimp only [bind, Except.bind]
  rw [scannedData]
  dsimp only
  rw [scannedValidity]
  dsimp only
  rw [chosen]
  exact ⟨_, _, rfl, standsData, standsValidity⟩

/-- Skipping runs keeps what is known about them. -/
theorem skipRuns_matchingRuns (runs : List (Run Payload)) (state state' : RLEScanState)
    (skipCount : Nat) (skipped : RLEScanState.skipRuns runs state skipCount = .ok state') :
    state'.matchingRuns = state.matchingRuns := by
  induction runs generalizing state skipCount with
  | nil =>
      cases skipCount with
      | zero =>
          cases skipped
          rfl
      | succ skipCount => cases skipped
  | cons run rest ih =>
      cases skipCount with
      | zero =>
          cases skipped
          rfl
      | succ skipCount =>
          rw [RLEScanState.skipRuns] at skipped
          dsimp only at skipped
          split at skipped
          · have same := ih _ _ skipped
            exact same
          · cases skipped
            rfl

/-! ## The runs -/

variable (column) in
/-- The filter was applied to the runs of the current segment, or can be. -/
def FilterApplicable (filter : TableFilter) (state : ColumnScanState RLEScanState) : Prop :=
  ∀ (index : Nat) segment, state.current = some index → column.data[index]? = some segment →
    Applicable column.layout segment filter
      (if state.initialized then state.scanState else .create)

/-- Beginning a vector keeps what is known about the runs. -/
theorem beginScanVector_matchingRuns {state' : ColumnScanState RLEScanState}
    (begun : column.dataReader.beginScanVector state = .ok state') :
    state'.scanState.matchingRuns =
      (if state.initialized then state.scanState else .create).matchingRuns := by
  have initial : ∀ node, (column.dataReader.initializeSegment node state).scanState =
      if state.initialized then state.scanState else .create := by
    intro node
    rw [SegmentReader.initializeSegment]
    split <;> rfl
  rw [SegmentReader.beginScanVector] at begun
  cases hnode : column.dataReader.currentNode state with
  | error message =>
      rw [hnode] at begun
      cases begun
  | ok found =>
      rw [hnode] at begun
      dsimp only [bind, Except.bind] at begun
      split at begun
      · cases skipped : column.dataReader.skip found.1
            (column.dataReader.initializeSegment found.2 state).scanState
            ((column.dataReader.initializeSegment found.2 state).rowIndex -
              (column.dataReader.initializeSegment found.2 state).internalIndex) with
        | error message =>
            rw [skipped] at begun
            cases begun
        | ok scanState =>
            rw [skipped] at begun
            cases begun
            rw [← initial found.2]
            change (segmentAt column.data found.1 >>= fun segment => _) = _ at skipped
            cases hsegment : segmentAt column.data found.1 with
            | error message =>
                rw [hsegment] at skipped
                cases skipped
            | ok segment =>
                rw [hsegment] at skipped
                exact skipRuns_matchingRuns _ _ _ _ skipped
      · cases begun
        rw [initial]

/-- Beginning a vector leaves a scan in its segment. -/
theorem lies_within {S : Type} {reader : SegmentReader S} {Standing : Nat → S → Nat → Prop}
    {state : ColumnScanState S} {index : Nat} {node : SegmentNode} {scanState : S}
    (ready : reader.ReadyAt Standing
      { state with scanState, internalIndex := row, initialized := true } row index node)
    (entire : reader.scansEntireVector state count = .ok true) : count ≤ node.stop - row := by
  rw [SegmentReader.scansEntireVector_of_current (show state.current = some index from ready.current)
    ready.found] at entire
  have fits := of_decide_eq_true (Except.ok.inj entire)
  rwa [show state.rowIndex = row from ready.rowIndex] at fits

/-- `RLEFilter` over a vector leaves the rows whose stored values pass. -/
theorem filterData_spec {filter : TableFilter} (supported : filter.supported = true)
    (stands : column.dataReader.StandsAt (column.DataFollows filter) state row)
    (applicable : column.FilterApplicable filter state)
    (entire : column.dataReader.scansEntireVector state count = .ok true) (memory : Nat → Payload)
    (selects : Selects sel selCount count) :
    ∃ state' data sel' count', column.filterData state memory count sel selCount filter =
        .ok (state', data, sel', count') ∧
      column.dataReader.StandsAt (column.DataFollows filter) state' (row + count) ∧
      sel'.rows count' = ((sel.rows selCount).filter fun place =>
        (column.valueAt (row + place)).any fun value => filter.passes (some value)) ∧
      (sel'.rows count').length = count' ∧
      ∀ place ∈ sel'.rows count', column.valueAt (row + place) = some (data place) := by
  obtain ⟨index, node, scanState, begun, ready⟩ :=
    SegmentReader.beginScanVector_spec (column.follows_sound filter true) stands
  have fits := lies_within ready entire
  have low := ready.low
  have high := ready.high
  obtain ⟨segment, hsegment, follows⟩ := ready.standing
  obtain rfl := column.node_of_data hsegment ready.found
  obtain ⟨proper, length, -⟩ := column.data_entries hsegment
  have inside : row - segment.node.rowStart + count ≤ segment.count := by
    rw [SegmentNode.stop] at fits high
    change count ≤ segment.start + segment.count - row at fits
    change segment.start ≤ row at low
    change row ≤ segment.start + segment.count at high
    change row - segment.start + count ≤ segment.count
    omega
  have same_row : ∀ place, place < count → column.valueAt (row + place) =
      segment.row (row - segment.node.rowStart + place) := by
    intro place short
    rw [← column.valueAt_of_segment hsegment
      (Nat.lt_of_lt_of_le (Nat.add_lt_add_left short _) inside), ← Nat.add_assoc]
    change _ = column.valueAt (segment.node.rowStart + (row - segment.node.rowStart) + place)
    rw [Nat.add_sub_cancel' low]
  have can_apply : Applicable column.layout segment filter scanState := by
    intro unknown
    have same := beginScanVector_matchingRuns begun
    exact applicable index segment ready.current hsegment (same ▸ unknown)
  obtain ⟨scanState', data, sel', count', filtered, follows', rows_eq, full, reads⟩ :=
    rleFilter_spec proper supported follows can_apply (length.symm ▸ inside) memory selects
  have rows_value : sel'.rows count' = ((sel.rows selCount).filter fun place =>
      (column.valueAt (row + place)).any fun value => filter.passes (some value)) := by
    rw [rows_eq]
    exact List.filter_congr fun place member => by
      rw [same_row place (selects.below place member)]
      rfl
  rw [filterData, begun]
  dsimp only [bind, Except.bind]
  rw [SegmentReader.currentNode_of_current ready.current ready.found]
  dsimp only
  rw [if_neg (by
    rw [show state.rowIndex = row from ready.rowIndex]
    exact Nat.not_lt.mpr fits), segmentAt_of_found hsegment]
  dsimp only [pure, Except.pure]
  rw [filtered]
  refine ⟨_, data, sel', count', rfl, ⟨?_, index, segment.node, ready.current, ready.found, ?_, ?_,
    fun _ => ⟨?_, ?_, segment, hsegment, ?_⟩⟩, rows_value, full, fun place member => ?_⟩
  · exact congrArg (· + count) ready.rowIndex
  · exact low.trans (Nat.le_add_right _ _)
  · omega
  · dsimp only
    rw [show state.rowIndex = row from ready.rowIndex]
    exact low.trans (Nat.le_add_right _ _)
  · dsimp only
    rw [show state.rowIndex = row from ready.rowIndex]
  · dsimp only
    rw [show state.rowIndex = row from ready.rowIndex]
    have arrival : row + count - segment.node.rowStart = row - segment.node.rowStart + count := by omega
    rw [arrival]
    exact follows'
  · have before : place < count := by
      rw [rows_value] at member
      exact selects.below place (List.mem_filter.mp member).1
    rw [same_row place before]
    exact reads place member

/-! ## The validity -/

variable (column) in
/-- Where a NULL passes the filter, so does the value that is stored below it. -/
def KeepsNullRows (filter : TableFilter) (row : Nat) (selected : List Nat) : Prop :=
  ∀ place ∈ selected, column.validAt (row + place) = false → filter.passes none = true →
    (column.valueAt (row + place)).any (fun value => filter.passes (some value)) = true

/-- What the validity leaves of the rows whose stored values pass. -/
theorem constantFilterValidity_spec {filter : TableFilter} (supported : filter.supported = true)
    {segment : ValiditySegment} {data : Nat → Payload} {selected : List Nat}
    (below : ∀ place ∈ selected, place < count)
    (stored : ∀ place ∈ selected, (column.valueAt (row + place)).isSome = true)
    (valid : ∀ place, place < count → column.validAt (row + place) = !segment.canHaveNull)
    (rows_eq : sel.rows selCount = selected.filter fun place =>
      (column.valueAt (row + place)).any fun value => filter.passes (some value))
    (full : (sel.rows selCount).length = selCount)
    (reads : ∀ place ∈ sel.rows selCount, column.valueAt (row + place) = some (data place)) :
    ∃ result, constantFilterValidity segment count ⟨.fresh data, sel, selCount⟩ filter = .ok result ∧
      (column.Filtered filter row selected result ↔ column.KeepsNullRows filter row selected) := by
  obtain ⟨filtersValid, hfilters, none_valid⟩ := TableFilter.filtersNullValues_spec filter supported
  rw [constantFilterValidity, hfilters]
  dsimp only [bind, Except.bind]
  have no_rows : sel.rows 0 = [] := by
    cases sel <;> rfl
  -- a result without rows is right if no row passes
  have emptied : (∀ place ∈ selected, filter.passes (column.get (row + place)) = false) →
      column.Filtered filter row selected ⟨.fresh data, sel, 0⟩ := by
    intro none_pass
    have nothing : (selected.filter fun place => filter.passes (column.get (row + place))) = [] :=
      List.filter_eq_nil_iff.mpr fun place member => by
        rw [none_pass place member]
        exact Bool.false_ne_true
    refine ⟨?_, fun _ => ?_, ?_, fun place member => ?_⟩
    · rw [nothing, FilterResult.rows, no_rows]
    · rw [nothing, FilterResult.rows, no_rows]
    · rw [FilterResult.rows, no_rows]
      rfl
    · rw [FilterResult.rows, no_rows] at member
      cases member
  cases nulls : segment.canHaveNull with
  | true =>
      have invalid : ∀ place ∈ selected, column.validAt (row + place) = false := fun place member => by
        rw [valid place (below place member), nulls]
        rfl
      have get_none : ∀ place ∈ selected, column.get (row + place) = none := fun place member => by
        rw [StandardColumn.get, invalid place member]
        rfl
      cases null_passes : filter.passes none with
      | false =>
          refine ⟨_, rfl, fun _ _ _ _ impossible => ?_, fun _ => emptied fun place member => ?_⟩
          · rw [null_passes] at impossible
            cases impossible
          · rw [get_none place member]
            exact null_passes
      | true =>
          refine ⟨_, rfl, fun filtered place member _ _ => ?_, fun keeps => ?_⟩
          · have all : (selected.filter fun place => filter.passes (column.get (row + place))) =
                selected := List.filter_eq_self.mpr fun place member => by
              rw [get_none place member]
              exact null_passes
            have length := filtered.rows_perm.length_eq
            rw [all] at length
            change (sel.rows selCount).length = _ at length
            rw [rows_eq, List.length_filter_eq_length_iff] at length
            exact length place member
          · have all : selected.filter (fun place => (column.valueAt (row + place)).any
                fun value => filter.passes (some value)) = selected :=
              List.filter_eq_self.mpr fun place member =>
                keeps place member (invalid place member) null_passes
            have same : sel.rows selCount =
                selected.filter fun place => filter.passes (column.get (row + place)) := by
              rw [rows_eq, all, eq_comm]
              exact List.filter_eq_self.mpr fun place member => by
                rw [get_none place member]
                exact null_passes
            refine ⟨.of_eq same, fun _ => same, full, fun place member => ?_⟩
            rw [FilterResult.rows] at member
            change place ∈ sel.rows selCount at member
            rw [rows_eq, all] at member
            rw [get_none place member]
            have unset := constantScanFunctionValidity_valid segment (below place member)
              (.fresh data) fun _ => rfl
            rw [nulls] at unset
            have flat : (constantScanFunctionValidity segment count (.fresh data)).vector.isConstant =
                false := by
              rw [constantScanFunctionValidity]
              split <;> rfl
            rw [NullableVector.get, flat]
            change (if (constantScanFunctionValidity segment count (.fresh data)).valid
              (if (NullableVector.fresh data).vector.isConstant then 0 else place) then _ else _) = _
            rw [unset]
            rfl
  | false =>
      have all_valid : ∀ place ∈ selected, column.validAt (row + place) = true :=
        fun place member => by
          rw [valid place (below place member), nulls]
          rfl
      have get_value : ∀ place ∈ selected, ∃ value, column.valueAt (row + place) = some value ∧
          column.get (row + place) = some value := fun place member => by
        obtain ⟨value, hvalue⟩ := Option.isSome_iff_exists.mp (stored place member)
        refine ⟨value, hvalue, ?_⟩
        rw [StandardColumn.get, all_valid place member, if_pos rfl, hvalue]
      have keeps : column.KeepsNullRows filter row selected := by
        intro place member invalid
        rw [all_valid place member] at invalid
        cases invalid
      cases filtersValid with
      | true =>
          refine ⟨_, rfl, fun _ => keeps, fun _ => emptied fun place member => ?_⟩
          obtain ⟨value, -, get_some⟩ := get_value place member
          rw [get_some]
          exact none_valid rfl value
      | false =>
          have same : sel.rows selCount =
              selected.filter fun place => filter.passes (column.get (row + place)) := by
            rw [rows_eq]
            exact List.filter_congr fun place member => by
              obtain ⟨value, held, get_some⟩ := get_value place member
              rw [held, get_some]
              rfl
          refine ⟨_, rfl, fun _ => keeps, fun _ => ⟨.of_eq same, fun _ => same, full,
            fun place member => ?_⟩⟩
          change place ∈ sel.rows selCount at member
          have there : place ∈ selected := by
            rw [same] at member
            exact (List.mem_filter.mp member).1
          obtain ⟨value, held, get_some⟩ := get_value place there
          rw [get_some, ← held, reads place member, constantScanFunctionValidity, nulls]
          rfl

/-- `StandardColumnData::Filter` on the compressed path. -/
theorem filter_spec {filter : TableFilter} (supported : filter.supported = true)
    (stands : column.StandsAt (column.DataFollows filter) scan row) (behind : column.start ≤ row)
    (inside : row + column.vectorCount vectorIndex ≤ column.start + column.count)
    (applicable : column.FilterApplicable filter scan.data)
    (entire : column.scansEntireVector scan (column.vectorCount vectorIndex) = .ok true)
    (memory : Nat → Payload) (selects : Selects sel selCount (column.vectorCount vectorIndex)) :
    ∃ scan' result, column.filter scan vectorIndex memory sel selCount filter =
        .ok (scan', result) ∧
      column.StandsAt (column.DataFollows filter) scan' (row + column.vectorCount vectorIndex) ∧
      (column.Filtered filter row (sel.rows selCount) result ↔
        column.KeepsNullRows filter row (sel.rows selCount)) := by
  obtain ⟨entireVector, entire', both⟩ := stands.scansEntireVector (column.vectorCount vectorIndex)
  obtain rfl := Except.ok.inj (entire.symm.trans entire')
  obtain ⟨entireData, entireValidity⟩ := both rfl
  obtain ⟨dataState, data, sel', count', filtered, standsData, rows_eq, full, reads⟩ :=
    filterData_spec supported stands.data applicable entireData memory selects
  obtain ⟨index, node, scanState, begun, ready⟩ :=
    SegmentReader.beginScanVector_spec (column.validity_unread true) stands.validity
  have fits := lies_within ready entireValidity
  have low := ready.low
  have high := ready.high
  obtain ⟨segment, hsegment, rfl⟩ := column.validity_found ready.found
  have valid : ∀ place, place < column.vectorCount vectorIndex →
      column.validAt (row + place) = !segment.canHaveNull := by
    intro place short
    change segment.start ≤ row at low
    change row ≤ segment.start + segment.count at high
    change _ ≤ segment.start + segment.count - row at fits
    have same_row : row + place = segment.start + (row - segment.start + place) := by omega
    rw [same_row]
    exact column.validAt_of_segment hsegment (by omega)
  have stored : ∀ place ∈ sel.rows selCount, (column.valueAt (row + place)).isSome = true :=
    fun place member => column.isSome_valueAt (behind.trans (Nat.le_add_right _ _))
      (Nat.lt_of_lt_of_le (Nat.add_lt_add_left (selects.below place member) row) inside)
  obtain ⟨result, left, right⟩ := constantFilterValidity_spec supported selects.below stored valid
    rows_eq full reads
  have filteredValidity : column.filterValidity scan.validity (column.vectorCount vectorIndex)
      ⟨.fresh data, sel', count'⟩ filter = .ok
        ({ scan.validity with
          scanState, initialized := true
          rowIndex := row + column.vectorCount vectorIndex
          internalIndex := row + column.vectorCount vectorIndex }, result) := by
    rw [filterValidity, begun]
    dsimp only [bind, Except.bind]
    rw [SegmentReader.currentNode_of_current ready.current ready.found]
    dsimp only
    rw [show scan.validity.rowIndex = row from ready.rowIndex, if_neg (Nat.not_lt.mpr fits),
      segmentAt_of_found hsegment]
    dsimp only [pure, Except.pure]
    rw [left]
  rw [StandardColumn.filter]
  dsimp only
  rw [entire]
  dsimp only [bind, Except.bind]
  rw [if_pos rfl, filtered]
  dsimp only
  rw [filteredValidity]
  refine ⟨_, result, rfl, ⟨standsData, rfl, index, segment.node, ready.current, ready.found,
    low.trans (Nat.le_add_right _ _), ?_, fun _ => ⟨low.trans (Nat.le_add_right _ _), Nat.le_refl _,
    trivial⟩⟩, right⟩
  omega

end StandardColumn

end StatsRecommender
