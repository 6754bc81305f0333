import StatsRecommender.Storage.RowGroupScanRun
import StatsRecommender.Storage.UpdatedColumn

/-!
# Scans of a row group return the rows that pass

From the start of a scan on, `TemplatedScan` returns the rows that the transaction sees and that
pass the filters, each once, but for vectors that lie in a segment that a filter rules out.
-/

namespace StatsRecommender

variable {row : Nat}

section Scan

variable {columnCount : Nat} {Cell : Type} {group : ScannedRowGroup columnCount Cell}
  {filters : List (ScanFilter columnCount)}

/-! ## The start of a scan -/

namespace CollectionScanState

/-- What `RowGroup::InitializeScanWithOffset` leaves where it starts the scan. -/
structure Initialized (state : CollectionScanState group) (vectorOffset : Nat) : Prop where
  vectorIndex_eq : state.vectorIndex = vectorOffset
  maxRowGroupRow_eq : state.maxRowGroupRow =
    if state.maxRow < group.start then 0 else min group.count (state.maxRow - group.start)
  columnScans_eq : ∀ column, ∃ before, (group.columns column).initializeScanWithOffset before
    (group.start + vectorOffset * standardVectorSize) = .ok (state.columnScans column)

theorem Initialized.positioned {state : CollectionScanState group} {vectorOffset : Nat}
    (initialized : state.Initialized vectorOffset) : state.Positioned := by
  have end_eq : state.maxRowGroupRow = min group.count (state.maxRow - group.start) := by
    rw [initialized.maxRowGroupRow_eq]
    split
    · omega
    · rfl
  refine ⟨end_eq, fun inside column => ?_⟩
  rw [initialized.vectorIndex_eq] at inside ⊢
  obtain ⟨before, here⟩ := initialized.columnScans_eq column
  obtain ⟨columnScan, started, stands⟩ := (group.columns column).standsAt_first before _
    (inside.trans_le (end_eq.trans_le (min_le_left _ _)))
  rw [here] at started
  cases started
  exact stands

end CollectionScanState

/-! ## Results -/

/-- All filters are true of a row, and so are their optional parts. -/
def holdsFilters (group : ScannedRowGroup columnCount Cell)
    (filters : List (ScanFilter columnCount)) (row : Nat) : Bool :=
  filters.all fun entry => (group.columns entry.tableColumnIndex).meaning.holds entry.filter
    ((group.columns entry.tableColumnIndex).value row)

/-- A filter is marked only if it is optional or true of all rows of the row group. -/
def MarksSound (group : ScannedRowGroup columnCount Cell)
    (filters : List (ScanFilter columnCount)) : Prop :=
  ∀ entry ∈ filters, entry.alwaysTrue = true → entry.filter.isOptional = true ∨
    ∀ row < group.count, (group.columns entry.tableColumnIndex).meaning.holds entry.filter
      ((group.columns entry.tableColumnIndex).value row) = true

theorem FiltersReady.passesFilters_of_holds (ready : FiltersReady group filters)
    (holds : holdsFilters group filters row = true) : passesFilters group filters row = true := by
  rw [holdsFilters, List.all_eq_true] at holds
  rw [passesFilters, List.all_eq_true]
  intro entry member
  cases mark : entry.alwaysTrue with
  | true => rfl
  | false =>
      exact (group.columns entry.tableColumnIndex).meaning.passes_of_holds
        (ready.supported entry member mark) (holds entry member)

theorem FiltersReady.holdsFilters_of_passes (ready : FiltersReady group filters)
    (marks : MarksSound group filters)
    (mandatory : ∀ entry ∈ filters, entry.filter.mandatory = true) (inside : row < group.count)
    (passes : passesFilters group filters row = true) : holdsFilters group filters row = true := by
  rw [passesFilters, List.all_eq_true] at passes
  rw [holdsFilters, List.all_eq_true]
  intro entry member
  cases mark : entry.alwaysTrue with
  | true =>
      refine (marks entry member mark).resolve_left (fun optional => ?_) row inside
      rw [TableFilter.isOptional_of_mandatory (mandatory entry member)] at optional
      cases optional
  | false =>
      have passed := passes entry member
      rw [mark, Bool.false_or] at passed
      exact (group.columns entry.tableColumnIndex).meaning.holds_of_passes
        (ready.supported entry member mark) (mandatory entry member) passed

/-- No row of a vector that is ruled out satisfies all filters. -/
theorem VectorRuledOut.not_holds
    (ruledOut : VectorRuledOut group filters (row / standardVectorSize))
    (inside : row < group.count) : holdsFilters group filters row = false := by
  obtain ⟨entry, member, fails⟩ := ruledOut.fails inside
  rw [holdsFilters, List.all_eq_false]
  refine ⟨entry, member, ?_⟩
  rw [fails]
  exact Bool.false_ne_true

/-- The rows that a scan returns from a vector on, in the order in which they are returned. -/
structure ReturnedRows (parameters : ScanParameters columnCount)
    (state : CollectionScanState group) (rows : List Nat) : Prop where
  distinct : rows.Nodup
  sound : ∀ row ∈ rows, state.vectorIndex * standardVectorSize ≤ row ∧
    row < state.maxRowGroupRow ∧ group.visible parameters.transaction row = true ∧
      passesFilters group parameters.filterList row = true
  leftOut : ∀ row, state.vectorIndex * standardVectorSize ≤ row → row < state.maxRowGroupRow →
    group.visible parameters.transaction row = true →
    passesFilters group parameters.filterList row = true → row ∉ rows →
      VectorRuledOut group parameters.filterList (row / standardVectorSize)
  complete : ∀ row, state.vectorIndex * standardVectorSize ≤ row → row < state.maxRowGroupRow →
    group.visible parameters.transaction row = true →
    holdsFilters group parameters.filterList row = true → row ∈ rows
  exact : (∀ entry ∈ parameters.filterList, entry.filter.mandatory = true) → ∀ row, row ∈ rows ↔
    state.vectorIndex * standardVectorSize ≤ row ∧ row < state.maxRowGroupRow ∧
      group.visible parameters.transaction row = true ∧
        holdsFilters group parameters.filterList row = true

theorem ScanParameters.Scans.returnedRows {parameters : ScanParameters columnCount}
    (ready : FiltersReady group parameters.filterList)
    (marks : MarksSound group parameters.filterList)
    (unsampled : ∀ vectorIndex, parameters.sampleSkips vectorIndex = false)
    {state next : CollectionScanState group} {rows : List Nat} (positioned : state.Positioned)
    (scans : parameters.Scans state next rows)
    (done : next.maxRowGroupRow ≤ next.vectorIndex * standardVectorSize) :
    ReturnedRows parameters state rows := by
  have le_count := positioned.le_count
  rw [scans.continues.maxRowGroupRow_eq] at done
  have sound : ∀ row ∈ rows, state.vectorIndex * standardVectorSize ≤ row ∧
      row < state.maxRowGroupRow ∧ group.visible parameters.transaction row = true ∧
        passesFilters group parameters.filterList row = true := by
    intro row member
    obtain ⟨behind, -, inside, returned⟩ := scans.sound row member
    exact ⟨behind, inside, Bool.and_eq_true_iff.mp returned⟩
  have leftOut : ∀ row, state.vectorIndex * standardVectorSize ≤ row → row < state.maxRowGroupRow →
      group.visible parameters.transaction row = true →
      passesFilters group parameters.filterList row = true → row ∉ rows →
        VectorRuledOut group parameters.filterList (row / standardVectorSize) := by
    intro row behind inside visible passes absent
    refine (scans.complete row behind (inside.trans_le done) inside
      (Bool.and_eq_true_iff.mpr ⟨visible, passes⟩) absent).resolve_left fun sampled => ?_
    rw [unsampled] at sampled
    cases sampled
  have complete : ∀ row, state.vectorIndex * standardVectorSize ≤ row →
      row < state.maxRowGroupRow → group.visible parameters.transaction row = true →
      holdsFilters group parameters.filterList row = true → row ∈ rows := by
    intro row behind inside visible holds
    by_contra absent
    have ruledOut := leftOut row behind inside visible (ready.passesFilters_of_holds holds) absent
    rw [ruledOut.not_holds (inside.trans_le le_count)] at holds
    cases holds
  refine ⟨scans.distinct, sound, leftOut, complete, fun mandatory row => ⟨fun member => ?_, ?_⟩⟩
  · obtain ⟨behind, inside, visible, passes⟩ := sound row member
    exact ⟨behind, inside, visible,
      ready.holdsFilters_of_passes marks mandatory (inside.trans_le le_count) passes⟩
  · rintro ⟨behind, inside, visible, holds⟩
    exact complete row behind inside visible holds

/--
Every round returns or goes on to a later vector, a check of the segments skips vectors that lie in
a segment that is ruled out, and the calls of `TemplatedScan` return the rows that pass.
-/
theorem templatedScan_returns {parameters : ScanParameters columnCount}
    (ready : FiltersReady group parameters.filterList)
    (marks : MarksSound group parameters.filterList) (permutes : parameters.Permutes)
    (unsampled : ∀ vectorIndex, parameters.sampleSkips vectorIndex = false)
    {state : CollectionScanState group} (positioned : state.Positioned) :
    (∃ round, parameters.scanRound state = .ok round ∧ ∀ next, round = .continued next →
      next.Positioned ∧ state.vectorIndex < next.vectorIndex) ∧
    (state.vectorIndex * standardVectorSize < state.maxRowGroupRow → ∀ next,
      state.checkZonemapSegments parameters.filterList = (false, next) →
        state.vectorIndex < next.vectorIndex ∧ ∀ vectorIndex, state.vectorIndex ≤ vectorIndex →
          vectorIndex < next.vectorIndex → VectorRuledOut group parameters.filterList vectorIndex) ∧
    ∀ rounds calls, state.maxRowGroupRow < rounds → state.maxRowGroupRow < calls →
      ∃ chunks rows, parameters.scanChunks rounds calls state = .ok chunks ∧
        chunks.flatMap ResultChunk.rows = rows.map group.cells ∧
          ReturnedRows parameters state rows := by
  refine ⟨?_, fun inside next checked => ?_, fun rounds calls enough_rounds enough_calls => ?_⟩
  · obtain ⟨round, ran, ⟨-, rfl⟩ | ⟨-, through⟩⟩ :=
      ScanParameters.scanRound_spec ready permutes positioned
    · exact ⟨_, ran, fun _ impossible => by cases impossible⟩
    · refine ⟨round, ran, fun next same => ?_⟩
      subst same
      cases through with
      | continued scans ahead => exact ⟨scans.continues.positioned, ahead⟩
  · obtain ⟨-, -, skips⟩ := CollectionScanState.checkZonemapSegments_spec
      (fun _ member => member : ∀ entry ∈ parameters.filterList, entry ∈ parameters.filterList)
      positioned inside
    rw [checked] at skips
    exact skips rfl
  · have reaches : ∀ {times}, state.maxRowGroupRow < times →
        state.maxRowGroupRow ≤ (state.vectorIndex + (times - 1)) * standardVectorSize := by
      intro times enough
      calc state.maxRowGroupRow ≤ state.vectorIndex + (times - 1) := by omega
        _ ≤ (state.vectorIndex + (times - 1)) * standardVectorSize :=
          Nat.le_mul_of_pos_right _ standardVectorSize_pos
    obtain ⟨chunks, next, rows, ran, scans, done, shown⟩ := ScanParameters.scanChunks_spec ready
      permutes positioned (reaches enough_rounds) (reaches enough_calls)
    rw [Nat.sub_add_cancel (Nat.zero_lt_of_lt enough_rounds),
      Nat.sub_add_cancel (Nat.zero_lt_of_lt enough_calls)] at ran
    exact ⟨chunks, rows, ran, shown, scans.returnedRows ready marks unsampled positioned done⟩

end Scan

/-- `RowGroup::CheckZonemap` with sound statistics marks filters soundly. -/
theorem marksSound_of_checkZonemap {columnCount : Nat}
    {group : ScannedRowGroup columnCount (Option Payload)}
    (standard : ∀ column, (group.columns column).meaning = .standard) {runtime : Runtime}
    {columns : Fin columnCount → ColumnStatistics}
    (sound : ∀ column, (columns column).Sound runtime
      ((List.range group.count).map (group.columns column).value))
    (filters : List (ScanFilter columnCount)) :
    MarksSound group (checkZonemap runtime columns filters).2 := by
  intro entry member mark
  cases optional : entry.filter.isOptional with
  | true => exact .inl rfl
  | false =>
      refine .inr fun row inside => ?_
      rw [standard]
      exact decide_eq_true (checkZonemap_alwaysTrue runtime columns
        ((List.range group.count).map fun row column => (group.columns column).value row)
        (fun column => by
          rw [List.map_map]
          exact sound column) member mark optional _
        (List.mem_map_of_mem (List.mem_range.mpr inside)))

/-! ## Optional filters below AND -/

namespace OptionalScan

/-- Statistics that rule out NULLs, or do not. -/
def integerStatistics (hasNull : Bool) : BaseStatistics := ⟨.integer, hasNull, true, none, []⟩

theorem integerStatistics_sound {hasNull : Bool} {values : List (Option Payload)}
    (present : ∀ value ∈ values, value ≠ none) : (integerStatistics hasNull).Sound .identityHash values :=
  ⟨fun null => absurd rfl (present none null), fun _ => rfl, fun _ impossible => (by cases impossible),
    trivial⟩

/-- A vector and a row in two segments, all of them 5, and an update that is not visible yet. -/
def column : UpdatedColumn where
  stored := {
    start := 0
    count := 2049
    layout := ⟨4, .integer 0, FilterScan.integerSize_pos⟩
    data := [⟨0, 2048, [⟨.integer 5, 2048⟩], []⟩, ⟨2048, 1, [⟨.integer 5, 1⟩], []⟩]
    validity := [⟨0, 2049, false⟩]
    data_contiguous := by simp [SegmentTree.Contiguous, RLE.RLESegment.node, SegmentNode.stop]
    data_count := rfl
    data_valid := by simp [Run.Proper, Run.expand]
    validity_contiguous := by simp [SegmentTree.Contiguous, ValiditySegment.node]
    validity_count := rfl
    validity_pos := by simp }
  statistics index := integerStatistics (index == 1)
  updates vectorIndex :=
    if vectorIndex = 0 then
      ⟨some ⟨transactionIdStart - 1, [(7, .integer 6)]⟩, [⟨transactionIdStart, [(7, .integer 5)]⟩]⟩
    else .empty
  validityUpdates _ := .empty
  updateStatistics := integerStatistics false

def transaction : TransactionData := ⟨1, transactionIdStart + 1⟩

/-- No row is NULL. -/
theorem value_ne_none (inside : row < 2049) : column.value transaction row ≠ none := by
  have place : row / standardVectorSize * standardVectorSize + row % standardVectorSize = row :=
    Nat.div_add_mod' row standardVectorSize
  have valid : column.stored.validAt row = true := by
    change (((List.replicate 2049 true) ++ [])[row - 0]?).getD false = true
    rw [List.append_nil, Nat.sub_zero, List.getElem?_replicate_of_lt inside]
    rfl
  change (if column.stored.validAt (0 + row / standardVectorSize * standardVectorSize +
    row % standardVectorSize) = true then _ else none) ≠ none
  rw [Nat.zero_add, place, if_pos valid]
  exact Option.some_ne_none _

theorem statisticsSound : column.StatisticsSound .identityHash transaction := by
  intro index segment found
  refine ⟨_, [], fun _ member => .inl member, integerStatistics_sound ?_,
    fun _ impossible => (by cases impossible), integerStatistics_sound fun _ none => by cases none⟩
  intro value member
  obtain ⟨place, inside, rfl⟩ := List.mem_map.mp member
  rw [List.mem_range] at inside
  have last := SegmentTree.Contiguous.stop_le_total column.stored.data_contiguous segment
    (List.mem_of_getElem? found)
  rw [SegmentNode.stop] at last
  exact value_ne_none (by
    change _ ≤ 0 + 2049 at last
    change segment.rowStart - 0 + place < 2049
    omega)

def group : ScannedRowGroup 1 (Option Payload) :=
  ⟨0, 2049, fun _ => column.scanned transaction .identityHash (fun _ => .integer 0) statisticsSound, ⟨[]⟩⟩

/-- `x > 0 AND OPTIONAL(x IS NULL)`. -/
def filter : TableFilter :=
  .conjunctionAnd [.constantComparison .compareGreaterThan ⟨.integer, .integer 0⟩,
    .optionalFilter .isNull]

def parameters : ScanParameters 1 := ⟨transaction, [⟨0, filter, false⟩], fun _ => [0],
  fun _ => false⟩

/-- Where `InitializeScanWithOffset` leaves the scan. -/
def first : UpdatedScan := ⟨⟨⟨some 0, 0, 0, false, .create⟩, ⟨some 0, 0, 0, false, ()⟩⟩, false⟩

def start : CollectionScanState group := ⟨0, 2049, 2049, fun _ => first⟩

theorem initialized : start.Initialized 0 :=
  ⟨rfl, rfl, fun _ => ⟨first, rfl⟩⟩

theorem visible (row : Nat) : group.visible parameters.transaction row = true := by
  have inside : row % standardVectorSize < standardVectorSize :=
    Nat.mod_lt _ standardVectorSize_pos
  simp [ScannedRowGroup.visible, group, RowVersionManager.getSelVector,
    RowVersionManager.getChunkInfo, inside]

/-- The optional filter is true of no row. -/
theorem not_holdsFilters (inside : row < 2049) :
    holdsFilters group parameters.filterList row ≠ true := by
  intro holds
  have true_of_row : filter.eval (column.value transaction row) = some true :=
    of_decide_eq_true (List.all_eq_true.mp holds _ List.mem_cons_self)
  rw [filter, TableFilter.eval, TableFilter.evalAll_eq_true_iff] at true_of_row
  have null := true_of_row (.optionalFilter .isNull) (List.mem_cons_of_mem _ List.mem_cons_self)
  rw [TableFilter.eval, TableFilter.eval] at null
  exact value_ne_none inside (by simpa using null)

/-- The scan returns one row. -/
theorem scanChunks_one : (parameters.scanChunks 3 2 start).toOption.map
    (List.map ResultChunk.count) = some [1] := by
  decide +kernel

end OptionalScan

/--
The segment of the first vector is ruled out by the optional filter, whose rows pass all the same,
and the row behind it is returned although the optional filter is not true of it.
-/
theorem templatedScan_optional : OptionalScan.start.Initialized 0 ∧ ∃ chunks,
    OptionalScan.parameters.scanChunks 3 2 OptionalScan.start = .ok chunks ∧
      (¬ ∃ rows : List Nat, rows.Nodup ∧
        chunks.flatMap ResultChunk.rows = rows.map OptionalScan.group.cells ∧
        ∀ row, row ∈ rows ↔ row < OptionalScan.group.count ∧
          OptionalScan.group.visible OptionalScan.parameters.transaction row = true ∧
          passesFilters OptionalScan.group OptionalScan.parameters.filterList row = true) ∧
      ¬ ∃ rows : List Nat, rows.Nodup ∧
        chunks.flatMap ResultChunk.rows = rows.map OptionalScan.group.cells ∧
        ∀ row, row ∈ rows ↔ row < OptionalScan.group.count ∧
          OptionalScan.group.visible OptionalScan.parameters.transaction row = true ∧
          holdsFilters OptionalScan.group OptionalScan.parameters.filterList row = true := by
  refine ⟨OptionalScan.initialized, ?_⟩
  have one := OptionalScan.scanChunks_one
  cases ran : OptionalScan.parameters.scanChunks 3 2 OptionalScan.start with
  | error message =>
      rw [ran] at one
      cases one
  | ok chunks =>
      rw [ran] at one
      have counts : chunks.map ResultChunk.count = [1] := Option.some.inj one
      obtain ⟨chunk, rfl, single⟩ := List.map_eq_singleton_iff.mp counts
      have length_rows : (List.flatMap ResultChunk.rows [chunk]).length = 1 := by
        rw [List.flatMap_singleton, ResultChunk.rows, List.length_map, List.length_range, single]
      refine ⟨[chunk], rfl, ?_, ?_⟩
      · rintro ⟨rows, -, shown, returned⟩
        rw [shown, List.length_map] at length_rows
        obtain ⟨row, rfl⟩ := List.length_eq_one_iff.mp length_rows
        have first := (returned 0).mpr ⟨by decide, OptionalScan.visible 0, by decide⟩
        have second := (returned 1).mpr ⟨by decide, OptionalScan.visible 1, by decide⟩
        rw [List.mem_singleton] at first second
        omega
      · rintro ⟨rows, -, shown, returned⟩
        rw [shown, List.length_map] at length_rows
        obtain ⟨row, rfl⟩ := List.length_eq_one_iff.mp length_rows
        obtain ⟨inside, -, holds⟩ := (returned row).mp List.mem_cons_self
        exact OptionalScan.not_holdsFilters inside holds

/-- The scan of that row group returns what passes outside of the segment that is ruled out. -/
theorem templatedScan_returns_optional : ∃ chunks rows,
    OptionalScan.parameters.scanChunks 2050 2050 OptionalScan.start = .ok chunks ∧
      chunks.flatMap ResultChunk.rows = rows.map OptionalScan.group.cells ∧
        ReturnedRows OptionalScan.parameters OptionalScan.start rows :=
  (templatedScan_returns
    (⟨List.pairwise_singleton _ _, fun entry member _ => by
      rw [List.mem_singleton.mp member]
      decide⟩ : FiltersReady OptionalScan.group OptionalScan.parameters.filterList)
    (fun entry member mark => by
      rw [List.mem_singleton.mp member] at mark
      cases mark)
    (fun _ => List.Perm.refl [0]) (fun _ => rfl)
    OptionalScan.initialized.positioned).2.2 2050 2050
      (by decide) (by decide)

end StatsRecommender
