import StatsRecommender.Storage.FilterRun
import StatsRecommender.Storage.LazySegmentTree
import StatsRecommender.Storage.ScannedColumn
import StatsRecommender.Storage.UpdateSegment

/-!
# Scanning a column with updates

`StandardColumnData` with updates, as a scan of a row group uses it: vectors are scanned flat, the
updates that the transaction sees are merged into them, and the zone maps are those of the segments
and of the updates.
-/

namespace StatsRecommender

variable {row vectorIndex place : Nat} {segment : SegmentNode} {entry : TableFilter}

/-! ## Updates of a vector -/

section Updates

variable {T : Type} {result result' : Nat → T}

/-- The loop of `MergeUpdateInfo` and of `MergeValidityInfo`. -/
def ChainedUpdate.mergeEntries (info : ChainedUpdate T) (result : Nat → T) : Nat → T :=
  info.entries.foldl (fun result entry => fun row => if row = entry.1 then entry.2 else result row)
    result

/-- `UpdateMergeValidity`. -/
def VectorUpdates.fetchUpdatesValidity (updates : VectorUpdates Bool) (transaction : TransactionData)
    (result : Nat → Bool) : Nat → Bool :=
  (updates.updatesForTransaction transaction).foldl (fun result info => info.mergeEntries result)
    result

/-- What is merged into a row depends on nothing but the row. -/
theorem foldl_local {α : Type} {merge : (Nat → T) → α → Nat → T}
    (merges : ∀ result result' info, result row = result' row →
      merge result info row = merge result' info row) (infos : List α)
    (same : result row = result' row) :
    infos.foldl merge result row = infos.foldl merge result' row := by
  induction infos generalizing result result' with
  | nil => exact same
  | cons info rest ih => exact ih (merges _ _ info same)

theorem ChainedUpdate.mergeEntries_local (info : ChainedUpdate T)
    (same : result row = result' row) :
    info.mergeEntries result row = info.mergeEntries result' row :=
  foldl_local (fun _ _ entry same => by rw [same]) info.entries same

theorem ChainedUpdate.mergeUpdateInfo_local (info : ChainedUpdate T)
    (same : result row = result' row) :
    info.mergeUpdateInfo result row = info.mergeUpdateInfo result' row := by
  rw [mergeUpdateInfo, mergeUpdateInfo]
  split
  · exact congrArg (Option.getD _) same
  · exact info.mergeEntries_local same

theorem VectorUpdates.fetchUpdates_local (updates : VectorUpdates T) (transaction : TransactionData)
    (same : result row = result' row) :
    updates.fetchUpdates transaction result row = updates.fetchUpdates transaction result' row :=
  foldl_local (fun _ _ info => info.mergeUpdateInfo_local) _ same

theorem VectorUpdates.fetchUpdatesValidity_local (updates : VectorUpdates Bool)
    (transaction : TransactionData) {result result' : Nat → Bool}
    (same : result row = result' row) :
    updates.fetchUpdatesValidity transaction result row =
      updates.fetchUpdatesValidity transaction result' row :=
  foldl_local (fun _ _ info => info.mergeEntries_local) _ same

end Updates

/-! ## The column -/

/-- `ColumnData::InitializeScanWithOffset`. -/
def SegmentReader.initializeScanWithOffset {S : Type} (reader : SegmentReader S) (rowIdx : Nat) :
    Except String (ColumnScanState S) := do
  let index ← SegmentTree.getSegmentIndex reader.nodes rowIdx
  let node ← segmentAt reader.nodes index
  pure ⟨some index, rowIdx, node.rowStart, false, reader.initScan⟩

/--
`StandardColumnData` with updates: what its segments hold with their statistics, and the updates of
the data and of the validity by vector.
-/
structure UpdatedColumn where
  stored : StandardColumn
  /-- The statistics of the segments of the data, by position. -/
  statistics : Nat → BaseStatistics
  updates : Nat → VectorUpdates Payload
  validityUpdates : Nat → VectorUpdates Bool
  /-- `UpdateSegment::GetStatistics` of the data. -/
  updateStatistics : BaseStatistics

/-- A scan can start at any row of segments without gaps. -/
theorem SegmentReader.standsAt_initializeScanWithOffset {S : Type} (reader : SegmentReader S)
    {start rowIdx : Nat} (contiguous : SegmentTree.Contiguous start reader.nodes)
    (Standing : Nat → S → Nat → Prop) (low : start ≤ rowIdx)
    (high : rowIdx < start + (reader.nodes.map SegmentNode.count).sum) :
    ∃ state, reader.initializeScanWithOffset rowIdx = .ok state ∧
      reader.StandsAt Standing state rowIdx := by
  obtain ⟨front, node, back, split, holds, -⟩ := contiguous.exists_holds low high
  have found : reader.nodes[front.length]? = some node := by
    rw [split, List.getElem?_append_right (Nat.le_refl _), Nat.sub_self]
    rfl
  have searched : SegmentTree.getSegmentIndex reader.nodes rowIdx = .ok front.length := by
    rw [SegmentTree.getSegmentIndex, SegmentTree.tryGetSegmentIndex_of_holds contiguous.sorted
      (fun first here => (contiguous.rowStart_first here).trans_le low) found holds]
    rfl
  rw [SegmentReader.initializeScanWithOffset, searched]
  dsimp only [bind, Except.bind]
  rw [StandardColumn.segmentAt_of_found found]
  exact ⟨_, rfl, rfl, front.length, node, rfl, found, holds.1, holds.2.le,
    fun begun => by cases begun⟩

/-- The scan state of a column, with `segment_checked`. -/
structure UpdatedScan where
  scan : StandardScan
  segmentChecked : Bool

/-- The segments that a scan goes on to have not been checked. -/
def UpdatedScan.moveTo (state : UpdatedScan) (scan : StandardScan) : UpdatedScan :=
  ⟨scan, state.segmentChecked && decide (scan.data.current = state.scan.data.current)⟩

/-- The filter may change while the scan runs. -/
def TableFilter.isDynamic : TableFilter → Bool
  | .dynamicFilter _ => true
  | _ => false

variable {state : UpdatedScan}

namespace UpdatedColumn

variable (column : UpdatedColumn) (transaction : TransactionData)

/-- The value that a transaction sees in a row of the row group. -/
def value (row : Nat) : Option Payload :=
  let vectorIndex := row / standardVectorSize
  let base := column.stored.start + vectorIndex * standardVectorSize
  let place := row % standardVectorSize
  if (column.validityUpdates vectorIndex).fetchUpdatesValidity transaction
      (fun place => column.stored.validAt (base + place)) place then
    some ((column.updates vectorIndex).fetchUpdates transaction
      (fun place => (column.stored.valueAt (base + place)).getD (.integer 0)) place)
  else none

/-- `StandardColumnData::InitializeScanWithOffset`, which leaves `segment_checked` as it was. -/
def initializeScanWithOffset (before : UpdatedScan) (rowIdx : Nat) : Except String UpdatedScan := do
  let data ← column.stored.dataReader.initializeScanWithOffset rowIdx
  let validity ← column.stored.validityReader.initializeScanWithOffset rowIdx
  pure ⟨⟨data, validity⟩, before.segmentChecked⟩

/-- The segment that `current` points to. -/
def current (state : UpdatedScan) : Option SegmentNode :=
  state.scan.data.current.bind fun index => column.stored.dataReader.nodes[index]?

/-- `ColumnData::CheckZonemap`, for the current segment. -/
def checkZonemap (runtime : Runtime) (entry : TableFilter) (state : UpdatedScan) :
    UpdatedScan × FilterPropagateResult :=
  if state.segmentChecked then (state, .noPruningPossible)
  else
    match state.scan.data.current with
    | none => (state, .noPruningPossible)
    | some index =>
        ({ state with segmentChecked := !entry.isDynamic },
          ColumnStatistics.checkZonemap runtime
            ⟨column.statistics index, some column.updateStatistics⟩ entry)

/-- `ColumnData::Skip`. -/
def skip (state : UpdatedScan) : UpdatedScan := state.moveTo (column.stored.skip state.scan)

/-- `StandardColumnData::Scan`; where a column has updates, it scans flat vectors. -/
def scan (vectorIndex : Nat) (state : UpdatedScan) (memory : Nat → Payload) :
    Except String (UpdatedScan × NullableVector) := do
  let scanCount := column.stored.vectorCount vectorIndex
  let (data, result) ←
    column.stored.dataReader.scan false state.scan.data (.fresh memory) scanCount
  let merged := (column.updates vectorIndex).fetchUpdates transaction result.vector.get
  let (validity, result) ← column.stored.validityReader.scan false state.scan.validity
    { result with vector := ⟨merged, false⟩ } scanCount
  pure (state.moveTo ⟨data, validity⟩, { result with
    valid := (column.validityUpdates vectorIndex).fetchUpdatesValidity transaction result.valid })

/-- `ColumnData::Filter`, which `StandardColumnData::Filter` calls where it scans flat vectors. -/
def filter (vectorIndex : Nat) (state : UpdatedScan) (memory : Nat → Payload) (entry : TableFilter)
    (sel : SelectionVector) (selCount : Nat) :
    Except String (UpdatedScan × FilterResult) := do
  let scanCount := column.stored.vectorCount vectorIndex
  let (state, result) ← column.scan transaction vectorIndex state memory
  let (sel, selCount, _) ← entry.filterSelection result.get
    ((List.range scanCount).all fun row => (result.get row).isSome) scanCount sel selCount
  pure (state, ⟨result, sel, selCount⟩)

/-! ## What a scan reads -/

variable {column transaction}

/-- The scan of the data and that of the validity stand at a row of the row group. -/
def StandsAt (column : UpdatedColumn) (state : UpdatedScan) (row : Nat) : Prop :=
  column.stored.StandsAt column.stored.DataAt state.scan (column.stored.start + row)

theorem standsAt_first (before : UpdatedScan) (inside : row < column.stored.count) :
    ∃ state, column.initializeScanWithOffset before (column.stored.start + row) = .ok state ∧
      column.StandsAt state row := by
  obtain ⟨data, hdata, standsData⟩ :=
    column.stored.dataReader.standsAt_initializeScanWithOffset column.stored.data_contiguous
      column.stored.DataAt (Nat.le_add_right column.stored.start row) (by
        rw [column.stored.data_total]
        omega)
  obtain ⟨validity, hvalidity, standsValidity⟩ :=
    column.stored.validityReader.standsAt_initializeScanWithOffset column.stored.validity_contiguous
      (fun _ _ _ => True) (Nat.le_add_right column.stored.start row) (by
        rw [column.stored.validity_total]
        omega)
  rw [initializeScanWithOffset, hdata]
  dsimp only [bind, Except.bind]
  rw [hvalidity]
  exact ⟨_, rfl, standsData, standsValidity⟩

/-- The current segment holds the row of the scan, or ends in front of it. -/
theorem current_holds (stands : column.StandsAt state row)
    (current : segment ∈ column.current state) :
    segment.rowStart ≤ column.stored.start + row ∧ column.stored.start + row ≤ segment.stop ∧
      segment.stop ≤ column.stored.start + column.stored.count := by
  obtain ⟨-, index, node, here, found, low, high, -⟩ := stands.data
  rw [UpdatedColumn.current, here] at current
  obtain rfl : node = segment := Option.some.inj (found.symm.trans current)
  refine ⟨low, high, ?_⟩
  rw [← column.stored.data_total]
  exact SegmentTree.Contiguous.stop_le_total column.stored.data_contiguous node
    (List.mem_of_getElem? found)

theorem scan_checkZonemap (runtime : Runtime) (entry : TableFilter) (state : UpdatedScan) :
    (column.checkZonemap runtime entry state).1.scan = state.scan := by
  rw [checkZonemap]
  split
  · rfl
  · split <;> rfl

/-- The updates are merged into a row as into what is stored there. -/
theorem value_of_read (small : place < standardVectorSize) {data : Nat → Payload}
    {valid : Nat → Bool}
    (dataRead : column.stored.valueAt (column.stored.start + vectorIndex * standardVectorSize + place) =
      some (data place)) (validRead : valid place =
      column.stored.validAt (column.stored.start + vectorIndex * standardVectorSize + place)) :
    (if (column.validityUpdates vectorIndex).fetchUpdatesValidity transaction valid place then
      some ((column.updates vectorIndex).fetchUpdates transaction data place) else none) =
        column.value transaction (vectorIndex * standardVectorSize + place) := by
  have same : data place = (column.stored.valueAt
      (column.stored.start + vectorIndex * standardVectorSize + place)).getD (.integer 0) := by
    rw [dataRead]
    rfl
  rw [value, row_div small, row_mod small]
  congr 1
  · exact congrArg (· = true) (VectorUpdates.fetchUpdatesValidity_local _ _ validRead)
  · exact congrArg some (VectorUpdates.fetchUpdates_local _ _ same)

/-- A scan reads what the transaction sees in the rows of a vector. -/
theorem scan_spec {state : UpdatedScan} {vectorIndex : Nat}
    (stands : column.StandsAt state (vectorIndex * standardVectorSize))
    (inside : vectorIndex * standardVectorSize < column.stored.count) (memory : Nat → Payload) :
    ∃ state' result, column.scan transaction vectorIndex state memory = .ok (state', result) ∧
      (∀ place < column.stored.vectorCount vectorIndex,
        result.get place = column.value transaction (vectorIndex * standardVectorSize + place)) ∧
      ((vectorIndex + 1) * standardVectorSize < column.stored.count →
        column.StandsAt state' ((vectorIndex + 1) * standardVectorSize)) := by
  obtain ⟨scanCount, scanCount_eq⟩ : ∃ scanCount, scanCount = column.stored.vectorCount vectorIndex :=
    ⟨_, rfl⟩
  have short : scanCount ≤ standardVectorSize := scanCount_eq.trans_le (Nat.min_le_left _ _)
  have fits : column.stored.start + vectorIndex * standardVectorSize + scanCount ≤
      column.stored.start + column.stored.count := by
    rw [scanCount_eq, StandardColumn.vectorCount]
    omega
  obtain ⟨dataState, data, scannedData, standsData, read⟩ := SegmentReader.scan_spec
    (column.stored.data_sound false) column.stored.data_contiguous stands.data
    (by rw [column.stored.data_total]; exact fits) (fun whole => by cases whole) (.fresh memory)
    ⟨rfl, fun _ => rfl, fun _ impossible => absurd impossible (Nat.not_lt_zero _)⟩
  obtain ⟨merged, merged_eq⟩ : ∃ merged, merged =
      (column.updates vectorIndex).fetchUpdates transaction data.vector.get := ⟨_, rfl⟩
  obtain ⟨validityState, result, scannedValidity, standsValidity, valid⟩ := SegmentReader.scan_spec
    (column.stored.validity_sound false ⟨merged, false⟩ fun _ => rfl)
    column.stored.validity_contiguous stands.validity
    (by rw [column.stored.validity_total]; exact fits) (fun whole => by cases whole)
    { data with vector := ⟨merged, false⟩ }
    ⟨rfl, fun _ impossible => absurd impossible (Nat.not_lt_zero _), fun _ _ => by rw [read.valid]⟩
  rw [scan, ← scanCount_eq, scannedData]
  dsimp only [bind, Except.bind]
  rw [← merged_eq, scannedValidity]
  refine ⟨_, _, rfl, fun place small => ?_, fun more => ?_⟩
  · rw [NullableVector.get, valid.vector_eq]
    change (if VectorUpdates.fetchUpdatesValidity _ _ _ place then some (merged place) else none) = _
    rw [merged_eq]
    exact value_of_read (small.trans_le short) (read.value place small) (valid.valid place small)
  · have full := FilterScan.vectorCount_of_next more
    rw [← scanCount_eq] at full
    rw [StandsAt, Nat.add_mul, Nat.one_mul, ← Nat.add_assoc, ← full]
    rw [full] at standsData standsValidity ⊢
    exact ⟨standsData, standsValidity⟩

/-- A filter leaves the rows of a vector whose values pass. -/
theorem filter_spec (stands : column.StandsAt state (vectorIndex * standardVectorSize))
    (memory : Nat → Payload) (supported : entry.supported = true) {sel : SelectionVector}
    {selCount size : Nat} (pos : 0 < size) (short : size ≤ standardVectorSize)
    (inside : vectorIndex * standardVectorSize + size ≤ column.stored.count)
    (holds : sel.Holds selCount size) :
    ∃ state' result, column.filter transaction vectorIndex state memory entry sel selCount =
        .ok (state', result) ∧
      result.rows.length = result.count ∧
      result.rows.Perm ((sel.rows selCount).filter fun row =>
        entry.passes (column.value transaction (vectorIndex * standardVectorSize + row))) ∧
      (∀ row ∈ result.rows, result.result.get row =
        column.value transaction (vectorIndex * standardVectorSize + row)) ∧
      ((vectorIndex + 1) * standardVectorSize < column.stored.count →
        column.StandsAt state' ((vectorIndex + 1) * standardVectorSize)) := by
  obtain ⟨state', result, scanned, read, next⟩ :=
    @scan_spec column transaction _ _ stands (by omega) memory
  have below : ∀ row ∈ sel.rows selCount, row < column.stored.vectorCount vectorIndex :=
    fun row member => (holds.inside row member).trans_le
      (le_min short (Nat.le_sub_of_add_le' inside))
  obtain ⟨sel', selCount', returned, chosen, rows_eq, full, -⟩ := TableFilter.filterSelection_spec
    result.get
    ((List.range (column.stored.vectorCount vectorIndex)).all fun row => (result.get row).isSome)
    (column.stored.vectorCount vectorIndex) entry
    (fun all row inside => List.all_eq_true.mp all row (List.mem_range.mpr inside)) supported sel
    selCount holds.full holds.distinct below (.inl (Nat.min_le_left _ _))
  have perm : (sel'.rows selCount').Perm ((sel.rows selCount).filter fun row =>
      entry.passes (column.value transaction (vectorIndex * standardVectorSize + row))) := by
    rw [rows_eq]
    refine (TableFilter.matching_perm _ entry _ holds.distinct).trans (List.Perm.of_eq ?_)
    exact List.filter_congr fun row member => by rw [read row (below row member)]
  rw [filter, scanned]
  dsimp only [bind, Except.bind]
  rw [chosen]
  exact ⟨state', ⟨result, sel', selCount'⟩, rfl, full, perm,
    fun row member => read row (below row (List.mem_of_mem_filter (perm.mem_iff.mp member))), next⟩

/-- The statistics of each segment and those of the updates hold of what the transaction sees. -/
def StatisticsSound (column : UpdatedColumn) (runtime : Runtime) (transaction : TransactionData) :
    Prop :=
  ∀ (index : Nat) segment, column.stored.dataReader.nodes[index]? = some segment →
    ColumnStatistics.Sound runtime ⟨column.statistics index, some column.updateStatistics⟩
      ((List.range segment.count).map fun place =>
        column.value transaction (segment.rowStart - column.stored.start + place))

/-- No row of a segment that its zone map rules out satisfies the filter. -/
theorem zonemap_passes {runtime : Runtime} (sound : column.StatisticsSound runtime transaction)
    (pruned : (column.checkZonemap runtime entry state).2 = .filterAlwaysFalse)
    (current : segment ∈ column.current state)
    (holds : segment.Holds (column.stored.start + place)) :
    entry.eval (column.value transaction place) ≠ some true := by
  rw [checkZonemap] at pruned
  split at pruned
  · cases pruned
  · cases here : state.scan.data.current with
    | none =>
        rw [here] at pruned
        cases pruned
    | some index =>
        rw [here] at pruned
        rw [UpdatedColumn.current, here] at current
        obtain ⟨low, high⟩ := holds
        rw [SegmentNode.stop] at high
        have behind := SegmentTree.Contiguous.le_rowStart column.stored.data_contiguous segment
          (List.mem_of_getElem? current)
        have shown := ColumnStatistics.checkZonemap_spec (sound index segment current) entry
        refine shown.never (.inl pruned) _ (List.mem_map.mpr
          ⟨column.stored.start + place - segment.rowStart, List.mem_range.mpr (by omega), ?_⟩)
        exact congrArg (column.value transaction) (by omega)

variable (column transaction) in
/-- The column as a scan of its row group uses it. -/
def scanned (runtime : Runtime) (memory : Nat → Payload)
    (sound : column.StatisticsSound runtime transaction) :
    ScannedColumn (Option Payload) column.stored.start column.stored.count where
  State := UpdatedScan
  meaning := .standard
  value := column.value transaction
  initializeScanWithOffset := column.initializeScanWithOffset
  current := column.current
  checkZonemap := column.checkZonemap runtime
  skip := column.skip
  scan vectorIndex state := do
    let (state, result) ← column.scan transaction vectorIndex state memory
    pure (state, fun row => some (result.get row))
  filter vectorIndex state entry sel selCount := do
    let (state, filtered) ←
      column.filter transaction vectorIndex state memory entry sel selCount
    pure (state, fun row => some (filtered.result.get row), filtered.sel, filtered.count)
  -- `ColumnData::Select`
  select vectorIndex state sel selCount := do
    let (state, result) ← column.scan transaction vectorIndex state memory
    pure (state, VectorValues.slice (fun row => some (result.get row)) sel selCount)
  StandsAt := column.StandsAt
  standsAt_first before _ inside := standsAt_first before inside
  current_holds _ _ stands _ current := current_holds stands current
  checkZonemap_current entry state := by
    rw [current, scan_checkZonemap]
    rfl
  standsAt_checkZonemap entry state row stands := by
    rw [StandsAt, scan_checkZonemap]
    exact stands
  checkZonemap_sound entry state _ _ pruned _ current _ _ holds :=
    decide_eq_false (zonemap_passes sound pruned current holds)
  standsAt_skip state row stands inside := by
    rw [StandsAt, ← Nat.add_assoc]
    exact FilterScan.standsAt_skip stands (by omega)
  scan_spec vectorIndex state stands inside := by
    obtain ⟨state', result, scanned, read, next⟩ := scan_spec stands inside memory
    rw [scanned]
    exact ⟨state', _, rfl, fun row small here => congrArg some
      (read row (lt_min small (Nat.lt_sub_of_add_lt (Nat.add_comm row _ ▸ here)))), next⟩
  filter_spec vectorIndex state entry sel selCount size stands pos short inside supported holds := by
    obtain ⟨state', result, filtered, full, perm, read, next⟩ :=
      filter_spec stands memory supported pos short inside holds
    rw [filtered]
    exact ⟨state', _, _, _, rfl, full, perm, fun row member => congrArg some (read row member), next⟩
  select_spec vectorIndex state sel selCount size stands pos short inside holds := by
    obtain ⟨state', result, scanned, read, next⟩ := scan_spec stands (by omega) memory
    rw [scanned]
    refine ⟨state', _, rfl, fun row place here => ?_, next⟩
    have below := holds.inside place (List.mem_of_getElem? here)
    rw [VectorValues.slice, here]
    exact congrArg some (read place (lt_min (below.trans_le short) (by omega)))

end UpdatedColumn

end StatsRecommender
