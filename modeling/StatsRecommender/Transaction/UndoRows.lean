import StatsRecommender.Storage.RowVersionAgreement
import StatsRecommender.Transaction.UndoState

/-!
# Reverted appends

Cutting the row groups of a table off at a row, which is done twice when a reverted commit is
rolled back, and the row versions that appends and their reverts reach.
-/

namespace StatsRecommender

variable {nodes : List SegmentNode} {rowNumber index : Nat} {infos result : Nat → RowVersionManager}

open SegmentTree

/-! ## Columns -/

/-- The binary search only ends at a segment that holds the row. -/
theorem bisect_holds (fuel lower upper : Nat)
    (found : bisect nodes rowNumber fuel lower upper = .ok (some index)) :
    ∃ node, nodes[index]? = some node ∧ node.Holds rowNumber := by
  induction fuel generalizing lower upper with
  | zero => cases found
  | succ fuel ih =>
      rw [bisect] at found
      split at found
      · dsimp only at found
        split at found
        · cases found
        · rename_i entry hentry
          split at found
          · split at found
            · cases found
            · exact ih _ _ found
          · rename_i behind
            split at found
            · exact ih _ _ found
            · rename_i before
              cases found
              exact ⟨entry, hentry, Nat.le_of_not_lt behind, Nat.lt_of_not_le before⟩
      · cases found

theorem tryGetSegmentIndex_holds (found : tryGetSegmentIndex nodes rowNumber = .ok (some index)) :
    ∃ node, nodes[index]? = some node ∧ node.Holds rowNumber := by
  rw [tryGetSegmentIndex] at found
  split at found
  · cases found
  · exact bisect_holds _ _ _ found

section Cut

variable {Segment : Type} {start : Segment → Nat} {revert : Segment → Segment}
  {segments : List Segment} {index startRow : Nat} {segment : Segment}

/-- What a cut leaves was there, or is what is left of the segment at the index. -/
theorem mem_cutFrom (member : segment ∈ cutFrom start revert segments index startRow) :
    segment ∈ segments ∨ ∃ old ∈ segments, segment = revert old := by
  rw [cutFrom] at member
  split at member
  · exact .inl member
  · rename_i old hold
    split at member
    · exact .inl (List.mem_of_mem_take member)
    · rcases List.mem_append.mp member with before | last
      · exact .inl (List.mem_of_mem_take before)
      · exact .inr ⟨old, List.mem_of_getElem? hold, List.mem_singleton.mp last⟩

/-- What a cut leaves at a segment that holds the row. -/
theorem cutFrom_of_getElem? (found : segments[index]? = some segment) :
    cutFrom start revert segments index startRow =
      if start segment = startRow then segments.take index
      else segments.take index ++ [revert segment] := by
  rw [cutFrom, found]

end Cut

namespace BlockColumn

/-- The segments end where the next ones start, or before. -/
def Sorted (column : BlockColumn) : Prop :=
  SegmentTree.Sorted (column.data.map BlockSegment.node)

variable {column : BlockColumn} {startRow : Nat}

/-- A column without rows behind the start row stays as it is. -/
theorem revertAppend_of_le
    (before : ∀ last, column.data.getLast? = some last → last.start + last.count ≤ startRow) :
    column.revertAppend startRow = column := by
  rw [revertAppend]
  split
  · rfl
  · rename_i last hlast
    rw [if_pos (before last hlast)]

theorem node_getElem? {node : SegmentNode}
    (found : (column.data.map BlockSegment.node)[index]? = some node) :
    ∃ segment, column.data[index]? = some segment ∧ node = segment.node := by
  rw [List.getElem?_map] at found
  obtain ⟨segment, hsegment, rfl⟩ := Option.map_eq_some_iff.mp found
  exact ⟨segment, hsegment, rfl⟩

/-- No segment behind the start row is left. -/
theorem last_le_of_cutFrom (sorted : column.Sorted) {segment last : BlockSegment}
    (found : column.data[index]? = some segment) (holds : segment.node.Holds startRow)
    (hlast : (cutFrom BlockSegment.start (BlockSegment.revertAppend · startRow) column.data index
      startRow).getLast? = some last) : last.start + last.count ≤ startRow := by
  rw [cutFrom_of_getElem? found] at hlast
  split at hlast
  · rename_i same
    rw [List.getLast?_eq_getElem?, List.length_take] at hlast
    have bound := (List.getElem?_eq_some_iff.mp found).1
    have position : min index column.data.length - 1 = index - 1 := by omega
    rw [position] at hlast
    rcases Nat.eq_zero_or_pos index with zero | positive
    · subst zero
      rw [List.take_zero] at hlast
      cases hlast
    · rw [List.getElem?_take_of_lt (by omega)] at hlast
      have before : (column.data.map BlockSegment.node)[index - 1]? = some last.node := by
        rw [List.getElem?_map, hlast]
        rfl
      have here : (column.data.map BlockSegment.node)[index]? = some segment.node := by
        rw [List.getElem?_map, found]
        rfl
      have apart := sorted.stop_le (Nat.sub_lt positive Nat.one_pos) before here
      rw [← same]
      exact apart
  · rw [List.getLast?_append, List.getLast?_singleton] at hlast
    have same : segment.revertAppend startRow = last := Option.some.inj hlast
    rw [← same]
    change segment.start + (startRow - segment.start) ≤ startRow
    have low : segment.start ≤ startRow := holds.1
    omega

/-- A column that was cut off is not cut off again. -/
theorem revertAppend_idem (sorted : column.Sorted) (startRow : Nat) :
    (column.revertAppend startRow).revertAppend startRow = column.revertAppend startRow := by
  obtain ⟨cut, hcut⟩ : ∃ cut, column.revertAppend startRow = cut := ⟨_, rfl⟩
  rw [hcut]
  rw [revertAppend] at hcut
  split at hcut
  · rename_i none
    rw [← hcut]
    exact revertAppend_of_le fun last found => absurd (none.symm.trans found) (by simp)
  · rename_i last hlast
    split at hcut
    · rename_i before
      rw [← hcut]
      refine revertAppend_of_le fun other found => ?_
      rw [Option.some.inj (found.symm.trans hlast)]
      exact before
    · rename_i behind
      split at hcut
      · rename_i index hindex
        obtain ⟨node, found, holds⟩ := tryGetSegmentIndex_holds hindex
        obtain ⟨segment, hsegment, rfl⟩ := node_getElem? found
        rw [← hcut]
        exact revertAppend_of_le fun other => last_le_of_cutFrom sorted hsegment holds
      · rename_i failed
        rw [← hcut, revertAppend, hlast]
        dsimp only
        rw [if_neg behind]
        split
        · rename_i index hindex
          exact absurd hindex (failed index)
        · rfl

end BlockColumn

/-! ## Row groups -/

namespace StoredRowGroup

/-- A row group has rows, and its columns have no segment behind them. -/
structure WellFormed (rowGroup : StoredRowGroup) : Prop where
  positive : 0 < rowGroup.count
  columns : ∀ column ∈ rowGroup.columns, ∀ part ∈ [column.main, column.validity],
    part.Sorted ∧ ∀ segment ∈ part.data,
      segment.start + segment.count ≤ rowGroup.start + rowGroup.count

variable {rowGroup : StoredRowGroup} {startRow : Nat}

/-- A row group that ends before the start row stays as it is. -/
theorem WellFormed.revertAppend_of_le (wellFormed : rowGroup.WellFormed)
    (before : rowGroup.start + rowGroup.count ≤ startRow) :
    rowGroup.revertAppend startRow = rowGroup := by
  have keeps : ∀ column ∈ rowGroup.columns, column.revertAppend startRow = column := by
    intro column member
    have part : ∀ part ∈ [column.main, column.validity], part.revertAppend startRow = part := by
      intro part hpart
      refine BlockColumn.revertAppend_of_le fun last hlast => ?_
      exact Nat.le_trans ((wellFormed.columns column member part hpart).2 last
        (List.mem_of_getLast? hlast)) before
    rw [StoredColumn.revertAppend, part column.main (by simp), part column.validity (by simp)]
  have columns : rowGroup.columns.map (StoredColumn.revertAppend · startRow) =
      rowGroup.columns := (List.map_congr_left keeps).trans (List.map_id _)
  have count : min (startRow - rowGroup.start) rowGroup.count = rowGroup.count := by omega
  rw [revertAppend, columns, count]

/-- A row group that was cut off is not cut off again. -/
theorem WellFormed.revertAppend_idem (wellFormed : rowGroup.WellFormed) (startRow : Nat) :
    (rowGroup.revertAppend startRow).revertAppend startRow = rowGroup.revertAppend startRow := by
  have columns : (rowGroup.columns.map (StoredColumn.revertAppend · startRow)).map
      (StoredColumn.revertAppend · startRow) =
      rowGroup.columns.map (StoredColumn.revertAppend · startRow) := by
    rw [List.map_map]
    refine List.map_congr_left fun column member => ?_
    have parts := wellFormed.columns column member
    have main := BlockColumn.revertAppend_idem (parts column.main (by simp)).1 startRow
    have validity := BlockColumn.revertAppend_idem (parts column.validity (by simp)).1 startRow
    exact congrArg₂ StoredColumn.mk main validity
  have count : min (startRow - rowGroup.start) (min (startRow - rowGroup.start) rowGroup.count) =
      min (startRow - rowGroup.start) rowGroup.count := by omega
  rw [revertAppend, revertAppend]
  dsimp only
  rw [columns, count]

end StoredRowGroup

namespace StoredRows

/-- The row groups follow each other from the first row to the last. -/
structure WellFormed (rows : StoredRows) : Prop where
  contiguous : Contiguous 0 (rows.rowGroups.map StoredRowGroup.node)
  total : rows.totalRows = ((rows.rowGroups.map StoredRowGroup.node).map SegmentNode.count).sum
  rowGroups : ∀ rowGroup ∈ rows.rowGroups, rowGroup.WellFormed

variable {rows : StoredRows} {startRow : Nat}

/-- The row group of a row that is there, with those in front of it. -/
theorem WellFormed.exists_holds (wellFormed : rows.WellFormed)
    (inside : startRow < rows.totalRows) :
    ∃ front rowGroup back, rows.rowGroups = front ++ rowGroup :: back ∧
      rowGroup.start ≤ startRow ∧ startRow < rowGroup.start + rowGroup.count ∧
      (∀ other ∈ front, other.start + other.count ≤ rowGroup.start) ∧
      rows.revertIndex startRow = front.length ∧
      getSegmentIndex (rows.rowGroups.map StoredRowGroup.node) startRow = .ok front.length := by
  have total := wellFormed.total
  obtain ⟨front, rowGroup, back, hrows, holds, -, here, found, index⟩ :=
    wellFormed.contiguous.getSegmentIndex (Nat.zero_le startRow) (by omega)
  refine ⟨front, rowGroup, back, hrows, holds.1, holds.2, fun other member => ?_, ?_, index⟩
  · obtain ⟨position, bound, rfl⟩ := List.mem_iff_getElem.mp member
    have earlier : (rows.rowGroups.map StoredRowGroup.node)[position]? =
        some front[position].node := by
      rw [hrows, List.getElem?_map, List.getElem?_append_left bound,
        List.getElem?_eq_getElem bound]
      rfl
    exact wellFormed.contiguous.sorted.stop_le bound earlier
      ((List.getElem?_map ..).trans (congrArg (Option.map StoredRowGroup.node) here))
  · rw [revertIndex, found]

/-- Row groups that end before the start row are looked for in the last of them. -/
theorem revertIndex_of_le
    (before : ∀ rowGroup ∈ rows.rowGroups, rowGroup.start + rowGroup.count ≤ startRow) :
    rows.revertIndex startRow = rows.rowGroups.length - 1 := by
  rw [revertIndex]
  split
  · rename_i index hindex
    obtain ⟨node, found, holds⟩ := tryGetSegmentIndex_holds hindex
    obtain ⟨rowGroup, member, rfl⟩ := List.mem_map.mp (List.mem_of_getElem? found)
    exact absurd holds.2 (Nat.not_lt.mpr (before rowGroup member))
  · rfl

/-- What is in front of the start row is not cut off again. -/
theorem revertAppendInternal_of_le (total : rows.totalRows = startRow)
    (kept : ∀ rowGroup ∈ rows.rowGroups, rowGroup.start + rowGroup.count ≤ startRow ∧
      rowGroup.start ≠ startRow ∧ rowGroup.revertAppend startRow = rowGroup) :
    rows.revertAppendInternal startRow = rows := by
  rw [revertAppendInternal, revertIndex_of_le fun rowGroup member => (kept rowGroup member).1]
  obtain ⟨totalRows, rowGroups⟩ := rows
  dsimp only at total kept ⊢
  rw [total]
  congr 1
  rcases List.eq_nil_or_concat rowGroups with rfl | ⟨front, last, rfl⟩
  · rfl
  · rw [List.concat_eq_append] at kept ⊢
    obtain ⟨-, other, same⟩ := kept last (by simp)
    have length : (front ++ [last]).length - 1 = front.length := by simp
    have found : (front ++ [last])[front.length]? = some last := by simp
    rw [length, cutFrom_of_getElem? found, if_neg other, same, List.take_left' rfl]

/-- Reverting an append for the second time changes nothing. -/
theorem WellFormed.revertAppendInternal_idem (wellFormed : rows.WellFormed)
    (inside : startRow < rows.totalRows) :
    (rows.revertAppendInternal startRow).revertAppendInternal startRow =
      rows.revertAppendInternal startRow := by
  obtain ⟨front, rowGroup, back, hrows, low, -, before, index, -⟩ :=
    wellFormed.exists_holds inside
  have found : rows.rowGroups[front.length]? = some rowGroup := by
    rw [hrows]
    simp
  have front_kept : ∀ other ∈ front, other.start + other.count ≤ startRow ∧
      other.start ≠ startRow ∧ other.revertAppend startRow = other := by
    intro other member
    have good := wellFormed.rowGroups other (by simp [hrows, member])
    have ends := Nat.le_trans (before other member) low
    have positive := good.positive
    exact ⟨ends, by omega, good.revertAppend_of_le ends⟩
  refine revertAppendInternal_of_le rfl ?_
  rw [revertAppendInternal, index]
  dsimp only
  rw [cutFrom_of_getElem? found, hrows, List.take_left' rfl]
  split
  · exact front_kept
  · rename_i other
    intro kept member
    rcases List.mem_append.mp member with earlier | last
    · exact front_kept kept earlier
    · rw [List.mem_singleton.mp last]
      have good := wellFormed.rowGroups rowGroup (by simp [hrows])
      refine ⟨?_, other, good.revertAppend_idem startRow⟩
      change rowGroup.start + min (startRow - rowGroup.start) rowGroup.count ≤ startRow
      omega

/-- The row groups that a cut leaves are some of those before, by start and version info. -/
theorem mem_revertAppendInternal {kept : StoredRowGroup}
    (member : kept ∈ (rows.revertAppendInternal startRow).rowGroups) :
    ∃ rowGroup ∈ rows.rowGroups, kept.start = rowGroup.start ∧
      kept.versionInfo = rowGroup.versionInfo := by
  rcases mem_cutFrom member with old | ⟨old, hold, rfl⟩
  · exact ⟨kept, old, rfl, rfl⟩
  · exact ⟨old, hold, rfl, rfl⟩

/-- The version info that a revert reaches is that of a row group. -/
theorem mem_revertedVersions {info row : Nat}
    (reverted : rows.revertedVersions startRow = some (info, row)) :
    ∃ rowGroup ∈ rows.rowGroups, rowGroup.versionInfo = info ∧
      row = startRow - rowGroup.start := by
  rw [revertedVersions] at reverted
  split at reverted
  · cases reverted
  · rename_i segment found
    split at reverted
    · cases reverted
    · cases reverted
      exact ⟨segment, List.mem_of_getElem? found, rfl, rfl⟩

/-! ## Committed appends -/

/--
What a committed append keeps of the version infos it reaches: in each row group the rows from
the start row on are written.
-/
theorem commitAppendLoop_kept {Holds : Nat → RowVersionManager → Prop} {commitId first : Nat}
    {rowGroups : List StoredRowGroup} {remaining : Nat}
    (contiguous : Contiguous first (rowGroups.map StoredRowGroup.node))
    (inside : ∀ rowGroup ∈ rowGroups, startRow < rowGroup.start + rowGroup.count)
    (kept : ∀ rowGroup ∈ rowGroups, ∀ count manager manager', Holds rowGroup.versionInfo manager →
      manager.commitAppend commitId (startRow - rowGroup.start) count = .ok manager' →
      Holds rowGroup.versionInfo manager') (holds : ∀ info, Holds info (infos info))
    (ok : commitAppendLoop commitId rowGroups (max startRow first) remaining infos = .ok result) :
    ∀ info, Holds info (result info) := by
  induction rowGroups generalizing first remaining infos with
  | nil => cases ok
  | cons rowGroup rest ih =>
      obtain ⟨start, contiguous⟩ := contiguous
      have hstart : rowGroup.start = first := start
      have place : max startRow first - rowGroup.start = startRow - rowGroup.start := by omega
      rw [commitAppendLoop, place] at ok
      cases committed : (infos rowGroup.versionInfo).commitAppend commitId
          (startRow - rowGroup.start)
          (min (rowGroup.count - (startRow - rowGroup.start)) remaining) with
      | error message =>
          rw [committed] at ok
          cases ok
      | ok info =>
          rw [committed] at ok
          dsimp only [bind, Except.bind] at ok
          have holds' : ∀ other, Holds other
              (Function.update infos rowGroup.versionInfo info other) := by
            intro other
            by_cases same : other = rowGroup.versionInfo
            · rw [same, Function.update_self]
              exact kept rowGroup List.mem_cons_self _ _ _ (holds _) committed
            · rw [Function.update_of_ne same]
              exact holds other
          split at ok
          · cases ok
            exact holds'
          · rename_i more
            have next : max startRow first +
                min (rowGroup.count - (startRow - rowGroup.start)) remaining =
                max startRow rowGroup.node.stop := by
              change _ = max startRow (rowGroup.start + rowGroup.count)
              omega
            rw [next] at ok
            exact ih contiguous (fun other member => inside other (List.mem_cons_of_mem _ member))
              (fun other member => kept other (List.mem_cons_of_mem _ member)) holds' ok

theorem WellFormed.commitAppend_kept (wellFormed : rows.WellFormed)
    (inside : startRow < rows.totalRows) (Holds : Nat → RowVersionManager → Prop)
    {commitId count : Nat}
    (kept : ∀ rowGroup ∈ rows.rowGroups, startRow < rowGroup.start + rowGroup.count →
      ∀ count manager manager', Holds rowGroup.versionInfo manager →
      manager.commitAppend commitId (startRow - rowGroup.start) count = .ok manager' →
      Holds rowGroup.versionInfo manager') (holds : ∀ info, Holds info (infos info))
    (ok : rows.commitAppend commitId startRow count infos = .ok result) :
    ∀ info, Holds info (result info) := by
  obtain ⟨front, rowGroup, back, hrows, low, high, -, -, index⟩ :=
    wellFormed.exists_holds inside
  rw [commitAppend, index] at ok
  dsimp only [bind, Except.bind] at ok
  have contiguous := wellFormed.contiguous
  rw [hrows, List.map_append, contiguous_append] at contiguous
  obtain ⟨-, tail⟩ := contiguous.2
  have behind : ∀ other ∈ rowGroup :: back, startRow < other.start + other.count := by
    intro other member
    rcases List.mem_cons.mp member with rfl | later
    · exact high
    · have ends : rowGroup.node.stop ≤ other.start :=
        tail.le_rowStart other.node (List.mem_map_of_mem later)
      have stop : startRow < rowGroup.node.stop := high
      exact Nat.lt_of_lt_of_le (Nat.lt_of_lt_of_le stop ends) (Nat.le_add_right _ _)
  rw [hrows, List.drop_left' rfl] at ok
  have current : startRow = max startRow rowGroup.start := by omega
  rw [current] at ok
  have following : Contiguous rowGroup.start ((rowGroup :: back).map StoredRowGroup.node) :=
    ⟨rfl, tail⟩
  refine commitAppendLoop_kept following behind ?_ holds ok
  intro other member
  refine kept other ?_ (behind other member)
  rw [hrows]
  exact List.mem_append_right _ member

end StoredRows

end StatsRecommender
