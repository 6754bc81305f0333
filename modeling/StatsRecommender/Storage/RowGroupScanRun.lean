import StatsRecommender.Storage.RowGroupScan

/-!
# What a scan of a row group returns

Every round of the loop goes on to a later vector or returns.  A vector is left out where it lies
in a segment that a filter rules out; of the other vectors, the rows come that the transaction sees
and that pass the filters.
-/

namespace StatsRecommender

variable {maxCount row vectorIndex size : Nat} {places : List Nat}

/-! ## Visible rows -/

namespace RowVersionManager

/-- The rows of a vector are selected one by one, in their order. -/
theorem exists_getSelVector (manager : RowVersionManager) (transaction : TransactionData)
    (vectorIdx : Nat) :
    ∃ test : Nat → Bool, ∀ maxCount,
      manager.getSelVector transaction vectorIdx maxCount = (List.range maxCount).filter test := by
  have all : ∃ test : Nat → Bool, ∀ maxCount, List.range maxCount =
      (List.range maxCount).filter test :=
    ⟨fun _ => true, fun maxCount => (List.filter_true _).symm⟩
  have nothing : ∃ test : Nat → Bool, ∀ maxCount, [] = (List.range maxCount).filter test :=
    ⟨fun _ => false, fun maxCount => (List.filter_false _).symm⟩
  simp only [getSelVector]
  cases manager.getChunkInfo vectorIdx with
  | none => exact all
  | some info =>
      cases info with
      | constant insertId deleteId =>
          simp only [ChunkInfo.getSelVector]
          split
          · exact all
          · exact nothing
      | vector info =>
          simp only [ChunkInfo.getSelVector, ChunkVectorInfo.getSelVector]
          split
          · split
            · exact all
            · exact nothing
          · split
            · split
              · exact nothing
              · exact ⟨_, fun _ => rfl⟩
            · split
              · exact ⟨_, fun _ => rfl⟩
              · exact ⟨_, fun _ => rfl⟩

end RowVersionManager

section Scan

variable {columnCount : Nat} {Cell : Type} {group : ScannedRowGroup columnCount Cell}
  {filterList filters : List (ScanFilter columnCount)}
  {middle next state : CollectionScanState group}

namespace ScannedRowGroup

/-- The transaction sees a row: `GetSelVector` selects it. -/
def visible (group : ScannedRowGroup columnCount Cell) (transaction : TransactionData) (row : Nat) :
    Bool :=
  decide (row % standardVectorSize ∈ group.versionInfo.getSelVector transaction
    (row / standardVectorSize) standardVectorSize)

/-- What `GetSelVector` selects of the first rows of a vector are those that are visible. -/
theorem getSelVector_eq (group : ScannedRowGroup columnCount Cell) (transaction : TransactionData)
    (vectorIndex : Nat) (short : maxCount ≤ standardVectorSize) :
    group.versionInfo.getSelVector transaction vectorIndex maxCount =
      (List.range maxCount).filter fun place =>
        group.visible transaction (vectorIndex * standardVectorSize + place) := by
  obtain ⟨test, selects⟩ := group.versionInfo.exists_getSelVector transaction vectorIndex
  rw [selects]
  refine List.filter_congr fun place member => ?_
  have inside : place < standardVectorSize := (List.mem_range.mp member).trans_le short
  rw [visible, row_div inside, row_mod inside, selects]
  simp [inside]

end ScannedRowGroup

/-! ## Segments that are ruled out -/

/-- A filter rules out a segment of its column, by the statistics of the segment. -/
def RulesOut (group : ScannedRowGroup columnCount Cell) (entry : ScanFilter columnCount)
    (segment : SegmentNode) : Prop :=
  ∃ columnScan row, (group.columns entry.tableColumnIndex).StandsAt columnScan row ∧
    segment ∈ (group.columns entry.tableColumnIndex).current columnScan ∧
    ((group.columns entry.tableColumnIndex).checkZonemap entry.filter columnScan).2 =
      .filterAlwaysFalse

/-- A whole vector lies in a segment that a filter rules out. -/
def VectorRuledOut (group : ScannedRowGroup columnCount Cell)
    (filterList : List (ScanFilter columnCount)) (vectorIndex : Nat) : Prop :=
  ∃ entry ∈ filterList, entry.alwaysTrue = false ∧ ∃ segment, RulesOut group entry segment ∧
    ∀ row, vectorIndex * standardVectorSize ≤ row →
      row < (vectorIndex + 1) * standardVectorSize → segment.Holds (group.start + row)

theorem div_bounds (same : row / standardVectorSize = vectorIndex) :
    vectorIndex * standardVectorSize ≤ row ∧ row < (vectorIndex + 1) * standardVectorSize := by
  subst same
  exact ⟨Nat.div_mul_le_self row _,
    (Nat.div_lt_iff_lt_mul standardVectorSize_pos).mp (Nat.lt_succ_self _)⟩

/-- On a row of a vector that is ruled out, some filter is not true. -/
theorem VectorRuledOut.fails (ruledOut : VectorRuledOut group filterList (row / standardVectorSize))
    (inside : row < group.count) :
    ∃ entry ∈ filterList,
      (group.columns entry.tableColumnIndex).meaning.holds entry.filter
        ((group.columns entry.tableColumnIndex).value row) = false := by
  obtain ⟨entry, member, -, segment, ⟨columnScan, position, stands, current, pruned⟩, holds⟩ :=
    ruledOut
  obtain ⟨low, high⟩ := div_bounds (rfl : row / standardVectorSize = _)
  exact ⟨entry, member, (group.columns entry.tableColumnIndex).checkZonemap_sound entry.filter
    columnScan position stands pruned segment current row inside (holds row low high)⟩

namespace CollectionScanState

/-- The scans of all columns stand at the vector, as long as there is one to be scanned. -/
structure Positioned (state : CollectionScanState group) : Prop where
  maxRowGroupRow_eq : state.maxRowGroupRow = min group.count (state.maxRow - group.start)
  stands : state.vectorIndex * standardVectorSize < state.maxRowGroupRow → ∀ column,
    (group.columns column).StandsAt (state.columnScans column)
      (state.vectorIndex * standardVectorSize)

/-- A later state of the scan with the same end. -/
structure Continues (state next : CollectionScanState group) : Prop where
  positioned : next.Positioned
  maxRow_eq : next.maxRow = state.maxRow
  maxRowGroupRow_eq : next.maxRowGroupRow = state.maxRowGroupRow

variable {state : CollectionScanState group}

theorem Positioned.le_count (positioned : state.Positioned) :
    state.maxRowGroupRow ≤ group.count :=
  positioned.maxRowGroupRow_eq.trans_le (min_le_left _ _)

theorem Continues.refl (positioned : state.Positioned) : state.Continues state :=
  ⟨positioned, rfl, rfl⟩

theorem Continues.trans (first : state.Continues middle) (second : middle.Continues next) :
    state.Continues next :=
  ⟨second.positioned, second.maxRow_eq.trans first.maxRow_eq,
    second.maxRowGroupRow_eq.trans first.maxRowGroupRow_eq⟩

/-- The next vector is positioned if all its columns stand there. -/
theorem Positioned.of_stands (positioned : state.Positioned) (vectorIndex : Nat)
    (columnScans : ∀ column, (group.columns column).State)
    (stands : vectorIndex * standardVectorSize < group.count → ∀ column,
      (group.columns column).StandsAt (columnScans column) (vectorIndex * standardVectorSize)) :
    state.Continues { state with vectorIndex, columnScans } :=
  ⟨⟨positioned.maxRowGroupRow_eq, fun inside => stands (inside.trans_le positioned.le_count)⟩,
    rfl, rfl⟩

theorem nextVector_continues (positioned : state.Positioned)
    (inside : state.vectorIndex * standardVectorSize < state.maxRowGroupRow) :
    state.Continues state.nextVector := by
  refine positioned.of_stands (state.vectorIndex + 1) _ fun next column => ?_
  rw [Nat.succ_mul] at next ⊢
  exact (group.columns column).standsAt_skip _ _ (positioned.stands inside column) next

theorem nextVectors_continues (times : Nat) (positioned : state.Positioned)
    (inside : (state.vectorIndex + times) * standardVectorSize ≤ state.maxRowGroupRow) :
    state.Continues (nextVectors times state) ∧
      (nextVectors times state).vectorIndex = state.vectorIndex + times := by
  induction times generalizing state with
  | zero => exact ⟨.refl positioned, rfl⟩
  | succ times ih =>
      have here : state.vectorIndex * standardVectorSize < state.maxRowGroupRow := by
        refine lt_of_lt_of_le ?_ inside
        exact Nat.mul_lt_mul_of_pos_right (by omega) standardVectorSize_pos
      have next := nextVector_continues positioned here
      have shifted : state.nextVector.vectorIndex + times = state.vectorIndex + (times + 1) := by
        change state.vectorIndex + 1 + times = _
        omega
      obtain ⟨continued, index⟩ := ih next.positioned (by rw [shifted]; exact inside)
      exact ⟨next.trans continued, index.trans shifted⟩

/-- Checking a segment leaves the scan of its column where it stands. -/
theorem update_continues (positioned : state.Positioned) (column : Fin columnCount)
    (entry : TableFilter) :
    state.Continues { state with
      columnScans := Function.update state.columnScans column
        ((group.columns column).checkZonemap entry (state.columnScans column)).1 } := by
  refine ⟨⟨positioned.maxRowGroupRow_eq, fun inside other => ?_⟩, rfl, rfl⟩
  have stands := positioned.stands inside
  dsimp only
  by_cases same : other = column
  · subst same
    rw [Function.update_self]
    exact (group.columns other).standsAt_checkZonemap entry _ _ (stands other)
  · rw [Function.update_of_ne same]
    exact stands other

/-- The vectors up to the end of a segment lie in it, from where a scan stands in it on. -/
theorem vectors_in_segment {segment : SegmentNode} {last : Nat}
    (low : segment.rowStart ≤ group.start + vectorIndex * standardVectorSize)
    (high : group.start + last * standardVectorSize ≤ segment.stop) {other : Nat}
    (from_here : vectorIndex ≤ other) (below : other < last)
    (behind : other * standardVectorSize ≤ row) (before : row < (other + 1) * standardVectorSize) :
    segment.Holds (group.start + row) := by
  have first : vectorIndex * standardVectorSize ≤ other * standardVectorSize :=
    Nat.mul_le_mul_right _ from_here
  have end_le : (other + 1) * standardVectorSize ≤ last * standardVectorSize :=
    Nat.mul_le_mul_right _ below
  exact ⟨by omega, by omega⟩

/-- The segments are checked on the spot, or the scan goes on behind vectors that are ruled out. -/
theorem checkZonemapSegments_spec (subset : ∀ entry ∈ filters, entry ∈ filterList)
    (positioned : state.Positioned)
    (inside : state.vectorIndex * standardVectorSize < state.maxRowGroupRow) :
    let result := checkZonemapSegments filters state
    state.Continues result.2 ∧
      (result.1 = true → result.2.vectorIndex = state.vectorIndex) ∧
      (result.1 = false → state.vectorIndex < result.2.vectorIndex ∧
        ∀ other, state.vectorIndex ≤ other → other < result.2.vectorIndex →
          VectorRuledOut group filterList other) := by
  induction filters generalizing state with
  | nil => exact ⟨.refl positioned, fun _ => rfl, fun impossible => by cases impossible⟩
  | cons entry rest ih =>
      have rest_subset : ∀ entry ∈ rest, entry ∈ filterList :=
        fun other member => subset other (List.mem_cons_of_mem _ member)
      rw [checkZonemapSegments]
      cases mark : entry.alwaysTrue with
      | true => exact ih rest_subset positioned inside
      | false =>
          simp only [Bool.false_eq_true, if_false]
          have stands := positioned.stands inside entry.tableColumnIndex
          have checked := update_continues positioned entry.tableColumnIndex entry.filter
          have others := ih rest_subset checked.positioned inside
          split
          · exact ⟨checked.trans others.1, others.2⟩
          · rename_i pruned
            rw [Decidable.not_not] at pruned
            split
            · exact ⟨checked.trans others.1, others.2⟩
            · rename_i segment hsegment
              rw [(group.columns entry.tableColumnIndex).checkZonemap_current] at hsegment
              obtain ⟨low, high, stop_le⟩ := (group.columns entry.tableColumnIndex).current_holds
                _ _ stands segment hsegment
              obtain ⟨target, htarget⟩ : ∃ target, target =
                  ((if state.maxRow ≤ segment.stop then state.maxRow else segment.stop) -
                    group.start) / standardVectorSize := ⟨_, rfl⟩
              have end_eq := positioned.maxRowGroupRow_eq
              have target_le : target * standardVectorSize ≤
                  (if state.maxRow ≤ segment.stop then state.maxRow else segment.stop) -
                    group.start := htarget ▸ Nat.div_mul_le_self _ _
              have index_le : state.vectorIndex ≤ target := by
                rw [htarget, Nat.le_div_iff_mul_le standardVectorSize_pos]
                split <;> omega
              rw [← htarget]
              split
              · exact ⟨checked, fun _ => rfl, fun impossible => by cases impossible⟩
              · rename_i ahead
                have times : state.vectorIndex + (target - state.vectorIndex) = target := by omega
                have reaches : (state.vectorIndex + (target - state.vectorIndex)) *
                    standardVectorSize ≤ state.maxRowGroupRow := by
                  rw [times]
                  refine target_le.trans ?_
                  split <;> omega
                obtain ⟨skipped, index⟩ :=
                  nextVectors_continues (target - state.vectorIndex) checked.positioned reaches
                refine ⟨checked.trans skipped, fun impossible => (by cases impossible), fun _ => ?_⟩
                dsimp only at index
                rw [times] at index
                refine ⟨by rw [index]; omega, fun other from_here below => ?_⟩
                rw [index] at below
                refine ⟨entry, subset entry List.mem_cons_self, mark, segment,
                  ⟨_, _, stands, hsegment, pruned⟩, fun row behind before => ?_⟩
                refine vectors_in_segment low ?_ from_here below behind before
                split at target_le <;> omega

end CollectionScanState

/-! ## Loops over columns -/

/-- Each column that is read is read once, and the others are left alone. -/
theorem readColumns_spec {reads : Fin columnCount → Bool}
    {read : ∀ column, (group.columns column).State →
      Except String ((group.columns column).State × VectorValues Cell)}
    (progress : ColumnProgress group)
    (Read : ∀ column, (group.columns column).State → VectorValues Cell → Prop)
    (succeeds : ∀ column, reads column = true → ∃ columnScan values,
      read column (progress.columnScans column) = .ok (columnScan, values) ∧
        Read column columnScan values) :
    ∃ result, readColumns reads read progress = .ok result ∧ ∀ column,
      (reads column = true → Read column (result.columnScans column) (result.data column)) ∧
      (reads column = false → result.columnScans column = progress.columnScans column ∧
        result.data column = progress.data column) := by
  have loop : ∀ (columns : List (Fin columnCount)) (progress : ColumnProgress group),
      columns.Nodup →
      (∀ column ∈ columns, reads column = true → ∃ columnScan values,
        read column (progress.columnScans column) = .ok (columnScan, values) ∧
          Read column columnScan values) →
      ∃ result, columns.foldlM (fun progress column =>
          if reads column then
            read column (progress.columnScans column) >>= fun scanned =>
              pure ⟨Function.update progress.columnScans column scanned.1,
                Function.update progress.data column scanned.2⟩
          else pure progress) progress = (Except.ok result : Except String _) ∧
        ∀ column,
          (column ∈ columns → reads column = true →
            Read column (result.columnScans column) (result.data column)) ∧
          (column ∉ columns ∨ reads column = false →
            result.columnScans column = progress.columnScans column ∧
              result.data column = progress.data column) := by
    intro columns
    induction columns with
    | nil =>
        intro progress _ _
        exact ⟨progress, rfl, fun column => ⟨fun member => (by cases member), fun _ => ⟨rfl, rfl⟩⟩⟩
    | cons first rest ih =>
        intro progress distinct succeeds
        obtain ⟨absent, distinct⟩ := List.nodup_cons.mp distinct
        rw [List.foldlM_cons]
        by_cases needed : reads first = true
        · obtain ⟨columnScan, values, ran, holds⟩ := succeeds first List.mem_cons_self needed
          obtain ⟨result, rest_ran, spec⟩ := ih
            ⟨Function.update progress.columnScans first columnScan,
              Function.update progress.data first values⟩ distinct
            (by
              intro column member wanted
              have other : column ≠ first := fun same => absent (same ▸ member)
              dsimp only
              rw [Function.update_of_ne other]
              exact succeeds column (List.mem_cons_of_mem _ member) wanted)
          rw [if_pos needed, ran]
          refine ⟨result, rest_ran, fun column => ⟨fun member wanted => ?_, fun left => ?_⟩⟩
          · rcases List.mem_cons.mp member with rfl | later
            · obtain ⟨scan_eq, data_eq⟩ := (spec column).2 (Or.inl absent)
              rw [scan_eq, data_eq]
              dsimp only
              rw [Function.update_self, Function.update_self]
              exact holds
            · exact (spec column).1 later wanted
          · have other : column ≠ first := by
              rintro rfl
              rcases left with left | unread
              · exact left List.mem_cons_self
              · rw [needed] at unread
                cases unread
            obtain ⟨scan_eq, data_eq⟩ := (spec column).2
              (left.imp (fun left later => left (List.mem_cons_of_mem _ later)) id)
            rw [scan_eq, data_eq]
            dsimp only
            rw [Function.update_of_ne other, Function.update_of_ne other]
            exact ⟨rfl, rfl⟩
        · rw [if_neg needed]
          obtain ⟨result, rest_ran, spec⟩ := ih progress distinct
            fun column member wanted => succeeds column (List.mem_cons_of_mem _ member) wanted
          refine ⟨result, rest_ran, fun column => ⟨fun member wanted => ?_, fun left => ?_⟩⟩
          · rcases List.mem_cons.mp member with rfl | later
            · exact absurd wanted needed
            · exact (spec column).1 later wanted
          · by_cases later : column ∈ rest
            · rcases left with left | unread
              · exact absurd (List.mem_cons_of_mem _ later) left
              · exact (spec column).2 (Or.inr unread)
            · exact (spec column).2 (Or.inl later)
  obtain ⟨result, ran, spec⟩ := loop (List.finRange columnCount) progress (List.nodup_finRange _)
    fun column _ wanted => succeeds column wanted
  exact ⟨result, ran, fun column => ⟨(spec column).1 (List.mem_finRange column),
    fun unread => (spec column).2 (Or.inr unread)⟩⟩

/-! ## Filters -/

/-- A row passes the filters that are checked. -/
def passesFilters (group : ScannedRowGroup columnCount Cell)
    (filters : List (ScanFilter columnCount)) (row : Nat) : Bool :=
  filters.all fun entry =>
    entry.alwaysTrue || (group.columns entry.tableColumnIndex).meaning.passes entry.filter
      ((group.columns entry.tableColumnIndex).value row)

/-- The first rows of a vector, up to a size, are rows of the row group. -/
structure VectorRows (group : ScannedRowGroup columnCount Cell) (vectorIndex size : Nat) : Prop where
  pos : 0 < size
  le : size ≤ standardVectorSize
  inside : vectorIndex * standardVectorSize + size ≤ group.count

theorem SelectionVector.Holds.of_perm {sel sel' : SelectionVector} {count count' : Nat}
    (holds : sel.Holds count size) {test : Nat → Bool}
    (left : (sel'.rows count').Perm ((sel.rows count).filter test))
    (full : (sel'.rows count').length = count') : sel'.Holds count' size := by
  refine ⟨full, left.nodup_iff.mpr (holds.distinct.filter _), fun row member => ?_⟩
  exact holds.inside row (List.mem_of_mem_filter (left.mem_iff.mp member))

/-- What filters leave of a vector, with the columns they read. -/
structure Filtered (group : ScannedRowGroup columnCount Cell) (vectorIndex size : Nat)
    (filters : List (ScanFilter columnCount)) (progress result : FilterProgress group) : Prop where
  holds : result.sel.Holds result.approvedTupleCount size
  left : (result.sel.rows result.approvedTupleCount).Perm
    ((progress.sel.rows progress.approvedTupleCount).filter fun row =>
      passesFilters group filters (vectorIndex * standardVectorSize + row))
  others : ∀ column, (∀ entry ∈ filters, entry.alwaysTrue = false →
      column ≠ entry.tableColumnIndex) →
    result.columnScans column = progress.columnScans column ∧
      result.data column = progress.data column
  stands : ∀ entry ∈ filters, entry.alwaysTrue = false →
    (vectorIndex + 1) * standardVectorSize < group.count →
    (group.columns entry.tableColumnIndex).StandsAt (result.columnScans entry.tableColumnIndex)
      ((vectorIndex + 1) * standardVectorSize)
  values : ∀ entry ∈ filters, entry.alwaysTrue = false →
    ∀ row ∈ result.sel.rows result.approvedTupleCount,
      result.data entry.tableColumnIndex row = some
        ((group.columns entry.tableColumnIndex).value (vectorIndex * standardVectorSize + row))

/-- Filters on columns of their own, of the kinds that a scan knows. -/
structure FiltersReady (group : ScannedRowGroup columnCount Cell)
    (filters : List (ScanFilter columnCount)) : Prop where
  distinct : filters.Pairwise fun before behind => before.tableColumnIndex ≠ behind.tableColumnIndex
  supported : ∀ entry ∈ filters, entry.alwaysTrue = false →
    (group.columns entry.tableColumnIndex).meaning.supported entry.filter = true

theorem passesFilters_cons (entry : ScanFilter columnCount)
    (filters : List (ScanFilter columnCount)) (row : Nat) :
    passesFilters group (entry :: filters) row =
      (passesFilters group [entry] row && passesFilters group filters row) := by
  simp [passesFilters]

theorem SelectionVector.rows_zero (sel : SelectionVector) : sel.rows 0 = [] := by
  cases sel with
  | none => rfl
  | some indexes => rfl

namespace Filtered

variable {vectorIndex size : Nat} {entry : ScanFilter columnCount}
  {filters : List (ScanFilter columnCount)} {progress middle result : FilterProgress group}

/-- One filter, and then the others on other columns. -/
theorem cons (first : Filtered group vectorIndex size [entry] progress middle)
    (rest : Filtered group vectorIndex size filters middle result)
    (apart : ∀ other ∈ filters, entry.tableColumnIndex ≠ other.tableColumnIndex) :
    Filtered group vectorIndex size (entry :: filters) progress result := by
  have kept := rest.others entry.tableColumnIndex fun other member _ => apart other member
  have subset : ∀ row ∈ result.sel.rows result.approvedTupleCount,
      row ∈ middle.sel.rows middle.approvedTupleCount :=
    fun row member => List.mem_of_mem_filter (rest.left.mem_iff.mp member)
  refine ⟨rest.holds, ?_, fun column apart => ?_, fun other member checked more => ?_,
    fun other member checked row left => ?_⟩
  · refine rest.left.trans ((first.left.filter _).trans (List.Perm.of_eq ?_))
    rw [List.filter_filter]
    refine List.filter_congr fun row _ => ?_
    exact (Bool.and_comm _ _).trans (passesFilters_cons entry filters _).symm
  · obtain ⟨scan_eq, data_eq⟩ := rest.others column fun other member =>
      apart other (List.mem_cons_of_mem _ member)
    obtain ⟨scan_eq', data_eq'⟩ := first.others column fun other member =>
      apart other (List.mem_singleton.mp member ▸ List.mem_cons_self)
    exact ⟨scan_eq.trans scan_eq', data_eq.trans data_eq'⟩
  · rcases List.mem_cons.mp member with rfl | later
    · rw [kept.1]
      exact first.stands other List.mem_cons_self checked more
    · exact rest.stands other later checked more
  · rcases List.mem_cons.mp member with rfl | later
    · rw [kept.2]
      exact first.values other List.mem_cons_self checked row (subset row left)
    · exact rest.values other later checked row left

end Filtered

/-- A filter is always true, or comes too late for any row, or is checked. -/
theorem filterColumn_spec (rows : VectorRows group vectorIndex size)
    (progress : FilterProgress group) (entry : ScanFilter columnCount)
    (supported : entry.alwaysTrue = false →
      (group.columns entry.tableColumnIndex).meaning.supported entry.filter = true)
    (holds : progress.sel.Holds progress.approvedTupleCount size)
    (stands : (group.columns entry.tableColumnIndex).StandsAt
      (progress.columnScans entry.tableColumnIndex) (vectorIndex * standardVectorSize)) :
    ∃ result, filterColumn vectorIndex progress entry = .ok result ∧
      Filtered group vectorIndex size [entry] progress result := by
  rw [filterColumn]
  cases mark : entry.alwaysTrue with
  | true =>
      refine ⟨progress, rfl, holds, ?_, fun _ _ => ⟨rfl, rfl⟩, fun other member checked => ?_,
        fun other member checked => ?_⟩
      · rw [List.filter_eq_self.mpr fun row _ => by simp [passesFilters, mark]]
      · rw [List.mem_singleton.mp member, mark] at checked
        cases checked
      · rw [List.mem_singleton.mp member, mark] at checked
        cases checked
  | false =>
      simp only [Bool.false_eq_true, if_false]
      by_cases none_left : progress.approvedTupleCount = 0
      · have nothing : progress.sel.rows progress.approvedTupleCount = [] := by
          rw [none_left, SelectionVector.rows_zero]
        rw [if_pos none_left]
        refine ⟨_, rfl, holds, ?_, fun column apart => ⟨?_, rfl⟩, fun other member _ more => ?_,
          fun other member _ row left => ?_⟩
        · dsimp only
          rw [nothing]
          exact .refl _
        · exact Function.update_of_ne (apart entry List.mem_cons_self mark) _ _
        · obtain rfl := List.mem_singleton.mp member
          dsimp only
          rw [Function.update_self]
          rw [Nat.succ_mul] at more ⊢
          exact (group.columns other.tableColumnIndex).standsAt_skip _ _ stands more
        · dsimp only at left
          rw [nothing] at left
          cases left
      · obtain ⟨columnScan, values, sel, count, ran, full, left, read, next⟩ :=
          (group.columns entry.tableColumnIndex).filter_spec vectorIndex _ entry.filter _ _ size
            stands rows.pos rows.le rows.inside (supported mark) holds
        rw [if_neg none_left, ran]
        refine ⟨_, rfl, holds.of_perm left full, ?_, fun column apart => ?_,
          fun other member _ more => ?_, fun other member _ row selected => ?_⟩
        · refine left.trans (List.Perm.of_eq (List.filter_congr fun row _ => ?_))
          simp [passesFilters, mark]
        · have other := apart entry List.mem_cons_self mark
          exact ⟨Function.update_of_ne other _ _, Function.update_of_ne other _ _⟩
        · obtain rfl := List.mem_singleton.mp member
          dsimp only
          rw [Function.update_self]
          exact next more
        · obtain rfl := List.mem_singleton.mp member
          dsimp only
          rw [Function.update_self]
          exact read row selected

/-- The loop over the filters of a vector. -/
theorem filterColumn_foldlM (rows : VectorRows group vectorIndex size)
    (ready : FiltersReady group filters) (progress : FilterProgress group)
    (holds : progress.sel.Holds progress.approvedTupleCount size)
    (stands : ∀ entry ∈ filters, (group.columns entry.tableColumnIndex).StandsAt
      (progress.columnScans entry.tableColumnIndex) (vectorIndex * standardVectorSize)) :
    ∃ result, filters.foldlM (filterColumn vectorIndex) progress = .ok result ∧
      Filtered group vectorIndex size filters progress result := by
  induction filters generalizing progress with
  | nil =>
      refine ⟨progress, rfl, holds, ?_, fun _ _ => ⟨rfl, rfl⟩, fun _ member => (by cases member),
        fun _ member => (by cases member)⟩
      exact List.Perm.of_eq (List.filter_eq_self.mpr fun _ _ => rfl).symm
  | cons entry rest ih =>
      obtain ⟨apart, distinct⟩ := List.pairwise_cons.mp ready.distinct
      obtain ⟨middle, ran, first⟩ := filterColumn_spec rows progress entry
        (ready.supported entry List.mem_cons_self) holds (stands entry List.mem_cons_self)
      obtain ⟨result, ran_rest, filtered⟩ := ih
        ⟨distinct, fun other member => ready.supported other (List.mem_cons_of_mem _ member)⟩
        middle first.holds (by
          intro other member
          have same := (first.others other.tableColumnIndex fun checked there _ => by
            rw [List.mem_singleton.mp there]
            exact (apart other member).symm).1
          rw [same]
          exact stands other (List.mem_cons_of_mem _ member))
      refine ⟨result, ?_, first.cons filtered apart⟩
      rw [List.foldlM_cons, ran]
      exact ran_rest

/-! ## The order of the filters -/

namespace ScanParameters

variable (parameters : ScanParameters columnCount)

/-- The adaptive filter permutes the filters. -/
def Permutes : Prop :=
  ∀ vectorIndex, (parameters.permutation vectorIndex).Perm
    (List.range parameters.filterList.length)

variable {parameters}

theorem Permutes.filterOrder (permutes : parameters.Permutes) (vectorIndex : Nat) :
    (parameters.filterOrder vectorIndex).Perm parameters.filterList := by
  have all : (List.range parameters.filterList.length).filterMap
      (fun index => parameters.filterList[index]?) = parameters.filterList := by
    generalize parameters.filterList = filters
    induction filters with
    | nil => rfl
    | cons first rest ih =>
        rw [List.length_cons, List.range_succ_eq_map, List.filterMap_cons_some List.getElem?_cons_zero,
          List.filterMap_map]
        exact congrArg (first :: ·) ih
  exact ((permutes vectorIndex).filterMap _).trans (List.Perm.of_eq all)

theorem Permutes.ready (permutes : parameters.Permutes)
    (ready : FiltersReady group parameters.filterList) (vectorIndex : Nat) :
    FiltersReady group (parameters.filterOrder vectorIndex) := by
  have order := permutes.filterOrder vectorIndex
  exact ⟨(order.pairwise_iff fun apart => Ne.symm apart).mpr ready.distinct,
    fun entry member => ready.supported entry (order.mem_iff.mp member)⟩

theorem Permutes.passesFilters_eq (permutes : parameters.Permutes) (vectorIndex row : Nat) :
    passesFilters group (parameters.filterOrder vectorIndex) row =
      passesFilters group parameters.filterList row :=
  (permutes.filterOrder vectorIndex).all_eq

theorem not_hasFilters (none : parameters.hasFilters = false) (row : Nat) :
    passesFilters group parameters.filterList row = true := by
  rw [passesFilters, List.all_eq_true]
  intro entry member
  have always := List.any_eq_false.mp none entry member
  rw [Bool.not_eq_true', Bool.not_eq_false] at always
  rw [always, Bool.true_or]

theorem columnHasFilters_iff (column : Fin columnCount) :
    parameters.columnHasFilters column = true ↔
      ∃ entry ∈ parameters.filterList, entry.alwaysTrue = false ∧
        entry.tableColumnIndex = column := by
  simp [columnHasFilters]

end ScanParameters

/-! ## What a scan returns -/

/-- A row of the row group, as a result shows it. -/
def ScannedRowGroup.cells (group : ScannedRowGroup columnCount Cell) (row : Nat) :
    Fin columnCount → Option Cell :=
  fun column => some ((group.columns column).value row)

/-- A chunk shows some rows of a vector, if each of its rows shows one of them. -/
theorem ResultChunk.rows_eq {chunk : ResultChunk columnCount Cell}
    (count_eq : chunk.count = places.length)
    (shows : ∀ (column : Fin columnCount) (row : Nat) place, places[row]? = some place →
      chunk.data column row =
        some ((group.columns column).value (vectorIndex * standardVectorSize + place))) :
    chunk.rows =
      (places.map fun place => vectorIndex * standardVectorSize + place).map group.cells := by
  rw [ResultChunk.rows, count_eq, List.map_map]
  refine List.ext_getElem (by simp) fun row inside _ => ?_
  rw [List.getElem_map, List.getElem_map, List.getElem_range]
  rw [List.length_map, List.length_range] at inside
  exact funext fun column => shows column row _ (List.getElem?_eq_getElem inside)

namespace ScanParameters

variable (parameters : ScanParameters columnCount)

/-- The transaction sees the row, and the row passes the filters. -/
def returns (group : ScannedRowGroup columnCount Cell) (row : Nat) : Bool :=
  group.visible parameters.transaction row && passesFilters group parameters.filterList row

/-- A vector may be left out: the sample has no part of it, or a filter rules out its segment. -/
def LeftOut (group : ScannedRowGroup columnCount Cell) (vectorIndex : Nat) : Prop :=
  parameters.sampleSkips vectorIndex = true ∨
    VectorRuledOut group parameters.filterList vectorIndex

/-- The scan gets from a state to a later one, and returns some rows on the way. -/
structure Scans (state next : CollectionScanState group) (rows : List Nat) : Prop where
  continues : state.Continues next
  forward : state.vectorIndex ≤ next.vectorIndex
  distinct : rows.Nodup
  sound : ∀ row ∈ rows, state.vectorIndex * standardVectorSize ≤ row ∧
    row < next.vectorIndex * standardVectorSize ∧ row < state.maxRowGroupRow ∧
    parameters.returns group row = true
  complete : ∀ row, state.vectorIndex * standardVectorSize ≤ row →
    row < next.vectorIndex * standardVectorSize → row < state.maxRowGroupRow →
    parameters.returns group row = true → row ∉ rows →
      parameters.LeftOut group (row / standardVectorSize)

namespace Scans

variable {parameters} {state middle next : CollectionScanState group} {rows rows' : List Nat}

theorem refl (positioned : state.Positioned) : parameters.Scans state state [] where
  continues := .refl positioned
  forward := Nat.le_refl _
  distinct := List.nodup_nil
  sound := fun _ member => by cases member
  complete := fun _ behind before => absurd before (Nat.not_lt.mpr behind)

theorem trans (first : parameters.Scans state middle rows)
    (second : parameters.Scans middle next rows') :
    parameters.Scans state next (rows ++ rows') := by
  have same := first.continues.maxRowGroupRow_eq
  have low := Nat.mul_le_mul_right standardVectorSize first.forward
  have high := Nat.mul_le_mul_right standardVectorSize second.forward
  refine ⟨first.continues.trans second.continues, first.forward.trans second.forward, ?_, ?_, ?_⟩
  · refine List.nodup_append.mpr ⟨first.distinct, second.distinct, fun row here other there => ?_⟩
    rintro rfl
    exact absurd (first.sound row here).2.1 (Nat.not_lt.mpr (second.sound row there).1)
  · intro row member
    rcases List.mem_append.mp member with here | there
    · obtain ⟨behind, before, inside, returned⟩ := first.sound row here
      exact ⟨behind, before.trans_le high, inside, returned⟩
    · obtain ⟨behind, before, inside, returned⟩ := second.sound row there
      exact ⟨low.trans behind, before, inside.trans_eq same, returned⟩
  · intro row behind before inside returned absent
    rw [List.mem_append, not_or] at absent
    rcases Nat.lt_or_ge row (middle.vectorIndex * standardVectorSize) with early | late
    · exact first.complete row behind early inside returned absent.1
    · exact second.complete row late before (inside.trans_eq same.symm) returned absent.2

/-- Vectors that are left out altogether. -/
theorem of_leftOut (continues : state.Continues next)
    (forward : state.vectorIndex ≤ next.vectorIndex)
    (leftOut : ∀ other, state.vectorIndex ≤ other → other < next.vectorIndex →
      parameters.LeftOut group other) : parameters.Scans state next [] where
  continues := continues
  forward := forward
  distinct := List.nodup_nil
  sound := fun _ member => by cases member
  complete := fun row behind before _ _ _ => leftOut _
    ((Nat.le_div_iff_mul_le standardVectorSize_pos).mpr behind)
    ((Nat.div_lt_iff_lt_mul standardVectorSize_pos).mpr before)

/-- The vector at which the scan stands. -/
theorem of_places (continues : state.Continues next)
    (index : next.vectorIndex = state.vectorIndex + 1)
    (returned : places.Perm ((List.range (min standardVectorSize
      (state.maxRowGroupRow - state.vectorIndex * standardVectorSize))).filter fun place =>
        parameters.returns group (state.vectorIndex * standardVectorSize + place))) :
    parameters.Scans state next
      (places.map fun place => state.vectorIndex * standardVectorSize + place) := by
  have member_iff : ∀ place, place ∈ places ↔ place < standardVectorSize ∧
      place < state.maxRowGroupRow - state.vectorIndex * standardVectorSize ∧
      parameters.returns group (state.vectorIndex * standardVectorSize + place) = true := by
    intro place
    rw [returned.mem_iff, List.mem_filter, List.mem_range, lt_min_iff, and_assoc]
  have next_eq : next.vectorIndex * standardVectorSize =
      state.vectorIndex * standardVectorSize + standardVectorSize := by
    rw [index, Nat.succ_mul]
  refine ⟨continues, index ▸ Nat.le_succ _, ?_, ?_, ?_⟩
  · exact ((returned.nodup_iff).mpr (List.nodup_range.filter _)).map fun first second same =>
      Nat.add_left_cancel same
  · intro row member
    obtain ⟨place, there, rfl⟩ := List.mem_map.mp member
    obtain ⟨small, inside, holds⟩ := (member_iff place).mp there
    exact ⟨Nat.le_add_right _ _, by omega, by omega, holds⟩
  · intro row behind before inside holds absent
    refine absurd (List.mem_map.mpr ⟨row - state.vectorIndex * standardVectorSize, ?_, ?_⟩) absent
    · refine (member_iff _).mpr ⟨by omega, by omega, ?_⟩
      rw [Nat.add_sub_cancel' behind]
      exact holds
    · exact Nat.add_sub_cancel' behind

end Scans

/-! ## Rounds of the loop -/

/-- A column has no filters if there are none. -/
theorem columnHasFilters_of_none {parameters : ScanParameters columnCount}
    (none : parameters.hasFilters = false) (column : Fin columnCount) :
    parameters.columnHasFilters column = false := by
  rw [Bool.eq_false_iff]
  intro has
  obtain ⟨entry, member, checked, -⟩ := (columnHasFilters_iff column).mp has
  have always := List.any_eq_false.mp none entry member
  rw [checked] at always
  exact always rfl

/-- The filters of a vector leave its rows that pass, and have read their columns. -/
theorem filterColumns_spec {parameters : ScanParameters columnCount} {vectorIndex size : Nat}
    (rows : VectorRows group vectorIndex size) (ready : FiltersReady group parameters.filterList)
    (permutes : parameters.Permutes) (progress : FilterProgress group)
    (holds : progress.sel.Holds progress.approvedTupleCount size)
    (stands : ∀ column, (group.columns column).StandsAt (progress.columnScans column)
      (vectorIndex * standardVectorSize)) :
    ∃ result, parameters.filterColumns vectorIndex progress = .ok result ∧
      result.sel.Holds result.approvedTupleCount size ∧
      (result.sel.rows result.approvedTupleCount).Perm
        ((progress.sel.rows progress.approvedTupleCount).filter fun row =>
          passesFilters group parameters.filterList (vectorIndex * standardVectorSize + row)) ∧
      (∀ column, parameters.columnHasFilters column = true →
        ((vectorIndex + 1) * standardVectorSize < group.count →
          (group.columns column).StandsAt (result.columnScans column)
            ((vectorIndex + 1) * standardVectorSize)) ∧
        ∀ (row : Nat) place, (result.sel.rows result.approvedTupleCount)[row]? = some place →
          result.data column row =
            some ((group.columns column).value (vectorIndex * standardVectorSize + place))) ∧
      ∀ column, parameters.columnHasFilters column = false →
        result.columnScans column = progress.columnScans column := by
  rw [filterColumns]
  cases has : parameters.hasFilters with
  | false =>
      refine ⟨progress, rfl, holds, ?_, fun column filtered => ?_, fun _ _ => rfl⟩
      · refine List.Perm.of_eq (List.filter_eq_self.mpr fun row _ => ?_).symm
        exact not_hasFilters has _
      · rw [columnHasFilters_of_none has] at filtered
        cases filtered
  | true =>
      have order := permutes.filterOrder vectorIndex
      obtain ⟨result, ran, filtered⟩ := filterColumn_foldlM rows (permutes.ready ready vectorIndex)
        progress holds fun entry _ => stands entry.tableColumnIndex
      rw [if_pos rfl, ran]
      refine ⟨_, rfl, filtered.holds, ?_, fun column has_filter => ?_, fun column has_none => ?_⟩
      · refine filtered.left.trans (List.Perm.of_eq (List.filter_congr fun row _ => ?_))
        exact permutes.passesFilters_eq vectorIndex _
      · obtain ⟨entry, member, checked, rfl⟩ := (columnHasFilters_iff column).mp has_filter
        have member := order.mem_iff.mpr member
        refine ⟨filtered.stands entry member checked, fun row place here => ?_⟩
        dsimp only at here ⊢
        rw [if_pos has_filter, VectorValues.slice, here]
        exact filtered.values entry member checked place (List.mem_of_getElem? here)
      · refine (filtered.others column fun entry member checked same => ?_).1
        have has_filter := (@columnHasFilters_iff _ parameters column).mpr
          ⟨entry, order.mem_iff.mp member, checked, same.symm⟩
        rw [has_none] at has_filter
        cases has_filter

/-- What a part of the loop comes to, for a vector that it gets through. -/
inductive ThroughVector (state : CollectionScanState group) : ScanRound group → Prop where
  | continued {next : CollectionScanState group} (scans : parameters.Scans state next [])
      (ahead : state.vectorIndex < next.vectorIndex) : ThroughVector state (.continued next)
  | produced {next : CollectionScanState group} {chunk : ResultChunk columnCount Cell}
      {rows : List Nat} (scans : parameters.Scans state next rows)
      (ahead : state.vectorIndex < next.vectorIndex) (shown : chunk.rows = rows.map group.cells) :
      ThroughVector state (.produced next chunk)

/-- The part of a round behind the check for deleted rows returns what the vector has. -/
theorem scanVector_spec {parameters : ScanParameters columnCount}
    (ready : FiltersReady group parameters.filterList) (permutes : parameters.Permutes)
    (positioned : state.Positioned)
    (inside : state.vectorIndex * standardVectorSize < state.maxRowGroupRow)
    (maxCount_eq : maxCount = min standardVectorSize
      (state.maxRowGroupRow - state.vectorIndex * standardVectorSize)) {validSel : List Nat}
    (validSel_eq : validSel = (List.range maxCount).filter fun place =>
      group.visible parameters.transaction (state.vectorIndex * standardVectorSize + place)) :
    ∃ round, parameters.scanVector state maxCount validSel = .ok round ∧
      parameters.ThroughVector state round := by
  have stands := positioned.stands inside
  have le_count := positioned.le_count
  have rows : VectorRows group state.vectorIndex maxCount := by
    have positive := standardVectorSize_pos
    exact ⟨by omega, by omega, by omega⟩
  have start_inside : state.vectorIndex * standardVectorSize < group.count :=
    inside.trans_le le_count
  have all_selected : validSel.length = maxCount → validSel = List.range maxCount := by
    intro full
    rw [validSel_eq] at full ⊢
    refine List.filter_eq_self.mpr (List.length_filter_eq_length_iff.mp ?_)
    rw [full, List.length_range]
  have step : ∀ (columnScans : ∀ column, (group.columns column).State),
      ((state.vectorIndex + 1) * standardVectorSize < group.count → ∀ column,
        (group.columns column).StandsAt (columnScans column)
          ((state.vectorIndex + 1) * standardVectorSize)) →
      ∀ {places : List Nat}, places.Perm (validSel.filter fun place =>
        passesFilters group parameters.filterList
          (state.vectorIndex * standardVectorSize + place)) →
      parameters.Scans state { state with columnScans, vectorIndex := state.vectorIndex + 1 }
        (places.map fun place => state.vectorIndex * standardVectorSize + place) := by
    intro columnScans next places left
    refine Scans.of_places (positioned.of_stands _ _ next) rfl (left.trans (List.Perm.of_eq ?_))
    rw [validSel_eq, List.filter_filter, maxCount_eq]
    exact List.filter_congr fun place _ => Bool.and_comm _ _
  rw [scanVector]
  by_cases whole : (decide (validSel.length = maxCount) && !parameters.hasFilters) = true
  · rw [if_pos whole]
    rw [Bool.and_eq_true, decide_eq_true_iff, Bool.not_eq_true'] at whole
    obtain ⟨progress, ran, read⟩ := @readColumns_spec _ _ group (fun _ => true)
      (fun column columnScan => (group.columns column).scan state.vectorIndex columnScan)
      ⟨state.columnScans, fun _ _ => none⟩
      (fun column columnScan values =>
        (∀ row < standardVectorSize, state.vectorIndex * standardVectorSize + row < group.count →
          values row =
            some ((group.columns column).value (state.vectorIndex * standardVectorSize + row))) ∧
        ((state.vectorIndex + 1) * standardVectorSize < group.count →
          (group.columns column).StandsAt columnScan
            ((state.vectorIndex + 1) * standardVectorSize)))
      fun column _ => (group.columns column).scan_spec _ _ (stands column) start_inside
    rw [ran]
    have left : validSel.Perm (validSel.filter fun place => passesFilters group
        parameters.filterList (state.vectorIndex * standardVectorSize + place)) :=
      List.Perm.of_eq (List.filter_eq_self.mpr fun _ _ => not_hasFilters whole.2 _).symm
    refine ⟨_, rfl, .produced (step _ (fun more column => ((read column).1 rfl).2 more) left)
      (Nat.lt_succ_self _) ?_⟩
    · refine ResultChunk.rows_eq rfl fun column row place here => ?_
      rw [all_selected whole.1] at here
      obtain ⟨bound, same⟩ := List.getElem?_eq_some_iff.mp here
      rw [List.length_range] at bound
      rw [List.getElem_range] at same
      subst same
      exact ((read column).1 rfl).1 row (bound.trans_le rows.le) (by
        have := rows.inside
        omega)
  · rw [if_neg whole]
    obtain ⟨sel, sel_eq⟩ : ∃ sel : SelectionVector,
        sel = if validSel.length = maxCount then none else some validSel := ⟨_, rfl⟩
    have selected : sel.rows validSel.length = validSel := by
      rw [sel_eq]
      split
      · rename_i full
        exact (congrArg List.range full).trans (all_selected full).symm
      · exact List.take_length
    have holds : sel.Holds validSel.length maxCount := by
      refine ⟨congrArg List.length selected, ?_, fun row member => ?_⟩
      · rw [selected, validSel_eq]
        exact List.nodup_range.filter _
      · rw [selected, validSel_eq] at member
        exact List.mem_range.mp (List.mem_of_mem_filter member)
    obtain ⟨filtered, ran, left_holds, left, filtering, others⟩ :=
      @filterColumns_spec _ _ group parameters _ _ rows ready permutes
        ⟨⟨state.columnScans, fun _ _ => none⟩, sel, validSel.length⟩ holds stands
    rw [selected] at left
    rw [← sel_eq]
    dsimp only
    rw [ran]
    change ∃ round, (if filtered.approvedTupleCount = 0 then _ else _) = _ ∧ _
    by_cases nothing : filtered.approvedTupleCount = 0
    · rw [if_pos nothing]
      rw [nothing, SelectionVector.rows_zero] at left
      refine ⟨_, rfl, .continued (step _ (fun more column => ?_) left) (Nat.lt_succ_self _)⟩
      cases has : parameters.columnHasFilters column with
      | true => exact (filtering column has).1 more
      | false =>
          rw [others column has]
          rw [Nat.succ_mul] at more ⊢
          exact (group.columns column).standsAt_skip _ _ (stands column) more
    · rw [if_neg nothing]
      obtain ⟨progress, selects, read⟩ := @readColumns_spec _ _ group
        (fun column => !parameters.columnHasFilters column)
        (fun column columnScan => (group.columns column).select state.vectorIndex columnScan
          filtered.sel filtered.approvedTupleCount) filtered.toColumnProgress
        (fun column columnScan values =>
          (∀ (row : Nat) place,
            (filtered.sel.rows filtered.approvedTupleCount)[row]? = some place → values row =
              some ((group.columns column).value
                (state.vectorIndex * standardVectorSize + place))) ∧
          ((state.vectorIndex + 1) * standardVectorSize < group.count →
            (group.columns column).StandsAt columnScan
              ((state.vectorIndex + 1) * standardVectorSize)))
        (by
          intro column unread
          rw [others column (Bool.not_eq_true' _ ▸ unread)]
          exact (group.columns column).select_spec _ _ _ _ maxCount (stands column) rows.pos rows.le
            rows.inside left_holds)
      rw [selects]
      refine ⟨_, rfl, .produced (step _ (fun more column => ?_) left) (Nat.lt_succ_self _)
        (ResultChunk.rows_eq left_holds.full.symm fun column row place here => ?_)⟩
      · cases has : parameters.columnHasFilters column with
        | true =>
            rw [((read column).2 (by rw [has]; rfl)).1]
            exact (filtering column has).1 more
        | false => exact ((read column).1 (by rw [has]; rfl)).2 more
      · cases has : parameters.columnHasFilters column with
        | true =>
            dsimp only
            rw [((read column).2 (by rw [has]; rfl)).2]
            exact (filtering column has).2 row place here
        | false => exact ((read column).1 (by rw [has]; rfl)).1 row place here

/-- Steps that return nothing may come first. -/
theorem ThroughVector.after {parameters : ScanParameters columnCount} {round : ScanRound group}
    (first : parameters.Scans state middle []) (through : parameters.ThroughVector middle round) :
    parameters.ThroughVector state round := by
  cases through with
  | continued scans ahead => exact .continued (first.trans scans) (first.forward.trans_lt ahead)
  | produced scans ahead shown =>
      exact .produced (first.trans scans) (first.forward.trans_lt ahead) shown

/-- Every round of the loop of `TemplatedScan` returns or gets on to a later vector. -/
theorem scanRound_spec {parameters : ScanParameters columnCount}
    (ready : FiltersReady group parameters.filterList) (permutes : parameters.Permutes)
    (positioned : state.Positioned) :
    ∃ round, parameters.scanRound state = .ok round ∧
      (state.maxRowGroupRow ≤ state.vectorIndex * standardVectorSize ∧ round = .finished state ∨
        state.vectorIndex * standardVectorSize < state.maxRowGroupRow ∧
          parameters.ThroughVector state round) := by
  rw [scanRound]
  by_cases done : state.maxRowGroupRow ≤ state.vectorIndex * standardVectorSize
  · rw [if_pos done]
    exact ⟨_, rfl, .inl ⟨done, rfl⟩⟩
  rw [if_neg done]
  have inside := Nat.lt_of_not_le done
  by_cases sampled : parameters.sampleSkips state.vectorIndex = true
  · rw [if_pos sampled]
    refine ⟨_, rfl, .inr ⟨inside, .continued (Scans.of_leftOut
      (CollectionScanState.nextVector_continues positioned inside) (Nat.le_succ _)
      fun other low high => .inl ?_) (Nat.lt_succ_self _)⟩⟩
    rw [Nat.le_antisymm (Nat.le_of_lt_succ high) low]
    exact sampled
  rw [if_neg sampled]
  obtain ⟨continues, same_index, skips⟩ := CollectionScanState.checkZonemapSegments_spec
    (fun _ member => member : ∀ entry ∈ parameters.filterList, entry ∈ parameters.filterList)
    positioned inside
  generalize CollectionScanState.checkZonemapSegments parameters.filterList state = result at *
  obtain ⟨needed, middle⟩ := result
  dsimp only at continues same_index skips ⊢
  cases needed with
  | false =>
      obtain ⟨ahead, ruled_out⟩ := skips rfl
      exact ⟨_, rfl, .inr ⟨inside, .continued (Scans.of_leftOut continues ahead.le
        fun other low high => .inr (ruled_out other low high)) ahead⟩⟩
  | true =>
      have index := same_index rfl
      have end_eq := continues.maxRowGroupRow_eq
      have first : parameters.Scans state middle [] := by
        refine Scans.of_leftOut continues index.ge fun other low high => ?_
        rw [index] at high
        exact absurd low (Nat.not_le.mpr high)
      have middle_inside : middle.vectorIndex * standardVectorSize < middle.maxRowGroupRow := by
        rw [index, end_eq]
        exact inside
      obtain ⟨maxCount, maxCount_eq⟩ : ∃ maxCount, maxCount = min standardVectorSize
          (state.maxRowGroupRow - state.vectorIndex * standardVectorSize) := ⟨_, rfl⟩
      have short : maxCount ≤ standardVectorSize := maxCount_eq.trans_le (min_le_left _ _)
      rw [← maxCount_eq]
      rw [← index, ← end_eq] at maxCount_eq
      have visible := group.getSelVector_eq parameters.transaction middle.vectorIndex short
      simp only [Bool.not_true, Bool.false_eq_true, if_false]
      split
      · rename_i nothing
        have none_returned : ([] : List Nat).Perm ((List.range (min standardVectorSize
            (middle.maxRowGroupRow - middle.vectorIndex * standardVectorSize))).filter fun place =>
              parameters.returns group (middle.vectorIndex * standardVectorSize + place)) := by
          apply List.Perm.of_eq
          rw [← maxCount_eq, eq_comm, List.filter_eq_nil_iff]
          intro place member returned
          rw [List.length_eq_zero_iff, visible, List.filter_eq_nil_iff] at nothing
          rw [returns, Bool.and_eq_true] at returned
          exact nothing place member returned.1
        exact ⟨_, rfl, .inr ⟨inside, .after first (.continued (Scans.of_places
          (CollectionScanState.nextVector_continues continues.positioned middle_inside) rfl
          none_returned) (Nat.lt_succ_self _))⟩⟩
      · obtain ⟨round, ran, through⟩ := scanVector_spec ready permutes continues.positioned
          middle_inside maxCount_eq visible
        exact ⟨round, ran, .inr ⟨inside, through.after first⟩⟩

/-! ## Runs of the scan -/

/-- What a call of `TemplatedScan` comes to. -/
inductive ScanOutcome (state next : CollectionScanState group) :
    Option (ResultChunk columnCount Cell) → Prop where
  | finished (scans : parameters.Scans state next [])
      (done : next.maxRowGroupRow ≤ next.vectorIndex * standardVectorSize) :
      ScanOutcome state next none
  | produced {chunk : ResultChunk columnCount Cell} {rows : List Nat}
      (inside : state.vectorIndex * standardVectorSize < state.maxRowGroupRow)
      (scans : parameters.Scans state next rows) (ahead : state.vectorIndex < next.vectorIndex)
      (shown : chunk.rows = rows.map group.cells) : ScanOutcome state next (some chunk)

theorem ScanOutcome.after {parameters : ScanParameters columnCount}
    {chunk : Option (ResultChunk columnCount Cell)}
    (outcome : parameters.ScanOutcome middle next chunk)
    (first : parameters.Scans state middle []) : parameters.ScanOutcome state next chunk := by
  cases outcome with
  | finished scans done => exact .finished (first.trans scans) done
  | produced inside scans ahead shown =>
      refine .produced ?_ (first.trans scans) (first.forward.trans_lt ahead) shown
      rw [← first.continues.maxRowGroupRow_eq]
      exact (Nat.mul_le_mul_right _ first.forward).trans_lt inside

/-- A call of `TemplatedScan` returns after at most as many rounds as there are vectors left. -/
theorem templatedScan_spec {parameters : ScanParameters columnCount}
    (ready : FiltersReady group parameters.filterList) (permutes : parameters.Permutes)
    (positioned : state.Positioned) {rounds : Nat}
    (enough : state.maxRowGroupRow ≤ (state.vectorIndex + rounds) * standardVectorSize) :
    ∃ next chunk, parameters.templatedScan (rounds + 1) state = .ok (next, chunk) ∧
      parameters.ScanOutcome state next chunk := by
  induction rounds generalizing state with
  | zero =>
      obtain ⟨round, ran, ⟨done, rfl⟩ | ⟨inside, -⟩⟩ := scanRound_spec ready permutes positioned
      · refine ⟨state, none, ?_, .finished (.refl positioned) done⟩
        rw [templatedScan, ran]
        rfl
      · exact absurd enough (Nat.not_le.mpr inside)
  | succ rounds ih =>
      obtain ⟨round, ran, ⟨done, rfl⟩ | ⟨inside, through⟩⟩ := scanRound_spec ready permutes positioned
      · refine ⟨state, none, ?_, .finished (.refl positioned) done⟩
        rw [templatedScan, ran]
        rfl
      · cases through with
        | @continued middle scans ahead =>
            obtain ⟨next, chunk, ran_rest, outcome⟩ := ih scans.continues.positioned (by
              rw [scans.continues.maxRowGroupRow_eq]
              exact enough.trans (Nat.mul_le_mul_right _ (by omega)))
            refine ⟨next, chunk, ?_, outcome.after scans⟩
            rw [templatedScan, ran]
            exact ran_rest
        | @produced next chunk rows scans ahead shown =>
            refine ⟨next, some chunk, ?_, .produced inside scans ahead shown⟩
            rw [templatedScan, ran]
            rfl

/-- The chunks of all calls, and the state that the last call leaves. -/
theorem scanChunks_spec {parameters : ScanParameters columnCount}
    (ready : FiltersReady group parameters.filterList) (permutes : parameters.Permutes)
    {rounds calls : Nat} (positioned : state.Positioned)
    (enough_rounds : state.maxRowGroupRow ≤ (state.vectorIndex + rounds) * standardVectorSize)
    (enough : state.maxRowGroupRow ≤ (state.vectorIndex + calls) * standardVectorSize) :
    ∃ chunks next rows, parameters.scanChunks (rounds + 1) (calls + 1) state = .ok chunks ∧
      parameters.Scans state next rows ∧
      next.maxRowGroupRow ≤ next.vectorIndex * standardVectorSize ∧
      chunks.flatMap ResultChunk.rows = rows.map group.cells := by
  induction calls generalizing state with
  | zero =>
      obtain ⟨next, chunk, ran, outcome⟩ :=
        templatedScan_spec ready permutes positioned enough_rounds
      cases outcome with
      | finished scans done =>
          refine ⟨[], next, [], ?_, scans, done, rfl⟩
          rw [scanChunks, ran]
          rfl
      | produced inside => exact absurd enough (Nat.not_le.mpr inside)
  | succ calls ih =>
      obtain ⟨next, chunk, ran, outcome⟩ :=
        templatedScan_spec ready permutes positioned enough_rounds
      cases outcome with
      | finished scans done =>
          refine ⟨[], next, [], ?_, scans, done, rfl⟩
          rw [scanChunks, ran]
          rfl
      | @produced chunk rows inside scans ahead shown =>
          have end_eq := scans.continues.maxRowGroupRow_eq
          obtain ⟨chunks, last, rows', ran_rest, scans', done, shown'⟩ :=
            ih scans.continues.positioned
              (by
                rw [end_eq]
                exact enough_rounds.trans (Nat.mul_le_mul_right _ (by omega)))
              (by
                rw [end_eq]
                exact enough.trans (Nat.mul_le_mul_right _ (by omega)))
          refine ⟨chunk :: chunks, last, rows ++ rows', ?_, scans.trans scans', done, ?_⟩
          · rw [scanChunks, ran]
            dsimp only [bind, Except.bind]
            rw [ran_rest]
            rfl
          · rw [List.flatMap_cons, List.map_append, shown, shown']

end ScanParameters

end Scan

end StatsRecommender
