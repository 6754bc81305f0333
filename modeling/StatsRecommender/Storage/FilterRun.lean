import StatsRecommender.Storage.ColumnFilter

/-!
# Filters over a scan

A scan of a standard column that filters or skips its vectors in order, beside the scan that reads
the vectors and filters their rows.
-/

namespace StatsRecommender

open RLE

/-- A scan that filters the vectors of a column, beside one that reads them first. -/
structure FilterScan where
  vectorIndex : Nat
  compressed : StandardScan
  plain : StandardScan
  results : Option (FilterResult × FilterResult)

/-- What happens to the next vector; the memory of the two results is of any content. -/
inductive FilterOperation
  | skip
  | filter (memory plainMemory : Nat → Payload) (sel : SelectionVector) (selCount : Nat)

/-- The two results select the same rows, and hold the same at them. -/
structure FilterResult.Agrees (filter : TableFilter) (result plainResult : FilterResult) : Prop where
  count_eq : result.count = plainResult.count
  rows_perm : result.rows.Perm plainResult.rows
  rows_eq : filter.orFree = true → result.rows = plainResult.rows
  get_eq : ∀ place ∈ result.rows, result.result.get place = plainResult.result.get place

namespace FilterScan

variable (column : StandardColumn) (filter : TableFilter)

/-- `StandardColumnData::InitializeScan`, for both. -/
def start : FilterScan :=
  let scan : StandardScan :=
    ⟨column.dataReader.initializeScan, column.validityReader.initializeScan⟩
  ⟨0, scan, scan, none⟩

def step (state : FilterScan) : FilterOperation → Except String FilterScan
  | .skip =>
      pure ⟨state.vectorIndex + 1, column.skip state.compressed, column.skip state.plain, none⟩
  | .filter memory plainMemory sel selCount => do
      let (compressed, result) ←
        column.filter state.compressed state.vectorIndex memory sel selCount filter
      let (plain, plainResult) ←
        column.columnDataFilter state.plain state.vectorIndex plainMemory sel selCount filter
      pure ⟨state.vectorIndex + 1, compressed, plain, some (result, plainResult)⟩

/-- The next vector is filtered on the compressed path. -/
def TakesCompressedPath (state : FilterScan) : Prop :=
  column.scansEntireVector state.compressed (column.vectorCount state.vectorIndex) = .ok true

/-- There is a next vector, what comes in selects rows of it, and the filter can be applied. -/
def Permitted (state : FilterScan) : FilterOperation → Prop
  | .skip => state.vectorIndex * standardVectorSize < column.count
  | .filter _ _ sel selCount =>
      state.vectorIndex * standardVectorSize < column.count ∧
        Selects sel selCount (column.vectorCount state.vectorIndex) ∧
        (state.TakesCompressedPath column → column.FilterApplicable filter state.compressed.data)

/-- The row that the next vector starts with. -/
def row (state : FilterScan) : Nat := column.start + state.vectorIndex * standardVectorSize

/-- As long as there are vectors, both scans stand at the next one. -/
def InOrder (state : FilterScan) : Prop :=
  state.vectorIndex * standardVectorSize < column.count →
    column.StandsAt (column.DataFollows filter) state.compressed (state.row column) ∧
      column.StandsAt column.DataAt state.plain (state.row column)

variable {column filter}

/-- A scan that has not begun stands at the first row. -/
theorem inOrder_start : (start column).InOrder column filter := by
  intro some_rows
  have data_nonempty : column.dataReader.nodes ≠ [] := by
    intro empty
    have total := column.data_total
    rw [empty] at total
    simp [start, ← total] at some_rows
  have validity_nonempty : column.validityReader.nodes ≠ [] := by
    intro empty
    have total := column.validity_total
    rw [empty] at total
    simp [start, ← total] at some_rows
  have here : (start column).row column = column.start := by simp [row, start]
  rw [here]
  constructor
  · constructor
    · exact SegmentReader.standsAt_initializeScan column.data_contiguous data_nonempty
    · exact SegmentReader.standsAt_initializeScan column.validity_contiguous validity_nonempty
  · constructor
    · exact SegmentReader.standsAt_initializeScan column.data_contiguous data_nonempty
    · exact SegmentReader.standsAt_initializeScan column.validity_contiguous validity_nonempty

/-- Skipping a vector that is not the last stands at the one behind it. -/
theorem standsAt_skip {Standing : Nat → RLEScanState → Nat → Prop} {scan : StandardScan} {row : Nat}
    (stands : column.StandsAt Standing scan row)
    (inside : row + standardVectorSize < column.start + column.count) :
    column.StandsAt Standing (column.skip scan) (row + standardVectorSize) := by
  constructor
  · apply SegmentReader.next_spec column.data_contiguous stands.data
    rw [column.data_total]
    exact inside
  · apply SegmentReader.next_spec column.validity_contiguous stands.validity
    rw [column.validity_total]
    exact inside

/-- A vector that another one follows is full. -/
theorem vectorCount_of_next {vectorIndex : Nat}
    (more : (vectorIndex + 1) * standardVectorSize < column.count) :
    column.vectorCount vectorIndex = standardVectorSize := by
  rw [StandardColumn.vectorCount]
  apply Nat.min_eq_left
  rw [Nat.add_mul, Nat.one_mul] at more
  omega

theorem vectorCount_inside (state : FilterScan)
    (some_rows : state.vectorIndex * standardVectorSize < column.count) :
    state.row column + column.vectorCount state.vectorIndex ≤ column.start + column.count := by
  rw [row, StandardColumn.vectorCount]
  omega

/-- Both scans stand at the next vector if both went behind the current one. -/
theorem inOrder_next {state : FilterScan} {compressed plain : StandardScan}
    {results : Option (FilterResult × FilterResult)}
    (moved : (state.vectorIndex + 1) * standardVectorSize < column.count →
      column.StandsAt (column.DataFollows filter) compressed
          (state.row column + standardVectorSize) ∧
        column.StandsAt column.DataAt plain (state.row column + standardVectorSize)) :
    InOrder column filter ⟨state.vectorIndex + 1, compressed, plain, results⟩ := by
  intro more
  have next_row : row column ⟨state.vectorIndex + 1, compressed, plain, results⟩ =
      state.row column + standardVectorSize := by
    simp only [row, Nat.add_mul, Nat.one_mul, Nat.add_assoc]
  rw [next_row]
  exact moved more

/-- The plain scan leaves the rows that pass; the other one does where it keeps the NULL rows. -/
theorem filter_step (supported : filter.supported = true) {state : FilterScan}
    (ordered : state.InOrder column filter) {memory plainMemory : Nat → Payload}
    {sel : SelectionVector} {selCount : Nat}
    (permitted : state.Permitted column filter (.filter memory plainMemory sel selCount)) :
    ∃ next result plainResult,
      state.step column filter (.filter memory plainMemory sel selCount) = .ok next ∧
      next.results = some (result, plainResult) ∧ next.InOrder column filter ∧
      column.Filtered filter (state.row column) (sel.rows selCount) plainResult ∧
      (state.TakesCompressedPath column →
        (column.Filtered filter (state.row column) (sel.rows selCount) result ↔
          column.KeepsNullRows filter (state.row column) (sel.rows selCount))) := by
  obtain ⟨some_rows, selects, applicable⟩ := permitted
  obtain ⟨stands, plain_stands⟩ := ordered some_rows
  have inside := vectorCount_inside state some_rows
  obtain ⟨plain, plainResult, read, plain_next, plain_filtered⟩ :=
    StandardColumn.columnDataFilter_spec plain_stands inside plainMemory selects supported
  -- the other scan filters the runs, or reads the vector as well
  have filtered : ∃ compressed result,
      column.filter state.compressed state.vectorIndex memory sel selCount filter =
        .ok (compressed, result) ∧
      column.StandsAt (column.DataFollows filter) compressed
        (state.row column + column.vectorCount state.vectorIndex) ∧
      (state.TakesCompressedPath column →
        (column.Filtered filter (state.row column) (sel.rows selCount) result ↔
          column.KeepsNullRows filter (state.row column) (sel.rows selCount))) := by
    obtain ⟨entireVector, entire, -⟩ := stands.scansEntireVector (column.vectorCount state.vectorIndex)
    cases entireVector with
    | true =>
        obtain ⟨compressed, result, filtered, next, agrees⟩ :=
          StandardColumn.filter_spec supported stands (Nat.le_add_right _ _) inside (applicable entire)
            entire memory selects
        exact ⟨compressed, result, filtered, next, fun _ => agrees⟩
    | false =>
        obtain ⟨compressed, result, filtered, next⟩ :=
          StandardColumn.columnDataFilter_follows stands inside memory selects supported
        refine ⟨compressed, result, ?_, next, fun takes => ?_⟩
        · rw [StandardColumn.filter]
          dsimp only
          rw [entire]
          exact filtered
        · rw [TakesCompressedPath, entire] at takes
          cases takes
  obtain ⟨compressed, result, filtered, compressed_next, agrees⟩ := filtered
  refine ⟨⟨state.vectorIndex + 1, compressed, plain, some (result, plainResult)⟩, result, plainResult,
    ?_, rfl, ?_, plain_filtered, agrees⟩
  · rw [step, filtered]
    dsimp only [bind, Except.bind]
    rw [read]
    rfl
  · apply inOrder_next
    intro more
    rw [vectorCount_of_next more] at compressed_next plain_next
    exact ⟨compressed_next, plain_next⟩

/-- Every run keeps both scans in order. -/
theorem inOrder_of_reaches (supported : filter.supported = true) {operations : List FilterOperation}
    {state : FilterScan}
    (reached : Reaches (step column filter) (Permitted column filter) (start column) operations state) :
    state.InOrder column filter := by
  apply reached.state_invariant _ inOrder_start
  intro state operation next ordered permitted taken
  cases operation with
  | skip =>
      cases taken
      apply inOrder_next
      intro more
      obtain ⟨stands, plain_stands⟩ := ordered permitted
      have inside : state.row column + standardVectorSize < column.start + column.count := by
        rw [Nat.add_mul, Nat.one_mul] at more
        rw [row]
        omega
      exact ⟨standsAt_skip stands inside, standsAt_skip plain_stands inside⟩
  | filter memory plainMemory sel selCount =>
      obtain ⟨next', result, plainResult, taken', -, ordered', -⟩ :=
        filter_step supported ordered permitted
      obtain rfl := Except.ok.inj (taken.symm.trans taken')
      exact ordered'

/-- A result agrees with a right one exactly if it is right. -/
theorem agrees_iff_filtered {row : Nat} {selected : List Nat} {result plainResult : FilterResult}
    (plain : column.Filtered filter row selected plainResult) :
    result.Agrees filter plainResult ↔ column.Filtered filter row selected result := by
  constructor
  · intro agrees
    constructor
    · exact agrees.rows_perm.trans plain.rows_perm
    · exact fun free => (agrees.rows_eq free).trans (plain.rows_eq free)
    · rw [agrees.rows_perm.length_eq, plain.full, agrees.count_eq]
    · intro place member
      rw [agrees.get_eq place member]
      exact plain.get_eq place (agrees.rows_perm.mem_iff.mp member)
  · intro filtered
    have perm : result.rows.Perm plainResult.rows := filtered.rows_perm.trans plain.rows_perm.symm
    constructor
    · rw [← filtered.full, ← plain.full, perm.length_eq]
    · exact perm
    · exact fun free => (filtered.rows_eq free).trans (plain.rows_eq free).symm
    · intro place member
      rw [filtered.get_eq place member, plain.get_eq place (perm.mem_iff.mp member)]

/--
In a scan that can apply the filter to the runs it meets, a vector that is filtered on the compressed
path is filtered as `ColumnData::Filter` does exactly if every selected NULL that passes covers a
value that passes.
-/
theorem filter_agrees_of_run (supported : filter.supported = true) {operations : List FilterOperation}
    {state : FilterScan}
    (reached : Reaches (step column filter) (Permitted column filter) (start column) operations state)
    {memory plainMemory : Nat → Payload} {sel : SelectionVector} {selCount : Nat}
    (permitted : state.Permitted column filter (.filter memory plainMemory sel selCount))
    (takes : state.TakesCompressedPath column) :
    ∃ next result plainResult,
      state.step column filter (.filter memory plainMemory sel selCount) = .ok next ∧
      next.results = some (result, plainResult) ∧
      (result.Agrees filter plainResult ↔
        column.KeepsNullRows filter (state.row column) (sel.rows selCount)) := by
  obtain ⟨next, result, plainResult, taken, results, -, plain, agrees⟩ :=
    filter_step supported (inOrder_of_reaches supported reached) permitted
  exact ⟨next, result, plainResult, taken, results, (agrees_iff_filtered plain).trans (agrees takes)⟩

theorem integerSize_pos : 0 < 4 := by decide

/-- A column of two rows that are NULL. -/
def nullColumn : StandardColumn where
  start := 0
  count := 2
  layout := ⟨4, .integer 0, integerSize_pos⟩
  data := [⟨0, 2, [⟨.integer 0, 2⟩], []⟩]
  validity := [⟨0, 2, true⟩]
  data_contiguous := by simp [SegmentTree.Contiguous, RLESegment.node]
  data_count := rfl
  data_valid := by simp [Run.Proper, Run.expand]
  validity_contiguous := by simp [SegmentTree.Contiguous, ValiditySegment.node]
  validity_count := rfl
  validity_pos := by simp

theorem selects_all (column : StandardColumn) (vectorIndex : Nat) :
    Selects none (column.vectorCount vectorIndex) (column.vectorCount vectorIndex) where
  full := List.length_range
  increasing := List.pairwise_lt_range
  below _ member := List.mem_range.mp member
  unset _ := rfl

theorem permitted_nullColumn (filter : TableFilter) (memory : Nat → Payload) :
    (start nullColumn).Permitted nullColumn filter (.filter memory memory none 2) := by
  refine ⟨by decide, selects_all nullColumn 0, fun _ => ?_⟩
  intro index segment current found _
  cases current
  cases found
  exact Or.inl (by decide)

theorem takesCompressedPath_nullColumn : (start nullColumn).TakesCompressedPath nullColumn := by
  simp [TakesCompressedPath, start, nullColumn, StandardColumn.scansEntireVector,
    SegmentReader.scansEntireVector, SegmentReader.currentNode, SegmentReader.initializeScan,
    StandardColumn.dataReader, StandardColumn.validityReader, StandardColumn.vectorCount,
    RLESegment.node, ValiditySegment.node, SegmentNode.stop, standardVectorSize, bind, Except.bind,
    pure, Except.pure]

/-- Filtering two rows that are NULL. -/
theorem filter_agrees_of_run_nullColumn :
    ∃ next result plainResult,
      (start nullColumn).step nullColumn .isNotNull
        (.filter (fun _ => .integer 7) (fun _ => .integer 7) none 2) = .ok next ∧
      next.results = some (result, plainResult) ∧
      (result.Agrees .isNotNull plainResult ↔
        nullColumn.KeepsNullRows .isNotNull ((start nullColumn).row nullColumn) [0, 1]) :=
  filter_agrees_of_run rfl .start (permitted_nullColumn _ _) takesCompressedPath_nullColumn

/-- `IS NULL` loses the rows of a segment in which every row is NULL. -/
theorem not_filter_agrees :
    ¬∀ (column : StandardColumn) (filter : TableFilter), filter.supported = true →
      ∀ (operations : List FilterOperation) (state : FilterScan),
      Reaches (step column filter) (Permitted column filter) (start column) operations state →
      ∀ (memory plainMemory : Nat → Payload) (sel : SelectionVector) (selCount : Nat),
      state.Permitted column filter (.filter memory plainMemory sel selCount) →
      state.TakesCompressedPath column →
      ∃ next result plainResult,
        state.step column filter (.filter memory plainMemory sel selCount) = .ok next ∧
        next.results = some (result, plainResult) ∧ result.Agrees filter plainResult := by
  intro claim
  obtain ⟨next, result, plainResult, taken, results, agrees⟩ := claim nullColumn .isNull rfl [] _ .start
    (fun _ => .integer 7) (fun _ => .integer 7) none 2 (permitted_nullColumn _ _)
    takesCompressedPath_nullColumn
  have counts : ((start nullColumn).step nullColumn .isNull
      (.filter (fun _ => .integer 7) (fun _ => .integer 7) none 2)).toOption.bind
        (fun next => next.results.map fun results => (results.1.count, results.2.count)) =
      some (0, 2) := by
    decide +kernel
  rw [taken] at counts
  simp only [Except.toOption, Option.bind_some, results, Option.map_some] at counts
  have different := agrees.count_eq
  rw [(Prod.mk.inj (Option.some.inj counts)).1, (Prod.mk.inj (Option.some.inj counts)).2] at different
  cases different

end FilterScan

end StatsRecommender
