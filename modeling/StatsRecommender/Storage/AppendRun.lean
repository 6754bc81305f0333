import StatsRecommender.Storage.RowGroupCollection
import StatsRecommender.Library.Transition

/-!
# Appends and reverts

What `InitializeAppend`, `Append`, `FinalizeAppend` and `RevertAppendInternal` do to the
rows of a collection, over every sequence of these operations.
-/

namespace StatsRecommender

variable {width : Nat} {rowGroup last segment : RowGroup width ColumnData}
  {count rowGroupSize rowStart : Nat} {front back done before : List (RowGroup width ColumnData)}
  {rows pending : List (Fin width → Option Payload)} {collection : LoadedCollection width}

/-- Row groups without gaps that hold the given rows, each column as many as its row group. -/
structure Laid (rowGroupSize rowStart : Nat) (rowGroups : List (RowGroup width ColumnData))
    (rows : List (Fin width → Option Payload)) : Prop where
  holds : ∀ rowGroup ∈ rowGroups, rowGroup.Holds rowGroup.count
  small : ∀ rowGroup ∈ rowGroups, rowGroup.count ≤ rowGroupSize
  contiguous : SegmentTree.Contiguous rowStart (rowGroups.map RowGroup.node)
  rows_eq : rowGroups.flatMap RowGroup.rows = rows

namespace RowGroup

/-- The row group as it is once an append has been finalized. -/
def withCount (count : Nat) (rowGroup : RowGroup width ColumnData) : RowGroup width ColumnData :=
  { rowGroup with count }

/-- The row group without its version information. -/
def withoutVersions (rowGroup : RowGroup width ColumnData) : RowGroup width ColumnData :=
  { rowGroup with versionInfo := [] }

section Simp

variable (rowGroup : RowGroup width ColumnData)

@[simp]
theorem start_withoutVersions : rowGroup.withoutVersions.start = rowGroup.start := rfl

@[simp]
theorem count_withoutVersions : rowGroup.withoutVersions.count = rowGroup.count := rfl

@[simp]
theorem columns_withoutVersions : rowGroup.withoutVersions.columns = rowGroup.columns := rfl

@[simp]
theorem node_withoutVersions : rowGroup.withoutVersions.node = rowGroup.node := rfl

@[simp]
theorem rows_withoutVersions : rowGroup.withoutVersions.rows = rowGroup.rows := rfl

end Simp

theorem Holds.of_columns {other : RowGroup width ColumnData} (holds : rowGroup.Holds count)
    (start : other.start = rowGroup.start) (columns : other.columns = rowGroup.columns) :
    other.Holds count := by
  constructor
  · rw [columns]
    exact holds.wellFormed
  · rw [columns, start]
    exact holds.start_eq
  · rw [columns]
    exact holds.count_eq

theorem length_rows (rowGroup : RowGroup width ColumnData) :
    rowGroup.rows.length = rowGroup.count :=
  length_rowsOf _ _

end RowGroup

namespace Laid

variable {rowGroupSize rowStart : Nat} {rowGroups : List (RowGroup width ColumnData)}
  {rows : List (Fin width → Option Payload)}

/-- Version information does not matter for the rows. -/
theorem of_withoutVersions {other : List (RowGroup width ColumnData)}
    (laid : Laid rowGroupSize rowStart rowGroups rows)
    (same : other.map RowGroup.withoutVersions = rowGroups.map RowGroup.withoutVersions) :
    Laid rowGroupSize rowStart other rows := by
  have found : ∀ rowGroup ∈ other, ∃ original ∈ rowGroups, rowGroup.start = original.start ∧
      rowGroup.count = original.count ∧ rowGroup.columns = original.columns := by
    intro rowGroup member
    have image := List.mem_map_of_mem (f := RowGroup.withoutVersions) member
    rw [same] at image
    obtain ⟨original, horiginal, equal⟩ := List.mem_map.mp image
    refine ⟨original, horiginal, ?_⟩
    cases original
    cases rowGroup
    cases equal
    exact ⟨rfl, rfl, rfl⟩
  constructor
  · intro rowGroup member
    obtain ⟨original, horiginal, start, count, columns⟩ := found rowGroup member
    rw [count]
    exact (laid.holds original horiginal).of_columns start columns
  · intro rowGroup member
    obtain ⟨original, horiginal, -, count, -⟩ := found rowGroup member
    rw [count]
    exact laid.small original horiginal
  · have nodes := congrArg (List.map RowGroup.node) same
    simp only [List.map_map, Function.comp_def, RowGroup.node_withoutVersions] at nodes
    rw [nodes]
    exact laid.contiguous
  · have each := congrArg (List.map RowGroup.rows) same
    simp only [List.map_map, Function.comp_def, RowGroup.rows_withoutVersions] at each
    rw [List.flatMap_def, each, ← List.flatMap_def]
    exact laid.rows_eq

theorem length_rows (laid : Laid rowGroupSize rowStart rowGroups rows) :
    rows.length = (rowGroups.map RowGroup.count).sum := by
  rw [← laid.rows_eq, List.length_flatMap]
  congr 1
  exact List.map_congr_left fun rowGroup _ => rowGroup.length_rows

theorem nil : Laid rowGroupSize rowStart ([] : List (RowGroup width ColumnData)) [] :=
  ⟨by simp, by simp, trivial, rfl⟩

end Laid

theorem laid_append :
    Laid rowGroupSize rowStart (front ++ back) rows ↔
      ∃ first second, rows = first ++ second ∧ Laid rowGroupSize rowStart front first ∧
        Laid rowGroupSize (rowStart + first.length) back second := by
  constructor
  · intro laid
    have contiguous := laid.contiguous
    rw [List.map_append, SegmentTree.contiguous_append] at contiguous
    have hfront : Laid rowGroupSize rowStart front (front.flatMap RowGroup.rows) :=
      ⟨fun rowGroup member => laid.holds rowGroup (List.mem_append_left _ member),
        fun rowGroup member => laid.small rowGroup (List.mem_append_left _ member),
        contiguous.1, rfl⟩
    refine ⟨front.flatMap RowGroup.rows, back.flatMap RowGroup.rows, ?_, hfront,
      ⟨fun rowGroup member => laid.holds rowGroup (List.mem_append_right _ member),
        fun rowGroup member => laid.small rowGroup (List.mem_append_right _ member), ?_, rfl⟩⟩
    · rw [← laid.rows_eq, List.flatMap_append]
    · rw [hfront.length_rows]
      have counts := contiguous.2
      rwa [List.map_map] at counts
  · rintro ⟨first, second, rfl, hfront, hback⟩
    constructor
    · intro rowGroup member
      rcases List.mem_append.mp member with before | behind
      · exact hfront.holds rowGroup before
      · exact hback.holds rowGroup behind
    · intro rowGroup member
      rcases List.mem_append.mp member with before | behind
      · exact hfront.small rowGroup before
      · exact hback.small rowGroup behind
    · rw [List.map_append, SegmentTree.contiguous_append, List.map_map]
      have contiguous := hback.contiguous
      rw [hfront.length_rows] at contiguous
      exact ⟨hfront.contiguous, contiguous⟩
    · rw [List.flatMap_append, hfront.rows_eq, hback.rows_eq]

theorem laid_singleton :
    Laid rowGroupSize rowStart [rowGroup] rows ↔
      rowGroup.Holds rowGroup.count ∧ rowGroup.count ≤ rowGroupSize ∧
        rowGroup.start = rowStart ∧ rowGroup.rows = rows := by
  constructor
  · intro laid
    refine ⟨laid.holds _ List.mem_cons_self, laid.small _ List.mem_cons_self,
      laid.contiguous.1, ?_⟩
    rw [← laid.rows_eq, List.flatMap_singleton]
  · rintro ⟨holds, small, start, rows_eq⟩
    refine ⟨?_, ?_, ⟨start, trivial⟩, ?_⟩
    · intro other member
      rw [List.mem_singleton.mp member]
      exact holds
    · intro other member
      rw [List.mem_singleton.mp member]
      exact small
    · rw [List.flatMap_singleton, rows_eq]

/-- A row group behind others, with its place and its rows. -/
theorem laid_concat :
    Laid rowGroupSize rowStart (front ++ [last.withCount count]) rows ↔
      ∃ first, Laid rowGroupSize rowStart front first ∧ last.Holds count ∧
        count ≤ rowGroupSize ∧ last.start = rowStart + first.length ∧
        rows = first ++ last.rowsUpTo count := by
  rw [laid_append]
  constructor
  · rintro ⟨first, second, rfl, hfront, hback⟩
    obtain ⟨holds, small, start, rfl⟩ := laid_singleton.mp hback
    exact ⟨first, hfront, holds.of_columns rfl rfl, small, start, rfl⟩
  · rintro ⟨first, hfront, holds, small, start, rfl⟩
    exact ⟨first, _, rfl, hfront, laid_singleton.mpr
      ⟨holds.of_columns rfl rfl, small, start, rfl⟩⟩

/-- The place and the rows of a row group among others. -/
theorem Laid.split
    (laid : Laid rowGroupSize rowStart (front ++ segment.withCount count :: back) rows) :
    ∃ first more, rows = first ++ segment.rowsUpTo count ++ more ∧
      Laid rowGroupSize rowStart front first ∧ segment.Holds count ∧ count ≤ rowGroupSize ∧
      segment.start = rowStart + first.length := by
  rw [List.append_cons] at laid
  obtain ⟨filled, more, rfl, hfilled, -⟩ := laid_append.mp laid
  obtain ⟨first, hfront, holds, small, start, rfl⟩ := laid_concat.mp hfilled
  exact ⟨first, more, rfl, hfront, holds, small, start⟩

/-! ## Finalizing -/

/-- No vector that the finalized rows fill in part has constant version information. -/
def VersionsFit (rowGroupSize : Nat) : List (RowGroup width ColumnData) → Nat → Prop
  | _, 0 => True
  | [], _ + 1 => True
  | rowGroup :: rest, remaining + 1 =>
      let appendCount := min (remaining + 1) (rowGroupSize - rowGroup.count)
      rowGroup.versionInfo.Fits rowGroup.count (min (rowGroup.count + appendCount) rowGroupSize) ∧
        VersionsFit rowGroupSize rest (remaining + 1 - appendCount)

theorem versionsFit_zero (rowGroupSize : Nat) (rowGroups : List (RowGroup width ColumnData)) :
    VersionsFit rowGroupSize rowGroups 0 := by
  cases rowGroups <;> trivial

theorem RowGroup.appendVersionInfo_ok
    (fits : rowGroup.versionInfo.Fits rowGroup.count (min (rowGroup.count + count) rowGroupSize)) :
    ∃ result, rowGroup.appendVersionInfo rowGroupSize count = .ok result ∧
      result.withoutVersions =
        (rowGroup.withCount (min (rowGroup.count + count) rowGroupSize)).withoutVersions := by
  obtain ⟨versionInfo, appended⟩ := VersionInfo.append_ok fits
  refine ⟨{ rowGroup with
      versionInfo, count := min (rowGroup.count + count) rowGroupSize }, ?_, rfl⟩
  rw [appendVersionInfo, appended]
  rfl

/-- The loop hands out the appended rows: full row groups first, the rest to the last one. -/
theorem finalizeLoop_spec (before : List (RowGroup width ColumnData))
    (last : RowGroup width ColumnData) (count remaining : Nat)
    (before_le : ∀ rowGroup ∈ before, rowGroup.count ≤ rowGroupSize) (last_le : last.count ≤ count)
    (count_le : count ≤ rowGroupSize) (remaining_eq : remaining =
      (before.map fun rowGroup => rowGroupSize - rowGroup.count).sum + (count - last.count))
    (fits : VersionsFit rowGroupSize (before ++ [last]) remaining) :
    ∃ finalized, RowGroupCollection.finalizeLoop rowGroupSize (before ++ [last]) remaining =
        .ok finalized ∧
      finalized.map RowGroup.withoutVersions =
        (before.map (RowGroup.withCount rowGroupSize) ++ [last.withCount count]).map
          RowGroup.withoutVersions := by
  induction before generalizing remaining with
  | nil =>
      rw [List.map_nil, List.sum_nil, Nat.zero_add] at remaining_eq
      cases remaining with
      | zero =>
          have settled : last.count = count := by omega
          refine ⟨[last], rfl, ?_⟩
          rw [← settled]
          rfl
      | succ remaining =>
          have fitting : min (remaining + 1) (rowGroupSize - last.count) = remaining + 1 := by omega
          have reached : min (last.count + (remaining + 1)) rowGroupSize = count := by omega
          have here := fits.1
          rw [fitting] at here
          obtain ⟨result, appended, same⟩ := RowGroup.appendVersionInfo_ok here
          refine ⟨[result], ?_, ?_⟩
          · rw [List.nil_append, RowGroupCollection.finalizeLoop, fitting, appended, Nat.sub_self]
            rfl
          · rw [reached] at same
            exact congrArg (· :: []) same
  | cons rowGroup rest ih =>
      rw [List.map_cons, List.sum_cons] at remaining_eq
      have here_le := before_le rowGroup List.mem_cons_self
      have rest_le : ∀ rowGroup ∈ rest, rowGroup.count ≤ rowGroupSize := fun other member =>
        before_le other (List.mem_cons_of_mem _ member)
      cases remaining with
      | zero =>
          have settled : rowGroup.count = rowGroupSize := by omega
          obtain ⟨finalized, hfinalized, same⟩ := ih 0 rest_le (by omega) (versionsFit_zero _ _)
          have unchanged : finalized = rest ++ [last] := by
            cases rest <;> exact (Except.ok.inj hfinalized).symm
          refine ⟨rowGroup :: (rest ++ [last]), rfl, ?_⟩
          rw [← unchanged, List.map_cons, same]
          exact congrArg (· :: _) (congrArg (fun count => RowGroup.withoutVersions
            { rowGroup with count := count }) settled)
      | succ remaining =>
          have fitting : min (remaining + 1) (rowGroupSize - rowGroup.count) =
              rowGroupSize - rowGroup.count := by omega
          have reached : min (rowGroup.count + (rowGroupSize - rowGroup.count)) rowGroupSize =
              rowGroupSize := by omega
          obtain ⟨here, behind⟩ := fits
          rw [fitting] at here behind
          obtain ⟨result, appended, same⟩ := RowGroup.appendVersionInfo_ok here
          obtain ⟨finalized, hfinalized, same'⟩ := ih
            (remaining + 1 - (rowGroupSize - rowGroup.count)) rest_le (by omega) behind
          refine ⟨result :: finalized, ?_, ?_⟩
          · rw [List.cons_append, RowGroupCollection.finalizeLoop, fitting, appended]
            change (RowGroupCollection.finalizeLoop _ _ _ >>= fun behind =>
              pure (result :: behind)) = _
            rw [hfinalized]
            rfl
          · rw [reached] at same
            rw [List.map_cons, same, same']
            rfl

/-! ## Appending -/

/-- An append leaves these fields of the collection alone. -/
structure SameTable (collection result : LoadedCollection width) : Prop where
  rowGroupSize : result.rowGroupSize = collection.rowGroupSize
  rowStart : result.rowStart = collection.rowStart
  totalRows : result.totalRows = collection.totalRows

theorem SameTable.trans {first second third : LoadedCollection width}
    (before : SameTable first second) (behind : SameTable second third) : SameTable first third :=
  ⟨behind.1.trans before.1, behind.2.trans before.2, behind.3.trans before.3⟩

/--
The rows of a collection between the start of an append and its end: the row groups before
the append, the ones it has filled, and the last one, with the number of rows written to it.
-/
structure Spread (collection : LoadedCollection width)
    (done before : List (RowGroup width ColumnData)) (last : RowGroup width ColumnData)
    (count : Nat) (rows : List (Fin width → Option Payload)) : Prop where
  rowGroups_eq : collection.rowGroups = done ++ before ++ [last]
  laid : Laid collection.rowGroupSize collection.rowStart
    (done ++ before.map (RowGroup.withCount collection.rowGroupSize) ++ [last.withCount count]) rows
  totalRows_eq : collection.totalRows = ((done ++ before ++ [last]).map RowGroup.count).sum
  before_le : ∀ rowGroup ∈ before, rowGroup.count ≤ collection.rowGroupSize
  last_le : last.count ≤ count
  fresh : ∀ rowGroup ∈ (before ++ [last]).tail, rowGroup.count = 0

/-- An append under way, with the state it keeps. -/
structure Appending (collection : LoadedCollection width) (state : TableAppendState)
    (done before : List (RowGroup width ColumnData)) (last : RowGroup width ColumnData)
    (count : Nat) (rows : List (Fin width → Option Payload)) : Prop
    extends Spread collection done before last count rows where
  initialized : last.Initialized
  startRowGroup_eq : state.startRowGroup = done.length
  rowGroup_eq : state.rowGroup = (done ++ before).length
  offset_eq : state.offsetInRowGroup = count

theorem initializeLast_rowGroups (placed : collection.rowGroups = front ++ [last]) :
    collection.initializeLast.rowGroups = front ++ [last.initializeAppend] := by
  have modified : ∀ front : List (RowGroup width ColumnData),
      (front ++ [last]).modify front.length RowGroup.initializeAppend =
        front ++ [last.initializeAppend] := by
    intro front
    induction front with
    | nil => rfl
    | cons head tail ih => exact congrArg (head :: ·) ih
  rw [RowGroupCollection.initializeLast, placed, List.length_append, List.length_singleton,
    Nat.add_sub_cancel]
  exact modified front

theorem lastCount_eq (placed : collection.rowGroups = front ++ [last]) :
    collection.lastCount = last.count := by
  rw [RowGroupCollection.lastCount, placed, List.getLast?_concat]
  rfl

section AppendSteps

variable {collection : LoadedCollection width} {state : TableAppendState}
  {done before : List (RowGroup width ColumnData)} {last : RowGroup width ColumnData}
  {count : Nat} {rows : List (Fin width → Option Payload)}

theorem Appending.getElem_rowGroup
    (appending : Appending collection state done before last count rows) :
    collection.rowGroups[state.rowGroup]? = some last := by
  rw [appending.rowGroups_eq, appending.rowGroup_eq, List.getElem?_append_right (Nat.le_refl _),
    Nat.sub_self]
  rfl

theorem Appending.set_rowGroup
    (appending : Appending collection state done before last count rows)
    (replaced : RowGroup width ColumnData) :
    collection.rowGroups.set state.rowGroup replaced = done ++ before ++ [replaced] := by
  rw [appending.rowGroups_eq, appending.rowGroup_eq, List.set_append_right _ _ (Nat.le_refl _),
    Nat.sub_self]
  rfl

/-- The rows that fit are written to the current row group. -/
theorem Appending.appendHead (environment : Environment)
    (appending : Appending collection state done before last count rows)
    (chunk : DataChunk width) (fits : count + chunk.size ≤ collection.rowGroupSize) :
    let result := collection.appendHead environment state chunk
    Appending result.1 result.2 done before (last.append environment.compression chunk)
        (count + chunk.size) (rows ++ chunk.rows) ∧
      SameTable collection result.1 ∧ result.2.totalAppendCount = state.totalAppendCount := by
  obtain ⟨first, hfront, holds, -, start, rfl⟩ := laid_concat.mp appending.laid
  obtain ⟨appended, initialized, written⟩ :=
    holds.append environment.compression appending.initialized chunk
  simp only [RowGroupCollection.appendHead, appending.getElem_rowGroup]
  refine ⟨⟨⟨?_, ?_, ?_, ?_, ?_, ?_⟩, initialized, ?_, ?_, ?_⟩, ⟨rfl, rfl, rfl⟩, trivial⟩
  · exact appending.set_rowGroup _
  · refine laid_concat.mpr ⟨first, hfront, appended, fits, start, ?_⟩
    rw [written, List.append_assoc]
  · have total := appending.totalRows_eq
    rw [List.map_append] at total ⊢
    exact total
  · exact appending.before_le
  · exact appending.last_le.trans (Nat.le_add_right _ _)
  · intro rowGroup member
    cases before with
    | nil => cases member
    | cons head tail =>
        rcases List.mem_append.mp member with inside | atEnd
        · exact appending.fresh rowGroup (List.mem_append_left _ inside)
        · rw [List.mem_singleton.mp atEnd]
          exact appending.fresh last (List.mem_append_right _ (List.mem_singleton_self _))
  · exact appending.startRowGroup_eq
  · exact appending.rowGroup_eq
  · exact congrArg (· + chunk.size) appending.offset_eq

/-- A full row group is followed by a new one. -/
theorem Appending.appendOverflow (environment : Environment)
    (appending : Appending collection state done before last count rows)
    (full : count = collection.rowGroupSize) :
    let result := collection.appendOverflow environment state
    (∃ before' last', Appending result.1 result.2 done before' last' 0 rows) ∧
      SameTable collection result.1 ∧ result.2.totalAppendCount = state.totalAppendCount := by
  obtain ⟨extended, hextended⟩ : ∃ extended : LoadedCollection width, extended =
      { collection with
        rowGroups := collection.rowGroups.set state.rowGroup
            (last.initStats environment collection.tableName state.rowGroup) ++
          [.initializeEmpty collection.types (last.start + state.offsetInRowGroup)]
        requiresNewRowGroup := false } := ⟨_, rfl⟩
  have hresult : collection.appendOverflow environment state = (extended.initializeLast,
      { state with
        rowGroup := extended.rowGroups.length - 1
        offsetInRowGroup := extended.lastCount }) := by
    rw [RowGroupCollection.appendOverflow, appending.getElem_rowGroup, hextended]
    rfl
  have placed : extended.rowGroups =
      done ++ (before ++ [last.initStats environment collection.tableName state.rowGroup]) ++
        [.initializeEmpty collection.types (last.start + state.offsetInRowGroup)] := by
    rw [hextended]
    dsimp only
    rw [appending.set_rowGroup, List.append_assoc done before]
  have same : SameTable collection extended := by
    rw [hextended]
    exact ⟨rfl, rfl, rfl⟩
  rw [hresult]
  dsimp only
  refine ⟨⟨before ++ [last.initStats environment collection.tableName state.rowGroup],
    (RowGroup.initializeEmpty collection.types
      (last.start + state.offsetInRowGroup)).initializeAppend, ?_⟩,
    ⟨same.1, same.2, same.3⟩, rfl⟩
  have hsize : extended.initializeLast.rowGroupSize = collection.rowGroupSize := same.1
  have hstart : extended.initializeLast.rowStart = collection.rowStart := same.2
  refine ⟨⟨?_, ?_, ?_, ?_, ?_, ?_⟩, RowGroup.initializeAppend_initialized _, ?_, ?_, ?_⟩
  · exact initializeLast_rowGroups placed
  · rw [hsize, hstart, List.map_append, ← List.append_assoc]
    obtain ⟨first, hfront, holds, -, start, rfl⟩ := laid_concat.mp appending.laid
    refine laid_concat.mpr ⟨first ++ last.rowsUpTo count, laid_concat.mpr ⟨first, hfront, ?_, ?_,
      start, ?_⟩, (RowGroup.initializeEmpty_holds _ _).initializeAppend, Nat.zero_le _, ?_, ?_⟩
    · rw [← full]
      exact holds.initStats _ _ _
    · exact Nat.le_refl _
    · rw [RowGroup.rowsUpTo_initStats, full]
    · change last.start + state.offsetInRowGroup = _
      rw [start, appending.offset_eq, List.length_append, RowGroup.rowsUpTo, length_rowsOf,
        Nat.add_assoc]
    · exact (List.append_nil _).symm
  · have total := appending.totalRows_eq
    have htotal : extended.initializeLast.totalRows = collection.totalRows := same.3
    rw [htotal, total]
    simp [RowGroup.initStats, RowGroup.initializeEmpty, RowGroup.mapColumns]
  · intro rowGroup member
    rw [hsize]
    rcases List.mem_append.mp member with inside | atEnd
    · exact appending.before_le rowGroup inside
    · rw [List.mem_singleton.mp atEnd, ← full]
      exact appending.last_le
  · exact Nat.le_refl 0
  · intro rowGroup member
    cases before with
    | nil =>
        rw [List.mem_singleton.mp member]
        rfl
    | cons head tail =>
        rcases List.mem_append.mp member with inside | atEnd
        · rcases List.mem_append.mp inside with older | initialised
          · exact appending.fresh rowGroup (List.mem_append_left _ older)
          · rw [List.mem_singleton.mp initialised]
            exact appending.fresh last (List.mem_append_right _ (List.mem_singleton_self _))
        · rw [List.mem_singleton.mp atEnd]
          rfl
  · exact appending.startRowGroup_eq
  · change extended.rowGroups.length - 1 = _
    rw [placed, List.length_append, List.length_singleton, Nat.add_sub_cancel]
  · exact lastCount_eq placed

/-- The loop writes all rows of the chunk, over as many row groups as they need. -/
theorem Appending.appendLoop (environment : Environment) (fuel : Nat)
    (appending : Appending collection state done before last count rows)
    (chunk : DataChunk width)
    (enough : chunk.size + (if count = collection.rowGroupSize then 1 else 0) < fuel) :
    let result := RowGroupCollection.appendLoop environment fuel collection state chunk
    (∃ before' last' count', Appending result.1 result.2 done before' last' count'
        (rows ++ chunk.rows)) ∧
      SameTable collection result.1 ∧ result.2.totalAppendCount = state.totalAppendCount := by
  induction fuel generalizing collection state before last count rows chunk with
  | zero => omega
  | succ fuel ih =>
      have small : count ≤ collection.rowGroupSize :=
        (laid_concat.mp appending.laid).choose_spec.2.2.1
      obtain ⟨appendCount, hcount⟩ : ∃ appendCount,
          appendCount = min chunk.size (collection.rowGroupSize - state.offsetInRowGroup) :=
        ⟨_, rfl⟩
      have offset := appending.offset_eq
      have headSize : (chunk.head appendCount).size = appendCount :=
        Nat.min_eq_left (by omega)
      obtain ⟨written, hwritten⟩ : ∃ written, written =
          if 0 < appendCount then
            collection.appendHead environment state (chunk.head appendCount)
          else (collection, state) := ⟨_, rfl⟩
      obtain ⟨last', happending, hsame, htotal⟩ : ∃ last',
          Appending written.1 written.2 done before last' (count + appendCount)
            (rows ++ (chunk.head appendCount).rows) ∧
          SameTable collection written.1 ∧
          written.2.totalAppendCount = state.totalAppendCount := by
        rw [hwritten]
        split
        · have step := appending.appendHead environment (chunk.head appendCount) (by omega)
          rw [headSize] at step
          exact ⟨_, step⟩
        · rename_i nothing
          have zero : appendCount = 0 := Nat.eq_zero_of_not_pos nothing
          have noRows : (chunk.head appendCount).rows = [] := by
            apply List.eq_nil_of_length_eq_zero
            rw [DataChunk.length_rows, headSize, zero]
          rw [noRows, List.append_nil, zero]
          exact ⟨last, appending, ⟨rfl, rfl, rfl⟩, rfl⟩
      have split_rows : (chunk.head appendCount).rows ++ (chunk.slice appendCount).rows =
          chunk.rows := chunk.rows_head_slice (by omega)
      intro result
      by_cases more : 0 < chunk.size - appendCount
      · have hresult : result = RowGroupCollection.appendLoop environment fuel
            (written.1.appendOverflow environment written.2).1
            (written.1.appendOverflow environment written.2).2 (chunk.slice appendCount) := by
          simp only [result, RowGroupCollection.appendLoop, ← hcount, ← hwritten, if_pos more]
        have full : count + appendCount = written.1.rowGroupSize := by
          rw [hsame.rowGroupSize]
          omega
        obtain ⟨⟨before', next, hnext⟩, hsame', htotal'⟩ :=
          happending.appendOverflow environment full
        have positive := collection.rowGroupSize_pos
        have enough' : (chunk.slice appendCount).size +
            (if 0 = (written.1.appendOverflow environment written.2).1.rowGroupSize then 1 else 0) <
              fuel := by
          have sliced : (chunk.slice appendCount).size = chunk.size - appendCount := rfl
          rw [hsame'.rowGroupSize, hsame.rowGroupSize, if_neg (Nat.ne_of_lt positive), sliced]
          split at enough <;> omega
        obtain ⟨hlast, hsame'', htotal''⟩ := ih hnext (chunk.slice appendCount) enough'
        rw [hresult]
        refine ⟨?_, hsame.trans (hsame'.trans hsame''), htotal''.trans (htotal'.trans htotal)⟩
        rwa [List.append_assoc, split_rows] at hlast
      · have hresult : result = written := by
          simp only [result, RowGroupCollection.appendLoop, ← hcount, ← hwritten, if_neg more]
        have noRows : (chunk.slice appendCount).rows = [] := by
          apply List.eq_nil_of_length_eq_zero
          rw [DataChunk.length_rows]
          exact Nat.eq_zero_of_not_pos more
        rw [noRows, List.append_nil] at split_rows
        rw [split_rows] at happending
        rw [hresult]
        exact ⟨⟨before, last', _, happending⟩, hsame, htotal⟩

/-- The rows an append still has to finalize. -/
theorem sum_unfilled (before : List (RowGroup width ColumnData))
    (before_le : ∀ rowGroup ∈ before, rowGroup.count ≤ rowGroupSize) :
    (before.map fun rowGroup => rowGroupSize - rowGroup.count).sum +
        (before.map RowGroup.count).sum =
      ((before.map (RowGroup.withCount rowGroupSize)).map RowGroup.count).sum := by
  induction before with
  | nil => rfl
  | cons head tail ih =>
      have tail_sum := ih fun rowGroup member => before_le rowGroup (List.mem_cons_of_mem _ member)
      have head_le := before_le head List.mem_cons_self
      have head_count : (head.withCount rowGroupSize).count = rowGroupSize := rfl
      simp only [List.map_cons, List.sum_cons, head_count]
      omega

/-- Finalizing gives every row group the rows that were written to it. -/
theorem Appending.finalizeAppend
    (appending : Appending collection state done before last count (rows ++ pending))
    (counted : collection.totalRows = rows.length) (total : state.totalAppendCount = pending.length)
    (fits : VersionsFit collection.rowGroupSize
      (collection.rowGroups.drop state.startRowGroup) state.totalAppendCount) :
    ∃ result, collection.finalizeAppend state = .ok result ∧
      Laid result.rowGroupSize result.rowStart result.rowGroups (rows ++ pending) ∧
      result.totalRows = (rows ++ pending).length ∧ result.rowStart = collection.rowStart := by
  have opened : collection.rowGroups.drop state.startRowGroup = before ++ [last] := by
    rw [appending.rowGroups_eq, appending.startRowGroup_eq, List.append_assoc, List.drop_left']
    rfl
  have kept : collection.rowGroups.take state.startRowGroup = done := by
    rw [appending.rowGroups_eq, appending.startRowGroup_eq, List.append_assoc, List.take_left']
    rfl
  have small := (laid_concat.mp appending.laid).choose_spec.2.2.1
  have length := appending.laid.length_rows
  have settled := appending.totalRows_eq
  have unfilled := sum_unfilled before appending.before_le
  have last_count : (last.withCount count).count = count := rfl
  simp only [List.map_append, List.sum_append, List.map_cons, List.map_nil, List.sum_cons,
    List.sum_nil, List.length_append, last_count] at length settled
  have last_le := appending.last_le
  rw [opened] at fits
  obtain ⟨finalized, hfinalized, same⟩ := finalizeLoop_spec before last count
    state.totalAppendCount appending.before_le last_le small (by omega) fits
  refine ⟨{ collection with
      rowGroups := done ++ finalized
      totalRows := collection.totalRows + state.totalAppendCount }, ?_, ?_, ?_, rfl⟩
  · rw [RowGroupCollection.finalizeAppend, opened, hfinalized, kept]
    rfl
  · apply appending.laid.of_withoutVersions
    dsimp only
    rw [List.map_append, same, ← List.map_append, List.append_assoc]
  · dsimp only
    rw [counted, total, List.length_append]

end AppendSteps

/-- An append starts in the last row group, or in a new one behind it. -/
theorem initializeAppend_spec
    (laid : Laid collection.rowGroupSize collection.rowStart collection.rowGroups rows)
    (counted : collection.totalRows = rows.length) :
    let result := collection.initializeAppend
    (∃ done last count, Appending result.1 result.2 done [] last count rows) ∧
      SameTable collection result.1 ∧ result.2.totalAppendCount = 0 := by
  obtain ⟨ready, hready⟩ : ∃ ready, ready =
      if collection.rowGroups.isEmpty || collection.requiresNewRowGroup then
        collection.appendRowGroup (collection.rowStart + collection.totalRows)
      else collection := ⟨_, rfl⟩
  obtain ⟨hsame, done, last, placed, hlaid⟩ : SameTable collection ready ∧ ∃ done last,
      ready.rowGroups = done ++ [last] ∧
        Laid collection.rowGroupSize collection.rowStart (done ++ [last]) rows := by
    rw [hready]
    split
    · refine ⟨⟨rfl, rfl, rfl⟩, collection.rowGroups, _, rfl, ?_⟩
      refine laid_append.mpr ⟨rows, [], (List.append_nil _).symm, laid, laid_singleton.mpr
        ⟨RowGroup.initializeEmpty_holds _ _, Nat.zero_le _, ?_, rfl⟩⟩
      rw [← counted]
      rfl
    · rename_i present
      obtain ⟨done, last, placed⟩ : ∃ done last, collection.rowGroups = done ++ [last] := by
        rcases List.eq_nil_or_concat' collection.rowGroups with none | ⟨done, last, some⟩
        · rw [none] at present
          exact absurd rfl present
        · exact ⟨done, last, some⟩
      refine ⟨⟨rfl, rfl, rfl⟩, done, last, placed, ?_⟩
      rw [← placed]
      exact laid
  have hresult : collection.initializeAppend = (ready.initializeLast,
      { rowStart := collection.totalRows
        startRowGroup := ready.rowGroups.length - 1
        rowGroup := ready.rowGroups.length - 1
        offsetInRowGroup := ready.lastCount
        totalAppendCount := 0 }) := by
    rw [hready]
    rfl
  have index : ready.rowGroups.length - 1 = done.length := by
    rw [placed, List.length_append, List.length_singleton, Nat.add_sub_cancel]
  have hsize : ready.initializeLast.rowGroupSize = collection.rowGroupSize := hsame.1
  have hstart : ready.initializeLast.rowStart = collection.rowStart := hsame.2
  have htotal : ready.initializeLast.totalRows = collection.totalRows := hsame.3
  rw [hresult]
  dsimp only
  refine ⟨⟨done, last.initializeAppend, last.count, ⟨?_, ?_, ?_, ?_, ?_, ?_⟩,
    RowGroup.initializeAppend_initialized _, ?_, ?_, ?_⟩, ⟨hsize, hstart, htotal⟩, rfl⟩
  · rw [initializeLast_rowGroups placed, List.append_nil]
  · rw [hsize, hstart, List.map_nil, List.append_nil]
    obtain ⟨first, hfront, holds, small, start, hrows⟩ := laid_concat.mp hlaid
    refine laid_concat.mpr ⟨first, hfront, holds.initializeAppend, small, start, ?_⟩
    rw [hrows, RowGroup.rowsUpTo_initializeAppend]
  · rw [htotal, counted, hlaid.length_rows, List.append_nil, List.map_append, List.map_append]
    rfl
  · intro rowGroup member
    cases member
  · exact Nat.le_refl _
  · intro rowGroup member
    cases member
  · exact index
  · rw [index, List.append_nil]
  · exact lastCount_eq placed

/-! ## Reverting -/

section Revert

variable {collection : LoadedCollection width} {startRow : Nat}

/-- Cutting a collection off in a row group that the start row does not lie behind. -/
theorem revert_at {first more : List (Fin width → Option Payload)}
    (placed : collection.rowGroups = front ++ segment :: back)
    (laid : Laid collection.rowGroupSize collection.rowStart front first)
    (holds : segment.Holds count) (small : count ≤ collection.rowGroupSize)
    (start : segment.start = first.length) (from_zero : collection.rowStart = 0)
    (low : segment.start ≤ startRow) (high : startRow ≤ segment.start + segment.count)
    (settled : segment.count ≤ count)
    (located : SegmentTree.tryGetSegmentIndex (collection.rowGroups.map RowGroup.node) startRow =
        .ok (some front.length) ∨
      SegmentTree.tryGetSegmentIndex (collection.rowGroups.map RowGroup.node) startRow =
        .ok none ∧ back = []) :
    ∃ result, collection.revertAppendInternal startRow = .ok result ∧
      Laid result.rowGroupSize result.rowStart result.rowGroups
        ((first ++ segment.rowsUpTo count ++ more).take startRow) ∧
      result.totalRows = startRow ∧ result.rowStart = collection.rowStart := by
  obtain ⟨found, searched, index⟩ : ∃ found,
      SegmentTree.tryGetSegmentIndex (collection.rowGroups.map RowGroup.node) startRow =
        .ok found ∧ found.getD (collection.rowGroups.length - 1) = front.length := by
    rcases located with here | ⟨nowhere, rfl⟩
    · exact ⟨_, here, rfl⟩
    · refine ⟨none, nowhere, ?_⟩
      rw [placed, List.length_append]
      rfl
  have nonempty : collection.rowGroups.isEmpty = false := by
    rw [placed]
    cases front <;> rfl
  have entry : collection.rowGroups[front.length]? = some segment := by
    rw [placed, List.getElem?_append_right (Nat.le_refl _), Nat.sub_self]
    rfl
  have kept : collection.rowGroups.take front.length = front := by
    rw [placed, List.take_left']
    rfl
  have unfolded : collection.revertAppendInternal startRow =
      collection.revertFrom startRow front.length := by
    rw [RowGroupCollection.revertAppendInternal, nonempty, if_neg Bool.false_ne_true, searched,
      ← index]
    rfl
  rw [unfolded, RowGroupCollection.revertFrom, entry]
  dsimp only
  rw [kept]
  split
  · rename_i exact_start
    refine ⟨_, rfl, ?_, rfl, rfl⟩
    rw [← exact_start, start, List.append_assoc, List.take_left']
    · exact laid
    · rfl
  · obtain ⟨reverted, hreverted, rstart, rcount, rholds, rrows⟩ :=
      holds.revertAppend low (high.trans (Nat.add_le_add_left settled _))
    have cut : startRow - segment.start ≤ segment.count := by omega
    rw [Nat.min_eq_left cut] at rcount
    rw [hreverted]
    refine ⟨_, rfl, ?_, rfl, rfl⟩
    refine laid_append.mpr ⟨first, reverted.rows, ?_, laid, laid_singleton.mpr ⟨?_, ?_, ?_, rfl⟩⟩
    · have length : startRow = first.length + (startRow - segment.start) := by omega
      rw [RowGroup.rows, rcount, rrows, List.append_assoc, length, List.take_length_add_append,
        ← length, List.take_append_of_le_length]
      rw [RowGroup.rowsUpTo, length_rowsOf]
      exact cut.trans settled
    · rw [rcount]
      exact rholds
    · rw [rcount]
      exact cut.trans (settled.trans small)
    · rw [rstart, start, from_zero, Nat.zero_add]

/-- The finalized row groups are in their places, and no longer than what was written to them. -/
theorem Spread.shorter (spread : Spread collection done before last count rows) :
    List.Forall₂ (fun node filled =>
        node.rowStart = filled.rowStart ∧ node.count ≤ filled.count)
      (collection.rowGroups.map RowGroup.node)
      ((done ++ before.map (RowGroup.withCount collection.rowGroupSize) ++
        [last.withCount count]).map RowGroup.node) := by
  rw [spread.rowGroups_eq, List.forall₂_map_left_iff, List.forall₂_map_right_iff]
  refine List.rel_append (List.rel_append ?_ ?_) (List.Forall₂.cons ⟨rfl, spread.last_le⟩ .nil)
  · exact List.forall₂_same.mpr fun rowGroup _ => ⟨rfl, Nat.le_refl _⟩
  · rw [List.forall₂_map_right_iff]
    exact List.forall₂_same.mpr fun rowGroup member => ⟨rfl, spread.before_le rowGroup member⟩

/-- The search of a revert ends in the row group of the start row, or in one that starts before it. -/
def RevertReaches (collection : LoadedCollection width) (startRow : Nat) : Prop :=
  (∃ rowGroup ∈ collection.rowGroups, rowGroup.node.Holds startRow) ∨
    ∀ last, collection.rowGroups.getLast? = some last → last.start ≤ startRow

theorem Spread.locate (spread : Spread collection done before last count rows)
    (placed : collection.rowGroups = front ++ segment :: back) (from_zero : collection.rowStart = 0)
    (holds : segment.node.Holds startRow) :
    SegmentTree.tryGetSegmentIndex (collection.rowGroups.map RowGroup.node) startRow =
      .ok (some front.length) := by
  apply SegmentTree.tryGetSegmentIndex_of_holds
    (spread.laid.contiguous.sorted_of_shorter spread.shorter).1 _ _ holds
  · intro node first
    rw [spread.laid.contiguous.first_of_shorter spread.shorter first, from_zero]
    exact Nat.zero_le _
  · rw [placed, List.getElem?_map, List.getElem?_append_right (Nat.le_refl _), Nat.sub_self]
    rfl

/-- A revert to a finalized row keeps exactly the rows in front of it. -/
theorem Spread.revert (spread : Spread collection done before last count (rows ++ pending))
    (counted : collection.totalRows = rows.length) (from_zero : collection.rowStart = 0)
    (inside : startRow ≤ rows.length) (reaches : RevertReaches collection startRow) :
    ∃ result, collection.revertAppendInternal startRow = .ok result ∧
      Laid result.rowGroupSize result.rowStart result.rowGroups (rows.take startRow) ∧
      result.totalRows = startRow ∧ result.rowStart = collection.rowStart := by
  have taken : (rows ++ pending).take startRow = rows.take startRow :=
    List.take_append_of_le_length inside
  rw [← taken]
  have laid := spread.laid
  by_cases somewhere : ∃ rowGroup ∈ collection.rowGroups, rowGroup.node.Holds startRow
  · obtain ⟨segment, member, holds⟩ := somewhere
    have low : segment.start ≤ startRow := holds.1
    have high : startRow ≤ segment.start + segment.count := Nat.le_of_lt holds.2
    rw [spread.rowGroups_eq, List.append_assoc] at member
    rcases List.mem_append.mp member with settled | opened
    · obtain ⟨front, back, rfl⟩ := List.append_of_mem settled
      have placed : collection.rowGroups = front ++ segment :: (back ++ before ++ [last]) := by
        rw [spread.rowGroups_eq]
        simp
      have whole : segment = segment.withCount segment.count := rfl
      rw [whole, List.append_assoc, List.append_assoc, List.cons_append] at laid
      obtain ⟨first, more, hrows, hfront, hholds, small, start⟩ := laid.split
      rw [from_zero, Nat.zero_add] at start
      rw [hrows]
      exact revert_at placed hfront hholds small start from_zero low high (Nat.le_refl _)
        (Or.inl (spread.locate placed from_zero holds))
    · cases before with
      | nil =>
          rw [List.mem_singleton.mp opened] at holds low high
          have placed : collection.rowGroups = done ++ last :: [] := by
            rw [spread.rowGroups_eq, List.append_nil]
          rw [List.map_nil, List.append_nil] at laid
          obtain ⟨first, more, hrows, hfront, hholds, small, start⟩ := laid.split
          rw [from_zero, Nat.zero_add] at start
          rw [hrows]
          exact revert_at placed hfront hholds small start from_zero low high spread.last_le
            (Or.inl (spread.locate placed from_zero holds))
      | cons head tail =>
          rcases List.mem_cons.mp opened with rfl | later
          · have placed : collection.rowGroups = done ++ segment :: (tail ++ [last]) := by
              rw [spread.rowGroups_eq]
              simp
            rw [List.map_cons, List.append_assoc, List.cons_append] at laid
            obtain ⟨first, more, hrows, hfront, hholds, small, start⟩ := laid.split
            rw [from_zero, Nat.zero_add] at start
            rw [hrows]
            exact revert_at placed hfront hholds small start from_zero low high
              (spread.before_le segment List.mem_cons_self)
              (Or.inl (spread.locate placed from_zero holds))
          · -- the row groups an append has added have no finalized row
            have none := spread.fresh segment later
            exact absurd (low.trans_lt holds.2) (by simp [SegmentNode.stop, RowGroup.node, none])
  · obtain ⟨first, more, hrows, hfront, hholds, small, start⟩ := laid.split
    rw [from_zero, Nat.zero_add] at start
    have low : last.start ≤ startRow := by
      rcases reaches with here | behind
      · exact absurd here somewhere
      · apply behind
        rw [spread.rowGroups_eq, List.getLast?_concat]
    have notLast : ¬ last.node.Holds startRow := fun holds => somewhere ⟨last, by
      rw [spread.rowGroups_eq]
      exact List.mem_append_right _ (List.mem_singleton_self _), holds⟩
    have beyond : last.start + last.count ≤ startRow := Nat.not_lt.mp fun less =>
      notLast ⟨low, less⟩
    -- so every row group in front of the last one is full
    have settled := spread.totalRows_eq
    have length := hfront.length_rows
    have unfilled := sum_unfilled before spread.before_le
    simp only [List.map_append, List.sum_append, List.map_cons, List.map_nil, List.sum_cons,
      List.sum_nil] at settled length
    have none_unfilled : (before.map fun rowGroup =>
        collection.rowGroupSize - rowGroup.count).sum = 0 := by omega
    have filled : before.map (RowGroup.withCount collection.rowGroupSize) = before := by
      conv_rhs => rw [← List.map_id before]
      apply List.map_congr_left
      intro rowGroup member
      have zero := List.sum_eq_zero_iff_forall_eq_nat.mp none_unfilled
        (collection.rowGroupSize - rowGroup.count)
        (List.mem_map.mpr ⟨rowGroup, member, rfl⟩)
      have full : collection.rowGroupSize = rowGroup.count :=
        Nat.le_antisymm (Nat.sub_eq_zero_iff_le.mp zero) (spread.before_le rowGroup member)
      rw [full]
      rfl
    rw [filled] at hfront
    have placed : collection.rowGroups = (done ++ before) ++ last :: [] := spread.rowGroups_eq
    have nowhere : SegmentTree.tryGetSegmentIndex (collection.rowGroups.map RowGroup.node)
        startRow = .ok none := by
      apply SegmentTree.tryGetSegmentIndex_of_not_holds
        (spread.laid.contiguous.sorted_of_shorter spread.shorter).1
      · intro node hfirst
        rw [spread.laid.contiguous.first_of_shorter spread.shorter hfirst, from_zero]
        exact Nat.zero_le _
      · intro node member holds
        obtain ⟨rowGroup, hrowGroup, rfl⟩ := List.mem_map.mp member
        exact somewhere ⟨rowGroup, hrowGroup, holds⟩
    rw [hrows]
    exact revert_at placed hfront hholds small start from_zero low (by omega) spread.last_le
      (Or.inr ⟨nowhere, rfl⟩)

end Revert

/-! ## Runs -/

/-- The operations on a collection and the state of its append. -/
inductive AppendOperation (width : Nat) where
  | initializeAppend
  | append (chunk : DataChunk width)
  | finalizeAppend
  | revertAppendInternal (startRow : Nat)

/-- A collection with the state of the append under way. -/
structure AppendMachine (width : Nat) where
  collection : LoadedCollection width
  appendState : Option TableAppendState

namespace AppendMachine

/-- One operation; without an append under way there is nothing to append to or to finalize. -/
def step (environment : Environment) (machine : AppendMachine width) :
    AppendOperation width → Except String (AppendMachine width)
  | .initializeAppend =>
      let started := machine.collection.initializeAppend
      .ok ⟨started.1, some started.2⟩
  | .append chunk =>
      match machine.appendState with
      | none => .ok machine
      | some state =>
          let written := machine.collection.append environment state chunk
          .ok ⟨written.1, some written.2⟩
  | .finalizeAppend =>
      match machine.appendState with
      | none => .ok machine
      | some state => do
          let collection ← machine.collection.finalizeAppend state
          pure ⟨collection, none⟩
  | .revertAppendInternal startRow => do
      let collection ← machine.collection.revertAppendInternal startRow
      pure ⟨collection, none⟩

/--
The order in which callers use the operations.  Only the collection of a table, whose rows
start at 0, is reverted, and to a row where an append began.
-/
def Permitted (machine : AppendMachine width) : AppendOperation width → Prop
  | .initializeAppend => machine.appendState = none
  | .append _ => machine.appendState.isSome
  | .finalizeAppend => machine.appendState.isSome
  | .revertAppendInternal startRow =>
      machine.collection.rowStart = 0 ∧ startRow ≤ machine.collection.totalRows

/-- The operation finds what it looks for. -/
def WellPlaced (machine : AppendMachine width) : AppendOperation width → Prop
  | .finalizeAppend => ∀ state, machine.appendState = some state →
      VersionsFit machine.collection.rowGroupSize
        (machine.collection.rowGroups.drop state.startRowGroup) state.totalAppendCount
  | .revertAppendInternal startRow => RevertReaches machine.collection startRow
  | _ => True

end AppendMachine

/-- The rows that were finalized and not reverted, and those appended since. -/
structure AppendedRows (width : Nat) where
  rows : List (Fin width → Option Payload)
  pending : List (Fin width → Option Payload)

namespace AppendedRows

def record (appended : AppendedRows width) : AppendOperation width → AppendedRows width
  | .initializeAppend => ⟨appended.rows, []⟩
  | .append chunk => ⟨appended.rows, appended.pending ++ chunk.rows⟩
  | .finalizeAppend => ⟨appended.rows ++ appended.pending, []⟩
  | .revertAppendInternal startRow => ⟨appended.rows.take startRow, []⟩

/-- What a sequence of operations on an empty collection appends. -/
def ofOperations (operations : List (AppendOperation width)) : AppendedRows width :=
  operations.foldl record ⟨[], []⟩

@[simp]
theorem ofOperations_concat (operations : List (AppendOperation width))
    (operation : AppendOperation width) :
    ofOperations (operations ++ [operation]) = (ofOperations operations).record operation := by
  rw [ofOperations, List.foldl_append]
  rfl

end AppendedRows

/-- The collection holds the appended rows, finalized or about to be. -/
def AppendMachine.Describes (appended : AppendedRows width) (machine : AppendMachine width) :
    Prop :=
  machine.collection.totalRows = appended.rows.length ∧
  match machine.appendState with
  | none =>
      Laid machine.collection.rowGroupSize machine.collection.rowStart machine.collection.rowGroups
        appended.rows ∧ appended.pending = []
  | some state =>
      (∃ done before last count, Appending machine.collection state done before last count
        (appended.rows ++ appended.pending)) ∧
      state.totalAppendCount = appended.pending.length

namespace AppendMachine

variable {machine : AppendMachine width} {appended : AppendedRows width}

/-- A collection at rest is spread as one in which an append has written nothing. -/
theorem Describes.exists_spread (describes : machine.Describes appended) :
    machine.collection.rowGroups = [] ∧ appended.rows = [] ∨
      ∃ done before last count, Spread machine.collection done before last count
        (appended.rows ++ appended.pending) := by
  obtain ⟨counted, describes⟩ := describes
  cases happend : machine.appendState with
  | some state =>
      rw [happend] at describes
      obtain ⟨⟨done, before, last, count, appending⟩, -⟩ := describes
      exact Or.inr ⟨done, before, last, count, appending.toSpread⟩
  | none =>
      rw [happend] at describes
      obtain ⟨laid, nothing⟩ := describes
      rcases List.eq_nil_or_concat' machine.collection.rowGroups with absent | ⟨done, last, placed⟩
      · rw [absent] at laid
        exact Or.inl ⟨absent, laid.rows_eq.symm⟩
      · refine Or.inr ⟨done, [], last, last.count, ?_, ?_, ?_, ?_, Nat.le_refl _, ?_⟩
        · rw [placed, List.append_nil]
        · rw [nothing, List.append_nil, List.map_nil, List.append_nil]
          rw [placed] at laid
          exact laid
        · rw [counted, laid.length_rows, placed, List.append_nil]
        · intro rowGroup member
          cases member
        · intro rowGroup member
          cases member

/-- One operation, in every state that describes what was appended so far. -/
theorem Describes.step (environment : Environment) (describes : machine.Describes appended)
    {operation : AppendOperation width} (permitted : machine.Permitted operation)
    (wellPlaced : machine.WellPlaced operation) :
    ∃ next, machine.step environment operation = .ok next ∧
      next.Describes (appended.record operation) := by
  cases operation with
  | initializeAppend =>
      obtain ⟨counted, describes⟩ := describes
      change machine.appendState = none at permitted
      rw [permitted] at describes
      obtain ⟨laid, -⟩ := describes
      obtain ⟨⟨done, last, count, appending⟩, same, total⟩ := initializeAppend_spec laid counted
      refine ⟨_, rfl, same.totalRows.trans counted, ⟨done, [], last, count, ?_⟩, total⟩
      rw [AppendedRows.record, List.append_nil]
      exact appending
  | append chunk =>
      obtain ⟨counted, describes⟩ := describes
      obtain ⟨state, hstate⟩ := Option.isSome_iff_exists.mp permitted
      rw [hstate] at describes
      obtain ⟨⟨done, before, last, count, appending⟩, total⟩ := describes
      have started : Appending machine.collection
          { state with totalAppendCount := state.totalAppendCount + chunk.size } done before last
          count (appended.rows ++ appended.pending) :=
        { appending with }
      have enough : chunk.size +
          (if count = machine.collection.rowGroupSize then 1 else 0) < chunk.size + 2 := by
        split <;> omega
      obtain ⟨⟨before', last', count', appending'⟩, same, total'⟩ :=
        started.appendLoop environment (chunk.size + 2) chunk enough
      refine ⟨⟨(machine.collection.append environment state chunk).1,
        some (machine.collection.append environment state chunk).2⟩, ?_,
        same.totalRows.trans counted, ⟨done, before', last', count', ?_⟩, ?_⟩
      · rw [AppendMachine.step, hstate]
      · rw [AppendedRows.record, ← List.append_assoc]
        exact appending'
      · rw [AppendedRows.record, List.length_append, DataChunk.length_rows, ← total]
        exact total'
  | finalizeAppend =>
      obtain ⟨counted, describes⟩ := describes
      obtain ⟨state, hstate⟩ := Option.isSome_iff_exists.mp permitted
      rw [hstate] at describes
      obtain ⟨⟨done, before, last, count, appending⟩, total⟩ := describes
      obtain ⟨result, hresult, laid, counted', -⟩ :=
        appending.finalizeAppend counted total (wellPlaced state hstate)
      refine ⟨⟨result, none⟩, ?_, counted', laid, rfl⟩
      rw [AppendMachine.step, hstate]
      change (machine.collection.finalizeAppend state >>= fun collection =>
        pure (AppendMachine.mk collection none)) = _
      rw [hresult]
      rfl
  | revertAppendInternal startRow =>
      obtain ⟨from_zero, inside⟩ := permitted
      have counted := describes.1
      rw [counted] at inside
      have reverted : ∃ result, machine.collection.revertAppendInternal startRow = .ok result ∧
          Laid result.rowGroupSize result.rowStart result.rowGroups (appended.rows.take startRow) ∧
          result.totalRows = startRow := by
        rcases describes.exists_spread with ⟨absent, nothing⟩ | ⟨done, before, last, count, spread⟩
        · refine ⟨{ machine.collection with totalRows := startRow }, ?_, ?_, rfl⟩
          · rw [RowGroupCollection.revertAppendInternal, if_pos (by rw [absent]; rfl)]
            rfl
          · rw [absent, nothing, List.take_nil]
            exact Laid.nil
        · obtain ⟨result, hresult, laid, total, -⟩ :=
            spread.revert counted from_zero inside wellPlaced
          exact ⟨result, hresult, laid, total⟩
      obtain ⟨result, hresult, laid, total⟩ := reverted
      refine ⟨⟨result, none⟩, ?_, ?_, laid, rfl⟩
      · rw [AppendMachine.step, hresult]
        rfl
      · rw [AppendedRows.record, List.length_take, Nat.min_eq_left inside]
        exact total

/-- The collection of a new table. -/
def initial (rowGroupSize : Nat) (positive : 0 < rowGroupSize) (tableName : String)
    (types : Fin width → LogicalType) (rowStart : Nat) : AppendMachine width :=
  ⟨.initializeEmpty rowGroupSize positive tableName types rowStart, none⟩

/--
In every run that finalizes without meeting constant version information in a vector it fills
in part, and whose reverts find the row group of their start row, no operation fails and the
row groups hold exactly the appended rows.
-/
theorem run_rows (environment : Environment) (rowGroupSize : Nat) (positive : 0 < rowGroupSize)
    (tableName : String) (types : Fin width → LogicalType) (rowStart : Nat)
    {operations : List (AppendOperation width)} {machine : AppendMachine width}
    (reached : Reaches (step environment)
      (fun machine operation => machine.Permitted operation ∧ machine.WellPlaced operation)
      (initial rowGroupSize positive tableName types rowStart) operations machine) :
    let appended := AppendedRows.ofOperations operations
    (machine.appendState = none →
      Laid machine.collection.rowGroupSize machine.collection.rowStart machine.collection.rowGroups
          appended.rows ∧
        machine.collection.totalRows = (machine.collection.rowGroups.map RowGroup.count).sum) ∧
    (∀ state, machine.appendState = some state → ∃ done before last count,
      Spread machine.collection done before last count (appended.rows ++ appended.pending)) ∧
    ∀ operation, machine.Permitted operation → machine.WellPlaced operation →
      ∃ next, machine.step environment operation = .ok next := by
  have describes : machine.Describes (AppendedRows.ofOperations operations) := by
    refine reached.invariant
      (fun operations machine => machine.Describes (AppendedRows.ofOperations operations))
      ⟨rfl, Laid.nil, rfl⟩ ?_
    intro operations machine operation next describes guarded taken
    obtain ⟨result, hresult, described⟩ := describes.step environment guarded.1 guarded.2
    rw [taken] at hresult
    rw [AppendedRows.ofOperations_concat, Except.ok.inj hresult]
    exact described
  refine ⟨fun atRest => ?_, fun state underWay => ?_, fun operation permitted wellPlaced => ?_⟩
  · obtain ⟨counted, described⟩ := describes
    rw [atRest] at described
    exact ⟨described.1, counted.trans described.1.length_rows⟩
  · obtain ⟨-, described⟩ := describes
    rw [underWay] at described
    obtain ⟨⟨done, before, last, count, appending⟩, -⟩ := described
    exact ⟨done, before, last, count, appending.toSpread⟩
  · obtain ⟨next, taken, -⟩ := describes.step environment permitted wellPlaced
    exact ⟨next, taken⟩

/-- Two appended rows of which a revert leaves the first. -/
theorem run_rows_reverted :
    ∃ machine : AppendMachine 1, Reaches (step (.uniform .none (by decide)))
        (fun machine operation => machine.Permitted operation ∧ machine.WellPlaced operation)
        (initial 2048 (by decide) "t" (fun _ => .integer) 0)
        [.initializeAppend, .append (.replicate 1 2 ⟨.integer 7, true⟩), .finalizeAppend,
          .revertAppendInternal 1] machine ∧
      machine.collection.rowGroups.flatMap RowGroup.rows = [fun _ => some (.integer 7)] := by
  obtain ⟨machine, reached, atRest⟩ : ∃ machine : AppendMachine 1,
      Reaches (step (.uniform .none (by decide)))
        (fun machine operation => machine.Permitted operation ∧ machine.WellPlaced operation)
        (initial 2048 (by decide) "t" (fun _ => .integer) 0)
        [.initializeAppend, .append (.replicate 1 2 ⟨.integer 7, true⟩), .finalizeAppend,
          .revertAppendInternal 1] machine ∧ machine.appendState = none := by
    refine ⟨_, .cons ⟨rfl, trivial⟩ rfl (.cons ⟨rfl, trivial⟩ rfl (.cons ⟨rfl, ?_⟩ rfl
      (.cons ⟨⟨rfl, ?_⟩, ?_⟩ rfl .start))), rfl⟩
    · intro state started
      cases started
      refine ⟨fun _ _ _ found => ?_, trivial⟩
      cases (found : (none : Option (Option ChunkInfoType)) = _)
    · decide +kernel
    · refine Or.inr fun last found => ?_
      cases found
      exact Nat.zero_le _
  exact ⟨machine, reached, ((run_rows _ 2048 (by decide) "t" _ 0 reached).1 atRest).1.rows_eq⟩

/--
A chunk that filled the first row group and one row behind it are appended, and the append is
reverted before it is finalized: the revert looks in the new row group, and fails.
-/
theorem revert_behind_new_rowGroup :
    ∃ machine, Reaches (step (.uniform .none (by decide))) Permitted
        (initial 2048 (by decide) "t" (fun _ => .integer) 0)
        [.initializeAppend, .append (.replicate 1 2048 ⟨.integer 7, true⟩),
          .append (.replicate 1 1 ⟨.integer 7, true⟩)] machine ∧
      machine.Permitted (.revertAppendInternal 0) ∧
      (machine.step (.uniform .none (by decide)) (.revertAppendInternal 0)).toBool = false := by
  refine ⟨_, .cons rfl rfl (.cons rfl rfl (.cons rfl rfl .start)), ?_⟩
  exact ⟨⟨rfl, Nat.zero_le _⟩, by decide +kernel⟩

end AppendMachine

end StatsRecommender
