import StatsRecommender.Statistics.BaseStatistics
import StatsRecommender.Storage.SegmentTree

/-!
# The segments of a column

The part of `ColumnData` that a column and its validity mask share: a list of segments
that rows are appended to and cut off from.
-/

namespace StatsRecommender

variable {α : Type} {start : Nat}

/-- One row of an appended vector: its slot in the data and its bit in the mask. -/
structure VectorSlot where
  data : Payload
  valid : Bool
  deriving Repr

/-- The value of a slot; the data of an invalid slot is not looked at. -/
def VectorSlot.value (slot : VectorSlot) : Option Payload :=
  if slot.valid then some slot.data else none

/-- `ColumnSegment`, with the values it was given instead of its block. -/
structure ColumnSegment (α : Type) where
  start : Nat
  values : List α
  statistics : BaseStatistics
  persistent : Bool
  deriving Repr

/--
The `append` of a compression function: how many slots a segment with given values takes.
An empty segment takes at least one, so that an append comes to an end.
-/
structure SegmentFunction (α : Type) where
  appendCount : List α → List VectorSlot → Nat
  appendCount_le : ∀ held vector, appendCount held vector ≤ vector.length
  appendCount_pos : ∀ vector, vector ≠ [] → 0 < appendCount [] vector
  /-- What is written for a slot. -/
  store : VectorSlot → α
  /-- How the segment statistics change, given the vector and the slots taken from it. -/
  observe : List VectorSlot → List VectorSlot → BaseStatistics → BaseStatistics
  observe_additional : ∀ vector taken stats,
    (observe vector taken stats).additionalStats = stats.additionalStats

namespace ColumnSegment

def count (segment : ColumnSegment α) : Nat := segment.values.length

def node (segment : ColumnSegment α) : SegmentNode := ⟨segment.start, segment.count⟩

/-- `CreateTransientSegment`. -/
def transient (type : LogicalType) (start : Nat) : ColumnSegment α :=
  ⟨start, [], .createEmpty type, false⟩

/-- `ColumnSegment::RevertAppend`. -/
def revertAppend (segment : ColumnSegment α) (startRow : Nat) : ColumnSegment α :=
  { segment with values := segment.values.take (startRow - segment.start) }

end ColumnSegment

/-- The fields of `ColumnData` about its rows. -/
structure ColumnSegments (α : Type) where
  type : LogicalType
  start : Nat
  count : Nat
  data : List (ColumnSegment α)
  deriving Repr

/-- What the loop of `AppendData` carries: the segments, the merged statistics, the temp vector. -/
structure AppendProgress (α : Type) where
  data : List (ColumnSegment α)
  statistics : BaseStatistics
  tempVector : List Payload

variable {column : ColumnSegments α}

namespace ColumnSegments

def empty (type : LogicalType) (start : Nat) : ColumnSegments α := ⟨type, start, 0, []⟩

/-- The rows of the column, over all segments. -/
def values (column : ColumnSegments α) : List α := column.data.flatMap ColumnSegment.values

/-- `ColumnData::InitializeAppend`: afterwards the last segment can be appended to. -/
def initializeAppend (column : ColumnSegments α) : ColumnSegments α :=
  match column.data.getLast? with
  | none => { column with data := [.transient column.type column.start] }
  | some last =>
      if last.persistent then
        { column with data := column.data ++ [.transient column.type (last.start + last.count)] }
      else column

/-- The values that `AppendTemp` pushes for some slots. -/
def appendTemp (slots : List VectorSlot) : List Payload :=
  (slots.filter VectorSlot.valid).map VectorSlot.data

/--
The loop of `AppendData` and, with `writeTemp`, of `AppendDataWriteTemp`.  The segments in
front of the current one are final.
-/
def appendLoop (function : SegmentFunction α) (type : LogicalType) (writeTemp : Bool)
    (vector : List VectorSlot) :
    Nat → ColumnSegment α → List VectorSlot → AppendProgress α → AppendProgress α
  | 0, current, _, progress => { progress with data := progress.data ++ [current] }
  | fuel + 1, current, remaining, progress =>
      let copied := function.appendCount current.values remaining
      let taken := remaining.take copied
      let filled : ColumnSegment α :=
        { current with
          values := current.values ++ taken.map function.store
          statistics := function.observe vector taken current.statistics }
      let merged : AppendProgress α :=
        ⟨progress.data ++ [filled], progress.statistics.merge filled.statistics,
          if writeTemp then progress.tempVector ++ appendTemp taken else progress.tempVector⟩
      if copied = remaining.length then merged
      else
        appendLoop function type writeTemp vector fuel
          (.transient type (filled.start + filled.count)) (remaining.drop copied) merged

/-- `ColumnData::AppendData` and `AppendDataWriteTemp` on the current, which is the last, segment. -/
def appendData (column : ColumnSegments α) (function : SegmentFunction α) (writeTemp : Bool)
    (statistics : BaseStatistics) (tempVector : List Payload) (vector : List VectorSlot) :
    ColumnSegments α × BaseStatistics × List Payload :=
  match column.data.getLast? with
  | none => (column, statistics, tempVector)
  | some current =>
      let progress := appendLoop function column.type writeTemp vector (vector.length + 2) current
        vector ⟨column.data.dropLast, statistics, tempVector⟩
      ({ column with count := column.count + vector.length, data := progress.data },
        progress.statistics, progress.tempVector)

/-- `ColumnData::RevertAppend`. -/
def revertAppend (column : ColumnSegments α) (startRow : Nat) :
    Except String (ColumnSegments α) :=
  match column.data.getLast? with
  | none => pure column
  | some last =>
      if last.start + last.count ≤ startRow then pure column
      else do
        let index ← SegmentTree.getSegmentIndex (column.data.map ColumnSegment.node) startRow
        let data :=
          match column.data[index]? with
          | none => column.data
          | some segment =>
              if segment.start = startRow then column.data.take index
              else column.data.take index ++ [segment.revertAppend startRow]
        pure { column with data, count := startRow - column.start }

/-- `ColumnData::SetStart`. -/
def setStart (column : ColumnSegments α) (newStart : Nat) : ColumnSegments α :=
  let place (placed : List (ColumnSegment α) × Nat) (segment : ColumnSegment α) :=
    (placed.1 ++ [{ segment with start := newStart + placed.2 }], placed.2 + segment.count)
  { column with start := newStart, data := (column.data.foldl place ([], 0)).1 }

/-! ## Well-formed columns -/

/-- The segments follow each other from the start of the column, and the count is theirs. -/
structure WellFormed (column : ColumnSegments α) : Prop where
  contiguous : SegmentTree.Contiguous column.start (column.data.map ColumnSegment.node)
  count_eq : column.count = column.values.length

theorem sum_count (data : List (ColumnSegment α)) :
    ((data.map ColumnSegment.node).map SegmentNode.count).sum =
      (data.flatMap ColumnSegment.values).length := by
  rw [List.map_map, List.length_flatMap]
  rfl

theorem contiguous_append {front back : List (ColumnSegment α)} :
    SegmentTree.Contiguous start ((front ++ back).map ColumnSegment.node) ↔
      SegmentTree.Contiguous start (front.map ColumnSegment.node) ∧
      SegmentTree.Contiguous (start + (front.flatMap ColumnSegment.values).length)
        (back.map ColumnSegment.node) := by
  rw [List.map_append, SegmentTree.contiguous_append, sum_count]

theorem contiguous_singleton {segment : ColumnSegment α} :
    SegmentTree.Contiguous start ([segment].map ColumnSegment.node) ↔ segment.start = start :=
  and_iff_left trivial

theorem empty_wellFormed (type : LogicalType) (start : Nat) :
    (empty type start : ColumnSegments α).WellFormed :=
  ⟨trivial, rfl⟩

/-- The end of the last segment is the end of the rows. -/
theorem WellFormed.last_stop (wellFormed : column.WellFormed) {last : ColumnSegment α}
    (hlast : column.data.getLast? = some last) :
    last.start + last.count = column.start + column.count := by
  obtain ⟨front, hdata⟩ := List.getLast?_eq_some_iff.mp hlast
  have contiguous := wellFormed.contiguous
  rw [hdata, contiguous_append, contiguous_singleton] at contiguous
  rw [wellFormed.count_eq, values, hdata, List.flatMap_append, List.length_append,
    contiguous.2, List.flatMap_singleton, ColumnSegment.count, Nat.add_assoc]

@[simp]
theorem values_initializeAppend (column : ColumnSegments α) :
    column.initializeAppend.values = column.values := by
  rw [initializeAppend]
  split
  · rename_i hlast
    rw [List.getLast?_eq_none_iff] at hlast
    simp [values, hlast, ColumnSegment.transient]
  · split
    · simp [values, ColumnSegment.transient]
    · rfl

@[simp]
theorem start_initializeAppend (column : ColumnSegments α) :
    column.initializeAppend.start = column.start := by
  rw [initializeAppend]
  split
  · rfl
  · split <;> rfl

@[simp]
theorem count_initializeAppend (column : ColumnSegments α) :
    column.initializeAppend.count = column.count := by
  rw [initializeAppend]
  split
  · rfl
  · split <;> rfl

theorem initializeAppend_wellFormed (wellFormed : column.WellFormed) :
    column.initializeAppend.WellFormed := by
  constructor
  · rw [initializeAppend]
    split
    · exact contiguous_singleton.mpr rfl
    · rename_i last hlast
      split
      · dsimp only
        rw [contiguous_append, contiguous_singleton]
        refine ⟨wellFormed.contiguous, ?_⟩
        change last.start + last.count = _
        rw [wellFormed.last_stop hlast, wellFormed.count_eq]
        rfl
      · exact wellFormed.contiguous
  · rw [values_initializeAppend, count_initializeAppend, wellFormed.count_eq]

theorem initializeAppend_ne_nil (column : ColumnSegments α) :
    column.initializeAppend.data ≠ [] := by
  rw [initializeAppend]
  split
  · exact List.cons_ne_nil _ _
  · rename_i last hlast
    split
    · simp
    · intro absent
      rw [absent] at hlast
      cases hlast

/-! ## What an append does -/

/-- The loop writes every remaining slot, segment by segment. -/
theorem appendLoop_spec (function : SegmentFunction α) (type : LogicalType) (writeTemp : Bool)
    (vector : List VectorSlot) (fuel : Nat) (current : ColumnSegment α)
    (remaining : List VectorSlot) (progress : AppendProgress α)
    (enough : remaining.length + (if current.values = [] then 0 else 1) < fuel)
    (contiguous : SegmentTree.Contiguous start
      ((progress.data ++ [current]).map ColumnSegment.node)) :
    let result := appendLoop function type writeTemp vector fuel current remaining progress
    result.data.flatMap ColumnSegment.values =
        (progress.data ++ [current]).flatMap ColumnSegment.values ++
          remaining.map function.store ∧
      SegmentTree.Contiguous start (result.data.map ColumnSegment.node) ∧
      result.data ≠ [] ∧
      result.tempVector =
        if writeTemp then progress.tempVector ++ appendTemp remaining
        else progress.tempVector := by
  induction fuel generalizing current remaining progress with
  | zero => omega
  | succ fuel ih =>
      intro result
      have starts := contiguous
      rw [contiguous_append, contiguous_singleton] at starts
      obtain ⟨filled, hfilled⟩ : ∃ filled : ColumnSegment α, filled =
          { current with
            values := current.values ++
              (remaining.take (function.appendCount current.values remaining)).map function.store
            statistics := function.observe vector
              (remaining.take (function.appendCount current.values remaining))
              current.statistics } := ⟨_, rfl⟩
      have contiguous' : SegmentTree.Contiguous start
          ((progress.data ++ [filled]).map ColumnSegment.node) := by
        rw [contiguous_append, contiguous_singleton, hfilled]
        exact starts
      by_cases finished : function.appendCount current.values remaining = remaining.length
      · have hresult : result = ⟨progress.data ++ [filled],
            progress.statistics.merge filled.statistics,
            if writeTemp then progress.tempVector ++ appendTemp remaining
            else progress.tempVector⟩ := by
          simp only [result, appendLoop, finished, if_pos, hfilled, List.take_length]
        rw [hresult]
        refine ⟨?_, contiguous', by simp, rfl⟩
        simp [hfilled, finished, List.flatMap_append]
      · have copied_le := function.appendCount_le current.values remaining
        have nonempty : remaining ≠ [] := by
          rintro rfl
          exact finished (Nat.le_zero.mp copied_le)
        have hresult : result = appendLoop function type writeTemp vector fuel
            (.transient type (filled.start + filled.count))
            (remaining.drop (function.appendCount current.values remaining))
            ⟨progress.data ++ [filled], progress.statistics.merge filled.statistics,
              if writeTemp then progress.tempVector ++
                appendTemp (remaining.take (function.appendCount current.values remaining))
              else progress.tempVector⟩ := by
          simp only [result, appendLoop, if_neg finished, hfilled]
        have shorter : (remaining.drop (function.appendCount current.values remaining)).length +
            (if (ColumnSegment.transient type (filled.start + filled.count) :
              ColumnSegment α).values = [] then 0 else 1) < fuel := by
          have unused : (ColumnSegment.transient type (filled.start + filled.count) :
              ColumnSegment α).values = [] := rfl
          rw [List.length_drop, if_pos unused]
          by_cases fresh : current.values = []
          · have positive := function.appendCount_pos remaining nonempty
            rw [fresh] at copied_le finished enough ⊢
            rw [if_pos rfl] at enough
            omega
          · rw [if_neg fresh] at enough
            omega
        have next : SegmentTree.Contiguous start
            ((progress.data ++ [filled] ++
              [ColumnSegment.transient type (filled.start + filled.count)]).map
                ColumnSegment.node) := by
          rw [contiguous_append, contiguous_singleton]
          refine ⟨contiguous', ?_⟩
          change filled.start + filled.count = _
          rw [List.flatMap_append, List.length_append, List.flatMap_singleton, ← Nat.add_assoc,
            ← starts.2, hfilled]
          rfl
        obtain ⟨hvalues, hcontiguous, hdata, htemp⟩ := ih _ _
          ⟨progress.data ++ [filled], progress.statistics.merge filled.statistics,
            if writeTemp then progress.tempVector ++
              appendTemp (remaining.take (function.appendCount current.values remaining))
            else progress.tempVector⟩ shorter next
        rw [hresult]
        refine ⟨?_, hcontiguous, hdata, ?_⟩
        · rw [hvalues]
          simp only [List.flatMap_append, List.flatMap_singleton, ColumnSegment.transient,
            List.append_nil, hfilled, List.append_assoc, ← List.map_append, List.take_append_drop]
        · rw [htemp]
          split
          · rw [List.append_assoc, appendTemp, appendTemp, ← List.map_append,
              ← List.filter_append, List.take_append_drop]
            rfl
          · rfl

section AppendData

variable (function : SegmentFunction α) (writeTemp : Bool) (statistics : BaseStatistics)
  (tempVector : List Payload) (vector : List VectorSlot)

@[simp]
theorem start_appendData (column : ColumnSegments α) :
    (column.appendData function writeTemp statistics tempVector vector).1.start = column.start := by
  rw [appendData]
  split <;> rfl

/-- An append writes the whole vector behind the rows of the column. -/
theorem appendData_spec (wellFormed : column.WellFormed) (initialized : column.data ≠ []) :
    let result := column.appendData function writeTemp statistics tempVector vector
    result.1.values = column.values ++ vector.map function.store ∧
      result.1.WellFormed ∧ result.1.data ≠ [] ∧
      result.2.2 = if writeTemp then tempVector ++ appendTemp vector else tempVector := by
  obtain ⟨current, hcurrent⟩ := Option.ne_none_iff_exists'.mp
    (mt List.getLast?_eq_none_iff.mp initialized)
  have hdata : column.data.dropLast ++ [current] = column.data := by
    obtain ⟨front, heq⟩ := List.getLast?_eq_some_iff.mp hcurrent
    rw [heq, List.dropLast_concat]
  have contiguous := wellFormed.contiguous
  rw [← hdata] at contiguous
  have enough : vector.length + (if current.values = [] then 0 else 1) < vector.length + 2 := by
    split <;> omega
  obtain ⟨hvalues, hcontiguous, hne, htemp⟩ := appendLoop_spec function column.type writeTemp
    vector (vector.length + 2) current vector ⟨column.data.dropLast, statistics, tempVector⟩
    enough contiguous
  simp only [appendData, hcurrent]
  have rows : (appendLoop function column.type writeTemp vector (vector.length + 2) current vector
      ⟨column.data.dropLast, statistics, tempVector⟩).data.flatMap ColumnSegment.values =
      column.values ++ vector.map function.store := by
    rw [hvalues, hdata]
    rfl
  refine ⟨rows, ⟨hcontiguous, ?_⟩, hne, htemp⟩
  rw [values, rows, List.length_append, List.length_map, wellFormed.count_eq]

end AppendData

/-! ## What a revert does -/

/-- A revert keeps all segments, or those in front of one and maybe the first rows of that. -/
theorem revertAppend_cases {startRow : Nat} {result : ColumnSegments α}
    (reverted : column.revertAppend startRow = .ok result) :
    ∃ count data, result = { column with count, data } ∧ (data = column.data ∨
      ∃ front segment back, column.data = front ++ segment :: back ∧
        (data = front ∨ data = front ++ [segment.revertAppend startRow])) := by
  rw [revertAppend] at reverted
  split at reverted
  · cases reverted
    exact ⟨_, _, rfl, .inl rfl⟩
  · split at reverted
    · cases reverted
      exact ⟨_, _, rfl, .inl rfl⟩
    · cases hindex : SegmentTree.getSegmentIndex (column.data.map ColumnSegment.node) startRow with
      | error message =>
          rw [hindex] at reverted
          cases reverted
      | ok index =>
          rw [hindex] at reverted
          cases reverted
          refine ⟨_, _, rfl, ?_⟩
          split
          · exact .inl rfl
          · rename_i segment hsegment
            obtain ⟨inside, found⟩ := List.getElem?_eq_some_iff.mp hsegment
            refine .inr ⟨column.data.take index, segment, column.data.drop (index + 1), ?_, ?_⟩
            · rw [← found, ← List.drop_eq_getElem_cons inside, List.take_append_drop]
            · split
              · exact .inl rfl
              · exact .inr rfl

/-- The revert finds the segment of the start row and cuts the column off there. -/
theorem revertAppend_spec (wellFormed : column.WellFormed) {startRow : Nat}
    (low : column.start ≤ startRow) (high : startRow ≤ column.start + column.count) :
    ∃ result, column.revertAppend startRow = .ok result ∧ result.WellFormed ∧
      result.start = column.start ∧ result.count = startRow - column.start ∧
      result.values = column.values.take (startRow - column.start) := by
  have unchanged : startRow = column.start + column.count →
      column.WellFormed ∧ column.start = column.start ∧
        column.count = startRow - column.start ∧
        column.values = column.values.take (startRow - column.start) := by
    intro hend
    refine ⟨wellFormed, rfl, by omega, ?_⟩
    rw [List.take_of_length_le]
    rw [← wellFormed.count_eq]
    omega
  rw [revertAppend]
  split
  · rename_i hlast
    rw [List.getLast?_eq_none_iff] at hlast
    have hcount : column.count = 0 := by
      rw [wellFormed.count_eq, values, hlast]
      rfl
    exact ⟨column, rfl, unchanged (by omega)⟩
  · rename_i last hlast
    have stop := wellFormed.last_stop hlast
    split
    · rename_i outside
      exact ⟨column, rfl, unchanged (by omega)⟩
    · rename_i inside
      have total : startRow < column.start +
          ((column.data.map ColumnSegment.node).map SegmentNode.count).sum := by
        rw [sum_count]
        have hcount := wellFormed.count_eq
        rw [values] at hcount
        omega
      obtain ⟨front, segment, back, hdata, holds, -, hindex, -, index⟩ :=
        wellFormed.contiguous.getSegmentIndex low total
      have contiguous := wellFormed.contiguous
      rw [hdata, contiguous_append] at contiguous
      have hsegment : segment.start =
          column.start + (front.flatMap ColumnSegment.values).length := contiguous.2.1
      rw [index]
      refine ⟨_, rfl, ?_⟩
      dsimp only
      rw [hindex]
      dsimp only
      have htake : column.data.take front.length = front := by
        rw [hdata, List.take_left']
        rfl
      have hvalues : column.values = front.flatMap ColumnSegment.values ++
          (segment.values ++ back.flatMap ColumnSegment.values) := by
        rw [values, hdata, List.flatMap_append, List.flatMap_cons]
      split
      · rename_i exact_start
        have length : startRow - column.start =
            (front.flatMap ColumnSegment.values).length := by omega
        rw [htake]
        have kept : front.flatMap ColumnSegment.values =
            column.values.take (startRow - column.start) := by
          rw [hvalues, length, List.take_left']
          rfl
        exact ⟨⟨contiguous.1, by rw [length]; rfl⟩, rfl, rfl, kept⟩
      · rename_i within
        have after : segment.start < startRow := lt_of_le_of_ne holds.1 within
        have short : startRow - segment.start ≤ segment.values.length := by
          have stop' := holds.2
          change startRow < segment.start + segment.values.length at stop'
          omega
        rw [htake]
        have kept : (front ++ [segment.revertAppend startRow]).flatMap ColumnSegment.values =
            column.values.take (startRow - column.start) := by
          have length : startRow - column.start =
              (front.flatMap ColumnSegment.values).length + (startRow - segment.start) := by omega
          rw [hvalues, length, List.take_length_add_append, List.flatMap_append,
            List.flatMap_singleton, ColumnSegment.revertAppend,
            List.take_append_of_le_length short]
        refine ⟨⟨?_, ?_⟩, rfl, rfl, kept⟩
        · dsimp only
          rw [contiguous_append, contiguous_singleton]
          exact ⟨contiguous.1, hsegment⟩
        · rw [values, kept, List.length_take, ← wellFormed.count_eq]
          dsimp only
          omega

end ColumnSegments

end StatsRecommender
