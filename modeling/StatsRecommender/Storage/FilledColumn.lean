import StatsRecommender.Storage.SegmentFunctions
import StatsRecommender.Storage.SegmentTree

/-!
# Appending to a column and taking it back

`ColumnData` with the blocks of its segments: an append fills the last segment and creates others
behind it, and a revert finds the segment of a row and cuts the column off there.
-/

namespace StatsRecommender

variable {start startRow : Nat}

/-- The block of a segment; a persistent one was written with its values. -/
inductive SegmentBody (State : Type) where
  | persistent (values : List Payload)
  | transient (state : State)

/-- `ColumnSegment`, as its functions see it. -/
structure FilledSegment (functions : SegmentFunctions) where
  start : Nat
  count : Nat
  body : SegmentBody functions.State

/-- `ColumnData`. -/
structure FilledColumn (functions : SegmentFunctions) where
  start : Nat
  count : Nat
  data : List (FilledSegment functions)

namespace FilledSegment

variable {functions : SegmentFunctions}

def node (segment : FilledSegment functions) : SegmentNode := ⟨segment.start, segment.count⟩

/-- `CreateTransientSegment`. -/
def createTransient (functions : SegmentFunctions) (start : Nat) : FilledSegment functions :=
  ⟨start, 0, .transient (functions.initSegment start)⟩

/-- The rows of a segment, as they are read. -/
def values (segment : FilledSegment functions) : List Payload :=
  match segment.body with
  | .persistent values => values.take segment.count
  | .transient state => (List.range segment.count).map (functions.fetchRow state)

/-- `ColumnSegment::RevertAppend`. -/
def revertAppend (segment : FilledSegment functions) (startRow : Nat) :
    FilledSegment functions where
  start := segment.start
  count := startRow - segment.start
  body :=
    match segment.body with
    | .persistent values => .persistent values
    | .transient state => .transient (functions.revertAppend state segment.start startRow)

end FilledSegment

namespace FilledColumn

variable {functions : SegmentFunctions}

def nodes (column : FilledColumn functions) : List SegmentNode :=
  column.data.map FilledSegment.node

/-- The rows of a column, over all segments. -/
def values (column : FilledColumn functions) : List Payload :=
  column.data.flatMap FilledSegment.values

/-- `ColumnData::InitializeAppend`. -/
def initializeAppend (column : FilledColumn functions) : FilledColumn functions :=
  match column.data.getLast? with
  | none => { column with data := [.createTransient functions column.start] }
  | some last =>
      match last.body with
      | .persistent _ =>
          { column with
            data := column.data ++ [.createTransient functions (last.start + last.count)] }
      | .transient _ => column

/--
The loop of `AppendData`, with the segments in front of the current one; the count of the column
goes up by what each segment takes.
-/
def appendLoop (functions : SegmentFunctions) (data : ScannedFormat) :
    Nat → List (FilledSegment functions) → Nat → Nat → functions.State → Nat → Nat → Nat →
      List (FilledSegment functions) × Nat
  | 0, front, start, held, state, _, _, total => (front ++ [⟨start, held, .transient state⟩], total)
  | fuel + 1, front, start, held, state, offset, appendCount, total =>
      let (after, copied) := functions.append state held data offset appendCount
      let segments := front ++ [⟨start, held + copied, .transient after⟩]
      if copied = appendCount then (segments, total + copied)
      else
        appendLoop functions data fuel segments (start + (held + copied)) 0
          (functions.initSegment (start + (held + copied))) (offset + copied)
          (appendCount - copied) (total + copied)

/-- `ColumnData::AppendData` to the current segment, which is the last one. -/
def appendData (column : FilledColumn functions) (data : ScannedFormat) (appendCount : Nat) :
    FilledColumn functions :=
  match column.data.getLast? with
  | some ⟨start, held, .transient state⟩ =>
      let appended := appendLoop functions data (appendCount + 2) column.data.dropLast start held
        state 0 appendCount column.count
      { column with data := appended.1, count := appended.2 }
  | _ => column

/-- `ColumnData::RevertAppend`. -/
def revertAppend (column : FilledColumn functions) (startRow : Nat) :
    Except String (FilledColumn functions) :=
  match column.data.getLast? with
  | none => pure column
  | some last =>
      if last.start + last.count ≤ startRow then pure column
      else do
        let index ← SegmentTree.getSegmentIndex column.nodes startRow
        let data :=
          match column.data[index]? with
          | none => column.data
          | some segment =>
              if segment.start = startRow then column.data.take index
              else column.data.take index ++ [segment.revertAppend startRow]
        pure { column with data, count := startRow - column.start }

end FilledColumn

/-! ## Well-formed columns -/

namespace FilledSegment

variable {functions : SegmentFunctions} {Held : functions.State → Nat → Nat → Prop}

/-- A persistent segment has its rows, of which there are some, and a transient one holds them. -/
def WellFormed (Held : functions.State → Nat → Nat → Prop) (segment : FilledSegment functions) :
    Prop :=
  match segment.body with
  | .persistent values => 0 < segment.count ∧ segment.count ≤ values.length
  | .transient state => Held state segment.start segment.count

theorem WellFormed.length_values {segment : FilledSegment functions}
    (wellFormed : segment.WellFormed Held) : segment.values.length = segment.count := by
  obtain ⟨start, count, body⟩ := segment
  cases body with
  | persistent values => exact List.length_take_of_le wellFormed.2
  | transient state => exact (List.length_map _).trans List.length_range

end FilledSegment

namespace FilledColumn

variable {functions : SegmentFunctions} {Held : functions.State → Nat → Nat → Prop}
  {segment : FilledSegment functions} {column : FilledColumn functions}

/-- The segments follow each other from the start on, and only the last can be without rows. -/
structure WellFormed (Held : functions.State → Nat → Nat → Prop)
    (column : FilledColumn functions) : Prop where
  contiguous : SegmentTree.Contiguous column.start column.nodes
  count_eq : column.count = (column.nodes.map SegmentNode.count).sum
  segments : ∀ segment ∈ column.data, segment.WellFormed Held
  nonempty : ∀ segment ∈ column.data.dropLast, 0 < segment.count

theorem sum_count {data : List (FilledSegment functions)}
    (segments : ∀ segment ∈ data, segment.WellFormed Held) :
    ((data.map FilledSegment.node).map SegmentNode.count).sum =
      (data.flatMap FilledSegment.values).length := by
  induction data with
  | nil => rfl
  | cons head rest ih =>
      rw [List.map_cons, List.map_cons, List.sum_cons, List.flatMap_cons, List.length_append,
        (segments head List.mem_cons_self).length_values,
        ih fun segment member => segments segment (List.mem_cons_of_mem _ member)]
      rfl

theorem contiguous_append {front back : List (FilledSegment functions)}
    (segments : ∀ segment ∈ front, segment.WellFormed Held) :
    SegmentTree.Contiguous start ((front ++ back).map FilledSegment.node) ↔
      SegmentTree.Contiguous start (front.map FilledSegment.node) ∧
      SegmentTree.Contiguous (start + (front.flatMap FilledSegment.values).length)
        (back.map FilledSegment.node) := by
  rw [List.map_append, SegmentTree.contiguous_append, sum_count segments]

theorem contiguous_singleton :
    SegmentTree.Contiguous start ([segment].map FilledSegment.node) ↔ segment.start = start :=
  and_iff_left trivial

section WellFormed

variable {column : FilledColumn functions} (wellFormed : column.WellFormed Held)

include wellFormed

theorem WellFormed.count_values : column.count = column.values.length := by
  rw [wellFormed.count_eq]
  exact sum_count wellFormed.segments

/-- The column in front of its last segment, which ends where the column does. -/
theorem WellFormed.last {last : FilledSegment functions}
    (hlast : column.data.getLast? = some last) :
    ∃ front, column.data = front ++ [last] ∧
      last.start = column.start + (front.flatMap FilledSegment.values).length ∧
      last.start + last.count = column.start + column.count := by
  obtain ⟨front, hdata⟩ := List.getLast?_eq_some_iff.mp hlast
  have segments := wellFormed.segments
  have contiguous := wellFormed.contiguous
  rw [nodes, hdata, contiguous_append fun segment member =>
    segments segment (hdata ▸ List.mem_append_left _ member)] at contiguous
  refine ⟨front, hdata, contiguous.2.1, ?_⟩
  have length := (segments last (hdata ▸ List.mem_append_right _ List.mem_cons_self)).length_values
  rw [wellFormed.count_values, values, hdata, List.flatMap_append, List.length_append,
    List.flatMap_singleton, length, ← Nat.add_assoc, ← contiguous.2.1]
  rfl

end WellFormed

/-! ## What an append does -/

/-- The rows of a vector can be found among those that were added for it. -/
def Added (functions : SegmentFunctions) (data : ScannedFormat) (offset : Nat)
    (added : List Payload) : Prop :=
  ∀ row < added.length, ∀ value ∈ functions.valueOf data (offset + row), added[row]? = some value

theorem added_append {data : ScannedFormat} {offset : Nat} {first second : List Payload}
    (before : Added functions data offset first)
    (behind : Added functions data (offset + first.length) second) :
    Added functions data offset (first ++ second) := by
  intro row below value expected
  rw [List.length_append] at below
  rcases Nat.lt_or_ge row first.length with inside | outside
  · rw [List.getElem?_append_left inside]
    exact before row inside value expected
  · rw [List.getElem?_append_right outside]
    refine behind _ (by omega) value ?_
    rwa [Nat.add_assoc, Nat.add_sub_cancel' outside]

variable {Ready : functions.State → Nat → Prop} (laws : SegmentLaws functions Ready Held)

include laws

/-- The rows that a segment takes are behind those it held. -/
theorem fetchRows_append {state : functions.State} {held : Nat} (data : ScannedFormat)
    (offset appendCount : Nat) (holds : Held state start held) :
    let appended := functions.append state held data offset appendCount
    ∃ added, (List.range (held + appended.2)).map (functions.fetchRow appended.1) =
        (List.range held).map (functions.fetchRow state) ++ added ∧
      added.length = appended.2 ∧
      (Ready state held → Added functions data offset added) := by
  intro appended
  refine ⟨(List.range appended.2).map fun row => functions.fetchRow appended.1 (held + row), ?_,
    ?_, fun ready row below value expected => ?_⟩
  · rw [List.range_add, List.map_append, List.map_map]
    congr 1
    refine List.map_congr_left fun row member => ?_
    exact laws.append_keeps state start held data offset appendCount holds row
      (List.mem_range.mp member)
  · rw [List.length_map, List.length_range]
  · rw [List.length_map, List.length_range] at below
    rw [List.getElem?_map, List.getElem?_range below]
    exact congrArg some (laws.append_reads state start held data offset appendCount holds ready row
      below value expected)

/-- What the loop of an append leaves, from an empty or a filled current segment on. -/
structure Filled (Held : functions.State → Nat → Nat → Prop) (origin : Nat)
    (before : List Payload) (data : ScannedFormat) (offset appendCount : Nat) (ready : Prop)
    (result : List (FilledSegment functions)) : Prop where
  contiguous : SegmentTree.Contiguous origin (result.map FilledSegment.node)
  segments : ∀ segment ∈ result, segment.WellFormed Held
  nonempty : ∀ segment ∈ result.dropLast, 0 < segment.count
  rows : ∃ added, result.flatMap FilledSegment.values = before ++ added ∧
    added.length = appendCount ∧ (ready → Added functions data offset added)

/-- By induction on the fuel; only a segment that holds rows can take none. -/
theorem appendLoop_spec (data : ScannedFormat) (fuel : Nat)
    (front : List (FilledSegment functions)) (start held : Nat) (state : functions.State)
    (offset appendCount total : Nat) {origin : Nat}
    (enough : appendCount + (if held = 0 then 0 else 1) < fuel)
    (contiguous : SegmentTree.Contiguous origin
      ((front ++ [FilledSegment.mk start held (.transient state)]).map FilledSegment.node))
    (segments : ∀ segment ∈ front, segment.WellFormed Held ∧ 0 < segment.count)
    (holds : Held state start held) :
    let result := appendLoop functions data fuel front start held state offset appendCount total
    result.2 = total + appendCount ∧
      Filled Held origin
        ((front ++ [FilledSegment.mk start held (.transient state)]).flatMap FilledSegment.values)
        data offset appendCount (Ready state held) result.1 := by
  induction fuel generalizing front start held state offset appendCount total with
  | zero => exact absurd enough (Nat.not_lt_zero _)
  | succ fuel ih =>
      have front_wellFormed := fun segment member => (segments segment member).1
      obtain ⟨added, rows, length, reads⟩ := fetchRows_append laws data offset appendCount holds
      have held_after := laws.append_held state start held data offset appendCount holds
      have copied_le := laws.append_le state start held data offset appendCount holds
      have takes : held = 0 → 0 < appendCount →
          0 < (functions.append state held data offset appendCount).2 := by
        rintro rfl positive
        exact laws.append_pos state start data offset appendCount holds positive
      rw [appendLoop]
      generalize functions.append state held data offset appendCount = appended at *
      obtain ⟨after, copied⟩ := appended
      dsimp only at rows length reads held_after copied_le takes ⊢
      have starts := contiguous
      rw [contiguous_append front_wellFormed, contiguous_singleton] at starts
      obtain ⟨filled, hfilled⟩ : ∃ filled : FilledSegment functions,
          filled = .mk start (held + copied) (.transient after) := ⟨_, rfl⟩
      have filled_held : filled.WellFormed Held := by
        rw [hfilled]
        exact held_after
      rw [← hfilled]
      have filled_wellFormed : ∀ segment ∈ front ++ [filled],
          segment.WellFormed Held := by
        intro segment member
        rcases List.mem_append.mp member with earlier | last
        · exact front_wellFormed segment earlier
        · rw [List.mem_singleton.mp last]
          exact filled_held
      have filled_contiguous : SegmentTree.Contiguous origin
          ((front ++ [filled]).map FilledSegment.node) := by
        rw [contiguous_append front_wellFormed, contiguous_singleton, hfilled]
        exact starts
      have filled_rows :
          (front ++ [filled]).flatMap FilledSegment.values =
            (front ++ [FilledSegment.mk start held (.transient state)]).flatMap
              FilledSegment.values ++ added := by
        rw [List.flatMap_append, List.flatMap_append, List.flatMap_singleton,
          List.flatMap_singleton, List.append_assoc]
        rw [hfilled]
        exact congrArg _ rows
      split
      · rename_i finished
        subst finished
        refine ⟨rfl, filled_contiguous, filled_wellFormed, ?_, added, filled_rows, length, reads⟩
        rw [List.dropLast_concat]
        exact fun segment member => (segments segment member).2
      · rename_i unfinished
        have nonempty : 0 < held + copied := by
          by_contra none
          obtain ⟨-, -⟩ := Nat.add_eq_zero_iff.mp (Nat.eq_zero_of_not_pos none)
          omega
        have shorter : appendCount - copied + (if 0 = 0 then 0 else 1) < fuel := by
          rw [if_pos rfl]
          by_cases fresh : held = 0
          · rw [if_pos fresh] at enough
            omega
          · rw [if_neg fresh] at enough
            omega
        have next_contiguous : SegmentTree.Contiguous origin
            (((front ++ [filled]) ++
              [FilledSegment.createTransient functions (start + (held + copied))]).map
                FilledSegment.node) := by
          rw [contiguous_append filled_wellFormed, contiguous_singleton]
          refine ⟨filled_contiguous, ?_⟩
          rw [List.flatMap_append, List.length_append, List.flatMap_singleton,
            filled_held.length_values, hfilled, ← Nat.add_assoc origin, ← starts.2]
          rfl
        have next_segments : ∀ segment ∈ front ++ [filled],
            segment.WellFormed Held ∧ 0 < segment.count := by
          intro segment member
          refine ⟨filled_wellFormed segment member, ?_⟩
          rcases List.mem_append.mp member with earlier | last
          · exact (segments segment earlier).2
          · rw [List.mem_singleton.mp last, hfilled]
            exact nonempty
        have fresh := laws.init_held (start + (held + copied))
        obtain ⟨total_eq, rest⟩ := ih _ _ 0 _ (offset + copied) (appendCount - copied)
          (total + copied) shorter next_contiguous next_segments fresh
        obtain ⟨more, more_rows, more_length, more_reads⟩ := rest.rows
        refine ⟨by omega, rest.contiguous, rest.segments, rest.nonempty, added ++ more, ?_, ?_,
          fun ready => ?_⟩
        · rw [more_rows, List.flatMap_append, filled_rows, List.flatMap_singleton,
            ← List.append_assoc]
          simp [FilledSegment.values]
        · rw [List.length_append, length, more_length]
          omega
        · refine added_append (reads ready) ?_
          rw [length]
          exact more_reads (laws.empty_ready _ _ fresh)

/-- The last segment can be appended to, or a new one is created behind it. -/
def LastReady (Ready : functions.State → Nat → Prop) (column : FilledColumn functions) : Prop :=
  ∀ last ∈ column.data.getLast?, ∀ state, last.body = .transient state → Ready state last.count

omit laws in
theorem values_createTransient (start : Nat) :
    (FilledSegment.createTransient functions start).values = [] :=
  rfl

/-- Afterwards the last segment is a transient one, and the rows are the same. -/
theorem initializeAppend_spec (wellFormed : column.WellFormed Held) :
    column.initializeAppend.WellFormed Held ∧ column.initializeAppend.start = column.start ∧
      column.initializeAppend.count = column.count ∧
      column.initializeAppend.values = column.values ∧
      (column.LastReady Ready → column.initializeAppend.LastReady Ready) ∧
      ∃ front start held state,
        column.initializeAppend.data = front ++ [⟨start, held, .transient state⟩] := by
  obtain ⟨contiguous, count_eq, segments, nonempty⟩ := wellFormed
  have created : ∀ start, (FilledSegment.createTransient functions start).WellFormed Held :=
    laws.init_held
  rw [initializeAppend]
  split
  · rename_i absent
    have none := List.getLast?_eq_none_iff.mp absent
    rw [nodes, none] at count_eq
    refine ⟨⟨contiguous_singleton.mpr rfl, count_eq, ?_, fun segment member => ?_⟩, rfl, rfl, ?_,
      ?_, [], column.start, 0, _, rfl⟩
    · intro segment member
      rw [List.mem_singleton.mp member]
      exact created column.start
    · cases member
    · rw [values, values, none]
      rfl
    · rintro - last ⟨⟩ state ⟨⟩
      exact laws.empty_ready _ _ (laws.init_held column.start)
  · rename_i last hlast
    obtain ⟨front, hdata, -, stop⟩ :=
      WellFormed.last ⟨contiguous, count_eq, segments, nonempty⟩ hlast
    split
    · rename_i persistent hbody
      refine ⟨⟨?_, ?_, ?_, ?_⟩, rfl, rfl, ?_, ?_, column.data, _, 0, _, rfl⟩
      · rw [nodes, contiguous_append segments, contiguous_singleton]
        refine ⟨contiguous, stop.trans ?_⟩
        rw [← sum_count segments, count_eq]
        rfl
      · rw [count_eq, nodes, nodes, List.map_append, List.map_append, List.sum_append]
        rfl
      · intro segment member
        rcases List.mem_append.mp member with earlier | new
        · exact segments segment earlier
        · rw [List.mem_singleton.mp new]
          exact created _
      · intro segment member
        rw [List.dropLast_concat, hdata] at member
        rcases List.mem_append.mp member with earlier | final
        · refine nonempty segment ?_
          rwa [hdata, List.dropLast_concat]
        · have holds := segments last (List.mem_of_getLast? hlast)
          rw [FilledSegment.WellFormed, hbody] at holds
          rw [List.mem_singleton.mp final]
          exact holds.1
      · rw [values, List.flatMap_append, List.flatMap_singleton, values_createTransient,
          List.append_nil]
        rfl
      · rintro - new hnew state hstate
        rw [List.getLast?_concat] at hnew
        cases hnew
        cases hstate
        exact laws.empty_ready _ _ (laws.init_held _)
    · rename_i state hbody
      refine ⟨⟨contiguous, count_eq, segments, nonempty⟩, rfl, rfl, rfl, id, front, last.start,
        last.count, state, ?_⟩
      rw [hdata, ← hbody]

/-- An append writes the vector behind the rows of the column. -/
theorem appendData_spec (wellFormed : column.WellFormed Held) (data : ScannedFormat)
    (appendCount : Nat) :
    let appended := column.initializeAppend.appendData data appendCount
    appended.WellFormed Held ∧ appended.start = column.start ∧
      appended.count = column.count + appendCount ∧
      ∃ added, appended.values = column.values ++ added ∧ added.length = appendCount ∧
        (column.LastReady Ready → Added functions data 0 added) := by
  obtain ⟨initialized, start_eq, count_eq, values_eq, ready, front, start, held, state, hdata⟩ :=
    initializeAppend_spec laws wellFormed
  have enough : appendCount + (if held = 0 then 0 else 1) < appendCount + 2 := by
    split <;> omega
  have last : column.initializeAppend.data.getLast? = some ⟨start, held, .transient state⟩ := by
    rw [hdata, List.getLast?_concat]
  have dropLast : column.initializeAppend.data.dropLast = front := by
    rw [hdata, List.dropLast_concat]
  have contiguous := initialized.contiguous
  rw [nodes, hdata] at contiguous
  have segments : ∀ segment ∈ front, segment.WellFormed Held ∧ 0 < segment.count := by
    intro segment member
    refine ⟨initialized.segments segment ?_, initialized.nonempty segment ?_⟩
    · rw [hdata]
      exact List.mem_append_left _ member
    · rwa [dropLast]
  have holds : Held state start held := initialized.segments ⟨start, held, .transient state⟩
    (List.mem_of_getLast? last)
  obtain ⟨total_eq, filled⟩ := appendLoop_spec laws data (appendCount + 2) front start held state 0
    appendCount column.initializeAppend.count enough contiguous segments holds
  have appended_eq : column.initializeAppend.appendData data appendCount =
      { column.initializeAppend with
        data := (appendLoop functions data (appendCount + 2) front start held state 0 appendCount
          column.initializeAppend.count).1
        count := (appendLoop functions data (appendCount + 2) front start held state 0 appendCount
          column.initializeAppend.count).2 } := by
    rw [appendData, last, dropLast]
  intro appended
  obtain ⟨added, rows, length, reads⟩ := filled.rows
  rw [← hdata] at rows
  have values_appended : appended.values = column.values ++ added := by
    rw [← values_eq]
    change (column.initializeAppend.appendData data appendCount).values = _
    rw [appended_eq]
    exact rows
  have count_appended : appended.count = column.count + appendCount := by
    change (column.initializeAppend.appendData data appendCount).count = _
    rw [appended_eq, ← count_eq]
    exact total_eq
  refine ⟨?_, ?_, count_appended, added, values_appended, length, fun lastReady => ?_⟩
  · have total : appended.count = (appended.values).length := by
      rw [count_appended, values_appended, List.length_append, length, wellFormed.count_values]
    rw [values] at total
    change (column.initializeAppend.appendData data appendCount).WellFormed Held
    change (column.initializeAppend.appendData data appendCount).count =
      ((column.initializeAppend.appendData data appendCount).data.flatMap
        FilledSegment.values).length at total
    rw [appended_eq] at total ⊢
    exact ⟨filled.contiguous, total.trans (sum_count filled.segments).symm, filled.segments,
      filled.nonempty⟩
  · change (column.initializeAppend.appendData data appendCount).start = _
    rw [appended_eq]
    exact start_eq
  · exact reads (ready lastReady _ last state rfl)

/-- Where the last segment cannot be appended to, some row is read wrongly afterwards. -/
theorem appendData_misread (wellFormed : column.WellFormed Held)
    (unready : ¬column.LastReady Ready) :
    ∃ data, ∃ value ∈ functions.valueOf data 0,
      (column.initializeAppend.appendData data 1).values[column.count]? ≠ some value := by
  rw [LastReady] at unready
  push Not at unready
  obtain ⟨⟨start, held, body⟩, hlast, state, rfl, unready⟩ := unready
  obtain ⟨front, hdata, starts, stop⟩ := wellFormed.last hlast
  have holds : Held state start held := wellFormed.segments ⟨start, held, .transient state⟩
    (List.mem_of_getLast? hlast)
  obtain ⟨data, taken, value, expected, misread⟩ := laws.not_ready state start held holds unready
  refine ⟨data, value, expected, fun reads => misread ?_⟩
  have initialized : column.initializeAppend = column := by
    rw [initializeAppend, hlast]
  have appended : (column.initializeAppend.appendData data 1).data =
      front ++ [⟨start, held + 1, .transient (functions.append state held data 0 1).1⟩] := by
    rw [initialized, appendData, hlast, hdata, List.dropLast_concat]
    dsimp only
    rw [appendLoop]
    dsimp only
    rw [taken, if_pos rfl]
  have position : column.count = (front.flatMap FilledSegment.values).length + held := by
    dsimp only at starts stop
    omega
  rw [values, appended, List.flatMap_append, position,
    List.getElem?_append_right (Nat.le_add_right _ _), Nat.add_sub_cancel_left,
    List.flatMap_singleton] at reads
  change ((List.range (held + 1)).map _)[held]? = some value at reads
  rw [List.getElem?_map, List.getElem?_range (Nat.lt_succ_self held)] at reads
  exact Option.some.inj reads

/-! ## What a revert does -/

/-- The segment that holds the row in front of a row can be appended to from there on. -/
def RevertReady (Ready : functions.State → Nat → Prop) (column : FilledColumn functions)
    (startRow : Nat) : Prop :=
  ∀ segment ∈ column.data, ∀ state, segment.body = .transient state →
    segment.start < startRow → startRow ≤ segment.start + segment.count →
      Ready state (startRow - segment.start)

omit laws in
/-- Only one segment holds the row in front of a row. -/
theorem revertReady_iff (wellFormed : column.WellFormed Held) {index : Nat}
    (hindex : column.data[index]? = some segment) (low : segment.start < startRow)
    (high : startRow ≤ segment.start + segment.count) :
    column.RevertReady Ready startRow ↔
      ∀ state, segment.body = .transient state → Ready state (startRow - segment.start) := by
  constructor
  · intro ready state hstate
    exact ready segment (List.mem_of_getElem? hindex) state hstate low high
  · intro ready other member state hstate otherLow otherHigh
    obtain ⟨otherIndex, hother⟩ := List.getElem?_of_mem member
    have node_at : ∀ {index : Nat} {segment : FilledSegment functions},
        column.data[index]? = some segment → column.nodes[index]? = some segment.node := by
      intro index segment hindex
      rw [nodes, List.getElem?_map, hindex]
      rfl
    have holds : ∀ {segment : FilledSegment functions}, segment.start < startRow →
        startRow ≤ segment.start + segment.count → segment.node.Holds (startRow - 1) := by
      intro segment low high
      change segment.start ≤ startRow - 1 ∧ startRow - 1 < segment.start + segment.count
      omega
    have same := wellFormed.contiguous.sorted.holds_unique (node_at hindex) (node_at hother)
      (holds low high) (holds otherLow otherHigh)
    rw [← same, hindex] at hother
    cases hother
    exact ready state hstate

omit laws in
/-- The segment of a row of the column, with those in front of it and behind it. -/
theorem exists_segment (wellFormed : column.WellFormed Held) {row : Nat} (low : column.start ≤ row)
    (high : row < column.start + column.count) :
    ∃ front segment back, column.data = front ++ segment :: back ∧
      segment.start ≤ row ∧ row < segment.start + segment.count ∧
      segment.start = column.start + (front.flatMap FilledSegment.values).length ∧
      SegmentTree.getSegmentIndex column.nodes row = .ok front.length ∧
      column.data[front.length]? = some segment := by
  have total : row < column.start + (column.nodes.map SegmentNode.count).sum := by
    rw [← wellFormed.count_eq]
    exact high
  obtain ⟨front, segment, back, hdata, holds, hstart, found, -, index⟩ :=
    wellFormed.contiguous.getSegmentIndex low total
  refine ⟨front, segment, back, hdata, holds.1, holds.2, hstart.trans ?_, index, found⟩
  rw [sum_count fun segment member =>
    wellFormed.segments segment (hdata ▸ List.mem_append_left _ member)]

/-- A segment keeps its first rows, and can be appended to where it could be from there on. -/
theorem revertSegment_spec (holds : segment.WellFormed Held) (low : segment.start < startRow)
    (high : startRow ≤ segment.start + segment.count) :
    (segment.revertAppend startRow).WellFormed Held ∧
      (segment.revertAppend startRow).values =
        segment.values.take (startRow - segment.start) ∧
      ((∀ state, (segment.revertAppend startRow).body = .transient state →
          Ready state (startRow - segment.start)) ↔
        ∀ state, segment.body = .transient state → Ready state (startRow - segment.start)) := by
  obtain ⟨start, count, body⟩ := segment
  dsimp only at low high ⊢
  have positive : 0 < startRow - start := by omega
  have le : startRow - start ≤ count := by omega
  cases body with
  | persistent rows =>
      refine ⟨⟨positive, le.trans holds.2⟩, ?_, ?_⟩
      · change rows.take (startRow - start) = (rows.take count).take (startRow - start)
        rw [List.take_take, min_eq_left le]
      · refine iff_of_true ?_ ?_
        · rintro _ ⟨⟩
        · rintro _ ⟨⟩
  | transient state =>
      have target : start + (startRow - start) = startRow := by omega
      have held := laws.revert_held state start count _ holds positive le
      have keeps := laws.revert_keeps state start count _ holds le
      have ready := laws.revert_ready state start count _ holds le
      rw [target] at held keeps ready
      refine ⟨held, ?_, ?_⟩
      · change (List.range (startRow - start)).map _ =
          ((List.range count).map (functions.fetchRow state)).take (startRow - start)
        rw [← List.map_take, List.take_range, min_eq_left le]
        exact List.map_congr_left fun row member => keeps row (List.mem_range.mp member)
      · constructor
        · rintro given _ ⟨⟩
          exact ready.mp (given _ rfl)
        · rintro given _ ⟨⟩
          exact ready.mpr (given state rfl)

/-- The revert finds the segment of the start row and cuts the column off there. -/
theorem revertAppend_spec (wellFormed : column.WellFormed Held) (low : column.start ≤ startRow)
    (high : startRow < column.start + column.count) :
    ∃ reverted, column.revertAppend startRow = .ok reverted ∧ reverted.WellFormed Held ∧
      reverted.start = column.start ∧ reverted.count = startRow - column.start ∧
      (∀ segment ∈ reverted.data, 0 < segment.count) ∧
      reverted.values = column.values.take (startRow - column.start) ∧
      (reverted.LastReady Ready ↔ column.RevertReady Ready startRow) := by
  obtain ⟨front, segment, back, hdata, from_start, below_stop, hstart, index, hindex⟩ :=
    exists_segment wellFormed low high
  have front_segments : ∀ segment ∈ front, segment.WellFormed Held := fun segment member =>
    wellFormed.segments segment (hdata ▸ List.mem_append_left _ member)
  have front_nonempty : ∀ segment ∈ front, 0 < segment.count := by
    intro other member
    refine wellFormed.nonempty other ?_
    rw [hdata, List.dropLast_append_of_ne_nil (List.cons_ne_nil _ _)]
    exact List.mem_append_left _ member
  have holds : segment.WellFormed Held :=
    wellFormed.segments segment (hdata ▸ List.mem_append_right _ List.mem_cons_self)
  have contiguous := wellFormed.contiguous
  rw [nodes, hdata, contiguous_append front_segments] at contiguous
  have rows : column.values = front.flatMap FilledSegment.values ++
      (segment.values ++ back.flatMap FilledSegment.values) := by
    rw [values, hdata, List.flatMap_append, List.flatMap_cons]
  obtain ⟨last, hlast⟩ : ∃ last, column.data.getLast? = some last := by
    rw [hdata]
    exact ⟨_, List.getLast?_eq_some_getLast (by simp)⟩
  obtain ⟨-, -, -, stop⟩ := wellFormed.last hlast
  have inside : ¬last.start + last.count ≤ startRow := by omega
  have take_front : column.data.take front.length = front := by
    rw [hdata, List.take_left]
  have reverted_eq : column.revertAppend startRow = .ok
      { column with
        data :=
          if segment.start = startRow then front else front ++ [segment.revertAppend startRow]
        count := startRow - column.start } := by
    rw [revertAppend, hlast]
    dsimp only
    rw [if_neg inside, index]
    dsimp only [bind, Except.bind, pure, Except.pure]
    rw [hindex]
    dsimp only
    rw [take_front]
  refine ⟨_, reverted_eq, ?_⟩
  by_cases exact_start : segment.start = startRow
  · simp only [if_pos exact_start]
    have length : startRow - column.start = (front.flatMap FilledSegment.values).length := by omega
    refine ⟨⟨contiguous.1, ?_, front_segments, ?_⟩, trivial, trivial, front_nonempty, ?_, ?_⟩
    · exact length.trans (sum_count front_segments).symm
    · exact fun other member => front_nonempty other (List.dropLast_subset _ member)
    · rw [rows, length, List.take_left]
      rfl
    · rcases List.eq_nil_or_concat front with rfl | ⟨before, final, rfl⟩
      · refine iff_of_true ?_ ?_
        · rintro last ⟨⟩
        · intro other member state hstate otherLow
          have first := wellFormed.contiguous.le_rowStart other.node (List.mem_map_of_mem member)
          change column.start ≤ other.start at first
          rw [List.flatMap_nil, List.length_nil] at length
          omega
      · rw [List.concat_eq_append] at *
        have final_holds := front_segments final (List.mem_append_right _ List.mem_cons_self)
        have final_nonempty := front_nonempty final (List.mem_append_right _ List.mem_cons_self)
        have final_start := contiguous.1
        rw [contiguous_append fun other member =>
          front_segments other (List.mem_append_left _ member), contiguous_singleton] at final_start
        rw [List.flatMap_append, List.length_append, List.flatMap_singleton,
          final_holds.length_values] at length
        have final_index : column.data[before.length]? = some final := by
          rw [hdata, List.append_assoc, List.getElem?_append_right le_rfl, Nat.sub_self]
          rfl
        rw [revertReady_iff wellFormed final_index (by omega) (by omega)]
        have final_count : startRow - final.start = final.count := by omega
        rw [final_count, LastReady]
        simp
  · simp only [if_neg exact_start]
    have after : segment.start < startRow := lt_of_le_of_ne from_start exact_start
    obtain ⟨reverted_holds, reverted_values, reverted_ready⟩ :=
      revertSegment_spec laws holds after below_stop.le
    have reverted_segments : ∀ other ∈ front ++ [segment.revertAppend startRow],
        other.WellFormed Held := by
      intro other member
      rcases List.mem_append.mp member with earlier | last
      · exact front_segments other earlier
      · rw [List.mem_singleton.mp last]
        exact reverted_holds
    have kept : (front ++ [segment.revertAppend startRow]).flatMap FilledSegment.values =
        column.values.take (startRow - column.start) := by
      have length : startRow - column.start =
          (front.flatMap FilledSegment.values).length + (startRow - segment.start) := by omega
      have short : startRow - segment.start ≤ segment.values.length := by
        rw [holds.length_values]
        omega
      rw [rows, length, List.take_length_add_append, List.take_append_of_le_length short,
        List.flatMap_append, List.flatMap_singleton, reverted_values]
    refine ⟨⟨?_, ?_, reverted_segments, ?_⟩, trivial, trivial, ?_, kept, ?_⟩
    · rw [nodes, contiguous_append front_segments, contiguous_singleton]
      exact ⟨contiguous.1, hstart⟩
    · refine Eq.trans ?_ (sum_count reverted_segments).symm
      rw [kept, List.length_take, ← wellFormed.count_values]
      dsimp only
      omega
    · rw [List.dropLast_concat]
      exact front_nonempty
    · intro other member
      rcases List.mem_append.mp member with earlier | last
      · exact front_nonempty other earlier
      · rw [List.mem_singleton.mp last]
        exact Nat.sub_pos_of_lt after
    · rw [revertReady_iff wellFormed hindex after below_stop.le, ← reverted_ready, LastReady]
      simp only [List.getLast?_concat, Option.mem_some_iff, forall_eq']
      rfl

end FilledColumn

end StatsRecommender
