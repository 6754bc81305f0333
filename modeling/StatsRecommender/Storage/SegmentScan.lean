import StatsRecommender.Storage.StandardColumnFilter

/-!
# Scans over segments

A scan of a column stands at a row of its current segment.  Filling a vector moves it on, over as
many segments as the vector covers.
-/

namespace StatsRecommender

variable {index : Nat} {node : SegmentNode}

namespace SegmentReader

variable {S : Type}

/--
What a compression function does with its segments: `Standing` tells at which row of a segment its
state stands, and `Done` how much of a result that starts at a row of the column has been filled.
-/
structure Sound (reader : SegmentReader S) (Standing : Nat → S → Nat → Prop) (entireVector : Bool)
    (Done : Nat → NullableVector → Nat → Prop) : Prop where
  init : ∀ (index : Nat) node, reader.nodes[index]? = some node → Standing index reader.initScan 0
  skip : ∀ (index : Nat) node state position skipCount, reader.nodes[index]? = some node →
    Standing index state position → position + skipCount ≤ node.count →
    ∃ state', reader.skip index state skipCount = .ok state' ∧
      Standing index state' (position + skipCount)
  scanVector : entireVector = true → ∀ (index : Nat) node state position scanCount result,
    reader.nodes[index]? = some node → Standing index state position →
    0 < scanCount → position + scanCount ≤ node.count → Done (node.rowStart + position) result 0 →
    ∃ state' result', reader.scanVector index state scanCount result = .ok (state', result') ∧
      Standing index state' (position + scanCount) ∧
      Done (node.rowStart + position) result' scanCount
  scanPartial : entireVector = false → ∀ (index : Nat) node state position scanCount base result
      resultOffset, reader.nodes[index]? = some node → Standing index state position →
    position + scanCount ≤ node.count → base + resultOffset = node.rowStart + position →
    Done base result resultOffset →
    ∃ state' result',
      reader.scanPartial index state scanCount result resultOffset = .ok (state', result') ∧
      Standing index state' (position + scanCount) ∧ Done base result' (resultOffset + scanCount)

/-- Where a scan stands in its column. -/
structure StandsAt (reader : SegmentReader S) (Standing : Nat → S → Nat → Prop)
    (state : ColumnScanState S) (row : Nat) : Prop where
  rowIndex : state.rowIndex = row
  segment : ∃ index node, state.current = some index ∧ reader.nodes[index]? = some node ∧
    node.rowStart ≤ row ∧ row ≤ node.stop ∧
    (state.initialized = true → node.rowStart ≤ state.internalIndex ∧ state.internalIndex ≤ row ∧
      Standing index state.scanState (state.internalIndex - node.rowStart))

/-- The segment of a scan that is about to read. -/
structure ReadyAt (reader : SegmentReader S) (Standing : Nat → S → Nat → Prop)
    (state : ColumnScanState S) (row index : Nat) (node : SegmentNode) : Prop where
  rowIndex : state.rowIndex = row
  initialized : state.initialized = true
  current : state.current = some index
  found : reader.nodes[index]? = some node
  low : node.rowStart ≤ row
  high : row ≤ node.stop
  standing : Standing index state.scanState (row - node.rowStart)

variable {reader : SegmentReader S} {Standing : Nat → S → Nat → Prop} {entireVector : Bool}
  {Done : Nat → NullableVector → Nat → Prop} {state : ColumnScanState S} {row start : Nat}

theorem currentNode_of_current (current : state.current = some index)
    (found : reader.nodes[index]? = some node) : reader.currentNode state = .ok (index, node) := by
  rw [currentNode, current]
  dsimp only
  rw [found]
  rfl

/-- Whether a vector lies in the current segment. -/
theorem scansEntireVector_of_current (current : state.current = some index)
    (found : reader.nodes[index]? = some node) (scanCount : Nat) :
    reader.scansEntireVector state scanCount = .ok (decide (scanCount ≤ node.stop - state.rowIndex)) := by
  rw [scansEntireVector, currentNode_of_current current found]
  rfl

theorem StandsAt.scansEntireVector (stands : reader.StandsAt Standing state row) (scanCount : Nat) :
    ∃ entireVector, reader.scansEntireVector state scanCount = .ok entireVector := by
  obtain ⟨-, index, node, current, found, -⟩ := stands
  exact ⟨_, scansEntireVector_of_current current found scanCount⟩

/-- A scan that has not begun stands at the first row. -/
theorem standsAt_initializeScan (contiguous : SegmentTree.Contiguous start reader.nodes)
    (nonempty : reader.nodes ≠ []) :
    reader.StandsAt Standing reader.initializeScan start := by
  rw [initializeScan]
  cases hnodes : reader.nodes with
  | nil => exact absurd hnodes nonempty
  | cons node rest =>
      rw [hnodes] at contiguous
      refine ⟨contiguous.1, 0, node, rfl, ?_, contiguous.1.le, ?_, fun begun => by cases begun⟩
      · rw [hnodes]
        rfl
      · rw [← contiguous.1]
        exact Nat.le_add_right _ _

section

variable (sound : reader.Sound Standing entireVector Done)
include sound

/-- The state of a segment, initialised or not before, stands at a row that is not ahead. -/
theorem initializeSegment_spec (found : reader.nodes[index]? = some node)
    (low : node.rowStart ≤ row)
    (begun : state.initialized = true → node.rowStart ≤ state.internalIndex ∧
      state.internalIndex ≤ row ∧
      Standing index state.scanState (state.internalIndex - node.rowStart)) :
    ∃ scanState position, reader.initializeSegment node state =
        { state with scanState, internalIndex := node.rowStart + position, initialized := true } ∧
      node.rowStart + position ≤ row ∧ Standing index scanState position := by
  rw [initializeSegment]
  by_cases initialized : state.initialized = true
  · obtain ⟨behind, ahead, standing⟩ := begun initialized
    refine ⟨state.scanState, state.internalIndex - node.rowStart, ?_, by omega, standing⟩
    rw [if_pos initialized, Nat.add_sub_cancel' behind, ← initialized]
  · rw [if_neg initialized]
    exact ⟨reader.initScan, 0, rfl, low, sound.init index node found⟩

/-- Beginning a vector brings the state of the current segment to the row of the scan. -/
theorem beginScanVector_spec (stands : reader.StandsAt Standing state row) :
    ∃ index node scanState, reader.beginScanVector state =
        .ok { state with scanState, internalIndex := row, initialized := true } ∧
      reader.ReadyAt Standing { state with scanState, internalIndex := row, initialized := true }
        row index node := by
  obtain ⟨rfl, index, node, current, found, low, high, begun⟩ := stands
  rw [beginScanVector, currentNode_of_current current found]
  obtain ⟨before, position, initialised, position_le, standing⟩ :=
    initializeSegment_spec sound found low begun
  dsimp only [bind, Except.bind]
  rw [initialised]
  dsimp only
  have ready : ∀ scanState, Standing index scanState (state.rowIndex - node.rowStart) →
      reader.ReadyAt Standing
        { state with scanState, internalIndex := state.rowIndex, initialized := true }
        state.rowIndex index node :=
    fun scanState standing => ⟨rfl, rfl, current, found, low, high, standing⟩
  split
  · rename_i behind
    obtain ⟨scanState, skipped, standing⟩ := sound.skip index node before position
      (state.rowIndex - (node.rowStart + position)) found standing (by rw [SegmentNode.stop] at high; omega)
    rw [skipped]
    refine ⟨index, node, scanState, rfl, ready scanState ?_⟩
    have arrival : position + (state.rowIndex - (node.rowStart + position)) =
        state.rowIndex - node.rowStart := by omega
    rwa [arrival] at standing
  · rename_i arrived
    have arrival : node.rowStart + position = state.rowIndex := by omega
    refine ⟨index, node, before, ?_, ready before ?_⟩
    · rw [arrival]
      rfl
    · rwa [← arrival, Nat.add_sub_cancel_left]

/-- What is read from one segment. -/
theorem scanSegment_spec (found : reader.nodes[index]? = some node) {scanState : S}
    {base resultOffset scanCount : Nat} (low : node.rowStart ≤ base + resultOffset)
    (standing : Standing index scanState (base + resultOffset - node.rowStart))
    (within : base + resultOffset + scanCount ≤ node.stop)
    (entire : entireVector = true → resultOffset = 0) {result : NullableVector}
    (done : Done base result resultOffset) :
    ∃ scanState' result', reader.scanSegment entireVector index scanState result scanCount
        resultOffset = .ok (scanState', result') ∧
      Standing index scanState' (base + resultOffset + scanCount - node.rowStart) ∧
      Done base result' (resultOffset + scanCount) := by
  have place : base + resultOffset - node.rowStart + scanCount =
      base + resultOffset + scanCount - node.rowStart := by omega
  have start_place : node.rowStart + (base + resultOffset - node.rowStart) = base + resultOffset := by
    omega
  have count_bound : base + resultOffset - node.rowStart + scanCount ≤ node.count := by
    rw [SegmentNode.stop] at within
    omega
  rw [scanSegment]
  split
  · rename_i none
    rw [none, Nat.add_zero, Nat.add_zero]
    exact ⟨_, _, rfl, standing, done⟩
  rename_i some_rows
  rw [← place]
  split
  · rename_i whole
    obtain rfl := entire whole
    rw [Nat.add_zero] at start_place
    obtain ⟨scanState', result', scanned, standing', filled⟩ := sound.scanVector whole index node
      scanState _ scanCount result found standing (Nat.pos_of_ne_zero some_rows) count_bound
      (by rw [Nat.add_zero, start_place]; exact done)
    rw [Nat.add_zero, start_place] at filled
    rw [Nat.zero_add]
    exact ⟨scanState', result', scanned, standing', filled⟩
  · rename_i apart
    exact sound.scanPartial (Bool.eq_false_of_not_eq_true apart) index node scanState _ scanCount base
      result resultOffset found standing count_bound start_place.symm done

/-- The loop over the segments fills the result and stands behind the rows it read. -/
theorem scanSegments_spec (base : Nat) (nodes : List SegmentNode) (index : Nat)
    (state : ColumnScanState S) (result : NullableVector) (remaining resultOffset : Nat)
    (left : reader.nodes.drop index = nodes)
    (contiguous : SegmentTree.Contiguous node.rowStart nodes)
    (ready : reader.ReadyAt Standing state (base + resultOffset) index node)
    (inside : base + resultOffset + remaining ≤ node.rowStart + (nodes.map SegmentNode.count).sum)
    (entire : entireVector = true →
      resultOffset = 0 ∧ base + remaining ≤ node.stop) (done : Done base result resultOffset) :
    ∃ state' result' index' node',
      reader.scanSegments entireVector nodes index state result remaining resultOffset =
        .ok (state', result') ∧
      reader.ReadyAt Standing state' (base + (resultOffset + remaining)) index' node' ∧
      Done base result' (resultOffset + remaining) := by
  induction nodes generalizing index state result remaining resultOffset node with
  | nil =>
      obtain ⟨bound, -⟩ := List.getElem?_eq_some_iff.mp ready.found
      rw [List.drop_eq_nil_iff] at left
      omega
  | cons head rest ih =>
      obtain ⟨bound, hnode⟩ := List.getElem?_eq_some_iff.mp ready.found
      rw [List.drop_eq_getElem_cons bound, hnode] at left
      obtain ⟨rfl, hrest⟩ := List.cons.inj left
      rw [scanSegments]
      by_cases nothing : remaining = 0
      · rw [if_pos nothing, nothing, Nat.add_zero]
        exact ⟨state, result, index, node, rfl, ready, done⟩
      rw [if_neg nothing, ready.rowIndex]
      obtain ⟨scanCount, hscanCount⟩ :
          ∃ scanCount, scanCount = min remaining (node.stop - (base + resultOffset)) := ⟨_, rfl⟩
      rw [← hscanCount]
      dsimp only
      have low := ready.low
      have high := ready.high
      have within : base + resultOffset + scanCount ≤ node.stop := by
        have := Nat.min_le_right remaining (node.stop - (base + resultOffset))
        omega
      obtain ⟨scanState, result', scanned, standing, filled⟩ := scanSegment_spec sound ready.found
        ready.low ready.standing within (fun whole => (entire whole).1) done
      rw [scanned]
      dsimp only [bind, Except.bind]
      by_cases last : remaining - scanCount = 0
      · rw [if_pos (by rw [last]; rfl)]
        have all : scanCount = remaining := by omega
        refine ⟨_, _, index, node, rfl, ⟨?_, ready.initialized, ready.current, ready.found, ?_, ?_, ?_⟩, ?_⟩
        · dsimp only
          rw [all]
          omega
        · omega
        · rw [all] at within
          omega
        · rw [all] at standing
          rw [← Nat.add_assoc]
          exact standing
        · rw [all] at filled
          exact filled
      have apart : entireVector = false := by
        by_contra entire_vector
        rw [Bool.not_eq_false] at entire_vector
        obtain ⟨rfl, all⟩ := entire entire_vector
        omega
      obtain ⟨-, contiguous⟩ := contiguous
      rw [List.map_cons, List.sum_cons, ← Nat.add_assoc] at inside
      change _ ≤ node.stop + _ at inside
      cases hnext : rest with
      | nil =>
          rw [hnext, List.map_nil, List.sum_nil] at inside
          omega
      | cons second others =>
          rw [if_neg (by simp [last])]
          rw [← hnext]
          have second_start : second.rowStart = node.stop := by
            rw [hnext] at contiguous
            exact contiguous.1
          have second_found : reader.nodes[index + 1]? = some second := by
            rw [← List.head?_drop, hrest, hnext]
            rfl
          have again : resultOffset + scanCount + (remaining - scanCount) = resultOffset + remaining := by
            omega
          rw [← again]
          rw [← second_start] at contiguous inside
          refine ih (index + 1) _ result' (remaining - scanCount) (resultOffset + scanCount) hrest
            contiguous ⟨?_, ready.initialized, rfl, second_found, ?_, ?_, ?_⟩ ?_ ?_ filled
          · exact Nat.add_assoc _ _ _
          · omega
          · rw [SegmentNode.stop]
            omega
          · have nothing_read : base + (resultOffset + scanCount) - second.rowStart = 0 := by omega
            rw [nothing_read]
            exact sound.init _ _ second_found
          · omega
          · rw [apart]
            exact fun impossible => by cases impossible

end

/-- What lies behind the start of a segment. -/
theorem contiguous_drop {nodes : List SegmentNode} (contiguous : SegmentTree.Contiguous start nodes)
    (found : nodes[index]? = some node) :
    SegmentTree.Contiguous node.rowStart (nodes.drop index) ∧
      start ≤ node.rowStart ∧
      node.rowStart + ((nodes.drop index).map SegmentNode.count).sum =
        start + (nodes.map SegmentNode.count).sum := by
  obtain ⟨bound, hnode⟩ := List.getElem?_eq_some_iff.mp found
  have split : nodes = nodes.take index ++ nodes.drop index := (List.take_append_drop _ _).symm
  have sums : (nodes.map SegmentNode.count).sum = ((nodes.take index).map SegmentNode.count).sum +
      ((nodes.drop index).map SegmentNode.count).sum := by
    rw [← List.sum_append, ← List.map_append, ← split]
  rw [split, SegmentTree.contiguous_append] at contiguous
  obtain ⟨-, behind⟩ := contiguous
  have node_start : node.rowStart = start + ((nodes.take index).map SegmentNode.count).sum := by
    rw [List.drop_eq_getElem_cons bound, hnode] at behind
    exact behind.1
  rw [node_start]
  exact ⟨behind, Nat.le_add_right _ _, by rw [sums, Nat.add_assoc]⟩

/-- `ColumnData::ScanVector` fills the result with the rows of a vector. -/
theorem scan_spec (sound : reader.Sound Standing entireVector Done)
    (contiguous : SegmentTree.Contiguous start reader.nodes)
    (stands : reader.StandsAt Standing state row) {scanCount : Nat}
    (inside : row + scanCount ≤ start + (reader.nodes.map SegmentNode.count).sum)
    (entire : entireVector = true → reader.scansEntireVector state scanCount = .ok true)
    (result : NullableVector) (done : Done row result 0) :
    ∃ state' result', reader.scan entireVector state result scanCount = .ok (state', result') ∧
      reader.StandsAt Standing state' (row + scanCount) ∧ Done row result' scanCount := by
  obtain ⟨index, node, scanState, begun, ready⟩ := beginScanVector_spec sound stands
  have lies_within : entireVector = true → 0 = 0 ∧ row + scanCount ≤ node.stop := by
    intro whole
    have fits := entire whole
    rw [scansEntireVector_of_current (show state.current = some index from ready.current) ready.found,
      stands.rowIndex] at fits
    have fits := of_decide_eq_true (Except.ok.inj fits)
    have high := ready.high
    exact ⟨rfl, by omega⟩
  obtain ⟨from_node, -, total⟩ := contiguous_drop contiguous ready.found
  obtain ⟨state', result', index', node', scanned, ready', filled⟩ :=
    scanSegments_spec sound row (reader.nodes.drop index) index _ result scanCount 0 rfl from_node
      ready (by rw [total]; exact inside) lies_within done
  rw [Nat.zero_add] at ready' filled
  rw [scan, begun]
  dsimp only [bind, Except.bind]
  rw [currentNode_of_current ready.current ready.found]
  dsimp only
  rw [scanned]
  refine ⟨_, result', rfl, ⟨ready'.rowIndex, index', node', ready'.current, ready'.found, ready'.low,
    ready'.high, fun _ => ⟨?_, ?_, ?_⟩⟩, filled⟩
  · exact ready'.rowIndex.symm ▸ ready'.low
  · exact ready'.rowIndex.le
  · dsimp only
    rw [ready'.rowIndex]
    exact ready'.standing

/-- The loop over the segments that are skipped. -/
theorem nextSegment_spec (nodes : List SegmentNode) (index : Nat) (state : ColumnScanState S)
    (left : reader.nodes.drop index = nodes)
    (contiguous : SegmentTree.Contiguous node.rowStart nodes) (current : state.current = some index)
    (found : reader.nodes[index]? = some node) (low : node.rowStart ≤ state.rowIndex)
    (begun : state.initialized = true → node.rowStart ≤ state.internalIndex ∧
      state.internalIndex ≤ state.rowIndex ∧
      Standing index state.scanState (state.internalIndex - node.rowStart))
    (inside : state.rowIndex < node.rowStart + (nodes.map SegmentNode.count).sum) :
    reader.StandsAt Standing (nextSegment nodes index state) state.rowIndex := by
  induction nodes generalizing index state node with
  | nil =>
      rw [List.map_nil, List.sum_nil] at inside
      omega
  | cons head rest ih =>
      obtain ⟨bound, hnode⟩ := List.getElem?_eq_some_iff.mp found
      rw [List.drop_eq_getElem_cons bound, hnode] at left
      obtain ⟨rfl, hrest⟩ := List.cons.inj left
      rw [nextSegment]
      split
      · rename_i behind
        obtain ⟨-, contiguous⟩ := contiguous
        rw [List.map_cons, List.sum_cons, ← Nat.add_assoc] at inside
        change _ < node.stop + _ at inside
        cases rest with
        | nil =>
            rw [List.map_nil, List.sum_nil] at inside
            omega
        | cons second others =>
            have second_found : reader.nodes[index + 1]? = some second := by
              rw [← List.head?_drop, hrest]
              rfl
            have second_start : second.rowStart = node.stop := contiguous.1
            rw [← second_start] at contiguous inside behind
            exact ih (index + 1) { state with current := some (index + 1), initialized := false } hrest
              contiguous rfl second_found behind (fun impossible => by cases impossible) inside
      · rename_i before
        exact ⟨rfl, index, node, current, found, low, (Nat.lt_of_not_le before).le, begun⟩

/-- `ColumnScanState::NextInternal` stands behind the rows that it skips. -/
theorem next_spec (contiguous : SegmentTree.Contiguous start reader.nodes)
    (stands : reader.StandsAt Standing state row) {count : Nat}
    (inside : row + count < start + (reader.nodes.map SegmentNode.count).sum) :
    reader.StandsAt Standing (reader.next state count) (row + count) := by
  obtain ⟨rfl, index, node, current, found, low, -, begun⟩ := stands
  obtain ⟨from_node, -, total⟩ := contiguous_drop contiguous found
  have moved : reader.next state count = nextSegment (reader.nodes.drop index) index
      { state with rowIndex := state.rowIndex + count } := by
    cases state
    cases current
    rfl
  rw [moved]
  refine nextSegment_spec (reader.nodes.drop index) index
    { state with rowIndex := state.rowIndex + count } rfl from_node current found
    (low.trans (Nat.le_add_right _ _)) (fun initialized => ?_) (by rw [total]; exact inside)
  obtain ⟨behind, ahead, standing⟩ := begun initialized
  exact ⟨behind, ahead.trans (Nat.le_add_right _ _), standing⟩

end SegmentReader

end StatsRecommender
