import StatsRecommender.Compression.RLE
import StatsRecommender.Library.Arrays
import StatsRecommender.Library.Transition
import StatsRecommender.Types.LogicalType

/-!
# Reading RLE segments

`RLEScanState` walks over the runs of a segment.  Any sequence of scans, partial scans,
selections, skips and fetches reads the values that the segment stands for.
-/

namespace StatsRecommender

variable {scanCount : Nat}

namespace RLE

variable {T : Type}

/-- `Vector`, flat or with its first place for all places. -/
structure ResultVector (T : Type) where
  data : Nat → T
  isConstant : Bool

/-- The value of a row of a vector. -/
def ResultVector.get (vector : ResultVector T) (row : Nat) : T :=
  if vector.isConstant then vector.data 0 else vector.data row

/-- `RLEScanState`; it keeps the runs that match a filter once one was applied. -/
structure RLEScanState where
  entryPos : Nat
  positionInEntry : Nat
  matchingRuns : Option (List Bool)
  matchingRunCount : Nat
  deriving DecidableEq, Repr

namespace RLEScanState

/-- The constructor. -/
def create : RLEScanState := ⟨0, 0, none, 0⟩

/-- `RLEScanState::ForwardToNextRun`. -/
def forwardToNextRun (state : RLEScanState) : RLEScanState :=
  { state with entryPos := state.entryPos + 1, positionInEntry := 0 }

/-- The loop of `RLEScanState::SkipInternal`, over the runs from the current one on. -/
def skipRuns : List (Run T) → RLEScanState → Nat → Except String RLEScanState
  | _, state, 0 => pure state
  | [], _, _ + 1 => throw "behind the runs of the segment"
  | run :: rest, state, skipCount + 1 =>
      let skipAmount := min (skipCount + 1) (run.count - state.positionInEntry)
      let moved := { state with positionInEntry := state.positionInEntry + skipAmount }
      if run.count ≤ moved.positionInEntry then
        skipRuns rest moved.forwardToNextRun (skipCount + 1 - skipAmount)
      else pure moved

/-- `RLEScanState::SkipInternal`. -/
def skipInternal (segment : RLESegment T) (state : RLEScanState) (skipCount : Nat) :
    Except String RLEScanState :=
  skipRuns (segment.entries.drop state.entryPos) state skipCount

/-- `index_pointer[entry_pos]`. -/
def runLength (segment : RLESegment T) (state : RLEScanState) : Nat :=
  (segment.entries[state.entryPos]?.map Run.count).getD 0

/-- `data_pointer[entry_pos]`. -/
def element (segment : RLESegment T) (state : RLEScanState) : Except String T :=
  match segment.entries[state.entryPos]? with
  | none => throw "behind the runs of the segment"
  | some run => pure run.value

end RLEScanState

/-- `CanEmitConstantVector`. -/
def canEmitConstantVector (entireVector : Bool) (position runLength scanCount : Nat) : Bool :=
  if !entireVector then false
  else if scanCount ≠ standardVectorSize then false
  else decide (scanCount ≤ runLength - position)

/-- `RLEScanConstant`. -/
def scanConstant (segment : RLESegment T) (state : RLEScanState) (scanCount : Nat)
    (result : ResultVector T) : Except String (RLEScanState × ResultVector T) := do
  let element ← state.element segment
  let moved := { state with positionInEntry := state.positionInEntry + scanCount }
  let result : ResultVector T := ⟨writeRange result.data 0 1 element, true⟩
  if moved.runLength segment ≤ moved.positionInEntry then pure (moved.forwardToNextRun, result)
  else pure (moved, result)

/-- The loop of `RLEScanPartialInternal`, over the runs from the current one on. -/
def scanRuns : List (Run T) → RLEScanState → (Nat → T) → (resultOffset resultEnd : Nat) →
    Except String (RLEScanState × (Nat → T))
  | [], state, data, resultOffset, resultEnd =>
      if resultOffset < resultEnd then throw "behind the runs of the segment" else pure (state, data)
  | run :: rest, state, data, resultOffset, resultEnd =>
      if resultOffset < resultEnd then
        let runCount := run.count - state.positionInEntry
        let remainingScanCount := resultEnd - resultOffset
        if remainingScanCount < runCount then
          pure ({ state with positionInEntry := state.positionInEntry + remainingScanCount },
            writeRange data resultOffset resultEnd run.value)
        else
          scanRuns rest state.forwardToNextRun
            (writeRange data resultOffset (resultOffset + runCount) run.value)
            (resultOffset + runCount) resultEnd
      else pure (state, data)

/-- `RLEScanPartialInternal`. -/
def scanPartialInternal (entireVector : Bool) (segment : RLESegment T) (state : RLEScanState)
    (scanCount : Nat) (result : ResultVector T) (resultOffset : Nat) :
    Except String (RLEScanState × ResultVector T) := do
  if canEmitConstantVector entireVector state.positionInEntry (state.runLength segment) scanCount then
    scanConstant segment state scanCount result
  else
    let (state, data) ← scanRuns (segment.entries.drop state.entryPos) state result.data resultOffset
      (resultOffset + scanCount)
    pure (state, ⟨data, false⟩)

/-- `RLEScanPartial`. -/
def scanPartial (segment : RLESegment T) (state : RLEScanState) (scanCount : Nat)
    (result : ResultVector T) (resultOffset : Nat) : Except String (RLEScanState × ResultVector T) :=
  scanPartialInternal false segment state scanCount result resultOffset

/-- `RLEScan`. -/
def scan (segment : RLESegment T) (state : RLEScanState) (scanCount : Nat)
    (result : ResultVector T) : Except String (RLEScanState × ResultVector T) :=
  scanPartialInternal true segment state scanCount result 0

/-- The loop of `RLESelect`: the next row of the result, and the index before. -/
def selectLoop (segment : RLESegment T) (vectorCount : Nat) :
    List Nat → RLEScanState → (Nat → T) → Nat → Nat → Except String (RLEScanState × (Nat → T))
  | [], state, data, _, prevIdx => do
      let state ← state.skipInternal segment (vectorCount - prevIdx)
      pure (state, data)
  | nextIdx :: rest, state, data, row, prevIdx =>
      if nextIdx < prevIdx then
        throw "Error in RLESelect - selection vector indices are not ordered"
      else do
        let state ← state.skipInternal segment (nextIdx - prevIdx)
        let element ← state.element segment
        selectLoop segment vectorCount rest state (writeRange data row (row + 1) element) (row + 1)
          nextIdx

/-- `RLESelect`. -/
def select (segment : RLESegment T) (state : RLEScanState) (vectorCount : Nat)
    (result : ResultVector T) (sel : List Nat) : Except String (RLEScanState × ResultVector T) := do
  if canEmitConstantVector true state.positionInEntry (state.runLength segment) vectorCount then
    scanConstant segment state vectorCount result
  else
    let (state, data) ← selectLoop segment vectorCount sel state result.data 0 0
    pure (state, ⟨data, false⟩)

/-- `RLEFetchRow`. -/
def fetchRow (segment : RLESegment T) (rowId : Nat) (result : ResultVector T) (resultIdx : Nat) :
    Except String (ResultVector T) := do
  let state ← RLEScanState.create.skipInternal segment rowId
  let element ← state.element segment
  pure { result with data := writeRange result.data resultIdx (resultIdx + 1) element }

/-! ## Sequences of reads -/

/-- A reader of a segment: its state, how many rows it went over, and the vector it fills. -/
structure Reader (T : Type) where
  state : RLEScanState
  position : Nat
  result : ResultVector T

inductive ReadOperation where
  | scan (scanCount : Nat)
  | scanPartial (scanCount resultOffset : Nat)
  | select (vectorCount : Nat) (sel : List Nat)
  | skip (skipCount : Nat)
  | fetchRow (rowId resultIdx : Nat)

namespace Reader

def create (result : ResultVector T) : Reader T := ⟨.create, 0, result⟩

def step (segment : RLESegment T) (reader : Reader T) :
    ReadOperation → Except String (Reader T)
  | .scan scanCount => do
      let (state, result) ← RLE.scan segment reader.state scanCount reader.result
      pure ⟨state, reader.position + scanCount, result⟩
  | .scanPartial scanCount resultOffset => do
      let (state, result) ←
        RLE.scanPartial segment reader.state scanCount reader.result resultOffset
      pure ⟨state, reader.position + scanCount, result⟩
  | .select vectorCount sel => do
      let (state, result) ← RLE.select segment reader.state vectorCount reader.result sel
      pure ⟨state, reader.position + vectorCount, result⟩
  | .skip skipCount => do
      let state ← reader.state.skipInternal segment skipCount
      pure ⟨state, reader.position + skipCount, reader.result⟩
  | .fetchRow rowId resultIdx => do
      let result ← RLE.fetchRow segment rowId { reader.result with isConstant := false } resultIdx
      pure { reader with result }

/-- The operation stays inside the segment, and selections are increasing. -/
def Inside (segment : RLESegment T) (reader : Reader T) : ReadOperation → Prop
  | .scan scanCount | .scanPartial scanCount _ => reader.position + scanCount ≤ segment.count
  | .select vectorCount sel => reader.position + vectorCount ≤ segment.count ∧
      sel.Pairwise (· ≤ ·) ∧ ∀ index ∈ sel, index < vectorCount
  | .skip skipCount => reader.position + skipCount ≤ segment.count
  | .fetchRow rowId _ => rowId < segment.count

/-- The rows of the segment that an operation returns, with their places in the result. -/
def returned (reader : Reader T) : ReadOperation → List (Nat × Nat)
  | .scan scanCount => (List.range scanCount).map fun row => (reader.position + row, row)
  | .scanPartial scanCount resultOffset =>
      (List.range scanCount).map fun row => (reader.position + row, resultOffset + row)
  | .select _ sel => sel.mapIdx fun index row => (reader.position + row, index)
  | .skip _ => []
  | .fetchRow rowId resultIdx => [(rowId, resultIdx)]

end Reader

/-! ## Positions in a segment -/

/-- The state, moved to another place. -/
def RLEScanState.moveTo (state : RLEScanState) (entry offset : Nat) : RLEScanState :=
  { state with entryPos := entry, positionInEntry := offset }

/-- The state stands at a row of the segment. -/
def RLEScanState.At (segment : RLESegment T) (state : RLEScanState) (position : Nat) : Prop :=
  Run.At segment.entries state.entryPos state.positionInEntry position

/-- The value that a segment stands for at a row. -/
def RLESegment.row (segment : RLESegment T) (position : Nat) : Option T :=
  (Run.expand segment.entries)[position]?

variable {segment : RLESegment T} {state : RLEScanState} {position : Nat}

namespace RLEScanState

theorem At.exists_run (at_position : state.At segment position)
    (inside : position < (Run.expand segment.entries).length) :
    ∃ run, segment.entries[state.entryPos]? = some run ∧ state.positionInEntry < run.count ∧
      segment.entries.drop state.entryPos = run :: segment.entries.drop (state.entryPos + 1) := by
  obtain ⟨run, found, short⟩ := at_position.inside inside
  obtain ⟨bound, rfl⟩ := List.getElem?_eq_some_iff.mp found
  exact ⟨_, found, short, List.drop_eq_getElem_cons bound⟩

/-- The element at a row is the value that the segment stands for. -/
theorem At.element (at_position : state.At segment position)
    (inside : position < (Run.expand segment.entries).length) :
    ∃ value, state.element segment = .ok value ∧ segment.row position = some value := by
  obtain ⟨run, found, short, -⟩ := at_position.exists_run inside
  refine ⟨run.value, ?_, ?_⟩
  · rw [RLEScanState.element, found]
    rfl
  · have value := Run.At.getElem? at_position found (show state.positionInEntry + 0 < run.count from short)
    exact value

/-- Skipping stays at the row it should. -/
theorem skipRuns_spec (proper : Run.Proper segment.entries) (runs : List (Run T))
    (state : RLEScanState) (position skipCount : Nat)
    (left : segment.entries.drop state.entryPos = runs) (at_position : state.At segment position)
    (inside : position + skipCount ≤ (Run.expand segment.entries).length) :
    ∃ entry offset, skipRuns runs state skipCount = .ok (state.moveTo entry offset) ∧
      (state.moveTo entry offset).At segment (position + skipCount) := by
  induction runs generalizing state position skipCount with
  | nil =>
      cases skipCount with
      | zero => exact ⟨state.entryPos, state.positionInEntry, rfl, at_position⟩
      | succ skipCount =>
          obtain ⟨run, -, -, some_left⟩ := at_position.exists_run (by omega)
          rw [left] at some_left
          cases some_left
  | cons run rest ih =>
      cases skipCount with
      | zero => exact ⟨state.entryPos, state.positionInEntry, rfl, at_position⟩
      | succ skipCount =>
          obtain ⟨current, found, short, some_left⟩ := at_position.exists_run (by omega)
          rw [left] at some_left
          obtain ⟨rfl, hrest⟩ := List.cons.inj some_left
          rw [skipRuns]
          dsimp only
          split
          · rename_i exhausted
            obtain ⟨skipAmount, hamount⟩ : ∃ skipAmount,
                skipAmount = run.count - state.positionInEntry := ⟨_, rfl⟩
            have all : min (skipCount + 1) (run.count - state.positionInEntry) = skipAmount := by
              omega
            rw [all]
            have next : (state.moveTo (state.entryPos + 1) 0).At segment (position + skipAmount) :=
              Run.At.leave at_position proper found (by omega)
            obtain ⟨entry, offset, skipped, arrived⟩ := ih (state.moveTo (state.entryPos + 1) 0)
              (position + skipAmount) (skipCount + 1 - skipAmount) hrest.symm next (by omega)
            refine ⟨entry, offset, skipped, ?_⟩
            have same : position + skipAmount + (skipCount + 1 - skipAmount) =
                position + (skipCount + 1) := by omega
            rw [same] at arrived
            exact arrived
          · rename_i unfinished
            have all : min (skipCount + 1) (run.count - state.positionInEntry) = skipCount + 1 := by
              omega
            rw [all] at unfinished ⊢
            exact ⟨state.entryPos, state.positionInEntry + (skipCount + 1), rfl,
              Run.At.stay at_position found (Nat.lt_of_not_le unfinished)⟩

theorem At.skipInternal (at_position : state.At segment position)
    (proper : Run.Proper segment.entries) {skipCount : Nat}
    (inside : position + skipCount ≤ (Run.expand segment.entries).length) :
    ∃ entry offset, state.skipInternal segment skipCount = .ok (state.moveTo entry offset) ∧
      (state.moveTo entry offset).At segment (position + skipCount) :=
  skipRuns_spec proper _ state position skipCount rfl at_position inside

theorem At.skipTo {base start target : Nat} (at_position : state.At segment (base + start))
    (proper : Run.Proper segment.entries) (ordered : start ≤ target)
    (inside : base + target ≤ (Run.expand segment.entries).length) :
    ∃ entry offset, state.skipInternal segment (target - start) = .ok (state.moveTo entry offset) ∧
      (state.moveTo entry offset).At segment (base + target) := by
  have arrival : base + start + (target - start) = base + target := by omega
  have skipped := at_position.skipInternal proper (arrival ▸ inside)
  rwa [arrival] at skipped

end RLEScanState

/-! ## Reading -/

section

variable (proper : Run.Proper segment.entries)
include proper

/-- A vector that lies in one run is read as a constant. -/
theorem scanConstant_spec (at_position : state.At segment position) {entireVector : Bool}
    (emits : canEmitConstantVector entireVector state.positionInEntry (state.runLength segment)
      scanCount = true) (result : ResultVector T) :
    ∃ entry offset result', scanConstant segment state scanCount result =
        .ok (state.moveTo entry offset, result') ∧
      (state.moveTo entry offset).At segment (position + scanCount) ∧
      ∀ ahead place, ahead < scanCount → segment.row (position + ahead) = some (result'.get place) := by
  have long : 0 < scanCount ∧ scanCount ≤ state.runLength segment - state.positionInEntry := by
    rw [canEmitConstantVector] at emits
    split at emits
    · cases emits
    · split at emits
      · cases emits
      · rename_i whole
        rw [not_ne_iff] at whole
        refine ⟨?_, of_decide_eq_true emits⟩
        rw [whole, standardVectorSize]
        exact Nat.succ_pos _
  cases found : segment.entries[state.entryPos]? with
  | none =>
      rw [RLEScanState.runLength, found] at long
      change 0 < scanCount ∧ scanCount ≤ 0 - _ at long
      omega
  | some run =>
      have length : state.runLength segment = run.count := by
        rw [RLEScanState.runLength, found]
        rfl
      rw [length] at long
      have values : ∀ ahead, ahead < scanCount → segment.row (position + ahead) = some run.value := by
        intro ahead short
        exact Run.At.getElem? at_position found (by omega)
      rw [scanConstant, RLEScanState.element, found]
      dsimp only [pure_bind]
      have moved : ({ state with positionInEntry := state.positionInEntry + scanCount } :
          RLEScanState).runLength segment = run.count := length
      rw [pure_bind, moved]
      split
      · rename_i exhausted
        exact ⟨state.entryPos + 1, 0, _, rfl,
          Run.At.leave at_position proper found (by omega), fun ahead _ short => values ahead short⟩
      · rename_i unfinished
        exact ⟨state.entryPos, state.positionInEntry + scanCount, _, rfl,
          Run.At.stay at_position found (by omega), fun ahead _ short => values ahead short⟩

/-- The loop of a scan fills its part of the result and leaves the rest of it. -/
theorem scanRuns_spec (runs : List (Run T)) (state : RLEScanState) (position : Nat) (data : Nat → T)
    (resultOffset remaining : Nat) (left : segment.entries.drop state.entryPos = runs)
    (at_position : state.At segment position)
    (inside : position + remaining ≤ (Run.expand segment.entries).length) :
    ∃ entry offset data', scanRuns runs state data resultOffset (resultOffset + remaining) =
        .ok (state.moveTo entry offset, data') ∧
      (state.moveTo entry offset).At segment (position + remaining) ∧
      (∀ ahead, ahead < remaining →
        segment.row (position + ahead) = some (data' (resultOffset + ahead))) ∧
      ∀ place, place < resultOffset → data' place = data place := by
  induction runs generalizing state position data resultOffset remaining with
  | nil =>
      rw [scanRuns]
      cases remaining with
      | zero =>
          rw [Nat.add_zero, if_neg (Nat.lt_irrefl _)]
          exact ⟨state.entryPos, state.positionInEntry, data, rfl, at_position,
            fun _ impossible => absurd impossible (Nat.not_lt_zero _), fun _ _ => rfl⟩
      | succ remaining =>
          obtain ⟨run, -, -, some_left⟩ := at_position.exists_run (by omega)
          rw [left] at some_left
          cases some_left
  | cons run rest ih =>
      rw [scanRuns]
      by_cases done : remaining = 0
      · rw [if_neg (by omega), done]
        exact ⟨state.entryPos, state.positionInEntry, data, rfl, at_position,
          fun _ impossible => absurd impossible (Nat.not_lt_zero _), fun _ _ => rfl⟩
      obtain ⟨current, found, short, some_left⟩ := at_position.exists_run (by omega)
      rw [left] at some_left
      obtain ⟨rfl, hrest⟩ := List.cons.inj some_left
      rw [if_pos (by omega), Nat.add_sub_cancel_left]
      dsimp only
      split
      · rename_i last
        refine ⟨state.entryPos, state.positionInEntry + remaining, _, rfl,
          Run.At.stay at_position found (by omega), fun ahead before => ?_, fun place early => ?_⟩
        · rw [writeRange_of_mem (by omega)]
          exact Run.At.getElem? at_position found (by omega)
        · exact writeRange_of_not_mem (by omega)
      · rename_i more
        obtain ⟨runCount, hrun⟩ : ∃ runCount, runCount = run.count - state.positionInEntry :=
          ⟨_, rfl⟩
        rw [← hrun] at more ⊢
        have next : (state.moveTo (state.entryPos + 1) 0).At segment (position + runCount) :=
          Run.At.leave at_position proper found (by omega)
        obtain ⟨entry, offset, data', scanned, arrived, read, kept⟩ :=
          ih (state.moveTo (state.entryPos + 1) 0) (position + runCount)
            (writeRange data resultOffset (resultOffset + runCount) run.value)
            (resultOffset + runCount) (remaining - runCount) hrest.symm next (by omega)
        have finish : resultOffset + runCount + (remaining - runCount) = resultOffset + remaining := by
          omega
        have arrival : position + runCount + (remaining - runCount) = position + remaining := by
          omega
        rw [finish] at scanned
        rw [arrival] at arrived
        refine ⟨entry, offset, data', scanned, arrived, fun ahead before => ?_, fun place early => ?_⟩
        · rcases Nat.lt_or_ge ahead runCount with here | behind
          · rw [kept _ (by omega), writeRange_of_mem (by omega)]
            exact Run.At.getElem? at_position found (by omega)
          · have value := read (ahead - runCount) (by omega)
            have row : position + runCount + (ahead - runCount) = position + ahead := by omega
            have place : resultOffset + runCount + (ahead - runCount) = resultOffset + ahead := by
              omega
            rw [row, place] at value
            exact value
        · rw [kept place (by omega)]
          exact writeRange_of_not_mem (by omega)

/-- A scan of either kind fills its part of the result. -/
theorem scanPartialInternal_spec (at_position : state.At segment position) (entireVector : Bool)
    (inside : position + scanCount ≤ (Run.expand segment.entries).length) (result : ResultVector T)
    (resultOffset : Nat) :
    ∃ entry offset result',
      scanPartialInternal entireVector segment state scanCount result resultOffset =
        .ok (state.moveTo entry offset, result') ∧
      (state.moveTo entry offset).At segment (position + scanCount) ∧
      ∀ ahead, ahead < scanCount →
        segment.row (position + ahead) = some (result'.get (resultOffset + ahead)) := by
  rw [scanPartialInternal]
  split
  · rename_i emits
    obtain ⟨entry, offset, result', scanned, arrived, read⟩ :=
      scanConstant_spec proper at_position emits result
    exact ⟨entry, offset, result', scanned, arrived, fun ahead short => read ahead _ short⟩
  · obtain ⟨entry, offset, data', scanned, arrived, read, -⟩ :=
      scanRuns_spec proper _ state position result.data resultOffset scanCount rfl at_position inside
    rw [scanned]
    exact ⟨entry, offset, ⟨data', false⟩, rfl, arrived, read⟩

/-- The loop of a selection reads the rows that are selected. -/
theorem selectLoop_spec {base vectorCount : Nat}
    (inside : base + vectorCount ≤ (Run.expand segment.entries).length) (sel : List Nat)
    (state : RLEScanState) (data : Nat → T) (row prevIdx : Nat)
    (at_position : state.At segment (base + prevIdx)) (started : prevIdx ≤ vectorCount)
    (increasing : (prevIdx :: sel).Pairwise (· ≤ ·)) (below : ∀ index ∈ sel, index < vectorCount) :
    ∃ entry offset data', selectLoop segment vectorCount sel state data row prevIdx =
        .ok (state.moveTo entry offset, data') ∧
      (state.moveTo entry offset).At segment (base + vectorCount) ∧
      (∀ ahead index, sel[ahead]? = some index →
        segment.row (base + index) = some (data' (row + ahead))) ∧
      ∀ place, place < row → data' place = data place := by
  induction sel generalizing state data row prevIdx with
  | nil =>
      rw [selectLoop]
      obtain ⟨entry, offset, skipped, arrived⟩ := at_position.skipTo proper started inside
      rw [skipped]
      exact ⟨entry, offset, data, rfl, arrived, fun _ _ impossible => (by cases impossible),
        fun _ _ => rfl⟩
  | cons nextIdx rest ih =>
      obtain ⟨after, increasing⟩ := List.pairwise_cons.mp increasing
      have ordered : prevIdx ≤ nextIdx := after nextIdx List.mem_cons_self
      have bound := below nextIdx List.mem_cons_self
      obtain ⟨entry, offset, skipped, arrived⟩ := at_position.skipTo proper ordered (by omega)
      obtain ⟨value, element, read⟩ := arrived.element (by omega)
      obtain ⟨entry', offset', data', selected, arrived', reads, kept⟩ :=
        ih (state.moveTo entry offset) (writeRange data row (row + 1) value) (row + 1) nextIdx arrived
          bound.le increasing fun index member => below index (List.mem_cons_of_mem _ member)
      refine ⟨entry', offset', data', ?_, arrived', fun ahead index found => ?_, fun place early => ?_⟩
      · rw [selectLoop, if_neg (Nat.not_lt.mpr ordered), skipped]
        change (do
          let element ← (state.moveTo entry offset).element segment
          selectLoop segment vectorCount rest (state.moveTo entry offset)
            (writeRange data row (row + 1) element) (row + 1) nextIdx) = _
        rw [element]
        exact selected
      · cases ahead with
        | zero =>
            cases found
            rw [Nat.add_zero, kept row (Nat.lt_succ_self row),
              writeRange_of_mem ⟨Nat.le_refl row, Nat.lt_succ_self row⟩]
            exact read
        | succ ahead =>
            rw [← Nat.succ_add_eq_add_succ]
            exact reads ahead index found
      · rw [kept place (Nat.lt_succ_of_lt early)]
        exact writeRange_of_not_mem (by omega)

/-- A row is fetched from wherever it lies. -/
theorem fetchRow_spec {rowId : Nat} (inside : rowId < (Run.expand segment.entries).length)
    (data : Nat → T) (resultIdx : Nat) :
    ∃ result', fetchRow segment rowId ⟨data, false⟩ resultIdx = .ok result' ∧
      segment.row rowId = some (result'.get resultIdx) := by
  have start : RLEScanState.create.At segment 0 := Run.at_start proper
  obtain ⟨entry, offset, skipped, arrived⟩ := start.skipInternal proper
    (show 0 + rowId ≤ _ by omega)
  rw [Nat.zero_add] at arrived
  obtain ⟨value, element, read⟩ := arrived.element inside
  refine ⟨⟨writeRange data resultIdx (resultIdx + 1) value, false⟩, ?_, ?_⟩
  · rw [fetchRow, skipped]
    change (do
      let element ← (RLEScanState.create.moveTo entry offset).element segment
      pure (⟨writeRange data resultIdx (resultIdx + 1) element, false⟩ : ResultVector T)) = _
    rw [element]
    rfl
  · rw [ResultVector.get, if_neg Bool.false_ne_true]
    dsimp only
    rw [writeRange_of_mem ⟨Nat.le_refl _, Nat.lt_succ_self _⟩]
    exact read

end

namespace Reader

variable {reader : Reader T}

/-- An operation inside the segment goes through, and returns what the segment stands for. -/
theorem step_spec (proper : Run.Proper segment.entries)
    (count : (Run.expand segment.entries).length = segment.count)
    (at_position : reader.state.At segment reader.position) {operation : ReadOperation}
    (inside : reader.Inside segment operation) :
    ∃ next, reader.step segment operation = .ok next ∧ next.state.At segment next.position ∧
      ∀ row place, (row, place) ∈ reader.returned operation →
        segment.row row = some (next.result.get place) := by
  cases operation with
  | scan scanCount =>
      change reader.position + scanCount ≤ segment.count at inside
      rw [← count] at inside
      obtain ⟨entry, offset, result', scanned, arrived, read⟩ :=
        scanPartialInternal_spec proper at_position true inside reader.result 0
      refine ⟨⟨_, _, result'⟩, ?_, arrived, fun row place member => ?_⟩
      · rw [step, scan, scanned]
        rfl
      · obtain ⟨ahead, short, same⟩ := List.mem_map.mp member
        obtain ⟨rfl, rfl⟩ := Prod.mk.inj same
        have value := read ahead (List.mem_range.mp short)
        rw [Nat.zero_add] at value
        exact value
  | scanPartial scanCount resultOffset =>
      change reader.position + scanCount ≤ segment.count at inside
      rw [← count] at inside
      obtain ⟨entry, offset, result', scanned, arrived, read⟩ :=
        scanPartialInternal_spec proper at_position false inside reader.result resultOffset
      refine ⟨⟨_, _, result'⟩, ?_, arrived, fun row place member => ?_⟩
      · rw [step, scanPartial, scanned]
        rfl
      · obtain ⟨ahead, short, same⟩ := List.mem_map.mp member
        cases same
        exact read ahead (List.mem_range.mp short)
  | select vectorCount sel =>
      obtain ⟨short, increasing, below⟩ := inside
      rw [← count] at short
      have selected_row : ∀ row place, (row, place) ∈ reader.returned (.select vectorCount sel) →
          ∃ index, sel[place]? = some index ∧ row = reader.position + index := by
        intro row place member
        obtain ⟨ahead, bound, same⟩ := List.mem_mapIdx.mp member
        cases same
        exact ⟨_, List.getElem?_eq_getElem bound, rfl⟩
      by_cases emits : canEmitConstantVector true reader.state.positionInEntry
          (reader.state.runLength segment) vectorCount = true
      · obtain ⟨entry, offset, result', scanned, arrived, read⟩ :=
          scanConstant_spec proper at_position emits reader.result
        refine ⟨⟨_, _, result'⟩, ?_, arrived, fun row place member => ?_⟩
        · rw [step, select, if_pos emits, scanned]
          rfl
        · obtain ⟨index, found, rfl⟩ := selected_row row place member
          exact read index place (below index (List.mem_of_getElem? found))
      · have ordered : (0 :: sel).Pairwise (· ≤ ·) :=
          List.pairwise_cons.mpr ⟨fun _ _ => Nat.zero_le _, increasing⟩
        obtain ⟨entry, offset, data', selected, arrived, reads, -⟩ :=
          selectLoop_spec proper short sel reader.state reader.result.data 0 0 at_position
            (Nat.zero_le _) ordered below
        refine ⟨⟨_, _, ⟨data', false⟩⟩, ?_, arrived, fun row place member => ?_⟩
        · rw [step, select, if_neg emits, selected]
          rfl
        · obtain ⟨index, found, rfl⟩ := selected_row row place member
          have value := reads place index found
          rw [Nat.zero_add] at value
          exact value
  | skip skipCount =>
      change reader.position + skipCount ≤ segment.count at inside
      rw [← count] at inside
      obtain ⟨entry, offset, skipped, arrived⟩ := at_position.skipInternal proper inside
      refine ⟨⟨_, _, reader.result⟩, ?_, arrived, fun _ _ impossible => by cases impossible⟩
      rw [step, skipped]
      rfl
  | fetchRow rowId resultIdx =>
      change rowId < segment.count at inside
      rw [← count] at inside
      obtain ⟨result', fetched, read⟩ := fetchRow_spec proper inside reader.result.data resultIdx
      refine ⟨⟨reader.state, reader.position, result'⟩, ?_, at_position, fun row place member => ?_⟩
      · rw [step, fetched]
        rfl
      · cases List.mem_singleton.mp member
        exact read

/-- Whatever was read before, a reader stands at a row of the segment. -/
theorem at_of_reaches (proper : Run.Proper segment.entries)
    (count : (Run.expand segment.entries).length = segment.count) {result : ResultVector T}
    {operations : List ReadOperation}
    (reached : Reaches (step segment) (Inside segment) (create result) operations reader) :
    reader.state.At segment reader.position := by
  refine reached.state_invariant (fun reader => reader.state.At segment reader.position)
    (Run.at_start proper) ?_
  intro before operation next at_position inside taken
  obtain ⟨next', taken', arrived, -⟩ := step_spec proper count at_position inside
  rw [taken] at taken'
  cases taken'
  exact arrived

end Reader

/-! ## Writing and reading -/

/-- The rows of a segment are the values from its start on. -/
theorem Stored.row [BEq T] {maxRLECount start : Nat} {values : List (Option T)}
    {segments : List (RLESegment T)} (stored : Stored maxRLECount start values segments)
    (member : segment ∈ segments) {row : Nat} {read : T} (found : segment.row row = some read) :
    ∃ original, values[segment.start - start + row]? = some original ∧ Restores original read := by
  obtain ⟨front, back, rfl⟩ := List.append_of_mem member
  have contiguous := stored.contiguous
  rw [List.map_append, SegmentTree.contiguous_append] at contiguous
  obtain ⟨-, first, -⟩ := contiguous
  have lengths : (front.map RLESegment.node |>.map SegmentNode.count).sum =
      (front.flatMap fun segment => Run.expand segment.entries).length := by
    rw [List.length_flatMap, List.map_map]
    congr 1
    apply List.map_congr_left
    intro other there
    exact (stored.valid other (List.mem_append_left _ there)).count.symm
  have position : segment.start - start =
      (front.flatMap fun segment => Run.expand segment.entries).length := by
    change segment.start = _ at first
    rw [first, lengths, Nat.add_sub_cancel_left]
  have restores := stored.restores
  rw [List.flatMap_append, List.flatMap_cons] at restores
  have bound : row < (Run.expand segment.entries).length := (List.getElem?_eq_some_iff.mp found).1
  have value : ((front.flatMap fun segment => Run.expand segment.entries) ++
      (Run.expand segment.entries ++ back.flatMap fun segment => Run.expand segment.entries))[
        segment.start - start + row]? = some read := by
    rw [position, List.getElem?_append_right (Nat.le_add_right _ _), Nat.add_sub_cancel_left,
      List.getElem?_append_left bound]
    exact found
  obtain ⟨inside, equal⟩ := List.getElem?_eq_some_iff.mp value
  have original := List.getElem?_eq_getElem (restores.length_eq ▸ inside)
  refine ⟨_, original, ?_⟩
  rw [← equal]
  exact restores.get (restores.length_eq ▸ inside) inside

/--
The segments that are written tile the rows, within the limits on runs, and all reads inside a
segment return the values that were written: themselves, or values `==` to them.
-/
theorem compress_reads [BEq T] {maxRLECount : Nat} (room : 0 < maxRLECount) (writeStatistics : Bool)
    (nullValue : T) (start : Nat) (vectors : List (List (Option T))) :
    let segments := compress maxRLECount writeStatistics nullValue start vectors
    (segments.map RLESegment.count).sum = vectors.flatten.length ∧
    SegmentTree.Contiguous start (segments.map RLESegment.node) ∧
    ∀ segment ∈ segments,
      segment.entries.length ≤ maxRLECount ∧ (∀ run ∈ segment.entries, run.count ≤ maxCount) ∧
      (segment.entries.map Run.count).sum = segment.count ∧
      ∀ result operations reader,
        Reaches (Reader.step segment) (Reader.Inside segment) (Reader.create result) operations
          reader →
        ∀ operation, reader.Inside segment operation →
          ∃ next, reader.step segment operation = .ok next ∧
            ∀ row place, (row, place) ∈ reader.returned operation →
              ∀ value, vectors.flatten[segment.start - start + row]? = some (some value) →
                (next.result.get place = value ∨ (next.result.get place == value) = true) ∧
                (LawfulBEq T → next.result.get place = value) := by
  have stored := compress_stored room writeStatistics nullValue start vectors
  obtain ⟨segments, hsegments⟩ : ∃ segments, segments =
      compress maxRLECount writeStatistics nullValue start vectors := ⟨_, rfl⟩
  rw [← hsegments] at stored ⊢
  refine ⟨?_, stored.contiguous, fun segment member => ?_⟩
  · rw [stored.restores.length_eq, List.length_flatMap]
    congr 1
    apply List.map_congr_left
    intro segment member
    exact (stored.valid segment member).count.symm
  · have valid := stored.valid segment member
    refine ⟨valid.few, valid.counts, ?_, fun result operations reader reached operation inside => ?_⟩
    · rw [← valid.count, Run.expand, List.length_flatMap]
      congr 1
      apply List.map_congr_left
      intro run _
      exact List.length_replicate.symm
    · obtain ⟨next, taken, -, reads⟩ := Reader.step_spec valid.proper valid.count
        (Reader.at_of_reaches valid.proper valid.count reached) inside
      refine ⟨next, taken, fun row place returned value written => ?_⟩
      obtain ⟨original, found, restores⟩ := stored.row member (reads row place returned)
      rw [written] at found
      have either := restores value (Option.some.inj found).symm
      refine ⟨either, fun lawful => ?_⟩
      rcases either with same | equal
      · exact same
      · exact eq_of_beq equal

/-- Two vectors and a run across them; its third value is read into a result. -/
theorem compress_reads_run :
    ∃ segment ∈ compress 2 true 0 0 [[none, some 7], [some 7, none, some 5]],
      ∃ reader, Reaches (Reader.step segment) (Reader.Inside segment)
          (Reader.create ⟨fun _ => 0, true⟩) [.skip 1] reader ∧
        ∃ next, reader.step segment (.scanPartial 2 3) = .ok next ∧ next.result.get 4 = 7 := by
  have member : (⟨0, 5, [⟨7, 4⟩, ⟨5, 1⟩], [7, 5]⟩ : RLESegment Nat) ∈
      compress 2 true 0 0 [[none, some 7], [some 7, none, some 5]] := by
    decide
  obtain ⟨-, -, segments⟩ :=
    compress_reads Nat.two_pos true 0 0 [[none, some 7], [some 7, none, some 5]]
  obtain ⟨-, -, -, reads⟩ := segments _ member
  have reached : Reaches (Reader.step ⟨0, 5, [⟨7, 4⟩, ⟨5, 1⟩], [7, 5]⟩)
      (Reader.Inside ⟨0, 5, [⟨7, 4⟩, ⟨5, 1⟩], [7, 5]⟩) (Reader.create ⟨fun _ => 0, true⟩) [.skip 1]
      ⟨⟨0, 1, none, 0⟩, 1, ⟨fun _ => 0, true⟩⟩ := by
    refine .cons ?_ rfl .start
    change 0 + 1 ≤ 5
    decide
  obtain ⟨next, taken, returned⟩ := reads _ _ _ reached (.scanPartial 2 3) (show 1 + 2 ≤ 5 by decide)
  refine ⟨_, member, _, reached, next, taken, ?_⟩
  exact (returned 2 4 (by decide) 7 rfl).2 inferInstance

/-- A double, compared as the language compares them. -/
structure Double where
  bits : Nat
  deriving DecidableEq, Repr

instance : BEq Double := ⟨fun left right => FloatFormat.double.ieeeEquals left.bits right.bits⟩

/-- A NaN comes back as it was written, but it is `==` to nothing. -/
theorem compress_reads_nan :
    ∃ segment ∈ compress 2 true ⟨0⟩ 0 [[some (⟨0x7FF8000000000000⟩ : Double)]],
      (Reader.create ⟨fun _ => ⟨0⟩, false⟩).Inside segment (.fetchRow 0 0) ∧
      ∃ next, (Reader.create ⟨fun _ => ⟨0⟩, false⟩).step segment (.fetchRow 0 0) = .ok next ∧
        (next.result.get 0 == ⟨0x7FF8000000000000⟩) = false := by
  refine ⟨⟨0, 1, [⟨⟨0x7FF8000000000000⟩, 1⟩], [⟨0x7FF8000000000000⟩]⟩, by decide, Nat.zero_lt_one,
    _, rfl, ?_⟩
  decide

end RLE

end StatsRecommender
