import StatsRecommender.Compression.RLEScan
import StatsRecommender.Storage.FilterSelection

/-!
# Filters on RLE segments

`RLEFilter` applies a filter to the runs of a segment once and selects the rows of the runs
that match.
-/

namespace StatsRecommender

variable {run : Run Payload} {known : List Bool} {vectorCount : Nat}

namespace RLE

/-- How the values of a column are stored: their size, and the value all of whose bytes are zero. -/
structure ValueLayout where
  valueSize : Nat
  zero : Payload
  valueSize_pos : 0 < valueSize

/-- The run count as `RLEFilter` computes it from where the counts start. -/
def ValueLayout.totalRunCount (layout : ValueLayout) (segment : RLESegment Payload) : Nat :=
  (alignValue (headerSize + layout.valueSize * segment.entries.length) - headerSize) /
    layout.valueSize

/-- The values that the filter is applied to; behind the last run there may be zeros. -/
def ValueLayout.runValue (layout : ValueLayout) (segment : RLESegment Payload) (run : Nat) :
    Option Payload :=
  some ((segment.entries[run]?.map Run.value).getD layout.zero)

/-- The part of `RLEFilter` that applies the filter to the runs, unless this was done before. -/
def matchRuns (layout : ValueLayout) (segment : RLESegment Payload) (filter : TableFilter)
    (state : RLEScanState) : Except String RLEScanState :=
  match state.matchingRuns with
  | some _ => pure state
  | none => do
      let total := layout.totalRunCount segment
      let (runMatches, count, _) ←
        filter.filterSelection (layout.runValue segment) true total none total
      pure
        { state with
          matchingRuns := some ((List.range total).map fun run => decide (run ∈ runMatches.rows count))
          matchingRunCount := count }

/-- `matching_runs[entry_pos]`. -/
def RLEScanState.matches (state : RLEScanState) : Bool :=
  (state.matchingRuns.getD []).getD state.entryPos false

/-- The loop of `RLEFilter` without a selection, over the runs from the current one on. -/
def filterRuns : List (Run Payload) → RLEScanState → (Nat → Payload) → List Nat → Nat → Nat →
    Except String (RLEScanState × (Nat → Payload) × List Nat)
  | [], state, data, matching, resultOffset, resultEnd =>
      if resultOffset < resultEnd then throw "behind the runs of the segment"
      else pure (state, data, matching)
  | run :: rest, state, data, matching, resultOffset, resultEnd =>
      if resultOffset < resultEnd then
        let runCount := run.count - state.positionInEntry
        let remainingScanCount := resultEnd - resultOffset
        if remainingScanCount < runCount then
          let moved := { state with positionInEntry := state.positionInEntry + remainingScanCount }
          if state.matches then
            pure (moved, writeRange data resultOffset resultEnd run.value,
              matching ++ List.range' resultOffset remainingScanCount)
          else pure (moved, data, matching)
        else if state.matches then
          filterRuns rest state.forwardToNextRun
            (writeRange data resultOffset (resultOffset + runCount) run.value)
            (matching ++ List.range' resultOffset runCount) (resultOffset + runCount) resultEnd
        else filterRuns rest state.forwardToNextRun data matching (resultOffset + runCount) resultEnd
      else pure (state, data, matching)

/-- The loop of `RLEFilter` over a selection. -/
def filterSelected (segment : RLESegment Payload) (vectorCount : Nat) :
    List Nat → RLEScanState → (Nat → Payload) → List Nat → Nat →
      Except String (RLEScanState × (Nat → Payload) × List Nat)
  | [], state, data, matching, prevIdx => do
      let state ← state.skipInternal segment (vectorCount - prevIdx)
      pure (state, data, matching)
  | readIdx :: rest, state, data, matching, prevIdx =>
      if readIdx < prevIdx then
        throw "Error in RLEFilter - selection vector indices are not ordered"
      else do
        let state ← state.skipInternal segment (readIdx - prevIdx)
        if state.matches then do
          let element ← state.element segment
          filterSelected segment vectorCount rest state (writeRange data readIdx (readIdx + 1) element)
            (matching ++ [readIdx]) readIdx
        else filterSelected segment vectorCount rest state data matching readIdx

/-- The part of `RLEFilter` that scans the matching runs, with or without a selection. -/
def selectMatching (segment : RLESegment Payload) (state : RLEScanState) (vectorCount : Nat)
    (data : Nat → Payload) (sel : SelectionVector) (selCount : Nat) :
    Except String (RLEScanState × (Nat → Payload) × List Nat) :=
  match sel with
  | none => filterRuns (segment.entries.drop state.entryPos) state data [] 0 selCount
  | some indexes => filterSelected segment vectorCount (indexes.take selCount) state data [] 0

/-- `RLEFilter`. -/
def rleFilter (layout : ValueLayout) (segment : RLESegment Payload) (state : RLEScanState)
    (vectorCount : Nat) (data : Nat → Payload) (sel : SelectionVector) (selCount : Nat)
    (filter : TableFilter) :
    Except String (RLEScanState × (Nat → Payload) × SelectionVector × Nat) := do
  let state ← matchRuns layout segment filter state
  if state.matchingRunCount = 0 then pure (state, data, sel, 0)
  else
    let (state, data, matching) ← selectMatching segment state vectorCount data sel selCount
    if matching.length ≠ selCount then pure (state, data, some matching, matching.length)
    else pure (state, data, sel, selCount)

/-! ## The runs that match -/

variable {layout : ValueLayout} {segment : RLESegment Payload} {filter : TableFilter}
  {state : RLEScanState} {position : Nat}

/-- What was found out about the runs is right. -/
def Matched (segment : RLESegment Payload) (filter : TableFilter) (state : RLEScanState) : Prop :=
  ∀ matching, state.matchingRuns = some matching →
    (∀ (entry : Nat) run, segment.entries[entry]? = some run →
      matching.getD entry false = filter.passes (some run.value)) ∧
    (state.matchingRunCount = 0 → ∀ run ∈ segment.entries, filter.passes (some run.value) = false)

/-- The filter can be applied to the runs, or was before. -/
def Applicable (layout : ValueLayout) (segment : RLESegment Payload) (filter : TableFilter)
    (state : RLEScanState) : Prop :=
  state.matchingRuns = none →
    layout.totalRunCount segment ≤ standardVectorSize ∨
      filter.Orderly (layout.runValue segment) (List.range (layout.totalRunCount segment))

theorem length_le_totalRunCount (layout : ValueLayout) (segment : RLESegment Payload) :
    segment.entries.length ≤ layout.totalRunCount segment := by
  rw [ValueLayout.totalRunCount, Nat.le_div_iff_mul_le layout.valueSize_pos, alignValue, headerSize,
    Nat.mul_comm]
  omega

theorem matchRuns_spec (supported : filter.supported = true) (matched : Matched segment filter state)
    (applicable : Applicable layout segment filter state) :
    ∃ matching count, matchRuns layout segment filter state =
        .ok { state with matchingRuns := some matching, matchingRunCount := count } ∧
      Matched segment filter
        { state with matchingRuns := some matching, matchingRunCount := count } := by
  rw [matchRuns]
  cases known : state.matchingRuns with
  | some matching =>
      have same : { state with
          matchingRuns := some matching, matchingRunCount := state.matchingRunCount } = state := by
        rw [← known]
      refine ⟨matching, state.matchingRunCount, ?_, ?_⟩
      · rw [same]
        rfl
      · rw [same]
        exact matched
  | none =>
      dsimp only
      obtain ⟨total, htotal⟩ : ∃ total, total = layout.totalRunCount segment := ⟨_, rfl⟩
      have applicable := applicable known
      rw [← htotal] at applicable ⊢
      obtain ⟨runMatches, count, returned, chosen, rows_eq, full, -⟩ :=
        TableFilter.filterSelection_spec (layout.runValue segment) true total filter
          (fun _ _ _ => rfl) supported none total
          List.length_range List.nodup_range (fun _ member => List.mem_range.mp member) applicable
      have members := TableFilter.matching_perm (layout.runValue segment) filter (List.range total)
        List.nodup_range
      rw [show SelectionVector.rows none total = List.range total from rfl] at rows_eq
      have passing : ∀ (entry : Nat) run, segment.entries[entry]? = some run →
          (entry ∈ runMatches.rows count ↔ filter.passes (some run.value) = true) := by
        intro entry run found
        have inside : entry < total := by
          rw [htotal]
          exact Nat.lt_of_lt_of_le (List.getElem?_eq_some_iff.mp found).1
            (length_le_totalRunCount layout segment)
        rw [rows_eq, members.mem_iff, List.mem_filter, ValueLayout.runValue, found, Option.map_some,
          Option.getD_some]
        exact and_iff_right (List.mem_range.mpr inside)
      rw [chosen]
      refine ⟨_, count, rfl, ?_⟩
      intro matching equal
      cases equal
      refine ⟨fun entry run found => ?_, fun none_matches run member => ?_⟩
      · have inside : entry < total := by
          rw [htotal]
          exact Nat.lt_of_lt_of_le (List.getElem?_eq_some_iff.mp found).1
            (length_le_totalRunCount layout segment)
        rw [List.getD_eq_getElem?_getD, List.getElem?_map, List.getElem?_range inside, Option.map_some,
          Option.getD_some, Bool.eq_iff_iff, decide_eq_true_eq]
        exact passing entry run found
      · obtain ⟨entry, found⟩ := List.mem_iff_getElem?.mp member
        rw [← Bool.not_eq_true, ← passing entry run found]
        have empty : runMatches.rows count = [] := by
          rw [← List.length_eq_zero_iff, full]
          exact none_matches
        rw [empty]
        exact List.not_mem_nil

/-! ## The rows that match -/

/-- The value that the segment stands for at a row passes the filter. -/
def passesRow (segment : RLESegment Payload) (filter : TableFilter) (row : Nat) : Bool :=
  (segment.row row).any fun value => filter.passes (some value)

theorem Matched.moveTo (matched : Matched segment filter state) (entry offset : Nat) :
    Matched segment filter (state.moveTo entry offset) := matched

/-- What was found out about the current run. -/
theorem Matched.matches_eq (matched : Matched segment filter state) {matching : List Bool}
    (known : state.matchingRuns = some matching)
    (found : segment.entries[state.entryPos]? = some run) :
    state.matches = filter.passes (some run.value) := by
  rw [RLEScanState.matches, known, Option.getD_some]
  exact (matched matching known).1 _ run found

theorem passesRow_of_run (at_position : state.At segment position)
    (found : segment.entries[state.entryPos]? = some run) {ahead : Nat}
    (short : state.positionInEntry + ahead < run.count) :
    passesRow segment filter (position + ahead) = filter.passes (some run.value) := by
  rw [passesRow, RLESegment.row, Run.At.getElem? at_position found short]
  rfl

/-- A piece of a run is selected as a whole or not at all. -/
theorem filter_range'_of_run (at_position : state.At segment position)
    (found : segment.entries[state.entryPos]? = some run) {count : Nat}
    (short : state.positionInEntry + count ≤ run.count) (resultOffset : Nat) :
    ((List.range' resultOffset count).filter fun place =>
      passesRow segment filter (position + (place - resultOffset))) =
      if filter.passes (some run.value) then List.range' resultOffset count else [] := by
  have same : ∀ place ∈ List.range' resultOffset count,
      passesRow segment filter (position + (place - resultOffset)) =
        filter.passes (some run.value) := by
    intro place member
    obtain ⟨low, high⟩ := List.mem_range'_1.mp member
    exact passesRow_of_run at_position found (by omega)
  split
  · rename_i passes
    exact List.filter_eq_self.mpr fun place member => (same place member).trans passes
  · rename_i fails
    rw [List.filter_eq_nil_iff]
    intro place member
    rw [same place member]
    exact fails

/-- The rows that the loop without a selection finds. -/
theorem filterRuns_spec (proper : Run.Proper segment.entries) (runs : List (Run Payload))
    (state : RLEScanState) (position : Nat) (data : Nat → Payload) (matching : List Nat)
    (resultOffset remaining : Nat) (left : segment.entries.drop state.entryPos = runs)
    (at_position : state.At segment position)
    (inside : position + remaining ≤ (Run.expand segment.entries).length)
    (matched : Matched segment filter state) (found_known : state.matchingRuns = some known) :
    ∃ entry offset data', filterRuns runs state data matching resultOffset
        (resultOffset + remaining) = .ok (state.moveTo entry offset, data', matching ++
          (List.range' resultOffset remaining).filter fun place =>
            passesRow segment filter (position + (place - resultOffset))) ∧
      (state.moveTo entry offset).At segment (position + remaining) ∧
      (∀ ahead, ahead < remaining → passesRow segment filter (position + ahead) = true →
        segment.row (position + ahead) = some (data' (resultOffset + ahead))) ∧
      ∀ place, place < resultOffset → data' place = data place := by
  induction runs generalizing state position data matching resultOffset remaining with
  | nil =>
      rw [filterRuns]
      cases remaining with
      | zero =>
          rw [Nat.add_zero, if_neg (Nat.lt_irrefl _), List.range'_zero, List.filter_nil,
            List.append_nil]
          exact ⟨state.entryPos, state.positionInEntry, data, rfl, at_position,
            fun _ impossible => absurd impossible (Nat.not_lt_zero _), fun _ _ => rfl⟩
      | succ remaining =>
          obtain ⟨run, -, -, some_left⟩ := at_position.exists_run (by omega)
          rw [left] at some_left
          cases some_left
  | cons run rest ih =>
      rw [filterRuns]
      by_cases done : remaining = 0
      · rw [if_neg (by omega), done, List.range'_zero, List.filter_nil, List.append_nil]
        exact ⟨state.entryPos, state.positionInEntry, data, rfl, at_position,
          fun _ impossible => absurd impossible (Nat.not_lt_zero _), fun _ _ => rfl⟩
      obtain ⟨current, found, short, some_left⟩ := at_position.exists_run (by omega)
      rw [left] at some_left
      obtain ⟨rfl, hrest⟩ := List.cons.inj some_left
      rw [if_pos (by omega), Nat.add_sub_cancel_left]
      dsimp only
      rw [matched.matches_eq found_known found]
      by_cases last : remaining < run.count - state.positionInEntry
      · rw [if_pos last, filter_range'_of_run at_position found (by omega) resultOffset]
        have arrived : (state.moveTo state.entryPos (state.positionInEntry + remaining)).At segment
            (position + remaining) := Run.At.stay at_position found (by omega)
        split
        · refine ⟨_, _, _, rfl, arrived, fun ahead before _ => ?_, fun place early => ?_⟩
          · rw [writeRange_of_mem (by omega)]
            exact Run.At.getElem? at_position found (by omega)
          · exact writeRange_of_not_mem (by omega)
        · rename_i fails
          rw [List.append_nil]
          refine ⟨_, _, _, rfl, arrived, fun ahead before passes => ?_, fun _ _ => rfl⟩
          rw [passesRow_of_run at_position found (by omega)] at passes
          exact absurd passes fails
      · rw [if_neg last]
        obtain ⟨runCount, hrun⟩ : ∃ runCount, runCount = run.count - state.positionInEntry :=
          ⟨_, rfl⟩
        rw [← hrun] at last ⊢
        have next : (state.moveTo (state.entryPos + 1) 0).At segment (position + runCount) :=
          Run.At.leave at_position proper found (by omega)
        have arrival : position + runCount + (remaining - runCount) = position + remaining := by
          omega
        have finish : resultOffset + runCount + (remaining - runCount) = resultOffset + remaining := by
          omega
        have pieces : ((List.range' resultOffset remaining).filter fun place =>
            passesRow segment filter (position + (place - resultOffset))) =
              (if filter.passes (some run.value) then List.range' resultOffset runCount else []) ++
              (List.range' (resultOffset + runCount) (remaining - runCount)).filter fun place =>
                passesRow segment filter
                  (position + runCount + (place - (resultOffset + runCount))) := by
          have split : List.range' resultOffset remaining = List.range' resultOffset runCount ++
              List.range' (resultOffset + runCount) (remaining - runCount) := by
            rw [List.range'_append_1]
            congr 1
            omega
          rw [split, List.filter_append,
            filter_range'_of_run at_position found (by omega) resultOffset]
          congr 1
          apply List.filter_congr
          intro place member
          obtain ⟨low, -⟩ := List.mem_range'_1.mp member
          congr 1
          omega
        rw [pieces, ← List.append_assoc]
        have continues : ∀ data₀ matching₀,
            (∀ ahead, ahead < runCount → passesRow segment filter (position + ahead) = true →
              segment.row (position + ahead) = some (data₀ (resultOffset + ahead))) →
            (∀ place, place < resultOffset → data₀ place = data place) →
            ∃ entry offset data', filterRuns rest state.forwardToNextRun data₀ matching₀
                (resultOffset + runCount) (resultOffset + remaining) =
                .ok (state.moveTo entry offset, data', matching₀ ++
                  (List.range' (resultOffset + runCount) (remaining - runCount)).filter fun place =>
                    passesRow segment filter
                      (position + runCount + (place - (resultOffset + runCount)))) ∧
              (state.moveTo entry offset).At segment (position + remaining) ∧
              (∀ ahead, ahead < remaining → passesRow segment filter (position + ahead) = true →
                segment.row (position + ahead) = some (data' (resultOffset + ahead))) ∧
              ∀ place, place < resultOffset → data' place = data place := by
          intro data₀ matching₀ here untouched
          obtain ⟨entry, offset, data', filtered, arrived, read, kept⟩ :=
            ih (state.moveTo (state.entryPos + 1) 0) (position + runCount) data₀ matching₀
              (resultOffset + runCount) (remaining - runCount) hrest.symm next (by omega)
              (matched.moveTo _ _) found_known
          rw [finish] at filtered
          rw [arrival] at arrived
          refine ⟨entry, offset, data', filtered, arrived, fun ahead before passes => ?_,
            fun place early => ?_⟩
          · rcases Nat.lt_or_ge ahead runCount with inRun | behind
            · rw [kept _ (by omega)]
              exact here ahead inRun passes
            · have row : position + runCount + (ahead - runCount) = position + ahead := by omega
              have place : resultOffset + runCount + (ahead - runCount) = resultOffset + ahead := by
                omega
              have value := read (ahead - runCount) (by omega) (by rw [row]; exact passes)
              rw [row, place] at value
              exact value
          · rw [kept place (by omega)]
            exact untouched place early
        split
        · refine continues _ _ (fun ahead inRun _ => ?_) fun place early => ?_
          · rw [writeRange_of_mem (by omega)]
            exact Run.At.getElem? at_position found (by omega)
          · exact writeRange_of_not_mem (by omega)
        · rename_i fails
          rw [List.append_nil]
          refine continues data matching (fun ahead inRun passes => ?_) fun _ _ => rfl
          rw [passesRow_of_run at_position found (by omega)] at passes
          exact absurd passes fails

/-- The rows that the loop over a selection finds. -/
theorem filterSelected_spec (proper : Run.Proper segment.entries) {base : Nat}
    (inside : base + vectorCount ≤ (Run.expand segment.entries).length) (sel : List Nat)
    (state : RLEScanState) (data : Nat → Payload) (matching : List Nat) (prevIdx : Nat)
    (at_position : state.At segment (base + prevIdx)) (started : prevIdx ≤ vectorCount)
    (after : ∀ index ∈ sel, prevIdx ≤ index) (increasing : sel.Pairwise (· < ·))
    (below : ∀ index ∈ sel, index < vectorCount) (matched : Matched segment filter state)
    (found_known : state.matchingRuns = some known) :
    ∃ entry offset data', filterSelected segment vectorCount sel state data matching prevIdx =
        .ok (state.moveTo entry offset, data',
          matching ++ sel.filter fun index => passesRow segment filter (base + index)) ∧
      (state.moveTo entry offset).At segment (base + vectorCount) ∧
      (∀ index ∈ sel, passesRow segment filter (base + index) = true →
        segment.row (base + index) = some (data' index)) ∧
      ∀ place, place ∉ sel → data' place = data place := by
  induction sel generalizing state data matching prevIdx with
  | nil =>
      rw [filterSelected, List.filter_nil, List.append_nil]
      obtain ⟨entry, offset, skipped, arrived⟩ := at_position.skipTo proper started inside
      rw [skipped]
      exact ⟨entry, offset, data, rfl, arrived, fun _ impossible => (by cases impossible),
        fun _ _ => rfl⟩
  | cons readIdx rest ih =>
      obtain ⟨later, increasing⟩ := List.pairwise_cons.mp increasing
      have ordered : prevIdx ≤ readIdx := after readIdx List.mem_cons_self
      have bound := below readIdx List.mem_cons_self
      obtain ⟨entry, offset, skipped, arrived⟩ := at_position.skipTo proper ordered (by omega)
      obtain ⟨run, found, short, -⟩ := arrived.exists_run (by omega)
      have here : passesRow segment filter (base + readIdx) = filter.passes (some run.value) :=
        passesRow_of_run arrived found (show _ + 0 < _ from short)
      have row : segment.row (base + readIdx) = some run.value :=
        Run.At.getElem? arrived found (show _ + 0 < _ from short)
      have matches_eq := (matched.moveTo entry offset).matches_eq found_known found
      have fresh : readIdx ∉ rest := fun member => Nat.lt_irrefl _ (later readIdx member)
      have continues : ∀ data₀ matching₀,
          (passesRow segment filter (base + readIdx) = true → data₀ readIdx = run.value) →
          (∀ place, place ≠ readIdx → data₀ place = data place) →
          ∃ entry' offset' data', filterSelected segment vectorCount rest (state.moveTo entry offset)
              data₀ matching₀ readIdx = .ok (state.moveTo entry' offset', data',
                matching₀ ++ rest.filter fun index => passesRow segment filter (base + index)) ∧
            (state.moveTo entry' offset').At segment (base + vectorCount) ∧
            (∀ index ∈ readIdx :: rest, passesRow segment filter (base + index) = true →
              segment.row (base + index) = some (data' index)) ∧
            ∀ place, place ∉ readIdx :: rest → data' place = data place := by
        intro data₀ matching₀ written untouched
        obtain ⟨entry', offset', data', filtered, arrived', reads, kept⟩ :=
          ih (state.moveTo entry offset) data₀ matching₀ readIdx arrived bound.le
            (fun index member => (later index member).le) increasing
            (fun index member => below index (List.mem_cons_of_mem _ member)) matched found_known
        refine ⟨entry', offset', data', filtered, arrived', fun index member passes => ?_,
          fun place absent => ?_⟩
        · rcases List.mem_cons.mp member with rfl | there
          · rw [kept _ fresh, written passes]
            exact row
          · exact reads index there passes
        · obtain ⟨different, absent⟩ := not_or.mp (mt List.mem_cons.mpr absent)
          rw [kept place absent]
          exact untouched place different
      rw [filterSelected, if_neg (Nat.not_lt.mpr ordered), skipped, List.filter_cons, here]
      change ∃ entry' offset' data', (if (state.moveTo entry offset).matches = true then do
          let element ← (state.moveTo entry offset).element segment
          filterSelected segment vectorCount rest (state.moveTo entry offset)
            (writeRange data readIdx (readIdx + 1) element) (matching ++ [readIdx]) readIdx
        else filterSelected segment vectorCount rest (state.moveTo entry offset) data matching
          readIdx) = _ ∧ _
      rw [matches_eq]
      split
      · rename_i passes
        have element : (state.moveTo entry offset).element segment = .ok run.value := by
          rw [RLEScanState.element, found]
          rfl
        rw [element, List.append_cons matching readIdx
          (rest.filter fun index => passesRow segment filter (base + index))]
        refine continues _ _ (fun _ => ?_) fun place different => ?_
        · exact writeRange_of_mem ⟨Nat.le_refl _, Nat.lt_succ_self _⟩
        · exact writeRange_of_not_mem (by omega)
      · rename_i fails
        refine continues data matching (fun passes => ?_) fun _ _ => rfl
        rw [here] at passes
        exact absurd passes fails

/-! ## RLEFilter -/

/-- An incoming selection of rows of a vector, in their order. -/
structure Selects (sel : SelectionVector) (selCount vectorCount : Nat) : Prop where
  full : (sel.rows selCount).length = selCount
  increasing : (sel.rows selCount).Pairwise (· < ·)
  below : ∀ row ∈ sel.rows selCount, row < vectorCount
  unset : sel = none → selCount = vectorCount

/--
The state follows the scan: it stands at its row, or it stays behind because none of the runs
matches the filter.
-/
structure Follows (segment : RLESegment Payload) (filter : TableFilter) (state : RLEScanState)
    (position : Nat) : Prop where
  matched : Matched segment filter state
  place : state.At segment position ∨
    ∃ reached, reached ≤ position ∧ state.At segment reached ∧ state.matchingRuns.isSome = true ∧
      state.matchingRunCount = 0

/-- No row passes if no run does. -/
theorem passesRow_of_none (none_pass : ∀ run ∈ segment.entries, filter.passes (some run.value) = false)
    (row : Nat) : passesRow segment filter row = false := by
  rw [passesRow]
  cases found : segment.row row with
  | none => rfl
  | some value =>
      obtain ⟨run, member, held⟩ := List.mem_flatMap.mp (List.mem_of_getElem? found)
      rw [Option.any_some, List.eq_of_mem_replicate held]
      exact none_pass run member

/-- `RLEFilter` selects the rows whose values pass the filter, and reads them. -/
theorem rleFilter_spec (proper : Run.Proper segment.entries) (supported : filter.supported = true)
    (follows : Follows segment filter state position)
    (applicable : Applicable layout segment filter state)
    (inside : position + vectorCount ≤ (Run.expand segment.entries).length) (data : Nat → Payload)
    {sel : SelectionVector} {selCount : Nat} (selects : Selects sel selCount vectorCount) :
    ∃ state' data' sel' count',
      rleFilter layout segment state vectorCount data sel selCount filter =
        .ok (state', data', sel', count') ∧
      Follows segment filter state' (position + vectorCount) ∧
      sel'.rows count' =
        ((sel.rows selCount).filter fun row => passesRow segment filter (position + row)) ∧
      (sel'.rows count').length = count' ∧
      ∀ row ∈ sel'.rows count', segment.row (position + row) = some (data' row) := by
  obtain ⟨known, count, applied, matched⟩ := matchRuns_spec supported follows.matched applicable
  obtain ⟨matchedState, hmatchedState⟩ : ∃ matchedState : RLEScanState, matchedState =
      { state with matchingRuns := some known, matchingRunCount := count } := ⟨_, rfl⟩
  rw [← hmatchedState] at applied matched
  have found_known : matchedState.matchingRuns = some known := by
    rw [hmatchedState]
  have same_place : ∀ reached, matchedState.At segment reached ↔ state.At segment reached := by
    intro reached
    rw [hmatchedState]
    exact Iff.rfl
  rw [rleFilter, applied]
  change ∃ state' data' sel' count', (if matchedState.matchingRunCount = 0 then
      pure (matchedState, data, sel, 0) else _) = _ ∧ _
  by_cases nothing : matchedState.matchingRunCount = 0
  · rw [if_pos nothing]
    have none_pass := (matched known found_known).2 nothing
    have no_rows : sel.rows 0 = [] := by
      cases sel <;> rfl
    refine ⟨matchedState, data, sel, 0, rfl, ⟨matched, Or.inr ?_⟩, ?_, ?_, ?_⟩
    · have settled : matchedState.matchingRuns.isSome = true ∧ matchedState.matchingRunCount = 0 :=
        ⟨by rw [found_known]; rfl, nothing⟩
      rcases follows.place with here | ⟨reached, early, behind, -⟩
      · exact ⟨position, Nat.le_add_right _ _, (same_place _).mpr here, settled⟩
      · exact ⟨reached, early.trans (Nat.le_add_right _ _), (same_place _).mpr behind, settled⟩
    · rw [no_rows, eq_comm, List.filter_eq_nil_iff]
      intro row _
      rw [passesRow_of_none none_pass]
      exact Bool.false_ne_true
    · rw [no_rows]
      rfl
    · rw [no_rows]
      exact fun _ impossible => by cases impossible
  rw [if_neg nothing]
  -- a state that was left behind has no run that matches
  have here : matchedState.At segment position := by
    rw [same_place]
    rcases follows.place with here | ⟨_, -, -, some_known, none_match⟩
    · exact here
    · exfalso
      apply nothing
      rw [matchRuns] at applied
      cases before : state.matchingRuns with
      | none =>
          rw [before] at some_known
          cases some_known
      | some runs =>
          rw [before] at applied
          cases applied
          exact none_match
  -- either loop finds the rows that pass
  have loop : ∃ entry offset data' matching,
      selectMatching segment matchedState vectorCount data sel selCount =
        .ok (matchedState.moveTo entry offset, data', matching) ∧
      (matchedState.moveTo entry offset).At segment (position + vectorCount) ∧
      matching =
        ((sel.rows selCount).filter fun row => passesRow segment filter (position + row)) ∧
      ∀ row ∈ sel.rows selCount, passesRow segment filter (position + row) = true →
        segment.row (position + row) = some (data' row) := by
    cases sel with
    | none =>
        obtain rfl := selects.unset rfl
        obtain ⟨entry, offset, data', filtered, arrived, reads, -⟩ :=
          filterRuns_spec proper _ matchedState position data [] 0 selCount rfl here inside matched
            found_known
        rw [Nat.zero_add, List.nil_append] at filtered
        refine ⟨entry, offset, data', _, filtered, arrived, ?_, fun row member passes => ?_⟩
        · rw [← List.range_eq_range']
          rfl
        · have value := reads row (List.mem_range.mp member) passes
          rw [Nat.zero_add] at value
          exact value
    | some indexes =>
        obtain ⟨entry, offset, data', filtered, arrived, reads, -⟩ :=
          filterSelected_spec proper inside (indexes.take selCount) matchedState data [] 0 here
            (Nat.zero_le _) (fun _ _ => Nat.zero_le _) selects.increasing selects.below matched
            found_known
        rw [List.nil_append] at filtered
        exact ⟨entry, offset, data', _, filtered, arrived, rfl, reads⟩
  obtain ⟨entry, offset, data', matching, ran, arrived, hmatching, reads⟩ := loop
  have follows' : Follows segment filter (matchedState.moveTo entry offset) (position + vectorCount) :=
    ⟨matched.moveTo entry offset, Or.inl arrived⟩
  rw [ran]
  change ∃ state' data'' sel' count', (if matching.length ≠ selCount then
      pure (matchedState.moveTo entry offset, data', some matching, matching.length)
    else pure (matchedState.moveTo entry offset, data', sel, selCount)) = _ ∧ _
  split
  · refine ⟨_, _, some matching, matching.length, rfl, follows', ?_, ?_, fun row member => ?_⟩
    · rw [TableFilter.rows_selected, hmatching]
    · rw [TableFilter.rows_selected]
    · rw [TableFilter.rows_selected, hmatching] at member
      obtain ⟨there, passes⟩ := List.mem_filter.mp member
      exact reads row there passes
  · rename_i all
    rw [ne_eq, not_not] at all
    have everything : ((sel.rows selCount).filter fun row =>
        passesRow segment filter (position + row)) = sel.rows selCount := by
      rw [List.filter_eq_self, ← List.length_filter_eq_length_iff, selects.full, ← hmatching]
      exact all
    refine ⟨_, _, sel, selCount, rfl, follows', everything.symm, selects.full, fun row member => ?_⟩
    exact reads row member (List.filter_eq_self.mp everything row member)

end RLE

end StatsRecommender
