import StatsRecommender.Compression.ValidityUncompressed
import StatsRecommender.Storage.FilterSelection

/-!
# Selections in shared buffers

`ColumnSegment::FilterSelection` over the buffers that selection vectors point to.  A filter
writes to buffers of its own only, so the children of an OR may share the selection of their
parent, and what is left in the selection are the rows on which the filter is true.
-/

namespace StatsRecommender

/-- The buffers of selection vectors by their address, and the first address that is free. -/
structure SelectionBuffers where
  entries : Nat → Nat → Nat
  free : Nat

/-- `SelectionVector` by the address of its buffer; without one it selects all rows in order. -/
abbrev SelectionPointer := Option Nat

namespace SelectionBuffers

/-- A new buffer is at the first free address; its entries are what the memory holds. -/
def allocate (buffers : SelectionBuffers) : SelectionBuffers :=
  { buffers with free := buffers.free + 1 }

/-- `get_index`. -/
def getIndex (buffers : SelectionBuffers) (sel : SelectionPointer) (idx : Nat) : Nat :=
  match sel with
  | none => idx
  | some address => buffers.entries address idx

/-- `set_index`. -/
def setIndex (buffers : SelectionBuffers) (address idx loc : Nat) : SelectionBuffers :=
  { buffers with
    entries := fun other place =>
      if other = address ∧ place = idx then loc else buffers.entries other place }

/-- The first rows that are selected. -/
def rows (buffers : SelectionBuffers) (sel : SelectionPointer) (count : Nat) : List Nat :=
  (List.range count).map (buffers.getIndex sel)

end SelectionBuffers

/-- `AllValid`. -/
def ValidityMask.allValid (mask : ValidityMask) : Bool := mask.isNone

/-- A vector in the unified format, with the entries of a struct. -/
inductive ScannedVector where
  | mk (type : PhysicalType) (format : ScannedFormat) (entries : List ScannedVector)

namespace ScannedVector

def type : ScannedVector → PhysicalType
  | .mk type _ _ => type

def format : ScannedVector → ScannedFormat
  | .mk _ format _ => format

def entries : ScannedVector → List ScannedVector
  | .mk _ _ entries => entries

/-- The value of a row. -/
def value (vector : ScannedVector) (row : Nat) : Option Payload :=
  if vector.format.rowIsValid row then some (vector.format.data (vector.format.sel row)) else none

end ScannedVector

/-- A selection vector and its approved tuple count, over the buffers. -/
structure BufferedSelection where
  buffers : SelectionBuffers
  sel : SelectionPointer
  approvedTupleCount : Nat

namespace BufferedSelection

open TableFilter (switches expressionChunks)

def rows (selection : BufferedSelection) : List Nat :=
  selection.buffers.rows selection.sel selection.approvedTupleCount

/-! ## The loops -/

/-- One round of the loop of `TemplatedFilterSelection`. -/
def filterRow (vdata : ScannedFormat) (operation : Payload → Payload → Bool) (hasNull : Bool)
    (predicate : Payload) (resultSel : Nat) (state : SelectionBuffers × Nat) (idx : Nat) :
    SelectionBuffers × Nat :=
  let vectorIdx := vdata.sel idx
  let comparisonResult :=
    (!hasNull || vdata.validity.rowIsValid vectorIdx) && operation (vdata.data vectorIdx) predicate
  (state.1.setIndex resultSel state.2 idx, state.2 + comparisonResult.toNat)

/-- `TemplatedFilterSelection`: every row is written, and counted if it passes. -/
def templatedFilterSelection (vdata : ScannedFormat)
    (operation : Payload → Payload → Bool) (hasNull : Bool) (predicate : Payload)
    (sel : SelectionPointer) (approvedTupleCount resultSel : Nat) (buffers : SelectionBuffers) :
    SelectionBuffers × Nat :=
  (List.range approvedTupleCount).foldl
    (fun state i =>
      filterRow vdata operation hasNull predicate resultSel state (state.1.getIndex sel i))
    (buffers, 0)

/-- `FilterSelectionSwitch`. -/
def filterSelectionSwitch (vdata : ScannedFormat) (predicate : Payload)
    (selection : BufferedSelection) (comparison : ComparisonType) :
    Except String BufferedSelection :=
  let newSel := selection.buffers.free
  if switches comparison then
    let (buffers, count) := templatedFilterSelection vdata comparison.holds
      (!vdata.validity.allValid) predicate selection.sel selection.approvedTupleCount newSel
      selection.buffers.allocate
    pure ⟨buffers, some newSel, count⟩
  else throw "Unknown comparison type for filter pushed down to table!"

/-- One round of the loop of `TemplatedNullSelection`. -/
def nullRow (isNull : Bool) (vdata : ScannedFormat) (resultSel : Nat)
    (state : SelectionBuffers × Nat) (idx : Nat) : SelectionBuffers × Nat :=
  if vdata.validity.rowIsValid (vdata.sel idx) ≠ isNull then
    (state.1.setIndex resultSel state.2 idx, state.2 + 1)
  else state

/-- `TemplatedNullSelection`, with the value returned. -/
def templatedNullSelection (isNull : Bool) (vdata : ScannedFormat)
    (selection : BufferedSelection) : BufferedSelection × Nat :=
  if vdata.validity.allValid then
    if isNull then ({ selection with approvedTupleCount := 0 }, 0)
    else (selection, selection.approvedTupleCount)
  else
    let resultSel := selection.buffers.free
    let (buffers, resultCount) := (List.range selection.approvedTupleCount).foldl
      (fun state i => nullRow isNull vdata resultSel state (state.1.getIndex selection.sel i))
      (selection.buffers.allocate, 0)
    (⟨buffers, some resultSel, resultCount⟩, resultCount)

/-- A tuple that passed is moved into the result of an OR, unless it is there. -/
def moveRow (resultSel : Nat) (state : SelectionBuffers × Nat) (newIdx : Nat) :
    SelectionBuffers × Nat :=
  if (List.range state.2).any fun resIdx => state.1.entries resultSel resIdx == newIdx then state
  else (state.1.setIndex resultSel state.2 newIdx, state.2 + 1)

/-- The loop over the tuples that passed a child of an OR. -/
def moveRows (tempSel : SelectionPointer) (tempCount resultSel : Nat)
    (state : SelectionBuffers × Nat) : SelectionBuffers × Nat :=
  (List.range tempCount).foldl
    (fun state i => moveRow resultSel state (state.1.getIndex tempSel i)) state

/-- The rows that `SelectExpression` leaves are stored in the result. -/
def storeRows (resultSel : Nat) (rows : List Nat) (buffers : SelectionBuffers) :
    SelectionBuffers × Nat :=
  rows.foldl (fun state row => (state.1.setIndex resultSel state.2 row, state.2 + 1)) (buffers, 0)

/-! ## FilterSelection -/

/-- The types that a constant comparison has a case for. -/
def comparesInScan : PhysicalType → Bool
  | .uint8 | .uint16 | .uint32 | .uint64 | .int8 | .int16 | .int32 | .int64 => true
  | .int128 | .uint128 | .float | .double | .varchar | .bool => true
  | .interval | .list | .struct | .array | .bit | .unknown => false

mutual

/-- `ColumnSegment::FilterSelection`: the selection that is left, and the value returned. -/
def filterSelection (scanCount : Nat) :
    TableFilter → ScannedVector → BufferedSelection → Except String (BufferedSelection × Nat)
  | .optionalFilter _, _, selection => pure (selection, scanCount)
  | .conjunctionOr children, vector, selection => do
      let resultSel := selection.buffers.free
      let (buffers, countTotal) ← filterSelectionOr scanCount resultSel children vector
        { selection with buffers := selection.buffers.allocate } 0
      pure (⟨buffers, some resultSel, countTotal⟩, countTotal)
  | .conjunctionAnd children, vector, selection => do
      let selection ← filterSelectionAnd scanCount children vector selection
      pure (selection, selection.approvedTupleCount)
  | .constantComparison comparison constant, vector, selection =>
      if comparesInScan vector.type then do
        let selection ←
          filterSelectionSwitch vector.format constant.payload selection comparison
        pure (selection, selection.approvedTupleCount)
      else throw "Invalid type for filter pushed down to table comparison"
  | .isNull, vector, selection => pure (templatedNullSelection true vector.format selection)
  | .isNotNull, vector, selection => pure (templatedNullSelection false vector.format selection)
  | .structExtract childIdx _ child, vector, selection =>
      match vector.entries[childIdx]? with
      | some entry => filterSelection scanCount child entry selection
      | none => throw "Attempted to access an index behind the size of a vector"
  | .expressionFilter expr, vector, selection => do
      let rows := selection.rows
      let test := fun row => expr (vector.value row) == some true
      let passed ←
        if standardVectorSize < scanCount then
          expressionChunks test scanCount
            ((scanCount + (standardVectorSize - 1)) / standardVectorSize) 0 rows
        else pure (rows.filter test)
      let resultSel := selection.buffers.free
      let (buffers, count) := storeRows resultSel passed selection.buffers.allocate
      pure (⟨buffers, some resultSel, count⟩, count)
  | .inFilter _ _, _, _ | .dynamicFilter _, _, _ =>
      throw "FIXME: unsupported type for filter selection"

/-- The loop over the children of an OR; each starts from the selection of the OR. -/
def filterSelectionOr (scanCount resultSel : Nat) :
    List TableFilter → ScannedVector → BufferedSelection → Nat →
      Except String (SelectionBuffers × Nat)
  | [], _, selection, countTotal => pure (selection.buffers, countTotal)
  | child :: rest, vector, selection, countTotal => do
      let (temp, tempCount) ← filterSelection scanCount child vector selection
      let (buffers, countTotal) := moveRows temp.sel tempCount resultSel (temp.buffers, countTotal)
      filterSelectionOr scanCount resultSel rest vector { selection with buffers } countTotal

/-- The loop over the children of an AND, on the selection itself. -/
def filterSelectionAnd (scanCount : Nat) :
    List TableFilter → ScannedVector → BufferedSelection → Except String BufferedSelection
  | [], _, selection => pure selection
  | child :: rest, vector, selection => do
      let (selection, _) ← filterSelection scanCount child vector selection
      filterSelectionAnd scanCount rest vector selection

end

end BufferedSelection

namespace TableFilter

open BufferedSelection (comparesInScan)

mutual

/--
The filters over a column that the optimizer places: comparisons that the scan knows, null
checks, and optional filters at the top or below AND only.
-/
def placed (type : PhysicalType) : TableFilter → Bool
  | .constantComparison comparison _ => switches comparison && comparesInScan type
  | .isNull | .isNotNull | .optionalFilter _ => true
  | .conjunctionOr children => placedBelowOr type children
  | .conjunctionAnd children => placedBelowAnd type children
  | .structExtract _ _ _ | .inFilter _ _ | .dynamicFilter _ | .expressionFilter _ => false

def placedBelowOr (type : PhysicalType) : List TableFilter → Bool
  | [] => true
  | child :: rest => !child.isOptional && child.placed type && placedBelowOr type rest

def placedBelowAnd (type : PhysicalType) : List TableFilter → Bool
  | [] => true
  | child :: rest => child.placed type && placedBelowAnd type rest

end

mutual

/-- The filter with its optional filters left out. -/
def withoutOptional : TableFilter → TableFilter
  | .conjunctionOr children => .conjunctionOr (withoutOptionals children)
  | .conjunctionAnd children => .conjunctionAnd (withoutOptionals children)
  | .optionalFilter _ => .conjunctionAnd []
  | filter => filter

def withoutOptionals : List TableFilter → List TableFilter
  | [] => []
  | child :: rest => child.withoutOptional :: withoutOptionals rest

end

/-- What passes a filter is that on which it is true, where optional filters count as true. -/
theorem passes_iff (type : PhysicalType) (filter : TableFilter)
    (placed : filter.placed type = true) (value : Option Payload) :
    filter.passes value = true ↔ filter.withoutOptional.eval value = some true := by
  induction filter using TableFilter.inductionOn with
  | constantComparison comparison constant =>
      rw [TableFilter.placed, Bool.and_eq_true] at placed
      cases value with
      | some payload => simp [passes, withoutOptional, eval, ComparisonType.eval]
      | none => cases comparison <;> simp_all [passes, withoutOptional, eval, ComparisonType.eval, switches]
  | isNull => simp [passes, withoutOptional, eval]
  | isNotNull => simp [passes, withoutOptional, eval]
  | conjunctionOr children ih =>
      rw [TableFilter.placed] at placed
      rw [passes, withoutOptional, eval]
      induction children with
      | nil => simp [passesAny, withoutOptionals, evalAny]
      | cons child rest ihRest =>
          rw [placedBelowOr, Bool.and_eq_true, Bool.and_eq_true] at placed
          rw [passesAny, withoutOptionals, evalAny, ThreeValued.or_eq_true_iff, Bool.or_eq_true,
            ih child List.mem_cons_self placed.1.2,
            ihRest (fun other member => ih other (List.mem_cons_of_mem _ member)) placed.2]
  | conjunctionAnd children ih =>
      rw [TableFilter.placed] at placed
      rw [passes, withoutOptional, eval]
      induction children with
      | nil => simp [passesAll, withoutOptionals, evalAll]
      | cons child rest ihRest =>
          rw [placedBelowAnd, Bool.and_eq_true] at placed
          rw [passesAll, withoutOptionals, evalAll, ThreeValued.and_eq_true_iff, Bool.and_eq_true,
            ih child List.mem_cons_self placed.1,
            ihRest (fun other member => ih other (List.mem_cons_of_mem _ member)) placed.2]
  | optionalFilter child => simp [passes, withoutOptional, eval, evalAll]
  | structExtract => cases placed
  | inFilter => cases placed
  | dynamicFilter => cases placed
  | expressionFilter => cases placed

end TableFilter

/-! ## What a loop writes -/

theorem foldl_keep (test : Nat → Bool) (rows result : List Nat) :
    rows.foldl (fun result row => if test row then result ++ [row] else result) result =
      result ++ rows.filter test := by
  induction rows generalizing result with
  | nil => simp
  | cons row rest ih =>
      rw [List.foldl_cons, ih]
      cases passed : test row with
      | true => simp [passed]
      | false => simp [passed]

variable {round : SelectionBuffers × Nat → Nat → SelectionBuffers × Nat}

namespace SelectionBuffers

variable {original buffers : SelectionBuffers} {resultSel count : Nat} {rows : List Nat}
  {sel : SelectionPointer}

theorem rows_succ (buffers : SelectionBuffers) (sel : SelectionPointer) (count : Nat) :
    buffers.rows sel (count + 1) = buffers.rows sel count ++ [buffers.getIndex sel count] := by
  rw [SelectionBuffers.rows, List.range_succ, List.map_append]
  rfl

theorem length_rows (buffers : SelectionBuffers) (sel : SelectionPointer) (count : Nat) :
    (buffers.rows sel count).length = count := by
  simp [SelectionBuffers.rows]

/-- A selection only depends on its own buffer. -/
theorem getIndex_congr (same : ∀ address ∈ sel, buffers.entries address = original.entries address)
    (idx : Nat) : buffers.getIndex sel idx = original.getIndex sel idx := by
  cases sel with
  | none => rfl
  | some address => exact congrFun (same address rfl) idx

theorem rows_congr (same : ∀ address ∈ sel, buffers.entries address = original.entries address)
    (count : Nat) : buffers.rows sel count = original.rows sel count :=
  List.map_congr_left fun idx _ => getIndex_congr same idx

/-- Rows were written to a buffer, and nothing else has changed. -/
structure Written (original buffers : SelectionBuffers) (resultSel : Nat) (rows : List Nat)
    (count : Nat) : Prop where
  free_eq : buffers.free = original.free
  others : ∀ address ≠ resultSel, buffers.entries address = original.entries address
  rows_eq : buffers.rows (some resultSel) count = rows

/-- A row behind the count is not selected yet. -/
theorem Written.mark (written : Written original buffers resultSel rows count) (loc : Nat) :
    Written original (buffers.setIndex resultSel count loc) resultSel rows count := by
  refine ⟨written.free_eq, ?_, ?_⟩
  · intro address other
    rw [← written.others address other]
    funext place
    simp [setIndex, other]
  · rw [← written.rows_eq]
    refine List.map_congr_left fun idx member => ?_
    have before : idx ≠ count := Nat.ne_of_lt (List.mem_range.mp member)
    simp [getIndex, setIndex, before]

/-- A row is selected behind the others. -/
theorem Written.push (written : Written original buffers resultSel rows count) (loc : Nat) :
    Written original (buffers.setIndex resultSel count loc) resultSel (rows ++ [loc])
      (count + 1) := by
  obtain ⟨free_eq, others, rows_eq⟩ := written.mark loc
  refine ⟨free_eq, others, ?_⟩
  rw [rows_succ, rows_eq]
  simp [getIndex, setIndex]

/-- A loop that reads one selection and writes another goes over the rows of the first. -/
theorem Written.loop {taken : List Nat → Nat → List Nat} {state : SelectionBuffers × Nat}
    (step : ∀ (state : SelectionBuffers × Nat) rows idx,
      Written original state.1 resultSel rows state.2 →
        Written original (round state idx).1 resultSel (taken rows idx) (round state idx).2)
    (apart : sel ≠ some resultSel) (start : Written original state.1 resultSel rows state.2)
    (count : Nat) :
    let final := (List.range count).foldl (fun state i => round state (state.1.getIndex sel i)) state
    Written original final.1 resultSel ((original.rows sel count).foldl taken rows) final.2 := by
  induction count with
  | zero => exact start
  | succ count ih =>
      dsimp only at ih ⊢
      rw [List.range_succ, List.foldl_append, List.foldl_cons, List.foldl_nil, rows_succ,
        List.foldl_append, List.foldl_cons, List.foldl_nil]
      have others : ∀ address ∈ sel, _ = original.entries address :=
        fun address member => ih.others address fun here => apart (here ▸ member)
      have same := getIndex_congr others count
      rw [same]
      exact step _ _ _ ih

/-- A loop that fills a new buffer with the rows that pass a test. -/
theorem Written.filter {test : Nat → Bool} (step : ∀ (state : SelectionBuffers × Nat) rows idx,
      Written original state.1 resultSel rows state.2 →
        Written original (round state idx).1 resultSel
          (if test idx then rows ++ [idx] else rows) (round state idx).2)
    (apart : sel ≠ some resultSel) (count : Nat) :
    let final := (List.range count).foldl (fun state i => round state (state.1.getIndex sel i))
      (original, 0)
    Written original final.1 resultSel ((original.rows sel count).filter test) final.2 := by
  have start : Written original (original, 0).1 resultSel [] (original, 0).2 :=
    ⟨rfl, fun _ _ => rfl, rfl⟩
  have written := Written.loop step apart start count
  rwa [foldl_keep, List.nil_append] at written

end SelectionBuffers

/-! ## What a filter leaves -/

namespace BufferedSelection

open TableFilter (switches addNew)
open SelectionBuffers

variable {before after selection : BufferedSelection} {rows : List Nat}

/-- The selection was narrowed to some rows, by writes to new buffers only. -/
structure Narrowed (before after : BufferedSelection) (rows : List Nat) : Prop where
  rows_eq : after.rows = rows
  free_le : before.buffers.free ≤ after.buffers.free
  kept : ∀ address < before.buffers.free,
    after.buffers.entries address = before.buffers.entries address
  sel_eq : after.sel = before.sel ∨ ∃ address, after.sel = some address ∧
    before.buffers.free ≤ address ∧ address < after.buffers.free

/-- The buffer of the selection is in use. -/
def Held (selection : BufferedSelection) : Prop :=
  ∀ address ∈ selection.sel, address < selection.buffers.free

theorem Held.ne_free (held : selection.Held) : selection.sel ≠ some selection.buffers.free :=
  fun same => Nat.lt_irrefl _ (held _ same)

theorem Narrowed.held (narrowed : Narrowed before after rows) (held : before.Held) :
    after.Held := by
  intro address member
  rcases narrowed.sel_eq with same | ⟨fresh, sel_eq, _, inside⟩
  · rw [same] at member
    exact Nat.lt_of_lt_of_le (held address member) narrowed.free_le
  · rw [sel_eq] at member
    cases member
    exact inside

theorem Narrowed.refl (selection : BufferedSelection) :
    Narrowed selection selection selection.rows :=
  ⟨rfl, Nat.le_refl _, fun _ _ => rfl, Or.inl rfl⟩

theorem Narrowed.trans {middle : BufferedSelection} {others : List Nat}
    (first : Narrowed before middle others) (second : Narrowed middle after rows) :
    Narrowed before after rows := by
  refine ⟨second.rows_eq, Nat.le_trans first.free_le second.free_le, ?_, ?_⟩
  · intro address inside
    rw [second.kept address (Nat.lt_of_lt_of_le inside first.free_le), first.kept address inside]
  · rcases second.sel_eq with same | ⟨address, sel_eq, low, high⟩
    · rcases first.sel_eq with same' | ⟨address, sel_eq, low, high⟩
      · exact Or.inl (same.trans same')
      · exact Or.inr ⟨address, same.trans sel_eq, low, Nat.lt_of_lt_of_le high second.free_le⟩
    · exact Or.inr ⟨address, sel_eq, Nat.le_trans first.free_le low, high⟩

/-- A loop into the first free buffer narrows the selection to what it has written. -/
theorem Narrowed.of_written {buffers : SelectionBuffers} {count : Nat}
    (written : Written selection.buffers.allocate buffers selection.buffers.free rows count) :
    Narrowed selection ⟨buffers, some selection.buffers.free, count⟩ rows := by
  have free_eq : buffers.free = selection.buffers.free + 1 := written.free_eq
  refine ⟨written.rows_eq, ?_, ?_, Or.inr ⟨_, rfl, Nat.le_refl _, ?_⟩⟩
  · dsimp only
    omega
  · intro address inside
    exact written.others address (Nat.ne_of_lt inside)
  · dsimp only
    omega

theorem rows_allocate (selection : BufferedSelection) (count : Nat) :
    selection.buffers.allocate.rows selection.sel count =
      selection.buffers.rows selection.sel count :=
  rows_congr (fun _ _ => rfl) count

/-- The comparison of a row looks at its value. -/
theorem comparison_eq (vector : ScannedVector) (operation : Payload → Payload → Bool)
    (predicate : Payload) (idx : Nat) :
    ((!(!vector.format.validity.allValid) || vector.format.rowIsValid idx) &&
        operation (vector.format.data (vector.format.sel idx)) predicate) =
      (vector.value idx).any fun payload => operation payload predicate := by
  rw [ScannedVector.value]
  cases valid : vector.format.rowIsValid idx with
  | true => simp
  | false =>
      cases all : vector.format.validity.allValid with
      | true =>
          have every : vector.format.validity = none := Option.isNone_iff_eq_none.mp all
          rw [VectorValidity.rowIsValid, every] at valid
          cases valid
      | false => simp

theorem filterSelectionSwitch_spec (vector : ScannedVector) (predicate : Payload)
    (comparison : ComparisonType) (held : selection.Held) (known : switches comparison = true) :
    ∃ after,
      filterSelectionSwitch vector.format predicate selection comparison = .ok after ∧
      Narrowed selection after (selection.rows.filter fun row =>
        (vector.value row).any fun payload => comparison.holds payload predicate) := by
  have step : ∀ (state : SelectionBuffers × Nat) rows idx,
      Written selection.buffers.allocate state.1 selection.buffers.free rows state.2 →
        Written selection.buffers.allocate
          (filterRow vector.format comparison.holds (!vector.format.validity.allValid) predicate
            selection.buffers.free state idx).1 selection.buffers.free
          (if (vector.value idx).any fun payload => comparison.holds payload predicate
            then rows ++ [idx] else rows)
          (filterRow vector.format comparison.holds (!vector.format.validity.allValid) predicate
            selection.buffers.free state idx).2 := by
    intro state rows idx written
    have same := comparison_eq vector comparison.holds predicate idx
    rw [VectorValidity.rowIsValid] at same
    rw [filterRow]
    dsimp only
    rw [same]
    cases (vector.value idx).any fun payload => comparison.holds payload predicate with
    | true => exact written.push idx
    | false => exact written.mark idx
  have written := Written.filter step held.ne_free selection.approvedTupleCount
  rw [rows_allocate] at written
  rw [filterSelectionSwitch, if_pos known]
  exact ⟨_, rfl, Narrowed.of_written written⟩

theorem templatedNullSelection_spec (vector : ScannedVector) (isNull : Bool)
    (held : selection.Held) :
    Narrowed selection (templatedNullSelection isNull vector.format selection).1
        (selection.rows.filter fun row => (vector.value row).isNone == isNull) ∧
      (templatedNullSelection isNull vector.format selection).2 =
        (templatedNullSelection isNull vector.format selection).1.approvedTupleCount := by
  have valid_iff : ∀ idx,
      ((vector.value idx).isNone == isNull) = decide (vector.format.rowIsValid idx ≠ isNull) := by
    intro idx
    rw [ScannedVector.value]
    cases vector.format.rowIsValid idx <;> cases isNull <;> rfl
  rw [templatedNullSelection]
  by_cases all : vector.format.validity.allValid = true
  · have every : ∀ idx, vector.format.rowIsValid idx = true := by
      intro idx
      rw [VectorValidity.rowIsValid, Option.isNone_iff_eq_none.mp all]
      rfl
    rw [if_pos all]
    cases isNull with
    | true =>
        refine ⟨⟨?_, Nat.le_refl _, fun _ _ => rfl, Or.inl rfl⟩, rfl⟩
        refine (List.filter_eq_nil_iff.mpr fun row _ => ?_).symm
        rw [valid_iff, every]
        exact Bool.false_ne_true
    | false =>
        refine ⟨⟨?_, Nat.le_refl _, fun _ _ => rfl, Or.inl rfl⟩, rfl⟩
        refine (List.filter_eq_self.mpr fun row _ => ?_).symm
        rw [valid_iff, every]
        rfl
  · have step : ∀ (state : SelectionBuffers × Nat) rows idx,
        Written selection.buffers.allocate state.1 selection.buffers.free rows state.2 →
          Written selection.buffers.allocate
            (nullRow isNull vector.format selection.buffers.free state idx).1
            selection.buffers.free
            (if (vector.value idx).isNone == isNull then rows ++ [idx] else rows)
            (nullRow isNull vector.format selection.buffers.free state idx).2 := by
      intro state rows idx written
      rw [nullRow, valid_iff]
      by_cases passed : vector.format.rowIsValid idx ≠ isNull
      · have read : vector.format.validity.rowIsValid (vector.format.sel idx) ≠ isNull := passed
        rw [if_pos read, if_pos (decide_eq_true passed)]
        exact written.push idx
      · have read : ¬vector.format.validity.rowIsValid (vector.format.sel idx) ≠ isNull := passed
        rw [if_neg read, if_neg (by rw [decide_eq_false passed]; exact Bool.false_ne_true)]
        exact written
    have written := Written.filter step held.ne_free selection.approvedTupleCount
    rw [rows_allocate] at written
    rw [if_neg all]
    exact ⟨Narrowed.of_written written, rfl⟩

/-- The rows of a child of an OR that are new are put behind those before them. -/
theorem moveRows_spec {original : SelectionBuffers} {tempSel : SelectionPointer}
    {resultSel countTotal : Nat} {result : List Nat} (tempCount : Nat)
    (apart : tempSel ≠ some resultSel)
    (rows_eq : original.rows (some resultSel) countTotal = result) :
    let moved := moveRows tempSel tempCount resultSel (original, countTotal)
    Written original moved.1 resultSel (addNew result (original.rows tempSel tempCount))
      moved.2 := by
  have step : ∀ (state : SelectionBuffers × Nat) rows idx,
      Written original state.1 resultSel rows state.2 →
        Written original (moveRow resultSel state idx).1 resultSel
          (if idx ∈ rows then rows else rows ++ [idx]) (moveRow resultSel state idx).2 := by
    intro state rows idx written
    have present : ((List.range state.2).any fun resIdx =>
        state.1.entries resultSel resIdx == idx) = true ↔ idx ∈ rows := by
      rw [← written.rows_eq, SelectionBuffers.rows, List.mem_map, List.any_eq_true]
      simp only [beq_iff_eq]
      rfl
    rw [moveRow]
    by_cases there : idx ∈ rows
    · rw [if_pos (present.mpr there), if_pos there]
      exact written
    · rw [if_neg (there ∘ present.mp), if_neg there]
      exact written.push idx
  exact Written.loop step apart ⟨rfl, fun _ _ => rfl, rows_eq⟩ tempCount

/-- The selection of a child of an OR, over the buffers that the children before it have left. -/
structure BetweenChildren (selection : BufferedSelection) (buffers : SelectionBuffers)
    (result : List Nat) (countTotal : Nat) : Prop where
  free_lt : selection.buffers.free < buffers.free
  kept : ∀ address < selection.buffers.free,
    buffers.entries address = selection.buffers.entries address
  rows_eq : buffers.rows (some selection.buffers.free) countTotal = result

/-- A filter leaves the rows that pass it, in buffers of its own or in the buffer it was given. -/
theorem filterSelection_narrows (scanCount : Nat) (filter : TableFilter) (vector : ScannedVector)
    (placed : filter.placed vector.type = true) (selection : BufferedSelection)
    (held : selection.Held) :
    ∃ after returned, filterSelection scanCount filter vector selection = .ok (after, returned) ∧
      Narrowed selection after (filter.matching vector.value selection.rows) ∧
      (filter.isOptional = false → returned = after.approvedTupleCount) := by
  induction filter using TableFilter.inductionOn generalizing selection with
  | constantComparison comparison constant =>
      rw [TableFilter.placed, Bool.and_eq_true] at placed
      obtain ⟨after, ran, narrowed⟩ :=
        filterSelectionSwitch_spec vector constant.payload comparison held placed.1
      rw [filterSelection, if_pos placed.2, ran]
      exact ⟨after, _, rfl, narrowed, fun _ => rfl⟩
  | isNull =>
      obtain ⟨narrowed, returned⟩ := templatedNullSelection_spec vector true held
      simp only [beq_true] at narrowed
      exact ⟨_, _, rfl, narrowed, fun _ => returned⟩
  | isNotNull =>
      obtain ⟨narrowed, returned⟩ := templatedNullSelection_spec vector false held
      simp only [beq_false, Option.not_isNone] at narrowed
      exact ⟨_, _, rfl, narrowed, fun _ => returned⟩
  | conjunctionOr children ih =>
      rw [TableFilter.placed] at placed
      have loop : ∀ buffers result countTotal,
          BetweenChildren selection buffers result countTotal →
          ∃ buffers' countTotal', filterSelectionOr scanCount selection.buffers.free children vector
              { selection with buffers } countTotal = .ok (buffers', countTotal') ∧
            BetweenChildren selection buffers'
              (TableFilter.matchingAny vector.value children selection.rows result) countTotal' := by
        induction children with
        | nil => exact fun buffers result countTotal between => ⟨buffers, countTotal, rfl, between⟩
        | cons child rest ihRest =>
            intro buffers result countTotal between
            rw [TableFilter.placedBelowOr, Bool.and_eq_true, Bool.and_eq_true,
              Bool.not_eq_true'] at placed
            obtain ⟨⟨definite, placed_child⟩, placed_rest⟩ := placed
            -- the child shares the selection of the OR, whose buffer was not written
            have shared : BufferedSelection.rows { selection with buffers } = selection.rows :=
              rows_congr (fun address member => between.kept address (held address member)) _
            have held_shared : Held { selection with buffers } := fun address member =>
              Nat.lt_trans (held address member) between.free_lt
            obtain ⟨temp, returned, ran, narrowed, count_eq⟩ :=
              ih child List.mem_cons_self placed_child { selection with buffers } held_shared
            rw [shared] at narrowed
            have apart : temp.sel ≠ some selection.buffers.free := by
              intro same
              rcases narrowed.sel_eq with old | ⟨address, fresh, low, _⟩
              · exact held.ne_free (old.symm.trans same)
              · rw [same] at fresh
                cases fresh
                exact Nat.lt_irrefl _ (Nat.lt_of_lt_of_le between.free_lt low)
            have result_kept : temp.buffers.rows (some selection.buffers.free) countTotal = result := by
              rw [← between.rows_eq]
              refine rows_congr (fun address member => ?_) _
              cases member
              exact narrowed.kept _ between.free_lt
            have moved := moveRows_spec temp.approvedTupleCount apart result_kept
            have next : BetweenChildren selection
                (moveRows temp.sel returned selection.buffers.free (temp.buffers, countTotal)).1
                (addNew result (child.matching vector.value selection.rows))
                (moveRows temp.sel returned selection.buffers.free (temp.buffers, countTotal)).2 := by
              rw [count_eq definite]
              refine ⟨?_, ?_, ?_⟩
              · rw [moved.free_eq]
                exact Nat.lt_of_lt_of_le between.free_lt narrowed.free_le
              · intro address inside
                rw [moved.others address (Nat.ne_of_lt inside),
                  narrowed.kept address (Nat.lt_trans inside between.free_lt)]
                exact between.kept address inside
              · rw [moved.rows_eq, ← narrowed.rows_eq]
                rfl
            rw [filterSelectionOr, ran]
            exact ihRest (fun other member => ih other (List.mem_cons_of_mem _ member)) placed_rest
              _ _ _ next
      obtain ⟨buffers, countTotal, ran, between⟩ := loop selection.buffers.allocate [] 0
        ⟨Nat.lt_succ_self _, fun _ _ => rfl, rfl⟩
      rw [filterSelection]
      dsimp only
      rw [ran]
      refine ⟨_, _, rfl, ⟨between.rows_eq, Nat.le_of_lt between.free_lt, between.kept, ?_⟩,
        fun _ => rfl⟩
      exact Or.inr ⟨_, rfl, Nat.le_refl _, between.free_lt⟩
  | conjunctionAnd children ih =>
      rw [TableFilter.placed] at placed
      have loop : ∀ selection : BufferedSelection, selection.Held →
          ∃ after, filterSelectionAnd scanCount children vector selection = .ok after ∧
            Narrowed selection after
              (TableFilter.matchingAll vector.value children selection.rows) := by
        induction children with
        | nil => exact fun selection _ => ⟨selection, rfl, Narrowed.refl selection⟩
        | cons child rest ihRest =>
            intro selection held
            rw [TableFilter.placedBelowAnd, Bool.and_eq_true] at placed
            obtain ⟨middle, returned, ran, first, _⟩ :=
              ih child List.mem_cons_self placed.1 selection held
            obtain ⟨after, ran_rest, second⟩ :=
              ihRest (fun other member => ih other (List.mem_cons_of_mem _ member)) placed.2 middle
                (first.held held)
            rw [first.rows_eq] at second
            rw [filterSelectionAnd, ran]
            exact ⟨after, ran_rest, first.trans second⟩
      obtain ⟨after, ran, narrowed⟩ := loop selection held
      rw [filterSelection, ran]
      exact ⟨after, _, rfl, narrowed, fun _ => rfl⟩
  | optionalFilter child =>
      refine ⟨selection, scanCount, rfl, ?_, fun definite => by cases definite⟩
      have all : TableFilter.matching vector.value (.optionalFilter child) selection.rows =
          selection.rows := List.filter_eq_self.mpr fun _ _ => rfl
      rw [all]
      exact Narrowed.refl selection
  | structExtract => cases placed
  | inFilter => cases placed
  | dynamicFilter => cases placed
  | expressionFilter => cases placed

/--
What is left in the selection are the rows on which the filter is true, each once, and the
approved count is their number; no buffer that was in use is written.
-/
theorem filterSelection_exact (scanCount : Nat) (filter : TableFilter) (vector : ScannedVector)
    (placed : filter.placed vector.type = true) (selection : BufferedSelection)
    (held : selection.Held) (distinct : selection.rows.Nodup) :
    ∃ after returned, filterSelection scanCount filter vector selection = .ok (after, returned) ∧
      after.rows.Nodup ∧
      (∀ row, row ∈ after.rows ↔
        row ∈ selection.rows ∧ filter.withoutOptional.eval (vector.value row) = some true) ∧
      after.approvedTupleCount = (selection.rows.filter fun row =>
        filter.withoutOptional.eval (vector.value row) == some true).length ∧
      ∀ address < selection.buffers.free,
        after.buffers.entries address = selection.buffers.entries address := by
  obtain ⟨after, returned, ran, narrowed, _⟩ :=
    filterSelection_narrows scanCount filter vector placed selection held
  have true_iff : ∀ row, filter.passes (vector.value row) =
      (filter.withoutOptional.eval (vector.value row) == some true) := by
    intro row
    rw [Bool.eq_iff_iff, beq_iff_eq]
    exact TableFilter.passes_iff vector.type filter placed (vector.value row)
  have left := TableFilter.matching_perm vector.value filter selection.rows distinct
  rw [← narrowed.rows_eq] at left
  simp only [true_iff] at left
  refine ⟨after, returned, ran, left.nodup_iff.mpr (distinct.filter _), ?_, ?_, narrowed.kept⟩
  · intro row
    rw [left.mem_iff, List.mem_filter, beq_iff_eq]
  · rw [← left.length_eq]
    exact (length_rows _ _ _).symm

/-- Three rows of the integers 0, NULL and 2. -/
def threeRows : ScannedVector :=
  .mk .int32 ⟨⟨id, some fun _ => ~~~2#64⟩, fun row => .integer row⟩ []

theorem filterSelection_exact_of_threeRows :
    ∃ after returned, filterSelection 3
        (.conjunctionOr [.isNull, .constantComparison .compareGreaterThan ⟨.integer, .integer 1⟩])
        threeRows ⟨⟨fun _ _ => 7, 0⟩, none, 3⟩ = .ok (after, returned) ∧
      after.rows.Nodup ∧ after.approvedTupleCount = 2 := by
  obtain ⟨after, returned, ran, distinct, _, count, _⟩ := filterSelection_exact 3
    (.conjunctionOr [.isNull, .constantComparison .compareGreaterThan ⟨.integer, .integer 1⟩])
    threeRows (by decide) ⟨⟨fun _ _ => 7, 0⟩, none, 3⟩ (fun _ member => by cases member) (by decide)
  refine ⟨after, returned, ran, distinct, count.trans ?_⟩
  decide +kernel

end BufferedSelection

end StatsRecommender
