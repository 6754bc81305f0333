import StatsRecommender.Planner.TableFilter

/-!
# Filter selections

`ColumnSegment::FilterSelection` narrows a selection of rows to those that pass a filter, and
`FiltersNullValues` tells what a filter does to rows of which only the validity is known.
-/

namespace StatsRecommender

/-- `SelectionVector`; one that is not set selects all rows in their order. -/
abbrev SelectionVector := Option (List Nat)

/-- The first `count` rows that are selected. -/
def SelectionVector.rows (sel : SelectionVector) (count : Nat) : List Nat :=
  match sel with
  | none => List.range count
  | some indexes => indexes.take count

namespace TableFilter

/-! ## Row by row -/

mutual

/-- Whether a value passes the filter; an optional filter may be left out. -/
def passes : TableFilter → Option Payload → Bool
  | .constantComparison comparison constant, value =>
      value.any fun payload => comparison.holds payload constant.payload
  | .isNull, value => value.isNone
  | .isNotNull, value => value.isSome
  | .conjunctionOr children, value => passesAny children value
  | .conjunctionAnd children, value => passesAll children value
  | .optionalFilter _, _ => true
  | .expressionFilter expr, value => expr value == some true
  | _, _ => false

def passesAny : List TableFilter → Option Payload → Bool
  | [], _ => false
  | child :: rest, value => child.passes value || passesAny rest value

def passesAll : List TableFilter → Option Payload → Bool
  | [], _ => true
  | child :: rest, value => child.passes value && passesAll rest value

end

/-- The comparisons that `FilterSelectionSwitch` has a case for. -/
def switches : ComparisonType → Bool
  | .compareEqual | .compareNotEqual | .compareLessThan | .compareGreaterThan => true
  | .compareLessThanOrEqualTo | .compareGreaterThanOrEqualTo => true
  | .compareDistinctFrom | .compareNotDistinctFrom => false

mutual

/-- The filters over a standard column, with optional ones at the top or below AND only. -/
def supported : TableFilter → Bool
  | .constantComparison comparison _ => switches comparison
  | .isNull | .isNotNull | .optionalFilter _ | .expressionFilter _ => true
  | .conjunctionOr children => supportedBelowOr children
  | .conjunctionAnd children => supportedBelowAnd children
  | .structExtract _ _ _ | .inFilter _ _ | .dynamicFilter _ => false

def supportedBelowOr : List TableFilter → Bool
  | [] => true
  | child :: rest => !child.isOptional && child.supported && supportedBelowOr rest

def supportedBelowAnd : List TableFilter → Bool
  | [] => true
  | child :: rest => child.supported && supportedBelowAnd rest

end

/-! ## FilterSelection -/

/-- The rows of a child that are new are put behind those of the children before it. -/
def addNew (result rows : List Nat) : List Nat :=
  rows.foldl (fun result row => if row ∈ result then result else result ++ [row]) result

/-- The loop over the chunks of an expression filter, for the rows that are left. -/
def expressionChunks (test : Nat → Bool) (scanCount : Nat) :
    (chunks offset : Nat) → List Nat → Except String (List Nat)
  | 0, _, _ => pure []
  | chunks + 1, offset, rows => do
      let chunkCount := min standardVectorSize (scanCount - offset)
      let current := rows.takeWhile fun row => decide (row < offset + chunkCount)
      if current.any fun row => decide (row < offset) then
        throw "sel_index < offset in expression filter"
      let rest ← expressionChunks test scanCount chunks (offset + chunkCount)
        (rows.dropWhile fun row => decide (row < offset + chunkCount))
      pure (current.filter test ++ rest)

/-- A selection of some rows, with the count twice: as approved tuples and as the result. -/
def selected (rows : List Nat) : SelectionVector × Nat × Nat := (some rows, rows.length, rows.length)

mutual

/--
`ColumnSegment::FilterSelection` over `scanCount` values: the selection, the approved tuple count
and the value returned.
-/
def filterSelection (values : Nat → Option Payload) (allValid : Bool) (scanCount : Nat) :
    TableFilter → SelectionVector → Nat → Except String (SelectionVector × Nat × Nat)
  | .optionalFilter _, sel, count => pure (sel, count, scanCount)
  | .conjunctionOr children, sel, count => do
      let result ← filterSelectionAny values allValid scanCount children sel count []
      pure (selected result)
  | .conjunctionAnd children, sel, count => do
      let (sel, count) ← filterSelectionAll values allValid scanCount children sel count
      pure (sel, count, count)
  | .constantComparison comparison constant, sel, count =>
      if switches comparison then
        pure (selected ((sel.rows count).filter fun row =>
          (values row).any fun payload => comparison.holds payload constant.payload))
      else throw "Unknown comparison type for filter pushed down to table!"
  | .isNull, sel, count =>
      if allValid then pure (sel, 0, 0)
      else pure (selected ((sel.rows count).filter fun row => (values row).isNone))
  | .isNotNull, sel, count =>
      if allValid then pure (sel, count, count)
      else pure (selected ((sel.rows count).filter fun row => (values row).isSome))
  | .expressionFilter expr, sel, count =>
      if standardVectorSize < scanCount then do
        let result ← expressionChunks (fun row => expr (values row) == some true) scanCount
          ((scanCount + (standardVectorSize - 1)) / standardVectorSize) 0 (sel.rows count)
        pure (selected result)
      else
        pure (selected ((sel.rows count).filter fun row => expr (values row) == some true))
  | .structExtract _ _ _, _, _ | .inFilter _ _, _, _ | .dynamicFilter _, _, _ =>
      throw "FIXME: unsupported type for filter selection"

/-- The loop over the children of an OR. -/
def filterSelectionAny (values : Nat → Option Payload) (allValid : Bool) (scanCount : Nat) :
    List TableFilter → SelectionVector → Nat → List Nat → Except String (List Nat)
  | [], _, _, result => pure result
  | child :: rest, sel, count, result => do
      let (tempSel, _, tempCount) ← filterSelection values allValid scanCount child sel count
      filterSelectionAny values allValid scanCount rest sel count
        (addNew result (tempSel.rows tempCount))

/-- The loop over the children of an AND. -/
def filterSelectionAll (values : Nat → Option Payload) (allValid : Bool) (scanCount : Nat) :
    List TableFilter → SelectionVector → Nat → Except String (SelectionVector × Nat)
  | [], sel, count => pure (sel, count)
  | child :: rest, sel, count => do
      let (sel, count, _) ← filterSelection values allValid scanCount child sel count
      filterSelectionAll values allValid scanCount rest sel count

end

/-! ## FiltersNullValues -/

mutual

/-- `FiltersNullValues`: whether NULLs, and whether valid values, are filtered out. -/
def filtersNullValues : TableFilter → Except String (Bool × Bool)
  | .optionalFilter _ => pure (false, false)
  | .conjunctionOr children => filtersNullValuesAny children true true
  | .conjunctionAnd children => filtersNullValuesAll children false false
  | .constantComparison _ _ => pure (true, false)
  | .isNull => pure (false, true)
  | .isNotNull => pure (true, false)
  | .expressionFilter expr => pure (!(expr none == some true), false)
  | .structExtract _ _ _ | .inFilter _ _ | .dynamicFilter _ =>
      throw "FIXME: unsupported type for filter selection in validity select"

def filtersNullValuesAny : List TableFilter → Bool → Bool → Except String (Bool × Bool)
  | [], filtersNulls, filtersValid => pure (filtersNulls, filtersValid)
  | child :: rest, filtersNulls, filtersValid => do
      let (childNulls, childValid) ← child.filtersNullValues
      filtersNullValuesAny rest (filtersNulls && childNulls) (filtersValid && childValid)

def filtersNullValuesAll : List TableFilter → Bool → Bool → Except String (Bool × Bool)
  | [], filtersNulls, filtersValid => pure (filtersNulls, filtersValid)
  | child :: rest, filtersNulls, filtersValid => do
      let (childNulls, childValid) ← child.filtersNullValues
      filtersNullValuesAll rest (filtersNulls || childNulls) (filtersValid || childValid)

end

/-! ## What is selected -/

mutual

/-- The rows that pass, in the order in which they are selected. -/
def matching (values : Nat → Option Payload) : TableFilter → List Nat → List Nat
  | .conjunctionOr children, rows => matchingAny values children rows []
  | .conjunctionAnd children, rows => matchingAll values children rows
  | filter, rows => rows.filter fun row => filter.passes (values row)

def matchingAny (values : Nat → Option Payload) : List TableFilter → List Nat → List Nat → List Nat
  | [], _, result => result
  | child :: rest, rows, result =>
      matchingAny values rest rows (addNew result (child.matching values rows))

def matchingAll (values : Nat → Option Payload) : List TableFilter → List Nat → List Nat
  | [], rows => rows
  | child :: rest, rows => matchingAll values rest (child.matching values rows)

end

mutual

/-- The rows come to every expression of the filter in the order of their chunks. -/
def Orderly (values : Nat → Option Payload) : TableFilter → List Nat → Prop
  | .conjunctionOr children, rows => OrderlyAny values children rows
  | .conjunctionAnd children, rows => OrderlyAll values children rows
  | .expressionFilter _, rows =>
      rows.Pairwise fun before after => before / standardVectorSize ≤ after / standardVectorSize
  | _, _ => True

def OrderlyAny (values : Nat → Option Payload) : List TableFilter → List Nat → Prop
  | [], _ => True
  | child :: rest, rows => child.Orderly values rows ∧ OrderlyAny values rest rows

def OrderlyAll (values : Nat → Option Payload) : List TableFilter → List Nat → Prop
  | [], _ => True
  | child :: rest, rows =>
      child.Orderly values rows ∧ OrderlyAll values rest (child.matching values rows)

end

mutual

/-- No OR occurs in the filter. -/
def orFree : TableFilter → Bool
  | .conjunctionOr _ => false
  | .conjunctionAnd children => orFreeAll children
  | _ => true

def orFreeAll : List TableFilter → Bool
  | [] => true
  | child :: rest => child.orFree && orFreeAll rest

end

variable {values : Nat → Option Payload} {rows result : List Nat}

theorem addNew_cons (result rows : List Nat) (row : Nat) :
    addNew result (row :: rows) = addNew (if row ∈ result then result else result ++ [row]) rows :=
  rfl

@[simp]
theorem mem_addNew {row : Nat} : row ∈ addNew result rows ↔ row ∈ result ∨ row ∈ rows := by
  induction rows generalizing result with
  | nil => simp [addNew]
  | cons first rest ih =>
      rw [addNew_cons, ih, List.mem_cons]
      by_cases present : first ∈ result
      · rw [if_pos present]
        constructor
        · exact Or.imp_right Or.inr
        · rintro (old | rfl | new)
          · exact Or.inl old
          · exact Or.inl present
          · exact Or.inr new
      · rw [if_neg present, List.mem_append, List.mem_singleton, or_assoc]

theorem nodup_addNew (rows : List Nat) (nodup : result.Nodup) : (addNew result rows).Nodup := by
  induction rows generalizing result with
  | nil => exact nodup
  | cons first rest ih =>
      rw [addNew_cons]
      apply ih
      by_cases present : first ∈ result
      · rw [if_pos present]
        exact nodup
      · rw [if_neg present]
        refine List.Nodup.append nodup (List.nodup_singleton first) ?_
        intro row old new
        rw [List.mem_singleton.mp new] at old
        exact present old

/-- What is selected are the rows that pass, in some order. -/
theorem matching_perm (values : Nat → Option Payload) (filter : TableFilter) (rows : List Nat)
    (nodup : rows.Nodup) :
    (filter.matching values rows).Perm (rows.filter fun row => filter.passes (values row)) := by
  induction filter using TableFilter.inductionOn generalizing rows with
  | conjunctionOr children ih =>
      rw [matching]
      have spec : ∀ result : List Nat, result.Nodup → (matchingAny values children rows result).Nodup ∧
          ∀ row, row ∈ matchingAny values children rows result ↔
            row ∈ result ∨ row ∈ rows ∧ passesAny children (values row) = true := by
        induction children with
        | nil =>
            intro result fresh
            refine ⟨fresh, fun row => ?_⟩
            simp [matchingAny, passesAny]
        | cons child rest ihRest =>
            intro result fresh
            obtain ⟨distinct, members⟩ := ihRest
              (fun other member => ih other (List.mem_cons_of_mem _ member)) _
              (nodup_addNew (child.matching values rows) fresh)
            refine ⟨distinct, fun row => ?_⟩
            rw [matchingAny, members row, mem_addNew,
              (ih child List.mem_cons_self rows nodup).mem_iff, List.mem_filter, passesAny,
              Bool.or_eq_true, or_assoc, and_or_left]
      obtain ⟨distinct, members⟩ := spec [] List.nodup_nil
      rw [List.perm_ext_iff_of_nodup distinct (nodup.filter _)]
      intro row
      rw [members row, List.mem_filter, passes]
      exact or_iff_right List.not_mem_nil
  | conjunctionAnd children ih =>
      rw [matching]
      induction children generalizing rows with
      | nil =>
          simp [matchingAll, passes, passesAll]
      | cons child rest ihRest =>
          have first := ih child List.mem_cons_self rows nodup
          have others := ihRest (fun other member => ih other (List.mem_cons_of_mem _ member))
            (child.matching values rows) (first.nodup_iff.mpr (nodup.filter _))
          rw [matchingAll]
          refine others.trans ?_
          refine (first.filter _).trans ?_
          rw [List.filter_filter]
          simp only [passes, passesAll, Bool.and_comm, List.Perm.refl]
  | constantComparison => exact .refl _
  | isNull => exact .refl _
  | isNotNull => exact .refl _
  | structExtract => exact .refl _
  | optionalFilter => exact .refl _
  | inFilter => exact .refl _
  | dynamicFilter => exact .refl _
  | expressionFilter => exact .refl _

/-- Without OR, the rows stay in their order. -/
theorem matching_eq_of_orFree (filter : TableFilter) (rows : List Nat) (free : filter.orFree = true) :
    filter.matching values rows = rows.filter fun row => filter.passes (values row) := by
  induction filter using TableFilter.inductionOn generalizing rows with
  | conjunctionOr children ih => cases free
  | conjunctionAnd children ih =>
      rw [matching]
      rw [orFree] at free
      induction children generalizing rows with
      | nil => simp [matchingAll, passes, passesAll]
      | cons child rest ihRest =>
          rw [orFreeAll, Bool.and_eq_true] at free
          rw [matchingAll, ihRest (fun other member => ih other (List.mem_cons_of_mem _ member)) _
            free.2, ih child List.mem_cons_self rows free.1, List.filter_filter]
          simp only [passes, passesAll, Bool.and_comm]
  | constantComparison => rfl
  | isNull => rfl
  | isNotNull => rfl
  | structExtract => rfl
  | optionalFilter => rfl
  | inFilter => rfl
  | dynamicFilter => rfl
  | expressionFilter => rfl

theorem expressionChunks_nil (test : Nat → Bool) (scanCount chunks offset : Nat) :
    expressionChunks test scanCount chunks offset [] = .ok [] := by
  induction chunks generalizing offset with
  | zero => rfl
  | succ chunks ih =>
      rw [expressionChunks, List.takeWhile_nil, List.dropWhile_nil, List.any_nil,
        if_neg Bool.false_ne_true, ih]
      rfl

/-- The chunks of an expression filter go through when the rows come in their order. -/
theorem expressionChunks_spec (test : Nat → Bool) (scanCount chunks offset : Nat) (rows : List Nat)
    (whole : ∃ chunk, offset = chunk * standardVectorSize)
    (enough : scanCount ≤ offset + chunks * standardVectorSize)
    (inside : ∀ row ∈ rows, offset ≤ row ∧ row < scanCount)
    (ordered : rows.Pairwise fun before after =>
      before / standardVectorSize ≤ after / standardVectorSize) :
    expressionChunks test scanCount chunks offset rows = .ok (rows.filter test) := by
  induction chunks generalizing offset rows with
  | zero =>
      cases rows with
      | nil => rfl
      | cons row rest =>
          obtain ⟨low, high⟩ := inside row List.mem_cons_self
          omega
  | succ chunks ih =>
      obtain ⟨chunk, hchunk⟩ := whole
      obtain ⟨stop, hstop⟩ : ∃ stop, stop =
          offset + min standardVectorSize (scanCount - offset) := ⟨_, rfl⟩
      -- a row is below the end of the chunk if it is in the chunk
      have below : ∀ row, offset ≤ row → row < scanCount →
          (row < stop ↔ row / standardVectorSize = chunk) := by
        intro row low high
        rw [hstop, hchunk]
        rw [hchunk] at low
        rw [standardVectorSize] at *
        omega
      rw [expressionChunks]
      dsimp only
      rw [← hstop]
      have split := List.takeWhile_append_dropWhile (p := fun row => decide (row < stop)) (l := rows)
      have front : ∀ row ∈ rows.takeWhile fun row => decide (row < stop), row ∈ rows :=
        fun row member => List.takeWhile_subset _ member
      have back : ∀ row ∈ rows.dropWhile fun row => decide (row < stop), row ∈ rows :=
        fun row member => List.dropWhile_subset _ member
      rw [if_neg]
      · have later : ∀ row ∈ rows.dropWhile fun row => decide (row < stop),
            stop ≤ row ∧ row < scanCount ∧ offset + standardVectorSize ≤ stop := by
          intro row member
          obtain ⟨low, high⟩ := inside row (back row member)
          have behind : ¬row < stop := by
            cases left : rows.dropWhile fun row => decide (row < stop) with
            | nil =>
                rw [left] at member
                cases member
            | cons head others =>
                have first := List.head?_dropWhile_not (fun row => decide (row < stop)) rows
                rw [left, List.head?_cons] at first
                have head_behind : ¬head < stop := of_decide_eq_false (by simpa using first)
                rw [left] at member
                rcases List.mem_cons.mp member with rfl | there
                · exact head_behind
                · have pairs := ordered
                  rw [← split, left, List.pairwise_append, List.pairwise_cons] at pairs
                  have after := pairs.2.1.1 row there
                  have head_in := inside head (back head (by rw [left]; exact List.mem_cons_self))
                  rw [below head head_in.1 head_in.2] at head_behind
                  rw [below row low high]
                  have chunk_le : chunk ≤ head / standardVectorSize := by
                    rw [Nat.le_div_iff_mul_le (by decide), ← hchunk]
                    exact head_in.1
                  omega
          refine ⟨Nat.le_of_not_lt behind, high, ?_⟩
          omega
        have rest : expressionChunks test scanCount chunks stop
            (rows.dropWhile fun row => decide (row < stop)) =
              .ok ((rows.dropWhile fun row => decide (row < stop)).filter test) := by
          cases left : rows.dropWhile fun row => decide (row < stop) with
          | nil => exact expressionChunks_nil test scanCount chunks stop
          | cons head others =>
              rw [← left]
              have head_later := later head (by rw [left]; exact List.mem_cons_self)
              have stop_eq : stop = offset + standardVectorSize := by omega
              refine ih stop _ ⟨chunk + 1, ?_⟩ ?_ (fun row member => ?_) ?_
              · rw [stop_eq, hchunk, Nat.add_mul, Nat.one_mul]
              · rw [stop_eq]
                rw [Nat.add_mul, Nat.one_mul] at enough
                omega
              · exact ⟨(later row member).1, (later row member).2.1⟩
              · exact ordered.sublist (List.dropWhile_sublist _)
        rw [rest]
        change Except.ok _ = _
        rw [← List.filter_append, split]
      · rw [Bool.not_eq_true, List.any_eq_false]
        intro row member
        rw [decide_eq_true_eq, Nat.not_lt]
        exact (inside row (front row member)).1

theorem rows_selected (rows : List Nat) :
    SelectionVector.rows (some rows) rows.length = rows := List.take_length

/-- `FilterSelection` selects the rows that pass, and returns their number. -/
theorem filterSelection_spec (values : Nat → Option Payload) (allValid : Bool) (scanCount : Nat)
    (filter : TableFilter)
    (valid : allValid = true → ∀ row < scanCount, (values row).isSome = true)
    (supported : filter.supported = true) (sel : SelectionVector) (count : Nat)
    (full : (sel.rows count).length = count) (nodup : (sel.rows count).Nodup)
    (inside : ∀ row ∈ sel.rows count, row < scanCount)
    (orderly : scanCount ≤ standardVectorSize ∨ filter.Orderly values (sel.rows count)) :
    ∃ sel' count' returned,
      filterSelection values allValid scanCount filter sel count = .ok (sel', count', returned) ∧
      sel'.rows count' = filter.matching values (sel.rows count) ∧
      (sel'.rows count').length = count' ∧ (filter.isOptional = false → returned = count') := by
  induction filter using TableFilter.inductionOn generalizing sel count with
  | constantComparison comparison constant =>
      rw [TableFilter.supported] at supported
      rw [filterSelection, if_pos supported]
      exact ⟨_, _, _, rfl, rows_selected _, congrArg List.length (rows_selected _), fun _ => rfl⟩
  | isNull =>
      rw [filterSelection]
      split
      · rename_i all
        refine ⟨sel, 0, 0, rfl, ?_, ?_, fun _ => rfl⟩
        · have none_left : (sel.rows count).filter (fun row => passes .isNull (values row)) = [] := by
            rw [List.filter_eq_nil_iff]
            intro row member
            rw [passes, Bool.not_eq_true, Option.isNone_eq_false_iff]
            exact valid all row (inside row member)
          change _ = (sel.rows count).filter fun row => passes .isNull (values row)
          rw [none_left]
          cases sel <;> rfl
        · cases sel <;> rfl
      · exact ⟨_, _, _, rfl, rows_selected _, congrArg List.length (rows_selected _), fun _ => rfl⟩
  | isNotNull =>
      rw [filterSelection]
      split
      · rename_i all
        refine ⟨sel, count, count, rfl, ?_, full, fun _ => rfl⟩
        refine (List.filter_eq_self.mpr fun row member => ?_).symm
        exact valid all row (inside row member)
      · exact ⟨_, _, _, rfl, rows_selected _, congrArg List.length (rows_selected _), fun _ => rfl⟩
  | conjunctionOr children ih =>
      rw [TableFilter.supported] at supported
      rw [Orderly] at orderly
      rw [filterSelection]
      have loop : ∀ result, filterSelectionAny values allValid scanCount children sel count result =
          .ok (matchingAny values children (sel.rows count) result) := by
        induction children with
        | nil => exact fun _ => rfl
        | cons child rest ihRest =>
            intro result
            rw [supportedBelowOr, Bool.and_eq_true, Bool.and_eq_true, Bool.not_eq_true'] at supported
            obtain ⟨⟨definite, child_supported⟩, rest_supported⟩ := supported
            rw [OrderlyAny] at orderly
            obtain ⟨sel', count', returned, chosen, rows_eq, -, returned_eq⟩ :=
              ih child List.mem_cons_self child_supported sel count full nodup inside
                (orderly.imp_right And.left)
            rw [filterSelectionAny, chosen, matchingAny, ← rows_eq, ← returned_eq definite]
            exact ihRest (fun other member => ih other (List.mem_cons_of_mem _ member))
              rest_supported (orderly.imp_right And.right) _
      rw [loop]
      exact ⟨_, _, _, rfl, rows_selected _, congrArg List.length (rows_selected _), fun _ => rfl⟩
  | conjunctionAnd children ih =>
      rw [TableFilter.supported] at supported
      rw [Orderly] at orderly
      rw [filterSelection, matching]
      have loop : ∃ sel' count', filterSelectionAll values allValid scanCount children sel count =
          .ok (sel', count') ∧ sel'.rows count' = matchingAll values children (sel.rows count) ∧
          (sel'.rows count').length = count' := by
        induction children generalizing sel count with
        | nil => exact ⟨sel, count, rfl, rfl, full⟩
        | cons child rest ihRest =>
            rw [supportedBelowAnd, Bool.and_eq_true] at supported
            rw [OrderlyAll] at orderly
            obtain ⟨sel', count', returned, chosen, rows_eq, full', -⟩ :=
              ih child List.mem_cons_self supported.1 sel count full nodup inside
                (orderly.imp_right And.left)
            have members := matching_perm values child (sel.rows count) nodup
            rw [← rows_eq] at members orderly
            obtain ⟨last, total, ran, last_eq, last_full⟩ :=
              ihRest (fun other member => ih other (List.mem_cons_of_mem _ member)) supported.2 sel'
                count' full' (members.nodup_iff.mpr (nodup.filter _))
                (fun row member => inside row (List.mem_of_mem_filter (members.mem_iff.mp member)))
                (orderly.imp_right And.right)
            refine ⟨last, total, ?_, ?_, last_full⟩
            · rw [filterSelectionAll, chosen]
              exact ran
            · rw [matchingAll, ← rows_eq]
              exact last_eq
      obtain ⟨sel', count', ran, rows_eq, full'⟩ := loop
      rw [ran]
      exact ⟨sel', count', count', rfl, rows_eq, full', fun _ => rfl⟩
  | structExtract => cases supported
  | optionalFilter child =>
      refine ⟨sel, count, scanCount, rfl, ?_, full, fun definite => by cases definite⟩
      exact (List.filter_eq_self.mpr fun _ _ => rfl).symm
  | inFilter => cases supported
  | dynamicFilter => cases supported
  | expressionFilter expr =>
      rw [filterSelection]
      split
      · rename_i large
        have ordered := orderly.resolve_left (Nat.not_le.mpr large)
        rw [expressionChunks_spec _ scanCount _ 0 _ ⟨0, (Nat.zero_mul _).symm⟩ _
          (fun row member => ⟨Nat.zero_le row, inside row member⟩) ordered]
        · exact ⟨_, _, _, rfl, rows_selected _, congrArg List.length (rows_selected _), fun _ => rfl⟩
        · rw [standardVectorSize]
          omega
      · exact ⟨_, _, _, rfl, rows_selected _, congrArg List.length (rows_selected _), fun _ => rfl⟩

/-- `FiltersNullValues` evaluates the filter on NULL, and never tells that a valid value is lost. -/
theorem filtersNullValues_spec (filter : TableFilter) (supported : filter.supported = true) :
    ∃ filtersValid, filter.filtersNullValues = .ok (!filter.passes none, filtersValid) ∧
      (filtersValid = true → ∀ payload, filter.passes (some payload) = false) := by
  induction filter using TableFilter.inductionOn with
  | constantComparison comparison constant => exact ⟨false, rfl, fun lost => by cases lost⟩
  | isNull => exact ⟨true, rfl, fun _ _ => rfl⟩
  | isNotNull => exact ⟨false, rfl, fun lost => by cases lost⟩
  | conjunctionOr children ih =>
      rw [TableFilter.supported] at supported
      have loop : ∀ nulls valid, ∃ filtersValid, filtersNullValuesAny children nulls valid =
            .ok (nulls && !passesAny children none, filtersValid) ∧
          (filtersValid = true → valid = true ∧
            ∀ payload, passesAny children (some payload) = false) := by
        induction children with
        | nil =>
            intro nulls valid
            refine ⟨valid, ?_, fun all => ⟨all, fun _ => rfl⟩⟩
            rw [filtersNullValuesAny, passesAny, Bool.not_false, Bool.and_true]
            rfl
        | cons child rest ihRest =>
            intro nulls valid
            rw [supportedBelowOr, Bool.and_eq_true, Bool.and_eq_true] at supported
            obtain ⟨childValid, computed, lost⟩ := ih child List.mem_cons_self supported.1.2
            obtain ⟨filtersValid, rest_computed, rest_lost⟩ :=
              ihRest (fun other member => ih other (List.mem_cons_of_mem _ member)) supported.2
                (nulls && !child.passes none) (valid && childValid)
            refine ⟨filtersValid, ?_, fun all => ?_⟩
            · rw [filtersNullValuesAny, computed, passesAny, Bool.not_or, ← Bool.and_assoc]
              exact rest_computed
            · obtain ⟨both, others⟩ := rest_lost all
              obtain ⟨before, here⟩ := Bool.and_eq_true_iff.mp both
              refine ⟨before, fun payload => ?_⟩
              rw [passesAny, lost here payload, others payload]
              rfl
      obtain ⟨filtersValid, computed, lost⟩ := loop true true
      rw [filtersNullValues, computed, Bool.true_and, passes]
      exact ⟨filtersValid, rfl, fun all => (lost all).2⟩
  | conjunctionAnd children ih =>
      rw [TableFilter.supported] at supported
      have loop : ∀ nulls valid, ∃ filtersValid, filtersNullValuesAll children nulls valid =
            .ok (nulls || !passesAll children none, filtersValid) ∧
          (filtersValid = true → valid = true ∨
            ∀ payload, passesAll children (some payload) = false) := by
        induction children with
        | nil =>
            intro nulls valid
            refine ⟨valid, ?_, Or.inl⟩
            rw [filtersNullValuesAll, passesAll, Bool.not_true, Bool.or_false]
            rfl
        | cons child rest ihRest =>
            intro nulls valid
            rw [supportedBelowAnd, Bool.and_eq_true] at supported
            obtain ⟨childValid, computed, lost⟩ := ih child List.mem_cons_self supported.1
            obtain ⟨filtersValid, rest_computed, rest_lost⟩ :=
              ihRest (fun other member => ih other (List.mem_cons_of_mem _ member)) supported.2
                (nulls || !child.passes none) (valid || childValid)
            refine ⟨filtersValid, ?_, fun some_lost => ?_⟩
            · rw [filtersNullValuesAll, computed, passesAll, Bool.not_and, ← Bool.or_assoc]
              exact rest_computed
            · rcases rest_lost some_lost with either | others
              · refine (Bool.or_eq_true_iff.mp either).imp_right fun here payload => ?_
                rw [passesAll, lost here payload, Bool.false_and]
              · refine Or.inr fun payload => ?_
                rw [passesAll, others payload, Bool.and_false]
      obtain ⟨filtersValid, computed, lost⟩ := loop false false
      rw [filtersNullValues, computed, Bool.false_or, passes]
      refine ⟨filtersValid, rfl, fun some_lost => ?_⟩
      exact (lost some_lost).resolve_left Bool.false_ne_true
  | structExtract => cases supported
  | optionalFilter child => exact ⟨false, rfl, fun lost => by cases lost⟩
  | inFilter => cases supported
  | dynamicFilter => cases supported
  | expressionFilter expr => exact ⟨false, rfl, fun lost => by cases lost⟩

end TableFilter

end StatsRecommender
