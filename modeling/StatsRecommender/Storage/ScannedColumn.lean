import StatsRecommender.Storage.CheckZonemap
import StatsRecommender.Storage.FilterSelection
import StatsRecommender.Storage.SegmentTree

/-!
# Columns as a scan of a row group uses them

The virtual functions of `ColumnData` that a scan calls, with what they do to the scan state of a
column and to the result.
-/

namespace StatsRecommender

variable {filter : TableFilter} {value : Option Payload}

namespace TableFilter

/-! ## What passes a filter -/

mutual

/-- No optional filter occurs in the filter. -/
def mandatory : TableFilter → Bool
  | .optionalFilter _ => false
  | .conjunctionOr children => mandatoryAll children
  | .conjunctionAnd children => mandatoryAll children
  | .structExtract _ _ child => child.mandatory
  | _ => true

def mandatoryAll : List TableFilter → Bool
  | [] => true
  | child :: rest => child.mandatory && mandatoryAll rest

end

theorem isOptional_of_mandatory (mandatory : filter.mandatory = true) :
    filter.isOptional = false := by
  cases filter with
  | optionalFilter => cases mandatory
  | _ => rfl

/-- A comparison of the scan is true of a value that is not NULL only. -/
theorem eval_switches {comparison : ComparisonType} (switched : switches comparison = true)
    (constant : Constant) (value : Option Payload) :
    (constantComparison comparison constant).eval value = some true ↔
      (constantComparison comparison constant).passes value = true := by
  cases value with
  | some payload => simp [passes, eval, ComparisonType.eval]
  | none =>
      cases comparison with
      | compareDistinctFrom => cases switched
      | compareNotDistinctFrom => cases switched
      | _ => simp [passes, eval, ComparisonType.eval]

/-- A value on which a filter is true passes it. -/
theorem passes_of_eval (supported : filter.supported = true)
    (holds : filter.eval value = some true) : filter.passes value = true := by
  induction filter using TableFilter.inductionOn with
  | constantComparison comparison constant =>
      exact (eval_switches supported constant value).mp holds
  | isNull => simpa [passes, eval] using holds
  | isNotNull => simpa [passes, eval] using holds
  | conjunctionOr children ih =>
      rw [TableFilter.supported] at supported
      rw [eval, evalAny_eq_true_iff] at holds
      obtain ⟨child, member, holds⟩ := holds
      rw [passes]
      induction children with
      | nil => cases member
      | cons head rest ihRest =>
          rw [supportedBelowOr, Bool.and_eq_true, Bool.and_eq_true] at supported
          rw [passesAny, Bool.or_eq_true]
          rcases List.mem_cons.mp member with rfl | later
          · exact Or.inl (ih child List.mem_cons_self supported.1.2 holds)
          · exact Or.inr (ihRest (fun other member => ih other (List.mem_cons_of_mem _ member))
              supported.2 later)
  | conjunctionAnd children ih =>
      rw [TableFilter.supported] at supported
      rw [eval, evalAll_eq_true_iff] at holds
      rw [passes]
      induction children with
      | nil => rfl
      | cons head rest ihRest =>
          rw [supportedBelowAnd, Bool.and_eq_true] at supported
          rw [passesAll, Bool.and_eq_true]
          exact ⟨ih head List.mem_cons_self supported.1 (holds head List.mem_cons_self),
            ihRest (fun other member => ih other (List.mem_cons_of_mem _ member)) supported.2
              fun other member => holds other (List.mem_cons_of_mem _ member)⟩
  | structExtract => cases supported
  | optionalFilter child => rfl
  | inFilter => cases supported
  | dynamicFilter => cases supported
  | expressionFilter expr =>
      rw [passes, beq_iff_eq]
      exact holds

/-- Without optional filters, a filter is true on what passes it. -/
theorem eval_of_passes (supported : filter.supported = true) (mandatory : filter.mandatory = true)
    (passed : filter.passes value = true) : filter.eval value = some true := by
  induction filter using TableFilter.inductionOn with
  | constantComparison comparison constant =>
      exact (eval_switches supported constant value).mpr passed
  | isNull => simpa [passes, eval] using passed
  | isNotNull => simpa [passes, eval] using passed
  | conjunctionOr children ih =>
      rw [TableFilter.supported] at supported
      rw [TableFilter.mandatory] at mandatory
      rw [passes] at passed
      rw [eval, evalAny_eq_true_iff]
      induction children with
      | nil => cases passed
      | cons head rest ihRest =>
          rw [supportedBelowOr, Bool.and_eq_true, Bool.and_eq_true] at supported
          rw [mandatoryAll, Bool.and_eq_true] at mandatory
          rw [passesAny, Bool.or_eq_true] at passed
          rcases passed with first | later
          · exact ⟨head, List.mem_cons_self,
              ih head List.mem_cons_self supported.1.2 mandatory.1 first⟩
          · obtain ⟨child, member, holds⟩ :=
              ihRest (fun other member => ih other (List.mem_cons_of_mem _ member)) supported.2
                mandatory.2 later
            exact ⟨child, List.mem_cons_of_mem _ member, holds⟩
  | conjunctionAnd children ih =>
      rw [TableFilter.supported] at supported
      rw [TableFilter.mandatory] at mandatory
      rw [passes] at passed
      rw [eval, evalAll_eq_true_iff]
      induction children with
      | nil => exact fun _ member => by cases member
      | cons head rest ihRest =>
          rw [supportedBelowAnd, Bool.and_eq_true] at supported
          rw [mandatoryAll, Bool.and_eq_true] at mandatory
          rw [passesAll, Bool.and_eq_true] at passed
          rw [List.forall_mem_cons]
          exact ⟨ih head List.mem_cons_self supported.1 mandatory.1 passed.1,
            ihRest (fun other member => ih other (List.mem_cons_of_mem _ member)) supported.2
              mandatory.2 passed.2⟩
  | structExtract => cases supported
  | optionalFilter child => cases mandatory
  | inFilter => cases supported
  | dynamicFilter => cases supported
  | expressionFilter expr =>
      rw [passes, beq_iff_eq] at passed
      exact passed

end TableFilter

/-- What the filters of a scan say about the values of a column, which may be nested. -/
structure FilterMeaning (Cell : Type) where
  /-- `ColumnSegment::FilterSelection` knows the filter. -/
  supported : TableFilter → Bool
  /-- `ColumnSegment::FilterSelection` lets the value pass. -/
  passes : TableFilter → Cell → Bool
  /-- The filter is true of the value, and so are its optional parts. -/
  holds : TableFilter → Cell → Bool
  passes_of_holds : ∀ {filter cell}, supported filter = true → holds filter cell = true →
    passes filter cell = true
  holds_of_passes : ∀ {filter cell}, supported filter = true → filter.mandatory = true →
    passes filter cell = true → holds filter cell = true

/-- The values of a column that is not nested. -/
def FilterMeaning.standard : FilterMeaning (Option Payload) where
  supported := TableFilter.supported
  passes := TableFilter.passes
  holds filter value := decide (filter.eval value = some true)
  passes_of_holds supported holds := TableFilter.passes_of_eval supported (of_decide_eq_true holds)
  holds_of_passes supported mandatory passes :=
    decide_eq_true (TableFilter.eval_of_passes supported mandatory passes)

/-! ## Columns -/

/-- The values of a result vector, by row. -/
abbrev VectorValues (Cell : Type) := Nat → Option Cell

/-- `result.Slice(sel, count)`. -/
def VectorValues.slice {Cell : Type} (values : VectorValues Cell) (sel : SelectionVector)
    (count : Nat) : VectorValues Cell :=
  fun row => ((sel.rows count)[row]?).bind values

/-- The selection holds distinct rows of a vector, as many as it counts. -/
structure SelectionVector.Holds (sel : SelectionVector) (count size : Nat) : Prop where
  full : (sel.rows count).length = count
  distinct : (sel.rows count).Nodup
  inside : ∀ row ∈ sel.rows count, row < size

/--
What a scan relies on in the `ColumnData` of a row group that starts at a row and holds some rows,
for one transaction.  `value` is what the transaction sees in a row of the row group, and `StandsAt`
tells at which row of it a scan state stands.
-/
structure ScannedColumn (Cell : Type) (start count : Nat) where
  State : Type
  meaning : FilterMeaning Cell
  value : Nat → Cell
  /-- It starts from what earlier row groups left of the scan state. -/
  initializeScanWithOffset : State → Nat → Except String State
  /-- The segment that `current` points to. -/
  current : State → Option SegmentNode
  checkZonemap : TableFilter → State → State × FilterPropagateResult
  skip : State → State
  scan : Nat → State → Except String (State × VectorValues Cell)
  filter : Nat → State → TableFilter → SelectionVector → Nat →
    Except String (State × VectorValues Cell × SelectionVector × Nat)
  select : Nat → State → SelectionVector → Nat → Except String (State × VectorValues Cell)
  StandsAt : State → Nat → Prop
  standsAt_first : ∀ before, ∀ row < count,
    ∃ state, initializeScanWithOffset before (start + row) = .ok state ∧ StandsAt state row
  /-- The current segment holds the row of the scan, or ends in front of it. -/
  current_holds : ∀ state row, StandsAt state row → ∀ segment ∈ current state,
    segment.rowStart ≤ start + row ∧ start + row ≤ segment.stop ∧ segment.stop ≤ start + count
  checkZonemap_current : ∀ entry state, current (checkZonemap entry state).1 = current state
  standsAt_checkZonemap : ∀ entry state row, StandsAt state row →
    StandsAt (checkZonemap entry state).1 row
  /-- The statistics of the segments are sound: no row of a segment that is ruled out qualifies. -/
  checkZonemap_sound : ∀ entry state row, StandsAt state row →
    (checkZonemap entry state).2 = .filterAlwaysFalse → ∀ segment ∈ current state,
    ∀ place < count, segment.Holds (start + place) → meaning.holds entry (value place) = false
  standsAt_skip : ∀ state row, StandsAt state row → row + standardVectorSize < count →
    StandsAt (skip state) (row + standardVectorSize)
  scan_spec : ∀ vectorIndex state, StandsAt state (vectorIndex * standardVectorSize) →
    vectorIndex * standardVectorSize < count →
    ∃ state' values, scan vectorIndex state = .ok (state', values) ∧
      (∀ row < standardVectorSize, vectorIndex * standardVectorSize + row < count →
        values row = some (value (vectorIndex * standardVectorSize + row))) ∧
      ((vectorIndex + 1) * standardVectorSize < count →
        StandsAt state' ((vectorIndex + 1) * standardVectorSize))
  filter_spec : ∀ vectorIndex state (entry : TableFilter) sel selCount size,
    StandsAt state (vectorIndex * standardVectorSize) → 0 < size → size ≤ standardVectorSize →
    vectorIndex * standardVectorSize + size ≤ count → meaning.supported entry = true →
    sel.Holds selCount size →
    ∃ state' values sel' selCount',
      filter vectorIndex state entry sel selCount = .ok (state', values, sel', selCount') ∧
      (sel'.rows selCount').length = selCount' ∧
      (sel'.rows selCount').Perm ((sel.rows selCount).filter fun row =>
        meaning.passes entry (value (vectorIndex * standardVectorSize + row))) ∧
      (∀ row ∈ sel'.rows selCount',
        values row = some (value (vectorIndex * standardVectorSize + row))) ∧
      ((vectorIndex + 1) * standardVectorSize < count →
        StandsAt state' ((vectorIndex + 1) * standardVectorSize))
  select_spec : ∀ vectorIndex state sel selCount size,
    StandsAt state (vectorIndex * standardVectorSize) → 0 < size → size ≤ standardVectorSize →
    vectorIndex * standardVectorSize + size ≤ count → sel.Holds selCount size →
    ∃ state' values, select vectorIndex state sel selCount = .ok (state', values) ∧
      (∀ (row : Nat) place, (sel.rows selCount)[row]? = some place →
        values row = some (value (vectorIndex * standardVectorSize + place))) ∧
      ((vectorIndex + 1) * standardVectorSize < count →
        StandsAt state' ((vectorIndex + 1) * standardVectorSize))

end StatsRecommender
