import StatsRecommender.Planner.TableFilter

/-!
# The zone map of a row group

`RowGroup::CheckZonemap`: every filter entry is checked against the statistics of its
column, and an entry with a lower and an upper bound is also taken to the range query of
the additional statistic.
-/

namespace StatsRecommender

variable {filter : TableFilter} {value : Option Payload} {constant : Constant}
  {comparison : ComparisonType} {statistics : BaseStatistics}

namespace TableFilter

/-! ## The comparisons below AND -/

mutual

/-- The constant comparisons that a filter is a conjunction of, from left to right. -/
def leaves : TableFilter → List (ComparisonType × Constant)
  | .constantComparison comparison constant => [(comparison, constant)]
  | .conjunctionAnd children => leavesAll children
  | _ => []

def leavesAll : List TableFilter → List (ComparisonType × Constant)
  | [] => []
  | filter :: rest => filter.leaves ++ leavesAll rest

end

mutual

/-- The number of filters that the search for bounds visits. -/
def searchSize : TableFilter → Nat
  | .conjunctionAnd children => searchSizeAll children + 1
  | _ => 1

def searchSizeAll : List TableFilter → Nat
  | [] => 0
  | filter :: rest => filter.searchSize + searchSizeAll rest

end

theorem leavesAll_eq (filters : List TableFilter) : leavesAll filters = filters.flatMap leaves := by
  induction filters with
  | nil => rfl
  | cons filter rest ih => rw [leavesAll, ih, List.flatMap_cons]

theorem searchSizeAll_eq (filters : List TableFilter) :
    searchSizeAll filters = (filters.map searchSize).sum := by
  induction filters with
  | nil => rfl
  | cons filter rest ih => rw [searchSizeAll, ih, List.map_cons, List.sum_cons]

theorem searchSize_pos (filter : TableFilter) : 0 < filter.searchSize := by
  cases filter <;> simp [searchSize]

/-- A value that satisfies a filter satisfies every comparison it is a conjunction of. -/
theorem eval_of_mem_leaves {leaf : ComparisonType × Constant}
    (holds : filter.eval value = some true) (member : leaf ∈ filter.leaves) :
    leaf.1.eval value (some leaf.2.payload) = some true := by
  induction filter using TableFilter.inductionOn with
  | constantComparison comparison constant =>
      rw [leaves, List.mem_singleton] at member
      rw [member]
      exact holds
  | conjunctionAnd children ih =>
      rw [leaves, leavesAll_eq, List.mem_flatMap] at member
      obtain ⟨child, hchild, hleaf⟩ := member
      rw [eval, evalAll_eq_true_iff] at holds
      exact ih child hchild (holds child hchild) hleaf
  | _ => simp [leaves] at member

end TableFilter

/-! ## The search for bounds -/

def ComparisonType.isLowerBound : ComparisonType → Bool
  | .compareGreaterThan | .compareGreaterThanOrEqualTo => true
  | _ => false

def ComparisonType.isUpperBound : ComparisonType → Bool
  | .compareLessThan | .compareLessThanOrEqualTo => true
  | _ => false

/-- `has_lower_bound` with `lower_value`, and `has_upper_bound` with `upper_value`. -/
structure Bounds where
  lower : Option Constant
  upper : Option Constant
  deriving DecidableEq, Repr

namespace Bounds

def empty : Bounds := ⟨none, none⟩

/-- The `switch` on the type of a comparison. -/
def visit (bounds : Bounds) (leaf : ComparisonType × Constant) : Bounds :=
  if leaf.1.isLowerBound then { bounds with lower := some leaf.2 }
  else if leaf.1.isUpperBound then { bounds with upper := some leaf.2 }
  else bounds

/-- The loop over `pending_filters`, whose back is the head of the list. -/
def collect : Nat → List TableFilter → Bounds → Bounds
  | 0, _, bounds => bounds
  | _ + 1, [], bounds => bounds
  | fuel + 1, candidate :: pending, bounds =>
      match candidate with
      | .conjunctionAnd children => collect fuel (children.reverse ++ pending) bounds
      | .constantComparison comparison constant =>
          collect fuel pending (bounds.visit (comparison, constant))
      | _ => collect fuel pending bounds

/-- The bounds found below one filter entry. -/
def ofFilter (filter : TableFilter) : Bounds := collect filter.searchSize [filter] empty

open TableFilter

/-- The loop visits the comparisons from the last to the first. -/
theorem collect_eq (fuel : Nat) (pending : List TableFilter) (bounds : Bounds)
    (enough : (pending.map searchSize).sum ≤ fuel) :
    collect fuel pending bounds =
      (pending.flatMap fun filter => filter.leaves.reverse).foldl visit bounds := by
  induction fuel generalizing pending bounds with
  | zero =>
      cases pending with
      | nil => rfl
      | cons candidate pending =>
          have positive := candidate.searchSize_pos
          rw [List.map_cons, List.sum_cons] at enough
          omega
  | succ fuel ih =>
      cases pending with
      | nil => rfl
      | cons candidate pending =>
          rw [List.map_cons, List.sum_cons] at enough
          have positive := candidate.searchSize_pos
          have size : (pending.map searchSize).sum ≤ fuel := by omega
          rw [List.flatMap_cons, List.foldl_append]
          cases candidate with
          | conjunctionAnd children =>
              have pushed : ((children.reverse ++ pending).map searchSize).sum ≤ fuel := by
                rw [searchSize, searchSizeAll_eq] at enough
                rw [List.map_append, List.sum_append, List.map_reverse, List.sum_reverse]
                omega
              have order : children.reverse.flatMap (fun filter => filter.leaves.reverse) =
                  (children.flatMap leaves).reverse := by
                rw [List.reverse_flatMap]
                rfl
              rw [collect, ih _ _ pushed, List.flatMap_append, List.foldl_append, leaves,
                leavesAll_eq, order]
          | constantComparison comparison constant =>
              exact ih pending (bounds.visit (comparison, constant)) size
          | _ => exact ih pending bounds size

/-- What one visit leaves of a bound, seen from the first comparison on. -/
theorem ofFilter_eq (filter : TableFilter) :
    ofFilter filter = filter.leaves.foldr (fun leaf bounds => bounds.visit leaf) empty := by
  rw [ofFilter, collect_eq _ _ _ (by simp), List.flatMap_cons, List.flatMap_nil, List.append_nil,
    List.foldl_reverse]

/-- The first comparison with a lower and the first with an upper bound are kept. -/
theorem foldr_visit (leaves : List (ComparisonType × Constant)) :
    leaves.foldr (fun leaf bounds => bounds.visit leaf) empty =
      ⟨(leaves.find? fun leaf => leaf.1.isLowerBound).map Prod.snd,
        (leaves.find? fun leaf => leaf.1.isUpperBound).map Prod.snd⟩ := by
  induction leaves with
  | nil => rfl
  | cons leaf rest ih =>
      obtain ⟨comparison, constant⟩ := leaf
      rw [List.foldr_cons, ih]
      cases comparison <;>
        simp [visit, ComparisonType.isLowerBound, ComparisonType.isUpperBound]

theorem lower_ofFilter (filter : TableFilter) :
    (ofFilter filter).lower =
      (filter.leaves.find? fun leaf => leaf.1.isLowerBound).map Prod.snd := by
  rw [ofFilter_eq, foldr_visit]

theorem upper_ofFilter (filter : TableFilter) :
    (ofFilter filter).upper =
      (filter.leaves.find? fun leaf => leaf.1.isUpperBound).map Prod.snd := by
  rw [ofFilter_eq, foldr_visit]

theorem mem_leaves_of_lower (found : (ofFilter filter).lower = some constant) :
    ∃ comparison : ComparisonType,
      comparison.isLowerBound = true ∧ (comparison, constant) ∈ filter.leaves := by
  rw [lower_ofFilter, Option.map_eq_some_iff] at found
  obtain ⟨⟨comparison, _⟩, hfind, rfl⟩ := found
  exact ⟨comparison, by simpa using List.find?_some hfind, List.mem_of_find?_eq_some hfind⟩

theorem mem_leaves_of_upper (found : (ofFilter filter).upper = some constant) :
    ∃ comparison : ComparisonType,
      comparison.isUpperBound = true ∧ (comparison, constant) ∈ filter.leaves := by
  rw [upper_ofFilter, Option.map_eq_some_iff] at found
  obtain ⟨⟨comparison, _⟩, hfind, rfl⟩ := found
  exact ⟨comparison, by simpa using List.find?_some hfind, List.mem_of_find?_eq_some hfind⟩

end Bounds

/-- A value above a lower bound is not NULL and not before the bound. -/
theorem ComparisonType.le_of_isLowerBound {bound : Payload} (lower : comparison.isLowerBound = true)
    (holds : comparison.eval value (some bound) = some true) :
    ∃ payload, value = some payload ∧ bound.key ≤ payload.key := by
  cases value with
  | none => cases comparison <;> simp [eval, isLowerBound] at holds lower
  | some payload =>
      refine ⟨payload, rfl, ?_⟩
      cases comparison <;> simp [eval, ComparisonType.holds, isLowerBound] at holds lower
      · exact holds.le
      · exact holds

theorem ComparisonType.le_of_isUpperBound {payload bound : Payload}
    (upper : comparison.isUpperBound = true)
    (holds : comparison.eval (some payload) (some bound) = some true) :
    payload.key ≤ bound.key := by
  cases comparison <;> simp [eval, ComparisonType.holds, isUpperBound] at holds upper
  · exact holds.le
  · exact holds

/-! ## The check of one column -/

/-- What `CheckZonemap` reads of a `ColumnData`: its statistics and those of its updates. -/
structure ColumnStatistics where
  statistics : BaseStatistics
  updateStatistics : Option BaseStatistics
  deriving Repr

/-- `ColumnData::CheckZonemap`. -/
def ColumnStatistics.checkZonemap (runtime : Runtime) (column : ColumnStatistics)
    (filter : TableFilter) : FilterPropagateResult :=
  let pruneResult := filter.checkStatistics runtime column.statistics
  if pruneResult = .noPruningPossible then pruneResult
  else
    match column.updateStatistics with
    | none => pruneResult
    | some updateStats =>
        if pruneResult = filter.checkStatistics runtime updateStats then pruneResult
        else .noPruningPossible

/--
The statistics hold of the values a column can show: each is a base value or an updated
one, and the additional statistic, which is asked without regard to updates, holds of all.
-/
def ColumnStatistics.Sound (runtime : Runtime) (column : ColumnStatistics)
    (values : List (Option Payload)) : Prop :=
  ∃ base updated : List (Option Payload),
    (∀ value ∈ values, value ∈ base ∨ value ∈ updated) ∧
    column.statistics.Sound runtime base ∧
    (∀ additional, column.statistics.additionalStats = some additional →
      additional.Sound runtime (nonNull values)) ∧
    match column.updateStatistics with
    | none => updated = []
    | some updateStats => updateStats.Sound runtime updated

namespace ColumnStatistics

variable {runtime : Runtime} {column : ColumnStatistics} {values : List (Option Payload)}

/-- Without updates the statistics need only hold of the base values. -/
theorem Sound.of_base (sound : statistics.Sound runtime values) :
    Sound runtime ⟨statistics, none⟩ values :=
  ⟨values, [], fun _ member => Or.inl member, sound, fun _ held => sound.additional held, rfl⟩

theorem checkZonemap_spec (sound : column.Sound runtime values) (filter : TableFilter) :
    TableFilter.CheckSound filter values (column.checkZonemap runtime filter) := by
  obtain ⟨base, updated, shown, hbase, -, hupdates⟩ := sound
  have onBase := TableFilter.checkStatistics_spec filter hbase
  rw [checkZonemap]
  split
  · rename_i hopen
    rw [hopen]
    exact .of_open _ _
  · cases hcolumn : column.updateStatistics with
    | none =>
        rw [hcolumn] at hupdates
        have stored : ∀ value ∈ values, value ∈ base := by
          intro value member
          apply (shown value member).resolve_right
          rw [hupdates]
          exact List.not_mem_nil
        exact ⟨fun never value member => onBase.never never value (stored value member),
          fun always value member => onBase.always always value (stored value member)⟩
    | some updateStats =>
        rw [hcolumn] at hupdates
        have onUpdated := TableFilter.checkStatistics_spec filter hupdates
        dsimp only
        split
        · rename_i agree
          constructor
          · intro never value member
            rcases shown value member with stored | changed
            · exact onBase.never never value stored
            · exact onUpdated.never (agree ▸ never) value changed
          · intro always value member
            rcases shown value member with stored | changed
            · exact onBase.always always value stored
            · exact onUpdated.always (agree ▸ always) value changed
        · exact .of_open _ _

end ColumnStatistics

/-! ## The check of a row group -/

/-- `ScanFilter`: a filter on one of the columns of a row group. -/
structure ScanFilter (columnCount : Nat) where
  tableColumnIndex : Fin columnCount
  filter : TableFilter
  alwaysTrue : Bool

/-- The physical types the range query is asked for. -/
def PhysicalType.takesRange : PhysicalType → Bool
  | .bool => true
  | .int8 | .int16 | .int32 | .int64 | .int128 => true
  | .uint8 | .uint16 | .uint32 | .uint64 | .uint128 => true
  | .float | .double | .varchar => true
  | _ => false

/-- Whether the bounds of an entry exclude the row group; none if they are not asked for. -/
def rangeSkip (statistics : BaseStatistics) (bounds : Bounds) : Option Bool :=
  match bounds.lower, bounds.upper with
  | some lower, some upper =>
      if lower.type.id = statistics.type.id ∧ upper.type.id = statistics.type.id then
        if statistics.type.internalType.takesRange then
          some (statistics.rangeQueryAdditionalStats lower.payload upper.payload ==
            .filterAlwaysFalse)
        else none
      else none
  | _, _ => none

section RowGroup

variable {columnCount : Nat} (runtime : Runtime) (columns : Fin columnCount → ColumnStatistics)
  {filters : List (ScanFilter columnCount)}

/-- The answer of the range query for one entry of the filter list. -/
def ScanFilter.rangeSkip (entry : ScanFilter columnCount) : Option Bool :=
  StatsRecommender.rangeSkip (columns entry.tableColumnIndex).statistics
    (Bounds.ofFilter entry.filter)

/-- The answer of the column for one entry of the filter list. -/
def ScanFilter.check (entry : ScanFilter columnCount) : FilterPropagateResult :=
  (columns entry.tableColumnIndex).checkZonemap runtime entry.filter

/-- The loop of `RowGroup::CheckZonemap`, from the value of `between_case_skip`. -/
def checkZonemapLoop : List (ScanFilter columnCount) → Bool → Bool × List (ScanFilter columnCount)
  | [], betweenCaseSkip => (!betweenCaseSkip, [])
  | entry :: rest, betweenCaseSkip =>
      let pruneResult := entry.check runtime columns
      if pruneResult = .filterAlwaysFalse then (false, entry :: rest)
      else
        let marked :=
          if entry.filter.isOptional then { entry with alwaysTrue := true }
          else if pruneResult = .filterAlwaysTrue then { entry with alwaysTrue := true }
          else entry
        let (keep, others) :=
          checkZonemapLoop rest ((entry.rangeSkip columns).getD betweenCaseSkip)
        (keep, marked :: others)

/-- `RowGroup::CheckZonemap`: whether to scan the row group, and the filter list it leaves. -/
def checkZonemap (filters : List (ScanFilter columnCount)) :
    Bool × List (ScanFilter columnCount) :=
  checkZonemapLoop runtime columns (filters.map fun entry => { entry with alwaysTrue := false })
    false

/-- The value of `between_case_skip` behind the loop. -/
def betweenSkip (filters : List (ScanFilter columnCount)) (betweenCaseSkip : Bool) : Bool :=
  filters.foldl (fun skip entry => (entry.rangeSkip columns).getD skip) betweenCaseSkip

theorem checkZonemapLoop_fst (filters : List (ScanFilter columnCount)) (skip : Bool) :
    (checkZonemapLoop runtime columns filters skip).1 = true ↔
      (∀ entry ∈ filters, entry.check runtime columns ≠ .filterAlwaysFalse) ∧
        betweenSkip columns filters skip = false := by
  induction filters generalizing skip with
  | nil => simp [checkZonemapLoop, betweenSkip]
  | cons entry rest ih =>
      rw [checkZonemapLoop, List.forall_mem_cons]
      dsimp only
      split
      · rename_i excluded
        simp [excluded]
      · rename_i kept
        rw [ih, and_iff_right kept]
        rfl

/-- A row group is scanned unless a column excludes an entry or the last range asked does. -/
theorem checkZonemap_keep_iff (filters : List (ScanFilter columnCount)) :
    (checkZonemap runtime columns filters).1 = true ↔
      (∀ entry ∈ filters, entry.check runtime columns ≠ .filterAlwaysFalse) ∧
        betweenSkip columns filters false = false := by
  rw [checkZonemap, checkZonemapLoop_fst, List.forall_mem_map, betweenSkip, List.foldl_map]
  rfl

theorem checkZonemap_skip_iff (filters : List (ScanFilter columnCount)) :
    (checkZonemap runtime columns filters).1 = false ↔
      (∃ entry ∈ filters, entry.check runtime columns = .filterAlwaysFalse) ∨
        betweenSkip columns filters false = true := by
  rw [← Bool.not_eq_true, checkZonemap_keep_iff, not_and_or, Bool.not_eq_false]
  push Not
  rfl

/-- The flag is up behind the loop only if some entry put it up. -/
theorem exists_of_betweenSkip (skip : betweenSkip columns filters false = true) :
    ∃ entry ∈ filters, entry.rangeSkip columns = some true := by
  have general : ∀ start : Bool, betweenSkip columns filters start = true →
      start = true ∨ ∃ entry ∈ filters, entry.rangeSkip columns = some true := by
    clear skip
    induction filters with
    | nil => exact fun start hstart => Or.inl hstart
    | cons entry rest ih =>
        intro start hstart
        rcases ih _ hstart with raised | ⟨inner, member, hinner⟩
        · change (entry.rangeSkip columns).getD start = true at raised
          cases hasked : entry.rangeSkip columns with
          | none =>
              rw [hasked] at raised
              exact Or.inl raised
          | some answer =>
              rw [hasked] at raised
              exact Or.inr ⟨entry, List.mem_cons_self, hasked.trans (congrArg some raised)⟩
        · exact Or.inr ⟨inner, List.mem_cons_of_mem _ member, hinner⟩
  exact (general false skip).resolve_left Bool.false_ne_true

theorem rangeSkip_some {bounds : Bounds} {answer : Bool}
    (asked : StatsRecommender.rangeSkip statistics bounds = some answer) :
    ∃ lower upper, bounds.lower = some lower ∧ bounds.upper = some upper ∧
      (statistics.rangeQueryAdditionalStats lower.payload upper.payload ==
        .filterAlwaysFalse) = answer := by
  unfold StatsRecommender.rangeSkip at asked
  split at asked
  · rename_i lower upper hlower hupper
    split at asked
    · split at asked
      · exact ⟨lower, upper, hlower, hupper, Option.some.inj asked⟩
      · cases asked
    · cases asked
  · cases asked

/-- No value between the bounds of an entry is stored once the range query excludes it. -/
theorem rangeSkip_sound {runtime : Runtime} {column : ColumnStatistics}
    {values : List (Option Payload)} (sound : column.Sound runtime values)
    (skip : StatsRecommender.rangeSkip column.statistics (Bounds.ofFilter filter) = some true) :
    ∀ value ∈ values, filter.eval value ≠ some true := by
  intro value member holds
  obtain ⟨lower, upper, hlower, hupper, hquery⟩ := rangeSkip_some skip
  obtain ⟨lowerComparison, isLower, lowerLeaf⟩ := Bounds.mem_leaves_of_lower hlower
  obtain ⟨upperComparison, isUpper, upperLeaf⟩ := Bounds.mem_leaves_of_upper hupper
  obtain ⟨payload, rfl, above⟩ :=
    ComparisonType.le_of_isLowerBound isLower (TableFilter.eval_of_mem_leaves holds lowerLeaf)
  have below :=
    ComparisonType.le_of_isUpperBound isUpper (TableFilter.eval_of_mem_leaves holds upperLeaf)
  obtain ⟨base, updated, -, -, hadditional, -⟩ := sound
  rw [beq_iff_eq, BaseStatistics.rangeQueryAdditionalStats] at hquery
  split at hquery
  · cases hquery
  · rename_i additional held
    have outside := rangeSound_iff.mp ((hadditional additional held).queryRange _ _) hquery
      payload (mem_nonNull.mpr member)
    rcases outside with before | behind
    · exact absurd above (not_le_of_gt before)
    · exact absurd below (not_le_of_gt behind)

/-- Sound column statistics make the check of a row group sound: no qualifying row is lost. -/
theorem checkZonemap_sound (rows : List (Fin columnCount → Option Payload))
    (sound : ∀ column, (columns column).Sound runtime (rows.map fun row => row column))
    (filters : List (ScanFilter columnCount))
    (skipped : (checkZonemap runtime columns filters).1 = false) :
    ∀ row ∈ rows, ¬ ∀ entry ∈ filters,
      entry.filter.eval (row entry.tableColumnIndex) = some true := by
  intro row member holds
  rcases (checkZonemap_skip_iff runtime columns filters).mp skipped with
    ⟨entry, hentry, excluded⟩ | between
  · have answer := ColumnStatistics.checkZonemap_spec (sound entry.tableColumnIndex) entry.filter
    exact answer.never (Or.inl excluded) _ (List.mem_map_of_mem member) (holds entry hentry)
  · obtain ⟨entry, hentry, asked⟩ := exists_of_betweenSkip columns between
    exact rangeSkip_sound (sound entry.tableColumnIndex) asked _ (List.mem_map_of_mem member)
      (holds entry hentry)

/-- A row group with a two-sided range in a gap of the first column's clusters. -/
theorem checkZonemap_sound_gap :
    let first := [some (.integer 1), none, some (.integer 9)]
    let second := [some (.integer 4), some (.integer 5), none]
    let columns : Fin 2 → ColumnStatistics := fun column =>
      if column = 0 then ⟨.builtOver .identityHash .integer first .clusterSmall, none⟩
      else ⟨.builtOver .identityHash .integer second .none, none⟩
    let rows : List (Fin 2 → Option Payload) :=
      [0, 1, 2].map fun index column => ((if column = 0 then first else second)[index]?).join
    let filters : List (ScanFilter 2) :=
      [⟨1, .isNotNull, true⟩,
        ⟨0, .conjunctionAnd [.constantComparison .compareGreaterThan ⟨.integer, .integer 2⟩,
          .conjunctionAnd [.constantComparison .compareLessThanOrEqualTo
            ⟨.integer, .integer 7⟩]], false⟩]
    (checkZonemap .identityHash columns filters).1 = false ∧
      ∀ row ∈ rows, ¬ ∀ entry ∈ filters,
        entry.filter.eval (row entry.tableColumnIndex) = some true := by
  intro first second columns rows filters
  have skipped : (checkZonemap .identityHash columns filters).1 = false := by decide
  refine ⟨skipped, checkZonemap_sound .identityHash columns rows
    (Fin.forall_fin_two.mpr ⟨?_, ?_⟩) filters skipped⟩
  · exact .of_base (BaseStatistics.builtOver_sound (by decide)
      (by simp [HashableData, StatisticType.template]))
  · exact .of_base (BaseStatistics.builtOver_sound (by decide)
      (by simp [HashableData, StatisticType.template]))

/-- A mark left on an entry says that it is optional or that its column always satisfies it. -/
theorem checkZonemapLoop_marks (filters : List (ScanFilter columnCount)) (skip : Bool) :
    ∀ entry ∈ (checkZonemapLoop runtime columns filters skip).2, entry.alwaysTrue = true →
      entry ∈ filters ∨ entry.filter.isOptional = true ∨
        entry.check runtime columns = .filterAlwaysTrue := by
  induction filters generalizing skip with
  | nil => exact fun entry member _ => Or.inl member
  | cons first rest ih =>
      intro entry member mark
      rw [checkZonemapLoop] at member
      dsimp only at member
      split at member
      · exact Or.inl member
      · rcases List.mem_cons.mp member with rfl | later
        · split
          · rename_i optional
            exact Or.inr (Or.inl optional)
          · split
            · rename_i always
              exact Or.inr (Or.inr always)
            · exact Or.inl List.mem_cons_self
        · rcases ih _ entry later mark with old | marked
          · exact Or.inl (List.mem_cons_of_mem _ old)
          · exact Or.inr marked

/-- An entry marked as always true may be left unchecked on every row of the row group. -/
theorem checkZonemap_alwaysTrue (rows : List (Fin columnCount → Option Payload))
    (sound : ∀ column, (columns column).Sound runtime (rows.map fun row => row column))
    {entry : ScanFilter columnCount} (member : entry ∈ (checkZonemap runtime columns filters).2)
    (mark : entry.alwaysTrue = true) (mandatory : entry.filter.isOptional = false) :
    ∀ row ∈ rows, entry.filter.eval (row entry.tableColumnIndex) = some true := by
  intro row hrow
  rcases checkZonemapLoop_marks runtime columns _ false entry member mark with old | optional | always
  · obtain ⟨before, -, rfl⟩ := List.mem_map.mp old
    cases mark
  · rw [mandatory] at optional
    cases optional
  · have answer := ColumnStatistics.checkZonemap_spec (sound entry.tableColumnIndex) entry.filter
    exact answer.always always _ (List.mem_map_of_mem hrow)

/-! ## Comparisons that the additional statistic rules out -/

/-- A filter that is the comparison, or an AND with the comparison among its children. -/
def TableFilter.HasComparison (filter : TableFilter) (comparison : ComparisonType)
    (constant : Constant) : Prop :=
  filter = .constantComparison comparison constant ∨
    ∃ children, filter = .conjunctionAnd children ∧
      .constantComparison comparison constant ∈ children

/-- The comparisons whose result on NULL is NULL. -/
def ComparisonType.isOrdinary : ComparisonType → Bool
  | .compareDistinctFrom | .compareNotDistinctFrom => false
  | _ => true

/-- When the exclusion of a comparison by the statistic survives `ConstantFilter`. -/
theorem checkConstant_false_iff (ordinary : comparison.isOrdinary = true)
    (excluded : statistics.queryAdditionalStats runtime comparison constant.payload =
      .filterAlwaysFalse) :
    TableFilter.checkConstant runtime comparison constant statistics = .filterAlwaysFalse ↔
      statistics.hasNull = false ∧ statistics.hasNoNull = true ∧
        TableFilter.comparesConstants constant.type.internalType = true := by
  have notDistinct : comparison ≠ .compareDistinctFrom := by
    rintro rfl
    cases ordinary
  rw [TableFilter.checkConstant, excluded, BaseStatistics.canHaveNull, BaseStatistics.canHaveNoNull]
  cases statistics.hasNoNull <;> cases statistics.hasNull <;>
    cases TableFilter.comparesConstants constant.type.internalType <;> simp [notDistinct]

/-- An entry with one comparison has at most one bound, and its range is not asked for. -/
theorem rangeSkip_constantComparison (statistics : BaseStatistics) (comparison : ComparisonType)
    (constant : Constant) :
    StatsRecommender.rangeSkip statistics
      (Bounds.ofFilter (.constantComparison comparison constant)) = none := by
  cases comparison <;> rfl

/--
A comparison that the additional statistic rules out makes every filter list with it skip
the row group exactly if the column has no NULL and some value, and is not a boolean column.
-/
theorem checkZonemap_comparison_iff {column : Fin columnCount} {comparison : ComparisonType}
    {constant : Constant} (noUpdates : ∀ column, (columns column).updateStatistics = none)
    (ordinary : comparison.isOrdinary = true)
    (excluded : (columns column).statistics.queryAdditionalStats runtime comparison
      constant.payload = .filterAlwaysFalse) :
    (∀ filters : List (ScanFilter columnCount),
      (∃ entry ∈ filters, entry.tableColumnIndex = column ∧
        entry.filter.HasComparison comparison constant) →
      (checkZonemap runtime columns filters).1 = false) ↔
    ((columns column).statistics.hasNull = false ∧ (columns column).statistics.hasNoNull = true ∧
      TableFilter.comparesConstants constant.type.internalType = true) := by
  rw [← checkConstant_false_iff runtime ordinary excluded]
  have direct : ∀ filter : TableFilter, (columns column).checkZonemap runtime filter =
      filter.checkStatistics runtime (columns column).statistics := by
    intro filter
    rw [ColumnStatistics.checkZonemap, noUpdates column]
    split <;> rfl
  constructor
  · -- the filter list with nothing but the comparison
    intro skips
    have alone := skips [⟨column, .constantComparison comparison constant, false⟩]
      ⟨_, List.mem_singleton_self _, rfl, Or.inl rfl⟩
    rcases (checkZonemap_skip_iff runtime columns _).mp alone with ⟨entry, member, hfalse⟩ | raised
    · rw [List.mem_singleton] at member
      rw [member, ScanFilter.check, direct] at hfalse
      exact hfalse
    · obtain ⟨entry, member, asked⟩ := exists_of_betweenSkip columns raised
      rw [List.mem_singleton] at member
      rw [member, ScanFilter.rangeSkip, rangeSkip_constantComparison] at asked
      cases asked
  · rintro hfalse filters ⟨entry, member, rfl, hcomparison⟩
    refine (checkZonemap_skip_iff runtime columns filters).mpr (Or.inl ⟨entry, member, ?_⟩)
    rw [ScanFilter.check, direct]
    rcases hcomparison with heq | ⟨children, heq, hchild⟩
    · rw [heq]
      exact hfalse
    · rw [heq, TableFilter.checkStatistics,
        TableFilter.checkAnd_false_iff runtime _ children (by decide)]
      exact ⟨_, hchild, hfalse⟩

/-- A column without NULLs, whose clusters rule the comparison out. -/
theorem checkZonemap_comparison_iff_noNull :
    let columns : Fin 1 → ColumnStatistics := fun _ =>
      ⟨.builtOver .identityHash .integer [some (.integer 1)] .minMax, none⟩
    (∀ filters : List (ScanFilter 1),
      (∃ entry ∈ filters, entry.tableColumnIndex = 0 ∧
        entry.filter.HasComparison .compareEqual ⟨.integer, .integer 5⟩) →
      (checkZonemap .identityHash columns filters).1 = false) ↔
    ((columns 0).statistics.hasNull = false ∧ (columns 0).statistics.hasNoNull = true ∧
      TableFilter.comparesConstants .int32 = true) :=
  checkZonemap_comparison_iff .identityHash _ (fun _ => rfl) rfl (by decide)

/-- One NULL row keeps a row group in the scan that is skipped without it. -/
theorem checkZonemap_comparison_null :
    let column (values : List (Option Payload)) : Fin 1 → ColumnStatistics := fun _ =>
      ⟨.builtOver .identityHash .integer values .minMax, none⟩
    let filters : List (ScanFilter 1) :=
      [⟨0, .constantComparison .compareEqual ⟨.integer, .integer 5⟩, false⟩]
    let plain := [some (Payload.integer 1)]
    let nullable := [some (Payload.integer 1), none]
    (column nullable 0).statistics.queryAdditionalStats .identityHash .compareEqual (.integer 5) =
        .filterAlwaysFalse ∧
      (checkZonemap .identityHash (column nullable) filters).1 = true ∧
      (checkZonemap .identityHash (column plain) filters).1 = false := by
  decide

end RowGroup

end StatsRecommender
