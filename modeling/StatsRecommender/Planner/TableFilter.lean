import StatsRecommender.Library.ThreeValued
import StatsRecommender.Statistics.BaseStatistics

/-!
# Table filters

The filters pushed into a table scan (`planner/filter`), their meaning as the predicate
that `ToExpression` states, and `CheckStatistics`, which decides a filter from the
statistics of a column.
-/

namespace StatsRecommender

variable {result : FilterPropagateResult} {values : List (Option Payload)}

/-- `DynamicFilterData`: a comparison whose constant is set while the query runs. -/
structure DynamicFilterData where
  comparisonType : ComparisonType
  constant : Constant
  initialized : Bool
  deriving DecidableEq, Repr

/--
`TableFilter`.  The constants of comparisons and IN lists are not NULL and an IN list is
not empty, as the constructors of the source enforce.
-/
inductive TableFilter where
  | constantComparison (comparisonType : ComparisonType) (constant : Constant)
  | isNull
  | isNotNull
  | conjunctionOr (childFilters : List TableFilter)
  | conjunctionAnd (childFilters : List TableFilter)
  | structExtract (childIdx : Nat) (childName : String) (childFilter : TableFilter)
  | optionalFilter (childFilter : TableFilter)
  | inFilter (first : Constant) (rest : List Constant)
  | dynamicFilter (filterData : Option DynamicFilterData)
  | expressionFilter (expr : Option Payload → Option Bool)

variable {filter : TableFilter}

namespace TableFilter

/-- Induction over a filter tree, with the hypothesis for every child of a conjunction. -/
@[elab_as_elim]
theorem inductionOn {motive : TableFilter → Prop} (filter : TableFilter)
    (constantComparison : ∀ comparison constant, motive (.constantComparison comparison constant))
    (isNull : motive .isNull)
    (isNotNull : motive .isNotNull)
    (conjunctionOr : ∀ children, (∀ child ∈ children, motive child) →
      motive (.conjunctionOr children))
    (conjunctionAnd : ∀ children, (∀ child ∈ children, motive child) →
      motive (.conjunctionAnd children))
    (structExtract : ∀ index name child, motive child → motive (.structExtract index name child))
    (optionalFilter : ∀ child, motive child → motive (.optionalFilter child))
    (inFilter : ∀ first rest, motive (.inFilter first rest))
    (dynamicFilter : ∀ data, motive (.dynamicFilter data))
    (expressionFilter : ∀ expr, motive (.expressionFilter expr)) : motive filter :=
  @TableFilter.rec motive (fun children => ∀ child ∈ children, motive child)
    constantComparison isNull isNotNull conjunctionOr conjunctionAnd structExtract optionalFilter
    inFilter dynamicFilter expressionFilter
    (fun _ member => absurd member List.not_mem_nil)
    (fun _ _ hhead htail => List.forall_mem_cons.mpr ⟨hhead, htail⟩) filter

def isOptional : TableFilter → Bool
  | .optionalFilter _ => true
  | _ => false

/-- `value IN (constants)`, none of which is NULL. -/
def evalIn (constants : List Constant) : Option Payload → Option Bool
  | none => none
  | some value => some (constants.any fun constant => equals value constant.payload)

mutual

/-- The value of the expression that `ToExpression` builds over the column. -/
def eval : TableFilter → Option Payload → Option Bool
  | .constantComparison comparison constant, value => comparison.eval value (some constant.payload)
  | .isNull, value => some value.isNone
  | .isNotNull, value => some value.isSome
  | .conjunctionOr children, value => evalAny children value
  | .conjunctionAnd children, value => evalAll children value
  | .structExtract childIdx _ child, value => child.eval (childValue childIdx value)
  | .optionalFilter child, value => child.eval value
  | .inFilter first rest, value => evalIn (first :: rest) value
  | .dynamicFilter filterData, value =>
      match filterData with
      | none => some true
      | some data =>
          if data.initialized then data.comparisonType.eval value (some data.constant.payload)
          else some true
  | .expressionFilter expr, value => expr value

def evalAny : List TableFilter → Option Payload → Option Bool
  | [], _ => some false
  | filter :: rest, value => ThreeValued.or (filter.eval value) (evalAny rest value)

def evalAll : List TableFilter → Option Payload → Option Bool
  | [], _ => some true
  | filter :: rest, value => ThreeValued.and (filter.eval value) (evalAll rest value)

end

theorem evalAny_eq_true_iff (filters : List TableFilter) (value : Option Payload) :
    evalAny filters value = some true ↔ ∃ filter ∈ filters, filter.eval value = some true := by
  induction filters with
  | nil => simp [evalAny]
  | cons filter rest ih =>
      rw [evalAny, ThreeValued.or_eq_true_iff, ih, List.exists_mem_cons_iff]

theorem evalAll_eq_true_iff (filters : List TableFilter) (value : Option Payload) :
    evalAll filters value = some true ↔ ∀ filter ∈ filters, filter.eval value = some true := by
  induction filters with
  | nil => simp [evalAll]
  | cons filter rest ih =>
      rw [evalAll, ThreeValued.and_eq_true_iff, ih, List.forall_mem_cons]

/-! ## CheckStatistics -/

/-- The types of constants that `ConstantFilter::CheckStatistics` takes to the statistic. -/
def comparesConstants : PhysicalType → Bool
  | .uint8 | .uint16 | .uint32 | .uint64 | .uint128 => true
  | .int8 | .int16 | .int32 | .int64 | .int128 => true
  | .float | .double | .varchar => true
  | _ => false

/-- `ConstantFilter::CheckStatistics`. -/
def checkConstant (runtime : Runtime) (comparison : ComparisonType) (constant : Constant)
    (stats : BaseStatistics) : FilterPropagateResult :=
  if !stats.canHaveNoNull then
    if comparison = .compareDistinctFrom then .filterAlwaysTrue else .filterFalseOrNull
  else if comparison = .compareDistinctFrom ∧ stats.canHaveNull then .noPruningPossible
  else if !comparesConstants constant.type.internalType then .noPruningPossible
  else
    let result := stats.queryAdditionalStats runtime comparison constant.payload
    if result = .filterAlwaysFalse ∧ stats.canHaveNull then .filterFalseOrNull else result

/-- `NumericStats::CheckZonemap`: no bounds are available, so nothing is compared. -/
def numericCheckZonemap (_stats : BaseStatistics) (_constants : List Constant) :
    FilterPropagateResult :=
  .noPruningPossible

/-- `StringStats::CheckZonemap`. -/
def stringCheckZonemap (_stats : BaseStatistics) (_constants : List Constant) :
    FilterPropagateResult :=
  .noPruningPossible

/-- `InFilter::CheckStatistics`, by the type of the first constant. -/
def checkIn (stats : BaseStatistics) (first : Constant) (rest : List Constant) :
    FilterPropagateResult :=
  match first.type.internalType with
  | .uint8 | .uint16 | .uint32 | .uint64 | .uint128 => numericCheckZonemap stats (first :: rest)
  | .int8 | .int16 | .int32 | .int64 | .int128 => numericCheckZonemap stats (first :: rest)
  | .float | .double => numericCheckZonemap stats (first :: rest)
  | .varchar => stringCheckZonemap stats (first :: rest)
  | _ => .noPruningPossible

mutual

/-- `CheckStatistics` of each class of filters. -/
def checkStatistics (runtime : Runtime) : TableFilter → BaseStatistics → FilterPropagateResult
  | .constantComparison comparison constant, stats =>
      checkConstant runtime comparison constant stats
  | .isNull, stats =>
      if !stats.canHaveNull then .filterAlwaysFalse
      else if !stats.canHaveNoNull then .filterAlwaysTrue
      else .noPruningPossible
  | .isNotNull, stats =>
      if !stats.canHaveNoNull then .filterAlwaysFalse
      else if !stats.canHaveNull then .filterAlwaysTrue
      else .noPruningPossible
  | .conjunctionOr children, stats => checkOr runtime children stats
  | .conjunctionAnd children, stats => checkAnd runtime children .filterAlwaysTrue stats
  | .structExtract childIdx _ child, stats =>
      child.checkStatistics runtime (stats.getChildStats childIdx)
  | .optionalFilter child, stats => child.checkStatistics runtime stats
  | .inFilter first rest, stats => checkIn stats first rest
  | .dynamicFilter filterData, stats =>
      match filterData with
      | none => .noPruningPossible
      | some data =>
          if data.initialized then checkConstant runtime data.comparisonType data.constant stats
          else .noPruningPossible
  | .expressionFilter _, _ => .noPruningPossible

/-- The loop of `ConjunctionOrFilter::CheckStatistics`. -/
def checkOr (runtime : Runtime) : List TableFilter → BaseStatistics → FilterPropagateResult
  | [], _ => .filterAlwaysFalse
  | filter :: rest, stats =>
      match filter.checkStatistics runtime stats with
      | .noPruningPossible => .noPruningPossible
      | .filterAlwaysTrue => .filterAlwaysTrue
      | _ => checkOr runtime rest stats

/-- The loop of `ConjunctionAndFilter::CheckStatistics`, from the result so far. -/
def checkAnd (runtime : Runtime) :
    List TableFilter → FilterPropagateResult → BaseStatistics → FilterPropagateResult
  | [], result, _ => result
  | filter :: rest, result, stats =>
      let pruneResult := filter.checkStatistics runtime stats
      if pruneResult = .filterAlwaysFalse then .filterAlwaysFalse
      else if pruneResult ≠ result then checkAnd runtime rest .noPruningPossible stats
      else checkAnd runtime rest result stats

end

/-! ## What the loops answer -/

section Loops

variable (runtime : Runtime) (stats : BaseStatistics)

/-- An OR is never satisfied only if no child can be. -/
theorem checkOr_false_iff (filters : List TableFilter) :
    checkOr runtime filters stats = .filterAlwaysFalse ↔
      ∀ filter ∈ filters, filter.checkStatistics runtime stats ≠ .noPruningPossible ∧
        filter.checkStatistics runtime stats ≠ .filterAlwaysTrue := by
  induction filters with
  | nil => simp [checkOr]
  | cons filter rest ih =>
      rw [checkOr, List.forall_mem_cons]
      split
      · rename_i hopen
        simp [hopen]
      · rename_i htrue
        simp [htrue]
      · rename_i notOpen notTrue
        rw [ih, and_iff_right ⟨notOpen, notTrue⟩]

theorem checkOr_true {filters : List TableFilter}
    (answer : checkOr runtime filters stats = .filterAlwaysTrue) :
    ∃ filter ∈ filters, filter.checkStatistics runtime stats = .filterAlwaysTrue := by
  induction filters with
  | nil => cases answer
  | cons filter rest ih =>
      rw [checkOr] at answer
      split at answer
      · cases answer
      · rename_i htrue
        exact ⟨filter, List.mem_cons_self, htrue⟩
      · obtain ⟨inner, member, htrue⟩ := ih answer
        exact ⟨inner, List.mem_cons_of_mem _ member, htrue⟩

section

variable (filters : List TableFilter)

theorem checkOr_ne_falseOrNull : checkOr runtime filters stats ≠ .filterFalseOrNull := by
  induction filters with
  | nil => simp [checkOr]
  | cons filter rest ih =>
      rw [checkOr]
      split
      · decide
      · decide
      · exact ih

/-- An AND is never satisfied exactly if some child is never satisfied. -/
theorem checkAnd_false_iff (start : result ≠ .filterAlwaysFalse) :
    checkAnd runtime filters result stats = .filterAlwaysFalse ↔
      ∃ filter ∈ filters, filter.checkStatistics runtime stats = .filterAlwaysFalse := by
  induction filters generalizing result with
  | nil => simp [checkAnd, start]
  | cons filter rest ih =>
      rw [checkAnd, List.exists_mem_cons_iff]
      split
      · rename_i hfalse
        simp [hfalse]
      · rename_i notFalse
        rw [or_iff_right notFalse]
        split
        · exact ih (by decide)
        · exact ih start

/-- Without a child that is never satisfied, only the two other answers of the loop are left. -/
theorem checkAnd_result (start : result = .filterAlwaysTrue ∨ result = .noPruningPossible) :
    checkAnd runtime filters result stats = .filterAlwaysFalse ∨
      checkAnd runtime filters result stats = .filterAlwaysTrue ∨
      checkAnd runtime filters result stats = .noPruningPossible := by
  induction filters generalizing result with
  | nil => exact Or.inr start
  | cons filter rest ih =>
      rw [checkAnd]
      split
      · exact Or.inl rfl
      · split
        · exact ih (Or.inr rfl)
        · exact ih start

/-- A loop that has seen an open child never comes to "always true" again. -/
theorem checkAnd_open_ne_true :
    checkAnd runtime filters .noPruningPossible stats ≠ .filterAlwaysTrue := by
  induction filters with
  | nil => simp [checkAnd]
  | cons filter rest ih =>
      rw [checkAnd]
      split
      · decide
      · split <;> exact ih

/-- An AND is always satisfied exactly if every child is. -/
theorem checkAnd_true_iff :
    checkAnd runtime filters .filterAlwaysTrue stats = .filterAlwaysTrue ↔
      ∀ filter ∈ filters, filter.checkStatistics runtime stats = .filterAlwaysTrue := by
  induction filters with
  | nil => simp [checkAnd]
  | cons filter rest ih =>
      rw [checkAnd, List.forall_mem_cons]
      split
      · rename_i hfalse
        simp [hfalse]
      · split
        · rename_i notTrue
          exact iff_of_false (checkAnd_open_ne_true runtime stats rest) (fun both => notTrue both.1)
        · rename_i htrue
          rw [ih, and_iff_right (Decidable.not_not.mp htrue)]

end

end Loops

/-! ## Soundness -/

/-- What an answer of `CheckStatistics` promises for the values of the column. -/
structure CheckSound (filter : TableFilter) (values : List (Option Payload))
    (answer : FilterPropagateResult) : Prop where
  never : answer = .filterAlwaysFalse ∨ answer = .filterFalseOrNull →
    ∀ value ∈ values, filter.eval value ≠ some true
  always : answer = .filterAlwaysTrue → ∀ value ∈ values, filter.eval value = some true

theorem CheckSound.of_open (filter : TableFilter) (values : List (Option Payload)) :
    CheckSound filter values .noPruningPossible :=
  ⟨fun impossible => absurd impossible (by decide), fun impossible => absurd impossible (by decide)⟩

theorem CheckSound.of_never {answer : FilterPropagateResult} (hanswer : answer ≠ .filterAlwaysTrue)
    (fails : ∀ value ∈ values, filter.eval value ≠ some true) : CheckSound filter values answer :=
  ⟨fun _ => fails, fun impossible => absurd impossible hanswer⟩

theorem CheckSound.of_always (holds : ∀ value ∈ values, filter.eval value = some true) :
    CheckSound filter values .filterAlwaysTrue :=
  ⟨fun impossible => absurd impossible (by decide), fun _ => holds⟩

/-- A NULL satisfies no comparison with a constant but `IS DISTINCT FROM`. -/
theorem eval_comparison_none {comparison : ComparisonType} (constant : Payload)
    (other : comparison ≠ .compareDistinctFrom) :
    comparison.eval none (some constant) ≠ some true := by
  cases comparison <;> simp [ComparisonType.eval] at other ⊢

section Sound

variable {runtime : Runtime} {stats : BaseStatistics} {values : List (Option Payload)}

theorem checkConstant_sound (sound : stats.Sound runtime values) (comparison : ComparisonType)
    (constant : Constant) :
    CheckSound (.constantComparison comparison constant) values
      (checkConstant runtime comparison constant stats) := by
  unfold checkConstant
  split
  · -- only NULLs are stored
    rename_i noValues
    have onlyNull : ∀ value ∈ values, value = none := by
      intro value member
      cases value with
      | none => rfl
      | some payload => simp [sound.hasNoNull member] at noValues
    split
    · rename_i distinct
      refine CheckSound.of_always fun value member => ?_
      rw [onlyNull value member, distinct]
      rfl
    · rename_i other
      refine CheckSound.of_never (by decide) fun value member => ?_
      rw [onlyNull value member]
      exact eval_comparison_none constant.payload other
  · split
    · exact CheckSound.of_open _ _
    · rename_i nullsCovered
      split
      · exact CheckSound.of_open _ _
      · dsimp only
        rcases stats.queryAdditionalStats_twoValued runtime comparison constant.payload with
          hopen | excluded
        · rw [hopen, if_neg (fun both => FilterPropagateResult.noConfusion both.1)]
          exact CheckSound.of_open _ _
        · have fails : ∀ value ∈ values,
              (TableFilter.constantComparison comparison constant).eval value ≠ some true := by
            intro value member
            cases value with
            | none =>
                refine eval_comparison_none constant.payload fun distinct => ?_
                exact nullsCovered ⟨distinct, sound.hasNull member⟩
            | some payload =>
                have hfalse := sound.queryAdditionalStats comparison constant.payload excluded
                  payload (mem_nonNull.mpr member)
                simp [eval, ComparisonType.eval, hfalse]
          refine CheckSound.of_never ?_ fails
          split
          · decide
          · rw [excluded]
            decide

theorem checkConstant_ne_trueOrNull (runtime : Runtime) (comparison : ComparisonType)
    (constant : Constant) (stats : BaseStatistics) :
    checkConstant runtime comparison constant stats ≠ .filterTrueOrNull := by
  unfold checkConstant
  split
  · split <;> decide
  · split
    · decide
    · split
      · decide
      · rcases stats.queryAdditionalStats_twoValued runtime comparison constant.payload with
          answer | answer <;> rw [answer] <;> dsimp only <;> split <;> decide

theorem checkIn_open (stats : BaseStatistics) (first : Constant) (rest : List Constant) :
    checkIn stats first rest = .noPruningPossible := by
  unfold checkIn
  split <;> rfl

/-- No filter answers "true or NULL". -/
theorem checkStatistics_ne_trueOrNull (runtime : Runtime) (filter : TableFilter)
    (stats : BaseStatistics) : filter.checkStatistics runtime stats ≠ .filterTrueOrNull := by
  induction filter using TableFilter.inductionOn generalizing stats with
  | constantComparison comparison constant =>
      exact checkConstant_ne_trueOrNull runtime comparison constant stats
  | isNull | isNotNull =>
      rw [checkStatistics]
      split
      · decide
      · split <;> decide
  | conjunctionOr children ih =>
      rw [checkStatistics]
      clear ih
      induction children with
      | nil => simp [checkOr]
      | cons child rest ih =>
          rw [checkOr]
          split
          · decide
          · decide
          · exact ih
  | conjunctionAnd children ih =>
      rw [checkStatistics]
      have result := checkAnd_result runtime stats children (Or.inl rfl)
      intro answer
      rw [answer] at result
      exact absurd result (by decide)
  | structExtract index name child ih => exact ih _
  | optionalFilter child ih => exact ih stats
  | inFilter first rest =>
      rw [checkStatistics, checkIn_open]
      decide
  | dynamicFilter data =>
      cases data with
      | none => simp [checkStatistics]
      | some data =>
          rw [checkStatistics]
          split
          · exact checkConstant_ne_trueOrNull runtime _ _ stats
          · decide
  | expressionFilter expr => simp [checkStatistics]

theorem checkStatistics_cases (runtime : Runtime) (filter : TableFilter) (stats : BaseStatistics)
    (notOpen : filter.checkStatistics runtime stats ≠ .noPruningPossible)
    (notTrue : filter.checkStatistics runtime stats ≠ .filterAlwaysTrue) :
    filter.checkStatistics runtime stats = .filterAlwaysFalse ∨
      filter.checkStatistics runtime stats = .filterFalseOrNull := by
  have notTrueOrNull := filter.checkStatistics_ne_trueOrNull runtime stats
  cases hanswer : filter.checkStatistics runtime stats <;> simp_all

/-- An answer of `CheckStatistics` is right about every value the statistics are sound for. -/
theorem checkStatistics_spec (filter : TableFilter) (sound : stats.Sound runtime values) :
    CheckSound filter values (filter.checkStatistics runtime stats) := by
  induction filter using TableFilter.inductionOn generalizing stats values with
  | constantComparison comparison constant => exact checkConstant_sound sound comparison constant
  | isNull =>
      rw [checkStatistics]
      split
      · rename_i noNull
        refine CheckSound.of_never (by decide) fun value member => ?_
        cases value with
        | none => simp [sound.hasNull member] at noNull
        | some payload => simp [eval]
      · split
        · rename_i noValue
          refine CheckSound.of_always fun value member => ?_
          cases value with
          | none => rfl
          | some payload => simp [sound.hasNoNull member] at noValue
        · exact CheckSound.of_open _ _
  | isNotNull =>
      rw [checkStatistics]
      split
      · rename_i noValue
        refine CheckSound.of_never (by decide) fun value member => ?_
        cases value with
        | none => simp [eval]
        | some payload => simp [sound.hasNoNull member] at noValue
      · split
        · rename_i noNull
          refine CheckSound.of_always fun value member => ?_
          cases value with
          | none => simp [sound.hasNull member] at noNull
          | some payload => rfl
        · exact CheckSound.of_open _ _
  | conjunctionOr children ih =>
      rw [checkStatistics]
      constructor
      · intro never value member holds
        have hfalse := never.resolve_right (checkOr_ne_falseOrNull runtime stats children)
        obtain ⟨child, hchild, hholds⟩ := (evalAny_eq_true_iff children value).mp holds
        have excluded := (checkOr_false_iff runtime stats children).mp hfalse child hchild
        refine (ih child hchild sound).never ?_ value member hholds
        exact child.checkStatistics_cases runtime stats excluded.1 excluded.2
      · intro always value member
        obtain ⟨child, hchild, htrue⟩ := checkOr_true runtime stats always
        exact (evalAny_eq_true_iff children value).mpr
          ⟨child, hchild, (ih child hchild sound).always htrue value member⟩
  | conjunctionAnd children ih =>
      rw [checkStatistics]
      constructor
      · intro never value member holds
        have hfalse : checkAnd runtime children .filterAlwaysTrue stats = .filterAlwaysFalse := by
          rcases never with hfalse | hnull
          · exact hfalse
          · have result := checkAnd_result runtime stats children (Or.inl rfl)
            rw [hnull] at result
            exact absurd result (by decide)
        obtain ⟨child, hchild, excluded⟩ :=
          (checkAnd_false_iff runtime stats children (by decide)).mp hfalse
        exact (ih child hchild sound).never (Or.inl excluded) value member
          ((evalAll_eq_true_iff children value).mp holds child hchild)
      · intro always value member
        have htrue := (checkAnd_true_iff runtime stats children).mp always
        exact (evalAll_eq_true_iff children value).mpr
          fun child hchild => (ih child hchild sound).always (htrue child hchild) value member
  | structExtract childIdx childName child ih =>
      have inner := ih (sound.child childIdx)
      exact ⟨fun never value member => inner.never never _ (List.mem_map_of_mem member),
        fun always value member => inner.always always _ (List.mem_map_of_mem member)⟩
  | optionalFilter child ih => exact ⟨(ih sound).never, (ih sound).always⟩
  | inFilter first rest =>
      rw [checkStatistics, checkIn_open]
      exact CheckSound.of_open _ _
  | dynamicFilter filterData =>
      cases filterData with
      | none => exact CheckSound.of_open _ _
      | some data =>
          rw [checkStatistics]
          split
          · rename_i initialized
            have inner := checkConstant_sound sound data.comparisonType data.constant
            have same : ∀ value, (dynamicFilter (some data)).eval value =
                (constantComparison data.comparisonType data.constant).eval value := by
              intro value
              simp [eval, initialized]
            exact ⟨fun never value member => same value ▸ inner.never never value member,
              fun always value member => same value ▸ inner.always always value member⟩
          · exact CheckSound.of_open _ _
  | expressionFilter expr => exact CheckSound.of_open _ _

end Sound

/-- `CheckStatistics` excludes or accepts a column only as its values do, at every nesting. -/
theorem checkStatistics_sound (runtime : Runtime) (filter : TableFilter) {stats : BaseStatistics}
    {values : List (Option Payload)} (sound : stats.Sound runtime values) :
    (filter.checkStatistics runtime stats = .filterAlwaysFalse ∨
        filter.checkStatistics runtime stats = .filterFalseOrNull →
      ∀ value ∈ values, filter.eval value ≠ some true) ∧
    (filter.checkStatistics runtime stats = .filterAlwaysTrue →
      ∀ value ∈ values, filter.eval value = some true) :=
  ⟨(checkStatistics_spec filter sound).never, (checkStatistics_spec filter sound).always⟩

/-- A nullable column with a dictionary of 1 and 5, under a disjunction of two comparisons. -/
theorem checkStatistics_sound_dictionary :
    let values := [some (.integer 1), none, some (.integer 5)]
    let filter := conjunctionOr
      [.constantComparison .compareEqual ⟨.integer, .integer 9⟩,
        .optionalFilter (.constantComparison .compareGreaterThan ⟨.integer, .integer 7⟩)]
    let stats := BaseStatistics.builtOver .identityHash .integer values .dictionary
    filter.checkStatistics .identityHash stats = .filterAlwaysFalse ∧
      ((filter.checkStatistics .identityHash stats = .filterAlwaysFalse ∨
          filter.checkStatistics .identityHash stats = .filterFalseOrNull →
        ∀ value ∈ values, filter.eval value ≠ some true) ∧
      (filter.checkStatistics .identityHash stats = .filterAlwaysTrue →
        ∀ value ∈ values, filter.eval value = some true)) :=
  ⟨by decide, checkStatistics_sound .identityHash _
    (BaseStatistics.builtOver_sound (by decide) (by simp [HashableData, StatisticType.template]))⟩


end TableFilter

end StatsRecommender
