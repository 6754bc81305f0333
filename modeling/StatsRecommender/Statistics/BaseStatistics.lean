import StatsRecommender.Statistics.StatisticsSet
import StatsRecommender.Types.LogicalType

/-!
# Column statistics

`BaseStatistics` with the additional statistic it may point to, the queries of that
statistic in `ColumnData`, and what it means that the statistics are sound for a column.
-/

namespace StatsRecommender

/--
`BaseStatistics`.  The bounds of `stats_union` are left out: `HasMin` and `HasMax` answer
false, so they are never compared with a constant.
-/
structure BaseStatistics where
  type : LogicalType
  hasNull : Bool
  hasNoNull : Bool
  additionalStats : Option AdditionalStats
  childStats : List BaseStatistics
  deriving Repr

namespace BaseStatistics

def canHaveNull (stats : BaseStatistics) : Bool := stats.hasNull
def canHaveNoNull (stats : BaseStatistics) : Bool := stats.hasNoNull

/-- `CreateUnknown` of a type without children. -/
def createUnknown (type : LogicalType) : BaseStatistics := ⟨type, true, true, none, []⟩

/-- `CreateEmpty` of a type without children; a validity mask starts without any value. -/
def createEmpty (type : LogicalType) : BaseStatistics :=
  ⟨type, false, type.internalType ≠ .bit, none, []⟩

mutual

/-- `BaseStatistics::Merge`. -/
def merge : BaseStatistics → BaseStatistics → BaseStatistics
  | ⟨type, hasNull, hasNoNull, additional, children⟩, other =>
      ⟨type, hasNull || other.hasNull, hasNoNull || other.hasNoNull,
        additional.or other.additionalStats, mergeChildren children other.childStats⟩

def mergeChildren : List BaseStatistics → List BaseStatistics → List BaseStatistics
  | [], _ => []
  | child :: rest, [] => child :: rest
  | child :: rest, other :: others => child.merge other :: mergeChildren rest others

end

/-- `StructStats::GetChildStats`; the binder hands out positions of children only. -/
def getChildStats (stats : BaseStatistics) (index : Nat) : BaseStatistics :=
  stats.childStats.getD index (createUnknown ⟨.unknown, .unknown⟩)

/-- `ColumnData::QueryAdditionalStats`. -/
def queryAdditionalStats (runtime : Runtime) (stats : BaseStatistics)
    (comparison : ComparisonType) (constant : Payload) : FilterPropagateResult :=
  match stats.additionalStats with
  | none => .noPruningPossible
  | some additional => additional.query runtime comparison constant

/-- `ColumnData::RangeQueryAdditionalStats`. -/
def rangeQueryAdditionalStats (stats : BaseStatistics) (start finish : Payload) :
    FilterPropagateResult :=
  match stats.additionalStats with
  | none => .noPruningPossible
  | some additional => additional.queryRange start finish

@[simp]
theorem merge_hasNull (stats other : BaseStatistics) :
    (stats.merge other).hasNull = (stats.hasNull || other.hasNull) := by
  cases stats
  rfl

@[simp]
theorem merge_hasNoNull (stats other : BaseStatistics) :
    (stats.merge other).hasNoNull = (stats.hasNoNull || other.hasNoNull) := by
  cases stats
  rfl

/-- The pointer of the other statistics is adopted where there was none. -/
@[simp]
theorem merge_additionalStats (stats other : BaseStatistics) :
    (stats.merge other).additionalStats = stats.additionalStats.or other.additionalStats := by
  cases stats
  rfl

theorem queryAdditionalStats_twoValued (runtime : Runtime) (stats : BaseStatistics)
    (comparison : ComparisonType) (constant : Payload) :
    (stats.queryAdditionalStats runtime comparison constant).TwoValued := by
  unfold queryAdditionalStats
  split
  · exact Or.inl rfl
  · exact AdditionalStats.query_twoValued runtime _ comparison constant

end BaseStatistics

/-- The child of a struct value; the children of NULL are NULL. -/
def childValue (index : Nat) : Option Payload → Option Payload
  | some (.nested children) => children.child index
  | _ => none

/-- The values of a column that are not NULL. -/
def nonNull (values : List (Option Payload)) : List Payload := values.filterMap id

@[simp]
theorem mem_nonNull {values : List (Option Payload)} {payload : Payload} :
    payload ∈ nonNull values ↔ some payload ∈ values := by
  simp [nonNull]

theorem nonNull_append (values more : List (Option Payload)) :
    nonNull (values ++ more) = nonNull values ++ nonNull more :=
  List.filterMap_append

mutual

/-- The null flags and the additional statistic hold of the values, level by level. -/
def BaseStatistics.Sound (runtime : Runtime) : BaseStatistics → List (Option Payload) → Prop
  | ⟨_, hasNull, hasNoNull, additional, children⟩, values =>
      (none ∈ values → hasNull = true) ∧
      ((∃ payload, some payload ∈ values) → hasNoNull = true) ∧
      (∀ stats, additional = some stats → stats.Sound runtime (nonNull values)) ∧
      BaseStatistics.ChildrenSound runtime children 0 values

/-- The statistics of the children, counted from `index`, hold of the values' children. -/
def BaseStatistics.ChildrenSound (runtime : Runtime) :
    List BaseStatistics → Nat → List (Option Payload) → Prop
  | [], _, _ => True
  | child :: rest, index, values =>
      child.Sound runtime (values.map (childValue index)) ∧
      BaseStatistics.ChildrenSound runtime rest (index + 1) values

end

namespace BaseStatistics

variable {runtime : Runtime} {stats : BaseStatistics} {values : List (Option Payload)}

theorem Sound.hasNull (sound : stats.Sound runtime values) (member : none ∈ values) :
    stats.canHaveNull = true := by
  cases stats
  exact sound.1 member

theorem Sound.hasNoNull (sound : stats.Sound runtime values) {payload : Payload}
    (member : some payload ∈ values) : stats.canHaveNoNull = true := by
  cases stats
  exact sound.2.1 ⟨payload, member⟩

theorem Sound.additional (sound : stats.Sound runtime values) {additional : AdditionalStats}
    (held : stats.additionalStats = some additional) :
    additional.Sound runtime (nonNull values) := by
  cases stats
  exact sound.2.2.1 additional held

theorem ChildrenSound.getElem {children : List BaseStatistics} {first : Nat}
    (sound : ChildrenSound runtime children first values) {position : Nat}
    (bound : position < children.length) :
    children[position].Sound runtime (values.map (childValue (first + position))) := by
  induction children generalizing first position with
  | nil => exact absurd bound (Nat.not_lt_zero _)
  | cons child rest ih =>
      cases position with
      | zero => exact sound.1
      | succ position =>
          have inner := ih sound.2 (Nat.lt_of_succ_lt_succ bound)
          rwa [Nat.add_right_comm] at inner

theorem createUnknown_sound (type : LogicalType) (values : List (Option Payload)) :
    (createUnknown type).Sound runtime values :=
  ⟨fun _ => rfl, fun _ => rfl, fun _ held => (by cases held), trivial⟩

/-- The statistics of a column whose null flags were set by appending the given values. -/
def ofValues (type : LogicalType) (values : List (Option Payload))
    (additional : Option AdditionalStats) : BaseStatistics :=
  ⟨type, values.any Option.isNone, values.any Option.isSome, additional, []⟩

theorem ofValues_sound (type : LogicalType) {additional : Option AdditionalStats}
    (sound : ∀ stats, additional = some stats → stats.Sound runtime (nonNull values)) :
    (ofValues type values additional).Sound runtime values := by
  refine ⟨fun member => ?_, fun ⟨payload, member⟩ => ?_, sound, trivial⟩
  · exact List.any_eq_true.mpr ⟨none, member, rfl⟩
  · exact List.any_eq_true.mpr ⟨some payload, member, rfl⟩

/-- A column whose additional statistic was built from its values by `construct`. -/
def builtOver (runtime : Runtime) (type : LogicalType) (values : List (Option Payload))
    (statistic : StatisticType) : BaseStatistics :=
  ofValues type values
    (StatisticsSet.constructType runtime type.internalType (nonNull values) statistic)

theorem builtOver_sound {type : LogicalType} {statistic : StatisticType}
    (typed : ∀ value ∈ nonNull values, value.hasType type.internalType = true)
    (hashable : HashableData statistic (nonNull values)) :
    (builtOver runtime type values statistic).Sound runtime values :=
  ofValues_sound type fun _ built =>
    StatisticsSet.constructType_sound runtime typed hashable built

/-- The statistics of a struct column hold of each child column. -/
theorem Sound.child (sound : stats.Sound runtime values) (index : Nat) :
    (stats.getChildStats index).Sound runtime (values.map (childValue index)) := by
  cases stats with
  | mk type hasNull hasNoNull additional children =>
      rw [getChildStats]
      by_cases bound : index < children.length
      · rw [List.getD_eq_getElem _ _ bound]
        simpa using sound.2.2.2.getElem bound
      · rw [List.getD_eq_default _ _ (Nat.le_of_not_lt bound)]
        exact createUnknown_sound _ _

theorem Sound.queryAdditionalStats (sound : stats.Sound runtime values)
    (comparison : ComparisonType) (constant : Payload) :
    QuerySound (nonNull values) comparison constant
      (stats.queryAdditionalStats runtime comparison constant) := by
  unfold BaseStatistics.queryAdditionalStats
  split
  · exact .of_ne (by decide)
  · rename_i additional held
    exact (sound.additional held).query comparison constant

end BaseStatistics

end StatsRecommender
