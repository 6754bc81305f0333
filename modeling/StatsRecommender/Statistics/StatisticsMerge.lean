import StatsRecommender.Statistics.BaseStatistics
import StatsRecommender.Statistics.ClusterSearch

/-!
# Merging statistics

`BaseStatistics::Merge` keeps the additional statistic of the first object, or adopts that of the
second one, though either describes the values of its own object only.
-/

namespace StatsRecommender

variable {type : PhysicalType} {N : Nat} {data : List Payload} {value : Payload}
  {statistic : StatisticType}

/-! ## What a statistic covers -/

/-- Built from data, the clusters exclude no comparison that a value in one of them satisfies. -/
theorem ClusterAdditionalStats.query_sound_of_covers (runtime : Runtime) (positive : 0 < N)
    (typed : Homogeneous type data) (covers : (initialise runtime type N data).inverted = true ∨
      BlockCover.Covers Payload.key (initialise runtime type N data).blocks value)
    (comparison : ComparisonType) (constant : Payload) :
    QuerySound [value] comparison constant
      ((initialise runtime type N data).query N comparison constant) := by
  rcases covers with inverted | covers
  · refine .of_ne ?_
    unfold query
    rw [if_pos (Or.inr inverted)]
    decide
  · cases data with
    | nil =>
        refine .of_ne ?_
        unfold query
        rw [if_pos (Or.inr (initialise_nil runtime type N))]
        decide
    | cons head tail =>
        have summary := initialise_summarises runtime positive (List.cons_ne_nil _ _) typed
        have single : (initialise runtime type N (head :: tail)).Summarises N [value] :=
          ⟨summary.length, summary.ordered, fun other member => by
            rw [List.mem_singleton.mp member]
            exact covers⟩
        exact single.query_sound positive comparison constant

/-- They leave equality open only with a value in one of them. -/
theorem ClusterAdditionalStats.covers_of_query (runtime : Runtime) (positive : 0 < N)
    (typed : Homogeneous type data)
    (answer : (initialise runtime type N data).query N .compareEqual value ≠ .filterAlwaysFalse) :
    (initialise runtime type N data).inverted = true ∨
      BlockCover.Covers Payload.key (initialise runtime type N data).blocks value := by
  cases data with
  | nil => exact Or.inl (initialise_nil runtime type N)
  | cons head tail =>
      have summary := initialise_summarises runtime positive (List.cons_ne_nil _ _) typed
      have left : (initialise runtime type N (head :: tail)).query N .compareEqual value =
          .noPruningPossible := (query_twoValued _ _ _ _).resolve_right answer
      rw [← summary.queryRange_self positive] at left
      obtain ⟨index, inside, high, low⟩ :=
        (summary.queryRange_iff positive ((lessThanEquals_iff _ _).mpr le_rfl)).mp left
      rw [← summary.length] at inside
      rw [greaterThanEquals_iff, maxValue_eq _ inside] at high
      rw [lessThanEquals_iff, minValue_eq _ inside] at low
      exact Or.inr ⟨_, List.getElem_mem inside, low, high⟩

namespace AdditionalStats

/-- The statistic excludes no comparison that the value satisfies. -/
def Admits (runtime : Runtime) (stats : AdditionalStats) (value : Payload) : Prop :=
  ∀ comparison constant, comparison.holds value constant = true →
    stats.query runtime comparison constant ≠ .filterAlwaysFalse

/-- Built from values of a type, the statistic admits the values that it covers, and no others. -/
theorem admits_iff_covers {runtime : Runtime} {stats : AdditionalStats}
    (typed : ∀ value ∈ data, value.hasType type = true)
    (built : StatisticsSet.constructType runtime type data statistic = some stats)
    (valueTyped : value.hasType type = true) :
    stats.Admits runtime value ↔ stats.Covers runtime value := by
  obtain ⟨template, htemplate, rfl⟩ := Option.map_eq_some_iff.mp built
  have proper := statistic.template_proper htemplate
  have itself : ComparisonType.compareEqual.holds value value = true := (equals_iff _ _).mpr rfl
  simp only [Admits, Covers, query, htemplate]
  cases template with
  | empty => exact iff_of_true (fun _ _ _ impossible => by cases impossible) trivial
  | cluster N =>
      by_cases string : type = .varchar
      · subst string
        have own := Payload.varchar_bytes valueTyped
        simp only [initialise, if_pos]
        constructor
        · intro admits
          have left := admits .compareEqual value itself
          rw [own] at left
          exact StringClusterAdditionalStats.exists_between proper left
        · rintro ⟨block, member, between⟩ comparison constant holds
          cases constant with
          | varchar bytes =>
              intro excluded
              have fails := between.query_sound member excluded
              rw [← own, holds] at fails
              cases fails
          | _ =>
              intro impossible
              cases impossible
      · simp only [initialise, if_neg string]
        constructor
        · intro admits
          exact ClusterAdditionalStats.covers_of_query runtime proper typed
            (admits .compareEqual value itself)
        · intro covers comparison constant holds excluded
          have fails := ClusterAdditionalStats.query_sound_of_covers runtime proper typed covers
            comparison constant excluded value (List.mem_singleton_self _)
          rw [holds] at fails
          cases fails
  | bloom N M K =>
      simp only [initialise]
      constructor
      · intro admits constant same
        exact (BloomAdditionalStats.query_of_equality _ runtime N M K (Or.inl rfl) constant).mp
          (admits .compareEqual constant same)
      · intro covers comparison constant holds
        cases comparison with
        | compareEqual | compareNotDistinctFrom =>
            refine (BloomAdditionalStats.query_of_equality _ runtime N M K ?_ constant).mpr
              (covers constant holds)
            first
            | exact Or.inl rfl
            | exact Or.inr rfl
        | _ =>
            intro impossible
            cases impossible
  | dictionary N =>
      simp only [initialise]
      constructor
      · intro admits
        have left := admits .compareEqual value itself
        rw [DictionaryAdditionalStats.query] at left
        split at left
        · rename_i invalid
          exact Or.inl ((Bool.not_eq_true' _).mp invalid)
        · split at left
          · rename_i found
            obtain ⟨elem, member, same⟩ := List.any_eq_true.mp found
            exact Or.inr ⟨elem, member, (equals_iff _ _).mp same⟩
          · exact absurd rfl left
      · intro covers comparison constant holds
        rw [DictionaryAdditionalStats.query]
        rcases covers with invalid | ⟨elem, member, same⟩
        · rw [if_pos ((Bool.not_eq_true' _).mpr invalid)]
          decide
        · have admitted : DictionaryAdditionalStats.admits comparison constant elem = true := by
            by_contra fails
            rw [Bool.not_eq_true] at fails
            rw [DictionaryAdditionalStats.holds_of_admits same fails] at holds
            cases holds
          rw [if_pos (List.any_eq_true.mpr ⟨elem, member, admitted⟩), ite_self]
          decide

end AdditionalStats

namespace BaseStatistics

variable {runtime : Runtime} {stats other : BaseStatistics} {values values' : List (Option Payload)}

/-- The null flags and the additional statistic are sound for values. -/
structure SoundFor (runtime : Runtime) (stats : BaseStatistics) (values : List (Option Payload)) :
    Prop where
  hasNull : none ∈ values → stats.hasNull = true
  hasNoNull : ∀ value, some value ∈ values → stats.hasNoNull = true
  additional : ∀ additional, stats.additionalStats = some additional →
    ∀ value, some value ∈ values → additional.Admits runtime value

/-- Values of the type of the object. -/
def Typed (stats : BaseStatistics) (values : List (Option Payload)) : Prop :=
  ∀ value, some value ∈ values → value.hasType stats.type.internalType = true

/-- An additional statistic of the object was built from some values of its type. -/
def Built (runtime : Runtime) (stats : BaseStatistics) : Prop :=
  ∀ additional, stats.additionalStats = some additional → ∃ data statistic,
    (∀ value ∈ data, value.hasType stats.type.internalType = true) ∧
      StatisticsSet.constructType runtime stats.type.internalType data statistic = some additional

/-- The statistic that a merge keeps or adopts covers the values of the other object. -/
structure KeptCovers (runtime : Runtime) (stats other : BaseStatistics)
    (values values' : List (Option Payload)) : Prop where
  kept : ∀ additional, stats.additionalStats = some additional →
    ∀ value, some value ∈ values' → additional.Covers runtime value
  adopted : stats.additionalStats = none → ∀ additional, other.additionalStats = some additional →
    ∀ value, some value ∈ values → additional.Covers runtime value

/-- Statistics that were built over values are sound for them. -/
theorem builtOver_soundFor {type : LogicalType}
    (typed : ∀ value ∈ nonNull values, value.hasType type.internalType = true)
    (hashable : HashableData statistic (nonNull values)) :
    (builtOver runtime type values statistic).SoundFor runtime values := by
  have sound : (builtOver runtime type values statistic).Sound runtime values :=
    builtOver_sound typed hashable
  refine ⟨sound.hasNull, fun value member => sound.hasNoNull member,
    fun additional held value member comparison constant holds excluded => ?_⟩
  have refuted := (sound.additional held).query comparison constant excluded value
    (mem_nonNull.mpr member)
  rw [holds] at refuted
  cases refuted

theorem builtOver_built {type : LogicalType}
    (typed : ∀ value ∈ nonNull values, value.hasType type.internalType = true) :
    (builtOver runtime type values statistic).Built runtime :=
  fun _ held => ⟨nonNull values, statistic, typed, held⟩

/-- A MIN_MAX statistic is no Bloom filter. -/
theorem hashable_minMax (data : List Payload) : HashableData .minMax data := by
  rintro ⟨N, M, K, template⟩
  cases template

/--
Merging two objects of one type that are sound for some values gives one that is sound for all of
them exactly where the kept statistic covers the values that it does not come from.
-/
theorem merge_soundFor_iff (same : stats.type = other.type) (built : stats.Built runtime)
    (built' : other.Built runtime) (typed : stats.Typed values) (typed' : other.Typed values')
    (sound : stats.SoundFor runtime values) (sound' : other.SoundFor runtime values') :
    (stats.merge other).SoundFor runtime (values ++ values') ↔
      KeptCovers runtime stats other values values' := by
  constructor
  · intro merged
    constructor
    · intro additional held value member
      obtain ⟨data, statistic, homogeneous, made⟩ := built additional held
      refine (AdditionalStats.admits_iff_covers homogeneous made ?_).mp
        (merged.additional additional ?_ value (List.mem_append_right _ member))
      · rw [same]
        exact typed' value member
      · rw [merge_additionalStats, held, Option.some_or]
    · intro missing additional held value member
      obtain ⟨data, statistic, homogeneous, made⟩ := built' additional held
      refine (AdditionalStats.admits_iff_covers homogeneous made ?_).mp
        (merged.additional additional ?_ value (List.mem_append_left _ member))
      · rw [← same]
        exact typed value member
      · rw [merge_additionalStats, missing, Option.none_or, held]
  · intro both
    constructor
    · intro member
      rw [merge_hasNull, Bool.or_eq_true]
      exact (List.mem_append.mp member).imp sound.hasNull sound'.hasNull
    · intro value member
      rw [merge_hasNoNull, Bool.or_eq_true]
      exact (List.mem_append.mp member).imp (sound.hasNoNull value) (sound'.hasNoNull value)
    · intro additional held value member
      rw [merge_additionalStats] at held
      cases pointer : stats.additionalStats with
      | some first =>
          rw [pointer, Option.some_or] at held
          cases held
          rcases List.mem_append.mp member with inside | inside
          · exact sound.additional additional pointer value inside
          · obtain ⟨data, statistic, homogeneous, made⟩ := built additional pointer
            refine (AdditionalStats.admits_iff_covers homogeneous made ?_).mpr
              (both.kept additional pointer value inside)
            rw [same]
            exact typed' value inside
      | none =>
          rw [pointer, Option.none_or] at held
          rcases List.mem_append.mp member with inside | inside
          · obtain ⟨data, statistic, homogeneous, made⟩ := built' additional held
            refine (AdditionalStats.admits_iff_covers homogeneous made ?_).mpr
              (both.adopted pointer additional held value inside)
            rw [← same]
            exact typed value inside
          · exact sound'.additional additional held value inside

/-- The values of the second object lie between those of the first one. -/
theorem merge_soundFor_between :
    ((builtOver .identityHash .integer [some (.integer 5), none, some (.integer 7)] .minMax).merge
      (builtOver .identityHash .integer [some (.integer 6), none] .minMax)).SoundFor .identityHash
        ([some (.integer 5), none, some (.integer 7)] ++ [some (.integer 6), none]) := by
  have first : ∀ value ∈ nonNull [some (.integer 5), none, some (.integer 7)],
      value.hasType LogicalType.integer.internalType = true := by decide
  have second : ∀ value ∈ nonNull [some (.integer 6), none],
      value.hasType LogicalType.integer.internalType = true := by decide
  have merged := @merge_soundFor_iff .identityHash
    (builtOver .identityHash .integer [some (.integer 5), none, some (.integer 7)] .minMax)
    (builtOver .identityHash .integer [some (.integer 6), none] .minMax) _ _ rfl
    (builtOver_built first) (builtOver_built second)
    (fun value member => first value (mem_nonNull.mpr member))
    (fun value member => second value (mem_nonNull.mpr member))
    (builtOver_soundFor first (hashable_minMax _)) (builtOver_soundFor second (hashable_minMax _))
  refine merged.mpr ⟨?_, fun missing => by cases missing⟩
  intro additional held value member
  cases held
  cases List.mem_singleton.mp (show value ∈ [.integer 6] from mem_nonNull.mpr member)
  exact Or.inr ⟨(.integer 5, .integer 7), by decide, by decide, by decide⟩

/-- Two row groups of an integer column, one with the value 5 and one with the value 100. -/
theorem merge_soundFor_outlier :
    (builtOver .identityHash .integer [some (.integer 5)] .minMax).SoundFor .identityHash
      [some (.integer 5)] ∧
    (builtOver .identityHash .integer [some (.integer 100)] .minMax).SoundFor .identityHash
      [some (.integer 100)] ∧
    ¬((builtOver .identityHash .integer [some (.integer 5)] .minMax).merge
      (builtOver .identityHash .integer [some (.integer 100)] .minMax)).SoundFor .identityHash
        ([some (.integer 5)] ++ [some (.integer 100)]) := by
  refine ⟨builtOver_soundFor (by decide) (hashable_minMax _),
    builtOver_soundFor (by decide) (hashable_minMax _), fun sound => ?_⟩
  have admits := sound.additional _ rfl (.integer 100) (by simp)
  exact admits .compareEqual (.integer 100) (by decide) (by decide +kernel)

end BaseStatistics

end StatsRecommender
