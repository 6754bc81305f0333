import StatsRecommender.Statistics.StringClusterAdditionalStats
import StatsRecommender.Statistics.BloomAdditionalStats
import StatsRecommender.Statistics.DictionaryAdditionalStats

/-!
# The set of statistics

`StatisticsSet`: the kinds of additional statistics, the mapping that recommends one for
each column of a row group, and the dispatch of queries on the kind.
-/

namespace StatsRecommender

/-- `STATISTIC_TYPE`. -/
inductive StatisticType where
  | error
  | none
  | minMax
  | clusterSmall
  | clusterMedium
  | clusterLarge
  | bloomSmall
  | bloomMedium
  | bloomLarge
  | dictionary
  | bloomTiny
  deriving DecidableEq, Repr

/-- The class template a kind stands for, with its parameters. -/
inductive StatisticTemplate where
  | empty
  | cluster (N : Nat)
  | bloom (N M K : Nat)
  | dictionary (N : Nat)
  deriving DecidableEq, Repr

def StatisticType.template : StatisticType → Option StatisticTemplate
  | .error => Option.none
  | .none => some .empty
  | .minMax => some (.cluster 1)
  | .clusterSmall => some (.cluster 10)
  | .clusterMedium => some (.cluster 50)
  | .clusterLarge => some (.cluster 200)
  | .bloomSmall => some (.bloom 20 1 1)
  | .bloomMedium => some (.bloom 100 1 1)
  | .bloomLarge => some (.bloom 400 1 2)
  | .dictionary => some (.dictionary 300)
  | .bloomTiny => some (.bloom 2 1 1)

/-- Parameters for which the template is a class with storage. -/
def StatisticTemplate.Proper : StatisticTemplate → Prop
  | .empty => True
  | .cluster N => 0 < N
  | .bloom N M _ => 0 < N ∧ 0 < M
  | .dictionary _ => True

theorem StatisticType.template_proper (type : StatisticType) {template : StatisticTemplate}
    (instantiated : type.template = some template) : template.Proper := by
  cases type <;> cases instantiated <;> simp [StatisticTemplate.Proper]

/-- The members of an instance of one of the class templates. -/
inductive AdditionalStatsMembers where
  | empty
  | cluster (stats : ClusterAdditionalStats)
  | stringCluster (stats : StringClusterAdditionalStats)
  | bloom (stats : BloomAdditionalStats)
  | dictionary (stats : DictionaryAdditionalStats)
  deriving DecidableEq, Repr

/-- `AdditionalStats<T>`: the tag `type` and what the subclass adds. -/
structure AdditionalStats where
  type : StatisticType
  members : AdditionalStatsMembers
  deriving DecidableEq, Repr

/--
`StatisticsSet`: the recommended mapping and the kind used without a recommendation.  The
loader of mappings takes the kinds from `NONE` on only.
-/
structure StatisticsSet where
  defaultType : StatisticType
  mapping : List ((String × Nat × Nat) × StatisticType)
  default_ne_error : defaultType ≠ .error
  mapping_ne_error : ∀ entry ∈ mapping, entry.2 ≠ .error

def Payload.bytes : Payload → List UInt8
  | .varchar bytes => bytes
  | _ => []

namespace AdditionalStats

/-- The constructor of the class a template stands for at the C++ type of the values. -/
def initialise (runtime : Runtime) (type : PhysicalType) (data : List Payload) :
    StatisticTemplate → AdditionalStatsMembers
  | .empty => .empty
  | .cluster N =>
      if type = .varchar then
        .stringCluster (StringClusterAdditionalStats.initialise N (data.map Payload.bytes))
      else .cluster (ClusterAdditionalStats.initialise runtime type N data)
  | .bloom N M K => .bloom (BloomAdditionalStats.initialise runtime N M K data)
  | .dictionary N => .dictionary (DictionaryAdditionalStats.initialise N data)

/-- `StatisticsSet::Query`: the tag chooses the class the members are read as. -/
def query (runtime : Runtime) (stats : AdditionalStats) (comparison : ComparisonType)
    (constant : Payload) : FilterPropagateResult :=
  match stats.type.template, stats.members with
  | some (.cluster N), .cluster members => members.query N comparison constant
  | some (.cluster N), .stringCluster members =>
      match constant with
      | .varchar bytes => members.query N comparison bytes
      | _ => .noPruningPossible
  | some (.bloom N M K), .bloom members => members.query runtime N M K comparison constant
  | some (.dictionary _), .dictionary members => members.query comparison constant
  | _, _ => .noPruningPossible

/-- `StatisticsSet::QueryRange`. -/
def queryRange (stats : AdditionalStats) (start finish : Payload) : FilterPropagateResult :=
  match stats.type.template, stats.members with
  | some (.cluster N), .cluster members => members.queryRange N start finish
  | some (.cluster N), .stringCluster members => members.queryRange N start.bytes finish.bytes
  | some (.bloom _ _ _), .bloom members => members.queryRange start finish
  | some (.dictionary _), .dictionary members => members.queryRange start finish
  | _, _ => .noPruningPossible

/--
The statistic has room for the value: a block it lies in, an element equal to it, or the bits of
all that is equal to it.
-/
def Covers (runtime : Runtime) (stats : AdditionalStats) (value : Payload) : Prop :=
  match stats.type.template, stats.members with
  | some (.cluster _), .cluster members =>
      members.inverted = true ∨ BlockCover.Covers Payload.key members.blocks value
  | some (.cluster _), .stringCluster members =>
      ∃ block ∈ members.blocks, StringClusterAdditionalStats.Between block value.bytes
  | some (.bloom N M K), .bloom members => ∀ constant, equals value constant = true →
      BloomAdditionalStats.queryUtil runtime N M K members.bitArray constant = true
  | some (.dictionary _), .dictionary members =>
      members.valid = false ∨ DictionaryAdditionalStats.Represents members.dictionary value
  | _, _ => True

theorem query_twoValued (runtime : Runtime) (stats : AdditionalStats)
    (comparison : ComparisonType) (constant : Payload) :
    (stats.query runtime comparison constant).TwoValued := by
  unfold query
  split
  · exact ClusterAdditionalStats.query_twoValued _ _ _ _
  · split
    · exact StringClusterAdditionalStats.query_twoValued _ _ _ _
    · exact Or.inl rfl
  · exact BloomAdditionalStats.query_twoValued _ _ _ _ _ _ _
  · exact DictionaryAdditionalStats.query_twoValued _ _ _
  · exact Or.inl rfl

end AdditionalStats

namespace StatisticsSet

/-- `construct(data, type)`; none for the exception thrown on `ERROR`. -/
def constructType (runtime : Runtime) (type : PhysicalType) (data : List Payload)
    (statistic : StatisticType) : Option AdditionalStats :=
  statistic.template.map fun template =>
    ⟨statistic, AdditionalStats.initialise runtime type data template⟩

/-- The kind in force for a column of a row group; the indexes are truncated to 32 bits. -/
def lookup (set : StatisticsSet) (tableName : String) (rowgroup column : Nat) : StatisticType :=
  match set.mapping.lookup (tableName, rowgroup % 2 ^ 32, column % 2 ^ 32) with
  | none => set.defaultType
  | some type => type

/-- `construct(data, table_name, rowgroup, column)`. -/
def construct (set : StatisticsSet) (runtime : Runtime) (type : PhysicalType)
    (data : List Payload) (tableName : String) (rowgroup column : Nat) : Option AdditionalStats :=
  constructType runtime type data (set.lookup tableName rowgroup column)

end StatisticsSet

/-! ## Soundness -/

/-- Every answer of the statistic is sound for the given values. -/
structure AdditionalStats.Sound (runtime : Runtime) (stats : AdditionalStats)
    (values : List Payload) : Prop where
  query : ∀ comparison constant,
    QuerySound values comparison constant (stats.query runtime comparison constant)
  queryRange : ∀ start finish, RangeSound values start finish (stats.queryRange start finish)

theorem AdditionalStats.Sound.subset {runtime : Runtime} {stats : AdditionalStats}
    {values fewer : List Payload} (sound : stats.Sound runtime values)
    (subset : ∀ value ∈ fewer, value ∈ values) : stats.Sound runtime fewer :=
  ⟨fun comparison constant answer value member =>
      sound.query comparison constant answer value (subset value member),
    fun start finish answer value member =>
      sound.queryRange start finish answer value (subset value member)⟩

/-- A Bloom filter hashes bit patterns, so it must not be built over a NaN. -/
def HashableData (statistic : StatisticType) (data : List Payload) : Prop :=
  (∃ N M K, statistic.template = some (.bloom N M K)) → ∀ value ∈ data, value.isNaN = false

theorem Payload.varchar_bytes {value : Payload} (typed : value.hasType .varchar = true) :
    value = .varchar value.bytes := by
  cases value <;> simp [hasType, PhysicalType.integerRange, bytes] at typed ⊢

/-- A statistic built from values of one type is sound for these values. -/
theorem StatisticsSet.constructType_sound (runtime : Runtime) {type : PhysicalType}
    {data : List Payload} {statistic : StatisticType} {stats : AdditionalStats}
    (typed : ∀ value ∈ data, value.hasType type = true) (hashable : HashableData statistic data)
    (built : constructType runtime type data statistic = some stats) :
    stats.Sound runtime data := by
  unfold constructType at built
  cases htemplate : statistic.template with
  | none => simp [htemplate] at built
  | some template =>
      have proper := statistic.template_proper htemplate
      rw [htemplate] at built
      cases built
      cases template with
      | empty =>
          constructor <;> intros <;>
            simp only [AdditionalStats.query, AdditionalStats.queryRange, htemplate,
              AdditionalStats.initialise]
          · exact .of_ne (by decide)
          · exact .of_ne (by decide)
      | cluster N =>
          by_cases string : type = .varchar
          · subst string
            constructor
            · intro comparison constant
              simp only [AdditionalStats.query, htemplate, AdditionalStats.initialise, if_pos]
              cases constant with
              | varchar bytes =>
                  intro answer value member
                  rw [Payload.varchar_bytes (typed value member)]
                  exact StringClusterAdditionalStats.query_initialise_sound N _ comparison bytes
                    answer _ (List.mem_map_of_mem member)
              | _ =>
                  intro answer
                  cases answer
            · intro start finish
              simp only [AdditionalStats.queryRange, htemplate, AdditionalStats.initialise, if_pos]
              exact .of_ne (by simp [StringClusterAdditionalStats.queryRange])
          · constructor
            · intro comparison constant
              simp only [AdditionalStats.query, htemplate, AdditionalStats.initialise,
                if_neg string]
              exact ClusterAdditionalStats.query_initialise_sound runtime proper typed
                comparison constant
            · intro start finish
              simp only [AdditionalStats.queryRange, htemplate, AdditionalStats.initialise,
                if_neg string]
              exact ClusterAdditionalStats.queryRange_initialise_sound runtime proper typed
                start finish
      | bloom N M K =>
          constructor
          · intro comparison constant
            simp only [AdditionalStats.query, htemplate, AdditionalStats.initialise]
            exact BloomAdditionalStats.query_initialise_sound runtime proper.1 proper.2
              (hashable ⟨N, M, K, htemplate⟩) comparison constant
          · intro start finish
            simp only [AdditionalStats.queryRange, htemplate, AdditionalStats.initialise]
            exact .of_ne (by simp [BloomAdditionalStats.queryRange])
      | dictionary N =>
          constructor
          · intro comparison constant
            simp only [AdditionalStats.query, htemplate, AdditionalStats.initialise]
            exact DictionaryAdditionalStats.query_initialise_sound N data comparison constant
          · intro start finish
            simp only [AdditionalStats.queryRange, htemplate, AdditionalStats.initialise]
            exact DictionaryAdditionalStats.queryRange_initialise_sound N data start finish

end StatsRecommender
