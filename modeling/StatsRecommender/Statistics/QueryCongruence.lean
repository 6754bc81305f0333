import StatsRecommender.Statistics.BaseStatistics

/-!
# Constants in one place of the order

The statistics see a constant through the comparisons of the database only, apart from Bloom
filters, which hash its bits.
-/

namespace StatsRecommender

variable {comparison : ComparisonType}

/-- The comparisons that a Bloom filter answers. -/
def ComparisonType.isEquality : ComparisonType → Bool
  | .compareEqual | .compareNotDistinctFrom => true
  | _ => false

section Congruence

variable {left right : Payload} (same : left.key = right.key)
include same

theorem greaterThan_congr_right (value : Payload) :
    greaterThan value left = greaterThan value right := by
  rw [Bool.eq_iff_iff, greaterThan_iff, greaterThan_iff, same]

theorem greaterThan_congr_left (value : Payload) :
    greaterThan left value = greaterThan right value := by
  rw [Bool.eq_iff_iff, greaterThan_iff, greaterThan_iff, same]

theorem equals_congr_right (value : Payload) : equals value left = equals value right := by
  rw [Bool.eq_iff_iff, equals_iff, equals_iff, same]

/-- Comparisons see the place of a constant in the order only. -/
theorem ComparisonType.holds_congr (comparison : ComparisonType) (value : Payload) :
    comparison.holds value left = comparison.holds value right := by
  cases comparison <;>
    simp only [holds, notEquals, lessThan, lessThanEquals, greaterThanEquals,
      equals_congr_right same, greaterThan_congr_left same, greaterThan_congr_right same]

theorem ClusterAdditionalStats.bisect_congr (stats : ClusterAdditionalStats) (fuel lo hi : Nat) :
    stats.bisect left fuel lo hi = stats.bisect right fuel lo hi := by
  induction fuel generalizing lo hi with
  | zero => rfl
  | succ fuel ih =>
      simp only [bisect, ih, lessThan, greaterThan_congr_left same, greaterThan_congr_right same]
      rfl

theorem ClusterAdditionalStats.query_congr (stats : ClusterAdditionalStats) (N : Nat)
    (comparison : ComparisonType) : stats.query N comparison left = stats.query N comparison right := by
  cases comparison <;>
    simp only [query, queryEqual, findLastIndexBeforePoint, bisect_congr same, greaterThanEquals,
      lessThanEquals, equals_congr_right same, greaterThan_congr_left same,
      greaterThan_congr_right same] <;> rfl

theorem DictionaryAdditionalStats.query_congr (stats : DictionaryAdditionalStats)
    (comparison : ComparisonType) : stats.query comparison left = stats.query comparison right := by
  have admits_eq : admits comparison left = admits comparison right := by
    funext value
    cases comparison <;>
      simp only [admits, notEquals, lessThanEquals, greaterThanEquals,
        equals_congr_right same, greaterThan_congr_left same, greaterThan_congr_right same]
  rw [query, query, admits_eq]

/-- A Bloom filter hashes the constant, which no NaN shares with another one. -/
theorem BloomAdditionalStats.query_congr (stats : BloomAdditionalStats) (runtime : Runtime)
    (N M K : Nat) (plain : left.isNaN = false ∨ comparison.isEquality = false) :
    stats.query runtime N M K comparison left = stats.query runtime N M K comparison right := by
  rcases plain with number | other
  · have hash := runtime.hash_congr left right (Payload.cxxEquals_of_key_eq same number)
    have positions : bitPositions runtime N M K left = bitPositions runtime N M K right := by
      rw [bitPositions, bitPositions, hash]
    have found : queryUtil runtime N M K stats.bitArray left =
        queryUtil runtime N M K stats.bitArray right := by
      rw [queryUtil, queryUtil, positions]
    cases comparison <;> simp only [query, found]
  · cases comparison with
    | compareEqual | compareNotDistinctFrom => cases other
    | _ => rfl

theorem Payload.varchar_congr : (∃ bytes, left = .varchar bytes ∧ right = .varchar bytes) ∨
    ((∀ bytes, left ≠ .varchar bytes) ∧ ∀ bytes, right ≠ .varchar bytes) := by
  cases left <;> cases right <;>
    simp_all [key, digits, stringKey_eq_iff]

/-- Constants in one place of the order are answered alike, NaN in a Bloom filter apart. -/
theorem AdditionalStats.query_congr (runtime : Runtime) (stats : AdditionalStats)
    (plain : left.isNaN = false ∨ comparison.isEquality = false) :
    stats.query runtime comparison left = stats.query runtime comparison right := by
  rw [query, query]
  split
  · exact ClusterAdditionalStats.query_congr same _ _ _
  · rcases Payload.varchar_congr same with ⟨bytes, rfl, rfl⟩ | ⟨neither, neither'⟩
    · rfl
    · split
      · rename_i bytes
        exact absurd rfl (neither bytes)
      · rfl
  · exact BloomAdditionalStats.query_congr same _ _ _ _ _ plain
  · exact DictionaryAdditionalStats.query_congr same _ _
  · rfl

end Congruence

end StatsRecommender
