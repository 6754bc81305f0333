import StatsRecommender.Statistics.ClusterAdditionalStats

/-!
# Searching the clusters

The arrays of a cluster statistic repeat their last entry, so the bisection and the
linear scan may stop at different entries for one point.  The answers built from either
agree, and a range is left open exactly when it meets a stored interval.
-/

namespace StatsRecommender

open BlockCover

namespace ClusterAdditionalStats

/-- The loop of `FindLastIndexBeforePoint_Linear` from one index on; none stands for -1. -/
def scanFrom (stats : ClusterAdditionalStats) (constant : Payload) : Nat → Nat → Option Nat
  | 0, index => if index = 0 then none else some (index - 1)
  | remaining + 1, index =>
      if greaterThan (stats.minValue index) constant then
        if index = 0 then none else some (index - 1)
      else scanFrom stats constant remaining (index + 1)

/-- `FindLastIndexBeforePoint_Linear`. -/
def findLastIndexBeforePointLinear (stats : ClusterAdditionalStats) (N : Nat)
    (constant : Payload) : Option Nat :=
  scanFrom stats constant N 0

/-- `Query_Equal` at the index that a search for the constant returned. -/
def queryEqualAt (stats : ClusterAdditionalStats) (constant : Payload) :
    Option Nat → FilterPropagateResult
  | none => .filterAlwaysFalse
  | some index =>
      if greaterThanEquals (stats.maxValue index) constant then .noPruningPossible
      else .filterAlwaysFalse

/-- `QueryRange` at the index that a search for the start returned. -/
def queryRangeAt (stats : ClusterAdditionalStats) (N : Nat) (start finish : Payload) :
    Option Nat → FilterPropagateResult
  | none => if greaterThan (stats.minValue 0) finish then .filterAlwaysFalse else .noPruningPossible
  | some index =>
      if greaterThanEquals (stats.maxValue index) start ||
          (decide (index < N - 1) && lessThanEquals (stats.minValue (index + 1)) finish)
      then .noPruningPossible else .filterAlwaysFalse

/-- `Query`, were its points looked up by the linear scan. -/
def queryLinear (stats : ClusterAdditionalStats) (N : Nat) (comparison : ComparisonType)
    (constant : Payload) : FilterPropagateResult :=
  if N = 0 ∨ stats.inverted then .noPruningPossible
  else
    match comparison with
    | .compareEqual | .compareNotDistinctFrom =>
        stats.queryEqualAt constant (stats.findLastIndexBeforePointLinear N constant)
    | other => stats.query N other constant

/-- `QueryRange`, were its start looked up by the linear scan. -/
def queryRangeLinear (stats : ClusterAdditionalStats) (N : Nat) (start finish : Payload) :
    FilterPropagateResult :=
  if N = 0 ∨ stats.inverted then .noPruningPossible
  else stats.queryRangeAt N start finish (stats.findLastIndexBeforePointLinear N start)

theorem queryEqual_eq (stats : ClusterAdditionalStats) (N : Nat) (constant : Payload) :
    stats.queryEqual N constant =
      stats.queryEqualAt constant (stats.findLastIndexBeforePoint N constant) := by
  unfold queryEqual queryEqualAt
  cases stats.findLastIndexBeforePoint N constant <;> rfl

theorem queryRange_eq (stats : ClusterAdditionalStats) (N : Nat) (start finish : Payload) :
    stats.queryRange N start finish =
      if N = 0 ∨ stats.inverted then .noPruningPossible
      else stats.queryRangeAt N start finish (stats.findLastIndexBeforePoint N start) := by
  unfold queryRange queryRangeAt
  cases stats.findLastIndexBeforePoint N start <;> rfl

/-! ## The linear scan -/

/-- The last index whose block does not start behind the point. -/
def LastNotBehind (stats : ClusterAdditionalStats) (N : Nat) (constant : Payload) (index : Nat) :
    Prop :=
  index < N ∧ (stats.minValue index).key ≤ constant.key ∧
    ∀ next, index < next → next < N → constant.key < (stats.minValue next).key

theorem scanFrom_spec {stats : ClusterAdditionalStats} {N : Nat} {constant : Payload}
    (ordered : Ordered Payload.key stats.blocks) (length : stats.blocks.length = N)
    {remaining index : Nat} (total : index + remaining = N)
    (seen : ∀ previous, previous < index → (stats.minValue previous).key ≤ constant.key) :
    match scanFrom stats constant remaining index with
    | none => N = 0 ∨ constant.key < (stats.minValue 0).key
    | some found => LastNotBehind stats N constant found := by
  induction remaining generalizing index with
  | zero =>
      rw [scanFrom]
      by_cases first : index = 0
      · rw [if_pos first]
        exact Or.inl (by omega)
      · rw [if_neg first]
        exact ⟨by omega, seen _ (by omega), fun next later bound => absurd bound (by omega)⟩
  | succ remaining ih =>
      rw [scanFrom]
      by_cases greater : greaterThan (stats.minValue index) constant = true
      · rw [if_pos greater]
        rw [greaterThan_iff] at greater
        by_cases first : index = 0
        · rw [if_pos first]
          subst first
          exact Or.inr greater
        · rw [if_neg first]
          refine ⟨by omega, seen _ (by omega), fun next later bound => ?_⟩
          refine greater.trans_le ?_
          rw [minValue_eq stats (by omega), minValue_eq stats (by omega)]
          exact ordered.lower_le (by omega) (by omega) (by omega)
      · rw [if_neg greater]
        rw [Bool.not_eq_true, greaterThan_eq_false_iff] at greater
        refine ih (by omega) fun previous before => ?_
        rcases Nat.lt_succ_iff_lt_or_eq.mp before with earlier | rfl
        · exact seen previous earlier
        · exact greater

namespace Summarises

variable {stats : ClusterAdditionalStats} {N : Nat} {values : List Payload}

section

variable (summary : stats.Summarises N values)
include summary

theorem bounded {index : Nat} (inside : index < N) :
    (stats.minValue index).key ≤ (stats.maxValue index).key := by
  have bound : index < stats.blocks.length := by rw [summary.length]; exact inside
  rw [minValue_eq stats bound, maxValue_eq stats bound]
  exact summary.ordered.bounded _ (List.getElem_mem bound)

theorem min_mono {first second : Nat} (le : first ≤ second) (inside : second < N) :
    (stats.minValue first).key ≤ (stats.minValue second).key := by
  have length := summary.length
  rw [minValue_eq stats (by omega), minValue_eq stats (by omega)]
  exact summary.ordered.lower_le le (by omega) (by omega)

theorem max_mono {first second : Nat} (le : first ≤ second) (inside : second < N) :
    (stats.maxValue first).key ≤ (stats.maxValue second).key := by
  have length := summary.length
  rw [maxValue_eq stats (by omega), maxValue_eq stats (by omega)]
  exact summary.ordered.upper_le le (by omega) (by omega)

/-- Blocks of data are in order, so the mark of an empty statistic is absent. -/
theorem not_inverted (positive : 0 < N) : ¬ (N = 0 ∨ stats.inverted = true) := by
  rintro (zero | inverted)
  · omega
  · exact absurd (Payload.key_lt_of_cxxGreater inverted) (summary.bounded positive).not_gt

/--
Both searches miss together, stop at one block, or stop at two blocks that reach over the
point.
-/
theorem searches_agree (positive : 0 < N) (constant : Payload) :
    stats.findLastIndexBeforePointLinear N constant = stats.findLastIndexBeforePoint N constant ∨
      ∃ first second, stats.findLastIndexBeforePoint N constant = some first ∧
        stats.findLastIndexBeforePointLinear N constant = some second ∧
        constant.key ≤ (stats.maxValue first).key ∧
        constant.key ≤ (stats.maxValue second).key := by
  have binary := findLastIndexBeforePoint_spec summary positive constant
  have linear : match stats.findLastIndexBeforePointLinear N constant with
      | none => N = 0 ∨ constant.key < (stats.minValue 0).key
      | some found => LastNotBehind stats N constant found :=
    scanFrom_spec summary.ordered summary.length (Nat.zero_add N)
      fun previous before => absurd before (Nat.not_lt_zero _)
  cases hbinary : stats.findLastIndexBeforePoint N constant with
  | none =>
      rw [hbinary] at binary
      cases hlinear : stats.findLastIndexBeforePointLinear N constant with
      | none => exact Or.inl rfl
      | some second =>
          rw [hlinear] at linear
          have least := summary.min_mono (Nat.zero_le second) linear.1
          exact absurd (least.trans linear.2.1) binary.not_ge
  | some first =>
      rw [hbinary] at binary
      obtain ⟨inside, before, rest⟩ := binary
      cases hlinear : stats.findLastIndexBeforePointLinear N constant with
      | none =>
          rw [hlinear] at linear
          have least := summary.min_mono (Nat.zero_le first) inside
          rcases linear with zero | behind
          · omega
          · exact absurd (least.trans before) behind.not_ge
      | some second =>
          rw [hlinear] at linear
          obtain ⟨hsecond, hbefore, hrest⟩ := linear
          have reached : first ≤ second := by
            by_contra further
            exact absurd before (hrest first (by omega) inside).not_ge
          rcases rest with starts | later
          · have covered := starts.symm.le.trans (summary.bounded inside)
            exact Or.inr ⟨first, second, rfl, rfl, covered,
              covered.trans (summary.max_mono reached hsecond)⟩
          · rcases Nat.lt_or_eq_of_le reached with lt | rfl
            · exact absurd hbefore (later second lt hsecond).not_ge
            · exact Or.inl rfl

theorem queryEqualAt_agrees (positive : 0 < N) (constant : Payload) :
    stats.queryEqualAt constant (stats.findLastIndexBeforePointLinear N constant) =
      stats.queryEqual N constant := by
  rw [queryEqual_eq]
  rcases summary.searches_agree positive constant with same | ⟨first, second, hfirst, hsecond, cover⟩
  · rw [same]
  · rw [hfirst, hsecond, queryEqualAt, queryEqualAt, if_pos, if_pos]
    · exact (greaterThanEquals_iff _ _).mpr cover.1
    · exact (greaterThanEquals_iff _ _).mpr cover.2

/-- A query by the linear scan answers as the query by bisection. -/
theorem queryLinear_eq (positive : 0 < N) (comparison : ComparisonType) (constant : Payload) :
    stats.queryLinear N comparison constant = stats.query N comparison constant := by
  have proper := summary.not_inverted positive
  unfold queryLinear
  rw [if_neg proper]
  cases comparison with
  | compareEqual | compareNotDistinctFrom =>
      unfold query
      rw [if_neg proper]
      exact summary.queryEqualAt_agrees positive constant
  | _ => rfl

/-- A range query by the linear scan answers as the range query by bisection. -/
theorem queryRangeLinear_eq (positive : 0 < N) (start finish : Payload) :
    stats.queryRangeLinear N start finish = stats.queryRange N start finish := by
  rw [queryRange_eq, queryRangeLinear]
  rcases summary.searches_agree positive start with same | ⟨first, second, hfirst, hsecond, cover⟩
  · rw [same]
  · rw [hfirst, hsecond, queryRangeAt, queryRangeAt, (greaterThanEquals_iff _ _).mpr cover.1,
      (greaterThanEquals_iff _ _).mpr cover.2]
    simp only [Bool.true_or, if_true]

/-- A range of one point is answered as the point. -/
theorem queryRange_self (positive : 0 < N) (constant : Payload) :
    stats.queryRange N constant constant = stats.query N .compareEqual constant := by
  have proper := summary.not_inverted positive
  have spec := findLastIndexBeforePoint_spec summary positive constant
  rw [queryRange_eq, query, if_neg proper, if_neg proper, queryEqual_eq]
  cases hfound : stats.findLastIndexBeforePoint N constant with
  | none =>
      rw [hfound] at spec
      exact if_pos ((greaterThan_iff _ _).mpr spec)
  | some index =>
      rw [hfound] at spec
      simp only [queryRangeAt, queryEqualAt]
      by_cases reaches : greaterThanEquals (stats.maxValue index) constant = true
      · rw [reaches, Bool.true_or]
      · rw [Bool.not_eq_true] at reaches
        have before := (greaterThanEquals_eq_false_iff _ _).mp reaches
        have missed : (decide (index < N - 1) &&
            lessThanEquals (stats.minValue (index + 1)) constant) = false := by
          by_cases inside : index < N - 1
          · have behind := summary.next_behind spec before inside
            rw [(lessThanEquals_eq_false_iff _ _).mpr behind, Bool.and_false]
          · rw [decide_eq_false inside, Bool.false_and]
        rw [reaches, missed, Bool.or_self]

end

/-- A stored interval and a range have a value in common. -/
def Meets (stats : ClusterAdditionalStats) (N : Nat) (start finish : Payload) : Prop :=
  ∃ index < N, greaterThanEquals (stats.maxValue index) start = true ∧
    lessThanEquals (stats.minValue index) finish = true

/-- A range is left open exactly when it meets a stored interval. -/
theorem queryRange_iff (summary : stats.Summarises N values) (positive : 0 < N)
    {start finish : Payload} (range : lessThanEquals start finish = true) :
    stats.queryRange N start finish = .noPruningPossible ↔ Meets stats N start finish := by
  rw [lessThanEquals_iff] at range
  have spec := findLastIndexBeforePoint_spec summary positive start
  rw [queryRange_eq, if_neg (summary.not_inverted positive)]
  simp only [Meets, greaterThanEquals_iff, lessThanEquals_iff]
  cases hfound : stats.findLastIndexBeforePoint N start with
  | none =>
      rw [hfound] at spec
      simp only [queryRangeAt]
      constructor
      · intro answer
        split at answer
        · cases answer
        · rename_i notGreater
          rw [Bool.not_eq_true, greaterThan_eq_false_iff] at notGreater
          exact ⟨0, positive, spec.le.trans (summary.bounded positive), notGreater⟩
      · rintro ⟨index, inside, -, low⟩
        have least := (summary.min_mono (Nat.zero_le index) inside).trans low
        rw [if_neg]
        rw [Bool.not_eq_true, greaterThan_eq_false_iff]
        exact least
  | some index =>
      rw [hfound] at spec
      obtain ⟨inside, before, rest⟩ := spec
      simp only [queryRangeAt]
      constructor
      · intro answer
        split at answer
        · rename_i hit
          rw [Bool.or_eq_true, Bool.and_eq_true, decide_eq_true_eq, greaterThanEquals_iff,
            lessThanEquals_iff] at hit
          rcases hit with here | ⟨later, next⟩
          · exact ⟨index, inside, here, before.trans range⟩
          · refine ⟨index + 1, by omega, ?_, next⟩
            rcases rest with starts | behind
            · have covered := starts.symm.le.trans (summary.bounded inside)
              exact covered.trans (summary.max_mono (Nat.le_succ index) (by omega))
            · exact (behind _ (Nat.lt_succ_self _) (by omega)).le.trans
                (summary.bounded (by omega))
        · cases answer
      · rintro ⟨other, hother, high, low⟩
        rw [if_pos]
        rw [Bool.or_eq_true, Bool.and_eq_true, decide_eq_true_eq, greaterThanEquals_iff,
          lessThanEquals_iff]
        rcases Nat.lt_or_ge index other with later | earlier
        · exact Or.inr ⟨by omega, (summary.min_mono later hother).trans low⟩
        · exact Or.inl (high.trans (summary.max_mono earlier inside))

end Summarises

/--
A statistic built from data leaves a range open exactly when the range meets a stored
interval, answers a range of one point as the point, and answers as with the linear scan.
-/
theorem cluster_searches_exact (gap : Payload → Payload → Nat) {type : PhysicalType} {N : Nat}
    (positive : 0 < N) {data sorted : List Payload} (nonempty : data ≠ [])
    (typed : Homogeneous type data) (sort : IsSortOf sorted data) :
    (∀ start finish, lessThanEquals start finish = true →
      ((initialiseSorted gap type N sorted).queryRange N start finish = .noPruningPossible ↔
        Summarises.Meets (initialiseSorted gap type N sorted) N start finish)) ∧
    (∀ point, (initialiseSorted gap type N sorted).queryRange N point point =
      (initialiseSorted gap type N sorted).query N .compareEqual point) ∧
    (∀ comparison point, (initialiseSorted gap type N sorted).queryLinear N comparison point =
      (initialiseSorted gap type N sorted).query N comparison point) ∧
    ∀ start finish, (initialiseSorted gap type N sorted).queryRangeLinear N start finish =
      (initialiseSorted gap type N sorted).queryRange N start finish := by
  have summary := sort.summarises gap positive nonempty typed
  exact ⟨fun start finish range => summary.queryRange_iff positive range,
    summary.queryRange_self positive, summary.queryLinear_eq positive,
    summary.queryRangeLinear_eq positive⟩

/-- Four blocks for two values: the last of them is stored three times. -/
theorem cluster_searches_exact_padded :
    (∀ start finish, lessThanEquals start finish = true →
      ((initialiseSorted (Payload.gap .identityHash .int8) .int8 4
        [.integer (-128), .integer 127]).queryRange 4 start finish = .noPruningPossible ↔
        Summarises.Meets (initialiseSorted (Payload.gap .identityHash .int8) .int8 4
          [.integer (-128), .integer 127]) 4 start finish)) ∧
    (∀ point, (initialiseSorted (Payload.gap .identityHash .int8) .int8 4
        [.integer (-128), .integer 127]).queryRange 4 point point =
      (initialiseSorted (Payload.gap .identityHash .int8) .int8 4
        [.integer (-128), .integer 127]).query 4 .compareEqual point) ∧
    (∀ comparison point, (initialiseSorted (Payload.gap .identityHash .int8) .int8 4
        [.integer (-128), .integer 127]).queryLinear 4 comparison point =
      (initialiseSorted (Payload.gap .identityHash .int8) .int8 4
        [.integer (-128), .integer 127]).query 4 comparison point) ∧
    ∀ start finish, (initialiseSorted (Payload.gap .identityHash .int8) .int8 4
        [.integer (-128), .integer 127]).queryRangeLinear 4 start finish =
      (initialiseSorted (Payload.gap .identityHash .int8) .int8 4
        [.integer (-128), .integer 127]).queryRange 4 start finish :=
  @cluster_searches_exact _ .int8 4 (by decide) [.integer 127, .integer (-128)] _ (by decide)
    (by decide) ⟨by decide, by decide⟩

end ClusterAdditionalStats

end StatsRecommender
