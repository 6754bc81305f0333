import StatsRecommender.Statistics.ClusterAdditionalStats

/-!
# Cluster statistics over strings

`ClusterAdditionalStats<std::string, N>` keeps the first eight bytes and the size of
each bound, so a comparison with a bound may come out undecided.
-/

namespace StatsRecommender

variable {left right value bound constant : List UInt8} {size N : Nat} {comparison : ComparisonType}
  {data : List (List UInt8)}

open BlockCover

/-- `CLUSTER_MAX_STRING_MINMAX_SIZE`. -/
def clusterMaxStringMinmaxSize : Nat := 8

/-- `data_array`: the leading bytes of a string, zero padded, and its size. -/
structure DataArray where
  data : List UInt8
  size : Nat
  deriving DecidableEq, Repr

/-- The arrays `min_values` and `max_values`, as pairs. -/
structure StringClusterAdditionalStats where
  blocks : List (DataArray × DataArray)
  deriving DecidableEq, Repr

variable {block : DataArray × DataArray}

namespace StringClusterAdditionalStats

/-- `StringToLong`, with the sign extension of a signed `char`. -/
def stringToLong (bytes : List UInt8) : BitVec 64 :=
  bytes.foldl (fun result byte => (result <<< 7) + byte.toBitVec.signExtend 64) 0

/-- `ConstructValue`. -/
def constructValue (bytes : List UInt8) : DataArray :=
  let valueSize := min bytes.length clusterMaxStringMinmaxSize
  ⟨bytes.take valueSize ++ List.replicate (clusterMaxStringMinmaxSize - valueSize) 0,
    bytes.length⟩

/-- `StringComparisonResult`. -/
structure StringComparisonResult where
  order : Ordering
  exact : Bool
  deriving DecidableEq, Repr

/-- `StringValueComparison`: the stored prefix decides, or the sizes, or neither does. -/
def stringValueComparison (value : List UInt8) (bound : DataArray) : StringComparisonResult :=
  let boundPrefixSize := min bound.size clusterMaxStringMinmaxSize
  let compareSize := min (min value.length boundPrefixSize) clusterMaxStringMinmaxSize
  let comparison := stringComparison (value.take compareSize) (bound.data.take compareSize)
  if comparison ≠ .eq then ⟨comparison, true⟩
  else if bound.size ≤ clusterMaxStringMinmaxSize then
    if value.length < bound.size then ⟨.lt, true⟩
    else ⟨if bound.size < value.length then .gt else .eq, true⟩
  else
    ⟨if value.length ≤ clusterMaxStringMinmaxSize then .lt else .eq,
      decide (value.length ≤ clusterMaxStringMinmaxSize)⟩

/-- `std::less` on `std::string`, the other way round and negated. -/
def inOrder (left right : List UInt8) : Prop := stringComparison right left ≠ .lt

instance : DecidableRel inOrder := fun _ _ => inferInstanceAs (Decidable (_ ≠ _))

def sortValues (data : List (List UInt8)) : List (List UInt8) := data.insertionSort inOrder

/-- The difference `StringToLong(right) - StringToLong(left)` of unsigned integers. -/
def stringGap (left right : List UInt8) : Nat := (stringToLong right - stringToLong left).toNat

/-- The bounds of sorted data, before they are shortened. -/
def clusterBounds (N : Nat) (sorted : List (List UInt8)) (front : List UInt8) :
    List (List UInt8 × List UInt8) :=
  cut sorted front (largestGaps (N - 1) (gaps stringGap sorted))

/-- `Initialise`; without data every bound is the empty string. -/
def initialise (N : Nat) (data : List (List UInt8)) : StringClusterAdditionalStats :=
  match sortValues data with
  | [] => ⟨List.replicate N (constructValue [], constructValue [])⟩
  | front :: rest =>
      let bounds := clusterBounds N (front :: rest) front
      let last := bounds.getLastD (front, front)
      ⟨(bounds ++ List.replicate (N - bounds.length) last).map fun bound =>
        (constructValue bound.1, constructValue bound.2)⟩

/-- `Query_inner`. -/
def queryInner (minValue maxValue : DataArray) (comparison : ComparisonType)
    (constant : List UInt8) : FilterPropagateResult :=
  let minComp := stringValueComparison constant minValue
  let maxComp := stringValueComparison constant maxValue
  match comparison with
  | .compareEqual | .compareNotDistinctFrom =>
      if minComp.order ≠ .lt ∧ maxComp.order ≠ .gt then .noPruningPossible else .filterAlwaysFalse
  | .compareNotEqual | .compareDistinctFrom =>
      if minComp.exact ∧ maxComp.exact ∧ minComp.order = .eq ∧ maxComp.order = .eq
      then .filterAlwaysFalse else .noPruningPossible
  | .compareGreaterThanOrEqualTo | .compareGreaterThan =>
      if maxComp.order = .gt then .filterAlwaysFalse else .noPruningPossible
  | .compareLessThan | .compareLessThanOrEqualTo =>
      if minComp.order = .lt then .filterAlwaysFalse else .noPruningPossible

/-- The loop of `Query` over the blocks. -/
def queryBlocks (comparison : ComparisonType) (constant : List UInt8) :
    List (DataArray × DataArray) → FilterPropagateResult
  | [] => .filterAlwaysFalse
  | block :: rest =>
      match queryInner block.1 block.2 comparison constant with
      | .filterAlwaysTrue => .noPruningPossible
      | .noPruningPossible => .noPruningPossible
      | _ => queryBlocks comparison constant rest

def query (stats : StringClusterAdditionalStats) (N : Nat) (comparison : ComparisonType)
    (constant : List UInt8) : FilterPropagateResult :=
  if N = 0 then .noPruningPossible else queryBlocks comparison constant stats.blocks

/-- `QueryRange` is left open by the source. -/
def queryRange (_stats : StringClusterAdditionalStats) (_N : Nat) (_start _finish : List UInt8) :
    FilterPropagateResult :=
  .noPruningPossible

theorem queryInner_twoValued (minValue maxValue : DataArray) (comparison : ComparisonType)
    (constant : List UInt8) : (queryInner minValue maxValue comparison constant).TwoValued := by
  unfold queryInner
  dsimp only
  cases comparison with
  | compareEqual | compareNotDistinctFrom => exact .ite (Or.inl rfl) (Or.inr rfl)
  | _ => exact .ite (Or.inr rfl) (Or.inl rfl)

theorem query_twoValued (stats : StringClusterAdditionalStats) (N : Nat)
    (comparison : ComparisonType) (constant : List UInt8) :
    (stats.query N comparison constant).TwoValued := by
  refine .ite (Or.inl rfl) ?_
  induction stats.blocks with
  | nil => exact Or.inr rfl
  | cons block rest ih =>
      rw [queryBlocks]
      split
      · exact Or.inl rfl
      · exact Or.inl rfl
      · exact ih

/-! ## Comparison with a shortened bound -/

/-- Position of a string in the order of values. -/
abbrev position (bytes : List UInt8) : OrderKey := (Payload.varchar bytes).key

theorem position_lt_iff (left right : List UInt8) :
    position left < position right ↔ stringComparison left right = .lt := by
  rw [position, position, ← greaterThan_iff]
  simp [greaterThan]

/-- Prefixes of one size that differ decide the comparison. -/
theorem stringComparison_take (hleft : size ≤ left.length) (hright : size ≤ right.length)
    (differ : stringComparison (left.take size) (right.take size) ≠ .eq) :
    stringComparison left right = stringComparison (left.take size) (right.take size) := by
  induction size generalizing left right with
  | zero => simp [stringComparison] at differ
  | succ size ih =>
      cases left with
      | nil => simp at hleft
      | cons byte rest =>
          cases right with
          | nil => simp at hright
          | cons head tail =>
              simp only [List.take_succ_cons, stringComparison] at differ ⊢
              split
              · rfl
              · rename_i notLess
                rw [if_neg notLess] at differ
                split
                · rfl
                · rename_i notGreater
                  rw [if_neg notGreater] at differ
                  exact ih (by simpa using hleft) (by simpa using hright) differ

/-- A proper prefix comes first. -/
theorem stringComparison_of_isPrefix (stem : left = right.take left.length)
    (shorter : left.length < right.length) : stringComparison left right = .lt := by
  induction left generalizing right with
  | nil =>
      cases right with
      | nil => simp at shorter
      | cons => rfl
  | cons byte rest ih =>
      cases right with
      | nil => simp at shorter
      | cons head tail =>
          rw [List.length_cons, List.take_succ_cons, List.cons.injEq] at stem
          rw [stringComparison, stem.1, if_neg (lt_irrefl _), if_neg (lt_irrefl _)]
          exact ih stem.2 (by simpa using shorter)

theorem take_constructValue (bytes : List UInt8) (within : size ≤ bytes.length)
    (short : size ≤ clusterMaxStringMinmaxSize) :
    (constructValue bytes).data.take size = bytes.take size := by
  simp only [constructValue]
  rw [List.take_append_of_le_length (by rw [List.length_take]; omega), List.take_take,
    min_eq_left (by omega)]

/-- What a comparison with a shortened bound says of the full bound. -/
structure ComparisonSound (value bound : List UInt8) (result : StringComparisonResult) :
    Prop where
  less : result.order = .lt → position value < position bound
  greater : result.order = .gt → position bound < position value
  same : result.exact = true → result.order = .eq → value = bound

theorem ComparisonSound.of_lt (lt : position value < position bound) (exact_size : Bool) :
    ComparisonSound value bound ⟨.lt, exact_size⟩ :=
  ⟨fun _ => lt, fun order => Ordering.noConfusion order, fun _ order => Ordering.noConfusion order⟩

theorem ComparisonSound.of_gt (gt : position bound < position value) (exact_size : Bool) :
    ComparisonSound value bound ⟨.gt, exact_size⟩ :=
  ⟨fun order => Ordering.noConfusion order, fun _ => gt, fun _ order => Ordering.noConfusion order⟩

theorem ComparisonSound.of_eq {exact_size : Bool} (same : exact_size = true → value = bound) :
    ComparisonSound value bound ⟨.eq, exact_size⟩ :=
  ⟨fun order => Ordering.noConfusion order, fun order => Ordering.noConfusion order,
    fun hexact _ => same hexact⟩

theorem stringValueComparison_sound (value bound : List UInt8) :
    ComparisonSound value bound (stringValueComparison value (constructValue bound)) := by
  have hsize : (constructValue bound).size = bound.length := rfl
  unfold stringValueComparison
  dsimp only
  rw [hsize]
  generalize hcompare : min (min value.length (min bound.length clusterMaxStringMinmaxSize))
    clusterMaxStringMinmaxSize = size
  have hvalue : size ≤ value.length := by omega
  have hbound : size ≤ bound.length := by omega
  rw [take_constructValue bound hbound (by omega)]
  split
  · -- the prefixes differ
    rename_i differ
    have whole := stringComparison_take hvalue hbound differ
    refine ⟨fun hlt => ?_, fun hgt => ?_, fun _ heq => absurd heq differ⟩
    · exact (position_lt_iff _ _).mpr (whole.trans hlt)
    · exact (position_lt_iff _ _).mpr ((stringComparison_swap _ _).mp (whole.trans hgt))
  · rename_i same
    have stem := (stringComparison_eq_iff _ _).mp (Decidable.not_not.mp same)
    split
    · split
      · -- the value is a proper prefix of the bound
        rename_i shorter
        have hvalue : size = value.length := by omega
        rw [hvalue, List.take_length] at stem
        exact .of_lt ((position_lt_iff _ _).mpr (stringComparison_of_isPrefix stem shorter)) _
      · have hbound : size = bound.length := by omega
        rw [hbound, List.take_length] at stem
        split
        · rename_i longer
          exact .of_gt ((position_lt_iff _ _).mpr (stringComparison_of_isPrefix stem.symm longer)) _
        · refine .of_eq fun _ => ?_
          rwa [List.take_of_length_le (by omega)] at stem
    · split
      · -- the bound was shortened, the value is a proper prefix of it
        have hvalue : size = value.length := by omega
        rw [hvalue, List.take_length] at stem
        exact .of_lt ((position_lt_iff _ _).mpr (stringComparison_of_isPrefix stem (by omega))) _
      · rename_i long
        exact .of_eq fun hexact => absurd (of_decide_eq_true hexact) long

/-! ## What lies between shortened bounds -/

/-- Neither bound, as far as it is stored, excludes the string. -/
def Between (block : DataArray × DataArray) (value : List UInt8) : Prop :=
  (stringValueComparison value block.1).order ≠ .lt ∧
    (stringValueComparison value block.2).order ≠ .gt

instance (block : DataArray × DataArray) (value : List UInt8) : Decidable (Between block value) :=
  inferInstanceAs (Decidable (_ ∧ _))

/-- The leading bytes of strings are in order if the strings are. -/
theorem stringComparison_take_mono (size : Nat) (ordered : stringComparison left right ≠ .gt) :
    stringComparison (left.take size) (right.take size) ≠ .gt := by
  induction size generalizing left right with
  | zero =>
      rw [List.take_zero, List.take_zero]
      decide
  | succ size ih =>
      cases left with
      | nil => cases right <;> simp [stringComparison]
      | cons byte rest =>
          cases right with
          | nil => exact absurd rfl ordered
          | cons head tail =>
              simp only [List.take_succ_cons, stringComparison] at ordered ⊢
              split
              · decide
              · rename_i notLess
                rw [if_neg notLess] at ordered
                split
                · rename_i greater
                  rw [if_pos greater] at ordered
                  exact absurd rfl ordered
                · rename_i notGreater
                  rw [if_neg notGreater] at ordered
                  exact ih ordered

/-- A bound that is stored in full is compared as it is. -/
theorem order_of_short (short : bound.length ≤ clusterMaxStringMinmaxSize) :
    (stringValueComparison value (constructValue bound)).order = stringComparison value bound := by
  have sound := stringValueComparison_sound value bound
  have exact_size : (stringValueComparison value (constructValue bound)).exact = true := by
    unfold stringValueComparison
    dsimp only
    split
    · rfl
    · rw [if_pos (show (constructValue bound).size ≤ _ from short)]
      split <;> rfl
  cases order : (stringValueComparison value (constructValue bound)).order with
  | lt => exact ((position_lt_iff _ _).mp (sound.less order)).symm
  | eq => exact ((stringComparison_eq_iff _ _).mpr (sound.same exact_size order)).symm
  | gt =>
      rw [eq_comm, stringComparison_swap]
      exact (position_lt_iff _ _).mp (sound.greater order)

/-- Only a bound that is stored in full is found to be the string. -/
theorem short_of_exact
    (exact_size : (stringValueComparison value (constructValue bound)).exact = true)
    (order : (stringValueComparison value (constructValue bound)).order = .eq) :
    bound.length ≤ clusterMaxStringMinmaxSize := by
  cases (stringValueComparison_sound value bound).same exact_size order
  by_contra long
  have hsize : (constructValue value).size = value.length := rfl
  have compared : min (min value.length (min value.length clusterMaxStringMinmaxSize))
      clusterMaxStringMinmaxSize = clusterMaxStringMinmaxSize := by omega
  unfold stringValueComparison at exact_size
  dsimp only at exact_size
  rw [hsize, compared, take_constructValue value (by omega) (Nat.le_refl _),
    if_neg (not_not.mpr ((stringComparison_eq_iff _ _).mpr rfl)), if_neg long] at exact_size
  exact long (of_decide_eq_true exact_size)

/-- Of a long bound the leading bytes decide, and everything that begins with them is behind it. -/
theorem order_of_long (long : clusterMaxStringMinmaxSize < bound.length) :
    ((stringValueComparison value (constructValue bound)).order = .lt ↔
      stringComparison value (bound.take clusterMaxStringMinmaxSize) ≠ .gt) ∧
    ((stringValueComparison value (constructValue bound)).order = .gt ↔
      stringComparison (value.take clusterMaxStringMinmaxSize)
        (bound.take clusterMaxStringMinmaxSize) = .gt) := by
  have hsize : (constructValue bound).size = bound.length := rfl
  obtain ⟨stored, hstored⟩ : ∃ stored, stored = bound.take clusterMaxStringMinmaxSize := ⟨_, rfl⟩
  have length : stored.length = clusterMaxStringMinmaxSize := by
    rw [hstored, List.length_take]
    omega
  have self : stored.take clusterMaxStringMinmaxSize = stored :=
    List.take_of_length_le length.le
  unfold stringValueComparison
  dsimp only
  rw [hsize, Nat.min_eq_right long.le, ← hstored]
  rcases Nat.lt_or_ge clusterMaxStringMinmaxSize value.length with longer | short
  · -- the leading bytes of both are compared
    rw [Nat.min_eq_right longer.le, Nat.min_self,
      take_constructValue bound long.le (Nat.le_refl _), ← hstored]
    by_cases same : stringComparison (value.take clusterMaxStringMinmaxSize) stored = .eq
    · have stem := (stringComparison_eq_iff _ _).mp same
      have behind : stringComparison value stored = .gt := by
        rw [stringComparison_swap]
        refine stringComparison_of_isPrefix ?_ (by omega)
        rw [length, stem]
      rw [if_neg (not_not.mpr same), if_neg (Nat.not_le.mpr long), if_neg (Nat.not_le.mpr longer),
        behind, same]
      exact ⟨iff_of_false Ordering.noConfusion (not_not.mpr rfl), Iff.rfl⟩
    · have whole := stringComparison_take longer.le (length.ge)
        (by rw [self]; exact same)
      rw [self] at whole
      rw [if_pos same, whole]
      dsimp only
      revert same
      cases stringComparison (value.take clusterMaxStringMinmaxSize) stored <;> decide
  · rw [Nat.min_eq_left short, Nat.min_eq_left short, List.take_length,
      List.take_of_length_le short, take_constructValue bound (short.trans long.le) short]
    have shorter : bound.take value.length = stored.take value.length := by
      rw [hstored, List.take_take, Nat.min_eq_left short]
    rw [shorter]
    by_cases same : stringComparison value (stored.take value.length) = .eq
    · -- the string is all that was compared
      have stem := (stringComparison_eq_iff _ _).mp same
      have before : stringComparison value stored ≠ .gt := by
        rcases Nat.lt_or_ge value.length stored.length with fewer | all
        · rw [stringComparison_of_isPrefix stem fewer]
          decide
        · rw [List.take_of_length_le all] at same
          rw [same]
          decide
      rw [if_neg (not_not.mpr same), if_neg (Nat.not_le.mpr long), if_pos short]
      exact ⟨iff_of_true rfl before, iff_of_false Ordering.noConfusion before⟩
    · have whole := stringComparison_take (Nat.le_refl value.length)
        (short.trans length.ge) (by rw [List.take_length]; exact same)
      rw [List.take_length] at whole
      rw [if_pos same, whole]
      dsimp only
      revert same
      cases stringComparison value (stored.take value.length) <;> decide

theorem stringComparison_ne_gt_iff (left right : List UInt8) :
    stringComparison left right ≠ .gt ↔ position left ≤ position right := by
  rw [Ne, stringComparison_swap, ← position_lt_iff, not_lt]

/-- What is not in front of a lower bound has nothing behind it that is. -/
theorem order_ne_lt_of_le (ordered : position value ≤ position constant)
    (behind : (stringValueComparison value (constructValue bound)).order ≠ .lt) :
    (stringValueComparison constant (constructValue bound)).order ≠ .lt := by
  rcases Nat.lt_or_ge clusterMaxStringMinmaxSize bound.length with long | short
  · rw [Ne, (order_of_long long).1, stringComparison_ne_gt_iff, not_le] at behind ⊢
    exact behind.trans_le ordered
  · rw [order_of_short short, Ne, ← position_lt_iff, not_lt] at behind ⊢
    exact behind.trans ordered

/-- What is not behind an upper bound has nothing in front of it that is. -/
theorem order_ne_gt_of_le (ordered : position constant ≤ position value)
    (inFront : (stringValueComparison value (constructValue bound)).order ≠ .gt) :
    (stringValueComparison constant (constructValue bound)).order ≠ .gt := by
  rcases Nat.lt_or_ge clusterMaxStringMinmaxSize bound.length with long | short
  · have shortened := stringComparison_take_mono clusterMaxStringMinmaxSize
      ((stringComparison_ne_gt_iff _ _).mpr ordered)
    rw [Ne, (order_of_long long).2, ← Ne, stringComparison_ne_gt_iff] at inFront ⊢
    exact ((stringComparison_ne_gt_iff _ _).mp shortened).trans inFront
  · rw [order_of_short short, stringComparison_ne_gt_iff] at inFront ⊢
    exact ordered.trans inFront

/-- A string between the full bounds is between the stored ones. -/
theorem Between.of_le {low high : List UInt8} (lower : position low ≤ position value)
    (upper : position value ≤ position high) :
    Between (constructValue low, constructValue high) value :=
  ⟨fun less => absurd ((stringValueComparison_sound value low).less less) lower.not_gt,
    fun greater => absurd ((stringValueComparison_sound value high).greater greater) upper.not_gt⟩

/-! ## Soundness of the answers -/

/-- A block excludes a string between its bounds only if the comparison fails on it. -/
theorem Between.queryInner_sound {low high : List UInt8}
    (between : Between (constructValue low, constructValue high) value)
    (answer : queryInner (constructValue low) (constructValue high) comparison constant =
      .filterAlwaysFalse) : comparison.holds (.varchar value) (.varchar constant) = false := by
  obtain ⟨lower, upper⟩ := between
  have below : (stringValueComparison constant (constructValue low)).order = .lt →
      position constant < position value :=
    fun less => not_le.mp fun ordered => order_ne_lt_of_le ordered lower less
  have above : (stringValueComparison constant (constructValue high)).order = .gt →
      position value < position constant :=
    fun greater => not_le.mp fun ordered => order_ne_gt_of_le ordered upper greater
  unfold queryInner at answer
  dsimp only at answer
  cases comparison with
  | compareEqual | compareNotDistinctFrom =>
      simp only at answer
      split at answer
      · cases answer
      · rename_i outside
        simp only [ComparisonType.holds, equals_eq_false_iff]
        rcases Decidable.not_and_iff_not_or_not.mp outside with first | second
        · exact (below (Decidable.not_not.mp first)).ne'
        · exact (above (Decidable.not_not.mp second)).ne
  | compareNotEqual | compareDistinctFrom =>
      simp only at answer
      split at answer
      · rename_i single
        obtain ⟨lexact, uexact, leq, ueq⟩ := single
        have hlow := (stringValueComparison_sound constant low).same lexact leq
        have hhigh := (stringValueComparison_sound constant high).same uexact ueq
        rw [order_of_short (short_of_exact lexact leq), Ne, ← position_lt_iff, not_lt,
          ← hlow] at lower
        rw [order_of_short (short_of_exact uexact ueq), stringComparison_ne_gt_iff,
          ← hhigh] at upper
        simp only [ComparisonType.holds, notEquals_eq_false_iff]
        exact le_antisymm upper lower
      · cases answer
  | compareGreaterThan | compareGreaterThanOrEqualTo =>
      simp only at answer
      split at answer
      · rename_i greater
        have lt := above greater
        simp [ComparisonType.holds, lt, lt.le]
      · cases answer
  | compareLessThan | compareLessThanOrEqualTo =>
      simp only at answer
      split at answer
      · rename_i less
        have lt := below less
        simp [ComparisonType.holds, lt, lt.le]
      · cases answer

/-- The loop excludes a comparison if every block does. -/
theorem queryBlocks_eq_false_iff {blocks : List (DataArray × DataArray)} :
    queryBlocks comparison constant blocks = .filterAlwaysFalse ↔
      ∀ block ∈ blocks, queryInner block.1 block.2 comparison constant = .filterAlwaysFalse := by
  induction blocks with
  | nil => exact iff_of_true rfl fun _ member => absurd member List.not_mem_nil
  | cons block rest ih =>
      rw [queryBlocks, List.forall_mem_cons]
      rcases queryInner_twoValued block.1 block.2 comparison constant with hopen | hfalse
      · rw [hopen]
        exact iff_of_false (fun impossible => by cases impossible) fun both => by cases both.1
      · rw [hfalse]
        exact ih.trans (and_iff_right rfl).symm

instance : Std.Total inOrder :=
  ⟨fun left right => by
    simp only [inOrder, ne_eq, ← position_lt_iff, not_lt]
    exact le_total _ _⟩

instance : IsTrans (List UInt8) inOrder :=
  ⟨fun first second third => by
    simp only [inOrder, ne_eq, ← position_lt_iff, not_lt]
    exact le_trans⟩

theorem sortValues_sorted (data : List (List UInt8)) :
    (sortValues data).Pairwise fun left right => position left ≤ position right := by
  refine (List.pairwise_insertionSort inOrder data).imp fun ordered => ?_
  simpa only [inOrder, ne_eq, ← position_lt_iff, not_lt] using ordered

theorem mem_initialise {rest : List (List UInt8)} {front : List UInt8}
    (hsorted : sortValues data = front :: rest) {bound : List UInt8 × List UInt8}
    (member : bound ∈ clusterBounds N (front :: rest) front) :
    (constructValue bound.1, constructValue bound.2) ∈ (initialise N data).blocks := by
  simp only [initialise, hsorted]
  exact List.mem_map.mpr ⟨bound, List.mem_append_left _ member, rfl⟩

/-- The bounds that are stored are those of strings. -/
theorem exists_bounds (member : block ∈ (initialise N data).blocks) :
    ∃ low high, block = (constructValue low, constructValue high) := by
  unfold initialise at member
  split at member
  · exact ⟨[], [], (List.mem_replicate.mp member).2⟩
  · obtain ⟨bound, -, rfl⟩ := List.mem_map.mp member
    exact ⟨bound.1, bound.2, rfl⟩

/-- A string between the bounds of a block satisfies no comparison that is excluded. -/
theorem Between.query_sound (member : block ∈ (initialise N data).blocks)
    (between : Between block value)
    (answer : (initialise N data).query N comparison constant = .filterAlwaysFalse) :
    comparison.holds (.varchar value) (.varchar constant) = false := by
  unfold query at answer
  split at answer
  · cases answer
  · have excluded := queryBlocks_eq_false_iff.mp answer block member
    obtain ⟨low, high, rfl⟩ := exists_bounds member
    exact between.queryInner_sound excluded

/-- Equality with a string is left open only where it is between the bounds of a block. -/
theorem exists_between {stats : StringClusterAdditionalStats} (positive : 0 < N)
    (answer : stats.query N .compareEqual value ≠ .filterAlwaysFalse) :
    ∃ block ∈ stats.blocks, Between block value := by
  by_contra none
  apply answer
  rw [query, if_neg positive.ne', queryBlocks_eq_false_iff]
  intro block member
  rw [queryInner]
  exact if_neg fun between => none ⟨block, member, between⟩

/-- The statistic excludes a constant only if no string of its data satisfies the comparison. -/
theorem query_initialise_sound (N : Nat) (data : List (List UInt8)) (comparison : ComparisonType)
    (constant : List UInt8)
    (answer : (initialise N data).query N comparison constant = .filterAlwaysFalse) :
    ∀ value ∈ data, comparison.holds (.varchar value) (.varchar constant) = false := by
  intro value member
  have inside : value ∈ sortValues data := (List.mem_insertionSort inOrder).mpr member
  have ascending := sortValues_sorted data
  cases hsorted : sortValues data with
  | nil => exact absurd (hsorted ▸ inside) List.not_mem_nil
  | cons front rest =>
      rw [hsorted] at inside ascending
      obtain ⟨index, hindex, rfl⟩ := List.getElem_of_mem inside
      have cuts := largestGaps_cuts stringGap (front :: rest) (N - 1)
      have covered : Covers position (clusterBounds N (front :: rest) front)
          (front :: rest)[index] :=
        cut_covers ascending (Nat.succ_pos _) cuts (Nat.zero_le index) hindex
      obtain ⟨bound, hbound, low, high⟩ := covered
      exact (Between.of_le low high).query_sound (mem_initialise hsorted hbound) answer

/-- The statistic excludes a comparison or a range only if no string of its data satisfies it. -/
theorem string_clusters_exclude_only_absent (N : Nat) (data : List (List UInt8)) :
    (∀ comparison constant, (initialise N data).query N comparison constant = .filterAlwaysFalse →
      ∀ value ∈ data, comparison.holds (.varchar value) (.varchar constant) = false) ∧
    ∀ start finish, (initialise N data).queryRange N start finish = .filterAlwaysFalse →
      ∀ value ∈ data, (greaterThanEquals (.varchar value) (.varchar start) &&
        lessThanEquals (.varchar value) (.varchar finish)) = false := by
  constructor
  · exact query_initialise_sound N data
  · intro start finish answer
    cases answer

end StringClusterAdditionalStats

end StatsRecommender
