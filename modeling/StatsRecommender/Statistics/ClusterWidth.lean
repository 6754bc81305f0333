import Mathlib.Data.List.TakeWhile
import StatsRecommender.Library.IntervalCover
import StatsRecommender.Statistics.ClusterAdditionalStats

/-!
# The width of the clusters

Over integers the clusters are the narrowest cover of the data by at most `N` intervals:
the unsigned gap arithmetic is exact, and the cuts are made at the greatest differences.
-/

namespace StatsRecommender

variable {left right : Int} {gap : Nat × Nat}

open BlockCover IntervalCover

namespace ClusterAdditionalStats

/-! ## Gap arithmetic -/

/-- Modulo the width of the type, the distance of two values of the type is exact. -/
theorem unsignedGap_eq {bits : Nat} (le : left ≤ right) (near : right - left < 2 ^ bits) :
    unsignedGap bits left right = (right - left).toNat := by
  rw [unsignedGap, BitVec.sub_eq_add_neg, ← BitVec.ofInt_neg, ← BitVec.ofInt_add,
    ← Int.sub_eq_add_neg, BitVec.toNat_ofInt, Int.emod_eq_of_lt (by omega)]
  exact_mod_cast near

/-- An integral type has as many values as its unsigned counterpart. -/
theorem range_near {type : PhysicalType} (hleft : (Payload.integer left).hasType type = true)
    (hright : (Payload.integer right).hasType type = true) : right - left < 2 ^ type.gapBits := by
  cases type <;>
    simp [Payload.hasType, PhysicalType.integerRange, PhysicalType.gapBits] at hleft hright ⊢ <;>
    omega

/-! ## The greatest gaps -/

instance : Std.Total gapGreater :=
  ⟨fun left right => by
    unfold gapGreater
    omega⟩

instance : IsTrans (Nat × Nat) gapGreater :=
  ⟨fun first second third => by
    unfold gapGreater
    omega⟩

/-- The pairs whose positions `largestGaps` returns. -/
def chosenGaps (stop : Nat) (gaps : List (Nat × Nat)) : List (Nat × Nat) :=
  ((gaps.insertionSort gapGreater).take stop).takeWhile fun gap => gap.1 != 0

theorem largestGaps_perm (stop : Nat) (gaps : List (Nat × Nat)) :
    (largestGaps stop gaps).Perm ((chosenGaps stop gaps).map Prod.snd) :=
  List.perm_insertionSort _ _

theorem mem_chosenGaps {stop : Nat} {gaps : List (Nat × Nat)}
    (member : gap ∈ chosenGaps stop gaps) : gap ∈ gaps ∧ gap.1 ≠ 0 := by
  constructor
  · have sorted := List.mem_of_mem_take ((List.takeWhile_sublist _).subset member)
    exact (List.perm_insertionSort _ _).mem_iff.mp sorted
  · simpa using List.mem_takeWhile_imp member

/-- Leaving the loop at the first gap of zero loses no width. -/
theorem sum_takeWhile {gaps : List Int} (descending : gaps.Pairwise (· ≥ ·))
    (nonneg : ∀ gap ∈ gaps, 0 ≤ gap) :
    (gaps.takeWhile fun gap => gap != 0).sum = gaps.sum := by
  induction gaps with
  | nil => rfl
  | cons gap rest ih =>
      obtain ⟨greatest, descending⟩ := List.pairwise_cons.mp descending
      by_cases zero : gap = 0
      · have rest_zero : rest.sum = 0 := List.sum_eq_zero fun other member =>
          le_antisymm (zero ▸ greatest other member) (nonneg other (List.mem_cons_of_mem _ member))
        simp [zero, rest_zero]
      · rw [List.takeWhile_cons_of_pos (by simpa using zero), List.sum_cons, List.sum_cons,
          ih descending fun other member => nonneg other (List.mem_cons_of_mem _ member)]

theorem sum_le_sum_chosenGaps (stop : Nat) (gaps : List (Nat × Nat)) {dropped : List Int}
    (sublist : dropped.Sublist (gaps.map fun gap => (gap.1 : Int)))
    (few : dropped.length ≤ stop) :
    dropped.sum ≤ ((chosenGaps stop gaps).map fun gap => (gap.1 : Int)).sum := by
  let sorted := (gaps.insertionSort gapGreater).map fun gap => (gap.1 : Int)
  have perm : sorted.Perm (gaps.map fun gap => (gap.1 : Int)) :=
    (List.perm_insertionSort _ _).map _
  have descending : sorted.Pairwise (· ≥ ·) := by
    refine List.pairwise_map.mpr ((List.pairwise_insertionSort gapGreater gaps).imp ?_)
    intro left right order
    unfold gapGreater at order
    omega
  have nonneg : ∀ gap ∈ sorted, 0 ≤ gap := by
    intro gap member
    obtain ⟨pair, -, rfl⟩ := List.mem_map.mp member
    exact Int.natCast_nonneg _
  have chosen : ((chosenGaps stop gaps).map fun gap => (gap.1 : Int)) =
      (sorted.take stop).takeWhile fun gap => gap != 0 := by
    rw [chosenGaps, ← List.map_take, List.takeWhile_map]
    refine congrArg (List.map _) (congrArg (fun p => List.takeWhile p _) (funext fun gap => ?_))
    rw [Bool.eq_iff_iff, Function.comp_apply, bne_iff_ne, bne_iff_ne]
    omega
  rw [chosen, sum_takeWhile (descending.sublist (List.take_sublist _ _))
    fun gap member => nonneg gap (List.mem_of_mem_take member)]
  exact sum_le_sum_take descending nonneg (sublist.subperm.trans perm.symm.subperm) few

/-! ## Integer data -/

/-- The stored form of an interval of integers. -/
def storedInterval (interval : Int × Int) : Payload × Payload :=
  (.integer interval.1, .integer interval.2)

theorem cut_map (points : List Int) (start : Int) (cuts : List Nat) :
    cut (points.map Payload.integer) (.integer start) cuts =
      (cut points start cuts).map storedInterval := by
  induction cuts generalizing start with
  | nil => simp [cut, storedInterval, List.getLastD_eq_getLast?, List.getLast?_map]
  | cons index rest ih =>
      simp only [cut, List.map_cons, storedInterval]
      rw [List.getD_map, List.getD_map, ih]

section Integers

variable {type : PhysicalType} {points : List Int}

theorem integer_key_le :
    (Payload.integer left).key ≤ (Payload.integer right).key ↔ left ≤ right :=
  OrderKey.pair_le_iff 1 left right

/-- Integers are neither NaN nor infinite. -/
theorem ownBlock_integers (kind : Payload → Bool) (never : ∀ value, kind (.integer value) = false) :
    ownBlock (points.map Payload.integer) kind = [] := by
  have none_left : (points.map Payload.integer).filter kind = [] := by
    rw [List.filter_eq_nil_iff]
    intro value member
    obtain ⟨point, -, rfl⟩ := List.mem_map.mp member
    rw [never point]
    exact Bool.false_ne_true
  rw [ownBlock, none_left]
  rfl

/-- The clusters of sorted integers are a cut at the greatest gaps. -/
theorem clusterBlocks_integers (gap : Payload → Payload → Nat) (N : Nat) (first : Int)
    (rest : List Int) :
    clusterBlocks gap N ((first :: rest).map Payload.integer) (.integer first) =
      (cut (first :: rest) first (largestGaps (N - 1)
        (gaps gap ((first :: rest).map Payload.integer)))).map storedInterval := by
  have finite : ((first :: rest).map Payload.integer).filter isFinite =
      (first :: rest).map Payload.integer := by
    rw [List.filter_eq_self]
    intro value member
    obtain ⟨point, -, rfl⟩ := List.mem_map.mp member
    rfl
  unfold clusterBlocks
  rw [ownBlock_integers isNegativeInfinity fun _ => rfl,
    ownBlock_integers isPositiveInfinity fun _ => rfl, ownBlock_integers Payload.isNaN fun _ => rfl,
    finite]
  dsimp only [List.length_nil]
  by_cases single : N = 1
  · subst single
    rw [if_pos (Or.inl rfl), ← cut_map]
    have no_cuts : largestGaps (1 - 1) (gaps gap ((first :: rest).map Payload.integer)) = [] :=
      List.eq_nil_of_length_eq_zero (Nat.le_zero.mp (length_largestGaps_le _ _))
    rw [no_cuts, cut, List.map_cons, List.getLastD_cons]
  · rw [if_neg (by omega)]
    simp only [List.map_cons, List.nil_append, List.append_nil, Nat.add_zero, Nat.sub_zero]
    rw [← List.map_cons, cut_map]

/-- The gaps of sorted integers of one type are their differences. -/
theorem gaps_integers (runtime : Runtime) (sorted : points.Pairwise (· ≤ ·))
    (typed : Homogeneous type (points.map Payload.integer)) :
    (gaps (Payload.gap runtime type) (points.map Payload.integer)).map
      (fun gap => (gap.1 : Int)) = differences points := by
  have exact_gaps : ((points.map Payload.integer).zipWith (Payload.gap runtime type)
      (points.map Payload.integer).tail).map (fun gap : Nat => (gap : Int)) =
        differences points := by
    induction points with
    | nil => rfl
    | cons first tail ih =>
        obtain ⟨least, tail_sorted⟩ := List.pairwise_cons.mp sorted
        have later := ih tail_sorted fun value member =>
          typed value (List.mem_cons_of_mem _ member)
        cases tail with
        | nil => rfl
        | cons second rest =>
            have le := least second List.mem_cons_self
            have near := range_near (typed _ List.mem_cons_self)
              (typed _ (List.mem_cons_of_mem _ List.mem_cons_self))
            have gap : Payload.gap runtime type (.integer first) (.integer second) =
                (second - first).toNat := unsignedGap_eq le near
            simp only [List.map_cons, List.tail_cons, List.zipWith_cons_cons, differences] at later ⊢
            rw [later, gap, Int.toNat_of_nonneg (by omega)]
  have first : ((gaps (Payload.gap runtime type) (points.map Payload.integer)).map Prod.fst) =
      (points.map Payload.integer).zipWith (Payload.gap runtime type)
        (points.map Payload.integer).tail := List.zipIdx_map_fst _ _
  rw [← exact_gaps, ← first, List.map_map]
  rfl

/-- A listed gap is the difference behind its position. -/
theorem step_of_mem_gaps (runtime : Runtime) (sorted : points.Pairwise (· ≤ ·))
    (typed : Homogeneous type (points.map Payload.integer))
    (member : gap ∈ gaps (Payload.gap runtime type) (points.map Payload.integer)) :
    step points gap.2 = gap.1 := by
  have listed := gaps_integers runtime sorted typed
  obtain ⟨position, inside, rfl⟩ := List.getElem_of_mem member
  have entry : (differences points)[position]? = some
      ((gaps (Payload.gap runtime type) (points.map Payload.integer))[position].1 : Int) := by
    rw [← listed, List.getElem?_map, List.getElem?_eq_getElem inside]
    rfl
  have index : (gaps (Payload.gap runtime type)
      (points.map Payload.integer))[position].2 = position := by
    simp [gaps]
  rw [index]
  obtain ⟨bound, same⟩ := List.getElem?_eq_some_iff.mp entry
  have next : position + 1 < points.length := by
    simp only [differences, List.length_zipWith, List.length_tail] at bound
    omega
  rw [← same, step_eq next]
  simp [differences]

end Integers

/-- Clusters as they are stored, and as narrow as any cover of the values can be. -/
structure NarrowestClusters (stats : ClusterAdditionalStats) (N : Nat) (values : List Int)
    (clusters : List (Int × Int)) : Prop where
  stored : stats.blocks = fill N (clusters.map storedInterval)
  few : clusters.length ≤ N
  disjoint : clusters.Pairwise fun left right => left.2 < right.1
  ends : ∀ cluster ∈ clusters, cluster.1 ∈ values ∧ cluster.2 ∈ values
  cover : IsCover clusters values
  narrowest : ∀ intervals, IsCover intervals values → intervals.length ≤ N →
    width clusters ≤ width intervals

theorem sortValues_integers (values : List Int) :
    sortValues (values.map Payload.integer) =
      (values.insertionSort (· ≤ ·)).map Payload.integer := by
  refine (List.map_insertionSort _ _ _ _ fun left _ right _ => ?_).symm
  rw [inOrder, greaterThan_eq_false_iff, integer_key_le]

/--
Over an integral type the clusters cover the values by disjoint intervals between values,
and no cover by at most `N` intervals is narrower.
-/
theorem initialise_narrowest (runtime : Runtime) {type : PhysicalType} {N : Nat}
    (positive : 0 < N) {values : List Int} (nonempty : values ≠ [])
    (typed : Homogeneous type (values.map Payload.integer)) :
    ∃ clusters, NarrowestClusters (initialise runtime type N (values.map Payload.integer)) N values
      clusters := by
  have perm := List.perm_insertionSort (· ≤ ·) values
  have sorted := List.pairwise_insertionSort (· ≤ ·) values
  have stored : initialise runtime type N (values.map Payload.integer) =
      initialiseSorted (Payload.gap runtime type) type N
        ((values.insertionSort (· ≤ ·)).map Payload.integer) := by
    rw [initialise, sortValues_integers]
  generalize values.insertionSort (· ≤ ·) = points at perm sorted stored
  rw [stored]
  have points_typed : Homogeneous type (points.map Payload.integer) := fun value member =>
    typed value ((perm.map _).mem_iff.mp member)
  cases points with
  | nil => exact absurd perm.symm.eq_nil nonempty
  | cons first rest =>
      have bound : 0 < (first :: rest).length := Nat.succ_pos _
      let found := gaps (Payload.gap runtime type) ((first :: rest).map Payload.integer)
      let cuts := largestGaps (N - 1) found
      have valid : Cuts (first :: rest).length 0 cuts := by
        have cut_points := largestGaps_cuts (Payload.gap runtime type)
          ((first :: rest).map Payload.integer) (N - 1)
        rwa [List.length_map] at cut_points
      have chosen := largestGaps_perm (N - 1) found
      have steps : (cuts.map (step (first :: rest))).sum =
          ((chosenGaps (N - 1) found).map fun gap => (gap.1 : Int)).sum := by
        rw [(chosen.map _).sum_eq, List.map_map]
        refine congrArg List.sum (List.map_congr_left fun gap member => ?_)
        exact step_of_mem_gaps runtime sorted points_typed (mem_chosenGaps member).1
      have apart : ∀ index ∈ cuts, 0 < step (first :: rest) index := by
        intro index member
        obtain ⟨gap, inside, rfl⟩ := List.mem_map.mp (chosen.mem_iff.mp member)
        have listed := mem_chosenGaps inside
        rw [step_of_mem_gaps runtime sorted points_typed listed.1]
        have := listed.2
        omega
      refine ⟨cut (first :: rest) first cuts, ?_, ?_, ?_, ?_, ?_, ?_⟩
      · exact congrArg (fill N) (clusterBlocks_integers _ N first rest)
      · rw [length_cut]
        have fewer : cuts.length ≤ N - 1 := length_largestGaps_le _ _
        omega
      · exact cut_disjoint sorted bound valid apart
      · intro cluster member
        have ends := @cut_bounds _ _ _ id _ sorted _ bound _ valid cluster member
        exact ⟨perm.mem_iff.mp ends.2.1, perm.mem_iff.mp ends.2.2⟩
      · constructor
        · exact (@cut_ordered _ _ _ id _ sorted _ bound _ valid).bounded
        · intro point inside
          obtain ⟨position, hposition, rfl⟩ := List.getElem_of_mem (perm.mem_iff.mpr inside)
          exact cut_covers sorted bound valid (Nat.zero_le _) hposition
      · intro intervals cover few
        refine @width_cut_le (first :: rest) sorted bound cuts valid (N - 1) ?_ intervals
          ⟨cover.proper, fun point inside => cover.covers point (perm.mem_iff.mp inside)⟩
          (by omega)
        intro dropped sublist short
        rw [← gaps_integers runtime sorted points_typed] at sublist
        rw [steps]
        exact sum_le_sum_chosenGaps (N - 1) found sublist short

/-- Three clusters over bytes from the least to the greatest value. -/
theorem initialise_narrowest_bytes :
    ∃ clusters, NarrowestClusters (initialise .identityHash .int8 3
      ([127, -128, 3, 127].map Payload.integer)) 3 [127, -128, 3, 127] clusters :=
  initialise_narrowest .identityHash (by decide) (by decide) (by decide)

example : (initialise .identityHash .int8 2 ([127, -128, 3, 127].map Payload.integer)).blocks =
    [(.integer (-128), .integer (-128)), (.integer 3, .integer 127)] := by decide

end ClusterAdditionalStats

end StatsRecommender
