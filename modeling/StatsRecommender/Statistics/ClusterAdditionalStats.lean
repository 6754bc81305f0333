import Mathlib.Data.List.Sort
import StatsRecommender.Library.BlockCover
import StatsRecommender.Statistics.AdditionalStats

/-!
# Cluster statistics

`ClusterAdditionalStats<T, N>`: the non-NULL values of a column are sorted, cut at the
largest gaps and summarised by at most `N` blocks of a least and a greatest value.
Infinities and NaN get blocks of their own.
-/

namespace StatsRecommender

variable {α : Type} {data sorted : List Payload} {block : Payload × Payload}
  {value constant : Payload} {N index : Nat} {blocks : List (Payload × Payload)}
  {type : PhysicalType}

open BlockCover

/-! ## Choosing the cuts -/

/-- `std::greater` on the pairs of a gap and its position, as a total order. -/
def gapGreater (left right : Nat × Nat) : Prop :=
  right.1 < left.1 ∨ right.1 = left.1 ∧ right.2 ≤ left.2

instance : DecidableRel gapGreater := fun _ _ => inferInstanceAs (Decidable (_ ∨ _))

/-- The gap behind each value but the last, with its position. -/
def gaps {α : Type} (gap : α → α → Nat) (data : List α) : List (Nat × Nat) :=
  (data.zipWith gap data.tail).zipIdx

/-- The positions of the `stop` largest gaps that are not zero, in ascending order. -/
def largestGaps (stop : Nat) (gaps : List (Nat × Nat)) : List Nat :=
  ((((gaps.insertionSort gapGreater).take stop).takeWhile fun gap => gap.1 != 0).map
    Prod.snd).insertionSort (· ≤ ·)

theorem length_largestGaps_le (stop : Nat) (gaps : List (Nat × Nat)) :
    (largestGaps stop gaps).length ≤ stop := by
  rw [largestGaps, List.length_insertionSort, List.length_map]
  exact (List.takeWhile_sublist _).length_le.trans (List.length_take_le _ _)

theorem snd_mem_gaps {gap : α → α → Nat} {data : List α} {position : Nat}
    (member : position ∈ (gaps gap data).map Prod.snd) : position + 1 < data.length := by
  obtain ⟨⟨value, index⟩, hmem, rfl⟩ := List.mem_map.mp member
  have bound := (List.mem_zipIdx hmem).2.1
  simp only [List.length_zipWith, List.length_tail] at bound
  simp only
  omega

theorem nodup_snd_gaps (gap : α → α → Nat) (data : List α) :
    ((gaps gap data).map Prod.snd).Nodup := by
  rw [gaps, List.zipIdx_map_snd]
  exact List.nodup_range'

/-- The chosen positions ascend and leave a value behind each of them. -/
theorem largestGaps_cuts (gap : α → α → Nat) (data : List α) (stop : Nat) :
    Cuts data.length 0 (largestGaps stop (gaps gap data)) := by
  let chosen := (((gaps gap data).insertionSort gapGreater).take stop).takeWhile
    fun gap => gap.1 != 0
  have sublist : chosen.Sublist ((gaps gap data).insertionSort gapGreater) :=
    (List.takeWhile_sublist _).trans (List.take_sublist _ _)
  have perm := (List.perm_insertionSort gapGreater (gaps gap data)).map Prod.snd
  have nodup : (chosen.map Prod.snd).Nodup :=
    (perm.nodup_iff.mpr (nodup_snd_gaps gap data)).sublist (sublist.map _)
  constructor
  · have sorted := List.pairwise_insertionSort (· ≤ ·) (chosen.map Prod.snd)
    have distinct := (List.perm_insertionSort (· ≤ ·) (chosen.map Prod.snd)).nodup_iff.mpr nodup
    exact (sorted.and distinct).imp fun both => lt_of_le_of_ne both.1 both.2
  · intro position member
    have inside : position ∈ chosen.map Prod.snd := (List.mem_insertionSort _).mp member
    exact ⟨Nat.zero_le _, snd_mem_gaps (perm.mem_iff.mp ((sublist.map _).subset inside))⟩

/-! ## The statistic -/

/-- The arrays `min_values` and `max_values`, as pairs. -/
structure ClusterAdditionalStats where
  blocks : List (Payload × Payload)
  deriving DecidableEq, Repr

/-- Bits of `ClusterGapType`, the unsigned counterpart of an integral type. -/
def PhysicalType.gapBits : PhysicalType → Nat
  | .bool | .uint8 | .int8 => 8
  | .uint16 | .int16 => 16
  | .uint32 | .int32 => 32
  | .uint64 | .int64 => 64
  | .uint128 | .int128 => 128
  | _ => 0

/-- `right - left` after both sides are cast to an unsigned type. -/
def unsignedGap (bits : Nat) (left right : Int) : Nat :=
  (BitVec.ofInt bits right - BitVec.ofInt bits left).toNat

/-- The distance of two neighbours of a sorted vector, in `ClusterGapType`. -/
def Payload.gap (runtime : Runtime) (type : PhysicalType) : Payload → Payload → Nat
  | .boolean left, .boolean right => unsignedGap type.gapBits left.toInt right.toInt
  | .integer left, .integer right => unsignedGap type.gapBits left right
  | .float left, .float right => runtime.floatGap .float left.toNat right.toNat
  | .double left, .double right => runtime.floatGap .double left.toNat right.toNat
  | _, _ => 0

/-- `T(0)` and `T(1)`. -/
def PhysicalType.ofBit : PhysicalType → Bool → Payload
  | .bool, one => .boolean one
  | .float, one => .float (if one then 0x3f800000 else 0)
  | .double, one => .double (if one then 0x3ff0000000000000 else 0)
  | _, one => .integer (if one then 1 else 0)

variable {stats : ClusterAdditionalStats}

namespace ClusterAdditionalStats

/-- The blocks repeated from the last one on until there are `N`. -/
def fill (N : Nat) (blocks : List (Payload × Payload)) : List (Payload × Payload) :=
  match blocks.getLast? with
  | none => []
  | some last => blocks ++ List.replicate (N - blocks.length) last

/-- A block of its own for the value of one kind that was seen last. -/
def ownBlock (data : List Payload) (kind : Payload → Bool) : List (Payload × Payload) :=
  match (data.filter kind).getLast? with
  | none => []
  | some value => [(value, value)]

def isPositiveInfinity (value : Payload) : Bool :=
  !value.isNaN && value.isInfinity && !value.isNegativeInfinity

def isNegativeInfinity (value : Payload) : Bool :=
  !value.isNaN && value.isInfinity && value.isNegativeInfinity

def isFinite (value : Payload) : Bool := !value.isNaN && !value.isInfinity

/-- Not `DuckDBLess` the other way round. -/
def inOrder (left right : Payload) : Prop := greaterThan left right = false

instance : DecidableRel inOrder := fun _ _ => inferInstanceAs (Decidable (_ = false))

def sortValues (data : List Payload) : List Payload := data.insertionSort inOrder

/--
The blocks of sorted data with the given front; `cluster_data` is what is neither
infinite nor NaN.
-/
def clusterBlocks (gap : Payload → Payload → Nat) (N : Nat) (sorted : List Payload)
    (front : Payload) : List (Payload × Payload) :=
  let negative := ownBlock sorted isNegativeInfinity
  let positive := ownBlock sorted isPositiveInfinity
  let nan := ownBlock sorted Payload.isNaN
  let special := negative.length + positive.length + nan.length
  if N = 1 ∨ (N < 4 ∧ special ≠ 0) then [(front, sorted.getLastD front)]
  else
    match sorted.filter isFinite with
    | [] => negative ++ positive ++ nan
    | start :: rest =>
        let cuts := largestGaps (N - 1 - special) (gaps gap (start :: rest))
        negative ++ cut (start :: rest) start cuts ++ positive ++ nan

/-- `Initialise` behind its sort; without data only the first block is set, to an inverted one. -/
def initialiseSorted (gap : Payload → Payload → Nat) (type : PhysicalType) (N : Nat) :
    List Payload → ClusterAdditionalStats
  | [] => ⟨[(type.ofBit true, type.ofBit false)]⟩
  | front :: rest => ⟨fill N (clusterBlocks gap N (front :: rest) front)⟩

/-- `Initialise`. -/
def initialise (runtime : Runtime) (type : PhysicalType) (N : Nat) (data : List Payload) :
    ClusterAdditionalStats :=
  initialiseSorted (Payload.gap runtime type) type N (sortValues data)

def minValue (stats : ClusterAdditionalStats) (index : Nat) : Payload :=
  (stats.blocks.getD index (.boolean false, .boolean false)).1

def maxValue (stats : ClusterAdditionalStats) (index : Nat) : Payload :=
  (stats.blocks.getD index (.boolean false, .boolean false)).2

/-- The loop of `FindLastIndexBeforePoint_Binary`; `fuel` bounds the width of the search. -/
def bisect (stats : ClusterAdditionalStats) (constant : Payload) : Nat → Nat → Nat → Nat
  | 0, lo, _ => lo
  | fuel + 1, lo, hi =>
      if lo < hi then
        let mid := (lo + hi + 1) / 2
        if greaterThan (stats.minValue mid) constant then bisect stats constant fuel lo (mid - 1)
        else if lessThan (stats.minValue mid) constant then bisect stats constant fuel mid hi
        else mid
      else lo

/-- `FindLastIndexBeforePoint`; none stands for -1. -/
def findLastIndexBeforePoint (stats : ClusterAdditionalStats) (N : Nat) (constant : Payload) :
    Option Nat :=
  if greaterThan (stats.minValue 0) constant then none
  else some (bisect stats constant N 0 (N - 1))

/-- `min_values[0] > max_values[0]`: the mark of a statistic without data. -/
def inverted (stats : ClusterAdditionalStats) : Bool :=
  (stats.minValue 0).cxxGreater (stats.maxValue 0)

def queryEqual (stats : ClusterAdditionalStats) (N : Nat) (constant : Payload) :
    FilterPropagateResult :=
  match stats.findLastIndexBeforePoint N constant with
  | none => .filterAlwaysFalse
  | some index =>
      if greaterThanEquals (stats.maxValue index) constant then .noPruningPossible
      else .filterAlwaysFalse

def query (stats : ClusterAdditionalStats) (N : Nat) (comparison : ComparisonType)
    (constant : Payload) : FilterPropagateResult :=
  if N = 0 ∨ stats.inverted then .noPruningPossible
  else
    match comparison with
    | .compareEqual | .compareNotDistinctFrom => stats.queryEqual N constant
    | .compareNotEqual | .compareDistinctFrom =>
        if equals (stats.minValue 0) (stats.maxValue (N - 1)) && equals (stats.minValue 0) constant
        then .filterAlwaysFalse else .noPruningPossible
    | .compareGreaterThanOrEqualTo | .compareGreaterThan =>
        if greaterThanEquals (stats.maxValue (N - 1)) constant
        then .noPruningPossible else .filterAlwaysFalse
    | .compareLessThanOrEqualTo | .compareLessThan =>
        if lessThanEquals (stats.minValue 0) constant
        then .noPruningPossible else .filterAlwaysFalse

def queryRange (stats : ClusterAdditionalStats) (N : Nat) (start finish : Payload) :
    FilterPropagateResult :=
  if N = 0 ∨ stats.inverted then .noPruningPossible
  else
    match stats.findLastIndexBeforePoint N start with
    | none =>
        if greaterThan (stats.minValue 0) finish then .filterAlwaysFalse else .noPruningPossible
    | some index =>
        if greaterThanEquals (stats.maxValue index) start ||
            (decide (index < N - 1) && lessThanEquals (stats.minValue (index + 1)) finish)
        then .noPruningPossible else .filterAlwaysFalse

theorem queryEqual_twoValued (stats : ClusterAdditionalStats) (N : Nat) (constant : Payload) :
    (stats.queryEqual N constant).TwoValued := by
  unfold queryEqual
  split
  · exact Or.inr rfl
  · exact .ite (Or.inl rfl) (Or.inr rfl)

theorem query_twoValued (stats : ClusterAdditionalStats) (N : Nat) (comparison : ComparisonType)
    (constant : Payload) : (stats.query N comparison constant).TwoValued := by
  unfold query
  refine .ite (Or.inl rfl) ?_
  cases comparison with
  | compareEqual | compareNotDistinctFrom => exact queryEqual_twoValued stats N constant
  | compareNotEqual | compareDistinctFrom => exact .ite (Or.inr rfl) (Or.inl rfl)
  | _ => exact .ite (Or.inl rfl) (Or.inr rfl)

/-! ## The blocks of sorted data -/

instance : Std.Total inOrder :=
  ⟨fun left right => by
    simp only [inOrder, greaterThan_eq_false_iff]
    exact le_total _ _⟩

instance : IsTrans Payload inOrder :=
  ⟨fun first second third => by
    simp only [inOrder, greaterThan_eq_false_iff]
    exact le_trans⟩

section OwnBlocks

variable {data : List Payload} {kind : Payload → Bool}

theorem mem_ownBlock (member : block ∈ ownBlock data kind) :
    block.1 ∈ data ∧ kind block.1 = true ∧ block.2 = block.1 := by
  unfold ownBlock at member
  split at member
  · exact absurd member List.not_mem_nil
  · rename_i value last
    rw [List.mem_singleton] at member
    obtain ⟨inside, holds⟩ := List.mem_filter.mp (List.mem_of_getLast? last)
    subst member
    exact ⟨inside, holds, rfl⟩

theorem length_ownBlock_le (data : List Payload) (kind : Payload → Bool) :
    (ownBlock data kind).length ≤ 1 := by
  unfold ownBlock
  split <;> simp

theorem ownBlock_ordered (data : List Payload) (kind : Payload → Bool) :
    Ordered Payload.key (ownBlock data kind) := by
  unfold ownBlock
  split
  · exact Ordered.nil
  · exact Ordered.singleton le_rfl

theorem ownBlock_covers (inside : value ∈ data) (holds : kind value = true)
    (same : ∀ other ∈ data, kind other = true → other.key = value.key) :
    Covers Payload.key (ownBlock data kind) value := by
  unfold ownBlock
  split
  · rename_i none_last
    have empty := List.getLast?_eq_none_iff.mp none_last
    exact absurd (List.mem_filter.mpr ⟨inside, holds⟩) (empty ▸ List.not_mem_nil)
  · rename_i other last
    obtain ⟨hmem, hkind⟩ := List.mem_filter.mp (List.mem_of_getLast? last)
    have heq := same other hmem hkind
    exact ⟨_, List.mem_singleton.mpr rfl, heq.le, heq.ge⟩

end OwnBlocks

/-- All values of a vector are represented by one type. -/
def Homogeneous (type : PhysicalType) (data : List Payload) : Prop :=
  ∀ value ∈ data, value.hasType type = true

instance (type : PhysicalType) (data : List Payload) : Decidable (Homogeneous type data) :=
  inferInstanceAs (Decidable (∀ value ∈ data, _))

section Blocks

variable {type : PhysicalType} {sorted : List Payload}

section

variable (typed : Homogeneous type sorted)
include typed

theorem negative_le (member : block ∈ ownBlock sorted isNegativeInfinity)
    (inside : value ∈ sorted) : block.2.key ≤ value.key := by
  obtain ⟨hmem, hkind, heq⟩ := mem_ownBlock member
  simp only [isNegativeInfinity, Bool.and_eq_true] at hkind
  rw [heq]
  exact Payload.key_le_of_isNegativeInfinity (typed _ hmem) (typed _ inside) hkind.1.2 hkind.2

theorem le_positive (member : block ∈ ownBlock sorted isPositiveInfinity) (inside : value ∈ sorted)
    (number : value.isNaN = false) : value.key ≤ block.1.key := by
  obtain ⟨hmem, hkind, -⟩ := mem_ownBlock member
  simp only [isPositiveInfinity, Bool.and_eq_true, Bool.not_eq_true'] at hkind
  exact Payload.key_le_of_isInfinity (typed _ hmem) (typed _ inside) hkind.1.2 hkind.2 number

theorem le_nan (member : block ∈ ownBlock sorted Payload.isNaN) (inside : value ∈ sorted) :
    value.key ≤ block.1.key := by
  obtain ⟨hmem, hkind, -⟩ := mem_ownBlock member
  exact Payload.key_le_of_isNaN (typed _ hmem) (typed _ inside) hkind

/-- A value with a block of its own is covered by that block. -/
theorem special_covered (inside : value ∈ sorted) (special : isFinite value = false) :
    Covers Payload.key (ownBlock sorted isNegativeInfinity) value ∨
      Covers Payload.key (ownBlock sorted isPositiveInfinity) value ∨
      Covers Payload.key (ownBlock sorted Payload.isNaN) value := by
  cases nan : value.isNaN with
  | true =>
      refine Or.inr (Or.inr (ownBlock_covers inside nan fun other hother hnan => ?_))
      exact le_antisymm
        (Payload.key_le_of_isNaN (typed _ inside) (typed _ hother) nan)
        (Payload.key_le_of_isNaN (typed _ hother) (typed _ inside) hnan)
  | false =>
      have infinite : value.isInfinity = true := by simpa [isFinite, nan] using special
      cases negative : value.isNegativeInfinity with
      | true =>
          refine Or.inl (ownBlock_covers inside (by simp [isNegativeInfinity, *])
            fun other hother hkind => ?_)
          simp only [isNegativeInfinity, Bool.and_eq_true] at hkind
          exact le_antisymm
            (Payload.key_le_of_isNegativeInfinity (typed _ hother) (typed _ inside)
              hkind.1.2 hkind.2)
            (Payload.key_le_of_isNegativeInfinity (typed _ inside) (typed _ hother)
              infinite negative)
      | false =>
          refine Or.inr (Or.inl (ownBlock_covers inside (by simp [isPositiveInfinity, *])
            fun other hother hkind => ?_))
          simp only [isPositiveInfinity, Bool.and_eq_true, Bool.not_eq_true'] at hkind
          exact le_antisymm
            (Payload.key_le_of_isInfinity (typed _ inside) (typed _ hother)
              infinite negative hkind.1.1)
            (Payload.key_le_of_isInfinity (typed _ hother) (typed _ inside)
              hkind.1.2 hkind.2 nan)

/-- The blocks between the infinities: a cut of values that are neither infinite nor NaN. -/
theorem assemble {middle : List (Payload × Payload)} (ordered : Ordered Payload.key middle)
    (finite : ∀ block ∈ middle, (block.1 ∈ sorted ∧ isFinite block.1 = true) ∧
      (block.2 ∈ sorted ∧ isFinite block.2 = true))
    (covered : ∀ value ∈ sorted, isFinite value = true → Covers Payload.key middle value) :
    Ordered Payload.key (ownBlock sorted isNegativeInfinity ++ middle ++
      ownBlock sorted isPositiveInfinity ++ ownBlock sorted Payload.isNaN) ∧
    ∀ value ∈ sorted, Covers Payload.key (ownBlock sorted isNegativeInfinity ++ middle ++
      ownBlock sorted isPositiveInfinity ++ ownBlock sorted Payload.isNaN) value := by
  constructor
  · refine (((ownBlock_ordered sorted _).append ordered ?_).append
      (ownBlock_ordered sorted _) ?_).append (ownBlock_ordered sorted _) ?_
    · intro left hleft right hright
      exact negative_le typed hleft (finite right hright).1.1
    · intro left hleft right hright
      rcases List.mem_append.mp hleft with negative | inner
      · exact negative_le typed negative (mem_ownBlock hright).1
      · obtain ⟨-, hmem, hfinite⟩ := finite left inner
        simp only [isFinite, Bool.and_eq_true, Bool.not_eq_true'] at hfinite
        exact le_positive typed hright hmem hfinite.1
    · intro left hleft right hright
      have inside : left.2 ∈ sorted := by
        rcases List.mem_append.mp hleft with before | positive
        · rcases List.mem_append.mp before with negative | inner
          · obtain ⟨hmem, -, heq⟩ := mem_ownBlock negative
            exact heq ▸ hmem
          · exact (finite left inner).2.1
        · obtain ⟨hmem, -, heq⟩ := mem_ownBlock positive
          exact heq ▸ hmem
      exact le_nan typed hright inside
  · intro value inside
    cases hfinite : isFinite value with
    | true =>
        exact (((covered value inside hfinite).append_right _).append_left _).append_left _
    | false =>
        rcases special_covered typed inside hfinite with negative | positive | nan
        · exact ((negative.append_left _).append_left _).append_left _
        · exact (positive.append_right _).append_left _
        · exact nan.append_right _

end

/-- The blocks of sorted data are in order and cover the data. -/
theorem clusterBlocks_spec (gap : Payload → Payload → Nat) (N : Nat) (typed : Homogeneous type sorted)
    (ascending : sorted.Pairwise fun left right => left.key ≤ right.key)
    (bound : 0 < sorted.length) :
    Ordered Payload.key (clusterBlocks gap N sorted sorted[0]) ∧
    ∀ value ∈ sorted, Covers Payload.key (clusterBlocks gap N sorted sorted[0]) value := by
  unfold clusterBlocks
  dsimp only
  split
  · -- one block from the least to the greatest value
    have none_cut : Cuts sorted.length 0 [] :=
      ⟨List.Pairwise.nil, fun _ member => absurd member List.not_mem_nil⟩
    refine ⟨cut_ordered ascending bound none_cut, fun value member => ?_⟩
    obtain ⟨position, hposition, rfl⟩ := List.getElem_of_mem member
    exact cut_covers ascending bound none_cut (Nat.zero_le _) hposition
  · split
    · rename_i empty
      have spec := assemble typed Ordered.nil (fun _ member => absurd member List.not_mem_nil)
        (fun value inside hfinite =>
          absurd (List.mem_filter.mpr ⟨inside, hfinite⟩) (empty ▸ List.not_mem_nil))
      simpa only [List.append_nil] using spec
    · rename_i start rest hfinite
      have fascending : (start :: rest).Pairwise fun left right => left.key ≤ right.key :=
        hfinite ▸ ascending.filter isFinite
      have fbound : 0 < (start :: rest).length := Nat.succ_pos _
      have finite_mem : ∀ value ∈ start :: rest, value ∈ sorted ∧ isFinite value = true :=
        fun value member => List.mem_filter.mp (hfinite ▸ member)
      have cuts := largestGaps_cuts gap (start :: rest)
        (N - 1 - ((ownBlock sorted isNegativeInfinity).length +
          (ownBlock sorted isPositiveInfinity).length + (ownBlock sorted Payload.isNaN).length))
      refine assemble typed (cut_ordered fascending fbound cuts) ?_ ?_
      · intro block member
        obtain ⟨-, first, second⟩ := cut_bounds fascending fbound cuts block member
        exact ⟨finite_mem _ first, finite_mem _ second⟩
      · intro value inside holds
        have member : value ∈ start :: rest := hfinite ▸ List.mem_filter.mpr ⟨inside, holds⟩
        obtain ⟨position, hposition, rfl⟩ := List.getElem_of_mem member
        exact cut_covers fascending fbound cuts (Nat.zero_le _) hposition

/-- A statistic of `N` blocks has room for the blocks of its data. -/
theorem length_clusterBlocks_le (gap : Payload → Payload → Nat) (positive : 0 < N)
    (front : Payload) : (clusterBlocks gap N sorted front).length ≤ N := by
  have hnegative := length_ownBlock_le sorted isNegativeInfinity
  have hpositive := length_ownBlock_le sorted isPositiveInfinity
  have hnan := length_ownBlock_le sorted Payload.isNaN
  unfold clusterBlocks
  dsimp only
  split
  · exact positive
  · rename_i several
    split
    · simp only [List.length_append]
      omega
    · rename_i start rest _
      have hcuts := length_largestGaps_le (N - 1 - ((ownBlock sorted isNegativeInfinity).length +
        (ownBlock sorted isPositiveInfinity).length + (ownBlock sorted Payload.isNaN).length))
        (gaps gap (start :: rest))
      simp only [List.length_append, length_cut]
      omega

end Blocks

/-! ## Filling the arrays -/

theorem fill_ordered (N : Nat) (ordered : Ordered Payload.key blocks) :
    Ordered Payload.key (fill N blocks) := by
  unfold fill
  split
  · exact Ordered.nil
  · rename_i last hlast
    have nonempty : blocks ≠ [] := by
      intro empty
      rw [empty] at hlast
      cases hlast
    rw [List.getLast?_eq_some_getLast nonempty] at hlast
    rw [← Option.some.inj hlast]
    exact ordered.pad nonempty _

theorem fill_covers (N : Nat) (covered : Covers Payload.key blocks value) :
    Covers Payload.key (fill N blocks) value := by
  unfold fill
  split
  · rename_i none_last
    obtain ⟨block, member, -⟩ := covered
    exact absurd member (List.getLast?_eq_none_iff.mp none_last ▸ List.not_mem_nil)
  · exact covered.append_left _

theorem length_fill (nonempty : blocks ≠ []) (fits : blocks.length ≤ N) :
    (fill N blocks).length = N := by
  rw [fill, List.getLast?_eq_some_getLast nonempty]
  simp only [List.length_append, List.length_replicate]
  omega

/-! ## Soundness of the answers -/

/-- The arrays hold `N` ordered blocks that cover the given values. -/
structure Summarises (stats : ClusterAdditionalStats) (N : Nat) (values : List Payload) :
    Prop where
  length : stats.blocks.length = N
  ordered : Ordered Payload.key stats.blocks
  covers : ∀ value ∈ values, Covers Payload.key stats.blocks value

theorem minValue_eq (stats : ClusterAdditionalStats) (bound : index < stats.blocks.length) :
    stats.minValue index = stats.blocks[index].1 := by
  rw [minValue, List.getD_eq_getElem _ _ bound]

theorem maxValue_eq (stats : ClusterAdditionalStats) (bound : index < stats.blocks.length) :
    stats.maxValue index = stats.blocks[index].2 := by
  rw [maxValue, List.getD_eq_getElem _ _ bound]

/-- What the search returns: a block that starts at the point, or the last one before it. -/
def LastBefore (stats : ClusterAdditionalStats) (N : Nat) (constant : Payload) (index : Nat) :
    Prop :=
  index < N ∧ (stats.minValue index).key ≤ constant.key ∧
    ((stats.minValue index).key = constant.key ∨
      ∀ next, index < next → next < N → constant.key < (stats.minValue next).key)

theorem bisect_spec (ordered : Ordered Payload.key stats.blocks) (length : stats.blocks.length = N)
    {fuel lo hi : Nat} (width : hi - lo ≤ fuel) (range : lo ≤ hi) (hhi : hi < N)
    (before : (stats.minValue lo).key ≤ constant.key)
    (behind : ∀ next, hi < next → next < N → constant.key < (stats.minValue next).key) :
    LastBefore stats N constant (bisect stats constant fuel lo hi) := by
  induction fuel generalizing lo hi with
  | zero =>
      have heq : lo = hi := by omega
      subst heq
      exact ⟨hhi, before, Or.inr behind⟩
  | succ fuel ih =>
      rw [bisect]
      split
      · rename_i lt
        dsimp only
        have hmid : (lo + hi + 1) / 2 < N := by omega
        split
        · rename_i greater
          rw [greaterThan_iff] at greater
          refine ih (by omega) (by omega) (by omega) before fun next hnext bound => ?_
          refine greater.trans_le ?_
          rw [minValue_eq stats (by omega), minValue_eq stats (by omega)]
          exact ordered.lower_le (by omega) (by omega) (by omega)
        · rename_i notGreater
          rw [Bool.not_eq_true, greaterThan_eq_false_iff] at notGreater
          split
          · exact ih (by omega) (by omega) hhi notGreater behind
          · rename_i notLess
            rw [Bool.not_eq_true, lessThan_eq_false_iff] at notLess
            exact ⟨hmid, notGreater, Or.inl (le_antisymm notGreater notLess)⟩
      · have heq : lo = hi := by omega
        subst heq
        exact ⟨hhi, before, Or.inr behind⟩

theorem findLastIndexBeforePoint_spec {values : List Payload} (summary : stats.Summarises N values)
    (positive : 0 < N) (constant : Payload) :
    match stats.findLastIndexBeforePoint N constant with
    | none => constant.key < (stats.minValue 0).key
    | some index => LastBefore stats N constant index := by
  unfold findLastIndexBeforePoint
  by_cases greater : greaterThan (stats.minValue 0) constant = true
  · rw [if_pos greater]
    exact (greaterThan_iff _ _).mp greater
  · rw [if_neg greater]
    rw [Bool.not_eq_true, greaterThan_eq_false_iff] at greater
    exact bisect_spec summary.ordered summary.length (by omega) (Nat.zero_le _) (by omega)
      greater (fun next hnext bound => absurd bound (by omega))

namespace Summarises

variable {stats : ClusterAdditionalStats} {N : Nat} {values : List Payload}

section

variable (summary : stats.Summarises N values)
include summary

theorem min_le (positive : 0 < N) (member : value ∈ values) :
    (stats.minValue 0).key ≤ value.key := by
  have bound : 0 < stats.blocks.length := by rw [summary.length]; exact positive
  rw [minValue_eq stats bound]
  exact summary.ordered.first_le bound (summary.covers value member)

theorem le_max (positive : 0 < N) (member : value ∈ values) :
    value.key ≤ (stats.maxValue (N - 1)).key := by
  have length := summary.length
  rw [maxValue_eq stats (by omega)]
  exact summary.ordered.le_last (by omega) (by omega) (summary.covers value member)

/-- The block found for a point excludes what is from the point to the next block. -/
theorem excluded {point upper : Payload} (found : LastBefore stats N point index)
    (before : (stats.maxValue index).key < point.key)
    (behind : index < N - 1 → upper.key < (stats.minValue (index + 1)).key)
    (member : value ∈ values) : value.key < point.key ∨ upper.key < value.key := by
  have length := summary.length
  have bound : index < stats.blocks.length := by rw [length]; exact found.1
  rw [maxValue_eq stats bound] at before
  refine summary.ordered.excluded bound before (fun next hnext later => ?_)
    (summary.covers value member)
  have hstep := behind (by omega)
  rw [minValue_eq stats (by omega)] at hstep
  exact hstep.trans_le (summary.ordered.lower_le (by omega) (by omega) hnext)

/-- A point whose block ends before it lies between that block and the next one. -/
theorem next_behind {point : Payload} (found : LastBefore stats N point index)
    (before : (stats.maxValue index).key < point.key) (inside : index < N - 1) :
    point.key < (stats.minValue (index + 1)).key := by
  have length := summary.length
  have bound : index < stats.blocks.length := by rw [length]; exact found.1
  rcases found.2.2 with exact_start | later
  · have bounded := summary.ordered.bounded _ (List.getElem_mem bound)
    rw [← minValue_eq stats bound, ← maxValue_eq stats bound, exact_start] at bounded
    exact absurd before bounded.not_gt
  · exact later _ (Nat.lt_succ_self _) (by omega)

theorem queryEqual_sound (positive : 0 < N)
    (answer : stats.queryEqual N constant = .filterAlwaysFalse) :
    ∀ value ∈ values, value.key ≠ constant.key := by
  intro value member
  have spec := findLastIndexBeforePoint_spec summary positive constant
  unfold queryEqual at answer
  split at answer
  · rename_i hfound
    rw [hfound] at spec
    exact (spec.trans_le (summary.min_le positive member)).ne'
  · rename_i index hfound
    rw [hfound] at spec
    split at answer
    · cases answer
    · rename_i notGreater
      rw [Bool.not_eq_true, greaterThanEquals_eq_false_iff] at notGreater
      rcases summary.excluded spec notGreater (summary.next_behind spec notGreater) member with
        lt | gt
      · exact lt.ne
      · exact gt.ne'

theorem query_sound (positive : 0 < N) (comparison : ComparisonType) (constant : Payload) :
    QuerySound values comparison constant (stats.query N comparison constant) := by
  intro answer value member
  have least := summary.min_le positive member
  have greatest := summary.le_max positive member
  unfold query at answer
  split at answer
  · cases answer
  · cases comparison with
    | compareEqual | compareNotDistinctFrom =>
        simpa [ComparisonType.holds] using
          summary.queryEqual_sound positive answer value member
    | compareNotEqual | compareDistinctFrom =>
        simp only at answer
        split at answer
        · rename_i same
          rw [Bool.and_eq_true, equals_iff, equals_iff] at same
          have heq : value.key = constant.key :=
            le_antisymm (greatest.trans (same.1.ge.trans same.2.le)) (same.2.ge.trans least)
          simpa [ComparisonType.holds] using heq
        · cases answer
    | compareGreaterThan | compareGreaterThanOrEqualTo =>
        simp only at answer
        split at answer
        · cases answer
        · rename_i less
          rw [Bool.not_eq_true, greaterThanEquals_eq_false_iff] at less
          have hless := greatest.trans_lt less
          simp [ComparisonType.holds, hless, hless.le]
    | compareLessThan | compareLessThanOrEqualTo =>
        simp only at answer
        split at answer
        · cases answer
        · rename_i greater
          rw [Bool.not_eq_true, lessThanEquals_eq_false_iff] at greater
          have hgreater := greater.trans_le least
          simp [ComparisonType.holds, hgreater, hgreater.le]

theorem queryRange_sound (positive : 0 < N) (start finish : Payload) :
    RangeSound values start finish (stats.queryRange N start finish) := by
  rw [rangeSound_iff]
  intro answer value member
  have spec := findLastIndexBeforePoint_spec summary positive start
  unfold queryRange at answer
  split at answer
  · cases answer
  · split at answer
    · split at answer
      · rename_i greater
        rw [greaterThan_iff] at greater
        exact Or.inr (greater.trans_le (summary.min_le positive member))
      · cases answer
    · rename_i index hfound
      rw [hfound] at spec
      split at answer
      · cases answer
      · rename_i misses
        simp only [Bool.or_eq_true, Bool.and_eq_true, decide_eq_true_eq, not_or, not_and,
          Bool.not_eq_true, greaterThanEquals_eq_false_iff, lessThanEquals_eq_false_iff] at misses
        exact summary.excluded spec misses.1 misses.2 member

end

end Summarises

/-! ## The statistic built from a vector -/

theorem initialise_nil (runtime : Runtime) (type : PhysicalType) (N : Nat) :
    (initialise runtime type N []).inverted = true := by
  cases type <;> rfl

/-- Built from sorted data of one type, the statistic summarises that data. -/
theorem initialiseSorted_summarises (gap : Payload → Payload → Nat) (positive : 0 < N)
    (nonempty : sorted ≠ []) (ascending : sorted.Pairwise fun left right => left.key ≤ right.key)
    (typed : Homogeneous type sorted) :
    (initialiseSorted gap type N sorted).Summarises N sorted := by
  cases sorted with
  | nil => exact absurd rfl nonempty
  | cons front rest =>
      obtain ⟨ordered, covers⟩ := clusterBlocks_spec gap N typed ascending (Nat.succ_pos _)
      obtain ⟨block, member, -⟩ := covers front List.mem_cons_self
      exact ⟨length_fill (List.ne_nil_of_mem member) (length_clusterBlocks_le gap positive front),
        fill_ordered N ordered, fun value inside => fill_covers N (covers value inside)⟩

/-- What `std::sort` leaves of the data; equal values may come in any order. -/
structure IsSortOf (sorted data : List Payload) : Prop where
  perm : sorted.Perm data
  ordered : sorted.Pairwise inOrder

theorem sortValues_isSortOf (data : List Payload) : IsSortOf (sortValues data) data :=
  ⟨List.perm_insertionSort _ _, List.pairwise_insertionSort _ _⟩

theorem IsSortOf.summarises (gap : Payload → Payload → Nat) (positive : 0 < N)
    (sort : IsSortOf sorted data) (nonempty : data ≠ []) (typed : Homogeneous type data) :
    (initialiseSorted gap type N sorted).Summarises N data := by
  have sorted_nonempty : sorted ≠ [] := by
    rintro rfl
    exact nonempty sort.perm.symm.eq_nil
  have ascending : sorted.Pairwise fun left right => left.key ≤ right.key :=
    sort.ordered.imp fun ordered => by
      simpa only [inOrder, greaterThan_eq_false_iff] using ordered
  have summary := initialiseSorted_summarises gap positive sorted_nonempty ascending
    fun value member => typed value (sort.perm.mem_iff.mp member)
  exact ⟨summary.length, summary.ordered,
    fun value member => summary.covers value (sort.perm.mem_iff.mpr member)⟩

/-- Built from data of one type, the statistic summarises that data. -/
theorem initialise_summarises (runtime : Runtime) (positive : 0 < N) (nonempty : data ≠ [])
    (typed : Homogeneous type data) : (initialise runtime type N data).Summarises N data :=
  (sortValues_isSortOf data).summarises (Payload.gap runtime type) positive nonempty typed

section Sound

variable (runtime : Runtime) {type : PhysicalType} {N : Nat} {data : List Payload}

theorem query_initialise_sound (positive : 0 < N) (typed : Homogeneous type data)
    (comparison : ComparisonType) (constant : Payload) :
    QuerySound data comparison constant
      ((initialise runtime type N data).query N comparison constant) := by
  cases data with
  | nil => exact fun _ value member => absurd member List.not_mem_nil
  | cons head tail =>
      exact (initialise_summarises runtime positive (List.cons_ne_nil _ _) typed).query_sound
        positive comparison constant

theorem queryRange_initialise_sound (positive : 0 < N) (typed : Homogeneous type data)
    (start finish : Payload) :
    RangeSound data start finish ((initialise runtime type N data).queryRange N start finish) := by
  cases data with
  | nil => exact fun _ value member => absurd member List.not_mem_nil
  | cons head tail =>
      exact (initialise_summarises runtime positive (List.cons_ne_nil _ _) typed).queryRange_sound
        positive start finish

end Sound

/--
However the gaps are measured and equal values are sorted, the statistic excludes a
comparison or a range only if no value of the data satisfies it.
-/
theorem clusters_exclude_only_absent (gap : Payload → Payload → Nat) {type : PhysicalType}
    {N : Nat} (positive : 0 < N) {data sorted : List Payload} (typed : Homogeneous type data)
    (sort : IsSortOf sorted data) :
    (∀ comparison constant, QuerySound data comparison constant
      ((initialiseSorted gap type N sorted).query N comparison constant)) ∧
    ∀ start finish, RangeSound data start finish
      ((initialiseSorted gap type N sorted).queryRange N start finish) := by
  by_cases empty : data = []
  · subst empty
    constructor
    · exact fun _ _ _ value member => absurd member List.not_mem_nil
    · exact fun _ _ _ value member => absurd member List.not_mem_nil
  · have summary := sort.summarises gap positive empty typed
    exact ⟨summary.query_sound positive, summary.queryRange_sound positive⟩

/-- Five clusters over both zeros, both infinities and a NaN, the zeros in either order. -/
theorem clusters_exclude_only_absent_floats :
    (∀ comparison constant, QuerySound
      [.float 0x7fc00000, .float 0x80000000, .float 0xff800000, .float 0, .float 0x7f800000]
      comparison constant
      ((initialiseSorted (fun _ _ => 0) .float 5 [.float 0xff800000, .float 0, .float 0x80000000,
        .float 0x7f800000, .float 0x7fc00000]).query 5 comparison constant)) ∧
    ∀ start finish, RangeSound
      [.float 0x7fc00000, .float 0x80000000, .float 0xff800000, .float 0, .float 0x7f800000]
      start finish
      ((initialiseSorted (fun _ _ => 0) .float 5 [.float 0xff800000, .float 0, .float 0x80000000,
        .float 0x7f800000, .float 0x7fc00000]).queryRange 5 start finish) :=
  @clusters_exclude_only_absent (fun _ _ => 0) .float 5 (by decide) _ _ (by decide)
    ⟨by decide, by decide⟩

end ClusterAdditionalStats

end StatsRecommender
