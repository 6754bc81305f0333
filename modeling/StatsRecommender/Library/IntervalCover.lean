import Mathlib.Algebra.Order.BigOperators.Group.List
import Mathlib.Data.List.Perm.Subperm
import StatsRecommender.Library.BlockCover

/-!
# Narrow interval covers

Sorted points are covered by a bounded number of closed intervals.  A cover of `k`
intervals leaves at most `k - 1` of the differences between neighbours uncovered, so
cutting at the greatest differences is the narrowest cover.
-/

namespace IntervalCover

variable {left right intervals others : List (Int × Int)} {points rest : List Int}
  {interval : Int × Int} {cuts : List Nat}

open BlockCover

/-- The distances between neighbours. -/
def differences (points : List Int) : List Int :=
  points.zipWith (fun left right => right - left) points.tail

/-- The sum of the widths of the intervals. -/
def width (intervals : List (Int × Int)) : Int :=
  (intervals.map fun interval => interval.2 - interval.1).sum

/-- Intervals that are not inverted and together contain all the points. -/
structure IsCover (intervals : List (Int × Int)) (points : List Int) : Prop where
  proper : ∀ interval ∈ intervals, interval.1 ≤ interval.2
  covers : ∀ point ∈ points, Covers id intervals point

@[simp]
theorem width_cons (interval : Int × Int) (rest : List (Int × Int)) :
    width (interval :: rest) = interval.2 - interval.1 + width rest := rfl

theorem width_perm (perm : left.Perm right) :
    width left = width right :=
  (perm.map _).sum_eq

theorem IsCover.perm (cover : IsCover left points) (perm : left.Perm right) :
    IsCover right points := by
  constructor
  · exact fun interval member => cover.proper interval (perm.mem_iff.mpr member)
  · intro point inside
    obtain ⟨interval, member, bounds⟩ := cover.covers point inside
    exact ⟨interval, perm.mem_iff.mp member, bounds⟩

theorem IsCover.width_nonneg (cover : IsCover intervals points) : 0 ≤ width intervals := by
  refine List.sum_nonneg fun value member => ?_
  obtain ⟨interval, inside, rfl⟩ := List.mem_map.mp member
  have proper := cover.proper interval inside
  omega

/-- An interval that reaches from the first point over the second may start at the second. -/
theorem IsCover.shrink {first second : Int} (sorted : (second :: rest).Pairwise (· ≤ ·))
    (cover : IsCover (interval :: others) (first :: second :: rest))
    (reaches : second ≤ interval.2) :
    IsCover ((second, interval.2) :: others) (second :: rest) := by
  constructor
  · intro other member
    rcases List.mem_cons.mp member with rfl | later
    · exact reaches
    · exact cover.proper other (List.mem_cons_of_mem _ later)
  · intro point inside
    obtain ⟨other, member, low, high⟩ := cover.covers point (List.mem_cons_of_mem _ inside)
    rcases List.mem_cons.mp member with rfl | later
    · refine ⟨_, List.mem_cons_self, ?_, high⟩
      rcases List.mem_cons.mp inside with rfl | behind
      · exact le_rfl
      · exact (List.pairwise_cons.mp sorted).1 point behind
    · exact ⟨other, List.mem_cons_of_mem _ later, low, high⟩

/-- An interval that ends before the second point is of no use to it or any later point. -/
theorem IsCover.drop {first second : Int} (sorted : (second :: rest).Pairwise (· ≤ ·))
    (cover : IsCover (interval :: others) (first :: second :: rest)) (ends : interval.2 < second) :
    IsCover others (second :: rest) := by
  constructor
  · exact fun other member => cover.proper other (List.mem_cons_of_mem _ member)
  · intro point inside
    obtain ⟨other, member, low, high⟩ := cover.covers point (List.mem_cons_of_mem _ inside)
    have behind : second ≤ point := by
      rcases List.mem_cons.mp inside with rfl | later
      · exact le_rfl
      · exact (List.pairwise_cons.mp sorted).1 point later
    rcases List.mem_cons.mp member with rfl | later
    · exact absurd (behind.trans high) (not_le.mpr ends)
    · exact ⟨other, later, low, high⟩

/-- A cover is as wide as all differences but fewer of them than it has intervals. -/
theorem exists_dropped (nonempty : points ≠ []) (sorted : points.Pairwise (· ≤ ·))
    (cover : IsCover intervals points) :
    ∃ dropped : List Int, dropped.Sublist (differences points) ∧ dropped.length < intervals.length ∧
      (differences points).sum - dropped.sum ≤ width intervals := by
  induction points generalizing intervals with
  | nil => exact absurd rfl nonempty
  | cons first tail ih =>
      obtain ⟨interval, member, low, -⟩ := cover.covers first List.mem_cons_self
      have perm := List.perm_cons_erase member
      generalize intervals.erase interval = others at perm
      have cover := cover.perm perm
      rw [perm.length_eq, width_perm perm]
      cases tail with
      | nil =>
          refine ⟨[], List.nil_sublist _, Nat.succ_pos _, ?_⟩
          simpa [differences] using cover.width_nonneg
      | cons second rest =>
          have tail_sorted := (List.pairwise_cons.mp sorted).2
          have step : differences (first :: second :: rest) =
              (second - first) :: differences (second :: rest) := rfl
          rcases Int.lt_or_le interval.2 second with ends | reaches
          · -- the difference is uncovered and the interval is used up
            obtain ⟨dropped, sublist, fewer, bound⟩ :=
              ih (List.cons_ne_nil _ _) tail_sorted (cover.drop tail_sorted ends)
            refine ⟨(second - first) :: dropped, step ▸ sublist.cons_cons _, ?_, ?_⟩
            · exact Nat.succ_lt_succ fewer
            · have proper := cover.proper interval List.mem_cons_self
              simp only [step, List.sum_cons, width_cons]
              omega
          · -- the difference is covered by the interval
            obtain ⟨dropped, sublist, fewer, bound⟩ :=
              ih (List.cons_ne_nil _ _) tail_sorted (cover.shrink tail_sorted reaches)
            refine ⟨dropped, step ▸ sublist.cons _, fewer, ?_⟩
            simp only [id] at low
            simp only [step, List.sum_cons, width_cons] at bound ⊢
            omega

/-! ## The greatest differences -/

/-- Of a descending list of numbers no others sum up to more than as many first ones. -/
theorem sum_le_sum_take {values : List Int} (descending : values.Pairwise (· ≥ ·))
    (nonneg : ∀ value ∈ values, 0 ≤ value) {chosen : List Int} (subperm : chosen.Subperm values)
    {count : Nat} (few : chosen.length ≤ count) : chosen.sum ≤ (values.take count).sum := by
  induction values generalizing chosen count with
  | nil =>
      rw [List.subperm_nil.mp subperm, List.take_nil]
  | cons greatest rest ih =>
      have taken : 0 ≤ ((greatest :: rest).take count).sum :=
        List.sum_nonneg fun value member => nonneg value (List.mem_of_mem_take member)
      cases chosen with
      | nil => exact taken
      | cons head tail =>
          obtain ⟨value, others, perm, le, within⟩ : ∃ value others,
              (head :: tail).Perm (value :: others) ∧ value ≤ greatest ∧ others.Subperm rest := by
            obtain ⟨listed, perm, sublist⟩ := subperm
            cases sublist with
            | cons _ later =>
                have within := perm.symm.subperm.trans later.subperm
                refine ⟨head, tail, List.Perm.refl _, ?_,
                  (List.sublist_cons_self _ _).subperm.trans within⟩
                exact (List.pairwise_cons.mp descending).1 head
                  (within.subset List.mem_cons_self)
            | cons_cons _ later => exact ⟨greatest, _, perm.symm, le_rfl, later.subperm⟩
          cases count with
          | zero => simp at few
          | succ count =>
              rw [perm.sum_eq, List.sum_cons, List.take_succ_cons, List.sum_cons]
              have bound := ih (List.pairwise_cons.mp descending).2
                (fun value member => nonneg value (List.mem_cons_of_mem _ member)) within
                (show others.length ≤ count by
                  have := perm.length_eq
                  simp only [List.length_cons] at this few
                  omega)
              omega

/-! ## Cut points -/

/-- The difference behind a position. -/
def step (points : List Int) (index : Nat) : Int :=
  points.getD (index + 1) 0 - points.getD index 0

theorem step_eq {index : Nat} (bound : index + 1 < points.length) :
    step points index = points[index + 1] - points[index] := by
  rw [step, List.getD_eq_getElem _ _ bound, List.getD_eq_getElem _ _ (Nat.lt_of_succ_lt bound)]

/-- The differences add up to the distance of the ends. -/
theorem sum_differences (first : Int) (rest : List Int) :
    (differences (first :: rest)).sum = (first :: rest).getLastD 0 - first := by
  induction rest generalizing first with
  | nil => simp [differences]
  | cons second rest ih =>
      have split : differences (first :: second :: rest) =
          (second - first) :: differences (second :: rest) := rfl
      rw [split, List.sum_cons, ih second]
      simp only [List.getLastD_cons]
      omega

/-- A cut vector is as wide as the whole without the differences at the cuts. -/
theorem width_cut {first : Nat} (bound : first < points.length)
    (valid : Cuts points.length first cuts) :
    width (cut points points[first] cuts) =
      points.getLastD 0 - points[first] - (cuts.map (step points)).sum := by
  induction cuts generalizing first with
  | nil =>
      have nonempty : points ≠ [] := List.ne_nil_of_length_pos (by omega)
      simp [cut, width, List.getLastD_eq_getLast?, List.getLast?_eq_some_getLast nonempty]
  | cons index rest ih =>
      have next : index + 1 < points.length := (valid.2 index List.mem_cons_self).2
      rw [cut, List.getD_eq_getElem _ _ next, List.getD_eq_getElem _ _ (by omega), width_cons,
        ih next valid.tail, List.map_cons, List.sum_cons, step_eq next]
      omega

/-- Cuts at positions where the points differ leave disjoint intervals. -/
theorem cut_disjoint (sorted : points.Pairwise (· ≤ ·)) {first : Nat}
    (bound : first < points.length) (valid : Cuts points.length first cuts)
    (apart : ∀ index ∈ cuts, 0 < step points index) :
    (cut points points[first] cuts).Pairwise fun left right => left.2 < right.1 := by
  induction cuts generalizing first with
  | nil => exact List.pairwise_singleton _ _
  | cons index rest ih =>
      have next : index + 1 < points.length := (valid.2 index List.mem_cons_self).2
      have here := apart index List.mem_cons_self
      rw [step_eq next] at here
      rw [cut, List.getD_eq_getElem _ _ next, List.getD_eq_getElem _ _ (by omega)]
      refine List.pairwise_cons.mpr ⟨fun block member => ?_, ih next valid.tail fun later inside =>
        apart later (List.mem_cons_of_mem _ inside)⟩
      have low : points[index + 1] ≤ block.1 := (@cut_bounds _ _ _ id _ sorted _ next _ valid.tail
        block member).1
      omega

/-- Cuts that no other few differences outweigh make the narrowest cover. -/
theorem width_cut_le {points : List Int} (sorted : points.Pairwise (· ≤ ·))
    (bound : 0 < points.length) {cuts : List Nat} (valid : Cuts points.length 0 cuts) {count : Nat}
    (greedy : ∀ dropped : List Int, dropped.Sublist (differences points) →
      dropped.length ≤ count → dropped.sum ≤ (cuts.map (step points)).sum)
    {intervals : List (Int × Int)} (cover : IsCover intervals points)
    (few : intervals.length ≤ count + 1) :
    width (cut points points[0] cuts) ≤ width intervals := by
  cases points with
  | nil => cases bound
  | cons first rest =>
      obtain ⟨dropped, sublist, fewer, least⟩ :=
        exists_dropped (List.cons_ne_nil _ _) sorted cover
      have outweighed := greedy dropped sublist (by omega)
      rw [sum_differences] at least
      rw [width_cut bound valid, List.getElem_cons_zero]
      omega

end IntervalCover
