import Mathlib.Data.List.GetD
import Mathlib.Data.List.Nodup
import StatsRecommender.Assigners.Dp

/-!
# The assignment is optimal

The table of `dp.py` is the value table of a multiple-choice knapsack whose weights are
the sizes above the empty statistic, and the backtracking follows that table back.
-/

namespace StatsRecommender

open MultipleChoice

namespace Dp

variable {width column : Nat} {tables : Tables} {partition : Partition} {statistic : Int}
  {stats : List Int} {before after : List Partition}

/-- Size of a statistic of a partition. -/
def Tables.sizeOf (tables : Tables) (partition : Partition) (statistic : Int) : Int :=
  (tables.sizes partition statistic).getD 0

/-- Pruning benefit of a statistic of a partition. -/
def Tables.benefitOf (tables : Tables) (partition : Partition) (statistic : Int) : Int :=
  (tables.pruning partition statistic).getD 0

/-- A statistic for each partition. -/
def Tables.Choice (tables : Tables) (choice : Partition → Int) : Prop :=
  ∀ partition ∈ tables.partitions, choice partition ∈ tables.stats

/-- What the script relies on about its input. -/
structure Reliable (tables : Tables) (budget : Int) : Prop where
  complete : ∀ partition ∈ tables.partitions, ∀ statistic ∈ tables.stats,
    ∃ size benefit, tables.sizes partition statistic = some size ∧
      tables.pruning partition statistic = some benefit ∧ tables.emptySize ≤ size ∧ 0 ≤ benefit
  empty : ∀ partition ∈ tables.partitions, tables.sizes partition 0 = some tables.emptySize
  fits : ∀ choice, tables.Choice choice →
    (tables.partitions.map fun partition =>
      tables.benefitOf partition (choice partition)).sum < 2 ^ 31
  affordable : tables.partitions.length * tables.emptySize ≤ budget

/-! ## One row -/

theorem toInt32_eq {value : Int} (low : 0 ≤ value) (high : value < 2 ^ 31) :
    toInt32 value = value := by
  apply Int.bmod_eq_of_le
  · omega
  · omega

/-- A shifted row without the columns that were shifted in. -/
theorem candidate_eq {f : Nat → Int} {benefit : Int} (size : Nat)
    (small : ∀ column < width, 0 ≤ f column + benefit ∧ f column + benefit < 2 ^ 31) :
    candidate ((List.range width).map f) benefit size =
      (List.range width).map fun column =>
        if size ≤ column then f (column - size) + benefit else 0 := by
  have last : (if (size : Int) < 0 then ((size : Int) + width).toNat
      else min (size : Int).toNat width) = min size width := by
    rw [if_neg (by omega), Int.toNat_natCast]
  unfold candidate zeroFill roll
  simp only [List.length_map, List.length_range, last]
  apply List.ext_getElem
  · simp
  · intro column left right
    have inside : column < width := by simpa using right
    rw [List.getElem_map, List.getElem_range, List.getElem_append]
    split
    · rename_i filled
      have below : ¬ size ≤ column := by
        rw [List.length_replicate] at filled
        omega
      rw [List.getElem_replicate, if_neg below]
    · rename_i kept
      have above : size ≤ column := by
        rw [List.length_replicate] at kept
        omega
      have shifted : ((column : Int) - size) % width = ((column - size : Nat) : Int) := by
        rw [Int.emod_eq_of_lt (by omega) (by omega), Int.ofNat_sub above]
      have source : column - size < width := by omega
      rw [if_pos above, List.getElem_drop, List.getElem_map, List.getElem_range,
        List.length_replicate, Nat.add_sub_cancel' (by omega), shifted, Int.toNat_natCast,
        List.getD_eq_getElem _ _ (by simpa using source), List.getElem_map, List.getElem_map,
        List.getElem_range]
      exact toInt32_eq (small _ source).1 (small _ source).2

/-- The keys of a partition are there, with sizes and benefits in natural terms. -/
structure Offers (tables : Tables) (partition : Partition) (stats : List Int)
    (weight : Int → Nat) (value : Int → Int) : Prop where
  size : ∀ statistic ∈ stats, tables.sizes partition statistic = some (weight statistic : Int)
  benefit : ∀ statistic ∈ stats, tables.pruning partition statistic = some (value statistic)

theorem Offers.tail {rest : List Int} {weight : Int → Nat} {value : Int → Int}
    (offers : Offers tables partition (statistic :: rest) weight value) :
    Offers tables partition rest weight value :=
  ⟨fun other member => offers.size other (List.mem_cons_of_mem _ member),
    fun other member => offers.benefit other (List.mem_cons_of_mem _ member)⟩

section Row

variable {tables : Tables} {partition : Partition} {weight : Int → Nat} {value : Int → Int}
  {width : Nat} {f : Nat → Int}

/-- The loop over the statistics takes the maximum of what was there and what each offers. -/
theorem nextRow_loop (offers : Offers tables partition stats weight value)
    (small : ∀ statistic ∈ stats, ∀ column < width,
      0 ≤ f column + value statistic ∧ f column + value statistic < 2 ^ 31) {g : Nat → Int}
    (nonneg : ∀ column, 0 ≤ g column) :
    stats.foldlM (fun row statistic => do
      let pruningPower ← tables.pruning partition statistic
      let size ← tables.sizes partition statistic
      return row.zipWith max (candidate ((List.range width).map f) pruningPower size))
      ((List.range width).map g) =
    some ((List.range width).map fun column => max (g column)
      (peak ((stats.filter fun statistic => decide (weight statistic ≤ column)).map
        fun statistic => f (column - weight statistic) + value statistic))) := by
  induction stats generalizing g with
  | nil =>
      simp only [List.foldlM_nil, List.filter_nil, List.map_nil]
      exact congrArg some (List.map_congr_left fun column _ => (max_eq_left (nonneg column)).symm)
  | cons statistic rest ih =>
      rw [List.foldlM_cons, offers.size statistic List.mem_cons_self,
        offers.benefit statistic List.mem_cons_self]
      dsimp only [bind, Option.bind, pure]
      rw [candidate_eq _ (small statistic List.mem_cons_self)]
      have zipped : ((List.range width).map g).zipWith max ((List.range width).map fun column =>
          if weight statistic ≤ column then f (column - weight statistic) + value statistic
          else 0) = (List.range width).map fun column => max (g column)
            (if weight statistic ≤ column then f (column - weight statistic) + value statistic
            else 0) := by
        rw [List.zipWith_map, List.zipWith_self]
      have step := ih offers.tail (fun other member => small other (List.mem_cons_of_mem _ member))
        (g := fun column => max (g column)
          (if weight statistic ≤ column then f (column - weight statistic) + value statistic
          else 0)) (fun column => (nonneg column).trans (le_max_left _ _))
      rw [zipped]
      refine step.trans (congrArg some (List.map_congr_left fun column _ => ?_))
      rw [max_assoc]
      by_cases fits : weight statistic ≤ column
      · rw [if_pos fits, List.filter_cons_of_pos (by simpa using fits), List.map_cons, peak_cons]
      · rw [if_neg fits, List.filter_cons_of_neg (by simpa using fits),
          max_eq_right (peak_nonneg _)]

theorem nextRow_eq (offers : Offers tables partition stats weight value)
    (small : ∀ statistic ∈ stats, ∀ column < width,
      0 ≤ f column + value statistic ∧ f column + value statistic < 2 ^ 31) :
    nextRow tables stats ((List.range width).map f) partition =
      some ((List.range width).map fun column =>
        peak ((stats.filter fun statistic => decide (weight statistic ≤ column)).map
          fun statistic => f (column - weight statistic) + value statistic)) := by
  have start : List.replicate ((List.range width).map f).length (0 : Int) =
      (List.range width).map fun _ => 0 := by simp
  rw [nextRow, start, nextRow_loop offers small fun _ => le_rfl]
  exact congrArg some (List.map_congr_left fun column _ => max_eq_right (peak_nonneg _))

end Row

/-! ## The input in terms of a knapsack -/

/-- Weight of a statistic: its size above the empty statistic. -/
def Tables.weight (tables : Tables) (partition : Partition) (statistic : Int) : Nat :=
  (tables.sizeOf partition statistic - tables.emptySize).toNat

namespace Reliable

variable {tables : Tables} {budget : Int}

section

variable (reliable : Reliable tables budget)
include reliable

theorem sizeOf_eq (known : partition ∈ tables.partitions) (listed : statistic ∈ tables.stats) :
    tables.sizeOf partition statistic =
      tables.emptySize + tables.weight partition statistic := by
  obtain ⟨size, benefit, hsize, -, least, -⟩ := reliable.complete partition known statistic listed
  simp only [Tables.weight, Tables.sizeOf, hsize, Option.getD_some]
  omega

theorem weight_empty (known : partition ∈ tables.partitions) : tables.weight partition 0 = 0 := by
  rw [Tables.weight, Tables.sizeOf, reliable.empty partition known, Option.getD_some, Int.sub_self]
  rfl

theorem benefitOf_nonneg (known : partition ∈ tables.partitions)
    (listed : statistic ∈ tables.stats) : 0 ≤ tables.benefitOf partition statistic := by
  obtain ⟨size, benefit, -, hbenefit, -, nonneg⟩ :=
    reliable.complete partition known statistic listed
  rwa [Tables.benefitOf, hbenefit]

theorem offers (order : Iteration tables) (known : partition ∈ tables.partitions) :
    Offers tables.reduced partition order.stats (tables.weight partition)
      (tables.benefitOf partition) := by
  constructor
  · intro statistic member
    obtain ⟨size, benefit, hsize, -, least, -⟩ :=
      reliable.complete partition known statistic (order.stats_perm.mem_iff.mp member)
    simp only [Tables.reduced, Tables.weight, Tables.sizeOf, hsize, Option.map_some,
      Option.getD_some, Option.some.injEq]
    omega
  · intro statistic member
    obtain ⟨size, benefit, -, hbenefit, -, -⟩ :=
      reliable.complete partition known statistic (order.stats_perm.mem_iff.mp member)
    simp only [Tables.reduced, Tables.benefitOf, hbenefit, Option.getD_some]

/-- The greatest benefits of all partitions fit together. -/
theorem sum_peak_lt (order : Iteration tables)
    (listed : ∀ partition ∈ tables.partitions, (0 : Int) ∈ tables.stats) :
    (order.partitions.map fun partition =>
      peak (order.stats.map (tables.benefitOf partition))).sum < 2 ^ 31 := by
  have attained : ∀ partition, ∃ statistic, partition ∈ tables.partitions →
      statistic ∈ tables.stats ∧ tables.benefitOf partition statistic =
        peak (order.stats.map (tables.benefitOf partition)) := by
    intro partition
    by_cases known : partition ∈ tables.partitions
    · have zero := listed partition known
      have inside := peak_mem (List.mem_map_of_mem (f := tables.benefitOf partition)
        (order.stats_perm.mem_iff.mpr zero)) (reliable.benefitOf_nonneg known zero)
      obtain ⟨statistic, member, same⟩ := List.mem_map.mp inside
      exact ⟨statistic, fun _ => ⟨order.stats_perm.mem_iff.mp member, same⟩⟩
    · exact ⟨0, fun inside => absurd inside known⟩
  choose choice greatest using attained
  have bound := reliable.fits choice fun partition known => (greatest partition known).1
  rw [(order.partitions_perm.map _).sum_eq]
  calc (tables.partitions.map fun partition =>
        peak (order.stats.map (tables.benefitOf partition))).sum
      = (tables.partitions.map fun partition =>
          tables.benefitOf partition (choice partition)).sum := by
        refine congrArg List.sum (List.map_congr_left fun partition known => ?_)
        exact (greatest partition known).2.symm
    _ < 2 ^ 31 := bound

end

end Reliable

section Script

variable {tables : Tables} {budget : Int} {order : Iteration tables}

/-- Row of the value table for partitions given last first. -/
def bestRow (tables : Tables) (order : Iteration tables) (width : Nat)
    (partitions : List Partition) : List Int :=
  (List.range width).map (best order.stats tables.weight tables.benefitOf partitions)

theorem getElem?_bestRow (order : Iteration tables) (inside : column < width)
    (partitions : List Partition) :
    (bestRow tables order width partitions)[column]? =
      some (best order.stats tables.weight tables.benefitOf partitions column) := by
  rw [bestRow, List.getElem?_map, List.getElem?_range inside, Option.map_some]

/-- The facts about the tables that the two passes rely on. -/
structure Sound (tables : Tables) (budget : Int) (order : Iteration tables) : Prop where
  reliable : Reliable tables budget
  listed : ∀ partition ∈ tables.partitions, (0 : Int) ∈ order.stats
  bounded : (order.partitions.map fun partition =>
    peak (order.stats.map (tables.benefitOf partition))).sum < 2 ^ 31

/-- Adding a benefit to an entry of earlier partitions stays a small number. -/
theorem Sound.small (sound : Sound tables budget order)
    (split : order.partitions = before.reverse ++ partition :: after)
    (member : statistic ∈ order.stats) (column : Nat) :
    0 ≤ best order.stats tables.weight tables.benefitOf before column +
        tables.benefitOf partition statistic ∧
      best order.stats tables.weight tables.benefitOf before column +
        tables.benefitOf partition statistic < 2 ^ 31 := by
  have known : partition ∈ tables.partitions := by
    rw [← order.partitions_perm.mem_iff, split]
    exact List.mem_append_right _ List.mem_cons_self
  have nonneg := sound.reliable.benefitOf_nonneg known (order.stats_perm.mem_iff.mp member)
  have earlier : 0 ≤ best order.stats tables.weight tables.benefitOf before column :=
    best_nonneg before column
  have upper : best order.stats tables.weight tables.benefitOf before column ≤
      (before.map fun partition => peak (order.stats.map (tables.benefitOf partition))).sum :=
    best_le_sum_peak before column
  have own := le_peak (List.mem_map_of_mem (f := tables.benefitOf partition) member)
  have bounded := sound.bounded
  have rest : 0 ≤ (after.map fun partition =>
      peak (order.stats.map (tables.benefitOf partition))).sum :=
    List.sum_nonneg fun value inside => by
      obtain ⟨other, -, rfl⟩ := List.mem_map.mp inside
      exact peak_nonneg _
  rw [split, List.map_append, List.sum_append, List.map_cons, List.sum_cons, List.map_reverse,
    List.sum_reverse] at bounded
  constructor
  · omega
  · omega

/-- The table holds the best benefit of the partitions read so far, for every budget. -/
theorem tableFrom_eq (sound : Sound tables budget order) (width : Nat)
    (split : order.partitions = before.reverse ++ after) :
    ∃ M, tableFrom tables.reduced order.stats (bestRow tables order width before) after = some M ∧
      M.length = after.length + 1 ∧
      ∀ position ≤ after.length, M[position]? =
        some (bestRow tables order width ((after.take position).reverse ++ before)) := by
  induction after generalizing before with
  | nil =>
      refine ⟨[bestRow tables order width before], rfl, rfl, ?_⟩
      intro position bound
      rw [Nat.le_zero.mp bound]
      rfl
  | cons partition rest ih =>
      have known : partition ∈ tables.partitions := by
        rw [← order.partitions_perm.mem_iff, split]
        exact List.mem_append_right _ List.mem_cons_self
      have step : nextRow tables.reduced order.stats (bestRow tables order width before)
          partition = some (bestRow tables order width (partition :: before)) :=
        nextRow_eq (sound.reliable.offers order known)
          fun statistic member column _ => sound.small split member column
      have later : order.partitions = (partition :: before).reverse ++ rest := by simp [split]
      obtain ⟨M, computed, length, rows⟩ := ih later
      refine ⟨bestRow tables order width before :: M, ?_, by simp [length], ?_⟩
      · rw [tableFrom, step]
        dsimp only [bind, Option.bind, pure]
        rw [computed]
      · intro position bound
        cases position with
        | zero => rfl
        | succ position =>
            rw [List.getElem?_cons_succ, rows position (by simpa using bound)]
            simp

/-! ## The backtracking -/

theorem entry_bestRow (order : Iteration tables) (inside : column < width)
    (partitions : List Partition) :
    entry (bestRow tables order width partitions) column =
      some (best order.stats tables.weight tables.benefitOf partitions column) := by
  rw [entry, if_pos (Int.natCast_nonneg _), Int.toNat_natCast, getElem?_bestRow order inside]

/-- The search finds a statistic that explains the entry as soon as there is one. -/
theorem explain_eq (sound : Sound tables budget order)
    (split : order.partitions = before.reverse ++ partition :: after) (inside : column < width)
    (subset : ∀ statistic ∈ stats,
      statistic ∈ order.stats)
    (explained : ∃ statistic ∈ stats, tables.weight partition statistic ≤ column ∧
      best order.stats tables.weight tables.benefitOf (partition :: before) column =
        best order.stats tables.weight tables.benefitOf before
          (column - tables.weight partition statistic) + tables.benefitOf partition statistic) :
    ∃ statistic ∈ stats, explain tables.reduced partition
        (bestRow tables order width (partition :: before)) (bestRow tables order width before)
        column stats = some (some (statistic, (tables.weight partition statistic : Int))) ∧
      tables.weight partition statistic ≤ column ∧
      best order.stats tables.weight tables.benefitOf (partition :: before) column =
        best order.stats tables.weight tables.benefitOf before
          (column - tables.weight partition statistic) + tables.benefitOf partition statistic := by
  have known : partition ∈ tables.partitions := by
    rw [← order.partitions_perm.mem_iff, split]
    exact List.mem_append_right _ List.mem_cons_self
  have offers := sound.reliable.offers order known
  induction stats with
  | nil =>
      obtain ⟨statistic, member, -⟩ := explained
      exact absurd member List.not_mem_nil
  | cons statistic rest ih =>
      have listed := subset statistic List.mem_cons_self
      have passes : (¬ (tables.weight partition statistic ≤ column ∧
          best order.stats tables.weight tables.benefitOf (partition :: before) column =
            best order.stats tables.weight tables.benefitOf before
              (column - tables.weight partition statistic) +
            tables.benefitOf partition statistic)) →
          ∃ other ∈ rest, tables.weight partition other ≤ column ∧
            best order.stats tables.weight tables.benefitOf (partition :: before) column =
              best order.stats tables.weight tables.benefitOf before
                (column - tables.weight partition other) + tables.benefitOf partition other := by
        intro fails
        obtain ⟨other, member, fact⟩ := explained
        rcases List.mem_cons.mp member with rfl | later
        · exact absurd fact fails
        · exact ⟨other, later, fact⟩
      rw [explain, offers.benefit statistic listed, offers.size statistic listed]
      dsimp only [bind, Option.bind, pure]
      by_cases fits : tables.weight partition statistic ≤ column
      · have shift : (column : Int) - tables.weight partition statistic =
            ((column - tables.weight partition statistic : Nat) : Int) :=
          (Int.ofNat_sub fits).symm
        have range := sound.small split listed (column - tables.weight partition statistic)
        rw [if_pos (by exact_mod_cast fits), shift, entry_bestRow order inside,
          entry_bestRow order (by omega)]
        dsimp only
        rw [toInt32_eq range.1 range.2]
        by_cases same : best order.stats tables.weight tables.benefitOf (partition :: before)
            column = best order.stats tables.weight tables.benefitOf before
              (column - tables.weight partition statistic) + tables.benefitOf partition statistic
        · rw [if_pos same]
          exact ⟨statistic, List.mem_cons_self, rfl, fits, same⟩
        · rw [if_neg same]
          obtain ⟨other, member, found⟩ := ih
            (fun next inside => subset next (List.mem_cons_of_mem _ inside))
            (passes fun both => same both.2)
          exact ⟨other, List.mem_cons_of_mem _ member, found⟩
      · rw [if_neg (by exact_mod_cast fits)]
        obtain ⟨other, member, found⟩ := ih
          (fun next inside => subset next (List.mem_cons_of_mem _ inside))
          (passes fun both => fits both.1)
        exact ⟨other, List.mem_cons_of_mem _ member, found⟩

/-- The backtracking follows the value table back through every partition. -/
theorem backtrack_eq (sound : Sound tables budget order) {M : List (List Int)}
    (rows : ∀ position ≤ order.partitions.length, M[position]? =
      some (bestRow tables order width (order.partitions.take position).reverse)) {position : Nat}
    (bound : position ≤ order.partitions.length) (inside : column < width) :
    ∃ assignment, backtrack tables order M position column = some assignment ∧
      assignment.map Prod.fst = (order.partitions.take position).reverse ∧
      Traces order.stats tables.weight tables.benefitOf
        (order.partitions.take position).reverse column (assignment.map Prod.snd) := by
  induction position generalizing column with
  | zero => exact ⟨[], rfl, rfl, .nil column⟩
  | succ position ih =>
      have here : position < order.partitions.length := bound
      have taken : (order.partitions.take (position + 1)).reverse =
          order.partitions[position] :: (order.partitions.take position).reverse := by
        rw [List.take_succ_eq_append_getElem here, List.reverse_append, List.reverse_singleton,
          List.singleton_append]
      have split : order.partitions = (order.partitions.take position).reverse.reverse ++
          order.partitions[position] :: order.partitions.drop (position + 1) := by
        rw [List.reverse_reverse, List.getElem_cons_drop, List.take_append_drop]
      have known : order.partitions[position] ∈ tables.partitions :=
        order.partitions_perm.mem_iff.mp (List.getElem_mem here)
      have listed := sound.listed _ known
      have attained := @exists_option _ _ order.stats tables.weight tables.benefitOf _ _ listed
        (sound.reliable.weight_empty known)
        (sound.reliable.benefitOf_nonneg known (order.stats_perm.mem_iff.mp listed))
        (order.partitions.take position).reverse column
      obtain ⟨statistic, member, found, fits, step⟩ :=
        explain_eq sound split inside (fun _ inside => inside) attained
      obtain ⟨rest, computed, keys, traces⟩ :=
        ih (by omega) (show column - tables.weight order.partitions[position] statistic < width
          by omega)
      have shift : (column : Int) - tables.weight order.partitions[position] statistic =
          ((column - tables.weight order.partitions[position] statistic : Nat) : Int) :=
        (Int.ofNat_sub fits).symm
      refine ⟨(order.partitions[position], statistic) :: rest, ?_, ?_, ?_⟩
      · rw [backtrack, List.getElem?_eq_getElem here, rows _ bound, rows _ (by omega), taken]
        dsimp only [bind, Option.bind, pure]
        rw [found]
        dsimp only
        rw [shift, computed]
      · rw [taken, List.map_cons, keys]
      · rw [taken, List.map_cons]
        exact .cons member fits step traces

/-! ## The script -/

theorem argmax_eq (row : List Int) (nonempty : row ≠ []) :
    ∃ start greatest, argmax row = some start ∧ row[start]? = some greatest ∧
      ∀ value ∈ row, value ≤ greatest := by
  obtain ⟨greatest, hmax⟩ := Option.isSome_iff_exists.mp (List.isSome_max?_of_ne_nil nonempty)
  obtain ⟨member, bounds⟩ := List.max?_eq_some_iff.mp hmax
  obtain ⟨start, hstart⟩ := Option.isSome_iff_exists.mp
    ((List.isSome_idxOf? (l := row)).mpr member)
  obtain ⟨inside, same, -⟩ := List.idxOf?_eq_some_iff.mp hstart
  refine ⟨start, greatest, ?_, ?_, bounds⟩
  · rw [argmax, hmax]
    exact hstart
  · rw [List.getElem?_eq_getElem inside, same]

end Script

/-- The loop over the lines lists every statistic and every partition, each once. -/
structure Loaded (tables : Tables) : Prop where
  listed : ∀ partition statistic size, tables.sizes partition statistic = some size →
    statistic ∈ tables.stats
  nodup : tables.partitions.Nodup

theorem Loaded.add (loaded : Loaded tables) (line : Line) : Loaded (tables.add line) := by
  constructor
  · intro partition statistic size found
    simp only [Tables.add] at found ⊢
    split at found
    · rename_i same
      rw [same.2]
      exact List.mem_insert_self
    · exact List.mem_insert_of_mem (loaded.listed partition statistic size found)
  · exact List.Nodup.insert loaded.nodup

theorem loaded_load (lines : List Line) : Loaded (load lines) := by
  have all : ∀ tables, Loaded tables → Loaded (lines.foldl Tables.add tables) := by
    induction lines with
    | nil => exact fun _ loaded => loaded
    | cons line rest ih => exact fun tables loaded => ih _ (loaded.add line)
  exact all _ ⟨fun _ _ _ found => (by cases found), List.nodup_nil⟩

/-- An assignment of one statistic to every partition that no other one within the budget beats. -/
structure Optimal (tables : Tables) (budget : Int) (assignment : List (Partition × Int)) :
    Prop where
  partitions : (assignment.map Prod.fst).Perm tables.partitions
  nodup : (assignment.map Prod.fst).Nodup
  statistics : ∀ pair ∈ assignment, pair.2 ∈ tables.stats
  within : (assignment.map fun pair => tables.sizeOf pair.1 pair.2).sum ≤ budget
  greatest : ∀ choice, tables.Choice choice →
    (tables.partitions.map fun partition =>
      tables.sizeOf partition (choice partition)).sum ≤ budget →
    (tables.partitions.map fun partition =>
      tables.benefitOf partition (choice partition)).sum ≤
      (assignment.map fun pair => tables.benefitOf pair.1 pair.2).sum

theorem total_map {M : Type} [Add M] [Zero M] (quantity : Partition → Int → M)
    (assignment : List (Partition × Int)) :
    total quantity (assignment.map Prod.fst) (assignment.map Prod.snd) =
      (assignment.map fun pair => quantity pair.1 pair.2).sum := by
  rw [total, List.zipWith_map, List.zipWith_self]

theorem total_choice {M : Type} [Add M] [Zero M] (quantity : Partition → Int → M)
    (choice : Partition → Int) (partitions : List Partition) :
    total quantity partitions (partitions.map choice) =
      (partitions.map fun partition => quantity partition (choice partition)).sum := by
  rw [total, List.zipWith_map_right, List.zipWith_self]

/-- Sizes are the empty statistic for each partition and the weights. -/
theorem sum_sizeOf {budget : Int} (reliable : Reliable tables budget)
    {assignment : List (Partition × Int)} (known : ∀ pair ∈ assignment,
      pair.1 ∈ tables.partitions ∧ pair.2 ∈ tables.stats) :
    (assignment.map fun pair => tables.sizeOf pair.1 pair.2).sum =
      assignment.length * tables.emptySize +
        ((assignment.map fun pair => tables.weight pair.1 pair.2).sum : Nat) := by
  induction assignment with
  | nil => simp
  | cons pair rest ih =>
      have here := known pair List.mem_cons_self
      rw [List.map_cons, List.sum_cons, ih fun other member =>
        known other (List.mem_cons_of_mem _ member), reliable.sizeOf_eq here.1 here.2,
        List.map_cons, List.sum_cons, List.length_cons]
      push_cast
      rw [Int.add_mul, Int.one_mul]
      omega

/-- On reliable input the script assigns every partition a statistic, optimally. -/
theorem run_assigns_optimally (lines : List Line) (order : Iteration (load lines)) (budget : Int)
    (reliable : Reliable (load lines) budget) :
    ∃ assignment, run lines order budget = some assignment ∧
      Optimal (load lines) budget assignment := by
  have loaded := loaded_load lines
  have listed : ∀ partition ∈ (load lines).partitions, (0 : Int) ∈ (load lines).stats :=
    fun partition known => loaded.listed _ _ _ (reliable.empty partition known)
  have sound : Sound (load lines) budget order :=
    ⟨reliable, fun partition known => order.stats_perm.mem_iff.mpr (listed partition known),
      reliable.sum_peak_lt order listed⟩
  have count : order.partitions.length = (load lines).partitions.length :=
    order.partitions_perm.length_eq
  have affordable := reliable.affordable
  obtain ⟨capacity, hcapacity⟩ : ∃ capacity : Nat,
      budget - order.partitions.length * (load lines).emptySize = capacity :=
    ⟨(budget - order.partitions.length * (load lines).emptySize).toNat, by rw [count]; omega⟩
  obtain ⟨M, computed, length, rows⟩ :=
    tableFrom_eq sound (capacity + 1) (show order.partitions = ([] : List Partition).reverse ++
      order.partitions from rfl)
  simp only [List.append_nil] at rows
  have first : List.replicate (capacity + 1) (0 : Int) =
      bestRow (load lines) order (capacity + 1) [] := by simp [bestRow, best]
  have last : M.getLast? = some (bestRow (load lines) order (capacity + 1)
      order.partitions.reverse) := by
    rw [List.getLast?_eq_getElem?, length, Nat.add_sub_cancel, rows _ le_rfl, List.take_length]
  obtain ⟨start, greatest, hstart, hgreatest, bounds⟩ := argmax_eq
    (bestRow (load lines) order (capacity + 1) order.partitions.reverse) (by simp [bestRow])
  have inside : start < capacity + 1 := by
    have bound := (List.getElem?_eq_some_iff.mp hgreatest).1
    simpa [bestRow] using bound
  rw [getElem?_bestRow order inside, Option.some.injEq] at hgreatest
  obtain ⟨assignment, traced, keys, traces⟩ := backtrack_eq sound rows le_rfl inside
  rw [List.take_length] at keys traces
  obtain ⟨selection, within, collected⟩ := traces.spec
  rw [← keys, total_map] at within
  rw [hgreatest, ← keys, total_map] at collected
  have perm : (assignment.map Prod.fst).Perm (load lines).partitions := by
    rw [keys]
    exact (List.reverse_perm _).trans order.partitions_perm
  have statistics : ∀ pair ∈ assignment, pair.2 ∈ (load lines).stats := fun pair member =>
    order.stats_perm.mem_iff.mp (selection.options _ (List.mem_map_of_mem member))
  have pairs : assignment.length = order.partitions.length := by
    rw [count, ← perm.length_eq, List.length_map]
  refine ⟨assignment, ?_, perm, perm.nodup_iff.mpr loaded.nodup, statistics, ?_, ?_⟩
  · have width : budget - order.partitions.length * (load lines).emptySize + 1 =
        ((capacity + 1 : Nat) : Int) := by omega
    simp only [run]
    rw [width, if_neg (by omega), Int.toNat_natCast, first, computed]
    dsimp only [bind, Option.bind]
    rw [last]
    dsimp only
    rw [hstart]
    exact traced
  · rw [sum_sizeOf reliable fun pair member =>
      ⟨perm.mem_iff.mp (List.mem_map_of_mem member), statistics pair member⟩, pairs]
    omega
  · intro choice valid affordable_choice
    have known : ∀ pair ∈ (load lines).partitions.map fun partition =>
        (partition, choice partition),
        pair.1 ∈ (load lines).partitions ∧ pair.2 ∈ (load lines).stats := by
      intro pair member
      obtain ⟨partition, inside, rfl⟩ := List.mem_map.mp member
      exact ⟨inside, valid partition inside⟩
    have size := sum_sizeOf reliable known
    simp only [List.map_map, Function.comp_def, List.length_map] at size
    have reversed : order.partitions.reverse.Perm (load lines).partitions :=
      (List.reverse_perm _).trans order.partitions_perm
    have chosen : Selection order.stats order.partitions.reverse
        (order.partitions.reverse.map choice) := by
      constructor
      · rw [List.length_map]
      · intro statistic member
        obtain ⟨partition, inside, rfl⟩ := List.mem_map.mp member
        exact order.stats_perm.mem_iff.mpr (valid partition (reversed.mem_iff.mp inside))
    have light : total (load lines).weight order.partitions.reverse
        (order.partitions.reverse.map choice) ≤ capacity := by
      rw [total_choice, (reversed.map _).sum_eq]
      rw [count] at hcapacity
      omega
    have worth : total (load lines).benefitOf order.partitions.reverse
        (order.partitions.reverse.map choice) ≤ best order.stats (load lines).weight
          (load lines).benefitOf order.partitions.reverse capacity :=
      total_le_best chosen light
    rw [total_choice, (reversed.map _).sum_eq] at worth
    have column : best order.stats (load lines).weight (load lines).benefitOf
        order.partitions.reverse capacity ≤ greatest :=
      bounds _ (List.mem_of_getElem? (getElem?_bestRow order (Nat.lt_succ_self capacity) _))
    omega

/-- Two partitions, each with the empty statistic and a larger one. -/
def twoPartitions : List Line :=
  [⟨"t", 0, 0, 0, 8, 0⟩, ⟨"t", 0, 0, 1, 40, 7⟩, ⟨"t", 1, 0, 0, 8, 0⟩, ⟨"t", 1, 0, 1, 24, 5⟩]

theorem run_assigns_optimally_two :
    ∃ assignment, run twoPartitions ⟨[("t", 0, 0), ("t", 1, 0)], [0, 1], by decide, by decide⟩ 50 =
        some assignment ∧
      Optimal (load twoPartitions) 50 assignment := by
  refine run_assigns_optimally twoPartitions _ 50 ⟨?_, ?_, ?_, ?_⟩
  · have rows : ∀ partition ∈ (load twoPartitions).partitions,
        ∀ statistic ∈ (load twoPartitions).stats,
          ((load twoPartitions).sizes partition statistic).any (8 ≤ ·) ∧
          ((load twoPartitions).pruning partition statistic).any (0 ≤ ·) := by decide
    intro partition known statistic listed
    obtain ⟨large, useful⟩ := rows partition known statistic listed
    obtain ⟨size, hsize, least⟩ := (Option.any_eq_true _ _).mp large
    obtain ⟨benefit, hbenefit, nonneg⟩ := (Option.any_eq_true _ _).mp useful
    exact ⟨size, benefit, hsize, hbenefit, of_decide_eq_true least, of_decide_eq_true nonneg⟩
  · decide
  · have small : ∀ partition ∈ (load twoPartitions).partitions,
        ∀ statistic ∈ (load twoPartitions).stats,
          (load twoPartitions).benefitOf partition statistic ≤ 7 := by decide
    intro choice valid
    have first := small ("t", 0, 0) (by decide) _ (valid ("t", 0, 0) (by decide))
    have second := small ("t", 1, 0) (by decide) _ (valid ("t", 1, 0) (by decide))
    change (load twoPartitions).benefitOf ("t", 1, 0) (choice ("t", 1, 0)) +
      ((load twoPartitions).benefitOf ("t", 0, 0) (choice ("t", 0, 0)) + 0) < 2 ^ 31
    omega
  · decide

example : run twoPartitions ⟨[("t", 0, 0), ("t", 1, 0)], [0, 1], by decide, by decide⟩ 50 =
    some [(("t", 1, 0), 0), (("t", 0, 0), 1)] := by decide +kernel

end Dp

end StatsRecommender
