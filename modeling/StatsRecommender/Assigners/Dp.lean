import Mathlib.Data.List.Range
import Mathlib.Data.List.Infix
import StatsRecommender.Library.MultipleChoice

/-!
# The assigner by dynamic programming

`dp.py`: every partition gets one of the measured statistics so that the sizes stay within
a budget and the pruning benefits add up to the most.  Row `i` of the table `M` holds the
best benefit of the first `i` partitions for every budget.
-/

namespace StatsRecommender

open MultipleChoice

namespace Dp

/-- A line of the input file behind the header, split at the commas. -/
structure Line where
  tableName : String
  rowgroup : Int
  col : Int
  statistic : Int
  size : Int
  pruningPower : Int
  deriving DecidableEq, Repr

abbrev Partition := String × Int × Int

def Line.partition (line : Line) : Partition := (line.tableName, line.rowgroup, line.col)

/-- The globals `sizes`, `pruning`, `partitions`, `stats` and `EMPTY_SIZE`. -/
structure Tables where
  sizes : Partition → Int → Option Int
  pruning : Partition → Int → Option Int
  partitions : List Partition
  stats : List Int
  emptySize : Int

/-- The globals before the first line. -/
def Tables.empty : Tables := ⟨fun _ _ => none, fun _ _ => none, [], [], 0⟩

/-- The body of the loop over the lines. -/
def Tables.add (tables : Tables) (line : Line) : Tables where
  sizes partition statistic :=
    if partition = line.partition ∧ statistic = line.statistic then some line.size
    else tables.sizes partition statistic
  pruning partition statistic :=
    if partition = line.partition ∧ statistic = line.statistic then some line.pruningPower
    else tables.pruning partition statistic
  partitions := tables.partitions.insert line.partition
  stats := tables.stats.insert line.statistic
  emptySize := if line.statistic = 0 then line.size else tables.emptySize

def load (lines : List Line) : Tables := lines.foldl Tables.add .empty

/-- `sizes[key] -= EMPTY_SIZE` for every key. -/
def Tables.reduced (tables : Tables) : Tables :=
  { tables with
    sizes := fun partition statistic =>
      (tables.sizes partition statistic).map fun size => size - tables.emptySize }

/-- The orders in which the two sets are iterated; Python leaves them open. -/
structure Iteration (tables : Tables) where
  partitions : List Partition
  stats : List Int
  partitions_perm : partitions.Perm tables.partitions
  stats_perm : stats.Perm tables.stats

/-! ## The table -/

/-- A sum of `int32` numbers. -/
def toInt32 (value : Int) : Int := Int.bmod value (2 ^ 32)

/-- `np.roll`. -/
def roll (row : List Int) (shift : Int) : List Int :=
  (List.range row.length).map fun (column : Nat) =>
    row.getD (((column : Int) - shift) % row.length).toNat 0

/-- `row[:stop] = 0`, where a negative stop counts from the end. -/
def zeroFill (row : List Int) (stop : Int) : List Int :=
  let last := if stop < 0 then (stop + row.length).toNat else min stop.toNat row.length
  List.replicate last 0 ++ row.drop last

/-- `Mip`. -/
def candidate (previous : List Int) (pruningPower size : Int) : List Int :=
  zeroFill (roll (previous.map fun value => toInt32 (value + pruningPower)) size) size

/-- The row of one partition; none for a missing key. -/
def nextRow (tables : Tables) (stats : List Int) (previous : List Int) (partition : Partition) :
    Option (List Int) :=
  stats.foldlM (fun row statistic => do
    let pruningPower ← tables.pruning partition statistic
    let size ← tables.sizes partition statistic
    return row.zipWith max (candidate previous pruningPower size))
    (List.replicate previous.length 0)

/-- The rows of `M` from a given one on. -/
def tableFrom (tables : Tables) (stats : List Int) (row : List Int) :
    List Partition → Option (List (List Int))
  | [] => some [row]
  | partition :: rest => do
      let next ← nextRow tables stats row partition
      let more ← tableFrom tables stats next rest
      return row :: more

/-! ## Reading the choice back -/

/-- `row[index]`, where a negative index counts from the end; none past either end. -/
def entry (row : List Int) (index : Int) : Option Int :=
  if 0 ≤ index then row[index.toNat]?
  else if 0 ≤ index + row.length then row[(index + row.length).toNat]? else none

/-- `np.argmax`: the first greatest element. -/
def argmax (row : List Int) : Option Nat := row.max?.bind fun greatest => row.idxOf? greatest

/--
The inner loop of the backtracking: the first statistic whose entry explains the row,
with its size, if there is one.
-/
def explain (tables : Tables) (partition : Partition) (row previous : List Int) (budget : Int) :
    List Int → Option (Option (Int × Int))
  | [] => some none
  | statistic :: rest => do
      let pruningPower ← tables.pruning partition statistic
      let size ← tables.sizes partition statistic
      if size ≤ budget then
        let here ← entry row budget
        let there ← entry previous (budget - size)
        if here = toInt32 (there + pruningPower) then return some (statistic, size)
        else explain tables partition row previous budget rest
      else explain tables partition row previous budget rest

/-- The backtracking over the partitions up to a position, the last one first. -/
def backtrack (tables : Tables) (order : Iteration tables) (M : List (List Int)) :
    Nat → Int → Option (List (Partition × Int))
  | 0, _ => some []
  | position + 1, budget => do
      let partition ← order.partitions[position]?
      let row ← M[position + 1]?
      let previous ← M[position]?
      match ← explain tables.reduced partition row previous budget order.stats with
      | none => backtrack tables order M position budget
      | some (statistic, size) =>
          let rest ← backtrack tables order M position (budget - size)
          return (partition, statistic) :: rest

/-- The script: the assignment it writes, or none for an exception. -/
def run (lines : List Line) (order : Iteration (load lines)) (budget : Int) :
    Option (List (Partition × Int)) :=
  let tables := load lines
  let width := budget - order.partitions.length * tables.emptySize + 1
  if width < 0 then none
  else do
    let M ← tableFrom tables.reduced order.stats (List.replicate width.toNat 0) order.partitions
    let start ← argmax (← M.getLast?)
    backtrack tables order M order.partitions.length start

end Dp

end StatsRecommender
