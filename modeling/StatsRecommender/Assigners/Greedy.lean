import Mathlib.Algebra.Order.BigOperators.Group.List
import Mathlib.Algebra.Order.Field.Basic
import Mathlib.Data.Prod.Lex
import Mathlib.Data.String.Basic
import Mathlib.Tactic.FieldSimp
import Mathlib.Tactic.Linarith
import Mathlib.Tactic.Ring

/-!
# The greedy assigner

`greedy.py`: every partition starts with the statistic 0, and the statistics with the best ratio
of benefit to size are taken from a heap as long as they fit.  Ratios are relative to what the
partition has, and are put back into the heap when they turn out to be outdated.
-/

namespace StatsRecommender

namespace Greedy

/-- `(table_name, rowgroup, col)`. -/
abbrev Partition := String × Int × Int

/-- A line of the input file behind the header. -/
structure Line where
  partition : Partition
  statistic : Int
  size : Int
  pruningPower : ℚ
  deriving DecidableEq

/-- The benefit that the script counts for a line: none for the statistic 0. -/
def Line.benefit (line : Line) : ℚ := if line.statistic = 0 then 0 else line.pruningPower

/-- A tuple of the heap. -/
structure Item where
  val : ℚ
  pruningPower : ℚ
  partition : Partition
  statistic : Int
  size : Int
  deriving DecidableEq

/-- Tuples are compared from the left. -/
def Item.key (item : Item) : ℚ ×ₗ ℚ ×ₗ String ×ₗ Int ×ₗ Int ×ₗ Int ×ₗ Int :=
  toLex (item.val, toLex (item.pruningPower, toLex (item.partition.1, toLex (item.partition.2.1,
    toLex (item.partition.2.2, toLex (item.statistic, item.size))))))

/-- The globals of the script; `mapping` in the order of insertion. -/
structure State where
  budget : Int
  mapping : List (Partition × Int)
  currentPruningPower : Partition → ℚ
  currentSize : Partition → Int
  pq : List Item

/-- `mapping[partition] = statistic`. -/
def setItem (mapping : List (Partition × Int)) (partition : Partition) (statistic : Int) :
    List (Partition × Int) :=
  if partition ∈ mapping.map Prod.fst then
    mapping.map fun entry => if entry.1 = partition then (partition, statistic) else entry
  else mapping ++ [(partition, statistic)]

/-- `/`. -/
def divide (numerator : ℚ) (denominator : Int) : Except String ℚ :=
  if denominator = 0 then .error "division by zero" else .ok (numerator / denominator)

/-- `heapq.heappop`: the least tuple. -/
def heappop : List Item → Option (Item × List Item)
  | [] => none
  | first :: rest =>
      let least := rest.foldl (fun least item => if item.key < least.key then item else least) first
      some (least, (first :: rest).erase least)

/-- The body of the loop over the lines. -/
def readLine (state : State) (line : Line) : Except String State :=
  if line.statistic = 0 then .ok { state with
    budget := state.budget - line.size
    mapping := setItem state.mapping line.partition line.statistic
    currentSize := Function.update state.currentSize line.partition line.size }
  else do
    let val ← divide (-line.pruningPower) line.size
    pure { state with
      pq := state.pq ++ [⟨val, line.pruningPower, line.partition, line.statistic, line.size⟩] }

/-- The state in front of the heap loop. -/
def load (budget : Int) (lines : List Line) : Except String State :=
  lines.foldlM readLine ⟨budget, [], fun _ => 0, fun _ => 0, []⟩

/-- The body of the heap loop; nothing happens once the heap is empty. -/
def step (state : State) : Except String State :=
  match heappop state.pq with
  | none => .ok state
  | some (item, rest) =>
      let currentPruningPower := state.currentPruningPower item.partition
      let grown := item.size - state.currentSize item.partition
      if grown > state.budget ∨ item.pruningPower ≤ currentPruningPower then
        .ok { state with pq := rest }
      else do
        let newVal ← divide (-(item.pruningPower - currentPruningPower)) grown
        if item.val ≠ newVal then pure { state with pq := { item with val := newVal } :: rest }
        else pure {
          budget := state.budget - grown
          mapping := setItem state.mapping item.partition item.statistic
          currentPruningPower :=
            Function.update state.currentPruningPower item.partition item.pruningPower
          currentSize := Function.update state.currentSize item.partition item.size
          pq := rest }

/-- The size of what was chosen. -/
def State.total (state : State) : Int :=
  ((state.mapping.map Prod.fst).map state.currentSize).sum

/-- So many rounds of the heap loop. -/
def run : Nat → State → Except String State
  | 0, state => .ok state
  | rounds + 1, state => do
      let next ← step state
      run rounds next

/-! ## The input -/

/-- The lines of the statistic 0. -/
def baselines (lines : List Line) : List Line := lines.filter fun line => line.statistic == 0

/-- Every partition has the statistic 0 once, and its other statistics are larger. -/
structure Measured (lines : List Line) : Prop where
  baseline : ∀ line ∈ lines, line.partition ∈ (baselines lines).map Line.partition
  once : ((baselines lines).map Line.partition).Nodup
  larger : ∀ base ∈ lines, ∀ line ∈ lines, base.partition = line.partition →
    base.statistic = 0 → line.statistic ≠ 0 → base.size < line.size ∧ 0 < line.size

/-- What the heap is filled with for a line. -/
def Line.item (line : Line) : Item :=
  ⟨-line.pruningPower / line.size, line.pruningPower, line.partition, line.statistic, line.size⟩

/-- The state when lines were read. -/
def loaded (budget : Int) (lines : List Line) : State where
  budget := budget - ((baselines lines).map Line.size).sum
  mapping := (baselines lines).map fun line => (line.partition, line.statistic)
  currentPruningPower := fun _ => 0
  currentSize := (baselines lines).foldl
    (fun sizes line => Function.update sizes line.partition line.size) fun _ => 0
  pq := (lines.filter fun line => line.statistic != 0).map Line.item

/-! ## The heap -/

theorem heappop_none {pq : List Item} : heappop pq = none ↔ pq = [] := by
  cases pq with
  | nil => exact ⟨fun _ => rfl, fun _ => rfl⟩
  | cons first rest => exact ⟨nofun, nofun⟩

theorem foldl_least (rest : List Item) (first : Item) :
    let least := rest.foldl (fun least item => if item.key < least.key then item else least) first
    least ∈ first :: rest ∧ ∀ item ∈ first :: rest, least.key ≤ item.key := by
  induction rest generalizing first with
  | nil =>
      refine ⟨List.mem_cons_self, fun item member => ?_⟩
      rw [List.mem_singleton.mp member]
      exact le_rfl
  | cons second rest ih =>
      rw [List.foldl_cons]
      obtain ⟨member, least⟩ := ih (if second.key < first.key then second else first)
      split at member
      · rename_i before
        rw [if_pos before] at least ⊢
        refine ⟨List.mem_cons_of_mem _ member, fun item inside => ?_⟩
        rcases List.mem_cons.mp inside with rfl | later
        · exact (least second List.mem_cons_self).trans (le_of_lt before)
        · exact least item later
      · rename_i after
        rw [if_neg after] at least ⊢
        refine ⟨?_, fun item inside => ?_⟩
        · rcases List.mem_cons.mp member with same | later
          · rw [same]
            exact List.mem_cons_self
          · exact List.mem_cons_of_mem _ (List.mem_cons_of_mem _ later)
        · rcases List.mem_cons.mp inside with rfl | later
          · exact least item List.mem_cons_self
          · rcases List.mem_cons.mp later with rfl | later
            · exact (least first List.mem_cons_self).trans (not_lt.mp after)
            · exact least item (List.mem_cons_of_mem _ later)

/-- What is popped has the least value. -/
theorem heappop_some {pq rest : List Item} {item : Item} (popped : heappop pq = some (item, rest)) :
    item ∈ pq ∧ rest = pq.erase item ∧ ∀ other ∈ pq, item.val ≤ other.val := by
  cases pq with
  | nil => cases popped
  | cons first others =>
      cases popped
      obtain ⟨member, least⟩ := foldl_least others first
      exact ⟨member, rfl, fun other inside => Prod.Lex.monotone_fst _ _ (least other inside)⟩

/-- What is left holds all others. -/
theorem mem_of_heappop {pq rest : List Item} {item other : Item}
    (popped : heappop pq = some (item, rest)) (member : other ∈ pq) (different : other ≠ item) :
    other ∈ rest := by
  obtain ⟨-, rfl, -⟩ := heappop_some popped
  exact (List.mem_erase_of_ne different).mpr member

end Greedy

end StatsRecommender
