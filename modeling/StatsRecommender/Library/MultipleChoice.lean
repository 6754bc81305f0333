import Mathlib.Algebra.Order.BigOperators.Group.List
import Mathlib.Algebra.Order.Ring.Nat
import Mathlib.Data.Int.ConditionallyCompleteOrder

/-!
# Multiple-choice knapsacks

From each of a list of groups one option is taken; the weights must stay within a
capacity and the values add up.  The value table of the problem is computed group by
group, and a selection that follows the table back is optimal.
-/

namespace MultipleChoice

variable {values : List Int}

/-! ## The greatest of a list -/

/-- The greatest element of a list, at least zero. -/
def peak (values : List Int) : Int := values.foldr max 0

@[simp]
theorem peak_cons (value : Int) (values : List Int) :
    peak (value :: values) = max value (peak values) := rfl

theorem peak_nonneg (values : List Int) : 0 ≤ peak values := by
  induction values with
  | nil => exact le_rfl
  | cons value rest ih => exact ih.trans (le_max_right _ _)

theorem le_peak {value : Int} (member : value ∈ values) : value ≤ peak values := by
  induction values with
  | nil => exact absurd member List.not_mem_nil
  | cons head rest ih =>
      rcases List.mem_cons.mp member with rfl | later
      · exact le_max_left _ _
      · exact (ih later).trans (le_max_right _ _)

theorem peak_mem_or_eq_zero (values : List Int) : peak values ∈ values ∨ peak values = 0 := by
  induction values with
  | nil => exact Or.inr rfl
  | cons head rest ih =>
      rcases max_choice head (peak rest) with here | there
      · exact Or.inl (List.mem_cons.mpr (Or.inl here))
      · rw [peak_cons, there]
        rcases ih with inside | zero
        · exact Or.inl (List.mem_cons_of_mem _ inside)
        · exact Or.inr zero

/-- A list with an element that is not negative attains its peak. -/
theorem peak_mem {value : Int} (member : value ∈ values) (nonneg : 0 ≤ value) :
    peak values ∈ values := by
  rcases peak_mem_or_eq_zero values with inside | zero
  · exact inside
  · have same : value = peak values := by
      rw [zero]
      exact le_antisymm (zero ▸ le_peak member) nonneg
    exact same ▸ member

/-! ## The value table -/

variable {G K : Type*} (options : List K) (weight : G → K → Nat) (value : G → K → Int)
  {groups : List G} {chosen : List K} {capacity : Nat}

/-- The greatest value of one option for each group with weights within the capacity. -/
def best : List G → Nat → Int
  | [], _ => 0
  | group :: rest, capacity =>
      peak ((options.filter fun option => decide (weight group option ≤ capacity)).map
        fun option => best rest (capacity - weight group option) + value group option)

/-- The sum of a quantity over the option taken for each group. -/
def total {M : Type*} [Add M] [Zero M] (quantity : G → K → M) (groups : List G)
    (chosen : List K) : M :=
  (groups.zipWith quantity chosen).sum

/-- One option is taken for each group. -/
structure Selection (groups : List G) (chosen : List K) : Prop where
  length : chosen.length = groups.length
  options : ∀ option ∈ chosen, option ∈ options

/-- Options that follow the value table back from a capacity on. -/
inductive Traces : List G → Nat → List K → Prop where
  | nil (capacity : Nat) : Traces [] capacity []
  | cons {group : G} {rest : List G} {capacity : Nat} {option : K} {chosen : List K}
      (member : option ∈ options) (fits : weight group option ≤ capacity)
      (step : best options weight value (group :: rest) capacity =
        best options weight value rest (capacity - weight group option) + value group option)
      (later : Traces rest (capacity - weight group option) chosen) :
      Traces (group :: rest) capacity (option :: chosen)

variable {options weight value}

theorem best_nonneg (groups : List G) (capacity : Nat) :
    0 ≤ best options weight value groups capacity := by
  cases groups with
  | nil => exact le_rfl
  | cons group rest => exact peak_nonneg _

/-- No selection within the capacity is worth more than the table says. -/
theorem total_le_best (selection : Selection options groups chosen)
    (within : total weight groups chosen ≤ capacity) :
    total value groups chosen ≤ best options weight value groups capacity := by
  induction groups generalizing chosen capacity with
  | nil => simp [total, best]
  | cons group rest ih =>
      cases chosen with
      | nil => cases selection.length
      | cons option chosen =>
          simp only [total, List.zipWith_cons_cons, List.sum_cons] at within ⊢
          have fits : weight group option ≤ capacity := by omega
          have tail : Selection options rest chosen :=
            ⟨Nat.succ.inj selection.length,
              fun later member => selection.options later (List.mem_cons_of_mem _ member)⟩
          have rest_within : total weight rest chosen ≤ capacity - weight group option := by
            simp only [total]
            omega
          have later := ih tail rest_within
          have entry : best options weight value rest (capacity - weight group option) +
              value group option ≤ best options weight value (group :: rest) capacity :=
            le_peak (List.mem_map.mpr ⟨option, List.mem_filter.mpr
              ⟨selection.options option List.mem_cons_self, decide_eq_true fits⟩, rfl⟩)
          simp only [total] at later
          omega

/-- A weightless option that is not worth less than nothing makes every entry attained. -/
theorem exists_option {group : G} {free : K} (member : free ∈ options)
    (weightless : weight group free = 0) (nonneg : 0 ≤ value group free) (rest : List G)
    (capacity : Nat) :
    ∃ option ∈ options, weight group option ≤ capacity ∧
      best options weight value (group :: rest) capacity =
        best options weight value rest (capacity - weight group option) + value group option := by
  have entry : best options weight value rest capacity + value group free ∈
      (options.filter fun option => decide (weight group option ≤ capacity)).map
        fun option => best options weight value rest (capacity - weight group option) +
          value group option :=
    List.mem_map.mpr ⟨free, List.mem_filter.mpr ⟨member, by simp [weightless]⟩,
      by rw [weightless, Nat.sub_zero]⟩
  have attained := peak_mem entry (add_nonneg (best_nonneg rest capacity) nonneg)
  obtain ⟨option, inside, same⟩ := List.mem_map.mp attained
  obtain ⟨known, fits⟩ := List.mem_filter.mp inside
  exact ⟨option, known, of_decide_eq_true fits, same.symm⟩

/-- Following the table back keeps within the capacity and collects the entry's value. -/
theorem Traces.spec (traces : Traces options weight value groups capacity chosen) :
    Selection options groups chosen ∧ total weight groups chosen ≤ capacity ∧
      total value groups chosen = best options weight value groups capacity := by
  induction traces with
  | nil capacity => exact ⟨⟨rfl, fun _ member => absurd member List.not_mem_nil⟩, Nat.zero_le _, rfl⟩
  | cons member fits step later ih =>
      obtain ⟨selection, within, collected⟩ := ih
      simp only [total, List.zipWith_cons_cons, List.sum_cons] at within collected ⊢
      refine ⟨⟨?_, ?_⟩, by omega, by omega⟩
      · rw [List.length_cons, List.length_cons, selection.length]
      · intro option inside
        rcases List.mem_cons.mp inside with rfl | behind
        · exact member
        · exact selection.options option behind

/-- The table never exceeds the sum of the greatest values of the groups. -/
theorem best_le_sum_peak (groups : List G) (capacity : Nat) :
    best options weight value groups capacity ≤
      (groups.map fun group => peak (options.map (value group))).sum := by
  induction groups generalizing capacity with
  | nil => exact le_rfl
  | cons group rest ih =>
      rw [List.map_cons, List.sum_cons, best]
      have nonneg := (best_nonneg rest 0).trans (ih 0)
      have greatest := peak_nonneg (options.map (value group))
      rcases peak_mem_or_eq_zero ((options.filter fun option =>
        decide (weight group option ≤ capacity)).map fun option =>
          best options weight value rest (capacity - weight group option) + value group option) with
        inside | zero
      · obtain ⟨option, member, same⟩ := List.mem_map.mp inside
        have earlier := ih (capacity - weight group option)
        have own := le_peak (List.mem_map_of_mem (f := value group) (List.mem_filter.mp member).1)
        rw [← same]
        omega
      · rw [zero]
        omega

end MultipleChoice
