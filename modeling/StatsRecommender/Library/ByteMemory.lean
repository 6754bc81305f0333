import Mathlib.Tactic.Common

/-!
# Byte memory

The memory of a block as a function from positions to bytes, with the two operations that
fill it: copying a range from other memory and clearing a range.
-/

namespace ByteMemory

variable {position : Nat} {range : Nat × Nat} {ranges : List (Nat × Nat)}

/-- The bytes of a block by their position. -/
abbrev Memory := Nat → UInt8

/-- `memcpy` of the first bytes of a source to an offset. -/
def copyTo (memory source : Memory) (offset size : Nat) : Memory := fun position =>
  if offset ≤ position ∧ position < offset + size then source (position - offset)
  else memory position

/-- `memset` of a range to zero. -/
def clear (memory : Memory) (range : Nat × Nat) : Memory := fun position =>
  if range.1 ≤ position ∧ position < range.2 then 0 else memory position

variable {memory : Memory}

theorem copyTo_inside {source : Memory} {offset size index : Nat} (inside : index < size) :
    copyTo memory source offset size (offset + index) = source index := by
  have range : offset ≤ offset + index ∧ offset + index < offset + size := by omega
  rw [copyTo, if_pos range, Nat.add_sub_cancel_left]

theorem copyTo_outside {source : Memory} {offset size : Nat}
    (outside : position < offset ∨ offset + size ≤ position) :
    copyTo memory source offset size position = memory position := by
  have range : ¬ (offset ≤ position ∧ position < offset + size) := by omega
  rw [copyTo, if_neg range]

theorem clear_inside (inside : range.1 ≤ position ∧ position < range.2) :
    clear memory range position = 0 :=
  if_pos inside

theorem clear_outside (outside : ¬ (range.1 ≤ position ∧ position < range.2)) :
    clear memory range position = memory position :=
  if_neg outside

/-- Clearing only ever turns bytes into zeros. -/
theorem foldl_clear_of_zero (zero : memory position = 0) :
    ranges.foldl clear memory position = 0 := by
  induction ranges generalizing memory with
  | nil => exact zero
  | cons range rest ih =>
      refine ih ?_
      unfold clear
      split
      · rfl
      · exact zero

/-- A position in one of the cleared ranges holds zero. -/
theorem foldl_clear_inside (inside : ∃ range ∈ ranges, range.1 ≤ position ∧ position < range.2) :
    ranges.foldl clear memory position = 0 := by
  induction ranges generalizing memory with
  | nil =>
      obtain ⟨range, member, -⟩ := inside
      exact absurd member List.not_mem_nil
  | cons head rest ih =>
      obtain ⟨range, member, bounds⟩ := inside
      rw [List.foldl_cons]
      rcases List.mem_cons.mp member with rfl | later
      · exact foldl_clear_of_zero (clear_inside bounds)
      · exact ih ⟨range, later, bounds⟩

/-- A position in none of the cleared ranges keeps its byte. -/
theorem foldl_clear_outside
    (outside : ∀ range ∈ ranges, ¬ (range.1 ≤ position ∧ position < range.2)) :
    ranges.foldl clear memory position = memory position := by
  induction ranges generalizing memory with
  | nil => rfl
  | cons head rest ih =>
      rw [List.foldl_cons, ih fun range member => outside range (List.mem_cons_of_mem _ member),
        clear_outside (outside head List.mem_cons_self)]

end ByteMemory
