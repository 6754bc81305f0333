import Mathlib.Data.List.Range

/-!
# Arrays

Arrays as functions of the place, and what writing one value to several places leaves in them.
-/

namespace StatsRecommender

variable {α : Type} {array : Nat → α} {value : α} {place : Nat} {written : List Nat}

/-- What an array holds after `value` was written to some of its places. -/
def writeAll (array : Nat → α) (places : List Nat) (value : α) : Nat → α :=
  fun place => if place ∈ places then value else array place

/-- What an array holds after `value` was written to the places from `start` to `finish`. -/
def writeRange (array : Nat → α) (start finish : Nat) (value : α) : Nat → α :=
  fun place => if start ≤ place ∧ place < finish then value else array place

theorem writeAll_of_mem (member : place ∈ written) :
    writeAll array written value place = value := if_pos member

theorem writeAll_of_not_mem (absent : place ∉ written) :
    writeAll array written value place = array place := if_neg absent

theorem writeRange_of_mem {start finish : Nat} (inside : start ≤ place ∧ place < finish) :
    writeRange array start finish value place = value := if_pos inside

theorem writeRange_of_not_mem {start finish : Nat} (outside : ¬(start ≤ place ∧ place < finish)) :
    writeRange array start finish value place = array place := if_neg outside

theorem writeRange_eq (array : Nat → α) (start finish : Nat) (value : α) :
    writeRange array start finish value =
      writeAll array (List.range' start (finish - start)) value := by
  funext place
  apply if_congr _ rfl rfl
  rw [List.mem_range'_1]
  omega

theorem writeAll_writeAll_singleton (array : Nat → α) (written : List Nat) (other : Nat)
    (value : α) :
    writeAll (writeAll array written value) [other] value =
      writeAll array (written ++ [other]) value := by
  funext place
  simp only [writeAll, List.mem_append]
  by_cases new : place ∈ [other]
  · rw [if_pos new, if_pos (Or.inr new)]
  · rw [if_neg new]
    by_cases old : place ∈ written
    · rw [if_pos old, if_pos (Or.inl old)]
    · rw [if_neg old, if_neg (not_or.mpr ⟨old, new⟩)]

end StatsRecommender
