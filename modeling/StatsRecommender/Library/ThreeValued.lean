import Mathlib.Data.List.Basic

/-!
# Three-valued logic

Truth values of SQL: true, false and unknown, as an optional Boolean, with their conjunction and
disjunction.
-/

namespace ThreeValued

/-- Conjunction: false wins over unknown. -/
def and : Option Bool → Option Bool → Option Bool
  | some false, _ => some false
  | _, some false => some false
  | some true, other => other
  | none, _ => none

/-- Disjunction: true wins over unknown. -/
def or : Option Bool → Option Bool → Option Bool
  | some true, _ => some true
  | _, some true => some true
  | some false, other => other
  | none, _ => none

@[simp]
theorem and_eq_true_iff (left right : Option Bool) :
    and left right = some true ↔ left = some true ∧ right = some true := by
  rcases left with _ | _ | _ <;> rcases right with _ | _ | _ <;> decide

@[simp]
theorem or_eq_true_iff (left right : Option Bool) :
    or left right = some true ↔ left = some true ∨ right = some true := by
  rcases left with _ | _ | _ <;> rcases right with _ | _ | _ <;> decide

end ThreeValued
