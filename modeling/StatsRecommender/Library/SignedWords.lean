import Mathlib.Algebra.Order.Ring.Nat
import Mathlib.Data.Int.ConditionallyCompleteOrder

/-!
# Checked signed arithmetic

Signed words whose sums and differences are errors where they leave the range of the word.
-/

namespace StatsRecommender

namespace SignedWords

variable {w : Nat} {x y : BitVec w}

/-- The number is one of the values of a signed word. -/
def Fits (w : Nat) (number : Int) : Prop := -2 ^ (w - 1) ≤ number ∧ number < 2 ^ (w - 1)

def signedAdd (x y : BitVec w) : Except String (BitVec w) :=
  if x.saddOverflow y then .error "signed integer overflow" else .ok (x + y)

def signedSub (x y : BitVec w) : Except String (BitVec w) :=
  if x.ssubOverflow y then .error "signed integer overflow" else .ok (x - y)

/-- A sum that fits is exact. -/
theorem signedAdd_of_fits (fits : Fits w (x.toInt + y.toInt)) :
    ∃ z, signedAdd x y = .ok z ∧ z.toInt = x.toInt + y.toInt := by
  have within : ¬ x.saddOverflow y = true := by
    simp only [BitVec.saddOverflow, Bool.or_eq_true, decide_eq_true_eq, not_or]
    exact ⟨Int.not_le.mpr fits.2, Int.not_lt.mpr fits.1⟩
  exact ⟨x + y, if_neg within, BitVec.toInt_add_of_not_saddOverflow within⟩

/-- A difference that fits is exact. -/
theorem signedSub_of_fits (fits : Fits w (x.toInt - y.toInt)) :
    ∃ z, signedSub x y = .ok z ∧ z.toInt = x.toInt - y.toInt := by
  have within : ¬ x.ssubOverflow y = true := by
    simp only [BitVec.ssubOverflow, Bool.or_eq_true, decide_eq_true_eq, not_or]
    exact ⟨Int.not_le.mpr fits.2, Int.not_lt.mpr fits.1⟩
  exact ⟨x - y, if_neg within, BitVec.toInt_sub_of_not_ssubOverflow within⟩

end SignedWords

end StatsRecommender
