import Mathlib.Algebra.Order.Ring.Nat
import Mathlib.Data.Int.ConditionallyCompleteOrder

/-!
# Constants

The constants that several parts of the system share.
-/

namespace StatsRecommender

/-- `STANDARD_VECTOR_SIZE`. -/
def standardVectorSize : Nat := 2048

theorem standardVectorSize_pos : 0 < standardVectorSize := by decide

/-- The vector of a row. -/
theorem row_div {vectorIndex place : Nat} (inside : place < standardVectorSize) :
    (vectorIndex * standardVectorSize + place) / standardVectorSize = vectorIndex := by
  rw [Nat.mul_comm, Nat.mul_add_div standardVectorSize_pos, Nat.div_eq_of_lt inside, Nat.add_zero]

/-- The place of a row in its vector. -/
theorem row_mod {vectorIndex place : Nat} (inside : place < standardVectorSize) :
    (vectorIndex * standardVectorSize + place) % standardVectorSize = place := by
  rw [Nat.mul_comm, Nat.mul_add_mod, Nat.mod_eq_of_lt inside]

/-- `TRANSACTION_ID_START`: the ids of transactions follow, the times of commits are below. -/
def transactionIdStart : Nat := 4611686018427388000

/-- `MAX_TRANSACTION_ID`. -/
def maxTransactionId : Nat := 2 ^ 64 - 1

/-- `NOT_DELETED_ID`. -/
def notDeletedId : Nat := 2 ^ 64 - 2

end StatsRecommender
