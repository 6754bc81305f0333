import Mathlib.Algebra.Order.Ring.Nat
import Mathlib.Data.Int.ConditionallyCompleteOrder
import Mathlib.Data.List.Lex

/-!
# Byte order

The numbers that a row of bytes stands for when the lowest or the highest byte comes first.  A row
is determined by either number, and the order of the second is the lexicographic order of the rows.
-/

namespace ByteOrder

variable {left right bytes : List UInt8} {size : Nat}

/-- The number of a row of bytes with the lowest byte first. -/
def littleEndian : List UInt8 → Nat
  | [] => 0
  | byte :: rest => byte.toNat + 256 * littleEndian rest

/-- The number of a row of bytes with the highest byte first. -/
def bigEndian : List UInt8 → Nat
  | [] => 0
  | byte :: rest => byte.toNat * 256 ^ rest.length + bigEndian rest

theorem littleEndian_lt (bytes : List UInt8) : littleEndian bytes < 256 ^ bytes.length := by
  induction bytes with
  | nil => exact Nat.one_pos
  | cons byte rest ih =>
      have small := byte.toNat_lt
      rw [littleEndian, List.length_cons, Nat.pow_succ]
      omega

theorem bigEndian_lt (bytes : List UInt8) : bigEndian bytes < 256 ^ bytes.length := by
  induction bytes with
  | nil => exact Nat.one_pos
  | cons byte rest ih =>
      have small : byte.toNat + 1 ≤ 256 := byte.toNat_lt
      calc bigEndian (byte :: rest) < (byte.toNat + 1) * 256 ^ rest.length := by
            rw [bigEndian, Nat.add_one_mul]
            omega
        _ ≤ 256 * 256 ^ rest.length := Nat.mul_le_mul_right _ small
        _ = 256 ^ (byte :: rest).length := by rw [List.length_cons, Nat.pow_succ, Nat.mul_comm]

/-- Rows of one length with the same number are the same. -/
theorem littleEndian_injective (size : left.length = right.length)
    (same : littleEndian left = littleEndian right) : left = right := by
  induction left generalizing right with
  | nil => exact (List.eq_nil_of_length_eq_zero size.symm).symm
  | cons byte rest ih =>
      cases right with
      | nil => exact absurd size (by simp)
      | cons other others =>
          have small := byte.toNat_lt
          have bound := other.toNat_lt
          simp only [littleEndian] at same
          have head : byte = other := UInt8.toNat_inj.mp (by omega)
          rw [head, ih (by simpa using size) (by omega)]

/-- The lowest bytes of a number, the lowest byte first. -/
def littleEndianBytes : Nat → Nat → List UInt8
  | 0, _ => []
  | size + 1, number => UInt8.ofNat number :: littleEndianBytes size (number / 256)

@[simp]
theorem length_littleEndianBytes (size number : Nat) :
    (littleEndianBytes size number).length = size := by
  induction size generalizing number with
  | zero => rfl
  | succ size ih => rw [littleEndianBytes, List.length_cons, ih]

theorem littleEndian_littleEndianBytes {number : Nat} (fits : number < 256 ^ size) :
    littleEndian (littleEndianBytes size number) = number := by
  induction size generalizing number with
  | zero => exact (Nat.lt_one_iff.mp fits).symm
  | succ size ih =>
      rw [Nat.pow_succ] at fits
      rw [littleEndianBytes, littleEndian, ih (Nat.div_lt_of_lt_mul (by omega)), UInt8.toNat_ofNat']
      exact Nat.mod_add_div number 256

/-- With the highest byte first, rows of one length are ordered as their numbers. -/
theorem bigEndian_lt_iff (size : left.length = right.length) :
    bigEndian left < bigEndian right ↔ left < right := by
  induction left generalizing right with
  | nil => simp [List.eq_nil_of_length_eq_zero size.symm]
  | cons byte rest ih =>
      cases right with
      | nil => exact absurd size (by simp)
      | cons other others =>
          have tails : rest.length = others.length := by simpa using size
          have low := bigEndian_lt rest
          have high := bigEndian_lt others
          rw [bigEndian, bigEndian, List.cons_lt_cons_iff, ← ih tails, tails,
            UInt8.lt_iff_toNat_lt, ← UInt8.toNat_inj]
          rw [tails] at low
          generalize 256 ^ others.length = unit at low high
          rcases Nat.lt_trichotomy byte.toNat other.toNat with less | same | greater
          · have step : (byte.toNat + 1) * unit ≤ other.toNat * unit :=
              Nat.mul_le_mul_right _ less
            rw [Nat.add_one_mul] at step
            exact iff_of_true (by omega) (Or.inl less)
          · simp [same]
          · have step : (other.toNat + 1) * unit ≤ byte.toNat * unit :=
              Nat.mul_le_mul_right _ greater
            rw [Nat.add_one_mul] at step
            exact iff_of_false (by omega) (by omega)

/-! ## Rows that are cut to one length -/

/-- A row of bytes cut or filled with zeros to a length. -/
def padded : Nat → List UInt8 → List UInt8
  | 0, _ => []
  | size + 1, [] => 0 :: padded size []
  | size + 1, byte :: rest => byte :: padded size rest

theorem padded_of_le (fits : bytes.length ≤ size) :
    padded size bytes = bytes ++ List.replicate (size - bytes.length) 0 := by
  induction size generalizing bytes with
  | zero => simp [padded, List.eq_nil_of_length_eq_zero (Nat.le_zero.mp fits)]
  | succ size ih =>
      cases bytes with
      | nil =>
          have empty : ([] : List UInt8).length ≤ size := Nat.zero_le size
          simpa [padded, List.replicate_succ] using ih empty
      | cons byte rest =>
          simp only [List.length_cons, Nat.add_le_add_iff_right] at fits
          simpa [padded] using ih fits

theorem padded_of_ge (long : size ≤ bytes.length) : padded size bytes = bytes.take size := by
  induction size generalizing bytes with
  | zero => simp [padded]
  | succ size ih =>
      cases bytes with
      | nil => simp at long
      | cons byte rest =>
          simp only [List.length_cons, Nat.add_le_add_iff_right] at long
          simpa [padded] using ih long

/-- A padded row that is cut further. -/
theorem take_padded {larger : Nat} (bytes : List UInt8) (le : size ≤ larger) :
    (padded larger bytes).take size = padded size bytes := by
  induction size generalizing larger bytes with
  | zero => simp [padded]
  | succ size ih =>
      obtain ⟨more, rfl⟩ : ∃ more, larger = more + 1 := ⟨larger - 1, by omega⟩
      cases bytes <;> simp [padded, ih _ (Nat.le_of_succ_le_succ le)]

/-- Rows whose padded rows differ are ordered as these: a zero that pads a row never comes after a
byte of the other row. -/
theorem lt_iff_padded (differ : padded size left ≠ padded size right) :
    left < right ↔ padded size left < padded size right := by
  induction size generalizing left right with
  | zero => exact absurd rfl differ
  | succ size ih =>
      cases left with
      | nil =>
          cases right with
          | nil => exact absurd rfl differ
          | cons other others =>
              simp only [padded, ne_eq, List.cons.injEq, not_and] at differ ⊢
              rw [List.cons_lt_cons_iff]
              by_cases zero : 0 = other
              · have rest := differ zero
                rw [← ih rest]
                cases others with
                | nil => exact absurd rfl rest
                | cons head tail => simp [zero]
              · have positive : 0 < other := UInt8.pos_iff_ne_zero.mpr (Ne.symm zero)
                simp [positive]
      | cons byte rest =>
          cases right with
          | nil =>
              simp only [padded, ne_eq, List.cons.injEq, not_and] at differ ⊢
              rw [List.cons_lt_cons_iff]
              by_cases zero : byte = 0
              · rw [← ih (differ zero)]
                simp [zero]
              · simp [zero]
          | cons other others =>
              simp only [padded, ne_eq, List.cons.injEq, not_and] at differ ⊢
              rw [List.cons_lt_cons_iff, List.cons_lt_cons_iff]
              by_cases same : byte = other
              · rw [ih (differ same)]
              · simp [same]

/-- The order is decided by the common length and then by the lengths. -/
theorem lt_iff_take (left right : List UInt8) (size : Nat)
    (common : size = min left.length right.length) :
    left < right ↔ left.take size < right.take size ∨
      left.take size = right.take size ∧ left.length < right.length := by
  induction left generalizing right size with
  | nil =>
      rw [List.length_nil, Nat.zero_min] at common
      cases right <;> simp [common]
  | cons byte rest ih =>
      cases right with
      | nil => simp [common]
      | cons other others =>
          obtain rfl : size = min rest.length others.length + 1 := by
            rw [common, List.length_cons, List.length_cons, Nat.succ_min_succ]
          rw [List.take_succ_cons, List.take_succ_cons, List.cons_lt_cons_iff,
            List.cons_lt_cons_iff, ih others _ rfl, List.cons.injEq, List.length_cons,
            List.length_cons, Nat.add_lt_add_iff_right]
          constructor
          · rintro (less | ⟨same, less | both⟩)
            · exact Or.inl (Or.inl less)
            · exact Or.inl (Or.inr ⟨same, less⟩)
            · exact Or.inr ⟨⟨same, both.1⟩, both.2⟩
          · rintro ((less | ⟨same, less⟩) | ⟨⟨same, rest⟩, shorter⟩)
            · exact Or.inl less
            · exact Or.inr ⟨same, Or.inl less⟩
            · exact Or.inr ⟨same, Or.inr ⟨rest, shorter⟩⟩

end ByteOrder
