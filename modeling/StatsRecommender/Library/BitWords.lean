import Mathlib.Algebra.Order.Ring.Nat
import Mathlib.Data.Int.ConditionallyCompleteOrder

/-!
# Bits in words

A sequence of bits that is stored in words of a fixed width, the lowest bit of a word first, and
what the operations on whole words do to its bits.
-/

namespace BitWords

/-- The words of a memory by their position. -/
abbrev Words (w : Nat) := Nat → BitVec w

variable {w : Nat} {words : Words w}

/-- The bit at a position of the whole sequence. -/
def bitAt (words : Words w) (position : Nat) : Bool :=
  (words (position / w)).getLsbD (position % w)

def setWord (words : Words w) (index : Nat) (word : BitVec w) : Words w := fun other =>
  if other = index then word else words other

/-- Words of ones only. -/
def ones : Words w := fun _ => BitVec.allOnes w

def setBit (words : Words w) (position : Nat) : Words w :=
  setWord words (position / w) (words (position / w) ||| 1#w <<< (position % w))

def clearBit (words : Words w) (position : Nat) : Words w :=
  setWord words (position / w) (words (position / w) &&& ~~~(1#w <<< (position % w)))

theorem bitAt_setWord_same {index position : Nat} (word : BitVec w) (same : position / w = index) :
    bitAt (setWord words index word) position = word.getLsbD (position % w) := by
  rw [bitAt, setWord, if_pos same]

theorem bitAt_setWord_other {index position : Nat} (word : BitVec w)
    (other : position / w ≠ index) :
    bitAt (setWord words index word) position = bitAt words position := by
  rw [bitAt, setWord, if_neg other, bitAt]

theorem bitAt_ones (positive : 0 < w) (position : Nat) : bitAt (ones : Words w) position = true := by
  rw [bitAt, ones, BitVec.getLsbD_allOnes]
  exact decide_eq_true (Nat.mod_lt _ positive)

/-- The word of one bit. -/
theorem getLsbD_one_shiftLeft {place other : Nat} (inside : other < w) :
    (1#w <<< place).getLsbD other = decide (other = place) := by
  rw [BitVec.getLsbD_shiftLeft, BitVec.getLsbD_one]
  by_cases same : other = place
  · simp [same, same ▸ inside]
    omega
  · simp [same, inside]
    omega

/-- Different positions differ in their word or in their place in it. -/
theorem eq_iff_div_mod (position other : Nat) :
    other = position ↔ other / w = position / w ∧ other % w = position % w := by
  constructor
  · rintro rfl
    exact ⟨rfl, rfl⟩
  · rintro ⟨word, place⟩
    rw [← Nat.div_add_mod other w, word, place, Nat.div_add_mod]

theorem bitAt_setBit (positive : 0 < w) (words : Words w) (position other : Nat) :
    bitAt (setBit words position) other = (bitAt words other || decide (other = position)) := by
  by_cases word : other / w = position / w
  · rw [setBit, bitAt_setWord_same _ word, BitVec.getLsbD_or,
      getLsbD_one_shiftLeft (Nat.mod_lt _ positive), bitAt, word]
    simp [eq_iff_div_mod (w := w) position other, word]
  · rw [setBit, bitAt_setWord_other _ word]
    simp [eq_iff_div_mod (w := w) position other, word]

theorem bitAt_clearBit (positive : 0 < w) (words : Words w) (position other : Nat) :
    bitAt (clearBit words position) other = (bitAt words other && !decide (other = position)) := by
  by_cases word : other / w = position / w
  · have inside : other % w < w := Nat.mod_lt _ positive
    rw [clearBit, bitAt_setWord_same _ word, BitVec.getLsbD_and, BitVec.getLsbD_not,
      getLsbD_one_shiftLeft inside, bitAt, word]
    simp [eq_iff_div_mod (w := w) position other, word, inside]
  · rw [clearBit, bitAt_setWord_other _ word]
    simp [eq_iff_div_mod (w := w) position other, word]

/-- A word that is masked keeps the bits under the mask. -/
theorem bitAt_maskWord (words : Words w) (index : Nat) (mask : BitVec w) (position : Nat) :
    bitAt (setWord words index (words index &&& mask)) position =
      (bitAt words position && (decide (position / w ≠ index) || mask.getLsbD (position % w))) := by
  by_cases word : position / w = index
  · rw [bitAt_setWord_same _ word, BitVec.getLsbD_and, bitAt, word]
    simp
  · rw [bitAt_setWord_other _ word]
    simp [word]

/-- Bits that are set one by one. -/
theorem bitAt_foldl_setBit (positive : 0 < w) (positions : List Nat) (words : Words w)
    (other : Nat) :
    bitAt (positions.foldl setBit words) other = (bitAt words other || decide (other ∈ positions)) := by
  induction positions generalizing words with
  | nil => simp
  | cons position rest ih =>
      rw [List.foldl_cons, ih, bitAt_setBit positive, Bool.or_assoc]
      simp

end BitWords
