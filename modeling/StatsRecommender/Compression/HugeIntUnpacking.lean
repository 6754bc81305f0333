import StatsRecommender.Compression.HugeIntPacking

/-!
# Reading packed values

Unpacking a value joins the words that it lies in, cut behind its last bit.
-/

namespace StatsRecommender

variable {bit cut : Nat}

open BitWords

namespace HugeIntPacker

open Uhugeint

variable {delta shift : Nat} {buffer : WordBuffer} {words : Words 32}

/-! ## Joined words -/

theorem getLsbD_wordRight (word : BitVec 32) (small : shift < 128) (bit : Nat) :
    (wordRight word shift).bits.getLsbD bit = word.getLsbD (shift + bit) := by
  rw [wordRight, getLsbD_shiftRight _ small, getLsbD_ofUInt32]

theorem getLsbD_wordLeft (word : BitVec 32) (small : shift < 128) (inside : bit < 128) :
    (wordLeft word shift).bits.getLsbD bit =
      (decide (shift ≤ bit) && word.getLsbD (bit - shift)) := by
  rw [wordLeft, getLsbD_shiftLeft _ small, getLsbD_ofUInt32, decide_eq_true inside]
  by_cases low : bit < shift
  · simp [low]
  · simp [low, Nat.le_of_not_lt low]

/-- The first words that a value lies in, joined. -/
def join (words : Words 32) (pointer shift : Nat) : Nat → Uhugeint
  | 0 => wordRight (words pointer) shift
  | last + 1 => (join words pointer shift last).or
      (wordLeft (words (pointer + (last + 1))) (32 * (last + 1) - shift))

/-- A bit of a word by its position. -/
theorem getLsbD_word (words : Words 32) (pointer index bit : Nat) (inside : bit < 32) :
    (words (pointer + index)).getLsbD bit = bitAt words (32 * pointer + (32 * index + bit)) := by
  have word : (32 * pointer + (32 * index + bit)) / 32 = pointer + index := by omega
  have place : (32 * pointer + (32 * index + bit)) % 32 = bit := by omega
  rw [bitAt, word, place]

theorem getLsbD_join (words : Words 32) (pointer : Nat) (inWord : shift < 32) (last : Nat)
    (few : 32 * last - shift < 128) (inside : bit < 128) :
    (join words pointer shift last).bits.getLsbD bit =
      (decide (shift + bit < 32 * (last + 1)) &&
        bitAt words (32 * pointer + (shift + bit))) := by
  induction last with
  | zero =>
      rw [join, getLsbD_wordRight _ (by omega)]
      by_cases first : shift + bit < 32
      · have position := getLsbD_word words pointer 0 (shift + bit) first
        rw [Nat.mul_zero, Nat.zero_add, Nat.add_zero] at position
        rw [position, decide_eq_true first, Bool.true_and]
      · rw [BitVec.getLsbD_of_ge _ _ (by omega)]
        simp [first]
  | succ last ih =>
      rw [join, bits_or, BitVec.getLsbD_or, ih (by omega), getLsbD_wordLeft _ few inside]
      by_cases earlier : shift + bit < 32 * (last + 1)
      · rw [decide_eq_true earlier, decide_eq_true (p := shift + bit < 32 * (last + 1 + 1))
          (by omega)]
        by_cases start : 32 * (last + 1) - shift ≤ bit
        · omega
        · simp [start]
      by_cases here : shift + bit < 32 * (last + 1 + 1)
      · have position := getLsbD_word words pointer (last + 1) (bit - (32 * (last + 1) - shift))
          (by omega)
        have whole : 32 * (last + 1) + (bit - (32 * (last + 1) - shift)) = shift + bit := by omega
        rw [position, whole, decide_eq_false earlier, decide_eq_true here,
          decide_eq_true (by omega)]
        simp
      · rw [BitVec.getLsbD_of_ge _ (bit - (32 * (last + 1) - shift)) (by omega)]
        simp [here, earlier]

/-- A word that is cut behind some bits. -/
theorem getLsbD_cut (word : BitVec 32) (inside : cut < 32) (bit : Nat) :
    (word % (1#32 <<< cut)).getLsbD bit = (decide (bit < cut) && word.getLsbD bit) := by
  have power : (1#32 <<< cut).toNat = 2 ^ cut := by
    rw [BitVec.toNat_shiftLeft, Nat.shiftLeft_eq]
    exact (congrArg (· % 2 ^ 32) (Nat.one_mul _)).trans
      (Nat.mod_eq_of_lt (Nat.pow_lt_pow_right (by decide) inside))
  rw [BitVec.getLsbD, BitVec.toNat_umod, power, Nat.testBit_mod_two_pow]
  rfl

/-- The bits of a value that ends within a word. -/
theorem getLsbD_join_cut (words : Words 32) (pointer : Nat) (inWord : shift < 32) {whole : Nat}
    (later : 0 < whole) (few : 32 * whole - shift < 128)
    (range : 32 * whole < delta + shift ∧ delta + shift < 32 * (whole + 1)) (inside : bit < 128) :
    ((join words pointer shift (whole - 1)).or
        (wordLeft (words (pointer + whole) % (1#32 <<< (delta + shift - 32 * whole)))
          (32 * whole - shift))).bits.getLsbD bit =
      (decide (bit < delta) && bitAt words (32 * pointer + (shift + bit))) := by
  obtain ⟨last, rfl⟩ : ∃ last, whole = last + 1 := ⟨whole - 1, by omega⟩
  rw [Nat.add_sub_cancel, bits_or, BitVec.getLsbD_or, getLsbD_join _ _ inWord _ (by omega) inside,
    getLsbD_wordLeft _ few inside, getLsbD_cut _ (by omega)]
  by_cases earlier : shift + bit < 32 * (last + 1)
  · have start : ¬ 32 * (last + 1) - shift ≤ bit := by omega
    have before : bit < delta := by omega
    simp [earlier, start, before]
  · by_cases before : bit < delta
    · have position := getLsbD_word words pointer (last + 1) (bit - (32 * (last + 1) - shift))
        (by omega)
      have total : 32 * (last + 1) + (bit - (32 * (last + 1) - shift)) = shift + bit := by omega
      rw [position, total, decide_eq_false earlier, decide_eq_true before,
        decide_eq_true (p := bit - (32 * (last + 1) - shift) < delta + shift - 32 * (last + 1))
          (by omega),
        decide_eq_true (p := 32 * (last + 1) - shift ≤ bit) (by omega)]
      simp
    · rw [decide_eq_false earlier, decide_eq_false before,
        decide_eq_false (p := bit - (32 * (last + 1) - shift) < delta + shift - 32 * (last + 1))
          (by omega)]
      simp

/-! ## Words that are loaded -/

/-- The buffer after its next words were read and the pointer was moved. -/
def passed (buffer : WordBuffer) (count moved : Nat) : WordBuffer where
  words := buffer.words
  pointer := buffer.pointer + moved
  touched := buffer.touched ++ List.range' buffer.pointer count

theorem load_first (buffer : WordBuffer) :
    load 0 buffer = (buffer.words buffer.pointer, passed buffer 1 0) := rfl

theorem load_passed (count moved offset : Nat) (next : moved + offset = count) :
    load offset (passed buffer count moved) =
      (buffer.words (buffer.pointer + count), passed buffer (count + 1) moved) := by
  have position : buffer.pointer + moved + offset = buffer.pointer + count := by omega
  dsimp only [load, passed]
  rw [position, List.range'_concat, List.append_assoc, Nat.one_mul]

theorem advance_passed (count moved : Nat) :
    advance moved (passed buffer count 0) = ((), passed buffer count moved) := rfl

/-- What unpacking a value returns and which words it reads. -/
structure Unpacked (delta shift : Nat) (buffer : WordBuffer) (moved : Nat)
    (result : Uhugeint × WordBuffer) : Prop where
  reads : result.2 = passed buffer (wordCount delta shift) moved
  bits : ∀ bit < 128, result.1.bits.getLsbD bit =
    (decide (bit < delta) && bitAt buffer.words (32 * buffer.pointer + shift + bit))

/-- The rest of a value, which is read if the value does not end with the word before. -/
theorem unpacked_rest (whole : Nat) (small : delta < 128) (inWord : shift < 32) (later : 0 < whole)
    (range : 32 * whole ≤ delta + shift ∧ delta + shift < 32 * (whole + 1))
    (hcut : cut = delta + shift - 32 * whole) :
    Unpacked delta shift buffer ((delta + shift) / 32)
      ((if 32 * whole < delta + shift then do
          let next ← load 0
          return (join buffer.words buffer.pointer shift (whole - 1)).or
            (wordLeft (next % (1#32 <<< cut)) (32 * whole - shift))
        else return join buffer.words buffer.pointer shift (whole - 1) : Buffered Uhugeint)
        (passed buffer whole whole)) := by
  have moved : (delta + shift) / 32 = whole := by omega
  by_cases more : 32 * whole < delta + shift
  · have count : wordCount delta shift = whole + 1 := by
      rw [wordCount]
      omega
    rw [if_pos more, moved, hcut]
    simp only [bind, StateT.bind, load_passed whole whole 0 rfl]
    constructor
    · rw [count]
      rfl
    · intro bit inside
      rw [Nat.add_assoc]
      exact getLsbD_join_cut buffer.words buffer.pointer inWord later (by omega) ⟨more, range.2⟩
        inside
  · have count : wordCount delta shift = whole := by
      rw [wordCount]
      omega
    have total : 32 * (whole - 1 + 1) = delta + shift := by omega
    rw [if_neg more, moved]
    constructor
    · rw [count]
      rfl
    · intro bit inside
      have same : (shift + bit < delta + shift) = (bit < delta) := by
        rw [Nat.add_comm delta, Nat.add_lt_add_iff_left]
      rw [Nat.add_assoc]
      refine (getLsbD_join buffer.words buffer.pointer inWord (whole - 1) (by omega) inside).trans ?_
      simp only [total, same]

theorem unpackSingle_spec (small : delta < 128) (inWord : shift < 32) (positive : 0 < delta) :
    Unpacked delta shift buffer ((delta + shift) / 32) (unpackSingle delta shift buffer) := by
  rw [unpackSingle]
  by_cases first : delta + shift < 32
  · have count : wordCount delta shift = 1 := by
      rw [wordCount]
      omega
    rw [if_pos first, Nat.div_eq_of_lt first]
    simp only [bind, StateT.bind, load_first]
    constructor
    · rw [count]
      rfl
    · intro bit inside
      refine (getLsbD_modulo small bit).trans ?_
      rw [getLsbD_wordRight _ (by omega)]
      by_cases before : bit < delta
      · have position := getLsbD_word buffer.words buffer.pointer 0 (shift + bit) (by omega)
        rw [Nat.mul_zero, Nat.zero_add, Nat.add_zero, ← Nat.add_assoc] at position
        rw [position]
      · simp [before]
  by_cases second : 32 ≤ delta + shift ∧ delta + shift < 64
  · rw [if_neg first, if_pos second]
    simp only [bind, StateT.bind, load_first, advance_passed]
    exact unpacked_rest 1 small inWord (by decide) second (by omega)
  by_cases third : 64 ≤ delta + shift ∧ delta + shift < 96
  · rw [if_neg first, if_neg second, if_pos third]
    simp only [bind, StateT.bind, load_first, load_passed 1 0 1 rfl, advance_passed]
    exact unpacked_rest 2 small inWord (by decide) third rfl
  by_cases fourth : 96 ≤ delta + shift ∧ delta + shift < 128
  · rw [if_neg first, if_neg second, if_neg third, if_pos fourth]
    simp only [bind, StateT.bind, load_first, load_passed 1 0 1 rfl, load_passed 2 0 2 rfl,
      advance_passed]
    exact unpacked_rest 3 small inWord (by decide) fourth rfl
  · rw [if_neg first, if_neg second, if_neg third, if_neg fourth]
    simp only [bind, StateT.bind, load_first, load_passed 1 0 1 rfl, load_passed 2 0 2 rfl,
      load_passed 3 0 3 rfl, advance_passed]
    exact unpacked_rest 4 small inWord (by decide) (by omega) rfl

/-- A word may be moved before or after it becomes a number of 128 bits. -/
theorem ofUInt32_shiftRight (word : BitVec 32) (small : shift < 128) :
    ofUInt32 (word >>> shift) = wordRight word shift := by
  apply bits_injective
  apply BitVec.eq_of_getLsbD_eq
  intro bit _
  rw [getLsbD_ofUInt32, getLsbD_wordRight word small, BitVec.getLsbD_ushiftRight]

/-- The last value of a group is all that is left in its words. -/
theorem unpackLast_spec (small : delta < 128) (partly : delta % 32 ≠ 0) :
    Unpacked delta ((delta * 31) % 32) buffer 0 (unpackLast delta buffer) := by
  rw [unpackLast]
  generalize hshift : (delta * 31) % 32 = shift
  have inWord : shift < 32 := by omega
  have count : 32 * wordCount delta shift = delta + shift := by
    rw [wordCount]
    omega
  generalize hcount : wordCount delta shift = words at count
  have next (offset : Nat) (later : 0 < offset) :
      joinAbove delta (32 * offset) offset (32 * offset - shift)
        (join buffer.words buffer.pointer shift (min offset words - 1))
        (passed buffer (min offset words) 0) =
        (join buffer.words buffer.pointer shift (min (offset + 1) words - 1),
          passed buffer (min (offset + 1) words) 0) := by
    rw [joinAbove]
    by_cases more : 32 * offset < delta
    · have here : min offset words = offset := by omega
      have there : min (offset + 1) words = offset + 1 := by omega
      have whole : offset - 1 + 1 = offset := by omega
      have joined : join buffer.words buffer.pointer shift offset =
          (join buffer.words buffer.pointer shift (offset - 1)).or
            (wordLeft (buffer.words (buffer.pointer + offset)) (32 * offset - shift)) := by
        rw [← whole, join, whole]
      rw [if_pos more, here, there, Nat.add_sub_cancel, joined]
      simp only [bind, StateT.bind, load_passed offset 0 offset (Nat.zero_add _)]
      rfl
    · have stays : min offset words = min (offset + 1) words := by omega
      rw [if_neg more, stays]
      rfl
  have start := next 1 (by decide)
  have third := next 2 (by decide)
  have fourth := next 3 (by decide)
  have lowest : min 1 words = 1 := by omega
  have highest : min 4 words = words := by omega
  rw [lowest] at start
  have second : joinAbove delta 32 1 (32 - shift)
      (wordRight (buffer.words buffer.pointer) shift) (passed buffer 1 0) = _ := start
  rw [highest] at fourth
  simp only [bind, StateT.bind, load_first, ofUInt32_shiftRight _ (Nat.lt_trans inWord (by decide))]
  rw [second]
  dsimp only
  rw [third]
  dsimp only
  rw [fourth]
  constructor
  · rw [hcount]
  · intro bit inside
    have total : words - 1 + 1 = words := by omega
    have same : (shift + bit < delta + shift) = (bit < delta) := by
      rw [Nat.add_comm delta, Nat.add_lt_add_iff_left]
    rw [Nat.add_assoc]
    refine (getLsbD_join buffer.words buffer.pointer inWord (words - 1) (by omega) inside).trans ?_
    simp only [total, count, same]

end HugeIntPacker

end StatsRecommender
