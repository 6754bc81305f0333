import StatsRecommender.Compression.HugeIntPacker

/-!
# What packing writes and unpacking reads

A packed group is one sequence of bits: the bits of the values one behind the other.  Packing a
value appends its bits and leaves the word that it ends in clean behind them; unpacking a value
reads these bits again.
-/

namespace StatsRecommender

open BitWords

namespace HugeIntPacker

open Uhugeint

variable {input value : Uhugeint} {delta shift : Nat} {buffer : WordBuffer}

/-! ## The words of a value -/

/-- A word of a value that is moved to the left. -/
def chunk (input : Uhugeint) (delta shift index : Nat) : BitVec 32 :=
  ((((input.bits.setWidth delta).setWidth 160) <<< shift) >>> (32 * index)).setWidth 32

theorem getLsbD_chunk (few : delta + shift ≤ 160) (index : Nat) {place : Nat}
    (inside : place < 32) : (chunk input delta shift index).getLsbD place =
      (decide (shift ≤ 32 * index + place) && decide (32 * index + place < shift + delta) &&
        input.bits.getLsbD (32 * index + place - shift)) := by
  simp only [chunk, BitVec.getLsbD_setWidth, BitVec.getLsbD_ushiftRight, BitVec.getLsbD_shiftLeft]
  grind

/-- The mask of a width. -/
def maskOf (delta : Nat) : Uhugeint :=
  ((ofUInt64 1).shiftLeft (ofUInt64 delta)).sub (ofUInt64 1)

theorem getLsbD_and_mask (small : delta < 128) (place : Nat) :
    (input.and (maskOf delta)).bits.getLsbD place =
      (input.bits.getLsbD place && decide (place < delta)) := by
  rw [bits_and, BitVec.getLsbD_and, maskOf, getLsbD_mask small]

variable (small : delta < 128) (inWord : shift < 32)
include small inWord

theorem masked_eq_chunk :
    ((input.and (maskOf delta)).shiftLeft (ofUInt64 shift)).toUInt32 =
      chunk input delta shift 0 := by
  apply BitVec.eq_of_getLsbD_eq
  intro place inside
  rw [getLsbD_chunk (by omega) 0 inside, getLsbD_toUInt32, getLsbD_shiftLeft _ (by omega),
    getLsbD_and_mask small]
  grind

theorem unmasked_eq_chunk (full : 32 ≤ shift + delta) :
    (input.shiftLeft (ofUInt64 shift)).toUInt32 = chunk input delta shift 0 := by
  apply BitVec.eq_of_getLsbD_eq
  intro place inside
  rw [getLsbD_chunk (by omega) 0 inside, getLsbD_toUInt32, getLsbD_shiftLeft _ (by omega)]
  grind

/-- A later word, after the value was moved to the right. -/
theorem right_eq_chunk {index : Nat} (next : 0 < index) (distance : 32 * index - shift < 128) :
    ((input.and (maskOf delta)).shiftRight (ofUInt64 (32 * index - shift))).toUInt32 =
      chunk input delta shift index := by
  apply BitVec.eq_of_getLsbD_eq
  intro place inside
  rw [getLsbD_chunk (by omega) index inside, getLsbD_toUInt32, getLsbD_shiftRight _ distance,
    getLsbD_and_mask small]
  have moved : 32 * index - shift + place = 32 * index + place - shift := by omega
  rw [moved]
  grind

/-- A later word that the value fills. -/
theorem right_unmasked_eq_chunk {index : Nat} (next : 0 < index)
    (full : 32 * (index + 1) ≤ shift + delta) :
    (input.shiftRight (ofUInt64 (32 * index - shift))).toUInt32 =
      chunk input delta shift index := by
  apply BitVec.eq_of_getLsbD_eq
  intro place inside
  rw [getLsbD_chunk (by omega) index inside, getLsbD_toUInt32, getLsbD_shiftRight _ (by omega)]
  have moved : 32 * index - shift + place = 32 * index + place - shift := by omega
  rw [moved]
  grind

omit small inWord

theorem masked_eq_chunk_zero (small : delta < 128) :
    (input.and (maskOf delta)).toUInt32 = chunk input delta 0 0 := by
  apply BitVec.eq_of_getLsbD_eq
  intro place inside
  rw [getLsbD_chunk (by omega) 0 inside, getLsbD_toUInt32, getLsbD_and_mask small]
  grind

/-! ## Packing a value -/

/-- The words that a value of `delta` bits lies in, from a bit of the first word on. -/
def wordCount (delta shift : Nat) : Nat := (delta + shift + 31) / 32

/-- The first word after a value was packed into it. -/
def firstWord (input : Uhugeint) (delta shift : Nat) (buffer : WordBuffer) : BitVec 32 :=
  (if shift = 0 then 0#32 else buffer.words buffer.pointer) ||| chunk input delta shift 0

/-- The buffer after some words of a value were stored and the pointer was moved. -/
def placed (input : Uhugeint) (delta shift : Nat) (buffer : WordBuffer) (count moved : Nat) :
    WordBuffer where
  words index :=
    if index = buffer.pointer then firstWord input delta shift buffer
    else if buffer.pointer < index ∧ index < buffer.pointer + count then
      chunk input delta shift (index - buffer.pointer)
    else buffer.words index
  pointer := buffer.pointer + moved
  touched := buffer.touched ++ List.range' buffer.pointer count

theorem store_first (buffer : WordBuffer) : store 0 (firstWord input delta shift buffer) buffer =
    ((), placed input delta shift buffer 1 0) := by
  refine Prod.ext rfl (WordBuffer.ext ?_ rfl rfl)
  funext index
  dsimp only [store, placed, setWord]
  grind

theorem store_placed (count moved offset : Nat) (next : moved + offset = count)
    (later : 0 < count) : store offset (chunk input delta shift count)
      (placed input delta shift buffer count moved) =
      ((), placed input delta shift buffer (count + 1) moved) := by
  have position : buffer.pointer + moved + offset = buffer.pointer + count := by omega
  refine Prod.ext rfl (WordBuffer.ext ?_ rfl ?_)
  · funext index
    dsimp only [store, placed, setWord]
    rw [position]
    grind
  · dsimp only [store, placed]
    rw [position, List.range'_concat, List.append_assoc, Nat.one_mul]

theorem advance_placed (count moved : Nat) :
    advance moved (placed input delta shift buffer count 0) =
      ((), placed input delta shift buffer count moved) := rfl

/-- The buffer after a value was packed behind the first bits of the current word. -/
def place (input : Uhugeint) (delta shift : Nat) (buffer : WordBuffer) : WordBuffer :=
  placed input delta shift buffer (wordCount delta shift) ((delta + shift) / 32)

theorem storeOr_eq (word : BitVec 32) (buffer : WordBuffer) :
    storeOr 0 word buffer = store 0 (buffer.words buffer.pointer ||| word) buffer := rfl

/-- The first word that is stored. -/
theorem storeFirst_eq (small : delta < 128) (joined : Uhugeint)
    (same : (joined.shiftLeft (ofUInt64 shift)).toUInt32 = chunk input delta shift 0)
    (buffer : WordBuffer) : storeFirst (input.and (maskOf delta)) joined shift buffer =
      store 0 (firstWord input delta shift buffer) buffer := by
  rw [storeFirst, firstWord]
  by_cases zero : shift = 0
  · rw [if_pos zero, if_pos zero, zero, masked_eq_chunk_zero small, BitVec.zero_or]
  · rw [if_neg zero, if_neg zero, storeOr_eq, same]

/-- The last word of a value, which is stored if the value does not end with the word before. -/
theorem store_rest {whole : Nat} (later : 0 < whole)
    (range : 32 * whole ≤ delta + shift ∧ delta + shift < 32 * (whole + 1)) {word : BitVec 32}
    (same : 32 * whole < delta + shift → word = chunk input delta shift whole) :
    (if 32 * whole < delta + shift then store 0 word else pure ())
        (placed input delta shift buffer whole whole) =
      ((), place input delta shift buffer) := by
  have moved : (delta + shift) / 32 = whole := by omega
  by_cases more : 32 * whole < delta + shift
  · have count : wordCount delta shift = whole + 1 := by
      rw [wordCount]
      omega
    rw [if_pos more, same more, store_placed whole whole 0 rfl later, place, count, moved]
  · have count : wordCount delta shift = whole := by
      rw [wordCount]
      omega
    rw [if_neg more, place, count, moved]
    rfl

theorem packSingle_eq (positive : 0 < delta) (small : delta < 128) (inWord : shift < 32) :
    packSingle input delta shift (maskOf delta) buffer = ((), place input delta shift buffer) := by
  have right {index : Nat} (next : 0 < index) (distance : 32 * index - shift < 128) :=
    @right_eq_chunk input delta shift small inWord index next distance
  have masked := storeFirst_eq small _ (@masked_eq_chunk input delta shift small inWord)
  rw [packSingle]
  by_cases first : delta + shift < 32
  · have count : wordCount delta shift = 1 := by
      rw [wordCount]
      omega
    rw [if_pos first, masked, store_first, place, count, Nat.div_eq_of_lt first]
  by_cases second : 32 ≤ delta + shift ∧ delta + shift < 64
  · rw [if_neg first, if_pos second]
    simp only [bind, StateT.bind, masked, store_first, advance_placed]
    exact store_rest (by decide) second fun _ => @right 1 (by decide) (by omega)
  have unmasked := storeFirst_eq small _
    (@unmasked_eq_chunk input delta shift small inWord (by omega))
  have word₁ : _ = chunk input delta shift 1 := @right 1 (by decide) (by omega)
  by_cases third : 64 ≤ delta + shift ∧ delta + shift < 96
  · rw [if_neg first, if_neg second, if_pos third]
    simp only [bind, StateT.bind, unmasked, store_first, word₁, store_placed 1 0 1 rfl (by decide),
      advance_placed]
    exact store_rest (by decide) third fun _ => @right 2 (by decide) (by omega)
  have word₂ : _ = chunk input delta shift 2 := @right 2 (by decide) (by omega)
  by_cases fourth : 96 ≤ delta + shift ∧ delta + shift < 128
  · rw [if_neg first, if_neg second, if_neg third, if_pos fourth]
    simp only [bind, StateT.bind, unmasked, store_first, word₁, word₂,
      store_placed 1 0 1 rfl (by decide), store_placed 2 0 2 rfl (by decide), advance_placed]
    exact store_rest (by decide) fourth fun _ => @right 3 (by decide) (by omega)
  have word₃ : _ = chunk input delta shift 3 := @right 3 (by decide) (by omega)
  have joined : shift ≠ 0 := by omega
  have fresh : storeOr 0 (input.shiftLeft (ofUInt64 shift)).toUInt32 buffer =
      store 0 (firstWord input delta shift buffer) buffer := by
    rw [← unmasked, storeFirst, if_neg joined]
  rw [if_neg first, if_neg second, if_neg third, if_neg fourth]
  simp only [bind, StateT.bind, fresh, store_first, word₁, word₂, word₃,
    store_placed 1 0 1 rfl (by decide), store_placed 2 0 2 rfl (by decide),
    store_placed 3 0 3 rfl (by decide), advance_placed]
  exact store_rest (by decide) (by omega) fun _ => @right 4 (by decide) (by omega)

/-- The last value of a group ends with a word. -/
theorem packLast_eq (small : delta < 128) (partly : delta % 32 ≠ 0) :
    packLast input delta buffer = ((), placed input delta ((delta * 31) % 32) buffer
      (wordCount delta ((delta * 31) % 32)) 0) := by
  generalize hshift : (delta * 31) % 32 = shift
  have inWord : shift < 32 := by omega
  have ends : (delta + shift) % 32 = 0 := by omega
  have right {index : Nat} (next : 0 < index) (full : 32 * (index + 1) ≤ shift + delta) :=
    @right_unmasked_eq_chunk input delta shift small inWord index next full
  have fresh : storeOr 0 (input.shiftLeft (ofUInt64 shift)).toUInt32 buffer =
      store 0 (firstWord input delta shift buffer) buffer := by
    rw [storeOr_eq, @unmasked_eq_chunk input delta shift small inWord (by omega), firstWord,
      if_neg (by omega)]
  have next (offset : Nat) (later : 0 < offset) (word : BitVec 32)
      (same : 32 * offset < delta → word = chunk input delta shift offset) :
      storeAbove delta (32 * offset) offset word
        (placed input delta shift buffer (min offset (wordCount delta shift)) 0) =
        ((), placed input delta shift buffer (min (offset + 1) (wordCount delta shift)) 0) := by
    have count : wordCount delta shift = (delta + shift) / 32 := by
      rw [wordCount]
      omega
    by_cases more : 32 * offset < delta
    · have here : min offset (wordCount delta shift) = offset := by omega
      have there : min (offset + 1) (wordCount delta shift) = offset + 1 := by omega
      rw [storeAbove, if_pos more, same more, here, there,
        store_placed offset 0 offset (Nat.zero_add _) later]
    · have stays : min offset (wordCount delta shift) =
          min (offset + 1) (wordCount delta shift) := by omega
      rw [storeAbove, if_neg more, stays]
      rfl
  have lowest : min 1 (wordCount delta shift) = 1 := by
    rw [wordCount]
    omega
  have highest : min 4 (wordCount delta shift) = wordCount delta shift := by
    rw [wordCount]
    omega
  have second := next 1 (by decide) _ fun more => right (by decide) (by omega)
  have third := next 2 (by decide) _ fun more => right (by decide) (by omega)
  have fourth := next 3 (by decide) _ fun more => right (by decide) (by omega)
  rw [packLast]
  simp only [bind, StateT.bind, hshift, fresh, store_first]
  rw [lowest] at second
  rw [highest] at fourth
  rw [second]
  dsimp only
  rw [third]
  dsimp only
  rw [fourth]

/-! ## The bits of a packed value -/

/-- The word that the last value ended in is clean behind it. -/
def Clean (shift : Nat) (buffer : WordBuffer) : Prop :=
  shift ≠ 0 → ∀ place, shift ≤ place → place < 32 →
    (buffer.words buffer.pointer).getLsbD place = false

theorem placed_outside {count moved index : Nat} (positive : 0 < count)
    (outside : index < buffer.pointer ∨ buffer.pointer + count ≤ index) :
    (placed input delta shift buffer count moved).words index = buffer.words index := by
  dsimp only [placed]
  rw [if_neg (by omega), if_neg (by omega)]

/-- The bits of a word of the value, with what stood before the value in the first word. -/
theorem getLsbD_placed (few : delta + shift ≤ 160) {count moved index place : Nat}
    (inside : index < count) (inWord : place < 32) :
    ((placed input delta shift buffer count moved).words (buffer.pointer + index)).getLsbD place =
      (decide (index = 0 ∧ shift ≠ 0) && (buffer.words buffer.pointer).getLsbD place ||
        (decide (shift ≤ 32 * index + place) && decide (32 * index + place < shift + delta) &&
          input.bits.getLsbD (32 * index + place - shift))) := by
  dsimp only [placed]
  by_cases first : index = 0
  · rw [if_pos (by omega), firstWord, BitVec.getLsbD_or, getLsbD_chunk few 0 inWord, first]
    by_cases zero : shift = 0
    · simp [zero]
    · simp [zero]
  · rw [if_neg (by omega), if_pos (by omega), Nat.add_sub_cancel_left,
      getLsbD_chunk few index inWord]
    simp [first]

variable {count moved position : Nat}

theorem bitAt_placed (few : delta + shift ≤ 160) (inside : position < 32 * count) :
    bitAt (placed input delta shift buffer count moved).words (32 * buffer.pointer + position) =
      (decide (position < 32 ∧ shift ≠ 0) &&
          bitAt buffer.words (32 * buffer.pointer + position) ||
        (decide (shift ≤ position) && decide (position < shift + delta) &&
          input.bits.getLsbD (position - shift))) := by
  have word : (32 * buffer.pointer + position) / 32 = buffer.pointer + position / 32 := by omega
  have place : (32 * buffer.pointer + position) % 32 = position % 32 := by omega
  have whole : 32 * (position / 32) + position % 32 = position := Nat.div_add_mod _ _
  rw [bitAt, bitAt, word, place, getLsbD_placed few (by omega) (Nat.mod_lt _ (by decide)), whole]
  by_cases first : position < 32
  · have zero : position / 32 = 0 := by omega
    simp [zero, first]
  · have later : position / 32 ≠ 0 := by omega
    simp [later, first]

/-- Bits before the value are kept. -/
theorem bitAt_placed_before (few : delta + shift ≤ 160) (positive : 0 < count) (inWord : shift < 32)
    (before : position < 32 * buffer.pointer + shift) :
    bitAt (placed input delta shift buffer count moved).words position =
      bitAt buffer.words position := by
  by_cases earlier : position < 32 * buffer.pointer
  · rw [bitAt, placed_outside positive (by omega), bitAt]
  · obtain ⟨inside, rfl⟩ : ∃ inside, position = 32 * buffer.pointer + inside :=
      ⟨position - 32 * buffer.pointer, by omega⟩
    rw [bitAt_placed few (by omega), decide_eq_true (by omega), decide_eq_false (by omega)]
    simp

/-- The bits of the value. -/
theorem bitAt_placed_value (few : delta + shift ≤ 160) (enough : delta + shift ≤ 32 * count)
    (clean : Clean shift buffer) {bit : Nat} (inside : bit < delta) :
    bitAt (placed input delta shift buffer count moved).words
      (32 * buffer.pointer + shift + bit) = input.bits.getLsbD bit := by
  rw [Nat.add_assoc, bitAt_placed few (by omega), decide_eq_true (p := shift ≤ shift + bit)
    (by omega), decide_eq_true (p := shift + bit < shift + delta) (by omega),
    Nat.add_sub_cancel_left]
  by_cases first : shift + bit < 32 ∧ shift ≠ 0
  · have word : (32 * buffer.pointer + (shift + bit)) / 32 = buffer.pointer := by omega
    have place : (32 * buffer.pointer + (shift + bit)) % 32 = shift + bit := by omega
    rw [bitAt, word, place, clean first.2 _ (by omega) first.1]
    simp
  · rw [decide_eq_false first]
    simp

/-- Nothing stands behind the value in its last word. -/
theorem bitAt_placed_behind (few : delta + shift ≤ 160) (clean : Clean shift buffer)
    (inside : position < 32 * count) (behind : shift + delta ≤ position) :
    bitAt (placed input delta shift buffer count moved).words (32 * buffer.pointer + position) =
      false := by
  rw [bitAt_placed few inside, decide_eq_false (p := position < shift + delta) (by omega)]
  by_cases first : position < 32 ∧ shift ≠ 0
  · have word : (32 * buffer.pointer + position) / 32 = buffer.pointer := by omega
    have place : (32 * buffer.pointer + position) % 32 = position := by omega
    rw [bitAt, word, place, clean first.2 _ (by omega) first.1]
    simp
  · rw [decide_eq_false first]
    simp

end HugeIntPacker

end StatsRecommender
