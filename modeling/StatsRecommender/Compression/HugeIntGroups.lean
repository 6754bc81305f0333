import StatsRecommender.Compression.HugeIntUnpacking

/-!
# Packed groups

What `HugeIntPacker` writes for the first values of a group, for every width, and that unpacking a
group that was packed gives each value without its bits from the width on.
-/

namespace StatsRecommender

open BitWords

namespace HugeIntPacker

open Uhugeint

variable {input out : Nat → Uhugeint} {width count : Nat} {before after buffer : WordBuffer}

/-! ## Packing -/

/-- The words that some bits lie in. -/
def wordsOf (bits : Nat) : Nat := (bits + 31) / 32

/-- The first values of a group lie in the words behind the pointer, and nothing else was touched. -/
structure Packed (input : Nat → Uhugeint) (width : Nat) (before : WordBuffer) (count : Nat)
    (after : WordBuffer) : Prop where
  values : ∀ i < count, ∀ bit < width,
    bitAt after.words (32 * before.pointer + width * i + bit) = (input i).bits.getLsbD bit
  other : ∀ index, index < before.pointer ∨ before.pointer + wordsOf (width * count) ≤ index →
    after.words index = before.words index
  touched : ∀ index, index ∈ after.touched ↔ index ∈ before.touched ∨
    before.pointer ≤ index ∧ index < before.pointer + wordsOf (width * count)

/-- The loop of `Pack` stands behind the values that it packed. -/
structure Packing (input : Nat → Uhugeint) (width : Nat) (before : WordBuffer) (count : Nat)
    (after : WordBuffer) : Prop extends Packed input width before count after where
  pointer : after.pointer = before.pointer + width * count / 32
  clean : Clean (width * count % 32) after

/-- What packing one more value adds, wherever the pointer is left. -/
theorem Packing.placed (packing : Packing input width before count after) (positive : 0 < width)
    (small : width < 128) (moved : Nat) :
    Packed input width before (count + 1) (placed (input count) width (width * count % 32) after
      (wordCount width (width * count % 32)) moved) := by
  have pointer := packing.pointer
  have next : width * (count + 1) = width * count + width := Nat.mul_add_one width count
  generalize hshift : width * count % 32 = shift
  have clean := packing.clean
  rw [hshift] at clean
  have inWord : shift < 32 := by omega
  have start : 32 * after.pointer + shift = 32 * before.pointer + width * count := by omega
  have some : 0 < wordCount width shift := by
    rw [wordCount]
    omega
  have ends : after.pointer + wordCount width shift =
      before.pointer + wordsOf (width * (count + 1)) := by
    rw [wordCount, wordsOf]
    omega
  have reach : after.pointer ≤ before.pointer + wordsOf (width * count) ∧
      wordsOf (width * count) ≤ wordsOf (width * (count + 1)) := by
    rw [wordsOf, wordsOf]
    omega
  constructor
  · intro i hi bit inside
    rcases Nat.lt_succ_iff_lt_or_eq.mp hi with earlier | rfl
    · have room : width * (i + 1) ≤ width * count := Nat.mul_le_mul_left width earlier
      rw [Nat.mul_add_one] at room
      rw [bitAt_placed_before (by omega) some inWord (by omega)]
      exact packing.values i earlier bit inside
    · rw [← start]
      apply bitAt_placed_value (by omega) _ clean inside
      rw [wordCount]
      omega
  · intro index outside
    rw [placed_outside some (by omega)]
    exact packing.other index (by omega)
  · intro index
    rw [HugeIntPacker.placed, List.mem_append, packing.touched, List.mem_range'_1, or_assoc]
    exact or_congr_right (by omega)

/-- One round of the loop. -/
theorem Packing.next (packing : Packing input width before count after) (positive : 0 < width)
    (small : width < 128) : Packing input width before (count + 1)
      (place (input count) width (width * count % 32) after) := by
  have pointer := packing.pointer
  have next : width * (count + 1) = width * count + width := Nat.mul_add_one width count
  have clean := packing.clean
  refine ⟨packing.placed positive small _, ?_, ?_⟩
  · dsimp only [place, HugeIntPacker.placed]
    rw [pointer, next]
    omega
  · intro partly bit behind inside
    generalize hshift : width * count % 32 = shift at clean ⊢
    have position : 32 * after.pointer + (32 * ((width + shift) / 32) + bit) =
        32 * (after.pointer + (width + shift) / 32) + bit := by omega
    have free := @bitAt_placed_behind (input count) width shift after (wordCount width shift)
      ((width + shift) / 32) (32 * ((width + shift) / 32) + bit) (by omega) clean
      (by rw [wordCount]; omega) (by omega)
    rw [position, bitAt] at free
    rw [Nat.mul_add_div (by decide), Nat.div_eq_of_lt inside, Nat.mul_add_mod,
      Nat.mod_eq_of_lt inside] at free
    exact free

theorem packLoop_spec (positive : 0 < width) (small : width < 128) (count : Nat) :
    Packing input width before count (packLoop input width count before).2 := by
  induction count with
  | zero =>
      have none : width * 0 = 0 := Nat.mul_zero width
      refine ⟨⟨fun i hi => absurd hi (Nat.not_lt_zero i), fun _ _ => rfl, fun index => ?_⟩, ?_, ?_⟩
      · rw [none]
        exact (or_iff_left (fun inside => by
          have empty : wordsOf 0 = 0 := rfl
          omega)).symm
      · rw [none]
        rfl
      · rw [none]
        exact fun partly => absurd rfl partly
  | succ count ih =>
      have round := congrArg Prod.snd (@packSingle_eq (input count) width (width * count % 32)
        (packLoop input width count before).2 positive small (Nat.mod_lt _ (by decide)))
      have packed := ih.next positive small
      dsimp only at round
      rw [← round] at packed
      exact packed

/-! ## Values of whole words -/

theorem getLsbD_wordOf (value : Uhugeint) {index : Nat} (few : index < 4) {place : Nat}
    (inside : place < 32) :
    (wordOf value index).getLsbD place = value.bits.getLsbD (32 * index + place) := by
  cases index with
  | zero =>
      rw [wordOf, getLsbD_toUInt32, decide_eq_true inside, Nat.mul_zero, Nat.zero_add]
      rfl
  | succ index =>
      rw [wordOf, getLsbD_toUInt32, getLsbD_shiftRight _ (by omega), decide_eq_true inside]
      rfl

/-- The words of one value are stored side by side. -/
structure Stored (offset : Nat) (value : Uhugeint) (before : WordBuffer) (count : Nat)
    (after : WordBuffer) : Prop where
  pointer : after.pointer = before.pointer
  here : ∀ index < count, after.words (before.pointer + offset + index) = wordOf value index
  other : ∀ index, index < before.pointer + offset ∨ before.pointer + offset + count ≤ index →
    after.words index = before.words index
  touched : after.touched = before.touched ++ List.range' (before.pointer + offset) count

theorem packWords_spec (offset : Nat) (value : Uhugeint) (before : WordBuffer) (count : Nat) :
    Stored offset value before count (packWords offset value count before).2 := by
  induction count with
  | zero =>
      refine ⟨rfl, fun index inside => absurd inside (Nat.not_lt_zero index), fun _ _ => rfl, ?_⟩
      exact (List.append_nil _).symm
  | succ count ih =>
      have position : (packWords offset value count before).2.pointer + (offset + count) =
          before.pointer + offset + count := by
        rw [ih.pointer, Nat.add_assoc]
      have round : (packWords offset value (count + 1) before).2 =
          { (packWords offset value count before).2 with
            words := setWord (packWords offset value count before).2.words
              ((packWords offset value count before).2.pointer + (offset + count))
              (wordOf value count)
            touched := (packWords offset value count before).2.touched ++
              [(packWords offset value count before).2.pointer + (offset + count)] } := rfl
      rw [round, position]
      constructor
      · exact ih.pointer
      · intro index inside
        dsimp only [setWord]
        by_cases last : index = count
        · rw [if_pos (by omega), last]
        · rw [if_neg (by omega), ih.here index (by omega)]
      · intro index outside
        dsimp only [setWord]
        rw [if_neg (by omega)]
        exact ih.other index (by omega)
      · dsimp only
        rw [ih.touched, List.range'_concat, Nat.one_mul, List.append_assoc]

theorem packDelta_spec (words : Nat) (some : 0 < words) (few : words ≤ 4) (count : Nat) :
    Packed input (32 * words) before count (packDelta words input count before).2 ∧
      (packDelta words input count before).2.pointer = before.pointer := by
  induction count with
  | zero =>
      refine ⟨⟨fun i hi => absurd hi (Nat.not_lt_zero i), fun _ _ => rfl, fun index => ?_⟩, rfl⟩
      have empty : wordsOf (32 * words * 0) = 0 := by
        rw [Nat.mul_zero]
        rfl
      exact (or_iff_left (by omega)).symm
  | succ count ih =>
      obtain ⟨packed, pointer⟩ := ih
      have stored := packWords_spec (words * count) (input count)
        (packDelta words input count before).2 words
      have round : (packDelta words input (count + 1) before).2 =
          (packWords (words * count) (input count) words
            (packDelta words input count before).2).2 := rfl
      have next : words * (count + 1) = words * count + words := Nat.mul_add_one words count
      have ends (number : Nat) : wordsOf (32 * words * number) = words * number := by
        rw [wordsOf, Nat.mul_assoc]
        omega
      rw [round]
      refine ⟨?_, stored.pointer.trans pointer⟩
      have other := stored.other
      have here := stored.here
      rw [pointer] at other here
      constructor
      · intro i hi bit inside
        have position : 32 * before.pointer + 32 * words * i + bit =
            32 * (before.pointer + words * i + bit / 32) + bit % 32 := by
          rw [Nat.mul_assoc]
          omega
        have word : (32 * before.pointer + 32 * words * i + bit) / 32 =
            before.pointer + words * i + bit / 32 := by omega
        have place : (32 * before.pointer + 32 * words * i + bit) % 32 = bit % 32 := by omega
        rcases Nat.lt_succ_iff_lt_or_eq.mp hi with earlier | rfl
        · have room : words * (i + 1) ≤ words * count := Nat.mul_le_mul_left words earlier
          rw [Nat.mul_add_one] at room
          rw [← packed.values i earlier bit inside, bitAt, bitAt, word, other _ (by omega)]
        · rw [bitAt, word, place, here _ (by omega),
            getLsbD_wordOf _ (by omega) (Nat.mod_lt _ (by decide)), Nat.div_add_mod]
      · intro index outside
        rw [ends, next] at outside
        rw [other index (by omega)]
        refine packed.other index ?_
        rw [ends]
        omega
      · intro index
        rw [stored.touched, List.mem_append, packed.touched, List.mem_range'_1, pointer, ends, ends,
          next, or_assoc]
        exact or_congr_right (by omega)

/-- `Pack` writes the bits of the values one behind the other and touches no other word. -/
theorem pack_spec (bound : width ≤ 128) (before : WordBuffer) :
    Packed input width before 32 (pack input width before).2 := by
  rw [pack]
  by_cases zero : width = 0
  · rw [if_pos zero, zero]
    refine ⟨fun i _ bit inside => absurd inside (Nat.not_lt_zero bit), fun _ _ => rfl,
      fun index => ?_⟩
    exact (or_iff_left (fun inside => absurd inside (by
      have empty : wordsOf (0 * 32) = 0 := rfl
      omega))).symm
  by_cases one : width = 32
  · rw [if_neg zero, if_pos one, one]
    exact (packDelta_spec 1 (by decide) (by decide) 32).1
  by_cases two : width = 64
  · rw [if_neg zero, if_neg one, if_pos two, two]
    exact (packDelta_spec 2 (by decide) (by decide) 32).1
  by_cases three : width = 96
  · rw [if_neg zero, if_neg one, if_neg two, if_pos three, three]
    exact (packDelta_spec 3 (by decide) (by decide) 32).1
  by_cases four : width = 128
  · rw [if_neg zero, if_neg one, if_neg two, if_neg three, if_pos four, four]
    exact (packDelta_spec 4 (by decide) (by decide) 32).1
  · rw [if_neg zero, if_neg one, if_neg two, if_neg three, if_neg four]
    have packing := @packLoop_spec input width before (by omega) (by omega) 31
    have last := packing.placed (by omega) (by omega) 0
    have ends := congrArg Prod.snd (@packLast_eq (input 31) width
      (packLoop input width 31 before).2 (by omega) (by omega))
    dsimp only at ends
    rw [← ends] at last
    exact last

/-! ## Unpacking -/

/-- The first values are read from the words behind the pointer, and no other word was touched. -/
structure Read (out : Nat → Uhugeint) (width : Nat) (before : WordBuffer) (count : Nat)
    (after : (Nat → Uhugeint) × WordBuffer) : Prop where
  words : after.2.words = before.words
  values : ∀ i < count, ∀ bit < 128, (after.1 i).bits.getLsbD bit =
    (decide (bit < width) && bitAt before.words (32 * before.pointer + width * i + bit))
  other : ∀ i, count ≤ i → after.1 i = out i
  touched : ∀ index, index ∈ after.2.touched ↔ index ∈ before.touched ∨
    before.pointer ≤ index ∧ index < before.pointer + wordsOf (width * count)

variable {result : (Nat → Uhugeint) × WordBuffer}

/-- What unpacking one more value adds, wherever the pointer is left. -/
theorem Read.next (read : Read out width before count result) (positive : 0 < width)
    (pointer : result.2.pointer = before.pointer + width * count / 32) {moved : Nat}
    {value : Uhugeint × WordBuffer}
    (unpacked : Unpacked width (width * count % 32) result.2 moved value) :
    Read out width before (count + 1) (Function.update result.1 count value.1, value.2) := by
  have next : width * (count + 1) = width * count + width := Nat.mul_add_one width count
  constructor
  · rw [unpacked.reads]
    exact read.words
  · intro i hi bit inside
    dsimp only
    rcases Nat.lt_succ_iff_lt_or_eq.mp hi with earlier | rfl
    · rw [Function.update_of_ne (Nat.ne_of_lt earlier)]
      exact read.values i earlier bit inside
    · have start : 32 * result.2.pointer + width * i % 32 = 32 * before.pointer + width * i := by
        omega
      rw [Function.update_self, unpacked.bits bit inside, read.words, start]
  · intro i behind
    dsimp only
    rw [Function.update_of_ne (by omega)]
    exact read.other i (by omega)
  · intro index
    dsimp only
    rw [unpacked.reads, passed, List.mem_append, read.touched, List.mem_range'_1, or_assoc, pointer]
    refine or_congr_right ?_
    rw [wordsOf, wordsOf, wordCount, next]
    omega

theorem read_none (out : Nat → Uhugeint) (width : Nat) (before : WordBuffer) :
    Read out width before 0 (out, before) := by
  refine ⟨rfl, fun i hi => absurd hi (Nat.not_lt_zero i), fun _ _ => rfl, fun index => ?_⟩
  have empty : wordsOf (width * 0) = 0 := by
    rw [Nat.mul_zero]
    rfl
  exact (or_iff_left (by omega)).symm

theorem unpackLoop_spec (positive : 0 < width) (small : width < 128) (count : Nat) :
    Read out width before count (unpackLoop width out count before) ∧
      (unpackLoop width out count before).2.pointer = before.pointer + width * count / 32 := by
  induction count with
  | zero =>
      refine ⟨read_none out width before, ?_⟩
      rw [Nat.mul_zero]
      rfl
  | succ count ih =>
      obtain ⟨read, pointer⟩ := ih
      have unpacked := @unpackSingle_spec width (width * count % 32)
        (unpackLoop width out count before).2 small (Nat.mod_lt _ (by decide)) positive
      have round : unpackLoop width out (count + 1) before =
          (Function.update (unpackLoop width out count before).1 count
            (unpackSingle width (width * count % 32) (unpackLoop width out count before).2).1,
          (unpackSingle width (width * count % 32) (unpackLoop width out count before).2).2) := rfl
      rw [round]
      refine ⟨read.next positive pointer unpacked, ?_⟩
      dsimp only
      rw [unpacked.reads, passed, pointer, Nat.mul_add_one]
      dsimp only
      omega

/-- The words of one value are read side by side. -/
theorem unpackWords_eq (offset last : Nat) (before : WordBuffer) :
    unpackWords offset last before =
      (join before.words (before.pointer + offset) 0 last,
        { before with touched :=
          before.touched ++ List.range' (before.pointer + offset) (last + 1) }) := by
  induction last with
  | zero =>
      refine Prod.ext ?_ rfl
      apply bits_injective
      apply BitVec.eq_of_getLsbD_eq
      intro bit _
      refine (getLsbD_ofUInt32 _ bit).trans ?_
      rw [join, getLsbD_wordRight _ (by decide), Nat.zero_add]
  | succ last ih =>
      have grown : List.range' (before.pointer + offset) (last + 1 + 1) =
          List.range' (before.pointer + offset) (last + 1) ++
            [before.pointer + offset + (last + 1)] := by
        rw [List.range'_concat, Nat.one_mul]
      have position : before.pointer + (offset + (last + 1)) =
          before.pointer + offset + (last + 1) := (Nat.add_assoc _ _ _).symm
      rw [unpackWords]
      simp only [bind, StateT.bind, ih]
      refine Prod.ext ?_ (WordBuffer.ext rfl rfl ?_)
      · dsimp only [load, pure, StateT.pure]
        rw [position]
        rfl
      · dsimp only [load, pure, StateT.pure]
        rw [position, List.append_assoc, grown]

theorem unpackDelta_spec (words : Nat) (some : 0 < words) (few : words ≤ 4) (count : Nat) :
    Read out (32 * words) before count (unpackDelta words out count before) ∧
      (unpackDelta words out count before).2.pointer = before.pointer := by
  induction count with
  | zero => exact ⟨read_none out (32 * words) before, rfl⟩
  | succ count ih =>
      obtain ⟨read, pointer⟩ := ih
      have whole : words - 1 + 1 = words := by omega
      have next : words * (count + 1) = words * count + words := Nat.mul_add_one words count
      have ends (number : Nat) : wordsOf (32 * words * number) = words * number := by
        rw [wordsOf, Nat.mul_assoc]
        omega
      have reads := unpackWords_eq (words * count) (words - 1)
        (unpackDelta words out count before).2
      rw [pointer, whole, read.words] at reads
      have round : unpackDelta words out (count + 1) before =
          (Function.update (unpackDelta words out count before).1 count
            (unpackWords (words * count) (words - 1) (unpackDelta words out count before).2).1,
          (unpackWords (words * count) (words - 1) (unpackDelta words out count before).2).2) := rfl
      rw [round, reads]
      refine ⟨⟨rfl, ?_, ?_, ?_⟩, rfl⟩
      · intro i hi bit inside
        dsimp only
        rcases Nat.lt_succ_iff_lt_or_eq.mp hi with earlier | rfl
        · rw [Function.update_of_ne (Nat.ne_of_lt earlier)]
          exact read.values i earlier bit inside
        · have start : 32 * (before.pointer + words * i) + (0 + bit) =
              32 * before.pointer + 32 * words * i + bit := by
            rw [Nat.mul_assoc]
            omega
          have same : (0 + bit < 32 * words) = (bit < 32 * words) := by rw [Nat.zero_add]
          rw [Function.update_self, getLsbD_join _ _ (by decide) _ (by omega) inside, whole, start]
          simp only [same]
      · intro i behind
        dsimp only
        rw [Function.update_of_ne (by omega)]
        exact read.other i (by omega)
      · intro index
        dsimp only
        rw [List.mem_append, read.touched, List.mem_range'_1, or_assoc, ends, ends, next]
        exact or_congr_right (by omega)

theorem unpackDelta0_eq (out : Nat → Uhugeint) (count i : Nat) :
    unpackDelta0 out count i = if i < count then ofUInt64 0 else out i := by
  induction count with
  | zero => rfl
  | succ count ih =>
      rw [unpackDelta0]
      by_cases last : i = count
      · rw [last, Function.update_self, if_pos (Nat.lt_succ_self count)]
      · rw [Function.update_of_ne last, ih]
        simp only [Nat.lt_succ_iff_lt_or_eq, last, or_false]

/-- `Unpack` reads the bits of the values one behind the other and touches no other word. -/
theorem unpack_spec (bound : width ≤ 128) (out : Nat → Uhugeint) (before : WordBuffer) :
    Read out width before 32 (unpack out width before) := by
  rw [unpack]
  by_cases zero : width = 0
  · rw [if_pos zero, zero]
    refine ⟨rfl, fun i hi bit _ => ?_, fun i behind => ?_, fun index => ?_⟩
    · dsimp only [pure, StateT.pure]
      rw [unpackDelta0_eq, if_pos hi]
      have empty : (ofUInt64 0).bits = 0#128 := by decide
      rw [empty, BitVec.getLsbD_zero]
      simp
    · dsimp only [pure, StateT.pure]
      rw [unpackDelta0_eq, if_neg (Nat.not_lt_of_le behind)]
    · have empty : wordsOf (0 * 32) = 0 := rfl
      exact (or_iff_left (by omega)).symm
  by_cases one : width = 32
  · rw [if_neg zero, if_pos one, one]
    exact (unpackDelta_spec 1 (by decide) (by decide) 32).1
  by_cases two : width = 64
  · rw [if_neg zero, if_neg one, if_pos two, two]
    exact (unpackDelta_spec 2 (by decide) (by decide) 32).1
  by_cases three : width = 96
  · rw [if_neg zero, if_neg one, if_neg two, if_pos three, three]
    exact (unpackDelta_spec 3 (by decide) (by decide) 32).1
  by_cases four : width = 128
  · rw [if_neg zero, if_neg one, if_neg two, if_neg three, if_pos four, four]
    exact (unpackDelta_spec 4 (by decide) (by decide) 32).1
  · rw [if_neg zero, if_neg one, if_neg two, if_neg three, if_neg four]
    obtain ⟨read, pointer⟩ := @unpackLoop_spec out width before (by omega) (by omega) 31
    have last := @unpackLast_spec width (unpackLoop width out 31 before).2 (by omega) (by omega)
    have next := read.next (by omega) pointer last
    have group : groupSize - 1 = 31 := rfl
    simp only [bind, StateT.bind, group]
    exact next

/-! ## Round trips -/

/-- The accessed words are the words of a group. -/
def TouchesGroup (width start : Nat) (buffer : WordBuffer) : Prop :=
  ∀ index, index ∈ buffer.touched ↔ start ≤ index ∧ index < start + width

theorem touchesGroup_of_wordsOf {start : Nat} (touched : ∀ index, index ∈ buffer.touched ↔
    index ∈ [] ∨ start ≤ index ∧ index < start + wordsOf (width * 32)) :
    TouchesGroup width start buffer := by
  have whole : wordsOf (width * 32) = width := by
    rw [wordsOf]
    omega
  intro index
  rw [touched index, whole]
  simp

/-- Unpacking a packed group gives every value modulo the power of the width, whatever the buffers
held before; both touch as many words as the width says, and no value behind the group changes. -/
theorem unpack_of_pack (width : Nat) (bound : width ≤ 128) (input out : Nat → Uhugeint)
    (words : Words 32) (start : Nat) :
    let packed := (pack input width ⟨words, start, []⟩).2
    let unpacked := unpack out width ⟨packed.words, start, []⟩
    (∀ i < 32, (unpacked.1 i).bits.toNat = (input i).bits.toNat % 2 ^ width) ∧
      (∀ i, 32 ≤ i → unpacked.1 i = out i) ∧
      TouchesGroup width start packed ∧ TouchesGroup width start unpacked.2 ∧
      (∀ index, index < start ∨ start + width ≤ index → packed.words index = words index) ∧
      unpacked.2.words = packed.words := by
  intro packed unpacked
  have written := @pack_spec input width bound ⟨words, start, []⟩
  have read := unpack_spec bound out ⟨packed.words, start, []⟩
  have whole : wordsOf (width * 32) = width := by
    rw [wordsOf]
    omega
  refine ⟨fun i hi => ?_, read.other, touchesGroup_of_wordsOf written.touched,
    touchesGroup_of_wordsOf read.touched, fun index outside => written.other index ?_, read.words⟩
  · apply Nat.eq_of_testBit_eq
    intro bit
    rw [Nat.testBit_mod_two_pow]
    change (unpacked.1 i).bits.getLsbD bit = (decide (bit < width) && (input i).bits.getLsbD bit)
    by_cases inside : bit < 128
    · rw [read.values i hi bit inside]
      by_cases below : bit < width
      · rw [written.values i hi bit below]
      · simp [below]
    · rw [BitVec.getLsbD_of_ge _ bit (by omega), BitVec.getLsbD_of_ge _ bit (by omega),
        Bool.and_false]
  · rw [whole]
    exact outside

/-- A value whose bits are all ones. -/
def allOnes : Uhugeint := ⟨BitVec.allOnes 64, BitVec.allOnes 64⟩

/-- A group of width 37 of values that are all ones, over words that are not clean. -/
theorem unpack_of_pack_ones :
    let packed := (pack (fun _ => allOnes) 37 ⟨fun _ => 5, 7, []⟩).2
    let unpacked := unpack (fun _ => allOnes) 37 ⟨packed.words, 7, []⟩
    (∀ i < 32, (unpacked.1 i).bits.toNat = 2 ^ 37 - 1) ∧ TouchesGroup 37 7 packed := by
  have value : allOnes.bits.toNat % 2 ^ 37 = 2 ^ 37 - 1 := by decide
  have group := unpack_of_pack 37 (by decide) (fun _ => allOnes) (fun _ => allOnes) (fun _ => 5) 7
  rw [← value]
  exact ⟨group.1, group.2.2.1⟩

end HugeIntPacker

end StatsRecommender
