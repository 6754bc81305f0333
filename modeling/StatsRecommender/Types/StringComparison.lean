import StatsRecommender.Types.StringType

/-!
# Comparisons of strings

What the bytes of a `string_t` say about the string that it stands for, however it was built, and
that the comparisons of words decide equality and the lexicographic order of the strings.
-/

namespace StatsRecommender

open ByteMemory ByteOrder

/-! ## Rows of bytes as words -/

@[simp] theorem length_readBytes (memory : Memory) (address size : Nat) :
    (readBytes memory address size).length = size := by
  simp [readBytes]

theorem take_readBytes (memory : Memory) (address : Nat) {size larger : Nat}
    (le : size ≤ larger) :
    (readBytes memory address larger).take size = readBytes memory address size := by
  rw [readBytes, ← List.map_take, List.take_range, Nat.min_eq_left le, readBytes]

@[simp] theorem length_wordBytes (width word : Nat) : (wordBytes width word).length = width := by
  induction width generalizing word with
  | zero => rfl
  | succ width ih => simp [wordBytes, ih]

theorem littleEndian_wordBytes (width word : Nat) :
    littleEndian (wordBytes width word) = word % 256 ^ width := by
  induction width generalizing word with
  | zero => simp [wordBytes, littleEndian, Nat.mod_one]
  | succ width ih =>
      rw [wordBytes, littleEndian, ih, Nat.pow_succ', Nat.mod_mul]
      rfl

theorem toNat_load (width : Nat) (bytes : List UInt8) :
    (load width bytes).toNat = littleEndian (bytes.take width) := by
  have small := littleEndian_lt (bytes.take width)
  have fewer : 256 ^ (bytes.take width).length ≤ 2 ^ (8 * width) := by
    rw [Nat.pow_mul]
    exact Nat.pow_le_pow_right (by decide) (List.length_take_le _ _)
  rw [load, BitVec.toNat_ofNat, Nat.mod_eq_of_lt (Nat.lt_of_lt_of_le small fewer)]

/-- Words are equal as the bytes that are loaded. -/
theorem load_eq_iff {width : Nat} {left right : List UInt8}
    (size : (left.take width).length = (right.take width).length) :
    load width left = load width right ↔ left.take width = right.take width := by
  rw [← BitVec.toNat_inj, toNat_load, toNat_load]
  constructor
  · intro same
    exact littleEndian_injective size same
  · intro same
    rw [same]

theorem load_wordBytes (word : BitVec 64) : load 8 (wordBytes 8 word.toNat) = word := by
  apply BitVec.eq_of_toNat_eq
  rw [toNat_load, List.take_of_length_le (by simp), littleEndian_wordBytes]
  exact Nat.mod_eq_of_lt word.isLt

/-- What is copied to the front of a row. -/
theorem take_overwrite_zero {target source : List UInt8} (fits : source.length ≤ target.length) :
    (overwrite target 0 source).take source.length = source := by
  rw [overwrite, List.take_zero, List.nil_append, Nat.sub_zero, List.take_of_length_le fits,
    List.take_left]

/-- What is copied behind the first bytes of a row. -/
theorem overwrite_rest {target source : List UInt8} {offset : Nat}
    (fills : offset + source.length = target.length) :
    overwrite target offset source = target.take offset ++ source := by
  have whole : source.take (target.length - offset) = source :=
    List.take_of_length_le (by omega)
  rw [overwrite, whole, fills, List.drop_length, List.append_nil]

/-! ## The order of prefixes -/

theorem toNat_append_byte {n : Nat} (high : BitVec n) (low : BitVec 8) :
    (high ++ low).toNat = high.toNat * 256 + low.toNat := by
  rw [BitVec.toNat_append, ← Nat.shiftLeft_add_eq_or_of_lt low.isLt, Nat.shiftLeft_eq]

theorem getLsbD_lowMask (place : Nat) (inside : place < 32) :
    (0x00ff00ff#32).getLsbD place = decide (place / 8 % 2 = 0) := by
  revert place
  decide

theorem getLsbD_highMask (place : Nat) (inside : place < 32) :
    (0xff00ff00#32).getLsbD place = decide (place / 8 % 2 = 1) := by
  revert place
  decide

namespace StringT

/-- The bytes of a word in the other order. -/
theorem byteSwap_eq (v : BitVec 32) : byteSwap v =
    v.extractLsb' 0 8 ++ v.extractLsb' 8 8 ++ v.extractLsb' 16 8 ++ v.extractLsb' 24 8 := by
  apply BitVec.eq_of_getLsbD_eq
  intro place inside
  simp only [byteSwap, BitVec.getLsbD_or, BitVec.getLsbD_and, BitVec.getLsbD_shiftLeft,
    BitVec.getLsbD_ushiftRight, BitVec.getLsbD_append, BitVec.getLsbD_extractLsb']
  have low := getLsbD_lowMask (place - 8) (by omega)
  by_cases first : place < 24
  · have high := getLsbD_highMask (place + 8) (by omega)
    grind
  · grind

theorem toNat_byteSwap (v : BitVec 32) : (byteSwap v).toNat =
    ((v.toNat % 256 * 256 + v.toNat / 256 % 256) * 256 + v.toNat / 65536 % 256) * 256 +
      v.toNat / 16777216 % 256 := by
  rw [byteSwap_eq, toNat_append_byte, toNat_append_byte, toNat_append_byte]
  simp only [BitVec.extractLsb'_toNat, Nat.shiftRight_eq_div_pow, Nat.reducePow, Nat.div_one]

/-- A loaded prefix with its bytes swapped has its first byte on top. -/
theorem toNat_byteSwap_load {bytes : List UInt8} (size : 4 ≤ bytes.length) :
    (byteSwap (load 4 bytes)).toNat = bigEndian (bytes.take 4) := by
  obtain ⟨b0, b1, b2, b3, rest, rfl⟩ : ∃ b0 b1 b2 b3 rest, bytes = b0 :: b1 :: b2 :: b3 :: rest := by
    match bytes, size with
    | b0 :: b1 :: b2 :: b3 :: rest, _ => exact ⟨b0, b1, b2, b3, rest, rfl⟩
  have word : (load 4 (b0 :: b1 :: b2 :: b3 :: rest)).toNat =
      b0.toNat + 256 * (b1.toNat + 256 * (b2.toNat + 256 * b3.toNat)) := by
    rw [toNat_load]
    simp [littleEndian]
  have small₀ := b0.toNat_lt
  have small₁ := b1.toNat_lt
  have small₂ := b2.toNat_lt
  rw [toNat_byteSwap, word]
  simp only [List.take_succ_cons, List.take_zero, bigEndian, List.length_cons, List.length_nil,
    Nat.reduceAdd, Nat.reducePow]
  generalize whole : b0.toNat + 256 * (b1.toNat + 256 * (b2.toNat + 256 * b3.toNat)) = number
  have first : number % 256 = b0.toNat := by omega
  have second : number / 256 % 256 = b1.toNat := by omega
  have third : number / 65536 % 256 = b2.toNat := by omega
  have fourth : number / 16777216 % 256 = b3.toNat := by omega
  rw [first, second, third, fourth]
  omega

/-- Swapped prefixes are ordered as the bytes. -/
theorem byteSwap_lt_iff {left right : List UInt8} (leftSize : 4 ≤ left.length)
    (rightSize : 4 ≤ right.length) :
    byteSwap (load 4 left) < byteSwap (load 4 right) ↔ left.take 4 < right.take 4 := by
  rw [BitVec.lt_def, toNat_byteSwap_load leftSize, toNat_byteSwap_load rightSize]
  apply bigEndian_lt_iff
  rw [List.length_take, List.length_take, Nat.min_eq_left leftSize, Nat.min_eq_left rightSize]

/-! ## The string that an object stands for -/

/-- The object stands for a string in a memory. -/
structure Holds (memory : Memory) (value : StringT) (content : List UInt8) : Prop where
  size : value.getSize = content.length
  inlined : content.length ≤ stringInlineBytes → value.inlined = padded stringInlineBytes content
  stem : stringInlineBytes < content.length →
    value.inlined.take stringPrefixBytes = content.take stringPrefixBytes
  pointed : stringInlineBytes < content.length →
    readBytes memory value.pointer.toNat content.length = content

variable {memory : Memory} {value left right : StringT} {content leftContent rightContent : List UInt8}

@[simp] theorem inlined_write (value : StringT) (offset : Nat) (source : List UInt8) :
    (value.write offset source).inlined = overwrite value.inlined offset source := rfl

theorem isInlined_iff : value.isInlined = true ↔ value.getSize ≤ stringInlineBytes :=
  decide_eq_true_iff

/-- A short object whose inlined bytes begin with the string and are zero behind it. -/
theorem holds_of_short (short : value.getSize ≤ stringInlineBytes)
    (size : content.length = value.getSize)
    (inlined : value.inlined =
      content ++ List.replicate (stringInlineBytes - content.length) 0) :
    Holds memory value content where
  size := size.symm
  inlined fits := inlined.trans (padded_of_le fits).symm
  stem long := absurd long (by omega)
  pointed long := absurd long (by omega)

/-- Zeros behind the first bytes, as `Finalize` writes them. -/
theorem holds_finalize_short (short : value.getSize ≤ stringInlineBytes) :
    Holds memory (value.finalize memory) (value.inlined.take value.getSize) := by
  have taken : (value.inlined.take value.getSize).length = value.getSize := by
    rw [List.length_take, value.width, Nat.min_eq_left short]
  rw [finalize, if_pos short]
  refine holds_of_short short taken ?_
  rw [taken, inlined_write]
  apply overwrite_rest
  rw [List.length_replicate, value.width]
  omega

/-- The prefix of a long string, as `Finalize` writes it, does not touch the pointer. -/
theorem holds_finalize_long (long : stringInlineBytes < value.getSize) :
    Holds memory (value.finalize memory)
      (readBytes memory value.pointer.toNat value.getSize) := by
  have notInlined : value.isInlined = false := by
    rw [Bool.eq_false_iff, ne_eq, isInlined_iff]
    omega
  have width := value.width
  have stem : value.getData memory stringPrefixBytes =
      readBytes memory value.pointer.toNat stringPrefixBytes := by
    rw [getData, notInlined]
    rfl
  have finalized : (value.finalize memory).inlined =
      readBytes memory value.pointer.toNat stringPrefixBytes ++
        value.inlined.drop stringPrefixBytes := by
    rw [finalize, if_neg (by omega), stem, inlined_write, overwrite, length_readBytes,
      List.take_zero, List.nil_append, Nat.sub_zero, Nat.zero_add, List.take_of_length_le]
    rw [length_readBytes, width]
    decide
  have size : (value.finalize memory).getSize = value.getSize := by
    rw [finalize, if_neg (by omega)]
    rfl
  have pointer : (value.finalize memory).pointer = value.pointer := by
    rw [StringT.pointer, finalized, List.drop_left' (length_readBytes _ _ _)]
    rfl
  constructor
  · rw [size, length_readBytes]
  · intro short
    rw [length_readBytes] at short
    omega
  · intro _
    rw [finalized, List.take_left' (length_readBytes _ _ _), take_readBytes]
    exact Nat.le_trans (by decide) (Nat.le_of_lt long)
  · intro _
    rw [pointer, length_readBytes]

/-- The string behind an object before it is finalized. -/
def written (memory : Memory) (value : StringT) : List UInt8 :=
  value.getData memory value.getSize

theorem holds_finalize (memory : Memory) (value : StringT) :
    Holds memory (value.finalize memory) (value.written memory) := by
  rw [written, getData]
  by_cases short : value.getSize ≤ stringInlineBytes
  · rw [if_pos (isInlined_iff.mpr short)]
    exact holds_finalize_short short
  · rw [if_neg (fun inlined => short (isInlined_iff.mp inlined))]
    exact holds_finalize_long (by omega)

/-- The string that `SetSizeAndFinalize` leaves: the data behind the pointer if room for a long
string was allocated, the inlined bytes otherwise. -/
def resized (memory : Memory) (value : StringT) (size : BitVec 32) (allocatedSize : Nat) :
    List UInt8 :=
  if stringInlineBytes < allocatedSize then readBytes memory value.pointer.toNat size.toNat
  else value.inlined.take size.toNat

theorem holds_setSizeAndFinalize (memory : Memory) (value : StringT) {size : BitVec 32}
    {allocatedSize : Nat} (fits : size.toNat ≤ allocatedSize) :
    Holds memory (value.setSizeAndFinalize memory size allocatedSize)
      (value.resized memory size allocatedSize) := by
  rw [setSizeAndFinalize, resized]
  by_cases short : size.toNat ≤ stringInlineBytes
  · have inlined : (value.withLength size).isInlined = true := isInlined_iff.mpr short
    by_cases long : stringInlineBytes < allocatedSize
    · rw [inlined, decide_eq_true long, Bool.and_self, if_pos rfl, if_pos long]
      have holds := holds_finalize memory ((value.withLength size).write 0
        (readBytes memory value.pointer.toNat size.toNat))
      have moved : ((value.withLength size).write 0
          (readBytes memory value.pointer.toNat size.toNat)).isInlined = true :=
        isInlined_iff.mpr short
      rw [written, getData, if_pos moved, inlined_write] at holds
      have front := @take_overwrite_zero value.inlined
        (readBytes memory value.pointer.toNat size.toNat)
        (by rw [length_readBytes, value.width]; exact short)
      rw [length_readBytes] at front
      have content : ((overwrite value.inlined 0
          (readBytes memory value.pointer.toNat size.toNat)).take size.toNat) = _ := front
      exact Eq.subst (motive := Holds memory _) content holds
    · rw [decide_eq_false long, Bool.false_and, if_neg Bool.false_ne_true, if_neg long]
      have holds := holds_finalize memory (value.withLength size)
      rw [written, getData, if_pos inlined] at holds
      exact holds
  · have notInlined : ¬ (value.withLength size).isInlined = true :=
      fun inlined => short (isInlined_iff.mp inlined)
    have holds := holds_finalize memory (value.withLength size)
    rw [written, getData, if_neg notInlined] at holds
    rw [Bool.eq_false_iff.mpr notInlined, Bool.and_false, if_neg Bool.false_ne_true,
      if_pos (by omega)]
    exact holds

/-- The constructor leaves nothing of the object that was not initialised. -/
theorem holds_construct (memory : Memory) (data : BitVec 64) (len : BitVec 32) (before : StringT) :
    Holds memory (construct memory data len before) (readBytes memory data.toNat len.toNat) := by
  have width := before.width
  have inlinedIff : (before.withLength len).isInlined = true ↔ len.toNat ≤ stringInlineBytes :=
    isInlined_iff
  rw [construct]
  dsimp only
  by_cases short : len.toNat ≤ stringInlineBytes
  · rw [if_pos (inlinedIff.mpr short)]
    have zeros : ((before.withLength len).write 0 (List.replicate stringInlineBytes 0)).inlined =
        List.replicate stringInlineBytes 0 := by
      rw [inlined_write, overwrite_rest, List.take_zero, List.nil_append]
      rw [List.length_replicate, Nat.zero_add]
      exact width.symm
    split
    · rename_i empty
      have none : len.toNat = 0 := empty
      rw [none]
      exact holds_of_short short empty.symm zeros
    · refine holds_of_short short (length_readBytes _ _ _) ?_
      rw [inlined_write, zeros, overwrite, length_readBytes, List.take_zero, List.nil_append,
        Nat.sub_zero, Nat.zero_add, List.drop_replicate, List.take_of_length_le]
      · rw [length_readBytes]
        rfl
      · rw [length_readBytes, List.length_replicate]
        exact short
  · rw [if_neg (fun inlined => short (inlinedIff.mp inlined))]
    have stem : ((before.withLength len).write 0
        (readBytes memory data.toNat stringPrefixBytes)).inlined.take stringPrefixBytes =
          readBytes memory data.toNat stringPrefixBytes := by
      have front := @take_overwrite_zero before.inlined
        (readBytes memory data.toNat stringPrefixBytes)
        (by rw [length_readBytes, width]; decide)
      rw [length_readBytes] at front
      exact front
    have inlined : (((before.withLength len).write 0
        (readBytes memory data.toNat stringPrefixBytes)).write stringPrefixBytes
          (wordBytes 8 data.toNat)).inlined =
          readBytes memory data.toNat stringPrefixBytes ++ wordBytes 8 data.toNat := by
      rw [inlined_write, overwrite_rest, stem]
      rw [StringT.width, length_wordBytes]
      rfl
    constructor
    · rw [length_readBytes]
      rfl
    · intro fits
      rw [length_readBytes] at fits
      exact absurd fits short
    · intro long
      rw [length_readBytes] at long
      rw [inlined, List.take_left' (length_readBytes _ _ _), take_readBytes]
      exact Nat.le_trans (by decide) (Nat.le_of_lt long)
    · intro _
      rw [pointer, inlined, List.drop_left' (length_readBytes _ _ _), load_wordBytes,
        length_readBytes]

/-! ## The words of the comparisons -/

/-- Both kinds of objects hold the first bytes, with zeros behind a shorter string. -/
theorem Holds.take_stem (holds : Holds memory value content) :
    value.inlined.take stringPrefixBytes = padded stringPrefixBytes content := by
  by_cases short : content.length ≤ stringInlineBytes
  · rw [holds.inlined short]
    exact take_padded content (by decide)
  · rw [holds.stem (by omega), padded_of_ge]
    exact Nat.le_trans (by decide) (Nat.le_of_not_le short)

/-- The first word of an object: the length and the first bytes. -/
theorem take_bytes (value : StringT) : value.bytes.take 8 =
    wordBytes 4 value.length.toNat ++ value.inlined.take stringPrefixBytes := by
  rw [bytes, List.take_append, length_wordBytes, List.take_of_length_le (by simp)]
  rfl

theorem drop_bytes (value : StringT) :
    value.bytes.drop 8 = value.inlined.drop stringPrefixBytes := by
  rw [bytes, List.drop_append, length_wordBytes, List.drop_of_length_le (by simp)]
  rfl

/-- The first words are equal exactly if the lengths and the first bytes are. -/
theorem firstWord_eq_iff (holdsLeft : Holds memory left leftContent)
    (holdsRight : Holds memory right rightContent) :
    load 8 left.bytes = load 8 right.bytes ↔ leftContent.length = rightContent.length ∧
      padded stringPrefixBytes leftContent = padded stringPrefixBytes rightContent := by
  rw [load_eq_iff, take_bytes, take_bytes, holdsLeft.take_stem, holdsRight.take_stem,
    ← holdsLeft.size, ← holdsRight.size, getSize, getSize]
  · constructor
    · intro same
      obtain ⟨lengths, stems⟩ := List.append_inj same (by simp)
      refine ⟨?_, stems⟩
      have numbers := congrArg littleEndian lengths
      rw [littleEndian_wordBytes, littleEndian_wordBytes] at numbers
      omega
    · rintro ⟨lengths, stems⟩
      rw [lengths, stems]
  · rw [take_bytes, take_bytes, List.length_append, List.length_append, length_wordBytes,
      length_wordBytes, List.length_take, List.length_take, left.width, right.width]

/-- The second words are equal exactly if the other inlined bytes are. -/
theorem secondWord_eq_iff (left right : StringT) :
    load 8 (left.bytes.drop 8) = load 8 (right.bytes.drop 8) ↔
      left.inlined.drop stringPrefixBytes = right.inlined.drop stringPrefixBytes := by
  have leftSize : (left.inlined.drop stringPrefixBytes).length = 8 := by
    rw [List.length_drop, left.width]
    rfl
  have rightSize : (right.inlined.drop stringPrefixBytes).length = 8 := by
    rw [List.length_drop, right.width]
    rfl
  rw [drop_bytes, drop_bytes, load_eq_iff, List.take_of_length_le (Nat.le_of_eq leftSize),
    List.take_of_length_le (Nat.le_of_eq rightSize)]
  rw [List.length_take, List.length_take, leftSize, rightSize]

/-- Strings of one length whose objects hold the same bytes are the same. -/
theorem Holds.unique (holdsLeft : Holds memory left leftContent)
    (holdsRight : Holds memory right rightContent)
    (lengths : leftContent.length = rightContent.length) (same : left.inlined = right.inlined) :
    leftContent = rightContent := by
  by_cases short : leftContent.length ≤ stringInlineBytes
  · rw [holdsLeft.inlined short, holdsRight.inlined (by omega), padded_of_le short,
      padded_of_le (by omega)] at same
    exact (List.append_inj same lengths).1
  · have pointers : left.pointer = right.pointer := by rw [pointer, pointer, same]
    rw [← holdsLeft.pointed (by omega), ← holdsRight.pointed (by omega), pointers, lengths]

theorem Holds.isInlined_iff (holds : Holds memory value content) :
    value.isInlined = true ↔ content.length ≤ stringInlineBytes := by
  rw [StringT.isInlined_iff, holds.size]

/-- The first bytes of the data. -/
theorem Holds.getData_eq (holds : Holds memory value content) {size : Nat}
    (le : size ≤ content.length) : value.getData memory size = content.take size := by
  rw [getData]
  by_cases short : content.length ≤ stringInlineBytes
  · rw [if_pos (holds.isInlined_iff.mpr short), holds.inlined short,
      take_padded content (Nat.le_trans le short), padded_of_ge le]
  · rw [if_neg (fun inlined => short (holds.isInlined_iff.mp inlined)),
      ← take_readBytes memory _ le, holds.pointed (by omega)]

/-- `Equals` decides whether the strings are the same. -/
theorem equals_iff (holdsLeft : Holds memory left leftContent)
    (holdsRight : Holds memory right rightContent) :
    equals memory left right = true ↔ leftContent = rightContent := by
  rw [equals]
  by_cases first : load 8 left.bytes = load 8 right.bytes
  · obtain ⟨lengths, stems⟩ := (firstWord_eq_iff holdsLeft holdsRight).mp first
    rw [if_neg (fun differ => differ first)]
    by_cases second : load 8 (left.bytes.drop 8) = load 8 (right.bytes.drop 8)
    · have inlined : left.inlined = right.inlined := by
        rw [← List.take_append_drop stringPrefixBytes left.inlined,
          ← List.take_append_drop stringPrefixBytes right.inlined, holdsLeft.take_stem,
          holdsRight.take_stem, stems, (secondWord_eq_iff left right).mp second]
      rw [if_pos second]
      exact iff_of_true rfl (holdsLeft.unique holdsRight lengths inlined)
    · rw [if_neg second]
      by_cases short : leftContent.length ≤ stringInlineBytes
      · rw [holdsLeft.isInlined_iff.mpr short]
        refine iff_of_false Bool.false_ne_true fun same => second ?_
        rw [secondWord_eq_iff, holdsLeft.inlined short, holdsRight.inlined (by omega), same]
      · rw [Bool.eq_false_iff.mpr fun inlined => short (holdsLeft.isInlined_iff.mp inlined),
          holdsLeft.size, holdsLeft.pointed (by omega), lengths, holdsRight.pointed (by omega)]
        simpa using stringComparison_eq_iff leftContent rightContent
  · rw [if_pos first]
    refine iff_of_false Bool.false_ne_true fun same => first ?_
    rw [firstWord_eq_iff holdsLeft holdsRight, same]
    exact ⟨rfl, rfl⟩

/-- `GreaterThan` decides the lexicographic order. -/
theorem greaterThan_iff_lt (holdsLeft : Holds memory left leftContent)
    (holdsRight : Holds memory right rightContent) :
    greaterThan memory left right = true ↔ rightContent < leftContent := by
  have leftSize : 4 ≤ left.inlined.length := by rw [left.width]; decide
  have rightSize : 4 ≤ right.inlined.length := by rw [right.width]; decide
  have stems : load 4 left.inlined = load 4 right.inlined ↔
      padded stringPrefixBytes leftContent = padded stringPrefixBytes rightContent := by
    rw [← holdsLeft.take_stem, ← holdsRight.take_stem]
    apply load_eq_iff
    rw [List.length_take, List.length_take, left.width, right.width]
  rw [greaterThan]
  dsimp only
  by_cases same : load 4 left.inlined = load 4 right.inlined
  · rw [if_neg (fun differ => differ same), holdsLeft.size, holdsRight.size,
      holdsLeft.getData_eq (Nat.min_le_left _ _), holdsRight.getData_eq (Nat.min_le_right _ _),
      lt_iff_take rightContent leftContent _ (Nat.min_comm _ _), Bool.or_eq_true,
      Bool.and_eq_true, beq_iff_eq, beq_iff_eq, decide_eq_true_eq, stringComparison_swap,
      stringComparison_lt_iff, stringComparison_eq_iff, eq_comm (a := rightContent.take _)]
  · rw [if_pos same, decide_eq_true_eq, byteSwap_lt_iff rightSize leftSize]
    have stemLeft := holdsLeft.take_stem
    have stemRight := holdsRight.take_stem
    rw [stringPrefixBytes] at stemLeft stemRight
    rw [stemLeft, stemRight, ← lt_iff_padded]
    exact fun equal => same (stems.mpr equal.symm)

/-! ## Strings that the program builds -/

/-- The ways to build an object, with the string that it stands for. -/
inductive Built : Memory → StringT → List UInt8 → Prop
  | constructed (memory : Memory) (data : BitVec 64) (len : BitVec 32) (before : StringT) :
      Built memory (construct memory data len before) (readBytes memory data.toNat len.toNat)
  | finalized (memory : Memory) (value : StringT) :
      Built memory (value.finalize memory) (value.written memory)
  | resized (memory : Memory) (value : StringT) (size : BitVec 32) (allocatedSize : Nat)
      (fits : size.toNat ≤ allocatedSize) :
      Built memory (value.setSizeAndFinalize memory size allocatedSize)
        (value.resized memory size allocatedSize)

/-- The data of a long string is in its place in the memory of a comparison. -/
def DataKept (memory : Memory) (value : StringT) (content : List UInt8) : Prop :=
  stringInlineBytes < content.length →
    readBytes memory value.pointer.toNat content.length = content

theorem Built.holds_created (built : Built memory value content) : Holds memory value content := by
  cases built with
  | constructed data len before => exact holds_construct memory data len before
  | finalized value => exact holds_finalize memory value
  | resized value size allocatedSize fits => exact holds_setSizeAndFinalize memory value fits

theorem Built.holds {created : Memory} (built : Built created value content)
    (kept : DataKept memory value content) : Holds memory value content where
  size := built.holds_created.size
  inlined := built.holds_created.inlined
  stem := built.holds_created.stem
  pointed := kept

/-- Equality of objects is equality of the strings, and the order of objects is the lexicographic
order of the unsigned bytes, whether the strings are inlined or not. -/
theorem comparison_of_built {created createdRight : Memory}
    (builtLeft : Built created left leftContent)
    (builtRight : Built createdRight right rightContent)
    (keptLeft : DataKept memory left leftContent)
    (keptRight : DataKept memory right rightContent) :
    (equals memory left right = true ↔ leftContent = rightContent) ∧
      (greaterThan memory left right = true ↔ rightContent < leftContent) := by
  have holdsLeft := builtLeft.holds keptLeft
  have holdsRight := builtRight.holds keptRight
  exact ⟨equals_iff holdsLeft holdsRight, greaterThan_iff_lt holdsLeft holdsRight⟩

/-- A long string of zeros beside its first three bytes, which are inlined. -/
theorem comparison_of_built_zeros :
    let memory : Memory := fun _ => 0
    let before : StringT := ⟨7, List.replicate 12 255, rfl⟩
    let long := construct memory 4096 20 before
    let short := construct memory 4096 3 before
    equals memory long short = false ∧ greaterThan memory long short = true := by
  intro memory before long short
  have builtLong : Built memory long _ := Built.constructed memory 4096 20 before
  have builtShort : Built memory short _ := Built.constructed memory 4096 3 before
  obtain ⟨equal, greater⟩ := comparison_of_built builtLong builtShort
    builtLong.holds_created.pointed builtShort.holds_created.pointed
  constructor
  · rw [Bool.eq_false_iff, ne_eq, equal]
    decide
  · rw [greater]
    decide

end StringT

end StatsRecommender
