import StatsRecommender.Library.Utf8

/-!
# Utf8Proc

`Utf8Proc::Analyze`, which takes exactly the bytes of texts for valid, and the conversions between
a code point and its bytes.
-/

namespace StatsRecommender

variable {bits value codepoint : Nat} {bytes rest : List UInt8} {c : UInt8}

/-- `UnicodeInvalidReason`. -/
inductive UnicodeInvalidReason where
  | byteMismatch
  | invalidUnicode
  deriving DecidableEq, Repr

/-- The results of `Analyze` other than `INVALID`, which comes with a reason. -/
inductive UnicodeType where
  | ascii
  | utf8
  deriving DecidableEq, Repr

variable {type after : UnicodeType}

namespace Utf8Proc

/-! ## Analyze -/

/-- The loop of `UTF8ExtraByteLoop`. -/
def readExtraBytes : Nat → Nat → List UInt8 → Except UnicodeInvalidReason (Nat × List UInt8)
  | 0, utf8char, rest => pure (utf8char, rest)
  | count + 1, utf8char, c :: rest =>
      if c &&& 0xC0 ≠ 0x80 then throw .byteMismatch
      else readExtraBytes count (utf8char <<< 6 ||| (c &&& 0x3F).toNat) rest
  | _ + 1, _, [] => throw .byteMismatch

/-- `UTF8ExtraByteLoop` over the bytes behind the first one of a sequence. -/
def utf8ExtraByteLoop (nextraBytes mask utf8char : Nat) (rest : List UInt8) :
    Except UnicodeInvalidReason (UnicodeType × List UInt8) :=
  if rest.length < nextraBytes then throw .byteMismatch
  else do
    let (utf8char, rest) ← readExtraBytes nextraBytes utf8char rest
    if utf8char &&& mask = 0 then throw .invalidUnicode
    else if 0x10FFFF < utf8char then throw .invalidUnicode
    else if utf8char &&& 0x1FFF800 = 0xD800 then throw .invalidUnicode
    else pure (.utf8, rest)

/-- The body of the inner loop of `Analyze`. -/
def analyzeSequence (type : UnicodeType) (c : UInt8) (rest : List UInt8) :
    Except UnicodeInvalidReason (UnicodeType × List UInt8) :=
  if c &&& 0x80 = 0 then pure (type, rest)
  else if c &&& 0xE0 = 0xC0 then utf8ExtraByteLoop 1 0x000780 (c &&& 0x1F).toNat rest
  else if c &&& 0xF0 = 0xE0 then utf8ExtraByteLoop 2 0x00F800 (c &&& 0x0F).toNat rest
  else if c &&& 0xF8 = 0xF0 then utf8ExtraByteLoop 3 0x1F0000 (c &&& 0x07).toNat rest
  else throw .byteMismatch

/-- Eight bytes at a time, up to eight that are not all ASCII. -/
def skipAscii : List UInt8 → List UInt8
  | b₀ :: b₁ :: b₂ :: b₃ :: b₄ :: b₅ :: b₆ :: b₇ :: rest =>
      if [b₀, b₁, b₂, b₃, b₄, b₅, b₆, b₇].all fun b => b &&& 0x80 == 0 then skipAscii rest
      else b₀ :: b₁ :: b₂ :: b₃ :: b₄ :: b₅ :: b₆ :: b₇ :: rest
  | bytes => bytes

/-- The inner loop of `Analyze`, while more bytes are left than `stop`. -/
def analyzeWindow (stop : Nat) :
    Nat → UnicodeType → List UInt8 → Except UnicodeInvalidReason (UnicodeType × List UInt8)
  | fuel + 1, type, c :: rest =>
      if stop < rest.length + 1 then do
        let (type, rest) ← analyzeSequence type c rest
        analyzeWindow stop fuel type rest
      else pure (type, c :: rest)
  | _, type, bytes => pure (type, bytes)

/-- The outer loop of `Analyze`. -/
def analyzeLoop : Nat → UnicodeType → List UInt8 → Except UnicodeInvalidReason UnicodeType
  | fuel + 1, type, c :: rest => do
      let bytes := skipAscii (c :: rest)
      let (type, bytes) ← analyzeWindow (bytes.length - 8) bytes.length type bytes
      analyzeLoop fuel type bytes
  | _, type, _ => pure type

/-- `Analyze`; every round of its loops consumes a byte at least. -/
def analyze (bytes : List UInt8) : Except UnicodeInvalidReason UnicodeType :=
  analyzeLoop bytes.length .ascii bytes

/-! ## Code points -/

/-- `IsCharacter`: the byte does not continue a code point. -/
def isCharacter (c : UInt8) : Bool := c &&& 0xC0 != 0x80

/-- `UTF8ToCodepoint` at the start of the bytes, behind which there is a zero. -/
def utf8ToCodepoint (bytes : List UInt8) : Except String (Int × Nat) :=
  let u := fun index => (bytes.getD index 0).toNat
  if u 0 ≤ 127 then pure (u 0, 1)
  else if 192 ≤ u 0 ∧ u 0 ≤ 223 then pure ((u 0 - 192) * 64 + ((u 1 : Int) - 128), 2)
  else if u 0 = 0xED ∧ u 1 &&& 0xA0 = 0xA0 then
    throw ("invalid code point detected in Utf8Proc::UTF8ToCodepoint (0xd800 to 0xdfff), " ++
      "likely due to invalid UTF-8")
  else if 224 ≤ u 0 ∧ u 0 ≤ 239 then
    pure ((u 0 - 224) * 4096 + ((u 1 : Int) - 128) * 64 + ((u 2 : Int) - 128), 3)
  else if 240 ≤ u 0 ∧ u 0 ≤ 247 then
    pure ((u 0 - 240) * 262144 + ((u 1 : Int) - 128) * 4096 + ((u 2 : Int) - 128) * 64 +
      ((u 3 : Int) - 128), 4)
  else
    throw "invalid code point detected in Utf8Proc::UTF8ToCodepoint, likely due to invalid UTF-8"

/-- `CodepointToUtf8`; nothing for a code point that is not valid. -/
def codepointToUtf8 (cp : Int) : Option (List UInt8) :=
  if cp ≤ 0x7F then some [.ofInt cp]
  else if cp ≤ 0x7FF then some [.ofInt (cp / 64 + 192), .ofInt (cp % 64 + 128)]
  else if 0xD800 ≤ cp ∧ cp ≤ 0xDFFF then none
  else if cp ≤ 0xFFFF then
    some [.ofInt (cp / 4096 + 224), .ofInt (cp / 64 % 64 + 128), .ofInt (cp % 64 + 128)]
  else if cp ≤ 0x10FFFF then
    some [.ofInt (cp / 262144 + 240), .ofInt (cp / 4096 % 64 + 128), .ofInt (cp / 64 % 64 + 128),
      .ofInt (cp % 64 + 128)]
  else none

/-! ## The bits of a byte -/

theorem forall_byte {p : UInt8 → Prop} (all : ∀ value < 256, p (.ofNat value)) (byte : UInt8) :
    p byte :=
  UInt8.ofNat_toNat (x := byte) ▸ all byte.toNat byte.toNat_lt

theorem ascii_iff : ∀ byte : UInt8, byte &&& 0x80 = 0 ↔ byte.toNat < 128 :=
  forall_byte (by decide +kernel)

theorem extra_iff : ∀ byte : UInt8, byte &&& 0xC0 = 0x80 ↔ 128 ≤ byte.toNat ∧ byte.toNat < 192 :=
  forall_byte (by decide +kernel)

theorem first_of_two_iff : ∀ byte : UInt8,
    byte &&& 0xE0 = 0xC0 ↔ 192 ≤ byte.toNat ∧ byte.toNat < 224 :=
  forall_byte (by decide +kernel)

theorem first_of_three_iff : ∀ byte : UInt8,
    byte &&& 0xF0 = 0xE0 ↔ 224 ≤ byte.toNat ∧ byte.toNat < 240 :=
  forall_byte (by decide +kernel)

theorem first_of_four_iff : ∀ byte : UInt8,
    byte &&& 0xF8 = 0xF0 ↔ 240 ≤ byte.toNat ∧ byte.toNat < 248 :=
  forall_byte (by decide +kernel)

theorem toNat_and_two_pow_sub_one (byte mask : UInt8) (ones : mask.toNat = 2 ^ bits - 1) :
    (byte &&& mask).toNat = byte.toNat % 2 ^ bits := by
  rw [UInt8.toNat_and, ones, Nat.and_two_pow_sub_one_eq_mod]

/-- A mask without its lowest bits rounds down. -/
theorem and_two_pow_sub {low : Nat} (small : value < 2 ^ bits) (ordered : low ≤ bits) :
    value &&& (2 ^ bits - 2 ^ low) = value / 2 ^ low * 2 ^ low := by
  have mask : 2 ^ bits - 2 ^ low = (2 ^ (bits - low) - 1) <<< low := by
    rw [Nat.shiftLeft_eq, Nat.sub_mul, ← Nat.pow_add, Nat.sub_add_cancel ordered, Nat.one_mul]
  apply Nat.eq_of_testBit_eq
  intro bit
  rw [mask, ← Nat.shiftLeft_eq, Nat.testBit_and, Nat.testBit_shiftLeft, Nat.testBit_shiftLeft,
    Nat.testBit_two_pow_sub_one, Nat.testBit_div_two_pow]
  by_cases above : low ≤ bit
  · rw [Nat.sub_add_cancel above]
    by_cases inside : bit - low < bits - low
    · simp [above, inside]
    · have unset : value.testBit bit = false :=
        Nat.testBit_lt_two_pow (Nat.lt_of_lt_of_le small
          (Nat.pow_le_pow_right (by decide) (by omega)))
      simp [unset]
  · simp [above]

/-! ## Extra bytes -/

open Utf8

theorem toNat_ofNat_of_lt (small : value < 256) : (UInt8.ofNat value).toNat = value := by
  rw [UInt8.toNat_ofNat', Nat.mod_eq_of_lt small]

theorem or_extra (utf8char : Nat) (byte : UInt8) :
    utf8char <<< 6 ||| (byte &&& 0x3F).toNat = utf8char * 64 + byte.toNat % 64 := by
  have ones : (0x3F : UInt8).toNat = 2 ^ 6 - 1 := rfl
  rw [toNat_and_two_pow_sub_one byte 0x3F ones, ← Nat.shiftLeft_add_eq_or_of_lt (Nat.mod_lt _ (by decide)), Nat.shiftLeft_eq]

theorem readExtraBytes_trail (count codepoint utf8char : Nat) (rest : List UInt8) :
    readExtraBytes count utf8char (trail count codepoint ++ rest) =
      .ok (utf8char * 64 ^ count + codepoint % 64 ^ count, rest) := by
  induction count generalizing utf8char with
  | zero => simp [readExtraBytes, trail, Nat.mod_one, pure, Except.pure]
  | succ count ih =>
      have digit : codepoint / 64 ^ count % 64 + 128 < 256 := by omega
      have extra := (extra_iff (.ofNat (codepoint / 64 ^ count % 64 + 128))).mpr
        (by rw [toNat_ofNat_of_lt digit]; omega)
      have place : (codepoint / 64 ^ count % 64 + 128) % 64 = codepoint / 64 ^ count % 64 := by
        omega
      rw [trail, List.cons_append, readExtraBytes, if_neg (not_not_intro extra), or_extra,
        toNat_ofNat_of_lt digit, place, ih, Nat.pow_succ, Nat.mod_mul, Nat.add_mul]
      congr 2
      rw [Nat.mul_comm (64 ^ count) 64, Nat.mul_assoc, Nat.mul_comm (64 ^ count), Nat.add_assoc,
        Nat.add_comm (codepoint % 64 ^ count)]

/-- The extra bytes that are read are those of the code point. -/
theorem eq_trail_of_readExtraBytes {count utf8char : Nat}
    (read : readExtraBytes count utf8char bytes = .ok (value, rest)) :
    bytes = trail count value ++ rest ∧ value / 64 ^ count = utf8char := by
  induction count generalizing utf8char bytes with
  | zero =>
      cases read
      exact ⟨rfl, by rw [Nat.pow_zero, Nat.div_one]⟩
  | succ count ih =>
      cases bytes with
      | nil => cases read
      | cons c tail =>
          rw [readExtraBytes] at read
          by_cases extra : c &&& 0xC0 = 0x80
          · rw [if_neg (not_not_intro extra), or_extra] at read
            obtain ⟨bytes_eq, quotient⟩ := ih read
            obtain ⟨low, high⟩ := (extra_iff c).mp extra
            have digit : value / 64 ^ count % 64 + 128 = c.toNat := by omega
            constructor
            · rw [trail, digit, UInt8.ofNat_toNat, List.cons_append, ← bytes_eq]
            · rw [Nat.pow_succ, ← Nat.div_div_eq_div_mul, quotient]
              omega
          · rw [if_pos extra] at read
            cases read

theorem length_trail (extra codepoint : Nat) : (trail extra codepoint).length = extra := by
  induction extra with
  | zero => rfl
  | succ extra ih => rw [trail, List.length_cons, ih]

/-- A code point is in the range of its sequences when it is not a surrogate. -/
theorem scalar_iff : Scalar value ↔ ¬ 0x10FFFF < value ∧ ¬ value &&& 0x1FFF800 = 0xD800 := by
  by_cases large : 0x10FFFF < value
  · refine iff_of_false (fun scalar => ?_) (fun both => both.1 large)
    exact Nat.not_lt.mpr scalar.le large
  · have rounded : value &&& 0x1FFF800 = value / 2 ^ 11 * 2 ^ 11 :=
      and_two_pow_sub (by omega : value < 2 ^ 25) (by decide : 11 ≤ 25)
    rw [rounded, Scalar]
    omega

/-- A sequence with its extra bytes is taken when it is that of a code point. -/
theorem utf8ExtraByteLoop_ok_iff {count low utf8char : Nat} (ordered : low ≤ bits)
    (small : (utf8char + 1) * 64 ^ count ≤ 2 ^ bits)
    (size : ∀ value < 2 ^ bits, value ≤ 0x10FFFF → (2 ^ low ≤ value ↔ extraBytes value = count)) :
    utf8ExtraByteLoop count (2 ^ bits - 2 ^ low) utf8char bytes = .ok (type, rest) ↔
      type = .utf8 ∧ ∃ value, Scalar value ∧ extraBytes value = count ∧
        value / 64 ^ count = utf8char ∧ bytes = trail count value ++ rest := by
  have inside : ∀ value, value / 64 ^ count = utf8char → value < 2 ^ bits := by
    intro value quotient
    refine Nat.lt_of_lt_of_le ?_ small
    rw [← quotient, Nat.add_mul, Nat.one_mul, Nat.mul_comm]
    exact Nat.lt_mul_div_succ value (Nat.pow_pos (by decide))
  have masked : ∀ value, value < 2 ^ bits →
      (value &&& (2 ^ bits - 2 ^ low) = 0 ↔ ¬ 2 ^ low ≤ value) := by
    intro value bound
    rw [and_two_pow_sub bound ordered, Nat.mul_eq_zero, Nat.div_eq_zero_iff, Nat.not_le]
    have positive := Nat.two_pow_pos low
    omega
  rw [utf8ExtraByteLoop]
  constructor
  · intro ran
    split at ran
    · cases ran
    · cases read : readExtraBytes count utf8char bytes with
      | error reason =>
          rw [read] at ran
          cases ran
      | ok result =>
          obtain ⟨value, rest'⟩ := result
          obtain ⟨bytes_eq, quotient⟩ := eq_trail_of_readExtraBytes read
          rw [read] at ran
          dsimp only [bind, Except.bind] at ran
          by_cases short : value &&& (2 ^ bits - 2 ^ low) = 0
          · rw [if_pos short] at ran
            cases ran
          · rw [if_neg short] at ran
            by_cases large : 0x10FFFF < value
            · rw [if_pos large] at ran
              cases ran
            · rw [if_neg large] at ran
              by_cases surrogate : value &&& 0x1FFF800 = 0xD800
              · rw [if_pos surrogate] at ran
                cases ran
              · rw [if_neg surrogate] at ran
                cases ran
                have bound := inside value quotient
                have long := not_not.mp (short ∘ (masked value bound).mpr)
                exact ⟨rfl, value, scalar_iff.mpr ⟨large, surrogate⟩,
                  (size value bound (Nat.not_lt.mp large)).mp long, quotient, bytes_eq⟩
  · rintro ⟨rfl, value, scalar, extra, rfl, rfl⟩
    have bound := inside value rfl
    have whole : value / 64 ^ count * 64 ^ count + value % 64 ^ count = value := by
      rw [Nat.mul_comm]
      exact Nat.div_add_mod value (64 ^ count)
    have long := (size value bound scalar.le).mpr extra
    obtain ⟨large, surrogate⟩ := scalar_iff.mp scalar
    rw [if_neg (by rw [List.length_append, length_trail]; omega), readExtraBytes_trail, whole]
    dsimp only [bind, Except.bind]
    rw [if_neg (fun short => (masked value bound).mp short long), if_neg large, if_neg surrogate]
    rfl

/-! ## What Analyze takes for valid -/

/-- The first byte of a code point tells how many follow. -/
theorem firstByte_cases (scalar : Scalar codepoint) (same : c :: bytes = encode codepoint ++ rest) :
    (extraBytes codepoint = 0 ∧ c.toNat < 128 ∧ c.toNat = codepoint) ∨
      (extraBytes codepoint = 1 ∧ 192 ≤ c.toNat ∧ c.toNat < 224) ∨
      (extraBytes codepoint = 2 ∧ 224 ≤ c.toNat ∧ c.toNat < 240) ∨
      (extraBytes codepoint = 3 ∧ 240 ≤ c.toNat ∧ c.toNat < 248) := by
  have bound := scalar.le
  rw [encode, List.cons_append, List.cons.injEq] at same
  have read := congrArg UInt8.toNat same.1
  rw [UInt8.toNat_ofNat'] at read
  rcases extraBytes_cases codepoint with ⟨_, size⟩ | ⟨_, size⟩ | ⟨_, size⟩ | ⟨_, size⟩ <;>
    · rw [size] at read
      simp only [firstByte] at read
      omega

/-- First bytes of a range are those of the sequences with their number of bytes. -/
theorem utf8ExtraByteLoop_iff_encode (count low bits offset width : Nat) {mask : UInt8}
    (first : firstByte count = offset) (range : offset ≤ c.toNat ∧ c.toNat < offset + 2 ^ width)
    (aligned : offset % 2 ^ width = 0) (ones : mask.toNat = 2 ^ width - 1) (ordered : low ≤ bits)
    (small : 2 ^ width * 64 ^ count ≤ 2 ^ bits)
    (size : ∀ value < 2 ^ bits, value ≤ 0x10FFFF → (2 ^ low ≤ value ↔ extraBytes value = count))
    (decides : ∀ {codepoint}, Scalar codepoint → c :: bytes = encode codepoint ++ rest →
      extraBytes codepoint = count) :
    utf8ExtraByteLoop count (2 ^ bits - 2 ^ low) (c &&& mask).toNat bytes = .ok (type, rest) ↔
      type = .utf8 ∧ ∃ codepoint, Scalar codepoint ∧ c :: bytes = encode codepoint ++ rest := by
  have payload : (c &&& mask).toNat + offset = c.toNat := by
    obtain ⟨more, hmore⟩ := Nat.exists_eq_add_of_le range.1
    rw [toNat_and_two_pow_sub_one c mask ones, hmore, Nat.add_mod, aligned, Nat.zero_add,
      Nat.mod_mod, Nat.mod_eq_of_lt (by omega), Nat.add_comm]
  rw [utf8ExtraByteLoop_ok_iff ordered ((Nat.mul_le_mul_right _ (by omega)).trans small) size]
  refine and_congr_right fun _ => exists_congr fun codepoint => and_congr_right fun scalar => ?_
  rw [← and_iff_right_of_imp (decides scalar)]
  refine and_congr_right fun extra => ?_
  rw [encode, extra, first, List.cons_append, List.cons.injEq]
  refine and_congr_left fun _ => ?_
  have byte : codepoint / 64 ^ count + offset < 256 := by
    have bound := scalar.le
    rcases extraBytes_cases codepoint with ⟨_, size⟩ | ⟨_, size⟩ | ⟨_, size⟩ | ⟨_, size⟩ <;>
      · rw [← first, ← extra, size]
        simp only [firstByte]
        omega
  rw [← UInt8.toNat_inj, toNat_ofNat_of_lt byte]
  omega

/-- A sequence is taken when it is the encoding of a code point. -/
theorem analyzeSequence_ok_iff :
    analyzeSequence type c bytes = .ok (after, rest) ↔
      after = (if c &&& 0x80 = 0 then type else .utf8) ∧
        ∃ codepoint, Scalar codepoint ∧ c :: bytes = encode codepoint ++ rest := by
  rw [analyzeSequence]
  by_cases one : c &&& 0x80 = 0
  · rw [if_pos one, if_pos one]
    have bound := (ascii_iff c).mp one
    constructor
    · intro ran
      cases ran
      have none : extraBytes c.toNat = 0 := if_pos (by omega)
      refine ⟨rfl, c.toNat, Or.inl (by omega), ?_⟩
      rw [encode, none]
      simp [firstByte, trail]
    · rintro ⟨rfl, codepoint, scalar, same⟩
      have none : extraBytes codepoint = 0 := by
        rcases firstByte_cases scalar same with ⟨none, _⟩ | ⟨_, _⟩ | ⟨_, _⟩ | ⟨_, _⟩
        · exact none
        all_goals omega
      rw [encode, none, trail, List.cons_append, List.cons.injEq] at same
      rw [same.2]
      rfl
  · rw [if_neg one, if_neg one]
    have bound : ¬ c.toNat < 128 := one ∘ (ascii_iff c).mpr
    by_cases two : c &&& 0xE0 = 0xC0
    · have mask : 0x000780 = 2 ^ 11 - 2 ^ 7 := rfl
      rw [if_pos two, mask]
      refine utf8ExtraByteLoop_iff_encode 1 7 11 192 5 rfl ((first_of_two_iff c).mp two)
        rfl rfl (by decide) (by decide) (fun value _ _ => ?_) fun scalar same => ?_
      · rcases extraBytes_cases value with ⟨_, _⟩ | ⟨_, _⟩ | ⟨_, _⟩ | ⟨_, _⟩ <;> omega
      · have range := (first_of_two_iff c).mp two
        rcases firstByte_cases scalar same with ⟨_, _⟩ | ⟨_, _⟩ | ⟨_, _⟩ | ⟨_, _⟩ <;> omega
    · rw [if_neg two]
      by_cases three : c &&& 0xF0 = 0xE0
      · have mask : 0x00F800 = 2 ^ 16 - 2 ^ 11 := rfl
        rw [if_pos three, mask]
        refine utf8ExtraByteLoop_iff_encode 2 11 16 224 4 rfl ((first_of_three_iff c).mp three)
          rfl rfl (by decide) (by decide) (fun value _ _ => ?_) fun scalar same => ?_
        · rcases extraBytes_cases value with ⟨_, _⟩ | ⟨_, _⟩ | ⟨_, _⟩ | ⟨_, _⟩ <;> omega
        · have range := (first_of_three_iff c).mp three
          rcases firstByte_cases scalar same with ⟨_, _⟩ | ⟨_, _⟩ | ⟨_, _⟩ | ⟨_, _⟩ <;> omega
      · rw [if_neg three]
        by_cases four : c &&& 0xF8 = 0xF0
        · have mask : 0x1F0000 = 2 ^ 21 - 2 ^ 16 := rfl
          rw [if_pos four, mask]
          refine utf8ExtraByteLoop_iff_encode 3 16 21 240 3 rfl ((first_of_four_iff c).mp four)
            rfl rfl (by decide) (by decide) (fun value _ _ => ?_) fun scalar same => ?_
          · rcases extraBytes_cases value with ⟨_, _⟩ | ⟨_, _⟩ | ⟨_, _⟩ | ⟨_, _⟩ <;> omega
          · have range := (first_of_four_iff c).mp four
            rcases firstByte_cases scalar same with ⟨_, _⟩ | ⟨_, _⟩ | ⟨_, _⟩ | ⟨_, _⟩ <;> omega
        · rw [if_neg four]
          refine iff_of_false (fun ran => by cases ran) ?_
          rintro ⟨_, codepoint, scalar, same⟩
          have not_two : ¬ (192 ≤ c.toNat ∧ c.toNat < 224) := two ∘ (first_of_two_iff c).mpr
          have not_three : ¬ (224 ≤ c.toNat ∧ c.toNat < 240) := three ∘ (first_of_three_iff c).mpr
          have not_four : ¬ (240 ≤ c.toNat ∧ c.toNat < 248) := four ∘ (first_of_four_iff c).mpr
          rcases firstByte_cases scalar same with ⟨_, _⟩ | ⟨_, _⟩ | ⟨_, _⟩ | ⟨_, _⟩ <;> omega

theorem valid_iff_of_analyzeSequence (ran : analyzeSequence type c bytes = .ok (after, rest)) :
    (Valid (c :: bytes) ↔ Valid rest) ∧ rest.length ≤ bytes.length := by
  obtain ⟨_, codepoint, scalar, same⟩ := analyzeSequence_ok_iff.mp ran
  constructor
  · rw [same]
    exact valid_encode_append_iff scalar rest
  · have lengths := congrArg List.length same
    rw [encode, List.cons_append, List.length_cons, List.length_cons, List.length_append] at lengths
    omega

theorem not_valid_of_analyzeSequence {reason : UnicodeInvalidReason}
    (failed : analyzeSequence type c bytes = .error reason) : ¬ Valid (c :: bytes) := by
  rintro ⟨codepoints, scalars, same⟩
  cases codepoints with
  | nil => cases same
  | cons codepoint rest =>
      rw [encodeAll_cons] at same
      have ran : analyzeSequence type c bytes = .ok (_, encodeAll rest) :=
        analyzeSequence_ok_iff.mpr ⟨rfl, codepoint, scalars codepoint List.mem_cons_self, same.symm⟩
      rw [failed] at ran
      cases ran

theorem valid_cons_of_ascii (ascii : c &&& 0x80 = 0) (rest : List UInt8) :
    Valid (c :: rest) ↔ Valid rest := by
  have ran : analyzeSequence .ascii c rest = .ok (.ascii, rest) := if_pos ascii
  exact (valid_iff_of_analyzeSequence ran).1

theorem skipAscii_spec (bytes : List UInt8) :
    (Valid (skipAscii bytes) ↔ Valid bytes) ∧ (skipAscii bytes).length ≤ bytes.length := by
  induction bytes using skipAscii.induct with
  | case1 b₀ b₁ b₂ b₃ b₄ b₅ b₆ b₇ rest ascii ih =>
      rw [skipAscii, if_pos ascii, ih.1]
      simp only [List.all_cons, List.all_nil, Bool.and_true, Bool.and_eq_true, beq_iff_eq] at ascii
      obtain ⟨h₀, h₁, h₂, h₃, h₄, h₅, h₆, h₇⟩ := ascii
      rw [valid_cons_of_ascii h₀, valid_cons_of_ascii h₁, valid_cons_of_ascii h₂,
        valid_cons_of_ascii h₃, valid_cons_of_ascii h₄, valid_cons_of_ascii h₅,
        valid_cons_of_ascii h₆, valid_cons_of_ascii h₇]
      refine ⟨Iff.rfl, Nat.le_trans ih.2 ?_⟩
      simp only [List.length_cons]
      omega
  | case2 b₀ b₁ b₂ b₃ b₄ b₅ b₆ b₇ rest mixed =>
      rw [skipAscii, if_neg mixed]
      exact ⟨Iff.rfl, Nat.le_refl _⟩
  | case3 bytes short =>
      rw [skipAscii]
      · exact ⟨Iff.rfl, Nat.le_refl _⟩
      · exact short

/-- What is left decides whether the bytes are valid, unless they are found not to be. -/
def Decides (bytes : List UInt8) (bound : Nat) :
    Except UnicodeInvalidReason (UnicodeType × List UInt8) → Prop
  | .ok (_, rest) => (Valid bytes ↔ Valid rest) ∧ rest.length ≤ bound
  | .error _ => ¬ Valid bytes

theorem analyzeWindow_decides (stop fuel : Nat) (type : UnicodeType) (bytes : List UInt8)
    (enough : bytes.length ≤ fuel) : Decides bytes stop (analyzeWindow stop fuel type bytes) := by
  induction fuel generalizing type bytes with
  | zero =>
      obtain rfl := List.length_eq_zero_iff.mp (Nat.le_zero.mp enough)
      exact ⟨Iff.rfl, Nat.zero_le _⟩
  | succ fuel ih =>
      cases bytes with
      | nil => exact ⟨Iff.rfl, Nat.zero_le _⟩
      | cons c rest =>
          rw [List.length_cons] at enough
          rw [analyzeWindow]
          by_cases inside : stop < rest.length + 1
          · rw [if_pos inside]
            cases ran : analyzeSequence type c rest with
            | error reason => exact not_valid_of_analyzeSequence ran
            | ok result =>
                obtain ⟨after, left⟩ := result
                obtain ⟨same, shorter⟩ := valid_iff_of_analyzeSequence ran
                have later := ih after left (by omega)
                dsimp only [bind, Except.bind]
                cases final : analyzeWindow stop fuel after left with
                | error reason =>
                    rw [final] at later
                    exact fun valid => later (same.mp valid)
                | ok result =>
                    rw [final] at later
                    exact ⟨same.trans later.1, later.2⟩
          · rw [if_neg inside]
            refine ⟨Iff.rfl, ?_⟩
            rw [List.length_cons]
            omega

theorem analyzeLoop_isOk_iff (fuel : Nat) (type : UnicodeType) (bytes : List UInt8)
    (enough : bytes.length ≤ fuel) :
    (∃ after, analyzeLoop fuel type bytes = .ok after) ↔ Valid bytes := by
  induction fuel generalizing type bytes with
  | zero =>
      obtain rfl := List.length_eq_zero_iff.mp (Nat.le_zero.mp enough)
      exact iff_of_true ⟨type, rfl⟩ Valid.nil
  | succ fuel ih =>
      cases bytes with
      | nil => exact iff_of_true ⟨type, rfl⟩ Valid.nil
      | cons c rest =>
          rw [List.length_cons] at enough
          obtain ⟨same, shorter⟩ := skipAscii_spec (c :: rest)
          rw [List.length_cons] at shorter
          rw [analyzeLoop]
          dsimp only
          have decided := analyzeWindow_decides ((skipAscii (c :: rest)).length - 8)
            (skipAscii (c :: rest)).length type (skipAscii (c :: rest)) (Nat.le_refl _)
          cases ran : analyzeWindow ((skipAscii (c :: rest)).length - 8)
            (skipAscii (c :: rest)).length type (skipAscii (c :: rest)) with
          | error reason =>
              rw [ran] at decided
              refine iff_of_false ?_ (fun valid => decided (same.mpr valid))
              rintro ⟨_, impossible⟩
              cases impossible
          | ok result =>
              obtain ⟨after, left⟩ := result
              rw [ran] at decided
              rw [← same, decided.1, ← ih after left (by have := decided.2; omega)]
              rfl

/-- `Analyze` takes exactly the texts for valid. -/
theorem analyze_isOk_iff (bytes : List UInt8) :
    (∃ type, analyze bytes = .ok type) ↔ Valid bytes :=
  analyzeLoop_isOk_iff bytes.length .ascii bytes (Nat.le_refl _)

/-! ## Conversions -/

theorem ofInt_eq_ofNat {value : Int} {natural : Nat} (same : value = natural) :
    UInt8.ofInt value = UInt8.ofNat natural := by
  rw [same, UInt8.ofInt, ← UInt8.toNat_inj, UInt8.toNat_ofNat', UInt8.toNat_ofNat']
  omega

/-- The conversion of a code point is its encoding. -/
theorem codepointToUtf8_of_scalar (scalar : Scalar codepoint) :
    codepointToUtf8 codepoint = some (encode codepoint) := by
  have bound := scalar.le
  rw [codepointToUtf8, encode]
  rcases extraBytes_cases codepoint with ⟨low, size⟩ | ⟨low, size⟩ | ⟨low, size⟩ | ⟨low, size⟩
  · rw [if_pos (by omega), size]
    simp only [firstByte, trail, Option.some.injEq, List.cons.injEq, and_true]
    exact ofInt_eq_ofNat (by omega)
  · rw [if_neg (by omega), if_pos (by omega), size]
    simp only [firstByte, trail, Option.some.injEq, List.cons.injEq, and_true]
    exact ⟨ofInt_eq_ofNat (by omega), ofInt_eq_ofNat (by omega)⟩
  · have regular : ¬((0xD800 : Int) ≤ codepoint ∧ (codepoint : Int) ≤ 0xDFFF) := by
      rcases scalar with _ | ⟨_, _⟩ <;> omega
    rw [if_neg (by omega), if_neg (by omega), if_neg regular, if_pos (by omega), size]
    simp only [firstByte, trail, Option.some.injEq, List.cons.injEq, and_true]
    exact ⟨ofInt_eq_ofNat (by omega), ofInt_eq_ofNat (by omega), ofInt_eq_ofNat (by omega)⟩
  · rw [if_neg (by omega), if_neg (by omega), if_neg (by omega), if_neg (by omega),
      if_pos (by omega), size]
    simp only [firstByte, trail, Option.some.injEq, List.cons.injEq, and_true]
    exact ⟨ofInt_eq_ofNat (by omega), ofInt_eq_ofNat (by omega), ofInt_eq_ofNat (by omega),
      ofInt_eq_ofNat (by omega)⟩

/-- The bytes from `0xED 0xA0` on would be those of a surrogate. -/
theorem and_of_regular {digit : Nat} (small : digit < 32) :
    ¬ (digit + 128) &&& 0xA0 = 0xA0 := by
  have table : ∀ digit < 32, ¬ (digit + 128) &&& 0xA0 = 0xA0 := by decide
  exact table digit small

theorem length_encode (codepoint : Nat) :
    (encode codepoint).length = extraBytes codepoint + 1 := by
  rw [encode, List.length_cons, length_trail]

/-- The first code point of a text is read back, with the number of its bytes. -/
theorem utf8ToCodepoint_encode_append (scalar : Scalar codepoint) (rest : List UInt8) :
    utf8ToCodepoint (encode codepoint ++ rest) =
      .ok ((codepoint : Int), (encode codepoint).length) := by
  have bound := scalar.le
  have byte : ∀ value, value < 256 → (UInt8.ofNat value).toNat = value :=
    fun _ => toNat_ofNat_of_lt
  rw [utf8ToCodepoint, length_encode, encode]
  rcases extraBytes_cases codepoint with ⟨low, size⟩ | ⟨low, size⟩ | ⟨low, size⟩ | ⟨-, size⟩
  · rw [size]
    simp only [firstByte, trail, List.cons_append, List.getD_cons_zero]
    rw [byte _ (by omega), if_pos (by omega)]
    refine congrArg (fun value : Int => Except.ok (value, 1)) ?_
    omega
  · rw [size]
    simp only [firstByte, trail, List.cons_append, List.getD_cons_zero, List.getD_cons_succ]
    rw [byte _ (by omega), byte (codepoint / 64 ^ 0 % 64 + 128) (by omega), if_neg (by omega),
      if_pos (by omega)]
    refine congrArg (fun value : Int => Except.ok (value, 2)) ?_
    omega
  · rw [size]
    simp only [firstByte, trail, List.cons_append, List.getD_cons_zero, List.getD_cons_succ]
    have regular : ¬(codepoint / 64 ^ 2 + 224 = 0xED ∧
        (codepoint / 64 ^ 1 % 64 + 128) &&& 0xA0 = 0xA0) := by
      rintro ⟨first, high⟩
      refine and_of_regular ?_ high
      rcases scalar with _ | ⟨_, _⟩ <;> omega
    rw [byte _ (by omega), byte (codepoint / 64 ^ 1 % 64 + 128) (by omega),
      byte (codepoint / 64 ^ 0 % 64 + 128) (by omega), if_neg (by omega), if_neg (by omega),
      if_neg regular, if_pos (by omega)]
    refine congrArg (fun value : Int => Except.ok (value, 3)) ?_
    omega
  · rw [size]
    simp only [firstByte, trail, List.cons_append, List.getD_cons_zero, List.getD_cons_succ]
    rw [byte _ (by omega), byte (codepoint / 64 ^ 2 % 64 + 128) (by omega),
      byte (codepoint / 64 ^ 1 % 64 + 128) (by omega),
      byte (codepoint / 64 ^ 0 % 64 + 128) (by omega), if_neg (by omega), if_neg (by omega),
      if_neg (fun surrogate => by omega), if_neg (by omega), if_pos (by omega)]
    refine congrArg (fun value : Int => Except.ok (value, 4)) ?_
    omega

theorem utf8ToCodepoint_encode (scalar : Scalar codepoint) :
    ∃ size, utf8ToCodepoint (encode codepoint) = .ok ((codepoint : Int), size) := by
  have read := utf8ToCodepoint_encode_append scalar []
  rw [List.append_nil] at read
  exact ⟨_, read⟩

theorem isCharacter_eq_false_iff (c : UInt8) :
    isCharacter c = false ↔ 128 ≤ c.toNat ∧ c.toNat < 192 := by
  rw [isCharacter, bne_eq_false_iff_eq, extra_iff]

/-- The extra bytes continue a code point. -/
theorem isCharacter_of_mem_trail {extra : Nat} (member : c ∈ trail extra codepoint) :
    isCharacter c = false := by
  rw [isCharacter_eq_false_iff]
  induction extra with
  | zero => cases member
  | succ extra ih =>
      rcases List.mem_cons.mp member with rfl | behind
      · rw [toNat_ofNat_of_lt (by omega)]
        omega
      · exact ih behind

/-- The first byte of a code point is the only one that does not continue it. -/
theorem exists_encode_cons (scalar : Scalar codepoint) :
    ∃ first extra, encode codepoint = first :: extra ∧ isCharacter first = true ∧
      ∀ c ∈ extra, isCharacter c = false := by
  refine ⟨_, _, rfl, ?_, fun c => isCharacter_of_mem_trail⟩
  rw [← Bool.not_eq_false, isCharacter_eq_false_iff]
  have whole : _ :: trail (extraBytes codepoint) codepoint = encode codepoint ++ [] :=
    (List.append_nil _).symm
  rcases firstByte_cases scalar whole with ⟨_, _⟩ | ⟨_, _⟩ | ⟨_, _⟩ | ⟨_, _⟩ <;> omega

end Utf8Proc

end StatsRecommender
