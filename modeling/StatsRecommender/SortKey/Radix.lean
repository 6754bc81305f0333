import StatsRecommender.Library.DecidedWords
import StatsRecommender.Types.Payload

/-!
# Radix encodings

`common/radix.hpp`: values of constant size as bytes whose order is that of the values.
-/

namespace StatsRecommender

variable {first second : Int} {width bits : Nat} {format : FloatFormat}

open DecidedWords

/-- The types of constant size that sort keys are made of. -/
inductive ConstantType where
  | bool
  | uint8 | int8 | uint16 | int16 | uint32 | int32 | uint64 | int64 | uint128 | int128
  | float | double
  deriving DecidableEq, Repr

namespace ConstantType

def physicalType : ConstantType → PhysicalType
  | .bool => .bool
  | .uint8 => .uint8
  | .int8 => .int8
  | .uint16 => .uint16
  | .int16 => .int16
  | .uint32 => .uint32
  | .int32 => .int32
  | .uint64 => .uint64
  | .int64 => .int64
  | .uint128 => .uint128
  | .int128 => .int128
  | .float => .float
  | .double => .double

/-- `GetTypeIdSize`. -/
def size : ConstantType → Nat
  | .bool => 1
  | .uint8 => 1
  | .int8 => 1
  | .uint16 => 2
  | .int16 => 2
  | .uint32 => 4
  | .int32 => 4
  | .uint64 => 8
  | .int64 => 8
  | .uint128 => 16
  | .int128 => 16
  | .float => 4
  | .double => 8

end ConstantType

/-- `interval_t`. -/
structure IntervalValue where
  months : Int
  days : Int
  micros : Int
  deriving DecidableEq, Repr

namespace IntervalValue

/-- The fields are an `int32_t`, an `int32_t` and an `int64_t`. -/
def inRange (interval : IntervalValue) : Prop :=
  (-2 ^ 31 ≤ interval.months ∧ interval.months ≤ 2 ^ 31 - 1) ∧
    (-2 ^ 31 ≤ interval.days ∧ interval.days ≤ 2 ^ 31 - 1) ∧
    -2 ^ 63 ≤ interval.micros ∧ interval.micros ≤ 2 ^ 63 - 1

/-- An interval by its fields; `Interval::GreaterThan` would normalize them first. -/
def payload (interval : IntervalValue) : Payload :=
  .nested (.value (.integer interval.months) (.value (.integer interval.days)
    (.value (.integer interval.micros) .nil)))

end IntervalValue

variable {type : ConstantType}

namespace Radix

/-- What storing `BSwap` of an unsigned word leaves: its bytes, the most significant first. -/
def bigEndian : Nat → Nat → List UInt8
  | 0, _ => []
  | width + 1, word => UInt8.ofNat (word / 256 ^ width) :: bigEndian width (word % 256 ^ width)

/-- `FlipSign`. -/
def flipSign (keyByte : UInt8) : UInt8 := keyByte ^^^ 128

/-- `EncodeSigned`: the two's complement of the value with its sign bit flipped. -/
def encodeSigned (width : Nat) (value : Int) : List UInt8 :=
  match bigEndian width (value % (256 ^ width : Nat)).toNat with
  | [] => []
  | byte :: rest => flipSign byte :: rest

/-- `EncodeFloat` and `EncodeDouble`, on the bit pattern. -/
def encodeFloat (format : FloatFormat) (bits : Nat) : Nat :=
  let signBit := 2 ^ (format.exponentBits + format.mantissaBits)
  let maximum := format.infinity - 1
  if format.ieeeEquals bits 0 then signBit
  else if format.isNaN bits then 2 * signBit - 1
  else if format.ieeeGreater bits maximum then 2 * signBit - 2
  else if format.ieeeGreater (signBit + maximum) bits then 0
  else if bits < signBit then bits + signBit
  else 2 * signBit - 1 - bits

/-- `EncodeData`; a value of another type has no encoding. -/
def encodeData : ConstantType → Payload → List UInt8
  | .bool, .boolean value => [if value then 1 else 0]
  | .uint8, .integer value => bigEndian 1 value.toNat
  | .int8, .integer value => encodeSigned 1 value
  | .uint16, .integer value => bigEndian 2 value.toNat
  | .int16, .integer value => encodeSigned 2 value
  | .uint32, .integer value => bigEndian 4 value.toNat
  | .int32, .integer value => encodeSigned 4 value
  | .uint64, .integer value => bigEndian 8 value.toNat
  | .int64, .integer value => encodeSigned 8 value
  | .uint128, .integer value =>
      bigEndian 8 (value / 2 ^ 64).toNat ++ bigEndian 8 (value % 2 ^ 64).toNat
  | .int128, .integer value =>
      encodeSigned 8 (value / 2 ^ 64) ++ bigEndian 8 (value % 2 ^ 64).toNat
  | .float, .float bits => bigEndian 4 (encodeFloat .float bits.toNat)
  | .double, .double bits => bigEndian 8 (encodeFloat .double bits.toNat)
  | _, _ => []

/-- `EncodeData` of an interval. -/
def encodeInterval (interval : IntervalValue) : List UInt8 :=
  encodeSigned 4 interval.months ++ encodeSigned 4 interval.days ++ encodeSigned 8 interval.micros

/-! ## Words -/

theorem length_bigEndian (width word : Nat) : (bigEndian width word).length = width := by
  induction width generalizing word with
  | zero => rfl
  | succ width ih => rw [bigEndian, List.length_cons, ih]

theorem length_encodeSigned (width : Nat) (value : Int) :
    (encodeSigned width value).length = width := by
  have length := length_bigEndian width (value % (256 ^ width : Nat)).toNat
  unfold encodeSigned
  split
  · rename_i none_left
    rw [none_left] at length
    exact length
  · rename_i byte rest some_left
    rw [some_left] at length
    exact length

theorem compare_nat_then (first second width : Nat) :
    compare first second = (compare (first / width) (second / width)).then
      (compare (first % width) (second % width)) := by
  have left := Nat.div_add_mod first width
  have right := Nat.div_add_mod second width
  rcases Nat.lt_trichotomy (first / width) (second / width) with less | equal | greater
  · have below : first < second := by
      have : ¬ second ≤ first := fun le =>
        absurd (Nat.div_le_div_right le) (Nat.not_le.mpr less)
      omega
    rw [Nat.compare_eq_lt.mpr less, Nat.compare_eq_lt.mpr below]
    rfl
  · rw [equal, Nat.compare_eq_eq.mpr rfl]
    rw [equal] at left
    rcases Nat.lt_trichotomy (first % width) (second % width) with less | same | greater
    · rw [Nat.compare_eq_lt.mpr less, Nat.compare_eq_lt.mpr (by omega)]
      rfl
    · rw [Nat.compare_eq_eq.mpr same, Nat.compare_eq_eq.mpr (by omega)]
      rfl
    · rw [Nat.compare_eq_gt.mpr greater, Nat.compare_eq_gt.mpr (by omega)]
      rfl
  · have above : second < first := by
      have : ¬ first ≤ second := fun le =>
        absurd (Nat.div_le_div_right le) (Nat.not_le.mpr greater)
      omega
    rw [Nat.compare_eq_gt.mpr greater, Nat.compare_eq_gt.mpr above]
    rfl

/-- Bytes are ordered like the numbers they are made from. -/
theorem decides_byte {first second : Nat} (small : first < 256) (bound : second < 256) :
    Decides (compare first second) [UInt8.ofNat first] [UInt8.ofNat second] := by
  have value : (UInt8.ofNat first).toNat = first := UInt8.toNat_ofNat_of_lt small
  have other : (UInt8.ofNat second).toNat = second := UInt8.toNat_ofNat_of_lt bound
  rcases Nat.lt_trichotomy first second with less | equal | greater
  · rw [Nat.compare_eq_lt.mpr less]
    exact .head_less (UInt8.lt_iff_toNat_lt.mpr (by omega)) _ _
  · rw [Nat.compare_eq_eq.mpr equal, equal]
    exact .same _
  · rw [Nat.compare_eq_gt.mpr greater]
    exact .head_greater (UInt8.lt_iff_toNat_lt.mpr (by omega)) _ _

/-- Big-endian words are ordered byte by byte. -/
theorem decides_bigEndian {first second : Nat} (small : first < 256 ^ width)
    (bound : second < 256 ^ width) :
    Decides (compare first second) (bigEndian width first) (bigEndian width second) := by
  induction width generalizing first second with
  | zero =>
      rw [Nat.compare_eq_eq.mpr (by omega)]
      exact .same _
  | succ width ih =>
      have positive : 0 < 256 ^ width := Nat.pow_pos (by decide)
      rw [Nat.pow_succ] at small bound
      rw [compare_nat_then first second (256 ^ width)]
      exact (decides_byte (Nat.div_lt_of_lt_mul small) (Nat.div_lt_of_lt_mul bound)).append
        (ih (Nat.mod_lt _ positive) (Nat.mod_lt _ positive))

/-- The numbers behind two integers, both raised so far that they are not negative. -/
theorem compare_toNat {first second : Int} (raise : Int) (small : 0 ≤ first + raise)
    (bound : 0 ≤ second + raise) :
    compare (first + raise).toNat (second + raise).toNat = compare first second := by
  rcases Int.lt_trichotomy first second with less | equal | greater
  · rw [Int.compare_eq_lt.mpr less, Nat.compare_eq_lt.mpr (by omega)]
  · rw [Int.compare_eq_eq.mpr equal, Nat.compare_eq_eq.mpr (by omega)]
  · rw [Int.compare_eq_gt.mpr greater, Nat.compare_eq_gt.mpr (by omega)]

theorem flipSign_ofNat {number : Nat} (small : number < 256) :
    flipSign (UInt8.ofNat number) = UInt8.ofNat ((number + 128) % 256) := by
  have all : ∀ number < 256,
      flipSign (UInt8.ofNat number) = UInt8.ofNat ((number + 128) % 256) := by decide +kernel
  exact all number small

/-- Flipping the sign raises a signed word by half of its range. -/
theorem encodeSigned_eq {value : Int} (low : -(128 * 256 ^ width : Nat) ≤ value)
    (high : value < (128 * 256 ^ width : Nat)) :
    encodeSigned (width + 1) value =
      bigEndian (width + 1) (value + (128 * 256 ^ width : Nat)).toNat := by
  have positive : 0 < 256 ^ width := Nat.pow_pos (by decide)
  have range : 256 ^ (width + 1) = 256 * 256 ^ width := by rw [Nat.pow_succ, Nat.mul_comm]
  rw [encodeSigned, range, bigEndian, bigEndian]
  generalize 256 ^ width = unit at *
  dsimp only
  rcases Int.lt_or_le value 0 with negative | natural
  · have word : (value % (256 * unit : Nat)).toNat =
        (value + (128 * unit : Nat)).toNat + 128 * unit := by
      rw [← Int.add_mul_emod_self_right value 1, Int.emod_eq_of_lt (by omega) (by omega)]
      omega
    rw [word]
    generalize hraised : (value + (128 * unit : Nat)).toNat = raised
    have small : raised / unit < 128 := Nat.div_lt_of_lt_mul (by rw [Nat.mul_comm]; omega)
    rw [Nat.add_mul_div_right _ _ positive, Nat.add_mul_mod_self_right,
      flipSign_ofNat (by omega), Nat.add_assoc, Nat.add_mod_right, Nat.mod_eq_of_lt (by omega)]
  · have word : (value % (256 * unit : Nat)).toNat = value.toNat := by
      rw [Int.emod_eq_of_lt natural (by omega)]
    have raised : (value + (128 * unit : Nat)).toNat = value.toNat + 128 * unit := by omega
    rw [word, raised]
    have small : value.toNat / unit < 128 := Nat.div_lt_of_lt_mul (by rw [Nat.mul_comm]; omega)
    rw [Nat.add_mul_div_right _ _ positive, Nat.add_mul_mod_self_right,
      flipSign_ofNat (by omega), Nat.mod_eq_of_lt (by omega)]

/-- Signed words are ordered like the integers in their range. -/
theorem decides_encodeSigned (first_low : -(128 * 256 ^ width : Nat) ≤ first)
    (first_high : first < (128 * 256 ^ width : Nat))
    (second_low : -(128 * 256 ^ width : Nat) ≤ second)
    (second_high : second < (128 * 256 ^ width : Nat)) :
    Decides (compare first second) (encodeSigned (width + 1) first)
      (encodeSigned (width + 1) second) := by
  rw [encodeSigned_eq first_low first_high, encodeSigned_eq second_low second_high,
    ← compare_toNat (128 * 256 ^ width : Nat) (by omega) (by omega)]
  exact decides_bigEndian (by omega) (by omega)

/-! ## Floating-point numbers -/

/-- The sign bit as a number, behind the bits of every magnitude. -/
def signBit (format : FloatFormat) : Nat := 2 ^ (format.exponentBits + format.mantissaBits)

/-- The place of a number in the order that the encoding keeps. -/
def floatPlace (format : FloatFormat) (key : Int) : Int :=
  if key = signBit format then 2 * signBit format - 1
  else if key = format.infinity then 2 * signBit format - 2
  else if key = -format.infinity then 0
  else if 0 ≤ key then signBit format + key
  else signBit format - 1 + key

/-- A bit pattern is a sign and a magnitude. -/
theorem signMagnitude_of_lt {format : FloatFormat} {bits : Nat} (small : bits < signBit format) :
    format.magnitude bits = bits ∧ format.sign bits = false := by
  constructor
  · exact Nat.mod_eq_of_lt small
  · unfold FloatFormat.sign
    change (bits / signBit format % 2 == 1) = false
    rw [Nat.div_eq_of_lt small]
    rfl

theorem signMagnitude_of_le {format : FloatFormat} {bits : Nat} (large : signBit format ≤ bits)
    (bound : bits < 2 * signBit format) :
    format.magnitude bits = bits - signBit format ∧ format.sign bits = true := by
  have quotient : bits / signBit format = 1 :=
    Nat.div_eq_of_lt_le (by omega) (by omega)
  constructor
  · change bits % signBit format = _
    have whole := Nat.div_add_mod bits (signBit format)
    rw [quotient] at whole
    omega
  · unfold FloatFormat.sign
    change (bits / signBit format % 2 == 1) = true
    rw [quotient]
    rfl

theorem encodeFloat_eq (room : format.infinity + 2 ≤ signBit format)
    (positive : 0 < format.infinity) (bound : bits < 2 * signBit format) :
    (encodeFloat format bits : Int) = floatPlace format (format.key bits) := by
  have zero := @signMagnitude_of_lt format 0 (by omega)
  have largest := @signMagnitude_of_lt format (format.infinity - 1) (by omega)
  have smallest := @signMagnitude_of_le format (signBit format + (format.infinity - 1)) (by omega)
    (by omega)
  have behind : (2 : Int) ^ (format.exponentBits + format.mantissaBits) = signBit format := by
    rw [signBit, Int.natCast_pow]
    rfl
  unfold encodeFloat floatPlace FloatFormat.ieeeEquals FloatFormat.ieeeGreater FloatFormat.key
    FloatFormat.isNaN FloatFormat.signedMagnitude
  rw [← signBit, behind]
  simp only [zero.1, zero.2, largest.1, largest.2, smallest.1, smallest.2]
  rcases Nat.lt_or_ge bits (signBit format) with small | large
  · obtain ⟨magnitude, sign⟩ := signMagnitude_of_lt small
    simp only [magnitude, sign, Bool.false_eq_true, if_false, if_true, Bool.and_eq_true,
      Bool.not_eq_true', decide_eq_true_eq, decide_eq_false_iff_not, beq_iff_eq]
    split_ifs <;> omega
  · obtain ⟨magnitude, sign⟩ := signMagnitude_of_le large bound
    simp only [magnitude, sign, Bool.false_eq_true, if_false, if_true, Bool.and_eq_true,
      Bool.not_eq_true', decide_eq_true_eq, decide_eq_false_iff_not, beq_iff_eq]
    split_ifs <;> omega

/-- The keys of a format, NaN behind the infinities. -/
theorem key_range (format : FloatFormat) (bits : Nat) :
    -(format.infinity : Int) ≤ format.key bits ∧
      (format.key bits ≤ format.infinity ∨ format.key bits = signBit format) := by
  refine ⟨format.neg_infinity_le_key bits, ?_⟩
  cases number : format.isNaN bits with
  | false => exact Or.inl (FloatFormat.key_le_infinity number)
  | true =>
      rw [FloatFormat.key_of_isNaN number, signBit, Int.natCast_pow]
      exact Or.inr rfl

section

variable (room : format.infinity + 2 ≤ signBit format)
include room

theorem floatPlace_lt (positive : 0 < format.infinity) (low : -(format.infinity : Int) ≤ first)
    (less : first < second) (middle : first ≤ format.infinity ∨ first = signBit format)
    (high : second ≤ format.infinity ∨ second = signBit format) :
    floatPlace format first < floatPlace format second := by
  unfold floatPlace
  split_ifs <;> omega

theorem compare_encodeFloat (positive : 0 < format.infinity) {first second : Nat}
    (small : first < 2 * signBit format) (bound : second < 2 * signBit format) :
    compare (encodeFloat format first) (encodeFloat format second) =
      compare (format.key first) (format.key second) := by
  have left := encodeFloat_eq room positive small
  have right := encodeFloat_eq room positive bound
  obtain ⟨first_low, first_high⟩ := key_range format first
  obtain ⟨second_low, second_high⟩ := key_range format second
  rcases Int.lt_trichotomy (format.key first) (format.key second) with less | equal | greater
  · have place := floatPlace_lt room positive first_low less first_high second_high
    rw [Int.compare_eq_lt.mpr less, Nat.compare_eq_lt.mpr (by omega)]
  · rw [Int.compare_eq_eq.mpr equal, Nat.compare_eq_eq.mpr (by rw [equal] at left; omega)]
  · have place := floatPlace_lt room positive second_low greater second_high first_high
    rw [Int.compare_eq_gt.mpr greater, Nat.compare_eq_gt.mpr (by omega)]

theorem encodeFloat_lt (positive : 0 < format.infinity) (bound : bits < 2 * signBit format) :
    encodeFloat format bits < 2 * signBit format := by
  have place := encodeFloat_eq room positive bound
  obtain ⟨-, high⟩ := key_range format bits
  unfold floatPlace at place
  split_ifs at place <;> omega

end

/-! ## Values -/

/-- Integers, as letters of an order key. -/
theorem decides_int (first second : Int) : Decides (compare first second) [first] [second] := by
  rcases Int.lt_trichotomy first second with less | equal | greater
  · rw [Int.compare_eq_lt.mpr less]
    exact .head_less less _ _
  · rw [Int.compare_eq_eq.mpr equal, equal]
    exact .same _
  · rw [Int.compare_eq_gt.mpr greater]
    exact .head_greater greater _ _

theorem alike_of_decides (tag : Int) {firstCode secondCode : List UInt8}
    (code : Decides (compare first second) firstCode secondCode) :
    Alike false [tag, first] [tag, second] firstCode secondCode :=
  ⟨compare first second, (decides_int first second).prepend [tag], code⟩

theorem integer_of_hasType {type : PhysicalType} {low high : Int}
    (range : type.integerRange = some (low, high)) {payload : Payload}
    (typed : payload.hasType type = true) :
    ∃ value, payload = .integer value ∧ low ≤ value ∧ value ≤ high := by
  cases payload with
  | integer value =>
      have bounds : (decide (low ≤ value) && decide (value ≤ high)) = true := by
        cases type <;> simp only [PhysicalType.integerRange, reduceCtorEq] at range <;>
          cases range <;> exact typed
      rw [Bool.and_eq_true, decide_eq_true_eq, decide_eq_true_eq] at bounds
      exact ⟨value, rfl, bounds⟩
  | _ => cases type <;> simp [Payload.hasType, PhysicalType.integerRange] at typed range

theorem alike_unsigned (low : 0 ≤ first) (high : first ≤ (256 ^ width : Nat) - 1)
    (other_low : 0 ≤ second) (other_high : second ≤ (256 ^ width : Nat) - 1) :
    Alike false [1, first] [1, second] (bigEndian width first.toNat)
      (bigEndian width second.toNat) := by
  apply alike_of_decides
  rw [← compare_toNat 0 (by omega) (by omega), Int.add_zero, Int.add_zero]
  exact decides_bigEndian (by omega) (by omega)

theorem alike_signed {width : Nat} {first second : Int}
    (low : -(128 * 256 ^ width : Nat) ≤ first) (high : first ≤ (128 * 256 ^ width : Nat) - 1)
    (other_low : -(128 * 256 ^ width : Nat) ≤ second)
    (other_high : second ≤ (128 * 256 ^ width : Nat) - 1) :
    Alike false [1, first] [1, second] (encodeSigned (width + 1) first)
      (encodeSigned (width + 1) second) :=
  alike_of_decides 1 (decides_encodeSigned low (by omega) other_low (by omega))

/-- A wide integer is compared by its upper word, then by its lower word. -/
theorem compare_words (first second : Int) :
    compare first second = (compare (first / 2 ^ 64) (second / 2 ^ 64)).then
      (compare (first % 2 ^ 64) (second % 2 ^ 64)) := by
  rcases Int.lt_trichotomy (first / 2 ^ 64) (second / 2 ^ 64) with less | equal | greater
  · rw [Int.compare_eq_lt.mpr less, Int.compare_eq_lt.mpr (by omega)]
    rfl
  · rw [Int.compare_eq_eq.mpr equal]
    rcases Int.lt_trichotomy (first % 2 ^ 64) (second % 2 ^ 64) with less | same | greater
    · rw [Int.compare_eq_lt.mpr less, Int.compare_eq_lt.mpr (by omega)]
      rfl
    · rw [Int.compare_eq_eq.mpr same, Int.compare_eq_eq.mpr (by omega)]
      rfl
    · rw [Int.compare_eq_gt.mpr greater, Int.compare_eq_gt.mpr (by omega)]
      rfl
  · rw [Int.compare_eq_gt.mpr greater, Int.compare_eq_gt.mpr (by omega)]
    rfl

theorem decides_lower (first second : Int) :
    Decides (compare (first % 2 ^ 64) (second % 2 ^ 64))
      (bigEndian 8 (first % 2 ^ 64).toNat) (bigEndian 8 (second % 2 ^ 64).toNat) := by
  rw [← compare_toNat 0 (by omega) (by omega), Int.add_zero, Int.add_zero]
  exact decides_bigEndian (by omega) (by omega)

theorem alike_float (room : format.infinity + 2 ≤ signBit format) (positive : 0 < format.infinity)
    (fits : 2 * signBit format = 256 ^ width) (tag : Int) {first second : Nat}
    (small : first < 256 ^ width) (bound : second < 256 ^ width) :
    Alike false [tag, format.key first] [tag, format.key second]
      (bigEndian width (encodeFloat format first)) (bigEndian width (encodeFloat format second)) := by
  rw [← fits] at small bound
  apply alike_of_decides
  rw [← compare_encodeFloat room positive small bound]
  exact decides_bigEndian (fits ▸ encodeFloat_lt room positive small)
    (fits ▸ encodeFloat_lt room positive bound)

/-- The encoding of a type keeps the order of its values. -/
theorem encodeData_alike {left right : Payload} (typed : left.hasType type.physicalType = true)
    (other : right.hasType type.physicalType = true) :
    Alike false left.digits right.digits (encodeData type left) (encodeData type right) := by
  cases type with
  | bool =>
      cases left <;> simp [ConstantType.physicalType, Payload.hasType, PhysicalType.integerRange]
        at typed
      cases right <;> simp [ConstantType.physicalType, Payload.hasType, PhysicalType.integerRange]
        at other
      rename_i first second
      cases first <;> cases second
      · exact .same _ _
      · exact ⟨.lt, .less [0] (by decide) [] [], .head_less (by decide) [] []⟩
      · exact ⟨.gt, .greater [0] (by decide) [] [], .head_greater (by decide) [] []⟩
      · exact .same _ _
  | float =>
      cases left <;> simp [ConstantType.physicalType, Payload.hasType, PhysicalType.integerRange]
        at typed
      cases right <;> simp [ConstantType.physicalType, Payload.hasType, PhysicalType.integerRange]
        at other
      rename_i first second
      exact alike_float (by decide) (by decide) (by decide) 2 first.isLt second.isLt
  | double =>
      cases left <;> simp [ConstantType.physicalType, Payload.hasType, PhysicalType.integerRange]
        at typed
      cases right <;> simp [ConstantType.physicalType, Payload.hasType, PhysicalType.integerRange]
        at other
      rename_i first second
      exact alike_float (by decide) (by decide) (by decide) 3 first.isLt second.isLt
  | uint128 =>
      obtain ⟨first, rfl, low, high⟩ := integer_of_hasType rfl typed
      obtain ⟨second, rfl, other_low, other_high⟩ := integer_of_hasType rfl other
      apply alike_of_decides
      rw [compare_words, ← compare_toNat 0 (by omega) (by omega), Int.add_zero, Int.add_zero]
      exact (decides_bigEndian (by omega) (by omega)).append (decides_lower first second)
  | int128 =>
      obtain ⟨first, rfl, low, high⟩ := integer_of_hasType rfl typed
      obtain ⟨second, rfl, other_low, other_high⟩ := integer_of_hasType rfl other
      apply alike_of_decides
      rw [compare_words]
      exact (decides_encodeSigned (by omega) (by omega) (by omega) (by omega)).append
        (decides_lower first second)
  | uint8 | uint16 | uint32 | uint64 =>
      obtain ⟨first, rfl, low, high⟩ := integer_of_hasType rfl typed
      obtain ⟨second, rfl, other_low, other_high⟩ := integer_of_hasType rfl other
      exact alike_unsigned low (by omega) other_low (by omega)
  | int8 | int16 | int32 | int64 =>
      obtain ⟨first, rfl, low, high⟩ := integer_of_hasType rfl typed
      obtain ⟨second, rfl, other_low, other_high⟩ := integer_of_hasType rfl other
      exact alike_signed (by omega) (by omega) (by omega) (by omega)

/-- Intervals are ordered by their fields. -/
theorem encodeInterval_alike {left right : IntervalValue} (bounds : left.inRange)
    (other : right.inRange) : Alike false left.payload.digits right.payload.digits
      (encodeInterval left) (encodeInterval right) := by
  obtain ⟨months, days, micros⟩ := bounds
  obtain ⟨otherMonths, otherDays, otherMicros⟩ := other
  have field : ∀ {width : Nat} {first second : Int},
      Alike false [1, first] [1, second] (encodeSigned width first) (encodeSigned width second) →
      Alike false [1, 1, first] [1, 1, second] (encodeSigned width first)
        (encodeSigned width second) := fun alike => (Alike.same [1] []).append alike
  have first := field (@alike_signed 3 _ _ months.1 (by omega) otherMonths.1 (by omega))
  have second := field (@alike_signed 3 _ _ days.1 (by omega) otherDays.1 (by omega))
  have third := field (@alike_signed 7 _ _ micros.1 (by omega) otherMicros.1 (by omega))
  exact (((Alike.same [5] []).append first).append second).append
    (third.append (Alike.same [0] []))

theorem length_encodeInterval (interval : IntervalValue) :
    (encodeInterval interval).length = 16 := by
  simp [encodeInterval, length_encodeSigned]

theorem length_encodeData {payload : Payload} (typed : payload.hasType type.physicalType = true) :
    (encodeData type payload).length = type.size := by
  cases type with
  | bool | float | double =>
      cases payload <;> simp [ConstantType.physicalType, Payload.hasType,
        PhysicalType.integerRange] at typed
      simp [encodeData, ConstantType.size, length_bigEndian]
  | _ =>
      obtain ⟨value, rfl, -⟩ := integer_of_hasType rfl typed
      simp [encodeData, ConstantType.size, length_bigEndian, length_encodeSigned]

end Radix

end StatsRecommender
