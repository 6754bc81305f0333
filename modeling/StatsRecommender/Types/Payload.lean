import Mathlib.Algebra.Order.Ring.Nat
import Mathlib.Data.Int.ConditionallyCompleteOrder
import Mathlib.Data.List.Lex

/-!
# Values and their comparison

The payload of a non-NULL value, by physical representation, and the comparison
operators of `common/operator/comparison_operators.hpp` on it.  Every comparison
is read back from one order key, so that the statistics can be reasoned about in
a linear order although NaNs and signed zeros are distinct bit patterns.
-/

namespace StatsRecommender

variable {bits : Nat}

/-- A binary interchange format; a floating-point value is its bit pattern. -/
structure FloatFormat where
  exponentBits : Nat
  mantissaBits : Nat

variable {format : FloatFormat}

namespace FloatFormat

def float : FloatFormat := ⟨8, 23⟩
def double : FloatFormat := ⟨11, 52⟩

def sign (format : FloatFormat) (bits : Nat) : Bool :=
  bits / 2 ^ (format.exponentBits + format.mantissaBits) % 2 == 1

def magnitude (format : FloatFormat) (bits : Nat) : Nat :=
  bits % 2 ^ (format.exponentBits + format.mantissaBits)

/-- The magnitude of the infinities: all exponent bits set, no mantissa bit. -/
def infinity (format : FloatFormat) : Nat :=
  (2 ^ format.exponentBits - 1) * 2 ^ format.mantissaBits

def isNaN (format : FloatFormat) (bits : Nat) : Bool :=
  decide (format.infinity < format.magnitude bits)

def isInfinity (format : FloatFormat) (bits : Nat) : Bool :=
  format.magnitude bits == format.infinity

/-- The signed magnitude orders the values that are not NaN as IEEE 754 does. -/
def signedMagnitude (format : FloatFormat) (bits : Nat) : Int :=
  if format.sign bits then -(format.magnitude bits : Int) else format.magnitude bits

/-- `left == right` of the language: false as soon as an operand is NaN. -/
def ieeeEquals (format : FloatFormat) (left right : Nat) : Bool :=
  !format.isNaN left && !format.isNaN right &&
    format.signedMagnitude left == format.signedMagnitude right

/-- `left > right` of the language: false as soon as an operand is NaN. -/
def ieeeGreater (format : FloatFormat) (left right : Nat) : Bool :=
  !format.isNaN left && !format.isNaN right &&
    decide (format.signedMagnitude right < format.signedMagnitude left)

/-- `EqualsFloat`: two NaNs are equal. -/
def equalsFloat (format : FloatFormat) (left right : Nat) : Bool :=
  if format.isNaN left && format.isNaN right then true else format.ieeeEquals left right

/-- `GreaterThanFloat`: NaN is greater than everything but NaN. -/
def greaterThanFloat (format : FloatFormat) (left right : Nat) : Bool :=
  if format.isNaN right then false
  else if format.isNaN left then true
  else format.ieeeGreater left right

/-- Position of a bit pattern in DuckDB's order, NaN behind every magnitude. -/
def key (format : FloatFormat) (bits : Nat) : Int :=
  if format.isNaN bits then
    2 ^ (format.exponentBits + format.mantissaBits)
  else format.signedMagnitude bits

theorem signedMagnitude_lt (format : FloatFormat) (bits : Nat) :
    format.signedMagnitude bits < 2 ^ (format.exponentBits + format.mantissaBits) := by
  have bound : format.magnitude bits < 2 ^ (format.exponentBits + format.mantissaBits) :=
    Nat.mod_lt _ (Nat.two_pow_pos _)
  have cast : (format.magnitude bits : Int) <
      2 ^ (format.exponentBits + format.mantissaBits) := by exact_mod_cast bound
  unfold signedMagnitude
  split
  · omega
  · exact cast

theorem equalsFloat_iff_key (format : FloatFormat) (left right : Nat) :
    format.equalsFloat left right = true ↔ format.key left = format.key right := by
  have hleft := format.signedMagnitude_lt left
  have hright := format.signedMagnitude_lt right
  unfold equalsFloat ieeeEquals key
  cases format.isNaN left <;> cases format.isNaN right <;> simp <;> omega

theorem greaterThanFloat_iff_key (format : FloatFormat) (left right : Nat) :
    format.greaterThanFloat left right = true ↔ format.key right < format.key left := by
  have hleft := format.signedMagnitude_lt left
  have hright := format.signedMagnitude_lt right
  unfold greaterThanFloat ieeeGreater key
  cases format.isNaN left <;> cases format.isNaN right <;> simp <;> omega

/-! ### The ends of the order -/

theorem key_of_isNaN (nan : format.isNaN bits = true) :
    format.key bits = 2 ^ (format.exponentBits + format.mantissaBits) := by
  rw [key, if_pos nan]

theorem key_le (format : FloatFormat) (bits : Nat) :
    format.key bits ≤ 2 ^ (format.exponentBits + format.mantissaBits) := by
  unfold key
  split
  · exact le_rfl
  · exact (format.signedMagnitude_lt bits).le

/-- Up to NaN, the magnitudes are bounded by the magnitude of the infinities. -/
theorem neg_infinity_le_key (format : FloatFormat) (bits : Nat) :
    -(format.infinity : Int) ≤ format.key bits := by
  unfold key
  split
  · have : (0 : Int) ≤ 2 ^ (format.exponentBits + format.mantissaBits) := Int.pow_nonneg (by decide)
    omega
  · rename_i number
    have bound : format.magnitude bits ≤ format.infinity := by
      simpa [isNaN] using number
    simp only [signedMagnitude]
    split <;> omega

theorem key_le_infinity (number : format.isNaN bits = false) :
    format.key bits ≤ format.infinity := by
  have bound : format.magnitude bits ≤ format.infinity := by
    simpa [isNaN] using number
  rw [key, if_neg (by simp [number]), signedMagnitude]
  split <;> omega

theorem key_of_isInfinity (infinite : format.isInfinity bits = true) :
    format.key bits =
      if format.sign bits then -(format.infinity : Int) else format.infinity := by
  have heq : format.magnitude bits = format.infinity := by simpa [isInfinity] using infinite
  have number : ¬ format.isNaN bits = true := by simp [isNaN, heq]
  rw [key, if_neg number, signedMagnitude, heq]

end FloatFormat

/-- `PhysicalType`, the representation a vector of values has in memory. -/
inductive PhysicalType where
  | bool
  | uint8 | int8 | uint16 | int16 | uint32 | int32 | uint64 | int64 | uint128 | int128
  | float | double
  | varchar
  | interval | list | struct | array | bit | unknown
  deriving DecidableEq, Repr

mutual

/--
The content of a non-NULL value.  Integers stand for every integral
representation, decimals and dates included; strings are byte strings.
-/
inductive Payload where
  | boolean (value : Bool)
  | integer (value : Int)
  | float (bits : BitVec 32)
  | double (bits : BitVec 64)
  | varchar (bytes : List UInt8)
  | nested (children : Fields)
  deriving DecidableEq, Repr

/-- The children of a struct or list value, each of which may be NULL. -/
inductive Fields where
  | nil
  | null (rest : Fields)
  | value (child : Payload) (rest : Fields)
  deriving DecidableEq, Repr

end

/-- The child at a position; none for NULL and past the last child. -/
def Fields.child : Fields → Nat → Option Payload
  | .nil, _ => none
  | .null _, 0 => none
  | .value child _, 0 => some child
  | .null rest, index + 1 => rest.child index
  | .value _ rest, index + 1 => rest.child index

/-- Three-way comparison of byte strings: `memcmp` on the common length, then the sizes. -/
def stringComparison : List UInt8 → List UInt8 → Ordering
  | [], [] => .eq
  | [], _ :: _ => .lt
  | _ :: _, [] => .gt
  | left :: lefts, right :: rights =>
      if left.toNat < right.toNat then .lt
      else if right.toNat < left.toNat then .gt
      else stringComparison lefts rights

theorem stringComparison_lt_iff (left right : List UInt8) :
    stringComparison left right = .lt ↔ left < right := by
  induction left generalizing right with
  | nil => cases right <;> simp [stringComparison]
  | cons byte rest ih =>
      cases right with
      | nil => simp [stringComparison]
      | cons head tail =>
          rw [stringComparison, List.cons_lt_cons_iff, UInt8.lt_iff_toNat_lt, ← UInt8.toNat_inj]
          by_cases less : byte.toNat < head.toNat
          · simp [less]
          · by_cases greater : head.toNat < byte.toNat
            · simp [less, greater, Nat.ne_of_gt greater]
            · have same : byte.toNat = head.toNat := by omega
              simp [same, ih]

theorem stringComparison_eq_iff (left right : List UInt8) :
    stringComparison left right = .eq ↔ left = right := by
  induction left generalizing right with
  | nil => cases right <;> simp [stringComparison]
  | cons byte rest ih =>
      cases right with
      | nil => simp [stringComparison]
      | cons head tail =>
          rw [stringComparison, List.cons.injEq, ← UInt8.toNat_inj, ← ih]
          split
          · exact iff_of_false (by decide) (fun both => by omega)
          · split
            · exact iff_of_false (by decide) (fun both => by omega)
            · exact (and_iff_right (by omega)).symm

theorem stringComparison_swap (left right : List UInt8) :
    stringComparison left right = .gt ↔ stringComparison right left = .lt := by
  induction left generalizing right with
  | nil => cases right <;> simp [stringComparison]
  | cons byte rest ih =>
      cases right with
      | nil => simp [stringComparison]
      | cons head tail =>
          rw [stringComparison, stringComparison]
          by_cases less : byte.toNat < head.toNat
          · rw [if_pos less, if_neg (by omega), if_pos less]
            decide
          · rw [if_neg less]
            by_cases greater : head.toNat < byte.toNat
            · rw [if_pos greater, if_pos greater]
              decide
            · rw [if_neg greater, if_neg greater, if_neg less]
              exact ih tail

/-- A position in the order of values: a word of integers compared lexicographically. -/
structure OrderKey where
  digits : List Int
  deriving DecidableEq, Repr

namespace OrderKey

instance : LinearOrder OrderKey :=
  LinearOrder.lift' digits fun left right heq => by cases left; cases right; cases heq; rfl

theorem cons_lt_cons_iff (head other : Int) (tail rest : List Int) :
    (⟨head :: tail⟩ : OrderKey) < ⟨other :: rest⟩ ↔
      head < other ∨ head = other ∧ (⟨tail⟩ : OrderKey) < ⟨rest⟩ :=
  List.cons_lt_cons_iff

@[simp]
theorem singleton_lt_iff (left right : Int) :
    (⟨[left]⟩ : OrderKey) < ⟨[right]⟩ ↔ left < right :=
  List.lex_singleton_iff left right

theorem pair_le_iff (tag left right : Int) :
    (⟨[tag, left]⟩ : OrderKey) ≤ ⟨[tag, right]⟩ ↔ left ≤ right := by
  rw [← not_lt, cons_lt_cons_iff, singleton_lt_iff, ← not_lt]
  simp

end OrderKey

/-- Order key of a byte string; the end marker sorts a prefix first. -/
def stringKey : List UInt8 → List Int
  | [] => [0]
  | byte :: rest => ((byte.toNat : Int) + 1) :: stringKey rest

mutual

/--
The word that places a payload in DuckDB's order.  The leading tag separates the
representations, which are never compared with one another.
-/
def Payload.digits : Payload → List Int
  | .boolean value => [0, if value then 1 else 0]
  | .integer value => [1, value]
  | .float bits => [2, FloatFormat.float.key bits.toNat]
  | .double bits => [3, FloatFormat.double.key bits.toNat]
  | .varchar bytes => 4 :: stringKey bytes
  | .nested children => 5 :: children.digits

/-- Nested values compare child by child, a NULL child behind every value. -/
def Fields.digits : Fields → List Int
  | .nil => [0]
  | .null rest => 2 :: rest.digits
  | .value child rest => 1 :: (child.digits ++ rest.digits)

end

def Payload.key (payload : Payload) : OrderKey := ⟨payload.digits⟩

theorem stringKey_lt_iff (left right : List UInt8) :
    (⟨stringKey left⟩ : OrderKey) < ⟨stringKey right⟩ ↔ stringComparison left right = .lt := by
  induction left generalizing right with
  | nil =>
      cases right with
      | nil => simp [stringKey, stringComparison]
      | cons head tail =>
          simp only [stringKey, stringComparison, OrderKey.cons_lt_cons_iff, iff_true]
          exact Or.inl (Int.lt_add_one_of_le (Int.natCast_nonneg _))
  | cons byte rest ih =>
      cases right with
      | nil =>
          simp only [stringKey, stringComparison, OrderKey.cons_lt_cons_iff, reduceCtorEq, iff_false]
          have := Int.natCast_nonneg byte.toNat
          rintro (hlt | ⟨heq, -⟩) <;> omega
      | cons head tail =>
          simp only [stringKey, stringComparison, OrderKey.cons_lt_cons_iff, ih]
          by_cases hlt : byte.toNat < head.toNat
          · rw [if_pos hlt]
            exact iff_of_true (Or.inl (by omega)) rfl
          · rw [if_neg hlt]
            by_cases hgt : head.toNat < byte.toNat
            · rw [if_pos hgt]
              refine iff_of_false ?_ (by decide)
              rintro (hkey | ⟨heq, -⟩) <;> omega
            · rw [if_neg hgt]
              constructor
              · rintro (hkey | ⟨-, hrest⟩)
                · omega
                · exact hrest
              · exact fun hrest => Or.inr ⟨by omega, hrest⟩

theorem stringKey_eq_iff (left right : List UInt8) :
    stringKey left = stringKey right ↔ left = right := by
  induction left generalizing right with
  | nil =>
      cases right with
      | nil => simp
      | cons head tail =>
          refine iff_of_false (fun heq => ?_) (List.cons_ne_nil _ _).symm
          have hhead := (List.cons.inj heq).1
          omega
  | cons byte rest ih =>
      cases right with
      | nil =>
          refine iff_of_false (fun heq => ?_) (List.cons_ne_nil _ _)
          have hhead := (List.cons.inj heq).1
          omega
      | cons head tail =>
          simp only [stringKey, List.cons.injEq, ih, ← UInt8.toNat_inj]
          exact and_congr_left fun _ => by omega

/-- The least and the greatest value of an integral representation. -/
def PhysicalType.integerRange : PhysicalType → Option (Int × Int)
  | .uint8 => some (0, 2 ^ 8 - 1)
  | .int8 => some (-2 ^ 7, 2 ^ 7 - 1)
  | .uint16 => some (0, 2 ^ 16 - 1)
  | .int16 => some (-2 ^ 15, 2 ^ 15 - 1)
  | .uint32 => some (0, 2 ^ 32 - 1)
  | .int32 => some (-2 ^ 31, 2 ^ 31 - 1)
  | .uint64 => some (0, 2 ^ 64 - 1)
  | .int64 => some (-2 ^ 63, 2 ^ 63 - 1)
  | .uint128 => some (0, 2 ^ 128 - 1)
  | .int128 => some (-2 ^ 127, 2 ^ 127 - 1)
  | _ => none

/-- A payload is represented by a physical type. -/
def Payload.hasType : PhysicalType → Payload → Bool
  | .bool, .boolean _ => true
  | .float, .float _ => true
  | .double, .double _ => true
  | .varchar, .varchar _ => true
  | .interval, .nested _ => true
  | .list, .nested _ => true
  | .struct, .nested _ => true
  | .array, .nested _ => true
  | type, .integer value =>
      match type.integerRange with
      | some (low, high) => decide (low ≤ value) && decide (value ≤ high)
      | none => false
  | _, _ => false

namespace Payload

def isNaN : Payload → Bool
  | .float bits => FloatFormat.float.isNaN bits.toNat
  | .double bits => FloatFormat.double.isNaN bits.toNat
  | _ => false

def isInfinity : Payload → Bool
  | .float bits => FloatFormat.float.isInfinity bits.toNat
  | .double bits => FloatFormat.double.isInfinity bits.toNat
  | _ => false

def isNegativeInfinity : Payload → Bool
  | .float bits => FloatFormat.float.isInfinity bits.toNat && FloatFormat.float.sign bits.toNat
  | .double bits => FloatFormat.double.isInfinity bits.toNat && FloatFormat.double.sign bits.toNat
  | _ => false

end Payload

/-! ## The comparison operators -/

/-- `Equals::Operation`. -/
def equals : Payload → Payload → Bool
  | .boolean left, .boolean right => left == right
  | .integer left, .integer right => left == right
  | .float left, .float right => FloatFormat.float.equalsFloat left.toNat right.toNat
  | .double left, .double right => FloatFormat.double.equalsFloat left.toNat right.toNat
  | .varchar left, .varchar right => left == right
  | left, right => left.key == right.key

/-- `GreaterThan::Operation`. -/
def greaterThan : Payload → Payload → Bool
  | .boolean left, .boolean right => !right && left
  | .integer left, .integer right => decide (right < left)
  | .float left, .float right => FloatFormat.float.greaterThanFloat left.toNat right.toNat
  | .double left, .double right => FloatFormat.double.greaterThanFloat left.toNat right.toNat
  | .varchar left, .varchar right => stringComparison right left == .lt
  | left, right => decide (right.key < left.key)

def notEquals (left right : Payload) : Bool := !equals left right
def greaterThanEquals (left right : Payload) : Bool := !greaterThan right left
def lessThan (left right : Payload) : Bool := greaterThan right left
def lessThanEquals (left right : Payload) : Bool := !greaterThan left right

@[simp, grind =]
theorem equals_iff (left right : Payload) : equals left right = true ↔ left.key = right.key := by
  cases left <;> cases right <;>
    simp [equals, Payload.key, Payload.digits, FloatFormat.equalsFloat_iff_key, stringKey_eq_iff]
  next left right => cases left <;> cases right <;> simp

@[simp, grind =]
theorem greaterThan_iff (left right : Payload) :
    greaterThan left right = true ↔ right.key < left.key := by
  cases left <;> cases right <;>
    simp [greaterThan, Payload.key, Payload.digits, FloatFormat.greaterThanFloat_iff_key,
      OrderKey.cons_lt_cons_iff, stringKey_lt_iff]
  next left right => cases left <;> cases right <;> simp

@[simp, grind =]
theorem notEquals_iff (left right : Payload) :
    notEquals left right = true ↔ left.key ≠ right.key := by
  simp [notEquals, ← equals_iff]

@[simp, grind =]
theorem greaterThanEquals_iff (left right : Payload) :
    greaterThanEquals left right = true ↔ right.key ≤ left.key := by
  rw [greaterThanEquals, Bool.not_eq_true', ← Bool.not_eq_true, greaterThan_iff, not_lt]

@[simp, grind =]
theorem lessThan_iff (left right : Payload) :
    lessThan left right = true ↔ left.key < right.key := by
  rw [lessThan, greaterThan_iff]

@[simp, grind =]
theorem lessThanEquals_iff (left right : Payload) :
    lessThanEquals left right = true ↔ left.key ≤ right.key := by
  rw [lessThanEquals, Bool.not_eq_true', ← Bool.not_eq_true, greaterThan_iff, not_lt]

@[simp, grind =]
theorem equals_eq_false_iff (left right : Payload) :
    equals left right = false ↔ left.key ≠ right.key := by
  rw [Bool.eq_false_iff, Ne, equals_iff]

@[simp, grind =]
theorem greaterThan_eq_false_iff (left right : Payload) :
    greaterThan left right = false ↔ left.key ≤ right.key := by
  rw [Bool.eq_false_iff, Ne, greaterThan_iff, not_lt]

@[simp, grind =]
theorem notEquals_eq_false_iff (left right : Payload) :
    notEquals left right = false ↔ left.key = right.key := by
  rw [Bool.eq_false_iff, Ne, notEquals_iff, not_not]

@[simp, grind =]
theorem greaterThanEquals_eq_false_iff (left right : Payload) :
    greaterThanEquals left right = false ↔ left.key < right.key := by
  rw [Bool.eq_false_iff, Ne, greaterThanEquals_iff, not_le]

@[simp, grind =]
theorem lessThan_eq_false_iff (left right : Payload) :
    lessThan left right = false ↔ right.key ≤ left.key := by
  rw [Bool.eq_false_iff, Ne, lessThan_iff, not_lt]

@[simp, grind =]
theorem lessThanEquals_eq_false_iff (left right : Payload) :
    lessThanEquals left right = false ↔ right.key < left.key := by
  rw [Bool.eq_false_iff, Ne, lessThanEquals_iff, not_le]

/-! ## Infinities and NaN among the values of one type -/

variable {type : PhysicalType} {value infinity : Payload}

namespace Payload

/-- Two values of a floating-point type, seen through their bit patterns. -/
structure FloatPair (left right : Payload) where
  tag : Int
  format : FloatFormat
  first : Nat
  second : Nat
  left_key : left.key = ⟨[tag, format.key first]⟩
  right_key : right.key = ⟨[tag, format.key second]⟩
  left_nan : left.isNaN = format.isNaN first
  right_nan : right.isNaN = format.isNaN second
  left_infinity : left.isInfinity = format.isInfinity first
  left_negative :
    left.isNegativeInfinity = (format.isInfinity first && format.sign first)

/-- Only a floating-point type has NaNs and infinities. -/
theorem exists_floatPair {left right : Payload} (hleft : left.hasType type = true)
    (hright : right.hasType type = true) (special : left.isNaN = true ∨ left.isInfinity = true) :
    Nonempty (FloatPair left right) := by
  cases left with
  | float bits =>
      cases type <;> simp only [hasType, Bool.false_eq_true] at hleft
      cases right <;> simp only [hasType, PhysicalType.integerRange, Bool.false_eq_true] at hright
      exact ⟨2, .float, _, _, rfl, rfl, rfl, rfl, rfl, rfl⟩
  | double bits =>
      cases type <;> simp only [hasType, Bool.false_eq_true] at hleft
      cases right <;> simp only [hasType, PhysicalType.integerRange, Bool.false_eq_true] at hright
      exact ⟨3, .double, _, _, rfl, rfl, rfl, rfl, rfl, rfl⟩
  | _ => simp [isNaN, isInfinity] at special

theorem key_le_of_isNaN {nan : Payload} (hnan : nan.hasType type = true)
    (hvalue : value.hasType type = true) (isnan : nan.isNaN = true) : value.key ≤ nan.key := by
  obtain ⟨pair⟩ := exists_floatPair hnan hvalue (Or.inl isnan)
  have last : pair.format.isNaN pair.first = true := pair.left_nan ▸ isnan
  rw [pair.left_key, pair.right_key, OrderKey.pair_le_iff, FloatFormat.key_of_isNaN last]
  exact pair.format.key_le _

/-- The negative infinity of a type is before all its values. -/
theorem key_le_of_isNegativeInfinity (hinfinity : infinity.hasType type = true)
    (hvalue : value.hasType type = true) (infinite : infinity.isInfinity = true)
    (negative : infinity.isNegativeInfinity = true) : infinity.key ≤ value.key := by
  obtain ⟨pair⟩ := exists_floatPair hinfinity hvalue (Or.inr infinite)
  have hsign : pair.format.isInfinity pair.first = true ∧ pair.format.sign pair.first = true := by
    simpa [pair.left_negative] using negative
  rw [pair.left_key, pair.right_key, OrderKey.pair_le_iff,
    FloatFormat.key_of_isInfinity hsign.1, if_pos hsign.2]
  exact pair.format.neg_infinity_le_key _

/-- The positive infinity of a type is behind all its values but NaN. -/
theorem key_le_of_isInfinity (hinfinity : infinity.hasType type = true)
    (hvalue : value.hasType type = true) (infinite : infinity.isInfinity = true)
    (positive : infinity.isNegativeInfinity = false) (number : value.isNaN = false) :
    value.key ≤ infinity.key := by
  obtain ⟨pair⟩ := exists_floatPair hinfinity hvalue (Or.inr infinite)
  have hinf : pair.format.isInfinity pair.first = true := pair.left_infinity ▸ infinite
  have hsign : pair.format.sign pair.first = false := by
    simpa [pair.left_negative, hinf] using positive
  rw [pair.left_key, pair.right_key, OrderKey.pair_le_iff,
    FloatFormat.key_of_isInfinity hinf, if_neg (by simp [hsign])]
  exact FloatFormat.key_le_infinity (pair.right_nan ▸ number)

end Payload

/-- The comparisons an `ExpressionType` can name. -/
inductive ComparisonType where
  | compareEqual
  | compareNotEqual
  | compareLessThan
  | compareGreaterThan
  | compareLessThanOrEqualTo
  | compareGreaterThanOrEqualTo
  | compareDistinctFrom
  | compareNotDistinctFrom
  deriving DecidableEq, Repr

/-- A comparison of two non-NULL values. -/
def ComparisonType.holds : ComparisonType → Payload → Payload → Bool
  | .compareEqual, left, right => equals left right
  | .compareNotEqual, left, right => notEquals left right
  | .compareLessThan, left, right => lessThan left right
  | .compareGreaterThan, left, right => greaterThan left right
  | .compareLessThanOrEqualTo, left, right => lessThanEquals left right
  | .compareGreaterThanOrEqualTo, left, right => greaterThanEquals left right
  | .compareDistinctFrom, left, right => notEquals left right
  | .compareNotDistinctFrom, left, right => equals left right

/-- A comparison of two nullable values in SQL's three-valued logic. -/
def ComparisonType.eval (comparison : ComparisonType) :
    Option Payload → Option Payload → Option Bool
  | some left, some right => some (comparison.holds left right)
  | none, none =>
      match comparison with
      | .compareDistinctFrom => some false
      | .compareNotDistinctFrom => some true
      | _ => none
  | _, _ =>
      match comparison with
      | .compareDistinctFrom => some true
      | .compareNotDistinctFrom => some false
      | _ => none

end StatsRecommender
