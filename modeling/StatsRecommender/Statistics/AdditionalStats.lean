import StatsRecommender.Types.Payload

/-!
# Additional statistics

What the statistics of one column of a row group answer, and when such an answer is
sound for the non-NULL values the statistic was built from.
-/

namespace StatsRecommender

variable {format : FloatFormat} {left right : Payload} {values : List Payload}

/-- `FilterPropagateResult`. -/
inductive FilterPropagateResult where
  | noPruningPossible
  | filterAlwaysTrue
  | filterAlwaysFalse
  | filterTrueOrNull
  | filterFalseOrNull
  deriving DecidableEq, Repr

/-- `operator==` of the value's C++ type, which no NaN satisfies. -/
def Payload.cxxEquals : Payload → Payload → Bool
  | .float left, .float right => FloatFormat.float.ieeeEquals left.toNat right.toNat
  | .double left, .double right => FloatFormat.double.ieeeEquals left.toNat right.toNat
  | left, right => equals left right

/-- `operator>` of the value's C++ type. -/
def Payload.cxxGreater : Payload → Payload → Bool
  | .float left, .float right => FloatFormat.float.ieeeGreater left.toNat right.toNat
  | .double left, .double right => FloatFormat.double.ieeeGreater left.toNat right.toNat
  | left, right => greaterThan left right

/--
What the statistics use of the C++ runtime: `std::hash`, which agrees on values that
`operator==` identifies, and the distance of two floating-point values.
-/
structure Runtime where
  hash : Payload → BitVec 64
  hash_congr : ∀ left right, left.cxxEquals right = true → hash left = hash right
  floatGap : FloatFormat → Nat → Nat → Nat

/-- A runtime that hashes an integer to itself, as the usual library does. -/
def Runtime.identityHash : Runtime where
  hash
    | .integer value => BitVec.ofInt 64 value
    | _ => 0
  hash_congr left right same := by
    cases left <;> cases right <;> simp_all [Payload.cxxEquals, equals, Payload.key, Payload.digits]
  floatGap _ left right := right - left

/-- Numbers that `operator==` identifies have one magnitude. -/
theorem FloatFormat.magnitude_eq_of_ieeeEquals {left right : Nat}
    (same : format.ieeeEquals left right = true) :
    format.magnitude left = format.magnitude right := by
  simp only [ieeeEquals, Bool.and_eq_true, beq_iff_eq, signedMagnitude] at same
  have equal := same.2
  split at equal <;> split at equal <;> omega

/-- Numbers that `operator==` identifies are zeros or have the same bits. -/
theorem FloatFormat.eq_of_ieeeEquals {left right : Nat} (same : format.ieeeEquals left right = true)
    (nonzero : format.magnitude left ≠ 0)
    (hleft : left < 2 * 2 ^ (format.exponentBits + format.mantissaBits))
    (hright : right < 2 * 2 ^ (format.exponentBits + format.mantissaBits)) : left = right := by
  have magnitudes := magnitude_eq_of_ieeeEquals same
  simp only [ieeeEquals, Bool.and_eq_true, beq_iff_eq] at same
  have equal := same.2
  simp only [signedMagnitude, sign, magnitude, beq_iff_eq] at equal nonzero magnitudes
  generalize 2 ^ (format.exponentBits + format.mantissaBits) = top at *
  have left_bit : left / top < 2 := Nat.div_lt_of_lt_mul (by omega)
  have right_bit : right / top < 2 := Nat.div_lt_of_lt_mul (by omega)
  rw [Nat.mod_eq_of_lt left_bit, Nat.mod_eq_of_lt right_bit] at equal
  have signs : left / top = right / top := by
    generalize left / top = left_sign at *
    generalize right / top = right_sign at *
    split at equal <;> split at equal <;> omega
  rw [← Nat.div_add_mod left top, ← Nat.div_add_mod right top, signs, magnitudes]

/-- A runtime that hashes a number to its bits, and both zeros to 0. -/
def Runtime.bitPatterns : Runtime where
  hash
    | .integer value => BitVec.ofInt 64 value
    | .float bits =>
        if FloatFormat.float.magnitude bits.toNat = 0 then 0 else bits.setWidth 64
    | .double bits => if FloatFormat.double.magnitude bits.toNat = 0 then 0 else bits
    | _ => 0
  hash_congr left right same := by
    cases left with
    | float bits =>
        cases right with
        | float other =>
            dsimp only
            have magnitudes := FloatFormat.magnitude_eq_of_ieeeEquals same
            by_cases zero : FloatFormat.float.magnitude bits.toNat = 0
            · rw [if_pos zero, if_pos (magnitudes ▸ zero)]
            · rw [BitVec.eq_of_toNat_eq
                (FloatFormat.eq_of_ieeeEquals same zero bits.isLt other.isLt)]
        | _ => simp [Payload.cxxEquals, equals, Payload.key, Payload.digits] at same
    | double bits =>
        cases right with
        | double other =>
            dsimp only
            have magnitudes := FloatFormat.magnitude_eq_of_ieeeEquals same
            by_cases zero : FloatFormat.double.magnitude bits.toNat = 0
            · rw [if_pos zero, if_pos (magnitudes ▸ zero)]
            · rw [BitVec.eq_of_toNat_eq
                (FloatFormat.eq_of_ieeeEquals same zero bits.isLt other.isLt)]
        | _ => simp [Payload.cxxEquals, equals, Payload.key, Payload.digits] at same
    | _ =>
        cases right <;>
          simp_all [Payload.cxxEquals, equals, Payload.key, Payload.digits]
  floatGap _ left right := right - left

/-- A runtime that sets one NaN apart from everything else. -/
def Runtime.singling (nan : Payload) (is_nan : nan.isNaN = true) : Runtime where
  hash value := if value = nan then 0 else 1
  hash_congr left right same := by
    have apart : ∀ other, nan.cxxEquals other = false ∧ other.cxxEquals nan = false := by
      intro other
      cases nan <;> cases other <;>
        simp_all [Payload.isNaN, Payload.cxxEquals, FloatFormat.ieeeEquals, equals, Payload.key,
          Payload.digits]
    have hleft : left ≠ nan := by
      rintro rfl
      rw [(apart right).1] at same
      cases same
    have hright : right ≠ nan := by
      rintro rfl
      rw [(apart left).2] at same
      cases same
    rw [if_neg hleft, if_neg hright]
  floatGap _ left right := right - left

/-- The additional statistics only ever exclude or leave open. -/
def FilterPropagateResult.TwoValued (answer : FilterPropagateResult) : Prop :=
  answer = .noPruningPossible ∨ answer = .filterAlwaysFalse

theorem FilterPropagateResult.TwoValued.ite {condition : Prop} [Decidable condition]
    {first second : FilterPropagateResult} (hfirst : first.TwoValued)
    (hsecond : second.TwoValued) : (if condition then first else second).TwoValued := by
  split
  · exact hfirst
  · exact hsecond

/-- An answer of `Query` that excludes every given value only if none satisfies the comparison. -/
def QuerySound (values : List Payload) (comparison : ComparisonType) (constant : Payload)
    (answer : FilterPropagateResult) : Prop :=
  answer = .filterAlwaysFalse → ∀ value ∈ values, comparison.holds value constant = false

/-- An answer of `QueryRange` that excludes every given value only if none is in the range. -/
def RangeSound (values : List Payload) (start finish : Payload)
    (answer : FilterPropagateResult) : Prop :=
  answer = .filterAlwaysFalse → ∀ value ∈ values,
    (greaterThanEquals value start && lessThanEquals value finish) = false

variable {answer : FilterPropagateResult}

theorem QuerySound.of_ne {comparison : ComparisonType} {constant : Payload}
    (open_answer : answer ≠ .filterAlwaysFalse) :
    QuerySound values comparison constant answer :=
  fun excluded => absurd excluded open_answer

theorem RangeSound.of_ne {start finish : Payload} (open_answer : answer ≠ .filterAlwaysFalse) :
    RangeSound values start finish answer :=
  fun excluded => absurd excluded open_answer

/-- Soundness of a range answer, in terms of positions in the order. -/
theorem rangeSound_iff {start finish : Payload} :
    RangeSound values start finish answer ↔
      (answer = .filterAlwaysFalse → ∀ value ∈ values,
        value.key < start.key ∨ finish.key < value.key) := by
  simp only [RangeSound, Bool.and_eq_false_iff, greaterThanEquals_eq_false_iff,
    lessThanEquals_eq_false_iff]

theorem Payload.key_lt_of_cxxGreater (greater : left.cxxGreater right = true) :
    right.key < left.key := by
  rw [← greaterThan_iff]
  cases left <;> cases right <;> first | exact greater | skip
  all_goals
    simp only [cxxGreater, FloatFormat.ieeeGreater, Bool.and_eq_true, Bool.not_eq_true'] at greater
    simp [greaterThan, FloatFormat.greaterThanFloat, FloatFormat.ieeeGreater, greater]

/-- Away from NaN, `operator==` and the equality of the database agree. -/
theorem Payload.cxxEquals_of_key_eq (same : left.key = right.key) (number : left.isNaN = false) :
    left.cxxEquals right = true := by
  have heq := (equals_iff left right).mpr same
  cases left <;> cases right <;> first | exact heq | skip
  all_goals
    simp only [isNaN] at number
    simpa [cxxEquals, equals, FloatFormat.equalsFloat, number] using heq

theorem Payload.key_eq_of_cxxEquals (same : left.cxxEquals right = true) :
    left.key = right.key := by
  rw [← equals_iff]
  cases left <;> cases right <;> first | exact same | skip
  all_goals
    simp only [cxxEquals] at same
    simp [equals, FloatFormat.equalsFloat, same]

/-- The engine identifies a NaN with NaNs only. -/
theorem Payload.isNaN_of_key_eq (nan : left.isNaN = true) (same : left.key = right.key) :
    right.isNaN = true := by
  by_contra number
  rw [Bool.not_eq_true] at number
  have equal := cxxEquals_of_key_eq same.symm number
  cases left <;> cases right <;>
    simp_all [isNaN, cxxEquals, FloatFormat.ieeeEquals, key, digits]

end StatsRecommender
