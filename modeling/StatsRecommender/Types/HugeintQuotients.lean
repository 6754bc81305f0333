import StatsRecommender.Library.BitWords
import StatsRecommender.Types.HugeintProducts

/-!
# Quotients of 128-bit integers

Division shifts the bits of the dividend into the remainder, one after the other, and never leaves
the positive numbers.  The smallest number is divided by way of the next larger one.
-/

namespace StatsRecommender

variable {place number : Nat}

open SignedWords

namespace Hugeint

variable {lhs rhs input : Hugeint}

/-! ## Bits of a positive number -/

theorem value_eq_nat (nonneg : 0 ≤ input.value) :
    input.value = (2 ^ 64 * input.upper.toNat + input.lower.toNat : Nat) := by
  have signed := BitVec.toInt_eq_toNat_cond input.upper
  rw [value_eq] at nonneg ⊢
  split at signed <;> omega

theorem and_one_shift_ne_zero_iff {word : BitVec 64} (inside : place < 64) :
    word &&& (1#64 <<< place) ≠ 0 ↔ word.toNat.testBit place = true := by
  constructor
  · intro nonzero
    by_contra unset
    rw [Bool.not_eq_true] at unset
    refine nonzero (BitVec.eq_of_getLsbD_eq fun i hi => ?_)
    rw [BitVec.getLsbD_and, BitWords.getLsbD_one_shiftLeft hi]
    refine Eq.trans ?_ BitVec.getLsbD_zero.symm
    by_cases same : i = place
    · have here : word.getLsbD i = false := same ▸ unset
      rw [here, Bool.false_and]
    · rw [decide_eq_false same, Bool.and_false]
  · intro set zero
    have here : (word &&& (1#64 <<< place)).getLsbD place = true := by
      rw [BitVec.getLsbD_and, BitWords.getLsbD_one_shiftLeft inside, decide_eq_true rfl,
        Bool.and_true]
      exact set
    rw [zero] at here
    exact Bool.false_ne_true (BitVec.getLsbD_zero.symm.trans here)

/-- `PositiveHugeintIsBitSet` reads a bit of the number. -/
theorem positiveIsBitSet_eq (same : input.value = number) (inside : place < 128) :
    input.positiveIsBitSet place = number.testBit place := by
  have whole : input.value = _ := value_eq_nat (by omega)
  have equal : number = 2 ^ 64 * input.upper.toNat + input.lower.toNat := by omega
  rw [equal, Nat.testBit_two_pow_mul_add _ input.lower.isLt, positiveIsBitSet]
  split
  · rename_i low
    rw [Bool.eq_iff_iff, decide_eq_true_eq, and_one_shift_ne_zero_iff low]
  · rename_i high
    rw [Bool.eq_iff_iff, decide_eq_true_eq, and_one_shift_ne_zero_iff (by omega)]

/-- A word is shifted out within as many rounds as it has bits. -/
theorem shiftOut_spec (fuel : Nat) (word : BitVec 64) (out : Nat) (enough : word.toNat < 2 ^ fuel) :
    ∃ rounds, shiftOut word fuel out = out + rounds ∧ word.toNat < 2 ^ rounds ∧
      rounds ≤ fuel := by
  induction fuel generalizing word out with
  | zero => exact ⟨0, rfl, enough, Nat.le_refl _⟩
  | succ fuel ih =>
      rw [shiftOut]
      by_cases zero : word = 0
      · rw [if_pos zero, zero]
        exact ⟨0, rfl, by decide, Nat.zero_le _⟩
      · rw [if_neg zero]
        have half : (word >>> 1).toNat = word.toNat / 2 := by
          rw [BitVec.toNat_ushiftRight, Nat.shiftRight_eq_div_pow]
        obtain ⟨rounds, hrounds, small, few⟩ := ih (word >>> 1) (out + 1) (by
          rw [half]
          rw [Nat.pow_succ] at enough
          omega)
        refine ⟨rounds + 1, by rw [hrounds]; omega, ?_, Nat.succ_le_succ few⟩
        rw [half] at small
        rw [Nat.pow_succ]
        omega

/-- No bit is set from the highest bit on. -/
theorem lt_positiveHighestBit (same : input.value = number) :
    number < 2 ^ input.positiveHighestBit ∧ input.positiveHighestBit ≤ 128 := by
  have whole : input.value = _ := value_eq_nat (by omega)
  rw [positiveHighestBit]
  split
  · obtain ⟨rounds, hrounds, small, few⟩ := shiftOut_spec 64 input.upper 64 input.upper.isLt
    rw [hrounds, Nat.pow_add]
    refine ⟨?_, by omega⟩
    have equal : number = 2 ^ 64 * input.upper.toNat + input.lower.toNat := by omega
    calc number < 2 ^ 64 * (input.upper.toNat + 1) := by omega
      _ ≤ 2 ^ 64 * 2 ^ rounds := Nat.mul_le_mul_left _ small
  · rename_i zero
    rw [not_not] at zero
    obtain ⟨rounds, hrounds, small, few⟩ := shiftOut_spec 64 input.lower 0 input.lower.isLt
    rw [hrounds, Nat.zero_add]
    refine ⟨?_, by omega⟩
    have none : input.upper.toNat = 0 := by
      rw [zero]
      rfl
    have equal : number = input.lower.toNat := by omega
    exact equal ▸ small

/-- A small number is doubled. -/
theorem value_positiveLeftShift (nonneg : 0 ≤ input.value)
    (small : input.value < 85070591730234615865843651857942052864) :
    (input.positiveLeftShift 1).value = 2 * input.value := by
  have whole := value_eq_nat nonneg
  have upperShift : (input.upper <<< 1 + input.lower >>> (64 - 1)).toNat =
      2 * input.upper.toNat + input.lower.toNat / 9223372036854775808 := by
    rw [BitVec.toNat_add, BitVec.toNat_shiftLeft, BitVec.toNat_ushiftRight, Nat.shiftLeft_eq,
      Nat.shiftRight_eq_div_pow]
    omega
  have lowerShift : (input.lower <<< 1).toNat =
      2 * input.lower.toNat % 18446744073709551616 := by
    rw [BitVec.toNat_shiftLeft, Nat.shiftLeft_eq]
    omega
  have signed := BitVec.toInt_eq_toNat_cond (input.upper <<< 1 + input.lower >>> (64 - 1))
  rw [value_eq, positiveLeftShift]
  dsimp only
  rw [upperShift] at signed
  rw [lowerShift]
  split at signed <;> omega

/-! ## The loop over the bits -/

theorem value_ofInt64_one : (ofInt64 1).value = 1 := by decide

theorem upper_nonneg_iff : 0 ≤ input.upper.toInt ↔ 0 ≤ input.value := by
  rw [← Int.not_lt, ← Int.not_lt, upper_neg_iff]

/-- One more than a number that is not negative. -/
theorem add_one_spec (input : Hugeint) (nonneg : 0 ≤ input.value)
    (small : input.value < 170141183460469231731687303715884105727) :
    ∃ result, input.add (ofInt64 1) = .ok result ∧ result.value = input.value + 1 := by
  have upper := input.upper_range
  have zero : (ofInt64 1).upper.toInt = 0 := by decide
  obtain ⟨result, hresult, same⟩ := add_spec input (ofInt64 1)
    (fits_iff.mpr (by omega)) (by rw [value_ofInt64_one, inRange_iff]; omega)
  exact ⟨result, hresult, by rw [same, value_ofInt64_one]⟩

/-- A difference of numbers that are not negative. -/
theorem sub_nonneg_spec (lhs rhs : Hugeint) (lhsNonneg : 0 ≤ lhs.value) (rhsNonneg : 0 ≤ rhs.value) :
    ∃ result, lhs.sub rhs = .ok result ∧ result.value = lhs.value - rhs.value := by
  have lhsUpper := lhs.upper_range
  have rhsUpper := rhs.upper_range
  have lhsRange := inRange_iff.mp lhs.inRange_value
  have rhsRange := inRange_iff.mp rhs.inRange_value
  have lhsPositive := upper_nonneg_iff.mpr lhsNonneg
  have rhsPositive := upper_nonneg_iff.mpr rhsNonneg
  exact sub_spec lhs rhs (fits_iff.mpr (by omega)) (inRange_iff.mpr (by omega))

theorem greaterThanEquals_iff :
    lhs.greaterThanEquals rhs = true ↔ rhs.value ≤ lhs.value := by
  rw [greaterThanEquals, Bool.or_eq_true, Bool.and_eq_true, BitVec.slt_iff_toInt_lt, beq_iff_eq,
    decide_eq_true_eq, BitVec.le_def, ← BitVec.toInt_inj, value_eq, value_eq]
  omega

theorem greaterThan_iff : lhs.greaterThan rhs = true ↔ rhs.value < lhs.value := by
  rw [greaterThan, Bool.or_eq_true, Bool.and_eq_true, BitVec.slt_iff_toInt_lt, beq_iff_eq,
    decide_eq_true_eq, BitVec.lt_def, ← BitVec.toInt_inj, value_eq, value_eq]
  omega

theorem lessThan_iff : lhs.lessThan rhs = true ↔ lhs.value < rhs.value := by
  rw [lessThan, Bool.or_eq_true, Bool.and_eq_true, BitVec.slt_iff_toInt_lt, beq_iff_eq,
    decide_eq_true_eq, BitVec.lt_def, ← BitVec.toInt_inj, value_eq, value_eq]
  omega

/-- What is divided so far: the highest bits of the number, by the divisor. -/
structure Divided (number : Nat) (rhs : Hugeint) (x : Nat) (divResult remainder : Hugeint) :
    Prop where
  total : divResult.value * rhs.value + remainder.value = (number / 2 ^ x : Nat)
  result_nonneg : 0 ≤ divResult.value
  remainder_nonneg : 0 ≤ remainder.value
  remainder_lt : remainder.value < rhs.value

/-- The next bit of a number. -/
theorem div_pow_eq (number x : Nat) :
    number / 2 ^ x = 2 * (number / 2 ^ (x + 1)) + (number.testBit x).toNat := by
  rw [Nat.toNat_testBit, Nat.pow_succ, ← Nat.div_div_eq_div_mul]
  omega

variable {number x : Nat} {divResult remainder : Hugeint}

theorem Divided.result_le (divided : Divided number rhs x divResult remainder) :
    divResult.value ≤ (number / 2 ^ x : Nat) := by
  have positive : 1 ≤ rhs.value := by
    have nonneg := divided.remainder_nonneg
    have less := divided.remainder_lt
    omega
  have product := le_mul_of_one_le_right divided.result_nonneg positive
  have total := divided.total
  have nonneg := divided.remainder_nonneg
  omega

theorem Divided.remainder_le (divided : Divided number rhs x divResult remainder) :
    remainder.value ≤ (number / 2 ^ x : Nat) := by
  have nonneg := divided.remainder_nonneg
  have less := divided.remainder_lt
  have product := Int.mul_nonneg divided.result_nonneg (Int.le_trans nonneg less.le)
  have total := divided.total
  omega

/-- The loop divides the rest of the bits. -/
theorem divModLoop_spec (same : lhs.value = number) (few : x ≤ 128)
    (divided : Divided number rhs x divResult remainder) :
    ∃ quotient rest, divModLoop lhs rhs x divResult remainder = .ok (quotient, rest) ∧
      Divided number rhs 0 quotient rest := by
  have small := (inRange_iff.mp lhs.inRange_value).2
  induction x generalizing divResult remainder with
  | zero => exact ⟨divResult, remainder, rfl, divided⟩
  | succ x ih =>
      have next := div_pow_eq number x
      have bitLe := Bool.toNat_le (number.testBit x)
      have bounded : number / 2 ^ x ≤ number := Nat.div_le_self _ _
      have resultLe := divided.result_le
      have remainderLe := divided.remainder_le
      have total := divided.total
      have resultNonneg := divided.result_nonneg
      have remainderNonneg := divided.remainder_nonneg
      have remainderLt := divided.remainder_lt
      have shiftedResult := value_positiveLeftShift resultNonneg (by omega)
      have shiftedRemainder := value_positiveLeftShift remainderNonneg (by omega)
      obtain ⟨extended, hextended, value₁⟩ : ∃ extended,
          (remainder.positiveLeftShift 1).addBit (lhs.positiveIsBitSet x) = .ok extended ∧
          extended.value = 2 * remainder.value + (number.testBit x).toNat := by
        rw [positiveIsBitSet_eq same (by omega)]
        cases bit : number.testBit x with
        | false => exact ⟨_, rfl, shiftedRemainder.trans (Int.add_zero _).symm⟩
        | true =>
            rw [bit] at next
            have one : Bool.toNat true = 1 := rfl
            obtain ⟨extended, hextended, value₁⟩ := add_one_spec
              (remainder.positiveLeftShift 1) (by omega) (by omega)
            exact ⟨extended, hextended, by rw [value₁, shiftedRemainder, one]; rfl⟩
      rw [divModLoop]
      dsimp only [bind, Except.bind]
      rw [hextended]
      dsimp only
      have doubled : 2 * divResult.value * rhs.value = 2 * (divResult.value * rhs.value) :=
        mul_assoc _ _ _
      by_cases passed : extended.greaterThanEquals rhs = true
      · rw [if_pos passed]
        rw [greaterThanEquals_iff] at passed
        obtain ⟨less, hless, value₂⟩ := sub_nonneg_spec extended rhs
          (by omega) (by omega)
        obtain ⟨more, hmore, value₃⟩ := add_one_spec
          (divResult.positiveLeftShift 1) (by omega) (by omega)
        rw [hless]
        dsimp only
        rw [hmore]
        refine ih (by omega) ⟨?_, by omega, by omega, by omega⟩
        have increased : (2 * divResult.value + 1) * rhs.value =
            2 * (divResult.value * rhs.value) + rhs.value := by
          rw [add_mul, doubled, one_mul]
        rw [value₃, shiftedResult, increased]
        omega
      · rw [if_neg passed]
        rw [greaterThanEquals_iff] at passed
        refine ih (by omega) ⟨?_, by omega, by omega, by omega⟩
        rw [shiftedResult, doubled]
        omega

/-! ## Signs -/

/-- The quotient and the remainder of a division that rounds towards zero. -/
structure DivModExact (lhs rhs result remainder : Hugeint) : Prop where
  total : lhs.value = result.value * rhs.value + remainder.value
  small : |remainder.value| < |rhs.value|
  sign : remainder.value = 0 ∨ remainder.value.sign = lhs.value.sign

/-- The magnitude of a number that can be negated. -/
theorem negateIf_negative_spec (negatable : input ≠ minimum) :
    ∃ result, input.negateIf (input.upper.slt 0) = .ok result ∧ result.value = |input.value| := by
  obtain ⟨result, hresult, same⟩ := negateIf_spec (input.upper.slt 0) negatable
  refine ⟨result, hresult, ?_⟩
  rw [same, slt_zero_eq]
  by_cases negative : input.value < 0
  · rw [decide_eq_true negative, abs_of_neg negative]
    rfl
  · rw [decide_eq_false negative, abs_of_nonneg (Int.not_lt.mp negative)]
    rfl

/-- The signs of a quotient and a remainder of magnitudes. -/
theorem signed_division {a b q r result rest : Int} (total : q * |b| + r = |a|) (quotient : 0 ≤ q)
    (nonneg : 0 ≤ r) (less : r < |b|)
    (hresult : result = if decide (a < 0) ^^ decide (b < 0) then -q else q)
    (hrest : rest = if decide (a < 0) then -r else r) :
    a = result * b + rest ∧ |rest| < |b| ∧ (rest = 0 ∨ rest.sign = a.sign) := by
  have magnitude : 0 ≤ q * |b| := Int.mul_nonneg quotient (abs_nonneg b)
  have signed : q * b = if b < 0 then -(q * |b|) else q * |b| := by
    split
    · rename_i negative
      rw [abs_of_neg negative, mul_neg, neg_neg]
    · rename_i positive
      rw [abs_of_nonneg (Int.not_lt.mp positive)]
  by_cases negative : a < 0
  · rw [decide_eq_true negative] at hresult hrest
    rw [abs_of_neg negative] at total
    have rest_eq : rest = -r := hrest
    refine ⟨?_, ?_, ?_⟩
    · by_cases negated : b < 0
      · rw [decide_eq_true negated] at hresult
        rw [if_pos negated] at signed
        have result_eq : result = q := hresult
        rw [result_eq, signed]
        omega
      · rw [decide_eq_false negated] at hresult
        rw [if_neg negated] at signed
        have result_eq : result = -q := hresult
        rw [result_eq, neg_mul, signed]
        omega
    · rw [rest_eq, abs_neg, abs_of_nonneg nonneg]
      exact less
    · by_cases zero : r = 0
      · exact Or.inl (by omega)
      · right
        rw [Int.sign_eq_neg_one_of_neg negative, Int.sign_eq_neg_one_of_neg (by omega)]
  · rw [decide_eq_false negative] at hresult hrest
    rw [abs_of_nonneg (Int.not_lt.mp negative)] at total
    have rest_eq : rest = r := hrest
    refine ⟨?_, ?_, ?_⟩
    · by_cases negated : b < 0
      · rw [decide_eq_true negated] at hresult
        rw [if_pos negated] at signed
        have result_eq : result = -q := hresult
        rw [result_eq, neg_mul, signed]
        omega
      · rw [decide_eq_false negated] at hresult
        rw [if_neg negated] at signed
        have result_eq : result = q := hresult
        rw [result_eq, signed]
        omega
    · rw [rest_eq, abs_of_nonneg nonneg]
      exact less
    · by_cases zero : r = 0
      · exact Or.inl (by omega)
      · right
        rw [Int.sign_eq_one_of_pos (by omega), Int.sign_eq_one_of_pos (by omega)]

/-- Division of numbers that can be negated. -/
theorem divModNegatable_spec (lhsNegatable : lhs ≠ minimum) (rhsNegatable : rhs ≠ minimum)
    (divisor : rhs.value ≠ 0) :
    ∃ result remainder, lhs.divModNegatable rhs = .ok (result, remainder) ∧
      DivModExact lhs rhs result remainder := by
  obtain ⟨first, hfirst, value₁⟩ := negateIf_negative_spec lhsNegatable
  obtain ⟨second, hsecond, value₂⟩ := negateIf_negative_spec rhsNegatable
  have positive : 0 < |rhs.value| := abs_pos.mpr divisor
  obtain ⟨number, hnumber⟩ := Int.eq_ofNat_of_zero_le (abs_nonneg lhs.value)
  have same : first.value = number := value₁.trans hnumber
  obtain ⟨highest, few⟩ := lt_positiveHighestBit same
  have zero : (⟨0, 0⟩ : Hugeint).value = 0 := by decide
  have begun : Divided number second first.positiveHighestBit ⟨0, 0⟩ ⟨0, 0⟩ := by
    refine ⟨?_, ?_, ?_, ?_⟩
    · rw [zero, Nat.div_eq_of_lt highest, zero_mul, zero_add]
      rfl
    · exact zero.ge
    · exact zero.ge
    · rw [zero, value₂]
      exact positive
  obtain ⟨quotient, rest, hloop, divided⟩ := divModLoop_spec same few begun
  obtain ⟨result, hresult, value₃⟩ := negateIf_spec (lhs.upper.slt 0 ^^ rhs.upper.slt 0)
    (ne_minimum_of_nonneg divided.result_nonneg)
  obtain ⟨remainder, hremainder, value₄⟩ := negateIf_spec (lhs.upper.slt 0)
    (ne_minimum_of_nonneg divided.remainder_nonneg)
  have total := divided.total
  rw [Nat.pow_zero, Nat.div_one, ← hnumber, value₂] at total
  have less := divided.remainder_lt
  rw [value₂] at less
  rw [slt_zero_eq, slt_zero_eq] at value₃
  rw [slt_zero_eq] at value₄
  obtain ⟨exact, small, sign⟩ := signed_division total
    divided.result_nonneg divided.remainder_nonneg less value₃ value₄
  refine ⟨result, remainder, ?_, exact, small, sign⟩
  rw [divModNegatable]
  dsimp only [bind, Except.bind, pure, Except.pure]
  rw [hfirst]
  dsimp only
  rw [hsecond]
  dsimp only
  rw [hloop]
  dsimp only
  rw [hresult]
  dsimp only
  rw [hremainder]

/-! ## The smallest number -/

theorem value_sign (input : Hugeint) : input.sign.value = input.value.sign := by
  have zero : (ofInt64 0).value = 0 := by decide
  have greater : input.greaterThan (ofInt64 0) = decide (0 < input.value) := by
    rw [Bool.eq_iff_iff, greaterThan_iff, decide_eq_true_eq, zero]
  have less : input.lessThan (ofInt64 0) = decide (input.value < 0) := by
    rw [Bool.eq_iff_iff, lessThan_iff, decide_eq_true_eq, zero]
  rw [sign, value_ofInt64, greater, less]
  rcases Int.lt_trichotomy input.value 0 with negative | none | positive
  · rw [Int.sign_eq_neg_one_of_neg negative, decide_eq_true negative, decide_eq_false (by omega)]
    decide
  · rw [none]
    decide
  · rw [Int.sign_eq_one_of_pos positive, decide_eq_true positive, decide_eq_false (by omega)]
    decide

/-- The unchecked product of numbers that can be negated, where it is small. -/
theorem multiply_spec (wide : Bool) (lhsNegatable : lhs ≠ minimum) (rhsNegatable : rhs ≠ minimum)
    (small : |lhs.value| * |rhs.value| < 170141183460469231731687303715884105728) :
    ∃ result, multiply wide lhs rhs = .ok result ∧ result.value = lhs.value * rhs.value := by
  obtain ⟨first, hfirst, value₁⟩ := negateIf_negative_spec lhsNegatable
  obtain ⟨second, hsecond, value₂⟩ := negateIf_negative_spec rhsNegatable
  have nonneg₁ : 0 ≤ first.value := by rw [value₁]; exact abs_nonneg _
  have nonneg₂ : 0 ≤ second.value := by rw [value₂]; exact abs_nonneg _
  have product := value_multiplyPositiveUnchecked wide (upper_nonneg_iff.mpr nonneg₁)
    (upper_nonneg_iff.mpr nonneg₂) (by rw [value₁, value₂]; exact small)
  obtain ⟨result, hresult, value₃⟩ := negateIf_spec (lhs.upper.slt 0 ^^ rhs.upper.slt 0)
    (ne_minimum_of_nonneg (by rw [product]; exact Int.mul_nonneg nonneg₁ nonneg₂))
  refine ⟨result, ?_, ?_⟩
  · rw [multiply]
    dsimp only [bind, Except.bind]
    rw [hfirst]
    dsimp only
    rw [hsecond]
    exact hresult
  · rw [value₃, product, value₁, value₂, mul_eq_of_signs lhs.value rhs.value, slt_zero_eq,
      slt_zero_eq]

/-- `Abs` of a number that can be negated. -/
theorem abs_spec (wide : Bool) (negatable : input ≠ minimum) :
    ∃ result, input.abs wide = .ok result ∧ result.value = |input.value| := by
  have range := inRange_iff.mp input.inRange_value
  have notMinimum := mt eq_minimum_iff_value.mpr negatable
  have unit : input.sign ≠ minimum := by
    rw [Ne, eq_minimum_iff_value, value_sign]
    rcases Int.sign_trichotomy input.value with one | zero | minusOne <;> omega
  have small : |input.value| * |input.sign.value| < 170141183460469231731687303715884105728 := by
    have sign_le : |input.sign.value| ≤ 1 := by
      rw [value_sign]
      rcases Int.sign_trichotomy input.value with one | zero | minusOne
      · rw [one]
        decide
      · rw [zero]
        decide
      · rw [minusOne]
        decide
    have value_lt : |input.value| < 170141183460469231731687303715884105728 :=
      abs_lt.mpr ⟨by omega, range.2⟩
    have product := Int.mul_le_mul_of_nonneg_left sign_le (abs_nonneg input.value)
    omega
  obtain ⟨result, hresult, same⟩ := multiply_spec wide negatable unit small
  refine ⟨result, hresult, ?_⟩
  rw [same, value_sign, Int.mul_sign_self, Int.abs_eq_natAbs]

/-- The quotient of a large number is smaller by half where the divisor is not a unit. -/
theorem quotient_small {q b limit : Int} (product : -limit ≤ q * b ∧ q * b ≤ limit)
    (notUnit : 2 ≤ |b|) : -limit ≤ 2 * q ∧ 2 * q ≤ limit := by
  have magnitudes := Int.natAbs_mul q b
  have two : 2 ≤ b.natAbs := by
    rw [Int.abs_eq_natAbs] at notUnit
    omega
  have doubled := Nat.mul_le_mul_left q.natAbs two
  omega

/-- The smallest number is exactly divisible: the quotient of the next larger one is one off. -/
theorem sub_sign_spec {result : Hugeint} (unit : rhs.value ≠ -1) (divisor : rhs.value ≠ 0)
    (rhsNegatable : rhs ≠ minimum)
    (total : minimum.value + 1 = result.value * rhs.value + remainder.value)
    (negative : remainder.value ≤ 0) (last : |remainder.value| + 1 = |rhs.value|) :
    ∃ quotient, result.sub rhs.sign = .ok quotient ∧
      DivModExact minimum rhs quotient (ofInt64 0) := by
  have zero : (ofInt64 0).value = 0 := by decide
  have range := inRange_iff.mp rhs.inRange_value
  have notMinimum := mt eq_minimum_iff_value.mpr rhsNegatable
  have signValue := value_sign rhs
  have signWords := rhs.sign.value_eq
  have resultWords := result.value_eq
  have magnitude : |rhs.value| = rhs.value.sign * rhs.value := by
    rw [mul_comm, Int.mul_sign_self, Int.abs_eq_natAbs]
  rw [abs_of_nonpos negative] at last
  rw [value_minimum] at total
  have small : |rhs.value| < 170141183460469231731687303715884105728 :=
    abs_lt.mpr ⟨by omega, range.2⟩
  have bounded : rhs.value = 1 ∨ 2 ≤ |rhs.value| := by
    by_cases one : |rhs.value| = 1
    · rcases Int.natAbs_eq rhs.value with same | same
      · rw [Int.abs_eq_natAbs] at one
        omega
      · rw [Int.abs_eq_natAbs] at one
        omega
    · omega
  have half : rhs.value = 1 ∨
      -170141183460469231731687303715884105728 ≤ 2 * result.value ∧
        2 * result.value ≤ 170141183460469231731687303715884105728 := by
    rcases bounded with one | two
    · exact Or.inl one
    · exact Or.inr (quotient_small ⟨by omega, by omega⟩ two)
  have signs := Int.sign_trichotomy rhs.value
  have resultOne : rhs.value = 1 → result.value = minimum.value + 1 := fun one => by
    rw [one] at total last
    rw [value_minimum]
    have unitMagnitude : |(1 : Int)| = 1 := by decide
    omega
  rw [value_minimum] at resultOne
  obtain ⟨quotient, hquotient, value₁⟩ := sub_spec result rhs.sign
    (fits_iff.mpr (by omega)) (inRange_iff.mpr (by omega))
  refine ⟨quotient, hquotient, ?_, ?_, ?_⟩
  · rw [zero, value₁, signValue, sub_mul, ← magnitude, value_minimum]
    omega
  · rw [zero, abs_zero]
    exact abs_pos.mpr divisor
  · exact Or.inl zero

/-- Otherwise the remainder is one off. -/
theorem sub_one_spec {result : Hugeint}
    (total : minimum.value + 1 = result.value * rhs.value + remainder.value)
    (negative : remainder.value ≤ 0) (small : |remainder.value| < |rhs.value|)
    (notLast : |remainder.value| + 1 ≠ |rhs.value|) :
    ∃ rest, remainder.sub (ofInt64 1) = .ok rest ∧ DivModExact minimum rhs result rest := by
  have remainderUpper := remainder.upper_range
  have unit := value_ofInt64_one
  have unitUpper : (ofInt64 1).upper.toInt = 0 := by decide
  have range := inRange_iff.mp rhs.inRange_value
  rw [abs_of_nonpos negative] at small notLast
  have limit : |rhs.value| ≤ 170141183460469231731687303715884105728 :=
    abs_le.mpr ⟨by omega, by omega⟩
  obtain ⟨rest, hrest, same⟩ := sub_spec remainder (ofInt64 1)
    (fits_iff.mpr (by omega)) (inRange_iff.mpr (by omega))
  rw [unit] at same
  refine ⟨rest, hrest, ?_, ?_, Or.inr ?_⟩
  · omega
  · rw [same, abs_of_neg (by omega)]
    omega
  · rw [same, Int.sign_eq_neg_one_of_neg (by omega), value_minimum]
    rfl

/-- `DivModMinimum`, where the numbers that can be negated are divided exactly. -/
theorem divModMinimum_spec (wide : Bool)
    {divMod : Hugeint → Hugeint → Except String (Hugeint × Hugeint)}
    (exact : ∀ lhs rhs : Hugeint, lhs ≠ minimum → rhs ≠ minimum → rhs.value ≠ 0 →
      ∃ result remainder, divMod lhs rhs = .ok (result, remainder) ∧
        DivModExact lhs rhs result remainder)
    (smallest : lhs = minimum ∨ rhs = minimum) (divisor : rhs.value ≠ 0)
    (fits : ¬ (lhs = minimum ∧ rhs.value = -1)) :
    ∃ result remainder, divModMinimum wide divMod lhs rhs = .ok (result, remainder) ∧
      DivModExact lhs rhs result remainder := by
  have zero : (ofInt64 0).value = 0 := by decide
  rw [divModMinimum]
  by_cases right : rhs = minimum
  · rw [if_pos right]
    by_cases left : lhs = minimum
    · rw [if_pos left]
      refine ⟨ofInt64 1, ofInt64 0, rfl, ?_, ?_, Or.inl zero⟩
      · rw [left, right, value_ofInt64_one, zero, one_mul, add_zero]
      · rw [zero, abs_zero]
        exact abs_pos.mpr divisor
    · rw [if_neg left]
      have range := inRange_iff.mp lhs.inRange_value
      have notMinimum := mt eq_minimum_iff_value.mpr left
      refine ⟨ofInt64 0, lhs, rfl, ?_, ?_, Or.inr rfl⟩
      · rw [zero, zero_mul, zero_add]
      · have magnitude : |minimum.value| = 170141183460469231731687303715884105728 := by decide
        rw [right, magnitude]
        exact abs_lt.mpr ⟨by omega, range.2⟩
  · have left := smallest.resolve_right right
    have unit : rhs.value ≠ -1 := fun minusOne => fits ⟨left, minusOne⟩
    rw [if_neg right, left]
    obtain ⟨larger, hlarger, value₁⟩ := add_spec minimum (ofInt64 1)
      (fits_iff.mpr (by decide)) (inRange_iff.mpr (by decide))
    rw [value_ofInt64_one] at value₁
    have largerNegatable : larger ≠ minimum := by
      rw [Ne, eq_minimum_iff_value, value₁, value_minimum]
      omega
    obtain ⟨result, remainder, hdivMod, total, small, sign⟩ :=
      exact larger rhs largerNegatable right divisor
    rw [value₁] at total
    have negative : remainder.value ≤ 0 := by
      rcases sign with none | same
      · exact none.le
      · rw [value₁, value_minimum] at same
        exact (Int.sign_eq_neg_one_iff_neg.mp same).le
    have rhsRange := inRange_iff.mp rhs.inRange_value
    have notMinimum := mt eq_minimum_iff_value.mpr right
    have rhsSmall : |rhs.value| < 170141183460469231731687303715884105728 :=
      abs_lt.mpr ⟨by omega, rhsRange.2⟩
    have remainderNegatable : remainder ≠ minimum := by
      rw [Ne, eq_minimum_iff_value]
      rw [abs_of_nonpos negative] at small
      omega
    obtain ⟨first, hfirst, value₂⟩ := abs_spec wide remainderNegatable
    obtain ⟨distance, hdistance, value₃⟩ := add_one_spec first
      (by rw [value₂]; exact abs_nonneg _) (by rw [value₂]; omega)
    obtain ⟨second, hsecond, value₄⟩ := abs_spec wide right
    dsimp only [bind, Except.bind, pure, Except.pure]
    rw [hlarger]
    dsimp only
    rw [hdivMod]
    dsimp only
    rw [hfirst]
    dsimp only
    rw [hdistance]
    dsimp only
    rw [hsecond]
    dsimp only
    have last : distance = second ↔ |remainder.value| + 1 = |rhs.value| := by
      rw [← value₂, ← value₃, ← value₄]
      exact ⟨congrArg value, value_inj⟩
    by_cases same : distance = second
    · rw [if_pos same]
      obtain ⟨quotient, hquotient, exact⟩ :=
        sub_sign_spec unit divisor right total negative (last.mp same)
      rw [hquotient]
      exact ⟨quotient, ofInt64 0, rfl, exact⟩
    · rw [if_neg same]
      obtain ⟨rest, hrest, exact⟩ := sub_one_spec total negative small (mt last.mpr same)
      rw [hrest]
      exact ⟨result, rest, rfl, exact⟩

/-- `TryDivMod` divides exactly but by zero, and but the smallest number by -1. -/
def DivModCorrect (lhs rhs : Hugeint) (outcome : Except String (Option (Hugeint × Hugeint))) :
    Prop :=
  ∃ result, outcome = .ok result ∧
    (result.isSome = true ↔ rhs.value ≠ 0 ∧ ¬ (lhs.value = minimum.value ∧ rhs.value = -1)) ∧
    ∀ quotient remainder, result = some (quotient, remainder) →
      DivModExact lhs rhs quotient remainder

theorem divMod_spec (wide : Bool) (divisor : rhs.value ≠ 0)
    (fits : ¬ (lhs = minimum ∧ rhs.value = -1)) :
    ∃ result remainder, divMod wide lhs rhs = .ok (result, remainder) ∧
      DivModExact lhs rhs result remainder := by
  have nonzero : ∀ rhs : Hugeint, rhs.value ≠ 0 → rhs ≠ ofInt64 0 := by
    rintro rhs divisor rfl
    exact divisor (by decide)
  rw [divMod, divModWithin, if_neg (nonzero rhs divisor)]
  by_cases smallest : lhs = minimum ∨ rhs = minimum
  · rw [if_pos smallest]
    refine divModMinimum_spec wide (fun lhs rhs left right divisor => ?_) smallest divisor fits
    rw [divModWithin, if_neg (nonzero rhs divisor),
      if_neg (fun smallest => smallest.elim left right)]
    exact divModNegatable_spec left right divisor
  · rw [if_neg smallest]
    obtain ⟨left, right⟩ := not_or.mp smallest
    exact divModNegatable_spec left right divisor

theorem tryDivMod_correct (wide : Bool) (lhs rhs : Hugeint) :
    DivModCorrect lhs rhs (tryDivMod wide lhs rhs) := by
  have zero : (0 : BitVec 64).toInt = 0 := by decide
  have minusOne : (-1 : BitVec 64).toInt = -1 := by decide
  have isMinimum : lhs = minimum ↔ lhs.value = minimum.value := ⟨congrArg value, value_inj⟩
  rw [tryDivMod]
  simp only [eq_ofInt64_iff, zero, minusOne]
  by_cases none : rhs.value = 0
  · rw [if_pos none]
    exact ⟨_, rfl, iff_of_false Bool.false_ne_true fun ⟨divisor, _⟩ => divisor none,
      fun _ _ impossible => by cases impossible⟩
  · rw [if_neg none]
    by_cases overflows : lhs = minimum ∧ rhs.value = -1
    · rw [if_pos overflows]
      exact ⟨_, rfl, iff_of_false Bool.false_ne_true
        fun ⟨_, fits⟩ => fits ⟨isMinimum.mp overflows.1, overflows.2⟩,
        fun _ _ impossible => by cases impossible⟩
    · rw [if_neg overflows]
      obtain ⟨result, remainder, hdivMod, exact⟩ := divMod_spec wide none overflows
      dsimp only [bind, Except.bind, pure, Except.pure]
      rw [hdivMod]
      refine ⟨some (result, remainder), rfl, iff_of_true rfl ⟨none, fun both => ?_⟩, ?_⟩
      · exact overflows ⟨isMinimum.mpr both.1, both.2⟩
      · rintro _ _ ⟨⟩
        exact exact

/-! ## All operations -/

/-- Every operation gives the exact number where it is in range, without a signed overflow. -/
structure ArithmeticCorrect (wide : Bool) (lhs rhs : Hugeint) : Prop where
  add : Exact (lhs.value + rhs.value) (lhs.tryAddInPlace rhs)
  subtract : Exact (lhs.value - rhs.value) (lhs.trySubtractInPlace rhs)
  negate : Exact (-lhs.value) lhs.tryNegate
  multiply : Exact (lhs.value * rhs.value) (tryMultiply wide lhs rhs)
  divMod : DivModCorrect lhs rhs (tryDivMod wide lhs rhs)

/-- The operations are exact but for a product that only the minimum itself is. -/
theorem arithmeticCorrect_iff (wide : Bool) (lhs rhs : Hugeint) :
    ArithmeticCorrect wide lhs rhs ↔ ¬ MissesMinimum lhs rhs := by
  obtain ⟨result, hresult, defined, exact⟩ := tryMultiply_spec wide lhs rhs
  constructor
  · intro correct misses
    obtain ⟨result', hresult', defined', -⟩ := correct.multiply
    rw [hresult] at hresult'
    cases hresult'
    have inRange : InRange (lhs.value * rhs.value) := by
      rw [misses.1]
      exact minimum.inRange_value
    exact (defined.mp (defined'.mpr inRange)).2 misses
  · intro spared
    refine ⟨tryAddInPlace_exact lhs rhs, trySubtractInPlace_exact lhs rhs, tryNegate_exact lhs,
      ⟨result, hresult, ?_, exact⟩, tryDivMod_correct wide lhs rhs⟩
    rw [defined]
    exact and_iff_left spared

/-- The product of `2^126` and `-2` is reported as an overflow. -/
theorem tryMultiply_misses_minimum :
    ¬ ArithmeticCorrect true ⟨0x4000000000000000, 0⟩ ⟨-1, -2⟩ ∧
      InRange ((⟨0x4000000000000000, 0⟩ : Hugeint).value * (⟨-1, -2⟩ : Hugeint).value) ∧
      tryMultiply true ⟨0x4000000000000000, 0⟩ ⟨-1, -2⟩ = .ok none := by
  have inRange : InRange
      ((⟨0x4000000000000000, 0⟩ : Hugeint).value * (⟨-1, -2⟩ : Hugeint).value) :=
    inRange_iff.mpr (by decide)
  have overflow : tryMultiply true ⟨0x4000000000000000, 0⟩ ⟨-1, -2⟩ = .ok none := by decide
  refine ⟨fun correct => ?_, inRange, overflow⟩
  obtain ⟨result, hresult, defined, -⟩ := correct.multiply
  rw [overflow] at hresult
  cases hresult
  exact Bool.false_ne_true (defined.mpr inRange)

end Hugeint

end StatsRecommender
