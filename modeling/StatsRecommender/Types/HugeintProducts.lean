import Mathlib.Tactic.Ring
import Mathlib.Tactic.Linarith
import StatsRecommender.Types.HugeintSums

/-!
# Products of 128-bit integers

Positive numbers are multiplied as 128-bit words or by their 32-bit parts.  Both give the product
where it is below `2^127`.
-/

namespace StatsRecommender

open SignedWords

namespace Hugeint

variable {lhs rhs input : Hugeint}

/-! ## Masks -/

/-- A mask of some bits in a row tells whether any of them is set. -/
theorem and_eq_zero_iff (low high : Nat) (mask : BitVec 64)
    (bits : ∀ i < 64, mask.getLsbD i = decide (low ≤ i ∧ i < high)) (inside : high ≤ 64)
    (word : BitVec 64) : word &&& mask = 0 ↔ word.toNat % 2 ^ high < 2 ^ low := by
  constructor
  · intro zero
    refine Nat.lt_pow_two_of_testBit _ fun i above => ?_
    rw [Nat.testBit_mod_two_pow]
    by_cases below : i < high
    · have bit : (word &&& mask).getLsbD i = false := by
        rw [zero]
        exact BitVec.getLsbD_zero
      rw [BitVec.getLsbD_and, bits i (by omega), decide_eq_true ⟨above, below⟩,
        Bool.and_true] at bit
      rw [decide_eq_true below, Bool.true_and]
      exact bit
    · rw [decide_eq_false below, Bool.false_and]
  · intro small
    refine BitVec.eq_of_getLsbD_eq fun i hi => ?_
    rw [BitVec.getLsbD_and, bits i hi]
    by_cases inRow : low ≤ i ∧ i < high
    · have zero : (word.toNat % 2 ^ high).testBit i = false :=
        Nat.testBit_lt_two_pow (Nat.lt_of_lt_of_le small
          (Nat.pow_le_pow_right (by omega) inRow.1))
      rw [Nat.testBit_mod_two_pow, decide_eq_true inRow.2, Bool.true_and] at zero
      have unset : word.getLsbD i = false := zero
      rw [unset, Bool.false_and]
      exact BitVec.getLsbD_zero.symm
    · rw [decide_eq_false inRow, Bool.and_false]
      exact BitVec.getLsbD_zero.symm

theorem toNat_and_low (word : BitVec 64) :
    (word &&& low32).toNat = word.toNat % 4294967296 := by
  rw [BitVec.toNat_and]
  exact Nat.and_two_pow_sub_one_eq_mod word.toNat 32

theorem toNat_shift_low (word : BitVec 64) :
    (word >>> 32).toNat = word.toNat / 4294967296 := by
  rw [BitVec.toNat_ushiftRight, Nat.shiftRight_eq_div_pow]

/-! ## 128-bit words -/

/-- A positive number is its 128-bit word. -/
theorem toNat_toUInt128 (nonneg : 0 ≤ input.upper.toInt) :
    (input.toUInt128.toNat : Int) = input.value := by
  have clear : input.upper.msb = false := by
    rw [BitVec.msb_eq_toInt]
    simpa using nonneg
  have plain := BitVec.toInt_eq_toNat_of_msb clear
  have shifted : (input.upper.setWidth 128 <<< 64).toNat =
      input.upper.toNat * 18446744073709551616 := by
    rw [BitVec.toNat_shiftLeft, BitVec.toNat_setWidth, Nat.shiftLeft_eq]
    omega
  rw [toUInt128, BitVec.signExtend_eq_setWidth_of_msb_false clear, BitVec.toNat_add, shifted,
    BitVec.toNat_setWidth, value_eq]
  omega

theorem toNat_upper_ofUInt128 (product : BitVec 128) :
    (ofUInt128 product).upper.toNat = product.toNat / 18446744073709551616 := by
  rw [ofUInt128]
  dsimp only
  rw [BitVec.toNat_setWidth, BitVec.toNat_ushiftRight, Nat.shiftRight_eq_div_pow]
  omega

theorem toNat_lower_ofUInt128 (product : BitVec 128) :
    (ofUInt128 product).lower.toNat = product.toNat % 18446744073709551616 := by
  rw [ofUInt128]
  dsimp only
  have masked : (product &&& 0xffffffffffffffff).toNat = product.toNat % 18446744073709551616 := by
    rw [BitVec.toNat_and]
    exact Nat.and_two_pow_sub_one_eq_mod product.toNat 64
  rw [BitVec.toNat_setWidth, masked]
  omega

/-- A 128-bit word without its highest bit is the number of its two words. -/
theorem value_ofUInt128 {product : BitVec 128}
    (small : product.toNat < 170141183460469231731687303715884105728) :
    (ofUInt128 product).value = product.toNat := by
  have upper := toNat_upper_ofUInt128 product
  have lower := toNat_lower_ofUInt128 product
  have signed := BitVec.toInt_eq_toNat_cond (ofUInt128 product).upper
  rw [value_eq]
  split at signed <;> omega

/-- The outcome of a product of positive numbers. -/
def ExactPositive (exact : Int) (outcome : Option Hugeint) : Prop :=
  (outcome.isSome = true ↔ exact < 170141183460469231731687303715884105728) ∧
    ∀ number, outcome = some number → number.value = exact

theorem ExactPositive.of_value {exact : Int} {number : Hugeint} (same : number.value = exact) :
    ExactPositive exact (some number) := by
  refine ⟨iff_of_true rfl ?_, fun _ equal => Option.some.inj equal ▸ same⟩
  rw [← same]
  exact (inRange_iff.mp number.inRange_value).2

theorem ExactPositive.of_large {exact : Int}
    (large : 170141183460469231731687303715884105728 ≤ exact) : ExactPositive exact none :=
  ⟨iff_of_false Bool.false_ne_true (Int.not_lt.mpr large), fun _ impossible => by cases impossible⟩

/-- The product by 128-bit words. -/
theorem multiplyWide_exact (lhsNonneg : 0 ≤ lhs.upper.toInt) (rhsNonneg : 0 ≤ rhs.upper.toInt) :
    ExactPositive (lhs.value * rhs.value) (lhs.multiplyWide rhs) := by
  rw [← toNat_toUInt128 lhsNonneg, ← toNat_toUInt128 rhsNonneg, ← Int.natCast_mul, multiplyWide]
  obtain ⟨product, hproduct⟩ : ∃ product,
      product = lhs.toUInt128.toNat * rhs.toUInt128.toNat := ⟨_, rfl⟩
  have whole : (lhs.toUInt128 * rhs.toUInt128).toNat = product % 2 ^ 128 := by
    rw [BitVec.toNat_mul, hproduct]
  rw [BitVec.umulOverflow, ← hproduct]
  by_cases overflows : product ≥ 2 ^ 128
  · rw [if_pos (decide_eq_true overflows)]
    refine ExactPositive.of_large ?_
    omega
  · rw [if_neg (mt of_decide_eq_true overflows)]
    have upper := toNat_upper_ofUInt128 (lhs.toUInt128 * rhs.toUInt128)
    have highest := and_eq_zero_iff 63 64 0x8000000000000000 (by decide)
      (Nat.le_refl _) (ofUInt128 (lhs.toUInt128 * rhs.toUInt128)).upper
    rw [whole] at upper
    rw [upper] at highest
    dsimp only
    split
    · rename_i set
      refine ExactPositive.of_large ?_
      rw [Ne, highest] at set
      omega
    · rename_i clear
      rw [not_not, highest] at clear
      refine ExactPositive.of_value ?_
      rw [value_ofUInt128 (by rw [whole]; omega), whole]
      omega

/-! ## 32-bit parts -/

theorem part_lt (input : Hugeint) (place : Nat) : (input.part place).toNat < 4294967296 := by
  unfold part
  split
  · rw [toNat_shift_low]
    omega
  · rw [toNat_and_low]
    omega
  · rw [toNat_shift_low]
    omega
  · rw [toNat_and_low]
    omega

/-- A positive number is the number of its parts. -/
theorem value_eq_parts (nonneg : 0 ≤ input.upper.toInt) :
    input.value = ((input.part 0).toNat * 2 ^ 96 + (input.part 1).toNat * 2 ^ 64 +
      (input.part 2).toNat * 2 ^ 32 + (input.part 3).toNat : Nat) := by
  have signed := BitVec.toInt_eq_toNat_cond input.upper
  rw [value_eq, part, part, part, part, toNat_shift_low, toNat_and_low, toNat_shift_low,
    toNat_and_low]
  · split at signed <;> omega
  · omega
  · omega
  · omega

/-- The product of two parts. -/
def partProduct (lhs rhs : Hugeint) (x y : Nat) : Nat :=
  (lhs.part x).toNat * (rhs.part y).toNat

theorem partProduct_le (lhs rhs : Hugeint) (x y : Nat) :
    partProduct lhs rhs x y ≤ 18446744065119617025 :=
  Nat.mul_le_mul (Nat.le_of_lt_succ (lhs.part_lt x)) (Nat.le_of_lt_succ (rhs.part_lt y))

/-- The product of two parts does not overflow. -/
theorem toNat_part_mul (lhs rhs : Hugeint) (x y : Nat) :
    (lhs.part x * rhs.part y).toNat = partProduct lhs rhs x y := by
  have bound := partProduct_le lhs rhs x y
  rw [BitVec.toNat_mul, Nat.mod_eq_of_lt]
  · rfl
  · exact Nat.lt_of_le_of_lt bound (by decide)

/-- The product of two positive numbers, by the products of their parts. -/
theorem value_mul_eq_parts (lhsNonneg : 0 ≤ lhs.upper.toInt) (rhsNonneg : 0 ≤ rhs.upper.toInt) :
    lhs.value * rhs.value =
      (partProduct lhs rhs 0 0 * 2 ^ 192 +
        (partProduct lhs rhs 0 1 + partProduct lhs rhs 1 0) * 2 ^ 160 +
        (partProduct lhs rhs 0 2 + partProduct lhs rhs 1 1 + partProduct lhs rhs 2 0) * 2 ^ 128 +
        (partProduct lhs rhs 0 3 + partProduct lhs rhs 1 2 + partProduct lhs rhs 2 1 +
          partProduct lhs rhs 3 0) * 2 ^ 96 +
        (partProduct lhs rhs 1 3 + partProduct lhs rhs 2 2 + partProduct lhs rhs 3 1) * 2 ^ 64 +
        (partProduct lhs rhs 2 3 + partProduct lhs rhs 3 2) * 2 ^ 32 +
        partProduct lhs rhs 3 3 : Nat) := by
  rw [value_eq_parts lhsNonneg, value_eq_parts rhsNonneg, ← Int.natCast_mul]
  congr 1
  simp only [partProduct]
  ring

/-- The word is a sum of at most `count` 32-bit numbers. -/
structure Narrow (word : BitVec 64) (number count : Nat) : Prop where
  toNat_eq : word.toNat = number
  lt : number < count * 4294967296

theorem Narrow.low (word : BitVec 64) :
    Narrow (word &&& low32) (word.toNat % 4294967296) 1 :=
  ⟨toNat_and_low word, Nat.mod_lt _ (by decide)⟩

theorem Narrow.high (word : BitVec 64) : Narrow (word >>> 32) (word.toNat / 4294967296) 1 :=
  ⟨toNat_shift_low word, Nat.div_lt_of_lt_mul word.isLt⟩

/-- A sum of few numbers does not overflow. -/
theorem Narrow.add {first second : BitVec 64} {m n j k : Nat} (left : Narrow first m j)
    (right : Narrow second n k) (few : j + k ≤ 4294967296) :
    Narrow (first + second) (m + n) (j + k) := by
  have total : m + n < (j + k) * 4294967296 := by
    rw [Nat.add_mul]
    exact Nat.add_lt_add left.lt right.lt
  refine ⟨?_, total⟩
  rw [BitVec.toNat_add, left.toNat_eq, right.toNat_eq, Nat.mod_eq_of_lt]
  exact Nat.lt_of_lt_of_le total (Nat.mul_le_mul_right _ few)

/-- The merged digits as sums, none of which overflows. -/
structure Merged (lhs rhs : Hugeint) : Prop where
  fourth : (mergeParts lhs rhs).2.2.2.toNat = partProduct lhs rhs 3 3 % 4294967296
  third : (mergeParts lhs rhs).2.2.1.toNat =
    partProduct lhs rhs 3 2 % 4294967296 + partProduct lhs rhs 3 3 / 4294967296 +
      partProduct lhs rhs 2 3 % 4294967296
  second : (mergeParts lhs rhs).2.1.toNat =
    partProduct lhs rhs 3 1 % 4294967296 + partProduct lhs rhs 3 2 / 4294967296 +
      (partProduct lhs rhs 2 2 % 4294967296 + partProduct lhs rhs 2 3 / 4294967296) +
      partProduct lhs rhs 1 3 % 4294967296 + (mergeParts lhs rhs).2.2.1.toNat / 4294967296
  first : (mergeParts lhs rhs).1.toNat =
    partProduct lhs rhs 3 0 % 4294967296 + partProduct lhs rhs 3 1 / 4294967296 +
      (partProduct lhs rhs 2 1 % 4294967296 + partProduct lhs rhs 2 2 / 4294967296) +
      (partProduct lhs rhs 1 2 % 4294967296 + partProduct lhs rhs 1 3 / 4294967296) +
      partProduct lhs rhs 0 3 % 4294967296 + (mergeParts lhs rhs).2.1.toNat / 4294967296
  first_lt : (mergeParts lhs rhs).1.toNat < 34359738368

theorem merged (lhs rhs : Hugeint) : Merged lhs rhs := by
  have low : ∀ x y, Narrow (lhs.part x * rhs.part y &&& low32)
      (partProduct lhs rhs x y % 4294967296) 1 := by
    intro x y
    rw [← toNat_part_mul]
    exact Narrow.low _
  have high : ∀ x y, Narrow ((lhs.part x * rhs.part y) >>> 32)
      (partProduct lhs rhs x y / 4294967296) 1 := by
    intro x y
    rw [← toNat_part_mul]
    exact Narrow.high _
  have noCarry : Narrow ((lhs.part 3 * rhs.part 3 &&& low32) >>> 32) 0 1 := by
    have carry := Narrow.high (lhs.part 3 * rhs.part 3 &&& low32)
    rwa [(low 3 3).toNat_eq, Nat.div_eq_of_lt (Nat.mod_lt _ (by decide))] at carry
  have third : Narrow (mergeParts lhs rhs).2.2.1 _ _ :=
    (((low 3 2).add (high 3 3) (by decide)).add (low 2 3) (by decide)).add noCarry (by decide)
  have second : Narrow (mergeParts lhs rhs).2.1 _ _ :=
    (((((low 3 1).add (high 3 2) (by decide)).add
      ((low 2 2).add (high 2 3) (by decide)) (by decide)).add (low 1 3) (by decide)).add
      (Narrow.high (mergeParts lhs rhs).2.2.1) (by decide))
  have first : Narrow (mergeParts lhs rhs).1 _ _ :=
    ((((((low 3 0).add (high 3 1) (by decide)).add
      ((low 2 1).add (high 2 2) (by decide)) (by decide)).add
      ((low 1 2).add (high 1 3) (by decide)) (by decide)).add (low 0 3) (by decide)).add
      (Narrow.high (mergeParts lhs rhs).2.1) (by decide))
  exact ⟨(low 3 3).toNat_eq, third.toNat_eq, second.toNat_eq, first.toNat_eq,
    first.toNat_eq.trans_lt first.lt⟩

/-- The digits that the merged products come to. -/
theorem mergeParts_total (lhs rhs : Hugeint) :
    (mergeParts lhs rhs).1.toNat * 2 ^ 96 +
      ((mergeParts lhs rhs).2.1.toNat % 4294967296) * 2 ^ 64 +
      ((mergeParts lhs rhs).2.2.1.toNat % 4294967296) * 2 ^ 32 +
      (mergeParts lhs rhs).2.2.2.toNat =
    (partProduct lhs rhs 0 3 % 4294967296 + partProduct lhs rhs 1 2 % 4294967296 +
        partProduct lhs rhs 2 1 % 4294967296 + partProduct lhs rhs 3 0 % 4294967296) * 2 ^ 96 +
      (partProduct lhs rhs 1 3 + partProduct lhs rhs 2 2 + partProduct lhs rhs 3 1) * 2 ^ 64 +
      (partProduct lhs rhs 2 3 + partProduct lhs rhs 3 2) * 2 ^ 32 +
      partProduct lhs rhs 3 3 := by
  obtain ⟨fourth, third, second, first, -⟩ := merged lhs rhs
  have split : ∀ number : Nat, number = 4294967296 * (number / 4294967296) + number % 4294967296 :=
    fun number => (Nat.div_add_mod number _).symm
  have thirdSplit := split (mergeParts lhs rhs).2.2.1.toNat
  have secondSplit := split (mergeParts lhs rhs).2.1.toNat
  have p₁ := split (partProduct lhs rhs 3 3)
  have p₂ := split (partProduct lhs rhs 3 2)
  have p₃ := split (partProduct lhs rhs 3 1)
  have p₄ := split (partProduct lhs rhs 2 3)
  have p₅ := split (partProduct lhs rhs 2 2)
  have p₆ := split (partProduct lhs rhs 1 3)
  linarith

theorem toNat_combine (high low : BitVec 64) :
    (((high &&& low32) <<< 32) ||| (low &&& low32)).toNat =
      high.toNat % 4294967296 * 4294967296 + low.toNat % 4294967296 := by
  have small : low.toNat % 4294967296 < 2 ^ 32 := Nat.mod_lt _ (by decide)
  have shifted : ((high &&& low32) <<< 32).toNat = (high.toNat % 4294967296) <<< 32 := by
    rw [BitVec.toNat_shiftLeft, toNat_and_low, Nat.mod_eq_of_lt]
    rw [Nat.shiftLeft_eq]
    omega
  rw [BitVec.toNat_or, shifted, toNat_and_low, ← Nat.shiftLeft_add_eq_or_of_lt small,
    Nat.shiftLeft_eq]

/-- Digits whose highest one is small are combined to the number that they stand for. -/
theorem value_combineParts {digits : BitVec 64 × BitVec 64 × BitVec 64 × BitVec 64}
    (small : digits.1.toNat < 2147483648) :
    (combineParts digits).value =
      (digits.1.toNat * 2 ^ 96 + (digits.2.1.toNat % 4294967296) * 2 ^ 64 +
        (digits.2.2.1.toNat % 4294967296) * 2 ^ 32 + digits.2.2.2.toNat % 4294967296 : Nat) := by
  have upper := toNat_combine digits.1 digits.2.1
  have lower := toNat_combine digits.2.2.1 digits.2.2.2
  have signed := BitVec.toInt_eq_toNat_cond
    (((digits.1 &&& low32) <<< 32) ||| (digits.2.1 &&& low32))
  rw [value_eq, combineParts]
  dsimp only
  rw [upper] at signed
  rw [lower]
  split at signed <;> omega

/-- No product of parts is so large that the whole product is not a 128-bit number. -/
structure SmallParts (lhs rhs : Hugeint) : Prop where
  zero : partProduct lhs rhs 0 0 = 0 ∧ partProduct lhs rhs 0 1 = 0 ∧
    partProduct lhs rhs 0 2 = 0 ∧ partProduct lhs rhs 1 0 = 0 ∧ partProduct lhs rhs 2 0 = 0 ∧
    partProduct lhs rhs 1 1 = 0
  low : partProduct lhs rhs 0 3 < 2147483648 ∧ partProduct lhs rhs 1 2 < 2147483648 ∧
    partProduct lhs rhs 2 1 < 2147483648 ∧ partProduct lhs rhs 3 0 < 2147483648

theorem smallParts_of_small (lhsNonneg : 0 ≤ lhs.upper.toInt) (rhsNonneg : 0 ≤ rhs.upper.toInt)
    (small : lhs.value * rhs.value < 170141183460469231731687303715884105728) :
    SmallParts lhs rhs := by
  rw [value_mul_eq_parts lhsNonneg rhsNonneg] at small
  constructor
  · refine ⟨?_, ?_, ?_, ?_, ?_, ?_⟩ <;> omega
  · refine ⟨?_, ?_, ?_, ?_⟩ <;> omega

/-- The merged digits come to the product where the high products are zero. -/
theorem SmallParts.mul_eq (parts : SmallParts lhs rhs) (lhsNonneg : 0 ≤ lhs.upper.toInt)
    (rhsNonneg : 0 ≤ rhs.upper.toInt) :
    lhs.value * rhs.value = ((mergeParts lhs rhs).1.toNat * 2 ^ 96 +
      ((mergeParts lhs rhs).2.1.toNat % 4294967296) * 2 ^ 64 +
      ((mergeParts lhs rhs).2.2.1.toNat % 4294967296) * 2 ^ 32 +
      (mergeParts lhs rhs).2.2.2.toNat : Nat) := by
  obtain ⟨⟨none₁, none₂, none₃, none₄, none₅, none₆⟩, small₁, small₂, small₃, small₄⟩ := parts
  rw [mergeParts_total, value_mul_eq_parts lhsNonneg rhsNonneg, none₁, none₂, none₃, none₄,
    none₅, none₆, Nat.mod_eq_of_lt (by omega), Nat.mod_eq_of_lt (by omega),
    Nat.mod_eq_of_lt (by omega), Nat.mod_eq_of_lt (by omega)]
  simp only [Nat.zero_mul, Nat.zero_add, Nat.add_zero]

theorem fourth_lt (lhs rhs : Hugeint) : (mergeParts lhs rhs).2.2.2.toNat < 4294967296 := by
  rw [(merged lhs rhs).fourth]
  exact Nat.mod_lt _ (by decide)

/-- The highest digit tells whether the product is small. -/
theorem SmallParts.first_lt_iff (parts : SmallParts lhs rhs) (lhsNonneg : 0 ≤ lhs.upper.toInt)
    (rhsNonneg : 0 ≤ rhs.upper.toInt) :
    (mergeParts lhs rhs).1.toNat < 2147483648 ↔
      lhs.value * rhs.value < 170141183460469231731687303715884105728 := by
  have fourth := fourth_lt lhs rhs
  rw [parts.mul_eq lhsNonneg rhsNonneg]
  omega

/-- The unchecked product of positive numbers is exact where it is small. -/
theorem value_combineParts_mergeParts (lhsNonneg : 0 ≤ lhs.upper.toInt)
    (rhsNonneg : 0 ≤ rhs.upper.toInt)
    (small : lhs.value * rhs.value < 170141183460469231731687303715884105728) :
    (combineParts (mergeParts lhs rhs)).value = lhs.value * rhs.value := by
  have parts := smallParts_of_small lhsNonneg rhsNonneg small
  rw [value_combineParts ((parts.first_lt_iff lhsNonneg rhsNonneg).mpr small),
    parts.mul_eq lhsNonneg rhsNonneg, Nat.mod_eq_of_lt (fourth_lt lhs rhs)]

/-! ## Checked products -/

theorem part_mul_ne_zero_iff {x y : Nat} :
    lhs.part x * rhs.part y ≠ 0 ↔ partProduct lhs rhs x y ≠ 0 := by
  rw [← toNat_part_mul]
  exact (not_congr BitVec.toNat_inj.symm)

theorem part_mul_and_ne_zero_iff {x y : Nat} :
    lhs.part x * rhs.part y &&& 0xffffffff80000000 ≠ 0 ↔
      2147483648 ≤ partProduct lhs rhs x y := by
  have bound := partProduct_le lhs rhs x y
  rw [Ne, and_eq_zero_iff 31 64 0xffffffff80000000 (by decide) (Nat.le_refl _), toNat_part_mul]
  omega

theorem first_and_ne_zero_iff :
    (mergeParts lhs rhs).1 &&& 0xffffff80000000 ≠ 0 ↔
      2147483648 ≤ (mergeParts lhs rhs).1.toNat := by
  have bound := (merged lhs rhs).first_lt
  rw [Ne, and_eq_zero_iff 31 56 0xffffff80000000 (by decide) (by decide)]
  omega

/-- The product by 32-bit parts. -/
theorem multiplyParts_exact (lhsNonneg : 0 ≤ lhs.upper.toInt) (rhsNonneg : 0 ≤ rhs.upper.toInt) :
    ExactPositive (lhs.value * rhs.value) (lhs.multiplyParts rhs) := by
  rw [multiplyParts]
  dsimp only
  simp only [part_mul_ne_zero_iff, part_mul_and_ne_zero_iff, first_and_ne_zero_iff]
  by_cases parts : SmallParts lhs rhs
  · obtain ⟨zero, low⟩ := id parts
    rw [if_neg (by omega), if_neg (by omega)]
    have small := parts.first_lt_iff lhsNonneg rhsNonneg
    by_cases large : 2147483648 ≤ (mergeParts lhs rhs).1.toNat
    · rw [if_pos large]
      exact ExactPositive.of_large (by omega)
    · rw [if_neg large]
      exact ExactPositive.of_value
        (value_combineParts_mergeParts lhsNonneg rhsNonneg (small.mp (by omega)))
  · have large := mt (smallParts_of_small lhsNonneg rhsNonneg) parts
    split
    · exact ExactPositive.of_large (by omega)
    · rename_i zero
      split
      · exact ExactPositive.of_large (by omega)
      · rename_i low
        refine absurd ⟨?_, ?_⟩ parts
        · omega
        · omega

/-- Both ways of multiplying give the product of positive numbers. -/
theorem multiplyPositive_exact (wide : Bool) (lhsNonneg : 0 ≤ lhs.upper.toInt)
    (rhsNonneg : 0 ≤ rhs.upper.toInt) :
    ExactPositive (lhs.value * rhs.value) (multiplyPositive wide lhs rhs) := by
  rw [multiplyPositive]
  split
  · exact multiplyWide_exact lhsNonneg rhsNonneg
  · exact multiplyParts_exact lhsNonneg rhsNonneg

/-- The unchecked product is exact where it is small. -/
theorem value_multiplyPositiveUnchecked (wide : Bool) (lhsNonneg : 0 ≤ lhs.upper.toInt)
    (rhsNonneg : 0 ≤ rhs.upper.toInt)
    (small : lhs.value * rhs.value < 170141183460469231731687303715884105728) :
    (multiplyPositiveUnchecked wide lhs rhs).value = lhs.value * rhs.value := by
  rw [multiplyPositiveUnchecked]
  split
  · have whole : ((lhs.toUInt128 * rhs.toUInt128).toNat : Int) = lhs.value * rhs.value := by
      rw [← toNat_toUInt128 lhsNonneg, ← toNat_toUInt128 rhsNonneg, ← Int.natCast_mul] at small ⊢
      rw [BitVec.toNat_mul]
      omega
    rw [value_ofUInt128 (by omega), whole]
  · exact value_combineParts_mergeParts lhsNonneg rhsNonneg small

/-! ## Signs -/

/-- A product that is the minimum although neither factor is. -/
def MissesMinimum (lhs rhs : Hugeint) : Prop :=
  lhs.value * rhs.value = minimum.value ∧ lhs ≠ minimum ∧ rhs ≠ minimum

theorem slt_zero_iff {word : BitVec 64} : word.slt 0 = true ↔ word.toInt < 0 := by
  rw [BitVec.slt_iff_toInt_lt]
  rfl

theorem upper_neg_iff : input.upper.toInt < 0 ↔ input.value < 0 := by
  rw [value_eq]
  omega

theorem eq_ofInt64_iff {number : BitVec 64} : input = ofInt64 number ↔
    input.value = number.toInt := by
  rw [← value_ofInt64]
  exact ⟨congrArg value, value_inj⟩

theorem eq_minimum_iff_value :
    input = minimum ↔ input.value = -170141183460469231731687303715884105728 := by
  rw [← value_minimum]
  exact ⟨congrArg value, value_inj⟩

/-- The magnitude of a number that can be negated. -/
theorem tryNegateNegative_spec (negatable : input ≠ minimum) :
    ∃ result, input.tryNegateNegative = .ok (some result) ∧ result.value = |input.value| ∧
      0 ≤ result.upper.toInt := by
  rw [tryNegateNegative]
  by_cases negative : input.upper.slt 0 = true
  · rw [if_pos negative, tryNegate, if_neg (mt eq_minimum_iff.mp negatable)]
    rw [slt_zero_iff, upper_neg_iff] at negative
    obtain ⟨result, hresult, same⟩ := negateInPlace_spec negatable
    refine ⟨result, ?_, ?_, ?_⟩
    · rw [hresult]
      rfl
    · rw [same, abs_of_neg negative]
    · have nonneg : ¬ result.upper.toInt < 0 := mt upper_neg_iff.mp (by omega)
      exact Int.not_lt.mp nonneg
  · rw [if_neg negative]
    rw [slt_zero_iff] at negative
    refine ⟨input, rfl, ?_, Int.not_lt.mp negative⟩
    rw [upper_neg_iff] at negative
    rw [abs_of_nonneg (Int.not_lt.mp negative)]

/-- A product is the product of the magnitudes with the sign of the factors. -/
theorem mul_eq_of_signs (first second : Int) :
    first * second = if decide (first < 0) ^^ decide (second < 0) then -(|first| * |second|)
      else |first| * |second| := by
  rcases Int.lt_or_le first 0 with neg₁ | nonneg₁ <;> rcases Int.lt_or_le second 0 with neg₂ | nonneg₂
  · rw [abs_of_neg neg₁, abs_of_neg neg₂, decide_eq_true neg₁, decide_eq_true neg₂]
    exact (neg_mul_neg first second).symm
  · rw [abs_of_neg neg₁, abs_of_nonneg nonneg₂, decide_eq_true neg₁,
      decide_eq_false (Int.not_lt.mpr nonneg₂)]
    exact ((congrArg Neg.neg (neg_mul first second)).trans (neg_neg _)).symm
  · rw [abs_of_nonneg nonneg₁, abs_of_neg neg₂, decide_eq_true neg₂,
      decide_eq_false (Int.not_lt.mpr nonneg₁)]
    exact ((congrArg Neg.neg (mul_neg first second)).trans (neg_neg _)).symm
  · rw [abs_of_nonneg nonneg₁, abs_of_nonneg nonneg₂, decide_eq_false (Int.not_lt.mpr nonneg₁),
      decide_eq_false (Int.not_lt.mpr nonneg₂)]
    rfl

theorem slt_zero_eq (input : Hugeint) : input.upper.slt 0 = decide (input.value < 0) := by
  rw [Bool.eq_iff_iff, slt_zero_iff, upper_neg_iff, decide_eq_true_eq]

theorem negateIf_spec (condition : Bool) (negatable : input ≠ minimum) :
    ∃ result, input.negateIf condition = .ok result ∧
      result.value = if condition then -input.value else input.value := by
  cases condition with
  | false => exact ⟨input, rfl, rfl⟩
  | true => exact negateInPlace_spec negatable

theorem ne_minimum_of_nonneg (nonneg : 0 ≤ input.value) : input ≠ minimum := by
  rw [Ne, eq_minimum_iff_value]
  omega

/-- What `TryMultiply` gives: the product where it is in range, but for one case. -/
def MultiplyExact (lhs rhs : Hugeint) (outcome : Except String (Option Hugeint)) : Prop :=
  ∃ result, outcome = .ok result ∧
    (result.isSome = true ↔ InRange (lhs.value * rhs.value) ∧ ¬ MissesMinimum lhs rhs) ∧
    ∀ number, result = some number → number.value = lhs.value * rhs.value

/-- The product with a factor that cannot be negated. -/
theorem multiply_minimum {outcome : Except String (Option Hugeint)}
    (smallest : lhs = minimum ∨ rhs = minimum)
    (computed : outcome =
      if lhs = ofInt64 0 ∨ rhs = ofInt64 0 then .ok (some (ofInt64 0))
      else if lhs = ofInt64 1 ∨ rhs = ofInt64 1 then .ok (some minimum)
      else .ok none) : MultiplyExact lhs rhs outcome := by
  have apart : ¬ MissesMinimum lhs rhs := fun ⟨_, notLeft, notRight⟩ =>
    smallest.elim notLeft notRight
  have zero : (0 : BitVec 64).toInt = 0 := by decide
  have one : (1 : BitVec 64).toInt = 1 := by decide
  simp only [eq_ofInt64_iff, zero, one] at computed
  rw [eq_minimum_iff_value, eq_minimum_iff_value] at smallest
  rw [computed]
  split
  · rename_i none
    have product : lhs.value * rhs.value = 0 := mul_eq_zero.mpr none
    refine ⟨_, rfl, iff_of_true rfl ⟨?_, apart⟩, fun _ equal => ?_⟩
    · rw [product, inRange_iff]
      decide
    · rw [← Option.some.inj equal, product, value_ofInt64, zero]
  · rename_i nonzero
    split
    · rename_i unit
      have product : lhs.value * rhs.value = -170141183460469231731687303715884105728 := by
        rcases unit with left | right
        · rw [left] at smallest ⊢
          omega
        · rw [right] at smallest ⊢
          omega
      refine ⟨_, rfl, iff_of_true rfl ⟨?_, apart⟩, fun _ equal => ?_⟩
      · rw [product, inRange_iff]
        decide
      · rw [← Option.some.inj equal, product, value_minimum]
    · rename_i other
      refine ⟨_, rfl, iff_of_false Bool.false_ne_true fun ⟨inRange, _⟩ => ?_,
        fun _ impossible => by cases impossible⟩
      rw [inRange_iff] at inRange
      rcases smallest with left | right
      · rw [left] at inRange
        omega
      · rw [right] at inRange
        omega

/-- `TryMultiply` multiplies exactly where the product is in range, but misses the minimum. -/
theorem tryMultiply_spec (wide : Bool) (lhs rhs : Hugeint) :
    MultiplyExact lhs rhs (tryMultiply wide lhs rhs) := by
  by_cases smallest : lhs = minimum ∨ rhs = minimum
  · refine multiply_minimum smallest ?_
    rw [tryMultiply, if_pos smallest]
    rfl
  · obtain ⟨left, right⟩ := not_or.mp smallest
    obtain ⟨first, hfirst, value₁, nonneg₁⟩ := tryNegateNegative_spec left
    obtain ⟨second, hsecond, value₂, nonneg₂⟩ := tryNegateNegative_spec right
    have signs := mul_eq_of_signs lhs.value rhs.value
    have exact := multiplyPositive_exact wide nonneg₁ nonneg₂
    rw [value₁, value₂] at exact
    rw [← slt_zero_eq, ← slt_zero_eq] at signs
    rw [tryMultiply, if_neg smallest, hfirst]
    dsimp only [bind, Except.bind]
    rw [hsecond]
    dsimp only
    have magnitude : 0 ≤ |lhs.value| * |rhs.value| :=
      Int.mul_nonneg (abs_nonneg _) (abs_nonneg _)
    cases computed : multiplyPositive wide first second with
    | none =>
        rw [computed] at exact
        have large := mt exact.1.mpr Bool.false_ne_true
        refine ⟨none, rfl, iff_of_false Bool.false_ne_true fun ⟨inRange, misses⟩ => ?_,
          fun _ impossible => by cases impossible⟩
        rw [inRange_iff] at inRange
        refine misses ⟨?_, left, right⟩
        rw [value_minimum]
        split at signs <;> omega
    | some result =>
        rw [computed] at exact
        have small := exact.1.mp rfl
        have same := exact.2 result rfl
        have negatable : result ≠ minimum := ne_minimum_of_nonneg (by omega)
        have inRange : InRange (lhs.value * rhs.value) := by
          rw [inRange_iff]
          split at signs <;> omega
        have apart : ¬ MissesMinimum lhs rhs := by
          rintro ⟨equal, -⟩
          rw [value_minimum] at equal
          split at signs <;> omega
        dsimp only
        split at signs
        · rename_i differ
          obtain ⟨negated, hnegated, value₃⟩ := negateInPlace_spec negatable
          rw [if_pos differ, hnegated]
          refine ⟨some negated, rfl, iff_of_true rfl ⟨inRange, apart⟩, fun _ equal => ?_⟩
          rw [← Option.some.inj equal, value₃, signs, same]
        · rename_i agree
          rw [if_neg agree]
          refine ⟨some result, rfl, iff_of_true rfl ⟨inRange, apart⟩, fun _ equal => ?_⟩
          rw [← Option.some.inj equal, signs, same]

end Hugeint

end StatsRecommender
