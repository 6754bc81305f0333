import StatsRecommender.Types.Hugeint

/-!
# Sums of 128-bit integers

Sums, differences and negations are exact where they are in range, and no signed word overflows
on the way.
-/

namespace StatsRecommender

variable {number exact : Int}

open SignedWords

namespace Hugeint

variable {lhs rhs input : Hugeint}

/-- The number is a 128-bit signed one. -/
def InRange (number : Int) : Prop := -2 ^ 127 ≤ number ∧ number < 2 ^ 127

/-- The outcome of a `Try` function is the exact number, or `false` where this is out of range. -/
def Exact (exact : Int) (outcome : Except String (Option Hugeint)) : Prop :=
  ∃ result, outcome = .ok result ∧ (result.isSome = true ↔ InRange exact) ∧
    ∀ number, result = some number → number.value = exact

/-! ## The two words -/

theorem upper_range (input : Hugeint) :
    -9223372036854775808 ≤ input.upper.toInt ∧ input.upper.toInt < 9223372036854775808 :=
  ⟨BitVec.le_toInt input.upper, BitVec.toInt_lt⟩

theorem lower_range (input : Hugeint) : input.lower.toNat < 18446744073709551616 :=
  input.lower.isLt

theorem value_eq (input : Hugeint) :
    input.value = input.upper.toInt * 18446744073709551616 + input.lower.toNat := rfl

theorem inRange_iff :
    InRange number ↔ -170141183460469231731687303715884105728 ≤ number ∧
      number < 170141183460469231731687303715884105728 := Iff.rfl

theorem inRange_value (input : Hugeint) : InRange input.value := by
  have upper := input.upper_range
  rw [inRange_iff, value_eq]
  omega

theorem value_inj {first second : Hugeint} (same : first.value = second.value) :
    first = second := by
  rw [value_eq, value_eq] at same
  obtain ⟨upper, lower⟩ := first
  obtain ⟨upper', lower'⟩ := second
  dsimp only at *
  have sameUpper : upper = upper' := BitVec.eq_of_toInt_eq (by omega)
  have sameLower : lower = lower' := BitVec.eq_of_toNat_eq (by omega)
  rw [sameUpper, sameLower]

@[simp]
theorem value_minimum : minimum.value = -170141183460469231731687303715884105728 := by decide

theorem value_ofInt64 (number : BitVec 64) : (ofInt64 number).value = number.toInt := by
  rw [value_eq, ofInt64]
  dsimp only
  by_cases negative : number.slt 0 = true
  · rw [if_pos negative]
    rw [BitVec.slt_iff_toInt_lt] at negative
    have signed := BitVec.toInt_eq_toNat_cond number
    have unit : (-1 : BitVec 64).toInt = -1 := by decide
    have zero : (0 : BitVec 64).toInt = 0 := by decide
    rw [zero] at negative
    rw [unit]
    split at signed <;> omega
  · rw [if_neg negative]
    rw [BitVec.slt_iff_toInt_lt] at negative
    have signed := BitVec.toInt_eq_toNat_cond number
    have zero : (0 : BitVec 64).toInt = 0 := by decide
    rw [zero] at negative
    rw [zero]
    split at signed <;> omega

/-- The number that a comparison is used as. -/
theorem flag_toInt (condition : Bool) : (flag condition).toInt = if condition then 1 else 0 := by
  cases condition <;> rfl

theorem carry_spec (first second : BitVec 64) :
    ∃ carry : Int, (carry = 0 ∨ carry = 1) ∧ (flag (first + second < first)).toInt = carry ∧
      ((first + second).toNat : Int) + carry * 18446744073709551616 =
        first.toNat + second.toNat := by
  have sum := BitVec.toNat_add first second
  rw [flag_toInt]
  by_cases carries : first + second < first
  · refine ⟨1, Or.inr rfl, by rw [if_pos (decide_eq_true carries)], ?_⟩
    rw [BitVec.lt_def] at carries
    omega
  · refine ⟨0, Or.inl rfl, by rw [if_neg (by simpa using carries)], ?_⟩
    rw [BitVec.lt_def] at carries
    omega

theorem borrow_spec (first second : BitVec 64) :
    ∃ borrow : Int, (borrow = 0 ∨ borrow = 1) ∧
      (flag (first < first - second)).toInt = borrow ∧
      ((first - second).toNat : Int) - borrow * 18446744073709551616 =
        first.toNat - second.toNat := by
  have difference := BitVec.toNat_sub first second
  rw [flag_toInt]
  by_cases borrows : first < first - second
  · refine ⟨1, Or.inr rfl, by rw [if_pos (decide_eq_true borrows)], ?_⟩
    rw [BitVec.lt_def] at borrows
    omega
  · refine ⟨0, Or.inl rfl, by rw [if_neg (by simpa using borrows)], ?_⟩
    rw [BitVec.lt_def] at borrows
    omega

theorem fits_iff :
    Fits 64 number ↔ -9223372036854775808 ≤ number ∧ number < 9223372036854775808 := Iff.rfl

theorem Exact.of_value {number : Hugeint} (same : number.value = exact) :
    Exact exact (.ok (some number)) := by
  refine ⟨some number, rfl, ?_, fun _ equal => Option.some.inj equal ▸ same⟩
  exact iff_of_true rfl (same ▸ number.inRange_value)

theorem Exact.of_not_inRange (outside : ¬ InRange exact) :
    Exact exact (.ok none) :=
  ⟨none, rfl, iff_of_false Bool.false_ne_true outside, fun _ impossible => by cases impossible⟩

/-! ## Sums and differences -/

/-- A sum with fitting upper words is exact. -/
theorem add_spec (lhs rhs : Hugeint)
    (words : Fits 64 (lhs.upper.toInt + rhs.upper.toInt))
    (inRange : InRange (lhs.value + rhs.value)) :
    ∃ result, lhs.add rhs = .ok result ∧ result.value = lhs.value + rhs.value := by
  obtain ⟨carry, -, hcarry, sum⟩ := carry_spec lhs.lower rhs.lower
  rw [inRange_iff, value_eq, value_eq] at inRange
  obtain ⟨between, hbetween, value₁⟩ := signedAdd_of_fits words
  obtain ⟨upper, hupper, value₂⟩ := signedAdd_of_fits
    (fits_iff.mpr (show _ ∧ between.toInt + (flag (lhs.lower + rhs.lower < lhs.lower)).toInt < _ by
      omega))
  refine ⟨⟨upper, lhs.lower + rhs.lower⟩, ?_, ?_⟩
  · rw [add, hbetween]
    dsimp only [bind, Except.bind]
    rw [hupper]
    rfl
  · rw [value_eq, value_eq, value_eq]
    dsimp only
    omega

/-- A difference with fitting upper words is exact. -/
theorem sub_spec (lhs rhs : Hugeint)
    (words : Fits 64 (lhs.upper.toInt - rhs.upper.toInt))
    (inRange : InRange (lhs.value - rhs.value)) :
    ∃ result, lhs.sub rhs = .ok result ∧ result.value = lhs.value - rhs.value := by
  obtain ⟨borrow, -, hborrow, difference⟩ := borrow_spec lhs.lower rhs.lower
  rw [inRange_iff, value_eq, value_eq] at inRange
  obtain ⟨between, hbetween, value₁⟩ := signedSub_of_fits words
  obtain ⟨upper, hupper, value₂⟩ := signedSub_of_fits
    (fits_iff.mpr (show _ ∧ between.toInt - (flag (lhs.lower < lhs.lower - rhs.lower)).toInt < _ by
      omega))
  refine ⟨⟨upper, lhs.lower - rhs.lower⟩, ?_, ?_⟩
  · rw [sub, hbetween]
    dsimp only [bind, Except.bind]
    rw [hupper]
    rfl
  · rw [value_eq, value_eq, value_eq]
    dsimp only
    omega

theorem intMax_toInt : (BitVec.intMax 64).toInt = 9223372036854775807 := by decide

theorem intMin_toInt : (BitVec.intMin 64).toInt = -9223372036854775808 := by decide

theorem zero_sle_iff {word : BitVec 64} : (0 : BitVec 64).sle word = true ↔ 0 ≤ word.toInt := by
  rw [BitVec.sle_iff_toInt_le]
  rfl

/-- `TryAddInPlace` adds exactly where the sum is in range. -/
theorem tryAddInPlace_exact (lhs rhs : Hugeint) :
    Exact (lhs.value + rhs.value) (lhs.tryAddInPlace rhs) := by
  obtain ⟨carry, -, hcarry, sum⟩ := carry_spec lhs.lower rhs.lower
  have lhsUpper := lhs.upper_range
  have rhsUpper := rhs.upper_range
  have maximum := intMax_toInt
  have minimum := intMin_toInt
  have lhsValue := lhs.value_eq
  have rhsValue := rhs.value_eq
  rw [tryAddInPlace]
  obtain ⟨overflow, hoverflow⟩ : ∃ overflow, overflow =
      flag (lhs.lower + rhs.lower < lhs.lower) := ⟨_, rfl⟩
  rw [← hoverflow] at hcarry ⊢
  dsimp only [bind, Except.bind, pure, Except.pure]
  by_cases nonneg : (0 : BitVec 64).sle rhs.upper = true
  · rw [if_pos nonneg]
    rw [zero_sle_iff] at nonneg
    obtain ⟨first, hfirst, value₁⟩ := signedSub_of_fits (x := BitVec.intMax 64) (y := rhs.upper)
      (fits_iff.mpr (by omega))
    obtain ⟨bound, hbound, value₂⟩ := signedSub_of_fits (x := first) (y := overflow)
      (fits_iff.mpr (by omega))
    rw [hfirst]
    dsimp only
    rw [hbound]
    dsimp only
    by_cases beyond : bound.slt lhs.upper = true
    · rw [if_pos beyond]
      rw [BitVec.slt_iff_toInt_lt] at beyond
      refine Exact.of_not_inRange fun inRange => ?_
      rw [inRange_iff] at inRange
      omega
    · rw [if_neg beyond]
      rw [BitVec.slt_iff_toInt_lt] at beyond
      obtain ⟨second, hsecond, value₃⟩ := signedAdd_of_fits (x := lhs.upper) (y := overflow)
        (fits_iff.mpr (by omega))
      obtain ⟨upper, hupper, value₄⟩ := signedAdd_of_fits (x := second) (y := rhs.upper)
        (fits_iff.mpr (by omega))
      rw [hsecond]
      dsimp only
      rw [hupper]
      refine Exact.of_value ?_
      rw [value_eq]
      dsimp only
      omega
  · rw [if_neg nonneg]
    rw [zero_sle_iff] at nonneg
    obtain ⟨first, hfirst, value₁⟩ := signedSub_of_fits (x := BitVec.intMin 64) (y := rhs.upper)
      (fits_iff.mpr (by omega))
    obtain ⟨bound, hbound, value₂⟩ := signedSub_of_fits (x := first) (y := overflow)
      (fits_iff.mpr (by omega))
    rw [hfirst]
    dsimp only
    rw [hbound]
    dsimp only
    by_cases below : lhs.upper.slt bound = true
    · rw [if_pos below]
      rw [BitVec.slt_iff_toInt_lt] at below
      refine Exact.of_not_inRange fun inRange => ?_
      rw [inRange_iff] at inRange
      omega
    · rw [if_neg below]
      rw [BitVec.slt_iff_toInt_lt] at below
      obtain ⟨addend, haddend, value₃⟩ := signedAdd_of_fits (x := overflow) (y := rhs.upper)
        (fits_iff.mpr (by omega))
      obtain ⟨upper, hupper, value₄⟩ := signedAdd_of_fits (x := lhs.upper) (y := addend)
        (fits_iff.mpr (by omega))
      rw [haddend]
      dsimp only
      rw [hupper]
      refine Exact.of_value ?_
      rw [value_eq]
      dsimp only
      omega

/-- `TrySubtractInPlace` subtracts exactly where the difference is in range. -/
theorem trySubtractInPlace_exact (lhs rhs : Hugeint) :
    Exact (lhs.value - rhs.value) (lhs.trySubtractInPlace rhs) := by
  obtain ⟨borrow, -, hborrow, difference⟩ := borrow_spec lhs.lower rhs.lower
  have lhsUpper := lhs.upper_range
  have rhsUpper := rhs.upper_range
  have maximum := intMax_toInt
  have minimum := intMin_toInt
  have lhsValue := lhs.value_eq
  have rhsValue := rhs.value_eq
  rw [trySubtractInPlace]
  obtain ⟨underflow, hunderflow⟩ : ∃ underflow, underflow =
      flag (lhs.lower < lhs.lower - rhs.lower) := ⟨_, rfl⟩
  rw [← hunderflow] at hborrow ⊢
  dsimp only [bind, Except.bind, pure, Except.pure]
  by_cases nonneg : (0 : BitVec 64).sle rhs.upper = true
  · rw [if_pos nonneg]
    rw [zero_sle_iff] at nonneg
    obtain ⟨first, hfirst, value₁⟩ := signedAdd_of_fits (x := BitVec.intMin 64) (y := rhs.upper)
      (fits_iff.mpr (by omega))
    obtain ⟨bound, hbound, value₂⟩ := signedAdd_of_fits (x := first) (y := underflow)
      (fits_iff.mpr (by omega))
    rw [hfirst]
    dsimp only
    rw [hbound]
    dsimp only
    by_cases below : lhs.upper.slt bound = true
    · rw [if_pos below]
      rw [BitVec.slt_iff_toInt_lt] at below
      refine Exact.of_not_inRange fun inRange => ?_
      rw [inRange_iff] at inRange
      omega
    · rw [if_neg below]
      rw [BitVec.slt_iff_toInt_lt] at below
      obtain ⟨second, hsecond, value₃⟩ := signedSub_of_fits (x := lhs.upper) (y := rhs.upper)
        (fits_iff.mpr (by omega))
      obtain ⟨upper, hupper, value₄⟩ := signedSub_of_fits (x := second) (y := underflow)
        (fits_iff.mpr (by omega))
      rw [hsecond]
      dsimp only
      rw [hupper]
      refine Exact.of_value ?_
      rw [value_eq]
      dsimp only
      omega
  · rw [if_neg nonneg]
    rw [zero_sle_iff] at nonneg
    have finish : ∀ condition : Bool,
        (condition = true ↔ 9223372036854775807 + rhs.upper.toInt + borrow < lhs.upper.toInt) →
        Exact (lhs.value - rhs.value)
          (if condition = true then .ok none
          else (do
            let subtrahend ← signedAdd rhs.upper underflow
            let upper ← signedSub lhs.upper subtrahend
            pure (some ⟨upper, lhs.lower - rhs.lower⟩))) := by
      intro condition overflows
      by_cases beyond : condition = true
      · rw [if_pos beyond]
        rw [overflows] at beyond
        refine Exact.of_not_inRange fun inRange => ?_
        rw [inRange_iff] at inRange
        omega
      · rw [if_neg beyond]
        rw [overflows] at beyond
        obtain ⟨subtrahend, hsubtrahend, value₃⟩ := signedAdd_of_fits (x := rhs.upper)
          (y := underflow) (fits_iff.mpr (by omega))
        obtain ⟨upper, hupper, value₄⟩ := signedSub_of_fits (x := lhs.upper) (y := subtrahend)
          (fits_iff.mpr (by omega))
        rw [hsubtrahend]
        dsimp only [bind, Except.bind]
        rw [hupper]
        refine Exact.of_value ?_
        rw [value_eq]
        dsimp only
        omega
    by_cases above : (BitVec.intMin 64).slt lhs.upper = true
    · rw [if_pos above]
      rw [BitVec.slt_iff_toInt_lt] at above
      have unit : (1 : BitVec 64).toInt = 1 := by decide
      obtain ⟨less, hless, value₁⟩ := signedSub_of_fits (x := lhs.upper) (y := 1)
        (fits_iff.mpr (by omega))
      obtain ⟨first, hfirst, value₂⟩ := signedAdd_of_fits (x := BitVec.intMax 64)
        (y := rhs.upper) (fits_iff.mpr (by omega))
      obtain ⟨bound, hbound, value₃⟩ := signedAdd_of_fits (x := first) (y := underflow)
        (fits_iff.mpr (by omega))
      rw [hless]
      dsimp only
      rw [hfirst]
      dsimp only
      rw [hbound]
      refine finish (bound.sle less) ?_
      rw [BitVec.sle_iff_toInt_le]
      omega
    · rw [if_neg above]
      rw [BitVec.slt_iff_toInt_lt] at above
      refine finish false ⟨fun impossible => absurd impossible Bool.false_ne_true, ?_⟩
      intro impossible
      omega

/-! ## Negation -/

/-- Every number but the smallest is negated. -/
theorem negateInPlace_spec (negatable : input ≠ minimum) :
    ∃ result, input.negateInPlace = .ok result ∧ result.value = -input.value := by
  have upperRange := input.upper_range
  have unit : (-1 : BitVec 64).toInt = -1 := by decide
  have lowerValue : (BitVec.allOnes 64 - input.lower + 1).toNat =
      (18446744073709551616 - input.lower.toNat) % 18446744073709551616 := by
    rw [BitVec.toNat_add, BitVec.toNat_sub]
    have ones : (BitVec.allOnes 64).toNat = 18446744073709551615 := by decide
    have one : (1 : BitVec 64).toNat = 1 := by decide
    rw [ones, one]
    omega
  have zeroLower : (flag (BitVec.allOnes 64 - input.lower + 1 == 0)).toInt =
      if input.lower.toNat = 0 then 1 else 0 := by
    have isZero : (BitVec.allOnes 64 - input.lower + 1 == 0) = true ↔
        input.lower.toNat = 0 := by
      have zero : (0 : BitVec 64).toNat = 0 := by decide
      rw [beq_iff_eq, ← BitVec.toNat_inj, lowerValue, zero]
      omega
    rw [flag_toInt]
    by_cases lowest : input.lower.toNat = 0
    · rw [if_pos (isZero.mpr lowest), if_pos lowest]
    · rw [if_neg (mt isZero.mp lowest), if_neg lowest]
  have apart : ¬ (input.upper.toInt = -9223372036854775808 ∧ input.lower.toNat = 0) := by
    rintro ⟨upper, lower⟩
    refine negatable (value_inj ?_)
    rw [value_minimum, value_eq, upper, lower]
    decide
  rw [negateInPlace]
  obtain ⟨first, hfirst, value₁⟩ := signedSub_of_fits (x := -1) (y := input.upper)
    (fits_iff.mpr (by omega))
  obtain ⟨upper, hupper, value₂⟩ := signedAdd_of_fits (x := first)
    (y := flag (BitVec.allOnes 64 - input.lower + 1 == 0))
    (fits_iff.mpr (by rw [zeroLower]; split <;> omega))
  refine ⟨⟨upper, BitVec.allOnes 64 - input.lower + 1⟩, ?_, ?_⟩
  · dsimp only [bind, Except.bind]
    rw [hfirst]
    dsimp only
    rw [hupper]
    rfl
  · rw [zeroLower] at value₂
    rw [value_eq, value_eq]
    dsimp only
    rw [lowerValue]
    split at value₂ <;> omega

theorem eq_minimum_iff : input.upper = BitVec.intMin 64 ∧ input.lower = 0 ↔ input = minimum := by
  constructor
  · rintro ⟨upper, lower⟩
    obtain ⟨_, _⟩ := input
    dsimp only at upper lower
    rw [upper, lower]
    rfl
  · rintro rfl
    exact ⟨rfl, rfl⟩

/-- `TryNegate` negates exactly where the negation is in range. -/
theorem tryNegate_exact (input : Hugeint) : Exact (-input.value) input.tryNegate := by
  rw [tryNegate]
  by_cases smallest : input = minimum
  · rw [if_pos (eq_minimum_iff.mpr smallest)]
    refine Exact.of_not_inRange ?_
    rw [smallest, value_minimum, inRange_iff]
    omega
  · rw [if_neg (mt eq_minimum_iff.mp smallest)]
    obtain ⟨result, hresult, same⟩ := negateInPlace_spec smallest
    rw [hresult]
    exact Exact.of_value same

end Hugeint

end StatsRecommender
