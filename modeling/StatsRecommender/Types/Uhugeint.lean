import StatsRecommender.Types.HugeintQuotients

/-!
# Unsigned 128-bit integers

`uhugeint_t` as two words with the operators that work on them word by word, and what these do to
the 128 bits.
-/

namespace StatsRecommender

/-- `uhugeint_t`. -/
structure Uhugeint where
  upper : BitVec 64
  lower : BitVec 64
  deriving DecidableEq, Repr

namespace Uhugeint

/-- The constructor from a `uint64_t`. -/
def ofUInt64 (value : Nat) : Uhugeint := ⟨0, BitVec.ofNat 64 value⟩

/-- The constructor from a `uint64_t`, of a shorter word. -/
def ofUInt32 (value : BitVec 32) : Uhugeint := ⟨0, value.setWidth 64⟩

/-- The cast to a `uint32_t`. -/
def toUInt32 (input : Uhugeint) : BitVec 32 := input.lower.setWidth 32

def lessThan (lhs rhs : Uhugeint) : Bool :=
  lhs.upper < rhs.upper || (lhs.upper == rhs.upper && lhs.lower < rhs.lower)

def greaterThanEquals (lhs rhs : Uhugeint) : Bool :=
  rhs.upper < lhs.upper || (lhs.upper == rhs.upper && rhs.lower ≤ lhs.lower)

def add (lhs rhs : Uhugeint) : Uhugeint :=
  ⟨lhs.upper + rhs.upper + Hugeint.flag (lhs.lower + rhs.lower < lhs.lower),
    lhs.lower + rhs.lower⟩

def sub (lhs rhs : Uhugeint) : Uhugeint :=
  ⟨lhs.upper - rhs.upper - Hugeint.flag (lhs.lower < lhs.lower - rhs.lower),
    lhs.lower - rhs.lower⟩

/-- `operator>>`. -/
def shiftRight (input rhs : Uhugeint) : Uhugeint :=
  let shift := rhs.lower.toNat
  if rhs.upper ≠ 0 ∨ 128 ≤ shift then ofUInt64 0
  else if shift = 0 then input
  else if shift = 64 then ⟨0, input.upper⟩
  else if shift < 64 then
    ⟨input.upper >>> shift, (input.upper <<< (64 - shift)) + (input.lower >>> shift)⟩
  else ⟨0, input.upper >>> (shift - 64)⟩

/-- `operator<<`. -/
def shiftLeft (input rhs : Uhugeint) : Uhugeint :=
  let shift := rhs.lower.toNat
  if rhs.upper ≠ 0 ∨ 128 ≤ shift then ofUInt64 0
  else if shift = 0 then input
  else if shift = 64 then ⟨input.lower, 0⟩
  else if shift < 64 then
    ⟨(input.upper <<< shift) + (input.lower >>> (64 - shift)), input.lower <<< shift⟩
  else ⟨input.lower <<< (shift - 64), 0⟩

def and (lhs rhs : Uhugeint) : Uhugeint := ⟨lhs.upper &&& rhs.upper, lhs.lower &&& rhs.lower⟩

def or (lhs rhs : Uhugeint) : Uhugeint := ⟨lhs.upper ||| rhs.upper, lhs.lower ||| rhs.lower⟩

/-! ## Remainders -/

/-- `Bits`; a word is shifted out after 64 rounds. -/
def bitCount (x : Uhugeint) : Nat :=
  if x.upper ≠ 0 then Hugeint.shiftOut x.upper 64 64 else Hugeint.shiftOut x.lower 64 0

/-- The loop of `DivMod` over the lowest bits of `lhs`, for the result and the remainder. -/
def divModLoop (lhs rhs : Uhugeint) : Nat → Uhugeint → Uhugeint → Uhugeint × Uhugeint
  | 0, result, remainder => (result, remainder)
  | idx + 1, result, remainder =>
      let result := result.shiftLeft (ofUInt64 1)
      let remainder := remainder.shiftLeft (ofUInt64 1)
      let remainder :=
        if (lhs.shiftRight (ofUInt64 idx)).and (ofUInt64 1) ≠ ofUInt64 0 then
          remainder.add (ofUInt64 1)
        else remainder
      if remainder.greaterThanEquals rhs then
        divModLoop lhs rhs idx (result.add (ofUInt64 1)) (remainder.sub rhs)
      else divModLoop lhs rhs idx result remainder

/-- `Uhugeint::DivMod`, for the result and the remainder. -/
def divMod (lhs rhs : Uhugeint) : Uhugeint × Uhugeint :=
  if rhs = ofUInt64 0 then (ofUInt64 0, lhs)
  else if rhs = ofUInt64 1 then (lhs, ofUInt64 0)
  else if lhs = rhs then (ofUInt64 1, ofUInt64 0)
  else if lhs = ofUInt64 0 ∨ lhs.lessThan rhs then (ofUInt64 0, lhs)
  else divModLoop lhs rhs lhs.bitCount (ofUInt64 0) (ofUInt64 0)

/-- `Uhugeint::Modulo`. -/
def modulo (lhs rhs : Uhugeint) : Uhugeint := (lhs.divMod rhs).2

/-! ## The bits of the operators -/

/-- The 128 bits. -/
def bits (input : Uhugeint) : BitVec 128 := input.upper ++ input.lower

theorem toNat_bits (input : Uhugeint) :
    input.bits.toNat = input.upper.toNat * 2 ^ 64 + input.lower.toNat := by
  rw [bits, BitVec.toNat_append, ← Nat.shiftLeft_add_eq_or_of_lt input.lower.isLt,
    Nat.shiftLeft_eq]

theorem getLsbD_bits (input : Uhugeint) (place : Nat) : input.bits.getLsbD place =
    if place < 64 then input.lower.getLsbD place else input.upper.getLsbD (place - 64) := by
  rw [bits, BitVec.getLsbD_append]

theorem bits_injective {lhs rhs : Uhugeint} (same : lhs.bits = rhs.bits) : lhs = rhs := by
  have numbers := congrArg BitVec.toNat same
  rw [toNat_bits, toNat_bits] at numbers
  have lower := lhs.lower.isLt
  have lower' := rhs.lower.isLt
  cases lhs
  cases rhs
  simp only [mk.injEq, ← BitVec.toNat_inj] at numbers lower lower' ⊢
  omega

theorem bits_or (lhs rhs : Uhugeint) : (lhs.or rhs).bits = lhs.bits ||| rhs.bits := by
  apply BitVec.eq_of_getLsbD_eq
  intro place _
  simp only [or, getLsbD_bits, BitVec.getLsbD_or]
  split <;> rfl

theorem bits_and (lhs rhs : Uhugeint) : (lhs.and rhs).bits = lhs.bits &&& rhs.bits := by
  apply BitVec.eq_of_getLsbD_eq
  intro place _
  simp only [and, getLsbD_bits, BitVec.getLsbD_and]
  split <;> rfl

/-- Words that are shifted towards each other do not overlap. -/
theorem shifted_add {high low : BitVec 64} {shift : Nat} (inside : 0 < shift ∧ shift < 64) :
    high <<< (64 - shift) + low >>> shift = high <<< (64 - shift) ||| low >>> shift := by
  apply BitVec.add_eq_or_of_and_eq_zero
  apply BitVec.eq_of_getLsbD_eq
  intro place bound
  rw [BitVec.getLsbD_and, BitVec.getLsbD_shiftLeft, BitVec.getLsbD_ushiftRight,
    BitVec.getLsbD_zero]
  by_cases low : place < 64 - shift
  · simp [low]
  · rw [BitVec.getLsbD_of_ge _ (shift + place) (by omega), Bool.and_false]

variable {shift : Nat}

theorem toNat_lower_ofUInt64 (small : shift < 2 ^ 64) : (ofUInt64 shift).lower.toNat = shift := by
  rw [ofUInt64, BitVec.toNat_ofNat, Nat.mod_eq_of_lt small]

theorem getLsbD_shiftRight (input : Uhugeint) (small : shift < 128) (place : Nat) :
    (input.shiftRight (ofUInt64 shift)).bits.getLsbD place = input.bits.getLsbD (shift + place) := by
  have upper : (ofUInt64 shift).upper = 0 := rfl
  rw [shiftRight, toNat_lower_ofUInt64 (by omega), upper, if_neg (by simp; omega)]
  by_cases zero : shift = 0
  · rw [if_pos zero, zero, Nat.zero_add]
  by_cases half : shift = 64
  · rw [if_neg zero, if_pos half, half]
    simp only [getLsbD_bits]
    grind
  by_cases less : shift < 64
  · rw [if_neg zero, if_neg half, if_pos less, shifted_add ⟨by omega, less⟩]
    simp only [getLsbD_bits, BitVec.getLsbD_or, BitVec.getLsbD_shiftLeft,
      BitVec.getLsbD_ushiftRight]
    grind
  · rw [if_neg zero, if_neg half, if_neg less]
    simp only [getLsbD_bits, BitVec.getLsbD_ushiftRight]
    grind

theorem getLsbD_shiftLeft (input : Uhugeint) (small : shift < 128) (place : Nat) :
    (input.shiftLeft (ofUInt64 shift)).bits.getLsbD place =
      (decide (place < 128) && !decide (place < shift) && input.bits.getLsbD (place - shift)) := by
  have upper : (ofUInt64 shift).upper = 0 := rfl
  rw [shiftLeft, toNat_lower_ofUInt64 (by omega), upper, if_neg (by simp; omega)]
  by_cases zero : shift = 0
  · rw [if_pos zero, zero]
    simp only [getLsbD_bits]
    grind
  by_cases half : shift = 64
  · rw [if_neg zero, if_pos half, half]
    simp only [getLsbD_bits]
    grind
  by_cases less : shift < 64
  · have overlap := @shifted_add input.upper input.lower (64 - shift) (by omega)
    rw [Nat.sub_sub_self (by omega)] at overlap
    rw [if_neg zero, if_neg half, if_pos less, overlap]
    simp only [getLsbD_bits, BitVec.getLsbD_or, BitVec.getLsbD_shiftLeft,
      BitVec.getLsbD_ushiftRight]
    grind
  · rw [if_neg zero, if_neg half, if_neg less]
    have above : place - 64 - (shift - 64) = place - shift := by omega
    simp only [getLsbD_bits, BitVec.getLsbD_shiftLeft, above]
    by_cases low : place < 64
    · rw [if_pos low, decide_eq_true (show place < shift by omega)]
      simp
    · grind

/-! ## Remainders of division -/

variable {lhs rhs : Uhugeint}

theorem toNat_bits_ofUInt64 {number : Nat} (small : number < 2 ^ 64) :
    (ofUInt64 number).bits.toNat = number := by
  have upper : (ofUInt64 number).upper.toNat = 0 := rfl
  rw [toNat_bits, toNat_lower_ofUInt64 small, upper, Nat.zero_mul, Nat.zero_add]

theorem lessThan_iff : lhs.lessThan rhs = true ↔ lhs.bits.toNat < rhs.bits.toNat := by
  simp only [lessThan, Bool.or_eq_true, Bool.and_eq_true, decide_eq_true_eq, beq_iff_eq,
    BitVec.lt_def, ← BitVec.toNat_inj, toNat_bits]
  omega

theorem greaterThanEquals_iff :
    lhs.greaterThanEquals rhs = true ↔ rhs.bits.toNat ≤ lhs.bits.toNat := by
  simp only [greaterThanEquals, Bool.or_eq_true, Bool.and_eq_true, decide_eq_true_eq, beq_iff_eq,
    BitVec.lt_def, BitVec.le_def, ← BitVec.toNat_inj, toNat_bits]
  omega

theorem toNat_flag (condition : Bool) : (Hugeint.flag condition).toNat = condition.toNat := by
  cases condition <;> rfl

theorem toNat_add (fits : lhs.bits.toNat + rhs.bits.toNat < 2 ^ 128) :
    (lhs.add rhs).bits.toNat = lhs.bits.toNat + rhs.bits.toNat := by
  rw [toNat_bits, toNat_bits] at fits
  rw [toNat_bits, toNat_bits, toNat_bits, add]
  simp only [BitVec.toNat_add, toNat_flag, BitVec.lt_def]
  by_cases carry : lhs.lower.toNat + rhs.lower.toNat < 2 ^ 64
  · rw [Nat.mod_eq_of_lt carry, decide_eq_false (by omega), Bool.toNat_false]
    omega
  · have wrapped : (lhs.lower.toNat + rhs.lower.toNat) % 2 ^ 64 =
        lhs.lower.toNat + rhs.lower.toNat - 2 ^ 64 := by omega
    rw [wrapped, decide_eq_true (by omega), Bool.toNat_true]
    omega

theorem toNat_sub (le : rhs.bits.toNat ≤ lhs.bits.toNat) :
    (lhs.sub rhs).bits.toNat = lhs.bits.toNat - rhs.bits.toNat := by
  rw [toNat_bits, toNat_bits] at le
  rw [toNat_bits, toNat_bits, toNat_bits, sub]
  simp only [BitVec.toNat_sub, toNat_flag, BitVec.lt_def]
  by_cases borrow : rhs.lower.toNat ≤ lhs.lower.toNat
  · have kept : (2 ^ 64 - rhs.lower.toNat + lhs.lower.toNat) % 2 ^ 64 =
        lhs.lower.toNat - rhs.lower.toNat := by omega
    rw [kept, decide_eq_false (by omega), Bool.toNat_false]
    omega
  · have wrapped : (2 ^ 64 - rhs.lower.toNat + lhs.lower.toNat) % 2 ^ 64 =
        2 ^ 64 - rhs.lower.toNat + lhs.lower.toNat := by omega
    rw [wrapped, decide_eq_true (by omega), Bool.toNat_true]
    omega

theorem toNat_shiftLeft_one (small : lhs.bits.toNat < 2 ^ 127) :
    (lhs.shiftLeft (ofUInt64 1)).bits.toNat = 2 * lhs.bits.toNat := by
  have same : (lhs.shiftLeft (ofUInt64 1)).bits = lhs.bits <<< 1 := by
    apply BitVec.eq_of_getLsbD_eq
    intro place _
    rw [getLsbD_shiftLeft lhs (by decide), BitVec.getLsbD_shiftLeft]
  rw [same, BitVec.toNat_shiftLeft, Nat.shiftLeft_eq]
  omega

/-- The test of a bit of the dividend. -/
theorem bit_ne_zero_iff (input : Uhugeint) {place : Nat} (inside : place < 128) :
    (input.shiftRight (ofUInt64 place)).and (ofUInt64 1) ≠ ofUInt64 0 ↔
      input.bits.toNat.testBit place = true := by
  have one : (ofUInt64 1).bits = 1#128 := by decide
  have zero : (ofUInt64 0).bits = 0#128 := by decide
  have lowest (other : Nat) (bound : other < 128) :
      ((input.shiftRight (ofUInt64 place)).and (ofUInt64 1)).bits.getLsbD other =
        (decide (other = 0) && input.bits.toNat.testBit place) := by
    rw [bits_and, BitVec.getLsbD_and, getLsbD_shiftRight input inside, one, BitVec.getLsbD_one]
    by_cases first : other = 0
    · rw [first]
      simp [BitVec.getLsbD]
    · simp [first]
  constructor
  · intro nonzero
    by_contra unset
    refine nonzero (bits_injective (BitVec.eq_of_getLsbD_eq fun other bound => ?_))
    rw [lowest other bound, Bool.eq_false_iff.mpr unset, Bool.and_false, zero,
      BitVec.getLsbD_zero]
  · intro set empty
    have here := lowest 0 (by decide)
    rw [empty, zero, set] at here
    exact absurd here (by decide)

/-- A word is shifted out after as many rounds as it has bits. -/
theorem lt_bitCount (input : Uhugeint) :
    input.bits.toNat < 2 ^ input.bitCount ∧ input.bitCount ≤ 128 := by
  rw [bitCount, toNat_bits]
  split
  · obtain ⟨rounds, same, small, few⟩ := Hugeint.shiftOut_spec 64 input.upper 64 input.upper.isLt
    rw [same, Nat.pow_add]
    refine ⟨?_, by omega⟩
    calc input.upper.toNat * 2 ^ 64 + input.lower.toNat
        < (input.upper.toNat + 1) * 2 ^ 64 := by
          omega
      _ ≤ 2 ^ rounds * 2 ^ 64 := Nat.mul_le_mul_right _ small
      _ = 2 ^ 64 * 2 ^ rounds := Nat.mul_comm _ _
  · rename_i zero
    rw [not_not] at zero
    obtain ⟨rounds, same, small, few⟩ := Hugeint.shiftOut_spec 64 input.lower 0 input.lower.isLt
    rw [same, zero, Nat.zero_add]
    refine ⟨?_, by omega⟩
    simpa using small

/-- The loop leaves the remainder of the bits that it has seen. -/
theorem divModLoop_remainder {idx : Nat} {result remainder : Uhugeint} (few : idx ≤ 128)
    (positive : 0 < rhs.bits.toNat) (small : rhs.bits.toNat ≤ 2 ^ 127)
    (seen : remainder.bits.toNat = lhs.bits.toNat / 2 ^ idx % rhs.bits.toNat) :
    (divModLoop lhs rhs idx result remainder).2.bits.toNat =
      lhs.bits.toNat % rhs.bits.toNat := by
  induction idx generalizing result remainder with
  | zero => simpa [divModLoop] using seen
  | succ idx ih =>
      have less : remainder.bits.toNat < rhs.bits.toNat := by
        rw [seen]
        exact Nat.mod_lt _ positive
      have next : lhs.bits.toNat / 2 ^ idx % rhs.bits.toNat =
          (2 * remainder.bits.toNat + (lhs.bits.toNat.testBit idx).toNat) % rhs.bits.toNat := by
        rw [Hugeint.div_pow_eq, seen, ← Nat.mod_add_mod (2 * _), ← Nat.mod_add_mod (2 * (_ % _)),
          Nat.mul_mod_mod]
      obtain ⟨extended, hextended, value⟩ : ∃ extended,
          (if ((lhs.shiftRight (ofUInt64 idx)).and (ofUInt64 1) ≠ ofUInt64 0) then
            (remainder.shiftLeft (ofUInt64 1)).add (ofUInt64 1)
          else remainder.shiftLeft (ofUInt64 1)) = extended ∧
          extended.bits.toNat =
            2 * remainder.bits.toNat + (lhs.bits.toNat.testBit idx).toNat := by
        have doubled := @toNat_shiftLeft_one remainder (by omega)
        refine ⟨_, rfl, ?_⟩
        by_cases bit : lhs.bits.toNat.testBit idx = true
        · have one : (ofUInt64 1).bits.toNat = 1 := toNat_bits_ofUInt64 (by decide)
          rw [if_pos ((bit_ne_zero_iff lhs (by omega)).mpr bit), toNat_add (by omega), doubled,
            one, bit, Bool.toNat_true]
        · rw [if_neg (fun set => bit ((bit_ne_zero_iff lhs (by omega)).mp set)), doubled,
            Bool.eq_false_iff.mpr bit, Bool.toNat_false, Nat.add_zero]
      rw [divModLoop, hextended]
      have bitLe := Bool.toNat_le (lhs.bits.toNat.testBit idx)
      by_cases passed : extended.greaterThanEquals rhs = true
      · rw [if_pos passed]
        rw [greaterThanEquals_iff] at passed
        refine ih (by omega) ?_
        rw [toNat_sub passed, next, ← value, Nat.mod_eq_sub_mod passed,
          Nat.mod_eq_of_lt (by omega)]
      · rw [if_neg passed]
        rw [greaterThanEquals_iff] at passed
        refine ih (by omega) ?_
        rw [next, ← value, Nat.mod_eq_of_lt (by omega)]

/-- `operator%` gives the remainder of division by a number without the highest bit. -/
theorem toNat_modulo (positive : 0 < rhs.bits.toNat) (small : rhs.bits.toNat ≤ 2 ^ 127) :
    (lhs.modulo rhs).bits.toNat = lhs.bits.toNat % rhs.bits.toNat := by
  have zero : (ofUInt64 0).bits.toNat = 0 := toNat_bits_ofUInt64 (by decide)
  have one : (ofUInt64 1).bits.toNat = 1 := toNat_bits_ofUInt64 (by decide)
  rw [modulo, divMod]
  split
  · rename_i none
    rw [none] at positive
    omega
  split
  · rename_i unit
    rw [unit, one, Nat.mod_one]
    exact zero
  split
  · rename_i same
    rw [same, Nat.mod_self]
    exact zero
  split
  · rename_i less
    have less : lhs.bits.toNat < rhs.bits.toNat := by
      rcases less with same | less
      · rw [same, zero]
        exact positive
      · exact lessThan_iff.mp less
    exact (Nat.mod_eq_of_lt less).symm
  · obtain ⟨few, bound⟩ := lt_bitCount lhs
    refine divModLoop_remainder bound positive small ?_
    rw [zero, Nat.div_eq_of_lt few, Nat.zero_mod]

/-! ## Powers of two -/

theorem toNat_one_shiftLeft (small : shift < 128) :
    ((ofUInt64 1).shiftLeft (ofUInt64 shift)).bits.toNat = 2 ^ shift := by
  have same : ((ofUInt64 1).shiftLeft (ofUInt64 shift)).bits = BitVec.twoPow 128 shift := by
    have one : (ofUInt64 1).bits = 1#128 := by decide
    apply BitVec.eq_of_getLsbD_eq
    intro place inside
    rw [getLsbD_shiftLeft _ small, one, BitVec.getLsbD_one, BitVec.getLsbD_twoPow]
    grind
  rw [same, BitVec.toNat_twoPow, Nat.mod_eq_of_lt (Nat.pow_lt_pow_right (by decide) small)]

/-- A power of two less one is a mask for the bits below. -/
theorem getLsbD_mask (small : shift < 128) (place : Nat) :
    (((ofUInt64 1).shiftLeft (ofUInt64 shift)).sub (ofUInt64 1)).bits.getLsbD place =
      decide (place < shift) := by
  have one : (ofUInt64 1).bits.toNat = 1 := toNat_bits_ofUInt64 (by decide)
  rw [BitVec.getLsbD, toNat_sub, toNat_one_shiftLeft small, one, Nat.testBit_two_pow_sub_one]
  rw [toNat_one_shiftLeft small, one]
  exact Nat.one_le_two_pow

/-- The remainder by a power of two keeps the bits below. -/
theorem getLsbD_modulo (small : shift < 128) (place : Nat) :
    (lhs.modulo ((ofUInt64 1).shiftLeft (ofUInt64 shift))).bits.getLsbD place =
      (decide (place < shift) && lhs.bits.getLsbD place) := by
  rw [BitVec.getLsbD, toNat_modulo, toNat_one_shiftLeft small, Nat.testBit_mod_two_pow]
  · rfl
  · rw [toNat_one_shiftLeft small]
    exact Nat.two_pow_pos shift
  · rw [toNat_one_shiftLeft small]
    exact Nat.pow_le_pow_right (by decide) (by omega)

theorem getLsbD_toUInt32 (input : Uhugeint) (place : Nat) :
    input.toUInt32.getLsbD place = (decide (place < 32) && input.bits.getLsbD place) := by
  rw [toUInt32, BitVec.getLsbD_setWidth, getLsbD_bits]
  by_cases inside : place < 32
  · rw [if_pos (by omega)]
  · simp [inside]

theorem getLsbD_ofUInt32 (value : BitVec 32) (place : Nat) :
    (ofUInt32 value).bits.getLsbD place = value.getLsbD place := by
  rw [getLsbD_bits, ofUInt32]
  split
  · rename_i inside
    rw [BitVec.getLsbD_setWidth, decide_eq_true inside, Bool.true_and]
  · rw [BitVec.getLsbD_of_ge value place (by omega)]
    exact BitVec.getLsbD_zero

end Uhugeint

end StatsRecommender
