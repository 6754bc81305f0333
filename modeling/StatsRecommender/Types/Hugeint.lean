import StatsRecommender.Library.SignedWords

/-!
# 128-bit integers

`hugeint_t` as a signed upper and an unsigned lower word, with its arithmetic.  A signed operation
on words that overflows is an error; `none` is the `false` of the `Try` functions.
-/

namespace StatsRecommender

open SignedWords

/-- `hugeint_t`. -/
structure Hugeint where
  upper : BitVec 64
  lower : BitVec 64
  deriving DecidableEq, Repr

namespace Hugeint

/-- The number that the two words stand for. -/
def value (input : Hugeint) : Int := input.upper.toInt * 2 ^ 64 + input.lower.toNat

/-- `NumericLimits<hugeint_t>::Minimum`. -/
def minimum : Hugeint := ⟨BitVec.intMin 64, 0⟩

/-- A comparison that is used as a number. -/
def flag (condition : Bool) : BitVec 64 := if condition then 1 else 0

/-- The constructor from an `int64_t`. -/
def ofInt64 (value : BitVec 64) : Hugeint := ⟨if value.slt 0 then -1 else 0, value⟩

/-! ## Comparisons -/

def greaterThan (lhs rhs : Hugeint) : Bool :=
  rhs.upper.slt lhs.upper || (lhs.upper == rhs.upper && rhs.lower < lhs.lower)

def greaterThanEquals (lhs rhs : Hugeint) : Bool :=
  rhs.upper.slt lhs.upper || (lhs.upper == rhs.upper && rhs.lower ≤ lhs.lower)

def lessThan (lhs rhs : Hugeint) : Bool :=
  lhs.upper.slt rhs.upper || (lhs.upper == rhs.upper && lhs.lower < rhs.lower)

/-! ## Sums, differences and negation -/

/-- `hugeint_t::operator+`. -/
def add (lhs rhs : Hugeint) : Except String Hugeint := do
  let upper ← signedAdd lhs.upper rhs.upper
  let upper ← signedAdd upper (flag (lhs.lower + rhs.lower < lhs.lower))
  pure ⟨upper, lhs.lower + rhs.lower⟩

/-- `hugeint_t::operator-`. -/
def sub (lhs rhs : Hugeint) : Except String Hugeint := do
  let upper ← signedSub lhs.upper rhs.upper
  let upper ← signedSub upper (flag (lhs.lower < lhs.lower - rhs.lower))
  pure ⟨upper, lhs.lower - rhs.lower⟩

/-- `Hugeint::TryAddInPlace`. -/
def tryAddInPlace (lhs rhs : Hugeint) : Except String (Option Hugeint) := do
  let overflow := flag (lhs.lower + rhs.lower < lhs.lower)
  if (0 : BitVec 64).sle rhs.upper then
    let bound ← signedSub (BitVec.intMax 64) rhs.upper
    let bound ← signedSub bound overflow
    if bound.slt lhs.upper then pure none
    else
      let upper ← signedAdd lhs.upper overflow
      let upper ← signedAdd upper rhs.upper
      pure (some ⟨upper, lhs.lower + rhs.lower⟩)
  else
    let bound ← signedSub (BitVec.intMin 64) rhs.upper
    let bound ← signedSub bound overflow
    if lhs.upper.slt bound then pure none
    else
      let addend ← signedAdd overflow rhs.upper
      let upper ← signedAdd lhs.upper addend
      pure (some ⟨upper, lhs.lower + rhs.lower⟩)

/-- `Hugeint::TrySubtractInPlace`. -/
def trySubtractInPlace (lhs rhs : Hugeint) : Except String (Option Hugeint) := do
  let underflow := flag (lhs.lower < lhs.lower - rhs.lower)
  if (0 : BitVec 64).sle rhs.upper then
    let bound ← signedAdd (BitVec.intMin 64) rhs.upper
    let bound ← signedAdd bound underflow
    if lhs.upper.slt bound then pure none
    else
      let upper ← signedSub lhs.upper rhs.upper
      let upper ← signedSub upper underflow
      pure (some ⟨upper, lhs.lower - rhs.lower⟩)
  else
    -- the right side of `&&` is evaluated only where the left one holds
    let overflows ←
      if (BitVec.intMin 64).slt lhs.upper then do
        let less ← signedSub lhs.upper 1
        let bound ← signedAdd (BitVec.intMax 64) rhs.upper
        let bound ← signedAdd bound underflow
        pure (bound.sle less)
      else pure false
    if overflows then pure none
    else
      let subtrahend ← signedAdd rhs.upper underflow
      let upper ← signedSub lhs.upper subtrahend
      pure (some ⟨upper, lhs.lower - rhs.lower⟩)

/-- `Hugeint::NegateInPlace<false>`. -/
def negateInPlace (input : Hugeint) : Except String Hugeint := do
  let lower := BitVec.allOnes 64 - input.lower + 1
  let upper ← signedSub (-1) input.upper
  let upper ← signedAdd upper (flag (lower == 0))
  pure ⟨upper, lower⟩

/-- `Hugeint::TryNegate`. -/
def tryNegate (input : Hugeint) : Except String (Option Hugeint) :=
  if input.upper = BitVec.intMin 64 ∧ input.lower = 0 then pure none
  else do
    let result ← input.negateInPlace
    pure (some result)

/-! ## Products -/

/-- The words as an `__uint128_t`. -/
def toUInt128 (input : Hugeint) : BitVec 128 :=
  input.lower.setWidth 128 + (input.upper.signExtend 128 <<< 64)

/-- An `__uint128_t` as two words. -/
def ofUInt128 (product : BitVec 128) : Hugeint :=
  ⟨(product >>> 64).setWidth 64, (product &&& 0xffffffffffffffff).setWidth 64⟩

/-- The product of two positive numbers where the compiler has 128-bit integers. -/
def multiplyWide (lhs rhs : Hugeint) : Option Hugeint :=
  if lhs.toUInt128.umulOverflow rhs.toUInt128 then none
  else
    let result := ofUInt128 (lhs.toUInt128 * rhs.toUInt128)
    if result.upper &&& 0x8000000000000000 ≠ 0 then none else some result

/-- The mask of the lower 32 bits. -/
def low32 : BitVec 64 := 0xffffffff

/-- The 32-bit parts of a positive number, the highest one first. -/
def part (input : Hugeint) : Nat → BitVec 64
  | 0 => input.upper >>> 32
  | 1 => input.upper &&& low32
  | 2 => input.lower >>> 32
  | _ => input.lower &&& low32

/-- The products of the parts, merged in order and with their carries, the highest digit first. -/
def mergeParts (lhs rhs : Hugeint) : BitVec 64 × BitVec 64 × BitVec 64 × BitVec 64 :=
  let products := fun x y => lhs.part x * rhs.part y
  -- first row
  let fourth32 := products 3 3 &&& low32
  let third32 := (products 3 2 &&& low32) + (products 3 3 >>> 32)
  let second32 := (products 3 1 &&& low32) + (products 3 2 >>> 32)
  let first32 := (products 3 0 &&& low32) + (products 3 1 >>> 32)
  -- second row
  let third32 := third32 + (products 2 3 &&& low32)
  let second32 := second32 + ((products 2 2 &&& low32) + (products 2 3 >>> 32))
  let first32 := first32 + ((products 2 1 &&& low32) + (products 2 2 >>> 32))
  -- third row
  let second32 := second32 + (products 1 3 &&& low32)
  let first32 := first32 + ((products 1 2 &&& low32) + (products 1 3 >>> 32))
  -- fourth row
  let first32 := first32 + (products 0 3 &&& low32)
  -- move carry to next digit
  let third32 := third32 + (fourth32 >>> 32)
  let second32 := second32 + (third32 >>> 32)
  let first32 := first32 + (second32 >>> 32)
  (first32, second32, third32, fourth32)

/-- The digits without their carries, combined. -/
def combineParts (digits : BitVec 64 × BitVec 64 × BitVec 64 × BitVec 64) : Hugeint :=
  ⟨((digits.1 &&& low32) <<< 32) ||| (digits.2.1 &&& low32),
    ((digits.2.2.1 &&& low32) <<< 32) ||| (digits.2.2.2 &&& low32)⟩

/-- The product of two positive numbers where it has not. -/
def multiplyParts (lhs rhs : Hugeint) : Option Hugeint :=
  let products := fun x y => lhs.part x * rhs.part y
  if products 0 0 ≠ 0 ∨ products 0 1 ≠ 0 ∨ products 0 2 ≠ 0 ∨ products 1 0 ≠ 0 ∨
      products 2 0 ≠ 0 ∨ products 1 1 ≠ 0 then none
  else if products 0 3 &&& 0xffffffff80000000 ≠ 0 ∨ products 1 2 &&& 0xffffffff80000000 ≠ 0 ∨
      products 2 1 &&& 0xffffffff80000000 ≠ 0 ∨ products 3 0 &&& 0xffffffff80000000 ≠ 0 then none
  else if (mergeParts lhs rhs).1 &&& 0xffffff80000000 ≠ 0 then none
  else some (combineParts (mergeParts lhs rhs))

/-- The product of two positive numbers; `wide` stands for the preprocessor's condition. -/
def multiplyPositive (wide : Bool) (lhs rhs : Hugeint) : Option Hugeint :=
  if wide then lhs.multiplyWide rhs else lhs.multiplyParts rhs

/-- The unchecked product of two positive numbers. -/
def multiplyPositiveUnchecked (wide : Bool) (lhs rhs : Hugeint) : Hugeint :=
  if wide then ofUInt128 (lhs.toUInt128 * rhs.toUInt128) else combineParts (mergeParts lhs rhs)

/-- A negative factor is negated by `TryNegate`. -/
def tryNegateNegative (input : Hugeint) : Except String (Option Hugeint) :=
  if input.upper.slt 0 then input.tryNegate else pure (some input)

/-- `Hugeint::TryMultiply`. -/
def tryMultiply (wide : Bool) (lhs rhs : Hugeint) : Except String (Option Hugeint) := do
  if lhs = minimum ∨ rhs = minimum then
    if lhs = ofInt64 0 ∨ rhs = ofInt64 0 then return some (ofInt64 0)
    if lhs = ofInt64 1 ∨ rhs = ofInt64 1 then return some minimum
    return none
  let lhsNegative := lhs.upper.slt 0
  let rhsNegative := rhs.upper.slt 0
  match ← lhs.tryNegateNegative with
  | none => pure none
  | some lhs =>
      match ← rhs.tryNegateNegative with
      | none => pure none
      | some rhs =>
          match multiplyPositive wide lhs rhs with
          | none => pure none
          | some result =>
              if lhsNegative ^^ rhsNegative then do
                let result ← result.negateInPlace
                pure (some result)
              else pure (some result)

/-! ## Quotients -/

/-- The loop of `PositiveHugeintHighestBit` over a word. -/
def shiftOut (word : BitVec 64) : Nat → Nat → Nat
  | 0, out => out
  | fuel + 1, out => if word = 0 then out else shiftOut (word >>> 1) fuel (out + 1)

/-- `PositiveHugeintHighestBit`; a word is shifted out after 64 rounds. -/
def positiveHighestBit (bits : Hugeint) : Nat :=
  if bits.upper ≠ 0 then shiftOut bits.upper 64 64 else shiftOut bits.lower 64 0

/-- `PositiveHugeintIsBitSet`. -/
def positiveIsBitSet (lhs : Hugeint) (bitPosition : Nat) : Bool :=
  if bitPosition < 64 then lhs.lower &&& (1#64 <<< bitPosition) ≠ 0
  else lhs.upper &&& (1#64 <<< (bitPosition - 64)) ≠ 0

/-- `PositiveHugeintLeftShift`. -/
def positiveLeftShift (lhs : Hugeint) (amount : Nat) : Hugeint :=
  ⟨(lhs.upper <<< amount) + (lhs.lower >>> (64 - amount)), lhs.lower <<< amount⟩

/-- The increment where a bit of the dividend is set. -/
def addBit (input : Hugeint) (bit : Bool) : Except String Hugeint :=
  if bit then input.add (ofInt64 1) else pure input

/-- The loop of `DivMod` over the lowest bits of `lhs`, for the result and the remainder. -/
def divModLoop (lhs rhs : Hugeint) : Nat → Hugeint → Hugeint → Except String (Hugeint × Hugeint)
  | 0, divResult, remainder => pure (divResult, remainder)
  | x + 1, divResult, remainder => do
      let divResult := divResult.positiveLeftShift 1
      let remainder := remainder.positiveLeftShift 1
      let remainder ← remainder.addBit (lhs.positiveIsBitSet x)
      if remainder.greaterThanEquals rhs then do
        let remainder ← remainder.sub rhs
        let divResult ← divResult.add (ofInt64 1)
        divModLoop lhs rhs x divResult remainder
      else divModLoop lhs rhs x divResult remainder

def negateIf (condition : Bool) (input : Hugeint) : Except String Hugeint :=
  if condition then input.negateInPlace else pure input

/-- `Hugeint::DivMod` for numbers that can be negated. -/
def divModNegatable (lhs rhs : Hugeint) : Except String (Hugeint × Hugeint) := do
  let lhsNegative := lhs.upper.slt 0
  let rhsNegative := rhs.upper.slt 0
  let lhs ← negateIf lhsNegative lhs
  let rhs ← negateIf rhsNegative rhs
  let (divResult, remainder) ← divModLoop lhs rhs lhs.positiveHighestBit ⟨0, 0⟩ ⟨0, 0⟩
  let divResult ← negateIf (lhsNegative ^^ rhsNegative) divResult
  let remainder ← negateIf lhsNegative remainder
  pure (divResult, remainder)

/-- `Hugeint::Multiply<false>`. -/
def multiply (wide : Bool) (lhs rhs : Hugeint) : Except String Hugeint := do
  let lhsNegative := lhs.upper.slt 0
  let rhsNegative := rhs.upper.slt 0
  let lhs ← negateIf lhsNegative lhs
  let rhs ← negateIf rhsNegative rhs
  negateIf (lhsNegative ^^ rhsNegative) (multiplyPositiveUnchecked wide lhs rhs)

/-- `Sign`. -/
def sign (n : Hugeint) : Hugeint :=
  ofInt64 (flag (n.greaterThan (ofInt64 0)) - flag (n.lessThan (ofInt64 0)))

/-- `Abs`. -/
def abs (wide : Bool) (n : Hugeint) : Except String Hugeint := multiply wide n n.sign

/-- `DivModMinimum`, with the `DivMod` that it calls. -/
def divModMinimum (wide : Bool) (divMod : Hugeint → Hugeint → Except String (Hugeint × Hugeint))
    (lhs rhs : Hugeint) : Except String (Hugeint × Hugeint) := do
  if rhs = minimum then
    if lhs = minimum then return (ofInt64 1, ofInt64 0)
    return (ofInt64 0, lhs)
  let larger ← minimum.add (ofInt64 1)
  let (result, remainder) ← divMod larger rhs
  let distance ← (← remainder.abs wide).add (ofInt64 1)
  if distance = (← rhs.abs wide) then do
    let result ← result.sub rhs.sign
    pure (result, ofInt64 0)
  else do
    let remainder ← remainder.sub (ofInt64 1)
    pure (result, remainder)

/-- `Hugeint::DivMod` that calls itself at most `depth` times. -/
def divModWithin (wide : Bool) : Nat → Hugeint → Hugeint → Except String (Hugeint × Hugeint)
  | 0, _, _ => .error "recursion"
  | depth + 1, lhs, rhs =>
      if rhs = ofInt64 0 then pure (ofInt64 0, lhs)
      else if lhs = minimum ∨ rhs = minimum then divModMinimum wide (divModWithin wide depth) lhs rhs
      else divModNegatable lhs rhs

/-- `Hugeint::DivMod`: the number that `DivModMinimum` calls it with is not the minimum. -/
def divMod (wide : Bool) (lhs rhs : Hugeint) : Except String (Hugeint × Hugeint) :=
  divModWithin wide 2 lhs rhs

/-- `Hugeint::TryDivMod`. -/
def tryDivMod (wide : Bool) (lhs rhs : Hugeint) :
    Except String (Option (Hugeint × Hugeint)) := do
  if rhs = ofInt64 0 then return none
  if lhs = minimum ∧ rhs = ofInt64 (-1) then return none
  let result ← divMod wide lhs rhs
  return some result

end Hugeint

end StatsRecommender
