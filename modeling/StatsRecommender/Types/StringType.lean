import StatsRecommender.Library.ByteMemory
import StatsRecommender.Library.ByteOrder
import StatsRecommender.Types.Payload

/-!
# Strings

`string_t`: four bytes of length and twelve bytes that hold a short string, or a prefix and the
pointer of a long one, and the comparisons that read these bytes as words.
-/

namespace StatsRecommender

open ByteMemory ByteOrder

/-- `PREFIX_BYTES`. -/
def stringPrefixBytes : Nat := 4

/-- `INLINE_BYTES`, which is `INLINE_LENGTH` too. -/
def stringInlineBytes : Nat := 12

/-- The bytes of a range of the memory. -/
def readBytes (memory : Memory) (address size : Nat) : List UInt8 :=
  (List.range size).map fun index => memory (address + index)

/-- `memcpy` and `memset` into a row of bytes, of what lies within the row. -/
def overwrite (target : List UInt8) (offset : Nat) (source : List UInt8) : List UInt8 :=
  target.take offset ++ source.take (target.length - offset) ++ target.drop (offset + source.length)

theorem length_overwrite (target : List UInt8) (offset : Nat) (source : List UInt8) :
    (overwrite target offset source).length = target.length := by
  simp only [overwrite, List.length_append, List.length_take, List.length_drop]
  omega

/-- `Load` of a word of some bytes. -/
def load (width : Nat) (bytes : List UInt8) : BitVec (8 * width) :=
  BitVec.ofNat (8 * width) (littleEndian (bytes.take width))

/-- The bytes of a word. -/
def wordBytes : Nat → Nat → List UInt8
  | 0, _ => []
  | width + 1, word => UInt8.ofNat word :: wordBytes width (word / 256)

/-- `string_t`; the prefix is the first four of the inlined bytes and the pointer the other eight. -/
structure StringT where
  length : BitVec 32
  inlined : List UInt8
  width : inlined.length = stringInlineBytes

namespace StringT

/-- `GetSize`. -/
def getSize (value : StringT) : Nat := value.length.toNat

/-- `IsInlined`. -/
def isInlined (value : StringT) : Bool := value.getSize ≤ stringInlineBytes

/-- `value.pointer.ptr`. -/
def pointer (value : StringT) : BitVec 64 := load 8 (value.inlined.drop stringPrefixBytes)

/-- The sixteen bytes of the object. -/
def bytes (value : StringT) : List UInt8 := wordBytes 4 value.length.toNat ++ value.inlined

/-- The first bytes behind `GetData`. -/
def getData (memory : Memory) (value : StringT) (size : Nat) : List UInt8 :=
  if value.isInlined then value.inlined.take size
  else readBytes memory value.pointer.toNat size

/-- Bytes that are copied into the inlined bytes. -/
def write (value : StringT) (offset : Nat) (source : List UInt8) : StringT where
  length := value.length
  inlined := overwrite value.inlined offset source
  width := (length_overwrite _ _ _).trans value.width

/-- The length of an object that holds some bytes already. -/
def withLength (value : StringT) (length : BitVec 32) : StringT where
  length := length
  inlined := value.inlined
  width := value.width

/-- The constructor from data and a length, over an object that is not initialised. -/
def construct (memory : Memory) (data : BitVec 64) (len : BitVec 32) (before : StringT) :
    StringT :=
  let value := before.withLength len
  if value.isInlined then
    let value := value.write 0 (List.replicate stringInlineBytes 0)
    if value.getSize = 0 then value
    else value.write 0 (readBytes memory data.toNat value.getSize)
  else
    let value := value.write 0 (readBytes memory data.toNat stringPrefixBytes)
    value.write stringPrefixBytes (wordBytes 8 data.toNat)

/-- `Finalize`. -/
def finalize (memory : Memory) (value : StringT) : StringT :=
  if value.getSize ≤ stringInlineBytes then
    value.write value.getSize (List.replicate (stringInlineBytes - value.getSize) 0)
  else value.write 0 (value.getData memory stringPrefixBytes)

/-- `SetSizeAndFinalize`. -/
def setSizeAndFinalize (memory : Memory) (value : StringT) (size : BitVec 32)
    (allocatedSize : Nat) : StringT :=
  let value := value.withLength size
  let value :=
    if allocatedSize > stringInlineBytes && value.isInlined then
      value.write 0 (readBytes memory value.pointer.toNat value.getSize)
    else value
  value.finalize memory

/-! ## Comparisons -/

/-- `StringComparisonOperators::Equals`. -/
def equals (memory : Memory) (a b : StringT) : Bool :=
  if load 8 a.bytes ≠ load 8 b.bytes then false
  else if load 8 (a.bytes.drop 8) = load 8 (b.bytes.drop 8) then true
  else
    !a.isInlined &&
      stringComparison (readBytes memory a.pointer.toNat a.getSize)
        (readBytes memory b.pointer.toNat a.getSize) == .eq

/-- The `byte_swap` of a prefix. -/
def byteSwap (v : BitVec 32) : BitVec 32 :=
  let t1 := (v >>> 16) ||| (v <<< 16)
  let t2 := t1 &&& 0x00ff00ff#32
  let t3 := t1 &&& 0xff00ff00#32
  (t2 <<< 8) ||| (t3 >>> 8)

/-- `StringComparisonOperators::GreaterThan`. -/
def greaterThan (memory : Memory) (left right : StringT) : Bool :=
  let minLength := min left.getSize right.getSize
  let aPrefix := load 4 left.inlined
  let bPrefix := load 4 right.inlined
  if aPrefix ≠ bPrefix then byteSwap bPrefix < byteSwap aPrefix
  else
    let memcmpRes :=
      stringComparison (left.getData memory minLength) (right.getData memory minLength)
    memcmpRes == .gt || (memcmpRes == .eq && right.getSize < left.getSize)

end StringT

end StatsRecommender
