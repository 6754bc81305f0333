import StatsRecommender.Types.Uhugeint

/-!
# Bitpacking of 128-bit integers

`HugeIntPacker`: groups of 32 values are written one behind the other into 32-bit words, each with
the same number of bits, and read back.
-/

namespace StatsRecommender

open BitWords

/-- The words around a running pointer, with the positions that were read or written. -/
@[ext] structure WordBuffer where
  words : Words 32
  pointer : Nat
  touched : List Nat

namespace HugeIntPacker

open Uhugeint

/-- Code that works on a buffer. -/
abbrev Buffered := StateM WordBuffer

/-- `BITPACKING_ALGORITHM_GROUP_SIZE`. -/
def groupSize : Nat := 32

/-- The word behind the pointer. -/
def load (offset : Nat) : Buffered (BitVec 32) := fun buffer =>
  (buffer.words (buffer.pointer + offset),
    { buffer with touched := buffer.touched ++ [buffer.pointer + offset] })

/-- `out[offset] = word`. -/
def store (offset : Nat) (word : BitVec 32) : Buffered Unit := fun buffer =>
  ((), { buffer with
    words := setWord buffer.words (buffer.pointer + offset) word
    touched := buffer.touched ++ [buffer.pointer + offset] })

/-- `out[offset] |= word`. -/
def storeOr (offset : Nat) (word : BitVec 32) : Buffered Unit := fun buffer =>
  store offset (buffer.words (buffer.pointer + offset) ||| word) buffer

/-- `out += count`. -/
def advance (count : Nat) : Buffered Unit := fun buffer =>
  ((), { buffer with pointer := buffer.pointer + count })

/-! ## Unpacking -/

/-- A word as a number of 128 bits, moved to the right or to the left. -/
def wordRight (word : BitVec 32) (shift : Nat) : Uhugeint :=
  (ofUInt32 word).shiftRight (ofUInt64 shift)

def wordLeft (word : BitVec 32) (shift : Nat) : Uhugeint :=
  (ofUInt32 word).shiftLeft (ofUInt64 shift)

/-- `UnpackSingle`. -/
def unpackSingle (delta shr : Nat) : Buffered Uhugeint := do
  if delta + shr < 32 then
    let first ← load 0
    return (wordRight first shr).modulo ((ofUInt64 1).shiftLeft (ofUInt64 delta))
  else if 32 ≤ delta + shr ∧ delta + shr < 64 then
    let first ← load 0
    let out := wordRight first shr
    advance 1
    if 32 < delta + shr then
      let nextShr := shr + delta - 32
      let next ← load 0
      return out.or (wordLeft (next % (1#32 <<< nextShr)) (32 - shr))
    else return out
  else if 64 ≤ delta + shr ∧ delta + shr < 96 then
    let first ← load 0
    let out := wordRight first shr
    let second ← load 1
    let out := out.or (wordLeft second (32 - shr))
    advance 2
    if 64 < delta + shr then
      let nextShr := delta + shr - 64
      let next ← load 0
      return out.or (wordLeft (next % (1#32 <<< nextShr)) (64 - shr))
    else return out
  else if 96 ≤ delta + shr ∧ delta + shr < 128 then
    let first ← load 0
    let out := wordRight first shr
    let second ← load 1
    let out := out.or (wordLeft second (32 - shr))
    let third ← load 2
    let out := out.or (wordLeft third (64 - shr))
    advance 3
    if 96 < delta + shr then
      let nextShr := delta + shr - 96
      let next ← load 0
      return out.or (wordLeft (next % (1#32 <<< nextShr)) (96 - shr))
    else return out
  else
    let first ← load 0
    let out := wordRight first shr
    let second ← load 1
    let out := out.or (wordLeft second (32 - shr))
    let third ← load 2
    let out := out.or (wordLeft third (64 - shr))
    let fourth ← load 3
    let out := out.or (wordLeft fourth (96 - shr))
    advance 4
    if 128 < delta + shr then
      let nextShr := delta + shr - 128
      let next ← load 0
      return out.or (wordLeft (next % (1#32 <<< nextShr)) (128 - shr))
    else return out

/-- A later word that is joined with the words before where the width is above a bound. -/
def joinAbove (delta bound offset shift : Nat) (out : Uhugeint) : Buffered Uhugeint :=
  if bound < delta then do
    let word ← load offset
    return out.or (wordLeft word shift)
  else return out

/-- `UnpackLast`. -/
def unpackLast (delta : Nat) : Buffered Uhugeint := do
  let shift := (delta * 31) % 32
  let first ← load 0
  let out := ofUInt32 (first >>> shift)
  let out ← joinAbove delta 32 1 (32 - shift) out
  let out ← joinAbove delta 64 2 (64 - shift) out
  joinAbove delta 96 3 (96 - shift) out

/-- The words of a value that fills whole words, from the first to a last one. -/
def unpackWords (offset : Nat) : Nat → Buffered Uhugeint
  | 0 => do return ofUInt32 (← load offset)
  | last + 1 => do
      let out ← unpackWords offset last
      let next ← load (offset + (last + 1))
      return out.or (wordLeft next (32 * (last + 1)))

/-- The loop of `UnpackDelta32` and of the functions for more words. -/
def unpackDelta (wordCount : Nat) (out : Nat → Uhugeint) : Nat → Buffered (Nat → Uhugeint)
  | 0 => return out
  | i + 1 => do
      let out ← unpackDelta wordCount out i
      let value ← unpackWords (wordCount * i) (wordCount - 1)
      return Function.update out i value

/-- `UnpackDelta0`, for the first values. -/
def unpackDelta0 (out : Nat → Uhugeint) : Nat → Nat → Uhugeint
  | 0 => out
  | i + 1 => Function.update (unpackDelta0 out i) i (ofUInt64 0)

def unpackDelta32 (out : Nat → Uhugeint) : Buffered (Nat → Uhugeint) := unpackDelta 1 out 32

def unpackDelta64 (out : Nat → Uhugeint) : Buffered (Nat → Uhugeint) := unpackDelta 2 out 32

def unpackDelta96 (out : Nat → Uhugeint) : Buffered (Nat → Uhugeint) := unpackDelta 3 out 32

def unpackDelta128 (out : Nat → Uhugeint) : Buffered (Nat → Uhugeint) := unpackDelta 4 out 32

/-! ## Packing -/

/-- The first word of a value, which is a new word or joined with the value before. -/
def storeFirst (fresh joined : Uhugeint) (shl : Nat) : Buffered Unit :=
  if shl = 0 then store 0 fresh.toUInt32
  else storeOr 0 (joined.shiftLeft (ofUInt64 shl)).toUInt32

/-- `PackSingle`. -/
def packSingle (input : Uhugeint) (delta shl : Nat) (mask : Uhugeint) : Buffered Unit := do
  if delta + shl < 32 then
    storeFirst (input.and mask) (input.and mask) shl
  else if 32 ≤ delta + shl ∧ delta + shl < 64 then
    storeFirst (input.and mask) (input.and mask) shl
    advance 1
    if 32 < delta + shl then
      store 0 ((input.and mask).shiftRight (ofUInt64 (32 - shl))).toUInt32
  else if 64 ≤ delta + shl ∧ delta + shl < 96 then
    storeFirst (input.and mask) input shl
    store 1 ((input.and mask).shiftRight (ofUInt64 (32 - shl))).toUInt32
    advance 2
    if 64 < delta + shl then
      store 0 ((input.and mask).shiftRight (ofUInt64 (64 - shl))).toUInt32
  else if 96 ≤ delta + shl ∧ delta + shl < 128 then
    storeFirst (input.and mask) input shl
    store 1 ((input.and mask).shiftRight (ofUInt64 (32 - shl))).toUInt32
    store 2 ((input.and mask).shiftRight (ofUInt64 (64 - shl))).toUInt32
    advance 3
    if 96 < delta + shl then
      store 0 ((input.and mask).shiftRight (ofUInt64 (96 - shl))).toUInt32
  else
    -- `shl` is not zero here: 128 bits are packed by `packDelta128`
    storeOr 0 (input.shiftLeft (ofUInt64 shl)).toUInt32
    store 1 ((input.and mask).shiftRight (ofUInt64 (32 - shl))).toUInt32
    store 2 ((input.and mask).shiftRight (ofUInt64 (64 - shl))).toUInt32
    store 3 ((input.and mask).shiftRight (ofUInt64 (96 - shl))).toUInt32
    advance 4
    if 128 < delta + shl then
      store 0 ((input.and mask).shiftRight (ofUInt64 (128 - shl))).toUInt32

/-- A later word that is stored where the width is above a bound. -/
def storeAbove (delta bound offset : Nat) (word : BitVec 32) : Buffered Unit :=
  if bound < delta then store offset word else return

/-- `PackLast`. -/
def packLast (last : Uhugeint) (delta : Nat) : Buffered Unit := do
  let shift := (delta * 31) % 32
  storeOr 0 (last.shiftLeft (ofUInt64 shift)).toUInt32
  storeAbove delta 32 1 (last.shiftRight (ofUInt64 (32 - shift))).toUInt32
  storeAbove delta 64 2 (last.shiftRight (ofUInt64 (64 - shift))).toUInt32
  storeAbove delta 96 3 (last.shiftRight (ofUInt64 (96 - shift))).toUInt32

/-- A word of a value that fills whole words. -/
def wordOf (value : Uhugeint) : Nat → BitVec 32
  | 0 => value.toUInt32
  | index + 1 => (value.shiftRight (ofUInt64 (32 * (index + 1)))).toUInt32

/-- The first words of a value that fills whole words. -/
def packWords (offset : Nat) (value : Uhugeint) : Nat → Buffered Unit
  | 0 => return
  | index + 1 => do
      packWords offset value index
      store (offset + index) (wordOf value index)

/-- The loop of `PackDelta32` and of the functions for more words. -/
def packDelta (wordCount : Nat) (input : Nat → Uhugeint) : Nat → Buffered Unit
  | 0 => return
  | i + 1 => do
      packDelta wordCount input i
      packWords (wordCount * i) (input i) wordCount

def packDelta32 (input : Nat → Uhugeint) : Buffered Unit := packDelta 1 input 32

def packDelta64 (input : Nat → Uhugeint) : Buffered Unit := packDelta 2 input 32

def packDelta96 (input : Nat → Uhugeint) : Buffered Unit := packDelta 3 input 32

def packDelta128 (input : Nat → Uhugeint) : Buffered Unit := packDelta 4 input 32

/-! ## Groups -/

/-- The loop of `Pack` over the first values. -/
def packLoop (input : Nat → Uhugeint) (width : Nat) : Nat → Buffered Unit
  | 0 => return
  | oindex + 1 => do
      packLoop input width oindex
      packSingle (input oindex) width ((width * oindex) % groupSize)
        (((ofUInt64 1).shiftLeft (ofUInt64 width)).sub (ofUInt64 1))

/-- `HugeIntPacker::Pack`. -/
def pack (input : Nat → Uhugeint) (width : Nat) : Buffered Unit := do
  if width = 0 then return
  else if width = 32 then packDelta32 input
  else if width = 64 then packDelta64 input
  else if width = 96 then packDelta96 input
  else if width = 128 then packDelta128 input
  else
    packLoop input width (groupSize - 1)
    packLast (input 31) width

/-- The loop of `Unpack` over the first values. -/
def unpackLoop (width : Nat) (out : Nat → Uhugeint) : Nat → Buffered (Nat → Uhugeint)
  | 0 => return out
  | oindex + 1 => do
      let out ← unpackLoop width out oindex
      let value ← unpackSingle width ((width * oindex) % groupSize)
      return Function.update out oindex value

/-- `HugeIntPacker::Unpack`. -/
def unpack (out : Nat → Uhugeint) (width : Nat) : Buffered (Nat → Uhugeint) := do
  if width = 0 then return unpackDelta0 out 32
  else if width = 32 then unpackDelta32 out
  else if width = 64 then unpackDelta64 out
  else if width = 96 then unpackDelta96 out
  else if width = 128 then unpackDelta128 out
  else
    let out ← unpackLoop width out (groupSize - 1)
    let last ← unpackLast width
    return Function.update out 31 last

end HugeIntPacker

end StatsRecommender
