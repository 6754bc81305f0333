import StatsRecommender.Library.BitWords
import StatsRecommender.Library.Transition
import StatsRecommender.Types.Constants
import StatsRecommender.Types.Payload

/-!
# Uncompressed validity segments

A segment of one bit for each row, as appends and reverts change it, and the three ways in which
its bits are copied to the mask of a vector.
-/

namespace StatsRecommender

open BitWords

/-- `ValidityMask`; without a pointer to entries, all rows are valid. -/
abbrev ValidityMask := Option (Words 64)

namespace ValidityMask

/-- `BITS_PER_VALUE`. -/
def bitsPerValue : Nat := 64

/-- `STANDARD_MASK_SIZE`, in bytes. -/
def standardMaskSize : Nat := (standardVectorSize + (bitsPerValue - 1)) / bitsPerValue * 8

/-- `RowIsValidUnsafe`. -/
def rowIsValidUnsafe (entries : Words 64) (rowIdx : Nat) : Bool :=
  entries (rowIdx / bitsPerValue) &&& 1#64 <<< (rowIdx % bitsPerValue) != 0

/-- `RowIsValid`. -/
def rowIsValid (mask : ValidityMask) (rowIdx : Nat) : Bool :=
  match mask with
  | none => true
  | some entries => rowIsValidUnsafe entries rowIdx

/-- The entries of a mask, after `Initialize` where there were none. -/
def initialized (mask : ValidityMask) : Words 64 := mask.getD ones

/-- `SetInvalid`. -/
def setInvalid (mask : ValidityMask) (rowIdx : Nat) : ValidityMask :=
  some (clearBit mask.initialized rowIdx)

end ValidityMask

/-- The part of `UnifiedVectorFormat` that tells which rows of a vector are valid. -/
structure VectorValidity where
  sel : Nat → Nat
  validity : ValidityMask

def VectorValidity.rowIsValid (data : VectorValidity) (row : Nat) : Bool :=
  data.validity.rowIsValid (data.sel row)

/-- `UnifiedVectorFormat` of a vector of values. -/
structure ScannedFormat extends VectorValidity where
  data : Nat → Payload

namespace ValidityUncompressed

open ValidityMask

/-- `LOWER_MASKS`. -/
def lowerMasks : List (BitVec 64) :=
  [0x0, 0x1, 0x3, 0x7, 0xf, 0x1f, 0x3f, 0x7f, 0xff, 0x1ff, 0x3ff, 0x7ff, 0xfff, 0x1fff, 0x3fff,
    0x7fff, 0xffff, 0x1ffff, 0x3ffff, 0x7ffff, 0xfffff, 0x1fffff, 0x3fffff, 0x7fffff, 0xffffff,
    0x1ffffff, 0x3ffffff, 0x7ffffff, 0xfffffff, 0x1fffffff, 0x3fffffff, 0x7fffffff, 0xffffffff,
    0x1ffffffff, 0x3ffffffff, 0x7ffffffff, 0xfffffffff, 0x1fffffffff, 0x3fffffffff, 0x7fffffffff,
    0xffffffffff, 0x1ffffffffff, 0x3ffffffffff, 0x7ffffffffff, 0xfffffffffff, 0x1fffffffffff,
    0x3fffffffffff, 0x7fffffffffff, 0xffffffffffff, 0x1ffffffffffff, 0x3ffffffffffff,
    0x7ffffffffffff, 0xfffffffffffff, 0x1fffffffffffff, 0x3fffffffffffff, 0x7fffffffffffff,
    0xffffffffffffff, 0x1ffffffffffffff, 0x3ffffffffffffff, 0x7ffffffffffffff, 0xfffffffffffffff,
    0x1fffffffffffffff, 0x3fffffffffffffff, 0x7fffffffffffffff, 0xffffffffffffffff]

/-- `UPPER_MASKS`. -/
def upperMasks : List (BitVec 64) :=
  [0x0, 0x8000000000000000, 0xc000000000000000, 0xe000000000000000, 0xf000000000000000,
    0xf800000000000000, 0xfc00000000000000, 0xfe00000000000000, 0xff00000000000000,
    0xff80000000000000, 0xffc0000000000000, 0xffe0000000000000, 0xfff0000000000000,
    0xfff8000000000000, 0xfffc000000000000, 0xfffe000000000000, 0xffff000000000000,
    0xffff800000000000, 0xffffc00000000000, 0xffffe00000000000, 0xfffff00000000000,
    0xfffff80000000000, 0xfffffc0000000000, 0xfffffe0000000000, 0xffffff0000000000,
    0xffffff8000000000, 0xffffffc000000000, 0xffffffe000000000, 0xfffffff000000000,
    0xfffffff800000000, 0xfffffffc00000000, 0xfffffffe00000000, 0xffffffff00000000,
    0xffffffff80000000, 0xffffffffc0000000, 0xffffffffe0000000, 0xfffffffff0000000,
    0xfffffffff8000000, 0xfffffffffc000000, 0xfffffffffe000000, 0xffffffffff000000,
    0xffffffffff800000, 0xffffffffffc00000, 0xffffffffffe00000, 0xfffffffffff00000,
    0xfffffffffff80000, 0xfffffffffffc0000, 0xfffffffffffe0000, 0xffffffffffff0000,
    0xffffffffffff8000, 0xffffffffffffc000, 0xffffffffffffe000, 0xfffffffffffff000,
    0xfffffffffffff800, 0xfffffffffffffc00, 0xfffffffffffffe00, 0xffffffffffffff00,
    0xffffffffffffff80, 0xffffffffffffffc0, 0xffffffffffffffe0, 0xfffffffffffffff0,
    0xfffffffffffffff8, 0xfffffffffffffffc, 0xfffffffffffffffe, 0xffffffffffffffff]

def lowerMask (bits : Nat) : BitVec 64 := lowerMasks.getD bits 0
def upperMask (bits : Nat) : BitVec 64 := upperMasks.getD bits 0

/-! ## Scans -/

/-- The variables of the loop of `UnalignedScan`. -/
structure UnalignedScanState where
  pos : Nat
  inputEntry : Nat
  inputIdx : Nat
  resultEntry : Nat
  resultIdx : Nat
  resultMask : ValidityMask

/-- An entry of the input in line with the window of the result, with ones around the window. -/
def windowMask (inputMask : BitVec 64) (inputIdx resultIdx windowSize : Nat) : BitVec 64 :=
  let aligned :=
    if resultIdx < inputIdx then inputMask >>> (inputIdx - resultIdx)
    else (inputMask &&& ~~~upperMask (resultIdx - inputIdx)) <<< (resultIdx - inputIdx)
  aligned ||| upperMask (bitsPerValue - resultIdx - windowSize) ||| lowerMask resultIdx

/-- `result_data[result_entry] &= input_mask`, unless that keeps every bit. -/
def maskEntry (resultMask : ValidityMask) (resultEntry : Nat) (inputMask : BitVec 64) :
    ValidityMask :=
  if inputMask ≠ BitVec.allOnes 64 then
    let entries := resultMask.initialized
    some (setWord entries resultEntry (entries resultEntry &&& inputMask))
  else resultMask

/-- One round of the loop of `UnalignedScan`. -/
def scanWindow (input : Words 64) (scanCount : Nat) (state : UnalignedScanState) :
    UnalignedScanState :=
  let bitsLeft := scanCount - state.pos
  let inputWindowSize := min bitsLeft (bitsPerValue - state.inputIdx)
  let resultWindowSize := min bitsLeft (bitsPerValue - state.resultIdx)
  let windowSize := min inputWindowSize resultWindowSize
  let inputMask := windowMask (input state.inputEntry) state.inputIdx state.resultIdx windowSize
  let inputIdx := (state.inputIdx + windowSize) % bitsPerValue
  let resultIdx := (state.resultIdx + windowSize) % bitsPerValue
  { pos := state.pos + windowSize
    inputEntry := if inputIdx = 0 then state.inputEntry + 1 else state.inputEntry
    inputIdx
    resultEntry := if resultIdx = 0 then state.resultEntry + 1 else state.resultEntry
    resultIdx
    resultMask := maskEntry state.resultMask state.resultEntry inputMask }

def unalignedScanLoop (input : Words 64) (scanCount : Nat) :
    Nat → UnalignedScanState → UnalignedScanState
  | 0, state => state
  | fuel + 1, state =>
      if state.pos < scanCount then
        unalignedScanLoop input scanCount fuel (scanWindow input scanCount state)
      else state

/-- `UnalignedScan`; every round copies a bit at least. -/
def unalignedScan (input : Words 64) (inputStart : Nat) (resultMask : ValidityMask)
    (resultOffset scanCount : Nat) : ValidityMask :=
  let resultEntry := resultOffset / bitsPerValue
  let inputEntry := inputStart / bitsPerValue
  (unalignedScanLoop input scanCount scanCount
    { pos := 0
      inputEntry
      inputIdx := inputStart - inputEntry * bitsPerValue
      resultEntry
      resultIdx := resultOffset - resultEntry * bitsPerValue
      resultMask }).resultMask

/-- One round of the loop of `AlignedScan`. -/
def copyEntry (input : Words 64) (startOffset : Nat) (resultMask : ValidityMask) (index : Nat) :
    ValidityMask :=
  let inputEntry := input (startOffset + index)
  if resultMask.isNone ∧ inputEntry = BitVec.allOnes 64 then resultMask
  else some (setWord resultMask.initialized index inputEntry)

/-- `AlignedScan`. -/
def alignedScan (input : Words 64) (inputStart : Nat) (resultMask : ValidityMask)
    (scanCount : Nat) : ValidityMask :=
  (List.range ((scanCount + bitsPerValue - 1) / bitsPerValue)).foldl
    (copyEntry input (inputStart / bitsPerValue)) resultMask

/-- `ValiditySelect`, from the place of the scan in the segment. -/
def validitySelect (input : Words 64) (start : Nat) (sel : Nat → Nat) (selCount : Nat)
    (resultMask : ValidityMask) : ValidityMask :=
  (List.range selCount).foldl (fun resultMask row =>
    if !rowIsValidUnsafe input (start + sel row) then resultMask.setInvalid row else resultMask)
    resultMask

/-! ## Appends and reverts -/

/-- An uncompressed validity segment with its block and the null flags of its statistics. -/
structure Segment where
  start : Nat
  count : Nat
  segmentSize : Nat
  entries : Words 64
  hasNull : Bool
  hasNoNull : Bool

/-- A byte of the block is set to `0xFF`. -/
def setByte (entries : Words 64) (byte : Nat) : Words 64 :=
  setWord entries (byte / 8) (entries (byte / 8) ||| 0xFF#64 <<< (8 * (byte % 8)))

/-- `memset` to `0xFF` of the bytes from a position up to the size of the block. -/
def setBytes (entries : Words 64) (start size : Nat) : Words 64 :=
  (List.range' start (size - start)).foldl setByte entries

/-- `ValidityInitSegment` of a new block, whose memory is of any content. -/
def initSegment (start segmentSize : Nat) (memory : Words 64) : Segment :=
  ⟨start, 0, segmentSize, setBytes memory 0 segmentSize, false, false⟩

namespace Segment

/-- `max_tuples`. -/
def maxTuples (segment : Segment) : Nat :=
  segment.segmentSize / standardMaskSize * standardVectorSize

/-- One round of the loop of `ValidityAppend`. -/
def appendRow (data : VectorValidity) (offset base : Nat) (segment : Segment) (row : Nat) :
    Segment :=
  if !data.rowIsValid (offset + row) then
    { segment with entries := clearBit segment.entries (base + row), hasNull := true }
  else { segment with hasNoNull := true }

/-- The number of rows that `ValidityAppend` takes. -/
def appendCount (segment : Segment) (vcount : Nat) : Nat :=
  min vcount (segment.maxTuples - segment.count)

/-- `ValidityAppend`. -/
def append (segment : Segment) (data : VectorValidity) (offset vcount : Nat) : Segment :=
  let appendCount := segment.appendCount vcount
  if data.validity.isNone then
    { segment with count := segment.count + appendCount, hasNoNull := true }
  else
    let appended := (List.range appendCount).foldl (appendRow data offset segment.count) segment
    { appended with count := segment.count + appendCount }

/-- `ValidityRevertAppend`, and the count that `ColumnSegment::RevertAppend` sets behind it. -/
def revertAppend (segment : Segment) (startRow : Nat) : Segment :=
  let startBit := startRow - segment.start
  let entries :=
    if startBit % 8 ≠ 0 then
      let bitEnd := (startBit / 8 + 1) * 8
      let entries := (List.range' startBit (bitEnd - startBit)).foldl setBit segment.entries
      setBytes entries (bitEnd / 8) segment.segmentSize
    else setBytes segment.entries (startBit / 8) segment.segmentSize
  { segment with entries, count := startRow - segment.start }

end Segment

end ValidityUncompressed

end StatsRecommender
