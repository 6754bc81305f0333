import Mathlib.Algebra.Order.Ring.Nat
import Mathlib.Data.Int.ConditionallyCompleteOrder
import StatsRecommender.Library.ByteMemory

/-!
# Partial blocks

`PartialBlockManager`: segments share blocks as long as a block has room.  The room left in
a block, its use count and the regions to be zeroed are kept beside its memory, and a block
is flushed once no more segments are wanted in it.
-/

namespace StatsRecommender

open ByteMemory

/-- `AlignValue`, to eight bytes. -/
def alignValue (value : Nat) : Nat := (value + 7) / 8 * 8

/-- A segment with the contents of its own buffer, of which `size` bytes are data. -/
structure SegmentBuffer where
  id : Nat
  size : Nat
  buffer : Memory

/-- `PartialColumnSegment`. -/
structure PartialColumnSegment where
  segment : SegmentBuffer
  offsetInBlock : Nat

namespace PartialColumnSegment

/-- End of the byte range given to the segment. -/
def stop (placed : PartialColumnSegment) : Nat := placed.offsetInBlock + placed.segment.size

/-- The position is in the byte range given to the segment. -/
def Contains (placed : PartialColumnSegment) (position : Nat) : Prop :=
  placed.offsetInBlock ≤ position ∧ position < placed.stop

/-- The bytes of the segment are at its offset. -/
def HeldIn (placed : PartialColumnSegment) (memory : Memory) : Prop :=
  ∀ index < placed.segment.size,
    memory (placed.offsetInBlock + index) = placed.segment.buffer index

/-- The byte ranges of two segments have no byte in common. -/
def Apart (left right : PartialColumnSegment) : Prop :=
  left.stop ≤ right.offsetInBlock ∨ right.stop ≤ left.offsetInBlock

end PartialColumnSegment

/-- `PartialBlockState`; a block that is not on disk yet has no id. -/
structure PartialBlockState where
  blockId : Option Nat
  blockSize : Nat
  offset : Nat
  blockUseCount : Nat
  deriving DecidableEq

/--
`PartialBlockForCheckpoint`; its block handle is named by the segment whose buffer the block
took over, and the memory is what the handle gives access to.
-/
structure PartialBlock where
  blockHandle : Nat
  state : PartialBlockState
  uninitializedRegions : List (Nat × Nat)
  memory : Memory
  segments : List PartialColumnSegment

/-- A block as it was written to disk. -/
structure FlushedBlock where
  blockHandle : Nat
  blockId : Nat
  memory : Memory
  segments : List PartialColumnSegment

/--
The block manager that the partial block managers write to: unused block ids, reference
counts and the blocks written; `merged` remembers the handles given up in a merge.
-/
structure BlockOutput where
  nextBlockId : Nat
  referenceCounts : Nat → Nat
  flushed : List FlushedBlock
  merged : List Nat

namespace BlockOutput

/-- `GetFreeBlockId`. -/
def getFreeBlockId (output : BlockOutput) : Nat × BlockOutput :=
  (output.nextBlockId, { output with nextBlockId := output.nextBlockId + 1 })

/-- `IncreaseBlockReferenceCount`. -/
def increaseBlockReferenceCount (output : BlockOutput) (blockId : Nat) : BlockOutput :=
  { output with referenceCounts := fun id =>
      output.referenceCounts id + if id = blockId then 1 else 0 }

end BlockOutput

namespace PartialBlock

/-- `AddSegmentToTail`. -/
def addSegmentToTail (block : PartialBlock) (segment : SegmentBuffer) (offsetInBlock : Nat) :
    PartialBlock :=
  { block with segments := block.segments ++ [⟨segment, offsetInBlock⟩] }

/-- `FlushInternal`: the memory without what was never written. -/
def flushInternal (block : PartialBlock) (blockSize freeSpaceLeft : Nat) : Memory :=
  if 0 < freeSpaceLeft ∨ block.uninitializedRegions ≠ [] then
    clear (block.uninitializedRegions.foldl clear block.memory)
      (blockSize - freeSpaceLeft, blockSize)
  else block.memory

/-- `PartialBlockForCheckpoint::Flush`. -/
def flush (block : PartialBlock) (blockSize freeSpaceLeft : Nat) (output : BlockOutput) :
    Except String BlockOutput :=
  if block.segments = [] then
    .error "Flush called on partial block that was already flushed"
  else
    let memory := block.flushInternal blockSize freeSpaceLeft
    let (blockId, output) :=
      match block.state.blockId with
      | some blockId => (blockId, output)
      | none =>
          let (blockId, output) := output.getFreeBlockId
          -- every segment behind the first one adds a reference to a block fetched here
          (blockId, block.segments.tail.foldl
            (fun output _ => output.increaseBlockReferenceCount blockId) output)
    .ok { output with
      flushed := output.flushed ++ [⟨block.blockHandle, blockId, memory, block.segments⟩] }

/-- `PartialBlockForCheckpoint::Merge`: the contents of the other block move to an offset. -/
def merge (block other : PartialBlock) (offset otherSize : Nat) : PartialBlock :=
  { block with
    memory := copyTo block.memory other.memory offset otherSize
    uninitializedRegions := block.uninitializedRegions ++
      other.uninitializedRegions.map fun region => (region.1 + offset, region.2 + offset)
    segments := block.segments ++
      other.segments.map fun placed => ⟨placed.segment, placed.offsetInBlock + offset⟩ }

end PartialBlock

/-- `PartialBlockType`, for blocks that go to disk. -/
inductive PartialBlockType where
  | fullCheckpoint
  | appendToTable
  deriving DecidableEq, Repr

/-- `MAX_BLOCK_MAP_SIZE`. -/
def maxBlockMapSize : Nat := 2 ^ 31

/-- `PartialBlockManager`; the multimap is a list in ascending order of the keys. -/
structure PartialBlockManager where
  partialBlockType : PartialBlockType
  blockSize : Nat
  maxPartialBlockSize : Nat
  maxUseCount : Nat
  partiallyFilledBlocks : List (Nat × PartialBlock)

/-- `PartialBlockAllocation`. -/
structure PartialBlockAllocation where
  allocationSize : Nat
  state : PartialBlockState
  partialBlock : Option PartialBlock

/-- The entry at `lower_bound(size)`, with the other entries. -/
def takeLowerBound (size : Nat) :
    List (Nat × PartialBlock) → Option (PartialBlock × List (Nat × PartialBlock))
  | [] => none
  | entry :: rest =>
      if size ≤ entry.1 then some (entry.2, rest)
      else (takeLowerBound size rest).map fun found => (found.1, entry :: found.2)

/-- `std::multimap::insert`: behind the entries with the same key. -/
def insertBlock (entry : Nat × PartialBlock) :
    List (Nat × PartialBlock) → List (Nat × PartialBlock)
  | [] => [entry]
  | first :: rest =>
      if entry.1 < first.1 then entry :: first :: rest else first :: insertBlock entry rest

namespace PartialBlockManager

/-- `HasBlockAllocation`. -/
def hasBlockAllocation (manager : PartialBlockManager) (segmentSize : Nat) : Bool :=
  decide (segmentSize ≤ manager.maxPartialBlockSize) &&
    (takeLowerBound segmentSize manager.partiallyFilledBlocks).isSome

/-- `AllocateBlock`. -/
def allocateBlock (manager : PartialBlockManager) (output : BlockOutput) :
    PartialBlockState × BlockOutput :=
  match manager.partialBlockType with
  | .fullCheckpoint =>
      let (blockId, output) := output.getFreeBlockId
      (⟨some blockId, manager.blockSize, 0, 1⟩, output)
  | .appendToTable => (⟨none, manager.blockSize, 0, 1⟩, output)

/-- `GetPartialBlock`, for sizes that may share a block. -/
def getPartialBlock (manager : PartialBlockManager) (segmentSize : Nat) :
    Option (PartialBlock × List (Nat × PartialBlock)) :=
  if segmentSize ≤ manager.maxPartialBlockSize then
    takeLowerBound segmentSize manager.partiallyFilledBlocks
  else none

/-- The reference that another user of a block takes. -/
def reference (manager : PartialBlockManager) (state : PartialBlockState) (output : BlockOutput) :
    BlockOutput :=
  match manager.partialBlockType, state.blockId with
  | .fullCheckpoint, some blockId => output.increaseBlockReferenceCount blockId
  | _, _ => output

/-- `GetBlockAllocation`. -/
def getBlockAllocation (manager : PartialBlockManager) (output : BlockOutput) (segmentSize : Nat) :
    PartialBlockAllocation × PartialBlockManager × BlockOutput :=
  match manager.getPartialBlock segmentSize with
  | some (block, blocks) =>
      let state := { block.state with blockUseCount := block.state.blockUseCount + 1 }
      (⟨segmentSize, state, some { block with state := state }⟩,
        { manager with partiallyFilledBlocks := blocks }, manager.reference state output)
  | none =>
      let (state, output) := manager.allocateBlock output
      (⟨segmentSize, state, none⟩, manager, output)

/-- The block with the allocated range behind its offset, aligned. -/
def occupy (block : PartialBlock) (allocationSize : Nat) : PartialBlock :=
  let unalignedSize := allocationSize + block.state.offset
  let newSize := alignValue unalignedSize
  { block with
    state := { block.state with offset := newSize }
    uninitializedRegions :=
      if newSize ≠ unalignedSize then block.uninitializedRegions ++ [(unalignedSize, newSize)]
      else block.uninitializedRegions }

/-- `RegisterPartialBlock`; the room that decides on sharing is computed in 64 bits. -/
def registerPartialBlock (manager : PartialBlockManager) (output : BlockOutput)
    (allocationSize : Nat) (block : PartialBlock) :
    Except String (PartialBlockManager × BlockOutput) :=
  if block.state.blockUseCount < manager.maxUseCount then
    let block := occupy block allocationSize
    let newSpaceLeft := block.state.blockSize - block.state.offset
    if (manager.blockSize + 2 ^ 64 - manager.maxPartialBlockSize) % 2 ^ 64 ≤ newSpaceLeft then
      let blocks := insertBlock (newSpaceLeft, block) manager.partiallyFilledBlocks
      if maxBlockMapSize < blocks.length then
        -- the block with the least space left is given up
        match blocks with
        | [] => .ok (manager, output)
        | (freeSpace, first) :: rest => do
            let output ← first.flush manager.blockSize freeSpace output
            return ({ manager with partiallyFilledBlocks := rest }, output)
      else .ok ({ manager with partiallyFilledBlocks := blocks }, output)
    else do
      let output ← block.flush manager.blockSize newSpaceLeft output
      return (manager, output)
  else do
    -- the offset of a block that reached its use count is still the one before the segment
    let output ← block.flush manager.blockSize (block.state.blockSize - block.state.offset) output
    return (manager, output)

/-- `FlushSegmentInternal`, for a segment that has data to go to disk. -/
def flushSegment (manager : PartialBlockManager) (output : BlockOutput)
    (segment : SegmentBuffer) : Except String (PartialBlockManager × BlockOutput) :=
  if manager.blockSize < segment.size then
    .error "segment size exceeds block size in ColumnCheckpointState::FlushSegmentInternal"
  else
    let (allocation, manager, output) := manager.getBlockAllocation output segment.size
    let block :=
      match allocation.partialBlock with
      | some block =>
          { block with
            memory := copyTo block.memory segment.buffer allocation.state.offset segment.size
            : PartialBlock }.addSegmentToTail segment allocation.state.offset
      | none => ⟨segment.id, allocation.state, [], segment.buffer, [⟨segment, 0⟩]⟩
    manager.registerPartialBlock output allocation.allocationSize block

/-- The body of the loop of `Merge` over the blocks of the other manager. -/
def mergeBlock (manager : PartialBlockManager) (output : BlockOutput) (entry : Nat × PartialBlock) :
    Except String (PartialBlockManager × BlockOutput) :=
  let usedSpace := manager.blockSize - entry.1
  if manager.hasBlockAllocation usedSpace then
    let (allocation, manager, output) := manager.getBlockAllocation output usedSpace
    match allocation.partialBlock with
    | none => .ok (manager, output)
    | some block =>
        manager.registerPartialBlock { output with merged := output.merged ++ [entry.2.blockHandle] }
          allocation.allocationSize (block.merge entry.2 allocation.state.offset usedSpace)
  else
    .ok ({ manager with
      partiallyFilledBlocks := insertBlock entry manager.partiallyFilledBlocks }, output)

/-- The loop of `Merge`. -/
def mergeBlocks (manager : PartialBlockManager) (output : BlockOutput) :
    List (Nat × PartialBlock) → Except String (PartialBlockManager × BlockOutput)
  | [] => .ok (manager, output)
  | entry :: rest => do
      let (manager, output) ← manager.mergeBlock output entry
      mergeBlocks manager output rest

/-- The loop of `FlushPartialBlocks`. -/
def flushBlocks (blockSize : Nat) (output : BlockOutput) :
    List (Nat × PartialBlock) → Except String BlockOutput
  | [] => .ok output
  | (freeSpace, block) :: rest => do
      let output ← block.flush blockSize freeSpace output
      flushBlocks blockSize output rest

/-- `FlushPartialBlocks`. -/
def flushPartialBlocks (manager : PartialBlockManager) (output : BlockOutput) :
    Except String (PartialBlockManager × BlockOutput) := do
  let output ← flushBlocks manager.blockSize output manager.partiallyFilledBlocks
  return ({ manager with partiallyFilledBlocks := [] }, output)

end PartialBlockManager

end StatsRecommender
