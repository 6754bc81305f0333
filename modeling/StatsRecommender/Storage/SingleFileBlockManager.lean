import StatsRecommender.Library.OrderedSet
import StatsRecommender.Storage.MetadataStream

/-!
# Blocks of a database file

Blocks are free, modified or in use, some of them several times.  The free list is written with each
database header, to metadata blocks that are reserved before it is written.
-/

namespace StatsRecommender

/-- `MIN_BLOCK_ALLOC_SIZE`. -/
def minBlockAllocSize : Nat := 16384

/-- `MAX_BLOCK_HEADER_SIZE`. -/
def maxBlockHeaderSize : Nat := 128

/-- The sizes of a database file, as `VerifyBlockAllocSize` and `VerifyBlockHeaderSize` allow. -/
structure BlockSizes where
  allocSize : Nat
  headerSize : Nat
  minimum : minBlockAllocSize ≤ allocSize
  maximum : headerSize ≤ maxBlockHeaderSize

/-- `GetMetadataBlockSize`. -/
def BlockSizes.metadataBlockSize (sizes : BlockSizes) : Nat :=
  (sizes.allocSize - sizes.headerSize) / metadataBlockCount / 8 * 8

theorem BlockSizes.le_metadataBlockSize (sizes : BlockSizes) : 248 ≤ sizes.metadataBlockSize := by
  obtain ⟨allocSize, headerSize, minimum, maximum⟩ := sizes
  rw [minBlockAllocSize] at minimum
  rw [maxBlockHeaderSize] at maximum
  change 248 ≤ (allocSize - headerSize) / 64 / 8 * 8
  omega

/-- `DatabaseHeader`: where the free list begins, and how many blocks there are. -/
structure DatabaseHeader where
  iteration : Nat
  freeList : Option MetadataPointer
  blockCount : Nat
  deriving DecidableEq, Repr

/-- `SingleFileBlockManager`, with its metadata blocks and what they hold. -/
structure SingleFileBlockManager where
  sizes : BlockSizes
  freeList : OrderedSet Nat
  newlyFreedList : OrderedSet Nat
  modifiedBlocks : OrderedSet Nat
  multiUseBlocks : AList fun _ : Nat => Nat
  maxBlock : Nat
  iterationCount : Nat
  metadata : MetadataManager
  contents : MetadataContents

namespace MetadataManager

/-- A block has a part that is free. -/
def hasFreeBlocks (manager : MetadataManager) (blockId : Nat) : Bool :=
  (manager.blocks.lookup blockId).any fun freeBlocks => !freeBlocks.isEmpty

/-- `AddBlock` of a new block, all parts of which are free; the last one is used first. -/
def addBlock (manager : MetadataManager) (blockId : Nat) : Except String MetadataManager :=
  if blockId ∈ manager.blocks then
    .error (s!"Block id with id {blockId} already exists")
  else .ok { manager with
    blocks := manager.blocks.insert blockId (List.range metadataBlockCount).reverse }

end MetadataManager

namespace SingleFileBlockManager

/-- The manager of a new database file. -/
def create (sizes : BlockSizes) (contents : MetadataContents) : SingleFileBlockManager :=
  ⟨sizes, ∅, ∅, ∅, ∅, 0, 0, .create, contents⟩

/-! ## Blocks -/

def getFreeBlockId (manager : SingleFileBlockManager) : Nat × SingleFileBlockManager :=
  match manager.freeList.elements with
  | block :: _ => (block, { manager with
      freeList := manager.freeList.eraseFirst
      newlyFreedList := manager.newlyFreedList.erase block })
  | [] => (manager.maxBlock, { manager with maxBlock := manager.maxBlock + 1 })

def peekFreeBlockId (manager : SingleFileBlockManager) : Nat :=
  manager.freeList.elements.head?.getD manager.maxBlock

def markBlockAsFree (manager : SingleFileBlockManager) (blockId : Nat) :
    Except String SingleFileBlockManager :=
  if blockId ∈ manager.freeList then
    .error (s!"MarkBlockAsFree called but block {blockId} was already freed!")
  else .ok { manager with
    multiUseBlocks := manager.multiUseBlocks.erase blockId
    freeList := manager.freeList.insert blockId
    newlyFreedList := manager.newlyFreedList.insert blockId }

def markBlockAsModified (manager : SingleFileBlockManager) (blockId : Nat) :
    SingleFileBlockManager :=
  match manager.multiUseBlocks.lookup blockId with
  | some count =>
      if count - 1 ≤ 1 then
        { manager with multiUseBlocks := manager.multiUseBlocks.erase blockId }
      else { manager with multiUseBlocks := manager.multiUseBlocks.insert blockId (count - 1) }
  | none => { manager with modifiedBlocks := manager.modifiedBlocks.insert blockId }

def increaseBlockReferenceCount (manager : SingleFileBlockManager) (blockId : Nat) :
    SingleFileBlockManager :=
  match manager.multiUseBlocks.lookup blockId with
  | some count => { manager with multiUseBlocks := manager.multiUseBlocks.insert blockId (count + 1) }
  | none => { manager with multiUseBlocks := manager.multiUseBlocks.insert blockId 2 }

/-! ## Metadata blocks -/

def allocateNewBlock (manager : SingleFileBlockManager) :
    Except String (Nat × SingleFileBlockManager) := do
  let (blockId, manager) := manager.getFreeBlockId
  let metadata ← manager.metadata.addBlock blockId
  pure (blockId, { manager with metadata })

/-- The part of `AllocateHandle` that takes the last free part of a block. -/
def takeMetadataBlock (manager : SingleFileBlockManager) (blockId : Nat) :
    Except String (MetadataPointer × SingleFileBlockManager) :=
  match manager.metadata.blocks.lookup blockId with
  | none => .error "no metadata block"
  | some freeBlocks =>
      match freeBlocks.getLast? with
      | none => .error "no free part"
      | some index => .ok (⟨blockId, index⟩, { manager with
          metadata.blocks := manager.metadata.blocks.insert blockId freeBlocks.dropLast })

/-- `AllocateHandle`, for an order in which the metadata blocks are iterated over. -/
def allocateHandle (order : MetadataManager → List Nat) (manager : SingleFileBlockManager) :
    Except String (MetadataPointer × SingleFileBlockManager) :=
  match (order manager.metadata).find? manager.metadata.hasFreeBlocks with
  | some freeBlock =>
      if manager.peekFreeBlockId < freeBlock then do
        let (blockId, manager) ← manager.allocateNewBlock
        manager.takeMetadataBlock blockId
      else manager.takeMetadataBlock freeBlock
  | none => do
      let (blockId, manager) ← manager.allocateNewBlock
      manager.takeMetadataBlock blockId

/-- One block of `MarkBlocksAsModified`. -/
def mergeModified (manager : SingleFileBlockManager) (modified : Σ _ : Nat, BitVec 64) :
    SingleFileBlockManager :=
  match manager.metadata.blocks.lookup modified.1 with
  | none => manager
  | some freeBlocks =>
      let newFreeBlocks := MetadataBlock.freeBlocksToInteger freeBlocks ||| modified.2
      if newFreeBlocks = BitVec.allOnes 64 then
        { manager with
          metadata.blocks := manager.metadata.blocks.erase modified.1 }.markBlockAsModified modified.1
      else { manager with
        metadata.blocks := manager.metadata.blocks.insert modified.1
          (MetadataBlock.blocksFromInteger newFreeBlocks) }

/-- `MetadataManager::MarkBlocksAsModified`. -/
def markBlocksAsModified (manager : SingleFileBlockManager) : SingleFileBlockManager :=
  let merged := manager.metadata.modifiedBlocks.entries.foldl mergeModified manager
  { merged with
    metadata.modifiedBlocks := MetadataManager.occupiedLists merged.metadata.blocks }

/-! ## The free list -/

/-- The bytes that `GetFreeListBlocks` reserves room for. -/
def freeListBytes (manager : SingleFileBlockManager) : Nat :=
  (8 + 8 * (manager.freeList.size + manager.modifiedBlocks.size)) +
    (8 + (8 + 4) * manager.multiUseBlocks.entries.length) +
    (8 + (8 + 8) * manager.metadata.blocks.entries.length)

/-- The loop of `GetFreeListBlocks`, with so many rounds at most. -/
def reserveBlocks (order : MetadataManager → List Nat) :
    Nat → Nat → SingleFileBlockManager →
      Except String (List MetadataPointer × SingleFileBlockManager)
  | 0, _, _ => .error "GetFreeListBlocks does not end"
  | rounds + 1, allocatedSize, manager =>
      if manager.freeListBytes < allocatedSize then .ok ([], manager)
      else do
        let (handle, manager) ← manager.allocateHandle order
        let (rest, manager) ← reserveBlocks order rounds
          (allocatedSize + (manager.sizes.metadataBlockSize - pointerSize)) manager
        pure (handle :: rest, manager)

def getFreeListBlocks (order : MetadataManager → List Nat) (manager : SingleFileBlockManager) :
    Except String (List MetadataPointer × SingleFileBlockManager) :=
  reserveBlocks order (manager.freeListBytes + 2) 0 manager

/-- The bytes of an entry of `multi_use_blocks`. -/
def multiUseBytes (entry : Σ _ : Nat, Nat) : List WrittenByte :=
  valueBytes 8 entry.1 ++ valueBytes 4 entry.2

/-- `MetadataBlock::Write`. -/
def metadataBytes (entry : Σ _ : Nat, List Nat) : List WrittenByte :=
  valueBytes 8 entry.1 ++ valueBytes 8 (MetadataBlock.freeBlocksToInteger entry.2).toNat

/-- What `WriteHeader` writes to the free list blocks. -/
def writeFreeList (manager : SingleFileBlockManager) (writer : FreeListBlockWriter) :
    Except String FreeListBlockWriter := do
  let writer ← writer.writeBytes (valueBytes 8 manager.freeList.size)
  let writer ← writer.writeBytes (manager.freeList.elements.flatMap (valueBytes 8))
  let writer ← writer.writeBytes (valueBytes 8 manager.multiUseBlocks.entries.length)
  let writer ← writer.writeBytes (manager.multiUseBlocks.entries.flatMap multiUseBytes)
  -- `MetadataManager::Write`
  let writer ← writer.writeBytes (valueBytes 8 manager.metadata.blocks.entries.length)
  writer.writeBytes (manager.metadata.blocks.entries.flatMap metadataBytes)

/-- The modified blocks can be written to again. -/
def freeModifiedBlocks (manager : SingleFileBlockManager) : SingleFileBlockManager :=
  { manager with
    iterationCount := manager.iterationCount + 1
    freeList := manager.freeList.insertAll manager.modifiedBlocks.elements
    newlyFreedList := manager.newlyFreedList.insertAll manager.modifiedBlocks.elements
    modifiedBlocks := ∅ }

/-- `WriteHeader`. -/
def writeHeader (order : MetadataManager → List Nat) (manager : SingleFileBlockManager) :
    Except String (DatabaseHeader × SingleFileBlockManager) := do
  let (freeListBlocks, manager) ← manager.getFreeListBlocks order
  let manager := manager.markBlocksAsModified.freeModifiedBlocks
  if freeListBlocks.isEmpty then
    pure (⟨manager.iterationCount, none, manager.maxBlock⟩, { manager with newlyFreedList := ∅ })
  else do
    let writer := FreeListBlockWriter.create manager.sizes.metadataBlockSize freeListBlocks
      manager.contents
    let (pointer, writer) ← writer.getMetaBlockPointer
    let writer ← manager.writeFreeList writer
    -- `TrimFreeBlocks`
    pure (⟨manager.iterationCount, pointer, manager.maxBlock⟩,
      { manager with contents := writer.contents, newlyFreedList := ∅ })

/-! ## Loading -/

/-- `Initialize`, before anything is loaded. -/
def ofHeader (sizes : BlockSizes) (header : DatabaseHeader) (contents : MetadataContents) :
    SingleFileBlockManager :=
  { create sizes contents with
    maxBlock := header.blockCount
    iterationCount := header.iteration }

def readMultiUse (reader : MetadataReader) : Except String ((Nat × Nat) × MetadataReader) := do
  let (blockId, reader) ← reader.readValue 8
  let (usageCount, reader) ← reader.readValue 4
  pure ((blockId, usageCount), reader)

/-- `MetadataBlock::Read`, with what `MetadataManager::Read` does with the block. -/
def readMetadataBlock (reader : MetadataReader) :
    Except String ((Nat × Nat) × MetadataReader) := do
  let (blockId, reader) ← reader.readValue 8
  let (freeList, reader) ← reader.readValue 8
  pure ((blockId, freeList),
    { reader with manager := reader.manager.readBlock blockId (BitVec.ofNat 64 freeList) })

def loadFreeList (manager : SingleFileBlockManager) (freeListId : Option MetadataPointer) :
    Except String SingleFileBlockManager :=
  match freeListId with
  | none => .ok manager
  | some freePointer => do
      let reader := MetadataReader.create manager.sizes.metadataBlockSize manager.contents
        manager.metadata freePointer
      let (freeListCount, reader) ← reader.readValue 8
      let (free, reader) ← MetadataReader.readMany (MetadataReader.readValue 8) freeListCount reader
      let (multiUseCount, reader) ← reader.readValue 8
      let (multiUse, reader) ← MetadataReader.readMany readMultiUse multiUseCount reader
      let (blockCount, reader) ← reader.readValue 8
      let (_, reader) ← MetadataReader.readMany readMetadataBlock blockCount reader
      pure { manager with
        freeList := OrderedSet.insertAll ∅ free
        newlyFreedList := manager.newlyFreedList.insertAll free
        multiUseBlocks := multiUse.foldl (fun blocks (entry : Nat × Nat) => blocks.insert entry.1 entry.2) ∅
        metadata := reader.manager }.markBlocksAsModified

end SingleFileBlockManager

end StatsRecommender
