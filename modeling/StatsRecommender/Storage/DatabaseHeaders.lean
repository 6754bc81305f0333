import StatsRecommender.Storage.MetadataAllocation

/-!
# Database headers

The blocks that are reserved for the free list always have room for it, and what is loaded from
them is what was in force when the header was written.
-/

namespace StatsRecommender

namespace SingleFileBlockManager

variable {manager next : SingleFileBlockManager} {references : Nat → Nat}
  {order : MetadataManager → List Nat}

/-! ## Blocks that are reserved -/

/-- Parts of metadata blocks that are handed out one after the other. -/
structure Reserved (references : Nat → Nat) (manager : SingleFileBlockManager)
    (handles : List MetadataPointer) (next : SingleFileBlockManager) : Prop where
  accounted : Accounted references next
  fresh : ∀ pointer ∈ handles, ¬ manager.InUse pointer
  distinct : handles.Nodup
  held : ∀ pointer ∈ handles, next.InUse pointer
  inUse : ∀ pointer, manager.InUse pointer → next.InUse pointer
  same : next = { manager with
    freeList := next.freeList
    newlyFreedList := next.newlyFreedList
    maxBlock := next.maxBlock
    metadata.blocks := next.metadata.blocks }
  kept : ∀ block ∈ manager.metadata.blocks, block ∈ next.metadata.blocks

theorem Reserved.nil (accounted : Accounted references manager) :
    Reserved references manager [] manager where
  accounted := accounted
  fresh := fun _ impossible => absurd impossible List.not_mem_nil
  distinct := List.nodup_nil
  held := fun _ impossible => absurd impossible List.not_mem_nil
  inUse := fun _ used => used
  same := rfl
  kept := fun _ member => member

theorem Reserved.cons {handle : MetadataPointer} {handles : List MetadataPointer}
    {middle : SingleFileBlockManager} (handed : Handed references manager handle middle)
    (reserved : Reserved references middle handles next) :
    Reserved references manager (handle :: handles) next where
  accounted := reserved.accounted
  fresh := fun pointer member => by
    rcases List.mem_cons.mp member with rfl | later
    · exact handed.fresh
    · exact fun used => reserved.fresh pointer later (handed.inUse pointer used)
  distinct := List.nodup_cons.mpr
    ⟨fun member => reserved.fresh handle member handed.held, reserved.distinct⟩
  held := fun pointer member => by
    rcases List.mem_cons.mp member with rfl | later
    · exact reserved.inUse _ handed.held
    · exact reserved.held pointer later
  inUse := fun pointer used => reserved.inUse pointer (handed.inUse pointer used)
  same := by
    have outer := reserved.same
    rw [handed.same] at outer
    exact outer
  kept := fun block member => reserved.kept block (handed.kept block member)

/-- Each block that is reserved brings more room than it takes, so that the loop ends. -/
theorem Accounted.reserveBlocks (accounted : Accounted references manager)
    (order : MetadataManager → List Nat) (rounds allocatedSize : Nat)
    (enough : manager.freeListBytes < allocatedSize + rounds) :
    ∃ handles next, reserveBlocks order (rounds + 1) allocatedSize manager = .ok (handles, next) ∧
      Reserved references manager handles next ∧
      next.freeListBytes <
        allocatedSize + handles.length * (manager.sizes.metadataBlockSize - pointerSize) := by
  induction rounds generalizing allocatedSize manager with
  | zero =>
      refine ⟨[], manager, if_pos enough, .nil accounted, ?_⟩
      rw [List.length_nil, Nat.zero_mul]
      exact enough
  | succ rounds ih =>
      by_cases room : manager.freeListBytes < allocatedSize
      · refine ⟨[], manager, if_pos room, .nil accounted, ?_⟩
        rw [List.length_nil, Nat.zero_mul]
        exact room
      · obtain ⟨handle, middle, allocated, handed⟩ := accounted.allocateHandle order
        have sizes : middle.sizes = manager.sizes := by
          rw [handed.same]
        have large := manager.sizes.le_metadataBlockSize
        have bytes := handed.bytes
        have small : pointerSize = 8 := rfl
        obtain ⟨handles, next, reserved, facts, fits⟩ := ih handed.accounted
          (allocatedSize + (middle.sizes.metadataBlockSize - pointerSize)) (by rw [sizes]; omega)
        refine ⟨handle :: handles, next, ?_, facts.cons handed, ?_⟩
        · rw [SingleFileBlockManager.reserveBlocks, if_neg room, allocated]
          dsimp only [bind, Except.bind, pure, Except.pure]
          rw [reserved]
        · rw [sizes] at fits
          rw [List.length_cons, Nat.succ_mul]
          omega

/-- The free list blocks have room for what is written, and there is at least one. -/
theorem Accounted.getFreeListBlocks (accounted : Accounted references manager)
    (order : MetadataManager → List Nat) :
    ∃ first rest next, manager.getFreeListBlocks order = .ok (first :: rest, next) ∧
      Reserved references manager (first :: rest) next ∧
      next.freeListBytes <
        (first :: rest).length * (manager.sizes.metadataBlockSize - pointerSize) := by
  obtain ⟨handles, next, reserved, facts, fits⟩ :=
    accounted.reserveBlocks order (manager.freeListBytes + 1) 0 (by omega)
  rw [Nat.zero_add] at fits
  cases handles with
  | nil =>
      rw [List.length_nil, Nat.zero_mul] at fits
      exact absurd fits (Nat.not_lt_zero _)
  | cons first rest => exact ⟨first, rest, next, reserved, facts, fits⟩

/-! ## What is written -/

/-- The bytes of the free list, the reference counts and the free parts of metadata blocks. -/
def freeListStream (manager : SingleFileBlockManager) : List WrittenByte :=
  valueBytes 8 manager.freeList.size ++ (manager.freeList.elements.flatMap (valueBytes 8) ++
    (valueBytes 8 manager.multiUseBlocks.entries.length ++
      (manager.multiUseBlocks.entries.flatMap multiUseBytes ++
        (valueBytes 8 manager.metadata.blocks.entries.length ++
          manager.metadata.blocks.entries.flatMap metadataBytes))))

theorem length_flatMap_of_length {α : Type} {encode : α → List WrittenByte} {size : Nat}
    (each : ∀ item, (encode item).length = size) (items : List α) :
    (items.flatMap encode).length = size * items.length := by
  induction items with
  | nil => rfl
  | cons item rest ih =>
      rw [List.flatMap_cons, List.length_append, each, ih, List.length_cons, Nat.mul_succ,
        Nat.add_comm]

theorem length_freeListStream (manager : SingleFileBlockManager) :
    manager.freeListStream.length = (8 + 8 * manager.freeList.size) +
      (8 + (8 + 4) * manager.multiUseBlocks.entries.length) +
        (8 + (8 + 8) * manager.metadata.blocks.entries.length) := by
  have multi : ∀ entry, (multiUseBytes entry).length = 8 + 4 := fun entry => by
    rw [multiUseBytes, List.length_append, length_valueBytes, length_valueBytes]
  have parts : ∀ entry, (metadataBytes entry).length = 8 + 8 := fun entry => by
    rw [metadataBytes, List.length_append, length_valueBytes, length_valueBytes]
  rw [freeListStream, List.length_append, List.length_append, List.length_append,
    List.length_append, List.length_append, length_valueBytes, length_valueBytes,
    length_valueBytes, length_flatMap_of_length (length_valueBytes 8),
    length_flatMap_of_length multi, length_flatMap_of_length parts, OrderedSet.size]
  omega

/-- The writer writes the whole stream if the blocks have room for it. -/
theorem writeFreeList_spec (manager : SingleFileBlockManager) {handles : List MetadataPointer}
    {writer : FreeListBlockWriter}
    (distinct : handles.Nodup) (large : pointerSize < writer.metadataBlockSize)
    (wrote : writer.Wrote handles [])
    (room : manager.freeListStream.length ≤
      handles.length * (writer.metadataBlockSize - pointerSize)) :
    ∃ after, manager.writeFreeList writer = .ok after ∧
      after.Wrote handles manager.freeListStream ∧
      after.metadataBlockSize = writer.metadataBlockSize := by
  have bytes := manager.length_freeListStream
  rw [freeListStream] at room bytes ⊢
  rw [List.length_append, List.length_append, List.length_append, List.length_append,
    List.length_append] at room
  obtain ⟨w₁, first, wrote₁, size₁⟩ := FreeListBlockWriter.writeBytes_spec distinct large wrote
    (valueBytes 8 manager.freeList.size) (by rw [List.nil_append]; omega)
  obtain ⟨w₂, second, wrote₂, size₂⟩ := FreeListBlockWriter.writeBytes_spec distinct
    (size₁ ▸ large) wrote₁ (manager.freeList.elements.flatMap (valueBytes 8))
    (by rw [size₁, List.nil_append, List.length_append]; omega)
  obtain ⟨w₃, third, wrote₃, size₃⟩ := FreeListBlockWriter.writeBytes_spec distinct
    (size₂ ▸ size₁ ▸ large) wrote₂ (valueBytes 8 manager.multiUseBlocks.entries.length)
    (by rw [size₂, size₁, List.nil_append, List.length_append, List.length_append]; omega)
  obtain ⟨w₄, fourth, wrote₄, size₄⟩ := FreeListBlockWriter.writeBytes_spec distinct
    (size₃ ▸ size₂ ▸ size₁ ▸ large) wrote₃ (manager.multiUseBlocks.entries.flatMap multiUseBytes)
    (by
      rw [size₃, size₂, size₁, List.nil_append, List.length_append, List.length_append,
        List.length_append]
      omega)
  obtain ⟨w₅, fifth, wrote₅, size₅⟩ := FreeListBlockWriter.writeBytes_spec distinct
    (size₄ ▸ size₃ ▸ size₂ ▸ size₁ ▸ large) wrote₄
    (valueBytes 8 manager.metadata.blocks.entries.length)
    (by
      rw [size₄, size₃, size₂, size₁, List.nil_append, List.length_append, List.length_append,
        List.length_append, List.length_append]
      omega)
  obtain ⟨w₆, sixth, wrote₆, size₆⟩ := FreeListBlockWriter.writeBytes_spec distinct
    (size₅ ▸ size₄ ▸ size₃ ▸ size₂ ▸ size₁ ▸ large) wrote₅
    (manager.metadata.blocks.entries.flatMap metadataBytes)
    (by
      rw [size₅, size₄, size₃, size₂, size₁, List.nil_append, List.length_append,
        List.length_append, List.length_append, List.length_append, List.length_append]
      omega)
  refine ⟨w₆, ?_, ?_, ?_⟩
  · rw [writeFreeList, first]
    dsimp only [bind, Except.bind]
    rw [second]
    dsimp only
    rw [third]
    dsimp only
    rw [fourth]
    dsimp only
    rw [fifth]
    exact sixth
  · rw [List.nil_append, List.append_assoc, List.append_assoc, List.append_assoc,
      List.append_assoc] at wrote₆
    exact wrote₆
  · rw [size₆, size₅, size₄, size₃, size₂, size₁]

/-! ## Modified blocks are freed -/

theorem Accounted.freeModifiedBlocks (accounted : Accounted references manager) :
    Accounted references manager.freeModifiedBlocks where
  free := fun block member => by
    refine ⟨OrderedSet.not_mem_empty, ?_⟩
    rcases OrderedSet.mem_insertAll.mp member with modified | free
    · exact accounted.modified block modified
    · exact (accounted.free block free).2
  modified := fun block impossible => absurd impossible OrderedSet.not_mem_empty
  metadata := accounted.metadata
  known := fun block => by
    refine (accounted.known block).trans ?_
    change _ ↔ block ∈ manager.freeList.insertAll manager.modifiedBlocks.elements ∨
      block ∈ (∅ : OrderedSet Nat) ∨ block ∈ manager.metadata.blocks ∨ _
    rw [OrderedSet.mem_insertAll, ← OrderedSet.mem_def]
    tauto
  multiUse := accounted.multiUse
  parts := accounted.parts

/-! ## WriteHeader -/

/-- What writing a header does, with the free list blocks that it was written to. -/
structure HeaderWritten (references : Nat → Nat) (manager : SingleFileBlockManager)
    (header : DatabaseHeader) (handles : List MetadataPointer) (next : SingleFileBlockManager) :
    Prop where
  accounted : Accounted references next
  marks : MarksKnown next
  occupied : next.metadata.modifiedBlocks = MetadataManager.occupiedLists next.metadata.blocks
  fresh : ∀ pointer ∈ handles, ¬ manager.InUse pointer
  held : ∀ pointer ∈ handles, next.InUse pointer
  kept : ∀ pointer, manager.InUse pointer → ¬ manager.Marked pointer → next.InUse pointer
  sizes : next.sizes = manager.sizes
  nothingModified : next.modifiedBlocks = ∅
  blockCount : header.blockCount = next.maxBlock
  freeList : ∃ first, header.freeList = some first ∧
    MetadataReader.Follows next.sizes.metadataBlockSize next.contents handles (some first)
      next.freeListStream

/-- A header is always written. -/
theorem Accounted.writeHeader (accounted : Accounted references manager)
    (marks : MarksKnown manager) (order : MetadataManager → List Nat) :
    ∃ header handles middle next, manager.getFreeListBlocks order = .ok (handles, middle) ∧
      manager.writeHeader order = .ok (header, next) ∧
      HeaderWritten references manager header handles next := by
  obtain ⟨first, rest, middle, got, reserved, fits⟩ := accounted.getFreeListBlocks order
  obtain ⟨accounted', inUse, marks', modifiedBlocks, blocks, same, -, less, bytes⟩ :=
    reserved.accounted.markBlocksAsModified
  have sizes : middle.sizes = manager.sizes := by
    rw [reserved.same]
  have unmarked : ∀ pointer, middle.Marked pointer ↔ manager.Marked pointer := by
    intro pointer
    rw [Marked, Marked, reserved.same]
  obtain ⟨freed, hfreed⟩ : ∃ freed, middle.markBlocksAsModified.freeModifiedBlocks = freed :=
    ⟨_, rfl⟩
  have accounted'' : Accounted references freed := hfreed ▸ accounted'.freeModifiedBlocks
  have large : pointerSize < freed.sizes.metadataBlockSize := by
    have atLeast := freed.sizes.le_metadataBlockSize
    have small : pointerSize = 8 := rfl
    omega
  have freedSizes : freed.sizes = manager.sizes := by
    rw [← hfreed, same]
    exact sizes
  have room : freed.freeListStream.length ≤
      (first :: rest).length * (freed.sizes.metadataBlockSize - pointerSize) := by
    rw [length_freeListStream, freedSizes]
    rw [freeListBytes] at fits
    have more := middle.freeList.size_insertAll_le modifiedBlocks.elements
    rw [← hfreed, same]
    change (8 + 8 * (middle.freeList.insertAll modifiedBlocks.elements).size) +
      (8 + (8 + 4) * middle.multiUseBlocks.entries.length) +
        (8 + (8 + 8) * blocks.entries.length) ≤ _
    rw [OrderedSet.size] at bytes
    omega
  obtain ⟨writer, pointed, wrote, size⟩ := FreeListBlockWriter.getMetaBlockPointer_spec
    freed.sizes.metadataBlockSize first rest freed.contents large
  obtain ⟨after, written, wrote', size'⟩ := freed.writeFreeList_spec reserved.distinct
    (size ▸ large) wrote (size ▸ room)
  obtain ⟨head, isFirst, follows⟩ := MetadataReader.follows_of_wrote wrote'
  cases isFirst
  refine ⟨⟨freed.iterationCount, some first, freed.maxBlock⟩, first :: rest, middle,
    { freed with contents := after.contents, newlyFreedList := ∅ }, got, ?_,
    ⟨⟨accounted''.free, accounted''.modified, accounted''.metadata, accounted''.known,
      accounted''.multiUse, accounted''.parts⟩, ?_, ?_, reserved.fresh, fun pointer member => ?_,
      fun pointer used notMarked => ?_, freedSizes, ?_, rfl, first, rfl, ?_⟩⟩
  · rw [SingleFileBlockManager.writeHeader, got]
    dsimp only [bind, Except.bind, pure, Except.pure]
    rw [hfreed, List.isEmpty_cons, if_neg Bool.false_ne_true, pointed]
    dsimp only
    rw [written]
  · rw [← hfreed]
    exact ⟨marks'.known, marks'.inUse⟩
  · rw [← hfreed, same]
    rfl
  · have used := inUse pointer (reserved.held pointer member) fun marked =>
      reserved.fresh pointer member (marks.inUse pointer ((unmarked pointer).mp marked))
    rw [← hfreed]
    exact used
  · have used' := inUse pointer (reserved.inUse pointer used) fun marked =>
      notMarked ((unmarked pointer).mp marked)
    rw [← hfreed]
    exact used'
  · rw [← hfreed]
    rfl
  · rw [size', size] at follows
    exact follows

/-! ## Reading what was written -/

variable {handles : List MetadataPointer} {reader : MetadataReader} {stream : List WrittenByte}

theorem readMultiUse_spec {entry : Nat × Nat} (large : pointerSize < reader.metadataBlockSize)
    (reads : reader.Reads handles (valueBytes 8 entry.1 ++ valueBytes 4 entry.2 ++ stream)) :
    ∃ after, readMultiUse reader = .ok (entry, after) ∧ after.Reads handles stream ∧
      after.metadataBlockSize = reader.metadataBlockSize ∧
      MetadataReader.Registers handles reader.manager after.manager := by
  rw [List.append_assoc] at reads
  obtain ⟨middle, first, reads', same, registers⟩ :=
    MetadataReader.readValue_spec (by decide) large reads
  obtain ⟨after, second, reads'', same', registers'⟩ :=
    MetadataReader.readValue_spec (by decide) (same ▸ large) reads'
  refine ⟨after, ?_, reads'', same'.trans same, registers.trans registers'⟩
  rw [readMultiUse, first]
  dsimp only [bind, Except.bind, pure, Except.pure]
  rw [second]

/-- What reading metadata blocks makes of a manager. -/
def ReadBlocks (handles : List MetadataPointer) (items : List (Nat × Nat))
    (before after : MetadataManager) : Prop :=
  after.modifiedBlocks = before.modifiedBlocks ∧
    (∀ item ∈ items, after.blocks.lookup item.1 =
      some (MetadataBlock.blocksFromInteger (BitVec.ofNat 64 item.2))) ∧
    ∀ block, block ∉ items.map Prod.fst → after.blocks.lookup block = before.blocks.lookup block ∨
      before.blocks.lookup block = none ∧ after.blocks.lookup block = some [] ∧
        ∃ handle ∈ handles, handle.blockIndex = block

theorem readMetadataBlock_spec {item : Nat × Nat} (large : pointerSize < reader.metadataBlockSize)
    (reads : reader.Reads handles (valueBytes 8 item.1 ++ valueBytes 8 item.2 ++ stream)) :
    ∃ after, readMetadataBlock reader = .ok (item, after) ∧ after.Reads handles stream ∧
      after.metadataBlockSize = reader.metadataBlockSize ∧
      ReadBlocks handles [item] reader.manager after.manager := by
  rw [List.append_assoc] at reads
  obtain ⟨middle, first, reads', same, registers⟩ :=
    MetadataReader.readValue_spec (by decide) large reads
  obtain ⟨after, second, reads'', same', registers'⟩ :=
    MetadataReader.readValue_spec (by decide) (same ▸ large) reads'
  obtain ⟨unmarked, registered⟩ := registers.trans registers'
  refine ⟨{ after with manager := after.manager.readBlock item.1 (BitVec.ofNat 64 item.2) }, ?_,
    reads'', same'.trans same, unmarked, fun other member => ?_, fun block absent => ?_⟩
  · rw [readMetadataBlock, first]
    dsimp only [bind, Except.bind, pure, Except.pure]
    rw [second]
  · rw [List.mem_singleton.mp member]
    exact AList.lookup_insert _
  · have different : block ≠ item.1 := fun here => absent (here ▸ List.mem_cons_self)
    dsimp only [MetadataManager.readBlock]
    rw [AList.lookup_insert_ne different]
    exact registered block

/-- Metadata blocks, one after the other. -/
theorem readMetadataBlocks_spec (items : List (Nat × Nat)) (distinct : (items.map Prod.fst).Nodup)
    (large : pointerSize < reader.metadataBlockSize)
    (reads : reader.Reads handles
      (items.flatMap (fun item => valueBytes 8 item.1 ++ valueBytes 8 item.2) ++ stream)) :
    ∃ after, MetadataReader.readMany readMetadataBlock items.length reader = .ok (items, after) ∧
      ReadBlocks handles items reader.manager after.manager := by
  induction items generalizing reader with
  | nil => exact ⟨reader, rfl, rfl, fun _ impossible => absurd impossible List.not_mem_nil,
      fun _ _ => .inl rfl⟩
  | cons item rest ih =>
      rw [List.map_cons] at distinct
      obtain ⟨fresh, distinct⟩ := List.nodup_cons.mp distinct
      rw [List.flatMap_cons, List.append_assoc] at reads
      obtain ⟨middle, first, reads', same, unmarked, taken, others⟩ :=
        readMetadataBlock_spec large reads
      obtain ⟨after, second, unmarked', taken', others'⟩ := ih distinct (same ▸ large) reads'
      refine ⟨after, ?_, unmarked'.trans unmarked, fun other member => ?_, fun block absent => ?_⟩
      · rw [List.length_cons, MetadataReader.readMany]
        dsimp only [bind, Except.bind, pure, Except.pure]
        rw [first]
        dsimp only
        rw [second]
      · rcases List.mem_cons.mp member with rfl | later
        · have here := taken other List.mem_cons_self
          rcases others' other.1 fresh with same' | ⟨missing, -⟩
          · rw [same', here]
          · rw [here] at missing
            cases missing
        · exact taken' other later
      · rw [List.map_cons, List.mem_cons, not_or] at absent
        have before := others block (by rw [List.map_singleton, List.mem_singleton]; exact absent.1)
        rcases others' block absent.2 with same' | ⟨missing, present, known⟩
        · rw [same']
          exact before
        · rcases before with same'' | ⟨_, there, _⟩
          · exact .inr ⟨same'' ▸ missing, present, known⟩
          · rw [there] at missing
            cases missing

/-- Blocks may be registered before any metadata block is read. -/
theorem readBlocks_of_registers {items : List (Nat × Nat)} {before between after : MetadataManager}
    (registers : MetadataReader.Registers handles before between)
    (read : ReadBlocks handles items between after) : ReadBlocks handles items before after := by
  obtain ⟨unmarked, taken, others⟩ := read
  refine ⟨unmarked.trans registers.1, taken, fun block absent => ?_⟩
  rcases others block absent with same | ⟨missing, present, known⟩
  · rcases registers.2 block with same' | ⟨missing, present, known⟩
    · exact .inl (same.trans same')
    · exact .inr ⟨missing, same.trans present, known⟩
  · rcases registers.2 block with same | ⟨-, there, -⟩
    · exact .inr ⟨same ▸ missing, present, known⟩
    · rw [there] at missing
      cases missing

/-! ## LoadFreeList -/

/-- What was saved with a header is in force again. -/
structure Restored (saved loaded : SingleFileBlockManager) : Prop where
  sizes : loaded.sizes = saved.sizes
  maxBlock : loaded.maxBlock = saved.maxBlock
  freeList : loaded.freeList = saved.freeList
  modifiedBlocks : loaded.modifiedBlocks = saved.modifiedBlocks
  multiUse : ∀ block, loaded.multiUseBlocks.lookup block = saved.multiUseBlocks.lookup block
  blocks : ∀ block, loaded.metadata.blocks.lookup block =
    (saved.metadata.blocks.lookup block).map fun freeBlocks =>
      MetadataBlock.blocksFromInteger (MetadataBlock.freeBlocksToInteger freeBlocks)
  marks : ∀ block, loaded.metadata.modifiedBlocks.lookup block =
    saved.metadata.modifiedBlocks.lookup block

/-- Streams are followed through the blocks they are in only. -/
theorem follows_frame {size : Nat} {contents other : MetadataContents}
    {pointer : Option MetadataPointer}
    (follows : MetadataReader.Follows size contents handles pointer stream)
    (same : ∀ handle ∈ handles, other handle = contents handle) :
    MetadataReader.Follows size other handles pointer stream := by
  induction follows with
  | nothing => exact .nothing
  | block pointer next bytes rest known content fits full later ih =>
      exact .block pointer next bytes rest known ((same pointer known).trans content) fits full ih

/-- `MarkBlocksAsModified` without marks. -/
theorem markBlocksAsModified_of_unmarked (unmarked : manager.metadata.modifiedBlocks = ∅) :
    manager.markBlocksAsModified = { manager with
      metadata.modifiedBlocks := MetadataManager.occupiedLists manager.metadata.blocks } := by
  rw [SingleFileBlockManager.markBlocksAsModified, unmarked]
  rfl

/-- The parts that were read are the parts that were written. -/
theorem blocks_of_read {saved : SingleFileBlockManager} {manager : MetadataManager}
    (held : ∀ pointer ∈ handles, saved.InUse pointer)
    (read : ReadBlocks handles (saved.metadata.blocks.entries.map fun entry =>
      (entry.1, (MetadataBlock.freeBlocksToInteger entry.2).toNat)) .create manager) (block : Nat) :
    manager.blocks.lookup block = (saved.metadata.blocks.lookup block).map fun freeBlocks =>
      MetadataBlock.blocksFromInteger (MetadataBlock.freeBlocksToInteger freeBlocks) := by
  obtain ⟨-, taken, others⟩ := read
  cases found : saved.metadata.blocks.lookup block with
  | some freeBlocks =>
      have here := taken (block, (MetadataBlock.freeBlocksToInteger freeBlocks).toNat)
        (List.mem_map.mpr ⟨⟨block, freeBlocks⟩, AList.mem_lookup_iff.mp found, rfl⟩)
      rw [BitVec.ofNat_toNat, BitVec.setWidth_eq] at here
      exact here
  | none =>
      have absent : block ∉ saved.metadata.blocks := AList.lookup_eq_none.mp found
      have unread : block ∉ (saved.metadata.blocks.entries.map fun entry =>
          (entry.1, (MetadataBlock.freeBlocksToInteger entry.2).toNat)).map Prod.fst := by
        intro member
        rw [List.map_map] at member
        exact absent (AList.mem_keys.mpr member)
      rcases others block unread with same | ⟨-, -, handle, known, rfl⟩
      · exact same
      · exact absurd (held handle known).mem_blocks absent

/-- What is loaded with a header is what was in force when it was written. -/
theorem HeaderWritten.loadFreeList {header : DatabaseHeader}
    (written : HeaderWritten references manager header handles next) {contents : MetadataContents}
    (same : ∀ handle ∈ handles, contents handle = next.contents handle) :
    ∃ loaded, (ofHeader next.sizes header contents).loadFreeList header.freeList = .ok loaded ∧
      Restored next loaded ∧ loaded.contents = contents := by
  obtain ⟨first, isFirst, follows⟩ := written.freeList
  have large : pointerSize < next.sizes.metadataBlockSize := by
    have atLeast := next.sizes.le_metadataBlockSize
    have small : pointerSize = 8 := rfl
    omega
  have reads := MetadataReader.reads_create .create (follows_frame follows same)
  obtain ⟨multi, hmulti⟩ : ∃ multi, multi =
      next.multiUseBlocks.entries.map fun entry => ((entry.1, entry.2) : Nat × Nat) := ⟨_, rfl⟩
  obtain ⟨parts, hparts⟩ : ∃ parts, parts = next.metadata.blocks.entries.map fun entry =>
      ((entry.1, (MetadataBlock.freeBlocksToInteger entry.2).toNat) : Nat × Nat) := ⟨_, rfl⟩
  have multiBytes : next.multiUseBlocks.entries.flatMap multiUseBytes =
      multi.flatMap fun entry => valueBytes 8 entry.1 ++ valueBytes 4 entry.2 := by
    rw [hmulti, List.flatMap_map]
    rfl
  have partBytes : next.metadata.blocks.entries.flatMap metadataBytes =
      parts.flatMap (fun item => valueBytes 8 item.1 ++ valueBytes 8 item.2) ++ [] := by
    rw [hparts, List.flatMap_map, List.append_nil]
    rfl
  have multiCount : next.multiUseBlocks.entries.length = multi.length := by
    rw [hmulti, List.length_map]
  have partCount : next.metadata.blocks.entries.length = parts.length := by
    rw [hparts, List.length_map]
  have distinct : (parts.map Prod.fst).Nodup := by
    rw [hparts, List.map_map]
    exact next.metadata.blocks.keys_nodup
  rw [freeListStream, multiBytes, partBytes, multiCount, partCount] at reads
  obtain ⟨r₁, read₁, reads₁, size₁, kept₁⟩ :=
    MetadataReader.readValue_spec (by decide) large reads
  obtain ⟨r₂, read₂, reads₂, size₂, kept₂⟩ := MetadataReader.readMany_spec (valueBytes 8)
    (MetadataReader.Registers handles) (MetadataReader.Registers.refl handles)
    MetadataReader.Registers.trans next.freeList.elements
    (fun _ _ _ _ large reads => MetadataReader.readValue_spec (by decide) large reads)
    (size₁ ▸ large) reads₁
  obtain ⟨r₃, read₃, reads₃, size₃, kept₃⟩ :=
    MetadataReader.readValue_spec (by decide) (size₂ ▸ size₁ ▸ large) reads₂
  obtain ⟨r₄, read₄, reads₄, size₄, kept₄⟩ := MetadataReader.readMany_spec
    (fun entry : Nat × Nat => valueBytes 8 entry.1 ++ valueBytes 4 entry.2)
    (MetadataReader.Registers handles) (MetadataReader.Registers.refl handles)
    MetadataReader.Registers.trans multi
    (fun _ _ _ _ large reads => readMultiUse_spec large reads)
    (size₃ ▸ size₂ ▸ size₁ ▸ large) reads₃
  obtain ⟨r₅, read₅, reads₅, size₅, kept₅⟩ :=
    MetadataReader.readValue_spec (by decide) (size₄ ▸ size₃ ▸ size₂ ▸ size₁ ▸ large) reads₄
  obtain ⟨r₆, read₆, read_blocks⟩ := readMetadataBlocks_spec parts distinct
    (size₅ ▸ size₄ ▸ size₃ ▸ size₂ ▸ size₁ ▸ large) reads₅
  have read_blocks := readBlocks_of_registers
    (kept₁.trans (kept₂.trans (kept₃.trans (kept₄.trans kept₅)))) read_blocks
  have all := blocks_of_read written.held (hparts ▸ read_blocks)
  obtain ⟨manager', hmanager'⟩ : ∃ manager', manager' =
      ({ ofHeader next.sizes header contents with
        freeList := OrderedSet.insertAll ∅ next.freeList.elements
        newlyFreedList := (ofHeader next.sizes header contents).newlyFreedList.insertAll
          next.freeList.elements
        multiUseBlocks :=
          multi.foldl (fun blocks (entry : Nat × Nat) => blocks.insert entry.1 entry.2) ∅
        metadata := r₆.manager } : SingleFileBlockManager) := ⟨_, rfl⟩
  have unmarked : manager'.metadata.modifiedBlocks = ∅ := by
    rw [hmanager']
    exact read_blocks.1
  refine ⟨manager'.markBlocksAsModified, ?_, ?_, ?_⟩
  · rw [isFirst, SingleFileBlockManager.loadFreeList]
    dsimp only [bind, Except.bind, pure, Except.pure]
    have begun : (MetadataReader.create (ofHeader next.sizes header contents).sizes.metadataBlockSize
        (ofHeader next.sizes header contents).contents
        (ofHeader next.sizes header contents).metadata first).readValue 8 =
        .ok (next.freeList.size, r₁) := read₁
    rw [begun]
    dsimp only
    rw [OrderedSet.size, read₂]
    dsimp only
    rw [read₃]
    dsimp only
    rw [read₄]
    dsimp only
    rw [read₅]
    dsimp only
    rw [read₆, hmanager']
  · rw [markBlocksAsModified_of_unmarked unmarked, hmanager']
    refine ⟨rfl, written.blockCount, ?_, written.nothingModified.symm, fun block => ?_, all,
      fun block => ?_⟩
    · exact OrderedSet.ext fun block => by
        change block ∈ OrderedSet.insertAll ∅ next.freeList.elements ↔ _
        rw [OrderedSet.mem_insertAll, OrderedSet.mem_def]
        exact or_iff_left OrderedSet.not_mem_empty
    · dsimp only
      rw [hmulti, List.foldl_map, lookup_foldl_insert (fun count => count) _
        next.multiUseBlocks.nodupKeys, AList.lookup_empty, Option.or_none, Option.map_id']
      rfl
    · dsimp only
      rw [lookup_occupiedLists, written.occupied, lookup_occupiedLists, all, Option.map_map]
      congr 1
      funext freeBlocks
      dsimp only [Function.comp]
      rw [MetadataBlock.freeBlocksToInteger_blocksFromInteger]
  · rw [markBlocksAsModified_of_unmarked unmarked, hmanager']
    rfl

namespace Restored

variable {saved loaded : SingleFileBlockManager}

section

variable (restored : Restored saved loaded)
include restored

theorem mem_blocks (block : Nat) :
    block ∈ loaded.metadata.blocks ↔ block ∈ saved.metadata.blocks := by
  rw [← AList.lookup_isSome, restored.blocks, Option.isSome_map, AList.lookup_isSome]

theorem inUse (pointer : MetadataPointer) : loaded.InUse pointer ↔ saved.InUse pointer := by
  rw [InUse, InUse, restored.blocks]
  refine and_congr_right fun inside => ?_
  have parts : ∀ freeBlocks, pointer.index ∈ MetadataBlock.blocksFromInteger
      (MetadataBlock.freeBlocksToInteger freeBlocks) ↔ pointer.index ∈ freeBlocks := by
    intro freeBlocks
    rw [MetadataBlock.mem_blocksFromInteger, MetadataBlock.getLsbD_freeBlocksToInteger,
      decide_eq_true_eq]
    exact and_iff_right inside
  constructor
  · rintro ⟨freeBlocks, found, outside⟩
    obtain ⟨before, held, rfl⟩ := Option.map_eq_some_iff.mp found
    exact ⟨before, held, fun member => outside ((parts before).mpr member)⟩
  · rintro ⟨freeBlocks, held, outside⟩
    exact ⟨_, by rw [held]; rfl, fun member => outside ((parts freeBlocks).mp member)⟩

theorem marked (pointer : MetadataPointer) : loaded.Marked pointer ↔ saved.Marked pointer := by
  rw [Marked, restored.marks, Marked]

theorem accounted (accounted : Accounted references saved) : Accounted references loaded := by
  refine ⟨fun block member => ?_, fun block member => ?_, fun block member => ?_, fun block => ?_,
    fun block => ?_, fun block freeBlocks found => ?_⟩
  · rw [restored.freeList] at member
    rw [restored.modifiedBlocks, restored.mem_blocks]
    exact accounted.free block member
  · rw [restored.modifiedBlocks] at member
    rw [restored.mem_blocks]
    exact accounted.modified block member
  · exact accounted.metadata block ((restored.mem_blocks block).mp member)
  · rw [restored.maxBlock, restored.freeList, restored.modifiedBlocks, restored.mem_blocks]
    exact accounted.known block
  · rw [restored.multiUse]
    exact accounted.multiUse block
  · rw [restored.blocks] at found
    obtain ⟨before, -, rfl⟩ := Option.map_eq_some_iff.mp found
    exact ⟨MetadataBlock.nodup_blocksFromInteger _, fun index member =>
      BitVec.lt_of_getLsbD (MetadataBlock.mem_blocksFromInteger.mp member)⟩

theorem marksKnown (marks : MarksKnown saved) :
    MarksKnown loaded where
  known := fun block member => by
    rw [← AList.lookup_isSome, restored.marks, AList.lookup_isSome] at member
    exact (restored.mem_blocks block).mpr (marks.known block member)
  inUse := fun pointer isMarked => (restored.inUse pointer).mpr
    (marks.inUse pointer ((restored.marked pointer).mp isMarked))

end

end Restored

end SingleFileBlockManager

end StatsRecommender
