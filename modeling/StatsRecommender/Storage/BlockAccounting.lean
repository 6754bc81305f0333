import StatsRecommender.Storage.SingleFileBlockManager

/-!
# What blocks are used for

Every block is free, modified, a metadata block or referenced, and each operation keeps account of it.
-/

namespace StatsRecommender

variable {block maxBlock : Nat} {freeList : OrderedSet Nat}

/-! ## Sizes -/

namespace AList

variable {β : Type} {entries : AList fun _ : Nat => β} {key : Nat}

theorem length_entries (entries : AList fun _ : Nat => β) :
    entries.entries.length = entries.keys.length :=
  (List.length_map _).symm

theorem length_insert_le (key : Nat) (value : β) (entries : AList fun _ : Nat => β) :
    (entries.insert key value).entries.length ≤ entries.entries.length + 1 := by
  rw [length_entries, length_entries, AList.keys_insert, List.length_cons]
  exact Nat.succ_le_succ (List.length_erase_le ..)

theorem length_insert_of_mem (value : β) (present : key ∈ entries) :
    (entries.insert key value).entries.length = entries.entries.length := by
  have positive := List.length_pos_of_mem (AList.mem_keys.mp present)
  rw [length_entries, length_entries, AList.keys_insert, List.length_cons,
    List.length_erase_of_mem (AList.mem_keys.mp present)]
  omega

theorem length_erase_of_mem (present : key ∈ entries) :
    (entries.erase key).entries.length + 1 = entries.entries.length := by
  have positive := List.length_pos_of_mem (AList.mem_keys.mp present)
  rw [length_entries, length_entries, AList.keys_erase,
    List.length_erase_of_mem (AList.mem_keys.mp present)]
  omega

end AList

namespace SingleFileBlockManager

variable {manager : SingleFileBlockManager} {references : Nat → Nat}

/-! ## Accounts -/

/-- A part of a metadata block that is in use. -/
def InUse (manager : SingleFileBlockManager) (pointer : MetadataPointer) : Prop :=
  pointer.index < metadataBlockCount ∧
    ∃ freeBlocks, manager.metadata.blocks.lookup pointer.blockIndex = some freeBlocks ∧
      pointer.index ∉ freeBlocks

/-- A part that is free once the next header is written. -/
def Marked (manager : SingleFileBlockManager) (pointer : MetadataPointer) : Prop :=
  ∃ mask, manager.metadata.modifiedBlocks.lookup pointer.blockIndex = some mask ∧
    mask.getLsbD pointer.index = true

/-- Each block is in one state, and its references are counted. -/
structure Accounted (references : Nat → Nat) (manager : SingleFileBlockManager) : Prop where
  free : ∀ block ∈ manager.freeList, block ∉ manager.modifiedBlocks ∧
    block ∉ manager.metadata.blocks ∧ references block = 0
  modified : ∀ block ∈ manager.modifiedBlocks, block ∉ manager.metadata.blocks ∧
    references block = 0
  metadata : ∀ block ∈ manager.metadata.blocks, references block = 0
  known : ∀ block, block < manager.maxBlock ↔ block ∈ manager.freeList ∨
    block ∈ manager.modifiedBlocks ∨ block ∈ manager.metadata.blocks ∨ 0 < references block
  multiUse : ∀ block, manager.multiUseBlocks.lookup block =
    if 2 ≤ references block then some (references block) else none
  parts : ∀ block freeBlocks, manager.metadata.blocks.lookup block = some freeBlocks →
    freeBlocks.Nodup ∧ ∀ index ∈ freeBlocks, index < metadataBlockCount

/-- Only parts that are in use are marked. -/
structure MarksKnown (manager : SingleFileBlockManager) : Prop where
  known : ∀ block ∈ manager.metadata.modifiedBlocks, block ∈ manager.metadata.blocks
  inUse : ∀ pointer, manager.Marked pointer → manager.InUse pointer

/-- A block in use is a metadata block. -/
theorem InUse.mem_blocks {pointer : MetadataPointer} (inUse : manager.InUse pointer) :
    pointer.blockIndex ∈ manager.metadata.blocks := by
  obtain ⟨-, freeBlocks, found, -⟩ := inUse
  rw [← AList.lookup_isSome, found]
  rfl

/-- A block that `GetFreeBlockId` gives is not in use otherwise. -/
structure Unused (references : Nat → Nat) (manager : SingleFileBlockManager) (block : Nat) :
    Prop where
  free : block ∉ manager.freeList
  modified : block ∉ manager.modifiedBlocks
  metadata : block ∉ manager.metadata.blocks
  references : references block = 0

theorem Accounted.unused (accounted : Accounted references manager) :
    Unused references manager manager.maxBlock := by
  have outside := (not_congr (accounted.known manager.maxBlock)).mp (Nat.lt_irrefl _)
  push Not at outside
  obtain ⟨free, modified, metadata, unreferenced⟩ := outside
  exact ⟨free, modified, metadata, Nat.le_zero.mp unreferenced⟩

/-! ## Blocks of data -/

/-- The block that is given is taken from the free list or is a new one. -/
theorem getFreeBlockId_spec (manager : SingleFileBlockManager) :
    ∃ block freeList newlyFreedList maxBlock,
      manager.getFreeBlockId = (block, { manager with freeList, newlyFreedList, maxBlock }) ∧
      (∀ other, other ∈ freeList ↔ other ≠ block ∧ other ∈ manager.freeList) ∧
      freeList.size ≤ manager.freeList.size ∧
      (block ∈ manager.freeList ∧ maxBlock = manager.maxBlock ∨
        (∀ other, other ∉ manager.freeList) ∧ block = manager.maxBlock ∧
          maxBlock = manager.maxBlock + 1) := by
  rw [getFreeBlockId]
  cases elements : manager.freeList.elements with
  | nil =>
      have empty : ∀ other, other ∉ manager.freeList := by
        intro other member
        rw [OrderedSet.mem_def, elements] at member
        exact List.not_mem_nil member
      refine ⟨_, manager.freeList, manager.newlyFreedList, _, rfl, fun other => ?_, Nat.le_refl _,
        .inr ⟨empty, rfl, rfl⟩⟩
      exact ⟨fun member => absurd member (empty other), fun both => both.2⟩
  | cons block rest =>
      refine ⟨_, _, _, manager.maxBlock, rfl, fun other => OrderedSet.mem_eraseFirst elements, ?_,
        .inl ⟨?_, rfl⟩⟩
      · rw [OrderedSet.size, OrderedSet.eraseFirst, List.length_tail]
        exact Nat.sub_le _ _
      · rw [OrderedSet.mem_def, elements]
        exact List.mem_cons_self

/-- What is left once a block was given. -/
theorem Accounted.getFreeBlockId (accounted : Accounted references manager)
    (newlyFreedList : OrderedSet Nat)
    (left : ∀ other, other ∈ freeList ↔ other ≠ block ∧ other ∈ manager.freeList)
    (source : block ∈ manager.freeList ∧ maxBlock = manager.maxBlock ∨
      (∀ other, other ∉ manager.freeList) ∧ block = manager.maxBlock ∧
        maxBlock = manager.maxBlock + 1) :
    Unused references { manager with freeList, newlyFreedList, maxBlock } block ∧
      (∀ other, other < maxBlock ↔ other = block ∨ other < manager.maxBlock) := by
  have absent : block ∉ freeList := fun member => ((left block).mp member).1 rfl
  rcases source with ⟨free, rfl⟩ | ⟨-, rfl, rfl⟩
  · obtain ⟨modified, metadata, unreferenced⟩ := accounted.free block free
    refine ⟨⟨absent, modified, metadata, unreferenced⟩, fun other => ?_⟩
    constructor
    · exact .inr
    · rintro (rfl | below)
      · exact (accounted.known other).mpr (.inl free)
      · exact below
  · obtain ⟨-, modified, metadata, unreferenced⟩ := accounted.unused
    refine ⟨⟨absent, modified, metadata, unreferenced⟩, fun other => ?_⟩
    omega

/-- The block that was given is referenced once. -/
theorem Accounted.give (accounted : Accounted references manager) {newlyFreedList : OrderedSet Nat}
    (left : ∀ other, other ∈ freeList ↔ other ≠ block ∧ other ∈ manager.freeList)
    (source : block ∈ manager.freeList ∧ maxBlock = manager.maxBlock ∨
      (∀ other, other ∉ manager.freeList) ∧ block = manager.maxBlock ∧
        maxBlock = manager.maxBlock + 1) :
    Accounted (Function.update references block 1)
      { manager with freeList, newlyFreedList, maxBlock } := by
  obtain ⟨unused, grown⟩ := accounted.getFreeBlockId newlyFreedList left source
  have elsewhere : ∀ other, other ≠ block →
      Function.update references block 1 other = references other :=
    fun other different => Function.update_of_ne different _ _
  refine ⟨fun other member => ?_, fun other member => ?_, fun other member => ?_, fun other => ?_,
    fun other => ?_, accounted.parts⟩
  · obtain ⟨different, free⟩ := (left other).mp member
    rw [elsewhere other different]
    exact accounted.free other free
  · rw [elsewhere other fun same => unused.modified (same ▸ member)]
    exact accounted.modified other member
  · rw [elsewhere other fun same => unused.metadata (same ▸ member)]
    exact accounted.metadata other member
  · rw [grown, left]
    by_cases here : other = block
    · rw [here, Function.update_self]
      simp
    · rw [elsewhere other here, accounted.known]
      simp [here]
  · dsimp only
    rw [accounted.multiUse]
    by_cases here : other = block
    · rw [here, Function.update_self, unused.references]
      rfl
    · rw [elsewhere other here]

/-- A count that changes is none of a block without references. -/
theorem Accounted.unreferenced (accounted : Accounted references manager)
    (referenced : 0 < references block) (count : Nat) :
    (∀ other ∈ manager.freeList, other ∉ manager.modifiedBlocks ∧
      other ∉ manager.metadata.blocks ∧ Function.update references block count other = 0) ∧
    (∀ other ∈ manager.modifiedBlocks, other ∉ manager.metadata.blocks ∧
      Function.update references block count other = 0) ∧
    ∀ other ∈ manager.metadata.blocks, Function.update references block count other = 0 := by
  have stays : ∀ other, references other = 0 →
      Function.update references block count other = 0 := by
    intro other none
    rw [Function.update_of_ne fun same => ?_]
    · exact none
    · rw [same] at none
      exact absurd none (Nat.ne_of_gt referenced)
  refine ⟨fun other member => ?_, fun other member => ?_, fun other member => ?_⟩
  · obtain ⟨modified, metadata, none⟩ := accounted.free other member
    exact ⟨modified, metadata, stays other none⟩
  · obtain ⟨metadata, none⟩ := accounted.modified other member
    exact ⟨metadata, stays other none⟩
  · exact stays other (accounted.metadata other member)

theorem Accounted.not_free_of_referenced (accounted : Accounted references manager)
    (referenced : 0 < references block) : block ∉ manager.freeList ∧
      block ∉ manager.modifiedBlocks ∧ block ∉ manager.metadata.blocks := by
  refine ⟨fun member => ?_, fun member => ?_, fun member => ?_⟩
  · exact absurd (accounted.free block member).2.2 (Nat.ne_of_gt referenced)
  · exact absurd (accounted.modified block member).2 (Nat.ne_of_gt referenced)
  · exact absurd (accounted.metadata block member) (Nat.ne_of_gt referenced)

/-- A block that is freed has no references left. -/
theorem Accounted.markBlockAsFree (accounted : Accounted references manager)
    (referenced : 0 < references block) : ∃ next, manager.markBlockAsFree block = .ok next ∧
      Accounted (Function.update references block 0) next ∧
      next.metadata = manager.metadata ∧ next.maxBlock = manager.maxBlock ∧
      next.contents = manager.contents ∧ next.sizes = manager.sizes ∧
      ∀ other, other ∈ next.freeList ↔ other = block ∨ other ∈ manager.freeList := by
  obtain ⟨free, modified, metadata⟩ := accounted.not_free_of_referenced referenced
  obtain ⟨frees, modifies, describes⟩ := accounted.unreferenced referenced 0
  refine ⟨_, if_neg free, ⟨fun other member => ?_, modifies, describes, fun other => ?_,
    fun other => ?_, accounted.parts⟩, rfl, rfl, rfl, rfl, fun other => OrderedSet.mem_insert⟩
  · rcases OrderedSet.mem_insert.mp member with rfl | before
    · exact ⟨modified, metadata, Function.update_self _ _ _⟩
    · exact frees other before
  · rw [accounted.known, OrderedSet.mem_insert]
    by_cases here : other = block
    · rw [here, Function.update_self]
      simp [referenced]
    · rw [Function.update_of_ne here]
      simp [here]
  · dsimp only
    by_cases here : other = block
    · rw [here, Function.update_self, AList.lookup_erase]
      rfl
    · rw [Function.update_of_ne here, AList.lookup_erase_ne here, accounted.multiUse]

/-- A block that stays referenced is counted by the table if it is referenced more than once. -/
theorem Accounted.recount (accounted : Accounted references manager)
    (referenced : 0 < references block) {count : Nat} (positive : 0 < count)
    {multiUseBlocks : AList fun _ : Nat => Nat}
    (counted : multiUseBlocks.lookup block = if 2 ≤ count then some count else none)
    (others : ∀ other ≠ block, multiUseBlocks.lookup other = manager.multiUseBlocks.lookup other) :
    Accounted (Function.update references block count) { manager with multiUseBlocks } := by
  obtain ⟨frees, modifies, describes⟩ := accounted.unreferenced referenced count
  refine ⟨frees, modifies, describes, fun other => ?_, fun other => ?_, accounted.parts⟩
  · rw [accounted.known]
    by_cases here : other = block
    · rw [here, Function.update_self]
      simp [referenced, positive]
    · rw [Function.update_of_ne here]
  · by_cases here : other = block
    · rw [here, Function.update_self, counted]
    · rw [Function.update_of_ne here, others other here, accounted.multiUse]

/-- One reference less; without any left the block is modified. -/
theorem Accounted.markBlockAsModified (accounted : Accounted references manager)
    (referenced : 0 < references block) :
    Accounted (Function.update references block (references block - 1))
      (manager.markBlockAsModified block) := by
  obtain ⟨free, -, metadata⟩ := accounted.not_free_of_referenced referenced
  obtain ⟨frees, modifies, describes⟩ := accounted.unreferenced referenced (references block - 1)
  rw [SingleFileBlockManager.markBlockAsModified]
  by_cases many : 2 ≤ references block
  · have positive : 0 < references block - 1 := by omega
    rw [accounted.multiUse, if_pos many]
    dsimp only
    split
    · refine accounted.recount referenced positive ?_ fun other => AList.lookup_erase_ne
      rw [AList.lookup_erase, if_neg (by omega)]
    · refine accounted.recount referenced positive ?_ fun other => AList.lookup_insert_ne
      rw [AList.lookup_insert, if_pos (by omega)]
  · rw [accounted.multiUse, if_neg many]
    have last : references block - 1 = 0 := by omega
    refine ⟨fun other member => ?_, fun other member => ?_, describes, fun other => ?_,
      fun other => ?_, accounted.parts⟩
    · obtain ⟨unmodified, none⟩ := frees other member
      refine ⟨fun inside => ?_, none⟩
      rcases OrderedSet.mem_insert.mp inside with rfl | before
      · exact free member
      · exact unmodified before
    · rcases OrderedSet.mem_insert.mp member with rfl | before
      · exact ⟨metadata, by rw [Function.update_self, last]⟩
      · exact modifies other before
    · rw [accounted.known, OrderedSet.mem_insert]
      by_cases here : other = block
      · rw [here, Function.update_self]
        simp [referenced]
      · rw [Function.update_of_ne here]
        simp [here]
    · dsimp only
      rw [accounted.multiUse]
      by_cases here : other = block
      · rw [here, Function.update_self, last, if_neg many]
        rfl
      · rw [Function.update_of_ne here]

/-- What marking a block leaves as it is. -/
theorem markBlockAsModified_frame (manager : SingleFileBlockManager) (block : Nat) :
    ∃ multiUseBlocks modifiedBlocks, manager.markBlockAsModified block =
      { manager with multiUseBlocks, modifiedBlocks } := by
  rw [SingleFileBlockManager.markBlockAsModified]
  split
  · split
    · exact ⟨_, _, rfl⟩
    · exact ⟨_, _, rfl⟩
  · exact ⟨_, _, rfl⟩

/-- One reference more. -/
theorem Accounted.increaseBlockReferenceCount (accounted : Accounted references manager)
    (referenced : 0 < references block) :
    ∃ multiUseBlocks, manager.increaseBlockReferenceCount block = { manager with multiUseBlocks } ∧
      Accounted (Function.update references block (references block + 1))
        { manager with multiUseBlocks } := by
  have same : manager.increaseBlockReferenceCount block = { manager with
      multiUseBlocks := manager.multiUseBlocks.insert block (references block + 1) } := by
    rw [SingleFileBlockManager.increaseBlockReferenceCount, accounted.multiUse]
    by_cases many : 2 ≤ references block
    · rw [if_pos many]
    · have once : references block + 1 = 2 := by omega
      rw [if_neg many, once]
  refine ⟨_, same, accounted.recount referenced (Nat.succ_pos _) ?_
    fun other => AList.lookup_insert_ne⟩
  rw [AList.lookup_insert, if_pos (by omega)]

end SingleFileBlockManager

end StatsRecommender
