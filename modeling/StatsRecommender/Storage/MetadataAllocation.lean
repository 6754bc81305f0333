import StatsRecommender.Storage.BlockAccounting

/-!
# Metadata blocks that are handed out

A part of a metadata block is handed out once; when a header is written, the parts that the last one
had are free again, and blocks without a part in use are given back.
-/

namespace StatsRecommender

variable {block : Nat} {freeBlocks : List Nat}

namespace SingleFileBlockManager

variable {manager next : SingleFileBlockManager} {references : Nat → Nat}

/-! ## AllocateHandle -/

/-- What handing out a part of a metadata block does. -/
structure Handed (references : Nat → Nat) (manager : SingleFileBlockManager)
    (pointer : MetadataPointer) (next : SingleFileBlockManager) : Prop where
  accounted : Accounted references next
  fresh : ¬ manager.InUse pointer
  held : next.InUse pointer
  inUse : ∀ other, manager.InUse other → next.InUse other
  same : next = { manager with
    freeList := next.freeList
    newlyFreedList := next.newlyFreedList
    maxBlock := next.maxBlock
    metadata.blocks := next.metadata.blocks }
  free : ∀ block ∈ next.freeList, block ∈ manager.freeList
  grown : manager.maxBlock ≤ next.maxBlock
  blocks : ∀ block ∈ next.metadata.blocks, block ∈ manager.metadata.blocks ∨
    block ∈ manager.freeList ∨ manager.maxBlock ≤ block
  kept : ∀ block ∈ manager.metadata.blocks, block ∈ next.metadata.blocks
  bytes : next.freeListBytes ≤ manager.freeListBytes + 16

section

variable (accounted : Accounted references manager)
include accounted

/-- Metadata blocks with other free parts are still accounted for. -/
theorem Accounted.insertParts (present : block ∈ manager.metadata.blocks)
    (parts : freeBlocks.Nodup ∧ ∀ index ∈ freeBlocks, index < metadataBlockCount) :
    Accounted references { manager with
      metadata.blocks := manager.metadata.blocks.insert block freeBlocks } := by
  have same : ∀ other, other ∈ manager.metadata.blocks.insert block freeBlocks ↔
      other ∈ manager.metadata.blocks := by
    intro other
    rw [AList.mem_insert]
    exact or_iff_right_of_imp fun here => here ▸ present
  refine ⟨fun other member => ?_, fun other member => ?_, fun other member => ?_, fun other => ?_,
    accounted.multiUse, fun other otherParts found => ?_⟩
  · rw [same]
    exact accounted.free other member
  · rw [same]
    exact accounted.modified other member
  · exact accounted.metadata other ((same other).mp member)
  · rw [same]
    exact accounted.known other
  · by_cases here : other = block
    · rw [here, AList.lookup_insert] at found
      cases found
      exact parts
    · rw [AList.lookup_insert_ne here] at found
      exact accounted.parts other otherParts found

/-- The last free part of a block is handed out. -/
theorem Accounted.takeMetadataBlock (found : manager.metadata.blocks.lookup block = some freeBlocks)
    (some_free : freeBlocks ≠ []) :
    ∃ pointer next,
      manager.takeMetadataBlock block = .ok (pointer, next) ∧ pointer.blockIndex = block ∧
        Handed references manager pointer next ∧ next.maxBlock = manager.maxBlock ∧
        next.freeListBytes = manager.freeListBytes := by
  obtain ⟨first, index, rfl⟩ : ∃ first index, freeBlocks = first ++ [index] :=
    ⟨_, _, (List.dropLast_append_getLast some_free).symm⟩
  have present : block ∈ manager.metadata.blocks := by
    rw [← AList.lookup_isSome, found]
    rfl
  obtain ⟨nodup, small⟩ := accounted.parts block _ found
  obtain ⟨distinct, -, apart⟩ := List.nodup_append.mp nodup
  have bytes : ({ manager with
      metadata.blocks := manager.metadata.blocks.insert block first } :
        SingleFileBlockManager).freeListBytes = manager.freeListBytes := by
    rw [freeListBytes, freeListBytes]
    dsimp only
    rw [AList.length_insert_of_mem first present]
  refine ⟨⟨block, index⟩, { manager with
    metadata.blocks := manager.metadata.blocks.insert block first }, ?_, rfl,
    ⟨accounted.insertParts present ⟨distinct, fun other member => ?_⟩, ?_, ?_, ?_, rfl,
      fun _ member => member, Nat.le_refl _, ?_, ?_, ?_⟩, rfl, bytes⟩
  · rw [SingleFileBlockManager.takeMetadataBlock, found]
    dsimp only
    rw [List.getLast?_append_of_ne_nil _ (List.cons_ne_nil _ _), List.dropLast_concat]
    rfl
  · exact small other (List.mem_append_left _ member)
  · rintro ⟨-, parts, held, outside⟩
    cases held.symm.trans found
    exact outside (List.mem_append_right _ List.mem_cons_self)
  · exact ⟨small index (List.mem_append_right _ List.mem_cons_self), first, AList.lookup_insert _,
      fun member => apart index member index List.mem_cons_self rfl⟩
  · rintro other ⟨inside, parts, held, outside⟩
    by_cases here : other.blockIndex = block
    · refine ⟨inside, first, by rw [here, AList.lookup_insert], fun member => outside ?_⟩
      rw [here] at held
      cases held.symm.trans found
      exact List.mem_append_left _ member
    · exact ⟨inside, parts, by rw [AList.lookup_insert_ne here, held], outside⟩
  · intro other member
    rcases AList.mem_insert _ |>.mp member with rfl | before
    · exact .inl present
    · exact .inl before
  · intro other member
    exact (AList.mem_insert _).mpr (.inr member)
  · rw [bytes]
    exact Nat.le_add_right _ _

/-- A new metadata block, all parts of which are free. -/
theorem Accounted.allocateNewBlock :
    ∃ block next, manager.allocateNewBlock = .ok (block, next) ∧ Accounted references next ∧
      next.metadata.blocks.lookup block = some (List.range metadataBlockCount).reverse ∧
      block ∉ manager.metadata.blocks ∧ (block ∈ manager.freeList ∨ manager.maxBlock ≤ block) ∧
      next.metadata.blocks =
        manager.metadata.blocks.insert block (List.range metadataBlockCount).reverse ∧
      next = { manager with
        freeList := next.freeList
        newlyFreedList := next.newlyFreedList
        maxBlock := next.maxBlock
        metadata.blocks := next.metadata.blocks } ∧
      (∀ other ∈ next.freeList, other ∈ manager.freeList) ∧ manager.maxBlock ≤ next.maxBlock ∧
      next.freeListBytes ≤ manager.freeListBytes + 16 := by
  obtain ⟨block, freeList, newlyFreedList, maxBlock, given, left, smaller, source⟩ :=
    manager.getFreeBlockId_spec
  obtain ⟨unused, grown⟩ := accounted.getFreeBlockId newlyFreedList left source
  obtain ⟨blocks, hblocks⟩ : ∃ blocks, blocks =
      manager.metadata.blocks.insert block (List.range metadataBlockCount).reverse := ⟨_, rfl⟩
  have mem_blocks : ∀ other, other ∈ blocks ↔ other = block ∨ other ∈ manager.metadata.blocks := by
    intro other
    rw [hblocks]
    exact AList.mem_insert _
  refine ⟨block, { manager with freeList, newlyFreedList, maxBlock, metadata.blocks := blocks }, ?_,
    ⟨fun other member => ?_, fun other member => ?_, fun other member => ?_, fun other => ?_,
      accounted.multiUse, fun other parts found => ?_⟩, ?_, unused.metadata, ?_, hblocks, rfl,
    fun other member => ((left other).mp member).2, ?_, ?_⟩
  · rw [SingleFileBlockManager.allocateNewBlock, given]
    dsimp only [bind, Except.bind, pure, Except.pure]
    rw [MetadataManager.addBlock, if_neg unused.metadata, hblocks]
  · obtain ⟨different, free⟩ := (left other).mp member
    obtain ⟨modified, metadata, unreferenced⟩ := accounted.free other free
    refine ⟨modified, fun inside => ?_, unreferenced⟩
    exact ((mem_blocks other).mp inside).elim different metadata
  · obtain ⟨metadata, unreferenced⟩ := accounted.modified other member
    refine ⟨fun inside => ((mem_blocks other).mp inside).elim (fun same => ?_) metadata, unreferenced⟩
    exact unused.modified (same ▸ member)
  · rcases (mem_blocks other).mp member with rfl | before
    · exact unused.references
    · exact accounted.metadata other before
  · rw [grown, mem_blocks, accounted.known, left]
    by_cases here : other = block
    · simp [here]
    · simp [here]
  · dsimp only at found
    rw [hblocks] at found
    by_cases here : other = block
    · rw [here, AList.lookup_insert] at found
      cases found
      exact ⟨List.nodup_reverse.mpr List.nodup_range, fun index member =>
        List.mem_range.mp (List.mem_reverse.mp member)⟩
    · rw [AList.lookup_insert_ne here] at found
      exact accounted.parts other parts found
  · dsimp only
    rw [hblocks, AList.lookup_insert]
  · rcases source with ⟨free, -⟩ | ⟨-, rfl, -⟩
    · exact .inl free
    · exact .inr (Nat.le_refl _)
  · rcases source with ⟨-, rfl⟩ | ⟨-, -, rfl⟩
    · exact Nat.le_refl _
    · exact Nat.le_succ _
  · have more := AList.length_insert_le block (List.range metadataBlockCount).reverse
      manager.metadata.blocks
    rw [freeListBytes, freeListBytes]
    dsimp only
    rw [hblocks]
    omega

/-- `AllocateHandle` hands out a part that was not in use. -/
theorem Accounted.allocateHandle (order : MetadataManager → List Nat) : ∃ pointer next,
      manager.allocateHandle order = .ok (pointer, next) ∧
        Handed references manager pointer next := by
  have fresh_block : ∃ pointer next,
      (manager.allocateNewBlock >>= fun pair => pair.2.takeMetadataBlock pair.1) = .ok (pointer, next) ∧
        Handed references manager pointer next := by
    obtain ⟨block, middle, allocated, accounted', found, absent, source, hblocks, same, free, grown,
      bytes⟩ := accounted.allocateNewBlock
    obtain ⟨pointer, next, taken, here, handed, -, bytes'⟩ :=
      accounted'.takeMetadataBlock found (by decide)
    refine ⟨pointer, next, ?_, ⟨handed.accounted, ?_, handed.held, ?_, ?_, ?_, ?_, ?_, ?_, ?_⟩⟩
    · rw [allocated]
      exact taken
    · exact fun inUse => absent (here ▸ inUse.mem_blocks)
    · rintro other ⟨inside, parts, held, outside⟩
      have different : other.blockIndex ≠ block := by
        intro same_block
        rw [← AList.lookup_eq_none, ← same_block, held] at absent
        cases absent
      refine handed.inUse other ⟨inside, parts, ?_, outside⟩
      rw [hblocks, AList.lookup_insert_ne different, held]
    · have outer := handed.same
      rw [same] at outer
      exact outer
    · exact fun other member => free other (handed.free other member)
    · exact Nat.le_trans grown handed.grown
    · intro other member
      have older : ∀ other ∈ middle.metadata.blocks, other ∈ manager.metadata.blocks ∨
          other ∈ manager.freeList ∨ manager.maxBlock ≤ other := by
        intro other member
        rw [hblocks] at member
        rcases (AList.mem_insert _).mp member with rfl | before
        · exact .inr source
        · exact .inl before
      rcases handed.blocks other member with before | freed | behind
      · exact older other before
      · exact .inr (.inl (free other freed))
      · exact .inr (.inr (Nat.le_trans grown behind))
    · intro other member
      refine handed.kept other ?_
      rw [hblocks]
      exact (AList.mem_insert _).mpr (.inr member)
    · omega
  rw [SingleFileBlockManager.allocateHandle]
  cases free : (order manager.metadata).find? manager.metadata.hasFreeBlocks with
  | none => exact fresh_block
  | some freeBlock =>
      dsimp only
      split
      · exact fresh_block
      · have has := List.find?_some free
        rw [MetadataManager.hasFreeBlocks] at has
        cases found : manager.metadata.blocks.lookup freeBlock with
        | none =>
            rw [found] at has
            cases has
        | some freeBlocks =>
            rw [found] at has
            obtain ⟨pointer, next, taken, -, handed, -⟩ :=
              accounted.takeMetadataBlock found (fun empty => by rw [empty] at has; cases has)
            exact ⟨pointer, next, taken, handed⟩

end

/-! ## MarkBlocksAsModified -/

/-- What merging the marks of a metadata block does. -/
structure Merged (references : Nat → Nat) (manager : SingleFileBlockManager)
    (modified : Σ _ : Nat, BitVec 64) (next : SingleFileBlockManager) : Prop where
  accounted : Accounted references next
  inUse : ∀ pointer, manager.InUse pointer →
    ¬ (pointer.blockIndex = modified.1 ∧ modified.2.getLsbD pointer.index = true) →
    next.InUse pointer
  same : next = { manager with
    modifiedBlocks := next.modifiedBlocks
    metadata.blocks := next.metadata.blocks }
  blocks : ∀ block ∈ next.metadata.blocks, block ∈ manager.metadata.blocks
  less : next.metadata.blocks.entries.length ≤ manager.metadata.blocks.entries.length
  bytes : next.modifiedBlocks.size + next.metadata.blocks.entries.length ≤
    manager.modifiedBlocks.size + manager.metadata.blocks.entries.length

/-- The marks of one metadata block. -/
theorem Accounted.mergeModified (accounted : Accounted references manager)
    (modified : Σ _ : Nat, BitVec 64) :
    Merged references manager modified (manager.mergeModified modified) := by
  obtain ⟨block, mask⟩ := modified
  rw [SingleFileBlockManager.mergeModified]
  dsimp only
  cases found : manager.metadata.blocks.lookup block with
  | none => exact ⟨accounted, fun _ inUse _ => inUse, rfl, fun _ member => member, Nat.le_refl _,
      Nat.le_refl _⟩
  | some freeBlocks =>
      have present : block ∈ manager.metadata.blocks := by
        rw [← AList.lookup_isSome, found]
        rfl
      have free_iff : ∀ index, (MetadataBlock.freeBlocksToInteger freeBlocks ||| mask).getLsbD index
          = true ↔ (index < metadataBlockCount ∧ index ∈ freeBlocks) ∨ mask.getLsbD index = true := by
        intro index
        rw [BitVec.getLsbD_or, Bool.or_eq_true, MetadataBlock.getLsbD_freeBlocksToInteger,
          decide_eq_true_eq]
      dsimp only
      split
      · rename_i all
        have outside := accounted.metadata block present
        have single : manager.multiUseBlocks.lookup block = none := by
          rw [accounted.multiUse, outside]
          rfl
        have next : SingleFileBlockManager.markBlockAsModified { manager with
            metadata.blocks := manager.metadata.blocks.erase block } block =
            { manager with
              modifiedBlocks := manager.modifiedBlocks.insert block
              metadata.blocks := manager.metadata.blocks.erase block } := by
          rw [SingleFileBlockManager.markBlockAsModified]
          dsimp only
          rw [single]
        rw [next]
        refine ⟨⟨fun other member => ?_, fun other member => ?_, fun other member => ?_,
          fun other => ?_, accounted.multiUse, fun other parts held => ?_⟩,
          fun pointer inUse unmarked => ?_, rfl, fun other member => (AList.mem_erase.mp member).2,
          ?_, ?_⟩
        · obtain ⟨unmodified, metadata, unreferenced⟩ := accounted.free other member
          refine ⟨fun inside => ?_, fun inside => metadata (AList.mem_erase.mp inside).2,
            unreferenced⟩
          rcases OrderedSet.mem_insert.mp inside with rfl | before
          · exact metadata present
          · exact unmodified before
        · rcases OrderedSet.mem_insert.mp member with rfl | before
          · exact ⟨fun inside => (AList.mem_erase.mp inside).1 rfl, outside⟩
          · obtain ⟨metadata, unreferenced⟩ := accounted.modified other before
            exact ⟨fun inside => metadata (AList.mem_erase.mp inside).2, unreferenced⟩
        · exact accounted.metadata other (AList.mem_erase.mp member).2
        · rw [accounted.known, OrderedSet.mem_insert, AList.mem_erase]
          by_cases here : other = block
          · simp [here, present]
          · simp [here]
        · dsimp only at held
          by_cases here : other = block
          · rw [here, AList.lookup_erase] at held
            cases held
          · rw [AList.lookup_erase_ne here] at held
            exact accounted.parts other parts held
        · obtain ⟨inside, parts, held, free⟩ := inUse
          by_cases here : pointer.blockIndex = block
          · rw [here] at held
            cases held.symm.trans found
            have every := (free_iff pointer.index).mp (by
              rw [all, BitVec.getLsbD_allOnes]
              exact decide_eq_true inside)
            rcases every with ⟨-, member⟩ | marked
            · exact absurd member free
            · exact absurd ⟨here, marked⟩ unmarked
          · exact ⟨inside, parts, by dsimp only; rw [AList.lookup_erase_ne here, held], free⟩
        · have fewer := AList.length_erase_of_mem present
          dsimp only
          omega
        · have fewer := AList.length_erase_of_mem present
          have more := manager.modifiedBlocks.size_insert_le block
          dsimp only
          omega
      · refine ⟨accounted.insertParts present ⟨MetadataBlock.nodup_blocksFromInteger _,
          fun index member => BitVec.lt_of_getLsbD (MetadataBlock.mem_blocksFromInteger.mp member)⟩,
          fun pointer inUse unmarked => ?_, rfl, fun other member => ?_, ?_, ?_⟩
        · obtain ⟨inside, parts, held, free⟩ := inUse
          by_cases here : pointer.blockIndex = block
          · refine ⟨inside, _, by dsimp only; rw [here, AList.lookup_insert], fun member => ?_⟩
            rw [here] at held
            cases held.symm.trans found
            rcases (free_iff _).mp (MetadataBlock.mem_blocksFromInteger.mp member) with
              ⟨-, before⟩ | marked
            · exact free before
            · exact unmarked ⟨here, marked⟩
          · exact ⟨inside, parts, by dsimp only; rw [AList.lookup_insert_ne here, held], free⟩
        · rcases (AList.mem_insert _).mp member with rfl | before
          · exact present
          · exact before
        · exact Nat.le_of_eq (AList.length_insert_of_mem _ present)
        · dsimp only
          rw [AList.length_insert_of_mem _ present]

/-- The marks of all metadata blocks. -/
theorem Accounted.mergeAll (accounted : Accounted references manager)
    (marks : List (Σ _ : Nat, BitVec 64)) :
    Accounted references (marks.foldl SingleFileBlockManager.mergeModified manager) ∧
      (∀ pointer, manager.InUse pointer → (∀ modified ∈ marks,
        ¬ (pointer.blockIndex = modified.1 ∧ modified.2.getLsbD pointer.index = true)) →
        (marks.foldl SingleFileBlockManager.mergeModified manager).InUse pointer) ∧
      ∃ modifiedBlocks blocks,
        marks.foldl SingleFileBlockManager.mergeModified manager =
          { manager with modifiedBlocks, metadata.blocks := blocks } ∧
        (∀ block ∈ blocks, block ∈ manager.metadata.blocks) ∧
        blocks.entries.length ≤ manager.metadata.blocks.entries.length ∧
        modifiedBlocks.size + blocks.entries.length ≤
          manager.modifiedBlocks.size + manager.metadata.blocks.entries.length := by
  induction marks generalizing manager with
  | nil => exact ⟨accounted, fun _ inUse _ => inUse, _, _, rfl, fun _ member => member,
      Nat.le_refl _, Nat.le_refl _⟩
  | cons modified rest ih =>
      obtain ⟨accounted', inUse, same, blocks, less, bytes⟩ := accounted.mergeModified modified
      obtain ⟨last, inUse', modifiedBlocks, left, same', blocks', less', bytes'⟩ := ih accounted'
      refine ⟨last, fun pointer used unmarked => ?_, modifiedBlocks, left, ?_,
        fun block member => blocks block (blocks' block member), Nat.le_trans less' less,
        Nat.le_trans bytes' bytes⟩
      · exact inUse' pointer (inUse pointer used (unmarked modified List.mem_cons_self))
          fun other member => unmarked other (List.mem_cons_of_mem _ member)
      · rw [List.foldl_cons, same', same]

theorem lookup_foldl_insert {α β : Type} (value : α → β) (entries : List (Σ _ : Nat, α))
    (distinct : entries.NodupKeys) (start : AList fun _ : Nat => β) (key : Nat) :
    (entries.foldl (fun (left : AList fun _ : Nat => β) entry =>
      left.insert entry.1 (value entry.2)) start).lookup key =
        ((entries.dlookup key).map value).or (start.lookup key) := by
  induction entries generalizing start with
  | nil => rfl
  | cons entry rest ih =>
      obtain ⟨fresh, distinct⟩ := List.nodupKeys_cons.mp distinct
      rw [List.foldl_cons, ih distinct]
      by_cases here : key = entry.1
      · rw [here, List.dlookup_eq_none.mpr fresh, AList.lookup_insert, List.dlookup_cons_eq]
        rfl
      · rw [AList.lookup_insert_ne here, List.dlookup_cons_ne _ _ here]

/-- What is occupied of each metadata block. -/
theorem lookup_occupiedLists (blocks : AList fun _ : Nat => List Nat) (block : Nat) :
    (MetadataManager.occupiedLists blocks).lookup block =
      (blocks.lookup block).map fun freeBlocks =>
        ~~~MetadataBlock.freeBlocksToInteger freeBlocks := by
  rw [MetadataManager.occupiedLists, lookup_foldl_insert
    (fun freeBlocks => ~~~MetadataBlock.freeBlocksToInteger freeBlocks) _ blocks.nodupKeys,
    AList.lookup_empty, Option.or_none]
  rfl

/-- What `MarkBlocksAsModified` leaves: the marks are those parts that are in use. -/
theorem Accounted.markBlocksAsModified (accounted : Accounted references manager) :
    Accounted references manager.markBlocksAsModified ∧
      (∀ pointer, manager.InUse pointer → ¬ manager.Marked pointer →
        manager.markBlocksAsModified.InUse pointer) ∧
      MarksKnown manager.markBlocksAsModified ∧
      ∃ modifiedBlocks blocks,
        manager.markBlocksAsModified = { manager with
          modifiedBlocks
          metadata := ⟨blocks, MetadataManager.occupiedLists blocks⟩ } ∧
        (∀ block ∈ blocks, block ∈ manager.metadata.blocks) ∧
        blocks.entries.length ≤ manager.metadata.blocks.entries.length ∧
        modifiedBlocks.size + blocks.entries.length ≤
          manager.modifiedBlocks.size + manager.metadata.blocks.entries.length := by
  obtain ⟨merged, inUse, modifiedBlocks, blocks, same, known, less, bytes⟩ :=
    accounted.mergeAll manager.metadata.modifiedBlocks.entries
  have next : manager.markBlocksAsModified = { manager with
      modifiedBlocks
      metadata := ⟨blocks, MetadataManager.occupiedLists blocks⟩ } := by
    rw [SingleFileBlockManager.markBlocksAsModified, same]
  rw [same] at merged inUse
  rw [next]
  refine ⟨⟨merged.free, merged.modified, merged.metadata, merged.known, merged.multiUse,
    merged.parts⟩, fun pointer used unmarked => ?_, ⟨fun block member => ?_,
    fun pointer marked => ?_⟩, modifiedBlocks, blocks, rfl, known, less, bytes⟩
  · refine inUse pointer used fun modified member both => unmarked ⟨modified.2, ?_, both.2⟩
    rw [both.1]
    exact AList.mem_lookup_iff.mpr member
  · rw [← AList.lookup_isSome] at member ⊢
    rw [lookup_occupiedLists, Option.isSome_map] at member
    exact member
  · obtain ⟨mask, found, marked⟩ := marked
    dsimp only at found
    rw [lookup_occupiedLists, Option.map_eq_some_iff] at found
    obtain ⟨freeBlocks, held, rfl⟩ := found
    rw [BitVec.getLsbD_not, Bool.and_eq_true, decide_eq_true_eq, Bool.not_eq_true',
      MetadataBlock.getLsbD_freeBlocksToInteger, decide_eq_false_iff_not] at marked
    exact ⟨marked.1, freeBlocks, held, fun member => marked.2 ⟨marked.1, member⟩⟩

end SingleFileBlockManager

end StatsRecommender
