import StatsRecommender.Storage.PartialBlockContents

/-!
# Writes, merges and flushes of one manager

What each operation of a partial block manager does to its map and to what was flushed, as
long as no block reaches its use count.
-/

namespace StatsRecommender

variable {manager : PartialBlockManager} {segmentSize : Nat} {block : PartialBlock}
  {blocks : List (Nat × PartialBlock)} {output : BlockOutput} {segment : SegmentBuffer}
  {entry : Nat × PartialBlock}

open ByteMemory

namespace PartialBlockManager

/-- How often the block that a segment of a size goes to is used with it. -/
def useCount (manager : PartialBlockManager) (segmentSize : Nat) : Nat :=
  match manager.getPartialBlock segmentSize with
  | some (block, _) => block.state.blockUseCount + 1
  | none => 1

theorem reference_flushed (manager : PartialBlockManager) (state : PartialBlockState)
    (output : BlockOutput) : (manager.reference state output).flushed = output.flushed ∧
      (manager.reference state output).merged = output.merged := by
  unfold reference
  split
  · exact ⟨rfl, rfl⟩
  · exact ⟨rfl, rfl⟩

theorem allocateBlock_spec (manager : PartialBlockManager) (output : BlockOutput) :
    (manager.allocateBlock output).2.flushed = output.flushed ∧
      (manager.allocateBlock output).2.merged = output.merged ∧
      (manager.allocateBlock output).1.blockSize = manager.blockSize ∧
      (manager.allocateBlock output).1.offset = 0 ∧
      (manager.allocateBlock output).1.blockUseCount = 1 := by
  unfold allocateBlock
  split
  · exact ⟨rfl, rfl, rfl, rfl, rfl⟩
  · exact ⟨rfl, rfl, rfl, rfl, rfl⟩

theorem getPartialBlock_spec (found : manager.getPartialBlock segmentSize = some (block, blocks)) :
    ∃ room, segmentSize ≤ room ∧
      manager.partiallyFilledBlocks.Perm ((room, block) :: blocks) := by
  unfold getPartialBlock at found
  split at found
  · exact takeLowerBound_spec found
  · cases found

theorem hasBlockAllocation_iff (manager : PartialBlockManager) (segmentSize : Nat) :
    manager.hasBlockAllocation segmentSize = (manager.getPartialBlock segmentSize).isSome := by
  unfold hasBlockAllocation getPartialBlock
  by_cases small : segmentSize ≤ manager.maxPartialBlockSize
  · rw [if_pos small, decide_eq_true small, Bool.true_and]
  · rw [if_neg small, decide_eq_false small, Bool.false_and]
    rfl

end PartialBlockManager

/-- An output with other ids and counts but the same blocks is as orderly. -/
theorem Orderly.of_flushed {manager : PartialBlockManager} {output other : BlockOutput}
    (orderly : Orderly manager output) (same : other.flushed = output.flushed) :
    Orderly manager other :=
  ⟨orderly.blocks, same ▸ orderly.flushed, orderly.aligned⟩

section

variable (orderly : Orderly manager output)
include orderly

/-- The block found in the map is taken out of it, with the room asked for. -/
theorem Orderly.take (found : manager.getPartialBlock segmentSize = some (block, blocks)) :
    ∃ room, segmentSize ≤ room ∧ block.Shared manager.blockSize room ∧
      Orderly { manager with partiallyFilledBlocks := blocks } output ∧
      manager.records.Perm (block.record :: blocks.map fun entry => entry.2.record) := by
  obtain ⟨room, fits, perm⟩ := PartialBlockManager.getPartialBlock_spec found
  refine ⟨room, fits, orderly.blocks (room, block) (perm.mem_iff.mpr List.mem_cons_self),
    orderly.with_blocks fun entry member =>
      orderly.blocks entry (perm.mem_iff.mpr (List.mem_cons_of_mem _ member)), ?_⟩
  exact perm.map fun entry => entry.2.record

/-- A segment that starts a block of its own. -/
theorem flushSegment_fresh (fits : segment.size ≤ manager.blockSize)
    (absent : manager.getPartialBlock segment.size = none) (spared : 1 < manager.maxUseCount) :
    ∃ next nextOutput, manager.flushSegment output segment = .ok (next, nextOutput) ∧
      Leaves manager next nextOutput output.merged
        ((segment.id, [segment]) :: (output.records ++ manager.records)) := by
  obtain ⟨flushed, merged, size, offset, used⟩ := manager.allocateBlock_spec output
  unfold PartialBlockManager.flushSegment PartialBlockManager.getBlockAllocation
  rw [if_neg (Nat.not_lt.mpr fits), absent]
  dsimp only
  generalize manager.allocateBlock output = allocated at flushed merged size offset used ⊢
  obtain ⟨state, after⟩ := allocated
  dsimp only at flushed merged size offset used ⊢
  have fills := fills_segment segment
  have spec := registerPartialBlock_spec (orderly.of_flushed flushed)
    ⟨segment.id, state, [], segment.buffer, [⟨segment, 0⟩]⟩ segment.size size
    (by dsimp only; omega) (List.cons_ne_nil _ _)
    (by dsimp only; rw [offset]; exact fills) (by dsimp only; omega)
  rw [merged, BlockOutput.records, flushed] at spec
  exact spec

/-- A segment that is copied behind the contents of a block of the map. -/
theorem flushSegment_shared (fits : segment.size ≤ manager.blockSize)
    (found : manager.getPartialBlock segment.size = some (block, blocks))
    (spared : block.state.blockUseCount + 1 < manager.maxUseCount) :
    ∃ next nextOutput others, manager.flushSegment output segment = .ok (next, nextOutput) ∧
      (output.records ++ manager.records).Perm (block.record :: others) ∧
      Leaves manager next nextOutput output.merged
        ((block.blockHandle, block.record.2 ++ [segment]) :: others) := by
  obtain ⟨room, enough, shared, orderly, taken⟩ := orderly.take found
  unfold PartialBlockManager.flushSegment PartialBlockManager.getBlockAllocation
  rw [if_neg (Nat.not_lt.mpr fits), found]
  dsimp only
  generalize hstate : ({ block.state with blockUseCount := block.state.blockUseCount + 1 } :
    PartialBlockState) = state
  have offset : state.offset = block.state.offset := by rw [← hstate]
  have size : state.blockSize = manager.blockSize := by rw [← hstate]; exact shared.size
  have used : state.blockUseCount = block.state.blockUseCount + 1 := by rw [← hstate]
  have kept := manager.reference_flushed state output
  have fills := shared.fills.append (fills_segment segment)
  rw [List.map_nil, List.append_nil, List.map_singleton, PartialColumnSegment.shift] at fills
  dsimp only at fills
  rw [Nat.zero_add, Nat.add_comm] at fills
  have room_left := shared.room
  obtain ⟨next, nextOutput, ok, leaves⟩ := registerPartialBlock_spec
    (orderly.of_flushed kept.1)
    { block with
      state := state
      memory := copyTo block.memory segment.buffer block.state.offset segment.size
      segments := block.segments ++ [⟨segment, block.state.offset⟩] }
    segment.size size (by dsimp only; omega) (by simp)
    (by dsimp only; rw [offset]; exact fills) (by dsimp only; omega)
  have records : (manager.reference state output).records = output.records := by
    rw [BlockOutput.records, kept.1, BlockOutput.records]
  rw [kept.2, records] at leaves
  refine ⟨next, nextOutput, output.records ++ blocks.map fun entry => entry.2.record, ok, ?_, ?_⟩
  · exact (taken.append_left _).trans List.perm_middle
  · refine ⟨⟨leaves.settings.partialBlockType, leaves.settings.blockSize,
      leaves.settings.maxPartialBlockSize, leaves.settings.maxUseCount⟩, leaves.orderly,
      leaves.merged, ?_⟩
    have given := leaves.records
    simp only [PartialBlock.record, List.map_append, List.map_singleton] at given ⊢
    exact given

/-- A block of another manager whose contents move behind those of a block of the map. -/
theorem mergeBlock_shared (other : entry.2.Shared manager.blockSize entry.1)
    (found : manager.getPartialBlock (manager.blockSize - entry.1) = some (block, blocks))
    (spared : block.state.blockUseCount + 1 < manager.maxUseCount) :
    ∃ next nextOutput others, manager.mergeBlock output entry = .ok (next, nextOutput) ∧
      (output.records ++ manager.records).Perm (block.record :: others) ∧
      Leaves manager next nextOutput (output.merged ++ [entry.2.blockHandle])
        ((block.blockHandle, block.record.2 ++ entry.2.record.2) :: others) := by
  obtain ⟨room, enough, shared, orderly, taken⟩ := orderly.take found
  have other_room := other.room
  have extent : manager.blockSize - entry.1 = entry.2.state.offset := by omega
  unfold PartialBlockManager.mergeBlock
  dsimp only
  rw [if_pos (by rw [PartialBlockManager.hasBlockAllocation_iff, found]; rfl)]
  unfold PartialBlockManager.getBlockAllocation
  rw [found]
  dsimp only
  rw [extent] at enough ⊢
  generalize hstate : ({ block.state with blockUseCount := block.state.blockUseCount + 1 } :
    PartialBlockState) = state
  have offset : state.offset = block.state.offset := by rw [← hstate]
  have size : state.blockSize = manager.blockSize := by rw [← hstate]; exact shared.size
  have used : state.blockUseCount = block.state.blockUseCount + 1 := by rw [← hstate]
  have kept := manager.reference_flushed state output
  have fills := shared.fills.append other.fills
  rw [Nat.add_comm] at fills
  have room_left := shared.room
  obtain ⟨next, nextOutput, ok, leaves⟩ := registerPartialBlock_spec
    (@Orderly.of_flushed _ _ { manager.reference state output with
      merged := (manager.reference state output).merged ++ [entry.2.blockHandle] } orderly kept.1)
    (PartialBlock.merge { block with state := state } entry.2 block.state.offset
      entry.2.state.offset)
    entry.2.state.offset size (by simp only [PartialBlock.merge]; omega)
    (by simp [PartialBlock.merge, shared.nonempty])
    (by simp only [PartialBlock.merge]; rw [offset]; exact fills)
    (by simp only [PartialBlock.merge]; omega)
  refine ⟨next, nextOutput, output.records ++ blocks.map fun entry => entry.2.record, ok, ?_, ?_⟩
  · exact (taken.append_left _).trans List.perm_middle
  · refine ⟨⟨leaves.settings.partialBlockType, leaves.settings.blockSize,
      leaves.settings.maxPartialBlockSize, leaves.settings.maxUseCount⟩, leaves.orderly, ?_, ?_⟩
    · rw [leaves.merged]
      exact congrArg (· ++ _) kept.2
    · have given := leaves.records
      simp only [PartialBlock.record, PartialBlock.merge, List.map_append, List.map_map,
        BlockOutput.records, kept.1] at given ⊢
      exact given

/-- A block of another manager that is taken over as it is. -/
theorem mergeBlock_fresh (other : entry.2.Shared manager.blockSize entry.1)
    (absent : manager.getPartialBlock (manager.blockSize - entry.1) = none) :
    ∃ next, manager.mergeBlock output entry = .ok (next, output) ∧
      Leaves manager next output output.merged
        (entry.2.record :: (output.records ++ manager.records)) := by
  have perm := insertBlock_perm entry manager.partiallyFilledBlocks
  unfold PartialBlockManager.mergeBlock
  dsimp only
  rw [if_neg (by rw [PartialBlockManager.hasBlockAllocation_iff, absent]; decide)]
  refine ⟨_, rfl, ⟨rfl, rfl, rfl, rfl⟩, orderly.with_blocks fun block member => ?_, rfl, ?_⟩
  · rcases List.mem_cons.mp (perm.mem_iff.mp member) with rfl | before
    · exact other
    · exact orderly.blocks block before
  · have records := perm.map fun entry => entry.2.record
    exact (records.append_left _).trans List.perm_middle

end

/-- Flushing the map moves every block of it to what was flushed. -/
theorem flushBlocks_spec (shared : ∀ entry ∈ blocks, entry.2.Shared manager.blockSize entry.1)
    (orderly : Orderly manager output) :
    ∃ next, PartialBlockManager.flushBlocks manager.blockSize output blocks = .ok next ∧
      Orderly manager next ∧ next.merged = output.merged ∧
      next.records.Perm (output.records ++ blocks.map fun entry => entry.2.record) := by
  induction blocks generalizing output with
  | nil =>
      refine ⟨output, rfl, orderly, rfl, ?_⟩
      rw [List.map_nil, List.append_nil]
  | cons entry rest ih =>
      obtain ⟨middle, ok, after, merged, moved⟩ := orderly.flush (shared entry List.mem_cons_self)
      obtain ⟨next, rest_ok, finished, rest_merged, rest_moved⟩ :=
        ih (fun other member => shared other (List.mem_cons_of_mem _ member)) after
      refine ⟨next, ?_, finished, rest_merged.trans merged, ?_⟩
      · rw [PartialBlockManager.flushBlocks, ok]
        exact rest_ok
      · exact rest_moved.trans ((moved.append_right _).trans List.perm_middle.symm)

theorem flushPartialBlocks_spec (orderly : Orderly manager output) :
    ∃ next nextOutput, manager.flushPartialBlocks output = .ok (next, nextOutput) ∧
      Leaves manager next nextOutput output.merged (output.records ++ manager.records) ∧
      next.partiallyFilledBlocks = [] := by
  obtain ⟨nextOutput, ok, after, merged, moved⟩ := flushBlocks_spec orderly.blocks orderly
  refine ⟨{ manager with partiallyFilledBlocks := [] }, nextOutput, ?_, ?_, rfl⟩
  · rw [PartialBlockManager.flushPartialBlocks, ok]
    rfl
  · refine ⟨⟨rfl, rfl, rfl, rfl⟩,
      after.with_blocks fun _ member => absurd member List.not_mem_nil, merged, ?_⟩
    simpa [PartialBlockManager.records] using moved

end StatsRecommender
