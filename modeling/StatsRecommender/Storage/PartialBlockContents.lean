import Mathlib.Data.List.Perm.Basic
import StatsRecommender.Storage.PartialBlockManager

/-!
# The contents of partial blocks

Below its offset a partial block is tiled by segments and by regions that are zeroed when
the block is flushed.  Every operation of the manager keeps the tiling, as long as no block
reaches its use count.
-/

namespace StatsRecommender

variable {regions : List (Nat × Nat)} {segments : List PartialColumnSegment}
  {extent size blockSize freeSpace : Nat} {block : PartialBlock}
  {blocks : List (Nat × PartialBlock)} {manager : PartialBlockManager} {output : BlockOutput}

open ByteMemory

/-! ## Tilings -/

/-- The bytes below an extent are those of segments or belong to regions to be zeroed. -/
structure Fills (memory : Memory) (regions : List (Nat × Nat))
    (segments : List PartialColumnSegment) (extent : Nat) : Prop where
  placed : ∀ placed ∈ segments, placed.stop ≤ extent ∧ placed.HeldIn memory
  apart : segments.Pairwise PartialColumnSegment.Apart
  unused : ∀ region ∈ regions, region.2 ≤ extent ∧ ∀ placed ∈ segments, ∀ position,
    placed.Contains position → ¬ (region.1 ≤ position ∧ position < region.2)
  covered : ∀ position < extent, (∃ placed ∈ segments, placed.Contains position) ∨
    ∃ region ∈ regions, region.1 ≤ position ∧ position < region.2

/-- A segment fills the front of its own buffer. -/
theorem fills_segment (segment : SegmentBuffer) :
    Fills segment.buffer [] [⟨segment, 0⟩] segment.size := by
  constructor
  · intro placed member
    rw [List.mem_singleton.mp member]
    refine ⟨(Nat.zero_add _).le, fun index _ => ?_⟩
    rw [Nat.zero_add]
  · exact List.pairwise_singleton _ _
  · exact fun region member => absurd member List.not_mem_nil
  · intro position bound
    refine Or.inl ⟨_, List.mem_singleton.mpr rfl, Nat.zero_le _, ?_⟩
    simpa [PartialColumnSegment.stop] using bound

/-- A segment moved by an offset. -/
def PartialColumnSegment.shift (offset : Nat) (placed : PartialColumnSegment) :
    PartialColumnSegment :=
  ⟨placed.segment, placed.offsetInBlock + offset⟩

/-- A region moved by an offset. -/
def shiftRegion (offset : Nat) (region : Nat × Nat) : Nat × Nat :=
  (region.1 + offset, region.2 + offset)

/-- Contents that are copied behind other contents fill both extents together. -/
theorem Fills.append {memory other : Memory} {more : List (Nat × Nat)}
    {later : List PartialColumnSegment} (first : Fills memory regions segments extent)
    (second : Fills other more later size) :
    Fills (copyTo memory other extent size) (regions ++ more.map (shiftRegion extent))
      (segments ++ later.map (PartialColumnSegment.shift extent)) (extent + size) := by
  constructor
  · intro placed member
    rcases List.mem_append.mp member with here | there
    · obtain ⟨bound, held⟩ := first.placed placed here
      refine ⟨bound.trans (Nat.le_add_right _ _), fun index inside => ?_⟩
      rw [PartialColumnSegment.stop] at bound
      rw [copyTo_outside (Or.inl (by omega)), held index inside]
    · obtain ⟨origin, inside, rfl⟩ := List.mem_map.mp there
      obtain ⟨bound, held⟩ := second.placed origin inside
      simp only [PartialColumnSegment.stop, PartialColumnSegment.shift] at bound ⊢
      refine ⟨by omega, fun index below => ?_⟩
      change index < origin.segment.size at below
      have position : origin.offsetInBlock + extent + index =
          extent + (origin.offsetInBlock + index) := by omega
      change copyTo memory other extent size (origin.offsetInBlock + extent + index) = _
      rw [position, copyTo_inside (by omega), held index below]
  · refine List.pairwise_append.mpr ⟨first.apart, ?_, ?_⟩
    · refine List.pairwise_map.mpr (second.apart.imp fun apart => ?_)
      simp only [PartialColumnSegment.Apart, PartialColumnSegment.stop,
        PartialColumnSegment.shift] at apart ⊢
      omega
    · intro left hleft right hright
      obtain ⟨origin, -, rfl⟩ := List.mem_map.mp hright
      have bound := (first.placed left hleft).1
      exact Or.inl (bound.trans (Nat.le_add_left _ _))
  · intro region member
    rcases List.mem_append.mp member with here | there
    · obtain ⟨bound, unused⟩ := first.unused region here
      refine ⟨bound.trans (Nat.le_add_right _ _), fun placed inside position contains => ?_⟩
      rcases List.mem_append.mp inside with own | moved
      · exact unused placed own position contains
      · obtain ⟨origin, -, rfl⟩ := List.mem_map.mp moved
        simp only [PartialColumnSegment.Contains, PartialColumnSegment.shift] at contains
        omega
    · obtain ⟨origin, inside, rfl⟩ := List.mem_map.mp there
      obtain ⟨bound, unused⟩ := second.unused origin inside
      simp only [shiftRegion]
      refine ⟨by omega, fun placed inside position contains => ?_⟩
      rcases List.mem_append.mp inside with own | moved
      · have stop := (first.placed placed own).1
        simp only [PartialColumnSegment.Contains] at contains
        omega
      · obtain ⟨source, hsource, rfl⟩ := List.mem_map.mp moved
        have free := unused source hsource (position - extent)
        simp only [PartialColumnSegment.Contains, PartialColumnSegment.stop,
          PartialColumnSegment.shift] at contains free
        omega
  · intro position bound
    rcases Nat.lt_or_ge position extent with below | above
    · rcases first.covered position below with ⟨placed, inside, contains⟩ | ⟨region, inside, range⟩
      · exact Or.inl ⟨placed, List.mem_append_left _ inside, contains⟩
      · exact Or.inr ⟨region, List.mem_append_left _ inside, range⟩
    · rcases second.covered (position - extent) (by omega) with
        ⟨placed, inside, contains⟩ | ⟨region, inside, range⟩
      · refine Or.inl ⟨_, List.mem_append_right _ (List.mem_map_of_mem inside), ?_⟩
        simp only [PartialColumnSegment.Contains, PartialColumnSegment.stop,
          PartialColumnSegment.shift] at contains ⊢
        omega
      · refine Or.inr ⟨_, List.mem_append_right _ (List.mem_map_of_mem inside), ?_⟩
        simp only [shiftRegion]
        omega

/-- What alignment leaves out is registered as a region. -/
theorem Fills.extend {memory : Memory} (fills : Fills memory regions segments extent) {stop : Nat}
    (le : extent ≤ stop) : Fills memory (regions ++ [(extent, stop)]) segments stop := by
  constructor
  · intro placed member
    obtain ⟨bound, held⟩ := fills.placed placed member
    exact ⟨bound.trans le, held⟩
  · exact fills.apart
  · intro region member
    rcases List.mem_append.mp member with here | new
    · obtain ⟨bound, unused⟩ := fills.unused region here
      exact ⟨bound.trans le, unused⟩
    · rw [List.mem_singleton.mp new]
      refine ⟨le_rfl, fun placed inside position contains => ?_⟩
      have bound := (fills.placed placed inside).1
      simp only [PartialColumnSegment.Contains] at contains
      omega
  · intro position bound
    rcases Nat.lt_or_ge position extent with below | above
    · rcases fills.covered position below with inside | ⟨region, member, range⟩
      · exact Or.inl inside
      · exact Or.inr ⟨region, List.mem_append_left _ member, range⟩
    · exact Or.inr ⟨_, List.mem_append_right _ (List.mem_singleton.mpr rfl), above, bound⟩

/-! ## Flushing -/

/-- A flushed block holds its segments, apart from one another, and zeros elsewhere. -/
structure FlushedBlock.Correct (flushed : FlushedBlock) (blockSize : Nat) : Prop where
  inside : ∀ placed ∈ flushed.segments, placed.stop ≤ blockSize
  apart : flushed.segments.Pairwise PartialColumnSegment.Apart
  held : ∀ placed ∈ flushed.segments, placed.HeldIn flushed.memory
  zero : ∀ position < blockSize, (∀ placed ∈ flushed.segments, ¬ placed.Contains position) →
    flushed.memory position = 0

/-- A block of the map, under the room that it has left. -/
structure PartialBlock.Shared (block : PartialBlock) (blockSize freeSpace : Nat) : Prop where
  size : block.state.blockSize = blockSize
  room : freeSpace + block.state.offset = blockSize
  aligned : 8 ∣ block.state.offset
  nonempty : block.segments ≠ []
  fills : Fills block.memory block.uninitializedRegions block.segments block.state.offset

/-- What the ledger knows of a block: its handle and its segments. -/
def PartialBlock.record (block : PartialBlock) : Nat × List SegmentBuffer :=
  (block.blockHandle, block.segments.map PartialColumnSegment.segment)

def FlushedBlock.record (flushed : FlushedBlock) : Nat × List SegmentBuffer :=
  (flushed.blockHandle, flushed.segments.map PartialColumnSegment.segment)

theorem flushInternal_correct (shared : block.Shared blockSize freeSpace)
    (blockHandle blockId : Nat) :
    FlushedBlock.Correct ⟨blockHandle, blockId, block.flushInternal blockSize freeSpace,
      block.segments⟩ blockSize := by
  have room := shared.room
  have start : blockSize - freeSpace = block.state.offset := by omega
  constructor
  · intro placed member
    exact (shared.fills.placed placed member).1.trans (by omega)
  · exact shared.fills.apart
  · intro placed member index inside
    obtain ⟨bound, held⟩ := shared.fills.placed placed member
    rw [PartialColumnSegment.stop] at bound
    simp only [PartialBlock.flushInternal, start]
    split
    · rw [clear_outside (by omega), foldl_clear_outside fun region listed =>
        (shared.fills.unused region listed).2 placed member _
          ⟨Nat.le_add_right _ _, Nat.add_lt_add_left inside _⟩]
      exact held index inside
    · exact held index inside
  · intro position bound outside
    simp only [PartialBlock.flushInternal, start]
    split
    · by_cases tail : block.state.offset ≤ position
      · exact clear_inside ⟨tail, bound⟩
      · rw [clear_outside (by omega)]
        refine foldl_clear_inside ?_
        rcases shared.fills.covered position (by omega) with ⟨placed, member, contains⟩ | region
        · exact absurd contains (outside placed member)
        · exact region
    · rename_i nothing
      rw [not_or, Nat.not_lt, not_not] at nothing
      rcases shared.fills.covered position (by omega) with ⟨placed, member, contains⟩ | region
      · exact absurd contains (outside placed member)
      · obtain ⟨region, member, -⟩ := region
        rw [nothing.2] at member
        exact absurd member List.not_mem_nil

/-- A block of the map is flushed correctly, and nothing else is written. -/
theorem flush_spec (shared : block.Shared blockSize freeSpace) (output : BlockOutput) :
    ∃ next flushed, block.flush blockSize freeSpace output = .ok next ∧
      next.flushed = output.flushed ++ [flushed] ∧ next.merged = output.merged ∧
      flushed.record = block.record ∧ flushed.Correct blockSize := by
  have references : ∀ (segments : List PartialColumnSegment) (output : BlockOutput) (id : Nat),
      (segments.foldl (fun output _ => output.increaseBlockReferenceCount id) output).flushed =
        output.flushed ∧
      (segments.foldl (fun output _ => output.increaseBlockReferenceCount id) output).merged =
        output.merged := by
    intro segments output id
    induction segments generalizing output with
    | nil => exact ⟨rfl, rfl⟩
    | cons segment rest ih => exact ih (output.increaseBlockReferenceCount id)
  unfold PartialBlock.flush
  rw [if_neg shared.nonempty]
  cases block.state.blockId with
  | some blockId =>
      exact ⟨_, _, rfl, rfl, rfl, rfl, flushInternal_correct shared block.blockHandle blockId⟩
  | none =>
      have kept := references block.segments.tail output.getFreeBlockId.2 output.nextBlockId
      refine ⟨_, _, rfl, ?_, kept.2, rfl,
        flushInternal_correct shared block.blockHandle output.nextBlockId⟩
      exact congrArg (· ++ _) kept.1

/-! ## The map -/

def BlockOutput.records (output : BlockOutput) : List (Nat × List SegmentBuffer) :=
  output.flushed.map FlushedBlock.record

def PartialBlockManager.records (manager : PartialBlockManager) :
    List (Nat × List SegmentBuffer) :=
  manager.partiallyFilledBlocks.map fun entry => entry.2.record

theorem insertBlock_perm (entry : Nat × PartialBlock) (blocks : List (Nat × PartialBlock)) :
    (insertBlock entry blocks).Perm (entry :: blocks) := by
  induction blocks with
  | nil => exact .refl _
  | cons first rest ih =>
      rw [insertBlock]
      split
      · exact .refl _
      · exact (ih.cons first).trans (.swap entry first rest)

/-- The block found has the room asked for; the other entries stay. -/
theorem takeLowerBound_spec {others : List (Nat × PartialBlock)}
    (found : takeLowerBound size blocks = some (block, others)) :
    ∃ room, size ≤ room ∧ blocks.Perm ((room, block) :: others) := by
  induction blocks generalizing others with
  | nil => cases found
  | cons first rest ih =>
      rw [takeLowerBound] at found
      split at found
      · rename_i fits
        cases found
        exact ⟨first.1, fits, .refl _⟩
      · obtain ⟨⟨inner, remaining⟩, later, same⟩ := Option.map_eq_some_iff.mp found
        cases same
        obtain ⟨room, fits, perm⟩ := ih later
        exact ⟨room, fits, (perm.cons first).trans (.swap _ _ _)⟩

/-- The map of a manager and what was flushed are in order. -/
structure Orderly (manager : PartialBlockManager) (output : BlockOutput) : Prop where
  blocks : ∀ entry ∈ manager.partiallyFilledBlocks, entry.2.Shared manager.blockSize entry.1
  flushed : ∀ flushed ∈ output.flushed, flushed.Correct manager.blockSize
  aligned : 8 ∣ manager.blockSize

/-- The fields that no operation changes. -/
structure SameSettings (manager next : PartialBlockManager) : Prop where
  partialBlockType : next.partialBlockType = manager.partialBlockType
  blockSize : next.blockSize = manager.blockSize
  maxPartialBlockSize : next.maxPartialBlockSize = manager.maxPartialBlockSize
  maxUseCount : next.maxUseCount = manager.maxUseCount

theorem SameSettings.refl (manager : PartialBlockManager) : SameSettings manager manager :=
  ⟨rfl, rfl, rfl, rfl⟩

theorem SameSettings.trans {first second third : PartialBlockManager}
    (left : SameSettings first second) (right : SameSettings second third) :
    SameSettings first third :=
  ⟨right.partialBlockType.trans left.partialBlockType, right.blockSize.trans left.blockSize,
    right.maxPartialBlockSize.trans left.maxPartialBlockSize,
    right.maxUseCount.trans left.maxUseCount⟩

/-- A flush moves the record of a block from the map to what was flushed. -/
theorem Orderly.flush (orderly : Orderly manager output)
    (shared : block.Shared manager.blockSize freeSpace) :
    ∃ next, block.flush manager.blockSize freeSpace output = .ok next ∧ Orderly manager next ∧
      next.merged = output.merged ∧ next.records.Perm (block.record :: output.records) := by
  obtain ⟨next, flushed, ok, log, merged, record, correct⟩ := flush_spec shared output
  refine ⟨next, ok, ⟨orderly.blocks, fun other member => ?_, orderly.aligned⟩, merged, ?_⟩
  · rw [log] at member
    rcases List.mem_append.mp member with before | new
    · exact orderly.flushed other before
    · rw [List.mem_singleton.mp new]
      exact correct
  · rw [BlockOutput.records, log, List.map_append, List.map_singleton, record]
    exact List.perm_append_singleton _ _

/-- What a step of a manager leaves: the records of before with those given, or another set. -/
structure Leaves (manager : PartialBlockManager) (next : PartialBlockManager)
    (nextOutput : BlockOutput) (merged : List Nat) (records : List (Nat × List SegmentBuffer)) :
    Prop where
  settings : SameSettings manager next
  orderly : Orderly next nextOutput
  merged : nextOutput.merged = merged
  records : (nextOutput.records ++ next.records).Perm records

theorem alignValue_spec (value : Nat) :
    value ≤ alignValue value ∧ 8 ∣ alignValue value ∧ alignValue value < value + 8 := by
  unfold alignValue
  omega

theorem Orderly.with_blocks (orderly : Orderly manager output)
    (shared : ∀ entry ∈ blocks, entry.2.Shared manager.blockSize entry.1) :
    Orderly { manager with partiallyFilledBlocks := blocks } output :=
  ⟨shared, orderly.flushed, orderly.aligned⟩

/--
A block whose new contents lie behind its aligned offset is put into the map or flushed,
unless it reaches its use count.
-/
theorem registerPartialBlock_spec (orderly : Orderly manager output) (block : PartialBlock)
    (allocationSize : Nat) (size : block.state.blockSize = manager.blockSize)
    (fits : allocationSize + block.state.offset ≤ manager.blockSize)
    (nonempty : block.segments ≠ [])
    (fills : Fills block.memory block.uninitializedRegions block.segments
      (allocationSize + block.state.offset))
    (spared : block.state.blockUseCount < manager.maxUseCount) :
    ∃ next nextOutput, manager.registerPartialBlock output allocationSize block =
        .ok (next, nextOutput) ∧
      Leaves manager next nextOutput output.merged
        (block.record :: (output.records ++ manager.records)) := by
  obtain ⟨above, aligned, near⟩ := alignValue_spec (allocationSize + block.state.offset)
  have below : alignValue (allocationSize + block.state.offset) ≤ manager.blockSize := by
    obtain ⟨count, whole⟩ := orderly.aligned
    obtain ⟨used, offset⟩ := aligned
    omega
  have shared : (PartialBlockManager.occupy block allocationSize).Shared manager.blockSize
      (block.state.blockSize - alignValue (allocationSize + block.state.offset)) := by
    refine ⟨size, ?_, aligned, nonempty, ?_⟩
    · change block.state.blockSize - alignValue (allocationSize + block.state.offset) +
        alignValue (allocationSize + block.state.offset) = manager.blockSize
      omega
    · change Fills block.memory (if alignValue (allocationSize + block.state.offset) ≠
          allocationSize + block.state.offset then _ else _) block.segments
        (alignValue (allocationSize + block.state.offset))
      by_cases exact_size : alignValue (allocationSize + block.state.offset) =
          allocationSize + block.state.offset
      · rw [if_neg (not_not.mpr exact_size), exact_size]
        exact fills
      · rw [if_pos exact_size]
        exact fills.extend above
  have record : (PartialBlockManager.occupy block allocationSize).record = block.record := rfl
  unfold PartialBlockManager.registerPartialBlock
  rw [if_pos spared]
  dsimp only
  generalize hroom : (PartialBlockManager.occupy block allocationSize).state.blockSize -
    (PartialBlockManager.occupy block allocationSize).state.offset = room
  have same_room : block.state.blockSize - alignValue (allocationSize + block.state.offset) =
      room := hroom
  rw [same_room] at shared
  generalize PartialBlockManager.occupy block allocationSize = occupied at shared record
  split
  · have perm := insertBlock_perm (room, occupied) manager.partiallyFilledBlocks
    have all_shared : ∀ entry ∈ insertBlock (room, occupied) manager.partiallyFilledBlocks,
        entry.2.Shared manager.blockSize entry.1 := by
      intro entry member
      rcases List.mem_cons.mp (perm.mem_iff.mp member) with rfl | before
      · exact shared
      · exact orderly.blocks entry before
    have records : (insertBlock (room, occupied) manager.partiallyFilledBlocks).map
        (fun entry => entry.2.record) |>.Perm (block.record :: manager.records) := by
      have mapped := perm.map fun entry => entry.2.record
      rwa [List.map_cons, record] at mapped
    split
    · split
      · rename_i none_left
        rw [none_left] at perm
        exact absurd perm.symm (by simp)
      · rename_i freeSpace first rest blocks
        rw [blocks] at all_shared records
        obtain ⟨next, ok, after, merged, moved⟩ :=
          orderly.flush (all_shared (freeSpace, first) List.mem_cons_self)
        refine ⟨{ manager with partiallyFilledBlocks := rest }, next, ?_, ?_⟩
        · rw [ok]
          rfl
        · refine ⟨⟨rfl, rfl, rfl, rfl⟩, after.with_blocks fun entry member =>
            all_shared entry (List.mem_cons_of_mem _ member), merged, ?_⟩
          have given : (next.records ++ rest.map fun entry => entry.2.record).Perm
              (output.records ++ first.record :: rest.map fun entry => entry.2.record) :=
            (moved.append_right _).trans List.perm_middle.symm
          exact (given.trans (records.append_left _)).trans List.perm_middle
    · refine ⟨_, output, rfl, ⟨rfl, rfl, rfl, rfl⟩, orderly.with_blocks all_shared, rfl, ?_⟩
      exact (records.append_left _).trans List.perm_middle
  · obtain ⟨next, ok, after, merged, moved⟩ := orderly.flush shared
    refine ⟨manager, next, ?_, .refl _, after, merged, ?_⟩
    · rw [ok]
      rfl
    · rw [← record]
      exact moved.append_right _

end StatsRecommender
