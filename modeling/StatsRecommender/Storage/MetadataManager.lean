import Mathlib.Algebra.Order.Ring.Nat
import Mathlib.Data.Int.ConditionallyCompleteOrder
import Mathlib.Data.List.AList
import Mathlib.Data.List.Range

/-!
# Metadata blocks

Metadata is stored in parts of blocks.  The manager knows the parts of each metadata block that are
free, and the parts that were in use when the last checkpoint was written.
-/

namespace StatsRecommender

/-- `METADATA_BLOCK_COUNT`: how many metadata blocks a block has. -/
def metadataBlockCount : Nat := 64

/-- A metadata block: a part of a block. -/
structure MetadataPointer where
  blockIndex : Nat
  index : Nat
  deriving DecidableEq, Repr

namespace MetadataBlock

/-- `FreeBlocksToInteger`. -/
def freeBlocksToInteger (freeBlocks : List Nat) : BitVec 64 :=
  freeBlocks.foldl (fun result index => result ||| BitVec.twoPow 64 index) 0#64

/-- `BlocksFromInteger`: the highest index comes first. -/
def blocksFromInteger (freeList : BitVec 64) : List Nat :=
  (List.range metadataBlockCount).reverse.filter fun index => freeList.getLsbD index

theorem mem_blocksFromInteger {mask : BitVec 64} {index : Nat} :
    index ∈ blocksFromInteger mask ↔ mask.getLsbD index = true := by
  simp only [blocksFromInteger, List.mem_filter, List.mem_reverse, List.mem_range,
    and_iff_right_iff_imp]
  exact BitVec.lt_of_getLsbD

theorem nodup_blocksFromInteger (mask : BitVec 64) : (blocksFromInteger mask).Nodup :=
  (List.nodup_reverse.mpr List.nodup_range).filter _

theorem getLsbD_foldl (freeBlocks : List Nat) (mask : BitVec 64) (index : Nat) :
    (freeBlocks.foldl (fun result index => result ||| BitVec.twoPow 64 index) mask).getLsbD index =
      (mask.getLsbD index || decide (index < metadataBlockCount ∧ index ∈ freeBlocks)) := by
  induction freeBlocks generalizing mask with
  | nil => simp
  | cons first rest ih =>
      rw [List.foldl_cons, ih, BitVec.getLsbD_or, BitVec.getLsbD_twoPow, Bool.or_assoc]
      congr 1
      rw [Bool.eq_iff_iff, Bool.or_eq_true, Bool.and_eq_true, decide_eq_true_eq, decide_eq_true_eq,
        decide_eq_true_eq, decide_eq_true_eq, List.mem_cons]
      constructor
      · rintro (⟨small, rfl⟩ | ⟨small, member⟩)
        · exact ⟨small, Or.inl rfl⟩
        · exact ⟨small, Or.inr member⟩
      · rintro ⟨small, rfl | member⟩
        · exact Or.inl ⟨small, rfl⟩
        · exact Or.inr ⟨small, member⟩

theorem getLsbD_freeBlocksToInteger (freeBlocks : List Nat) (index : Nat) :
    (freeBlocksToInteger freeBlocks).getLsbD index =
      decide (index < metadataBlockCount ∧ index ∈ freeBlocks) := by
  rw [freeBlocksToInteger, getLsbD_foldl, BitVec.getLsbD_zero, Bool.false_or]

/-- What is written of the free parts is what is read. -/
theorem freeBlocksToInteger_blocksFromInteger (mask : BitVec 64) :
    freeBlocksToInteger (blocksFromInteger mask) = mask := by
  refine BitVec.eq_of_getLsbD_eq fun index inside => ?_
  have inside' : index < metadataBlockCount := inside
  rw [getLsbD_freeBlocksToInteger, Bool.eq_iff_iff, decide_eq_true_eq, mem_blocksFromInteger]
  exact and_iff_right inside'

end MetadataBlock

/-- The free parts of the metadata blocks, and the parts that the last checkpoint had. -/
structure MetadataManager where
  blocks : AList fun _ : Nat => List Nat
  modifiedBlocks : AList fun _ : Nat => BitVec 64
  deriving DecidableEq

namespace MetadataManager

open MetadataBlock

def create : MetadataManager := ⟨∅, ∅⟩

/-- The parts of each block that are in use. -/
def occupiedLists (blocks : AList fun _ : Nat => List Nat) : AList fun _ : Nat => BitVec 64 :=
  blocks.entries.foldl
    (fun modified block => modified.insert block.1 (~~~freeBlocksToInteger block.2)) ∅

/-- `ClearModifiedBlocks` for one pointer. -/
def clearModifiedBlock (manager : MetadataManager) (pointer : MetadataPointer) :
    Except String MetadataManager :=
  match manager.modifiedBlocks.lookup pointer.blockIndex with
  | none => .error (s!"ClearModifiedBlocks - Block id {pointer.blockIndex} not found in " ++
      "modified_blocks")
  | some modifiedList => .ok { manager with
      modifiedBlocks := manager.modifiedBlocks.insert pointer.blockIndex
        (modifiedList &&& ~~~BitVec.twoPow 64 pointer.index) }

def clearModifiedBlocks (manager : MetadataManager) (pointers : List MetadataPointer) :
    Except String MetadataManager := pointers.foldlM clearModifiedBlock manager

/-- `AddBlock` when the block may exist: it has no free parts yet. -/
def registerBlock (manager : MetadataManager) (blockId : Nat) : MetadataManager :=
  if blockId ∈ manager.blocks then manager
  else { manager with blocks := manager.blocks.insert blockId [] }

/-- `Read` for one block. -/
def readBlock (manager : MetadataManager) (blockId : Nat) (freeList : BitVec 64) :
    MetadataManager :=
  { manager with blocks := manager.blocks.insert blockId (blocksFromInteger freeList) }

end MetadataManager

end StatsRecommender
