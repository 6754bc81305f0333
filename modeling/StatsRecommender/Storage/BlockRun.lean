import StatsRecommender.Library.Transition
import StatsRecommender.Storage.DatabaseHeaders

/-!
# Runs of block operations

Blocks are allocated, referenced, released and freed between database headers, and the database may
be loaded again from the last header at any time.
-/

namespace StatsRecommender

variable {manager : SingleFileBlockManager} {pointer : MetadataPointer}
  {order : MetadataManager → List Nat} {pointers : List MetadataPointer}

open SingleFileBlockManager

/--
A block manager with what its callers hold: the references to each block of data, the blocks that
were allocated and the metadata that was written or kept since the last header, and that header with
the manager when it was written, the references it recorded and the metadata that belongs to it.
-/
structure BlockRun where
  manager : SingleFileBlockManager
  references : Nat → Nat
  allocated : List Nat
  written : List MetadataPointer
  kept : List MetadataPointer
  header : Option DatabaseHeader
  saved : SingleFileBlockManager
  savedReferences : Nat → Nat
  reachable : List MetadataPointer

/-- The operations on blocks. -/
inductive BlockAction
  | getFreeBlockId
  | markBlockAsFree (block : Nat)
  | markBlockAsModified (block : Nat)
  | increaseBlockReferenceCount (block : Nat)
  | allocateHandle (order : MetadataManager → List Nat)
  | writeMetadata (pointer : MetadataPointer) (content : MetadataContent)
  | clearModifiedBlocks (pointers : List MetadataPointer)
  | writeHeader (order : MetadataManager → List Nat)
  /-- The database is loaded from its file. -/
  | load (contents : MetadataContents)

namespace BlockRun

/-- A new database. -/
def create (sizes : BlockSizes) (contents : MetadataContents) : BlockRun where
  manager := .create sizes contents
  references := fun _ => 0
  allocated := []
  written := []
  kept := []
  header := none
  saved := .create sizes contents
  savedReferences := fun _ => 0
  reachable := []

/-- The manager of the database that a header belongs to. -/
def loadHeader (sizes : BlockSizes) (header : Option DatabaseHeader) (contents : MetadataContents) :
    Except String SingleFileBlockManager :=
  match header with
  | none => .ok (.create sizes contents)
  | some header => (ofHeader sizes header contents).loadFreeList header.freeList

def step (state : BlockRun) : BlockAction → Except String BlockRun
  | .getFreeBlockId =>
      let (block, manager) := state.manager.getFreeBlockId
      .ok { state with
        manager
        references := Function.update state.references block 1
        allocated := block :: state.allocated }
  | .markBlockAsFree block => do
      let manager ← state.manager.markBlockAsFree block
      pure { state with
        manager
        references := Function.update state.references block 0
        allocated := state.allocated.erase block }
  | .markBlockAsModified block => .ok { state with
      manager := state.manager.markBlockAsModified block
      references := Function.update state.references block (state.references block - 1) }
  | .increaseBlockReferenceCount block => .ok { state with
      manager := state.manager.increaseBlockReferenceCount block
      references := Function.update state.references block (state.references block + 1) }
  | .allocateHandle order => do
      let (pointer, manager) ← state.manager.allocateHandle order
      pure { state with manager, written := pointer :: state.written }
  | .writeMetadata pointer content => .ok { state with
      manager := { state.manager with
        contents := Function.update state.manager.contents pointer content } }
  | .clearModifiedBlocks pointers => do
      let metadata ← state.manager.metadata.clearModifiedBlocks pointers
      pure { state with
        manager := { state.manager with metadata }
        kept := pointers ++ state.kept }
  | .writeHeader order => do
      let (freeListBlocks, _) ← state.manager.getFreeListBlocks order
      let (header, manager) ← state.manager.writeHeader order
      pure { state with
        manager
        allocated := []
        written := []
        kept := []
        header := some header
        saved := manager
        savedReferences := state.references
        reachable := state.kept ++ (state.written ++ freeListBlocks) }
  | .load contents => do
      let manager ← loadHeader state.saved.sizes state.header contents
      pure { state with
        manager
        references := state.savedReferences
        allocated := []
        written := []
        kept := [] }

/--
Blocks are freed only if they were allocated since the last header, references are dropped and added
only on blocks that are referenced, metadata is written only where it was handed out and kept only if
it belongs to the last header, and the file holds what belongs to that header.
-/
def Guard (state : BlockRun) : BlockAction → Prop
  | .getFreeBlockId => True
  | .markBlockAsFree block => block ∈ state.allocated ∧ 0 < state.references block
  | .markBlockAsModified block => 0 < state.references block
  | .increaseBlockReferenceCount block => 0 < state.references block
  | .allocateHandle _ => True
  | .writeMetadata pointer _ => pointer ∈ state.written
  | .clearModifiedBlocks pointers => ∀ pointer ∈ pointers, pointer ∈ state.reachable
  | .writeHeader _ => True
  | .load contents => ∀ pointer ∈ state.reachable, contents pointer = state.manager.contents pointer

/-- A block that the last header leads to. -/
def ReachableBlock (state : BlockRun) (block : Nat) : Prop :=
  0 < state.savedReferences block ∨ ∃ pointer ∈ state.reachable, pointer.blockIndex = block

/-- A block of data or of metadata that is in use. -/
def BlockInUse (state : BlockRun) (block : Nat) : Prop :=
  0 < state.references block ∨ block ∈ state.manager.metadata.blocks

/-! ## The invariant -/

/-- The parts of the invariant that a header is loaded with. -/
structure Saved (header : Option DatabaseHeader) (saved : SingleFileBlockManager)
    (savedReferences : Nat → Nat) (reachable : List MetadataPointer) (contents : MetadataContents) :
    Prop where
  accounted : Accounted savedReferences saved
  marks : MarksKnown saved
  inUse : ∀ pointer ∈ reachable, saved.InUse pointer
  loads : ∀ other : MetadataContents, (∀ pointer ∈ reachable, other pointer = contents pointer) →
    ∃ loaded, loadHeader saved.sizes header other = .ok loaded ∧ Restored saved loaded ∧
      loaded.contents = other

/-- All blocks are accounted for, and none that the last header leads to is free. -/
structure Consistent (state : BlockRun) : Prop where
  accounted : Accounted state.references state.manager
  marks : MarksKnown state.manager
  allocated : ∀ block ∈ state.allocated, ¬ state.ReachableBlock block
  inUse : ∀ pointer ∈ state.reachable, state.manager.InUse pointer
  data : ∀ block, 0 < state.savedReferences block → block ∉ state.manager.freeList ∧
    block ∉ state.manager.metadata.blocks ∧ block < state.manager.maxBlock
  written : ∀ pointer ∈ state.written, state.manager.InUse pointer ∧
    ¬ state.manager.Marked pointer ∧ pointer ∉ state.reachable
  kept : ∀ pointer ∈ state.kept, state.manager.InUse pointer ∧ ¬ state.manager.Marked pointer
  saved : Saved state.header state.saved state.savedReferences state.reachable
    state.manager.contents

theorem accounted_create (sizes : BlockSizes) (contents : MetadataContents) :
    Accounted (fun _ => 0) (SingleFileBlockManager.create sizes contents) where
  free := fun _ impossible => absurd impossible OrderedSet.not_mem_empty
  modified := fun _ impossible => absurd impossible OrderedSet.not_mem_empty
  metadata := fun _ impossible => absurd impossible (AList.notMem_empty _)
  known := fun block => by
    constructor
    · exact fun below => absurd below (Nat.not_lt_zero _)
    · rintro (impossible | impossible | impossible | impossible)
      · exact absurd impossible OrderedSet.not_mem_empty
      · exact absurd impossible OrderedSet.not_mem_empty
      · exact absurd impossible (AList.notMem_empty _)
      · exact absurd impossible (Nat.lt_irrefl _)
  multiUse := fun _ => rfl
  parts := fun _ _ impossible => by cases impossible

theorem marksKnown_create (sizes : BlockSizes) (contents : MetadataContents) :
    MarksKnown (SingleFileBlockManager.create sizes contents) where
  known := fun _ impossible => absurd impossible (AList.notMem_empty _)
  inUse := fun pointer impossible => by
    obtain ⟨mask, impossible, -⟩ := impossible
    cases impossible

/-- A new database is consistent. -/
theorem consistent_create (sizes : BlockSizes) (contents : MetadataContents) :
    (create sizes contents).Consistent where
  accounted := accounted_create sizes contents
  marks := marksKnown_create sizes contents
  allocated := fun _ impossible => absurd impossible List.not_mem_nil
  inUse := fun _ impossible => absurd impossible List.not_mem_nil
  data := fun _ impossible => absurd impossible (Nat.lt_irrefl _)
  written := fun _ impossible => absurd impossible List.not_mem_nil
  kept := fun _ impossible => absurd impossible List.not_mem_nil
  saved := ⟨accounted_create sizes contents, marksKnown_create sizes contents,
    fun _ impossible => absurd impossible List.not_mem_nil,
    fun other _ => ⟨.create sizes other, rfl,
      ⟨rfl, rfl, rfl, rfl, fun _ => rfl, fun _ => rfl, fun _ => rfl⟩, rfl⟩⟩

namespace Consistent

variable {state next : BlockRun} {block : Nat}

section

variable (consistent : state.Consistent)
include consistent

/-- A block that the last header leads to is neither free nor new. -/
theorem not_given (reachable : state.ReachableBlock block) :
    block ∉ state.manager.freeList ∧ block < state.manager.maxBlock := by
  rcases reachable with referenced | ⟨pointer, member, rfl⟩
  · obtain ⟨free, -, below⟩ := consistent.data block referenced
    exact ⟨free, below⟩
  · have held := (consistent.inUse pointer member).mem_blocks
    refine ⟨fun free => (consistent.accounted.free _ free).2.1 held, ?_⟩
    exact (consistent.accounted.known _).mpr (.inr (.inr (.inl held)))

/-- `GetFreeBlockId` gives a block that the last header does not lead to. -/
theorem getFreeBlockId_fresh (given : state.manager.getFreeBlockId = (block, manager)) :
    ¬ state.ReachableBlock block := by
  intro reachable
  obtain ⟨free, below⟩ := consistent.not_given reachable
  obtain ⟨block', freeList, newlyFreedList, maxBlock, given', -, -, source⟩ :=
    state.manager.getFreeBlockId_spec
  rw [given] at given'
  cases given'
  rcases source with ⟨inside, -⟩ | ⟨-, rfl, -⟩
  · exact free inside
  · exact Nat.lt_irrefl _ below

theorem getFreeBlockId (taken : state.step .getFreeBlockId = .ok next) : next.Consistent := by
  obtain ⟨block, freeList, newlyFreedList, maxBlock, given, left, -, source⟩ :=
    state.manager.getFreeBlockId_spec
  have fresh := consistent.getFreeBlockId_fresh given
  rw [step, given] at taken
  cases taken
  obtain ⟨-, grown⟩ := consistent.accounted.getFreeBlockId newlyFreedList left source
  exact
    { consistent with
      accounted := consistent.accounted.give left source
      marks := ⟨consistent.marks.known, consistent.marks.inUse⟩
      allocated := fun other member => by
        rcases List.mem_cons.mp member with rfl | before
        · exact fresh
        · exact consistent.allocated other before
      data := fun other referenced => by
        obtain ⟨free, metadata, below⟩ := consistent.data other referenced
        exact ⟨fun member => free ((left other).mp member).2, metadata,
          (grown other).mpr (.inr below)⟩ }

theorem markBlockAsFree (guarded : state.Guard (.markBlockAsFree block))
    (taken : state.step (.markBlockAsFree block) = .ok next) : next.Consistent := by
  obtain ⟨member, referenced⟩ := guarded
  obtain ⟨manager, freed, accounted, metadata, maxBlock, contents, -, free⟩ :=
    consistent.accounted.markBlockAsFree referenced
  rw [step, freed] at taken
  cases taken
  refine
    { accounted := accounted
      marks := ?_
      allocated := fun other inside => consistent.allocated other (List.mem_of_mem_erase inside)
      inUse := fun pointer reachable => ?_
      data := fun other saved => ?_
      written := fun pointer inside => ?_
      kept := fun pointer inside => ?_
      saved := ?_ }
  · refine ⟨fun other inside => ?_, fun pointer marked => ?_⟩
    · dsimp only at inside ⊢
      rw [metadata] at inside ⊢
      exact consistent.marks.known other inside
    · rw [Marked, metadata] at marked
      rw [InUse, metadata]
      exact consistent.marks.inUse pointer marked
  · dsimp only
    rw [InUse, metadata]
    exact consistent.inUse pointer reachable
  · dsimp only
    rw [metadata, maxBlock, free]
    obtain ⟨notFree, others⟩ := consistent.data other saved
    refine ⟨fun freed => freed.elim (fun same => ?_) notFree, others⟩
    exact consistent.allocated block member (same ▸ .inl saved)
  · dsimp only
    rw [InUse, Marked, metadata]
    exact consistent.written pointer inside
  · dsimp only
    rw [InUse, Marked, metadata]
    exact consistent.kept pointer inside
  · dsimp only
    rw [contents]
    exact consistent.saved

theorem markBlockAsModified (guarded : state.Guard (.markBlockAsModified block))
    (taken : state.step (.markBlockAsModified block) = .ok next) : next.Consistent := by
  have accounted := consistent.accounted.markBlockAsModified guarded
  cases taken
  obtain ⟨multiUseBlocks, modifiedBlocks, same⟩ := state.manager.markBlockAsModified_frame block
  rw [same] at accounted ⊢
  exact { consistent with
    accounted := accounted
    marks := ⟨consistent.marks.known, consistent.marks.inUse⟩ }

theorem increaseBlockReferenceCount (guarded : state.Guard (.increaseBlockReferenceCount block))
    (taken : state.step (.increaseBlockReferenceCount block) = .ok next) : next.Consistent := by
  obtain ⟨multiUseBlocks, same, accounted⟩ :=
    consistent.accounted.increaseBlockReferenceCount guarded
  cases taken
  rw [same]
  exact { consistent with
    accounted := accounted
    marks := ⟨consistent.marks.known, consistent.marks.inUse⟩ }

theorem writeMetadata {content : MetadataContent}
    (guarded : state.Guard (.writeMetadata pointer content))
    (taken : state.step (.writeMetadata pointer content) = .ok next) : next.Consistent := by
  cases taken
  have outside := (consistent.written pointer guarded).2.2
  exact
    { consistent with
      accounted := ⟨consistent.accounted.free, consistent.accounted.modified,
        consistent.accounted.metadata, consistent.accounted.known, consistent.accounted.multiUse,
        consistent.accounted.parts⟩
      marks := ⟨consistent.marks.known, consistent.marks.inUse⟩
      saved :=
        { consistent.saved with
          loads := fun other same => consistent.saved.loads other fun handle member => by
            rw [same handle member]
            exact Function.update_of_ne (fun here : handle = pointer => outside (here ▸ member)) _ _ } }

/-- What is handed out was not in use, so that the last header does not lead to it. -/
theorem handed_fresh (handed : Handed state.references state.manager pointer manager) :
    pointer ∉ state.reachable ∧ state.savedReferences pointer.blockIndex = 0 := by
  refine ⟨fun member => handed.fresh (consistent.inUse pointer member), ?_⟩
  by_contra referenced
  obtain ⟨free, metadata, below⟩ := consistent.data _ (Nat.pos_of_ne_zero referenced)
  rcases handed.blocks _ handed.held.mem_blocks with before | taken | behind
  · exact metadata before
  · exact free taken
  · omega

theorem allocateHandle (taken : state.step (.allocateHandle order) = .ok next) :
    next.Consistent := by
  obtain ⟨pointer, manager, allocated, handed⟩ := consistent.accounted.allocateHandle order
  rw [step, allocated] at taken
  cases taken
  have fresh := consistent.handed_fresh handed
  have marked : ∀ other, manager.Marked other ↔ state.manager.Marked other := by
    intro other
    rw [Marked, Marked, handed.same]
  have contents : manager.contents = state.manager.contents := by
    rw [handed.same]
  exact
    { accounted := handed.accounted
      marks :=
        { known := fun block member => by
            have same : manager.metadata.modifiedBlocks = state.manager.metadata.modifiedBlocks := by
              rw [handed.same]
            dsimp only at member
            rw [same] at member
            exact handed.kept block (consistent.marks.known block member)
          inUse := fun other isMarked =>
            handed.inUse other (consistent.marks.inUse other ((marked other).mp isMarked)) }
      allocated := consistent.allocated
      inUse := fun other member => handed.inUse other (consistent.inUse other member)
      data := fun block referenced => by
        obtain ⟨free, metadata, below⟩ := consistent.data block referenced
        refine ⟨fun member => free (handed.free block member), fun member => ?_,
          Nat.lt_of_lt_of_le below handed.grown⟩
        rcases handed.blocks block member with before | taken | behind
        · exact metadata before
        · exact free taken
        · omega
      written := fun other member => by
        rcases List.mem_cons.mp member with rfl | before
        · refine ⟨handed.held, fun isMarked => ?_, fresh.1⟩
          exact handed.fresh (consistent.marks.inUse _ ((marked _).mp isMarked))
        · obtain ⟨used, unmarked, outside⟩ := consistent.written other before
          exact ⟨handed.inUse other used, fun isMarked => unmarked ((marked other).mp isMarked),
            outside⟩
      kept := fun other member => by
        obtain ⟨used, unmarked⟩ := consistent.kept other member
        exact ⟨handed.inUse other used, fun isMarked => unmarked ((marked other).mp isMarked)⟩
      saved := by
        dsimp only
        rw [contents]
        exact consistent.saved }

end

/-- What `ClearModifiedBlocks` unmarks. -/
theorem clearModifiedBlocks_spec (manager : SingleFileBlockManager) {metadata : MetadataManager}
    (cleared : manager.metadata.clearModifiedBlocks pointers = .ok metadata) :
    metadata.blocks = manager.metadata.blocks ∧
      (∀ block, block ∈ metadata.modifiedBlocks → block ∈ manager.metadata.modifiedBlocks) ∧
      ∀ pointer, Marked { manager with metadata } pointer →
        manager.Marked pointer ∧ pointer ∉ pointers := by
  induction pointers generalizing manager with
  | nil =>
      cases cleared
      exact ⟨rfl, fun _ member => member, fun _ marked => ⟨marked, List.not_mem_nil⟩⟩
  | cons first rest ih =>
      rw [MetadataManager.clearModifiedBlocks, List.foldlM_cons,
        MetadataManager.clearModifiedBlock] at cleared
      cases found : manager.metadata.modifiedBlocks.lookup first.blockIndex with
      | none =>
          rw [found] at cleared
          cases cleared
      | some modifiedList =>
          rw [found] at cleared
          obtain ⟨blocks, known, marked⟩ := ih { manager with
            metadata := { manager.metadata with
              modifiedBlocks := manager.metadata.modifiedBlocks.insert first.blockIndex
                (modifiedList &&& ~~~BitVec.twoPow 64 first.index) } } cleared
          have present : first.blockIndex ∈ manager.metadata.modifiedBlocks := by
            rw [← AList.lookup_isSome, found]
            rfl
          refine ⟨blocks, fun block member => ?_, fun pointer isMarked => ?_⟩
          · rcases (AList.mem_insert _).mp (known block member) with rfl | before
            · exact present
            · exact before
          · obtain ⟨before, outside⟩ := marked pointer isMarked
            obtain ⟨mask, held, bit⟩ := before
            dsimp only at held
            by_cases here : pointer.blockIndex = first.blockIndex
            · rw [here, AList.lookup_insert] at held
              cases held
              rw [BitVec.getLsbD_and, Bool.and_eq_true, BitVec.getLsbD_not, Bool.and_eq_true,
                BitVec.getLsbD_twoPow] at bit
              refine ⟨⟨modifiedList, here ▸ found, bit.1⟩, fun member => ?_⟩
              rcases List.mem_cons.mp member with rfl | later
              · simp [BitVec.lt_of_getLsbD bit.1] at bit
              · exact outside later
            · rw [AList.lookup_insert_ne here] at held
              refine ⟨⟨mask, held, bit⟩, fun member => ?_⟩
              rcases List.mem_cons.mp member with rfl | later
              · exact here rfl
              · exact outside later

theorem clearModifiedBlocks (consistent : state.Consistent)
    (guarded : state.Guard (.clearModifiedBlocks pointers))
    (taken : state.step (.clearModifiedBlocks pointers) = .ok next) : next.Consistent := by
  rw [step] at taken
  cases cleared : state.manager.metadata.clearModifiedBlocks pointers with
  | error message =>
      rw [cleared] at taken
      cases taken
  | ok metadata =>
      rw [cleared] at taken
      cases taken
      obtain ⟨blocks, known, marked⟩ := clearModifiedBlocks_spec state.manager cleared
      obtain ⟨modifiedBlocks, rfl⟩ : ∃ modifiedBlocks, metadata =
          ⟨state.manager.metadata.blocks, modifiedBlocks⟩ := by
        obtain ⟨_, modifiedBlocks⟩ := metadata
        exact ⟨modifiedBlocks, by rw [← blocks]⟩
      have accounted := consistent.accounted
      exact
        { consistent with
          accounted := ⟨accounted.free, accounted.modified, accounted.metadata, accounted.known,
            accounted.multiUse, accounted.parts⟩
          marks := ⟨fun block member => consistent.marks.known block (known block member),
            fun pointer isMarked => consistent.marks.inUse pointer (marked pointer isMarked).1⟩
          written := fun pointer member => by
            obtain ⟨used, unmarked, outside⟩ := consistent.written pointer member
            exact ⟨used, fun isMarked => unmarked (marked pointer isMarked).1, outside⟩
          kept := fun pointer member => by
            rcases List.mem_append.mp member with now | before
            · exact ⟨consistent.inUse pointer (guarded pointer now), fun isMarked =>
                (marked pointer isMarked).2 now⟩
            · obtain ⟨used, unmarked⟩ := consistent.kept pointer before
              exact ⟨used, fun isMarked => unmarked (marked pointer isMarked).1⟩ }

theorem writeHeader (consistent : state.Consistent)
    (taken : state.step (.writeHeader order) = .ok next) : next.Consistent := by
  obtain ⟨header, handles, middle, manager, got, wrote, written⟩ :=
    consistent.accounted.writeHeader consistent.marks order
  rw [step, got] at taken
  dsimp only [bind, Except.bind] at taken
  rw [wrote] at taken
  cases taken
  have inUse : ∀ pointer ∈ state.kept ++ (state.written ++ handles), manager.InUse pointer := by
    intro pointer member
    rcases List.mem_append.mp member with kept | later
    · obtain ⟨used, unmarked⟩ := consistent.kept pointer kept
      exact written.kept pointer used unmarked
    · rcases List.mem_append.mp later with before | held
      · obtain ⟨used, unmarked, -⟩ := consistent.written pointer before
        exact written.kept pointer used unmarked
      · exact written.held pointer held
  refine
    { accounted := written.accounted
      marks := written.marks
      allocated := fun _ impossible => absurd impossible List.not_mem_nil
      inUse := inUse
      data := fun block referenced => ?_
      written := fun _ impossible => absurd impossible List.not_mem_nil
      kept := fun _ impossible => absurd impossible List.not_mem_nil
      saved := ⟨written.accounted, written.marks, inUse, fun other same => ?_⟩ }
  · obtain ⟨free, -, metadata⟩ := written.accounted.not_free_of_referenced referenced
    exact ⟨free, metadata, (written.accounted.known block).mpr (.inr (.inr (.inr referenced)))⟩
  · obtain ⟨loaded, ran, restored, contents⟩ := written.loadFreeList fun handle member =>
      same handle (List.mem_append_right _ (List.mem_append_right _ member))
    exact ⟨loaded, ran, restored, contents⟩

theorem load (consistent : state.Consistent) {contents : MetadataContents}
    (guarded : state.Guard (.load contents))
    (taken : state.step (.load contents) = .ok next) : next.Consistent := by
  have saved := consistent.saved
  obtain ⟨loaded, ran, restored, same⟩ := saved.loads contents guarded
  rw [step, ran] at taken
  cases taken
  refine
    { accounted := restored.accounted saved.accounted
      marks := restored.marksKnown saved.marks
      allocated := fun _ impossible => absurd impossible List.not_mem_nil
      inUse := fun pointer member => (restored.inUse pointer).mpr (saved.inUse pointer member)
      data := fun block referenced => ?_
      written := fun _ impossible => absurd impossible List.not_mem_nil
      kept := fun _ impossible => absurd impossible List.not_mem_nil
      saved := ⟨saved.accounted, saved.marks, saved.inUse, fun other agrees => ?_⟩ }
  · have accounted := restored.accounted saved.accounted
    obtain ⟨free, -, metadata⟩ := accounted.not_free_of_referenced referenced
    exact ⟨free, metadata, (accounted.known block).mpr (.inr (.inr (.inr referenced)))⟩
  · refine saved.loads other fun pointer member => ?_
    have agree := agrees pointer member
    dsimp only at agree
    rw [agree, same, guarded pointer member]

/-- Every operation keeps the account. -/
theorem step (consistent : state.Consistent) {action : BlockAction} (guarded : state.Guard action)
    (taken : state.step action = .ok next) : next.Consistent := by
  cases action with
  | getFreeBlockId => exact consistent.getFreeBlockId taken
  | markBlockAsFree block => exact consistent.markBlockAsFree guarded taken
  | markBlockAsModified block => exact consistent.markBlockAsModified guarded taken
  | increaseBlockReferenceCount block =>
      exact consistent.increaseBlockReferenceCount guarded taken
  | allocateHandle order => exact consistent.allocateHandle taken
  | writeMetadata pointer content => exact consistent.writeMetadata guarded taken
  | clearModifiedBlocks pointers => exact consistent.clearModifiedBlocks guarded taken
  | writeHeader order => exact consistent.writeHeader taken
  | load contents => exact consistent.load guarded taken

end Consistent

/-! ## What holds in every run -/

/-- The references of a block in use: a metadata block has one. -/
def referenceCount (state : BlockRun) (block : Nat) : Nat :=
  if block ∈ state.manager.metadata.blocks then 1 else state.references block

/--
Every block is in one state, what the last header leads to is not given away, headers can be
written, and loading the last one restores what it was written with.
-/
structure Safe (state : BlockRun) : Prop where
  states : ∀ block, block < state.manager.maxBlock →
    (block ∈ state.manager.freeList ∧ block ∉ state.manager.modifiedBlocks ∧
      ¬ state.BlockInUse block) ∨
    (block ∉ state.manager.freeList ∧ block ∈ state.manager.modifiedBlocks ∧
      ¬ state.BlockInUse block) ∨
    (block ∉ state.manager.freeList ∧ block ∉ state.manager.modifiedBlocks ∧
      state.BlockInUse block)
  counts : ∀ block, state.BlockInUse block →
    (state.manager.multiUseBlocks.lookup block).getD 1 = state.referenceCount block
  given : ∀ block manager, state.manager.getFreeBlockId = (block, manager) →
    ¬ state.ReachableBlock block
  handed : ∀ order pointer manager,
    state.manager.allocateHandle order = .ok (pointer, manager) →
    pointer ∉ state.reachable ∧ state.savedReferences pointer.blockIndex = 0
  headers : ∀ order, ∃ header manager, state.manager.writeHeader order = .ok (header, manager)
  loads : ∀ contents : MetadataContents,
    (∀ pointer ∈ state.reachable, contents pointer = state.manager.contents pointer) →
    ∃ loaded, loadHeader state.saved.sizes state.header contents = .ok loaded ∧
      Restored state.saved loaded

theorem Consistent.safe {state : BlockRun} (consistent : state.Consistent) : state.Safe where
  states := fun block below => by
    have accounted := consistent.accounted
    rcases (accounted.known block).mp below with free | modified | metadata | referenced
    · obtain ⟨unmodified, metadata, unreferenced⟩ := accounted.free block free
      exact .inl ⟨free, unmodified, not_or.mpr ⟨unreferenced ▸ Nat.lt_irrefl 0, metadata⟩⟩
    · obtain ⟨metadata, unreferenced⟩ := accounted.modified block modified
      exact .inr (.inl ⟨fun free => (accounted.free block free).1 modified, modified,
        not_or.mpr ⟨unreferenced ▸ Nat.lt_irrefl 0, metadata⟩⟩)
    · exact .inr (.inr ⟨fun free => (accounted.free block free).2.1 metadata,
        fun modified => (accounted.modified block modified).1 metadata, .inr metadata⟩)
    · obtain ⟨free, modified, -⟩ := accounted.not_free_of_referenced referenced
      exact .inr (.inr ⟨free, modified, .inl referenced⟩)
  counts := fun block inUse => by
    rw [consistent.accounted.multiUse, referenceCount]
    by_cases metadata : block ∈ state.manager.metadata.blocks
    · rw [if_pos metadata, consistent.accounted.metadata block metadata]
      rfl
    · have referenced := inUse.resolve_right metadata
      rw [if_neg metadata]
      split
      · rfl
      · dsimp only [Option.getD]
        omega
  given := fun _ _ given => consistent.getFreeBlockId_fresh given
  handed := fun order pointer manager allocated => by
    obtain ⟨pointer', manager', allocated', handed⟩ := consistent.accounted.allocateHandle order
    rw [allocated] at allocated'
    cases allocated'
    exact consistent.handed_fresh handed
  headers := fun order => by
    obtain ⟨header, _, _, manager, -, wrote, -⟩ :=
      consistent.accounted.writeHeader consistent.marks order
    exact ⟨header, manager, wrote⟩
  loads := fun contents same => by
    obtain ⟨loaded, ran, restored, -⟩ := consistent.saved.loads contents same
    exact ⟨loaded, ran, restored⟩

/-- Runs of block operations are safe, with any number of headers and any loads from them. -/
theorem block_run_safe {sizes : BlockSizes} {contents : MetadataContents}
    {actions : List BlockAction} {state : BlockRun}
    (reached : Reaches step Guard (create sizes contents) actions state) : state.Safe :=
  (reached.state_invariant Consistent (consistent_create sizes contents)
    fun _ _ _ consistent guarded taken => consistent.step guarded taken).safe

instance (state : BlockRun) : DecidablePred state.Guard := fun action =>
  match action with
  | .getFreeBlockId | .allocateHandle _ | .writeHeader _ => inferInstanceAs (Decidable True)
  | .markBlockAsFree block =>
      inferInstanceAs (Decidable (block ∈ state.allocated ∧ 0 < state.references block))
  | .markBlockAsModified block | .increaseBlockReferenceCount block =>
      inferInstanceAs (Decidable (0 < state.references block))
  | .writeMetadata pointer _ => inferInstanceAs (Decidable (pointer ∈ state.written))
  | .clearModifiedBlocks pointers =>
      inferInstanceAs (Decidable (∀ pointer ∈ pointers, pointer ∈ state.reachable))
  | .load contents => inferInstanceAs (Decidable
      (∀ pointer ∈ state.reachable, contents pointer = state.manager.contents pointer))

/-- A block with two references and a metadata block, a header, and the references dropped. -/
theorem block_run_safe_header : ∃ state,
    Reaches step Guard (create ⟨262144, 8, by decide, by decide⟩ fun _ => ⟨none, []⟩)
      [.getFreeBlockId, .increaseBlockReferenceCount 0, .allocateHandle fun manager =>
        manager.blocks.keys, .writeHeader fun manager => manager.blocks.keys,
        .markBlockAsModified 0, .markBlockAsModified 0] state ∧
      (decide (state.manager.modifiedBlocks.elements = [0] ∧ state.savedReferences 0 = 2)) = true ∧
      state.Safe := by
  obtain ⟨state, reached, holds⟩ := Reaches.exists_of_guarded_foldlM step Guard
    (create ⟨262144, 8, by decide, by decide⟩ fun _ => ⟨none, []⟩)
    [.getFreeBlockId, .increaseBlockReferenceCount 0, .allocateHandle fun manager =>
      manager.blocks.keys, .writeHeader fun manager => manager.blocks.keys,
      .markBlockAsModified 0, .markBlockAsModified 0]
    (fun state => decide (state.manager.modifiedBlocks.elements = [0] ∧
      state.savedReferences 0 = 2)) (by decide +kernel)
  exact ⟨state, reached, holds, block_run_safe reached⟩

end BlockRun

end StatsRecommender
