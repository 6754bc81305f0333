import Mathlib.Data.List.FinRange
import StatsRecommender.Library.Transition
import StatsRecommender.Storage.PartialBlockSteps

/-!
# Runs of checkpoint writers

Writers with partial block managers of their own write segments, merge their managers and
flush them, in any order.  A ledger follows every segment and every block through the run.
-/

namespace StatsRecommender

variable {nextMerged created : List Nat} {written : List SegmentBuffer}
  {manager : PartialBlockManager} {output : BlockOutput} {blockSize : Nat}

open ByteMemory

/-! ## The ledger of one step -/

/-- The handles of records that take no part in a step come last. -/
theorem handles_frame (own others : List (Nat × List SegmentBuffer)) (merged : List Nat) :
    ((own ++ others).map Prod.fst ++ merged).Perm
      ((own.map Prod.fst ++ merged) ++ others.map Prod.fst) := by
  rw [List.map_append, List.append_assoc, List.append_assoc]
  exact List.perm_append_comm.append_left _

section Frame

variable {opened nextOpened own next others flushed nextFlushed :
  List (Nat × List SegmentBuffer)}

/-- The handles after a step that leaves the records of other managers alone. -/
theorem handles_of_step {merged : List Nat} (new : List Nat) (before : opened.Perm (own ++ others))
    (after : nextOpened.Perm (next ++ others))
    (handles : ((nextFlushed ++ next).map Prod.fst ++ nextMerged).Perm
      (new ++ ((flushed ++ own).map Prod.fst ++ merged)))
    (known : ((flushed ++ opened).map Prod.fst ++ merged).Perm created) :
    ((nextFlushed ++ nextOpened).map Prod.fst ++ nextMerged).Perm (new ++ created) := by
  have old : (((flushed ++ own).map Prod.fst ++ merged) ++ others.map Prod.fst).Perm created := by
    refine List.Perm.trans ?_ known
    refine (handles_frame (flushed ++ own) others merged).symm.trans ?_
    rw [List.append_assoc]
    exact ((before.symm.append_left flushed).map Prod.fst).append_right merged
  have now : ((nextFlushed ++ nextOpened).map Prod.fst ++ nextMerged).Perm
      (((nextFlushed ++ next).map Prod.fst ++ nextMerged) ++ others.map Prod.fst) := by
    refine List.Perm.trans ?_ (handles_frame (nextFlushed ++ next) others nextMerged)
    rw [List.append_assoc]
    exact ((after.append_left nextFlushed).map Prod.fst).append_right nextMerged
  refine now.trans ((handles.append_right _).trans ?_)
  rw [List.append_assoc]
  exact old.append_left new

/-- The segments after a step that leaves the records of other managers alone. -/
theorem segments_of_step (new : List SegmentBuffer) (before : opened.Perm (own ++ others))
    (after : nextOpened.Perm (next ++ others))
    (segments : ((nextFlushed ++ next).flatMap Prod.snd).Perm
      ((flushed ++ own).flatMap Prod.snd ++ new))
    (known : ((flushed ++ opened).flatMap Prod.snd).Perm written) :
    ((nextFlushed ++ nextOpened).flatMap Prod.snd).Perm (written ++ new) := by
  have old : ((flushed ++ own).flatMap Prod.snd ++ others.flatMap Prod.snd).Perm written := by
    rw [← List.flatMap_append, List.append_assoc]
    exact ((before.symm.append_left flushed).flatMap_right _).trans known
  have now : ((nextFlushed ++ nextOpened).flatMap Prod.snd).Perm
      ((nextFlushed ++ next).flatMap Prod.snd ++ others.flatMap Prod.snd) := by
    rw [← List.flatMap_append, List.append_assoc]
    exact (after.append_left nextFlushed).flatMap_right _
  refine now.trans ((segments.append_right _).trans ?_)
  rw [List.append_assoc]
  exact (List.perm_append_comm.append_left _).trans
    (List.append_assoc _ _ _ ▸ old.append_right new)

end Frame

/-- The same blocks and segments, where a merged block counts by its handle alone. -/
structure Balanced (records : List (Nat × List SegmentBuffer)) (merged : List Nat)
    (nextRecords : List (Nat × List SegmentBuffer)) (nextMerged : List Nat) : Prop where
  handles : (nextRecords.map Prod.fst ++ nextMerged).Perm (records.map Prod.fst ++ merged)
  segments : (nextRecords.flatMap Prod.snd).Perm (records.flatMap Prod.snd)

namespace Balanced

variable {records middle last : List (Nat × List SegmentBuffer)} {merged : List Nat}

theorem of_perm (perm : last.Perm records) : Balanced records merged last merged := by
  constructor
  · exact (perm.map _).append_right _
  · exact perm.flatMap_right _

theorem trans {middleMerged lastMerged : List Nat}
    (first : Balanced records merged middle middleMerged)
    (second : Balanced middle middleMerged last lastMerged) :
    Balanced records merged last lastMerged := by
  constructor
  · exact second.handles.trans first.handles
  · exact second.segments.trans first.segments

/-- Records that take no part in a step. -/
theorem frame (balanced : Balanced records merged last nextMerged)
    (others : List (Nat × List SegmentBuffer)) :
    Balanced (records ++ others) merged (last ++ others) nextMerged := by
  constructor
  · have framed := balanced.handles.append_right (others.map Prod.fst)
    exact ((handles_frame _ _ _).trans framed).trans (handles_frame _ _ _).symm
  · rw [List.flatMap_append, List.flatMap_append]
    exact balanced.segments.append_right _

/-- The contents of one block move to another one. -/
theorem merge (target source : Nat × List SegmentBuffer)
    (others : List (Nat × List SegmentBuffer)) (merged : List Nat) :
    Balanced (source :: target :: others) merged
      ((target.1, target.2 ++ source.2) :: others) (merged ++ [source.1]) := by
  constructor
  · have tail := (List.perm_append_singleton source.1
      (target.1 :: (others.map Prod.fst ++ merged)))
    simpa [List.append_assoc] using tail
  · have swapped : (target.2 ++ source.2).Perm (source.2 ++ target.2) := List.perm_append_comm
    simpa [List.append_assoc] using swapped.append_right (others.flatMap Prod.snd)

end Balanced

namespace PartialBlockManager

/-- The handles of the blocks that a write of a segment creates. -/
def createdBy (manager : PartialBlockManager) (segment : SegmentBuffer) : List Nat :=
  if (manager.getPartialBlock segment.size).isSome then [] else [segment.id]

/-- No block that the loop of a merge adds to is used up by it. -/
def sparesMerge (manager : PartialBlockManager) (output : BlockOutput) :
    List (Nat × PartialBlock) → Bool
  | [] => true
  | entry :: rest =>
      (manager.getPartialBlock (manager.blockSize - entry.1)).all
          (fun found => decide (found.1.state.blockUseCount + 1 < manager.maxUseCount)) &&
        match manager.mergeBlock output entry with
        | .ok (manager, output) => manager.sparesMerge output rest
        | .error _ => true

end PartialBlockManager

/-- A segment is added to the ledger by a write that uses no block up. -/
theorem flushSegment_spec (orderly : Orderly manager output) {segment : SegmentBuffer}
    (fits : segment.size ≤ manager.blockSize)
    (spared : manager.useCount segment.size < manager.maxUseCount) :
    ∃ next nextOutput, manager.flushSegment output segment = .ok (next, nextOutput) ∧
      SameSettings manager next ∧ Orderly next nextOutput ∧
      ((nextOutput.records ++ next.records).map Prod.fst ++ nextOutput.merged).Perm
        (manager.createdBy segment ++
          ((output.records ++ manager.records).map Prod.fst ++ output.merged)) ∧
      ((nextOutput.records ++ next.records).flatMap Prod.snd).Perm
        ((output.records ++ manager.records).flatMap Prod.snd ++ [segment]) := by
  unfold PartialBlockManager.useCount at spared
  unfold PartialBlockManager.createdBy
  cases found : manager.getPartialBlock segment.size with
  | none =>
      rw [found] at spared
      obtain ⟨next, nextOutput, ok, leaves⟩ := flushSegment_fresh orderly fits found spared
      refine ⟨next, nextOutput, ok, leaves.settings, leaves.orderly, ?_, ?_⟩
      · rw [leaves.merged]
        exact (leaves.records.map Prod.fst).append_right _
      · exact (leaves.records.flatMap_right _).trans (List.perm_append_singleton _ _).symm
  | some entry =>
      obtain ⟨block, blocks⟩ := entry
      rw [found] at spared
      obtain ⟨next, nextOutput, others, ok, taken, leaves⟩ :=
        flushSegment_shared orderly fits found spared
      refine ⟨next, nextOutput, ok, leaves.settings, leaves.orderly, ?_, ?_⟩
      · rw [leaves.merged]
        have same := (leaves.records.map Prod.fst).trans (taken.map Prod.fst).symm
        exact same.append_right _
      · have before := taken.flatMap_right Prod.snd
        have after := leaves.records.flatMap_right Prod.snd
        rw [List.flatMap_cons] at before after
        refine after.trans (List.Perm.trans ?_ (before.symm.append_right _))
        rw [List.append_assoc, List.append_assoc]
        exact List.perm_append_comm.append_left _

/-- One block of another manager is merged or taken over. -/
theorem mergeBlock_spec (orderly : Orderly manager output) {entry : Nat × PartialBlock}
    (other : entry.2.Shared manager.blockSize entry.1)
    (spared : (manager.getPartialBlock (manager.blockSize - entry.1)).all
      (fun found => decide (found.1.state.blockUseCount + 1 < manager.maxUseCount)) = true) :
    ∃ next nextOutput, manager.mergeBlock output entry = .ok (next, nextOutput) ∧
      SameSettings manager next ∧ Orderly next nextOutput ∧
      Balanced (entry.2.record :: (output.records ++ manager.records)) output.merged
        (nextOutput.records ++ next.records) nextOutput.merged := by
  cases found : manager.getPartialBlock (manager.blockSize - entry.1) with
  | none =>
      obtain ⟨next, ok, leaves⟩ := mergeBlock_fresh orderly other found
      exact ⟨next, output, ok, leaves.settings, leaves.orderly, .of_perm leaves.records⟩
  | some found_entry =>
      obtain ⟨block, blocks⟩ := found_entry
      rw [found] at spared
      obtain ⟨next, nextOutput, others, ok, taken, leaves⟩ :=
        mergeBlock_shared orderly other found (of_decide_eq_true spared)
      refine ⟨next, nextOutput, ok, leaves.settings, leaves.orderly, ?_⟩
      rw [leaves.merged]
      have moved := Balanced.merge block.record entry.2.record others output.merged
      have start : Balanced (entry.2.record :: (output.records ++ manager.records)) output.merged
          (entry.2.record :: block.record :: others) output.merged :=
        .of_perm (taken.symm.cons _)
      exact (start.trans moved).trans (.of_perm leaves.records)

/-- The loop of a merge keeps the ledger. -/
theorem mergeBlocks_spec {blocks : List (Nat × PartialBlock)} (orderly : Orderly manager output)
    (others : ∀ entry ∈ blocks, entry.2.Shared manager.blockSize entry.1)
    (spared : manager.sparesMerge output blocks = true) :
    ∃ next nextOutput, manager.mergeBlocks output blocks = .ok (next, nextOutput) ∧
      SameSettings manager next ∧ Orderly next nextOutput ∧
      Balanced (blocks.map (fun entry => entry.2.record) ++ (output.records ++ manager.records))
        output.merged (nextOutput.records ++ next.records) nextOutput.merged := by
  induction blocks generalizing manager output with
  | nil => exact ⟨manager, output, rfl, .refl _, orderly, .of_perm (.refl _)⟩
  | cons entry rest ih =>
      rw [PartialBlockManager.sparesMerge, Bool.and_eq_true] at spared
      obtain ⟨middle, middleOutput, ok, settings, after, balanced⟩ :=
        mergeBlock_spec orderly (others entry List.mem_cons_self) spared.1
      have spared_rest := spared.2
      rw [ok] at spared_rest
      obtain ⟨next, nextOutput, rest_ok, rest_settings, finished, rest_balanced⟩ :=
        ih after (fun block member => settings.blockSize ▸
          others block (List.mem_cons_of_mem _ member)) spared_rest
      refine ⟨next, nextOutput, ?_, settings.trans rest_settings, finished, ?_⟩
      · rw [PartialBlockManager.mergeBlocks, ok]
        exact rest_ok
      · have framed := balanced.frame (rest.map fun entry => entry.2.record)
        have before : (rest.map (fun entry => entry.2.record) ++
            (entry.2.record :: (output.records ++ manager.records))).Perm
            (entry.2.record :: (rest.map (fun entry => entry.2.record) ++
              (output.records ++ manager.records))) := List.perm_middle
        have joined := (Balanced.of_perm before).trans
          ((Balanced.of_perm List.perm_append_comm).trans framed)
        exact joined.trans ((Balanced.of_perm List.perm_append_comm).trans rest_balanced)

/-! ## Writers -/

/-- The arguments that a partial block manager is constructed with. -/
structure WriterSettings where
  partialBlockType : PartialBlockType
  maxPartialBlockSize : Option Nat
  maxUseCount : Nat

/-- `PartialBlockManager`'s constructor. -/
def PartialBlockManager.create (blockSize : Nat) (settings : WriterSettings) :
    PartialBlockManager where
  partialBlockType := settings.partialBlockType
  blockSize := blockSize
  maxPartialBlockSize := settings.maxPartialBlockSize.getD (blockSize / 5 * 4)
  maxUseCount := settings.maxUseCount
  partiallyFilledBlocks := []

/--
Managers that write to one block manager; `written` and `created` remember the segments
written and the blocks created for them, in order.
-/
structure CheckpointWriters (width : Nat) where
  managers : Fin width → PartialBlockManager
  output : BlockOutput
  written : List SegmentBuffer
  created : List Nat

/-- What a writer does next. -/
inductive WriterAction (width : Nat) where
  | write (writer : Fin width) (size : Nat) (buffer : Memory)
  | merge (writer other : Fin width)
  | flushPartialBlocks (writer : Fin width)

namespace CheckpointWriters

variable {width : Nat} {writer : Fin width} {writers : CheckpointWriters width}
  {action : WriterAction width}

/-- Writers before their first segment. -/
def start (blockSize : Nat) (settings : Fin width → WriterSettings) (nextBlockId : Nat)
    (referenceCounts : Nat → Nat) : CheckpointWriters width where
  managers := fun writer => .create blockSize (settings writer)
  output := ⟨nextBlockId, referenceCounts, [], []⟩
  written := []
  created := []

/-- The segment that the next write is about. -/
def nextSegment (writers : CheckpointWriters width) (size : Nat) (buffer : Memory) :
    SegmentBuffer :=
  ⟨writers.written.length, size, buffer⟩

def setManager (writers : CheckpointWriters width) (writer : Fin width)
    (manager : PartialBlockManager) : Fin width → PartialBlockManager := fun other =>
  if other = writer then manager else writers.managers other

/-- A step of one writer. -/
def step (writers : CheckpointWriters width) :
    WriterAction width → Except String (CheckpointWriters width)
  | .write writer size buffer => do
      let segment := writers.nextSegment size buffer
      let (manager, output) ← (writers.managers writer).flushSegment writers.output segment
      return { managers := writers.setManager writer manager, output
               written := writers.written ++ [segment]
               created := (writers.managers writer).createdBy segment ++ writers.created }
  | .merge writer other =>
      if other = writer then .error "Cannot merge into itself"
      else do
        let (manager, output) ← (writers.managers writer).mergeBlocks writers.output
          (writers.managers other).partiallyFilledBlocks
        let cleared := { writers.managers other with partiallyFilledBlocks := [] }
        return { writers with
          managers := { writers with managers := writers.setManager other cleared
                        : CheckpointWriters width }.setManager writer manager
          output }
  | .flushPartialBlocks writer => do
      let (manager, output) ← (writers.managers writer).flushPartialBlocks writers.output
      return { writers with managers := writers.setManager writer manager, output }

/-- The flushes at the end, one writer after the other. -/
def finish (writers : CheckpointWriters width) : Except String (CheckpointWriters width) :=
  (List.finRange width).foldlM (fun writers writer => writers.step (.flushPartialBlocks writer))
    writers

/-- No block is brought to its maximum use count by the action. -/
def spares (writers : CheckpointWriters width) : WriterAction width → Bool
  | .write writer size _ =>
      decide ((writers.managers writer).useCount size < (writers.managers writer).maxUseCount)
  | .merge writer other => (writers.managers writer).sparesMerge writers.output
      (writers.managers other).partiallyFilledBlocks
  | .flushPartialBlocks _ => true

/-- The sizes and writers of an action are those that the code is called with. -/
def Admissible (blockSize : Nat) : WriterAction width → Prop
  | .write _ size _ => size ≤ blockSize
  | .merge writer other => other ≠ writer
  | .flushPartialBlocks _ => True

/-- The records of the blocks that are still open. -/
def openRecords (writers : CheckpointWriters width) : List (Nat × List SegmentBuffer) :=
  (List.finRange width).flatMap fun writer => (writers.managers writer).records

/-- Every block is open, flushed once or merged once, and holds what was written to it. -/
structure Sound (writers : CheckpointWriters width) (blockSize : Nat) : Prop where
  size : ∀ writer, (writers.managers writer).blockSize = blockSize
  opened : ∀ writer, ∀ entry ∈ (writers.managers writer).partiallyFilledBlocks,
    entry.2.Shared blockSize entry.1
  flushed : ∀ flushed ∈ writers.output.flushed, flushed.Correct blockSize
  distinct : writers.created.Nodup
  handles : ((writers.output.records ++ writers.openRecords).map Prod.fst ++
    writers.output.merged).Perm writers.created
  segments : ((writers.output.records ++ writers.openRecords).flatMap Prod.snd).Perm
    writers.written
  named : ∀ handle ∈ writers.created, handle < writers.written.length

@[simp]
theorem setManager_self (writers : CheckpointWriters width) (writer : Fin width)
    (manager : PartialBlockManager) : writers.setManager writer manager writer = manager :=
  if_pos rfl

theorem setManager_of_ne (writers : CheckpointWriters width) {other : Fin width}
    (different : other ≠ writer) (manager : PartialBlockManager) :
    writers.setManager writer manager other = writers.managers other :=
  if_neg different

/-- The open blocks of one writer, beside those of the others. -/
theorem openRecords_setManager (writers : CheckpointWriters width) (writer : Fin width) :
    ∃ others, writers.openRecords.Perm ((writers.managers writer).records ++ others) ∧
      ∀ (manager : PartialBlockManager) (output : BlockOutput) (written : List SegmentBuffer)
        (created : List Nat),
        (openRecords ⟨writers.setManager writer manager, output, written, created⟩).Perm
          (manager.records ++ others) := by
  have split := List.perm_cons_erase (List.mem_finRange writer)
  refine ⟨((List.finRange width).erase writer).flatMap fun other =>
    (writers.managers other).records, split.flatMap_right _, fun manager _ _ _ => ?_⟩
  have others : ((List.finRange width).erase writer).flatMap (fun other =>
      (writers.setManager writer manager other).records) =
        ((List.finRange width).erase writer).flatMap fun other =>
          (writers.managers other).records := by
    refine List.flatMap_congr fun other member => ?_
    have different := (List.Nodup.mem_erase_iff (List.nodup_finRange width)).mp member
    rw [writers.setManager_of_ne different.1]
  have both := split.flatMap_right fun other => (writers.setManager writer manager other).records
  rwa [List.flatMap_cons, others, setManager_self] at both

namespace Sound

variable {writers : CheckpointWriters width} {blockSize : Nat}

theorem orderly (sound : writers.Sound blockSize) (aligned : 8 ∣ blockSize)
    (writer : Fin width) : Orderly (writers.managers writer) writers.output := by
  have size := sound.size writer
  constructor
  · rw [size]
    exact sound.opened writer
  · rw [size]
    exact sound.flushed
  · rw [size]
    exact aligned

end Sound

/-- A step that sets one manager, given what it did to the ledger. -/
theorem sound_setManager (size : ∀ writer, (writers.managers writer).blockSize = blockSize)
    (opened : ∀ writer, ∀ entry ∈ (writers.managers writer).partiallyFilledBlocks,
      entry.2.Shared blockSize entry.1) (settings : SameSettings (writers.managers writer) manager)
    (orderly : Orderly manager output)
    (handles : ((output.records ++ openRecords ⟨writers.setManager writer manager, output,
      written, created⟩).map Prod.fst ++ output.merged).Perm created)
    (segments : ((output.records ++ openRecords ⟨writers.setManager writer manager, output,
      written, created⟩).flatMap Prod.snd).Perm written) (distinct : created.Nodup)
    (named : ∀ handle ∈ created, handle < written.length) :
    Sound ⟨writers.setManager writer manager, output, written, created⟩ blockSize := by
  have same : manager.blockSize = blockSize := settings.blockSize.trans (size writer)
  constructor
  · intro other
    simp only [CheckpointWriters.setManager]
    split
    · exact same
    · exact size other
  · intro other entry member
    simp only [CheckpointWriters.setManager] at member
    split at member
    · exact same ▸ orderly.blocks entry member
    · exact opened other entry member
  · exact same ▸ orderly.flushed
  · exact distinct
  · exact handles
  · exact segments
  · exact named

namespace Sound

variable {writers : CheckpointWriters width} {blockSize : Nat}

/-- A segment is written to a block that it does not use up. -/
theorem write (sound : writers.Sound blockSize) (aligned : 8 ∣ blockSize) (writer : Fin width)
    (size : Nat) (buffer : Memory) (fits : size ≤ blockSize)
    (spared : writers.spares (.write writer size buffer) = true) :
    ∃ next, writers.step (.write writer size buffer) = .ok next ∧ next.Sound blockSize := by
  have fits_manager : (writers.nextSegment size buffer).size ≤
      (writers.managers writer).blockSize := by
    rw [sound.size writer]
    exact fits
  obtain ⟨manager, output, ok, settings, orderly, handles, segments⟩ :=
    flushSegment_spec (sound.orderly aligned writer) fits_manager (of_decide_eq_true spared)
  obtain ⟨others, before, after⟩ := openRecords_setManager writers writer
  have taken : writers.step (.write writer size buffer) =
      .ok ⟨writers.setManager writer manager, output,
        writers.written ++ [writers.nextSegment size buffer],
        (writers.managers writer).createdBy (writers.nextSegment size buffer) ++
          writers.created⟩ := by
    rw [step]
    dsimp only [bind, Except.bind, pure, Except.pure]
    rw [ok]
  refine ⟨_, taken, sound_setManager sound.size sound.opened settings orderly ?_ ?_ ?_ ?_⟩
  · exact handles_of_step _ before (after _ _ _ _) handles sound.handles
  · exact segments_of_step _ before (after _ _ _ _) segments sound.segments
  · unfold PartialBlockManager.createdBy
    split
    · exact sound.distinct
    · refine List.nodup_cons.mpr ⟨fun member => ?_, sound.distinct⟩
      exact absurd (sound.named _ member) (Nat.lt_irrefl _)
  · intro handle member
    rw [List.length_append, List.length_singleton]
    unfold PartialBlockManager.createdBy at member
    split at member
    · exact Nat.lt_succ_of_lt (sound.named handle member)
    · rcases List.mem_cons.mp member with rfl | before
      · exact Nat.lt_succ_self _
      · exact Nat.lt_succ_of_lt (sound.named handle before)

/-- The map of another manager moves to a manager without using a block up. -/
theorem merge (sound : writers.Sound blockSize) (aligned : 8 ∣ blockSize) {other : Fin width}
    (different : other ≠ writer) (spared : writers.spares (.merge writer other) = true) :
    ∃ next, writers.step (.merge writer other) = .ok next ∧ next.Sound blockSize := by
  obtain ⟨manager, output, ok, settings, orderly, balanced⟩ :=
    mergeBlocks_spec (sound.orderly aligned writer)
      (fun entry member => sound.size writer ▸ sound.opened other entry member) spared
  generalize hcleared : ({ writers.managers other with partiallyFilledBlocks := [] } :
    PartialBlockManager) = cleared
  generalize hmiddle : ({ writers with managers := writers.setManager other cleared } :
    CheckpointWriters width) = middle
  have taken : writers.step (.merge writer other) =
      .ok ⟨middle.setManager writer manager, output, writers.written, writers.created⟩ := by
    rw [step, if_neg different]
    dsimp only [bind, Except.bind, pure, Except.pure]
    rw [ok, hcleared, hmiddle]
  have kept : middle.managers writer = writers.managers writer := by
    rw [← hmiddle]
    exact writers.setManager_of_ne (Ne.symm different) cleared
  have size : ∀ writer, (middle.managers writer).blockSize = blockSize := by
    intro each
    rw [← hmiddle, ← hcleared]
    simp only [CheckpointWriters.setManager]
    split
    · exact sound.size other
    · exact sound.size each
  have opened : ∀ writer, ∀ entry ∈ (middle.managers writer).partiallyFilledBlocks,
      entry.2.Shared blockSize entry.1 := by
    intro each entry member
    rw [← hmiddle, ← hcleared] at member
    simp only [CheckpointWriters.setManager] at member
    split at member
    · exact absurd member List.not_mem_nil
    · exact sound.opened each entry member
  obtain ⟨rest, from_other, to_cleared⟩ := openRecords_setManager writers other
  obtain ⟨others, from_writer, to_next⟩ := openRecords_setManager middle writer
  have nothing : cleared.records = [] := by rw [← hcleared]; rfl
  have without : middle.openRecords.Perm rest := by
    have empty := to_cleared cleared writers.output writers.written writers.created
    rw [nothing, List.nil_append] at empty
    rwa [← hmiddle]
  rw [kept] at from_writer
  have before : writers.openRecords.Perm
      (((writers.managers other).records ++ (writers.managers writer).records) ++ others) := by
    rw [List.append_assoc]
    exact from_other.trans ((without.symm.trans from_writer).append_left _)
  have order : (writers.output.records ++
      ((writers.managers other).records ++ (writers.managers writer).records)).Perm
      ((writers.managers other).records ++
        (writers.output.records ++ (writers.managers writer).records)) := by
    rw [← List.append_assoc, ← List.append_assoc]
    exact List.perm_append_comm.append_right _
  have reordered := (Balanced.of_perm (order.symm)).trans balanced
  refine ⟨_, taken, sound_setManager size opened (kept ▸ settings) orderly ?_ ?_
    sound.distinct sound.named⟩
  · exact handles_of_step [] before (to_next _ _ _ _) reordered.handles sound.handles
  · have moved := segments_of_step [] before (to_next manager output writers.written
      writers.created) (by rw [List.append_nil]; exact reordered.segments) sound.segments
    rwa [List.append_nil] at moved

/-- All open blocks of a writer are flushed. -/
theorem flushPartialBlocks (sound : writers.Sound blockSize) (aligned : 8 ∣ blockSize)
    (writer : Fin width) :
    ∃ next, writers.step (.flushPartialBlocks writer) = .ok next ∧ next.Sound blockSize ∧
      next.written = writers.written ∧ next.created = writers.created ∧
      (next.managers writer).partiallyFilledBlocks = [] ∧
      ∀ other, other ≠ writer → next.managers other = writers.managers other := by
  obtain ⟨manager, output, ok, leaves, empty⟩ :=
    flushPartialBlocks_spec (sound.orderly aligned writer)
  obtain ⟨others, before, after⟩ := openRecords_setManager writers writer
  have taken : writers.step (.flushPartialBlocks writer) =
      .ok ⟨writers.setManager writer manager, output, writers.written, writers.created⟩ := by
    rw [step]
    dsimp only [bind, Except.bind, pure, Except.pure]
    rw [ok]
  refine ⟨_, taken, sound_setManager sound.size sound.opened leaves.settings leaves.orderly ?_ ?_
    sound.distinct sound.named, rfl, rfl, ?_, ?_⟩
  · refine handles_of_step [] before (after _ _ _ _) ?_ sound.handles
    rw [leaves.merged]
    exact (leaves.records.map Prod.fst).append_right _
  · have moved := segments_of_step [] before (after manager output writers.written
      writers.created) (by rw [List.append_nil]; exact leaves.records.flatMap_right _)
      sound.segments
    rwa [List.append_nil] at moved
  · simpa using empty
  · exact fun other different => writers.setManager_of_ne different manager

end Sound

/-! ## Runs -/

theorem sound_start (blockSize : Nat) (settings : Fin width → WriterSettings) (nextBlockId : Nat)
    (referenceCounts : Nat → Nat) :
    (start blockSize settings nextBlockId referenceCounts).Sound blockSize := by
  have nothing : (start blockSize settings nextBlockId referenceCounts).openRecords = [] :=
    List.flatMap_eq_nil_iff.mpr fun _ _ => rfl
  constructor
  · exact fun _ => rfl
  · exact fun _ _ member => absurd member List.not_mem_nil
  · exact fun _ member => absurd member List.not_mem_nil
  · exact List.nodup_nil
  · rw [nothing]
    exact .refl _
  · rw [nothing]
    exact .refl _
  · exact fun _ member => absurd member List.not_mem_nil

/-- An action that the code is called with succeeds, unless it uses a block up. -/
theorem Sound.progress (sound : writers.Sound blockSize) (aligned : 8 ∣ blockSize)
    (admissible : Admissible blockSize action) (spared : writers.spares action = true) :
    ∃ next, writers.step action = .ok next ∧ next.Sound blockSize := by
  cases action with
  | write writer size buffer => exact sound.write aligned writer size buffer admissible spared
  | merge writer other => exact sound.merge aligned admissible spared
  | flushPartialBlocks writer =>
      obtain ⟨next, taken, after, -⟩ := sound.flushPartialBlocks aligned writer
      exact ⟨next, taken, after⟩

/-- Only an action that the code is called with is a step. -/
theorem Sound.admissible {next : CheckpointWriters width} (sound : writers.Sound blockSize)
    (taken : writers.step action = .ok next) : Admissible blockSize action := by
  cases action with
  | write writer size buffer =>
      refine Nat.not_lt.mp fun large => ?_
      rw [step] at taken
      dsimp only [bind, Except.bind, pure, Except.pure] at taken
      have refused : (writers.managers writer).blockSize <
          (writers.nextSegment size buffer).size := by
        rw [sound.size writer]
        exact large
      rw [PartialBlockManager.flushSegment, if_pos refused] at taken
      cases taken
  | merge writer other =>
      intro same
      rw [step, if_pos same] at taken
      cases taken
  | flushPartialBlocks writer => trivial

theorem Sound.next {writers next : CheckpointWriters width} {blockSize : Nat}
    (sound : writers.Sound blockSize) (aligned : 8 ∣ blockSize) {action : WriterAction width}
    (spared : writers.spares action = true) (taken : writers.step action = .ok next) :
    next.Sound blockSize := by
  obtain ⟨other, same, after⟩ := sound.progress aligned (sound.admissible taken) spared
  rw [taken] at same
  cases same
  exact after

/-- Flushing one writer after the other leaves no block open in any of them. -/
theorem Sound.flushAll (aligned : 8 ∣ blockSize) (order : List (Fin width))
    (sound : writers.Sound blockSize) :
    ∃ final, order.foldlM (fun writers writer => writers.step (.flushPartialBlocks writer))
        writers = .ok final ∧
      final.Sound blockSize ∧ final.written = writers.written ∧
      final.created = writers.created ∧
      ∀ writer, writer ∈ order ∨ (writers.managers writer).partiallyFilledBlocks = [] →
        (final.managers writer).partiallyFilledBlocks = [] := by
  induction order generalizing writers with
  | nil =>
      refine ⟨writers, rfl, sound, rfl, rfl, fun writer empty => ?_⟩
      exact empty.resolve_left List.not_mem_nil
  | cons first rest ih =>
      obtain ⟨middle, taken, after, written, created, empty, kept⟩ :=
        sound.flushPartialBlocks aligned first
      obtain ⟨final, ran, finished, rest_written, rest_created, rest_empty⟩ := ih after
      refine ⟨final, ?_, finished, rest_written.trans written, rest_created.trans created, ?_⟩
      · rw [List.foldlM_cons, taken]
        exact ran
      · intro writer given
        apply rest_empty
        by_cases same : writer = first
        · rw [same]
          exact Or.inr empty
        · rw [kept writer same]
          exact given.imp_left fun member => (List.mem_cons.mp member).resolve_left same

/--
What is on disk in the end: each block created was flushed once or merged once, and the
flushed blocks hold every segment written and are zero elsewhere.
-/
structure Delivered (final writers : CheckpointWriters width) (blockSize : Nat) : Prop where
  flushed : ∀ flushed ∈ final.output.flushed, flushed.Correct blockSize
  distinct : writers.created.Nodup
  handles : (final.output.flushed.map FlushedBlock.blockHandle ++ final.output.merged).Perm
    writers.created
  segments : (final.output.flushed.flatMap fun flushed =>
    flushed.segments.map PartialColumnSegment.segment).Perm writers.written

theorem Sound.finish (sound : writers.Sound blockSize) (aligned : 8 ∣ blockSize) :
    ∃ final, writers.finish = .ok final ∧ final.Delivered writers blockSize := by
  obtain ⟨final, ran, finished, written, created, empty⟩ :=
    sound.flushAll aligned (List.finRange width)
  have nothing : final.openRecords = [] := by
    refine List.flatMap_eq_nil_iff.mpr fun writer member => ?_
    rw [PartialBlockManager.records, empty writer (Or.inl member), List.map_nil]
  have handles := finished.handles
  have segments := finished.segments
  rw [nothing, List.append_nil, BlockOutput.records] at handles segments
  refine ⟨final, ran, finished.flushed, sound.distinct, ?_, ?_⟩
  · rw [List.map_map] at handles
    exact created ▸ handles
  · rw [List.flatMap_map] at segments
    exact written ▸ segments

/--
As long as no write or merge brings a block to its maximum use count, the segments of a block
are apart, whole and inside of it, and flushing what is left open at the end delivers every
block and every segment once.
-/
theorem segments_delivered {blockSize : Nat} (aligned : 8 ∣ blockSize)
    (settings : Fin width → WriterSettings) (nextBlockId : Nat) (referenceCounts : Nat → Nat)
    {actions : List (WriterAction width)} {writers : CheckpointWriters width}
    (reached : Reaches step (fun writers action => writers.spares action = true)
      (start blockSize settings nextBlockId referenceCounts) actions writers) :
    writers.Sound blockSize ∧
      (∀ action, Admissible blockSize action → writers.spares action = true →
        ∃ next, writers.step action = .ok next) ∧
      ∃ final, writers.finish = .ok final ∧ final.Delivered writers blockSize := by
  have sound : writers.Sound blockSize := reached.state_invariant
    (fun state => state.Sound blockSize) (sound_start blockSize settings nextBlockId referenceCounts)
    fun _ _ _ before spared taken => before.next aligned spared taken
  refine ⟨sound, fun action admissible spared => ?_, sound.finish aligned⟩
  obtain ⟨next, taken, -⟩ := sound.progress aligned admissible spared
  exact ⟨next, taken⟩

/-- Two writers share blocks of the usual size and are merged before the flush. -/
theorem segments_delivered_merged : ∃ writers final : CheckpointWriters 2,
    writers.output.merged = [1] ∧ writers.finish = .ok final ∧
      final.Delivered writers 262136 := by
  obtain ⟨writers, reached, merged⟩ := Reaches.exists_of_guarded_foldlM step
    (fun writers action => writers.spares action = true)
    (start 262136 (fun _ => ⟨.appendToTable, none, 2 ^ 20⟩) 0 fun _ => 0 : CheckpointWriters 2)
    [.write 0 5 fun _ => 1, .write 1 1001 fun _ => 2, .write 0 3 fun _ => 3, .merge 0 1]
    (fun writers => writers.output.merged == [1]) (by decide +kernel)
  obtain ⟨final, finished, delivered⟩ :=
    (segments_delivered (by decide) (fun _ => ⟨.appendToTable, none, 2 ^ 20⟩) 0 (fun _ => 0)
      reached).2.2
  exact ⟨writers, final, eq_of_beq merged, finished, delivered⟩

/-- With a use count of one, the byte that is written is zero in the block that is flushed. -/
theorem used_up_block_erased : ∃ writers : CheckpointWriters 1,
    Reaches step (fun _ _ => True) (start 262136 (fun _ => ⟨.appendToTable, none, 1⟩) 0 fun _ => 0)
      [.write 0 1 fun _ => 255] writers ∧
    ∃ flushed ∈ writers.output.flushed, ¬ flushed.Correct 262136 := by
  obtain ⟨writers, reached, erased⟩ := Reaches.exists_of_guarded_foldlM step (fun _ _ => True)
    (start 262136 (fun _ => ⟨.appendToTable, none, 1⟩) 0 fun _ => 0 : CheckpointWriters 1)
    [.write 0 1 fun _ => 255]
    (fun writers => writers.output.flushed.any fun flushed =>
      flushed.segments.any fun placed =>
        decide (0 < placed.segment.size) &&
          (flushed.memory (placed.offsetInBlock + 0) != placed.segment.buffer 0))
    (by decide +kernel)
  obtain ⟨flushed, member, placed⟩ := List.any_eq_true.mp erased
  obtain ⟨segment, inside, wrong⟩ := List.any_eq_true.mp placed
  rw [Bool.and_eq_true, decide_eq_true_eq, bne_iff_ne] at wrong
  exact ⟨writers, reached, flushed, member, fun correct =>
    wrong.2 (correct.held segment inside 0 wrong.1)⟩

end CheckpointWriters

end StatsRecommender
