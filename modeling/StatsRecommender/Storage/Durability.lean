import StatsRecommender.Library.Transition
import StatsRecommender.Storage.WalRecovery

/-!
# A database file and its log

Commits that go through the log, checkpoints that write the database file and remove the log, and
crashes between any two of their steps.
-/

namespace StatsRecommender

variable {Change Target Contents : Type}

/-! ## The parts of a flush -/

namespace WriteAheadLog

/-- The size of the file, with what the writer holds back. -/
def fileSize (log : WriteAheadLog) : Nat :=
  match log.writer with
  | some writer => writer.getFileSize
  | none => (log.file.getD []).length

/-- `WriteAheadLog::Flush`, before the file is synced. -/
def writeFlush (records : ChangeRecords Change Target) (database : DatabaseFile Contents)
    (log : WriteAheadLog) : WriteAheadLog :=
  match log.writer with
  | none => log
  | some _ => log.writeEntry records database .flush

/-- `WriteAheadLog::WriteCheckpoint` with `Flush` behind it, before the file is synced. -/
def writeCheckpoint (records : ChangeRecords Change Target) (database : DatabaseFile Contents)
    (metaBlock : MetaBlockPointer) (log : WriteAheadLog) : WriteAheadLog :=
  (log.writeEntry records database (.checkpoint metaBlock)).writeFlush records database

/-- The sizes that a crash may cut the file to: what is synced stays. -/
def MayCut (log : WriteAheadLog) (size : Nat) : Prop :=
  ∀ writer ∈ log.writer, writer.synced ≤ size ∧ size ≤ writer.file.length

/-- The file that a crash leaves. -/
def crashedFile (log : WriteAheadLog) (size : Nat) : Option (List UInt8) :=
  match log.writer with
  | none => log.file
  | some writer => some (writer.file.take size)

end WriteAheadLog

/-! ## The system -/

/-- How far `SingleFileCheckpointWriter::CreateCheckpoint` has come. -/
inductive CheckpointStage where
  /-- The checkpoint is in the log, but not synced. -/
  | flagging
  | flagged
  /-- The header is written. -/
  | written
  deriving DecidableEq, Repr

/-- What the system is doing, with the contents that have been acknowledged. -/
inductive StoragePhase (Change Contents : Type) where
  | running (contents : Contents)
  | committing (commit : CommitLogState) (before : Contents) (changes : List Change) (now : Contents)
  | flushing (before after : Contents)
  | checkpointing (stage : CheckpointStage) (metaBlock : MetaBlockPointer) (before after : Contents)
      (walIsEmpty : Bool)
  | crashed (file : Option (List UInt8)) (before after : Contents)

/-- The contents that a crash may leave: those acknowledged, and those of a commit that is flushed. -/
def StoragePhase.outcomes : StoragePhase Change Contents → Contents × Contents
  | running contents => (contents, contents)
  | committing _ before _ _ => (before, before)
  | flushing before after => (before, after)
  | checkpointing .flagging _ before _ _ => (before, before)
  | checkpointing .flagged _ before _ _ => (before, before)
  | checkpointing .written _ _ after _ => (after, after)
  | crashed _ before after => (before, after)

/-- The database file, its log, and what the system is doing. -/
structure StorageSystem (Change Contents : Type) where
  file : DatabaseFile Contents
  log : WriteAheadLog
  phase : StoragePhase Change Contents

/-- What the system can do next. -/
inductive StorageAction (Change Contents : Type) where
  | beginCommit
  /-- A change is written; with it, the transaction leads to some contents. -/
  | write (change : Change) (now : Contents)
  | revertCommit
  | writeFlush
  | sync
  /-- A checkpoint of some contents, with their root block. -/
  | startCheckpoint (metaBlock : MetaBlockPointer) (after : Contents)
  | syncCheckpoint
  | writeHeader
  | resetWal
  | crash (size : Nat)
  | recover

namespace StorageSystem

/-- A new database. -/
def create (file : DatabaseFile Contents) : StorageSystem Change Contents :=
  ⟨file, .noLog, .running file.contents⟩

/-- An action that does not come next. -/
def outOfTurn : Exception := .other "the action does not come next"

variable (records : ChangeRecords Change Target) (view : TargetContents records Contents)

/-- `SingleFileBlockManager::WriteHeader`, with what is found at the new root block. -/
def writeHeader (file : DatabaseFile Contents) (metaBlock : MetaBlockPointer) (after : Contents) :
    DatabaseFile Contents :=
  { file with
    metaBlock := metaBlock.blockPointer, checkpointIteration := file.checkpointIteration + 1
    contents := after }

/-- What the system does; the contents in the phases are those that have been acknowledged. -/
def step (system : StorageSystem Change Contents) :
    StorageAction Change Contents → Except Exception (StorageSystem Change Contents)
  | .beginCommit =>
      match system.phase with
      | .running contents =>
          let commit := ⟨system.log.walSize, system.log.getTotalWritten⟩
          pure { system with phase := .committing commit contents [] contents }
      | _ => throw outOfTurn
  | .write change now =>
      match system.phase with
      | .committing commit before changes _ =>
          pure { system with
            log := system.log.writeEntry records system.file (.change change)
            phase := .committing commit before (changes ++ [change]) now }
      | _ => throw outOfTurn
  | .revertCommit =>
      match system.phase with
      | .committing commit before _ _ =>
          pure { system with log := commit.revertCommit system.log, phase := .running before }
      | _ => throw outOfTurn
  | .writeFlush =>
      match system.phase with
      | .committing _ before _ now =>
          pure { system with
            log := system.log.writeFlush records system.file, phase := .flushing before now }
      | _ => throw outOfTurn
  | .sync =>
      match system.phase with
      | .flushing _ after => pure { system with log := system.log.sync, phase := .running after }
      | _ => throw outOfTurn
  | .startCheckpoint metaBlock after =>
      match system.phase with
      | .running before =>
          let walIsEmpty := system.log.walSize == 0
          let log :=
            if walIsEmpty then system.log
            else system.log.writeCheckpoint records system.file metaBlock
          pure { system with
            log, phase := .checkpointing .flagging metaBlock before after walIsEmpty }
      | _ => throw outOfTurn
  | .syncCheckpoint =>
      match system.phase with
      | .checkpointing .flagging metaBlock before after walIsEmpty =>
          let log := if walIsEmpty then system.log else system.log.sync
          pure { system with
            log, phase := .checkpointing .flagged metaBlock before after walIsEmpty }
      | _ => throw outOfTurn
  | .writeHeader =>
      match system.phase with
      | .checkpointing .flagged metaBlock before after walIsEmpty =>
          pure { system with
            file := writeHeader system.file metaBlock after
            phase := .checkpointing .written metaBlock before after walIsEmpty }
      | _ => throw outOfTurn
  | .resetWal =>
      match system.phase with
      | .checkpointing .written _ _ after walIsEmpty =>
          let log := if walIsEmpty then system.log else system.log.delete
          pure { system with log, phase := .running after }
      | _ => throw outOfTurn
  | .crash size =>
      match system.phase with
      | .crashed _ _ _ => throw outOfTurn
      | phase =>
          let (before, after) := phase.outcomes
          pure { system with
            log := .noLog, phase := .crashed (system.log.crashedFile size) before after }
  | .recover =>
      match system.phase with
      | .crashed walFile _ _ => do
          let (target, log) ← replayWal records system.file (view.start system.file.contents) walFile
          pure { system with log, phase := .running (view.contents target) }
      | _ => throw outOfTurn

/-- The largest size of a log that is written to. -/
def maximumLogSize : Nat := 2 ^ 62

/-- What the callers see to. -/
def Guard (system : StorageSystem Change Contents) : StorageAction Change Contents → Prop
  | .write change now =>
      records.walType change ≠ .createType ∧
        (∀ commit before changes middle, system.phase = .committing commit before changes middle →
          Effect view before (changes ++ [change]) now) ∧
        (system.log.writeEntry records system.file (.change change)).fileSize < maximumLogSize
  | .writeFlush => (system.log.writeFlush records system.file).fileSize < maximumLogSize
  | .startCheckpoint metaBlock _ =>
      metaBlock.Fits ∧ metaBlock.isValid = true ∧
        metaBlock.blockPointer ≠ system.file.metaBlock ∧
        system.file.checkpointIteration + 1 < MetaBlockPointer.invalidIndex ∧
        -- a log that is to be truncated has something in front of the cut
        ¬(system.log.walSize = 0 ∧ system.log.initState = .uninitializedRequiresTruncate) ∧
        (system.log.walSize ≠ 0 →
          (system.log.writeCheckpoint records system.file metaBlock).fileSize < maximumLogSize)
  | .crash size => system.log.MayCut size
  | _ => True

end StorageSystem

end StatsRecommender
