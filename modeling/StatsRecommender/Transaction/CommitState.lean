import StatsRecommender.Transaction.UndoBuffer
import StatsRecommender.Transaction.UndoState

/-!
# Commits, reverted commits and rollbacks

`CommitState` and `RollbackState` on the entries of an undo buffer, and what the commit and the
rollback of a transaction make of them.
-/

namespace StatsRecommender

/-- An entry of an undo buffer with its data. -/
inductive UndoItem
  /-- The older of two versions, with the column name of the extra data (empty without). -/
  | catalogEntry (entry : Nat) (columnName : String)
  /-- `AppendInfo`. -/
  | insertTuple (table startRow count : Nat)
  /-- `DeleteInfo`. -/
  | deleteTuple (table versionInfo : Nat) (info : DeleteInfo)
  /-- `UpdateInfo`, which lies in the buffer itself. -/
  | updateTuple (info : Nat)
  | attachedDatabase (name : String)
  | sequenceValue
  deriving DecidableEq, Repr

namespace UndoState

variable {Row Key Value : Type}

/-- `DuckTableEntry::CommitAlter`. -/
def commitAlter (context : UndoContext Row Key Value) (state : UndoState Row Key Value)
    (entry : CatalogEntry) (columnName : String) : UndoState Row Key Value × Option String :=
  match alteredColumn entry.columns columnName with
  | .error message => (state, some message)
  | .ok none => (state, none)
  | .ok (some columnIndex) => (state.commitDropColumn context entry.storage columnIndex, none)

/-- `DuckIndexEntry::CommitDrop`. -/
def commitDropIndexEntry (state : UndoState Row Key Value) (entry : CatalogEntry) :
    UndoState Row Key Value :=
  match entry.info with
  | none => state
  | some info => (state.commitDropIndex info entry.name).removeIndex info entry.name

/-- `CommitState::CommitEntryDrop`. -/
def commitEntryDrop (context : UndoContext Row Key Value) (state : UndoState Row Key Value)
    (entry parent : CatalogEntry) (columnName : String) :
    UndoState Row Key Value × Option String :=
  if entry.temporary || parent.temporary then (state, none)
  else
    match parent.type with
    | .tableEntry =>
        if (entry.type = .renamedEntry ∨ entry.type = parent.type) ∧ columnName ≠ "" then
          state.commitAlter context entry columnName
        else (state, none)
    | .deletedEntry =>
        match entry.type with
        | .tableEntry => (state.commitDropTable context entry.storage, none)
        | .indexEntry => (state.commitDropIndexEntry entry, none)
        | _ => (state, none)
    | .invalid => (state, some "UndoBuffer - don't know how to write this entry to the WAL")
    | _ => (state, none)

/-- The check that a catalog entry goes through before it is committed. -/
def verifyCatalogEntry (context : UndoContext Row Key Value) (state : UndoState Row Key Value)
    (commitId entry parent : Nat) : UndoState Row Key Value × Option String :=
  match (context.entries parent).type with
  | .dependencyEntry =>
      if (context.entries parent).side = .subject then
        (state, context.verifyExistence commitId parent state)
      else (state, none)
  | .deletedEntry =>
      -- `CatalogSet::CommitDrop`
      let state := state.onDrop context entry
      (state, context.verifyCommitDrop commitId context.startTime entry state)
  | _ => (state, none)

/-- `CommitState::CommitEntry` on a catalog entry. -/
def commitCatalogEntry (context : UndoContext Row Key Value) (commitId : Nat)
    (state : UndoState Row Key Value) (entry : Nat) (columnName : String) :
    UndoState Row Key Value × Option String :=
  let old := context.entries entry
  match parentOf (state.chains old.chain) entry with
  | none => (state, none)
  | some parent =>
      match state.verifyCatalogEntry context commitId entry parent with
      | (state, some message) => (state, some message)
      | (state, none) =>
          (state.updateTimestamp parent commitId).commitEntryDrop context old
            (context.entries parent) columnName

/-- `CommitState::CommitEntry`. -/
def commitEntry (context : UndoContext Row Key Value) (commitId : Nat)
    (state : UndoState Row Key Value) : UndoItem → UndoState Row Key Value × Option String
  | .catalogEntry entry columnName => state.commitCatalogEntry context commitId entry columnName
  | .insertTuple table startRow count =>
      match state.modifiedError context table with
      | some message => (state, some message)
      | none =>
          match (state.rows (context.tables table).rowGroups).commitAppend commitId startRow count
            state.versionInfos with
          | .error message => (state, some message)
          | .ok versionInfos => ({ state with versionInfos }, none)
  | .deleteTuple table versionInfo info =>
      match state.modifiedError context table with
      | some message => (state, some message)
      | none => (state.commitDelete versionInfo commitId info, none)
  | .updateTuple info =>
      match state.modifiedError context (state.updateInfos info).table with
      | some message => (state, some message)
      | none => (state.setVersionNumber info commitId, none)
  | .attachedDatabase _ => (state, none)
  | .sequenceValue => (state, none)

/-- `CommitState::RevertCommit`, with the transaction id in place of the commit id. -/
def revertCommitEntry [DecidableEq Key] (context : UndoContext Row Key Value)
    (state : UndoState Row Key Value) : UndoItem → UndoState Row Key Value
  | .catalogEntry entry _ =>
      let old := context.entries entry
      match parentOf (state.chains old.chain) entry with
      | none => state
      | some parent =>
          let state := state.updateTimestamp parent context.transactionId
          if old.name ≠ (context.entries parent).name then
            state.updateTimestamp entry context.transactionId
          else state
  | .insertTuple table startRow count => state.revertAppend context table startRow count
  | .deleteTuple _ versionInfo info => state.commitDelete versionInfo context.transactionId info
  | .updateTuple info => state.setVersionNumber info context.transactionId
  | .attachedDatabase _ => state
  | .sequenceValue => state

/-- `RollbackState::RollbackEntry`. -/
def rollbackEntry [DecidableEq Key] (context : UndoContext Row Key Value)
    (state : UndoState Row Key Value) : UndoItem → UndoState Row Key Value
  | .catalogEntry entry _ => state.undo context entry
  | .insertTuple table startRow count => state.revertAppend context table startRow count
  | .deleteTuple _ versionInfo info => state.commitDelete versionInfo notDeletedId info
  | .updateTuple info => state.rollbackUpdate info
  | .attachedDatabase name => { state with databases := state.databases.erase name }
  | .sequenceValue => state

/-- `DuckTransaction::Commit`, without the local storage and the write-ahead log. -/
def commit [DecidableEq Key] (context : UndoContext Row Key Value) (commitId : Nat)
    (buffer : UndoBuffer UndoItem) (state : UndoState Row Key Value) :
    UndoState Row Key Value × Option String :=
  match buffer.iterateEntries (commitEntry context commitId) state with
  | (state, none) => (state, none)
  | (state, some (message, iteratorState)) =>
      (buffer.iterateEntriesUntil (revertCommitEntry context) iteratorState state, some message)

/-- `DuckTransaction::Rollback`, without the local storage. -/
def rollback [DecidableEq Key] (context : UndoContext Row Key Value)
    (buffer : UndoBuffer UndoItem) (state : UndoState Row Key Value) : UndoState Row Key Value :=
  buffer.reverseIterateEntries (rollbackEntry context) state

end UndoState

end StatsRecommender
