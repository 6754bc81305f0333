import StatsRecommender.Transaction.DuckTransactionManager

/-!
# Runs of the transaction manager

Transactions start, run queries, make changes, commit and roll back in any order.  A commit that
writes to the WAL releases the transaction lock on the way.
-/

namespace StatsRecommender

open DuckTransactionManager

/-- A commit that writes to the WAL, with what was read before the lock was released. -/
structure PendingCommit where
  transactionId : Nat
  properties : UndoBufferProperties
  deriving DecidableEq, Repr

/--
A transaction that was removed: whether it had made changes when it was told to finish, and whether
it was stored, or left changes, when it was removed.
-/
structure FinishedTransaction where
  transactionId : Nat
  madeChanges : Bool
  stored : Bool
  changesLeft : Bool
  deriving DecidableEq, Repr

/-- A transaction that began to wait, with the queries that ran in the active transactions. -/
structure Retirement where
  transactionId : Nat
  running : List (Nat × Nat)
  deriving DecidableEq, Repr

/--
The transaction manager with the counter of queries and the commits that are under way.  What was
finished, retired and cleaned up is remembered.
-/
structure TransactionSystem where
  manager : DuckTransactionManager
  currentQueryNumber : Nat
  pending : List PendingCommit
  abandoned : List Nat
  cleaned : List DuckCleanupInfo
  finished : List FinishedTransaction
  retired : List Retirement

/-- How a commit ends; an error leaves the first tables of the local storage flushed. -/
inductive CommitOutcome
  | success
  | error (tables : Nat)
  | fatal (tables : Nat)
  deriving DecidableEq, Repr

inductive TransactionOperation
  | startTransaction
  | newQueryNumber
  | setActiveQuery (transactionId : Nat) (query : Option Nat)
  | pushUndo (transactionId : Nat) (entry : UndoEntry)
  | writeLocal (transactionId : Nat) (localStorage : List Nat)
  | writeToWAL (transactionId : Nat)
  | commit (transactionId : Nat) (outcome : CommitOutcome)
  | rollback (transactionId : Nat)
  | cleanup
  deriving DecidableEq, Repr

namespace TransactionSystem

def start : TransactionSystem := ⟨.create, 1, [], [], [], [], []⟩

/-- Whether a commit stores the transaction, unless there is an error. -/
def storesTransaction (properties : UndoBufferProperties) : Bool :=
  properties.hasUpdates || properties.hasIndexDeletes || properties.hasCatalogChanges

/-- The queries that run in transactions. -/
def running (transactions : List DuckTransaction) : List (Nat × Nat) :=
  transactions.filterMap fun active => active.activeQuery.map fun query => (active.transactionId, query)

/-- The end of a commit and of a rollback, once the transaction was changed. -/
def remove (system : TransactionSystem) (transactionId : Nat) (madeChanges storeTransaction : Bool) :
    Except String TransactionSystem := do
  let transaction ← system.manager.findActive transactionId
  let (manager, cleanupInfo) ←
    system.manager.removeTransaction system.currentQueryNumber transactionId storeTransaction
  let waiting := (ids (manager.oldTransactions ++ cleanupInfo.transactions)).filter
    fun identifier => !(ids system.manager.oldTransactions).contains identifier
  pure { system with
    manager := manager.scheduleCleanup cleanupInfo
    pending := system.pending.filter fun commit => commit.transactionId != transactionId
    finished := system.finished ++ [⟨transactionId, madeChanges, storeTransaction,
      storeTransaction || transaction.changesMade⟩]
    retired := system.retired ++
      waiting.map fun identifier => ⟨identifier, running manager.activeTransactions⟩ }

/-- `CommitTransaction` from where the commit id is handed out. -/
def finishCommit (system : TransactionSystem) (transactionId : Nat)
    (properties : UndoBufferProperties) (madeChanges : Bool) :
    CommitOutcome → Except String TransactionSystem
  | .success =>
      let (commitId, manager) := system.manager.getCommitTimestamp
      remove { system with
          manager := manager.modifyActive transactionId fun active => active.commit commitId }
        transactionId madeChanges (storesTransaction properties)
  | .error tables =>
      let (_, manager) := system.manager.getCommitTimestamp
      remove { system with
          manager := manager.modifyActive transactionId fun active =>
            { (active.flush tables).rollback with commitId := 0 } }
        transactionId madeChanges true
  | .fatal tables =>
      let (_, manager) := system.manager.getCommitTimestamp
      pure { system with
        manager := manager.modifyActive transactionId fun active =>
          { (active.flush tables).rollback with commitId := 0 }
        pending := system.pending.filter fun commit => commit.transactionId != transactionId
        abandoned := transactionId :: system.abandoned }

def step (system : TransactionSystem) : TransactionOperation → Except String TransactionSystem
  | .startTransaction => do
      let manager ← system.manager.startTransaction
      pure { system with manager }
  | .newQueryNumber => pure { system with currentQueryNumber := system.currentQueryNumber + 1 }
  | .setActiveQuery transactionId query =>
      pure { system with
        manager := system.manager.modifyActive transactionId fun active =>
          { active with activeQuery := query } }
  | .pushUndo transactionId entry =>
      pure { system with
        manager := system.manager.modifyActive transactionId fun active =>
          { active with undoBuffer := active.undoBuffer ++ [entry] } }
  | .writeLocal transactionId localStorage =>
      pure { system with
        manager := system.manager.modifyActive transactionId fun active =>
          { active with localStorage } }
  | .writeToWAL transactionId => do
      let transaction ← system.manager.findActive transactionId
      pure { system with
        pending := system.pending ++ [⟨transactionId, .of transaction.undoBuffer⟩] }
  | .commit transactionId outcome => do
      let transaction ← system.manager.findActive transactionId
      let properties :=
        match system.pending.find? fun commit => commit.transactionId == transactionId with
        | some commit => commit.properties
        | none => .of transaction.undoBuffer
      system.finishCommit transactionId properties transaction.changesMade outcome
  | .rollback transactionId => do
      let transaction ← system.manager.findActive transactionId
      remove { system with
          manager := system.manager.modifyActive transactionId DuckTransaction.rollback }
        transactionId transaction.changesMade transaction.rollback.changesMade
  | .cleanup =>
      match system.manager.cleanupQueue with
      | [] => pure system
      | first :: rest =>
          pure { system with
            manager := { system.manager with cleanupQueue := rest }
            cleaned := system.cleaned ++ [first] }

/-- The connection of a transaction can use it. -/
def Usable (system : TransactionSystem) (transactionId : Nat) : Prop :=
  transactionId ∈ ids system.manager.activeTransactions ∧ transactionId ∉ system.abandoned

/-- No commit of a transaction is under way. -/
def Idle (system : TransactionSystem) (transactionId : Nat) : Prop :=
  system.Usable transactionId ∧ transactionId ∉ system.pending.map PendingCommit.transactionId

/-- A connection uses its own transaction, for a query whose number was handed out. -/
def Permitted (system : TransactionSystem) : TransactionOperation → Prop
  | .startTransaction | .newQueryNumber | .cleanup => True
  | .setActiveQuery transactionId query =>
      system.Idle transactionId ∧ ∀ number ∈ query, number < system.currentQueryNumber
  | .pushUndo transactionId _ | .writeLocal transactionId _ | .rollback transactionId =>
      system.Idle transactionId
  | .writeToWAL transactionId =>
      system.Idle transactionId ∧ ∃ active ∈ system.manager.activeTransactions,
        active.transactionId = transactionId ∧ active.changesMade = true
  | .commit transactionId outcome =>
      system.Usable transactionId ∧ (outcome = .success ∨
        ∃ active ∈ system.manager.activeTransactions,
          active.transactionId = transactionId ∧ active.changesMade = true)

instance (system : TransactionSystem) (transactionId : Nat) :
    Decidable (system.Usable transactionId) := inferInstanceAs (Decidable (_ ∧ _))

instance (system : TransactionSystem) (transactionId : Nat) : Decidable (system.Idle transactionId) :=
  inferInstanceAs (Decidable (_ ∧ _))

instance (system : TransactionSystem) : DecidablePred system.Permitted := fun operation =>
  match operation with
  | .startTransaction | .newQueryNumber | .cleanup => inferInstanceAs (Decidable True)
  | .setActiveQuery _ _ => inferInstanceAs (Decidable (_ ∧ _))
  | .pushUndo transactionId _ | .writeLocal transactionId _ | .rollback transactionId =>
      inferInstanceAs (Decidable (system.Idle transactionId))
  | .writeToWAL _ => inferInstanceAs (Decidable (_ ∧ _))
  | .commit _ _ => inferInstanceAs (Decidable (_ ∧ (_ ∨ _)))

/-- The transactions of all cleanup batches. -/
def batched (system : TransactionSystem) : List DuckTransaction :=
  (system.cleaned ++ system.manager.cleanupQueue).flatMap DuckCleanupInfo.transactions

/-- The transactions that are kept in one of the lists or a cleanup batch. -/
def kept (system : TransactionSystem) : List DuckTransaction :=
  system.manager.recentlyCommittedTransactions ++ (system.manager.oldTransactions ++ system.batched)

end TransactionSystem

end StatsRecommender
