import StatsRecommender.Storage.RowVersionRun
import StatsRecommender.Storage.UpdateMerge

/-!
# Runs of updates

Transactions update the rows of one vector, commit, roll back and forget their versions in any
interleaving.  Beside the update segment stands the history of every row: all values that were
written to it, with what became of them.
-/

namespace StatsRecommender

open SortedEntries VectorUpdates

variable {T : Type}

/-- A value that was written to a row: when its transaction started, and what became of it. -/
structure WrittenValue (T : Type) where
  startTime : Nat
  stamp : Stamp
  value : T
  deriving DecidableEq, Repr

namespace WrittenValue

/-- The id that stands for the version. -/
def id (version : WrittenValue T) : Nat := version.stamp.id

def visibleTo (transaction : TransactionData) (version : WrittenValue T) : Bool :=
  version.stamp.visibleTo transaction

/-- A transaction's write goes in front, or replaces its former one. -/
def write (transaction : TransactionData) (value : T) :
    List (WrittenValue T) → List (WrittenValue T)
  | [] => [⟨transaction.startTime, .uncommitted transaction.transactionId, value⟩]
  | version :: older =>
      if version.stamp = .uncommitted transaction.transactionId then
        { version with value } :: older
      else ⟨transaction.startTime, .uncommitted transaction.transactionId, value⟩ :: version :: older

def commit (transaction : TransactionData) (commitId : Nat) (version : WrittenValue T) :
    WrittenValue T :=
  if version.stamp = .uncommitted transaction.transactionId then
    { version with stamp := .committed commitId }
  else version

/-- What is left of a history without the writes of a transaction. -/
def rollback (transaction : TransactionData) (versions : List (WrittenValue T)) :
    List (WrittenValue T) :=
  versions.filter fun version => version.stamp != .uncommitted transaction.transactionId

end WrittenValue

/-- The updates of a vector, the histories of its rows, and the transactions at work. -/
structure UpdatedVector (T : Type) where
  updates : VectorUpdates T
  history : Nat → List (WrittenValue T)
  active : List TransactionData
  clock : Nat
  nextId : Nat

/-- The operations; what is cleaned up is named by its place in the chain. -/
inductive UpdateOperation (T : Type) where
  | startTransaction
  | update (transaction : TransactionData) (given : List (Nat × Option T))
  | commit (transaction : TransactionData)
  | rollback (transaction : TransactionData)
  | cleanup (place : Nat)

namespace UpdatedVector

/-- A vector without updates. -/
def initial : UpdatedVector T := ⟨.empty, fun _ => [], [], 2, transactionIdStart⟩

/-- The histories after a transaction has written some rows. -/
def writeRows (transaction : TransactionData) (rows : List (Nat × T))
    (history : Nat → List (WrittenValue T)) (row : Nat) : List (WrittenValue T) :=
  match lookup row rows with
  | none => history row
  | some value => WrittenValue.write transaction value (history row)

/-- The transactions other than one that has come to its end. -/
def without (transaction : TransactionData) (active : List TransactionData) :
    List TransactionData :=
  active.filter fun other => decide (other.transactionId ≠ transaction.transactionId)

/-- One operation; a conflict leaves everything as it was. -/
def step [DecidableEq T] (sort : RowSort T) (base : BaseVector T) (state : UpdatedVector T) :
    UpdateOperation T → Except String (UpdatedVector T)
  | .startTransaction =>
      pure
        { state with
          active := state.active ++ [⟨state.clock, state.nextId⟩]
          clock := state.clock + 1
          nextId := state.nextId + 1 }
  | .update transaction given => do
      let updates ← state.updates.update sort base transaction given
      pure
        { state with
          updates
          history := writeRows transaction (state.updates.effectiveUpdates sort base given)
            state.history }
  | .commit transaction =>
      pure
        { state with
          updates := state.updates.commitTransaction transaction.transactionId state.clock
          history := fun row =>
            (state.history row).map (WrittenValue.commit transaction state.clock)
          active := without transaction state.active
          clock := state.clock + 1 }
  | .rollback transaction =>
      pure
        { state with
          updates := state.updates.rollbackTransaction transaction.transactionId
          history := fun row => WrittenValue.rollback transaction (state.history row)
          active := without transaction state.active }
  | .cleanup place => pure { state with updates := state.updates.cleanupUpdate place }

/-- The operations as transactions use them. -/
def Permitted (state : UpdatedVector T) : UpdateOperation T → Prop
  -- times end where ids begin
  | .startTransaction => state.clock + 1 < transactionIdStart
  | .update transaction given => transaction ∈ state.active ∧
      ∀ entry ∈ given, entry.1 < standardVectorSize
  | .commit transaction => transaction ∈ state.active ∧ state.clock + 1 < transactionIdStart
  | .rollback transaction => transaction ∈ state.active
  -- a version is forgotten that was committed before all transactions under way started
  | .cleanup place => ∀ info ∈ state.updates.chain[place]?,
      info.versionNumber < transactionIdStart ∧
        ∀ transaction ∈ state.active, info.versionNumber < transaction.startTime

instance decidablePermitted (state : UpdatedVector T) : DecidablePred state.Permitted
  | .startTransaction => inferInstanceAs (Decidable (_ < _))
  | .update _ _ => inferInstanceAs (Decidable (_ ∧ _))
  | .commit _ => inferInstanceAs (Decidable (_ ∧ _))
  | .rollback _ => inferInstanceAs (Decidable (_ ∈ _))
  | .cleanup place => inferInstanceAs (Decidable (∀ info ∈ state.updates.chain[place]?,
      info.versionNumber < transactionIdStart ∧
        ∀ transaction ∈ state.active, info.versionNumber < transaction.startTime))

/-- The runs of the operations. -/
def Run [DecidableEq T] (sort : RowSort T) (base : BaseVector T) :
    List (UpdateOperation T) → UpdatedVector T → Prop :=
  Reaches (step sort base) Permitted initial

/-- The operation does not write the row for the transaction. -/
def LeavesRow (transaction : TransactionData) (row : Nat) : UpdateOperation T → Prop
  | .update other given => other = transaction → ∀ entry ∈ given, entry.1 ≠ row
  | _ => True

/-! ## What stays true -/

/-- Nobody looks behind the version with this id. -/
def Settled (state : UpdatedVector T) (id : Nat) : Prop :=
  id < state.clock ∧ ∀ transaction ∈ state.active, id < transaction.startTime

/-- What a row holds that was never updated, where the vector has a value for it. -/
def IsBase (base : BaseVector T) (row : Nat) (value : T) : Prop :=
  base.valid row = true → value = base.data row

/-- The value of a row that the history ends with. -/
def IsCurrent (base : BaseVector T) (row : Nat) : List (WrittenValue T) → T → Prop :=
  VersionChain.Shows (IsBase base row) WrittenValue.value

/-- The chain of a row goes back through its history. -/
def RowTraces (base : BaseVector T) (state : UpdatedVector T) (row : Nat) : Prop :=
  VersionChain.Traces (IsBase base row) WrittenValue.value WrittenValue.id state.Settled
    (state.history row) (rowChain row state.updates.chain)

/-- What is known of a version. -/
def Known (state : UpdatedVector T) (version : WrittenValue T) : Prop :=
  match version.stamp with
  | .uncommitted transactionId => ⟨version.startTime, transactionId⟩ ∈ state.active
  | .committed commitId => version.startTime < commitId ∧ commitId < state.clock ∧
      ∀ transaction ∈ state.active, commitId ≠ transaction.startTime

/-- Each version was written by a transaction that started after the older ones were committed. -/
def Serial (versions : List (WrittenValue T)) : Prop :=
  versions.Pairwise fun newer older =>
    ∃ commitId, older.stamp = .committed commitId ∧ commitId < newer.startTime

/-- Times lie before the clock, and ids behind all times. -/
structure Timed (state : UpdatedVector T) : Prop where
  clock : state.clock < transactionIdStart
  nextId : transactionIdStart ≤ state.nextId
  nodup : (state.active.map TransactionData.transactionId).Nodup
  active : ∀ transaction ∈ state.active, transaction.startTime < state.clock ∧
    transactionIdStart ≤ transaction.transactionId ∧ transaction.transactionId < state.nextId

/-- The chain: its versions are committed or belong to transactions under way. -/
structure Chained (state : UpdatedVector T) : Prop where
  shaped : ∀ info ∈ state.updates.chain, info.Shaped
  nodup : (state.updates.chain.map ChainedUpdate.versionNumber).Nodup
  versions : ∀ info ∈ state.updates.chain, info.versionNumber < state.clock ∨
    ∃ transaction ∈ state.active, transaction.transactionId = info.versionNumber
  /-- What stands in front of a transaction's version came after its start. -/
  own : state.updates.chain.Pairwise fun newer older => ∀ transaction ∈ state.active,
    older.versionNumber = transaction.transactionId → transaction.startTime < newer.versionNumber

/-- The root holds the newest values. -/
structure Rooted (base : BaseVector T) (state : UpdatedVector T) : Prop where
  shaped : ∀ root ∈ state.updates.root, root.versionNumber = transactionIdStart - 1 ∧ root.Shaped
  rootless : state.updates.root = none →
    state.updates.chain = [] ∧ ∀ row, state.history row = []
  absent : ∀ root ∈ state.updates.root, ∀ row, lookup row root.entries = none →
    state.history row = []
  current : ∀ root ∈ state.updates.root, ∀ row value, lookup row root.entries = some value →
    IsCurrent base row (state.history row) value

/-- The update segment agrees with the histories of the rows. -/
structure Consistent (base : BaseVector T) (state : UpdatedVector T) : Prop where
  timed : state.Timed
  chained : state.Chained
  rooted : state.Rooted base
  traces : ∀ row, state.RowTraces base row
  known : ∀ row, ∀ version ∈ state.history row, state.Known version
  serial : ∀ row, Serial (state.history row)

end UpdatedVector

end StatsRecommender
