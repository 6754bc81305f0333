import StatsRecommender.Execution.BatchMerge

/-!
# Runs of a batch insert

Threads create collections, append rows to them, hand them over for their batches and execute merge
tasks, in any order, until the insert is finalized.
-/

namespace StatsRecommender

open BatchInsertGlobalState

/-- A collection that was handed over for a batch, with the rows that it had. -/
structure AddedCollection (Row : Type) where
  batchIdx : Nat
  collectionIndex : Nat
  rows : List Row
  deriving DecidableEq

/--
The global state with the tasks that threads execute and the collections that they are building.
The collections that were handed over are remembered in batch order, those that were merged in
groups, and so are the greatest minimum of the batch indexes and the rows that were inserted.
-/
structure BatchInsertSystem (Row : Type) where
  state : BatchInsertGlobalState Row
  running : List MergeCollectionTask
  building : List Nat
  added : List (AddedCollection Row)
  bound : Nat
  merged : List (List Nat)
  inserted : Option (List Row)

inductive BatchInsertOperation (Row : Type)
  | createCollection
  | append (collectionIndex : Nat) (rows : List Row)
  | addCollection (batchIdx minBatchIndex collectionIndex : Nat) (writer : Bool)
  | getTask
  | execute (task : MergeCollectionTask)
  | finalize

variable {Row : Type}

/-- The collection of a later batch follows those of the batches before it. -/
def insertBatch (new : AddedCollection Row) :
    List (AddedCollection Row) → List (AddedCollection Row)
  | [] => [new]
  | first :: rest =>
      if first.batchIdx < new.batchIdx then first :: insertBatch new rest else new :: first :: rest

def MergeCollectionTask.collectionIndexes (task : MergeCollectionTask) : List Nat :=
  task.mergeCollections.filterMap RowGroupBatchEntry.collectionIndex

namespace BatchInsertSystem

def start (rowGroupSize : RowGroupSize) : BatchInsertSystem Row :=
  ⟨.create rowGroupSize, [], [], [], 0, [], none⟩

/-- The groups that the mergers of the final pass merge. -/
def mergedGroups (mergers : List CollectionMerger) : List (List Nat) :=
  (mergers.filter fun merger => merger.batchType == .notFlushed).map
    fun merger => merger.collectionIndexes.filterMap id

def step (system : BatchInsertSystem Row) :
    BatchInsertOperation Row → Except String (BatchInsertSystem Row)
  | .createCollection =>
      let storage := system.state.optimisticCollections
      .ok { system with
        state := { system.state with optimisticCollections := storage ++ [some []] }
        building := system.building ++ [storage.length] }
  | .append collectionIndex rows => do
      let storage := system.state.optimisticCollections
      let old ← storage.get (some collectionIndex)
      pure { system with
        state := { system.state with
          optimisticCollections := storage.put (old ++ rows) (some collectionIndex) } }
  | .addCollection batchIdx minBatchIndex collectionIndex writer => do
      let state ← system.state.addCollection batchIdx minBatchIndex (some collectionIndex) writer
      let rows ← system.state.optimisticCollections.get (some collectionIndex)
      pure { system with
        state
        building := system.building.erase collectionIndex
        added := insertBatch ⟨batchIdx, collectionIndex, rows⟩ system.added
        bound := max system.bound minBatchIndex }
  | .getTask =>
      let (task, state) := system.state.getTask
      .ok { system with state, running := system.running ++ task.toList }
  | .execute task => do
      let state ← system.state.execute task
      pure { system with
        state
        running := system.running.erase task
        merged := system.merged ++ [task.collectionIndexes] }
  | .finalize => do
      let (mergers, rows, state) ← system.state.finalize
      pure { system with
        state
        merged := system.merged ++ mergedGroups mergers
        inserted := some rows }

/--
A thread works on its own collections and on tasks that it took.  Batch indexes are unique, and none
is below a minimum that was passed before.
-/
def Permitted (system : BatchInsertSystem Row) : BatchInsertOperation Row → Prop
  | .createCollection => system.inserted = none
  | .append collectionIndex _ => system.inserted = none ∧ collectionIndex ∈ system.building
  | .addCollection batchIdx minBatchIndex collectionIndex _ =>
      system.inserted = none ∧ collectionIndex ∈ system.building ∧ system.bound ≤ batchIdx ∧
        minBatchIndex ≤ batchIdx ∧ ∀ added ∈ system.added, added.batchIdx ≠ batchIdx
  | .getTask => system.inserted = none
  | .execute task => system.inserted = none ∧ task ∈ system.running
  | .finalize => system.inserted = none

instance [DecidableEq Row] (system : BatchInsertSystem Row) : DecidablePred system.Permitted
  | .createCollection => inferInstanceAs (Decidable (_ = none))
  | .append .. => inferInstanceAs (Decidable (_ ∧ _))
  | .addCollection .. => inferInstanceAs (Decidable (_ ∧ _))
  | .getTask => inferInstanceAs (Decidable (_ = none))
  | .execute _ => inferInstanceAs (Decidable (_ ∧ _))
  | .finalize => inferInstanceAs (Decidable (_ = none))

/-- The tasks that were scheduled and have not been executed. -/
def tasks (system : BatchInsertSystem Row) : List MergeCollectionTask :=
  system.state.taskQueue ++ system.running

/-- The groups of collections that were merged or are scheduled to be merged. -/
def merging (system : BatchInsertSystem Row) : List (List Nat) :=
  system.merged ++ system.tasks.map MergeCollectionTask.collectionIndexes

/-- The rows of a collection that is there. -/
def rowsAt (system : BatchInsertSystem Row) (collectionIndex : Nat) : List Row :=
  (system.state.optimisticCollections.get (some collectionIndex)).toOption.getD []

/-- The rows that an entry stands for, in its own collection or in those that its task merges. -/
def entryRows (system : BatchInsertSystem Row) (entry : RowGroupBatchEntry) : List Row :=
  match entry.collectionIndex with
  | some index => system.rowsAt index
  | none =>
      ((system.tasks.find? fun task => task.mergedBatchIndex == entry.batchIdx).toList.flatMap
        MergeCollectionTask.collectionIndexes).flatMap system.rowsAt

/-- The rows of the sequence of collections. -/
def contents (system : BatchInsertSystem Row) : List Row :=
  system.state.collections.flatMap system.entryRows

end BatchInsertSystem

/-- The batch and the collection that an operation hands over. -/
def BatchInsertOperation.adds? : BatchInsertOperation Row → Option (Nat × Nat)
  | .addCollection batchIdx _ collectionIndex _ => some (batchIdx, collectionIndex)
  | _ => none

/-- The rows that an operation appends to a collection. -/
def BatchInsertOperation.appendedTo (collectionIndex : Nat) : BatchInsertOperation Row → List Row
  | .append index rows => if index = collectionIndex then rows else []
  | _ => []

end StatsRecommender
