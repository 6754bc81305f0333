import StatsRecommender.Types.Constants
import StatsRecommender.Library.Transition

/-!
# Batch insert

The global state of a parallel insert that keeps the order of its source.  Threads build
collections of rows, one for each batch; small neighbours are merged by tasks, and what is there at
the end is written to the local storage in batch order.
-/

namespace StatsRecommender

variable {Row : Type}

/-- A size that a database accepts for its row groups. -/
structure RowGroupSize where
  rows : Nat
  positive : 0 < rows
  aligned : standardVectorSize ∣ rows
  deriving DecidableEq

/-! ## Collections -/

/-- `LocalTableStorage::optimistic_collections`: the rows of each collection until it is reset. -/
abbrev OptimisticCollections (Row : Type) := List (Option (List Row))

namespace OptimisticCollections

/-- `GetOptimisticCollection`; the index is none when it is not valid. -/
def get (storage : OptimisticCollections Row) : Option Nat → Except String (List Row)
  | none => .error "Attempted to access index within vector"
  | some index =>
      match storage[index]? with
      | none => .error "Attempted to access index within vector"
      | some none => .error "Attempted to dereference unique_ptr that is NULL!"
      | some (some rows) => .ok rows

/-- `ResetOptimisticCollection`. -/
def reset (storage : OptimisticCollections Row) : Option Nat → OptimisticCollections Row
  | none => storage
  | some index => storage.set index none

/-- A collection after rows were appended to it. -/
def put (storage : OptimisticCollections Row) (rows : List Row) :
    Option Nat → OptimisticCollections Row
  | none => storage
  | some index => storage.set index (some rows)

end OptimisticCollections

inductive RowGroupBatchType
  | flushed
  | notFlushed
  deriving DecidableEq, Repr

structure CollectionMerger where
  collectionIndexes : List (Option Nat)
  batchType : RowGroupBatchType
  deriving DecidableEq, Repr

namespace CollectionMerger

def create : CollectionMerger := ⟨[], .notFlushed⟩

def addCollection (merger : CollectionMerger) (collectionIndex : Option Nat) :
    RowGroupBatchType → Except String CollectionMerger
  | .notFlushed =>
      .ok { merger with collectionIndexes := merger.collectionIndexes ++ [collectionIndex] }
  | .flushed =>
      if 1 < (merger.collectionIndexes ++ [collectionIndex]).length then
        .error "Cannot merge flushed collections"
      else .ok ⟨merger.collectionIndexes ++ [collectionIndex], .flushed⟩

/-- Scanning one collection into the result, in `Flush`. -/
def appendCollection (result : List Row × OptimisticCollections Row) (collectionIndex : Option Nat) :
    Except String (List Row × OptimisticCollections Row) := do
  let rows ← result.2.get collectionIndex
  pure (result.1 ++ rows, result.2.reset collectionIndex)

def flush (merger : CollectionMerger) (storage : OptimisticCollections Row) :
    Except String (Option Nat × OptimisticCollections Row) :=
  match merger.collectionIndexes with
  | [] => .ok (none, storage)
  | first :: rest => do
      let result ← storage.get first
      let (rows, merged) ← rest.foldlM appendCollection (result, storage)
      pure (first, merged.put rows first)

end CollectionMerger

/-! ## The global state -/

structure RowGroupBatchEntry where
  batchIdx : Nat
  totalRows : Nat
  collectionIndex : Option Nat
  type : RowGroupBatchType
  deriving DecidableEq, Repr

structure MergeCollectionTask where
  mergeCollections : List RowGroupBatchEntry
  mergedBatchIndex : Nat
  deriving DecidableEq, Repr

structure BatchMergeTask where
  startIndex : Nat
  endIndex : Nat
  totalCount : Nat
  deriving DecidableEq, Repr

structure BatchInsertGlobalState (Row : Type) where
  rowGroupSize : RowGroupSize
  insertCount : Nat
  collections : List RowGroupBatchEntry
  nextStart : Nat
  optimisticallyWritten : Bool
  taskQueue : List MergeCollectionTask
  optimisticCollections : OptimisticCollections Row

namespace BatchInsertGlobalState

def create (rowGroupSize : RowGroupSize) : BatchInsertGlobalState Row :=
  ⟨rowGroupSize, 0, [], 0, false, [], []⟩

def readyToMerge (rowGroupSize : RowGroupSize) (count : Nat) : Bool :=
  let size := rowGroupSize.rows
  decide (size / 10 * 9 ≤ count ∧ count ≤ size) ||
    decide (size / 10 * 18 ≤ count ∧ count ≤ size * 2) ||
    decide (size / 10 * 27 ≤ count ∧ count ≤ size * 3) ||
    decide (size / 10 * 36 ≤ count)

/-- The loop of `ScheduleMergeTasks` from an index on: what is scheduled, and the next start. -/
def selectTasks (rowGroupSize : RowGroupSize) (minBatchIndex : Nat) :
    List RowGroupBatchEntry → Nat → BatchMergeTask → Nat → List BatchMergeTask × Nat
  | [], _, _, nextStart => ([], nextStart)
  | entry :: rest, currentIdx, currentTask, nextStart =>
      if minBatchIndex < entry.batchIdx then
        (if readyToMerge rowGroupSize currentTask.totalCount then
          [{ currentTask with endIndex := currentIdx }] else [], nextStart)
      else if entry.type = .flushed then
        let selected := selectTasks rowGroupSize minBatchIndex rest (currentIdx + 1)
          ⟨currentIdx + 1, currentIdx, 0⟩ (max nextStart (currentIdx + 1))
        if 0 < currentTask.totalCount then
          ({ currentTask with endIndex := currentIdx } :: selected.1, selected.2)
        else selected
      else if readyToMerge rowGroupSize (currentTask.totalCount + entry.totalRows) then
        let selected := selectTasks rowGroupSize minBatchIndex rest (currentIdx + 1)
          ⟨currentIdx + 1, currentIdx + 1, 0⟩ nextStart
        (⟨currentTask.startIndex, currentIdx + 1, currentTask.totalCount + entry.totalRows⟩ ::
          selected.1, selected.2)
      else
        selectTasks rowGroupSize minBatchIndex rest (currentIdx + 1)
          { currentTask with totalCount := currentTask.totalCount + entry.totalRows } nextStart

/-- The entry that a merge task keeps of an entry. -/
def addedEntry (storage : OptimisticCollections Row) (batchIdx : Nat) (entry : RowGroupBatchEntry) :
    Except String RowGroupBatchEntry :=
  if entry.collectionIndex = none ∨ entry.type = .flushed then
    .error "Adding a row group collection that should not be flushed"
  else do
    let rows ← storage.get entry.collectionIndex
    pure ⟨batchIdx, rows.length, entry.collectionIndex, .flushed⟩

/-- Taking the collections of one scheduled task out of their entries. -/
def addTask (storage : OptimisticCollections Row)
    (scheduled : List RowGroupBatchEntry × List MergeCollectionTask) (task : BatchMergeTask) :
    Except String (List RowGroupBatchEntry × List MergeCollectionTask) :=
  match scheduled.1[task.startIndex]? with
  | none => .error "Attempted to access index within vector"
  | some first => do
      let entries := (scheduled.1.drop task.startIndex).take (task.endIndex - task.startIndex)
      let mergeCollections ← entries.mapM (addedEntry storage first.batchIdx)
      pure (scheduled.1.take task.startIndex ++
          entries.map (fun entry => ⟨entry.batchIdx, task.totalCount, none, .flushed⟩) ++
          scheduled.1.drop task.endIndex,
        scheduled.2 ++ [⟨mergeCollections, first.batchIdx⟩])

/-- Erasing all entries of a task except the first one. -/
def eraseTask (task : BatchMergeTask) (collections : List RowGroupBatchEntry) :
    List RowGroupBatchEntry :=
  if task.startIndex + 1 < task.endIndex then
    collections.take (task.startIndex + 1) ++ collections.drop task.endIndex
  else collections

def scheduleMergeTasks (state : BatchInsertGlobalState Row) (minBatchIndex : Nat) :
    Except String (BatchInsertGlobalState Row) := do
  let selected := selectTasks state.rowGroupSize minBatchIndex
    (state.collections.drop state.nextStart) state.nextStart ⟨state.nextStart, 0, 0⟩ state.nextStart
  let (collections, taskQueue) ←
    selected.1.foldlM (addTask state.optimisticCollections) (state.collections, state.taskQueue)
  pure { state with
    collections := selected.1.foldr eraseTask collections
    nextStart := selected.2
    taskQueue }

/-- `std::lower_bound` by the batch index. -/
def lowerBound (collections : List RowGroupBatchEntry) (batchIdx : Nat) : Nat :=
  (collections.takeWhile fun entry => decide (entry.batchIdx < batchIdx)).length

def addCollection (state : BatchInsertGlobalState Row) (batchIdx minBatchIndex : Nat)
    (collectionIndex : Option Nat) (writer : Bool) : Except String (BatchInsertGlobalState Row) :=
  if batchIdx < minBatchIndex then
    .error (s!"Batch index of the added collection ({batchIdx}) is smaller than " ++
      s!"the min batch index ({minBatchIndex})")
  else do
    let rows ← state.optimisticCollections.get collectionIndex
    let batchType := if rows.length < state.rowGroupSize.rows then RowGroupBatchType.notFlushed
      else .flushed
    let position := lowerBound state.collections batchIdx
    if (state.collections[position]?).any fun entry => entry.batchIdx == batchIdx then
      .error (s!"PhysicalBatchInsert::AddCollection error: batch index {batchIdx} is present in " ++
        "multiple collections. This occurs when batch indexes are not uniquely distributed over " ++
        "threads")
    else
      let added := { state with
        insertCount := state.insertCount + rows.length
        collections := state.collections.insertIdx position
          ⟨batchIdx, rows.length, collectionIndex, batchType⟩ }
      if writer then added.scheduleMergeTasks minBatchIndex else .ok added

/-- `GetTask`. -/
def getTask (state : BatchInsertGlobalState Row) :
    Option MergeCollectionTask × BatchInsertGlobalState Row :=
  match state.taskQueue with
  | [] => (none, state)
  | task :: rest => (some task, { state with taskQueue := rest })

def mergeCollections (state : BatchInsertGlobalState Row)
    (mergeCollections : List RowGroupBatchEntry) :
    Except String (Option Nat × BatchInsertGlobalState Row) := do
  let merger ← mergeCollections.foldlM
    (fun merger entry => merger.addCollection entry.collectionIndex .notFlushed)
    CollectionMerger.create
  let (result, optimisticCollections) ← merger.flush state.optimisticCollections
  pure (result, { state with optimisticallyWritten := true, optimisticCollections })

/-- Giving the merged collection to the entry of its batch index. -/
def placeMerged (state : BatchInsertGlobalState Row) (mergedBatchIndex : Nat)
    (collectionIndex : Option Nat) : Except String (BatchInsertGlobalState Row) :=
  let position := lowerBound state.collections mergedBatchIndex
  match state.collections[position]? with
  | none => .error "Merged batch index was no longer present in collection"
  | some entry =>
      if entry.batchIdx = mergedBatchIndex then
        let merged := { entry with collectionIndex }
        .ok { state with collections := state.collections.set position merged }
      else .error "Merged batch index was no longer present in collection"

/-- `MergeCollectionTask::Execute`. -/
def execute (state : BatchInsertGlobalState Row) (task : MergeCollectionTask) :
    Except String (BatchInsertGlobalState Row) := do
  let (result, merged) ← state.mergeCollections task.mergeCollections
  let _ ← merged.optimisticCollections.get result
  merged.placeMerged task.mergedBatchIndex result

/-! ## Finalize -/

/-- The mergers so far, and the one that small collections are added to. -/
abbrev Mergers := List CollectionMerger × Option CollectionMerger

/-- One entry in the final pass over the collections. -/
def addToMergers (mergers : Mergers) (entry : RowGroupBatchEntry) : Except String Mergers :=
  match entry.type with
  | .notFlushed => do
      let currentMerger ←
        (mergers.2.getD .create).addCollection entry.collectionIndex .notFlushed
      pure (mergers.1, some currentMerger)
  | .flushed => do
      let largerMerger ← CollectionMerger.create.addCollection entry.collectionIndex .flushed
      pure (mergers.1 ++ mergers.2.toList ++ [largerMerger], none)

/-- The mergers that the final pass comes to. -/
def finalMergers (collections : List RowGroupBatchEntry) : Except String (List CollectionMerger) := do
  let mergers ← collections.foldlM addToMergers ([], none)
  pure (mergers.1 ++ mergers.2.toList)

/-- Flushing one more merger. -/
def flushNext (finals : List (Option Nat) × OptimisticCollections Row) (merger : CollectionMerger) :
    Except String (List (Option Nat) × OptimisticCollections Row) := do
  let (result, storage) ← merger.flush finals.2
  pure (finals.1 ++ [result], storage)

/-- `LocalMerge` and `LocalAppend`: the rows of a collection follow those in the local storage. -/
def insertCollection (inserted : List Row × OptimisticCollections Row)
    (collectionIndex : Option Nat) : Except String (List Row × OptimisticCollections Row) := do
  let rows ← inserted.2.get collectionIndex
  pure (inserted.1 ++ rows, inserted.2.reset collectionIndex)

/-- Appending an entry to the local storage, when little is inserted. -/
def insertEntry (inserted : List Row × OptimisticCollections Row) (entry : RowGroupBatchEntry) :
    Except String (List Row × OptimisticCollections Row) :=
  if entry.type ≠ .notFlushed then .error "Encountered a flushed batch"
  else insertCollection inserted entry.collectionIndex

/-- Whether `Finalize` merges the collections into the local storage. -/
def insertsLarge (state : BatchInsertGlobalState Row) : Bool :=
  state.optimisticallyWritten || decide (state.rowGroupSize.rows ≤ state.insertCount)

/-- `Finalize`: the mergers that were flushed, and the rows that went to the local storage. -/
def finalize (state : BatchInsertGlobalState Row) :
    Except String (List CollectionMerger × List Row × BatchInsertGlobalState Row) :=
  if state.insertsLarge then do
    let mergers ← finalMergers state.collections
    let (finals, flushed) ← mergers.foldlM flushNext ([], state.optimisticCollections)
    let (rows, optimisticCollections) ← finals.foldlM insertCollection ([], flushed)
    pure (mergers, rows, { state with collections := [], optimisticCollections })
  else do
    let (rows, optimisticCollections) ←
      state.collections.foldlM insertEntry ([], state.optimisticCollections)
    pure ([], rows, { state with collections := [], optimisticCollections })

end BatchInsertGlobalState

end StatsRecommender
