import Mathlib.Data.List.Nodup
import Mathlib.Data.List.Pairwise
import StatsRecommender.Execution.BatchInsertRun

/-!
# The invariant of a batch insert

The entries of the global state stand for blocks of the collections that were handed over: for one
collection, for one that neighbours were merged into, or for neighbours that a task will merge.
-/

namespace StatsRecommender

open BatchInsertGlobalState OptimisticCollections

variable {Row : Type} {system : BatchInsertSystem Row}
  {taskQueue running : List MergeCollectionTask} {added : AddedCollection Row} {index : Nat}

/-- An entry with the collections that it stands for. -/
abbrev BatchPlace (Row : Type) := RowGroupBatchEntry × List (AddedCollection Row)

/-- The rows of collections, in their order. -/
def blockRows (block : List (AddedCollection Row)) : List Row := block.flatMap AddedCollection.rows

/-- How an entry stands for a block of collections. -/
inductive Stands (storage : OptimisticCollections Row) (tasks : List MergeCollectionTask) :
    BatchPlace Row → Prop
  | single (added : AddedCollection Row)
      (held : storage.get (some added.collectionIndex) = .ok added.rows) :
      Stands storage tasks
        (⟨added.batchIdx, added.rows.length, some added.collectionIndex, .notFlushed⟩, [added])
  | flushed (first : AddedCollection Row) (rest : List (AddedCollection Row)) (totalRows : Nat)
      (held : storage.get (some first.collectionIndex) = .ok (blockRows (first :: rest))) :
      Stands storage tasks
        (⟨first.batchIdx, totalRows, some first.collectionIndex, .flushed⟩, first :: rest)
  | waiting (first : AddedCollection Row) (rest : List (AddedCollection Row)) (totalRows : Nat)
      (task : MergeCollectionTask) (scheduled : task ∈ tasks)
      (batch : task.mergedBatchIndex = first.batchIdx)
      (indexes : task.mergeCollections.map RowGroupBatchEntry.collectionIndex =
        (first :: rest).map fun added => some added.collectionIndex)
      (held : ∀ added ∈ first :: rest, storage.get (some added.collectionIndex) = .ok added.rows) :
      Stands storage tasks (⟨first.batchIdx, totalRows, none, .flushed⟩, first :: rest)

/-- The collections of a task, from the entries that it has. -/
theorem collectionIndexes_eq {task : MergeCollectionTask} {block : List (AddedCollection Row)}
    (indexes : task.mergeCollections.map RowGroupBatchEntry.collectionIndex =
      block.map fun added => some added.collectionIndex) :
    task.collectionIndexes = block.map AddedCollection.collectionIndex := by
  have both := congrArg (List.filterMap id) indexes
  rw [List.filterMap_map, List.filterMap_map] at both
  exact both.trans (congrFun List.filterMap_eq_map block)

namespace Stands

variable {storage after : OptimisticCollections Row} {tasks tasks' : List MergeCollectionTask}
  {place : BatchPlace Row}

section

variable (stands : Stands storage tasks place)
include stands

/-- What an entry stands for does not change with other collections and other tasks. -/
theorem frame (same : ∀ added ∈ place.2,
      after.get (some added.collectionIndex) = storage.get (some added.collectionIndex))
    (kept : ∀ task ∈ tasks, task.mergedBatchIndex = place.1.batchIdx → task ∈ tasks') :
    Stands after tasks' place := by
  cases stands with
  | single added held => exact .single added ((same added (List.mem_singleton_self _)).trans held)
  | flushed first rest totalRows held =>
      exact .flushed first rest totalRows ((same first (List.mem_cons_self ..)).trans held)
  | waiting first rest totalRows task scheduled batch indexes held =>
      exact .waiting first rest totalRows task (kept task scheduled batch) batch indexes
        fun added member => (same added member).trans (held added member)

/-- An entry has the batch index of the first collection that it stands for. -/
theorem exists_first :
    ∃ first rest, place.2 = first :: rest ∧ place.1.batchIdx = first.batchIdx := by
  cases stands with
  | single added => exact ⟨added, [], rfl, rfl⟩
  | flushed first rest => exact ⟨first, rest, rfl, rfl⟩
  | waiting first rest => exact ⟨first, rest, rfl, rfl⟩

/-- An entry that was not flushed has one collection. -/
theorem single_of_notFlushed (type : place.1.type = .notFlushed) :
    ∃ added, place.2 = [added] ∧ place.1.batchIdx = added.batchIdx ∧
      place.1.collectionIndex = some added.collectionIndex ∧
      place.1.totalRows = added.rows.length ∧
      storage.get (some added.collectionIndex) = .ok added.rows := by
  cases stands with
  | single added held => exact ⟨added, rfl, rfl, rfl, rfl, held⟩
  | flushed => cases type
  | waiting => cases type

/-- An entry that has a collection holds the rows that it stands for. -/
theorem get_of_valid (valid : place.1.collectionIndex ≠ none) :
    storage.get place.1.collectionIndex = .ok (blockRows place.2) := by
  cases stands with
  | single added held => simpa [blockRows] using held
  | flushed first rest totalRows held => exact held
  | waiting => exact absurd rfl valid

theorem type_of_waiting (waits : place.1.collectionIndex = none) : place.1.type = .flushed := by
  cases stands with
  | single => cases waits
  | flushed => cases waits
  | waiting => rfl

end

end Stands

namespace BatchInsertSystem

/-- The entries in their places, for what was written to the collections. -/
structure Placing (written : Nat → List Row) (system : BatchInsertSystem Row)
    (placed : List (BatchPlace Row)) : Prop where
  entries : system.state.collections = placed.map Prod.fst
  blocks : system.added = placed.flatMap Prod.snd
  stands : ∀ place ∈ placed, Stands system.state.optimisticCollections system.tasks place
  sorted : system.added.Pairwise fun first second => first.batchIdx < second.batchIdx
  distinct : (system.building ++ system.added.map AddedCollection.collectionIndex).Nodup
  inside : ∀ index ∈ system.building ++ system.added.map AddedCollection.collectionIndex,
    index < system.state.optimisticCollections.length
  built : ∀ index ∈ system.building,
    system.state.optimisticCollections.get (some index) = .ok (written index)
  recorded : ∀ added ∈ system.added, added.rows = written added.collectionIndex
  unwritten : ∀ index, system.state.optimisticCollections.length ≤ index → written index = []
  settled : ∀ place ∈ placed, place.2.length ≠ 1 →
    ∀ added ∈ place.2, added.batchIdx ≤ system.bound
  pending : (system.tasks.map MergeCollectionTask.mergedBatchIndex).Perm
    ((placed.filter fun place => place.1.collectionIndex.isNone).map fun place => place.1.batchIdx)
  merges : ∀ group ∈ system.merging, ∃ place ∈ placed, place.1.type = .flushed ∧
    group = place.2.map AddedCollection.collectionIndex
  once : system.merging.flatten.Nodup
  large : ∀ place ∈ placed, place.1.type = .flushed → place.1.collectionIndex ≠ none →
    system.state.insertsLarge = true

theorem merging_perm (perm : (taskQueue ++ running).Perm system.tasks) :
    (merging { system with state := { system.state with taskQueue }, running }).Perm
      system.merging := (perm.map _).append_left _

/-- Taking a task moves it from the queue to those that are running. -/
theorem getTask_perm {next : BatchInsertSystem Row} (taken : system.step .getTask = .ok next) :
    ∃ taskQueue running,
      next = { system with state := { system.state with taskQueue }, running } ∧
      (taskQueue ++ running).Perm system.tasks := by
  rw [step, BatchInsertGlobalState.getTask] at taken
  cases queue : system.state.taskQueue with
  | nil =>
      rw [queue] at taken
      cases taken
      exact ⟨system.state.taskQueue, system.running ++ [], rfl, by simp [tasks]⟩
  | cons task rest =>
      rw [queue] at taken
      cases taken
      refine ⟨rest, system.running ++ [task], rfl, ?_⟩
      rw [tasks, queue, ← List.append_assoc]
      exact List.perm_append_comm

namespace Placing

variable {written : Nat → List Row} {system next : BatchInsertSystem Row}
  {placed : List (BatchPlace Row)} {place other : BatchPlace Row}

section

variable (placing : Placing written system placed)
include placing

theorem mem_added (member : place ∈ placed) (inside : added ∈ place.2) : added ∈ system.added := by
  rw [placing.blocks]
  exact List.mem_flatMap.mpr ⟨place, member, inside⟩

/-- A collection belongs to one place. -/
theorem place_eq (member : place ∈ placed) (member' : other ∈ placed)
    (inside : index ∈ place.2.map AddedCollection.collectionIndex)
    (inside' : index ∈ other.2.map AddedCollection.collectionIndex) : place = other := by
  have distinct := (List.nodup_append.mp placing.distinct).2.1
  rw [placing.blocks, List.map_flatMap, List.nodup_flatMap] at distinct
  by_contra different
  have symm : Std.Symm (Function.onFun List.Disjoint fun place : BatchPlace Row =>
      place.2.map AddedCollection.collectionIndex) := ⟨fun _ _ apart _ here there => apart there here⟩
  exact distinct.2.forall member member' different inside inside'

/-- The batch indexes of the collections increase. -/
theorem sorted_entries :
    system.state.collections.Pairwise fun first second => first.batchIdx < second.batchIdx := by
  have sorted := placing.sorted
  have stands := placing.stands
  rw [placing.blocks] at sorted
  rw [placing.entries]
  clear placing
  induction placed with
  | nil => exact List.Pairwise.nil
  | cons place rest ih =>
      rw [List.flatMap_cons, List.pairwise_append] at sorted
      obtain ⟨_, later, apart⟩ := sorted
      constructor
      · intro entry member
        obtain ⟨other, there, rfl⟩ := List.mem_map.mp member
        obtain ⟨first, tail, block, batch⟩ := (stands place (List.mem_cons_self ..)).exists_first
        obtain ⟨first', tail', block', batch'⟩ :=
          (stands other (List.mem_cons_of_mem _ there)).exists_first
        rw [batch, batch']
        refine apart first ?_ first' (List.mem_flatMap.mpr ⟨other, there, ?_⟩)
        · rw [block]
          exact List.mem_cons_self ..
        · rw [block']
          exact List.mem_cons_self ..
      · exact ih later fun other member => stands other (List.mem_cons_of_mem _ member)

/-- A collection that is being built is not in a place. -/
theorem ne_of_building (building : index ∈ system.building) (member : added ∈ system.added) :
    added.collectionIndex ≠ index := fun same =>
  (List.nodup_append.mp placing.distinct).2.2 index building _ (List.mem_map_of_mem member)
    same.symm

end

/-! ## Collections that are being built -/

theorem createCollection (placing : Placing written system placed)
    (taken : system.step .createCollection = .ok next) : Placing written next placed := by
  cases taken
  have same : ∀ index < system.state.optimisticCollections.length,
      get (system.state.optimisticCollections ++ [some []]) (some index) =
        system.state.optimisticCollections.get (some index) := by
    intro index inside
    rw [OptimisticCollections.get, OptimisticCollections.get, List.getElem?_append_left inside]
  have fresh : ∀ index ∈ system.building ++ system.added.map AddedCollection.collectionIndex,
      index ≠ system.state.optimisticCollections.length := fun index member =>
    Nat.ne_of_lt (placing.inside index member)
  refine { placing with stands := ?_, distinct := ?_, inside := ?_, built := ?_, unwritten := ?_ }
  · intro place member
    refine (placing.stands place member).frame (fun added inside => same _ ?_)
      fun task scheduled _ => scheduled
    exact placing.inside _ (List.mem_append_right _
      (List.mem_map_of_mem (placing.mem_added member inside)))
  · refine (List.perm_append_right_iff _ |>.mpr List.perm_append_comm).nodup_iff.mpr ?_
    rw [List.append_assoc, List.singleton_append, List.nodup_cons]
    exact ⟨fun member => fresh _ member rfl, placing.distinct⟩
  · intro index member
    dsimp only
    rw [List.length_append]
    rcases List.mem_append.mp member with building | added
    · rcases List.mem_append.mp building with old | new
      · exact Nat.lt_succ_of_lt (placing.inside index (List.mem_append_left _ old))
      · rw [List.mem_singleton.mp new]
        exact Nat.lt_succ_self _
    · exact Nat.lt_succ_of_lt (placing.inside index (List.mem_append_right _ added))
  · intro index member
    rcases List.mem_append.mp member with old | new
    · exact (same index (placing.inside index (List.mem_append_left _ old))).trans
        (placing.built index old)
    · rw [List.mem_singleton.mp new, placing.unwritten _ (Nat.le_refl _), get_some]
      exact List.getElem?_concat_length
  · intro index outside
    dsimp only at outside
    rw [List.length_append] at outside
    exact placing.unwritten index (Nat.le_of_succ_le outside)

theorem append (placing : Placing written system placed) {rows : List Row}
    (building : index ∈ system.building) (taken : system.step (.append index rows) = .ok next) :
    Placing (fun other => written other ++ BatchInsertOperation.appendedTo other
      (.append index rows)) next placed := by
  have held := placing.built index building
  rw [step] at taken
  dsimp only [bind, Except.bind, pure, Except.pure] at taken
  rw [held] at taken
  cases taken
  have unchanged : ∀ other, other ≠ index → written other ++
      BatchInsertOperation.appendedTo other (.append index rows) = written other := by
    intro other different
    rw [BatchInsertOperation.appendedTo, if_neg different.symm, List.append_nil]
  have same : ∀ other, other ≠ index →
      (system.state.optimisticCollections.put (written index ++ rows) (some index)).get
        (some other) = system.state.optimisticCollections.get (some other) := fun other different =>
    get_put_ne fun equal => different (Option.some.inj equal)
  have length : (system.state.optimisticCollections.put (written index ++ rows)
      (some index)).length = system.state.optimisticCollections.length := length_put ..
  refine { placing with
    stands := ?_, inside := ?_, built := ?_, recorded := ?_, unwritten := ?_ }
  · intro place member
    exact (placing.stands place member).frame
      (fun added inside => same _ (placing.ne_of_building building (placing.mem_added member inside)))
      fun task scheduled _ => scheduled
  · intro other member
    exact Nat.lt_of_lt_of_eq (placing.inside other member) length.symm
  · intro other member
    by_cases here : other = index
    · rw [here, BatchInsertOperation.appendedTo, if_pos rfl]
      exact get_put_self held
    · rw [unchanged other here]
      exact (same other here).trans (placing.built other member)
  · intro added member
    rw [unchanged _ (placing.ne_of_building building member)]
    exact placing.recorded added member
  · intro other outside
    have outside' : system.state.optimisticCollections.length ≤ other :=
      Nat.le_trans (Nat.le_of_eq length.symm) outside
    rw [unchanged, placing.unwritten other outside']
    rintro rfl
    exact absurd (placing.inside other (List.mem_append_left _ building)) (Nat.not_lt.mpr outside')

/-! ## Tasks -/

/-- The order of the tasks and where they wait do not matter. -/
theorem of_perm (placing : Placing written system placed)
    (perm : (taskQueue ++ running).Perm system.tasks) :
    Placing written { system with state := { system.state with taskQueue }, running } placed := by
  refine { placing with stands := ?_, pending := ?_, merges := ?_, once := ?_ }
  · intro place member
    exact (placing.stands place member).frame (fun _ _ => rfl)
      fun task scheduled _ => perm.mem_iff.mpr scheduled
  · exact (perm.map _).trans placing.pending
  · intro group member
    exact placing.merges group ((merging_perm perm).mem_iff.mp member)
  · exact (merging_perm perm).flatten.nodup_iff.mpr placing.once

theorem getTask (placing : Placing written system placed)
    (taken : system.step .getTask = .ok next) :
    Placing written next placed ∧ (∀ group ∈ system.merging, group ∈ next.merging) ∧
      next.inserted = system.inserted := by
  obtain ⟨taskQueue, running, rfl, perm⟩ := getTask_perm taken
  exact ⟨placing.of_perm perm, fun group member => (merging_perm perm).mem_iff.mpr member, rfl⟩

end Placing

end BatchInsertSystem

end StatsRecommender
