import Mathlib.Data.List.Flatten
import StatsRecommender.Execution.BatchInsertSteps

/-!
# What a batch insert promises

In every run of a batch insert, collections are merged at most once and with their neighbours only,
and the rows are inserted in batch order.
-/

namespace StatsRecommender

open BatchInsertGlobalState OptimisticCollections

variable {Row : Type} {Element : Type} {task : MergeCollectionTask}
  {storage : OptimisticCollections Row} {tasks : List MergeCollectionTask}
  {placed : List (BatchPlace Row)} {operation : BatchInsertOperation Row}

theorem set_length_append (front back : List Element) (old new : Element) :
    (front ++ old :: back).set front.length new = front ++ new :: back := by
  induction front with
  | nil => rfl
  | cons first rest ih => exact congrArg (first :: ·) ih

theorem infix_flatMap {Item : Type} (expand : Item → List Element) {part all : List Item}
    (inside : part <:+: all) : part.flatMap expand <:+: all.flatMap expand := by
  obtain ⟨front, back, rfl⟩ := inside
  exact ⟨front.flatMap expand, back.flatMap expand, by simp⟩

theorem infix_of_mem_flatMap {Item : Type} (expand : Item → List Element) {item : Item}
    {all : List Item} (member : item ∈ all) : expand item <:+: all.flatMap expand := by
  obtain ⟨front, back, rfl⟩ := List.append_of_mem member
  exact ⟨front.flatMap expand, back.flatMap expand, by simp⟩

namespace BatchInsertSystem

/-- A batch insert that was finalized. -/
structure Finished (written : Nat → List Row) (system : BatchInsertSystem Row) : Prop where
  inserted : system.inserted = some (blockRows system.added)
  sorted : system.added.Pairwise fun first second => first.batchIdx < second.batchIdx
  recorded : ∀ added ∈ system.added, added.rows = written added.collectionIndex
  neighbours : ∀ group ∈ system.merging,
    group <:+: system.added.map AddedCollection.collectionIndex
  once : system.merging.flatten.Nodup

namespace Placing

variable {written : Nat → List Row} {system next : BatchInsertSystem Row}
  {placed : List (BatchPlace Row)} {place : BatchPlace Row}

/-! ## Executing a task -/

section

variable (placing : Placing written system placed)
include placing

theorem block_nodup (member : place ∈ placed) :
    (place.2.map AddedCollection.collectionIndex).Nodup := by
  have distinct := (List.nodup_append.mp placing.distinct).2.1
  rw [placing.blocks, List.map_flatMap, List.nodup_flatMap] at distinct
  exact distinct.1 place member

theorem sorted_places :
    placed.Pairwise fun first second => first.1.batchIdx < second.1.batchIdx := by
  have sorted := placing.sorted_entries
  rwa [placing.entries, List.pairwise_map] at sorted

theorem tasks_nodup : (system.tasks.map MergeCollectionTask.mergedBatchIndex).Nodup := by
  refine placing.pending.nodup_iff.mpr ?_
  refine List.pairwise_map.mpr ((placing.sorted_places.filter _).imp ?_)
  exact fun before => Nat.ne_of_lt before

/-- A task has an entry that waits for it. -/
theorem exists_waiting (member : task ∈ system.tasks) :
    ∃ front first rest totalRows back,
      placed = front ++ (⟨first.batchIdx, totalRows, none, .flushed⟩, first :: rest) :: back ∧
      task.mergedBatchIndex = first.batchIdx ∧
      task.mergeCollections.map RowGroupBatchEntry.collectionIndex =
        (first :: rest).map (fun added => some added.collectionIndex) ∧
      ∀ added ∈ first :: rest,
        system.state.optimisticCollections.get (some added.collectionIndex) = .ok added.rows := by
  obtain ⟨place, waits, batch⟩ := List.mem_map.mp
    (placing.pending.mem_iff.mp (List.mem_map_of_mem member))
  obtain ⟨there, unplaced⟩ := List.mem_filter.mp waits
  obtain ⟨front, back, split⟩ := List.append_of_mem there
  cases placing.stands place there with
  | single => cases unplaced
  | flushed => cases unplaced
  | waiting first rest totalRows scheduled known same indexes held =>
      have one : scheduled = task :=
        List.inj_on_of_nodup_map placing.tasks_nodup known member (same.trans batch)
      subst one
      exact ⟨front, first, rest, totalRows, back, split, same, indexes, held⟩

/-- What `MergeCollectionTask::Execute` does to the global state. -/
theorem execute_eq {front back : List (BatchPlace Row)} {first : AddedCollection Row}
    {rest : List (AddedCollection Row)} {totalRows : Nat} (split : placed =
      front ++ (⟨first.batchIdx, totalRows, none, .flushed⟩, first :: rest) :: back)
    (batch : task.mergedBatchIndex = first.batchIdx)
    (indexes : task.mergeCollections.map RowGroupBatchEntry.collectionIndex =
      (first :: rest).map fun added => some added.collectionIndex)
    (held : ∀ added ∈ first :: rest,
      system.state.optimisticCollections.get (some added.collectionIndex) = .ok added.rows) :
    ∃ after : OptimisticCollections Row,
      system.state.execute task = .ok { system.state with
        optimisticallyWritten := true
        optimisticCollections := after
        collections := front.map Prod.fst ++
          ⟨first.batchIdx, totalRows, some first.collectionIndex, .flushed⟩ ::
            back.map Prod.fst } ∧
      after.get (some first.collectionIndex) = .ok (blockRows (first :: rest)) ∧
      (∀ index, index ∉ (first :: rest).map AddedCollection.collectionIndex →
        after.get (some index) = system.state.optimisticCollections.get (some index)) ∧
      after.length = system.state.optimisticCollections.length := by
  have member : ((⟨first.batchIdx, totalRows, none, .flushed⟩, first :: rest) : BatchPlace Row) ∈
      placed := split ▸ List.mem_append_right _ (List.mem_cons_self ..)
  have distinct : ((first :: rest).map fun added => some added.collectionIndex).Nodup := by
    have nodup := (placing.block_nodup member).map (fun _ _ => Option.some.inj)
    rwa [List.map_map] at nodup
  obtain ⟨after, flushed, gathered, frame, length⟩ := CollectionMerger.flush_spec first rest
    system.state.optimisticCollections .notFlushed held distinct
  refine ⟨after, ?_, gathered, ?_, length⟩
  · have entries : system.state.collections = front.map Prod.fst ++
        ⟨first.batchIdx, totalRows, none, .flushed⟩ :: back.map Prod.fst := by
      rw [placing.entries, split, List.map_append, List.map_cons]
    have sorted := placing.sorted_entries
    rw [entries, List.pairwise_append, List.pairwise_cons] at sorted
    obtain ⟨_, ⟨later, _⟩, before⟩ := sorted
    have position : lowerBound system.state.collections first.batchIdx =
        (front.map Prod.fst).length := by
      rw [entries]
      refine lowerBound_append (fun entry there => before entry there _ (List.mem_cons_self ..)) ?_
      intro entry there
      rcases List.mem_cons.mp there with rfl | there
      · exact Nat.le_refl _
      · exact Nat.le_of_lt (later entry there)
    have here : system.state.collections[(front.map Prod.fst).length]? =
        some ⟨first.batchIdx, totalRows, none, .flushed⟩ := by
      rw [entries, List.getElem?_append_right (Nat.le_refl _), Nat.sub_self]
      rfl
    rw [BatchInsertGlobalState.execute, BatchInsertGlobalState.mergeCollections,
      CollectionMerger.foldlM_addCollection, indexes]
    dsimp only [bind, Except.bind, pure, Except.pure, CollectionMerger.create]
    rw [List.nil_append, flushed]
    dsimp only
    rw [gathered]
    dsimp only
    rw [placeMerged, batch]
    dsimp only
    rw [position, here]
    dsimp only
    rw [if_pos rfl, entries, set_length_append]
  · intro index absent
    refine frame _ fun inside => absent ?_
    obtain ⟨added, there, same⟩ := List.mem_map.mp inside
    exact Option.some.inj same ▸ List.mem_map_of_mem there

/-- Executing a task gives its entry the collection that the others were merged into. -/
theorem execute (running : task ∈ system.running) :
    ∃ next, system.step (.execute task) = .ok next ∧
      (∃ placed', Placing written next placed') ∧ (∀ group ∈ system.merging, group ∈ next.merging) ∧
      next.inserted = system.inserted := by
  have known : task ∈ system.tasks := List.mem_append_right _ running
  obtain ⟨front, first, rest, totalRows, back, split, batch, indexes, held⟩ :=
    placing.exists_waiting known
  obtain ⟨after, taken, gathered, frame, length⟩ := placing.execute_eq split batch indexes held
  have tasks_perm : system.tasks.Perm (task ::
      (system.state.taskQueue ++ system.running.erase task)) :=
    ((List.perm_cons_erase running).append_left _).trans List.perm_middle
  have merging_perm : (system.merged ++ [task.collectionIndexes] ++
      (system.state.taskQueue ++ system.running.erase task).map
        MergeCollectionTask.collectionIndexes).Perm system.merging := by
    rw [List.append_assoc]
    exact ((tasks_perm.map _).symm).append_left _
  have there : ((⟨first.batchIdx, totalRows, none, .flushed⟩, first :: rest) : BatchPlace Row) ∈
      placed := split ▸ List.mem_append_right _ (List.mem_cons_self ..)
  have cases_place : ∀ place ∈ front ++ (⟨first.batchIdx, totalRows, some first.collectionIndex,
        .flushed⟩, first :: rest) :: back,
      (place ∈ placed ∧ place.1.batchIdx ≠ first.batchIdx) ∨
        place = (⟨first.batchIdx, totalRows, some first.collectionIndex, .flushed⟩,
          first :: rest) := by
    have sorted := placing.sorted_places
    rw [split, List.pairwise_append, List.pairwise_cons] at sorted
    obtain ⟨_, ⟨later, _⟩, before⟩ := sorted
    intro place member
    rw [split]
    rcases List.mem_append.mp member with ahead | behind
    · exact Or.inl ⟨List.mem_append_left _ ahead,
        Nat.ne_of_lt (before place ahead _ (List.mem_cons_self ..))⟩
    · rcases List.mem_cons.mp behind with rfl | behind
      · exact Or.inr rfl
      · exact Or.inl ⟨List.mem_append_right _ (List.mem_cons_of_mem _ behind),
          Nat.ne_of_gt (later place behind)⟩
  have blocks : (front ++ ((⟨first.batchIdx, totalRows, some first.collectionIndex, .flushed⟩,
      first :: rest) : BatchPlace Row) :: back).flatMap Prod.snd = placed.flatMap Prod.snd := by
    rw [split]
    simp
  have stepped : system.step (.execute task) = .ok { system with
      state := { system.state with
        optimisticallyWritten := true
        optimisticCollections := after
        collections := front.map Prod.fst ++
          ⟨first.batchIdx, totalRows, some first.collectionIndex, .flushed⟩ :: back.map Prod.fst }
      running := system.running.erase task
      merged := system.merged ++ [task.collectionIndexes] } := by
    rw [step]
    dsimp only [bind, Except.bind, pure, Except.pure]
    rw [taken]
  refine ⟨_, stepped, ⟨front ++ (⟨first.batchIdx, totalRows, some first.collectionIndex, .flushed⟩,
    first :: rest) :: back, ?_⟩, fun group member => merging_perm.mem_iff.mpr member, rfl⟩
  refine { placing with
    entries := by simp
    blocks := placing.blocks.trans blocks.symm
    stands := ?_, inside := ?_, built := ?_, unwritten := ?_, settled := ?_, pending := ?_,
    merges := ?_, once := merging_perm.flatten.nodup_iff.mpr placing.once
    large := fun _ _ _ _ => rfl }
  · intro place member
    rcases cases_place place member with ⟨old, apart⟩ | rfl
    · refine (placing.stands place old).frame ?_ ?_
      · intro added inside
        refine frame _ fun among => apart ?_
        have one := placing.place_eq old there (List.mem_map_of_mem inside) among
        rw [one]
      · intro other known same
        rcases List.mem_cons.mp (tasks_perm.mem_iff.mp known) with rfl | left
        · exact absurd (same.symm.trans batch) apart
        · exact left
    · exact .flushed first rest totalRows gathered
  · intro index member
    exact Nat.lt_of_lt_of_eq (placing.inside index member) length.symm
  · intro index building
    refine (frame index fun among => ?_).trans (placing.built index building)
    obtain ⟨added, inside, same⟩ := List.mem_map.mp among
    exact placing.ne_of_building building (placing.mem_added there inside) same
  · intro index outside
    exact placing.unwritten index (Nat.le_trans (Nat.le_of_eq length.symm) outside)
  · intro place member several added inside
    rcases cases_place place member with ⟨old, _⟩ | rfl
    · exact placing.settled place old several added inside
    · exact placing.settled _ there several added inside
  · have pending := (tasks_perm.map MergeCollectionTask.mergedBatchIndex).symm.trans placing.pending
    rw [split, List.filter_append, List.filter_cons_of_pos (by rfl), List.map_append,
      List.map_cons, List.map_cons, batch] at pending
    rw [List.filter_append, List.filter_cons_of_neg (by simp), List.map_append]
    exact (pending.trans List.perm_middle).cons_inv
  · intro group member
    obtain ⟨place, owner, flushed, same⟩ := placing.merges group (merging_perm.mem_iff.mp member)
    rw [split] at owner
    rcases List.mem_append.mp owner with ahead | behind
    · exact ⟨place, List.mem_append_left _ ahead, flushed, same⟩
    · rcases List.mem_cons.mp behind with rfl | behind
      · exact ⟨_, List.mem_append_right _ (List.mem_cons_self ..), rfl, same⟩
      · exact ⟨place, List.mem_append_right _ (List.mem_cons_of_mem _ behind), flushed, same⟩

end

/-! ## Finalizing -/

theorem indexes_sublist {places : List (BatchPlace Row)}
    (stands : ∀ place ∈ places, Stands storage tasks place)
    (valid : ∀ place ∈ places, place.1.collectionIndex ≠ none) :
    (places.map fun place => place.1.collectionIndex).Sublist
      (((places.flatMap Prod.snd).map AddedCollection.collectionIndex).map some) := by
  induction places with
  | nil => exact List.Sublist.slnil
  | cons place rest ih =>
      have later := ih (fun other member => stands other (List.mem_cons_of_mem _ member))
        (fun other member => valid other (List.mem_cons_of_mem _ member))
      rw [List.map_cons, List.flatMap_cons, List.map_append, List.map_append,
        ← List.singleton_append]
      refine List.Sublist.append ?_ later
      cases stands place (List.mem_cons_self ..) with
      | single => exact List.Sublist.refl _
      | flushed first others => exact (List.nil_sublist _).cons_cons _
      | waiting => exact absurd rfl (valid _ (List.mem_cons_self ..))

theorem tasks_eq_nil (placing : Placing written system placed)
    (valid : ∀ place ∈ placed, place.1.collectionIndex ≠ none) : system.tasks = [] := by
  have pending := placing.pending
  rw [List.filter_eq_nil_iff.mpr fun place member => by simpa using valid place member] at pending
  exact List.map_eq_nil_iff.mp pending.eq_nil

theorem valid_of_tasks_eq_nil (placing : Placing written system placed)
    (drained : system.tasks = []) : ∀ place ∈ placed, place.1.collectionIndex ≠ none := by
  intro place member waits
  have pending := placing.pending
  rw [drained] at pending
  have none_waits := List.map_eq_nil_iff.mp pending.nil_eq.symm
  have unplaced := List.filter_eq_nil_iff.mp none_waits place member
  rw [waits] at unplaced
  exact unplaced rfl

/-- `Finalize`, when every entry has a collection. -/
theorem finalize_eq (placing : Placing written system placed)
    (valid : ∀ place ∈ placed, place.1.collectionIndex ≠ none) :
    ∃ groups : List (MergeGroup (BatchPlace Row)), ∃ after : OptimisticCollections Row,
      system.state.finalize = .ok
        (groups.map (MergeGroup.merger fun place => place.1.collectionIndex),
          blockRows system.added,
          { system.state with collections := [], optimisticCollections := after }) ∧
      (groups.flatMap MergeGroup.items).Sublist placed ∧
      (∀ group ∈ groups, group.items <:+: placed) ∧
      ∀ group ∈ groups, group.Fits fun place => place.1.type := by
  have distinct : (placed.map fun place => place.1.collectionIndex).Nodup := by
    have nodup := (List.nodup_append.mp placing.distinct).2.1
    rw [placing.blocks] at nodup
    have indexes : (placed.map fun place => place.1.collectionIndex).Sublist
        (((placed.flatMap Prod.snd).map AddedCollection.collectionIndex).map some) :=
      indexes_sublist placing.stands valid
    exact (nodup.map fun _ _ => Option.some.inj).sublist indexes
  obtain ⟨groups, after, taken, sublist, neighbours, fits⟩ := finalize_spec placed
    (fun place => blockRows place.2) placing.entries
    (fun place member => (placing.stands place member).get_of_valid (valid place member)) distinct
    fun place member flushed => placing.large place member flushed (valid place member)
  refine ⟨groups, after, ?_, sublist, neighbours, fits⟩
  rw [taken, blockRows, placing.blocks, List.flatMap_assoc]
  rfl

/-- The groups that are merged at the end, as collections that were handed over. -/
theorem mergedGroups_eq {groups : List (MergeGroup (BatchPlace Row))}
    (stands : ∀ group ∈ groups, ∀ place ∈ group.items, Stands storage tasks place)
    (fits : ∀ group ∈ groups, group.Fits fun place => place.1.type) :
    mergedGroups (groups.map (MergeGroup.merger fun place => place.1.collectionIndex)) =
      (groups.filter fun group => group.type == .notFlushed).map fun group =>
        (group.items.flatMap Prod.snd).map AddedCollection.collectionIndex := by
  induction groups with
  | nil => rfl
  | cons group rest ih =>
      have later := ih (fun other member => stands other (List.mem_cons_of_mem _ member))
        (fun other member => fits other (List.mem_cons_of_mem _ member))
      rw [mergedGroups, List.map_cons, List.filter_cons, List.filter_cons, MergeGroup.merger]
      cases type : group.type with
      | flushed => exact later
      | notFlushed =>
          obtain ⟨same, _⟩ := exists_singles (stands group (List.mem_cons_self ..))
            (fun place inside => ((fits group (List.mem_cons_self ..)).1 place inside).trans type) 0
          rw [List.map_map] at same
          have indexes : (group.items.map fun place => place.1.collectionIndex).filterMap id =
              (group.items.flatMap Prod.snd).map AddedCollection.collectionIndex := by
            have both := congrArg (List.filterMap id) same
            rw [List.filterMap_map (l := List.flatMap _ _)] at both
            exact both.trans (congrFun List.filterMap_eq_map _)
          exact congrArg₂ List.cons indexes later

/-- Finalizing inserts the rows in batch order, if it has no error. -/
theorem finalize (placing : Placing written system placed)
    (taken : system.step .finalize = .ok next) :
    next.Finished written ∧ ∀ group ∈ system.merging, group ∈ next.merging := by
  have valid : ∀ place ∈ placed, place.1.collectionIndex ≠ none := by
    intro place member waits
    have there : place.1 ∈ system.state.collections :=
      placing.entries ▸ List.mem_map_of_mem member
    rw [step] at taken
    dsimp only [bind, Except.bind, pure, Except.pure] at taken
    split at taken
    · cases taken
    · rename_i finalized
      exact finalize_ne_ok there ((placing.stands place member).type_of_waiting waits) waits _
        finalized
  obtain ⟨groups, after, finalized, sublist, neighbours, fits⟩ := placing.finalize_eq valid
  have drained := placing.tasks_eq_nil valid
  rw [step] at taken
  dsimp only [bind, Except.bind, pure, Except.pure] at taken
  rw [finalized] at taken
  have next_eq := (Except.ok.inj taken).symm
  have added_eq : next.added = system.added := by rw [next_eq]
  have unmerged : system.merging = system.merged := by
    rw [merging, drained]
    exact List.append_nil _
  have tasks_eq : next.tasks = [] := (congrArg tasks next_eq).trans drained
  have groups_eq := mergedGroups_eq (fun group member place inside =>
    placing.stands place (sublist.subset (List.mem_flatMap.mpr ⟨group, member, inside⟩))) fits
  have merging_eq : next.merging = system.merging ++
      (groups.filter fun group => group.type == .notFlushed).map fun group =>
        (group.items.flatMap Prod.snd).map AddedCollection.collectionIndex := by
    rw [merging, tasks_eq, List.map_nil, List.append_nil, unmerged, ← groups_eq, next_eq]
  refine ⟨⟨by rw [next_eq], ?_, ?_, ?_, ?_⟩, ?_⟩
  · rw [added_eq]
    exact placing.sorted
  · rw [added_eq]
    exact placing.recorded
  · intro group member
    rw [merging_eq] at member
    rw [added_eq, placing.blocks]
    rcases List.mem_append.mp member with old | new
    · obtain ⟨place, there, _, rfl⟩ := placing.merges group old
      exact (infix_of_mem_flatMap Prod.snd there).map _
    · obtain ⟨final, there, rfl⟩ := List.mem_map.mp new
      exact (infix_flatMap Prod.snd (neighbours final (List.mem_of_mem_filter there))).map _
  · have distinct := (List.nodup_append.mp placing.distinct).2.1
    rw [merging_eq, List.flatten_append, List.nodup_append]
    refine ⟨placing.once, ?_, ?_⟩
    · refine distinct.sublist ?_
      rw [placing.blocks, ← List.flatMap_def, ← List.map_flatMap, ← List.flatMap_assoc]
      exact (((List.filter_sublist.flatMap MergeGroup.items).trans sublist).flatMap Prod.snd).map _
    · intro index old _ new same
      subst same
      obtain ⟨group, member, inside⟩ := List.mem_flatten.mp old
      obtain ⟨place, there, flushed, rfl⟩ := placing.merges group member
      obtain ⟨group, member, inside'⟩ := List.mem_flatten.mp new
      obtain ⟨final, kept, rfl⟩ := List.mem_map.mp member
      obtain ⟨among, type⟩ := List.mem_filter.mp kept
      rw [List.map_flatMap] at inside'
      obtain ⟨other, owner, inside'⟩ := List.mem_flatMap.mp inside'
      have one := placing.place_eq there
        (sublist.subset (List.mem_flatMap.mpr ⟨final, among, owner⟩)) inside inside'
      have small : other.1.type = final.type := (fits final among).1 other owner
      rw [← one, flushed] at small
      rw [← small] at type
      cases type
  · intro group member
    rw [merging_eq]
    exact List.mem_append_left _ member

/-- `AddCollection` has no error. -/
theorem addCollection (placing : Placing written system placed) {index batchIdx minBatchIndex : Nat}
    (building : index ∈ system.building) (bounded : system.bound ≤ batchIdx)
    (reached : minBatchIndex ≤ batchIdx)
    (fresh : ∀ added ∈ system.added, added.batchIdx ≠ batchIdx) (writer : Bool) :
    ∃ next, system.step (.addCollection batchIdx minBatchIndex index writer) = .ok next ∧
      (∃ placed', Placing written next placed') ∧ (∀ group ∈ system.merging, group ∈ next.merging) ∧
      next.inserted = system.inserted := by
  obtain ⟨inserted, queue, added, placed_next⟩ := placing.insert building bounded fresh
  obtain ⟨placed', placing'⟩ := placed_next minBatchIndex
  have taken := added minBatchIndex reached writer
  have stepped : ∀ after, system.state.addCollection batchIdx minBatchIndex (some index) writer =
      .ok after → system.step (.addCollection batchIdx minBatchIndex index writer) =
        .ok { system with
          state := after
          building := system.building.erase index
          added := insertBatch ⟨batchIdx, index, written index⟩ system.added
          bound := max system.bound minBatchIndex } := by
    intro after done
    rw [step]
    dsimp only [bind, Except.bind, pure, Except.pure]
    rw [done]
    dsimp only
    rw [placing.built index building]
  have merging_eq : merging { system with
      state := inserted
      building := system.building.erase index
      added := insertBatch ⟨batchIdx, index, written index⟩ system.added
      bound := max system.bound minBatchIndex } = system.merging := by
    rw [merging, merging, tasks, tasks]
    dsimp only
    rw [queue]
  cases writer with
  | false => exact ⟨_, stepped _ taken, ⟨placed', placing'⟩, fun group member => merging_eq ▸ member,
      rfl⟩
  | true =>
      obtain ⟨after, scheduled, placed_after, kept⟩ := placing'.schedule (Nat.le_max_right _ _)
      exact ⟨_, stepped after (taken.trans scheduled), placed_after,
        fun group member => kept group (merging_eq ▸ member), rfl⟩

/-! ## Contents -/

/-- Every entry stands for the rows of its block. -/
theorem entryRows_eq (placing : Placing written system placed) (member : place ∈ placed) :
    system.entryRows place.1 = blockRows place.2 := by
  by_cases waits : place.1.collectionIndex = none
  · obtain ⟨first, rest, -, -⟩ := (placing.stands place member).exists_first
    rw [entryRows, waits]
    dsimp only
    cases placing.stands place member with
    | single => cases waits
    | flushed => cases waits
    | waiting first rest totalRows task scheduled same indexes held =>
        have found : (system.tasks.find? fun task => task.mergedBatchIndex == first.batchIdx) =
            some task := by
          cases found : system.tasks.find? fun task => task.mergedBatchIndex == first.batchIdx with
          | none =>
              have differs := List.find?_eq_none.mp found task scheduled
              simp [same] at differs
          | some other =>
              have matched := List.find?_some found
              have one := List.inj_on_of_nodup_map placing.tasks_nodup
                (List.mem_of_find?_eq_some found) scheduled
                ((eq_of_beq matched).trans same.symm)
              rw [one]
        dsimp only
        rw [found, Option.toList_some, List.flatMap_singleton, collectionIndexes_eq indexes,
          List.flatMap_map]
        refine List.flatMap_congr fun added inside => ?_
        rw [rowsAt, held added inside]
        rfl
  · have held := (placing.stands place member).get_of_valid waits
    obtain ⟨index, some_index⟩ := Option.ne_none_iff_exists'.mp waits
    rw [some_index] at held
    rw [entryRows, some_index]
    dsimp only
    rw [rowsAt, held]
    rfl

theorem contents_eq (placing : Placing written system placed) :
    system.contents = blockRows system.added := by
  rw [contents, placing.entries, List.flatMap_map, blockRows, placing.blocks, List.flatMap_assoc]
  exact List.flatMap_congr fun place member => placing.entryRows_eq member

end Placing

/-! ## Runs -/

variable {written : Nat → List Row} {system next : BatchInsertSystem Row}

/-- What holds of a batch insert after some operations. -/
def Sound (written : Nat → List Row) (system : BatchInsertSystem Row) : Prop :=
  (system.inserted = none ∧ ∃ placed, Placing written system placed) ∨ system.Finished written

theorem sound_start (rowGroupSize : RowGroupSize) :
    Sound (fun _ => []) (start rowGroupSize : BatchInsertSystem Row) := by
  refine Or.inl ⟨rfl, [], rfl, rfl, ?_, List.Pairwise.nil, List.nodup_nil, ?_, ?_, ?_, ?_, ?_,
    List.Perm.nil, ?_, List.nodup_nil, ?_⟩
  all_goals simp [start, create, merging, tasks]

/-- The rows that the operations appended to a collection. -/
def appended (operations : List (BatchInsertOperation Row)) (collectionIndex : Nat) : List Row :=
  operations.flatMap (BatchInsertOperation.appendedTo collectionIndex)

/-- A step keeps the places, except that finalizing ends them. -/
theorem Placing.step_spec (placing : Placing written system placed)
    (unfinished : system.inserted = none) (permitted : system.Permitted operation)
    (taken : system.step operation = .ok next) :
    next.Sound (fun index => written index ++ operation.appendedTo index) ∧
      ∀ group ∈ system.merging, group ∈ next.merging := by
  have unwritten : ∀ operation : BatchInsertOperation Row, (∀ index, operation.appendedTo index = []) →
      (fun index => written index ++ operation.appendedTo index) = written :=
    fun operation none_appended => funext fun index => by rw [none_appended, List.append_nil]
  cases operation with
  | createCollection =>
      have placing' := placing.createCollection taken
      rw [unwritten _ fun _ => rfl]
      cases taken
      exact ⟨Or.inl ⟨unfinished, placed, placing'⟩, fun _ member => member⟩
  | append index rows =>
      obtain ⟨_, building⟩ := permitted
      have placing' := placing.append building taken
      rw [step] at taken
      dsimp only [bind, Except.bind, pure, Except.pure] at taken
      rw [placing.built index building] at taken
      cases taken
      exact ⟨Or.inl ⟨unfinished, placed, placing'⟩, fun _ member => member⟩
  | addCollection batchIdx minBatchIndex index writer =>
      obtain ⟨_, building, bounded, reached, fresh⟩ := permitted
      obtain ⟨after, added, ⟨placed', placing'⟩, kept, same⟩ :=
        placing.addCollection building bounded reached fresh writer
      obtain rfl := Except.ok.inj (added.symm.trans taken)
      rw [unwritten _ fun _ => rfl]
      exact ⟨Or.inl ⟨same.trans unfinished, placed', placing'⟩, kept⟩
  | getTask =>
      obtain ⟨placing', kept, same⟩ := placing.getTask taken
      rw [unwritten _ fun _ => rfl]
      exact ⟨Or.inl ⟨same.trans unfinished, placed, placing'⟩, kept⟩
  | execute task =>
      obtain ⟨after, executed, ⟨placed', placing'⟩, kept, same⟩ := placing.execute permitted.2
      obtain rfl := Except.ok.inj (executed.symm.trans taken)
      rw [unwritten _ fun _ => rfl]
      exact ⟨Or.inl ⟨same.trans unfinished, placed', placing'⟩, kept⟩
  | finalize =>
      obtain ⟨finished, kept⟩ := placing.finalize taken
      rw [unwritten _ fun _ => rfl]
      exact ⟨Or.inr finished, kept⟩

/-- A step that is permitted has no error, except that tasks may be left when it finalizes. -/
theorem Placing.exists_step (placing : Placing written system placed)
    (permitted : system.Permitted operation) (drained : operation = .finalize → system.tasks = []) :
    ∃ next, system.step operation = .ok next := by
  cases operation with
  | createCollection => exact ⟨_, rfl⟩
  | append index rows =>
      rw [step]
      dsimp only [bind, Except.bind, pure, Except.pure]
      rw [placing.built index permitted.2]
      exact ⟨_, rfl⟩
  | addCollection batchIdx minBatchIndex index writer =>
      obtain ⟨_, building, bounded, reached, fresh⟩ := permitted
      obtain ⟨next, taken, _⟩ := placing.addCollection building bounded reached fresh writer
      exact ⟨next, taken⟩
  | getTask => exact ⟨_, rfl⟩
  | execute task =>
      obtain ⟨next, taken, _⟩ := placing.execute permitted.2
      exact ⟨next, taken⟩
  | finalize =>
      obtain ⟨groups, after, taken, _⟩ :=
        placing.finalize_eq (placing.valid_of_tasks_eq_nil (drained rfl))
      rw [step]
      dsimp only [bind, Except.bind, pure, Except.pure]
      rw [taken]
      exact ⟨_, rfl⟩

theorem appended_append (operations : List (BatchInsertOperation Row))
    (operation : BatchInsertOperation Row) :
    appended (operations ++ [operation]) =
      fun index => appended operations index ++ operation.appendedTo index := by
  funext index
  rw [appended, List.flatMap_append, List.flatMap_singleton]
  rfl

/-- The batch and the index of a collection that was handed over. -/
def batchOf (added : AddedCollection Row) : Nat × Nat := (added.batchIdx, added.collectionIndex)

theorem insertBatch_perm (new : AddedCollection Row) (added : List (AddedCollection Row)) :
    (insertBatch new added).Perm (new :: added) := by
  induction added with
  | nil => exact List.Perm.refl _
  | cons first rest ih =>
      rw [insertBatch]
      split
      · exact (ih.cons first).trans (List.Perm.swap ..)
      · exact List.Perm.refl _

/-- The collections that are remembered are those that the operations handed over. -/
theorem step_added (taken : system.step operation = .ok next) :
    (next.added.map batchOf).Perm (system.added.map batchOf ++ operation.adds?.toList) := by
  cases operation with
  | addCollection batchIdx minBatchIndex index writer =>
      rw [step] at taken
      dsimp only [bind, Except.bind, pure, Except.pure] at taken
      split at taken
      · cases taken
      · split at taken
        · cases taken
        · cases taken
          exact ((insertBatch_perm _ _).map batchOf).trans (List.perm_append_singleton _ _).symm
  | createCollection =>
      cases taken
      exact List.Perm.of_eq (List.append_nil _).symm
  | getTask =>
      cases taken
      exact List.Perm.of_eq (List.append_nil _).symm
  | append index rows =>
      rw [step] at taken
      dsimp only [bind, Except.bind, pure, Except.pure] at taken
      split at taken
      · cases taken
      · cases taken
        exact List.Perm.of_eq (List.append_nil _).symm
  | execute task =>
      rw [step] at taken
      dsimp only [bind, Except.bind, pure, Except.pure] at taken
      split at taken
      · cases taken
      · cases taken
        exact List.Perm.of_eq (List.append_nil _).symm
  | finalize =>
      rw [step] at taken
      dsimp only [bind, Except.bind, pure, Except.pure] at taken
      split at taken
      · cases taken
      · cases taken
        exact List.Perm.of_eq (List.append_nil _).symm

/-- A finished batch insert takes no more steps. -/
theorem Finished.not_permitted (finished : system.Finished written)
    (operation : BatchInsertOperation Row) : ¬system.Permitted operation := by
  intro permitted
  have unfinished : system.inserted = none := by
    cases operation with
    | createCollection => exact permitted
    | append => exact permitted.1
    | addCollection => exact permitted.1
    | getTask => exact permitted
    | execute => exact permitted.1
    | finalize => exact permitted
  rw [finished.inserted] at unfinished
  cases unfinished

theorem step_spec (sound : system.Sound written) (permitted : system.Permitted operation)
    (taken : system.step operation = .ok next) :
    next.Sound (fun index => written index ++ operation.appendedTo index) ∧
      ∀ group ∈ system.merging, group ∈ next.merging := by
  rcases sound with ⟨unfinished, placed, placing⟩ | finished
  · exact placing.step_spec unfinished permitted taken
  · exact absurd permitted (finished.not_permitted operation)

variable {rowGroupSize : RowGroupSize} {operations later : List (BatchInsertOperation Row)}
  {final : BatchInsertSystem Row}

/-- Every run keeps what holds, and no group of collections is forgotten. -/
theorem sound_of_run
    (reached : Reaches step Permitted (start rowGroupSize) operations system) :
    system.Sound (appended operations) ∧
      (system.added.map batchOf).Perm (operations.filterMap BatchInsertOperation.adds?) := by
  refine reached.invariant (fun operations system => system.Sound (appended operations) ∧
    (system.added.map batchOf).Perm (operations.filterMap BatchInsertOperation.adds?))
    ⟨sound_start rowGroupSize, List.Perm.nil⟩ ?_
  rintro operations state operation next ⟨sound, added⟩ permitted taken
  constructor
  · rw [appended_append]
    exact (step_spec sound permitted taken).1
  · rw [List.filterMap_append]
    refine (step_added taken).trans ((added.append_right _).trans ?_)
    cases operation <;> exact List.Perm.refl _

theorem Sound.neighbours (sound : system.Sound written) :
    ∀ group ∈ system.merging, group <:+: system.added.map AddedCollection.collectionIndex := by
  rcases sound with ⟨_, placed, placing⟩ | finished
  · intro group member
    obtain ⟨place, there, _, rfl⟩ := placing.merges group member
    rw [placing.blocks]
    exact (infix_of_mem_flatMap Prod.snd there).map _
  · exact finished.neighbours

/--
What a batch insert promises after some operations, and of a state that it goes on to: the tasks
merge neighbours between which no batch comes later, and each collection once; no permitted
operation has an error, provided that the tasks are done when it finalizes; the collections that
were handed over are there with their rows, and each row is inserted once, in batch order.
-/
structure InsertsInOrder (operations : List (BatchInsertOperation Row))
    (system final : BatchInsertSystem Row) : Prop where
  neighbours : ∀ group ∈ system.merging,
    group <:+: final.added.map AddedCollection.collectionIndex
  once : system.merging.flatten.Nodup
  unfailing : ∀ operation, system.Permitted operation →
    (operation = .finalize → system.tasks = []) → ∃ next, system.step operation = .ok next
  sorted : system.added.Pairwise fun first second => first.batchIdx < second.batchIdx
  added : (system.added.map batchOf).Perm (operations.filterMap BatchInsertOperation.adds?)
  appended : ∀ added ∈ system.added, added.rows = appended operations added.collectionIndex
  contents : system.inserted = none → system.contents = blockRows system.added
  inserted : ∀ rows, system.inserted = some rows → rows = blockRows system.added

/-- Every run of a batch insert, however its threads interleave, inserts in batch order. -/
theorem insertsInOrder_of_run
    (reached : Reaches step Permitted (start rowGroupSize) operations system)
    (continued : Reaches step Permitted system later final) :
    InsertsInOrder operations system final := by
  obtain ⟨sound, added⟩ := sound_of_run reached
  have kept : final.Sound (fun index => appended operations index ++ appended later index) ∧
      ∀ group ∈ system.merging, group ∈ final.merging := by
    refine continued.invariant (fun later state =>
      state.Sound (fun index => appended operations index ++ appended later index) ∧
        ∀ group ∈ system.merging, group ∈ state.merging) ?_ ?_
    · refine ⟨?_, fun _ member => member⟩
      have unchanged : (fun index => appended operations index ++ appended [] index) =
          appended operations := funext fun index => List.append_nil _
      rw [unchanged]
      exact sound
    · rintro later state operation next ⟨sound, merging⟩ permitted taken
      obtain ⟨sound_next, merging_next⟩ := step_spec sound permitted taken
      refine ⟨?_, fun group member => merging_next group (merging group member)⟩
      rw [appended_append]
      simpa only [List.append_assoc] using sound_next
  have neighbours := fun group member => kept.1.neighbours group (kept.2 group member)
  rcases sound with ⟨unfinished, placed, placing⟩ | finished
  · refine ⟨neighbours, placing.once, fun operation permitted drained => placing.exists_step permitted drained,
      placing.sorted, added, placing.recorded, fun _ => placing.contents_eq, ?_⟩
    intro rows inserted
    rw [unfinished] at inserted
    cases inserted
  · refine ⟨neighbours, finished.once, ?_, finished.sorted, added, finished.recorded, ?_, ?_⟩
    · intro operation permitted _
      exact absurd permitted (finished.not_permitted operation)
    · intro unfinished
      rw [finished.inserted] at unfinished
      cases unfinished
    · intro rows inserted
      exact Option.some.inj (inserted.symm.trans finished.inserted)

/--
Two collections of 950 rows are merged by a task, although the later one is handed over first, and
a third one follows them.
-/
theorem insertsInOrder_of_run_merge :
    ∃ system : BatchInsertSystem Nat, (∃ operations, InsertsInOrder operations system system) ∧
      system.merging = [[0, 1], [2]] ∧
      system.inserted = some (List.replicate 950 0 ++ List.replicate 950 1 ++ [2]) := by
  obtain ⟨system, reached, passed⟩ := Reaches.exists_of_guarded_foldlM step Permitted
    (start ⟨2048, by decide, by decide⟩ : BatchInsertSystem Nat)
    [.createCollection, .createCollection, .createCollection, .append 1 (List.replicate 950 1),
      .append 0 (List.replicate 950 0), .append 2 [2], .addCollection 1 0 1 true,
      .addCollection 0 0 0 true, .addCollection 2 1 2 true, .getTask,
      .execute ⟨[⟨0, 950, some 0, .flushed⟩, ⟨0, 950, some 1, .flushed⟩], 0⟩, .finalize]
    (fun system => decide (system.merging = [[0, 1], [2]] ∧
      system.inserted = some (List.replicate 950 0 ++ List.replicate 950 1 ++ [2])))
    (by decide +kernel)
  obtain ⟨merged, inserted⟩ := of_decide_eq_true passed
  exact ⟨system, ⟨_, insertsInOrder_of_run reached .start⟩, merged, inserted⟩

end BatchInsertSystem

end StatsRecommender
