import StatsRecommender.Execution.BatchInsert

/-!
# Scheduling merges

`ScheduleMergeTasks` cuts the collections into pieces: entries that it keeps, and neighbours that it
merges.  What becomes of the collections and of the task queue is said of the pieces.
-/

namespace StatsRecommender

namespace BatchInsertGlobalState

variable {Row Item : Type} {storage : OptimisticCollections Row}

/-- A part of the collections: an entry that is kept, or neighbours that are merged. -/
inductive Piece (Item : Type)
  | keep (item : Item)
  | merge (first : Item) (rest : List Item)

namespace Piece

def items : Piece Item → List Item
  | .keep item => [item]
  | .merge first rest => first :: rest

variable (entryOf : Item → RowGroupBatchEntry)

def totalRows (items : List Item) : Nat := (items.map fun item => (entryOf item).totalRows).sum

/-- The entry of a collection whose rows wait to be merged. -/
def waiting (total : Nat) (item : Item) : RowGroupBatchEntry :=
  ⟨(entryOf item).batchIdx, total, none, .flushed⟩

/-- What a merge task keeps of an entry. -/
def taken (batchIdx : Nat) (item : Item) : RowGroupBatchEntry :=
  ⟨batchIdx, (entryOf item).totalRows, (entryOf item).collectionIndex, .flushed⟩

/-- The entries of a piece, once its task was added. -/
def marked : Piece Item → List RowGroupBatchEntry
  | .keep item => [entryOf item]
  | .merge first rest => (first :: rest).map (waiting entryOf (totalRows entryOf (first :: rest)))

/-- The entry that stays of a piece. -/
def kept : Piece Item → RowGroupBatchEntry
  | .keep item => entryOf item
  | .merge first rest => waiting entryOf (totalRows entryOf (first :: rest)) first

/-- The task that is queued for a piece. -/
def queued : Piece Item → List MergeCollectionTask
  | .keep _ => []
  | .merge first rest =>
      [⟨(first :: rest).map (taken entryOf (entryOf first).batchIdx), (entryOf first).batchIdx⟩]

/-- The tasks that are scheduled for pieces, the first of which starts at an index. -/
def scheduled : Nat → List (Piece Item) → List BatchMergeTask
  | _, [] => []
  | offset, .keep _ :: pieces => scheduled (offset + 1) pieces
  | offset, .merge first rest :: pieces =>
      ⟨offset, offset + (first :: rest).length, totalRows entryOf (first :: rest)⟩ ::
        scheduled (offset + (first :: rest).length) pieces

variable {entryOf}

theorem items_keeps (items : List Item) :
    (items.map Piece.keep).flatMap Piece.items = items := by
  induction items with
  | nil => rfl
  | cons item rest ih => exact congrArg (item :: ·) ih

theorem not_mem_keeps (items : List Item) (first : Item) (rest : List Item) :
    Piece.merge first rest ∉ items.map Piece.keep := by
  intro member
  obtain ⟨item, _, same⟩ := List.mem_map.mp member
  cases same

variable (entryOf) in
theorem scheduled_keeps (items : List Item) (offset : Nat) (pieces : List (Piece Item)) :
    scheduled entryOf offset (items.map Piece.keep ++ pieces) =
      scheduled entryOf (offset + items.length) pieces := by
  induction items generalizing offset with
  | nil => rfl
  | cons item rest ih =>
      refine (ih (offset + 1)).trans ?_
      rw [List.length_cons, Nat.add_assoc, Nat.add_comm 1]

/-- Whether an entry may be merged. -/
def Mergeable (minBatchIndex : Nat) (entry : RowGroupBatchEntry) : Prop :=
  entry.type = .notFlushed ∧ entry.batchIdx ≤ minBatchIndex

end Piece

open Piece

/-! ## Selecting -/

variable {entryOf : Item → RowGroupBatchEntry}

theorem readyToMerge_zero (rowGroupSize : RowGroupSize) : readyToMerge rowGroupSize 0 = false := by
  obtain ⟨rows, positive, aligned⟩ := rowGroupSize
  have large := Nat.le_of_dvd positive aligned
  unfold standardVectorSize at large
  simp only [readyToMerge, Bool.or_eq_false_iff, decide_eq_false_iff_not]
  omega

theorem pos_of_readyToMerge {rowGroupSize : RowGroupSize} {count : Nat}
    (ready : readyToMerge rowGroupSize count = true) : 0 < count := by
  rcases Nat.eq_zero_or_pos count with rfl | positive
  · rw [readyToMerge_zero] at ready
    cases ready
  · exact positive

theorem exists_cons_of_totalRows_pos {pending : List Item}
    (positive : 0 < totalRows entryOf pending) : ∃ first rest, pending = first :: rest := by
  cases pending with
  | nil => cases positive
  | cons first rest => exact ⟨first, rest, rfl⟩

theorem totalRows_concat (pending : List Item) (item : Item) :
    totalRows entryOf (pending ++ [item]) =
      totalRows entryOf pending + (entryOf item).totalRows := by
  simp [totalRows]

variable (entryOf) in
/-- The loop schedules the merges of pieces whose entries may be merged. -/
theorem selectTasks_spec (rowGroupSize : RowGroupSize) (minBatchIndex : Nat) (items : List Item)
    (pending : List Item) (currentIdx nextStart : Nat) (task : BatchMergeTask)
    (position : currentIdx = task.startIndex + pending.length)
    (total : task.totalCount = totalRows entryOf pending)
    (mergeable : ∀ item ∈ pending, Mergeable minBatchIndex (entryOf item)) :
    ∃ pieces : List (Piece Item),
      pieces.flatMap Piece.items = pending ++ items ∧
      (selectTasks rowGroupSize minBatchIndex (items.map entryOf) currentIdx task nextStart).1 =
        scheduled entryOf task.startIndex pieces ∧
      ∀ first rest, Piece.merge first rest ∈ pieces →
        ∀ item ∈ first :: rest, Mergeable minBatchIndex (entryOf item) := by
  induction items generalizing pending currentIdx nextStart task with
  | nil =>
      refine ⟨pending.map Piece.keep, ?_, ?_, ?_⟩
      · rw [items_keeps, List.append_nil]
      · have none_left := scheduled_keeps entryOf pending task.startIndex []
        rw [List.append_nil] at none_left
        rw [none_left]
        rfl
      · intro first rest member
        exact absurd member (not_mem_keeps _ first rest)
  | cons item items ih =>
      rw [List.map_cons, selectTasks]
      split
      · -- the entry comes after the least batch index that is still being built
        split
        · rename_i ready
          rw [total] at ready
          obtain ⟨first, rest, rfl⟩ := exists_cons_of_totalRows_pos (pos_of_readyToMerge ready)
          refine ⟨.merge first rest :: (item :: items).map Piece.keep, ?_, ?_, ?_⟩
          · rw [List.flatMap_cons, items_keeps]
            rfl
          · have none_left := scheduled_keeps entryOf (item :: items)
              (task.startIndex + (first :: rest).length) []
            rw [List.append_nil] at none_left
            rw [scheduled, none_left, position, total]
            rfl
          · intro first' rest' member
            rcases List.mem_cons.mp member with same | later
            · cases same
              exact mergeable
            · exact absurd later (not_mem_keeps _ first' rest')
        · refine ⟨(pending ++ item :: items).map Piece.keep, items_keeps _, ?_, ?_⟩
          · have none_left := scheduled_keeps entryOf (pending ++ item :: items)
              task.startIndex []
            rw [List.append_nil] at none_left
            rw [none_left]
            rfl
          · intro first rest member
            exact absurd member (not_mem_keeps _ first rest)
      · rename_i reached
        split
        · obtain ⟨pieces, cover, tasks, may⟩ := ih [] (currentIdx + 1)
            (max nextStart (currentIdx + 1)) ⟨currentIdx + 1, currentIdx, 0⟩ rfl rfl
            (fun item member => by cases member)
          rw [List.nil_append] at cover
          split
          · rename_i positive
            rw [total] at positive
            obtain ⟨first, rest, rfl⟩ := exists_cons_of_totalRows_pos positive
            refine ⟨.merge first rest :: .keep item :: pieces, ?_, ?_, ?_⟩
            · rw [List.flatMap_cons, List.flatMap_cons, cover]
              rfl
            · dsimp only
              rw [tasks, scheduled, scheduled, total, position]
            · intro first' rest' member
              rcases List.mem_cons.mp member with same | later
              · cases same
                exact mergeable
              · rcases List.mem_cons.mp later with same | later
                · cases same
                · exact may _ _ later
          · refine ⟨pending.map Piece.keep ++ .keep item :: pieces, ?_, ?_, ?_⟩
            · rw [List.flatMap_append, items_keeps, List.flatMap_cons, cover]
              rfl
            · rw [tasks, scheduled_keeps, scheduled, position]
            · intro first rest member
              rcases List.mem_append.mp member with kept | later
              · exact absurd kept (not_mem_keeps _ first rest)
              · rcases List.mem_cons.mp later with same | later
                · cases same
                · exact may _ _ later
        · rename_i unflushed
          have mergeable' : ∀ other ∈ pending ++ [item],
              Mergeable minBatchIndex (entryOf other) := by
            intro other member
            rcases List.mem_append.mp member with before | last
            · exact mergeable other before
            · rw [List.mem_singleton.mp last]
              refine ⟨?_, Nat.le_of_not_lt reached⟩
              cases type : (entryOf item).type with
              | flushed => exact absurd type unflushed
              | notFlushed => rfl
          split
          · obtain ⟨pieces, cover, tasks, may⟩ := ih [] (currentIdx + 1) nextStart
              ⟨currentIdx + 1, currentIdx + 1, 0⟩ rfl rfl (fun item member => by cases member)
            rw [List.nil_append] at cover
            obtain ⟨first, rest, concat⟩ : ∃ first rest, pending ++ [item] = first :: rest :=
              List.exists_cons_of_ne_nil (by simp)
            refine ⟨.merge first rest :: pieces, ?_, ?_, ?_⟩
            · rw [List.flatMap_cons, cover, Piece.items, ← concat, List.append_assoc]
              rfl
            · have length : currentIdx + 1 = task.startIndex + (first :: rest).length := by
                rw [← concat, List.length_append, position, Nat.add_assoc]
                rfl
              dsimp only
              rw [tasks, scheduled, ← length, ← concat, totalRows_concat, total]
            · intro first' rest' member
              rcases List.mem_cons.mp member with same | later
              · cases same
                rw [← concat]
                exact mergeable'
              · exact may _ _ later
          · obtain ⟨pieces, cover, tasks, may⟩ := ih (pending ++ [item]) (currentIdx + 1) nextStart
              { task with totalCount := task.totalCount + (entryOf item).totalRows }
              (by rw [List.length_append, position, Nat.add_assoc]; rfl)
              (by rw [totalRows_concat, total]) mergeable'
            refine ⟨pieces, ?_, tasks, may⟩
            rw [cover, List.append_assoc]
            rfl

/-! ## Adding the tasks -/

/-- An entry whose collection is there to be merged. -/
def Held (storage : OptimisticCollections Row) (entry : RowGroupBatchEntry) : Prop :=
  entry.type = .notFlushed ∧ ∃ index rows, entry.collectionIndex = some index ∧
    storage[index]? = some (some rows) ∧ entry.totalRows = rows.length

theorem addedEntry_eq {item : Item} (held : Held storage (entryOf item)) (batchIdx : Nat) :
    addedEntry storage batchIdx (entryOf item) = .ok (taken entryOf batchIdx item) := by
  obtain ⟨type, index, rows, valid, stored, total⟩ := held
  have free : ¬((entryOf item).collectionIndex = none ∨ (entryOf item).type = .flushed) := by
    simp [valid, type]
  rw [addedEntry, if_neg free, taken, total, valid, OptimisticCollections.get, stored]
  rfl

theorem mapM_addedEntry {items : List Item} (held : ∀ item ∈ items, Held storage (entryOf item))
    (batchIdx : Nat) :
    (items.map entryOf).mapM (addedEntry storage batchIdx) =
      .ok (items.map (taken entryOf batchIdx)) := by
  induction items with
  | nil => rfl
  | cons item rest ih =>
      rw [List.map_cons, List.mapM_cons, addedEntry_eq (held item (List.mem_cons_self ..)),
        ih fun other member => held other (List.mem_cons_of_mem _ member)]
      rfl

/-- What one task does, at the place where its entries are. -/
theorem addTask_eq {first : Item} {rest : List Item}
    (held : ∀ item ∈ first :: rest, Held storage (entryOf item))
    (before after : List RowGroupBatchEntry) (queue : List MergeCollectionTask) :
    addTask storage (before ++ ((first :: rest).map entryOf ++ after), queue)
        ⟨before.length, before.length + (first :: rest).length, totalRows entryOf (first :: rest)⟩ =
      .ok (before ++ (marked entryOf (.merge first rest) ++ after),
        queue ++ queued entryOf (.merge first rest)) := by
  have there : (before ++ ((first :: rest).map entryOf ++ after))[before.length]? =
      some (entryOf first) := by
    rw [List.getElem?_append_right (Nat.le_refl _), Nat.sub_self]
    rfl
  have entries : ((before ++ ((first :: rest).map entryOf ++ after)).drop before.length).take
      (before.length + (first :: rest).length - before.length) = (first :: rest).map entryOf := by
    rw [List.drop_left, Nat.add_sub_cancel_left, List.take_left' (List.length_map _)]
  have front : (before ++ ((first :: rest).map entryOf ++ after)).take before.length = before :=
    List.take_left' rfl
  have back : (before ++ ((first :: rest).map entryOf ++ after)).drop
      (before.length + (first :: rest).length) = after := by
    rw [← List.append_assoc]
    exact List.drop_left' (by rw [List.length_append, List.length_map])
  rw [addTask, there]
  dsimp only
  rw [entries, mapM_addedEntry held, front, back, List.map_map, List.append_assoc]
  rfl

theorem foldlM_addTask (pieces : List (Piece Item))
    (held : ∀ first rest, Piece.merge first rest ∈ pieces →
      ∀ item ∈ first :: rest, Held storage (entryOf item)) (before : List RowGroupBatchEntry)
    (queue : List MergeCollectionTask) :
    (scheduled entryOf before.length pieces).foldlM (addTask storage)
        (before ++ (pieces.flatMap Piece.items).map entryOf, queue) =
      .ok (before ++ pieces.flatMap (marked entryOf), queue ++ pieces.flatMap (queued entryOf)) := by
  induction pieces generalizing before queue with
  | nil =>
      simp only [List.flatMap_nil, List.map_nil, List.append_nil]
      rfl
  | cons piece pieces ih =>
      have held' := fun first rest member =>
        held first rest (List.mem_cons_of_mem piece member)
      cases piece with
      | keep item =>
          have later := ih held' (before ++ [entryOf item]) queue
          rw [List.length_append, List.append_assoc, List.append_assoc] at later
          exact later
      | merge first rest =>
          have later := ih held' (before ++ marked entryOf (.merge first rest))
            (queue ++ queued entryOf (.merge first rest))
          have length : (marked entryOf (Piece.merge first rest)).length = (first :: rest).length :=
            List.length_map _
          rw [List.length_append, length, List.append_assoc, List.append_assoc,
            List.append_assoc] at later
          rw [scheduled, List.foldlM_cons, List.flatMap_cons, List.map_append, Piece.items,
            addTask_eq (held first rest (List.mem_cons_self ..))]
          exact later

variable (entryOf) in
/-- Erasing leaves one entry of each piece. -/
theorem foldr_eraseTask (pieces : List (Piece Item)) (before : List RowGroupBatchEntry) :
    (scheduled entryOf before.length pieces).foldr eraseTask
        (before ++ pieces.flatMap (marked entryOf)) =
      before ++ pieces.map (kept entryOf) := by
  induction pieces generalizing before with
  | nil => rfl
  | cons piece pieces ih =>
      cases piece with
      | keep item =>
          have later := ih (before ++ [entryOf item])
          rw [List.length_append, List.append_assoc, List.append_assoc] at later
          exact later
      | merge first rest =>
          have later := ih (before ++ marked entryOf (.merge first rest))
          have length : (marked entryOf (Piece.merge first rest)).length = (first :: rest).length :=
            List.length_map _
          rw [List.length_append, length, List.append_assoc, List.append_assoc] at later
          rw [scheduled, List.foldr_cons, List.flatMap_cons, later, eraseTask]
          dsimp only
          have split_marked : before ++ (marked entryOf (.merge first rest) ++
              pieces.map (kept entryOf)) =
              (before ++ [kept entryOf (.merge first rest)]) ++
                (rest.map (waiting entryOf (totalRows entryOf (first :: rest))) ++
                  pieces.map (kept entryOf)) := by
            rw [List.append_assoc]
            rfl
          cases rest with
          | nil =>
              exact if_neg (Nat.lt_irrefl _)
          | cons second others =>
              rw [if_pos (Nat.add_lt_add_left (by simp) _), split_marked,
                List.take_left' (by simp), ← List.append_assoc,
                List.drop_left' (by simp [Nat.add_assoc]), List.append_assoc]
              rfl

/-- `ScheduleMergeTasks`, on pieces of the collections. -/
theorem scheduleMergeTasks_spec (state : BatchInsertGlobalState Row) (minBatchIndex : Nat)
    (items : List Item) (entries : state.collections = items.map entryOf)
    (held : ∀ item ∈ items, (entryOf item).type = .notFlushed →
      Held state.optimisticCollections (entryOf item)) :
    ∃ pieces : List (Piece Item), ∃ nextStart,
      pieces.flatMap Piece.items = items ∧
      (∀ first rest, Piece.merge first rest ∈ pieces →
        ∀ item ∈ first :: rest, Mergeable minBatchIndex (entryOf item)) ∧
      state.scheduleMergeTasks minBatchIndex = .ok { state with
        collections := pieces.map (kept entryOf)
        nextStart
        taskQueue := state.taskQueue ++ pieces.flatMap (queued entryOf) } := by
  obtain ⟨pieces, cover, tasks, may⟩ : ∃ pieces : List (Piece Item),
      pieces.flatMap Piece.items = items ∧
      (selectTasks state.rowGroupSize minBatchIndex (state.collections.drop state.nextStart)
        state.nextStart ⟨state.nextStart, 0, 0⟩ state.nextStart).1 = scheduled entryOf 0 pieces ∧
      ∀ first rest, Piece.merge first rest ∈ pieces →
        ∀ item ∈ first :: rest, Mergeable minBatchIndex (entryOf item) := by
    rcases Nat.lt_or_ge items.length state.nextStart with past | inside
    · refine ⟨items.map Piece.keep, items_keeps items, ?_, ?_⟩
      · have none_left := scheduled_keeps entryOf items 0 []
        rw [List.append_nil] at none_left
        rw [none_left, entries, List.drop_eq_nil_of_le (by rw [List.length_map]; omega)]
        rfl
      · intro first rest member
        exact absurd member (not_mem_keeps _ first rest)
    · obtain ⟨pieces, cover, tasks, may⟩ := selectTasks_spec entryOf
        state.rowGroupSize minBatchIndex (items.drop state.nextStart) [] state.nextStart
        state.nextStart ⟨state.nextStart, 0, 0⟩ rfl rfl (fun item member => by cases member)
      refine ⟨(items.take state.nextStart).map Piece.keep ++ pieces, ?_, ?_, ?_⟩
      · rw [List.flatMap_append, items_keeps, cover, List.nil_append, List.take_append_drop]
      · rw [scheduled_keeps, List.length_take, Nat.min_eq_left inside, Nat.zero_add, entries,
          ← List.map_drop, tasks]
      · intro first rest member
        rcases List.mem_append.mp member with kept | later
        · exact absurd kept (not_mem_keeps _ first rest)
        · exact may _ _ later
  have there : ∀ first rest, Piece.merge first rest ∈ pieces →
      ∀ item ∈ first :: rest, Held state.optimisticCollections (entryOf item) := by
    intro first rest member item inside
    refine held item ?_ (may first rest member item inside).1
    rw [← cover]
    exact List.mem_flatMap.mpr ⟨_, member, inside⟩
  have added := foldlM_addTask pieces there [] state.taskQueue
  have erased := foldr_eraseTask entryOf pieces []
  rw [cover, ← entries] at added
  simp only [List.nil_append, List.length_nil] at added erased
  refine ⟨pieces, (selectTasks state.rowGroupSize minBatchIndex
    (state.collections.drop state.nextStart) state.nextStart ⟨state.nextStart, 0, 0⟩
    state.nextStart).2, cover, may, ?_⟩
  rw [scheduleMergeTasks]
  dsimp only [bind, Except.bind, pure, Except.pure]
  rw [tasks, added]
  dsimp only
  rw [erased]

end BatchInsertGlobalState

end StatsRecommender
