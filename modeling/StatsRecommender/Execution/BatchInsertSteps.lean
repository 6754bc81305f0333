import StatsRecommender.Execution.BatchInsertInvariant

/-!
# The steps of a batch insert

Handing over a collection, scheduling, executing a task and finalizing, as changes of the places.
-/

namespace StatsRecommender

open BatchInsertGlobalState OptimisticCollections

variable {Row : Type} {batchIdx minBatchIndex : Nat} {storage : OptimisticCollections Row}
  {tasks : List MergeCollectionTask} {pieces : List (Piece (BatchPlace Row))}

/-! ## Places in order -/

theorem insertBatch_append {front back : List (AddedCollection Row)} {new : AddedCollection Row}
    (before : ∀ added ∈ front, added.batchIdx < new.batchIdx)
    (after : ∀ added ∈ back, new.batchIdx < added.batchIdx) :
    insertBatch new (front ++ back) = front ++ new :: back := by
  induction front with
  | nil =>
      cases back with
      | nil => rfl
      | cons first rest =>
          exact if_neg (Nat.lt_asymm (after first (List.mem_cons_self ..)))
  | cons first rest ih =>
      rw [List.cons_append, insertBatch, if_pos (before first (List.mem_cons_self ..)),
        ih fun added member => before added (List.mem_cons_of_mem _ member)]
      rfl

theorem lowerBound_append {front back : List RowGroupBatchEntry}
    (before : ∀ entry ∈ front, entry.batchIdx < batchIdx)
    (after : ∀ entry ∈ back, batchIdx ≤ entry.batchIdx) :
    lowerBound (front ++ back) batchIdx = front.length := by
  induction front with
  | nil =>
      cases back with
      | nil => rfl
      | cons first rest =>
          have late := Nat.not_lt.mpr (after first (List.mem_cons_self ..))
          simp [lowerBound, late]
  | cons first rest ih =>
      have early := before first (List.mem_cons_self ..)
      have later := ih fun entry member => before entry (List.mem_cons_of_mem _ member)
      simpa [lowerBound, early] using later

theorem insertIdx_length_append {Element : Type} (front back : List Element) (element : Element) :
    (front ++ back).insertIdx front.length element = front ++ element :: back := by
  induction front with
  | nil => rfl
  | cons first rest ih => exact congrArg (first :: ·) ih

namespace BatchInsertSystem.Placing

variable {written : Nat → List Row} {system next : BatchInsertSystem Row}
  {placed : List (BatchPlace Row)} {place other : BatchPlace Row} {index : Nat}

/-- A new batch comes between places, since no block that was merged goes on after it. -/
theorem exists_split (placing : Placing written system placed) (bounded : system.bound ≤ batchIdx)
    (fresh : ∀ added ∈ system.added, added.batchIdx ≠ batchIdx) :
    ∃ front back, placed = front ++ back ∧
      (∀ place ∈ front, ∀ added ∈ place.2, added.batchIdx < batchIdx) ∧
      ∀ place ∈ back, ∀ added ∈ place.2, batchIdx < added.batchIdx := by
  have stands := placing.stands
  have sorted := placing.sorted
  have settled := placing.settled
  rw [placing.blocks] at sorted fresh
  clear placing
  induction placed with
  | nil => exact ⟨[], [], rfl, (fun _ member => by cases member), fun _ member => by cases member⟩
  | cons place rest ih =>
      obtain ⟨first, tail, block, -⟩ := (stands place (List.mem_cons_self ..)).exists_first
      rw [List.flatMap_cons] at sorted fresh
      rcases Nat.lt_or_ge first.batchIdx batchIdx with early | late
      · obtain ⟨front, back, split, before, after⟩ :=
          ih (fun added member => fresh added (List.mem_append_right _ member))
            (fun other member => stands other (List.mem_cons_of_mem _ member))
            (List.pairwise_append.mp sorted).2.1
            (fun other member => settled other (List.mem_cons_of_mem _ member))
        refine ⟨place :: front, back, congrArg (place :: ·) split, ?_, after⟩
        intro other member added inside
        rcases List.mem_cons.mp member with rfl | later
        · by_cases alone : other.2.length = 1
          · rw [block, List.length_cons, Nat.add_eq_right, List.length_eq_zero_iff] at alone
            rw [block, alone, List.mem_singleton] at inside
            rw [inside]
            exact early
          · have settled_added := settled other (List.mem_cons_self ..) alone added inside
            have different := fresh added (List.mem_append_left _ inside)
            omega
        · exact before other later added inside
      · refine ⟨[], place :: rest, rfl, (fun _ member => by cases member), ?_⟩
        rw [block, List.cons_append] at sorted fresh
        have different := fresh first (List.mem_cons_self ..)
        have later : batchIdx < first.batchIdx := by omega
        intro other member added inside
        have somewhere : added ∈ first :: (tail ++ rest.flatMap Prod.snd) := by
          rw [← List.cons_append, ← block, ← List.flatMap_cons]
          exact List.mem_flatMap.mpr ⟨other, member, inside⟩
        rcases List.mem_cons.mp somewhere with rfl | further
        · exact later
        · exact Nat.lt_trans later ((List.pairwise_cons.mp sorted).1 added further)

/-! ## Handing over a collection -/

/-- The entry of a collection that is handed over. -/
def newEntry (state : BatchInsertGlobalState Row) (added : AddedCollection Row) :
    RowGroupBatchEntry :=
  ⟨added.batchIdx, added.rows.length, some added.collectionIndex,
    if added.rows.length < state.rowGroupSize.rows then .notFlushed else .flushed⟩

theorem stands_newEntry {state : BatchInsertGlobalState Row} {added : AddedCollection Row}
    (tasks : List MergeCollectionTask)
    (held : storage.get (some added.collectionIndex) = .ok added.rows) :
    Stands storage tasks (newEntry state added, [added]) := by
  rw [newEntry]
  split
  · exact .single added held
  · exact .flushed added [] added.rows.length (by simpa [blockRows] using held)

/-- Where a collection that is handed over goes. -/
theorem addCollection_eq (placing : Placing written system placed)
    (building : index ∈ system.building) {front back : List (BatchPlace Row)}
    (split : placed = front ++ back)
    (before : ∀ place ∈ front, ∀ added ∈ place.2, added.batchIdx < batchIdx)
    (after : ∀ place ∈ back, ∀ added ∈ place.2, batchIdx < added.batchIdx)
    (reached : minBatchIndex ≤ batchIdx) (writer : Bool) :
    system.state.addCollection batchIdx minBatchIndex (some index) writer =
      let inserted := { system.state with
        insertCount := system.state.insertCount + (written index).length
        collections := front.map Prod.fst ++
          newEntry system.state ⟨batchIdx, index, written index⟩ :: back.map Prod.fst }
      if writer then inserted.scheduleMergeTasks minBatchIndex else .ok inserted := by
  have early : ∀ entry ∈ front.map Prod.fst, entry.batchIdx < batchIdx := by
    intro entry member
    obtain ⟨place, there, rfl⟩ := List.mem_map.mp member
    obtain ⟨first, rest, block, batch⟩ :=
      (placing.stands place (split ▸ List.mem_append_left _ there)).exists_first
    rw [batch]
    exact before place there first (block ▸ List.mem_cons_self ..)
  have late : ∀ entry ∈ back.map Prod.fst, batchIdx < entry.batchIdx := by
    intro entry member
    obtain ⟨place, there, rfl⟩ := List.mem_map.mp member
    obtain ⟨first, rest, block, batch⟩ :=
      (placing.stands place (split ▸ List.mem_append_right _ there)).exists_first
    rw [batch]
    exact after place there first (block ▸ List.mem_cons_self ..)
  have entries : system.state.collections = front.map Prod.fst ++ back.map Prod.fst := by
    rw [placing.entries, split, List.map_append]
  have position : lowerBound system.state.collections batchIdx = (front.map Prod.fst).length := by
    rw [entries]
    exact lowerBound_append early fun entry member => Nat.le_of_lt (late entry member)
  have unique : ((system.state.collections[(front.map Prod.fst).length]?).any
      fun entry => entry.batchIdx == batchIdx) = false := by
    rw [entries, List.getElem?_append_right (Nat.le_refl _), Nat.sub_self]
    cases later : back.map Prod.fst with
    | nil => rfl
    | cons entry rest =>
        have different := late entry (later ▸ List.mem_cons_self ..)
        simpa using Nat.ne_of_gt different
  rw [addCollection, if_neg (Nat.not_lt.mpr reached)]
  dsimp only [bind, Except.bind, pure, Except.pure]
  rw [placing.built index building]
  dsimp only
  rw [position, unique, entries, insertIdx_length_append]
  rfl

/-- A collection that is handed over has its place among the others. -/
theorem insert (placing : Placing written system placed) (building : index ∈ system.building)
    (bounded : system.bound ≤ batchIdx)
    (fresh : ∀ added ∈ system.added, added.batchIdx ≠ batchIdx) :
    ∃ inserted : BatchInsertGlobalState Row, inserted.taskQueue = system.state.taskQueue ∧
      (∀ minBatchIndex ≤ batchIdx, ∀ writer,
        system.state.addCollection batchIdx minBatchIndex (some index) writer =
          if writer then inserted.scheduleMergeTasks minBatchIndex else .ok inserted) ∧
      ∀ minBatchIndex, ∃ placed', Placing written { system with
        state := inserted
        building := system.building.erase index
        added := insertBatch ⟨batchIdx, index, written index⟩ system.added
        bound := max system.bound minBatchIndex } placed' := by
  obtain ⟨front, back, split, before, after⟩ := placing.exists_split bounded fresh
  have added_eq : insertBatch ⟨batchIdx, index, written index⟩ system.added =
      front.flatMap Prod.snd ++ ⟨batchIdx, index, written index⟩ :: back.flatMap Prod.snd := by
    rw [placing.blocks, split, List.flatMap_append]
    refine insertBatch_append ?_ ?_
    · intro added member
      obtain ⟨place, there, inside⟩ := List.mem_flatMap.mp member
      exact before place there added inside
    · intro added member
      obtain ⟨place, there, inside⟩ := List.mem_flatMap.mp member
      exact after place there added inside
  have old_eq : system.added = front.flatMap Prod.snd ++ back.flatMap Prod.snd := by
    rw [placing.blocks, split, List.flatMap_append]
  have perm : (insertBatch ⟨batchIdx, index, written index⟩ system.added).Perm
      (⟨batchIdx, index, written index⟩ :: system.added) := by
    rw [added_eq, old_eq]
    exact List.perm_middle
  refine ⟨{ system.state with
      insertCount := system.state.insertCount + (written index).length
      collections := front.map Prod.fst ++
        newEntry system.state ⟨batchIdx, index, written index⟩ :: back.map Prod.fst }, rfl,
    fun minBatchIndex reached writer =>
      placing.addCollection_eq building split before after reached writer,
    fun minBatchIndex => ⟨front ++ (newEntry system.state ⟨batchIdx, index, written index⟩,
      [⟨batchIdx, index, written index⟩]) :: back, ?_⟩⟩
  have cases_place : ∀ place ∈ front ++ (newEntry system.state ⟨batchIdx, index, written index⟩,
      [⟨batchIdx, index, written index⟩]) :: back, place ∈ placed ∨
      place = (newEntry system.state ⟨batchIdx, index, written index⟩,
        [⟨batchIdx, index, written index⟩]) := by
    intro place member
    rw [split]
    simpa [or_assoc, or_comm, or_left_comm] using member
  have still : ∀ place ∈ placed, place ∈ front ++ (newEntry system.state
      ⟨batchIdx, index, written index⟩, [⟨batchIdx, index, written index⟩]) :: back := by
    intro place member
    rw [split] at member
    exact List.mem_append.mpr ((List.mem_append.mp member).imp_right (List.mem_cons_of_mem _))
  have indexes_perm : (system.building.erase index ++
      (insertBatch ⟨batchIdx, index, written index⟩ system.added).map
        AddedCollection.collectionIndex).Perm
      (system.building ++ system.added.map AddedCollection.collectionIndex) := by
    refine ((perm.map _).append_left _).trans ?_
    refine List.perm_middle.trans ?_
    exact (List.perm_cons_erase building).symm.append_right _
  constructor
  · simp
  · rw [added_eq]
    simp
  · intro place member
    rcases cases_place place member with old | rfl
    · exact placing.stands place old
    · exact stands_newEntry _ (placing.built index building)
  · rw [added_eq]
    have sorted := placing.sorted
    rw [old_eq] at sorted
    refine List.pairwise_append.mpr ⟨(List.pairwise_append.mp sorted).1, ?_, ?_⟩
    · refine List.pairwise_cons.mpr ⟨?_, (List.pairwise_append.mp sorted).2.1⟩
      intro added member
      obtain ⟨place, there, inside⟩ := List.mem_flatMap.mp member
      exact after place there added inside
    · intro first member second later
      rcases List.mem_cons.mp later with rfl | old
      · obtain ⟨place, there, inside⟩ := List.mem_flatMap.mp member
        exact before place there first inside
      · exact (List.pairwise_append.mp sorted).2.2 first member second old
  · exact indexes_perm.nodup_iff.mpr placing.distinct
  · intro other member
    exact placing.inside other (indexes_perm.mem_iff.mp member)
  · intro other member
    exact placing.built other (List.mem_of_mem_erase member)
  · intro added member
    rcases List.mem_cons.mp (perm.mem_iff.mp member) with rfl | old
    · rfl
    · exact placing.recorded added old
  · exact placing.unwritten
  · intro place member several added inside
    rcases cases_place place member with old | rfl
    · exact Nat.le_trans (placing.settled place old several added inside) (Nat.le_max_left ..)
    · exact absurd rfl several
  · have none_new : ((front ++ (newEntry system.state ⟨batchIdx, index, written index⟩,
        [⟨batchIdx, index, written index⟩]) :: back).filter
          fun place => place.1.collectionIndex.isNone) =
        placed.filter fun place => place.1.collectionIndex.isNone := by
      rw [split, List.filter_append, List.filter_append, List.filter_cons_of_neg (by simp [newEntry])]
    rw [none_new]
    exact placing.pending
  · intro group member
    obtain ⟨place, there, flushed, same⟩ := placing.merges group member
    exact ⟨place, still place there, flushed, same⟩
  · exact placing.once
  · intro place member flushed valid
    rw [insertsLarge, Bool.or_eq_true, decide_eq_true_eq]
    rcases cases_place place member with old | rfl
    · have large := placing.large place old flushed valid
      rw [insertsLarge, Bool.or_eq_true, decide_eq_true_eq] at large
      exact large.imp_right fun enough => Nat.le_trans enough (Nat.le_add_right ..)
    · refine Or.inr ?_
      rcases Nat.lt_or_ge (written index).length system.state.rowGroupSize.rows with short | long
      · rw [newEntry, if_pos short] at flushed
        cases flushed
      · exact Nat.le_trans long (Nat.le_add_left ..)

/-! ## Scheduling -/

/-- What a piece of the places becomes. -/
def pieceAfter : Piece (BatchPlace Row) → BatchPlace Row
  | .keep place => place
  | .merge first rest =>
      (Piece.kept Prod.fst (.merge first rest), (first :: rest).flatMap Prod.snd)

theorem fst_pieceAfter (piece : Piece (BatchPlace Row)) :
    (pieceAfter piece).1 = Piece.kept Prod.fst piece := by
  cases piece <;> rfl

theorem snd_pieceAfter (piece : Piece (BatchPlace Row)) :
    (pieceAfter piece).2 = piece.items.flatMap Prod.snd := by
  cases piece with
  | keep place => exact (List.append_nil _).symm
  | merge first rest => rfl

/-- Neighbours that are merged have one collection each. -/
theorem exists_singles {places : List (BatchPlace Row)}
    (stands : ∀ place ∈ places, Stands storage tasks place)
    (small : ∀ place ∈ places, place.1.type = .notFlushed) (batchIdx : Nat) :
    (places.map (Piece.taken Prod.fst batchIdx)).map RowGroupBatchEntry.collectionIndex =
        (places.flatMap Prod.snd).map (fun added => some added.collectionIndex) ∧
      ∀ added ∈ places.flatMap Prod.snd,
        storage.get (some added.collectionIndex) = .ok added.rows ∧
        ∃ place ∈ places, added.batchIdx = place.1.batchIdx := by
  induction places with
  | nil => exact ⟨rfl, fun _ member => by cases member⟩
  | cons place rest ih =>
      obtain ⟨same, held⟩ := ih (fun other member => stands other (List.mem_cons_of_mem _ member))
        (fun other member => small other (List.mem_cons_of_mem _ member))
      obtain ⟨added, block, batch, index, _, stored⟩ :=
        (stands place (List.mem_cons_self ..)).single_of_notFlushed
          (small place (List.mem_cons_self ..))
      constructor
      · rw [List.map_cons, List.map_cons, same, List.flatMap_cons, block, Piece.taken, index]
        rfl
      · intro other member
        rw [List.flatMap_cons, block, List.singleton_append] at member
        rcases List.mem_cons.mp member with rfl | later
        · exact ⟨stored, place, List.mem_cons_self .., batch.symm⟩
        · obtain ⟨there, owner, among, same_batch⟩ := held other later
          exact ⟨there, owner, List.mem_cons_of_mem _ among, same_batch⟩

/-- The tasks that are queued wait for the entries that lost their collections. -/
theorem pending_pieces (pieces : List (Piece (BatchPlace Row)))
    (valid : ∀ first rest, Piece.merge first rest ∈ pieces →
      ∀ place ∈ first :: rest, place.1.collectionIndex ≠ none) :
    (((pieces.map pieceAfter).filter fun place => place.1.collectionIndex.isNone).map
        fun place => place.1.batchIdx).Perm
      ((((pieces.flatMap Piece.items).filter fun place => place.1.collectionIndex.isNone).map
          fun place => place.1.batchIdx) ++
        (pieces.flatMap (Piece.queued Prod.fst)).map MergeCollectionTask.mergedBatchIndex) := by
  induction pieces with
  | nil => exact List.Perm.nil
  | cons piece rest ih =>
      have later := ih fun first others member =>
        valid first others (List.mem_cons_of_mem _ member)
      cases piece with
      | keep place =>
          rw [List.map_cons, List.flatMap_cons, List.flatMap_cons, pieceAfter, Piece.items,
            Piece.queued, List.singleton_append, List.nil_append, List.filter_cons,
            List.filter_cons]
          split
          · exact later.cons _
          · exact later
      | merge first others =>
          have none_waits : (first :: others).filter (fun place => place.1.collectionIndex.isNone) =
              [] := by
            rw [List.filter_eq_nil_iff]
            intro place member
            simpa using valid first others (List.mem_cons_self ..) place member
          rw [List.map_cons, List.flatMap_cons, List.flatMap_cons, List.filter_append, Piece.items,
            none_waits, List.nil_append, List.filter_cons_of_pos (by rfl), List.map_cons]
          exact (later.cons _).trans List.perm_middle.symm

/-- The collections of the tasks that are queued are those of the blocks that are merged. -/
theorem indexes_of_queued {task : MergeCollectionTask}
    (stands : ∀ place ∈ pieces.flatMap Piece.items, Stands storage tasks place)
    (small : ∀ first rest, Piece.merge first rest ∈ pieces →
      ∀ place ∈ first :: rest, place.1.type = .notFlushed)
    (member : task ∈ pieces.flatMap (Piece.queued Prod.fst)) :
    ∃ first rest, Piece.merge first rest ∈ pieces ∧ task.mergedBatchIndex = first.1.batchIdx ∧
      task.collectionIndexes =
        ((first :: rest).flatMap Prod.snd).map AddedCollection.collectionIndex := by
  obtain ⟨piece, there, inside⟩ := List.mem_flatMap.mp member
  cases piece with
  | keep place => cases inside
  | merge first rest =>
      rw [List.mem_singleton.mp inside]
      have stands_here : ∀ place ∈ first :: rest, Stands storage tasks place := fun place member =>
        stands place (List.mem_flatMap.mpr ⟨_, there, member⟩)
      obtain ⟨same, _⟩ := exists_singles stands_here (small first rest there) first.1.batchIdx
      exact ⟨first, rest, there, rfl, collectionIndexes_eq same⟩

theorem queued_sublist (stands : ∀ place ∈ pieces.flatMap Piece.items, Stands storage tasks place)
    (small : ∀ first rest, Piece.merge first rest ∈ pieces →
      ∀ place ∈ first :: rest, place.1.type = .notFlushed) :
    ((pieces.flatMap (Piece.queued Prod.fst)).map
        MergeCollectionTask.collectionIndexes).flatten.Sublist
      (((pieces.flatMap Piece.items).flatMap Prod.snd).map AddedCollection.collectionIndex) := by
  induction pieces with
  | nil => exact List.Sublist.slnil
  | cons piece rest ih =>
      rw [List.flatMap_cons] at stands
      have later := ih (fun place member => stands place (List.mem_append_right _ member))
        (fun first others member => small first others (List.mem_cons_of_mem _ member))
      rw [List.flatMap_cons, List.map_append, List.flatten_append, List.flatMap_cons,
        List.flatMap_append, List.map_append]
      refine List.Sublist.append ?_ later
      cases piece with
      | keep place => exact List.nil_sublist _
      | merge first others =>
          obtain ⟨same, _⟩ := exists_singles
            (fun place member => stands place (List.mem_append_left _ member))
            (small first others (List.mem_cons_self ..)) first.1.batchIdx
          have indexes : MergeCollectionTask.collectionIndexes
              ⟨(first :: others).map (Piece.taken Prod.fst first.1.batchIdx), first.1.batchIdx⟩ =
              ((first :: others).flatMap Prod.snd).map AddedCollection.collectionIndex :=
            collectionIndexes_eq same
          rw [Piece.queued, List.map_singleton, List.flatten_singleton, indexes]
          exact List.Sublist.refl _

/-- Scheduling keeps the places, or merges them into one that waits. -/
theorem schedule (placing : Placing written system placed)
    (bounded : minBatchIndex ≤ system.bound) :
    ∃ after, system.state.scheduleMergeTasks minBatchIndex = .ok after ∧
      (∃ placed', Placing written { system with state := after } placed') ∧
      ∀ group ∈ system.merging, group ∈ merging { system with state := after } := by
  have held : ∀ place ∈ placed, place.1.type = .notFlushed →
      Held system.state.optimisticCollections place.1 := by
    intro place member type
    obtain ⟨added, _, _, index, total, stored⟩ :=
      (placing.stands place member).single_of_notFlushed type
    exact ⟨type, added.collectionIndex, added.rows, index, get_some.mp stored, total⟩
  obtain ⟨pieces, nextStart, cover, may, scheduled⟩ := scheduleMergeTasks_spec system.state
    minBatchIndex placed placing.entries held
  have small : ∀ first rest, Piece.merge first rest ∈ pieces →
      ∀ place ∈ first :: rest, place.1.type = .notFlushed :=
    fun first rest member place inside => (may first rest member place inside).1
  have among : ∀ {piece}, piece ∈ pieces → ∀ place ∈ piece.items, place ∈ placed :=
    fun member place inside => cover ▸ List.mem_flatMap.mpr ⟨_, member, inside⟩
  have stands : ∀ place ∈ pieces.flatMap Piece.items,
      Stands system.state.optimisticCollections system.tasks place := cover ▸ placing.stands
  have kept : ∀ place ∈ placed, place.1.type = .flushed → place ∈ pieces.map pieceAfter := by
    intro place member flushed
    rw [← cover] at member
    obtain ⟨piece, there, inside⟩ := List.mem_flatMap.mp member
    cases piece with
    | keep other =>
        rw [List.mem_singleton.mp inside]
        exact List.mem_map_of_mem (f := pieceAfter) there
    | merge first rest =>
        rw [small first rest there place inside] at flushed
        cases flushed
  have blocks : (pieces.map pieceAfter).flatMap Prod.snd = placed.flatMap Prod.snd := by
    rw [← cover, List.flatMap_map, List.flatMap_assoc]
    exact List.flatMap_congr fun piece _ => snd_pieceAfter piece
  have tasks_perm : (system.state.taskQueue ++ pieces.flatMap (Piece.queued Prod.fst) ++
      system.running).Perm (system.tasks ++ pieces.flatMap (Piece.queued Prod.fst)) := by
    rw [tasks, List.append_assoc, List.append_assoc]
    exact List.perm_append_comm.append_left _
  have merging_perm : (system.merged ++ (system.state.taskQueue ++
      pieces.flatMap (Piece.queued Prod.fst) ++ system.running).map
        MergeCollectionTask.collectionIndexes).Perm
      (system.merging ++ (pieces.flatMap (Piece.queued Prod.fst)).map
        MergeCollectionTask.collectionIndexes) := by
    refine ((tasks_perm.map _).append_left _).trans ?_
    rw [merging, List.map_append, List.append_assoc]
  refine ⟨_, scheduled, ⟨pieces.map pieceAfter, ?_⟩, ?_⟩
  · refine { placing with
      entries := ?_, blocks := placing.blocks.trans blocks.symm, stands := ?_, settled := ?_,
      pending := ?_, merges := ?_, once := ?_, large := ?_ }
    · rw [List.map_map]
      exact List.map_congr_left fun piece _ => (fst_pieceAfter piece).symm
    · intro place member
      obtain ⟨piece, there, rfl⟩ := List.mem_map.mp member
      cases piece with
      | keep place =>
          exact (placing.stands place (among there place (List.mem_singleton_self _))).frame
            (fun _ _ => rfl) fun task known _ =>
              tasks_perm.mem_iff.mpr (List.mem_append_left _ known)
      | merge first rest =>
          have stands_here : ∀ other ∈ first :: rest,
              Stands system.state.optimisticCollections system.tasks other :=
            fun other inside => placing.stands other (among there other inside)
          obtain ⟨indexes, single⟩ :=
            exists_singles stands_here (small first rest there) first.1.batchIdx
          obtain ⟨added, block, batch, _⟩ := (stands_here first
            (List.mem_cons_self ..)).single_of_notFlushed (small first rest there first
              (List.mem_cons_self ..))
          rw [List.flatMap_cons, block, List.singleton_append] at indexes single
          rw [pieceAfter, Piece.kept, Piece.waiting, List.flatMap_cons, block, batch,
            List.singleton_append]
          refine .waiting added (rest.flatMap Prod.snd) _
            ⟨(first :: rest).map (Piece.taken Prod.fst first.1.batchIdx), first.1.batchIdx⟩ ?_ batch
            indexes fun other inside => (single other inside).1
          refine tasks_perm.mem_iff.mpr (List.mem_append_right _ ?_)
          exact List.mem_flatMap.mpr ⟨_, there, List.mem_singleton_self _⟩
    · intro place member several added inside
      obtain ⟨piece, there, rfl⟩ := List.mem_map.mp member
      cases piece with
      | keep place =>
          exact placing.settled place (among there place (List.mem_singleton_self _)) several added
            inside
      | merge first rest =>
          obtain ⟨_, single⟩ := exists_singles
            (fun place inside => placing.stands place (among there place inside))
            (small first rest there) 0
          obtain ⟨_, place, owner, batch⟩ := single added inside
          rw [batch]
          exact Nat.le_trans (may first rest there place owner).2 bounded
    · refine (tasks_perm.map _).trans ?_
      rw [List.map_append]
      refine (placing.pending.append_right _).trans ?_
      rw [← cover]
      refine (pending_pieces pieces ?_).symm
      intro first rest there place inside
      obtain ⟨added, _, _, index, _⟩ := (placing.stands place
        (among there place inside)).single_of_notFlushed (small first rest there place inside)
      simp [index]
    · intro group member
      rcases List.mem_append.mp (merging_perm.mem_iff.mp member) with old | new
      · obtain ⟨place, there, flushed, same⟩ := placing.merges group old
        exact ⟨place, kept place there flushed, flushed, same⟩
      · obtain ⟨task, queued, rfl⟩ := List.mem_map.mp new
        obtain ⟨first, rest, there, _, indexes⟩ := indexes_of_queued stands small queued
        exact ⟨_, List.mem_map_of_mem (f := pieceAfter) there, rfl, indexes⟩
    · refine merging_perm.flatten.nodup_iff.mpr ?_
      rw [List.flatten_append, List.nodup_append]
      refine ⟨placing.once, ?_, ?_⟩
      · have distinct := (List.nodup_append.mp placing.distinct).2.1
        rw [placing.blocks, ← cover] at distinct
        exact distinct.sublist (queued_sublist stands small)
      · intro index old _ new same
        subst same
        obtain ⟨group, member, inside⟩ := List.mem_flatten.mp old
        obtain ⟨place, there, flushed, rfl⟩ := placing.merges group member
        obtain ⟨group, member, inside'⟩ := List.mem_flatten.mp new
        obtain ⟨task, queued, rfl⟩ := List.mem_map.mp member
        obtain ⟨first, rest, merged, _, indexes⟩ := indexes_of_queued stands small queued
        rw [indexes, List.map_flatMap] at inside'
        obtain ⟨other, owner, inside'⟩ := List.mem_flatMap.mp inside'
        have one := placing.place_eq there (among merged other owner) inside inside'
        rw [one, small first rest merged other owner] at flushed
        cases flushed
    · intro place member flushed valid
      obtain ⟨piece, there, rfl⟩ := List.mem_map.mp member
      cases piece with
      | keep place =>
          exact placing.large place (among there place (List.mem_singleton_self _)) flushed valid
      | merge first rest => exact absurd rfl valid
  · intro group member
    exact merging_perm.mem_iff.mpr (List.mem_append_left _ member)

end BatchInsertSystem.Placing

end StatsRecommender
