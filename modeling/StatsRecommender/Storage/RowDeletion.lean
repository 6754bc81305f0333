import Mathlib.Data.List.TakeWhile
import StatsRecommender.Storage.RowVersionManager

/-!
# Deletes that meet a conflict

`ChunkVectorInfo::Delete` overwrites the array of rows that it walks.  After a conflict it unsets
what the array holds in front of the conflict, which may be more than what it set.
-/

namespace StatsRecommender

namespace ChunkVectorInfo

variable {info : ChunkVectorInfo} {transactionId row : Nat} {rows done : List Nat}

/-- The row is deleted by another transaction. -/
def Conflicts (info : ChunkVectorInfo) (transactionId row : Nat) : Prop :=
  info.deleted row ≠ transactionId ∧ info.deleted row ≠ notDeletedId

instance (info : ChunkVectorInfo) (transactionId : Nat) :
    DecidablePred (info.Conflicts transactionId) :=
  fun _ => inferInstanceAs (Decidable (_ ∧ _))

/-- The rows that the transaction had not deleted before, each at its first occurrence. -/
def newlyDeleted (info : ChunkVectorInfo) (transactionId : Nat) (rows : List Nat) : List Nat :=
  (rows.filter fun row => info.deleted row ≠ transactionId).eraseDups

/-- The rows in front of the first conflict. -/
def beforeConflict (info : ChunkVectorInfo) (transactionId : Nat) (rows : List Nat) : List Nat :=
  rows.takeWhile fun row => ¬ info.Conflicts transactionId row

/-- All rows are marked and the new ones returned in order, or a conflict leaves all marks. -/
def DeletesAllOrNone (info : ChunkVectorInfo) (transactionId : Nat) (rows : List Nat) : Prop :=
  match info.delete transactionId rows with
  | (after, .ok deleted) =>
      (∀ row ∈ rows, ¬ info.Conflicts transactionId row) ∧
        (∀ row, after.deleted row = if row ∈ rows then transactionId else info.deleted row) ∧
        deleted = info.newlyDeleted transactionId rows
  | (after, .error _) =>
      (∃ row ∈ rows, info.Conflicts transactionId row) ∧ after.deleted = info.deleted

/--
What the array holds once its loop went over `done`: the newly deleted rows, and the rows of the
array that they did not overwrite.
-/
def compacted (info : ChunkVectorInfo) (transactionId : Nat) (done : List Nat) : List Nat :=
  info.newlyDeleted transactionId done ++ done.drop (info.newlyDeleted transactionId done).length

/-- No row behind the newly deleted ones was deleted by the transaction before the conflict. -/
def UndoSparesDeleted (info : ChunkVectorInfo) (transactionId : Nat) (rows : List Nat) : Prop :=
  (∃ row ∈ rows, info.Conflicts transactionId row) →
    ∀ row ∈ (info.beforeConflict transactionId rows).drop
        (info.newlyDeleted transactionId (info.beforeConflict transactionId rows)).length,
      info.deleted row = transactionId → transactionId = notDeletedId

/-! ## The rows that are newly deleted -/

theorem mem_newlyDeleted :
    row ∈ info.newlyDeleted transactionId rows ↔
      row ∈ rows ∧ info.deleted row ≠ transactionId := by
  rw [newlyDeleted, List.mem_eraseDups, List.mem_filter, decide_eq_true_eq]

/-- A row that is deleted already adds nothing. -/
theorem newlyDeleted_concat_of_deleted
    (deleted : info.deleted row = transactionId ∨ row ∈ info.newlyDeleted transactionId done) :
    info.newlyDeleted transactionId (done ++ [row]) = info.newlyDeleted transactionId done := by
  rw [newlyDeleted, newlyDeleted, List.filter_append, List.eraseDups_append]
  rcases deleted with own | again
  · simp [own]
  · have there := mem_newlyDeleted.mp again
    simp [List.removeAll, there]

/-- Any other row is added behind the rows that were newly deleted. -/
theorem newlyDeleted_concat_of_new (other : info.deleted row ≠ transactionId)
    (fresh : row ∉ info.newlyDeleted transactionId done) :
    info.newlyDeleted transactionId (done ++ [row]) =
      info.newlyDeleted transactionId done ++ [row] := by
  have absent : row ∉ done := fun member => fresh (mem_newlyDeleted.mpr ⟨member, other⟩)
  rw [newlyDeleted, newlyDeleted, List.filter_append, List.eraseDups_append]
  simp [List.removeAll, other, absent, List.eraseDups_cons]

theorem length_newlyDeleted_le (info : ChunkVectorInfo) (transactionId : Nat) (rows : List Nat) :
    (info.newlyDeleted transactionId rows).length ≤ rows.length := by
  induction rows using List.reverseRecOn with
  | nil => rfl
  | append_singleton done row ih =>
      rw [List.length_append, List.length_singleton]
      by_cases deleted : info.deleted row = transactionId ∨
          row ∈ info.newlyDeleted transactionId done
      · rw [newlyDeleted_concat_of_deleted deleted]
        exact ih.trans (Nat.le_succ _)
      · obtain ⟨other, fresh⟩ := not_or.mp deleted
        rw [newlyDeleted_concat_of_new other fresh, List.length_append, List.length_singleton]
        exact Nat.succ_le_succ ih

theorem compacted_concat_of_deleted
    (deleted : info.deleted row = transactionId ∨ row ∈ info.newlyDeleted transactionId done) :
    info.compacted transactionId (done ++ [row]) = info.compacted transactionId done ++ [row] := by
  rw [compacted, compacted, newlyDeleted_concat_of_deleted deleted,
    List.drop_append_of_le_length (length_newlyDeleted_le info transactionId done),
    List.append_assoc]

/-- A new row is written to the place behind the rows that were newly deleted. -/
theorem compacted_concat_of_new (other : info.deleted row ≠ transactionId)
    (fresh : row ∉ info.newlyDeleted transactionId done) :
    info.compacted transactionId (done ++ [row]) =
      (info.compacted transactionId done ++ [row]).set
        (info.newlyDeleted transactionId done).length row := by
  have short := length_newlyDeleted_le info transactionId done
  rw [compacted, compacted, newlyDeleted_concat_of_new other fresh, List.append_assoc,
    List.append_assoc, List.set_append_right _ _ (Nat.le_refl _), Nat.sub_self,
    List.length_append, List.length_singleton, ← List.drop_drop,
    ← List.drop_append_of_le_length short]
  have nonempty : 0 < ((done ++ [row]).drop
      (info.newlyDeleted transactionId done).length).length := by
    rw [List.length_drop, List.length_append, List.length_singleton]
    exact Nat.sub_pos_of_lt (Nat.lt_succ_of_le short)
  obtain ⟨first, rest, split⟩ := List.exists_cons_of_length_pos nonempty
  rw [split]
  rfl

/-! ## The loop -/

/-- The marks after the loop over `done`. -/
def marked (info : ChunkVectorInfo) (transactionId : Nat) (done : List Nat) : ChunkVectorInfo :=
  { info with
    deleted := writeAll info.deleted (info.newlyDeleted transactionId done) transactionId }

/-- The marks after a conflict behind `done`. -/
def unmarked (info : ChunkVectorInfo) (transactionId : Nat) (done : List Nat) : ChunkVectorInfo :=
  { info with
    deleted := writeAll (info.marked transactionId done).deleted
      (info.compacted transactionId done) notDeletedId }

theorem marked_deleted_eq :
    (info.marked transactionId done).deleted row = transactionId ↔
      info.deleted row = transactionId ∨ row ∈ info.newlyDeleted transactionId done := by
  rw [marked]
  dsimp only
  by_cases member : row ∈ info.newlyDeleted transactionId done
  · rw [writeAll_of_mem member]
    simp only [member, or_true]
  · rw [writeAll_of_not_mem member]
    simp only [member, or_false]

theorem marked_concat_of_deleted
    (deleted : info.deleted row = transactionId ∨ row ∈ info.newlyDeleted transactionId done) :
    info.marked transactionId (done ++ [row]) = info.marked transactionId done := by
  rw [marked, marked, newlyDeleted_concat_of_deleted deleted]

theorem marked_concat_of_new (other : info.deleted row ≠ transactionId)
    (fresh : row ∉ info.newlyDeleted transactionId done) :
    info.marked transactionId (done ++ [row]) =
      { info.marked transactionId done with
        deleted := writeAll (info.marked transactionId done).deleted [row] transactionId } := by
  rw [marked, marked, newlyDeleted_concat_of_new other fresh]
  dsimp only
  rw [writeAll_writeAll_singleton]

theorem clean_concat (clean : ∀ other ∈ done, ¬ info.Conflicts transactionId other)
    (harmless : ¬ info.Conflicts transactionId row) :
    ∀ other ∈ done ++ [row], ¬ info.Conflicts transactionId other := by
  intro other member
  rcases List.mem_append.mp member with before | last
  · exact clean other before
  · rw [List.mem_singleton.mp last]
    exact harmless

/-- A row that is no conflict may be counted to the rows that are done. -/
theorem outcome_concat {rest : List Nat} (harmless : ¬ info.Conflicts transactionId row) :
    (if ∃ other ∈ rest, info.Conflicts transactionId other then
        (info.unmarked transactionId (done ++ [row] ++ info.beforeConflict transactionId rest),
          (.error "Conflict on tuple deletion!" : Except String (List Nat)))
      else
        (info.marked transactionId (done ++ [row] ++ rest),
          .ok (info.newlyDeleted transactionId (done ++ [row] ++ rest)))) =
      if ∃ other ∈ row :: rest, info.Conflicts transactionId other then
        (info.unmarked transactionId (done ++ info.beforeConflict transactionId (row :: rest)),
          .error "Conflict on tuple deletion!")
      else
        (info.marked transactionId (done ++ row :: rest),
          .ok (info.newlyDeleted transactionId (done ++ row :: rest))) := by
  have front : info.beforeConflict transactionId (row :: rest) =
      row :: info.beforeConflict transactionId rest :=
    List.takeWhile_cons_of_pos (by simpa using harmless)
  have conflicts : (∃ other ∈ row :: rest, info.Conflicts transactionId other) ↔
      ∃ other ∈ rest, info.Conflicts transactionId other := by
    simp [harmless]
  simp only [conflicts, front, List.append_assoc, List.singleton_append]

/-- What the loop of `Delete` makes of the rest of the rows. -/
theorem deleteLoop_eq (info : ChunkVectorInfo) (transactionId : Nat) (done rest : List Nat)
    (clean : ∀ row ∈ done, ¬ info.Conflicts transactionId row) :
    deleteLoop transactionId (info.marked transactionId done) (info.compacted transactionId done)
        (info.newlyDeleted transactionId done).length rest =
      if ∃ row ∈ rest, info.Conflicts transactionId row then
        (info.unmarked transactionId (done ++ info.beforeConflict transactionId rest),
          .error "Conflict on tuple deletion!")
      else
        (info.marked transactionId (done ++ rest),
          .ok (info.newlyDeleted transactionId (done ++ rest))) := by
  induction rest generalizing done with
  | nil =>
      rw [if_neg (fun ⟨_, member, _⟩ => by cases member), List.append_nil, deleteLoop, compacted,
        List.take_left]
  | cons row rest ih =>
      rw [deleteLoop]
      by_cases deleted : (info.marked transactionId done).deleted row = transactionId
      · rw [if_pos deleted]
        rw [marked_deleted_eq] at deleted
        have harmless : ¬ info.Conflicts transactionId row := by
          rcases deleted with own | again
          · exact fun conflicts => conflicts.1 own
          · exact clean row (mem_newlyDeleted.mp again).1
        have next := ih (done ++ [row]) (clean_concat clean harmless)
        rw [compacted_concat_of_deleted deleted, marked_concat_of_deleted deleted,
          newlyDeleted_concat_of_deleted deleted] at next
        rw [next]
        exact outcome_concat harmless
      · rw [if_neg deleted]
        rw [marked_deleted_eq, not_or] at deleted
        obtain ⟨other, fresh⟩ := deleted
        have same : (info.marked transactionId done).deleted row = info.deleted row :=
          writeAll_of_not_mem fresh
        rw [same]
        by_cases free : info.deleted row = notDeletedId
        · have harmless : ¬ info.Conflicts transactionId row := fun conflicts => conflicts.2 free
          have next := ih (done ++ [row]) (clean_concat clean harmless)
          rw [compacted_concat_of_new other fresh, marked_concat_of_new other fresh,
            newlyDeleted_concat_of_new other fresh, List.length_append,
            List.length_singleton] at next
          rw [if_neg (not_not.mpr free), next]
          exact outcome_concat harmless
        · have conflicts : info.Conflicts transactionId row := ⟨other, free⟩
          rw [if_pos free, if_pos ⟨row, List.mem_cons_self, conflicts⟩, beforeConflict,
            List.takeWhile_cons_of_neg (by simpa using conflicts), List.append_nil]
          rfl

/-- `Delete` as a whole: what it does depends on whether some row is a conflict. -/
theorem delete_eq (info : ChunkVectorInfo) (transactionId : Nat) (rows : List Nat) :
    info.delete transactionId rows =
      if ∃ row ∈ rows, info.Conflicts transactionId row then
        ({ info with anyDeleted := true }.unmarked transactionId
          (info.beforeConflict transactionId rows), .error "Conflict on tuple deletion!")
      else
        ({ info with anyDeleted := true }.marked transactionId rows,
          .ok (info.newlyDeleted transactionId rows)) := by
  have whole := deleteLoop_eq { info with anyDeleted := true } transactionId [] rows
    fun _ impossible => by cases impossible
  have unmarkedYet : { info with anyDeleted := true }.marked transactionId [] =
      { info with anyDeleted := true } := rfl
  rw [unmarkedYet] at whole
  exact whole

/-! ## What a conflict leaves -/

/-- After a conflict the rows that the array held are not deleted, and the others are as before. -/
theorem unmarked_deleted (info : ChunkVectorInfo) (transactionId : Nat) (done : List Nat)
    (row : Nat) :
    (info.unmarked transactionId done).deleted row =
      if row ∈ info.compacted transactionId done then notDeletedId else info.deleted row := by
  rw [unmarked]
  dsimp only
  by_cases held : row ∈ info.compacted transactionId done
  · rw [writeAll_of_mem held, if_pos held]
  · rw [writeAll_of_not_mem held, if_neg held, marked]
    exact writeAll_of_not_mem fun member => held (List.mem_append_left _ member)

/-- The undo loop restores the marks exactly where it meets no earlier deletion. -/
theorem unmarked_deleted_eq_iff (clean : ∀ row ∈ done, ¬ info.Conflicts transactionId row) :
    (info.unmarked transactionId done).deleted = info.deleted ↔
      ∀ row ∈ done.drop (info.newlyDeleted transactionId done).length,
        info.deleted row = transactionId → transactionId = notDeletedId := by
  constructor
  · intro restored row member own
    have held : row ∈ info.compacted transactionId done := List.mem_append_right _ member
    have here := congrFun restored row
    rw [unmarked_deleted, if_pos held, own] at here
    exact here.symm
  · intro spared
    funext row
    rw [unmarked_deleted]
    split
    · rename_i held
      rcases List.mem_append.mp held with new | behind
      · obtain ⟨member, other⟩ := mem_newlyDeleted.mp new
        exact (not_not.mp fun free => clean row member ⟨other, free⟩).symm
      · by_cases own : info.deleted row = transactionId
        · exact ((spared row behind own).symm.trans own.symm)
        · exact (not_not.mp fun free =>
            clean row (List.mem_of_mem_drop behind) ⟨own, free⟩).symm
    · rfl

theorem beforeConflict_clean (info : ChunkVectorInfo) (transactionId : Nat) (rows : List Nat) :
    ∀ row ∈ info.beforeConflict transactionId rows, ¬ info.Conflicts transactionId row := by
  intro row member
  simpa using List.mem_takeWhile_imp member

/-- A deletion keeps its promise exactly if its undo loop meets no earlier deletion. -/
theorem delete_all_or_none_iff (info : ChunkVectorInfo) (transactionId : Nat) (rows : List Nat) :
    info.DeletesAllOrNone transactionId rows ↔ info.UndoSparesDeleted transactionId rows := by
  rw [DeletesAllOrNone, delete_eq, UndoSparesDeleted]
  by_cases conflict : ∃ row ∈ rows, info.Conflicts transactionId row
  · rw [if_pos conflict]
    have restored := unmarked_deleted_eq_iff
      (beforeConflict_clean { info with anyDeleted := true } transactionId rows)
    constructor
    · rintro ⟨-, same⟩ -
      exact restored.mp same
    · intro spared
      exact ⟨conflict, restored.mpr (spared conflict)⟩
  · rw [if_neg conflict]
    constructor
    · intro _ some_conflict
      exact absurd some_conflict conflict
    · intro _
      refine ⟨fun row member conflicts => conflict ⟨row, member, conflicts⟩, fun row => ?_, rfl⟩
      rw [marked]
      dsimp only
      by_cases new : row ∈ info.newlyDeleted transactionId rows
      · rw [if_pos (mem_newlyDeleted.mp new).1]
        exact writeAll_of_mem new
      · refine (writeAll_of_not_mem new).trans ?_
        split
        · rename_i member
          exact not_not.mp fun other => new (mem_newlyDeleted.mpr ⟨member, other⟩)
        · rfl

/-- The first row was deleted by the transaction before, the second by another one. -/
def twiceDeleted : ChunkVectorInfo :=
  { create with
    deleted := writeAll (writeAll create.deleted [0] transactionIdStart) [1]
      (transactionIdStart + 1) }

/-- The conflict over the second row undoes the earlier deletion of the first one. -/
theorem delete_loses_earlier_deletion :
    ¬ twiceDeleted.DeletesAllOrNone transactionIdStart [0, 1] ∧
      twiceDeleted.deleted 0 = transactionIdStart ∧
      (twiceDeleted.delete transactionIdStart [0, 1]).1.deleted 0 = notDeletedId := by
  refine ⟨?_, by decide, by decide⟩
  rintro ⟨-, same⟩
  have first := congrFun same 0
  revert first
  decide

end ChunkVectorInfo

end StatsRecommender
