import StatsRecommender.Storage.RowVersionManager

/-!
# Agreement of row versions

Two row version managers agree on the rows below a limit.  What appends behind the limit leave
is not seen, and deletions may be pending on one of the two sides.
-/

namespace StatsRecommender

variable {held : ChunkVectorInfo} {startRow : Nat}

/-- Two vectors agree on their first rows, but for the deletion of rows that are pending. -/
inductive ChunkAgrees (limit : Nat) (pending : Nat → Prop) :
    Option ChunkInfo → Option ChunkInfo → Prop
  | none : ChunkAgrees limit pending none none
  | constant (insertId deleteId : Nat) :
      ChunkAgrees limit pending (some (.constant insertId deleteId))
        (some (.constant insertId deleteId))
  | vector {info info' : ChunkVectorInfo} (insertId : info.insertId = info'.insertId)
      (sameInsertedId : info.sameInsertedId = info'.sameInsertedId)
      (anyDeleted : info.anyDeleted = info'.anyDeleted)
      (inserted : ∀ row < limit, info.inserted row = info'.inserted row)
      (deleted : ∀ row < limit, ¬ pending row → info.deleted row = info'.deleted row) :
      ChunkAgrees limit pending (some (.vector info)) (some (.vector info'))

namespace ChunkAgrees

variable {limit : Nat} {pending : Nat → Prop} {info info' : Option ChunkInfo}

theorem refl (info : Option ChunkInfo) : ChunkAgrees limit pending info info := by
  cases info with
  | none => exact .none
  | some info =>
      cases info with
      | constant insertId deleteId => exact .constant insertId deleteId
      | vector info => exact .vector rfl rfl rfl (fun _ _ => rfl) (fun _ _ _ => rfl)

/-- A vector that holds its rows one by one is held so on both sides. -/
theorem exists_vector (agrees : ChunkAgrees limit pending (some (.vector held)) info') :
    ∃ held', info' = some (.vector held') ∧ held.sameInsertedId = held'.sameInsertedId := by
  cases agrees with
  | vector insertId sameInsertedId anyDeleted inserted deleted => exact ⟨_, rfl, sameInsertedId⟩

/-- Nothing is pending any more where it is not asked for. -/
theorem mono (agrees : ChunkAgrees limit pending info info') {fewer : Nat → Prop}
    (less : ∀ row, pending row → fewer row) : ChunkAgrees limit fewer info info' := by
  cases agrees with
  | none => exact refl _
  | constant insertId deleteId => exact refl _
  | vector insertId sameInsertedId anyDeleted inserted deleted =>
      exact .vector insertId sameInsertedId anyDeleted inserted fun row inside ready =>
        deleted row inside fun waiting => ready (less row waiting)

/-- The vectors still agree after the same rows of both were written. -/
theorem commitDelete (agrees : ChunkAgrees limit pending info info') (id : Nat)
    (deletes : DeleteInfo) :
    ChunkAgrees limit pending
      (some (.vector ((RowVersionManager.vectorOf info).commitDelete id deletes)))
      (some (.vector ((RowVersionManager.vectorOf info').commitDelete id deletes))) := by
  cases agrees with
  | none => exact refl _
  | constant insertId deleteId => exact refl _
  | vector insertId sameInsertedId anyDeleted inserted deleted =>
      refine .vector insertId sameInsertedId anyDeleted inserted fun row below ready => ?_
      change writeAll _ _ _ row = writeAll _ _ _ row
      rw [writeAll, writeAll]
      exact if_congr Iff.rfl rfl (deleted row below ready)

end ChunkAgrees

/-- Two managers agree on the rows below a limit, but for the pending deletions. -/
def AgreesBelow (limit : Nat) (pending : Nat → Nat → Prop) (manager manager' : RowVersionManager) :
    Prop :=
  ∀ vectorIdx, vectorIdx * standardVectorSize < limit →
    ChunkAgrees (limit - vectorIdx * standardVectorSize) (pending vectorIdx)
      (manager.getChunkInfo vectorIdx) (manager'.getChunkInfo vectorIdx)

namespace RowVersionManager

variable {manager result : RowVersionManager}

/-- What a loop over vectors that comes to its end has done to each of them. -/
theorem changeVectors_ok
    {change : Nat → Option ChunkInfo → Except String (Option ChunkInfo)} {vectors : List Nat}
    (nodup : vectors.Nodup) (ok : changeVectors change vectors manager = .ok result)
    (vectorIdx : Nat) :
    (vectorIdx ∉ vectors → result.getChunkInfo vectorIdx = manager.getChunkInfo vectorIdx) ∧
      (vectorIdx ∈ vectors → ∃ changed, change vectorIdx (manager.getChunkInfo vectorIdx) =
        .ok changed ∧ (vectorIdx < manager.vectorInfo.length →
          result.getChunkInfo vectorIdx = changed)) := by
  induction vectors generalizing manager with
  | nil =>
      cases ok
      exact ⟨fun _ => rfl, fun member => absurd member List.not_mem_nil⟩
  | cons first rest ih =>
      obtain ⟨fresh, nodup⟩ := List.nodup_cons.mp nodup
      rw [changeVectors] at ok
      cases taken : change first (manager.getChunkInfo first) with
      | error message =>
          rw [taken] at ok
          cases ok
      | ok changed =>
          rw [taken] at ok
          obtain ⟨absent, present⟩ := ih nodup ok
          rw [setInfo, List.length_set] at present
          constructor
          · intro outside
            have different := List.ne_of_not_mem_cons outside
            exact (absent (List.not_mem_of_not_mem_cons outside)).trans
              (getChunkInfo_setInfo_ne different _)
          · intro member
            by_cases here : vectorIdx = first
            · subst here
              refine ⟨changed, taken, fun inside => (absent fresh).trans ?_⟩
              exact getChunkInfo_setInfo_self (.inl inside)
            · obtain ⟨other, hother, holds⟩ := present ((List.mem_cons.mp member).resolve_left here)
              refine ⟨other, ?_, holds⟩
              rw [← hother]
              exact congrArg _ (getChunkInfo_setInfo_ne here _).symm

/-- `CommitDelete` writes one vector. -/
theorem getChunkInfo_commitDelete (manager : RowVersionManager) (id : Nat) (info : DeleteInfo)
    (vectorIdx : Nat) :
    (manager.commitDelete id info).getChunkInfo vectorIdx =
      if vectorIdx = info.vectorIdx then
        some (.vector ((vectorOf (manager.getChunkInfo vectorIdx)).commitDelete id info))
      else manager.getChunkInfo vectorIdx := by
  rw [commitDelete]
  split
  · rename_i here
    subst here
    rw [getChunkInfo_setInfo_self (.inl (length_fillVectorInfo manager _)),
      getChunkInfo_fillVectorInfo]
  · rename_i other
    rw [getChunkInfo_setInfo_ne other, getChunkInfo_fillVectorInfo]

end RowVersionManager

namespace AgreesBelow

open RowVersionManager

variable {limit : Nat} {pending : Nat → Nat → Prop} {manager manager' : RowVersionManager}

theorem refl (manager : RowVersionManager) : AgreesBelow limit pending manager manager :=
  fun _ _ => .refl _

section

variable (agrees : AgreesBelow limit pending manager manager')
include agrees

theorem mono {fewer : Nat → Nat → Prop}
    (less : ∀ vectorIdx row, pending vectorIdx row → fewer vectorIdx row) :
    AgreesBelow limit fewer manager manager' :=
  fun vectorIdx below => (agrees vectorIdx below).mono (less vectorIdx)

/-- The same rows are written on both sides. -/
theorem commitDelete (id : Nat) (info : DeleteInfo) :
    AgreesBelow limit pending (manager.commitDelete id info) (manager'.commitDelete id info) := by
  intro vectorIdx below
  rw [getChunkInfo_commitDelete, getChunkInfo_commitDelete]
  split
  · exact (agrees vectorIdx below).commitDelete id info
  · exact agrees vectorIdx below

/--
Deleted rows are written on one side: they become pending, or no longer are when the other side
has what is written.
-/
theorem commitDelete_right (id : Nat) (info : DeleteInfo)
    (hheld : manager.getChunkInfo info.vectorIdx = some (.vector held)) {waiting : Nat → Nat → Prop}
    (written : ∀ row ∈ info.deletedRows, ¬ waiting info.vectorIdx row → held.deleted row = id)
    (others : ∀ vectorIdx row, ¬ (vectorIdx = info.vectorIdx ∧ row ∈ info.deletedRows) →
      pending vectorIdx row → waiting vectorIdx row) :
    AgreesBelow limit waiting manager (manager'.commitDelete id info) := by
  intro vectorIdx below
  have here := agrees vectorIdx below
  rw [getChunkInfo_commitDelete]
  split
  · rename_i same
    subst same
    rw [hheld] at here ⊢
    generalize manager'.getChunkInfo info.vectorIdx = chunk at here
    cases here with
    | vector insertId sameInsertedId anyDeleted inserted deleted =>
        refine .vector insertId sameInsertedId anyDeleted inserted fun row inside ready => ?_
        change _ = writeAll _ _ _ row
        by_cases member : row ∈ info.deletedRows
        · rw [writeAll_of_mem member]
          exact written row member ready
        · rw [writeAll_of_not_mem member]
          exact deleted row inside fun was =>
            ready (others _ row (fun both => member both.2) was)
  · rename_i other
    exact here.mono fun row was => others vectorIdx row (fun both => other both.1) was

end

/-- Vectors that start below the rows cut off are kept. -/
theorem kept_of_below {vectorIdx : Nat} (below : vectorIdx * standardVectorSize < startRow) :
    vectorIdx < (startRow + (standardVectorSize - 1)) / standardVectorSize := by
  rw [standardVectorSize] at below ⊢
  omega

section

variable (agrees : AgreesBelow limit pending manager manager')
include agrees

/-- Rows behind the limit are cut off on one side. -/
theorem revertAppend_right (behind : limit ≤ startRow) :
    AgreesBelow limit pending manager (manager'.revertAppend startRow) := by
  intro vectorIdx below
  rw [getChunkInfo_revertAppend, if_pos (kept_of_below (Nat.lt_of_lt_of_le below behind))]
  exact agrees vectorIdx below

theorem revertAppend_left (behind : limit ≤ startRow) :
    AgreesBelow limit pending (manager.revertAppend startRow) manager' := by
  intro vectorIdx below
  rw [getChunkInfo_revertAppend, if_pos (kept_of_below (Nat.lt_of_lt_of_le below behind))]
  exact agrees vectorIdx below

/-- Rows behind the limit are committed on one side. -/
theorem commitAppend_right {commitId start count : Nat} {result : RowVersionManager}
    (behind : limit ≤ start)
    (divided : start % standardVectorSize ≠ 0 → start - start % standardVectorSize < limit →
      ∃ held, manager.getChunkInfo (start / standardVectorSize) = some (.vector held) ∧
        held.sameInsertedId = false)
    (ok : manager'.commitAppend commitId start count = .ok result) :
    AgreesBelow limit pending manager result := by
  rw [RowVersionManager.commitAppend] at ok
  split at ok
  · cases ok
    exact agrees
  · rename_i some_rows
    have rows : start < start + count := by omega
    intro vectorIdx below
    have here := agrees vectorIdx below
    obtain ⟨absent, present⟩ :=
      changeVectors_ok (VersionInfo.nodup_vectors start (start + count)) ok vectorIdx
    by_cases member : vectorIdx ∈ VersionInfo.vectors start (start + count)
    · obtain ⟨changed, taken, found⟩ := present member
      have overlap := (VersionInfo.mem_vectors rows).mp member
      have place : vectorIdx = start / standardVectorSize ∧ start % standardVectorSize ≠ 0 ∧
          start - start % standardVectorSize < limit := by
        rw [standardVectorSize] at below overlap ⊢
        omega
      obtain ⟨held, hheld, mixed⟩ := divided place.2.1 place.2.2
      rw [← place.1] at hheld
      rw [hheld] at here ⊢
      obtain ⟨held', hheld', same⟩ := here.exists_vector
      rw [found (lt_length_of_getChunkInfo hheld')]
      rw [hheld'] at here taken
      cases taken
      cases here with
      | vector insertId sameInsertedId anyDeleted inserted deleted =>
          have different : held'.sameInsertedId = false := same.symm.trans mixed
          refine .vector ?_ sameInsertedId anyDeleted (fun row inside => ?_) deleted
          · change held.insertId = if held'.sameInsertedId then commitId else held'.insertId
            rw [different]
            exact insertId
          · refine (inserted row inside).trans (writeRange_of_not_mem ?_).symm
            rw [VersionInfo.covered_eq rows member]
            dsimp only
            omega
    · rw [absent member]
      exact here

end

end AgreesBelow

end StatsRecommender
