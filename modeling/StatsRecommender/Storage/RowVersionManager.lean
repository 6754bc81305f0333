import StatsRecommender.Library.Arrays
import StatsRecommender.Storage.RowGroup

/-!
# Row versions

`RowVersionManager` with the insertion and deletion ids it keeps for the rows of a row group,
vector by vector: none, one for all rows, or one for each row.
-/

namespace StatsRecommender

/-- `TransactionData`, without the transaction itself. -/
structure TransactionData where
  startTime : Nat
  transactionId : Nat
  deriving DecidableEq, Repr

namespace TransactionData

/-- `TransactionVersionOperator::UseInsertedVersion`. -/
def useInsertedVersion (transaction : TransactionData) (id : Nat) : Bool :=
  decide (id < transaction.startTime) || id == transaction.transactionId

/-- `TransactionVersionOperator::UseDeletedVersion`. -/
def useDeletedVersion (transaction : TransactionData) (id : Nat) : Bool :=
  !transaction.useInsertedVersion id

end TransactionData

/-- `ChunkVectorInfo`. -/
structure ChunkVectorInfo where
  inserted : Nat → Nat
  insertId : Nat
  sameInsertedId : Bool
  deleted : Nat → Nat
  anyDeleted : Bool
  deriving Inhabited

/-- `ChunkInfo`: `ChunkConstantInfo` with its two ids, or `ChunkVectorInfo`. -/
inductive ChunkInfo where
  | constant (insertId deleteId : Nat)
  | vector (info : ChunkVectorInfo)
  deriving Inhabited

/-- `DeleteInfo`; the rows of consecutive deletes are counted only. -/
structure DeleteInfo where
  vectorIdx : Nat
  count : Nat
  isConsecutive : Bool
  rows : List Nat
  deriving DecidableEq, Repr

namespace DeleteInfo

/-- `DuckTransaction::PushDelete`. -/
def push (vectorIdx : Nat) (rows : List Nat) : DeleteInfo :=
  let consecutive := rows == List.range rows.length
  ⟨vectorIdx, rows.length, consecutive, if consecutive then [] else rows⟩

/-- The rows that `CommitDelete` writes. -/
def deletedRows (info : DeleteInfo) : List Nat :=
  if info.isConsecutive then List.range info.count else info.rows.take info.count

theorem deletedRows_push (vectorIdx : Nat) (rows : List Nat) :
    (push vectorIdx rows).deletedRows = rows := by
  rw [deletedRows, push]
  by_cases consecutive : rows = List.range rows.length
  · rw [if_pos]
    · exact consecutive.symm
    · exact beq_iff_eq.mpr consecutive
  · rw [if_neg]
    · dsimp only
      rw [if_neg, List.take_length]
      exact mt beq_iff_eq.mp consecutive
    · exact mt beq_iff_eq.mp consecutive

end DeleteInfo

namespace ChunkVectorInfo

/-- The constructor. -/
def create : ChunkVectorInfo := ⟨fun _ => 0, 0, true, fun _ => notDeletedId, false⟩

/-- `ChunkVectorInfo::GetSelVector`: the rows that are selected. -/
def getSelVector (info : ChunkVectorInfo) (transaction : TransactionData) (maxCount : Nat) :
    List Nat :=
  if info.sameInsertedId && !info.anyDeleted then
    if transaction.useInsertedVersion info.insertId then List.range maxCount else []
  else if info.sameInsertedId then
    if !transaction.useInsertedVersion info.insertId then []
    else (List.range maxCount).filter fun row => transaction.useDeletedVersion (info.deleted row)
  else if !info.anyDeleted then
    (List.range maxCount).filter fun row => transaction.useInsertedVersion (info.inserted row)
  else
    (List.range maxCount).filter fun row =>
      transaction.useInsertedVersion (info.inserted row) &&
        transaction.useDeletedVersion (info.deleted row)

/-- `ChunkVectorInfo::Fetch`. -/
def fetch (info : ChunkVectorInfo) (transaction : TransactionData) (row : Nat) : Bool :=
  transaction.useInsertedVersion (info.inserted row) &&
    !transaction.useInsertedVersion (info.deleted row)

/--
The loop of `ChunkVectorInfo::Delete`.  `seen` is what `rows` holds in front of the current
row, where the first `deletedTuples` places were overwritten by the rows deleted so far.
-/
def deleteLoop (transactionId : Nat) :
    ChunkVectorInfo → List Nat → Nat → List Nat → ChunkVectorInfo × Except String (List Nat)
  | info, seen, deletedTuples, [] => (info, .ok (seen.take deletedTuples))
  | info, seen, deletedTuples, row :: rest =>
      if info.deleted row = transactionId then
        deleteLoop transactionId info (seen ++ [row]) deletedTuples rest
      else if info.deleted row ≠ notDeletedId then
        ({ info with deleted := writeAll info.deleted seen notDeletedId },
          .error "Conflict on tuple deletion!")
      else
        deleteLoop transactionId { info with deleted := writeAll info.deleted [row] transactionId }
          ((seen ++ [row]).set deletedTuples row) (deletedTuples + 1) rest

/-- `ChunkVectorInfo::Delete`: the rows that were deleted, or a conflict. -/
def delete (info : ChunkVectorInfo) (transactionId : Nat) (rows : List Nat) :
    ChunkVectorInfo × Except String (List Nat) :=
  deleteLoop transactionId { info with anyDeleted := true } [] 0 rows

/-- `ChunkVectorInfo::CommitDelete`. -/
def commitDelete (info : ChunkVectorInfo) (commitId : Nat) (deletes : DeleteInfo) :
    ChunkVectorInfo :=
  { info with deleted := writeAll info.deleted deletes.deletedRows commitId }

/-- `ChunkVectorInfo::Append`. -/
def append (info : ChunkVectorInfo) (start finish commitId : Nat) : ChunkVectorInfo :=
  let marked :=
    if start = 0 then { info with insertId := commitId }
    else if info.insertId ≠ commitId then
      { info with sameInsertedId := false, insertId := notDeletedId }
    else info
  { marked with inserted := writeRange marked.inserted start finish commitId }

/-- `ChunkVectorInfo::CommitAppend`. -/
def commitAppend (info : ChunkVectorInfo) (commitId start finish : Nat) : ChunkVectorInfo :=
  { info with
    insertId := if info.sameInsertedId then commitId else info.insertId
    inserted := writeRange info.inserted start finish commitId }

/-- `ChunkVectorInfo::Cleanup`; the loop over the insertion ids starts with the second. -/
def cleanup (info : ChunkVectorInfo) (lowestTransaction : Nat) : Bool :=
  if info.anyDeleted then false
  else if !info.sameInsertedId then
    (List.range' 1 (standardVectorSize - 1)).all fun row =>
      decide (info.inserted row ≤ lowestTransaction)
  else decide (info.insertId ≤ lowestTransaction)

end ChunkVectorInfo

namespace ChunkInfo

def getSelVector (transaction : TransactionData) (maxCount : Nat) : ChunkInfo → List Nat
  | constant insertId deleteId =>
      if transaction.useInsertedVersion insertId && transaction.useDeletedVersion deleteId then
        List.range maxCount
      else []
  | vector info => info.getSelVector transaction maxCount

def fetch (transaction : TransactionData) (row : Nat) : ChunkInfo → Bool
  | constant insertId deleteId =>
      transaction.useInsertedVersion insertId && !transaction.useInsertedVersion deleteId
  | vector info => info.fetch transaction row

def commitAppend (commitId start finish : Nat) : ChunkInfo → ChunkInfo
  | constant _ deleteId => constant commitId deleteId
  | vector info => vector (info.commitAppend commitId start finish)

def cleanup (lowestTransaction : Nat) : ChunkInfo → Bool
  | constant insertId deleteId =>
      if deleteId ≠ notDeletedId then false else decide (insertId ≤ lowestTransaction)
  | vector info => info.cleanup lowestTransaction

end ChunkInfo

/-- `RowVersionManager`, without what only its serialization looks at. -/
structure RowVersionManager where
  vectorInfo : List (Option ChunkInfo)

namespace VersionInfo

variable {first last vectorIdx : Nat}

/-- The vectors of some rows are those that overlap them. -/
theorem mem_vectors (some_rows : first < last) :
    vectorIdx ∈ vectors first last ↔
      first < (vectorIdx + 1) * standardVectorSize ∧ vectorIdx * standardVectorSize < last := by
  rw [vectors, List.mem_range'_1, standardVectorSize]
  omega

theorem nodup_vectors (first last : Nat) : (vectors first last).Nodup := List.nodup_range'

/-- The places of a vector that some rows cover. -/
theorem covered_eq (some_rows : first < last) (member : vectorIdx ∈ vectors first last) :
    covered first last vectorIdx = (first - vectorIdx * standardVectorSize,
      min standardVectorSize (last - vectorIdx * standardVectorSize)) := by
  rw [mem_vectors some_rows] at member
  rw [covered]
  rw [standardVectorSize] at member ⊢
  congr 1
  · split <;> omega
  · split <;> omega

end VersionInfo

namespace RowVersionManager

/-- `RowVersionManager::GetChunkInfo`. -/
def getChunkInfo (manager : RowVersionManager) (vectorIdx : Nat) : Option ChunkInfo :=
  manager.vectorInfo[vectorIdx]?.join

/-- `RowVersionManager::GetSelVector`. -/
def getSelVector (manager : RowVersionManager) (transaction : TransactionData)
    (vectorIdx maxCount : Nat) : List Nat :=
  match manager.getChunkInfo vectorIdx with
  | none => List.range maxCount
  | some info => info.getSelVector transaction maxCount

/-- `RowVersionManager::Fetch`. -/
def fetch (manager : RowVersionManager) (transaction : TransactionData) (row : Nat) : Bool :=
  match manager.getChunkInfo (row / standardVectorSize) with
  | none => true
  | some info => info.fetch transaction (row - row / standardVectorSize * standardVectorSize)

/-- `RowVersionManager::FillVectorInfo`. -/
def fillVectorInfo (manager : RowVersionManager) (vectorIdx : Nat) : RowVersionManager :=
  ⟨manager.vectorInfo ++ List.replicate (vectorIdx + 1 - manager.vectorInfo.length) none⟩

def setInfo (manager : RowVersionManager) (vectorIdx : Nat) (info : Option ChunkInfo) :
    RowVersionManager :=
  ⟨manager.vectorInfo.set vectorIdx info⟩

/-- The loops over the vectors of some rows, each round of which looks at its vector only. -/
def changeVectors (change : Nat → Option ChunkInfo → Except String (Option ChunkInfo)) :
    List Nat → RowVersionManager → Except String RowVersionManager
  | [], manager => pure manager
  | vectorIdx :: rest, manager => do
      let info ← change vectorIdx (manager.getChunkInfo vectorIdx)
      changeVectors change rest (manager.setInfo vectorIdx info)

/-- A round of `AppendVersionInfo`. -/
def appendVector (transactionId first last vectorIdx : Nat) (info : Option ChunkInfo) :
    Except String (Option ChunkInfo) :=
  let covered := VersionInfo.covered first last vectorIdx
  if covered = (0, standardVectorSize) then pure (some (.constant transactionId notDeletedId))
  else
    match info with
    | none => pure (some (.vector (.append .create covered.1 covered.2 transactionId)))
    | some (.vector held) => pure (some (.vector (held.append covered.1 covered.2 transactionId)))
    | some (.constant _ _) =>
        throw ("Error in RowVersionManager::AppendVersionInfo - expected either a " ++
          "ChunkVectorInfo or no version info")

/-- `RowVersionManager::AppendVersionInfo`. -/
def appendVersionInfo (manager : RowVersionManager) (transactionId first last : Nat) :
    Except String RowVersionManager :=
  changeVectors (appendVector transactionId first last) (VersionInfo.vectors first last)
    (manager.fillVectorInfo ((last - 1) / standardVectorSize))

/-- A round of `CommitAppend`. -/
def commitVector (commitId first last vectorIdx : Nat) :
    Option ChunkInfo → Except String (Option ChunkInfo)
  | none => throw "Attempted to dereference unique_ptr that is NULL!"
  | some info =>
      let covered := VersionInfo.covered first last vectorIdx
      pure (some (info.commitAppend commitId covered.1 covered.2))

/-- `RowVersionManager::CommitAppend`. -/
def commitAppend (manager : RowVersionManager) (commitId start count : Nat) :
    Except String RowVersionManager :=
  if count = 0 then pure manager
  else
    changeVectors (commitVector commitId start (start + count))
      (VersionInfo.vectors start (start + count)) manager

/-- A round of `CleanupAppend`: only vectors that are written to their end are looked at. -/
def cleanupVector (lowestTransaction first last vectorIdx : Nat) :
    Option ChunkInfo → Except String (Option ChunkInfo)
  | none => pure none
  | some info =>
      if (VersionInfo.covered first last vectorIdx).2 ≠ standardVectorSize then pure (some info)
      else if info.cleanup lowestTransaction then pure none
      else pure (some info)

/-- `RowVersionManager::CleanupAppend`. -/
def cleanupAppend (manager : RowVersionManager) (lowestTransaction start count : Nat) :
    Except String RowVersionManager :=
  if count = 0 then pure manager
  else
    changeVectors (cleanupVector lowestTransaction start (start + count))
      (VersionInfo.vectors start (start + count)) manager

/-- `RowVersionManager::RevertAppend`. -/
def revertAppend (manager : RowVersionManager) (startRow : Nat) : RowVersionManager :=
  let kept := (startRow + (standardVectorSize - 1)) / standardVectorSize
  ⟨manager.vectorInfo.take kept ++ List.replicate (manager.vectorInfo.length - kept) none⟩

/-- What `GetVectorInfo` leaves for a vector. -/
def vectorOf : Option ChunkInfo → ChunkVectorInfo
  | none => .create
  | some (.constant insertId _) =>
      { ChunkVectorInfo.create with insertId, inserted := fun _ => insertId }
  | some (.vector info) => info

/-- `RowVersionManager::DeleteRows`. -/
def deleteRows (manager : RowVersionManager) (vectorIdx transactionId : Nat) (rows : List Nat) :
    RowVersionManager × Except String (List Nat) :=
  let filled := manager.fillVectorInfo vectorIdx
  let result := (vectorOf (filled.getChunkInfo vectorIdx)).delete transactionId rows
  (filled.setInfo vectorIdx (some (.vector result.1)), result.2)

/-- `RowVersionManager::CommitDelete`. -/
def commitDelete (manager : RowVersionManager) (commitId : Nat) (info : DeleteInfo) :
    RowVersionManager :=
  let filled := manager.fillVectorInfo info.vectorIdx
  filled.setInfo info.vectorIdx
    (some (.vector ((vectorOf (filled.getChunkInfo info.vectorIdx)).commitDelete commitId info)))

/-! ## One vector at a time -/

variable {manager result : RowVersionManager}

@[simp]
theorem getChunkInfo_fillVectorInfo (manager : RowVersionManager) (vectorIdx other : Nat) :
    (manager.fillVectorInfo vectorIdx).getChunkInfo other = manager.getChunkInfo other := by
  rw [getChunkInfo, getChunkInfo, fillVectorInfo]
  rcases Nat.lt_or_ge other manager.vectorInfo.length with inside | outside
  · rw [List.getElem?_append_left inside]
  · rw [List.getElem?_append_right outside, List.getElem?_replicate,
      List.getElem?_eq_none outside]
    split <;> rfl

theorem length_fillVectorInfo (manager : RowVersionManager) (vectorIdx : Nat) :
    vectorIdx < (manager.fillVectorInfo vectorIdx).vectorInfo.length := by
  rw [fillVectorInfo, List.length_append, List.length_replicate]
  omega

theorem lt_length_of_getChunkInfo {vectorIdx : Nat} {info : ChunkInfo}
    (found : manager.getChunkInfo vectorIdx = some info) :
    vectorIdx < manager.vectorInfo.length := by
  by_contra outside
  rw [getChunkInfo, List.getElem?_eq_none (Nat.le_of_not_lt outside)] at found
  cases found

theorem getChunkInfo_setInfo_ne {vectorIdx other : Nat} (different : other ≠ vectorIdx)
    (info : Option ChunkInfo) :
    (manager.setInfo vectorIdx info).getChunkInfo other = manager.getChunkInfo other := by
  rw [getChunkInfo, getChunkInfo, setInfo, List.getElem?_set_ne different.symm]

theorem getChunkInfo_setInfo_self {vectorIdx : Nat} {info : Option ChunkInfo}
    (fits : vectorIdx < manager.vectorInfo.length ∨ info = none) :
    (manager.setInfo vectorIdx info).getChunkInfo vectorIdx = info := by
  rw [getChunkInfo, setInfo]
  by_cases inside : vectorIdx < manager.vectorInfo.length
  · rw [List.getElem?_set_self inside]
    rfl
  · rw [List.set_eq_of_length_le (Nat.le_of_not_lt inside),
      List.getElem?_eq_none (Nat.le_of_not_lt inside), fits.resolve_left inside]
    rfl

/-- What a loop over vectors does: each of them is changed once, the others are not. -/
theorem changeVectors_spec (manager : RowVersionManager)
    {change : Nat → Option ChunkInfo → Except String (Option ChunkInfo)} {vectors : List Nat}
    (nodup : vectors.Nodup) (changed : Nat → Option ChunkInfo)
    (ok : ∀ vectorIdx ∈ vectors,
      change vectorIdx (manager.getChunkInfo vectorIdx) = .ok (changed vectorIdx))
    (fits : ∀ vectorIdx ∈ vectors,
      vectorIdx < manager.vectorInfo.length ∨ changed vectorIdx = none) :
    ∃ result, changeVectors change vectors manager = .ok result ∧
      ∀ vectorIdx, result.getChunkInfo vectorIdx =
        if vectorIdx ∈ vectors then changed vectorIdx else manager.getChunkInfo vectorIdx := by
  induction vectors generalizing manager with
  | nil => exact ⟨manager, rfl, fun _ => (if_neg List.not_mem_nil).symm⟩
  | cons vectorIdx rest ih =>
      obtain ⟨fresh, nodup⟩ := List.nodup_cons.mp nodup
      have different : ∀ other ∈ rest, other ≠ vectorIdx := fun other member same =>
        fresh (same ▸ member)
      obtain ⟨result, hresult, infos⟩ := ih
        (manager.setInfo vectorIdx (changed vectorIdx)) nodup
        (fun other member => by
          rw [getChunkInfo_setInfo_ne (different other member)]
          exact ok other (List.mem_cons_of_mem _ member))
        (fun other member => by
          rw [setInfo, List.length_set]
          exact fits other (List.mem_cons_of_mem _ member))
      refine ⟨result, ?_, fun other => ?_⟩
      · rw [changeVectors, ok vectorIdx List.mem_cons_self]
        exact hresult
      · rw [infos other]
        by_cases same : other = vectorIdx
        · subst same
          rw [if_neg fresh, if_pos List.mem_cons_self]
          exact getChunkInfo_setInfo_self (fits other List.mem_cons_self)
        · rw [getChunkInfo_setInfo_ne same]
          by_cases later : other ∈ rest
          · rw [if_pos later, if_pos (List.mem_cons_of_mem _ later)]
          · rw [if_neg later, if_neg]
            intro member
            rcases List.mem_cons.mp member with here | there
            · exact same here
            · exact later there

theorem getChunkInfo_revertAppend (manager : RowVersionManager) (startRow vectorIdx : Nat) :
    (manager.revertAppend startRow).getChunkInfo vectorIdx =
      if vectorIdx < (startRow + (standardVectorSize - 1)) / standardVectorSize then
        manager.getChunkInfo vectorIdx
      else none := by
  rw [getChunkInfo, getChunkInfo, revertAppend]
  obtain ⟨kept, hkept⟩ : ∃ kept, kept = (startRow + (standardVectorSize - 1)) / standardVectorSize :=
    ⟨_, rfl⟩
  rw [← hkept]
  dsimp only
  split
  · rename_i below
    rcases Nat.lt_or_ge vectorIdx manager.vectorInfo.length with inside | outside
    · rw [List.getElem?_append_left, List.getElem?_take_of_lt below]
      rw [List.length_take]
      omega
    · rw [List.getElem?_append_right, List.getElem?_replicate, List.getElem?_eq_none outside]
      · split <;> rfl
      · rw [List.length_take]
        omega
  · rename_i above
    rw [List.getElem?_append_right, List.getElem?_replicate]
    · split <;> rfl
    · rw [List.length_take]
      omega

end RowVersionManager

end StatsRecommender
