import StatsRecommender.Storage.RowVersionManager
import StatsRecommender.Library.Transition

/-!
# Which rows a transaction sees

Transactions append, delete, commit, roll back and clean up rows of one row group in any
interleaving.  The version information shows each of them its snapshot of the rows.
-/

namespace StatsRecommender

/-- What became of a change: its transaction is under way, or it was committed. -/
inductive Stamp where
  | uncommitted (transactionId : Nat)
  | committed (commitId : Nat)
  deriving DecidableEq, Repr

namespace Stamp

/-- The change is the transaction's own or was committed before its start. -/
def visibleTo (transaction : TransactionData) : Stamp → Bool
  | uncommitted transactionId => transactionId == transaction.transactionId
  | committed commitId => decide (commitId < transaction.startTime)

/-- The id that stands for the change. -/
def id : Stamp → Nat
  | uncommitted transactionId => transactionId
  | committed commitId => commitId

end Stamp

/-- A row with its insertion and, if there is one, its deletion. -/
structure RowVersion where
  inserted : Stamp
  deleted : Option Stamp
  deriving DecidableEq, Repr

namespace RowVersion

/-- The row's insertion is visible to the transaction, and its deletion is not. -/
def visibleTo (transaction : TransactionData) (row : RowVersion) : Bool :=
  row.inserted.visibleTo transaction && !row.deleted.any (Stamp.visibleTo transaction)

def deletedId (row : RowVersion) : Nat := (row.deleted.map Stamp.id).getD notDeletedId

end RowVersion

/-- A transaction under way; it has a commit id from the start of its commit on. -/
structure ActiveTransaction where
  data : TransactionData
  commitId : Option Nat
  deriving DecidableEq, Repr

/-- An append that is neither committed nor reverted. -/
structure PendingAppend where
  transactionId : Nat
  start : Nat
  count : Nat
  deriving DecidableEq, Repr

/-- Deletes that are neither committed nor rolled back. -/
structure PendingDelete where
  transactionId : Nat
  info : DeleteInfo
  deriving DecidableEq, Repr

/-- The rows of a row group, their version information, and the transactions at work. -/
structure VersionedRows where
  manager : RowVersionManager
  rows : List RowVersion
  active : List ActiveTransaction
  appends : List PendingAppend
  deletes : List PendingDelete
  clock : Nat
  nextId : Nat

/-- The operations; pending appends and deletes are named by their position. -/
inductive RowVersionOperation where
  | startTransaction
  | appendVersionInfo (transactionId count : Nat)
  | startCommit (transactionId : Nat)
  | commitAppend (position : Nat)
  | deleteRows (transactionId vectorIdx : Nat) (rows : List Nat)
  | commitDelete (position : Nat)
  | cleanupAppend (lowestTransaction start count : Nat)
  | revertAppend (transactionId : Nat)
  | finishTransaction (transactionId : Nat)

/-- Rows with the positions of some of them changed; `first` is the position of the first row. -/
def changeFrom (first : Nat) (positions : List Nat) (change : RowVersion → RowVersion) :
    List RowVersion → List RowVersion
  | [] => []
  | row :: rest =>
      (if first ∈ positions then change row else row) :: changeFrom (first + 1) positions change rest

def changeRows (rows : List RowVersion) (positions : List Nat) (change : RowVersion → RowVersion) :
    List RowVersion :=
  changeFrom 0 positions change rows

namespace VersionedRows

/-- Rows that were there before, with an empty version manager. -/
def initial (count : Nat) : VersionedRows where
  manager := ⟨[]⟩
  rows := List.replicate count ⟨.committed 0, none⟩
  active := []
  appends := []
  deletes := []
  clock := 2
  nextId := transactionIdStart

/-- The transaction with this id. -/
def transaction (state : VersionedRows) (transactionId : Nat) : Option ActiveTransaction :=
  state.active.find? fun active => active.data.transactionId == transactionId

/-- The commit id of a transaction that is committing. -/
def commitIdOf (state : VersionedRows) (transactionId : Nat) : Option Nat :=
  (state.transaction transactionId).bind ActiveTransaction.commitId

/-- The rows of a vector, by their positions in the row group. -/
def positions (vectorIdx : Nat) (rows : List Nat) : List Nat :=
  rows.map fun row => vectorIdx * standardVectorSize + row

/-- One operation; a conflict of `DeleteRows` leaves all rows as they were. -/
def step (state : VersionedRows) : RowVersionOperation → Except String VersionedRows
  | .startTransaction =>
      pure
        { state with
          active := state.active ++ [⟨⟨state.clock, state.nextId⟩, none⟩]
          clock := state.clock + 1
          nextId := state.nextId + 1 }
  | .appendVersionInfo transactionId count => do
      let manager ← state.manager.appendVersionInfo transactionId state.rows.length
        (state.rows.length + count)
      pure
        { state with
          manager
          rows := state.rows ++ List.replicate count ⟨.uncommitted transactionId, none⟩
          appends := state.appends ++ [⟨transactionId, state.rows.length, count⟩] }
  | .startCommit transactionId =>
      pure
        { state with
          active := state.active.map fun active =>
            if active.data.transactionId = transactionId then
              { active with commitId := some state.clock }
            else active
          clock := state.clock + 1 }
  | .commitAppend position =>
      match state.appends[position]? with
      | none => pure state
      | some pending =>
          match state.commitIdOf pending.transactionId with
          | none => pure state
          | some commitId => do
              let manager ← state.manager.commitAppend commitId pending.start pending.count
              pure
                { state with
                  manager
                  rows := changeRows state.rows (List.range' pending.start pending.count)
                    fun row => { row with inserted := .committed commitId }
                  appends := state.appends.eraseIdx position }
  | .deleteRows transactionId vectorIdx rows =>
      let deleted := state.manager.deleteRows vectorIdx transactionId rows
      match deleted.2 with
      | .error _ => pure { state with manager := deleted.1 }
      | .ok rows =>
          pure
            { state with
              manager := deleted.1
              rows := changeRows state.rows (positions vectorIdx rows)
                fun row => { row with deleted := some (.uncommitted transactionId) }
              deletes := state.deletes ++ [⟨transactionId, .push vectorIdx rows⟩] }
  | .commitDelete position =>
      match state.deletes[position]? with
      | none => pure state
      | some pending =>
          -- a transaction that is not committing rolls back
          let commitId := state.commitIdOf pending.transactionId
          pure
            { state with
              manager := state.manager.commitDelete (commitId.getD notDeletedId) pending.info
              rows := changeRows state.rows
                (positions pending.info.vectorIdx pending.info.deletedRows)
                fun row => { row with deleted := commitId.map Stamp.committed }
              deletes := state.deletes.eraseIdx position }
  | .cleanupAppend lowestTransaction start count => do
      let manager ← state.manager.cleanupAppend lowestTransaction start count
      pure { state with manager }
  | .revertAppend transactionId =>
      match state.appends.getLast? with
      | none => pure state
      | some pending =>
          if pending.transactionId = transactionId then
            pure
              { state with
                manager := state.manager.revertAppend pending.start
                rows := state.rows.take pending.start
                appends := state.appends.dropLast }
          else pure state
  | .finishTransaction transactionId =>
      pure
        { state with
          active := state.active.filter fun active => active.data.transactionId ≠ transactionId }

/-- The transaction reads and writes: it is under way and not yet committing. -/
def Running (state : VersionedRows) (data : TransactionData) : Prop := ⟨data, none⟩ ∈ state.active

/-- The operations as transactions use them. -/
def Permitted (state : VersionedRows) : RowVersionOperation → Prop
  -- a transaction starts while no commit is under way, and times end where ids begin
  | .startTransaction => (∀ active ∈ state.active, active.commitId = none) ∧
      state.clock + 1 < transactionIdStart ∧ state.nextId + 1 < notDeletedId
  | .appendVersionInfo transactionId count =>
      0 < count ∧ ∃ data, state.Running data ∧ data.transactionId = transactionId
  | .startCommit transactionId => state.clock + 1 < transactionIdStart ∧
      ∃ data, state.Running data ∧ data.transactionId = transactionId
  | .commitAppend _ => True
  | .deleteRows transactionId vectorIdx rows =>
      ∃ data, state.Running data ∧ data.transactionId = transactionId ∧
        rows ≠ [] ∧ ∀ row ∈ rows, row < standardVectorSize ∧
          ∃ version, state.rows[vectorIdx * standardVectorSize + row]? = some version ∧
            version.visibleTo data = true
  | .commitDelete _ => True
  | .cleanupAppend lowestTransaction start count => lowestTransaction ≤ transactionIdStart ∧
      start + count ≤ state.rows.length ∧
      ∀ active ∈ state.active, lowestTransaction ≤ active.data.startTime
  -- the last append is reverted, by its transaction, which has undone its deletes of the rows
  | .revertAppend transactionId => ∀ pending, state.appends.getLast? = some pending →
      pending.transactionId = transactionId →
        pending.start + pending.count = state.rows.length ∧
        state.commitIdOf transactionId = none ∧
        (∀ row ∈ state.rows.drop pending.start, row.deleted = none) ∧
        ∀ delete ∈ state.deletes,
          ∀ position ∈ positions delete.info.vectorIdx delete.info.deletedRows,
            position < pending.start
  | .finishTransaction transactionId =>
      (∀ pending ∈ state.appends, pending.transactionId ≠ transactionId) ∧
        ∀ pending ∈ state.deletes, pending.transactionId ≠ transactionId

/--
A transaction starts its commit after the others with pending appends in front of its own.  As
`DuckTransactionManager` commits, no other append comes between an append and its commit.
-/
def CommittedInOrder (state : VersionedRows) : RowVersionOperation → Prop
  | .startCommit transactionId =>
      ∀ own ∈ state.appends, own.transactionId = transactionId →
        ∀ other ∈ state.appends, other.start < own.start →
          other.transactionId = transactionId ∨
            (state.commitIdOf other.transactionId).isSome = true
  | _ => True

/-- Every transaction under way is shown its snapshot, vector by vector and row by row. -/
def SnapshotsShown (state : VersionedRows) : Prop :=
  ∀ data, state.Running data →
    ∀ position row, state.rows[position]? = some row →
      (state.manager.fetch data position = true ↔ row.visibleTo data = true) ∧
      ∀ maxCount, maxCount ≤ standardVectorSize →
        position / standardVectorSize * standardVectorSize + maxCount ≤ state.rows.length →
        position % standardVectorSize < maxCount →
          (position % standardVectorSize ∈
              state.manager.getSelVector data (position / standardVectorSize) maxCount ↔
            row.visibleTo data = true)

/-! ## Checking runs -/

/-- A transaction under way is found among the active ones. -/
theorem exists_running_iff {state : VersionedRows} {p : TransactionData → Prop} :
    (∃ data, state.Running data ∧ p data) ↔
      ∃ other ∈ state.active, other.commitId = none ∧ p other.data := by
  constructor
  · rintro ⟨data, running, holds⟩
    exact ⟨⟨data, none⟩, running, rfl, holds⟩
  · rintro ⟨⟨data, _⟩, member, rfl, holds⟩
    exact ⟨data, member, holds⟩

instance decidableExistsRunning (state : VersionedRows) (p : TransactionData → Prop)
    [DecidablePred p] : Decidable (∃ data, state.Running data ∧ p data) :=
  decidable_of_iff _ exists_running_iff.symm

instance decidableSomeRow (rows : List RowVersion) (position : Nat) (p : RowVersion → Prop)
    [DecidablePred p] : Decidable (∃ row, rows[position]? = some row ∧ p row) :=
  match rows[position]? with
  | none => .isFalse fun ⟨_, found, _⟩ => nomatch found
  | some row => decidable_of_iff (p row)
      ⟨fun holds => ⟨row, rfl, holds⟩, fun ⟨_, found, holds⟩ => Option.some.inj found ▸ holds⟩

instance decidableForSome {α : Type} (found : Option α) (p : α → Prop) [DecidablePred p] :
    Decidable (∀ value, found = some value → p value) :=
  match found with
  | none => .isTrue fun _ impossible => nomatch impossible
  | some value => decidable_of_iff (p value)
      ⟨fun holds _ equal => Option.some.inj equal ▸ holds, fun all => all value rfl⟩

instance decidablePermitted (state : VersionedRows) : DecidablePred state.Permitted
  | .startTransaction => inferInstanceAs (Decidable (_ ∧ _ ∧ _))
  | .appendVersionInfo transactionId count => inferInstanceAs (Decidable (0 < count ∧
      ∃ data, state.Running data ∧ data.transactionId = transactionId))
  | .startCommit transactionId => inferInstanceAs (Decidable (state.clock + 1 < transactionIdStart ∧
      ∃ data, state.Running data ∧ data.transactionId = transactionId))
  | .commitAppend _ => inferInstanceAs (Decidable True)
  | .deleteRows transactionId vectorIdx rows =>
      inferInstanceAs (Decidable (∃ data, state.Running data ∧
        data.transactionId = transactionId ∧ rows ≠ [] ∧ ∀ row ∈ rows, row < standardVectorSize ∧
          ∃ version, state.rows[vectorIdx * standardVectorSize + row]? = some version ∧
            version.visibleTo data = true))
  | .commitDelete _ => inferInstanceAs (Decidable True)
  | .cleanupAppend _ _ _ => inferInstanceAs (Decidable (_ ∧ _ ∧ _))
  | .revertAppend transactionId => inferInstanceAs (Decidable (∀ pending,
      state.appends.getLast? = some pending → pending.transactionId = transactionId →
        pending.start + pending.count = state.rows.length ∧
        state.commitIdOf transactionId = none ∧
        (∀ row ∈ state.rows.drop pending.start, row.deleted = none) ∧
        ∀ delete ∈ state.deletes,
          ∀ position ∈ positions delete.info.vectorIdx delete.info.deletedRows,
            position < pending.start))
  | .finishTransaction _ => inferInstanceAs (Decidable (_ ∧ _))

instance decidableCommittedInOrder (state : VersionedRows) : DecidablePred state.CommittedInOrder
  | .startTransaction | .appendVersionInfo _ _ | .cleanupAppend _ _ _ | .commitAppend _
  | .deleteRows _ _ _ | .commitDelete _ | .revertAppend _ | .finishTransaction _ => .isTrue trivial
  | .startCommit transactionId => inferInstanceAs (Decidable (∀ own ∈ state.appends,
      own.transactionId = transactionId → ∀ other ∈ state.appends, other.start < own.start →
        other.transactionId = transactionId ∨
          (state.commitIdOf other.transactionId).isSome = true))

/-! ## What the ids stand for -/

/-- Every transaction, now and later, sees the change. -/
def Settled (active : List ActiveTransaction) (stamp : Stamp) : Prop :=
  ∃ commitId, stamp = .committed commitId ∧ ∀ other ∈ active, commitId < other.data.startTime

/--
The id is read as the change is: it stands for the change, or the change is settled, or its
transaction is committing under this id.
-/
inductive Represents (active : List ActiveTransaction) : Nat → Stamp → Prop
  | exact (stamp : Stamp) : Represents active stamp.id stamp
  | settled {stamp : Stamp} (settled : Settled active stamp) : Represents active 0 stamp
  | committing {other : ActiveTransaction} {commitId : Nat} (member : other ∈ active)
      (committing : other.commitId = some commitId) :
      Represents active commitId (.uncommitted other.data.transactionId)

/-- The rows of a vector, with their places in it. -/
def InVector (rows : List RowVersion) (vectorIdx place : Nat) (row : RowVersion) : Prop :=
  place < standardVectorSize ∧ rows[vectorIdx * standardVectorSize + place]? = some row

/-- What the ids of a `ChunkVectorInfo` say about the rows of its vector. -/
structure VectorShows (rows : List RowVersion) (active : List ActiveTransaction) (vectorIdx : Nat)
    (info : ChunkVectorInfo) : Prop where
  begun : vectorIdx * standardVectorSize < rows.length
  inserted : ∀ place row, InVector rows vectorIdx place row →
    Represents active (info.inserted place) row.inserted
  deleted : ∀ place row, InVector rows vectorIdx place row → info.deleted place = row.deletedId
  same : info.sameInsertedId = true → ∀ place row, InVector rows vectorIdx place row →
    Represents active info.insertId row.inserted
  behind : ∀ place < standardVectorSize, rows.length ≤ vectorIdx * standardVectorSize + place →
    info.deleted place = notDeletedId
  undeleted : info.anyDeleted = false → ∀ place, info.deleted place = notDeletedId

/-- What the information about a vector says about its rows. -/
def Shows (rows : List RowVersion) (active : List ActiveTransaction) (vectorIdx : Nat) :
    Option ChunkInfo → Prop
  | none => ∀ place row, InVector rows vectorIdx place row →
      Settled active row.inserted ∧ row.deleted = none
  | some (.constant insertId deleteId) => deleteId = notDeletedId ∧
      (vectorIdx + 1) * standardVectorSize ≤ rows.length ∧
      ∀ place row, InVector rows vectorIdx place row →
        Represents active insertId row.inserted ∧ row.deleted = none
  | some (.vector info) => VectorShows rows active vectorIdx info

/-- The stamps that changes can have. -/
def Known (state : VersionedRows) : Stamp → Prop
  | .uncommitted transactionId =>
      transactionIdStart ≤ transactionId ∧ transactionId < state.nextId
  | .committed commitId => commitId < state.clock ∧
      ∀ other ∈ state.active, commitId ≠ other.data.startTime

/-- The transactions under way have ids of their own and times before the clock. -/
structure Timed (state : VersionedRows) : Prop where
  clock : 2 ≤ state.clock ∧ state.clock < transactionIdStart
  nextId : transactionIdStart ≤ state.nextId ∧ state.nextId < notDeletedId
  nodup : (state.active.map fun active => active.data.transactionId).Nodup
  active : ∀ active ∈ state.active, 2 ≤ active.data.startTime ∧
    active.data.startTime < state.clock ∧ transactionIdStart ≤ active.data.transactionId ∧
    active.data.transactionId < state.nextId
  committing : ∀ active ∈ state.active, ∀ commitId, active.commitId = some commitId →
    commitId < state.clock ∧ ∀ other ∈ state.active, other.data.startTime < commitId
  known : ∀ row ∈ state.rows, state.Known row.inserted ∧
    ∀ stamp, row.deleted = some stamp → state.Known stamp

/-- A pending append lies in the rows, all of which are its transaction's. -/
structure Pending (state : VersionedRows) (pending : PendingAppend) : Prop where
  count_pos : 0 < pending.count
  inside : pending.start + pending.count ≤ state.rows.length
  rows : ∀ position, pending.start ≤ position → position < pending.start + pending.count →
    ∃ row, state.rows[position]? = some row ∧ row.inserted = .uncommitted pending.transactionId
  active : ∃ active ∈ state.active, active.data.transactionId = pending.transactionId
  constants : ∀ vectorIdx insertId deleteId,
    state.manager.getChunkInfo vectorIdx = some (.constant insertId deleteId) →
      (vectorIdx + 1) * standardVectorSize ≤ pending.start ∨
      pending.start + pending.count ≤ vectorIdx * standardVectorSize ∨
      pending.start ≤ vectorIdx * standardVectorSize ∧
        (vectorIdx + 1) * standardVectorSize ≤ pending.start + pending.count

/-- The rows of pending deletes are marked in the information about their vector. -/
structure Marked (state : VersionedRows) (pending : PendingDelete) : Prop where
  nonempty : pending.info.deletedRows ≠ []
  inside : ∀ place ∈ pending.info.deletedRows, place < standardVectorSize ∧
    pending.info.vectorIdx * standardVectorSize + place < state.rows.length
  info : ∃ info, state.manager.getChunkInfo pending.info.vectorIdx = some (.vector info) ∧
    info.anyDeleted = true

/-- The version information shows the rows, and accounts for all that is pending. -/
structure Consistent (state : VersionedRows) : Prop extends state.Timed where
  shows : ∀ vectorIdx, Shows state.rows state.active vectorIdx (state.manager.getChunkInfo vectorIdx)
  appends : ∀ pending ∈ state.appends, state.Pending pending
  ordered : state.appends.Pairwise fun before after => before.start + before.count ≤ after.start
  covered : ∀ position row, state.rows[position]? = some row →
    ∀ transactionId, row.inserted = .uncommitted transactionId →
      ∃ pending ∈ state.appends, pending.transactionId = transactionId ∧
        pending.start ≤ position ∧ position < pending.start + pending.count
  deletes : ∀ pending ∈ state.deletes, state.Marked pending

/-- When an insertion is committed; `NOT_DELETED_ID` while its transaction is not committing. -/
def insertedAt (state : VersionedRows) : Stamp → Nat
  | .uncommitted transactionId => (state.commitIdOf transactionId).getD notDeletedId
  | .committed commitId => commitId

def insertionTimes (state : VersionedRows) : List Nat :=
  state.rows.map fun row => state.insertedAt row.inserted

/-- Rows further behind are committed no earlier. -/
def InsertedInOrder (state : VersionedRows) : Prop := state.insertionTimes.Pairwise (· ≤ ·)

end VersionedRows

end StatsRecommender
