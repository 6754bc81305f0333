import StatsRecommender.Library.SortedEntries
import StatsRecommender.Storage.RowVersionManager

/-!
# Update segments

The updates of one vector of a column: the newest values in a root entry, and a chain of the
transactions that updated the vector, each with the values that its rows had before.
-/

namespace StatsRecommender

open SortedEntries

variable {T : Type}

/-! ## Versions -/

/-- `UpdateInfo` in the chain of a vector: a version number, and rows with their values. -/
structure ChainedUpdate (T : Type) where
  versionNumber : Nat
  entries : List (Nat × T)
  deriving DecidableEq, Repr

namespace ChainedUpdate

/-- `UpdateInfo::AppliesToTransaction`. -/
def appliesToTransaction (info : ChainedUpdate T) (transaction : TransactionData) : Bool :=
  decide (transaction.startTime < info.versionNumber) &&
    info.versionNumber != transaction.transactionId

/-- `MergeUpdateInfo`: an update of all rows is copied as a whole. -/
def mergeUpdateInfo (info : ChainedUpdate T) (result : Nat → T) : Nat → T :=
  if info.entries.length = standardVectorSize then
    fun row => ((info.entries[row]?).map Prod.snd).getD (result row)
  else
    info.entries.foldl
      (fun result entry => fun row => if row = entry.1 then entry.2 else result row) result

/-- The loop of `TemplatedFetchRow` over the rows of an update. -/
def fetchEntry (row : Nat) (value : T) : List (Nat × T) → T
  | [] => value
  | entry :: entries =>
      if entry.1 = row then entry.2
      else if row < entry.1 then value
      else fetchEntry row value entries

end ChainedUpdate

/-- The updates of a vector; the chain starts at its newest transaction. -/
structure VectorUpdates (T : Type) where
  root : Option (ChainedUpdate T)
  chain : List (ChainedUpdate T)

namespace VectorUpdates

def empty : VectorUpdates T := ⟨none, []⟩

/-- `UpdateInfo::UpdatesForTransaction`. -/
def updatesForTransaction (updates : VectorUpdates T) (transaction : TransactionData) :
    List (ChainedUpdate T) :=
  match updates.root with
  | none => []
  | some root => (root :: updates.chain).filter fun info => info.appliesToTransaction transaction

/-- `UpdateSegment::FetchUpdates`. -/
def fetchUpdates (updates : VectorUpdates T) (transaction : TransactionData) (result : Nat → T) :
    Nat → T :=
  (updates.updatesForTransaction transaction).foldl (fun result info => info.mergeUpdateInfo result)
    result

/-- `UpdateSegment::FetchRow`. -/
def fetchRow (updates : VectorUpdates T) (transaction : TransactionData) (row : Nat) (value : T) :
    T :=
  (updates.updatesForTransaction transaction).foldl
    (fun value info => ChainedUpdate.fetchEntry row value info.entries) value

/-- `UpdateSegment::FetchCommitted`. -/
def fetchCommitted (updates : VectorUpdates T) (result : Nat → T) : Nat → T :=
  match updates.root with
  | none => result
  | some root => root.mergeUpdateInfo result

/-- `UpdateSegment::HasUncommittedUpdates`; versions that are not cleaned up count as well. -/
def hasUncommittedUpdates (updates : VectorUpdates T) : Bool :=
  updates.root.isSome && !updates.chain.isEmpty

/-! ## Preparing an update -/

/-- `std::sort` by the rows; where rows are equal, it leaves the order open. -/
structure RowSort (T : Type) where
  sort : List (Nat × T) → List (Nat × T)
  perm : ∀ entries, (sort entries).Perm entries
  sorted : ∀ entries, (sort entries).Pairwise fun first second => first.1 ≤ second.1

/-- Updates to NULL are left to the validity of the column. -/
def filterNulls (given : List (Nat × Option T)) : List (Nat × T) :=
  given.filterMap fun entry => entry.2.map fun value => (entry.1, value)

/-- Whether rows come in order, each of them once. -/
def isSorted : List (Nat × T) → Bool
  | first :: second :: rest => decide (first.1 < second.1) && isSorted (second :: rest)
  | _ => true

/-- The entries whose row is not the one in front of them. -/
def eliminateDuplicates (previous : Nat) : List (Nat × T) → List (Nat × T)
  | [] => []
  | entry :: entries =>
      if previous ≠ entry.1 then entry :: eliminateDuplicates entry.1 entries
      else eliminateDuplicates entry.1 entries

/-- `SortSelectionVector`. -/
def sortSelectionVector (sort : RowSort T) (given : List (Nat × T)) : List (Nat × T) :=
  if isSorted given then given
  else
    match sort.sort given with
    | [] => []
    | first :: rest => first :: eliminateDuplicates first.1 rest

/-- The vector below the updates; what is not valid in it has no value to speak of. -/
structure BaseVector (T : Type) where
  data : Nat → T
  valid : Nat → Bool
  /-- What the memory of a version holds before it is written. -/
  uninitialized : Nat → T

/-- `GetEffectiveUpdates`: updates that change a row. -/
def getEffectiveUpdates [DecidableEq T] (base : BaseVector T) (given : List (Nat × T)) :
    List (Nat × T) :=
  given.filter fun entry => !(base.valid entry.1 && decide (entry.2 = base.data entry.1))

/-- The updates that are made, in the order of their rows. -/
def effectiveUpdates [DecidableEq T] (sort : RowSort T) (base : BaseVector T)
    (updates : VectorUpdates T) (given : List (Nat × Option T)) : List (Nat × T) :=
  let sorted := sortSelectionVector sort (filterNulls given)
  if updates.root.isNone then getEffectiveUpdates base sorted else sorted

/-! ## Updating -/

/--
`CheckForConflicts`, from some place of the chain on, with the place of the version that belongs to
the transaction.
-/
def checkForConflicts (transaction : TransactionData) (rows : List Nat) :
    Nat → Option Nat → List (ChainedUpdate T) → Except String (Option Nat)
  | _, nodeRef, [] => pure nodeRef
  | place, nodeRef, info :: chain =>
      if info.versionNumber = transaction.transactionId then
        checkForConflicts transaction rows (place + 1) (some place) chain
      else if transaction.startTime < info.versionNumber &&
          meets rows (info.entries.map Prod.fst) then
        throw "Conflict on update!"
      else checkForConflicts transaction rows (place + 1) nodeRef chain

/-- `InitializeUpdateData`: the values in front of a first update. -/
def initializeUpdate (base : BaseVector T) (rows : List (Nat × T)) : List (Nat × T) :=
  rows.map fun entry =>
    (entry.1, if base.valid entry.1 then base.data entry.1 else base.uninitialized entry.1)

/-- The first loop of `MergeUpdateLoopInternal`: old values that the transaction has to keep. -/
def mergeOldValues (base : BaseVector T) :
    List Nat → List (Nat × T) → List (Nat × T) → List (Nat × T)
  | [], updateInfo, _ => updateInfo
  | updateId :: rows, updateInfo, baseInfo =>
      let front := before updateId updateInfo
      let updateInfo := startingAt updateId updateInfo
      match first updateId updateInfo with
      | some value =>
          -- the transaction has updated the row before
          front ++ (updateId, value) :: mergeOldValues base rows (updateInfo.drop 1) baseInfo
      | none =>
          let baseInfo := startingAt updateId baseInfo
          let value := (first updateId baseInfo).getD (base.data updateId)
          front ++ (updateId, value) :: mergeOldValues base rows updateInfo baseInfo

/-- `MergeLoop`, as `MergeUpdateLoopInternal` calls it. -/
def mergeLoop (rows baseInfo : List (Nat × T)) : List (Nat × T) := merge rows baseInfo

/-- The rows go to the root, and the values they had to the version of the transaction. -/
def mergeUpdate (base : BaseVector T) (transaction : TransactionData) (rows : List (Nat × T))
    (root : ChainedUpdate T) (chain : List (ChainedUpdate T)) (nodeRef : Option Nat) :
    VectorUpdates T :=
  -- a transaction without a version gets an empty one
  let opened := if nodeRef.isNone then ⟨transaction.transactionId, []⟩ :: chain else chain
  { root := some { root with entries := mergeLoop rows root.entries }
    chain := opened.modify (nodeRef.getD 0) fun node =>
      { node with entries := mergeOldValues base (rows.map Prod.fst) node.entries root.entries } }

/-- `UpdateSegment::Update`. -/
def update [DecidableEq T] (sort : RowSort T) (base : BaseVector T) (transaction : TransactionData)
    (given : List (Nat × Option T)) (updates : VectorUpdates T) :
    Except String (VectorUpdates T) :=
  let rows := updates.effectiveUpdates sort base given
  if rows.isEmpty then pure updates
  else
    match updates.root with
    | none =>
        pure ⟨some ⟨transactionIdStart - 1, rows⟩,
          [⟨transaction.transactionId, initializeUpdate base rows⟩]⟩
    | some root => do
        let nodeRef ← checkForConflicts transaction (rows.map Prod.fst) 0 none updates.chain
        pure (mergeUpdate base transaction rows root updates.chain nodeRef)

/-! ## Undoing and forgetting -/

/-- The loop of `RollbackUpdate`: old values are moved back to the rows they belong to. -/
def rollbackValues : List (Nat × T) → List (Nat × T) → List (Nat × T)
  | [], baseInfo => baseInfo
  | entry :: rollback, baseInfo =>
      before entry.1 baseInfo ++
        match startingAt entry.1 baseInfo with
        | [] => []
        | found :: behind => rollbackValues rollback ((found.1, entry.2) :: behind)

/-- `UpdateSegment::CleanupUpdate` of a place in the chain. -/
def cleanupUpdate (place : Nat) (updates : VectorUpdates T) : VectorUpdates T :=
  { updates with chain := updates.chain.eraseIdx place }

/-- `UpdateSegment::RollbackUpdate` of a place in the chain. -/
def rollbackUpdate (place : Nat) (updates : VectorUpdates T) : VectorUpdates T :=
  match updates.root, updates.chain[place]? with
  | some root, some info =>
      cleanupUpdate place
        { updates with
          root := some { root with entries := rollbackValues info.entries root.entries } }
  | _, _ => updates

/-- `CommitState::CommitEntry` of a version in the undo buffer. -/
def commitUpdate (place commitId : Nat) (updates : VectorUpdates T) : VectorUpdates T :=
  { updates with
    chain := updates.chain.modify place fun info => { info with versionNumber := commitId } }

/-- The place of a transaction's version. -/
def placeOf (updates : VectorUpdates T) (transactionId : Nat) : Option Nat :=
  updates.chain.findIdx? fun info => info.versionNumber == transactionId

/-- A transaction commits its version, if it has one. -/
def commitTransaction (transactionId commitId : Nat) (updates : VectorUpdates T) :
    VectorUpdates T :=
  match updates.placeOf transactionId with
  | none => updates
  | some place => updates.commitUpdate place commitId

/-- A transaction rolls its version back, if it has one. -/
def rollbackTransaction (transactionId : Nat) (updates : VectorUpdates T) : VectorUpdates T :=
  match updates.placeOf transactionId with
  | none => updates
  | some place => updates.rollbackUpdate place

end VectorUpdates

end StatsRecommender
