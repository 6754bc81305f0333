import Mathlib.Data.List.TakeWhile
import StatsRecommender.Library.Transition
import StatsRecommender.Types.Constants

/-!
# The transaction manager

`DuckTransactionManager` hands out timestamps, and takes finished transactions through its lists
until nothing can read what they left behind.
-/

namespace StatsRecommender

/-- The entries of an undo buffer, as far as `UndoBuffer::GetProperties` tells them apart. -/
inductive UndoEntry
  | catalogEntry
  | insertTuple
  | deleteTuple (hasIndexes : Bool)
  | updateTuple
  | sequenceValue
  | attachedDatabase
  deriving DecidableEq, Repr

/-- `UndoBufferProperties`. -/
structure UndoBufferProperties where
  hasUpdates : Bool
  hasIndexDeletes : Bool
  hasCatalogChanges : Bool
  deriving DecidableEq, Repr

/-- `UndoBuffer::GetProperties`. -/
def UndoBufferProperties.of (undoBuffer : List UndoEntry) : UndoBufferProperties where
  hasUpdates := undoBuffer.any fun entry => entry == .updateTuple
  hasIndexDeletes := undoBuffer.any fun entry => entry == .deleteTuple true
  hasCatalogChanges := undoBuffer.any fun entry => entry == .catalogEntry

/--
`DuckTransaction`.  `activeQuery` is `none` for `MAXIMUM_QUERY_ID`; the local storage is the number
of rows that it would append to each of its tables.
-/
structure DuckTransaction where
  startTime : Nat
  transactionId : Nat
  commitId : Nat
  highestActiveQuery : Nat
  activeQuery : Option Nat
  awaitingCleanup : Bool
  undoBuffer : List UndoEntry
  localStorage : List Nat
  deriving DecidableEq, Repr

namespace DuckTransaction

/-- The constructor. -/
def create (startTime transactionId : Nat) : DuckTransaction :=
  ⟨startTime, transactionId, 0, 0, none, false, [], []⟩

/-- `DuckTransaction::ChangesMade`. -/
def changesMade (transaction : DuckTransaction) : Bool :=
  !transaction.undoBuffer.isEmpty || !transaction.localStorage.isEmpty

/-- `LocalStorage::Commit`, as far as it comes: it pushes an append for each table with rows. -/
def flush (transaction : DuckTransaction) (tables : Nat) : DuckTransaction :=
  { transaction with
    undoBuffer := transaction.undoBuffer ++
      ((transaction.localStorage.take tables).filter fun rows => decide (0 < rows)).map
        fun _ => .insertTuple
    localStorage := [] }

/-- `DuckTransaction::Commit` without an error. -/
def commit (transaction : DuckTransaction) (commitId : Nat) : DuckTransaction :=
  { transaction.flush transaction.localStorage.length with commitId }

/-- `DuckTransaction::Rollback`, which keeps the undo buffer. -/
def rollback (transaction : DuckTransaction) : DuckTransaction :=
  { transaction with localStorage := [] }

end DuckTransaction

/-- `DuckCleanupInfo`. -/
structure DuckCleanupInfo where
  lowestStartTime : Nat
  transactions : List DuckTransaction

/-- `DuckTransactionManager`. -/
structure DuckTransactionManager where
  currentStartTimestamp : Nat
  currentTransactionId : Nat
  lowestActiveId : Nat
  lowestActiveStart : Nat
  lastCommit : Nat
  activeTransactions : List DuckTransaction
  recentlyCommittedTransactions : List DuckTransaction
  oldTransactions : List DuckTransaction
  cleanupQueue : List DuckCleanupInfo

/-- The lower of two queries; there is no query for `MAXIMUM_QUERY_ID`. -/
def minQuery : Option Nat → Option Nat → Option Nat
  | none, query => query
  | some lowest, none => some lowest
  | some lowest, some query => some (min lowest query)

variable {transactions : List DuckTransaction} {current : DuckTransaction}

namespace DuckTransactionManager

/-- The constructor. -/
def create : DuckTransactionManager :=
  ⟨2, transactionIdStart, transactionIdStart, maxTransactionId, 0, [], [], [], []⟩

/-- `DuckTransactionManager::StartTransaction`. -/
def startTransaction (manager : DuckTransactionManager) : Except String DuckTransactionManager :=
  if transactionIdStart ≤ manager.currentStartTimestamp then
    throw "Cannot start more transactions, ran out of transaction identifiers!"
  else
    let startTime := manager.currentStartTimestamp
    let transactionId := manager.currentTransactionId
    let manager := { manager with
      currentStartTimestamp := startTime + 1, currentTransactionId := transactionId + 1 }
    let manager :=
      if manager.activeTransactions.isEmpty then
        { manager with lowestActiveStart := startTime, lowestActiveId := transactionId }
      else manager
    pure { manager with
      activeTransactions := manager.activeTransactions ++ [.create startTime transactionId] }

/-- `DuckTransactionManager::GetCommitTimestamp`. -/
def getCommitTimestamp (manager : DuckTransactionManager) : Nat × DuckTransactionManager :=
  (manager.currentStartTimestamp, { manager with
    currentStartTimestamp := manager.currentStartTimestamp + 1
    lastCommit := manager.currentStartTimestamp })

/--
The loop of `RemoveTransaction` over the recently committed transactions: those that await garbage
collection from now on, and those that stay.
-/
def retire (lowestStartTime currentQuery : Nat) :
    List DuckTransaction → List DuckTransaction × List DuckTransaction
  | [] => ([], [])
  | transaction :: rest =>
      if lowestStartTime ≤ transaction.commitId then ([], transaction :: rest)
      else
        let (retired, kept) := retire lowestStartTime currentQuery rest
        ({ transaction with awaitingCleanup := true, highestActiveQuery := currentQuery } :: retired,
          kept)

/-- A query is running that could be using the data of a transaction. -/
def stillUsed (lowestActiveQuery : Option Nat) (transaction : DuckTransaction) : Bool :=
  lowestActiveQuery.any fun query => decide (query ≤ transaction.highestActiveQuery)

/-- `DuckTransactionManager::RemoveTransaction`, for the transaction with the given identifier. -/
def removeTransaction (manager : DuckTransactionManager) (currentQuery transactionId : Nat)
    (storeTransaction : Bool) : Except String (DuckTransactionManager × DuckCleanupInfo) :=
  match manager.activeTransactions.find? fun active => active.transactionId == transactionId with
  | none => throw "the transaction is not active"
  | some current =>
      let others := manager.activeTransactions.filter fun active =>
        active.transactionId != transactionId
      let lowestStartTime :=
        others.foldl (fun lowest active => min lowest active.startTime) transactionIdStart
      let lowestTransactionId :=
        others.foldl (fun lowest active => min lowest active.transactionId) maxTransactionId
      let lowestActiveQuery :=
        others.foldl (fun lowest active => minQuery lowest active.activeQuery) none
      let recentlyCommitted :=
        if storeTransaction && current.commitId != 0 then
          manager.recentlyCommittedTransactions ++ [current]
        else manager.recentlyCommittedTransactions
      let old :=
        if storeTransaction && current.commitId == 0 then
          manager.oldTransactions ++ [{ current with highestActiveQuery := currentQuery }]
        else manager.oldTransactions
      let direct :=
        if !storeTransaction && current.changesMade then [{ current with awaitingCleanup := true }]
        else []
      let (retired, kept) := retire lowestStartTime currentQuery recentlyCommitted
      let old := old ++ retired
      let unused :=
        if others.isEmpty then old
        else old.takeWhile fun transaction => !stillUsed lowestActiveQuery transaction
      pure ({ manager with
        lowestActiveStart := lowestStartTime
        lowestActiveId := lowestTransactionId
        activeTransactions := others
        recentlyCommittedTransactions := kept
        oldTransactions := old.drop unused.length }, ⟨lowestStartTime, direct ++ unused⟩)

/-- `DuckCleanupInfo::ScheduleCleanup`, and the push to the queue. -/
def scheduleCleanup (manager : DuckTransactionManager) (cleanupInfo : DuckCleanupInfo) :
    DuckTransactionManager :=
  if cleanupInfo.transactions.isEmpty then manager
  else { manager with cleanupQueue := manager.cleanupQueue ++ [cleanupInfo] }

/-- Changing an active transaction. -/
def modifyActive (manager : DuckTransactionManager) (transactionId : Nat)
    (modify : DuckTransaction → DuckTransaction) : DuckTransactionManager :=
  { manager with
    activeTransactions := manager.activeTransactions.map fun active =>
      if active.transactionId = transactionId then modify active else active }

/-- Looking up an active transaction. -/
def findActive (manager : DuckTransactionManager) (transactionId : Nat) :
    Except String DuckTransaction :=
  match manager.activeTransactions.find? fun active => active.transactionId == transactionId with
  | none => throw "the transaction is not active"
  | some active => pure active

/-! ## Removing a transaction -/

/-- The identifiers of transactions. -/
def ids (transactions : List DuckTransaction) : List Nat :=
  transactions.map DuckTransaction.transactionId

theorem ids_append (front back : List DuckTransaction) : ids (front ++ back) = ids front ++ ids back :=
  List.map_append

/-- A transaction that is to be cleaned up once no current query runs. -/
def awaitCleanup (currentQuery : Nat) (transaction : DuckTransaction) : DuckTransaction :=
  { transaction with awaitingCleanup := true, highestActiveQuery := currentQuery }

/-- Retired are the transactions before the first one that an active transaction may not see. -/
theorem retire_eq (lowestStartTime currentQuery : Nat) (transactions : List DuckTransaction) :
    retire lowestStartTime currentQuery transactions =
      ((transactions.takeWhile fun transaction => decide (transaction.commitId < lowestStartTime)).map
          (awaitCleanup currentQuery),
        transactions.dropWhile fun transaction => decide (transaction.commitId < lowestStartTime)) := by
  induction transactions with
  | nil => rfl
  | cons transaction rest ih =>
      rw [retire]
      by_cases seen : lowestStartTime ≤ transaction.commitId
      · simp [seen, Nat.not_lt.mpr seen]
      · simp [seen, Nat.lt_of_not_le seen, ih, awaitCleanup]

theorem foldl_min_le (value : DuckTransaction → Nat) (transactions : List DuckTransaction)
    (lowest : Nat) :
    transactions.foldl (fun lowest active => min lowest (value active)) lowest ≤ lowest ∧
      ∀ active ∈ transactions,
        transactions.foldl (fun lowest active => min lowest (value active)) lowest ≤ value active := by
  induction transactions generalizing lowest with
  | nil => simp
  | cons transaction rest ih =>
      obtain ⟨below, all⟩ := ih (min lowest (value transaction))
      simp only [List.foldl_cons, List.forall_mem_cons]
      exact ⟨below.trans (Nat.min_le_left _ _), below.trans (Nat.min_le_right _ _), all⟩

/-- A minimum is the start value or one of the values. -/
theorem foldl_min_mem (value : DuckTransaction → Nat) (transactions : List DuckTransaction)
    (lowest : Nat) :
    transactions.foldl (fun lowest active => min lowest (value active)) lowest = lowest ∨
      ∃ active ∈ transactions, value active =
        transactions.foldl (fun lowest active => min lowest (value active)) lowest := by
  induction transactions generalizing lowest with
  | nil => simp
  | cons transaction rest ih =>
      rw [List.foldl_cons]
      rcases ih (min lowest (value transaction)) with start | ⟨active, member, found⟩
      · rw [start]
        rcases Nat.le_total lowest (value transaction) with le | le
        · exact Or.inl (Nat.min_eq_left le)
        · exact Or.inr ⟨transaction, List.mem_cons_self, (Nat.min_eq_right le).symm⟩
      · exact Or.inr ⟨active, List.mem_cons_of_mem _ member, found⟩

/-- Below the values, the minimum is the least of them. -/
theorem isLeast_foldl_min (value : DuckTransaction → Nat) (nonempty : transactions ≠ [])
    (lowest : Nat) (bounded : ∀ active ∈ transactions, value active ≤ lowest) :
    IsLeast {least | ∃ active ∈ transactions, value active = least}
      (transactions.foldl (fun lowest active => min lowest (value active)) lowest) := by
  obtain ⟨-, all⟩ := foldl_min_le value transactions lowest
  constructor
  · rcases foldl_min_mem value transactions lowest with start | found
    · obtain ⟨active, member⟩ := List.exists_mem_of_ne_nil _ nonempty
      refine ⟨active, member, Nat.le_antisymm ?_ (all active member)⟩
      rw [start]
      exact bounded active member
    · exact found
  · rintro _ ⟨active, member, rfl⟩
    exact all active member

/-- No active query is below the lowest one. -/
theorem foldl_minQuery_le (transactions : List DuckTransaction) (lowest : Option Nat) :
    (∀ query, lowest = some query → ∃ least,
      transactions.foldl (fun lowest active => minQuery lowest active.activeQuery) lowest = some least ∧
        least ≤ query) ∧
    ∀ active ∈ transactions, ∀ query, active.activeQuery = some query → ∃ least,
      transactions.foldl (fun lowest active => minQuery lowest active.activeQuery) lowest = some least ∧
        least ≤ query := by
  induction transactions generalizing lowest with
  | nil => exact ⟨fun query known => ⟨query, known, Nat.le_refl query⟩, fun _ member => by cases member⟩
  | cons transaction rest ih =>
      obtain ⟨below, all⟩ := ih (minQuery lowest transaction.activeQuery)
      simp only [List.foldl_cons, List.forall_mem_cons]
      refine ⟨fun query known => ?_, fun query known => ?_, all⟩
      · cases running : transaction.activeQuery with
        | none =>
            rw [known] at below ⊢
            rw [running] at below
            exact below query rfl
        | some other =>
            rw [known] at below ⊢
            rw [running] at below
            obtain ⟨least, found, le⟩ := below _ rfl
            exact ⟨least, found, le.trans (Nat.min_le_left _ _)⟩
      · cases lowest with
        | none =>
            rw [known] at below ⊢
            exact below query rfl
        | some other =>
            rw [known] at below ⊢
            obtain ⟨least, found, le⟩ := below _ rfl
            exact ⟨least, found, le.trans (Nat.min_le_right _ _)⟩

/-- A transaction that nothing uses is behind every query that runs. -/
theorem lt_of_not_stillUsed {transaction : DuckTransaction} (unused : stillUsed (transactions.foldl
      (fun lowest active => minQuery lowest active.activeQuery) none) transaction = false)
    {active : DuckTransaction} (member : active ∈ transactions) {query : Nat}
    (running : active.activeQuery = some query) : transaction.highestActiveQuery < query := by
  obtain ⟨least, found, le⟩ := (foldl_minQuery_le transactions none).2 active member query running
  rw [found, stillUsed, Option.any_some, decide_eq_false_iff_not, Nat.not_le] at unused
  exact Nat.lt_of_lt_of_le unused le

/-- Where a transaction that waits for garbage collection, or is cleaned up, comes from. -/
inductive Waiting (manager : DuckTransactionManager) (currentQuery : Nat) (current : DuckTransaction)
    (storeTransaction : Bool) (lowestStartTime : Nat) (transaction : DuckTransaction) : Prop
  | old (member : transaction ∈ manager.oldTransactions)
  | aborted (stored : storeTransaction = true) (failed : current.commitId = 0)
      (same : transaction = { current with highestActiveQuery := currentQuery })
  | retired (committed : DuckTransaction)
      (member : committed ∈ manager.recentlyCommittedTransactions ∨
        storeTransaction = true ∧ current.commitId ≠ 0 ∧ committed = current)
      (seen : committed.commitId < lowestStartTime)
      (same : transaction = awaitCleanup currentQuery committed)

/-- What `RemoveTransaction` does to the lists. -/
structure Removed (manager : DuckTransactionManager) (currentQuery : Nat) (current : DuckTransaction)
    (storeTransaction : Bool) (next : DuckTransactionManager) (cleanupInfo : DuckCleanupInfo) :
    Prop where
  currentStartTimestamp : next.currentStartTimestamp = manager.currentStartTimestamp
  currentTransactionId : next.currentTransactionId = manager.currentTransactionId
  cleanupQueue : next.cleanupQueue = manager.cleanupQueue
  active : next.activeTransactions = manager.activeTransactions.filter fun active =>
    active.transactionId != current.transactionId
  lowestStart : next.lowestActiveStart = next.activeTransactions.foldl
    (fun lowest active => min lowest active.startTime) transactionIdStart
  lowestId : next.lowestActiveId = next.activeTransactions.foldl
    (fun lowest active => min lowest active.transactionId) maxTransactionId
  ids_perm : (ids (next.recentlyCommittedTransactions ++
      (next.oldTransactions ++ cleanupInfo.transactions))).Perm
    (ids (manager.recentlyCommittedTransactions ++ manager.oldTransactions) ++
      if storeTransaction || current.changesMade then [current.transactionId] else [])
  recent : next.recentlyCommittedTransactions = (manager.recentlyCommittedTransactions ++
    if storeTransaction && current.commitId != 0 then [current] else []).dropWhile
      fun transaction => decide (transaction.commitId < next.lowestActiveStart)
  waiting : ∀ transaction ∈ next.oldTransactions,
    Waiting manager currentQuery current storeTransaction next.lowestActiveStart transaction
  cleaned : ∀ transaction ∈ cleanupInfo.transactions,
    storeTransaction = false ∧ transaction = { current with awaitingCleanup := true } ∨
    Waiting manager currentQuery current storeTransaction next.lowestActiveStart transaction ∧
      ∀ active ∈ next.activeTransactions, ∀ query, active.activeQuery = some query →
        transaction.highestActiveQuery < query
  emptied : next.activeTransactions = [] → next.oldTransactions = []

theorem find?_of_nodup (nodup : (ids transactions).Nodup) (member : current ∈ transactions) :
    transactions.find? (fun active => active.transactionId == current.transactionId) =
      some current := by
  induction transactions with
  | nil => cases member
  | cons transaction rest ih =>
      rw [ids, List.map_cons, List.nodup_cons] at nodup
      rcases List.mem_cons.mp member with rfl | later
      · simp
      · have different : transaction.transactionId ≠ current.transactionId := fun same =>
          nodup.1 (same ▸ List.mem_map_of_mem later)
        rw [List.find?_cons_of_neg (by simpa using different)]
        exact ih nodup.2 later

/-- In the order of commit ids, what is not dropped is not below the limit. -/
theorem le_of_mem_dropWhile {limit : Nat}
    (increasing : transactions.Pairwise fun before after => before.commitId < after.commitId) :
    ∀ transaction ∈ transactions.dropWhile fun transaction => decide (transaction.commitId < limit),
      limit ≤ transaction.commitId := by
  induction transactions with
  | nil => simp
  | cons first rest ih =>
      obtain ⟨before, increasing⟩ := List.pairwise_cons.mp increasing
      by_cases below : first.commitId < limit
      · rw [List.dropWhile_cons_of_pos (by simpa using below)]
        exact ih increasing
      · rw [List.dropWhile_cons_of_neg (by simpa using below)]
        rw [Nat.not_lt] at below
        intro transaction member
        rcases List.mem_cons.mp member with rfl | later
        · exact below
        · exact below.trans (before transaction later).le

/-- `RemoveTransaction` moves the transaction, and those that it kept back, through the lists. -/
theorem removeTransaction_spec (manager : DuckTransactionManager) (currentQuery : Nat)
    (nodup : (ids manager.activeTransactions).Nodup) (member : current ∈ manager.activeTransactions)
    (storeTransaction : Bool) :
    ∃ next cleanupInfo, manager.removeTransaction currentQuery current.transactionId
        storeTransaction = .ok (next, cleanupInfo) ∧
      Removed manager currentQuery current storeTransaction next cleanupInfo := by
  rw [removeTransaction, find?_of_nodup nodup member]
  dsimp only
  rw [retire_eq]
  dsimp only
  obtain ⟨others, hothers⟩ : ∃ others, others = manager.activeTransactions.filter fun active =>
    active.transactionId != current.transactionId := ⟨_, rfl⟩
  rw [← hothers]
  obtain ⟨lowestStartTime, hlowest⟩ : ∃ lowestStartTime, lowestStartTime =
    others.foldl (fun lowest active => min lowest active.startTime) transactionIdStart := ⟨_, rfl⟩
  rw [← hlowest]
  obtain ⟨recent, hrecent⟩ : ∃ recent, recent =
      if storeTransaction && current.commitId != 0 then
        manager.recentlyCommittedTransactions ++ [current]
      else manager.recentlyCommittedTransactions := ⟨_, rfl⟩
  rw [← hrecent]
  obtain ⟨aborted, haborted⟩ : ∃ aborted, aborted =
      if storeTransaction && current.commitId == 0 then
        manager.oldTransactions ++ [{ current with highestActiveQuery := currentQuery }]
      else manager.oldTransactions := ⟨_, rfl⟩
  rw [← haborted]
  obtain ⟨retired, hretired⟩ : ∃ retired, retired =
    (recent.takeWhile fun transaction => decide (transaction.commitId < lowestStartTime)).map
      (awaitCleanup currentQuery) := ⟨_, rfl⟩
  rw [← hretired]
  obtain ⟨unused, hunused⟩ : ∃ unused, unused =
      if others.isEmpty then aborted ++ retired
      else (aborted ++ retired).takeWhile fun transaction => !stillUsed (others.foldl
        (fun lowest active => minQuery lowest active.activeQuery) none) transaction := ⟨_, rfl⟩
  rw [← hunused]
  refine ⟨_, _, rfl, ?_⟩
  have split_old : unused ++ (aborted ++ retired).drop unused.length = aborted ++ retired := by
    apply List.prefix_iff_eq_append.mp
    rw [hunused]
    split
    · exact List.prefix_rfl
    · exact List.takeWhile_prefix _
  have split_recent : (recent.takeWhile fun transaction =>
        decide (transaction.commitId < lowestStartTime)) ++
      (recent.dropWhile fun transaction => decide (transaction.commitId < lowestStartTime)) = recent :=
    List.takeWhile_append_dropWhile
  have mem_recent : ∀ committed ∈ recent, committed ∈ manager.recentlyCommittedTransactions ∨
      storeTransaction = true ∧ current.commitId ≠ 0 ∧ committed = current := by
    intro committed there
    rw [hrecent] at there
    split at there
    · rename_i stored
      simp only [Bool.and_eq_true, bne_iff_ne] at stored
      rcases List.mem_append.mp there with before | last
      · exact Or.inl before
      · exact Or.inr ⟨stored.1, stored.2, List.mem_singleton.mp last⟩
    · exact Or.inl there
  have waits : ∀ transaction ∈ aborted ++ retired,
      Waiting manager currentQuery current storeTransaction lowestStartTime transaction := by
    intro transaction there
    rcases List.mem_append.mp there with inAborted | inRetired
    · rw [haborted] at inAborted
      split at inAborted
      · rename_i failed
        simp only [Bool.and_eq_true, beq_iff_eq] at failed
        rcases List.mem_append.mp inAborted with before | last
        · exact .old before
        · exact .aborted failed.1 failed.2 (List.mem_singleton.mp last)
      · exact .old inAborted
    · rw [hretired] at inRetired
      obtain ⟨committed, before, rfl⟩ := List.mem_map.mp inRetired
      have seen := List.mem_takeWhile_imp before
      exact .retired committed (mem_recent committed ((List.takeWhile_subset _) before))
        (of_decide_eq_true seen) rfl
  constructor
  · rfl
  · rfl
  · rfl
  · exact hothers
  · exact hlowest
  · rfl
  · rw [List.perm_iff_count]
    intro identifier
    have olds := congrArg (fun transactions => (ids transactions).count identifier) split_old
    have recents := congrArg (fun transactions => (ids transactions).count identifier) split_recent
    have retireds : ids retired = ids (recent.takeWhile fun transaction =>
        decide (transaction.commitId < lowestStartTime)) := by
      rw [hretired, ids, ids, List.map_map]
      rfl
    simp only [ids_append, List.count_append, retireds] at olds recents ⊢
    have moved : (ids recent).count identifier + (ids aborted).count identifier +
        (ids (if !storeTransaction && current.changesMade then
          [{ current with awaitingCleanup := true }] else [])).count identifier =
        (ids manager.recentlyCommittedTransactions).count identifier +
          (ids manager.oldTransactions).count identifier +
          (if storeTransaction || current.changesMade then
            [current.transactionId] else []).count identifier := by
      rw [hrecent, haborted]
      cases storeTransaction <;> cases current.changesMade <;>
        by_cases failed : current.commitId = 0 <;>
        simp [failed, ids, List.count_append] <;> omega
    omega
  · change recent.dropWhile _ = _
    rw [hrecent]
    split
    · rfl
    · rw [List.append_nil]
  · intro transaction there
    exact waits transaction (List.mem_of_mem_drop there)
  · intro transaction there
    rcases List.mem_append.mp there with direct | inUnused
    · left
      split at direct
      · rename_i dropped
        simp only [Bool.and_eq_true, Bool.not_eq_true'] at dropped
        exact ⟨dropped.1, List.mem_singleton.mp direct⟩
      · cases direct
    · right
      constructor
      · apply waits
        rw [← split_old]
        exact List.mem_append_left _ inUnused
      · intro active there query running
        rw [hunused] at inUnused
        split at inUnused
        · rename_i empty
          rw [List.isEmpty_iff.mp empty] at there
          cases there
        · have unneeded := List.mem_takeWhile_imp inUnused
          rw [Bool.not_eq_true'] at unneeded
          exact lt_of_not_stillUsed unneeded there running
  · intro empty
    change others = [] at empty
    change (aborted ++ retired).drop unused.length = []
    have all : unused = aborted ++ retired := by
      rw [hunused, empty]
      rfl
    rw [all, List.drop_length]

end DuckTransactionManager

end StatsRecommender
