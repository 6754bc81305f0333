import Mathlib.Data.List.Nodup
import StatsRecommender.Transaction.ManagerRun

/-!
# What the transaction manager keeps

The watermarks of the active transactions, the order of the recently committed ones, and what the
transactions that wait have waited for.
-/

namespace StatsRecommender

variable {manager : DuckTransactionManager} {identifier : Nat} {transaction : DuckTransaction}

open DuckTransactionManager

namespace TransactionSystem

/-- When the active transactions started. -/
def startTimes (system : TransactionSystem) : List Nat :=
  system.manager.activeTransactions.map DuckTransaction.startTime

/-- The identifiers of the active transactions. -/
def activeIds (system : TransactionSystem) : List Nat := ids system.manager.activeTransactions

/-- The invariant of the transaction manager. -/
structure Invariant (system : TransactionSystem) : Prop where
  nodup : (system.activeIds ++ ids system.kept).Nodup
  below : ∀ identifier ∈ system.activeIds ++ ids system.kept,
    identifier < system.manager.currentTransactionId
  bound : system.manager.currentTransactionId + 2 ≤
    transactionIdStart + system.manager.currentStartTimestamp
  starts : ∀ start ∈ system.startTimes,
    start < system.manager.currentStartTimestamp ∧ start ≤ transactionIdStart
  identifiers : ∀ identifier ∈ system.activeIds, identifier ≤ maxTransactionId
  lowestStart : system.startTimes ≠ [] →
    IsLeast {start | start ∈ system.startTimes} system.manager.lowestActiveStart
  lowestId : system.activeIds ≠ [] →
    IsLeast {identifier | identifier ∈ system.activeIds} system.manager.lowestActiveId
  increasing : system.manager.recentlyCommittedTransactions.Pairwise fun before after =>
    before.commitId < after.commitId
  committed : ∀ recent ∈ system.manager.recentlyCommittedTransactions,
    recent.commitId < system.manager.currentStartTimestamp
  passed : ∀ old ∈ system.manager.oldTransactions, old.commitId ≠ 0 →
    old.commitId < system.manager.currentStartTimestamp ∧
      ∀ start ∈ system.startTimes, old.commitId < start
  numbered : ∀ active ∈ system.manager.activeTransactions, ∀ query ∈ active.activeQuery,
    query < system.currentQueryNumber
  noted : ∀ old ∈ system.manager.oldTransactions,
    (∃ retirement ∈ system.retired, retirement.transactionId = old.transactionId) ∧
      ∀ retirement ∈ system.retired, retirement.transactionId = old.transactionId →
        ∀ running ∈ retirement.running, running.2 < old.highestActiveQuery
  retiredKept : ∀ retirement ∈ system.retired,
    retirement.transactionId ∈ ids (system.manager.oldTransactions ++ system.batched)
  accounted : ∀ finished ∈ system.finished,
    finished.transactionId ∉ system.activeIds ∧
      finished.transactionId < system.manager.currentTransactionId ∧
      (finished.changesLeft = true ↔ finished.transactionId ∈ ids system.kept)
  finishedOnce : (system.finished.map FinishedTransaction.transactionId).Nodup

/-- No active transaction has a commit id. -/
def Uncommitted (system : TransactionSystem) : Prop :=
  ∀ active ∈ system.manager.activeTransactions, active.commitId = 0

theorem invariant_start : start.Invariant ∧ start.Uncommitted := by
  constructor
  · constructor <;>
      simp [start, create, kept, batched, ids, transactionIdStart, startTimes, activeIds]
  · simp [Uncommitted, start, create]

variable {system : TransactionSystem}

/-- What is cleaned up has waited, and nothing waits once no transaction is active. -/
structure CleansUp (system next : TransactionSystem) : Prop where
  entered : ∀ transaction ∈ next.batched, transaction.transactionId ∉ ids system.batched →
    transaction.commitId ≠ 0 →
    (∃ finished ∈ next.finished,
      finished.transactionId = transaction.transactionId ∧ finished.stored = true) →
    (∀ active ∈ next.manager.activeTransactions, transaction.commitId < active.startTime) ∧
      (∃ retirement ∈ next.retired, retirement.transactionId = transaction.transactionId) ∧
      ∀ retirement ∈ next.retired, retirement.transactionId = transaction.transactionId →
        ∀ running ∈ retirement.running, ∀ active ∈ next.manager.activeTransactions,
          active.transactionId = running.1 → active.activeQuery ≠ some running.2
  emptied : system.manager.activeTransactions ≠ [] → next.manager.activeTransactions = [] →
    next.manager.oldTransactions = [] ∧
      ∀ recent ∈ next.manager.recentlyCommittedTransactions, transactionIdStart ≤ recent.commitId

/-- A step after which the same transactions are active and the same are in cleanup batches. -/
theorem CleansUp.of_same {next : TransactionSystem}
    (same_active : system.manager.activeTransactions ≠ [] → next.manager.activeTransactions ≠ [])
    (same_batched : next.batched = system.batched) : CleansUp system next := by
  constructor
  · intro transaction member absent
    rw [same_batched] at member
    exact absurd (List.mem_map_of_mem member) absent
  · intro before after
    exact absurd after (same_active before)

/-! ## Steps that remove nothing -/

/-- The active transactions after one was changed. -/
theorem mem_modifyActive {transactionId : Nat} {modify : DuckTransaction → DuckTransaction}
    {changed : DuckTransaction} :
    changed ∈ (manager.modifyActive transactionId modify).activeTransactions ↔
      ∃ active ∈ manager.activeTransactions,
        (if active.transactionId = transactionId then modify active else active) = changed := by
  simp only [modifyActive, List.mem_map]

/-- What a change keeps of the transactions is the same after it. -/
theorem map_modifyActive {transactionId : Nat} {modify : DuckTransaction → DuckTransaction}
    (value : DuckTransaction → Nat) (same : ∀ active, value (modify active) = value active) :
    (manager.modifyActive transactionId modify).activeTransactions.map value =
      manager.activeTransactions.map value := by
  simp only [modifyActive, List.map_map]
  apply List.map_congr_left
  intro active member
  simp only [Function.comp]
  split
  · exact same active
  · rfl

section

variable (invariant : system.Invariant)
include invariant

/-- A change of a transaction that keeps its times and its identifier. -/
theorem Invariant.modify (transactionId : Nat) (modify : DuckTransaction → DuckTransaction)
    (same_start : ∀ active, (modify active).startTime = active.startTime)
    (same_id : ∀ active, (modify active).transactionId = active.transactionId)
    (same_query : ∀ active, ∀ query ∈ (modify active).activeQuery,
      query ∈ active.activeQuery ∨ query < system.currentQueryNumber) :
    Invariant { system with manager := system.manager.modifyActive transactionId modify } := by
  have starts : startTimes { system with
      manager := system.manager.modifyActive transactionId modify } = system.startTimes :=
    map_modifyActive _ same_start
  have identifiers : activeIds { system with
      manager := system.manager.modifyActive transactionId modify } = system.activeIds :=
    map_modifyActive _ same_id
  constructor
  · rw [identifiers]
    exact invariant.nodup
  · rw [identifiers]
    exact invariant.below
  · exact invariant.bound
  · rw [starts]
    exact invariant.starts
  · rw [identifiers]
    exact invariant.identifiers
  · rw [starts]
    exact invariant.lowestStart
  · rw [identifiers]
    exact invariant.lowestId
  · exact invariant.increasing
  · exact invariant.committed
  · rw [starts]
    exact invariant.passed
  · intro changed member query running
    obtain ⟨active, there, rfl⟩ := mem_modifyActive.mp member
    have before := invariant.numbered active there
    split at running
    · rcases same_query active query running with known | numbered
      · exact before query known
      · exact numbered
    · exact before query running
  · exact invariant.noted
  · exact invariant.retiredKept
  · rw [identifiers]
    exact invariant.accounted
  · exact invariant.finishedOnce

/-- Handing out a commit id. -/
theorem Invariant.tick :
    Invariant { system with manager := system.manager.getCommitTimestamp.2 } where
  nodup := invariant.nodup
  below := invariant.below
  bound := Nat.le_succ_of_le invariant.bound
  starts start member :=
    ⟨Nat.lt_succ_of_lt (invariant.starts start member).1, (invariant.starts start member).2⟩
  identifiers := invariant.identifiers
  lowestStart := invariant.lowestStart
  lowestId := invariant.lowestId
  increasing := invariant.increasing
  committed recent member := Nat.lt_succ_of_lt (invariant.committed recent member)
  passed old member committed :=
    ⟨Nat.lt_succ_of_lt (invariant.passed old member committed).1,
      (invariant.passed old member committed).2⟩
  numbered := invariant.numbered
  noted := invariant.noted
  retiredKept := invariant.retiredKept
  accounted := invariant.accounted
  finishedOnce := invariant.finishedOnce

/-- The invariant does not look at the commits under way. -/
theorem Invariant.of_pending (pending : List PendingCommit) (abandoned : List Nat) :
    Invariant { system with pending, abandoned } :=
  ⟨invariant.nodup, invariant.below, invariant.bound, invariant.starts, invariant.identifiers,
    invariant.lowestStart, invariant.lowestId, invariant.increasing, invariant.committed,
    invariant.passed, invariant.numbered, invariant.noted, invariant.retiredKept,
    invariant.accounted, invariant.finishedOnce⟩

/-- The next query has a number that no query had. -/
theorem Invariant.newQueryNumber :
    Invariant { system with currentQueryNumber := system.currentQueryNumber + 1 } :=
  ⟨invariant.nodup, invariant.below, invariant.bound, invariant.starts, invariant.identifiers,
    invariant.lowestStart, invariant.lowestId, invariant.increasing, invariant.committed,
    invariant.passed, fun active member query running =>
      Nat.lt_succ_of_lt (invariant.numbered active member query running),
    invariant.noted, invariant.retiredKept, invariant.accounted, invariant.finishedOnce⟩

theorem Invariant.cleanup {first : DuckCleanupInfo} {rest : List DuckCleanupInfo}
    (queued : system.manager.cleanupQueue = first :: rest) :
    Invariant { system with
      manager := { system.manager with cleanupQueue := rest }
      cleaned := system.cleaned ++ [first] } := by
  have same : batched { system with
      manager := { system.manager with cleanupQueue := rest }
      cleaned := system.cleaned ++ [first] } = system.batched := by
    simp [batched, queued]
  have same_kept : kept { system with
      manager := { system.manager with cleanupQueue := rest }
      cleaned := system.cleaned ++ [first] } = system.kept := by
    simp only [kept, same]
  exact ⟨same_kept ▸ invariant.nodup, same_kept ▸ invariant.below, invariant.bound, invariant.starts,
    invariant.identifiers, invariant.lowestStart, invariant.lowestId, invariant.increasing,
    invariant.committed, invariant.passed, invariant.numbered, invariant.noted,
    same ▸ invariant.retiredKept, same_kept ▸ invariant.accounted, invariant.finishedOnce⟩

end

/-- The least of the values, when a greater one comes last. -/
theorem isLeast_append {values : List Nat} {lowest value : Nat}
    (least : values ≠ [] → IsLeast {other | other ∈ values} lowest)
    (greater : ∀ other ∈ values, other ≤ value) :
    IsLeast {other | other ∈ values ++ [value]} (if values.isEmpty then value else lowest) := by
  cases values with
  | nil => simp [IsLeast, lowerBounds]
  | cons first rest =>
      obtain ⟨member, below⟩ := least (List.cons_ne_nil _ _)
      rw [if_neg (by simp)]
      constructor
      · exact List.mem_append_left _ member
      · intro other there
        rcases List.mem_append.mp there with before | last
        · exact below before
        · rw [List.mem_singleton.mp last]
          exact (below List.mem_cons_self).trans (greater first List.mem_cons_self)

/-- What starting a transaction does, if there is a timestamp for it. -/
theorem startTransaction_spec {before : DuckTransactionManager}
    (started : before.startTransaction = .ok manager) :
    before.currentStartTimestamp < transactionIdStart ∧
      manager.activeTransactions = before.activeTransactions ++
        [.create before.currentStartTimestamp before.currentTransactionId] ∧
      (manager.currentStartTimestamp = before.currentStartTimestamp + 1 ∧
        manager.currentTransactionId = before.currentTransactionId + 1) ∧
      (manager.recentlyCommittedTransactions = before.recentlyCommittedTransactions ∧
        manager.oldTransactions = before.oldTransactions ∧
        manager.cleanupQueue = before.cleanupQueue) ∧
      manager.lowestActiveStart = (if before.activeTransactions.isEmpty then
        before.currentStartTimestamp else before.lowestActiveStart) ∧
      manager.lowestActiveId = (if before.activeTransactions.isEmpty then
        before.currentTransactionId else before.lowestActiveId) := by
  rw [DuckTransactionManager.startTransaction] at started
  split at started
  · cases started
  · rename_i room
    refine ⟨Nat.lt_of_not_le room, ?_⟩
    cases started
    dsimp only
    split <;> exact ⟨rfl, ⟨rfl, rfl⟩, ⟨rfl, rfl, rfl⟩, rfl, rfl⟩

/-- A transaction that starts comes behind all others. -/
theorem Invariant.startTransaction (invariant : system.Invariant)
    (started : system.manager.startTransaction = .ok manager) :
    Invariant { system with manager } ∧
      (system.Uncommitted → Uncommitted { system with manager }) ∧
      system.CleansUp { system with manager } := by
  obtain ⟨room, active, counters, lists, watermarks⟩ := startTransaction_spec started
  obtain ⟨timestamp, transaction_id⟩ := counters
  obtain ⟨recent, old, queue⟩ := lists
  have starts : startTimes { system with manager } =
      system.startTimes ++ [system.manager.currentStartTimestamp] := by
    simp [startTimes, active, DuckTransaction.create]
  have identifiers : activeIds { system with manager } =
      system.activeIds ++ [system.manager.currentTransactionId] := by
    simp [activeIds, active, DuckTransaction.create, ids]
  have empty_starts : system.manager.activeTransactions.isEmpty = system.startTimes.isEmpty := by
    simp [startTimes]
  have empty_ids : system.manager.activeTransactions.isEmpty = system.activeIds.isEmpty := by
    simp [activeIds, ids]
  have same_batched : batched { system with manager } = system.batched := by
    simp only [batched, queue]
  have same_kept : kept { system with manager } = system.kept := by
    simp only [kept, same_batched, recent, old]
  have id_below : ∀ identifier ∈ system.activeIds ++ ids system.kept,
      identifier < system.manager.currentTransactionId := invariant.below
  have bound := invariant.bound
  refine ⟨?_, ?_, .of_same ?_ same_batched⟩
  · constructor
    · rw [identifiers, same_kept, List.append_assoc]
      have fresh : system.manager.currentTransactionId ∉ system.activeIds ++ ids system.kept :=
        fun member => Nat.lt_irrefl _ (id_below _ member)
      exact List.nodup_middle.mpr (List.nodup_cons.mpr ⟨fresh, invariant.nodup⟩)
    · intro identifier member
      change identifier < manager.currentTransactionId
      rw [transaction_id]
      rw [identifiers, same_kept, List.append_assoc] at member
      rcases List.mem_append.mp member with before | behind
      · exact Nat.lt_succ_of_lt (id_below _ (List.mem_append_left _ before))
      · rcases List.mem_cons.mp behind with rfl | behind
        · exact Nat.lt_succ_self _
        · exact Nat.lt_succ_of_lt (id_below _ (List.mem_append_right _ behind))
    · change manager.currentTransactionId + 2 ≤ _ + manager.currentStartTimestamp
      omega
    · intro start member
      change start < manager.currentStartTimestamp ∧ _
      rw [timestamp]
      rw [starts] at member
      rcases List.mem_append.mp member with before | last
      · obtain ⟨lt, le⟩ := invariant.starts start before
        exact ⟨Nat.lt_succ_of_lt lt, le⟩
      · rw [List.mem_singleton.mp last]
        exact ⟨Nat.lt_succ_self _, room.le⟩
    · intro identifier member
      rw [identifiers] at member
      rcases List.mem_append.mp member with before | last
      · exact invariant.identifiers identifier before
      · rw [List.mem_singleton.mp last]
        simp only [transactionIdStart, maxTransactionId] at bound room ⊢
        omega
    · intro _
      change IsLeast _ manager.lowestActiveStart
      rw [watermarks.1, starts, empty_starts]
      exact isLeast_append invariant.lowestStart fun start member => (invariant.starts start member).1.le
    · intro _
      change IsLeast _ manager.lowestActiveId
      rw [watermarks.2, identifiers, empty_ids]
      exact isLeast_append invariant.lowestId fun identifier member =>
        (id_below identifier (List.mem_append_left _ member)).le
    · change manager.recentlyCommittedTransactions.Pairwise _
      rw [recent]
      exact invariant.increasing
    · change ∀ recent ∈ manager.recentlyCommittedTransactions, _ < manager.currentStartTimestamp
      rw [recent, timestamp]
      exact fun committed member => Nat.lt_succ_of_lt (invariant.committed committed member)
    · change ∀ old ∈ manager.oldTransactions, _
      rw [old, starts]
      intro waiting member committed
      obtain ⟨lt, all⟩ := invariant.passed waiting member committed
      change _ < manager.currentStartTimestamp ∧ _
      rw [timestamp]
      refine ⟨Nat.lt_succ_of_lt lt, fun start member => ?_⟩
      rcases List.mem_append.mp member with before | last
      · exact all start before
      · rw [List.mem_singleton.mp last]
        exact lt
    · change ∀ transaction ∈ manager.activeTransactions, _
      rw [active]
      intro transaction member query running
      rcases List.mem_append.mp member with before | last
      · exact invariant.numbered transaction before query running
      · rw [List.mem_singleton.mp last] at running
        cases running
    · change ∀ old ∈ manager.oldTransactions, _
      rw [old]
      exact invariant.noted
    · change ∀ retirement ∈ system.retired, _ ∈ ids (manager.oldTransactions ++ _)
      rw [old, same_batched]
      exact invariant.retiredKept
    · intro finished member
      obtain ⟨inactive, lt, left⟩ := invariant.accounted finished member
      change _ ∧ _ < manager.currentTransactionId ∧ _
      rw [identifiers, same_kept, transaction_id, List.mem_append, List.mem_singleton]
      exact ⟨not_or.mpr ⟨inactive, lt.ne⟩, Nat.lt_succ_of_lt lt, left⟩
    · exact invariant.finishedOnce
  · intro uncommitted transaction member
    change transaction ∈ manager.activeTransactions at member
    rw [active] at member
    rcases List.mem_append.mp member with before | last
    · exact uncommitted transaction before
    · rw [List.mem_singleton.mp last]
      rfl
  · intro _ none_active
    change manager.activeTransactions = [] at none_active
    rw [active] at none_active
    simp at none_active

/-! ## Removing a transaction -/

theorem batched_scheduleCleanup (system : TransactionSystem) (manager : DuckTransactionManager)
    (cleanupInfo : DuckCleanupInfo) (same_queue : manager.cleanupQueue = system.manager.cleanupQueue) :
    batched { system with manager := manager.scheduleCleanup cleanupInfo } =
      system.batched ++ cleanupInfo.transactions := by
  rw [scheduleCleanup]
  split
  · rename_i empty
    rw [List.isEmpty_iff.mp empty, List.append_nil, batched, same_queue]
    rfl
  · simp [batched, same_queue]

theorem scheduleCleanup_lists (manager : DuckTransactionManager) (cleanupInfo : DuckCleanupInfo) :
    ∃ cleanupQueue, manager.scheduleCleanup cleanupInfo = { manager with cleanupQueue } := by
  rw [scheduleCleanup]
  split
  · exact ⟨manager.cleanupQueue, rfl⟩
  · exact ⟨_, rfl⟩

theorem mem_running {transactions : List DuckTransaction} {query : Nat}
    (member : (identifier, query) ∈ running transactions) :
    ∃ active ∈ transactions, active.transactionId = identifier ∧ active.activeQuery = some query := by
  obtain ⟨active, there, found⟩ := List.mem_filterMap.mp member
  obtain ⟨number, known, same⟩ := Option.map_eq_some_iff.mp found
  cases same
  exact ⟨active, there, rfl, known⟩

/-- The transactions that begin to wait in a step. -/
def newlyWaiting (system : TransactionSystem) (waiting : List DuckTransaction) : List Nat :=
  (ids waiting).filter fun identifier =>
    !(ids system.manager.oldTransactions).contains identifier

/-- The system after a transaction was removed. -/
structure After (system : TransactionSystem) (current : DuckTransaction)
    (madeChanges storeTransaction : Bool) (cleanupInfo : DuckCleanupInfo)
    (next : TransactionSystem) : Prop where
  removed : Removed system.manager system.currentQueryNumber current storeTransaction
    { next.manager with cleanupQueue := system.manager.cleanupQueue } cleanupInfo
  batched : next.batched = system.batched ++ cleanupInfo.transactions
  finished : next.finished = system.finished ++ [⟨current.transactionId, madeChanges,
    storeTransaction, storeTransaction || current.changesMade⟩]
  retired : next.retired = system.retired ++
    (system.newlyWaiting (next.manager.oldTransactions ++ cleanupInfo.transactions)).map
      fun identifier => ⟨identifier, running next.manager.activeTransactions⟩
  query : next.currentQueryNumber = system.currentQueryNumber
  pending : next.pending = system.pending.filter fun commit =>
    commit.transactionId != current.transactionId
  abandoned : next.abandoned = system.abandoned

variable {current : DuckTransaction} {madeChanges storeTransaction : Bool}
  {cleanupInfo : DuckCleanupInfo} {next : TransactionSystem}

theorem remove_spec (nodup : (ids system.manager.activeTransactions).Nodup)
    (member : current ∈ system.manager.activeTransactions) (madeChanges storeTransaction : Bool) :
    ∃ next cleanupInfo, system.remove current.transactionId madeChanges storeTransaction = .ok next ∧
      After system current madeChanges storeTransaction cleanupInfo next := by
  obtain ⟨manager, cleanupInfo, removal, removed⟩ := removeTransaction_spec system.manager
    system.currentQueryNumber nodup member storeTransaction
  obtain ⟨cleanupQueue, scheduled⟩ := scheduleCleanup_lists manager cleanupInfo
  have batched := batched_scheduleCleanup system manager cleanupInfo removed.cleanupQueue
  rw [TransactionSystem.remove, findActive, find?_of_nodup nodup member]
  dsimp only [bind, Except.bind, pure, Except.pure]
  rw [removal]
  refine ⟨_, cleanupInfo, rfl, ?_, batched, rfl, ?_, rfl, rfl, rfl⟩
  · have same : { manager.scheduleCleanup cleanupInfo with
        cleanupQueue := system.manager.cleanupQueue } = manager := by
      rw [scheduled, ← removed.cleanupQueue]
    dsimp only
    rw [same]
    exact removed
  · dsimp only
    rw [scheduled]
    rfl

theorem Invariant.not_kept (invariant : system.Invariant)
    (member : current ∈ system.manager.activeTransactions) :
    current.transactionId ∉ ids system.kept := fun there =>
  (List.nodup_append.mp invariant.nodup).2.2 _ (List.mem_map_of_mem member) _ there rfl

namespace After

variable (after : After system current madeChanges storeTransaction cleanupInfo next)

include after

theorem mem_active {active : DuckTransaction} :
    active ∈ next.manager.activeTransactions ↔ active ∈ system.manager.activeTransactions ∧
      active.transactionId ≠ current.transactionId := by
  have same : next.manager.activeTransactions = _ := after.removed.active
  rw [same, List.mem_filter, bne_iff_ne]

theorem start_mem {start : Nat} (member : start ∈ next.startTimes) : start ∈ system.startTimes := by
  obtain ⟨active, there, rfl⟩ := List.mem_map.mp member
  exact List.mem_map_of_mem (after.mem_active.mp there).1

theorem mem_activeIds :
    identifier ∈ next.activeIds ↔ identifier ∈ system.activeIds ∧
      identifier ≠ current.transactionId := by
  constructor
  · intro member
    obtain ⟨active, there, rfl⟩ := List.mem_map.mp member
    obtain ⟨before, different⟩ := after.mem_active.mp there
    exact ⟨List.mem_map_of_mem before, different⟩
  · rintro ⟨member, different⟩
    obtain ⟨active, there, rfl⟩ := List.mem_map.mp member
    exact List.mem_map_of_mem (after.mem_active.mpr ⟨there, different⟩)

/-- Kept is what was kept before, and the transaction if it left changes. -/
theorem kept_perm : (ids next.kept).Perm (ids system.kept ++
    if storeTransaction || current.changesMade then [current.transactionId] else []) := by
  have moved := after.removed.ids_perm
  rw [List.perm_iff_count] at moved ⊢
  intro identifier
  have counts := moved identifier
  simp only [kept, after.batched, ids_append, List.count_append] at counts ⊢
  omega

theorem mem_kept : identifier ∈ ids next.kept ↔ identifier ∈ ids system.kept ∨
    (storeTransaction || current.changesMade) = true ∧ identifier = current.transactionId := by
  rw [after.kept_perm.mem_iff, List.mem_append]
  apply or_congr_right
  split
  · rename_i left
    simp [left]
  · rename_i gone
    simp [gone]

/-- No active transaction started before the watermark. -/
theorem lowest_le {start : Nat} (member : start ∈ next.startTimes) :
    next.manager.lowestActiveStart ≤ start := by
  obtain ⟨active, there, rfl⟩ := List.mem_map.mp member
  have lowest : next.manager.lowestActiveStart = _ := after.removed.lowestStart
  rw [lowest]
  exact (foldl_min_le _ _ _).2 active there

variable (invariant : system.Invariant) (member : current ∈ system.manager.activeTransactions)

include invariant member

theorem nodup : (next.activeIds ++ ids next.kept).Nodup := by
  obtain ⟨nodup_active, nodup_kept, disjoint⟩ := List.nodup_append.mp invariant.nodup
  have absent := invariant.not_kept member
  refine List.nodup_append.mpr ⟨?_, ?_, ?_⟩
  · have same : next.manager.activeTransactions = _ := after.removed.active
    rw [activeIds, same]
    exact nodup_active.sublist (List.filter_sublist.map _)
  · rw [after.kept_perm.nodup_iff, List.nodup_append]
    refine ⟨nodup_kept, by split <;> simp, ?_⟩
    intro identifier there other last
    split at last
    · rw [List.mem_singleton.mp last]
      rintro rfl
      exact absent there
    · cases last
  · rintro identifier inActive _ inKept rfl
    obtain ⟨there, different⟩ := after.mem_activeIds.mp inActive
    rcases after.mem_kept.mp inKept with before | ⟨-, same⟩
    · exact disjoint _ there _ before rfl
    · exact different same

/-- Where a transaction that waits comes from, with what it waits for. -/
theorem waiting (latest : current.commitId ≠ 0 →
      current.commitId < system.manager.currentStartTimestamp)
    (waits : Waiting system.manager system.currentQueryNumber current
      storeTransaction next.manager.lowestActiveStart transaction) :
    transaction ∈ system.manager.oldTransactions ∨
      transaction.transactionId ∉ ids system.manager.oldTransactions ∧
        transaction.transactionId ∉ ids system.batched ∧
        transaction.highestActiveQuery = system.currentQueryNumber ∧
        (transaction.commitId ≠ 0 → transaction.commitId < system.manager.currentStartTimestamp ∧
          ∀ start ∈ next.startTimes, transaction.commitId < start) := by
  have current_absent := invariant.not_kept member
  obtain ⟨-, nodup_kept, -⟩ := List.nodup_append.mp invariant.nodup
  rw [kept, ids_append, List.mem_append, ids_append, List.mem_append, not_or, not_or] at current_absent
  rw [kept, ids_append, List.nodup_append, ids_append] at nodup_kept
  cases waits with
  | old there => exact Or.inl there
  | aborted stored failed same =>
      right
      rw [same]
      exact ⟨current_absent.2.1, current_absent.2.2, rfl, fun committed => absurd failed committed⟩
  | retired committed there seen same =>
      right
      have passed : ∀ start ∈ next.startTimes, committed.commitId < start := fun start inNext =>
        Nat.lt_of_lt_of_le seen (after.lowest_le inNext)
      rw [same]
      rcases there with recent | ⟨-, stored, rfl⟩
      · have apart : ∀ identifier, identifier ∈ ids system.manager.oldTransactions ++
            ids system.batched → identifier ≠ committed.transactionId := fun identifier inOld same =>
          nodup_kept.2.2 _ (List.mem_map_of_mem recent) _ inOld same.symm
        refine ⟨fun inOld => apart _ (List.mem_append_left _ inOld) rfl,
          fun inBatch => apart _ (List.mem_append_right _ inBatch) rfl, rfl,
          fun _ => ⟨invariant.committed committed recent, passed⟩⟩
      · exact ⟨current_absent.2.1, current_absent.2.2, rfl, fun _ => ⟨latest stored, passed⟩⟩

/-- The queries that a transaction waits for have lower numbers. -/
theorem noted (latest : current.commitId ≠ 0 →
      current.commitId < system.manager.currentStartTimestamp)
    (there : transaction ∈ next.manager.oldTransactions ++ cleanupInfo.transactions)
    (waits : Waiting system.manager system.currentQueryNumber current storeTransaction
      next.manager.lowestActiveStart transaction) :
    (∃ retirement ∈ next.retired, retirement.transactionId = transaction.transactionId) ∧
      ∀ retirement ∈ next.retired, retirement.transactionId = transaction.transactionId →
        ∀ running ∈ retirement.running, running.2 < transaction.highestActiveQuery := by
  rw [after.retired]
  rcases after.waiting invariant member latest waits with old | ⟨notOld, notBatched, highest, -⟩
  · obtain ⟨⟨retirement, known, same⟩, before⟩ := invariant.noted transaction old
    refine ⟨⟨retirement, List.mem_append_left _ known, same⟩, fun retirement known same => ?_⟩
    rcases List.mem_append.mp known with past | new
    · exact before retirement past same
    · exfalso
      obtain ⟨identifier, waiting, rfl⟩ := List.mem_map.mp new
      have absent := (List.mem_filter.mp waiting).2
      rw [Bool.not_eq_true', List.contains_eq_mem, decide_eq_false_iff_not] at absent
      apply absent
      rw [show identifier = transaction.transactionId from same]
      exact List.mem_map_of_mem old
  · have waiting : transaction.transactionId ∈
        system.newlyWaiting (next.manager.oldTransactions ++ cleanupInfo.transactions) := by
      refine List.mem_filter.mpr ⟨List.mem_map_of_mem there, ?_⟩
      rw [Bool.not_eq_true', List.contains_eq_mem, decide_eq_false_iff_not]
      exact notOld
    refine ⟨⟨_, List.mem_append_right _ (List.mem_map_of_mem waiting), rfl⟩,
      fun retirement known same => ?_⟩
    rcases List.mem_append.mp known with past | new
    · exfalso
      have kept := invariant.retiredKept retirement past
      rw [same, ids_append, List.mem_append] at kept
      exact kept.elim notOld notBatched
    · obtain ⟨identifier, -, rfl⟩ := List.mem_map.mp new
      rintro ⟨other, query⟩ inRunning
      obtain ⟨active, inNext, -, known⟩ := mem_running inRunning
      rw [highest]
      exact invariant.numbered active (after.mem_active.mp inNext).1 query known

omit after member in
/-- The recently committed transactions, before some of them are retired. -/
theorem increasing_before (latest : current.commitId ≠ 0 →
      ∀ recent ∈ system.manager.recentlyCommittedTransactions,
        recent.commitId < current.commitId) :
    (system.manager.recentlyCommittedTransactions ++
      if storeTransaction && current.commitId != 0 then [current] else []).Pairwise
        fun before after => before.commitId < after.commitId := by
  split
  · rename_i stored
    simp only [Bool.and_eq_true, bne_iff_ne] at stored
    refine List.pairwise_append.mpr ⟨invariant.increasing, List.pairwise_singleton _ _, ?_⟩
    intro before there last inLast
    rw [List.mem_singleton.mp inLast]
    exact latest stored.2 before there
  · rw [List.append_nil]
    exact invariant.increasing

/-- Removing a transaction keeps the invariant. -/
theorem invariant_next (latest : current.commitId ≠ 0 →
      current.commitId < system.manager.currentStartTimestamp ∧
        ∀ recent ∈ system.manager.recentlyCommittedTransactions,
          recent.commitId < current.commitId) : next.Invariant := by
  have timestamp : next.manager.currentStartTimestamp = system.manager.currentStartTimestamp :=
    after.removed.currentStartTimestamp
  have transaction_id : next.manager.currentTransactionId = system.manager.currentTransactionId :=
    after.removed.currentTransactionId
  have recent : next.manager.recentlyCommittedTransactions =
      (system.manager.recentlyCommittedTransactions ++
        if storeTransaction && current.commitId != 0 then [current] else []).dropWhile
          fun transaction => decide (transaction.commitId < next.manager.lowestActiveStart) :=
    after.removed.recent
  have recent_mem : ∀ committed ∈ next.manager.recentlyCommittedTransactions,
      committed ∈ system.manager.recentlyCommittedTransactions ∨
        committed.commitId ≠ 0 ∧ committed = current := by
    intro committed there
    rw [recent] at there
    rcases List.mem_append.mp ((List.dropWhile_sublist _).subset there) with before | last
    · exact Or.inl before
    · split at last
      · rename_i stored
        obtain rfl := List.mem_singleton.mp last
        simp only [Bool.and_eq_true, bne_iff_ne] at stored
        exact Or.inr ⟨stored.2, rfl⟩
      · cases last
  constructor
  · exact after.nodup invariant member
  · intro identifier there
    rw [transaction_id]
    rcases List.mem_append.mp there with active | kept
    · exact invariant.below _ (List.mem_append_left _ (after.mem_activeIds.mp active).1)
    · rcases after.mem_kept.mp kept with before | ⟨-, rfl⟩
      · exact invariant.below _ (List.mem_append_right _ before)
      · exact invariant.below _ (List.mem_append_left _ (List.mem_map_of_mem member))
  · rw [timestamp, transaction_id]
    exact invariant.bound
  · intro start there
    rw [timestamp]
    exact invariant.starts start (after.start_mem there)
  · intro identifier there
    exact invariant.identifiers identifier (after.mem_activeIds.mp there).1
  · intro nonempty
    have some_active : next.manager.activeTransactions ≠ [] := fun empty =>
      nonempty (by rw [startTimes, empty, List.map_nil])
    have least := isLeast_foldl_min DuckTransaction.startTime some_active transactionIdStart
      fun active there => (invariant.starts _ (List.mem_map_of_mem (after.mem_active.mp there).1)).2
    have lowest : next.manager.lowestActiveStart = _ := after.removed.lowestStart
    rw [lowest]
    simpa only [startTimes, List.mem_map] using least
  · intro nonempty
    have some_active : next.manager.activeTransactions ≠ [] := fun empty =>
      nonempty (by rw [activeIds, empty]; rfl)
    have least := isLeast_foldl_min DuckTransaction.transactionId some_active
      maxTransactionId fun active there =>
        invariant.identifiers _ (List.mem_map_of_mem (after.mem_active.mp there).1)
    have lowest : next.manager.lowestActiveId = _ := after.removed.lowestId
    rw [lowest]
    simpa only [activeIds, ids, List.mem_map] using least
  · rw [recent]
    exact List.Pairwise.sublist (List.dropWhile_sublist _)
      (increasing_before invariant fun committed => (latest committed).2)
  · intro committed there
    rw [timestamp]
    rcases recent_mem committed there with before | ⟨stored, rfl⟩
    · exact invariant.committed committed before
    · exact (latest stored).1
  · intro old there stored
    rw [timestamp]
    rcases after.waiting invariant member (fun committed => (latest committed).1)
      (after.removed.waiting old there) with before | ⟨-, -, -, passed⟩
    · obtain ⟨lt, all⟩ := invariant.passed old before stored
      exact ⟨lt, fun start inNext => all start (after.start_mem inNext)⟩
    · exact passed stored
  · intro active there query running
    rw [after.query]
    exact invariant.numbered active (after.mem_active.mp there).1 query running
  · intro old there
    exact after.noted invariant member (fun committed => (latest committed).1)
      (List.mem_append_left _ there) (after.removed.waiting old there)
  · intro retirement there
    rw [after.retired] at there
    rcases List.mem_append.mp there with past | new
    · have kept_before := invariant.retiredKept retirement past
      rw [ids_append, List.mem_append] at kept_before
      rw [ids_append, List.mem_append, after.batched, ids_append, List.mem_append]
      rcases kept_before with inOld | inBatch
      · have inKept : retirement.transactionId ∈ ids next.kept := by
          rw [after.mem_kept, kept, ids_append, ids_append, List.mem_append, List.mem_append]
          exact Or.inl (Or.inr (Or.inl inOld))
        rw [kept, ids_append, ids_append, List.mem_append, List.mem_append, after.batched, ids_append,
          List.mem_append] at inKept
        rcases inKept with inRecent | waiting
        · exfalso
          obtain ⟨committed, there, same⟩ := List.mem_map.mp inRecent
          rcases recent_mem committed there with before | ⟨-, rfl⟩
          · have apart := (List.nodup_append.mp invariant.nodup).2.1
            rw [kept, ids_append, List.nodup_append, ids_append] at apart
            exact apart.2.2 _ (List.mem_map_of_mem before) _ (List.mem_append_left _ inOld) same
          · apply invariant.not_kept member
            rw [same, kept, ids_append, ids_append, List.mem_append, List.mem_append]
            exact Or.inr (Or.inl inOld)
        · exact waiting
      · exact Or.inr (Or.inl inBatch)
    · obtain ⟨identifier, waiting, rfl⟩ := List.mem_map.mp new
      have there := (List.mem_filter.mp waiting).1
      rw [ids_append, List.mem_append] at there
      rw [ids_append, List.mem_append, after.batched, ids_append, List.mem_append]
      rcases there with inOld | cleaned
      · exact Or.inl inOld
      · exact Or.inr (Or.inr cleaned)
  · intro finished there
    rw [transaction_id, after.mem_kept, after.mem_activeIds]
    rw [after.finished] at there
    rcases List.mem_append.mp there with past | last
    · obtain ⟨inactive, lt, left⟩ := invariant.accounted finished past
      have different : finished.transactionId ≠ current.transactionId := fun same =>
        inactive (same ▸ List.mem_map_of_mem member)
      refine ⟨fun active => inactive active.1, lt, left.trans ?_⟩
      rw [or_iff_left fun both => different both.2]
    · rw [List.mem_singleton.mp last]
      refine ⟨fun active => active.2 rfl,
        invariant.below _ (List.mem_append_left _ (List.mem_map_of_mem member)), ?_⟩
      rw [or_iff_right (invariant.not_kept member), and_iff_left rfl]
  · rw [after.finished, List.map_append, List.map_singleton, List.nodup_append]
    refine ⟨invariant.finishedOnce, List.nodup_singleton _, ?_⟩
    intro identifier there other last same
    obtain ⟨finished, past, rfl⟩ := List.mem_map.mp there
    rw [List.mem_singleton.mp last] at same
    apply (invariant.accounted finished past).1
    rw [same]
    exact List.mem_map_of_mem member

/-- Removing a transaction cleans up what has waited. -/
theorem cleansUp (latest : current.commitId ≠ 0 →
      current.commitId < system.manager.currentStartTimestamp ∧
        ∀ recent ∈ system.manager.recentlyCommittedTransactions,
          recent.commitId < current.commitId) : system.CleansUp next := by
  constructor
  · intro transaction there absent committed stored
    rw [after.batched] at there
    have cleaned : transaction ∈ cleanupInfo.transactions :=
      (List.mem_append.mp there).resolve_left fun before => absent (List.mem_map_of_mem before)
    rcases after.removed.cleaned transaction cleaned with ⟨dropped, rfl⟩ | ⟨waits, unused⟩
    · -- a transaction that was not stored
      exfalso
      obtain ⟨finished, known, same, kept⟩ := stored
      rw [after.finished] at known
      rcases List.mem_append.mp known with past | last
      · apply (invariant.accounted finished past).1
        rw [show finished.transactionId = current.transactionId from same]
        exact List.mem_map_of_mem member
      · rw [List.mem_singleton.mp last] at kept
        rw [dropped] at kept
        cases kept
    · obtain ⟨known, lower⟩ := after.noted invariant member (fun committed => (latest committed).1)
        (List.mem_append_right _ cleaned) waits
      refine ⟨fun active inNext => ?_, known, ?_⟩
      · have start : active.startTime ∈ next.startTimes := List.mem_map_of_mem inNext
        rcases after.waiting invariant member (fun committed => (latest committed).1) waits with
          old | ⟨-, -, -, passed⟩
        · exact (invariant.passed transaction old committed).2 _ (after.start_mem start)
        · exact (passed committed).2 _ start
      · intro retirement known same running inRunning active inNext _ still
        have before := lower retirement known same running inRunning
        have behind := unused active inNext running.2 still
        exact Nat.lt_asymm before behind
  · intro _ empty
    refine ⟨after.removed.emptied empty, ?_⟩
    have recent : next.manager.recentlyCommittedTransactions = _ := after.removed.recent
    have lowest : next.manager.lowestActiveStart = _ := after.removed.lowestStart
    have limit : next.manager.lowestActiveStart = transactionIdStart := by
      rw [lowest]
      change (next.manager.activeTransactions.foldl _ _) = _
      rw [empty]
      rfl
    rw [recent]
    change ∀ recent ∈ List.dropWhile (fun transaction : DuckTransaction =>
      decide (transaction.commitId < next.manager.lowestActiveStart)) _, _
    rw [limit]
    exact le_of_mem_dropWhile (increasing_before invariant fun committed => (latest committed).2)

end After

end TransactionSystem

end StatsRecommender
