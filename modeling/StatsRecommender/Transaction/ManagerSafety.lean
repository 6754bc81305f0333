import StatsRecommender.Transaction.ManagerInvariant

/-!
# What the transaction manager promises

In every run of the transaction manager, the watermarks are the least ones, the changes of finished
transactions are kept in one place, and they are cleaned up after the transactions and queries that
may read them.
-/

namespace StatsRecommender

variable {current : DuckTransaction}

open DuckTransactionManager

namespace TransactionSystem

variable {system next : TransactionSystem}

/-! ## Steps -/

theorem exists_active {identifier : Nat}
    (member : identifier ∈ ids system.manager.activeTransactions) :
    ∃ current ∈ system.manager.activeTransactions, current.transactionId = identifier :=
  List.mem_map.mp member

theorem findActive_of_mem (invariant : system.Invariant)
    (member : current ∈ system.manager.activeTransactions) :
    system.manager.findActive current.transactionId = .ok current := by
  rw [findActive, find?_of_nodup (List.nodup_append.mp invariant.nodup).1 member]
  rfl

/-- Removing a transaction that was changed on the way. -/
theorem remove_modified (uncommitted : system.Uncommitted) {modified : TransactionSystem}
    (modified_invariant : modified.Invariant) (member : current ∈ system.manager.activeTransactions)
    (modify : DuckTransaction → DuckTransaction)
    (same_id : ∀ active, (modify active).transactionId = active.transactionId)
    (active_eq : modified.manager.activeTransactions =
      (system.manager.modifyActive current.transactionId modify).activeTransactions)
    (same_batched : modified.batched = system.batched) (latest : (modify current).commitId ≠ 0 →
      (modify current).commitId < modified.manager.currentStartTimestamp ∧
        ∀ recent ∈ modified.manager.recentlyCommittedTransactions,
          recent.commitId < (modify current).commitId) {madeChanges storeTransaction : Bool}
    (taken : modified.remove current.transactionId madeChanges storeTransaction = .ok next) :
    next.Invariant ∧ next.Uncommitted ∧ system.CleansUp next := by
  have changed : modify current ∈ modified.manager.activeTransactions := by
    rw [active_eq, mem_modifyActive]
    exact ⟨current, member, if_pos rfl⟩
  have nodup := (List.nodup_append.mp modified_invariant.nodup).1
  obtain ⟨next', cleanupInfo, taken', after⟩ :=
    remove_spec nodup changed madeChanges storeTransaction
  rw [same_id] at taken'
  obtain rfl := Except.ok.inj (taken.symm.trans taken')
  have cleansUp := after.cleansUp modified_invariant changed latest
  refine ⟨after.invariant_next modified_invariant changed latest, ?_, ?_⟩
  · intro active there
    obtain ⟨before, different⟩ := after.mem_active.mp there
    rw [same_id] at different
    rw [active_eq, mem_modifyActive] at before
    obtain ⟨original, was, rfl⟩ := before
    split at different
    · rename_i same
      exact absurd ((same_id original).trans same) different
    · rename_i other
      rw [if_neg other]
      exact uncommitted original was
  · constructor
    · rw [← same_batched]
      exact cleansUp.entered
    · intro some_active
      apply cleansUp.emptied
      intro none_active
      rw [none_active] at changed
      cases changed

/-- The end of a commit. -/
theorem finishCommit_spec (invariant : system.Invariant) (uncommitted : system.Uncommitted)
    (member : current ∈ system.manager.activeTransactions) (properties : UndoBufferProperties)
    (madeChanges : Bool) (outcome : CommitOutcome)
    (taken : system.finishCommit current.transactionId properties madeChanges outcome = .ok next) :
    next.Invariant ∧ next.Uncommitted ∧ system.CleansUp next := by
  have ticked := invariant.tick
  cases outcome with
  | success =>
      rw [finishCommit] at taken
      refine remove_modified uncommitted
        (ticked.modify current.transactionId
          (fun active => active.commit system.manager.currentStartTimestamp)
          (fun _ => rfl) (fun _ => rfl) fun _ _ running => Or.inl running)
        member (fun active => active.commit system.manager.currentStartTimestamp) (fun _ => rfl) rfl
        rfl (fun _ => ⟨Nat.lt_succ_self _, ?_⟩) taken
      exact invariant.committed
  | error tables =>
      rw [finishCommit] at taken
      exact remove_modified uncommitted
        (ticked.modify current.transactionId
          (fun active => { (active.flush tables).rollback with commitId := 0 })
          (fun _ => rfl) (fun _ => rfl) fun _ _ running => Or.inl running)
        member (fun active => { (active.flush tables).rollback with commitId := 0 }) (fun _ => rfl)
        rfl rfl (fun committed => absurd rfl committed) taken
  | fatal tables =>
      cases taken
      have modified := (ticked.modify current.transactionId
        (fun active => { (active.flush tables).rollback with commitId := 0 })
        (fun _ => rfl) (fun _ => rfl) fun _ _ running => Or.inl running)
      refine ⟨modified.of_pending _ _, ?_, .of_same ?_ rfl⟩
      · intro active there
        obtain ⟨original, was, rfl⟩ := mem_modifyActive.mp there
        split
        · rfl
        · exact uncommitted original was
      · intro some_active none_active
        exact some_active (List.map_eq_nil_iff.mp none_active)

/-- A change of a transaction that removes nothing. -/
theorem modify_spec (invariant : system.Invariant) (uncommitted : system.Uncommitted)
    (transactionId : Nat) (modify : DuckTransaction → DuckTransaction)
    (same_start : ∀ active, (modify active).startTime = active.startTime)
    (same_id : ∀ active, (modify active).transactionId = active.transactionId)
    (same_commit : ∀ active, (modify active).commitId = active.commitId)
    (same_query : ∀ active, ∀ query ∈ (modify active).activeQuery,
      query ∈ active.activeQuery ∨ query < system.currentQueryNumber) :
    Invariant { system with manager := system.manager.modifyActive transactionId modify } ∧
      Uncommitted { system with manager := system.manager.modifyActive transactionId modify } ∧
      system.CleansUp
        { system with manager := system.manager.modifyActive transactionId modify } := by
  refine ⟨invariant.modify transactionId modify same_start same_id same_query, ?_, .of_same ?_ rfl⟩
  · intro active there
    obtain ⟨original, was, rfl⟩ := mem_modifyActive.mp there
    split
    · exact (same_commit original).trans (uncommitted original was)
    · exact uncommitted original was
  · intro some_active none_active
    exact some_active (List.map_eq_nil_iff.mp none_active)

/-- Every step keeps the invariant, and cleans up only what has waited. -/
theorem step_spec (invariant : system.Invariant) (uncommitted : system.Uncommitted)
    {operation : TransactionOperation} (permitted : system.Permitted operation)
    (taken : system.step operation = .ok next) :
    next.Invariant ∧ next.Uncommitted ∧ system.CleansUp next := by
  cases operation with
  | startTransaction =>
      rw [step] at taken
      cases started : system.manager.startTransaction with
      | error message =>
          rw [started] at taken
          cases taken
      | ok manager =>
          rw [started] at taken
          cases taken
          obtain ⟨kept, still, cleansUp⟩ := invariant.startTransaction started
          exact ⟨kept, still uncommitted, cleansUp⟩
  | newQueryNumber =>
      cases taken
      exact ⟨invariant.newQueryNumber, uncommitted, .of_same id rfl⟩
  | setActiveQuery transactionId query =>
      cases taken
      exact modify_spec invariant uncommitted transactionId _ (fun _ => rfl) (fun _ => rfl)
        (fun _ => rfl) fun _ number running => Or.inr (permitted.2 number running)
  | pushUndo transactionId entry =>
      cases taken
      exact modify_spec invariant uncommitted transactionId _ (fun _ => rfl) (fun _ => rfl)
        (fun _ => rfl) fun _ _ running => Or.inl running
  | writeLocal transactionId localStorage =>
      cases taken
      exact modify_spec invariant uncommitted transactionId _ (fun _ => rfl) (fun _ => rfl)
        (fun _ => rfl) fun _ _ running => Or.inl running
  | writeToWAL transactionId =>
      obtain ⟨current, member, rfl⟩ := exists_active permitted.1.1.1
      rw [step, findActive_of_mem invariant member] at taken
      cases taken
      exact ⟨invariant.of_pending _ _, uncommitted, .of_same id rfl⟩
  | commit transactionId outcome =>
      obtain ⟨current, member, rfl⟩ := exists_active permitted.1.1
      rw [step, findActive_of_mem invariant member] at taken
      exact finishCommit_spec invariant uncommitted member _ _ outcome taken
  | rollback transactionId =>
      obtain ⟨current, member, rfl⟩ := exists_active permitted.1.1
      rw [step, findActive_of_mem invariant member] at taken
      refine remove_modified uncommitted
        (invariant.modify current.transactionId DuckTransaction.rollback
          (fun _ => rfl) (fun _ => rfl) fun _ _ running => Or.inl running)
        member DuckTransaction.rollback (fun _ => rfl) rfl rfl (fun committed => ?_) taken
      exact absurd (uncommitted current member) committed
  | cleanup =>
      rw [step] at taken
      cases queued : system.manager.cleanupQueue with
      | nil =>
          rw [queued] at taken
          cases taken
          exact ⟨invariant, uncommitted, .of_same id rfl⟩
      | cons first rest =>
          rw [queued] at taken
          cases taken
          refine ⟨invariant.cleanup queued, uncommitted, .of_same id ?_⟩
          simp [batched, queued]

/-! ## Runs -/

theorem invariant_of_reaches {operations : List TransactionOperation}
    (reached : Reaches step Permitted start operations system) :
    system.Invariant ∧ system.Uncommitted := by
  apply reached.state_invariant (fun system => system.Invariant ∧ system.Uncommitted) invariant_start
  intro system operation next held permitted taken
  obtain ⟨invariant, uncommitted, -⟩ := step_spec held.1 held.2 permitted taken
  exact ⟨invariant, uncommitted⟩

/-- The watermarks are the least ones, and finished transactions are kept once, or not at all. -/
structure Tracked (system : TransactionSystem) : Prop where
  lowestStart : system.manager.activeTransactions ≠ [] →
    IsLeast {start | start ∈ system.startTimes} system.manager.lowestActiveStart
  lowestId : system.manager.activeTransactions ≠ [] →
    IsLeast {identifier | identifier ∈ system.activeIds} system.manager.lowestActiveId
  increasing : system.manager.recentlyCommittedTransactions.Pairwise fun before after =>
    before.commitId < after.commitId
  accounted : ∀ finished ∈ system.finished, (ids system.kept).count finished.transactionId =
    if finished.changesLeft then 1 else 0

theorem Invariant.tracked (invariant : system.Invariant) : system.Tracked := by
  constructor
  · intro some_active
    apply invariant.lowestStart
    simpa [startTimes] using some_active
  · intro some_active
    apply invariant.lowestId
    simpa [activeIds, ids] using some_active
  · exact invariant.increasing
  · intro finished member
    have left := (invariant.accounted finished member).2.2
    have once := (List.nodup_append.mp invariant.nodup).2.1
    split
    · rename_i changes
      exact List.count_eq_one_of_mem once (left.mp changes)
    · rename_i gone
      exact List.count_eq_zero_of_not_mem fun inKept => gone (left.mpr inKept)

/--
In every reachable state the transactions are tracked, and every step cleans up only what has waited
for the transactions and queries that may read it.
-/
theorem tracked_of_run {operations : List TransactionOperation}
    (reached : Reaches step Permitted start operations system) :
    system.Tracked ∧ ∀ operation next, system.Permitted operation →
      system.step operation = .ok next → system.CleansUp next := by
  obtain ⟨invariant, uncommitted⟩ := invariant_of_reaches reached
  refine ⟨invariant.tracked, fun operation next permitted taken => ?_⟩
  exact (step_spec invariant uncommitted permitted taken).2.2

/--
A transaction commits an update while a query runs in a later one, and is cleaned up once that
query has finished.
-/
theorem tracked_of_run_update :
    ∃ system : TransactionSystem, (system.Tracked ∧ ∀ operation next, system.Permitted operation →
        system.step operation = .ok next → system.CleansUp next) ∧
      ids system.batched = [transactionIdStart] := by
  obtain ⟨system, reached, cleaned⟩ := Reaches.exists_of_guarded_foldlM step Permitted start
    [.startTransaction, .startTransaction, .pushUndo transactionIdStart .updateTuple,
      .writeToWAL transactionIdStart, .commit transactionIdStart .success, .startTransaction,
      .newQueryNumber, .setActiveQuery (transactionIdStart + 2) (some 1),
      .commit (transactionIdStart + 1) .success, .startTransaction, .newQueryNumber,
      .newQueryNumber, .setActiveQuery (transactionIdStart + 2) (some 3),
      .commit (transactionIdStart + 3) .success]
    (fun system => decide (ids system.batched = [transactionIdStart])) (by decide +kernel)
  exact ⟨system, tracked_of_run reached, of_decide_eq_true cleaned⟩

/-! ## When the timestamps run out -/

/-- Nothing is active or kept, and no commit is under way. -/
structure Quiet (system : TransactionSystem) : Prop where
  active : system.manager.activeTransactions = []
  recent : system.manager.recentlyCommittedTransactions = []
  pending : system.pending = []
  abandoned : system.abandoned = []

/-- A transaction that starts when nothing is active is the only active one. -/
theorem Quiet.started (quiet : system.Quiet)
    (room : system.manager.currentStartTimestamp < transactionIdStart) :
    ∃ next, system.step .startTransaction = .ok next ∧
      next.manager.activeTransactions = [.create system.manager.currentStartTimestamp
        system.manager.currentTransactionId] ∧
      next.manager.recentlyCommittedTransactions = [] ∧ next.pending = [] ∧ next.abandoned = [] ∧
      next.manager.currentStartTimestamp = system.manager.currentStartTimestamp + 1 := by
  cases started : system.manager.startTransaction with
  | error message =>
      rw [startTransaction, if_neg (Nat.not_le.mpr room)] at started
      cases started
  | ok manager =>
      obtain ⟨-, active, ⟨timestamp, -⟩, ⟨recent, -⟩, -⟩ := startTransaction_spec started
      refine ⟨{ system with manager }, ?_, ?_, ?_, quiet.pending, quiet.abandoned, timestamp⟩
      · rw [step, started]
        rfl
      · rw [active, quiet.active, List.nil_append]
      · rw [recent, quiet.recent]

/-- Removing the only active transaction. -/
theorem remove_only (system : TransactionSystem) (current : DuckTransaction)
    (active : system.manager.activeTransactions = [current])
    (madeChanges storeTransaction : Bool) :
    ∃ next, system.remove current.transactionId madeChanges storeTransaction = .ok next ∧
      next.manager.activeTransactions = [] ∧
      next.manager.recentlyCommittedTransactions =
        (system.manager.recentlyCommittedTransactions ++
          if storeTransaction && current.commitId != 0 then [current] else []).dropWhile
            (fun transaction => decide (transaction.commitId < transactionIdStart)) ∧
      (next.pending = system.pending.filter fun commit =>
        commit.transactionId != current.transactionId) ∧
      next.abandoned = system.abandoned ∧
      next.manager.currentStartTimestamp = system.manager.currentStartTimestamp := by
  have nodup : (ids system.manager.activeTransactions).Nodup := by
    rw [active]
    exact List.nodup_singleton _
  obtain ⟨next, cleanupInfo, taken, after⟩ := remove_spec nodup
    (by rw [active]; exact List.mem_singleton_self _) madeChanges storeTransaction
  have none_active : next.manager.activeTransactions = [] := by
    have same : next.manager.activeTransactions = _ := after.removed.active
    rw [same, active]
    simp
  have recent : next.manager.recentlyCommittedTransactions = _ := after.removed.recent
  have lowest : next.manager.lowestActiveStart = _ := after.removed.lowestStart
  have limit : next.manager.lowestActiveStart = transactionIdStart := by
    rw [lowest]
    change next.manager.activeTransactions.foldl _ _ = _
    rw [none_active]
    rfl
  refine ⟨next, taken, none_active, ?_, after.pending, after.abandoned,
    after.removed.currentStartTimestamp⟩
  rw [← limit]
  exact recent

/-- As long as there are timestamps, transactions can start and roll back. -/
theorem exists_quiet (count : Nat) (room : 2 + count ≤ transactionIdStart) :
    ∃ operations system, Reaches step Permitted start operations system ∧ system.Quiet ∧
      system.manager.currentStartTimestamp = 2 + count := by
  induction count with
  | zero => exact ⟨[], start, .start, ⟨rfl, rfl, rfl, rfl⟩, rfl⟩
  | succ count ih =>
      obtain ⟨operations, system, reached, quiet, timestamp⟩ := ih (by omega)
      obtain ⟨middle, taken, active, recent, pending, abandoned, advanced⟩ :=
        quiet.started (by omega)
      have reached_middle := reached.next (show system.Permitted .startTransaction from trivial) taken
      obtain ⟨next, removed, none_active, none_recent, none_pending, none_abandoned, same⟩ :=
        remove_only { middle with
          manager := middle.manager.modifyActive system.manager.currentTransactionId
            DuckTransaction.rollback } (DuckTransaction.create
              system.manager.currentStartTimestamp system.manager.currentTransactionId).rollback
          (by simp [modifyActive, active, DuckTransaction.create]) false false
      have rolled : middle.step (.rollback system.manager.currentTransactionId) = .ok next := by
        rw [step, findActive, active, List.find?_singleton, if_pos (by simp [DuckTransaction.create])]
        exact removed
      have permitted : middle.Permitted (.rollback system.manager.currentTransactionId) := by
        simp [Permitted, Idle, Usable, active, pending, abandoned, ids, DuckTransaction.create]
      refine ⟨_, next, reached_middle.next permitted rolled, ⟨none_active, ?_, ?_, ?_⟩, ?_⟩
      · simp [none_recent, modifyActive, recent]
      · simp [none_pending, pending]
      · rw [none_abandoned]
        exact abandoned
      · rw [same]
        exact advanced.trans (by rw [timestamp, Nat.add_assoc])

/-- Insertions that are rolled back leave nothing to keep, and late commits are never retired. -/
theorem not_tracked :
    (¬∀ operations system, Reaches step Permitted start operations system →
      ∀ finished ∈ system.finished, finished.madeChanges = true →
        (ids system.kept).count finished.transactionId = 1) ∧
    ¬∀ operations system, Reaches step Permitted start operations system →
      ∀ operation next, system.Permitted operation → system.step operation = .ok next →
        system.manager.activeTransactions ≠ [] → next.manager.activeTransactions = [] →
        next.manager.recentlyCommittedTransactions = [] ∧ next.manager.oldTransactions = [] := by
  constructor
  · intro claim
    obtain ⟨system, reached, lost⟩ := Reaches.exists_of_guarded_foldlM step Permitted start
      [.startTransaction, .writeLocal transactionIdStart [5], .rollback transactionIdStart]
      (fun system => decide (system.finished = [⟨transactionIdStart, true, false, false⟩] ∧
        ids system.kept = [])) (by decide +kernel)
    obtain ⟨finished, nothing⟩ := of_decide_eq_true lost
    have once := claim _ system reached ⟨transactionIdStart, true, false, false⟩
      (by rw [finished]; exact List.mem_singleton_self _) rfl
    rw [nothing] at once
    cases once
  · intro claim
    -- the last timestamp for a start is followed by a commit id that no watermark can pass
    obtain ⟨operations, system, reached, quiet, timestamp⟩ :=
      exists_quiet (transactionIdStart - 3) (by decide)
    obtain ⟨middle, taken, active, recent, pending, abandoned, advanced⟩ :=
      quiet.started (by rw [timestamp]; decide)
    have reached_middle := reached.next (show system.Permitted .startTransaction from trivial) taken
    obtain ⟨identifier, hidentifier⟩ :
        ∃ identifier, identifier = system.manager.currentTransactionId := ⟨_, rfl⟩
    rw [← hidentifier] at active
    obtain ⟨current, hcurrent⟩ : ∃ current, current = { DuckTransaction.create
      system.manager.currentStartTimestamp identifier with undoBuffer := [.updateTuple] } := ⟨_, rfl⟩
    obtain ⟨updated, hupdated⟩ : ∃ updated : TransactionSystem, updated = { middle with
      manager := { middle.manager with activeTransactions := [current] } } := ⟨_, rfl⟩
    have pushed : middle.step (.pushUndo identifier .updateTuple) = .ok updated := by
      rw [step, hupdated, hcurrent]
      simp [modifyActive, active, DuckTransaction.create, pure, Except.pure]
    have reached_updated := reached_middle.next (show middle.Permitted (.pushUndo identifier _) by
      simp [Permitted, Idle, Usable, active, pending, abandoned, ids, DuckTransaction.create]) pushed
    obtain ⟨next, removed, none_active, none_recent, -⟩ :=
      remove_only { updated with
        manager := updated.manager.getCommitTimestamp.2.modifyActive identifier fun active =>
          active.commit updated.manager.getCommitTimestamp.1 }
        (current.commit updated.manager.getCommitTimestamp.1)
        (by simp [modifyActive, getCommitTimestamp, hupdated, hcurrent, DuckTransaction.create])
        true true
    have committed : updated.step (.commit identifier .success) = .ok next := by
      rw [step, findActive]
      have found : (updated.manager.activeTransactions.find? fun active =>
          active.transactionId == identifier) = some current := by
        simp [hupdated, hcurrent, DuckTransaction.create]
      rw [found]
      dsimp only [bind, Except.bind, pure, Except.pure]
      have unpending : (updated.pending.find? fun commit => commit.transactionId == identifier) =
          none := by
        simp [hupdated, pending]
      rw [unpending]
      have same_id : (current.commit updated.manager.getCommitTimestamp.1).transactionId =
          identifier := by
        rw [hcurrent]
        rfl
      have made : current.changesMade = true := by
        rw [hcurrent]
        rfl
      have stores : storesTransaction (.of current.undoBuffer) = true := by
        rw [hcurrent]
        rfl
      rw [same_id] at removed
      rw [finishCommit, made, stores]
      exact removed
    have permitted : updated.Permitted (.commit identifier .success) := by
      simp [Permitted, Usable, hupdated, hcurrent, abandoned, ids, DuckTransaction.create]
    obtain ⟨emptied, -⟩ := claim _ updated reached_updated (.commit identifier .success) next permitted
      committed (by simp [hupdated]) none_active
    have last : updated.manager.getCommitTimestamp.1 = transactionIdStart := by
      rw [hupdated]
      exact advanced.trans (by rw [timestamp]; decide)
    have before : (modifyActive updated.manager.getCommitTimestamp.2 identifier fun active =>
        active.commit updated.manager.getCommitTimestamp.1).recentlyCommittedTransactions = [] := by
      rw [hupdated]
      exact recent
    rw [none_recent, before, last, List.nil_append, if_pos (by rfl),
      List.dropWhile_cons_of_neg (by simp [DuckTransaction.commit])] at emptied
    cases emptied

end TransactionSystem

end StatsRecommender
