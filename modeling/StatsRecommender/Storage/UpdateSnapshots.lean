import StatsRecommender.Storage.UpdateSteps

/-!
# Snapshots of updates

In every run, the update segment shows each transaction its snapshot of the rows, lets the first of
two overlapping updates win, and loses none that was committed.
-/

namespace StatsRecommender

open SortedEntries VectorUpdates

variable {T : Type} {updates : VectorUpdates T} {operations : List (UpdateOperation T)} {row : Nat}

namespace UpdatedVector

variable {base : BaseVector T} {state next : UpdatedVector T} {transaction : TransactionData}
  {operation : UpdateOperation T}

/-! ## Steps -/

/-- An update that meets no conflict is made. -/
theorem Consistent.merge (consistent : state.Consistent base) (member : transaction ∈ state.active)
    {root : ChainedUpdate T} (is_root : state.updates.root = some root) {rows : List (Nat × T)}
    (sorted : Sorted rows) (inside : ∀ entry ∈ rows, entry.1 < standardVectorSize)
    (in_front : ¬state.Overtaken transaction (rows.map Prod.fst))
    (made : (checkForConflicts transaction (rows.map Prod.fst) 0 none state.updates.chain).map
      (mergeUpdate base transaction rows root state.updates.chain) = .ok updates) :
    Consistent base
      { state with updates, history := writeRows transaction rows state.history } := by
  have clean : ∀ info ∈ state.updates.chain, ¬Conflicts transaction (rows.map Prod.fst) info :=
    fun info there conflicts =>
      in_front ((consistent.conflicts_iff member _).mp ⟨info, there, conflicts⟩)
  rw [checkForConflicts_ok (List.pairwise_map.mpr sorted) consistent.chained.shaped
    consistent.chained.nodup _ _ clean, Option.or_none] at made
  cases found : state.updates.chain.findIdx? fun info =>
      info.versionNumber == transaction.transactionId with
  | none =>
      rw [found] at made
      cases made
      have foreign : ∀ info ∈ state.updates.chain,
          info.versionNumber ≠ transaction.transactionId := by
        intro info there
        simpa using List.findIdx?_eq_none_iff.mp found info there
      have split : (⟨transaction.transactionId, []⟩ : ChainedUpdate T) :: state.updates.chain =
          [] ++ ⟨transaction.transactionId, []⟩ :: state.updates.chain := rfl
      exact (consistent.open member is_root foreign).write member rfl split rfl sorted inside
        in_front
  | some place =>
      rw [found] at made
      cases made
      obtain ⟨front, node, back, split, rfl, own⟩ := exists_split found
      have written := consistent.write member is_root split own sorted inside in_front
      have merged : mergeUpdate base transaction rows root state.updates.chain
          (some front.length) = ⟨some { root with entries := mergeLoop rows root.entries },
            front ++ ⟨node.versionNumber,
              mergeOldValues base (rows.map Prod.fst) node.entries root.entries⟩ :: back⟩ := by
        rw [mergeUpdate]
        change VectorUpdates.mk _ (state.updates.chain.modify front.length _) = _
        rw [split, modify_between]
      change Consistent base
        { state with
          updates := mergeUpdate base transaction rows root state.updates.chain (some front.length)
          history := writeRows transaction rows state.history }
      rw [merged]
      exact written

theorem initial_consistent (base : BaseVector T) : (initial : UpdatedVector T).Consistent base := by
  constructor
  case timed =>
    have clock : 2 < transactionIdStart := by decide
    refine ⟨clock, le_rfl, List.nodup_nil, fun other member => ?_⟩
    cases member
  case chained =>
    refine ⟨fun info there => ?_, List.nodup_nil, fun info there => ?_, List.Pairwise.nil⟩
    · cases there
    · cases there
  case rooted =>
    refine ⟨fun root same => ?_, fun _ => ⟨rfl, fun _ => rfl⟩, fun root same => ?_,
      fun root same => ?_⟩
    · cases same
    · cases same
    · cases same
  case traces =>
    exact fun row => .settled (fun version first => by cases first)
      fun entry there => by cases there
  case known =>
    intro row version there
    cases there
  case serial => exact fun row => List.Pairwise.nil

variable [DecidableEq T] {sort : RowSort T}

/-- `Update` keeps the agreement. -/
theorem Consistent.update (consistent : state.Consistent base) (member : transaction ∈ state.active)
    {given : List (Nat × Option T)} (inside : ∀ entry ∈ given, entry.1 < standardVectorSize)
    (made : state.updates.update sort base transaction given = .ok updates) :
    Consistent base
      { state with
        updates
        history := writeRows transaction (state.updates.effectiveUpdates sort base given)
          state.history } := by
  obtain ⟨sorted, subset⟩ := effectiveUpdates_sorted sort base state.updates given
  have inside : ∀ entry ∈ state.updates.effectiveUpdates sort base given,
      entry.1 < standardVectorSize := fun entry there => inside _ (subset entry there)
  have in_front : ¬state.Overtaken transaction
      ((state.updates.effectiveUpdates sort base given).map Prod.fst) := by
    intro overtaken
    rw [(consistent.update_error_iff member sort given).mpr overtaken] at made
    cases made
  by_cases none_made : state.updates.effectiveUpdates sort base given = []
  · rw [update_of_nil none_made] at made
    cases made
    rw [none_made]
    exact consistent
  · cases is_root : state.updates.root with
    | none =>
        rw [update_of_rootless none_made is_root] at made
        cases made
        exact consistent.update_rootless member is_root sorted inside
    | some root =>
        rw [update_of_root none_made is_root] at made
        exact consistent.merge member is_root sorted inside in_front made

theorem Consistent.step (consistent : state.Consistent base)
    (permitted : state.Permitted operation) (taken : step sort base state operation = .ok next) :
    next.Consistent base := by
  cases operation with
  | startTransaction =>
      cases taken
      exact consistent.start permitted
  | update transaction given =>
      obtain ⟨member, inside⟩ := permitted
      rw [UpdatedVector.step] at taken
      cases made : state.updates.update sort base transaction given with
      | error message =>
          rw [made] at taken
          cases taken
      | ok updates =>
          rw [made] at taken
          cases taken
          exact consistent.update member inside made
  | commit transaction =>
      obtain ⟨member, in_time⟩ := permitted
      rw [UpdatedVector.step, commit_chain _ consistent.chained.nodup] at taken
      cases taken
      exact consistent.commit member in_time
  | rollback transaction =>
      rw [UpdatedVector.step, consistent.rollback_updates] at taken
      cases taken
      exact consistent.rollback permitted
  | cleanup place =>
      cases taken
      exact consistent.cleanup permitted

theorem Run.consistent (run : Run sort base operations state) : state.Consistent base :=
  run.state_invariant (Consistent base) (initial_consistent base)
    fun _ _ _ consistent permitted taken => consistent.step permitted taken

/-! ## What runs show -/

/--
In every run, a transaction under way reads in each row the newest value that it wrote itself or
that was committed before it started, and the value of the vector where there is none.  Rows that
are fetched one by one agree.
-/
theorem snapshot_of_run {operations : List (UpdateOperation T)}
    (run : Run sort base operations state) (member : transaction ∈ state.active) (row : Nat) :
    IsSnapshot base transaction row (state.history row)
        (state.updates.fetchUpdates transaction base.data row) ∧
      state.updates.fetchRow transaction row (base.data row) =
        state.updates.fetchUpdates transaction base.data row :=
  ⟨run.consistent.fetchUpdates member row, run.consistent.fetchRow_eq row⟩

/--
In every run, an update fails exactly if the transaction does not see the newest version of one of
the rows; and each version of a row was written by a transaction that started after all older ones
were committed, so that no committed value is overwritten unseen.
-/
theorem no_lost_update_of_run {operations : List (UpdateOperation T)}
    (run : Run sort base operations state) :
    (∀ row, Serial (state.history row)) ∧
      ∀ transaction ∈ state.active, ∀ given,
        state.updates.update sort base transaction given = .error "Conflict on update!" ↔
          state.Overtaken transaction (state.updatedRows sort base given) :=
  ⟨run.consistent.serial, fun _ member given => run.consistent.update_error_iff member sort given⟩

/-- Rows sorted one by one. -/
def insertionSort : RowSort Nat where
  sort entries := entries.insertionSort fun first second => first.1 ≤ second.1
  perm entries := List.perm_insertionSort _ entries
  sorted entries := List.pairwise_insertionSort _ entries

/-- A vector of prices. -/
def prices : BaseVector Nat := ⟨fun row => 100 + row, fun _ => true, fun _ => 0⟩

def firstBuyer : TransactionData := ⟨2, transactionIdStart⟩

def secondBuyer : TransactionData := ⟨3, transactionIdStart + 1⟩

/-- The first transaction updates two rows; the second one starts before that is committed. -/
def overlapping : List (UpdateOperation Nat) :=
  [.startTransaction, .update firstBuyer [(4, some 7), (0, some 5)], .startTransaction]

theorem snapshot_of_run_overlapping :
    ∃ state : UpdatedVector Nat, secondBuyer ∈ state.active ∧
      state.updates.fetchCommitted prices.data 4 = 7 ∧
      IsSnapshot prices secondBuyer 4 (state.history 4)
        (state.updates.fetchUpdates secondBuyer prices.data 4) := by
  obtain ⟨state, run, passed⟩ := Reaches.exists_of_guarded_foldlM (step insertionSort prices)
    Permitted initial (overlapping ++ [.commit firstBuyer])
    (fun state => decide (secondBuyer ∈ state.active) &&
      decide (state.updates.fetchCommitted prices.data 4 = 7)) (by decide +kernel)
  obtain ⟨member, newest⟩ := Bool.and_eq_true_iff.mp passed
  have member := of_decide_eq_true member
  exact ⟨state, member, of_decide_eq_true newest, (snapshot_of_run run member 4).1⟩

theorem no_lost_update_of_run_overlapping :
    ∃ state : UpdatedVector Nat, secondBuyer ∈ state.active ∧
      state.updates.update insertionSort prices secondBuyer [(9, some 1), (4, some 8)] =
        .error "Conflict on update!" := by
  obtain ⟨state, run, passed⟩ := Reaches.exists_of_guarded_foldlM (step insertionSort prices)
    Permitted initial (overlapping ++ [.commit firstBuyer])
    (fun state => decide (secondBuyer ∈ state.active) &&
      decide (state.Overtaken secondBuyer
        (state.updatedRows insertionSort prices [(9, some 1), (4, some 8)])))
    (by decide +kernel)
  obtain ⟨member, overtaken⟩ := Bool.and_eq_true_iff.mp passed
  have member := of_decide_eq_true member
  exact ⟨state, member, ((no_lost_update_of_run run).2 secondBuyer member _).mpr
    (of_decide_eq_true overtaken)⟩

omit [DecidableEq T] in
/-- Without versions in the chain, everybody sees the newest version of a row. -/
theorem Consistent.seen_of_no_chain (consistent : state.Consistent base)
    (member : transaction ∈ state.active) (no_chain : state.updates.chain = []) (row : Nat) :
    ∀ version ∈ (state.history row).head?, version.visibleTo transaction = true := by
  intro version first
  cases visible : version.visibleTo transaction with
  | true => rfl
  | false =>
      obtain ⟨entry, there, -⟩ := (consistent.applies_head member row).mpr ⟨version, first, visible⟩
      rw [no_chain] at there
      cases there

omit [DecidableEq T] in
/-- Without transactions under way, the next one sees every version. -/
theorem Consistent.seen_of_idle (consistent : state.Consistent base) (idle : state.active = [])
    {version : WrittenValue T} (there : version ∈ state.history row) (id : Nat) :
    version.visibleTo ⟨state.clock, id⟩ = true := by
  have known := consistent.known row version there
  rw [Known] at known
  rw [WrittenValue.visibleTo]
  cases stamp : version.stamp with
  | uncommitted transactionId =>
      rw [stamp, idle] at known
      cases known
  | committed commitId =>
      rw [stamp] at known
      exact decide_eq_true known.2.1

/--
In every run, what is fetched as committed is what all transactions read, if there are no
outstanding updates; and it is what the next transaction reads, if none is under way.
-/
theorem committed_of_run {operations : List (UpdateOperation T)}
    (run : Run sort base operations state) {row : Nat}
    (written : base.valid row = true ∨ state.history row ≠ []) :
    (state.updates.hasUncommittedUpdates = false → ∀ transaction ∈ state.active,
      state.updates.fetchUpdates transaction base.data row =
        state.updates.fetchCommitted base.data row) ∧
    (state.active = [] → state.Permitted .startTransaction →
      ∀ next, step sort base state .startTransaction = .ok next → ∀ transaction ∈ next.active,
        next.updates.fetchUpdates transaction base.data row =
          state.updates.fetchCommitted base.data row) := by
  have consistent := run.consistent
  constructor
  · intro none_outstanding transaction member
    have no_chain : state.updates.chain = [] := by
      cases is_root : state.updates.root with
      | none => exact (consistent.rooted.rootless is_root).1
      | some root =>
          rw [hasUncommittedUpdates, is_root] at none_outstanding
          simpa using none_outstanding
    exact consistent.fetchUpdates_eq member written
      (consistent.seen_of_no_chain member no_chain row)
  · intro idle permitted next taken transaction member
    have later := consistent.start permitted
    cases taken
    rw [idle] at member
    cases List.mem_singleton.mp member
    refine later.fetchUpdates_eq ?_ written fun version first => ?_
    · exact List.mem_append_right _ List.mem_cons_self
    · exact consistent.seen_of_idle idle (List.mem_of_mem_head? first) _

/-- A transaction that starts after the first one is committed. -/
def reader : TransactionData := ⟨4, transactionIdStart + 1⟩

theorem committed_of_run_cleaned_up :
    ∃ state : UpdatedVector Nat, reader ∈ state.active ∧
      state.updates.fetchCommitted prices.data 4 = 7 ∧
      state.updates.fetchUpdates reader prices.data 4 =
        state.updates.fetchCommitted prices.data 4 := by
  obtain ⟨state, run, passed⟩ := Reaches.exists_of_guarded_foldlM (step insertionSort prices)
    Permitted initial
    [.startTransaction, .update firstBuyer [(4, some 7), (0, some 5)], .commit firstBuyer,
      .startTransaction, .cleanup 0]
    (fun state => decide (reader ∈ state.active) && !state.updates.hasUncommittedUpdates &&
      decide (state.updates.fetchCommitted prices.data 4 = 7)) (by decide +kernel)
  obtain ⟨passed, newest⟩ := Bool.and_eq_true_iff.mp passed
  obtain ⟨member, clean⟩ := Bool.and_eq_true_iff.mp passed
  have member := of_decide_eq_true member
  exact ⟨state, member, of_decide_eq_true newest, (committed_of_run run (.inl rfl)).1
    ((Bool.not_eq_true' _).mp clean) reader member⟩

/-! ## Reading again -/

/-- A transaction that is under way after a step, and not new, was so before. -/
theorem mem_active_of_step (taken : step sort base state operation = .ok next) :
    state.nextId ≤ next.nextId ∧ (transaction.transactionId < state.nextId →
      transaction ∈ next.active → transaction ∈ state.active) := by
  cases operation with
  | startTransaction =>
      cases taken
      refine ⟨Nat.le_succ _, fun known member => ?_⟩
      rcases List.mem_append.mp member with before | new
      · exact before
      · cases List.mem_singleton.mp new
        exact absurd known (lt_irrefl _)
  | update other given =>
      rw [UpdatedVector.step] at taken
      cases made : state.updates.update sort base other given with
      | error message =>
          rw [made] at taken
          cases taken
      | ok updates =>
          rw [made] at taken
          cases taken
          exact ⟨le_rfl, fun _ member => member⟩
  | commit other =>
      cases taken
      exact ⟨le_rfl, fun _ member => (mem_without.mp member).1⟩
  | rollback other =>
      cases taken
      exact ⟨le_rfl, fun _ member => (mem_without.mp member).1⟩
  | cleanup place =>
      cases taken
      exact ⟨le_rfl, fun _ member => member⟩

/-- A step leaves what a transaction sees of a row that it does not write itself. -/
theorem Consistent.filter_step (consistent : state.Consistent base)
    (permitted : state.Permitted operation)
    (taken : UpdatedVector.step sort base state operation = .ok next)
    (member : transaction ∈ state.active) (after : transaction ∈ next.active)
    (leaves : LeavesRow transaction row operation) :
    (next.history row).filter (WrittenValue.visibleTo transaction) =
      (state.history row).filter (WrittenValue.visibleTo transaction) := by
  cases operation with
  | startTransaction =>
      cases taken
      rfl
  | update other given =>
      obtain ⟨is_active, -⟩ := permitted
      rw [UpdatedVector.step] at taken
      cases made : state.updates.update sort base other given with
      | error message =>
          rw [made] at taken
          cases taken
      | ok updates =>
          rw [made] at taken
          cases taken
          change (writeRows other _ state.history row).filter _ = _
          cases written : lookup row (state.updates.effectiveUpdates sort base given) with
          | none => rw [writeRows_of_none written]
          | some value =>
              have given_row := (effectiveUpdates_sorted sort base state.updates given).2 _
                (mem_of_lookup written)
              have foreign : other.transactionId ≠ transaction.transactionId := by
                intro same
                exact leaves (consistent.timed.eq_of_id is_active member same) _ given_row rfl
              rw [writeRows_of_some written, filter_write foreign]
  | commit other =>
      cases taken
      have foreign := (mem_without.mp after).2.symm
      exact filter_commit foreign (consistent.timed.active _ member).1 _
  | rollback other =>
      cases taken
      exact filter_rollback (mem_without.mp after).2.symm _
  | cleanup place =>
      cases taken
      rfl

/-- A transaction sees the same of a row throughout, where it does not write the row itself. -/
theorem Consistent.filter_reaches (consistent : state.Consistent base)
    (later : Reaches (UpdatedVector.step sort base) Permitted state operations next)
    (member : transaction ∈ state.active)
    (leaves : ∀ operation ∈ operations, LeavesRow transaction row operation) :
    next.Consistent base ∧ state.nextId ≤ next.nextId ∧ (transaction ∈ next.active →
      (next.history row).filter (WrittenValue.visibleTo transaction) =
        (state.history row).filter (WrittenValue.visibleTo transaction)) := by
  induction later with
  | start => exact ⟨consistent, le_rfl, fun _ => rfl⟩
  | @next operations middle next operation _ permitted taken ih =>
      obtain ⟨agrees, kept, same⟩ := ih fun operation before =>
        leaves operation (List.mem_append_left _ before)
      have known := ((consistent.timed.active _ member).2.2).trans_le kept
      obtain ⟨grows, was_active⟩ := mem_active_of_step taken
      refine ⟨agrees.step permitted taken, kept.trans grows, fun after => ?_⟩
      have before := was_active known after
      rw [agrees.filter_step permitted taken before after
        (leaves operation (List.mem_append_right _ List.mem_cons_self))]
      exact same before

/--
In every run, a transaction that reads a row again reads the same, as long as it does not write the
row itself: whatever the others start, update, commit, roll back or clean up in between.
-/
theorem repeatable_read_of_run {operations later_operations : List (UpdateOperation T)}
    (run : Run sort base operations state)
    (later : Reaches (UpdatedVector.step sort base) Permitted state later_operations next)
    (before : transaction ∈ state.active) (after : transaction ∈ next.active) {row : Nat}
    (valid : base.valid row = true)
    (leaves : ∀ operation ∈ later_operations, LeavesRow transaction row operation) :
    next.updates.fetchUpdates transaction base.data row =
      state.updates.fetchUpdates transaction base.data row := by
  obtain ⟨consistent, -, same⟩ := run.consistent.filter_reaches later before leaves
  have first := run.consistent.fetchUpdates before row
  have second := consistent.fetchUpdates after row
  rw [IsSnapshot, same after] at second
  rw [IsSnapshot] at first
  cases seen : (state.history row).filter (WrittenValue.visibleTo transaction) with
  | nil =>
      rw [seen] at first second
      exact (second valid).trans (first valid).symm
  | cons version older =>
      rw [seen] at first second
      exact second.trans first.symm

theorem repeatable_read_of_run_overlapping :
    ∃ state next : UpdatedVector Nat,
      next.updates.fetchCommitted prices.data 4 = 7 ∧ secondBuyer ∈ next.active ∧
      next.updates.fetchUpdates secondBuyer prices.data 4 =
        state.updates.fetchUpdates secondBuyer prices.data 4 := by
  obtain ⟨state, run, passed⟩ := Reaches.exists_of_guarded_foldlM (step insertionSort prices)
    Permitted initial overlapping
    (fun state : UpdatedVector Nat => decide (secondBuyer ∈ state.active) &&
      ([UpdateOperation.commit firstBuyer].foldlM
        (Reaches.guardedStep (step insertionSort prices) Permitted) state).any fun next : UpdatedVector Nat => decide (secondBuyer ∈ next.active) &&
          decide (next.updates.fetchCommitted prices.data 4 = 7)) (by decide +kernel)
  obtain ⟨before, passed⟩ := Bool.and_eq_true_iff.mp passed
  obtain ⟨next, later, passed⟩ := Reaches.exists_of_guarded_foldlM (step insertionSort prices)
    Permitted state [.commit firstBuyer] _ passed
  obtain ⟨after, newest⟩ := Bool.and_eq_true_iff.mp passed
  have before := of_decide_eq_true before
  have after := of_decide_eq_true after
  refine ⟨state, next, of_decide_eq_true newest, after,
    repeatable_read_of_run run later before after rfl fun operation there => ?_⟩
  cases List.mem_singleton.mp there
  trivial

end UpdatedVector

end StatsRecommender
