import StatsRecommender.Storage.UpdateInvariant

/-!
# Steps of updates

Starting, committing, rolling back and cleaning up keep the update segment in agreement with the
histories; so does an update, which fails exactly where another transaction was faster.
-/

namespace StatsRecommender

open SortedEntries VectorUpdates

variable {T : Type} {clock row place : Nat} {version : WrittenValue T}
  {older : List (WrittenValue T)} {old value : T} {root node : ChainedUpdate T}
  {rows : List (Nat × T)} {front back : List (ChainedUpdate T)}

namespace UpdatedVector

variable {base : BaseVector T} {state : UpdatedVector T} {transaction : TransactionData}

/-! ## Starting -/

theorem Consistent.start (consistent : state.Consistent base)
    (in_time : state.clock + 1 < transactionIdStart) :
    Consistent base
      { state with
        active := state.active ++ [⟨state.clock, state.nextId⟩]
        clock := state.clock + 1
        nextId := state.nextId + 1 } := by
  have timed := consistent.timed
  have settled : ∀ id, state.Settled id →
      Settled { state with
        active := state.active ++ [⟨state.clock, state.nextId⟩]
        clock := state.clock + 1
        nextId := state.nextId + 1 } id := by
    intro id settled
    refine ⟨Nat.lt_succ_of_lt settled.1, fun other member => ?_⟩
    rcases List.mem_append.mp member with before | new
    · exact settled.2 other before
    · cases List.mem_singleton.mp new
      exact settled.1
  constructor
  case timed =>
    refine ⟨in_time, Nat.le_succ_of_le timed.nextId, ?_, fun other member => ?_⟩
    · rw [List.map_append, List.nodup_append]
      refine ⟨timed.nodup, List.nodup_singleton _, fun id before id' new => ?_⟩
      obtain ⟨other, member, rfl⟩ := List.mem_map.mp before
      cases List.mem_singleton.mp new
      exact (timed.active other member).2.2.ne
    · rcases List.mem_append.mp member with before | new
      · obtain ⟨early, late, known⟩ := timed.active other before
        exact ⟨Nat.lt_succ_of_lt early, late, Nat.lt_succ_of_lt known⟩
      · cases List.mem_singleton.mp new
        exact ⟨Nat.lt_succ_self _, timed.nextId, Nat.lt_succ_self _⟩
  case chained =>
    refine ⟨consistent.chained.shaped, consistent.chained.nodup, fun info member => ?_, ?_⟩
    · rcases consistent.chained.versions info member with early | ⟨other, member, same⟩
      · exact .inl (Nat.lt_succ_of_lt early)
      · exact .inr ⟨other, List.mem_append_left _ member, same⟩
    · refine consistent.chained.own.imp_of_mem fun {newer older} _ there own other member same => ?_
      rcases List.mem_append.mp member with before | new
      · exact own other before same
      · cases List.mem_singleton.mp new
        rcases consistent.chained.versions older there with early | ⟨owner, member, version⟩
        · rw [same] at early
          exact absurd (early.trans timed.clock) (not_lt.mpr timed.nextId)
        · rw [← version] at same
          exact absurd same (timed.active owner member).2.2.ne
  case rooted =>
    exact ⟨consistent.rooted.shaped, consistent.rooted.rootless, consistent.rooted.absent,
      consistent.rooted.current⟩
  case traces => exact fun row => (consistent.traces row).mono settled
  case known =>
    intro row version member
    have known := consistent.known row version member
    rw [Known] at known ⊢
    cases stamp : version.stamp with
    | uncommitted transactionId =>
        rw [stamp] at known
        exact List.mem_append_left _ known
    | committed commitId =>
        rw [stamp] at known
        refine ⟨known.1, Nat.lt_succ_of_lt known.2.1, fun other member => ?_⟩
        rcases List.mem_append.mp member with before | new
        · exact known.2.2 other before
        · cases List.mem_singleton.mp new
          exact known.2.1.ne
  case serial => exact consistent.serial

/-! ## Ending -/

theorem mem_without {active : List TransactionData} {other : TransactionData} :
    other ∈ without transaction active ↔
      other ∈ active ∧ other.transactionId ≠ transaction.transactionId := by
  rw [without, List.mem_filter, decide_eq_true_eq]

/-- What remains of a consistent state when a transaction ends. -/
theorem Timed.without (timed : state.Timed) (later : state.clock ≤ clock)
    (in_time : clock < transactionIdStart) (updates : VectorUpdates T)
    (history : Nat → List (WrittenValue T)) :
    Timed ⟨updates, history, without transaction state.active, clock, state.nextId⟩ := by
  refine ⟨in_time, timed.nextId, ?_, fun other member => ?_⟩
  · exact timed.nodup.sublist (List.filter_sublist.map _)
  · obtain ⟨early, late, known⟩ := timed.active other (mem_without.mp member).1
    exact ⟨early.trans_le later, late, known⟩

theorem Settled.without {id : Nat} (settled : state.Settled id) (later : state.clock ≤ clock)
    (updates : VectorUpdates T) (history : Nat → List (WrittenValue T)) :
    Settled ⟨updates, history, UpdatedVector.without transaction state.active, clock,
      state.nextId⟩ id :=
  ⟨settled.1.trans_le later, fun other member => settled.2 other (mem_without.mp member).1⟩

/-- A version is of the transaction exactly if it has its id. -/
theorem Consistent.stamp_iff (consistent : state.Consistent base)
    (member : transaction ∈ state.active) (is_version : version ∈ state.history row) :
    version.stamp = .uncommitted transaction.transactionId ↔
      version.id = transaction.transactionId := by
  constructor
  · intro stamp
    rw [WrittenValue.id, stamp, Stamp.id]
  · intro same
    exact ((consistent.known row version is_version).uncommitted consistent.timed member same).1

/-! ### Committing -/

/-- The id of a committing transaction becomes its commit id. -/
def renamed (transaction : TransactionData) (commitId id : Nat) : Nat :=
  if id = transaction.transactionId then commitId else id

theorem commit_chain (updates : VectorUpdates T)
    (nodup : (updates.chain.map ChainedUpdate.versionNumber).Nodup)
    (transaction : TransactionData) (commitId : Nat) :
    updates.commitTransaction transaction.transactionId commitId =
      { updates with
        chain := updates.chain.map fun info =>
          { info with versionNumber := renamed transaction commitId info.versionNumber } } := by
  rw [commitTransaction]
  cases found : updates.placeOf transaction.transactionId with
  | none =>
      have same : (updates.chain.map fun info : ChainedUpdate T =>
          { info with versionNumber := renamed transaction commitId info.versionNumber }) =
          updates.chain := by
        refine (List.map_congr_left fun info member => ?_).trans (List.map_id _)
        have other := List.findIdx?_eq_none_iff.mp found info member
        rw [renamed, if_neg (by simpa using other)]
        rfl
      rw [same]
  | some place =>
      have changed := modify_eq_map nodup found fun info =>
        { info with versionNumber := commitId }
      change { updates with chain := updates.chain.modify place _ } = _
      rw [changed]
      congr 1
      refine List.map_congr_left fun info member => ?_
      rw [renamed]
      split
      · rfl
      · rfl

/-- The state after a commit. -/
def committed (state : UpdatedVector T) (transaction : TransactionData) : UpdatedVector T where
  updates :=
    { state.updates with
      chain := state.updates.chain.map fun info =>
        { info with versionNumber := renamed transaction state.clock info.versionNumber } }
  history := fun row => (state.history row).map (WrittenValue.commit transaction state.clock)
  active := without transaction state.active
  clock := state.clock + 1
  nextId := state.nextId

theorem Chained.commit (chained : state.Chained) (timed : state.Timed)
    (transaction : TransactionData) : (state.committed transaction).Chained := by
  have fresh : ∀ info ∈ state.updates.chain, info.versionNumber ≠ state.clock := by
    intro info there
    rcases chained.versions info there with early | ⟨owner, is_active, same⟩
    · exact early.ne
    · rw [← same]
      exact (timed.clock_lt_id is_active).ne'
  constructor
  case shaped =>
    intro info there
    obtain ⟨original, here, rfl⟩ := List.mem_map.mp there
    exact ⟨(chained.shaped original here).sorted, (chained.shaped original here).inside⟩
  case nodup =>
    have names : (state.committed transaction).updates.chain.map ChainedUpdate.versionNumber =
        (state.updates.chain.map ChainedUpdate.versionNumber).map
          (renamed transaction state.clock) := by
      rw [committed, List.map_map, List.map_map]
      rfl
    rw [names]
    refine chained.nodup.map_on fun id there id' there' same => ?_
    obtain ⟨info, here, rfl⟩ := List.mem_map.mp there
    obtain ⟨info', here', rfl⟩ := List.mem_map.mp there'
    rw [renamed, renamed] at same
    split at same
    · rename_i own
      split at same
      · rename_i own'
        exact own.trans own'.symm
      · exact absurd same.symm (fresh info' here')
    · split at same
      · exact absurd same (fresh info here)
      · exact same
  case versions =>
    intro info there
    obtain ⟨original, here, rfl⟩ := List.mem_map.mp there
    change renamed transaction state.clock original.versionNumber < state.clock + 1 ∨ _
    rw [renamed]
    split
    · exact .inl (Nat.lt_succ_self _)
    · rename_i foreign
      rcases chained.versions original here with early | ⟨owner, is_active, same⟩
      · exact .inl (Nat.lt_succ_of_lt early)
      · refine .inr ⟨owner, mem_without.mpr ⟨is_active, ?_⟩, ?_⟩
        · rw [same]
          exact foreign
        · exact same
  case own =>
    refine List.pairwise_map.mpr (chained.own.imp fun {newer older} own other is_active same => ?_)
    obtain ⟨is_active, -⟩ := mem_without.mp is_active
    have old_same : older.versionNumber = other.transactionId := by
      change renamed transaction state.clock older.versionNumber = other.transactionId at same
      rw [renamed] at same
      split at same
      · exact absurd same (timed.clock_lt_id is_active).ne
      · exact same
    have before := own other is_active old_same
    change other.startTime < renamed transaction state.clock newer.versionNumber
    rw [renamed]
    split
    · exact (timed.active other is_active).1
    · exact before

theorem commit_commit (transaction : TransactionData) (commitId : Nat) (version : WrittenValue T) :
    (WrittenValue.commit transaction commitId version).startTime = version.startTime ∧
      (WrittenValue.commit transaction commitId version).value = version.value := by
  rw [WrittenValue.commit]
  split
  · exact ⟨rfl, rfl⟩
  · exact ⟨rfl, rfl⟩

theorem Consistent.commit (consistent : state.Consistent base)
    (member : transaction ∈ state.active) (in_time : state.clock + 1 < transactionIdStart) :
    (state.committed transaction).Consistent base := by
  have timed := consistent.timed
  have settled : ∀ id, state.Settled id →
      (state.committed transaction).Settled (renamed transaction state.clock id) := by
    intro id settled
    have foreign : id ≠ transaction.transactionId :=
      (settled.1.trans (timed.clock_lt_id member)).ne
    rw [renamed, if_neg foreign]
    exact settled.without (Nat.le_succ _) _ _
  constructor
  case timed => exact timed.without (Nat.le_succ _) in_time _ _
  case chained => exact consistent.chained.commit timed transaction
  case rooted =>
    refine ⟨consistent.rooted.shaped, fun rootless => ?_, fun root is_root row absent => ?_,
      fun root is_root row value found => ?_⟩
    · obtain ⟨no_chain, empty⟩ := consistent.rooted.rootless rootless
      refine ⟨?_, fun row => ?_⟩
      · change state.updates.chain.map _ = []
        rw [no_chain]
        rfl
      · change (state.history row).map _ = []
        rw [empty row]
        rfl
    · change (state.history row).map _ = []
      rw [consistent.rooted.absent root is_root row absent]
      rfl
    · exact (consistent.rooted.current root is_root row value found).map
        fun version => (commit_commit transaction state.clock version).2
  case traces =>
    intro row
    rw [RowTraces]
    change VersionChain.Traces _ _ _ _ ((state.history row).map _) (rowChain row (_ : List _))
    rw [committed, rowChain_rename]
    refine (consistent.traces row).rename
      (fun version => (commit_commit transaction state.clock version).2) (fun version there => ?_)
      settled
    rw [WrittenValue.commit, renamed]
    by_cases own : version.stamp = .uncommitted transaction.transactionId
    · rw [if_pos own, if_pos ((consistent.stamp_iff member there).mp own)]
      rfl
    · rw [if_neg own, if_neg fun same => own ((consistent.stamp_iff member there).mpr same)]
  case known =>
    intro row version there
    obtain ⟨original, here, rfl⟩ := List.mem_map.mp there
    have known := consistent.known row original here
    rw [WrittenValue.commit]
    split
    · rename_i own
      rw [Known, own] at known
      exact ⟨(timed.active _ known).1, Nat.lt_succ_self _, fun other is_active =>
        (timed.active other (mem_without.mp is_active).1).1.ne'⟩
    · rename_i foreign
      rw [Known] at known ⊢
      cases stamp : original.stamp with
      | uncommitted transactionId =>
          rw [stamp] at known foreign
          refine mem_without.mpr ⟨known, fun same => foreign ?_⟩
          exact congrArg Stamp.uncommitted same
      | committed commitId =>
          rw [stamp] at known
          exact ⟨known.1, Nat.lt_succ_of_lt known.2.1, fun other is_active =>
            known.2.2 other (mem_without.mp is_active).1⟩
  case serial =>
    intro row
    refine List.pairwise_map.mpr ((consistent.serial row).imp fun {newer older} serial => ?_)
    obtain ⟨commitId, stamp, before⟩ := serial
    refine ⟨commitId, ?_, ?_⟩
    · rw [WrittenValue.commit, if_neg (by rw [stamp]; exact Stamp.noConfusion), stamp]
    · rw [(commit_commit transaction state.clock newer).1]
      exact before

/-! ### Forgetting -/

/-- The state without some version of the chain. -/
def forgotten (state : UpdatedVector T) (gone : Nat) : UpdatedVector T :=
  { state with
    updates :=
      { state.updates with
        chain := state.updates.chain.filter fun info => decide (info.versionNumber ≠ gone) } }

theorem Chained.forget (chained : state.Chained) (gone : Nat) : (state.forgotten gone).Chained := by
  constructor
  case shaped => exact fun info there => chained.shaped info (List.mem_filter.mp there).1
  case nodup => exact chained.nodup.sublist (List.filter_sublist.map _)
  case versions => exact fun info there => chained.versions info (List.mem_filter.mp there).1
  case own => exact chained.own.sublist List.filter_sublist

/-- `CleanupUpdate` of a settled version. -/
theorem Consistent.forget (consistent : state.Consistent base) {gone : Nat}
    (settled : state.Settled gone) : (state.forgotten gone).Consistent base := by
  constructor
  case timed =>
    exact ⟨consistent.timed.clock, consistent.timed.nextId, consistent.timed.nodup,
      consistent.timed.active⟩
  case chained => exact consistent.chained.forget gone
  case rooted =>
    refine ⟨consistent.rooted.shaped, fun rootless => ?_, consistent.rooted.absent,
      consistent.rooted.current⟩
    obtain ⟨no_chain, empty⟩ := consistent.rooted.rootless rootless
    refine ⟨?_, empty⟩
    rw [forgotten, no_chain]
    rfl
  case traces =>
    intro row
    rw [RowTraces, forgotten, rowChain_filter]
    exact (consistent.traces row).drop settled (consistent.settled_older row)
  case known => exact consistent.known
  case serial => exact consistent.serial

theorem cleanup_eq_forgotten (chained : state.Chained) {gone : ChainedUpdate T}
    (found : state.updates.chain[place]? = some gone) :
    { state with updates := state.updates.cleanupUpdate place } =
      state.forgotten gone.versionNumber := by
  rw [forgotten, cleanupUpdate, eraseIdx_eq_filter chained.nodup found]

theorem Consistent.cleanup (consistent : state.Consistent base)
    (permitted : state.Permitted (.cleanup place)) :
    Consistent base { state with updates := state.updates.cleanupUpdate place } := by
  cases found : state.updates.chain[place]? with
  | none =>
      have same : state.updates.cleanupUpdate place = state.updates := by
        rw [cleanupUpdate, List.eraseIdx_of_length_le (List.getElem?_eq_none_iff.mp found)]
      rw [same]
      exact consistent
  | some gone =>
      obtain ⟨is_committed, before⟩ := permitted gone found
      rw [cleanup_eq_forgotten consistent.chained found]
      refine consistent.forget ⟨?_, before⟩
      rcases consistent.chained.versions gone (List.mem_of_getElem? found) with
        early | ⟨owner, is_active, same⟩
      · exact early
      · rw [← same] at is_committed
        exact absurd is_committed (not_lt.mpr (consistent.timed.active owner is_active).2.1)

/-! ### Rolling back -/

section

variable (consistent : state.Consistent base)
include consistent

/-- The chain of a row that a transaction has written starts with the transaction's version. -/
theorem Consistent.exists_own (member : transaction ∈ state.active)
    (history : state.history row = version :: older)
    (own : version.stamp = .uncommitted transaction.transactionId) :
    ∃ old rest, rowChain row state.updates.chain = (transaction.transactionId, old) :: rest ∧
      IsCurrent base row older old ∧
      VersionChain.Traces (IsBase base row) WrittenValue.value WrittenValue.id state.Settled older
        rest := by
  have traces := consistent.traces row
  rw [RowTraces, history] at traces
  have id : version.id = transaction.transactionId := by
    rw [WrittenValue.id, own, Stamp.id]
  have result := traces.exists_undo (by rw [id]; exact consistent.timed.not_settled member)
  rw [id] at result
  exact result

/-- A row that the version of a transaction holds was written by it. -/
theorem Consistent.head_of_own (member : transaction ∈ state.active)
    (entry : (transaction.transactionId, old) ∈ rowChain row state.updates.chain) :
    ∃ version older, state.history row = version :: older ∧
      version.stamp = .uncommitted transaction.transactionId := by
  rcases (consistent.traces row).settled_or_mem _ entry with settled | ⟨version, there, same⟩
  · exact absurd settled (consistent.timed.not_settled member)
  · have own := (consistent.stamp_iff member there).mpr same
    cases history : state.history row with
    | nil =>
        rw [history] at there
        cases there
    | cons newest older =>
        rw [history] at there
        rcases List.mem_cons.mp there with rfl | is_older
        · exact ⟨_, _, rfl, own⟩
        · exact absurd own (consistent.uncommitted_head history _ version is_older)

/-- Rolling back takes the newest version away if the transaction has written it. -/
theorem Consistent.rollback_of_own (history : state.history row = version :: older)
    (own : version.stamp = .uncommitted transaction.transactionId) :
    WrittenValue.rollback transaction (state.history row) = older := by
  rw [history, WrittenValue.rollback, List.filter_cons_of_neg (by simp [own])]
  refine List.filter_eq_self.mpr fun other is_older => bne_iff_ne.mpr ?_
  exact consistent.uncommitted_head history _ other is_older

/-- Otherwise it leaves the row as it is. -/
theorem Consistent.rollback_of_foreign
    (foreign : ∀ version older, state.history row = version :: older →
      version.stamp ≠ .uncommitted transaction.transactionId) :
    WrittenValue.rollback transaction (state.history row) = state.history row := by
  refine List.filter_eq_self.mpr fun other there => bne_iff_ne.mpr ?_
  cases history : state.history row with
  | nil =>
      rw [history] at there
      cases there
  | cons newest older =>
      rw [history] at there
      rcases List.mem_cons.mp there with rfl | is_older
      · exact foreign _ _ history
      · exact consistent.uncommitted_head history _ other is_older

end

/-- The old values that a transaction has kept. -/
def ownEntries (updates : VectorUpdates T) (transactionId : Nat) : List (Nat × T) :=
  ((updates.chain.find? fun info => info.versionNumber == transactionId).map
    ChainedUpdate.entries).getD []

theorem Chained.ownEntries_sorted (chained : state.Chained) (transactionId : Nat) :
    Sorted (ownEntries state.updates transactionId) := by
  rw [ownEntries]
  cases found : state.updates.chain.find? fun info => info.versionNumber == transactionId with
  | none => exact List.Pairwise.nil
  | some info => exact (chained.shaped info (List.mem_of_find?_eq_some found)).sorted

theorem Chained.lookup_ownEntries (chained : state.Chained) {transactionId : Nat} :
    lookup row (ownEntries state.updates transactionId) = some old ↔
      (transactionId, old) ∈ rowChain row state.updates.chain := by
  rw [ownEntries, mem_rowChain]
  cases found : state.updates.chain.find? fun info => info.versionNumber == transactionId with
  | none =>
      constructor
      · intro impossible
        cases impossible
      · rintro ⟨info, there, same, -⟩
        exact absurd (beq_iff_eq.mpr same) (List.find?_eq_none.mp found info there)
  | some info =>
      have there := List.mem_of_find?_eq_some found
      have own : info.versionNumber = transactionId := by simpa using List.find?_some found
      constructor
      · exact fun kept => ⟨info, there, own, kept⟩
      · rintro ⟨info', there', own', kept⟩
        cases List.inj_on_of_nodup_map chained.nodup there there' (own.trans own'.symm)
        exact kept

/-- What a rollback makes of the updates. -/
def rolledBackUpdates (updates : VectorUpdates T) (transactionId : Nat) : VectorUpdates T where
  root := updates.root.map fun root =>
    { root with entries := rollbackValues (ownEntries updates transactionId) root.entries }
  chain := updates.chain.filter fun info => decide (info.versionNumber ≠ transactionId)

theorem Consistent.rollback_updates (consistent : state.Consistent base) (transactionId : Nat) :
    state.updates.rollbackTransaction transactionId =
      rolledBackUpdates state.updates transactionId := by
  rw [rollbackTransaction]
  cases found : state.updates.placeOf transactionId with
  | none =>
      have foreign := List.findIdx?_eq_none_iff.mp found
      have no_own : (state.updates.chain.find? fun info => info.versionNumber == transactionId) =
          none := List.find?_eq_none.mpr fun info there => by simpa using foreign info there
      have no_change : (state.updates.chain.filter fun info =>
          decide (info.versionNumber ≠ transactionId)) = state.updates.chain :=
        List.filter_eq_self.mpr fun info there => by simpa using foreign info there
      rw [rolledBackUpdates, no_change, ownEntries, no_own]
      change state.updates = ⟨state.updates.root.map id, state.updates.chain⟩
      rw [Option.map_id]
      rfl
  | some place =>
      obtain ⟨front, node, back, split, place_eq, own⟩ := exists_split found
      have at_place : state.updates.chain[place]? = some node := by
        rw [split, ← place_eq, List.getElem?_append_right le_rfl, Nat.sub_self]
        rfl
      have is_own : (state.updates.chain.find? fun info => info.versionNumber == transactionId) =
          some node := by
        have there : node ∈ state.updates.chain := List.mem_of_getElem? at_place
        cases first : state.updates.chain.find? fun info => info.versionNumber == transactionId with
        | none => exact absurd (beq_iff_eq.mpr own) (List.find?_eq_none.mp first node there)
        | some info =>
            have own' : info.versionNumber = transactionId := by simpa using List.find?_some first
            rw [List.inj_on_of_nodup_map consistent.chained.nodup
              (List.mem_of_find?_eq_some first) there (own'.trans own.symm)]
      cases is_root : state.updates.root with
      | none =>
          rw [(consistent.rooted.rootless is_root).1] at at_place
          cases at_place
      | some root =>
          simp only [rollbackUpdate, is_root, at_place]
          rw [cleanupUpdate, rolledBackUpdates, ownEntries, is_own, is_root]
          change VectorUpdates.mk _ (state.updates.chain.eraseIdx place) = _
          rw [eraseIdx_eq_filter consistent.chained.nodup at_place, own]
          rfl

/-- The state after a rollback. -/
def rolledBack (state : UpdatedVector T) (transaction : TransactionData) : UpdatedVector T where
  updates := rolledBackUpdates state.updates transaction.transactionId
  history := fun row => WrittenValue.rollback transaction (state.history row)
  active := without transaction state.active
  clock := state.clock
  nextId := state.nextId

theorem Consistent.rollback_rooted (consistent : state.Consistent base)
    (member : transaction ∈ state.active) : (state.rolledBack transaction).Rooted base := by
  have rooted := consistent.rooted
  have merged : ∀ root ∈ state.updates.root,
      Merged (ownEntries state.updates transaction.transactionId) root.entries
        (rollbackValues (ownEntries state.updates transaction.transactionId) root.entries) := by
    intro root is_root
    refine rollbackValues_merged (consistent.chained.ownEntries_sorted _)
      (rooted.shaped root is_root).2.sorted fun entry there absent => ?_
    have own := consistent.chained.lookup_ownEntries.mp
      (lookup_of_mem (consistent.chained.ownEntries_sorted _) there)
    obtain ⟨version, older, history, -⟩ := consistent.head_of_own member own
    rw [rooted.absent root is_root entry.1 absent] at history
    cases history
  constructor
  case shaped =>
    intro root' is_root'
    obtain ⟨root, is_root, rfl⟩ := Option.map_eq_some_iff.mp is_root'
    obtain ⟨version, shaped⟩ := rooted.shaped root is_root
    refine ⟨version, (merged root is_root).sorted, fun entry there => ?_⟩
    have found := lookup_of_mem (merged root is_root).sorted there
    rw [(merged root is_root).lookup] at found
    rcases Option.or_eq_some_iff.mp found with own | ⟨-, here⟩
    · obtain ⟨info, is_info, -, kept⟩ :=
        mem_rowChain.mp (consistent.chained.lookup_ownEntries.mp own)
      exact (consistent.chained.shaped info is_info).inside _ (mem_of_lookup kept)
    · exact shaped.inside _ (mem_of_lookup here)
  case rootless =>
    intro rootless
    obtain ⟨no_chain, empty⟩ := rooted.rootless (Option.map_eq_none_iff.mp rootless)
    refine ⟨?_, fun row => ?_⟩
    · rw [rolledBack, rolledBackUpdates, no_chain]
      rfl
    · change WrittenValue.rollback transaction (state.history row) = []
      rw [empty row]
      rfl
  case absent =>
    intro root' is_root' row absent
    obtain ⟨root, is_root, rfl⟩ := Option.map_eq_some_iff.mp is_root'
    change lookup row (rollbackValues _ _) = none at absent
    rw [(merged root is_root).lookup, Option.or_eq_none_iff] at absent
    change WrittenValue.rollback transaction (state.history row) = []
    rw [rooted.absent root is_root row absent.2]
    rfl
  case current =>
    intro root' is_root' row value found
    obtain ⟨root, is_root, rfl⟩ := Option.map_eq_some_iff.mp is_root'
    change lookup row (rollbackValues _ _) = some value at found
    change IsCurrent base row (WrittenValue.rollback transaction (state.history row)) value
    rw [(merged root is_root).lookup] at found
    rcases Option.or_eq_some_iff.mp found with own | ⟨not_own, here⟩
    · have entry := consistent.chained.lookup_ownEntries.mp own
      obtain ⟨version, older, history, stamp⟩ := consistent.head_of_own member entry
      obtain ⟨old, rest, chain, current, -⟩ := consistent.exists_own member history stamp
      have first : (transaction.transactionId, old) ∈ rowChain row state.updates.chain := by
        rw [chain]
        exact List.mem_cons_self
      rw [consistent.rollback_of_own history stamp,
        rowChain_unique consistent.chained.nodup entry first]
      exact current
    · rw [consistent.rollback_of_foreign fun version older history stamp => ?_]
      · exact rooted.current root is_root row value here
      · obtain ⟨old, rest, chain, -, -⟩ := consistent.exists_own member history stamp
        have kept : lookup row (ownEntries state.updates transaction.transactionId) = some old := by
          rw [consistent.chained.lookup_ownEntries, chain]
          exact List.mem_cons_self
        rw [kept] at not_own
        cases not_own

theorem Consistent.rollback_traces (consistent : state.Consistent base)
    (member : transaction ∈ state.active) (row : Nat) :
    (state.rolledBack transaction).RowTraces base row := by
  have settled : ∀ id, state.Settled id → (state.rolledBack transaction).Settled id :=
    fun id settled => settled.without le_rfl _ _
  rw [RowTraces]
  change VersionChain.Traces _ _ _ _ (WrittenValue.rollback transaction (state.history row))
    (rowChain row (state.updates.chain.filter _))
  rw [rowChain_filter]
  by_cases own : ∃ version older, state.history row = version :: older ∧
      version.stamp = .uncommitted transaction.transactionId
  · obtain ⟨version, older, history, stamp⟩ := own
    obtain ⟨old, rest, chain, -, traces⟩ := consistent.exists_own member history stamp
    have others :
        (rest.filter fun entry => decide (entry.1 ≠ transaction.transactionId)) = rest := by
      refine List.filter_eq_self.mpr fun entry there => decide_eq_true fun same => ?_
      rcases traces.settled_or_mem entry there with done | ⟨found, is_older, same_id⟩
      · rw [same] at done
        exact consistent.timed.not_settled member done
      · have is_version : found ∈ state.history row := by
          rw [history]
          exact List.mem_cons_of_mem _ is_older
        exact consistent.uncommitted_head history _ found is_older
          ((consistent.stamp_iff member is_version).mpr (same_id.trans same))
    rw [consistent.rollback_of_own history stamp, chain, List.filter_cons_of_neg (by simp), others]
    exact traces.mono settled
  · have foreign : ∀ version older, state.history row = version :: older →
        version.stamp ≠ .uncommitted transaction.transactionId :=
      fun version older history stamp => own ⟨version, older, history, stamp⟩
    have others : ((rowChain row state.updates.chain).filter fun entry =>
        decide (entry.1 ≠ transaction.transactionId)) = rowChain row state.updates.chain := by
      refine List.filter_eq_self.mpr fun entry there => decide_eq_true fun same => ?_
      have own : (transaction.transactionId, entry.2) ∈ rowChain row state.updates.chain := by
        rw [← same]
        exact there
      obtain ⟨version, older, history, stamp⟩ := consistent.head_of_own member own
      exact foreign version older history stamp
    rw [consistent.rollback_of_foreign foreign, others]
    exact (consistent.traces row).mono settled

theorem Consistent.rollback (consistent : state.Consistent base)
    (member : transaction ∈ state.active) : (state.rolledBack transaction).Consistent base := by
  constructor
  case timed => exact consistent.timed.without le_rfl consistent.timed.clock _ _
  case chained =>
    have forgotten := consistent.chained.forget transaction.transactionId
    refine ⟨forgotten.shaped, forgotten.nodup, fun info there => ?_, ?_⟩
    · rcases forgotten.versions info there with early | ⟨owner, is_active, same⟩
      · exact .inl early
      · refine .inr ⟨owner, mem_without.mpr ⟨is_active, ?_⟩, same⟩
        rw [same]
        simpa using (List.mem_filter.mp there).2
    · exact forgotten.own.imp fun own other is_active => own other (mem_without.mp is_active).1
  case rooted => exact consistent.rollback_rooted member
  case traces => exact consistent.rollback_traces member
  case known =>
    intro row version there
    obtain ⟨there, foreign⟩ := List.mem_filter.mp there
    have known := consistent.known row version there
    rw [Known] at known ⊢
    cases stamp : version.stamp with
    | uncommitted transactionId =>
        rw [stamp] at known foreign
        refine mem_without.mpr ⟨known, fun same => bne_iff_ne.mp foreign ?_⟩
        exact congrArg Stamp.uncommitted same
    | committed commitId =>
        rw [stamp] at known
        exact ⟨known.1, known.2.1, fun other is_active =>
          known.2.2 other (mem_without.mp is_active).1⟩
  case serial => exact fun row => (consistent.serial row).sublist List.filter_sublist

/-! ## Updating -/

/-- The rows that an update changes. -/
def updatedRows [DecidableEq T] (sort : RowSort T) (base : BaseVector T) (state : UpdatedVector T)
    (given : List (Nat × Option T)) : List Nat :=
  (state.updates.effectiveUpdates sort base given).map Prod.fst

/-- A transaction was faster: the transaction does not see the newest version of some row. -/
def Overtaken (state : UpdatedVector T) (transaction : TransactionData) (ids : List Nat) : Prop :=
  ∃ row ∈ ids, ∃ version ∈ (state.history row).head?, version.visibleTo transaction = false

instance decidableOvertaken (state : UpdatedVector T) (transaction : TransactionData)
    (ids : List Nat) : Decidable (state.Overtaken transaction ids) :=
  inferInstanceAs (Decidable (∃ row ∈ ids, ∃ version ∈ (state.history row).head?,
    version.visibleTo transaction = false))

section

variable (consistent : state.Consistent base)
include consistent

theorem Consistent.applies_head (member : transaction ∈ state.active) (row : Nat) :
    (∃ entry ∈ rowChain row state.updates.chain, applies transaction entry.1 = true) ↔
      ∃ version ∈ (state.history row).head?, version.visibleTo transaction = false := by
  rw [(consistent.traces row).applies_iff (Consistent.not_applies_of_settled member)
    (consistent.closed member row)]
  constructor
  · rintro ⟨version, first, applied⟩
    refine ⟨version, first, ?_⟩
    rw [consistent.timed.applies_id member
      (consistent.known row version (List.mem_of_mem_head? first))] at applied
    simpa using applied
  · rintro ⟨version, first, hidden⟩
    refine ⟨version, first, ?_⟩
    rw [consistent.timed.applies_id member
      (consistent.known row version (List.mem_of_mem_head? first)), hidden]
    rfl

/-- A conflict in the chain is a row whose newest version the transaction does not see. -/
theorem Consistent.conflicts_iff (member : transaction ∈ state.active) (ids : List Nat) :
    (∃ info ∈ state.updates.chain, Conflicts transaction ids info) ↔
      state.Overtaken transaction ids := by
  constructor
  · rintro ⟨info, there, applied, row, updated, held⟩
    obtain ⟨old, found⟩ := Option.ne_none_iff_exists'.mp held
    exact ⟨row, updated, (consistent.applies_head member row).mp
      ⟨(info.versionNumber, old), mem_rowChain.mpr ⟨info, there, rfl, found⟩, applied⟩⟩
  · rintro ⟨row, updated, hidden⟩
    obtain ⟨entry, there, applied⟩ := (consistent.applies_head member row).mpr hidden
    obtain ⟨info, there, version, found⟩ := mem_rowChain.mp there
    refine ⟨info, there, ?_, row, updated, ?_⟩
    · rw [version]
      exact applied
    · rw [found]
      exact Option.some_ne_none _

/-- An update fails exactly if another transaction was faster in one of its rows. -/
theorem Consistent.update_error_iff [DecidableEq T] (member : transaction ∈ state.active)
    (sort : RowSort T) (given : List (Nat × Option T)) :
    state.updates.update sort base transaction given = .error "Conflict on update!" ↔
      state.Overtaken transaction (state.updatedRows sort base given) := by
  have sorted := (effectiveUpdates_sorted sort base state.updates given).1
  have sorted_ids : (state.updatedRows sort base given).Pairwise (· < ·) :=
    List.pairwise_map.mpr sorted
  rw [← consistent.conflicts_iff member]
  by_cases none_made : state.updates.effectiveUpdates sort base given = []
  · rw [update_of_nil none_made, updatedRows, none_made]
    constructor
    · intro impossible
      cases impossible
    · rintro ⟨info, there, -, row, updated, -⟩
      cases updated
  · cases is_root : state.updates.root with
    | none =>
        rw [update_of_rootless none_made is_root, (consistent.rooted.rootless is_root).1]
        constructor
        · intro impossible
          cases impossible
        · rintro ⟨info, there, -⟩
          cases there
    | some root =>
        rw [update_of_root none_made is_root, ← updatedRows]
        constructor
        · intro failed
          by_contra clean
          rw [checkForConflicts_ok sorted_ids consistent.chained.shaped consistent.chained.nodup _ _
            fun info there conflicts => clean ⟨info, there, conflicts⟩] at failed
          cases failed
        · intro conflict
          rw [checkForConflicts_error sorted_ids consistent.chained.shaped _ _ conflict]
          rfl

/-- A write replaces the transaction's own version, or goes in front of versions it sees. -/
theorem Consistent.write_cases
    (seen : ∀ version ∈ (state.history row).head?, version.visibleTo transaction = true)
    (value : T) :
    (∃ version older, state.history row = version :: older ∧
      version.stamp = .uncommitted transaction.transactionId ∧
      WrittenValue.write transaction value (state.history row) = { version with value } :: older) ∨
    (∀ version older, state.history row = version :: older →
      version.stamp ≠ .uncommitted transaction.transactionId) ∧
      WrittenValue.write transaction value (state.history row) =
        ⟨transaction.startTime, .uncommitted transaction.transactionId, value⟩ ::
          state.history row ∧
      ∀ version ∈ state.history row,
        ∃ commitId, version.stamp = .committed commitId ∧ commitId < transaction.startTime := by
  cases history : state.history row with
  | nil =>
      refine .inr ⟨fun version older impossible => ?_, rfl, fun version there => ?_⟩
      · cases impossible
      · cases there
  | cons newest older =>
      by_cases own : newest.stamp = .uncommitted transaction.transactionId
      · exact .inl ⟨newest, older, rfl, own, if_pos own⟩
      · have visible := seen newest (by rw [history]; rfl)
        have known := consistent.known row newest (by rw [history]; exact List.mem_cons_self)
        have serial := consistent.serial row
        rw [history] at serial
        obtain ⟨before, -⟩ := List.pairwise_cons.mp serial
        have head : ∃ commitId, newest.stamp = .committed commitId ∧
            commitId < transaction.startTime := by
          rw [WrittenValue.visibleTo] at visible
          cases stamp : newest.stamp with
          | uncommitted transactionId =>
              rw [stamp] at visible own
              exact absurd (congrArg Stamp.uncommitted (beq_iff_eq.mp visible)) own
          | committed commitId =>
              rw [stamp] at visible
              exact ⟨commitId, rfl, of_decide_eq_true visible⟩
        refine .inr ⟨fun version rest same => ?_, if_neg own, fun version there => ?_⟩
        · cases same
          exact own
        · rcases List.mem_cons.mp there with rfl | is_older
          · exact head
          · obtain ⟨commitId, stamp, less⟩ := before version is_older
            obtain ⟨headId, head_stamp, head_less⟩ := head
            have later := known.start_lt consistent.timed
            rw [WrittenValue.id, head_stamp, Stamp.id] at later
            exact ⟨commitId, stamp, (less.trans later).trans head_less⟩

/-- The histories after a write are known and serial. -/
theorem Consistent.write_history (member : transaction ∈ state.active)
    (seen : ∀ version ∈ (state.history row).head?, version.visibleTo transaction = true)
    (value : T) :
    (∀ version ∈ WrittenValue.write transaction value (state.history row), state.Known version) ∧
      Serial (WrittenValue.write transaction value (state.history row)) := by
  have all_known := consistent.known row
  have serial := consistent.serial row
  rcases consistent.write_cases seen value with
    ⟨newest, older, history, own, write⟩ | ⟨-, write, before⟩
  · rw [write]
    rw [history] at all_known serial
    obtain ⟨older_before, serial⟩ := List.pairwise_cons.mp serial
    refine ⟨fun version there => ?_, List.pairwise_cons.mpr ⟨older_before, serial⟩⟩
    rcases List.mem_cons.mp there with rfl | is_older
    · exact all_known newest List.mem_cons_self
    · exact all_known version (List.mem_cons_of_mem _ is_older)
  · rw [write]
    refine ⟨fun version there => ?_, List.pairwise_cons.mpr ⟨before, serial⟩⟩
    rcases List.mem_cons.mp there with rfl | is_older
    · exact member
    · exact all_known version is_older

/-- A transaction without a version gets an empty one. -/
theorem Consistent.open (member : transaction ∈ state.active)
    (is_root : state.updates.root = some root)
    (foreign : ∀ info ∈ state.updates.chain, info.versionNumber ≠ transaction.transactionId) :
    Consistent base
      { state with
        updates := ⟨some root, ⟨transaction.transactionId, []⟩ :: state.updates.chain⟩ } := by
  have chained := consistent.chained
  constructor
  case timed =>
    exact ⟨consistent.timed.clock, consistent.timed.nextId, consistent.timed.nodup,
      consistent.timed.active⟩
  case chained =>
    constructor
    case shaped =>
      intro info there
      rcases List.mem_cons.mp there with rfl | later
      · exact ⟨List.Pairwise.nil, fun entry impossible => by cases impossible⟩
      · exact chained.shaped info later
    case nodup =>
      refine List.nodup_cons.mpr ⟨fun there => ?_, chained.nodup⟩
      obtain ⟨info, there, same⟩ := List.mem_map.mp there
      exact foreign info there same
    case versions =>
      intro info there
      rcases List.mem_cons.mp there with rfl | later
      · exact .inr ⟨transaction, member, rfl⟩
      · exact chained.versions info later
    case own =>
      refine List.pairwise_cons.mpr ⟨fun older there other is_active same => ?_, chained.own⟩
      exact consistent.timed.start_lt_id is_active member
  case rooted =>
    have rooted := consistent.rooted
    refine ⟨fun other same => ?_, fun impossible => ?_, fun other same => ?_, fun other same => ?_⟩
    · exact rooted.shaped other (is_root.trans same)
    · cases impossible
    · exact rooted.absent other (is_root.trans same)
    · exact rooted.current other (is_root.trans same)
  case traces => exact consistent.traces
  case known => exact consistent.known
  case serial => exact consistent.serial

end

theorem writeRows_of_none (not_written : lookup row rows = none)
    (history : Nat → List (WrittenValue T)) :
    writeRows transaction rows history row = history row := by
  rw [writeRows, not_written]

theorem writeRows_of_some (written : lookup row rows = some value)
    (history : Nat → List (WrittenValue T)) :
    writeRows transaction rows history row =
      WrittenValue.write transaction value (history row) := by
  rw [writeRows, written]

/-- A written row ends with the written value. -/
theorem isCurrent_write (transaction : TransactionData) (row : Nat) (value : T)
    (versions : List (WrittenValue T)) :
    IsCurrent base row (WrittenValue.write transaction value versions) value := by
  cases versions with
  | nil => rfl
  | cons version older =>
      rw [WrittenValue.write]
      split
      · rfl
      · rfl

/-- The transaction sees the newest versions of the rows it writes. -/
theorem seen_of_not_overtaken (in_front : ¬state.Overtaken transaction (rows.map Prod.fst))
    (written : lookup row rows = some value) :
    ∀ version ∈ (state.history row).head?, version.visibleTo transaction = true := by
  intro version first
  cases visible : version.visibleTo transaction with
  | true => rfl
  | false =>
      have updated : row ∈ rows.map Prod.fst := by
        rw [← lookup_ne_none, written]
        exact Option.some_ne_none _
      exact absurd ⟨row, updated, version, first, visible⟩ in_front

theorem Consistent.write_known (consistent : state.Consistent base)
    (member : transaction ∈ state.active)
    (in_front : ¬state.Overtaken transaction (rows.map Prod.fst)) (row : Nat) :
    (∀ version ∈ writeRows transaction rows state.history row, state.Known version) ∧
      Serial (writeRows transaction rows state.history row) := by
  cases written : lookup row rows with
  | none =>
      rw [writeRows_of_none written]
      exact ⟨consistent.known row, consistent.serial row⟩
  | some value =>
      rw [writeRows_of_some written]
      exact consistent.write_history member (seen_of_not_overtaken in_front written) value

/-- The first update of a vector. -/
theorem Consistent.update_rootless (consistent : state.Consistent base)
    (member : transaction ∈ state.active) (rootless : state.updates.root = none)
    (sorted : Sorted rows) (inside : ∀ entry ∈ rows, entry.1 < standardVectorSize) :
    Consistent base
      { state with
        updates := ⟨some ⟨transactionIdStart - 1, rows⟩,
          [⟨transaction.transactionId, initializeUpdate base rows⟩]⟩
        history := writeRows transaction rows state.history } := by
  obtain ⟨-, empty⟩ := consistent.rooted.rootless rootless
  have in_front : ¬state.Overtaken transaction (rows.map Prod.fst) := by
    rintro ⟨row, -, version, first, -⟩
    rw [empty row] at first
    cases first
  constructor
  case timed =>
    exact ⟨consistent.timed.clock, consistent.timed.nextId, consistent.timed.nodup,
      consistent.timed.active⟩
  case chained =>
    refine ⟨fun info there => ?_, List.nodup_singleton _, fun info there => ?_,
      List.pairwise_singleton _ _⟩
    · cases List.mem_singleton.mp there
      refine ⟨initializeUpdate_sorted base sorted, fun entry there => ?_⟩
      obtain ⟨original, here, rfl⟩ := List.mem_map.mp there
      exact inside original here
    · cases List.mem_singleton.mp there
      exact .inr ⟨transaction, member, rfl⟩
  case rooted =>
    refine ⟨fun root same => ?_, fun impossible => ?_, fun root same row absent => ?_,
      fun root same row value found => ?_⟩
    · cases same
      exact ⟨rfl, sorted, inside⟩
    · cases impossible
    · cases same
      exact (writeRows_of_none absent _).trans (empty row)
    · cases same
      change IsCurrent base row (writeRows transaction rows state.history row) value
      rw [writeRows_of_some found]
      exact isCurrent_write _ _ _ _
  case traces =>
    intro row
    rw [RowTraces]
    change VersionChain.Traces _ _ _ _ (writeRows transaction rows state.history row) _
    rw [rowChain_cons_mk, lookup_initializeUpdate]
    cases written : lookup row rows with
    | none =>
        rw [writeRows_of_none written, empty row]
        exact .settled (fun version first => by cases first) fun entry there => by cases there
    | some value =>
        rw [writeRows_of_some written, empty row]
        refine .undo (fun valid => if_pos valid) ?_
        exact .settled (fun version first => by cases first) fun entry there => by cases there
  case known => exact fun row => (consistent.write_known member in_front row).1
  case serial => exact fun row => (consistent.write_known member in_front row).2

/-- A transaction's version among the others, after it has taken the old values of some rows. -/
theorem Chained.keep (chained : state.Chained) {node' : ChainedUpdate T}
    (split : state.updates.chain = front ++ node :: back) (shaped : node'.Shaped)
    (same : node'.versionNumber = node.versionNumber) (root : Option (ChainedUpdate T))
    (history : Nat → List (WrittenValue T)) :
    Chained { state with updates := ⟨root, front ++ node' :: back⟩, history } := by
  have names : (front ++ node' :: back).map ChainedUpdate.versionNumber =
      state.updates.chain.map ChainedUpdate.versionNumber := by
    rw [split, List.map_append, List.map_append, List.map_cons, List.map_cons, same]
  have version_of : ∀ info ∈ front ++ node' :: back,
      ∃ info' ∈ state.updates.chain, info'.versionNumber = info.versionNumber := by
    intro info there
    have named : info.versionNumber ∈ state.updates.chain.map ChainedUpdate.versionNumber := by
      rw [← names]
      exact List.mem_map.mpr ⟨info, there, rfl⟩
    obtain ⟨info', there', same'⟩ := List.mem_map.mp named
    exact ⟨info', there', same'⟩
  constructor
  case shaped =>
    intro info there
    have old_shaped := chained.shaped
    rw [split] at old_shaped
    rcases List.mem_append.mp there with in_front | behind
    · exact old_shaped info (List.mem_append_left _ in_front)
    · rcases List.mem_cons.mp behind with rfl | later
      · exact shaped
      · exact old_shaped info (List.mem_append_right _ (List.mem_cons_of_mem _ later))
  case nodup =>
    change ((front ++ node' :: back).map ChainedUpdate.versionNumber).Nodup
    rw [names]
    exact chained.nodup
  case versions =>
    intro info there
    obtain ⟨info', there', same'⟩ := version_of info there
    have known := chained.versions info' there'
    rw [same'] at known
    exact known
  case own =>
    have own : (state.updates.chain.map ChainedUpdate.versionNumber).Pairwise fun newer older =>
        ∀ transaction ∈ state.active, older = transaction.transactionId →
          transaction.startTime < newer := List.pairwise_map.mpr chained.own
    rw [← names] at own
    exact List.pairwise_map.mp own

/-- In front of the transaction's version, no version holds a row that the transaction writes. -/
theorem Consistent.rowChain_front (consistent : state.Consistent base)
    (member : transaction ∈ state.active) (split : state.updates.chain = front ++ node :: back)
    (own : node.versionNumber = transaction.transactionId)
    (seen : ∀ version ∈ (state.history row).head?, version.visibleTo transaction = true) :
    rowChain row front = [] := by
  refine List.eq_nil_iff_forall_not_mem.mpr fun entry there => ?_
  obtain ⟨info, is_front, -, found⟩ := mem_rowChain.mp there
  have nodup := consistent.chained.nodup
  have before := consistent.chained.own
  rw [split] at nodup before
  rw [List.map_append, List.map_cons] at nodup
  have late : transaction.startTime < info.versionNumber :=
    (List.pairwise_append.mp before).2.2 info is_front node List.mem_cons_self transaction member
      own
  have foreign : info.versionNumber ≠ transaction.transactionId := by
    rw [← own]
    exact (List.nodup_append.mp nodup).2.2 _ (List.mem_map.mpr ⟨info, is_front, rfl⟩) _
      List.mem_cons_self
  have in_chain : info ∈ state.updates.chain := by
    rw [split]
    exact List.mem_append_left _ is_front
  obtain ⟨newest, first, hidden⟩ := (consistent.applies_head member row).mp
    ⟨(info.versionNumber, entry.2), mem_rowChain.mpr ⟨info, in_chain, rfl, found⟩,
      applies_iff.mpr ⟨late, foreign⟩⟩
  rw [seen newest first] at hidden
  cases hidden

/-- The row's entry of a transaction stands in the transaction's version. -/
theorem Consistent.lookup_own (consistent : state.Consistent base)
    (split : state.updates.chain = front ++ node :: back)
    (own : node.versionNumber = transaction.transactionId)
    (entry : (transaction.transactionId, old) ∈ rowChain row state.updates.chain) :
    lookup row node.entries = some old := by
  obtain ⟨info, there, version, found⟩ := mem_rowChain.mp entry
  have node_there : node ∈ state.updates.chain := by
    rw [split]
    exact List.mem_append_right _ List.mem_cons_self
  cases List.inj_on_of_nodup_map consistent.chained.nodup there node_there (version.trans own.symm)
  exact found

/-- A transaction that has a version in the chain writes rows. -/
theorem Consistent.write (consistent : state.Consistent base) (member : transaction ∈ state.active)
    (is_root : state.updates.root = some root) (split : state.updates.chain = front ++ node :: back)
    (own : node.versionNumber = transaction.transactionId) (sorted : Sorted rows)
    (inside : ∀ entry ∈ rows, entry.1 < standardVectorSize)
    (in_front : ¬state.Overtaken transaction (rows.map Prod.fst)) :
    Consistent base
      { state with
        updates := ⟨some { root with entries := mergeLoop rows root.entries },
          front ++
            ⟨node.versionNumber,
              mergeOldValues base (rows.map Prod.fst) node.entries root.entries⟩ :: back⟩
        history := writeRows transaction rows state.history } := by
  have node_there : node ∈ state.updates.chain := by
    rw [split]
    exact List.mem_append_right _ List.mem_cons_self
  obtain ⟨node_sorted, node_inside⟩ := consistent.chained.shaped node node_there
  obtain ⟨root_version, root_sorted, root_inside⟩ := consistent.rooted.shaped root is_root
  have keeps := mergeOldValues_keeps base (List.pairwise_map.mpr sorted) node_sorted root_sorted
  have merged := merge_merged sorted root_sorted
  constructor
  case timed =>
    exact ⟨consistent.timed.clock, consistent.timed.nextId, consistent.timed.nodup,
      consistent.timed.active⟩
  case chained =>
    have shaped : ChainedUpdate.Shaped ⟨node.versionNumber,
        mergeOldValues base (rows.map Prod.fst) node.entries root.entries⟩ := by
      refine ⟨keeps.sorted, fun entry there => ?_⟩
      have found := lookup_of_mem keeps.sorted there
      rw [keeps.lookup] at found
      rcases Option.or_eq_some_iff.mp found with kept | ⟨-, new⟩
      · exact node_inside _ (mem_of_lookup kept)
      · split at new
        · rename_i updated
          obtain ⟨original, here, same⟩ := List.mem_map.mp updated
          rw [← same]
          exact inside original here
        · cases new
    exact consistent.chained.keep split shaped rfl _ _
  case rooted =>
    refine ⟨fun other same => ?_, fun impossible => ?_, fun other same row absent => ?_,
      fun other same row value found => ?_⟩
    · cases same
      refine ⟨root_version, merged.sorted, fun entry there => ?_⟩
      have found := lookup_of_mem merged.sorted there
      rw [merged.lookup] at found
      rcases Option.or_eq_some_iff.mp found with new | ⟨-, old⟩
      · exact inside _ (mem_of_lookup new)
      · exact root_inside _ (mem_of_lookup old)
    · cases impossible
    · cases same
      change lookup row (merge rows root.entries) = none at absent
      rw [merged.lookup, Option.or_eq_none_iff] at absent
      exact (writeRows_of_none absent.1 _).trans
        (consistent.rooted.absent root is_root row absent.2)
    · cases same
      change lookup row (merge rows root.entries) = some value at found
      change IsCurrent base row (writeRows transaction rows state.history row) value
      rw [merged.lookup] at found
      rcases Option.or_eq_some_iff.mp found with new | ⟨not_written, old⟩
      · rw [writeRows_of_some new]
        exact isCurrent_write _ _ _ _
      · rw [writeRows_of_none not_written]
        exact consistent.rooted.current root is_root row value old
  case traces =>
    intro row
    have traces := consistent.traces row
    rw [RowTraces] at traces ⊢
    change VersionChain.Traces _ _ _ state.Settled (writeRows transaction rows state.history row)
      (rowChain row (front ++ _ :: back))
    rw [split, rowChain_append, rowChain_cons] at traces
    rw [rowChain_append, rowChain_cons_mk, keeps.lookup]
    cases written : lookup row rows with
    | none =>
        have not_updated : row ∉ rows.map Prod.fst := fun updated =>
          lookup_ne_none.mpr updated written
        rw [if_neg not_updated, Option.or_none, writeRows_of_none written]
        exact traces
    | some value =>
        have updated : row ∈ rows.map Prod.fst := by
          rw [← lookup_ne_none, written]
          exact Option.some_ne_none _
        have seen := seen_of_not_overtaken in_front written
        rw [consistent.rowChain_front member split own seen, List.nil_append] at traces ⊢
        have current := consistent.rooted.isCurrent is_root row
        rw [if_pos updated, writeRows_of_some written]
        rcases consistent.write_cases seen value with
          ⟨newest, older, history, stamp, write⟩ | ⟨foreign, write, -⟩
        · -- the transaction has written the row before and keeps the value in front of that
          obtain ⟨old, rest, chain, -, -⟩ := consistent.exists_own member history stamp
          have in_chain : (transaction.transactionId, old) ∈ rowChain row state.updates.chain := by
            rw [chain]
            exact List.mem_cons_self
          have held := consistent.lookup_own split own in_chain
          have id : newest.id = transaction.transactionId := by
            rw [WrittenValue.id, stamp, Stamp.id]
          rw [held] at traces ⊢
          rw [history] at traces
          rw [write, Option.some_or]
          exact traces.replace (by rw [id]; exact consistent.timed.not_settled member) rfl
        · have not_held : lookup row node.entries = none := by
            by_contra held
            obtain ⟨old, found⟩ := Option.ne_none_iff_exists'.mp held
            obtain ⟨newest, older, history, stamp⟩ := consistent.head_of_own member
              (mem_rowChain.mpr ⟨node, node_there, own, found⟩)
            exact foreign newest older history stamp
          rw [not_held] at traces ⊢
          rw [write, Option.none_or]
          change VersionChain.Traces _ _ _ _ _ ((node.versionNumber, _) :: _)
          rw [own]
          exact .undo current traces
  case known => exact fun row => (consistent.write_known member in_front row).1
  case serial => exact fun row => (consistent.write_known member in_front row).2

end UpdatedVector

end StatsRecommender
