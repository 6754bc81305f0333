import StatsRecommender.Storage.UpdateRun

/-!
# Updates agree with histories

Every operation keeps the update segment in agreement with the histories of the rows.
-/

namespace StatsRecommender

open SortedEntries VectorUpdates

variable {T : Type} {first second other : TransactionData} {row id place : Nat}
  {chain : List (ChainedUpdate T)}

namespace UpdatedVector

variable {base : BaseVector T} {state : UpdatedVector T} {transaction : TransactionData}
  {version : WrittenValue T}

/-! ## Visible versions -/

theorem Timed.eq_of_id (timed : state.Timed) (member : first ∈ state.active)
    (member' : second ∈ state.active) (same : first.transactionId = second.transactionId) :
    first = second :=
  List.inj_on_of_nodup_map timed.nodup member member' same

theorem Timed.start_lt_id (timed : state.Timed) (member : first ∈ state.active)
    (member' : second ∈ state.active) :
    first.startTime < second.transactionId :=
  ((timed.active first member).1.trans timed.clock).trans_le (timed.active second member').2.1

theorem Timed.clock_lt_id (timed : state.Timed) (member : transaction ∈ state.active) :
    state.clock < transaction.transactionId := timed.clock.trans_le (timed.active _ member).2.1

/-- A version is taken back for a transaction exactly if the transaction does not see it. -/
theorem Timed.applies_id (timed : state.Timed) (member : transaction ∈ state.active)
    (known : state.Known version) :
    applies transaction version.id = !version.visibleTo transaction := by
  rw [applies, WrittenValue.id, WrittenValue.visibleTo]
  rw [Known] at known
  cases stamp : version.stamp with
  | uncommitted transactionId =>
      rw [stamp] at known
      have late := timed.start_lt_id member known
      rw [Stamp.id, Stamp.visibleTo, decide_eq_true late, Bool.true_and]
      rfl
  | committed commitId =>
      rw [stamp] at known
      have foreign : commitId ≠ transaction.transactionId :=
        (known.2.1.trans (timed.clock_lt_id member)).ne
      rw [Stamp.id, Stamp.visibleTo, bne_iff_ne.mpr foreign, Bool.and_true]
      have other := known.2.2 transaction member
      by_cases less : commitId < transaction.startTime
      · rw [decide_eq_true less, decide_eq_false (lt_asymm less)]
        rfl
      · rw [decide_eq_false less, decide_eq_true (lt_of_le_of_ne (not_lt.mp less) other.symm)]
        rfl

theorem Known.start_lt (known : state.Known version) (timed : state.Timed) :
    version.startTime < version.id := by
  rw [WrittenValue.id]
  rw [Known] at known
  cases stamp : version.stamp with
  | uncommitted transactionId =>
      rw [stamp] at known
      exact timed.start_lt_id known known
  | committed commitId =>
      rw [stamp] at known
      exact known.1

/-- The newest version that a transaction writes is the only one of it. -/
theorem Known.uncommitted (known : state.Known version) (timed : state.Timed)
    (member : transaction ∈ state.active) (same : version.id = transaction.transactionId) :
    version.stamp = .uncommitted transaction.transactionId ∧
      version.startTime = transaction.startTime := by
  rw [WrittenValue.id] at same
  rw [Known] at known
  cases stamp : version.stamp with
  | uncommitted transactionId =>
      rw [stamp] at known same
      cases (show transactionId = transaction.transactionId from same)
      have identical := timed.eq_of_id known member rfl
      exact ⟨rfl, congrArg TransactionData.startTime identical⟩
  | committed commitId =>
      rw [stamp] at known same
      exact absurd same (known.2.1.trans (timed.clock_lt_id member)).ne

/-- What a transaction does not see hides the older versions from it. -/
theorem Consistent.closed (consistent : state.Consistent base) (member : transaction ∈ state.active)
    (row : Nat) :
    VersionChain.Closed WrittenValue.id (applies transaction) (state.history row) := by
  refine (consistent.serial row).imp_of_mem fun {newer older} is_newer is_older serial applied => ?_
  obtain ⟨commitId, stamp, before⟩ := serial
  have known := consistent.known row newer is_newer
  rw [WrittenValue.id, stamp, Stamp.id, applies_iff] at applied
  have late : transaction.startTime < newer.startTime := applied.1.trans before
  refine applies_iff.mpr ⟨late.trans (known.start_lt consistent.timed), fun same => ?_⟩
  exact late.ne' (known.uncommitted consistent.timed member same).2

theorem Consistent.not_applies_of_settled (member : transaction ∈ state.active) (id : Nat)
    (settled : state.Settled id) : applies transaction id = false := by
  rw [applies, decide_eq_false (lt_asymm (settled.2 transaction member)), Bool.false_and]

/-- Where a settled version stands, the older ones are settled. -/
theorem Consistent.settled_older (consistent : state.Consistent base) (row : Nat) :
    (state.history row).Pairwise fun newer older =>
      state.Settled newer.id → state.Settled older.id := by
  refine (consistent.serial row).imp_of_mem fun {newer older} is_newer _ serial settled => ?_
  obtain ⟨commitId, stamp, before⟩ := serial
  have less : older.id < newer.id := by
    rw [WrittenValue.id, stamp]
    exact before.trans ((consistent.known row newer is_newer).start_lt consistent.timed)
  exact ⟨less.trans settled.1, fun other member => less.trans (settled.2 other member)⟩

/-- The versions of transactions under way are not settled. -/
theorem Timed.not_settled (timed : state.Timed) (member : transaction ∈ state.active) :
    ¬state.Settled transaction.transactionId :=
  fun settled => lt_asymm settled.1 (timed.clock_lt_id member)

/-- Only the newest version of a row can be uncommitted. -/
theorem Consistent.uncommitted_head (consistent : state.Consistent base) {newest : WrittenValue T}
    {older : List (WrittenValue T)} (history : state.history row = newest :: older)
    (transactionId : Nat) : ∀ version ∈ older, version.stamp ≠ .uncommitted transactionId := by
  intro version is_older stamp
  have serial := consistent.serial row
  rw [history] at serial
  obtain ⟨commitId, committed, -⟩ := (List.pairwise_cons.mp serial).1 version is_older
  rw [committed] at stamp
  cases stamp

section

variable (foreign : other.transactionId ≠ transaction.transactionId)
include foreign

/-- Others' writes are not visible. -/
theorem filter_write (value : T) (versions : List (WrittenValue T)) :
    (WrittenValue.write other value versions).filter (WrittenValue.visibleTo transaction) =
      versions.filter (WrittenValue.visibleTo transaction) := by
  have hidden : ∀ version : WrittenValue T, version.stamp = .uncommitted other.transactionId →
      ¬version.visibleTo transaction = true := by
    intro version stamp
    rw [WrittenValue.visibleTo, stamp, Stamp.visibleTo, beq_iff_eq]
    exact foreign
  cases versions with
  | nil => exact List.filter_cons_of_neg (hidden _ rfl)
  | cons newest older =>
      rw [WrittenValue.write]
      split
      · rename_i own
        have hidden_after : ¬({ newest with value } : WrittenValue T).visibleTo transaction = true :=
          hidden _ own
        rw [List.filter_cons_of_neg hidden_after, List.filter_cons_of_neg (hidden _ own)]
      · rw [List.filter_cons_of_neg (hidden _ rfl)]

/-- Nor are others' commits after the start. -/
theorem filter_commit {commitId : Nat} (late : transaction.startTime < commitId)
    (versions : List (WrittenValue T)) :
    (versions.map (WrittenValue.commit other commitId)).filter
        (WrittenValue.visibleTo transaction) =
      versions.filter (WrittenValue.visibleTo transaction) := by
  induction versions with
  | nil => rfl
  | cons version older ih =>
      rw [List.map_cons]
      by_cases own : version.stamp = .uncommitted other.transactionId
      · have hidden : ¬version.visibleTo transaction = true := by
          rw [WrittenValue.visibleTo, own, Stamp.visibleTo, beq_iff_eq]
          exact foreign
        have hidden_after : ¬(version.commit other commitId).visibleTo transaction = true := by
          rw [WrittenValue.commit, if_pos own, WrittenValue.visibleTo, Stamp.visibleTo,
            decide_eq_true_eq]
          exact lt_asymm late
        rw [List.filter_cons_of_neg hidden, List.filter_cons_of_neg hidden_after, ih]
      · rw [WrittenValue.commit, if_neg own, List.filter_cons, List.filter_cons, ih]

/-- Nor is what others roll back. -/
theorem filter_rollback (versions : List (WrittenValue T)) :
    (WrittenValue.rollback other versions).filter (WrittenValue.visibleTo transaction) =
      versions.filter (WrittenValue.visibleTo transaction) := by
  rw [WrittenValue.rollback, List.filter_filter]
  refine List.filter_congr fun version _ => ?_
  rw [Bool.and_eq_left_iff_imp]
  intro visible
  refine bne_iff_ne.mpr fun stamp => ?_
  rw [WrittenValue.visibleTo, stamp, Stamp.visibleTo, beq_iff_eq] at visible
  exact foreign visible

end

/-! ## Reading -/

/--
What a transaction reads in a row: the newest of the versions it sees, or the value of the vector
where it sees none.
-/
def IsSnapshot (base : BaseVector T) (transaction : TransactionData) (row : Nat)
    (versions : List (WrittenValue T)) : T → Prop :=
  IsCurrent base row (versions.filter (WrittenValue.visibleTo transaction))

/-- The root's values are current. -/
theorem Rooted.isCurrent (rooted : state.Rooted base) {root : ChainedUpdate T}
    (is_root : root ∈ state.updates.root) (row : Nat) :
    IsCurrent base row (state.history row) ((lookup row root.entries).getD (base.data row)) := by
  cases found : lookup row root.entries with
  | none =>
      rw [rooted.absent root is_root row found]
      exact fun _ => rfl
  | some value => exact rooted.current root is_root row value found

section

variable (consistent : state.Consistent base)
include consistent

/-- Every transaction under way is shown its snapshot. -/
theorem Consistent.fetchUpdates (member : transaction ∈ state.active) (row : Nat) :
    IsSnapshot base transaction row (state.history row)
      (state.updates.fetchUpdates transaction base.data row) := by
  have visible : (state.history row).filter (WrittenValue.visibleTo transaction) =
      (state.history row).filter fun version => !applies transaction version.id := by
    refine List.filter_congr fun version is_version => ?_
    rw [consistent.timed.applies_id member (consistent.known row version is_version), Bool.not_not]
  rw [IsSnapshot, visible]
  rw [VectorUpdates.fetchUpdates]
  cases is_root : state.updates.root with
  | none =>
      obtain ⟨-, empty⟩ := consistent.rooted.rootless is_root
      rw [updatesForTransaction, is_root, empty row]
      exact fun _ => rfl
  | some root =>
      obtain ⟨version, shaped⟩ := consistent.rooted.shaped root is_root
      have applied : root.appliesToTransaction transaction = true := by
        refine applies_iff.mpr ⟨?_, ?_⟩
        · rw [version]
          have early := (consistent.timed.active _ member).1
          have := consistent.timed.clock
          omega
        · rw [version]
          have late := (consistent.timed.active _ member).2.1
          have : 0 < transactionIdStart := by decide
          omega
      rw [updatesForTransaction_of_root is_root, List.filter_cons, if_pos applied, List.foldl_cons,
        foldl_mergeUpdateInfo consistent.chained.shaped, shaped.mergeUpdateInfo_eq]
      exact (consistent.traces row).shows_takeBack (consistent.rooted.isCurrent is_root row)
        (Consistent.not_applies_of_settled member) (consistent.closed member row)

/-- Rows are fetched one by one as they are fetched together. -/
theorem Consistent.fetchRow_eq (row : Nat) :
    state.updates.fetchRow transaction row (base.data row) =
      state.updates.fetchUpdates transaction base.data row := by
  rw [VectorUpdates.fetchUpdates, fetchRow]
  refine foldl_fetchEntry (fun info member => ?_) _ _
  cases is_root : state.updates.root with
  | none =>
      rw [updatesForTransaction, is_root] at member
      cases member
  | some root =>
      rw [updatesForTransaction_of_root is_root] at member
      rcases List.mem_cons.mp (List.mem_filter.mp member).1 with rfl | later
      · exact (consistent.rooted.shaped info is_root).2
      · exact consistent.chained.shaped info later

/-- What is fetched as committed is the newest value of a row. -/
theorem Consistent.fetchCommitted (row : Nat) :
    IsCurrent base row (state.history row) (state.updates.fetchCommitted base.data row) := by
  rw [VectorUpdates.fetchCommitted]
  cases is_root : state.updates.root with
  | none =>
      rw [(consistent.rooted.rootless is_root).2 row]
      exact fun _ => rfl
  | some root =>
      change IsCurrent base row _ (root.mergeUpdateInfo base.data row)
      rw [(consistent.rooted.shaped root is_root).2.mergeUpdateInfo_eq]
      exact consistent.rooted.isCurrent is_root row

/-- A transaction that sees the newest version of a row reads what is fetched as committed. -/
theorem Consistent.fetchUpdates_eq (member : transaction ∈ state.active)
    (written : base.valid row = true ∨ state.history row ≠ [])
    (seen : ∀ version ∈ (state.history row).head?, version.visibleTo transaction = true) :
    state.updates.fetchUpdates transaction base.data row =
      state.updates.fetchCommitted base.data row := by
  have snapshot := consistent.fetchUpdates member row
  have current := consistent.fetchCommitted row
  rw [IsSnapshot] at snapshot
  cases history : state.history row with
  | nil =>
      rw [history] at snapshot current
      have valid := written.resolve_right fun some_versions => some_versions history
      exact (snapshot valid).trans (current valid).symm
  | cons newest older =>
      rw [history] at snapshot current seen
      rw [List.filter_cons_of_pos (seen newest rfl)] at snapshot
      exact snapshot.trans current.symm

end

/-! ## Places in the chain -/

/-- A change of the version with an id is made wherever the id stands. -/
theorem modify_eq_map (nodup : (chain.map ChainedUpdate.versionNumber).Nodup)
    (found : chain.findIdx? (fun info => info.versionNumber == id) = some place)
    (change : ChainedUpdate T → ChainedUpdate T) :
    chain.modify place change =
      chain.map fun info => if info.versionNumber = id then change info else info := by
  induction chain generalizing place with
  | nil => cases found
  | cons info chain ih =>
      obtain ⟨differ, nodup⟩ := List.nodup_cons.mp nodup
      rw [List.findIdx?_cons] at found
      by_cases own : info.versionNumber = id
      · rw [if_pos (beq_iff_eq.mpr own)] at found
        cases found
        have rest : (chain.map fun info => if info.versionNumber = id then change info else info) =
            chain := by
          refine (List.map_congr_left fun later member => if_neg fun same => ?_).trans
            (List.map_id _)
          exact differ (List.mem_map.mpr ⟨later, member, same.trans own.symm⟩)
        rw [List.map_cons, if_pos own, rest]
        rfl
      · rw [if_neg (by simpa using own)] at found
        obtain ⟨place', deeper, rfl⟩ := Option.map_eq_some_iff.mp found
        rw [List.map_cons, if_neg own, ← ih nodup deeper]
        rfl

/-- Erasing the version with an id leaves the others. -/
theorem eraseIdx_eq_filter (nodup : (chain.map ChainedUpdate.versionNumber).Nodup)
    {gone : ChainedUpdate T} (found : chain[place]? = some gone) :
    chain.eraseIdx place =
      chain.filter fun info => decide (info.versionNumber ≠ gone.versionNumber) := by
  induction chain generalizing place with
  | nil => cases found
  | cons info chain ih =>
      obtain ⟨differ, nodup⟩ := List.nodup_cons.mp nodup
      cases place with
      | zero =>
          cases found
          have others : (chain.filter fun later =>
              decide (later.versionNumber ≠ gone.versionNumber)) = chain := by
            refine List.filter_eq_self.mpr fun later member => decide_eq_true fun same => ?_
            exact differ (List.mem_map.mpr ⟨later, member, same⟩)
          rw [List.filter_cons_of_neg (by simp), others]
          rfl
      | succ place =>
          have later : gone ∈ chain := List.mem_of_getElem? found
          have other : info.versionNumber ≠ gone.versionNumber :=
            fun same => differ (List.mem_map.mpr ⟨gone, later, same.symm⟩)
          rw [List.filter_cons_of_pos (by simpa using other), ← ih nodup found]
          rfl

/-- The version with an id, and what stands in front of it and behind it. -/
theorem exists_split (found : chain.findIdx? (fun info => info.versionNumber == id) = some place) :
    ∃ front node back, chain = front ++ node :: back ∧ front.length = place ∧
      node.versionNumber = id := by
  induction chain generalizing place with
  | nil => cases found
  | cons info chain ih =>
      rw [List.findIdx?_cons] at found
      by_cases own : info.versionNumber = id
      · rw [if_pos (beq_iff_eq.mpr own)] at found
        cases found
        exact ⟨[], info, chain, rfl, rfl, own⟩
      · rw [if_neg (by simpa using own)] at found
        obtain ⟨place', deeper, rfl⟩ := Option.map_eq_some_iff.mp found
        obtain ⟨front, node, back, rfl, rfl, same⟩ := ih deeper
        exact ⟨info :: front, node, back, rfl, rfl, same⟩

theorem modify_between (front back : List (ChainedUpdate T)) (node : ChainedUpdate T)
    (change : ChainedUpdate T → ChainedUpdate T) :
    (front ++ node :: back).modify front.length change = front ++ change node :: back := by
  induction front with
  | nil => rfl
  | cons info front ih =>
      rw [List.cons_append, List.length_cons, List.modify_succ_cons, ih]
      rfl

theorem rowChain_append (row : Nat) (front back : List (ChainedUpdate T)) :
    rowChain row (front ++ back) = rowChain row front ++ rowChain row back :=
  List.filterMap_append

/-- The chain of a row without a version. -/
theorem rowChain_filter (row : Nat) (chain : List (ChainedUpdate T)) (gone : Nat) :
    rowChain row (chain.filter fun info => decide (info.versionNumber ≠ gone)) =
      (rowChain row chain).filter fun entry => decide (entry.1 ≠ gone) := by
  induction chain with
  | nil => rfl
  | cons info chain ih =>
      rw [rowChain_cons]
      by_cases same : info.versionNumber = gone
      · rw [List.filter_cons_of_neg (by simpa using same), ih]
        cases lookup row info.entries with
        | none => rfl
        | some old => exact (List.filter_cons_of_neg (by simpa using same)).symm
      · rw [List.filter_cons_of_pos (by simpa using same), rowChain_cons, ih]
        cases lookup row info.entries with
        | none => rfl
        | some old => exact (List.filter_cons_of_pos (by simpa using same)).symm

/-- The chain of a row whose versions are renamed. -/
theorem rowChain_rename (row : Nat) (chain : List (ChainedUpdate T)) (rename : Nat → Nat) :
    rowChain row (chain.map fun info => { info with versionNumber := rename info.versionNumber }) =
      (rowChain row chain).map fun entry => (rename entry.1, entry.2) := by
  induction chain with
  | nil => rfl
  | cons info chain ih =>
      rw [List.map_cons, rowChain_cons, rowChain_cons, ih]
      cases lookup row info.entries with
      | none => rfl
      | some old => rfl

/-- Two entries of a row's chain with the same version are the same. -/
theorem rowChain_unique (nodup : (chain.map ChainedUpdate.versionNumber).Nodup) {old old' : T}
    (member : (id, old) ∈ rowChain row chain) (member' : (id, old') ∈ rowChain row chain) :
    old = old' := by
  obtain ⟨info, there, version, found⟩ := mem_rowChain.mp member
  obtain ⟨info', there', version', found'⟩ := mem_rowChain.mp member'
  cases List.inj_on_of_nodup_map nodup there there' (version.trans version'.symm)
  exact Option.some.inj (found.symm.trans found')

end UpdatedVector

end StatsRecommender
