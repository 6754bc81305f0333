import StatsRecommender.Storage.RowVersionInvariant

/-!
# Rows in the order of their commits

Transactions that commit in the order of their appends leave the rows in the order of their
commits, whatever else is done to them.
-/

namespace StatsRecommender

namespace VersionedRows

variable {state result : VersionedRows} {transactionId : Nat}

/-- Rows whose insertions keep their times stay in order. -/
theorem InsertedInOrder.of_same (inOrder : state.InsertedInOrder)
    (length : result.rows.length = state.rows.length)
    (same : ∀ (position : Nat) (row after : RowVersion), state.rows[position]? = some row →
      result.rows[position]? = some after →
        result.insertedAt after.inserted = state.insertedAt row.inserted) :
    result.InsertedInOrder := by
  have times : result.insertionTimes = state.insertionTimes := by
    apply List.ext_getElem
    · rw [insertionTimes, insertionTimes, List.length_map, List.length_map, length]
    · intro position short short'
      rw [insertionTimes, List.length_map] at short short'
      simp only [insertionTimes, List.getElem_map]
      exact same position _ _ (List.getElem?_eq_getElem short') (List.getElem?_eq_getElem short)
  rw [InsertedInOrder, times]
  exact inOrder

/-- Changes of deletions keep the order. -/
theorem InsertedInOrder.changeDeleted (inOrder : state.InsertedInOrder) {places : List Nat}
    {deleted : Option Stamp} {manager : RowVersionManager} {deletes : List PendingDelete} :
    InsertedInOrder { state with
      manager
      rows := changeRows state.rows places fun row => { row with deleted }
      deletes } := by
  refine inOrder.of_same (length_changeRows _ _ _) fun position row after found found' => ?_
  dsimp only at found'
  rw [getElem?_changeRows, found, Option.map_some] at found'
  rw [← Option.some.inj found']
  split <;> rfl

theorem Timed.commitIdOf_of_running (timed : state.Timed) {data : TransactionData}
    (running : state.Running data) : state.commitIdOf data.transactionId = none := by
  cases commit : state.commitIdOf data.transactionId with
  | none => rfl
  | some commitId =>
      obtain ⟨other, member, same, committing⟩ := exists_of_commitIdOf commit
      have identical := List.inj_on_of_nodup_map timed.nodup member running same
      rw [identical] at committing
      cases committing

section

variable (inOrder : state.InsertedInOrder)
include inOrder

theorem InsertedInOrder.startTransaction (timed : state.Timed)
    (ok : state.step .startTransaction = .ok result) : result.InsertedInOrder := by
  cases ok
  refine inOrder.of_same rfl fun position row after found found' => ?_
  cases found.symm.trans found'
  have known := (timed.known row (List.mem_of_getElem? found)).1
  cases inserted : row.inserted with
  | committed => rfl
  | uncommitted owner =>
      rw [inserted] at known
      have fresh : (state.nextId == owner) = false := beq_eq_false_iff_ne.mpr known.2.ne'
      simp only [insertedAt, commitIdOf, transaction, List.find?_append, List.find?_cons, fresh,
        List.find?_nil, Option.or_none]

theorem InsertedInOrder.finishTransaction (consistent : state.Consistent)
    (permitted : state.Permitted (.finishTransaction transactionId))
    (ok : state.step (.finishTransaction transactionId) = .ok result) : result.InsertedInOrder := by
  cases ok
  refine inOrder.of_same rfl fun position row after found found' => ?_
  cases found.symm.trans found'
  cases inserted : row.inserted with
  | committed => rfl
  | uncommitted owner =>
      -- the transaction that finishes has no pending rows
      obtain ⟨pending, member, rfl, -⟩ := consistent.covered position row found owner inserted
      have left := permitted.1 pending member
      simp only [insertedAt, commitIdOf, transaction, List.find?_filter]
      congr 3
      funext other
      by_cases same : other.data.transactionId = pending.transactionId
      · simp only [same, left, ne_eq, not_false_eq_true, decide_true, beq_self_eq_true, and_self]
      · simp only [beq_eq_false_iff_ne.mpr same, Bool.false_eq_true, and_false, decide_false]

theorem InsertedInOrder.appendVersionInfo (timed : state.Timed) {count : Nat}
    (permitted : state.Permitted (.appendVersionInfo transactionId count))
    (ok : state.step (.appendVersionInfo transactionId count) = .ok result) :
    result.InsertedInOrder := by
  obtain ⟨-, data, running, rfl⟩ := permitted
  rw [step] at ok
  cases appended : state.manager.appendVersionInfo data.transactionId state.rows.length
      (state.rows.length + count) with
  | error message =>
      rw [appended] at ok
      cases ok
  | ok manager =>
      rw [appended] at ok
      cases ok
      have unset : state.insertedAt (.uncommitted data.transactionId) = notDeletedId := by
        rw [insertedAt, timed.commitIdOf_of_running running, Option.getD_none]
      rw [InsertedInOrder, insertionTimes, List.map_append, List.map_replicate]
      refine List.pairwise_append.mpr
        ⟨inOrder, List.pairwise_replicate.mpr (Or.inr (Nat.le_refl _)), ?_⟩
      intro before early after late
      obtain ⟨row, member, rfl⟩ := List.mem_map.mp early
      rw [(List.mem_replicate.mp late).2]
      exact (timed.insertedAt_le (timed.known row member).1).trans unset.ge

theorem InsertedInOrder.commitAppend (consistent : state.Consistent) {position : Nat}
    (ok : state.step (.commitAppend position) = .ok result) : result.InsertedInOrder := by
  rw [step] at ok
  cases found : state.appends[position]? with
  | none =>
      rw [found] at ok
      cases ok
      exact inOrder
  | some pending =>
      rw [found] at ok
      dsimp only at ok
      cases commit : state.commitIdOf pending.transactionId with
      | none =>
          rw [commit] at ok
          cases ok
          exact inOrder
      | some commitId =>
          rw [commit] at ok
          dsimp only at ok
          cases committed : state.manager.commitAppend commitId pending.start pending.count with
          | error message =>
              rw [committed] at ok
              cases ok
          | ok manager =>
              rw [committed] at ok
              cases ok
              refine inOrder.of_same (length_changeRows _ _ _)
                fun place row after before found' => ?_
              dsimp only at found'
              rw [getElem?_changeRows, before, Option.map_some] at found'
              rw [← Option.some.inj found']
              split
              · -- the rows get the time that their transaction has
                rename_i inside
                obtain ⟨low, high⟩ := List.mem_range'_1.mp inside
                obtain ⟨stored, there, inserted⟩ :=
                  (consistent.appends pending (List.mem_of_getElem? found)).rows place low high
                cases before.symm.trans there
                rw [inserted, insertedAt, insertedAt, commit, Option.getD_some]
              · rfl

end

/-- Only the transaction that starts its commit gets a commit id. -/
theorem commitIdOf_startCommit (ok : state.step (.startCommit transactionId) = .ok result)
    (other : Nat) :
    result.commitIdOf other = if other = transactionId then
        (state.transaction other).map fun _ => state.clock
      else state.commitIdOf other := by
  cases ok
  have same : ((fun active : ActiveTransaction => active.data.transactionId == other) ∘
      fun active => if active.data.transactionId = transactionId then
        { active with commitId := some state.clock } else active) =
      fun active => active.data.transactionId == other := by
    funext active
    rw [Function.comp_apply]
    split <;> rfl
  rw [commitIdOf, commitIdOf, transaction, List.find?_map, same, transaction]
  cases found : state.active.find? fun active => active.data.transactionId == other with
  | none => split <;> rfl
  | some active =>
      have id : active.data.transactionId = other := by
        have := List.find?_some found
        exact eq_of_beq this
      rw [← id]
      rw [Option.map_some, Option.bind_some, Option.bind_some, Option.map_some]
      split <;> rfl

theorem InsertedInOrder.startCommit (inOrder : state.InsertedInOrder)
    (consistent : state.Consistent) (permitted : state.Permitted (.startCommit transactionId))
    (committed : state.CommittedInOrder (.startCommit transactionId))
    (ok : state.step (.startCommit transactionId) = .ok result) : result.InsertedInOrder := by
  obtain ⟨-, data, running, rfl⟩ := permitted
  have unset : state.insertedAt (.uncommitted data.transactionId) = notDeletedId := by
    rw [insertedAt, consistent.commitIdOf_of_running running, Option.getD_none]
  have now : result.insertedAt (.uncommitted data.transactionId) = state.clock := by
    have known : (state.transaction data.transactionId).isSome = true :=
      List.find?_isSome.mpr ⟨_, running, beq_self_eq_true _⟩
    obtain ⟨active, found⟩ := Option.isSome_iff_exists.mp known
    rw [insertedAt, commitIdOf_startCommit ok, if_pos rfl, found, Option.map_some,
      Option.getD_some]
  have kept : ∀ stamp, stamp ≠ .uncommitted data.transactionId →
      result.insertedAt stamp = state.insertedAt stamp := by
    intro stamp different
    cases stamp with
    | committed => rfl
    | uncommitted other =>
        rw [insertedAt, commitIdOf_startCommit ok, if_neg fun same => different (by rw [same]),
          insertedAt]
  have earlier : ∀ stamp, result.insertedAt stamp ≤ state.insertedAt stamp := by
    intro stamp
    by_cases own : stamp = .uncommitted data.transactionId
    · have := consistent.clock.2
      have : transactionIdStart < notDeletedId := by decide
      rw [own, now, unset]
      omega
    · exact (kept stamp own).le
  have rows : result.rows = state.rows := by
    cases ok
    rfl
  refine List.pairwise_iff_getElem.mpr fun first second short short' before => ?_
  have ordered := List.pairwise_iff_getElem.mp inOrder first second
    (by simpa only [insertionTimes, List.length_map, rows] using short)
    (by simpa only [insertionTimes, List.length_map, rows] using short') before
  simp only [insertionTimes, List.getElem_map, rows] at ordered ⊢
  simp only [insertionTimes, List.length_map, rows] at short short'
  by_cases own : state.rows[second].inserted = .uncommitted data.transactionId
  swap
  · rw [kept _ own]
    exact (earlier _).trans ordered
  -- what is in front of the transaction's rows has its commit id already
  rw [own, now]
  have known := (consistent.known _ (List.getElem_mem short)).1
  cases inserted : state.rows[first].inserted with
  | committed commitId =>
      rw [inserted] at known
      exact known.1.le
  | uncommitted owner =>
      by_cases same : owner = data.transactionId
      · rw [same, now]
      · obtain ⟨pending, member, rfl, low, -⟩ := consistent.covered first _
          (List.getElem?_eq_getElem short) owner inserted
        obtain ⟨mine, there, id, -, stop⟩ := consistent.covered second _
          (List.getElem?_eq_getElem short') _ own
        have inFront : pending.start < mine.start := by
          obtain ⟨index, held⟩ := List.mem_iff_getElem?.mp there
          obtain ⟨index', held'⟩ := List.mem_iff_getElem?.mp member
          have other : pending ∈ state.appends.eraseIdx index := by
            refine List.mem_eraseIdx_iff_getElem?.mpr ⟨index', ?_, held'⟩
            rintro rfl
            cases held.symm.trans held'
            exact same id
          have := (consistent.appends pending member).count_pos
          rcases disjoint_of_mem_eraseIdx consistent.ordered held other with front | behind <;> omega
        rcases committed mine there id pending member inFront with same' | commit
        · exact absurd same' same
        · obtain ⟨commitId, commit⟩ := Option.isSome_iff_exists.mp commit
          obtain ⟨other, active, -, committing⟩ := exists_of_commitIdOf commit
          rw [kept _ fun equal => same (Stamp.uncommitted.inj equal), insertedAt, commit,
            Option.getD_some]
          exact (consistent.committing other active commitId committing).1.le

theorem InsertedInOrder.revertAppend (inOrder : state.InsertedInOrder)
    (ok : state.step (.revertAppend transactionId) = .ok result) : result.InsertedInOrder := by
  rw [step] at ok
  split at ok
  · cases ok
    exact inOrder
  split at ok
  · cases ok
    rw [InsertedInOrder, insertionTimes, List.map_take]
    exact inOrder.sublist (List.take_sublist _ _)
  · cases ok
    exact inOrder

/-- Every operation keeps the order. -/
theorem InsertedInOrder.step (inOrder : state.InsertedInOrder) (consistent : state.Consistent)
    {operation : RowVersionOperation} (permitted : state.Permitted operation)
    (committed : state.CommittedInOrder operation) (ok : state.step operation = .ok result) :
    result.InsertedInOrder := by
  cases operation with
  | startTransaction => exact inOrder.startTransaction consistent.toTimed ok
  | appendVersionInfo transactionId count =>
      exact inOrder.appendVersionInfo consistent.toTimed permitted ok
  | startCommit transactionId => exact inOrder.startCommit consistent permitted committed ok
  | commitAppend position => exact inOrder.commitAppend consistent ok
  | deleteRows transactionId vectorIdx rows =>
      rw [VersionedRows.step] at ok
      split at ok
      · cases ok
        exact inOrder
      · cases ok
        exact inOrder.changeDeleted
  | commitDelete position =>
      rw [VersionedRows.step] at ok
      split at ok
      · cases ok
        exact inOrder
      · cases ok
        exact inOrder.changeDeleted
  | cleanupAppend lowestTransaction start count =>
      rw [VersionedRows.step] at ok
      cases cleaned : state.manager.cleanupAppend lowestTransaction start count with
      | error message =>
          rw [cleaned] at ok
          cases ok
      | ok manager =>
          rw [cleaned] at ok
          cases ok
          exact inOrder
  | revertAppend transactionId => exact inOrder.revertAppend ok
  | finishTransaction transactionId => exact inOrder.finishTransaction consistent permitted ok

/-- Rows that were there before are in order. -/
theorem InsertedInOrder.initial (count : Nat) : (initial count).InsertedInOrder := by
  rw [InsertedInOrder, insertionTimes, VersionedRows.initial, List.map_replicate]
  exact List.pairwise_replicate.mpr (Or.inr (Nat.le_refl _))

end VersionedRows

end StatsRecommender
