import StatsRecommender.Storage.RowVersionRun

/-!
# Snapshots of the rows

The version information stays consistent with the rows under every operation, so that each
transaction sees its snapshot, row by row and vector by vector.
-/

namespace StatsRecommender

variable {stamp : Stamp}
  {id place maxCount position transactionId count commitId lowestTransaction : Nat}
  {row : RowVersion} {info : ChunkVectorInfo} {result : VersionedRows} {pending : PendingAppend}
  {changed : List Nat} {other : ActiveTransaction}

namespace VersionedRows

variable {state : VersionedRows} {data : TransactionData} {rows : List RowVersion}
  {active : List ActiveTransaction} {vectorIdx : Nat} {start : Nat}

/-! ## Reading -/

theorem Timed.running (timed : state.Timed) (running : state.Running data) :
    2 ≤ data.startTime ∧ data.startTime < transactionIdStart ∧
      transactionIdStart ≤ data.transactionId ∧ data.transactionId < notDeletedId := by
  obtain ⟨low, before, start, below⟩ := timed.active _ running
  exact ⟨low, Nat.lt_trans before timed.clock.2, start, Nat.lt_trans below timed.nextId.2⟩

/-- The id of a known stamp is used as the stamp is visible. -/
theorem Timed.useInsertedVersion_id (timed : state.Timed) (running : state.Running data)
    (known : state.Known stamp) : data.useInsertedVersion stamp.id = stamp.visibleTo data := by
  obtain ⟨-, before, start, -⟩ := timed.running running
  cases stamp with
  | uncommitted transactionId =>
      have late : ¬transactionId < data.startTime := by
        have := known.1
        omega
      rw [TransactionData.useInsertedVersion, Stamp.id, Stamp.visibleTo, decide_eq_false late,
        Bool.false_or]
  | committed commitId =>
      have other : (commitId == data.transactionId) = false := by
        rw [beq_eq_false_iff_ne]
        have := timed.clock.2
        have := known.1
        omega
      rw [TransactionData.useInsertedVersion, Stamp.id, Stamp.visibleTo, other, Bool.or_false]

/-- So is every id that represents it. -/
theorem Timed.useInsertedVersion_of_represents (timed : state.Timed) (running : state.Running data)
    (known : state.Known stamp) (represents : Represents state.active id stamp) :
    data.useInsertedVersion id = stamp.visibleTo data := by
  obtain ⟨-, -, start, -⟩ := timed.running running
  cases represents with
  | exact => exact timed.useInsertedVersion_id running known
  | settled settled =>
      obtain ⟨commitId, rfl, earlier⟩ := settled
      have seen : commitId < data.startTime := earlier _ running
      have begun : 0 < data.startTime := by omega
      rw [TransactionData.useInsertedVersion, Stamp.visibleTo, decide_eq_true begun,
        decide_eq_true seen, Bool.true_or]
  | @committing other _ member committing =>
      obtain ⟨ticked, later⟩ := timed.committing other member id committing
      have unseen : ¬id < data.startTime := Nat.not_lt.mpr (Nat.le_of_lt (later _ running))
      have foreign : (id == data.transactionId) = false := by
        rw [beq_eq_false_iff_ne]
        have := timed.clock.2
        omega
      have different : (other.data.transactionId == data.transactionId) = false := by
        rw [beq_eq_false_iff_ne]
        intro same
        have identical := List.inj_on_of_nodup_map timed.nodup member running same
        rw [identical] at committing
        cases committing
      rw [TransactionData.useInsertedVersion, Stamp.visibleTo, decide_eq_false unseen, foreign,
        different, Bool.or_false]

/-- No transaction sees `NOT_DELETED_ID`. -/
theorem Timed.useDeletedVersion_notDeletedId (timed : state.Timed) (running : state.Running data) :
    data.useDeletedVersion notDeletedId = true := by
  obtain ⟨-, before, -, below⟩ := timed.running running
  have late : ¬notDeletedId < data.startTime := by
    have : transactionIdStart < notDeletedId := by decide
    omega
  have foreign : (notDeletedId == data.transactionId) = false :=
    beq_eq_false_iff_ne.mpr (Nat.ne_of_gt below)
  rw [TransactionData.useDeletedVersion, TransactionData.useInsertedVersion,
    decide_eq_false late, foreign]
  rfl

/-- The deletion id of a row is used as the deletion is not visible. -/
theorem Timed.useDeletedVersion_deletedId (timed : state.Timed) (running : state.Running data)
    (member : row ∈ state.rows) :
    data.useDeletedVersion row.deletedId = !row.deleted.any (Stamp.visibleTo data) := by
  rw [RowVersion.deletedId]
  cases deleted : row.deleted with
  | none => exact timed.useDeletedVersion_notDeletedId running
  | some stamp =>
      have known := (timed.known row member).2 stamp deleted
      rw [Option.map_some, Option.getD_some, TransactionData.useDeletedVersion,
        timed.useInsertedVersion_id running known]
      rfl

theorem InVector.mem (inVector : InVector rows vectorIdx place row) :
    row ∈ rows := List.mem_of_getElem? inVector.2

/-- Whether a row of a vector is visible, from its ids. -/
theorem Timed.visible_of_ids (timed : state.Timed) (running : state.Running data)
    (inVector : InVector state.rows vectorIdx place row)
    (inserted : Represents state.active id row.inserted) {deleted : Nat}
    (deleted_eq : deleted = row.deletedId) :
    (data.useInsertedVersion id && data.useDeletedVersion deleted) = row.visibleTo data := by
  have known := (timed.known row inVector.mem).1
  rw [timed.useInsertedVersion_of_represents running known inserted, deleted_eq,
    timed.useDeletedVersion_deletedId running inVector.mem, RowVersion.visibleTo]

/-- The rows of a vector that are visible to a transaction, of the first `maxCount`. -/
def visiblePlaces (state : VersionedRows) (data : TransactionData) (vectorIdx maxCount : Nat) :
    List Nat :=
  (List.range maxCount).filter fun place =>
    state.rows[vectorIdx * standardVectorSize + place]?.any (RowVersion.visibleTo data)

/-- A choice of places that agrees with the visibility of the rows. -/
theorem filter_visible (short : maxCount ≤ standardVectorSize)
    (filled : vectorIdx * standardVectorSize + maxCount ≤ state.rows.length) {p : Nat → Bool}
    (agrees : ∀ place row, InVector state.rows vectorIdx place row →
      p place = row.visibleTo data) :
    (List.range maxCount).filter p = state.visiblePlaces data vectorIdx maxCount := by
  apply List.filter_congr
  intro place member
  have inside := List.mem_range.mp member
  have bound : vectorIdx * standardVectorSize + place < state.rows.length := by omega
  have found := List.getElem?_eq_getElem bound
  rw [agrees place _ ⟨Nat.lt_of_lt_of_le inside short, found⟩, found]
  rfl

theorem range_visible (short : maxCount ≤ standardVectorSize)
    (filled : vectorIdx * standardVectorSize + maxCount ≤ state.rows.length) {b : Bool}
    (agrees : ∀ place row, InVector state.rows vectorIdx place row →
      b = row.visibleTo data) :
    (if b then List.range maxCount else []) = state.visiblePlaces data vectorIdx maxCount := by
  rw [← filter_visible short filled (p := fun _ => b) agrees]
  cases b with
  | false => exact (List.filter_false _).symm
  | true => exact (List.filter_true _).symm

/-- `GetSelVector` selects the visible rows, from whichever information there is. -/
theorem Timed.getSelVector (timed : state.Timed) (running : state.Running data)
    (shows : Shows state.rows state.active vectorIdx (state.manager.getChunkInfo vectorIdx))
    (short : maxCount ≤ standardVectorSize)
    (filled : vectorIdx * standardVectorSize + maxCount ≤ state.rows.length) :
    state.manager.getSelVector data vectorIdx maxCount =
      state.visiblePlaces data vectorIdx maxCount := by
  rw [RowVersionManager.getSelVector]
  have undeleted : ∀ {row : RowVersion} {id : Nat}, id = notDeletedId → row.deleted = none →
      id = row.deletedId := by
    intro row id never none
    rw [never, RowVersion.deletedId, none]
    rfl
  cases held : state.manager.getChunkInfo vectorIdx with
  | none =>
      rw [held] at shows
      refine range_visible (b := true) short filled fun place row inVector => ?_
      obtain ⟨settled, none⟩ := shows place row inVector
      have begun : 0 < data.startTime := by
        have := (timed.running running).1
        omega
      rw [← timed.visible_of_ids running inVector (.settled settled) (undeleted rfl none),
        timed.useDeletedVersion_notDeletedId running, TransactionData.useInsertedVersion,
        decide_eq_true begun]
      rfl
  | some info =>
      rw [held] at shows
      cases info with
      | constant insertId deleteId =>
          obtain ⟨never, -, same⟩ := shows
          refine range_visible short filled fun place row inVector => ?_
          obtain ⟨inserted, none⟩ := same place row inVector
          exact timed.visible_of_ids running inVector inserted (undeleted never none)
      | vector info =>
          have visible : ∀ place row, InVector state.rows vectorIdx place row →
              (data.useInsertedVersion (info.inserted place) &&
                data.useDeletedVersion (info.deleted place)) = row.visibleTo data :=
            fun place row inVector => timed.visible_of_ids running inVector
              (shows.inserted place row inVector) (shows.deleted place row inVector)
          -- an unset flag says of every row what the loop would find
          have noDeletes : info.anyDeleted = false → ∀ place,
              data.useDeletedVersion (info.deleted place) = true := by
            intro flag place
            rw [shows.undeleted flag place]
            exact timed.useDeletedVersion_notDeletedId running
          have sameInserted : info.sameInsertedId = true → ∀ place row,
              InVector state.rows vectorIdx place row →
                data.useInsertedVersion (info.inserted place) =
                  data.useInsertedVersion info.insertId := by
            intro flag place row inVector
            have known := (timed.known row inVector.mem).1
            rw [timed.useInsertedVersion_of_represents running known
                (shows.inserted place row inVector),
              timed.useInsertedVersion_of_represents running known
                (shows.same flag place row inVector)]
          change info.getSelVector data maxCount = _
          rw [ChunkVectorInfo.getSelVector]
          cases same : info.sameInsertedId <;> cases any : info.anyDeleted
          · refine filter_visible short filled fun place row inVector => ?_
            rw [← visible place row inVector, noDeletes any, Bool.and_true]
          · exact filter_visible short filled visible
          · refine range_visible short filled fun place row inVector => ?_
            rw [← visible place row inVector, noDeletes any, Bool.and_true,
              sameInserted same place row inVector]
          · cases use : data.useInsertedVersion info.insertId with
            | false =>
                refine (range_visible (b := false) short filled fun place row inVector => ?_)
                rw [← visible place row inVector, sameInserted same place row inVector, use,
                  Bool.false_and]
            | true =>
                refine filter_visible short filled fun place row inVector => ?_
                rw [← visible place row inVector, sameInserted same place row inVector, use,
                  Bool.true_and]

/-- `Fetch` answers whether the row is visible. -/
theorem Timed.fetch (timed : state.Timed) (running : state.Running data)
    (shows : Shows state.rows state.active (position / standardVectorSize)
      (state.manager.getChunkInfo (position / standardVectorSize)))
    (found : state.rows[position]? = some row) :
    state.manager.fetch data position = row.visibleTo data := by
  have inVector : InVector state.rows (position / standardVectorSize)
      (position - position / standardVectorSize * standardVectorSize) row := by
    have split : position / standardVectorSize * standardVectorSize +
        (position - position / standardVectorSize * standardVectorSize) = position := by
      have := Nat.div_mul_le_self position standardVectorSize
      omega
    constructor
    · rw [standardVectorSize]
      omega
    · rw [split]
      exact found
  rw [RowVersionManager.fetch]
  cases held : state.manager.getChunkInfo (position / standardVectorSize) with
  | none =>
      rw [held] at shows
      obtain ⟨⟨commitId, inserted, earlier⟩, none⟩ := shows _ _ inVector
      rw [RowVersion.visibleTo, inserted, none, Stamp.visibleTo,
        decide_eq_true (earlier _ running)]
      rfl
  | some info =>
      rw [held] at shows
      cases info with
      | constant insertId deleteId =>
          obtain ⟨never, -, same⟩ := shows
          obtain ⟨inserted, none⟩ := same _ _ inVector
          refine timed.visible_of_ids running inVector inserted ?_
          rw [never, RowVersion.deletedId, none]
          rfl
      | vector info =>
          exact timed.visible_of_ids running inVector (shows.inserted _ _ inVector)
            (shows.deleted _ _ inVector)

/-! ## Starting and finishing -/

/-- The information about a vector goes on to show its rows if these stay where they are. -/
theorem Shows.of_rows {rows' : List RowVersion} {active' : List ActiveTransaction}
    {info : Option ChunkInfo} (shows : Shows rows active vectorIdx info)
    (longer : rows.length ≤ rows'.length)
    (inVector : ∀ place row, InVector rows' vectorIdx place row → InVector rows vectorIdx place row)
    (settled : ∀ place row, InVector rows vectorIdx place row →
      Settled active row.inserted → Settled active' row.inserted)
    (represents : ∀ place row id, InVector rows vectorIdx place row →
      Represents active id row.inserted → Represents active' id row.inserted) :
    Shows rows' active' vectorIdx info := by
  cases info with
  | none =>
      intro place row here
      have before := inVector place row here
      exact (shows place row before).imp_left (settled place row before)
  | some info =>
      cases info with
      | constant insertId deleteId =>
          obtain ⟨never, full, same⟩ := shows
          refine ⟨never, full.trans longer, fun place row here => ?_⟩
          have before := inVector place row here
          exact (same place row before).imp_left (represents place row insertId before)
      | vector info =>
          exact
            { begun := Nat.lt_of_lt_of_le shows.begun longer
              inserted := fun place row here => represents place row _ (inVector place row here)
                (shows.inserted place row (inVector place row here))
              deleted := fun place row here => shows.deleted place row (inVector place row here)
              same := fun flag place row here => represents place row _ (inVector place row here)
                (shows.same flag place row (inVector place row here))
              behind := fun place inside beyond => shows.behind place inside (longer.trans beyond)
              undeleted := shows.undeleted }

/--
Other transactions are under way.  They started with old ones or from now on, and none with pending
appends has finished or has another commit id.
-/
theorem Consistent.withActive (consistent : state.Consistent) {clock nextId : Nat}
    (times : state.clock ≤ clock ∧ clock < transactionIdStart)
    (ids : state.nextId ≤ nextId ∧ nextId < notDeletedId)
    (nodup : (active.map fun other => other.data.transactionId).Nodup)
    (begun : ∀ other ∈ active, 2 ≤ other.data.startTime ∧ other.data.startTime < clock ∧
      transactionIdStart ≤ other.data.transactionId ∧ other.data.transactionId < nextId)
    (committing : ∀ other ∈ active, ∀ commitId, other.commitId = some commitId →
      commitId < clock ∧ ∀ reader ∈ active, reader.data.startTime < commitId)
    (starts : ∀ other ∈ active, (∃ before ∈ state.active, before.data = other.data) ∨
      state.clock ≤ other.data.startTime)
    (owners : ∀ pending ∈ state.appends, ∀ other ∈ state.active,
      other.data.transactionId = pending.transactionId →
        ∃ after ∈ active, after.data = other.data ∧ (other.commitId.isSome → after = other)) :
    Consistent { state with active, clock, nextId } := by
  have known : ∀ stamp, state.Known stamp → Known { state with active, clock, nextId } stamp := by
    intro stamp known
    cases stamp with
    | uncommitted transactionId => exact known.imp_right fun low => low.trans_le ids.1
    | committed commitId =>
        refine ⟨known.1.trans_le times.1, fun other member => ?_⟩
        rcases starts other member with ⟨before, old, same⟩ | late
        · rw [← same]
          exact known.2 before old
        · exact Nat.ne_of_lt (known.1.trans_le late)
  have settled : ∀ stamp, state.Known stamp → Settled state.active stamp → Settled active stamp := by
    rintro stamp known ⟨commitId, rfl, earlier⟩
    refine ⟨commitId, rfl, fun other member => ?_⟩
    rcases starts other member with ⟨before, old, same⟩ | late
    · rw [← same]
      exact earlier before old
    · exact known.1.trans_le late
  refine
    { clock := ⟨consistent.clock.1.trans times.1, times.2⟩
      nextId := ⟨consistent.nextId.1.trans ids.1, ids.2⟩
      nodup
      active := begun
      committing
      known := fun row member => ⟨known _ (consistent.known row member).1,
        fun stamp deleted => known stamp ((consistent.known row member).2 stamp deleted)⟩
      shows := fun vectorIdx => ?_
      appends := fun pending member => ?_
      ordered := consistent.ordered
      covered := consistent.covered
      deletes := fun pending member => { consistent.deletes pending member with } }
  · have inserted := fun place row (here : InVector state.rows vectorIdx place row) =>
      (consistent.known row here.mem).1
    refine (consistent.shows vectorIdx).of_rows (Nat.le_refl _) (fun _ _ here => here)
      (fun place row here => settled _ (inserted place row here))
      fun place row id here represents => ?_
    generalize hstamp : row.inserted = stamp at represents
    cases represents with
    | exact => exact .exact _
    | settled before => exact .settled (settled _ (hstamp ▸ inserted place row here) before)
    | @committing other _ member commit =>
        obtain ⟨pending, held, same, -⟩ := consistent.covered _ row here.2 _ hstamp
        obtain ⟨after, there, -, kept⟩ := owners pending held other member same.symm
        rw [kept (Option.isSome_of_eq_some commit)] at there
        exact .committing there commit
  · obtain ⟨other, old, own⟩ := (consistent.appends pending member).active
    obtain ⟨after, there, same, -⟩ := owners pending member other old own
    exact { consistent.appends pending member with
      active := ⟨after, there, (congrArg TransactionData.transactionId same).trans own⟩ }

theorem Consistent.startTransaction (consistent : state.Consistent)
    (permitted : state.Permitted .startTransaction)
    (ok : state.step .startTransaction = .ok result) : result.Consistent := by
  cases ok
  obtain ⟨idle, time, ids⟩ := permitted
  refine consistent.withActive ⟨Nat.le_succ _, time⟩ ⟨Nat.le_succ _, ids⟩ ?_ ?_ ?_ ?_ ?_
  · rw [List.map_append]
    refine List.Nodup.append consistent.nodup (List.nodup_singleton _) ?_
    intro transactionId old new
    obtain ⟨other, member, rfl⟩ := List.mem_map.mp old
    rw [List.map_singleton, List.mem_singleton] at new
    exact Nat.ne_of_lt (consistent.active other member).2.2.2 new
  · intro other member
    rcases List.mem_append.mp member with old | new
    · obtain ⟨low, before, start, below⟩ := consistent.active other old
      exact ⟨low, Nat.lt_succ_of_lt before, start, Nat.lt_succ_of_lt below⟩
    · rw [List.mem_singleton.mp new]
      exact ⟨consistent.clock.1, Nat.lt_succ_self _, consistent.nextId.1, Nat.lt_succ_self _⟩
  · intro other member commitId committing
    rcases List.mem_append.mp member with old | new
    · rw [idle other old] at committing
      cases committing
    · rw [List.mem_singleton.mp new] at committing
      cases committing
  · intro other member
    rcases List.mem_append.mp member with old | new
    · exact .inl ⟨other, old, rfl⟩
    · rw [List.mem_singleton.mp new]
      exact .inr (Nat.le_refl _)
  · exact fun _ _ other member _ => ⟨other, List.mem_append_left _ member, rfl, fun _ => rfl⟩

theorem Consistent.startCommit (consistent : state.Consistent)
    (permitted : state.Permitted (.startCommit transactionId))
    (ok : state.step (.startCommit transactionId) = .ok result) : result.Consistent := by
  cases ok
  obtain ⟨time, data, running, rfl⟩ := permitted
  obtain ⟨mark, hmark⟩ : ∃ mark : ActiveTransaction → ActiveTransaction, mark = fun other =>
      if other.data.transactionId = data.transactionId then
        { other with commitId := some state.clock }
      else other := ⟨_, rfl⟩
  rw [← hmark]
  have mark_data : ∀ other, (mark other).data = other.data := by
    intro other
    rw [hmark]
    dsimp only
    split <;> rfl
  have starts : ∀ other ∈ state.active.map mark, ∃ before ∈ state.active,
      before.data = other.data := by
    intro other member
    obtain ⟨before, old, rfl⟩ := List.mem_map.mp member
    exact ⟨before, old, (mark_data before).symm⟩
  refine consistent.withActive ⟨Nat.le_succ _, time⟩ ⟨Nat.le_refl _, consistent.nextId.2⟩ ?_ ?_ ?_
    (fun other member => .inl (starts other member)) ?_
  · have same : (state.active.map mark).map (fun other => other.data.transactionId) =
        state.active.map fun other => other.data.transactionId := by
      rw [List.map_map]
      apply List.map_congr_left
      intro other _
      rw [Function.comp_apply, mark_data]
    rw [same]
    exact consistent.nodup
  · intro other member
    obtain ⟨before, old, same⟩ := starts other member
    obtain ⟨low, early, start, below⟩ := consistent.active before old
    rw [← same]
    exact ⟨low, Nat.lt_succ_of_lt early, start, below⟩
  · intro other member commitId committing
    obtain ⟨before, old, rfl⟩ := List.mem_map.mp member
    rw [hmark] at committing
    dsimp only at committing
    split at committing
    · cases committing
      refine ⟨Nat.lt_succ_self _, fun reader there => ?_⟩
      obtain ⟨earlier, held, same⟩ := starts reader there
      rw [← same]
      exact (consistent.active earlier held).2.1
    · obtain ⟨ticked, later⟩ := consistent.committing before old commitId committing
      refine ⟨Nat.lt_succ_of_lt ticked, fun reader there => ?_⟩
      obtain ⟨earlier, held, same⟩ := starts reader there
      rw [← same]
      exact later earlier held
  · intro pending held other member own
    refine ⟨mark other, List.mem_map_of_mem member, mark_data other, fun committing => ?_⟩
    rw [hmark]
    dsimp only
    rw [if_neg]
    intro same
    rw [List.inj_on_of_nodup_map consistent.nodup member running same] at committing
    cases committing

theorem Consistent.finishTransaction (consistent : state.Consistent)
    (permitted : state.Permitted (.finishTransaction transactionId))
    (ok : state.step (.finishTransaction transactionId) = .ok result) : result.Consistent := by
  cases ok
  have fewer : ∀ other ∈ state.active.filter fun other =>
      decide (other.data.transactionId ≠ transactionId), other ∈ state.active :=
    fun other member => (List.mem_filter.mp member).1
  refine consistent.withActive ⟨Nat.le_refl _, consistent.clock.2⟩
    ⟨Nat.le_refl _, consistent.nextId.2⟩ (consistent.nodup.sublist (List.filter_sublist.map _))
    (fun other member => consistent.active other (fewer other member))
    (fun other member commitId committing =>
      (consistent.committing other (fewer other member) commitId committing).imp_right
        fun later reader there => later reader (fewer reader there))
    (fun other member => .inl ⟨other, fewer other member, rfl⟩) ?_
  -- the rows of a pending append are not those of the transaction that finishes
  intro pending held other member own
  refine ⟨other, List.mem_filter.mpr ⟨member, decide_eq_true ?_⟩, rfl, fun _ => rfl⟩
  rw [own]
  exact permitted.1 pending held

/-! ## Operations on the vectors of some rows -/

/--
What an operation leaves in a vector: information that shows the rows that there are afterwards,
constant only where it may be, and with marked deletes still marked.
-/
structure Rewritten (state : VersionedRows) (rows : List RowVersion) (constant : Nat → Prop)
    (vectorIdx : Nat) (info : ChunkInfo) : Prop where
  shows : Shows rows state.active vectorIdx (some info)
  constants : ∀ insertId deleteId, info = .constant insertId deleteId → constant vectorIdx
  marks : ∀ held, state.manager.getChunkInfo vectorIdx = some (.vector held) →
    vectorIdx * standardVectorSize < state.rows.length →
      ∃ after, info = .vector after ∧ after.anyDeleted = held.anyDeleted

/-- The vectors of some rows are rewritten, and the others are as they were. -/
def RewrittenFrom (state : VersionedRows) (rows : List RowVersion) (constant : Nat → Prop)
    (first last : Nat) (manager : RowVersionManager) : Prop :=
  ∀ vectorIdx,
    (vectorIdx ∉ VersionInfo.vectors first last ∧
      manager.getChunkInfo vectorIdx = state.manager.getChunkInfo vectorIdx) ∨
    ∃ info, manager.getChunkInfo vectorIdx = some info ∧
      state.Rewritten rows constant vectorIdx info

/-- An operation that goes through on each of the vectors goes through. -/
theorem exists_rewrittenFrom {constant : Nat → Prop} {first last : Nat}
    {manager : RowVersionManager}
    {change : Nat → Option ChunkInfo → Except String (Option ChunkInfo)}
    (same : ∀ vectorIdx, manager.getChunkInfo vectorIdx = state.manager.getChunkInfo vectorIdx)
    (fits : ∀ vectorIdx ∈ VersionInfo.vectors first last, vectorIdx < manager.vectorInfo.length)
    (each : ∀ vectorIdx ∈ VersionInfo.vectors first last, ∃ info,
      change vectorIdx (state.manager.getChunkInfo vectorIdx) = .ok (some info) ∧
        state.Rewritten rows constant vectorIdx info) :
    ∃ result, RowVersionManager.changeVectors change (VersionInfo.vectors first last) manager =
        .ok result ∧
      state.RewrittenFrom rows constant first last result := by
  choose! changed hchanged rewritten using each
  obtain ⟨result, hresult, infos⟩ := manager.changeVectors_spec
    (VersionInfo.nodup_vectors first last) (fun vectorIdx => some (changed vectorIdx))
    (fun vectorIdx overlap => (congrArg _ (same vectorIdx)).trans (hchanged vectorIdx overlap))
    (fun vectorIdx overlap => .inl (fits vectorIdx overlap))
  refine ⟨result, hresult, fun vectorIdx => ?_⟩
  rw [infos vectorIdx]
  split
  · rename_i overlap
    exact .inr ⟨_, rfl, rewritten vectorIdx overlap⟩
  · rename_i apart
    exact .inl ⟨apart, same vectorIdx⟩

namespace RewrittenFrom

variable {constant : Nat → Prop} {first last : Nat} {manager : RowVersionManager}

/-- The information shows the rows everywhere, if those of other vectors have not changed. -/
theorem shows (rewritten : state.RewrittenFrom rows constant first last manager)
    (consistent : state.Consistent) (longer : state.rows.length ≤ rows.length)
    (unchanged : ∀ vectorIdx, vectorIdx ∉ VersionInfo.vectors first last → ∀ place row,
      InVector rows vectorIdx place row → InVector state.rows vectorIdx place row)
    (vectorIdx : Nat) : Shows rows state.active vectorIdx (manager.getChunkInfo vectorIdx) := by
  rcases rewritten vectorIdx with ⟨apart, same⟩ | ⟨info, now, here⟩
  · rw [same]
    exact (consistent.shows vectorIdx).of_rows longer (unchanged vectorIdx apart)
      (fun _ _ _ settled => settled) fun _ _ _ _ represents => represents
  · rw [now]
    exact here.shows

theorem constants (rewritten : state.RewrittenFrom rows constant first last manager)
    {insertId deleteId : Nat}
    (held : manager.getChunkInfo vectorIdx = some (.constant insertId deleteId)) :
    constant vectorIdx ∨
      state.manager.getChunkInfo vectorIdx = some (.constant insertId deleteId) := by
  rcases rewritten vectorIdx with ⟨-, same⟩ | ⟨info, now, here⟩
  · exact .inr (same.symm.trans held)
  · exact .inl (here.constants insertId deleteId (Option.some.inj (now.symm.trans held)))

/-- Marked deletes stay marked where there are no fewer rows. -/
theorem marked (rewritten : state.RewrittenFrom result.rows constant first last result.manager)
    (longer : state.rows.length ≤ result.rows.length) {pending : PendingDelete}
    (marked : state.Marked pending) : result.Marked pending := by
  obtain ⟨nonempty, inside, info, held, flag⟩ := marked
  refine ⟨nonempty, fun place there => (inside place there).imp_right fun low => low.trans_le longer,
    ?_⟩
  obtain ⟨place, there⟩ := List.exists_mem_of_ne_nil _ nonempty
  rcases rewritten pending.info.vectorIdx with ⟨-, same⟩ | ⟨_, now, here⟩
  · exact ⟨info, same.trans held, flag⟩
  · obtain ⟨after, rfl, kept⟩ := here.marks info held
      (Nat.lt_of_le_of_lt (Nat.le_add_right _ _) (inside place there).2)
    exact ⟨after, now, kept.trans flag⟩

end RewrittenFrom

/-! ## Appending and reverting -/

/-- New rows in a vector, some of which an append writes. -/
theorem VectorShows.append (positive : 0 < count)
    (overlap : vectorIdx ∈ VersionInfo.vectors rows.length (rows.length + count))
    (inserted : ∀ place row, InVector rows vectorIdx place row →
      Represents active (info.inserted place) row.inserted)
    (deleted : ∀ place row, InVector rows vectorIdx place row → info.deleted place = row.deletedId)
    (same : info.sameInsertedId = true → ∀ place row, InVector rows vectorIdx place row →
      Represents active info.insertId row.inserted) (behind : ∀ place < standardVectorSize,
      rows.length ≤ vectorIdx * standardVectorSize + place → info.deleted place = notDeletedId)
    (undeleted : info.anyDeleted = false → ∀ place, info.deleted place = notDeletedId) :
    VectorShows (rows ++ List.replicate count ⟨.uncommitted transactionId, none⟩) active vectorIdx
      (info.append (rows.length - vectorIdx * standardVectorSize)
        (min standardVectorSize (rows.length + count - vectorIdx * standardVectorSize))
        transactionId) := by
  have bounds := (VersionInfo.mem_vectors (Nat.lt_add_of_pos_right positive)).mp overlap
  obtain ⟨marked, hmarked⟩ : ∃ marked : ChunkVectorInfo, marked =
      if rows.length - vectorIdx * standardVectorSize = 0 then
        { info with insertId := transactionId }
      else if info.insertId ≠ transactionId then
        { info with sameInsertedId := false, insertId := notDeletedId }
      else info := ⟨_, rfl⟩
  have arrays : marked.inserted = info.inserted ∧ marked.deleted = info.deleted ∧
      marked.anyDeleted = info.anyDeleted := by
    rw [hmarked]
    split
    · exact ⟨rfl, rfl, rfl⟩
    · split <;> exact ⟨rfl, rfl, rfl⟩
  -- a row of the vector is an old one in front of the append or a new one that it writes
  have cases : ∀ place row, InVector (rows ++ List.replicate count
        ⟨.uncommitted transactionId, none⟩) vectorIdx place row →
      (InVector rows vectorIdx place row ∧
        place < rows.length - vectorIdx * standardVectorSize) ∨
      (row = ⟨.uncommitted transactionId, none⟩ ∧
        rows.length ≤ vectorIdx * standardVectorSize + place ∧
        place ∈ List.range' (rows.length - vectorIdx * standardVectorSize)
          (min standardVectorSize (rows.length + count - vectorIdx * standardVectorSize) -
            (rows.length - vectorIdx * standardVectorSize))) := by
    rintro place row ⟨inside, found⟩
    rcases Nat.lt_or_ge (vectorIdx * standardVectorSize + place) rows.length with old | new
    · rw [List.getElem?_append_left old] at found
      refine Or.inl ⟨⟨inside, found⟩, ?_⟩
      omega
    · rw [List.getElem?_append_right new, List.getElem?_replicate] at found
      split at found
      · rename_i short
        cases found
        refine Or.inr ⟨rfl, new, ?_⟩
        rw [List.mem_range'_1]
        omega
      · cases found
  have outside : ∀ place, place < rows.length - vectorIdx * standardVectorSize →
      place ∉ List.range' (rows.length - vectorIdx * standardVectorSize)
        (min standardVectorSize (rows.length + count - vectorIdx * standardVectorSize) -
          (rows.length - vectorIdx * standardVectorSize)) := by
    intro place early member
    rw [List.mem_range'_1] at member
    omega
  rw [ChunkVectorInfo.append, ← hmarked, writeRange_eq]
  refine
    { begun := ?_
      inserted := fun place row here => ?_
      deleted := fun place row here => ?_
      same := fun flag place row here => ?_
      behind := fun place inside beyond => ?_
      undeleted := ?_ }
  · rw [List.length_append, List.length_replicate]
    exact bounds.2
  · dsimp only
    rcases cases place row here with ⟨old, early⟩ | ⟨rfl, -, written⟩
    · rw [writeAll_of_not_mem (outside place early), arrays.1]
      exact inserted place row old
    · rw [writeAll_of_mem written]
      exact .exact (.uncommitted transactionId)
  · dsimp only
    rw [arrays.2.1]
    rcases cases place row here with ⟨old, -⟩ | ⟨rfl, new, -⟩
    · exact deleted place row old
    · exact behind place here.1 new
  · dsimp only at flag ⊢
    rw [hmarked] at flag ⊢
    rcases cases place row here with ⟨old, early⟩ | ⟨rfl, -, -⟩
    · rw [if_neg (by omega)] at flag ⊢
      split at flag
      · cases flag
      · rename_i equal
        rw [if_neg equal]
        exact same flag place row old
    · split
      · exact .exact (.uncommitted transactionId)
      · rename_i started
        rw [if_neg started] at flag
        split at flag
        · cases flag
        · rename_i equal
          rw [if_neg equal, not_ne_iff.mp equal]
          exact .exact (.uncommitted transactionId)
  · dsimp only
    rw [arrays.2.1]
    rw [List.length_append] at beyond
    exact behind place inside (by omega)
  · dsimp only
    rw [arrays.2.1, arrays.2.2]
    exact undeleted

/-- The vectors that an append fills. -/
def Filled (state : VersionedRows) (count vectorIdx : Nat) : Prop :=
  state.rows.length ≤ vectorIdx * standardVectorSize ∧
    (vectorIdx + 1) * standardVectorSize ≤ state.rows.length + count

/-- `AppendVersionInfo` on one vector: what it leaves there shows the rows. -/
theorem Consistent.appendVector (consistent : state.Consistent) (transactionId : Nat)
    (positive : 0 < count)
    (overlap : vectorIdx ∈ VersionInfo.vectors state.rows.length (state.rows.length + count)) :
    ∃ info, RowVersionManager.appendVector transactionId state.rows.length
        (state.rows.length + count) vectorIdx (state.manager.getChunkInfo vectorIdx) =
          .ok (some info) ∧
      state.Rewritten (state.rows ++ List.replicate count ⟨.uncommitted transactionId, none⟩)
        (state.Filled count) vectorIdx info := by
  have some_rows : state.rows.length < state.rows.length + count :=
    Nat.lt_add_of_pos_right positive
  have bounds := (VersionInfo.mem_vectors some_rows).mp overlap
  have shows := consistent.shows vectorIdx
  rw [RowVersionManager.appendVector.eq_def, VersionInfo.covered_eq some_rows overlap]
  dsimp only
  split
  · rename_i whole
    have start := congrArg Prod.fst whole
    have stop := congrArg Prod.snd whole
    dsimp only at start stop
    rw [Nat.add_mul, Nat.one_mul] at bounds
    refine ⟨_, rfl, ⟨rfl, ?_, ?_⟩, fun _ _ _ => ?_, fun _ _ _ => ?_⟩
    · rw [List.length_append, List.length_replicate, Nat.add_mul, Nat.one_mul]
      omega
    · rintro place row ⟨-, found⟩
      rw [List.getElem?_append_right (by omega), List.getElem?_replicate] at found
      split at found
      · cases found
        exact ⟨.exact (.uncommitted transactionId), rfl⟩
      · cases found
    · rw [Filled, Nat.add_mul, Nat.one_mul]
      omega
    · omega
  · cases held : state.manager.getChunkInfo vectorIdx with
    | none =>
        rw [held] at shows
        refine ⟨_, rfl, ?_, fun _ _ impossible => (by cases impossible),
          fun _ other => by cases held.symm.trans other⟩
        refine VectorShows.append positive overlap ?_ ?_ ?_ (fun _ _ _ => rfl) (fun _ _ => rfl)
        · exact fun place row here => .settled (shows place row here).1
        · intro place row here
          rw [RowVersion.deletedId, (shows place row here).2]
          rfl
        · exact fun _ place row here => .settled (shows place row here).1
    | some info =>
        rw [held] at shows
        cases info with
        | constant insertId deleteId =>
            have full := shows.2.1
            rw [Nat.add_mul, Nat.one_mul] at full bounds
            omega
        | vector info =>
            refine ⟨_, rfl, VectorShows.append positive overlap shows.inserted shows.deleted
              shows.same shows.behind shows.undeleted, fun _ _ impossible => (by cases impossible),
              fun _ equal _ => ⟨_, rfl, ?_⟩⟩
            cases held.symm.trans equal
            rw [ChunkVectorInfo.append]
            dsimp only
            split
            · rfl
            · split <;> rfl

/-- Rows are appended, and the version manager does not refuse. -/
theorem Consistent.appendVersionInfo (consistent : state.Consistent)
    (permitted : state.Permitted (.appendVersionInfo transactionId count)) :
    ∃ result, state.step (.appendVersionInfo transactionId count) = .ok result ∧
      result.Consistent := by
  obtain ⟨positive, data, running, rfl⟩ := permitted
  obtain ⟨rows, hrows⟩ : ∃ rows, rows = state.rows ++
      List.replicate count ⟨.uncommitted data.transactionId, none⟩ := ⟨_, rfl⟩
  have length : rows.length = state.rows.length + count := by
    rw [hrows, List.length_append, List.length_replicate]
  have some_rows : state.rows.length < state.rows.length + count :=
    Nat.lt_add_of_pos_right positive
  have owner := (consistent.active _ running).2.2
  obtain ⟨manager, appended, rewritten⟩ := exists_rewrittenFrom
    (state.manager.getChunkInfo_fillVectorInfo
      ((state.rows.length + count - 1) / standardVectorSize))
    (fun vectorIdx overlap => by
      have bounds := (VersionInfo.mem_vectors some_rows).mp overlap
      have filled := state.manager.length_fillVectorInfo
        ((state.rows.length + count - 1) / standardVectorSize)
      rw [standardVectorSize] at bounds filled ⊢
      omega)
    fun _ overlap => consistent.appendVector data.transactionId positive overlap
  rw [← hrows] at rewritten
  refine ⟨_, (by rw [step, RowVersionManager.appendVersionInfo, appended]; rfl), ?_⟩
  rw [← hrows]
  refine
    { consistent with
      known := ?_
      shows := rewritten.shows consistent (by rw [length]; omega) ?_
      appends := ?_
      ordered := ?_
      covered := ?_
      deletes := fun _ member => rewritten.marked (by dsimp only; omega)
        (consistent.deletes _ member) }
  · intro row member
    rw [hrows] at member
    rcases List.mem_append.mp member with old | new
    · exact consistent.known row old
    · rw [(List.mem_replicate.mp new).2]
      exact ⟨owner, fun _ impossible => by cases impossible⟩
  · rintro vectorIdx apart place row ⟨inside, found⟩
    refine ⟨inside, ?_⟩
    rw [VersionInfo.mem_vectors some_rows, Nat.add_mul, Nat.one_mul] at apart
    have bound := (List.getElem?_eq_some_iff.mp found).1
    rw [length] at bound
    rw [hrows, List.getElem?_append_left (by omega)] at found
    exact found
  · intro pending member
    rcases List.mem_append.mp member with old | new
    · obtain ⟨count', inside, stored, owner, before⟩ := consistent.appends pending old
      refine ⟨count', ?_, fun position low high => ?_, owner, ?_⟩
      · dsimp only
        rw [length]
        omega
      · obtain ⟨row, found, inserted⟩ := stored position low high
        refine ⟨row, ?_, inserted⟩
        dsimp only
        rw [hrows, List.getElem?_append_left (List.getElem?_eq_some_iff.mp found).1]
        exact found
      · intro vectorIdx insertId deleteId held
        rcases rewritten.constants held with ⟨fresh, -⟩ | kept
        · exact Or.inr (Or.inl (inside.trans fresh))
        · exact before vectorIdx insertId deleteId kept
    · rw [List.mem_singleton.mp new]
      refine ⟨positive, length.ge, fun position low high => ?_, ⟨_, running, rfl⟩, ?_⟩
      · dsimp only at low high ⊢
        refine ⟨⟨.uncommitted data.transactionId, none⟩, ?_, rfl⟩
        rw [hrows, List.getElem?_append_right low, List.getElem?_replicate, if_pos (by omega)]
      · intro vectorIdx insertId deleteId held
        rcases rewritten.constants held with fresh | kept
        · exact Or.inr (Or.inr fresh)
        · have shows := consistent.shows vectorIdx
          rw [kept] at shows
          exact Or.inl shows.2.1
  · refine List.pairwise_append.mpr ⟨consistent.ordered, List.pairwise_singleton _ _, ?_⟩
    intro before old after new
    rw [List.mem_singleton.mp new]
    exact (consistent.appends before old).inside
  · intro position row found owner inserted
    rcases Nat.lt_or_ge position state.rows.length with old | new
    · dsimp only at found
      rw [hrows, List.getElem?_append_left old] at found
      obtain ⟨pending, member, rest⟩ := consistent.covered position row found owner inserted
      exact ⟨pending, List.mem_append_left _ member, rest⟩
    · have bound := (List.getElem?_eq_some_iff.mp found).1
      dsimp only at found bound
      rw [length] at bound
      rw [hrows, List.getElem?_append_right new, List.getElem?_replicate,
        if_pos (by omega)] at found
      cases found
      cases inserted
      exact ⟨_, List.mem_append_right _ (List.mem_singleton_self _), rfl, new, bound⟩

theorem Consistent.revertAppend (consistent : state.Consistent)
    (permitted : state.Permitted (.revertAppend transactionId))
    (ok : state.step (.revertAppend transactionId) = .ok result) : result.Consistent := by
  rw [step] at ok
  split at ok
  · cases ok
    exact consistent
  rename_i pending last
  split at ok
  swap
  · cases ok
    exact consistent
  rename_i own
  cases ok
  obtain ⟨stop, -, undeleted, before⟩ := permitted pending last own
  obtain ⟨front, hfront⟩ := List.getLast?_eq_some_iff.mp last
  have member : pending ∈ state.appends := List.mem_of_getLast? last
  have fewer : ∀ other ∈ state.appends.dropLast, other ∈ state.appends :=
    fun other there => List.dropLast_subset _ there
  have length : (state.rows.take pending.start).length = pending.start := by
    rw [List.length_take]
    omega
  have kept : ∀ (position : Nat) (row : RowVersion),
      (state.rows.take pending.start)[position]? = some row →
        state.rows[position]? = some row ∧ position < pending.start := by
    intro position row found
    have bound := (List.getElem?_eq_some_iff.mp found).1
    rw [length] at bound
    rw [List.getElem?_take_of_lt bound] at found
    exact ⟨found, bound⟩
  have inFront : ∀ other ∈ state.appends.dropLast, other.start + other.count ≤ pending.start := by
    intro other there
    have ordered := consistent.ordered
    rw [hfront, List.dropLast_concat] at there
    rw [hfront] at ordered
    exact (List.pairwise_append.mp ordered).2.2 other there pending (List.mem_singleton_self _)
  refine
    { consistent with
      known := fun row there => consistent.known row (List.mem_of_mem_take there)
      shows := ?_
      appends := ?_
      ordered := consistent.ordered.sublist (List.dropLast_sublist _)
      covered := ?_
      deletes := ?_ }
  · intro vectorIdx
    dsimp only
    rw [RowVersionManager.getChunkInfo_revertAppend]
    have shows := consistent.shows vectorIdx
    have inVector : ∀ place row, InVector (state.rows.take pending.start) vectorIdx place row →
        InVector state.rows vectorIdx place row :=
      fun place row here => ⟨here.1, (kept _ row here.2).1⟩
    split
    · rename_i low
      have begun : vectorIdx * standardVectorSize < pending.start := by
        rw [standardVectorSize] at low ⊢
        omega
      cases held : state.manager.getChunkInfo vectorIdx with
      | none =>
          rw [held] at shows
          exact fun place row here => shows place row (inVector place row here)
      | some info =>
          rw [held] at shows
          cases info with
          | constant insertId deleteId =>
              obtain ⟨never, full, same⟩ := shows
              have whole : (vectorIdx + 1) * standardVectorSize ≤ pending.start := by
                have apart := (consistent.appends pending member).constants vectorIdx insertId
                  deleteId held
                rw [Nat.add_mul, Nat.one_mul, standardVectorSize] at full apart ⊢
                rw [standardVectorSize] at begun
                omega
              refine ⟨never, ?_, fun place row here => same place row (inVector place row here)⟩
              rw [length]
              exact whole
          | vector info =>
              refine
                { begun := ?_
                  inserted := fun place row here => shows.inserted place row (inVector place row here)
                  deleted := fun place row here => shows.deleted place row (inVector place row here)
                  same := fun flag place row here =>
                    shows.same flag place row (inVector place row here)
                  behind := fun place here beyond => ?_
                  undeleted := shows.undeleted }
              · rw [length]
                exact begun
              · rw [length] at beyond
                rcases Nat.lt_or_ge (vectorIdx * standardVectorSize + place) state.rows.length
                  with inside | outside
                · have found := List.getElem?_eq_getElem inside
                  have dropped : state.rows[vectorIdx * standardVectorSize + place] ∈
                      state.rows.drop pending.start := by
                    apply List.mem_of_getElem?
                    rw [List.getElem?_drop, ← found]
                    congr 1
                    exact Nat.add_sub_cancel' beyond
                  rw [shows.deleted place _ ⟨here, found⟩, RowVersion.deletedId,
                    undeleted _ dropped]
                  rfl
                · exact shows.behind place here outside
    · rename_i high
      intro place row here
      have bound := (kept _ row here.2).2
      rw [standardVectorSize] at high bound
      omega
  · intro other there
    obtain ⟨count, -, stored, owner, constants⟩ := consistent.appends other (fewer other there)
    have stop := inFront other there
    refine ⟨count, ?_, fun position low high => ?_, owner, ?_⟩
    · dsimp only
      rw [length]
      exact stop
    · obtain ⟨row, found, inserted⟩ := stored position low high
      refine ⟨row, ?_, inserted⟩
      dsimp only
      rw [List.getElem?_take_of_lt (by omega)]
      exact found
    · intro vectorIdx insertId deleteId held
      dsimp only at held
      rw [RowVersionManager.getChunkInfo_revertAppend] at held
      split at held
      · exact constants vectorIdx insertId deleteId held
      · cases held
  · intro position row found owner inserted
    obtain ⟨held, bound⟩ := kept position row found
    obtain ⟨other, there, same, low, high⟩ :=
      consistent.covered position row held owner inserted
    refine ⟨other, ?_, same, low, high⟩
    rw [hfront] at there
    dsimp only
    rw [hfront, List.dropLast_concat]
    rcases List.mem_append.mp there with early | late
    · exact early
    · rw [List.mem_singleton.mp late] at low
      omega
  · intro delete there
    obtain ⟨nonempty, inside, info, held, flag⟩ := consistent.deletes delete there
    have low : ∀ place ∈ delete.info.deletedRows,
        delete.info.vectorIdx * standardVectorSize + place < pending.start :=
      fun place here => before delete there _ (List.mem_map_of_mem here)
    refine ⟨nonempty, fun place here => ⟨(inside place here).1, ?_⟩, info, ?_, flag⟩
    · dsimp only
      rw [length]
      exact low place here
    · obtain ⟨place, here⟩ := List.exists_mem_of_ne_nil _ nonempty
      have early := low place here
      dsimp only
      rw [RowVersionManager.getChunkInfo_revertAppend, if_pos]
      · exact held
      · rw [standardVectorSize] at early ⊢
        omega

/-! ## Committing appends -/

theorem getElem?_changeFrom (first : Nat) (changed : List Nat) (change : RowVersion → RowVersion)
    (rows : List RowVersion) (position : Nat) :
    (changeFrom first changed change rows)[position]? =
      rows[position]?.map fun row => if first + position ∈ changed then change row else row := by
  induction rows generalizing first position with
  | nil => rfl
  | cons row rest ih =>
      cases position with
      | zero => rfl
      | succ position =>
          rw [changeFrom, List.getElem?_cons_succ, List.getElem?_cons_succ, ih, Nat.add_right_comm,
            Nat.add_assoc]

theorem getElem?_changeRows (rows : List RowVersion) (changed : List Nat)
    (change : RowVersion → RowVersion) (position : Nat) :
    (changeRows rows changed change)[position]? =
      rows[position]?.map fun row => if position ∈ changed then change row else row := by
  rw [changeRows, getElem?_changeFrom, Nat.zero_add]

theorem length_changeRows (rows : List RowVersion) (changed : List Nat)
    (change : RowVersion → RowVersion) : (changeRows rows changed change).length = rows.length := by
  rw [changeRows]
  generalize 0 = first
  induction rows generalizing first with
  | nil => rfl
  | cons row rest ih => exact congrArg (· + 1) (ih (first + 1))

/-- A row after a change is an old one, changed or not. -/
theorem InVector.of_changeRows {change : RowVersion → RowVersion}
    (inVector : InVector (changeRows rows changed change) vectorIdx place row) :
    ∃ old, InVector rows vectorIdx place old ∧
      row = if vectorIdx * standardVectorSize + place ∈ changed then change old else old := by
  obtain ⟨inside, found⟩ := inVector
  rw [getElem?_changeRows, Option.map_eq_some_iff] at found
  obtain ⟨old, held, rfl⟩ := found
  exact ⟨old, ⟨inside, held⟩, rfl⟩

theorem known_changeRows {change : RowVersion → RowVersion} {known : Stamp → Prop}
    (before : ∀ row ∈ rows, known row.inserted ∧ ∀ stamp, row.deleted = some stamp → known stamp)
    (after : ∀ row ∈ rows, known (change row).inserted ∧
      ∀ stamp, (change row).deleted = some stamp → known stamp) :
    ∀ row ∈ changeRows rows changed change,
      known row.inserted ∧ ∀ stamp, row.deleted = some stamp → known stamp := by
  intro row member
  obtain ⟨position, found⟩ := List.mem_iff_getElem?.mp member
  rw [getElem?_changeRows, Option.map_eq_some_iff] at found
  obtain ⟨old, held, rfl⟩ := found
  split
  · exact after old (List.mem_of_getElem? held)
  · exact before old (List.mem_of_getElem? held)

/-- The commit id of a transaction that is committing. -/
theorem exists_of_commitIdOf (committing : state.commitIdOf transactionId = some commitId) :
    ∃ other ∈ state.active, other.data.transactionId = transactionId ∧
      other.commitId = some commitId := by
  rw [commitIdOf, Option.bind_eq_some_iff] at committing
  obtain ⟨other, found, commit⟩ := committing
  have same := List.find?_some found
  exact ⟨other, List.mem_of_find?_eq_some found, eq_of_beq same, commit⟩

/-- A commit id is no time at which a transaction started. -/
theorem Timed.known_commitId (timed : state.Timed) (member : other ∈ state.active)
    (committing : other.commitId = some commitId) : state.Known (.committed commitId) := by
  obtain ⟨ticked, later⟩ := timed.committing other member commitId committing
  exact ⟨ticked, fun reader there => (Nat.ne_of_lt (later reader there)).symm⟩

/--
An id that represents a row of a committing transaction represents other rows in such a way
that its commit id does, too.
-/
theorem Timed.represents_commitId (timed : state.Timed) (member : other ∈ state.active)
    (committing : other.commitId = some commitId) (known : state.Known stamp)
    (own : Represents state.active id (.uncommitted other.data.transactionId))
    (represents : Represents state.active id stamp) : Represents state.active commitId stamp := by
  have late := (timed.active other member).2.2.1
  have clock := timed.clock.2
  have ticked := (timed.committing other member commitId committing).1
  have begun := (timed.committing other member commitId committing).2 other member
  have id_eq : id = other.data.transactionId ∨ id = commitId := by
    generalize hstamp : Stamp.uncommitted other.data.transactionId = mark at own
    cases own with
    | exact =>
        rw [← hstamp]
        exact Or.inl rfl
    | settled settled =>
        obtain ⟨_, impossible, -⟩ := settled
        rw [← hstamp] at impossible
        cases impossible
    | @committing another _ there commit =>
        have same := List.inj_on_of_nodup_map timed.nodup member there (Stamp.uncommitted.inj hstamp)
        rw [← same, committing] at commit
        exact Or.inr (Option.some.inj commit).symm
  cases represents with
  | exact =>
      cases stamp with
      | uncommitted transactionId =>
          rw [Stamp.id] at id_eq
          rw [Known] at known
          rcases id_eq with same | same
          · rw [same]
            exact .committing member committing
          · omega
      | committed other_commit =>
          rw [Stamp.id] at id_eq
          have := known.1
          rcases id_eq with same | same
          · omega
          · rw [same]
            exact .exact (.committed commitId)
  | settled =>
      rcases id_eq with same | same <;> omega
  | committing there commit =>
      rcases id_eq with same | same
      · have := (timed.committing _ there id commit).1
        omega
      · rw [same] at commit
        exact .committing there commit

/-- Another pending append covers other rows. -/
theorem disjoint_of_mem_eraseIdx {appends : List PendingAppend}
    (ordered : appends.Pairwise fun before after => before.start + before.count ≤ after.start)
    {other : PendingAppend} (found : appends[position]? = some pending)
    (member : other ∈ appends.eraseIdx position) :
    other.start + other.count ≤ pending.start ∨ pending.start + pending.count ≤ other.start := by
  obtain ⟨index, different, found'⟩ := List.mem_eraseIdx_iff_getElem?.mp member
  obtain ⟨inside, rfl⟩ := List.getElem?_eq_some_iff.mp found
  obtain ⟨inside', rfl⟩ := List.getElem?_eq_some_iff.mp found'
  rcases Nat.lt_or_gt_of_ne different with before | behind
  · exact Or.inl (List.pairwise_iff_getElem.mp ordered _ _ inside' inside before)
  · exact Or.inr (List.pairwise_iff_getElem.mp ordered _ _ inside inside' behind)

/-- A row after the commit of an append: committed now, or as it was. -/
theorem Pending.row_cases (held : state.Pending pending)
    (here : InVector (changeRows state.rows (List.range' pending.start pending.count)
      fun row => { row with inserted := .committed commitId }) vectorIdx place row) :
    ∃ old, InVector state.rows vectorIdx place old ∧ row.deleted = old.deleted ∧
      ((pending.start ≤ vectorIdx * standardVectorSize + place ∧
          vectorIdx * standardVectorSize + place < pending.start + pending.count ∧
          row.inserted = .committed commitId ∧
          old.inserted = .uncommitted pending.transactionId) ∨
        (¬(pending.start ≤ vectorIdx * standardVectorSize + place ∧
          vectorIdx * standardVectorSize + place < pending.start + pending.count) ∧
          row.inserted = old.inserted)) := by
  obtain ⟨old, before, rfl⟩ := here.of_changeRows
  refine ⟨old, before, ?_, ?_⟩
  · split <;> rfl
  · split
    · rename_i inside
      obtain ⟨low, high⟩ := List.mem_range'_1.mp inside
      refine Or.inl ⟨low, high, rfl, ?_⟩
      obtain ⟨stored, there, inserted⟩ := held.rows _ low high
      cases before.2.symm.trans there
      exact inserted
    · rename_i apart
      exact Or.inr ⟨fun both => apart (List.mem_range'_1.mpr both), rfl⟩

/-- A vector that has a row of a pending append. -/
theorem Pending.exists_inVector (held : state.Pending pending)
    (overlap : vectorIdx ∈ VersionInfo.vectors pending.start (pending.start + pending.count)) :
    ∃ place row, InVector state.rows vectorIdx place row ∧
      row.inserted = .uncommitted pending.transactionId := by
  have some_rows := held.count_pos
  have bounds := (VersionInfo.mem_vectors (Nat.lt_add_of_pos_right some_rows)).mp overlap
  rw [Nat.add_mul, Nat.one_mul] at bounds
  obtain ⟨own, hown⟩ : ∃ own, own = pending.start - vectorIdx * standardVectorSize := ⟨_, rfl⟩
  obtain ⟨row, there, inserted⟩ := held.rows (vectorIdx * standardVectorSize + own)
    (by omega) (by omega)
  refine ⟨own, row, ⟨?_, there⟩, inserted⟩
  have : 0 < standardVectorSize := by decide
  omega

/-- The ids of a `ChunkVectorInfo` are committed for the rows of a pending append. -/
theorem Consistent.commitVectorInfo (consistent : state.Consistent) (held : state.Pending pending)
    (member : other ∈ state.active) (owner : other.data.transactionId = pending.transactionId)
    (committing : other.commitId = some commitId)
    (shows : VectorShows state.rows state.active vectorIdx info)
    (overlap : vectorIdx ∈ VersionInfo.vectors pending.start (pending.start + pending.count)) :
    VectorShows (changeRows state.rows (List.range' pending.start pending.count)
        fun row => { row with inserted := .committed commitId }) state.active vectorIdx
      (info.commitAppend commitId
        (VersionInfo.covered pending.start (pending.start + pending.count) vectorIdx).1
        (VersionInfo.covered pending.start (pending.start + pending.count) vectorIdx).2) := by
  have some_rows : pending.start < pending.start + pending.count :=
    Nat.lt_add_of_pos_right held.count_pos
  obtain ⟨own, first, firstIn, first_inserted⟩ := held.exists_inVector overlap
  rw [VersionInfo.covered_eq some_rows overlap]
  have written : ∀ place, place < standardVectorSize →
      (place ∈ List.range' (pending.start - vectorIdx * standardVectorSize)
        (min standardVectorSize
          (pending.start + pending.count - vectorIdx * standardVectorSize) -
            (pending.start - vectorIdx * standardVectorSize)) ↔
      pending.start ≤ vectorIdx * standardVectorSize + place ∧
        vectorIdx * standardVectorSize + place < pending.start + pending.count) := by
    intro place small
    rw [List.mem_range'_1]
    omega
  refine
    { begun := ?_
      inserted := fun place row here => ?_
      deleted := fun place row here => ?_
      same := fun flag place row here => ?_
      behind := fun place small beyond => ?_
      undeleted := shows.undeleted }
  · rw [length_changeRows]
    exact shows.begun
  · dsimp only [ChunkVectorInfo.commitAppend]
    rw [writeRange_eq]
    obtain ⟨old, before, -, ⟨low, high, now, -⟩ | ⟨apart, now⟩⟩ := held.row_cases here
    · rw [writeAll_of_mem ((written place here.1).mpr ⟨low, high⟩), now]
      exact .exact (.committed commitId)
    · rw [writeAll_of_not_mem fun inside => apart ((written place here.1).mp inside), now]
      exact shows.inserted place old before
  · obtain ⟨old, before, deleted, -⟩ := held.row_cases here
    rw [RowVersion.deletedId, deleted]
    exact shows.deleted place old before
  · dsimp only [ChunkVectorInfo.commitAppend] at flag ⊢
    rw [if_pos flag]
    obtain ⟨old, before, -, ⟨-, -, now, -⟩ | ⟨-, now⟩⟩ := held.row_cases here
    · rw [now]
      exact .exact (.committed commitId)
    · have ownId := shows.same flag own first firstIn
      rw [first_inserted, ← owner] at ownId
      rw [now]
      exact consistent.represents_commitId member committing
        (consistent.known old before.mem).1 ownId (shows.same flag place old before)
  · rw [length_changeRows] at beyond
    exact shows.behind place small beyond

/-- The vectors with one id for all their rows. -/
def Constant (state : VersionedRows) (vectorIdx : Nat) : Prop :=
  ∃ insertId deleteId, state.manager.getChunkInfo vectorIdx = some (.constant insertId deleteId)

/-- `CommitAppend` on one vector: the information is there, and shows the rows afterwards. -/
theorem Consistent.commitVector (consistent : state.Consistent) (held : state.Pending pending)
    (member : other ∈ state.active) (owner : other.data.transactionId = pending.transactionId)
    (committing : other.commitId = some commitId)
    (overlap : vectorIdx ∈ VersionInfo.vectors pending.start (pending.start + pending.count)) :
    ∃ info, RowVersionManager.commitVector commitId pending.start
        (pending.start + pending.count) vectorIdx (state.manager.getChunkInfo vectorIdx) =
          .ok (some info) ∧
      state.Rewritten (changeRows state.rows (List.range' pending.start pending.count)
        fun row => { row with inserted := .committed commitId }) state.Constant vectorIdx info := by
  obtain ⟨own, first, firstIn, inserted⟩ := held.exists_inVector overlap
  have shows := consistent.shows vectorIdx
  cases stored : state.manager.getChunkInfo vectorIdx with
  | none =>
      rw [stored] at shows
      obtain ⟨_, impossible, -⟩ := (shows own first firstIn).1
      rw [inserted] at impossible
      cases impossible
  | some info =>
      rw [stored] at shows
      cases info with
      | constant insertId deleteId =>
          obtain ⟨never, full, same⟩ := shows
          have whole := held.constants vectorIdx insertId deleteId stored
          have bounds :=
            (VersionInfo.mem_vectors (Nat.lt_add_of_pos_right held.count_pos)).mp overlap
          refine ⟨_, rfl, ⟨never, ?_, fun place row here => ?_⟩, fun _ _ _ => ⟨_, _, stored⟩,
            fun _ other => by cases stored.symm.trans other⟩
          · rw [length_changeRows]
            exact full
          · obtain ⟨old, before, deleted, ⟨-, -, now, -⟩ | ⟨apart, -⟩⟩ := held.row_cases here
            · rw [now, deleted]
              exact ⟨.exact (.committed commitId), (same place old before).2⟩
            · have small := here.1
              rw [Nat.add_mul, Nat.one_mul] at whole bounds
              omega
      | vector info =>
          refine ⟨_, rfl, consistent.commitVectorInfo held member owner committing shows overlap,
            fun _ _ impossible => (by cases impossible), fun _ equal _ => ?_⟩
          cases stored.symm.trans equal
          exact ⟨_, rfl, rfl⟩

/-- The rows of a pending append are committed, and their information is there. -/
theorem Consistent.commitAppend (consistent : state.Consistent) (position : Nat) :
    ∃ result, state.step (.commitAppend position) = .ok result ∧ result.Consistent := by
  rw [step]
  cases found : state.appends[position]? with
  | none => exact ⟨state, rfl, consistent⟩
  | some pending =>
  dsimp only
  cases commit : state.commitIdOf pending.transactionId with
  | none => exact ⟨state, rfl, consistent⟩
  | some commitId =>
  dsimp only
  obtain ⟨other, member, owner, committing⟩ := exists_of_commitIdOf commit
  have held := consistent.appends pending (List.mem_of_getElem? found)
  have known := consistent.known_commitId member committing
  have each := fun vectorIdx
      (overlap : vectorIdx ∈ VersionInfo.vectors pending.start (pending.start + pending.count)) =>
    consistent.commitVector held member owner committing overlap
  obtain ⟨manager, committed, rewritten⟩ := exists_rewrittenFrom (fun _ => rfl)
    (fun vectorIdx overlap => by
      obtain ⟨info, made, -⟩ := each vectorIdx overlap
      cases stored : state.manager.getChunkInfo vectorIdx with
      | none =>
          rw [stored] at made
          cases made
      | some info => exact RowVersionManager.lt_length_of_getChunkInfo stored) each
  refine ⟨_, (by
    rw [RowVersionManager.commitAppend, if_neg (Nat.ne_of_gt held.count_pos), committed]
    rfl), ?_⟩
  have outside : ∀ row, row ∉ List.range' pending.start pending.count ↔
      row < pending.start ∨ pending.start + pending.count ≤ row := by
    intro row
    rw [List.mem_range'_1]
    omega
  refine
    { consistent with
      known := known_changeRows consistent.known fun row there =>
        ⟨known, (consistent.known row there).2⟩
      shows := rewritten.shows consistent (length_changeRows _ _ _).ge
        fun vectorIdx apart place row here => ?_
      appends := fun after there => ?_
      ordered := consistent.ordered.sublist (List.eraseIdx_sublist _ _)
      covered := fun row version stored owner' inserted => ?_
      deletes := fun delete there => rewritten.marked (length_changeRows _ _ _).ge
        (consistent.deletes delete there) }
  · have small := here.1
    obtain ⟨old, before, rfl⟩ := here.of_changeRows
    rw [if_neg]
    · exact before
    · rw [VersionInfo.mem_vectors (Nat.lt_add_of_pos_right held.count_pos), Nat.add_mul,
        Nat.one_mul] at apart
      rw [outside]
      omega
  · obtain ⟨positive, inside, stored, owner', constants⟩ :=
      consistent.appends after (List.mem_of_mem_eraseIdx there)
    have apart := disjoint_of_mem_eraseIdx consistent.ordered found there
    refine ⟨positive, ?_, fun row low high => ?_, owner', ?_⟩
    · dsimp only
      rw [length_changeRows]
      exact inside
    · obtain ⟨version, before, inserted⟩ := stored row low high
      refine ⟨version, ?_, inserted⟩
      dsimp only
      rw [getElem?_changeRows, before, Option.map_some, if_neg]
      rw [outside]
      omega
    · intro vectorIdx insertId deleteId now'
      rcases rewritten.constants now' with ⟨_, _, before⟩ | same
      · exact constants vectorIdx _ _ before
      · exact constants vectorIdx insertId deleteId same
  · dsimp only at stored
    rw [getElem?_changeRows, Option.map_eq_some_iff] at stored
    obtain ⟨old, before, rfl⟩ := stored
    split at inserted
    · cases inserted
    · rename_i apart
      obtain ⟨after, there, same, low, high⟩ := consistent.covered row old before owner' inserted
      refine ⟨after, ?_, same, low, high⟩
      obtain ⟨index, found'⟩ := List.mem_iff_getElem?.mp there
      refine List.mem_eraseIdx_iff_getElem?.mpr ⟨index, ?_, found'⟩
      rintro rfl
      cases found.symm.trans found'
      exact apart (List.mem_range'_1.mpr ⟨low, high⟩)

/-! ## Cleaning up -/

/-- An id up to the lowest transaction stands for a change that is settled. -/
theorem Consistent.settled_of_le (consistent : state.Consistent)
    (lowest : ∀ other ∈ state.active, lowestTransaction ≤ other.data.startTime)
    (inVector : InVector state.rows vectorIdx place row)
    (represents : Represents state.active id row.inserted) (low : id ≤ lowestTransaction) :
    Settled state.active row.inserted := by
  have known := (consistent.known row inVector.mem).1
  generalize hstamp : row.inserted = stamp at represents known
  cases represents with
  | exact =>
      cases stamp with
      | uncommitted transactionId =>
          obtain ⟨pending, there, same, -⟩ :=
            consistent.covered _ row inVector.2 transactionId hstamp
          obtain ⟨other, member, own⟩ := (consistent.appends pending there).active
          obtain ⟨-, before, start, -⟩ := consistent.active other member
          have := lowest other member
          have := consistent.clock.2
          rw [Stamp.id] at low
          omega
      | committed commitId =>
          refine ⟨commitId, rfl, fun other member => ?_⟩
          exact Nat.lt_of_le_of_ne (low.trans (lowest other member)) (known.2 other member)
  | settled settled => exact settled
  | committing member committing =>
      have later := (consistent.committing _ member id committing).2 _ member
      have := lowest _ member
      omega

theorem Timed.insertedAt_le (timed : state.Timed) (known : state.Known stamp) :
    state.insertedAt stamp ≤ notDeletedId := by
  have := timed.clock.2
  have : transactionIdStart < notDeletedId := by decide
  cases stamp with
  | committed commitId =>
      have := known.1
      rw [insertedAt]
      omega
  | uncommitted transactionId =>
      rw [insertedAt]
      cases commit : state.commitIdOf transactionId with
      | none => exact Nat.le_refl _
      | some commitId =>
          obtain ⟨other, member, -, committing⟩ := exists_of_commitIdOf commit
          have := (timed.committing other member commitId committing).1
          rw [Option.getD_some]
          omega

/-- A row in front of a settled one is settled. -/
theorem Timed.settled_of_inOrder (timed : state.Timed) (inOrder : state.InsertedInOrder)
    {later : Nat} {next : RowVersion} (behind : position < later)
    (found : state.rows[position]? = some row) (found' : state.rows[later]? = some next)
    (settled : Settled state.active next.inserted) : Settled state.active row.inserted := by
  obtain ⟨commitId, committed, earlier⟩ := settled
  obtain ⟨-, rfl⟩ := List.getElem?_eq_some_iff.mp found
  obtain ⟨short', rfl⟩ := List.getElem?_eq_some_iff.mp found'
  have early : state.insertedAt state.rows[position].inserted ≤ commitId := by
    have ordered := List.pairwise_iff_getElem.mp inOrder position later
      (by rwa [insertionTimes, List.length_map]) (by rwa [insertionTimes, List.length_map]) behind
    simpa only [insertionTimes, List.getElem_map, committed, insertedAt] using ordered
  have known := (timed.known _ (List.getElem_mem short')).1
  rw [committed] at known
  cases inserted : state.rows[position].inserted with
  | committed before =>
      rw [inserted, insertedAt] at early
      exact ⟨before, rfl, fun other member => Nat.lt_of_le_of_lt early (earlier other member)⟩
  | uncommitted transactionId =>
      -- its commit would come after the start of its own transaction
      rw [inserted, insertedAt] at early
      cases commit : state.commitIdOf transactionId with
      | none =>
          rw [commit, Option.getD_none] at early
          have := timed.clock.2
          have := known.1
          have : transactionIdStart < notDeletedId := by decide
          omega
      | some time =>
          obtain ⟨other, member, -, committing⟩ := exists_of_commitIdOf commit
          have := (timed.committing other member time committing).2 other member
          have := earlier other member
          rw [commit, Option.getD_some] at early
          omega

/-- A vector keeps its information, or it loses it and all its rows are settled. -/
theorem Consistent.cleanupVector (consistent : state.Consistent) (inOrder : state.InsertedInOrder)
    (filled : start + count ≤ state.rows.length)
    (lowest : ∀ other ∈ state.active, lowestTransaction ≤ other.data.startTime)
    (overlap : vectorIdx ∈ VersionInfo.vectors start (start + count))
    (some_rows : start < start + count) :
    ∃ info, RowVersionManager.cleanupVector lowestTransaction start (start + count) vectorIdx
        (state.manager.getChunkInfo vectorIdx) = .ok info ∧
      (info = state.manager.getChunkInfo vectorIdx ∨
        info = none ∧ Shows state.rows state.active vectorIdx none ∧
          ∀ held, state.manager.getChunkInfo vectorIdx = some (.vector held) →
            held.anyDeleted = false) := by
  have shows := consistent.shows vectorIdx
  cases held : state.manager.getChunkInfo vectorIdx with
  | none => exact ⟨_, rfl, Or.inl rfl⟩
  | some info =>
      rw [RowVersionManager.cleanupVector]
      split
      · exact ⟨_, rfl, Or.inl rfl⟩
      rename_i whole
      split
      swap
      · exact ⟨_, rfl, Or.inl rfl⟩
      rename_i cleaned
      rw [held] at shows
      refine ⟨_, rfl, Or.inr ⟨rfl, ?_⟩⟩
      cases info with
      | constant insertId deleteId =>
          obtain ⟨never, -, same⟩ := shows
          rw [ChunkInfo.cleanup, if_neg (not_not.mpr never)] at cleaned
          refine ⟨fun place row here => ?_, fun _ impossible => by cases impossible⟩
          obtain ⟨represents, undeleted⟩ := same place row here
          exact ⟨consistent.settled_of_le lowest here represents (of_decide_eq_true cleaned),
            undeleted⟩
      | vector info =>
          change info.cleanup lowestTransaction = true at cleaned
          rw [ChunkVectorInfo.cleanup] at cleaned
          split at cleaned
          · cases cleaned
          rename_i undeleted
          rw [Bool.not_eq_true] at undeleted
          refine ⟨fun place row here => ⟨?_, ?_⟩, fun other equal => ?_⟩
          · split at cleaned
            · rename_i different
              rw [Bool.not_eq_true'] at different
              have later : ∀ place, 0 < place → place < standardVectorSize →
                  info.inserted place ≤ lowestTransaction := by
                intro place positive small
                refine of_decide_eq_true (List.all_eq_true.mp cleaned place ?_)
                rw [List.mem_range'_1]
                omega
              rcases Nat.eq_zero_or_pos place with rfl | positive
              · -- the loop passes the first row by; the second one is there, as all rows are
                rw [VersionInfo.covered_eq some_rows overlap, not_ne_iff] at whole
                dsimp only at whole
                have second : 1 < standardVectorSize := by decide
                have bound : vectorIdx * standardVectorSize + 1 < state.rows.length := by omega
                have next := List.getElem?_eq_getElem bound
                exact consistent.settled_of_inOrder inOrder (Nat.lt_succ_self _) here.2 next
                  (consistent.settled_of_le lowest ⟨second, next⟩
                    (shows.inserted 1 _ ⟨second, next⟩) (later 1 Nat.one_pos second))
              · exact consistent.settled_of_le lowest here (shows.inserted place row here)
                  (later place positive here.1)
            · rename_i same
              rw [Bool.not_eq_true', Bool.not_eq_false] at same
              exact consistent.settled_of_le lowest here (shows.same same place row here)
                (of_decide_eq_true cleaned)
          · have never := shows.undeleted undeleted place
            rw [shows.deleted place row here, RowVersion.deletedId] at never
            cases deleted : row.deleted with
            | none => rfl
            | some stamp =>
                rw [deleted, Option.map_some, Option.getD_some] at never
                have known := (consistent.known row here.mem).2 stamp deleted
                have times := consistent.clock.2
                have : transactionIdStart < notDeletedId := by decide
                cases stamp with
                | uncommitted transactionId =>
                    have := known.2
                    have := consistent.nextId.2
                    rw [Stamp.id] at never
                    omega
                | committed commitId =>
                    have := known.1
                    rw [Stamp.id] at never
                    omega
          · cases equal
            exact undeleted

theorem Consistent.cleanupAppend (consistent : state.Consistent)
    (permitted : state.Permitted (.cleanupAppend lowestTransaction start count))
    (inOrder : state.InsertedInOrder) :
    ∃ result, state.step (.cleanupAppend lowestTransaction start count) = .ok result ∧
      result.Consistent := by
  rw [step, RowVersionManager.cleanupAppend]
  by_cases none : count = 0
  · rw [if_pos none]
    exact ⟨state, rfl, consistent⟩
  rw [if_neg none]
  have some_rows : start < start + count := Nat.lt_add_of_pos_right (Nat.pos_of_ne_zero none)
  obtain ⟨-, filled, lowest⟩ := permitted
  have each := fun vectorIdx (overlap : vectorIdx ∈ VersionInfo.vectors start (start + count)) =>
    consistent.cleanupVector inOrder filled lowest overlap some_rows
  choose! changed hchanged kept using each
  obtain ⟨manager, hmanager, infos⟩ := state.manager.changeVectors_spec
    (VersionInfo.nodup_vectors start (start + count)) changed hchanged
    (fun vectorIdx overlap => by
      rcases kept vectorIdx overlap with same | ⟨dropped, -⟩
      · cases held : state.manager.getChunkInfo vectorIdx with
        | none => exact Or.inr (same.trans held)
        | some info => exact Or.inl (RowVersionManager.lt_length_of_getChunkInfo held)
      · exact Or.inr dropped)
  refine ⟨_, by rw [hmanager]; rfl, ?_⟩
  have info_cases : ∀ vectorIdx, manager.getChunkInfo vectorIdx =
      state.manager.getChunkInfo vectorIdx ∨
        manager.getChunkInfo vectorIdx = Option.none ∧
          Shows state.rows state.active vectorIdx Option.none ∧
          ∀ held, state.manager.getChunkInfo vectorIdx = some (.vector held) →
            held.anyDeleted = false := by
    intro vectorIdx
    rw [infos vectorIdx]
    split
    · rename_i overlap
      exact kept vectorIdx overlap
    · exact Or.inl rfl
  refine
    { consistent with
      shows := fun vectorIdx => ?_
      appends := fun pending member => ?_
      deletes := fun pending member => ?_ }
  · dsimp only
    rcases info_cases vectorIdx with same | ⟨dropped, shows, -⟩
    · rw [same]
      exact consistent.shows vectorIdx
    · rw [dropped]
      exact shows
  · obtain ⟨positive, inside, rows, owner, constants⟩ := consistent.appends pending member
    refine ⟨positive, inside, rows, owner, fun vectorIdx insertId deleteId held => ?_⟩
    dsimp only at held
    rcases info_cases vectorIdx with same | ⟨dropped, -⟩
    · rw [same] at held
      exact constants vectorIdx insertId deleteId held
    · rw [dropped] at held
      cases held
  · obtain ⟨nonempty, inside, info, held, flag⟩ := consistent.deletes pending member
    refine ⟨nonempty, inside, info, ?_, flag⟩
    dsimp only
    rcases info_cases pending.info.vectorIdx with same | ⟨-, -, undeleted⟩
    · rw [same]
      exact held
    · rw [undeleted info held] at flag
      cases flag

end VersionedRows

end StatsRecommender
