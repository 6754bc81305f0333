import StatsRecommender.Storage.RowVersionOrder

/-!
# Deletes, and the snapshots of whole runs

What deletes and their commit do to the version information, and the snapshots that every
transaction sees in every run.
-/

namespace StatsRecommender

variable {transactionId : Nat} {deletedRows places : List Nat} {info : ChunkVectorInfo}

namespace VersionedRows

variable {state : VersionedRows} {data : TransactionData} {rows : List RowVersion}
  {active : List ActiveTransaction} {vectorIdx : Nat}

/-! ## The loop over the rows to delete -/

theorem writeAll_writeAll_of_unset {array : Nat → Nat} {written seen : List Nat} {id : Nat}
    (same : ∀ row ∈ written, row ∈ seen) (unset : ∀ row ∈ seen, array row = notDeletedId) :
    writeAll (writeAll array written id) seen notDeletedId = array := by
  funext row
  by_cases member : row ∈ seen
  · rw [writeAll_of_mem member, unset row member]
  · rw [writeAll_of_not_mem member, writeAll_of_not_mem fun there => member (same row there)]

/--
The loop of `ChunkVectorInfo::Delete`, after the rows `seen`, of which those in front of
`deletedTuples` are all that were deleted: it deletes the rest, too, or it restores all ids.
-/
theorem deleteLoop_spec (before : ChunkVectorInfo) (rest : List Nat)
    (own : ∀ row ∈ rest, before.deleted row ≠ transactionId) (seen : List Nat) (deletedTuples : Nat)
    (short : deletedTuples ≤ seen.length) (same : ∀ row ∈ seen, row ∈ seen.take deletedTuples)
    (unset : ∀ row ∈ seen, before.deleted row = notDeletedId) :
    (∃ deleted, ChunkVectorInfo.deleteLoop transactionId
        { before with deleted := writeAll before.deleted (seen.take deletedTuples) transactionId }
        seen deletedTuples rest =
          ({ before with deleted := writeAll before.deleted deleted transactionId }, .ok deleted) ∧
      ∀ row, row ∈ deleted ↔ row ∈ seen ∨ row ∈ rest) ∨
    ∃ message, ChunkVectorInfo.deleteLoop transactionId
        { before with deleted := writeAll before.deleted (seen.take deletedTuples) transactionId }
        seen deletedTuples rest = (before, .error message) := by
  induction rest generalizing seen deletedTuples with
  | nil =>
      refine Or.inl ⟨seen.take deletedTuples, rfl, fun row => ⟨fun member => ?_, fun member => ?_⟩⟩
      · exact Or.inl (List.mem_of_mem_take member)
      · exact same row (member.resolve_right List.not_mem_nil)
  | cons row rest ih =>
      have ownRest : ∀ other ∈ rest, before.deleted other ≠ transactionId :=
        fun other member => own other (List.mem_cons_of_mem _ member)
      have reorder : ∀ other, other ∈ seen ∨ other ∈ row :: rest ↔
          (other ∈ seen ∨ other = row) ∨ other ∈ rest := by
        intro other
        rw [List.mem_cons]
        exact or_assoc.symm
      rw [ChunkVectorInfo.deleteLoop]
      dsimp only
      by_cases again : row ∈ seen.take deletedTuples
      · -- the row was deleted in an earlier round
        have there := List.mem_of_mem_take again
        rw [if_pos (writeAll_of_mem again)]
        have taken : (seen ++ [row]).take deletedTuples = seen.take deletedTuples :=
          List.take_append_of_le_length short
        have members : ∀ other, other ∈ seen ++ [row] ↔ other ∈ seen ∨ other = row := by
          intro other
          rw [List.mem_append, List.mem_singleton]
        have next := ih ownRest (seen ++ [row]) deletedTuples
          (by
            rw [List.length_append]
            exact Nat.le_add_right_of_le short)
          (fun other member => by
            rw [taken]
            rcases (members other).mp member with old | new
            · exact same other old
            · rw [new]
              exact again)
          (fun other member => by
            rcases (members other).mp member with old | new
            · exact unset other old
            · rw [new]
              exact unset row there)
        rw [taken] at next
        simpa only [members, reorder] using next
      · have kept : writeAll before.deleted (seen.take deletedTuples) transactionId row =
            before.deleted row := writeAll_of_not_mem again
        rw [if_neg (kept.trans_ne (own row List.mem_cons_self))]
        by_cases free : before.deleted row = notDeletedId
        · rw [if_neg (not_not.mpr (kept.trans free)), writeAll_writeAll_singleton]
          have inside : deletedTuples < (seen ++ [row]).length := by
            rw [List.length_append, List.length_singleton]
            exact Nat.lt_succ_of_le short
          have taken : ((seen ++ [row]).set deletedTuples row).take (deletedTuples + 1) =
              seen.take deletedTuples ++ [row] := by
            rw [List.take_add_one, List.take_set_of_le (Nat.le_refl _),
              List.take_append_of_le_length short, List.getElem?_set_self inside]
            rfl
          have members : ∀ other, other ∈ (seen ++ [row]).set deletedTuples row ↔
              other ∈ seen ∨ other = row := by
            intro other
            constructor
            · intro member
              rcases List.mem_or_eq_of_mem_set member with old | new
              · rw [List.mem_append, List.mem_singleton] at old
                exact old
              · exact Or.inr new
            · intro member
              have there : other ∈ seen.take deletedTuples ++ [row] := by
                rw [List.mem_append, List.mem_singleton]
                exact member.imp_left (same other)
              rw [← taken] at there
              exact List.mem_of_mem_take there
          have next := ih ownRest ((seen ++ [row]).set deletedTuples row) (deletedTuples + 1)
            (by
              rw [List.length_set]
              exact inside)
            (fun other member => by
              rw [taken, List.mem_append, List.mem_singleton]
              exact ((members other).mp member).imp_left (same other))
            (fun other member => by
              rcases (members other).mp member with old | new
              · exact unset other old
              · rw [new]
                exact free)
          rw [taken] at next
          simpa only [members, reorder] using next
        · rw [if_pos (kept.trans_ne free)]
          refine Or.inr ⟨_, Prod.ext ?_ rfl⟩
          dsimp only
          rw [writeAll_writeAll_of_unset (fun _ => List.mem_of_mem_take) unset]

/-- `ChunkVectorInfo::Delete` deletes all rows, or none of them. -/
theorem delete_spec (info : ChunkVectorInfo)
    (own : ∀ row ∈ deletedRows, info.deleted row ≠ transactionId) :
    (∃ deleted, info.delete transactionId deletedRows =
        ({ info with deleted := writeAll info.deleted deleted transactionId, anyDeleted := true },
          .ok deleted) ∧
      ∀ row, row ∈ deleted ↔ row ∈ deletedRows) ∨
    ∃ message, info.delete transactionId deletedRows =
      ({ info with anyDeleted := true }, .error message) := by
  have spec := deleteLoop_spec { info with anyDeleted := true } deletedRows own [] 0
    (Nat.le_refl _) (fun _ impossible => by cases impossible) fun _ impossible => by cases impossible
  have unchanged : writeAll info.deleted ([].take 0) transactionId = info.deleted := by
    funext row
    exact writeAll_of_not_mem List.not_mem_nil
  rw [unchanged] at spec
  rcases spec with ⟨deleted, ok, members⟩ | ⟨message, conflict⟩
  · refine Or.inl ⟨deleted, ok, fun row => ?_⟩
    rw [members row]
    exact or_iff_right List.not_mem_nil
  · exact Or.inr ⟨message, conflict⟩

/-! ## Deleting -/

/-- `GetVectorInfo` makes a `ChunkVectorInfo` that shows the same rows. -/
theorem Shows.vectorOf {info : Option ChunkInfo} (shows : Shows rows active vectorIdx info)
    (begun : vectorIdx * standardVectorSize < rows.length) :
    VectorShows rows active vectorIdx (RowVersionManager.vectorOf info) := by
  cases info with
  | none =>
      exact
        { begun
          inserted := fun place row here => .settled (shows place row here).1
          deleted := fun place row here => by
            rw [RowVersion.deletedId, (shows place row here).2]
            rfl
          same := fun _ place row here => .settled (shows place row here).1
          behind := fun _ _ _ => rfl
          undeleted := fun _ _ => rfl }
  | some info =>
      cases info with
      | constant insertId deleteId =>
          obtain ⟨-, -, same⟩ := shows
          exact
            { begun
              inserted := fun place row here => (same place row here).1
              deleted := fun place row here => by
                rw [RowVersion.deletedId, (same place row here).2]
                rfl
              same := fun _ place row here => (same place row here).1
              behind := fun _ _ _ => rfl
              undeleted := fun _ _ => rfl }
      | vector info => exact shows

/-- `any_deleted` may be set. -/
theorem VectorShows.setAnyDeleted (shows : VectorShows rows active vectorIdx info) :
    VectorShows rows active vectorIdx { info with anyDeleted := true } :=
  { shows with undeleted := fun impossible => by cases impossible }

theorem mem_positions {place : Nat} :
    vectorIdx * standardVectorSize + place ∈ positions vectorIdx places ↔ place ∈ places := by
  rw [positions, List.mem_map]
  constructor
  · rintro ⟨other, member, same⟩
    rw [← Nat.add_left_cancel same]
    exact member
  · intro member
    exact ⟨place, member, rfl⟩

/-- The rows of other vectors are at other positions. -/
theorem not_mem_positions {other place : Nat} (small : ∀ row ∈ places, row < standardVectorSize)
    (different : other ≠ vectorIdx) (inside : place < standardVectorSize) :
    other * standardVectorSize + place ∉ positions vectorIdx places := by
  intro member
  obtain ⟨row, there, same⟩ := List.mem_map.mp member
  have bound := small row there
  apply different
  have quotient := congrArg (· / standardVectorSize) same
  rw [standardVectorSize] at quotient bound inside
  omega

/-- Deletion ids are written to the rows that have the deletion. -/
theorem VectorShows.write (shows : VectorShows rows active vectorIdx info)
    (inside : ∀ place ∈ places,
      vectorIdx * standardVectorSize + place < rows.length) (flag : info.anyDeleted = true)
    (deleted : Option Stamp) :
    VectorShows (changeRows rows (positions vectorIdx places) fun row => { row with deleted }) active
      vectorIdx { info with
        deleted := writeAll info.deleted places ((deleted.map Stamp.id).getD notDeletedId) } := by
  refine
    { begun := ?_
      inserted := fun place row here => ?_
      deleted := fun place row here => ?_
      same := fun same place row here => ?_
      behind := fun place small beyond => ?_
      undeleted := fun unset => ?_ }
  · rw [length_changeRows]
    exact shows.begun
  · obtain ⟨old, before, rfl⟩ := here.of_changeRows
    have represents := shows.inserted place old before
    split <;> exact represents
  · obtain ⟨old, before, rfl⟩ := here.of_changeRows
    dsimp only
    by_cases member : place ∈ places
    · rw [writeAll_of_mem member, if_pos (mem_positions.mpr member)]
      rfl
    · rw [writeAll_of_not_mem member, if_neg (mt mem_positions.mp member)]
      exact shows.deleted place old before
  · obtain ⟨old, before, rfl⟩ := here.of_changeRows
    have represents := shows.same same place old before
    split <;> exact represents
  · rw [length_changeRows] at beyond
    dsimp only
    rw [writeAll_of_not_mem]
    · exact shows.behind place small beyond
    · intro member
      exact absurd (inside place member) (Nat.not_lt.mpr beyond)
  · rw [flag] at unset
    cases unset

/--
A state stays consistent when rows of one vector get a deletion, or lose it, and the vector has
a `ChunkVectorInfo` that shows them.
-/
theorem Consistent.changeDeleted (consistent : state.Consistent) (deleted : Option Stamp)
    (deletes : List PendingDelete) (small : ∀ place ∈ places, place < standardVectorSize)
    (known : ∀ stamp, deleted = some stamp → state.Known stamp) {manager : RowVersionManager}
    (held : manager.getChunkInfo vectorIdx = some (.vector info))
    (others : ∀ other, other ≠ vectorIdx →
      manager.getChunkInfo other = state.manager.getChunkInfo other)
    (shows : VectorShows (changeRows state.rows (positions vectorIdx places)
      fun row => { row with deleted }) state.active vectorIdx info)
    (marked : ∀ pending ∈ deletes, Marked { state with
      manager
      rows := changeRows state.rows (positions vectorIdx places) fun row => { row with deleted }
      deletes } pending) :
    Consistent { state with
      manager
      rows := changeRows state.rows (positions vectorIdx places) fun row => { row with deleted }
      deletes } := by
  -- insertions stay as they were
  have row_cases : ∀ (position : Nat) (row : RowVersion),
      (changeRows state.rows (positions vectorIdx places) fun row => { row with deleted })[position]? =
        some row →
      ∃ old : RowVersion, state.rows[position]? = some old ∧ row.inserted = old.inserted := by
    intro position row found
    rw [getElem?_changeRows, Option.map_eq_some_iff] at found
    obtain ⟨old, before, rfl⟩ := found
    refine ⟨old, before, ?_⟩
    split <;> rfl
  refine
    { clock := consistent.clock
      nextId := consistent.nextId
      nodup := consistent.nodup
      active := consistent.active
      committing := consistent.committing
      known := known_changeRows consistent.known fun row there =>
        ⟨(consistent.known row there).1, known⟩
      shows := fun other => ?_
      appends := fun pending there => ?_
      ordered := consistent.ordered
      covered := fun position row found transactionId inserted => ?_
      deletes := marked }
  · dsimp only
    by_cases same : other = vectorIdx
    · rw [same, held]
      exact shows
    · rw [others other same]
      refine (consistent.shows other).of_rows (length_changeRows _ _ _).ge ?_
        (fun _ _ _ settled => settled) fun _ _ _ _ represents => represents
      intro place row here
      obtain ⟨old, before, rfl⟩ := here.of_changeRows
      rw [if_neg (not_mem_positions small same here.1)]
      exact before
  · obtain ⟨positive, inside, stored, owner, constants⟩ := consistent.appends pending there
    refine ⟨positive, ?_, fun position low high => ?_, owner, fun other insertId deleteId found => ?_⟩
    · dsimp only
      rw [length_changeRows]
      exact inside
    · obtain ⟨row, found, inserted⟩ := stored position low high
      dsimp only
      rw [getElem?_changeRows, found]
      refine ⟨_, rfl, ?_⟩
      split <;> exact inserted
    · dsimp only at found
      by_cases same : other = vectorIdx
      · rw [same, held] at found
        cases found
      · rw [others other same] at found
        exact constants other insertId deleteId found
  · obtain ⟨old, before, same⟩ := row_cases position row found
    exact consistent.covered position old before transactionId (same.symm.trans inserted)

/-- A vector whose information is replaced, where there may have been none. -/
theorem getChunkInfo_fill_setInfo (manager : RowVersionManager) (vectorIdx : Nat)
    (info : ChunkInfo) :
    ((manager.fillVectorInfo vectorIdx).setInfo vectorIdx (some info)).getChunkInfo vectorIdx =
      some info ∧
    ∀ other, other ≠ vectorIdx →
      ((manager.fillVectorInfo vectorIdx).setInfo vectorIdx (some info)).getChunkInfo other =
        manager.getChunkInfo other := by
  constructor
  · exact RowVersionManager.getChunkInfo_setInfo_self
      (Or.inl (RowVersionManager.length_fillVectorInfo manager vectorIdx))
  · intro other different
    rw [RowVersionManager.getChunkInfo_setInfo_ne different,
      RowVersionManager.getChunkInfo_fillVectorInfo]

/-- Deletes stay marked when a vector gets other information that has `any_deleted` set. -/
theorem Marked.change {pending : PendingDelete} (marked : state.Marked pending)
    {result : VersionedRows} (flag : info.anyDeleted = true)
    (held : result.manager.getChunkInfo vectorIdx = some (.vector info))
    (others : ∀ other, other ≠ vectorIdx →
      result.manager.getChunkInfo other = state.manager.getChunkInfo other)
    (length : result.rows.length = state.rows.length) : result.Marked pending := by
  obtain ⟨nonempty, inside, before, found, set⟩ := marked
  refine ⟨nonempty, ?_, ?_⟩
  · rw [length]
    exact inside
  · by_cases same : pending.info.vectorIdx = vectorIdx
    · rw [same]
      exact ⟨info, held, flag⟩
    · rw [others _ same]
      exact ⟨before, found, set⟩

theorem changeRows_nil (rows : List RowVersion) (change : RowVersion → RowVersion) :
    changeRows rows [] change = rows := by
  apply List.ext_getElem?
  intro position
  rw [getElem?_changeRows]
  cases rows[position]? with
  | none => rfl
  | some row => exact congrArg some (if_neg List.not_mem_nil)

/-- A row that the transaction sees was not deleted by it. -/
theorem Timed.deletedId_ne (timed : state.Timed) (running : state.Running data) {row : RowVersion}
    (member : row ∈ state.rows) (visible : row.visibleTo data = true) :
    row.deletedId ≠ data.transactionId := by
  intro own
  rw [RowVersion.visibleTo, ← timed.useDeletedVersion_deletedId running member, own,
    TransactionData.useDeletedVersion, TransactionData.useInsertedVersion, beq_self_eq_true,
    Bool.or_true, Bool.not_true, Bool.and_false] at visible
  cases visible

theorem Consistent.deleteRows (consistent : state.Consistent)
    (permitted : state.Permitted (.deleteRows transactionId vectorIdx deletedRows)) :
    ∃ result, state.step (.deleteRows transactionId vectorIdx deletedRows) = .ok result ∧
      result.Consistent := by
  obtain ⟨data, running, rfl, nonempty, seen⟩ := permitted
  have inside : ∀ row ∈ deletedRows, row < standardVectorSize ∧
      vectorIdx * standardVectorSize + row < state.rows.length := by
    intro row member
    obtain ⟨small, version, found, -⟩ := seen row member
    exact ⟨small, (List.getElem?_eq_some_iff.mp found).1⟩
  have begun : vectorIdx * standardVectorSize < state.rows.length := by
    obtain ⟨row, member⟩ := List.exists_mem_of_ne_nil _ nonempty
    exact Nat.lt_of_le_of_lt (Nat.le_add_right _ _) (inside row member).2
  have shows := (consistent.shows vectorIdx).vectorOf begun
  obtain ⟨info, hinfo⟩ : ∃ info, info =
      RowVersionManager.vectorOf (state.manager.getChunkInfo vectorIdx) := ⟨_, rfl⟩
  rw [← hinfo] at shows
  have own : ∀ row ∈ deletedRows, info.deleted row ≠ data.transactionId := by
    intro row member
    obtain ⟨small, version, found, visible⟩ := seen row member
    rw [shows.deleted row version ⟨small, found⟩]
    exact consistent.deletedId_ne running (List.mem_of_getElem? found) visible
  rw [step, RowVersionManager.deleteRows, RowVersionManager.getChunkInfo_fillVectorInfo, ← hinfo]
  rcases delete_spec info own with ⟨deleted, ok, members⟩ | ⟨message, conflict⟩
  · rw [ok]
    obtain ⟨held, others⟩ := getChunkInfo_fill_setInfo state.manager vectorIdx (.vector
      { info with
        deleted := writeAll info.deleted deleted data.transactionId, anyDeleted := true })
    have small : ∀ place ∈ deleted, place < standardVectorSize :=
      fun place member => (inside place ((members place).mp member)).1
    have below : ∀ place ∈ deleted, vectorIdx * standardVectorSize + place < state.rows.length :=
      fun place member => (inside place ((members place).mp member)).2
    refine ⟨_, rfl, consistent.changeDeleted (some (.uncommitted data.transactionId)) _ small
      (fun stamp equal => ?_) held others (shows.setAnyDeleted.write below rfl _)
      fun pending there => ?_⟩
    · cases equal
      exact (consistent.active _ running).2.2
    · rcases List.mem_append.mp there with old | new
      · exact (consistent.deletes pending old).change rfl held others (length_changeRows _ _ _)
      · rw [List.mem_singleton.mp new]
        refine ⟨?_, fun place member => ?_, _, held, rfl⟩
        · obtain ⟨row, member⟩ := List.exists_mem_of_ne_nil _ nonempty
          rw [DeleteInfo.deletedRows_push]
          exact List.ne_nil_of_mem ((members row).mpr member)
        · dsimp only at member ⊢
          rw [DeleteInfo.deletedRows_push] at member
          rw [length_changeRows]
          exact ⟨small place member, below place member⟩
  · rw [conflict]
    obtain ⟨held, others⟩ := getChunkInfo_fill_setInfo state.manager vectorIdx (.vector
      { info with anyDeleted := true })
    have unset : ∀ place ∈ ([] : List Nat), place < standardVectorSize :=
      fun _ impossible => by cases impossible
    have unchanged := consistent.changeDeleted none state.deletes unset
      (fun _ impossible => by cases impossible) held others
    have same : (changeRows state.rows (positions vectorIdx [])
        fun row => { row with deleted := none }) = state.rows := changeRows_nil _ _
    rw [same] at unchanged
    exact ⟨_, rfl, unchanged shows.setAnyDeleted fun pending there =>
      (consistent.deletes pending there).change rfl held others rfl⟩

theorem Consistent.commitDelete (consistent : state.Consistent) (position : Nat) :
    ∃ result, state.step (.commitDelete position) = .ok result ∧ result.Consistent := by
  rw [step]
  cases found : state.deletes[position]? with
  | none => exact ⟨state, rfl, consistent⟩
  | some pending =>
      obtain ⟨-, inside, info, before, flag⟩ :=
        consistent.deletes pending (List.mem_of_getElem? found)
      have shows := consistent.shows pending.info.vectorIdx
      rw [before] at shows
      obtain ⟨deleted, hdeleted⟩ : ∃ deleted, deleted =
          (state.commitIdOf pending.transactionId).map Stamp.committed := ⟨_, rfl⟩
      have id : (state.commitIdOf pending.transactionId).getD notDeletedId =
          (deleted.map Stamp.id).getD notDeletedId := by
        rw [hdeleted]
        cases state.commitIdOf pending.transactionId <;> rfl
      dsimp only
      rw [← hdeleted, id, RowVersionManager.commitDelete,
        RowVersionManager.getChunkInfo_fillVectorInfo, before]
      obtain ⟨held, others⟩ := getChunkInfo_fill_setInfo state.manager pending.info.vectorIdx
        (.vector (info.commitDelete ((deleted.map Stamp.id).getD notDeletedId) pending.info))
      have stays : (info.commitDelete ((deleted.map Stamp.id).getD notDeletedId)
        pending.info).anyDeleted = true := flag
      refine ⟨_, rfl, consistent.changeDeleted deleted _ (fun place member => (inside place member).1)
        (fun stamp equal => ?_) held others
        (VectorShows.write shows (fun place member => (inside place member).2) flag deleted)
        fun other there => ?_⟩
      · rw [hdeleted, Option.map_eq_some_iff] at equal
        obtain ⟨commitId, committing, rfl⟩ := equal
        obtain ⟨owner, member, -, commit⟩ := exists_of_commitIdOf committing
        exact consistent.known_commitId member commit
      · exact (consistent.deletes other (List.mem_of_mem_eraseIdx there)).change stays held others
          (length_changeRows _ _ _)

/-! ## Whole runs -/

theorem Consistent.initial (count : Nat) : (initial count).Consistent :=
  { clock := ⟨Nat.le_refl _, show 2 < transactionIdStart by decide⟩
    nextId := ⟨Nat.le_refl _, show transactionIdStart < notDeletedId by decide⟩
    nodup := List.nodup_nil
    active := fun _ impossible => by cases impossible
    committing := fun _ impossible => by cases impossible
    known := fun row member => by
      rw [(List.mem_replicate.mp member).2]
      exact ⟨⟨Nat.two_pos, fun _ impossible => by cases impossible⟩,
        fun _ impossible => by cases impossible⟩
    shows := fun vectorIdx place row here => by
      rw [(List.mem_replicate.mp here.mem).2]
      exact ⟨⟨0, rfl, fun _ impossible => by cases impossible⟩, rfl⟩
    appends := fun _ impossible => by cases impossible
    ordered := List.Pairwise.nil
    covered := fun position row found transactionId inserted => by
      rw [(List.mem_replicate.mp (List.mem_of_getElem? found)).2] at inserted
      cases inserted
    deletes := fun _ impossible => by cases impossible }

/-- Every operation succeeds and keeps the version information consistent. -/
theorem Consistent.step (consistent : state.Consistent) {operation : RowVersionOperation}
    (permitted : state.Permitted operation) (inOrder : state.InsertedInOrder) :
    ∃ next, state.step operation = .ok next ∧ next.Consistent := by
  cases operation with
  | startTransaction => exact ⟨_, rfl, consistent.startTransaction permitted rfl⟩
  | appendVersionInfo transactionId count => exact consistent.appendVersionInfo permitted
  | startCommit transactionId => exact ⟨_, rfl, consistent.startCommit permitted rfl⟩
  | commitAppend position => exact consistent.commitAppend position
  | deleteRows transactionId vectorIdx rows => exact consistent.deleteRows permitted
  | commitDelete position => exact consistent.commitDelete position
  | cleanupAppend lowestTransaction start count =>
      exact consistent.cleanupAppend permitted inOrder
  | revertAppend transactionId =>
      cases ok : state.step (.revertAppend transactionId) with
      | ok next => exact ⟨next, rfl, consistent.revertAppend permitted ok⟩
      | error message =>
          rw [VersionedRows.step] at ok
          split at ok
          · cases ok
          · split at ok <;> cases ok
  | finishTransaction transactionId => exact ⟨_, rfl, consistent.finishTransaction permitted rfl⟩

/-- Consistent version information shows the snapshots. -/
theorem Consistent.snapshotsShown (consistent : state.Consistent) : state.SnapshotsShown := by
  intro data running position row found
  have shows := consistent.shows (position / standardVectorSize)
  constructor
  · rw [consistent.toTimed.fetch running shows found]
  · intro maxCount short filled inside
    rw [consistent.toTimed.getSelVector running shows short filled, visiblePlaces, List.mem_filter,
      List.mem_range, Nat.div_add_mod', found]
    exact and_iff_right inside

/--
In every run whose transactions commit in the order of their appends, every operation goes
through and every transaction is shown its snapshot.
-/
theorem snapshotsShown_of_run {count : Nat} {operations : List RowVersionOperation}
    (reached : Reaches step
      (fun before operation => before.Permitted operation ∧ before.CommittedInOrder operation)
      (initial count) operations state) :
    state.SnapshotsShown ∧
      ∀ operation, state.Permitted operation → ∃ next, state.step operation = .ok next := by
  have kept : state.Consistent ∧ state.InsertedInOrder := by
    refine reached.state_invariant (fun state => state.Consistent ∧ state.InsertedInOrder)
      ⟨.initial count, .initial count⟩ ?_
    rintro before operation next ⟨consistent, inOrder⟩ ⟨permitted, committed⟩ taken
    obtain ⟨after, taken', kept⟩ := consistent.step permitted inOrder
    rw [taken] at taken'
    cases taken'
    exact ⟨kept, inOrder.step consistent permitted committed taken⟩
  constructor
  · exact kept.1.snapshotsShown
  · intro operation permitted
    obtain ⟨next, taken, -⟩ := kept.1.step permitted kept.2
    exact ⟨next, taken⟩

/-- Rows are appended and deleted, old ones too, and readers start before and after the clean-up. -/
theorem snapshotsShown_of_run_deleted : ∃ operations state, Reaches step
    (fun before operation => before.Permitted operation ∧ before.CommittedInOrder operation)
    (initial 3) operations state ∧ state.active.length = 2 ∧ state.rows.length = 5 ∧
      state.SnapshotsShown := by
  obtain ⟨state, reached, passed⟩ := Reaches.exists_of_guarded_foldlM step
    (fun before operation => before.Permitted operation ∧ before.CommittedInOrder operation)
    (initial 3)
    [.startTransaction, .appendVersionInfo transactionIdStart 2,
      .deleteRows transactionIdStart 0 [0, 3], .startCommit transactionIdStart, .commitAppend 0,
      .commitDelete 0, .finishTransaction transactionIdStart, .startTransaction,
      .cleanupAppend 4 3 2, .startTransaction]
    (fun state => state.active.length == 2 && state.rows.length == 5) (by decide +kernel)
  obtain ⟨readers, length⟩ := Bool.and_eq_true_iff.mp passed
  exact ⟨_, state, reached, eq_of_beq readers, eq_of_beq length, (snapshotsShown_of_run reached).1⟩

/--
The first row of a vector is committed by another transaction, and later, than its other rows.
Clean-up looks at the others only, and the row appears in a snapshot from before its commit.
-/
theorem not_snapshotsShown_cleanupAppend : ∃ operations state,
    Reaches step Permitted (initial 0) operations state ∧ ¬state.SnapshotsShown := by
  obtain ⟨state, reached, passed⟩ := Reaches.exists_of_guarded_foldlM step Permitted (initial 0)
    [.startTransaction, .appendVersionInfo transactionIdStart 1,
      .startTransaction, .appendVersionInfo (transactionIdStart + 1) 2047,
      .startCommit (transactionIdStart + 1), .commitAppend 1,
      .finishTransaction (transactionIdStart + 1), .startTransaction,
      .startCommit transactionIdStart, .commitAppend 0, .finishTransaction transactionIdStart,
      .cleanupAppend 5 1 2047]
    (fun state => state.active.any fun other => other.commitId == none &&
      (state.rows[0]?.any (fun row => !row.visibleTo other.data) &&
        state.manager.fetch other.data 0))
    (by decide +kernel)
  refine ⟨_, state, reached, fun shown => ?_⟩
  obtain ⟨⟨data, _⟩, member, passed⟩ := List.any_eq_true.mp passed
  obtain ⟨reading, passed⟩ := Bool.and_eq_true_iff.mp passed
  obtain ⟨hidden, fetched⟩ := Bool.and_eq_true_iff.mp passed
  obtain ⟨row, found, unseen⟩ := (Option.any_eq_true _ _).mp hidden
  cases eq_of_beq reading
  have visible := (shown data member 0 row found).1.mp fetched
  rw [visible] at unseen
  cases unseen

end VersionedRows

end StatsRecommender
