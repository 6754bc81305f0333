import StatsRecommender.Transaction.AppendsReverted
import StatsRecommender.Transaction.CommitReverted

/-!
# Steps of a reverted commit

Every entry that the commit has tried is reverted in turn.  What is left of the commit are the
drops, the cut off appends, and the timestamps of entries whose name was changed.
-/

namespace StatsRecommender

variable {Row Key Value : Type} {entry : Nat} {columnName : String}

/-- An entry of the buffer differs from its newer version in the name. -/
def Renamed (context : UndoContext Row Key Value) (start : UndoState Row Key Value)
    (items : List UndoItem) (entry : Nat) : Prop :=
  ∃ columnName newest, .catalogEntry entry columnName ∈ items ∧
    context.newer start.chains entry = some newest ∧
    (context.entries entry).name ≠ (context.entries newest).name

/-- The indexes that the commit of some entries has removed. -/
def droppedNames (context : UndoContext Row Key Value) (start : UndoState Row Key Value)
    (items : List UndoItem) (info : Nat) : List String :=
  UndoContext.namesOf (context.allDrops start items).indexes info

/-- The commit of some entries has cleared the indexes of an info. -/
def clearedIndexes (context : UndoContext Row Key Value) (start : UndoState Row Key Value)
    (items : List UndoItem) (info : Nat) : Bool :=
  (context.allDrops start items).tables.any fun table => (context.tables table).info == info

/--
What differs from the start once `before` was committed and `done` is reverted, with `rest`
still to be reverted.
-/
structure Reverted [DecidableEq Key] (context : UndoContext Row Key Value)
    (start : UndoState Row Key Value) (items before done rest : List UndoItem)
    (state : UndoState Row Key Value) : Prop where
  chains : state.chains = start.chains
  tableNames : state.tableNames = start.tableNames
  updateNodes : state.updateNodes = start.updateNodes
  databases : state.databases = start.databases
  cut : AppendsCut context start done (droppedNames context start before)
    (clearedIndexes context start before) state
  timestamps : ∀ entry, IsNewest context start rest entry ∨
    ((Renamed context start done entry → state.timestamps entry = context.transactionId) ∧
      (¬ Renamed context start done entry → state.timestamps entry = start.timestamps entry))
  tableVersions : ∀ table, state.tableVersions table ≠ start.tableVersions table →
    HoldsTable context items table
  updateInfos : ∀ info, ∃ versionNumber,
    state.updateInfos info = { start.updateInfos info with versionNumber } ∧
      (.updateTuple info ∈ rest ∨ versionNumber = (start.updateInfos info).versionNumber)
  versionInfos : ∀ info limit, Shown context start items info limit →
    AgreesBelow limit (PendingRows rest info) (start.versionInfos info) (state.versionInfos info)
  blocks : UndoState.BlocksAfter start (context.allDrops start before).segments state.onDiskBlocks
    state.markedBlocks

/-- A reverted append cuts only version infos behind the rows that are shown. -/
theorem AppendsCut.versionInfos_revertAppend [DecidableEq Key]
    {context : UndoContext Row Key Value} {start state : UndoState Row Key Value}
    {items done : List UndoItem} {names : Nat → List String} {cleared : Nat → Bool}
    (recorded : Recorded context start items)
    (cut : AppendsCut context start done names cleared state) {table startRow count : Nat}
    (member : .insertTuple table startRow count ∈ items) {info limit : Nat}
    (shown : Shown context start items info limit) :
    (state.revertAppend context table startRow count).versionInfos info = state.versionInfos info ∨
      ∃ row, limit ≤ row ∧ (state.revertAppend context table startRow count).versionInfos info =
        (state.versionInfos info).revertAppend row := by
  cases found : (context.cutRows start done (context.tables table).rowGroups).revertedVersions
      startRow with
  | none =>
      rw [← cut.rows] at found
      rw [UndoState.versionInfos_revertAppend_none count found]
      exact .inl rfl
  | some place =>
      obtain ⟨cutInfo, row⟩ := place
      have hfound := found
      rw [← cut.rows] at hfound
      rw [UndoState.versionInfos_revertAppend_some count hfound]
      by_cases here : info = cutInfo
      · subst here
        rw [Function.update_self]
        obtain ⟨collection, kept, hkept, same, rfl⟩ := shown
        exact .inr ⟨row, revertedVersions_le recorded member found hkept same, rfl⟩
      · rw [Function.update_of_ne here]
        exact .inl rfl

namespace Reverted

variable [DecidableEq Key] {context : UndoContext Row Key Value}
  {start state : UndoState Row Key Value} {items before done rest touched : List UndoItem}
  {item : UndoItem}

/-- Nothing is reverted yet. -/
theorem of_committed (committed : Committed context start items before touched state)
    (tried : before ⊆ touched) (known : touched ⊆ items) :
    Reverted context start items before [] touched state where
  chains := committed.chains
  tableNames := committed.tableNames
  updateNodes := committed.updateNodes
  databases := committed.databases
  cut := by
    refine ⟨fun collection => congrFun committed.rows collection, fun info => ?_⟩
    rw [committed.indexes]
    exact TableIndex.changed_congr fun index _ entry _ => (Bool.and_true _).symm
  timestamps := fun entry => by
    by_cases same : state.timestamps entry = start.timestamps entry
    · refine .inr ⟨fun renamed => ?_, fun _ => same⟩
      obtain ⟨columnName, newest, impossible, -⟩ := renamed
      exact absurd impossible List.not_mem_nil
    · exact .inl (committed.timestamps entry same)
  tableVersions := fun table different => (committed.tableVersions table different).mono known
  updateInfos := fun info => by
    obtain ⟨versionNumber, same, kept⟩ := committed.updateInfos info
    exact ⟨versionNumber, same, kept.imp (fun member => tried member) id⟩
  versionInfos := fun info limit shown =>
    (committed.versionInfos info limit shown).mono fun _ _ pending => pending.mono tried
  blocks := committed.blocks

section

variable (reverted : Reverted context start items before done (item :: rest) state)
include reverted

/-- An entry that is no catalog entry stamps nothing. -/
theorem timestamps_other (other : ∀ entry columnName, item ≠ .catalogEntry entry columnName)
    (entry : Nat) :
    IsNewest context start rest entry ∨
      ((Renamed context start (done ++ [item]) entry →
        state.timestamps entry = context.transactionId) ∧
      (¬ Renamed context start (done ++ [item]) entry →
        state.timestamps entry = start.timestamps entry)) := by
  have renamed : Renamed context start (done ++ [item]) entry ↔
      Renamed context start done entry := by
    refine exists₂_congr fun columnName newest => and_congr_left' ?_
    rw [List.mem_append, List.mem_singleton]
    exact or_iff_left fun same => other entry columnName same.symm
  rw [renamed]
  refine (reverted.timestamps entry).imp_left fun isNewest => ?_
  obtain ⟨old, columnName, member, found⟩ := isNewest
  refine ⟨old, columnName, (List.mem_cons.mp member).resolve_left fun same => ?_, found⟩
  exact other old columnName same.symm

/-- An entry that is no update leaves the version numbers as they are. -/
theorem updateInfos_other (other : ∀ info, item ≠ .updateTuple info) (info : Nat) : ∃ versionNumber,
    state.updateInfos info = { start.updateInfos info with versionNumber } ∧
      (.updateTuple info ∈ rest ∨ versionNumber = (start.updateInfos info).versionNumber) := by
  obtain ⟨versionNumber, same, kept⟩ := reverted.updateInfos info
  refine ⟨versionNumber, same, kept.imp_left fun member => ?_⟩
  exact (List.mem_cons.mp member).resolve_left fun here => other info here.symm

/-- An entry that is no delete leaves the pending rows as they are. -/
theorem versionInfos_other (other : ∀ table info deletes, item ≠ .deleteTuple table info deletes)
    (info limit : Nat) (shown : Shown context start items info limit) :
    AgreesBelow limit (PendingRows rest info) (start.versionInfos info)
      (state.versionInfos info) := by
  refine (reverted.versionInfos info limit shown).mono fun vectorIdx row pending => ?_
  obtain ⟨table, deletes, member, place⟩ := pending
  refine ⟨table, deletes, (List.mem_cons.mp member).resolve_left fun here => ?_, place⟩
  exact other table info deletes here.symm

end

/-- What the revert of a catalog entry does not stamp is as it was. -/
theorem timestamps_elsewhere {other : Nat}
    (reverted : Reverted context start items before done (.catalogEntry entry columnName :: rest)
      state) (elsewhere : context.newer start.chains entry ≠ some other)
    (unnamed : ∀ newest, context.newer start.chains entry = some newest →
      (context.entries entry).name ≠ (context.entries newest).name → other ≠ entry) :
    IsNewest context start rest other ∨
      ((Renamed context start (done ++ [.catalogEntry entry columnName]) other →
        state.timestamps other = context.transactionId) ∧
      (¬ Renamed context start (done ++ [.catalogEntry entry columnName]) other →
        state.timestamps other = start.timestamps other)) := by
  refine (reverted.timestamps other).imp (fun isNewest => ?_) fun stamps => ?_
  · obtain ⟨old, oldName, hold, found⟩ := isNewest
    refine ⟨old, oldName, (List.mem_cons.mp hold).resolve_left fun same => ?_, found⟩
    cases same
    exact elsewhere found
  · have renamed : Renamed context start (done ++ [.catalogEntry entry columnName]) other ↔
        Renamed context start done other := by
      refine exists₂_congr fun otherName newest => and_congr_left fun found => ?_
      rw [List.mem_append, List.mem_singleton]
      refine or_iff_left fun same => ?_
      cases same
      exact unnamed newest found.1 found.2 rfl
    rw [renamed]
    exact stamps

section

variable (recorded : Recorded context start items)
include recorded

/-- What the revert of a catalog entry stamps. -/
theorem timestamps_catalogEntry
    (reverted : Reverted context start items before done (.catalogEntry entry columnName :: rest)
      state) (member : .catalogEntry entry columnName ∈ items) :
    ∃ timestamps, state.revertCommitEntry context (.catalogEntry entry columnName) =
        { state with timestamps } ∧
      ∀ other, IsNewest context start rest other ∨
        ((Renamed context start (done ++ [.catalogEntry entry columnName]) other →
          timestamps other = context.transactionId) ∧
        (¬ Renamed context start (done ++ [.catalogEntry entry columnName]) other →
          timestamps other = start.timestamps other)) := by
  have hnewer : context.newer state.chains entry = context.newer start.chains entry := by
    rw [reverted.chains]
  rw [UndoState.revertCommitEntry]
  dsimp only
  cases hnewest : parentOf (state.chains (context.entries entry).chain) entry with
  | none =>
      have none : context.newer start.chains entry = none := hnewer.symm.trans hnewest
      refine ⟨state.timestamps, rfl, fun other => reverted.timestamps_elsewhere ?_ ?_⟩
      · rw [none]
        nofun
      · rw [none]
        nofun
  | some newest =>
      have found : context.newer start.chains entry = some newest := hnewer.symm.trans hnewest
      have created := recorded.created entry columnName newest member found
      have atNewest : ∀ timestamps : Nat → Nat, timestamps newest = context.transactionId →
          (Renamed context start (done ++ [.catalogEntry entry columnName]) newest →
            timestamps newest = context.transactionId) ∧
          (¬ Renamed context start (done ++ [.catalogEntry entry columnName]) newest →
            timestamps newest = start.timestamps newest) :=
        fun timestamps stamp => ⟨fun _ => stamp, fun _ => stamp.trans created.symm⟩
      dsimp only
      split
      · rename_i renamed
        refine ⟨_, rfl, fun other => ?_⟩
        by_cases atEntry : other = entry
        · subst atEntry
          refine .inr ⟨fun _ => Function.update_self _ _ _, fun unnamed => ?_⟩
          exact absurd ⟨columnName, newest, by simp, found, renamed⟩ unnamed
        · by_cases here : other = newest
          · subst here
            refine .inr (atNewest _ ?_)
            dsimp only [UndoState.updateTimestamp]
            rw [Function.update_of_ne atEntry, Function.update_self]
          · have left := reverted.timestamps_elsewhere
              (fun same => here (Option.some.inj (same.symm.trans found))) fun _ _ _ => atEntry
            dsimp only [UndoState.updateTimestamp]
            rw [Function.update_of_ne atEntry, Function.update_of_ne here]
            exact left
      · rename_i same
        refine ⟨_, rfl, fun other => ?_⟩
        by_cases here : other = newest
        · subst here
          exact .inr (atNewest _ (Function.update_self _ _ _))
        · have left := reverted.timestamps_elsewhere
            (fun same => here (Option.some.inj (same.symm.trans found)))
            fun later hlater renamed => absurd
              (Option.some.inj (hlater.symm.trans found) ▸ renamed) same
          rw [Function.update_of_ne here]
          exact left

/-- A reverted catalog entry. -/
theorem catalogEntry
    (reverted : Reverted context start items before done (.catalogEntry entry columnName :: rest)
      state) (member : .catalogEntry entry columnName ∈ items) :
    Reverted context start items before (done ++ [.catalogEntry entry columnName]) rest
      (state.revertCommitEntry context (.catalogEntry entry columnName)) := by
  obtain ⟨timestamps, same, stamps⟩ := reverted.timestamps_catalogEntry recorded member
  rw [same]
  exact
    { reverted with
      cut := ⟨(reverted.cut.extend fun _ _ _ same => by cases same).rows,
        (reverted.cut.extend fun _ _ _ same => by cases same).indexes⟩
      timestamps := stamps
      updateInfos := reverted.updateInfos_other fun _ same => by cases same
      versionInfos := reverted.versionInfos_other fun _ _ _ same => by cases same }

/-- A reverted append. -/
theorem insertTuple {table startRow count : Nat}
    (reverted : Reverted context start items before done (.insertTuple table startRow count :: rest)
      state) (some_items : done ⊆ items) (member : .insertTuple table startRow count ∈ items) :
    Reverted context start items before (done ++ [.insertTuple table startRow count]) rest
      (state.revertAppend context table startRow count) := by
  refine
    { reverted with
      cut := reverted.cut.revertAppend recorded some_items member
      timestamps := reverted.timestamps_other fun _ _ same => by cases same
      updateInfos := reverted.updateInfos_other fun _ same => by cases same
      versionInfos := fun info limit shown => ?_ }
  have agrees := reverted.versionInfos_other (fun _ _ _ same => by cases same) info limit shown
  rcases reverted.cut.versionInfos_revertAppend recorded member shown with
    same | ⟨row, behind, same⟩
  · rw [same]
    exact agrees
  · rw [same]
    exact agrees.revertAppend_right behind

/-- A reverted delete. -/
theorem deleteTuple {table versionInfo : Nat} {deletes : DeleteInfo}
    (reverted : Reverted context start items before done
      (.deleteTuple table versionInfo deletes :: rest) state)
    (member : .deleteTuple table versionInfo deletes ∈ items) :
    Reverted context start items before (done ++ [.deleteTuple table versionInfo deletes]) rest
      (state.commitDelete versionInfo context.transactionId deletes) := by
  refine
    { reverted with
      cut := ⟨(reverted.cut.extend fun _ _ _ same => by cases same).rows,
        (reverted.cut.extend fun _ _ _ same => by cases same).indexes⟩
      timestamps := reverted.timestamps_other fun _ _ same => by cases same
      updateInfos := reverted.updateInfos_other fun _ same => by cases same
      versionInfos := fun info limit shown => ?_ }
  obtain ⟨held, hheld, deleted⟩ := recorded.deleted table versionInfo deletes member
  have agrees := reverted.versionInfos info limit shown
  change AgreesBelow _ _ _ (Function.update state.versionInfos versionInfo _ info)
  by_cases here : info = versionInfo
  · subst here
    rw [Function.update_self]
    refine agrees.commitDelete_right context.transactionId deletes hheld
      (fun row hrow _ => deleted row hrow) fun vectorIdx row elsewhere pending => ?_
    obtain ⟨table', deletes', hdeletes, place⟩ := pending
    refine ⟨table', deletes', (List.mem_cons.mp hdeletes).resolve_left fun same => ?_, place⟩
    cases same
    exact elsewhere ⟨place.1.symm, place.2⟩
  · rw [Function.update_of_ne here]
    refine agrees.mono fun vectorIdx row pending => ?_
    obtain ⟨table', deletes', hdeletes, place⟩ := pending
    refine ⟨table', deletes', (List.mem_cons.mp hdeletes).resolve_left fun same => ?_, place⟩
    cases same
    exact here rfl

/-- A reverted update. -/
theorem updateTuple {updated : Nat}
    (reverted : Reverted context start items before done (.updateTuple updated :: rest) state)
    (member : .updateTuple updated ∈ items) :
    Reverted context start items before (done ++ [.updateTuple updated]) rest
      (state.setVersionNumber updated context.transactionId) := by
  refine
    { reverted with
      cut := ⟨(reverted.cut.extend fun _ _ _ same => by cases same).rows,
        (reverted.cut.extend fun _ _ _ same => by cases same).indexes⟩
      timestamps := reverted.timestamps_other fun _ _ same => by cases same
      updateInfos := fun info => ?_
      versionInfos := reverted.versionInfos_other fun _ _ _ same => by cases same }
  obtain ⟨versionNumber, same, kept⟩ := reverted.updateInfos info
  change ∃ versionNumber, Function.update state.updateInfos updated _ info = _ ∧ _
  by_cases here : info = updated
  · subst here
    rw [Function.update_self, same]
    exact ⟨_, rfl, .inr (recorded.updated info member).symm⟩
  · rw [Function.update_of_ne here]
    refine ⟨versionNumber, same, kept.imp_left fun later => ?_⟩
    refine (List.mem_cons.mp later).resolve_left fun other => ?_
    cases other
    exact here rfl

end

/-- An entry without an effect at a commit. -/
theorem skip (reverted : Reverted context start items before done (item :: rest) state)
    (catalog : ∀ entry columnName, item ≠ .catalogEntry entry columnName)
    (insert : ∀ table startRow count, item ≠ .insertTuple table startRow count)
    (delete : ∀ table info deletes, item ≠ .deleteTuple table info deletes)
    (update : ∀ info, item ≠ .updateTuple info) :
    Reverted context start items before (done ++ [item]) rest state :=
  { reverted with
    cut := reverted.cut.extend insert
    timestamps := reverted.timestamps_other catalog
    updateInfos := reverted.updateInfos_other update
    versionInfos := reverted.versionInfos_other delete }

/-- A reverted entry. -/
theorem step (recorded : Recorded context start items)
    (reverted : Reverted context start items before done (item :: rest) state)
    (some_items : done ⊆ items) (member : item ∈ items) :
    Reverted context start items before (done ++ [item]) rest
      (state.revertCommitEntry context item) := by
  cases item with
  | catalogEntry entry columnName => exact reverted.catalogEntry recorded member
  | insertTuple table startRow count => exact reverted.insertTuple recorded some_items member
  | deleteTuple table versionInfo deletes => exact reverted.deleteTuple recorded member
  | updateTuple info => exact reverted.updateTuple recorded member
  | attachedDatabase name => exact reverted.skip nofun nofun nofun nofun
  | sequenceValue => exact reverted.skip nofun nofun nofun nofun

/-- Reverted entries, one after the other. -/
theorem run (recorded : Recorded context start items)
    (reverted : Reverted context start items before done rest state)
    (some_items : done ++ rest ⊆ items) :
    Reverted context start items before (done ++ rest) []
      (rest.foldl (UndoState.revertCommitEntry context) state) := by
  induction rest generalizing done state with
  | nil =>
      rw [List.append_nil]
      exact reverted
  | cons item rest ih =>
      obtain ⟨first, second⟩ := List.append_subset.mp some_items
      have next := reverted.step recorded first (second List.mem_cons_self)
      rw [← List.singleton_append, ← List.append_assoc] at some_items
      have last := ih next some_items
      rw [List.append_assoc, List.singleton_append] at last
      exact last

end Reverted

end StatsRecommender
