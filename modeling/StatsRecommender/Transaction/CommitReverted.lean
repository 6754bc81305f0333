import StatsRecommender.Transaction.CommitDrops

/-!
# Reverted commits

How far the state is from the one before the commit while entries are committed, once an entry
has thrown, and while the commit is reverted.
-/

namespace StatsRecommender

variable {Row Key Value : Type} {table commitId : Nat}

/-! ## Entries that are committed -/

/-- What the commit of some entries drops. -/
def UndoContext.allDrops (context : UndoContext Row Key Value) (start : UndoState Row Key Value)
    (items : List UndoItem) : UndoContext.CatalogDrop :=
  ⟨items.flatMap fun item => (context.drops start item).segments,
    items.flatMap fun item => (context.drops start item).indexes,
    items.flatMap fun item => (context.drops start item).tables⟩

/-- A version info is read up to a limit once the appends are cut off. -/
def Shown (context : UndoContext Row Key Value) (start : UndoState Row Key Value)
    (items : List UndoItem) (info limit : Nat) : Prop :=
  ∃ collection, ∃ kept ∈ (context.cutRows start items collection).rowGroups,
    kept.versionInfo = info ∧ kept.count = limit

/-- The rows of a version info that some entries delete. -/
def PendingRows (items : List UndoItem) (info vectorIdx row : Nat) : Prop :=
  ∃ table deletes, .deleteTuple table info deletes ∈ items ∧ deletes.vectorIdx = vectorIdx ∧
    row ∈ deletes.deletedRows

/-- An entry of the buffer is the older version of a table that is stored there. -/
def HoldsTable (context : UndoContext Row Key Value) (items : List UndoItem) (table : Nat) : Prop :=
  ∃ entry columnName, .catalogEntry entry columnName ∈ items ∧
    (context.entries entry).type = .tableEntry ∧ (context.entries entry).storage = table

/-- The newer version of an entry of the buffer. -/
def IsNewest (context : UndoContext Row Key Value) (start : UndoState Row Key Value)
    (items : List UndoItem) (newest : Nat) : Prop :=
  ∃ entry columnName, .catalogEntry entry columnName ∈ items ∧
    context.newer start.chains entry = some newest

/-- What differs from the start once the entries `done` are committed and `touched` were tried. -/
structure Committed (context : UndoContext Row Key Value) (start : UndoState Row Key Value)
    (items done touched : List UndoItem) (state : UndoState Row Key Value) : Prop where
  chains : state.chains = start.chains
  tableNames : state.tableNames = start.tableNames
  rows : state.rows = start.rows
  updateNodes : state.updateNodes = start.updateNodes
  databases : state.databases = start.databases
  timestamps : ∀ entry, state.timestamps entry ≠ start.timestamps entry →
    IsNewest context start touched entry
  tableVersions : ∀ table, state.tableVersions table ≠ start.tableVersions table →
    HoldsTable context touched table
  updateInfos : ∀ info, ∃ versionNumber,
    state.updateInfos info = { start.updateInfos info with versionNumber } ∧
      (.updateTuple info ∈ done ∨ versionNumber = (start.updateInfos info).versionNumber)
  versionInfos : ∀ info limit, Shown context start items info limit →
    AgreesBelow limit (PendingRows done info) (start.versionInfos info) (state.versionInfos info)
  blocks : UndoState.BlocksAfter start (context.allDrops start done).segments state.onDiskBlocks
    state.markedBlocks
  indexes : ∀ info, state.indexes info =
    UndoState.droppedFrom context (context.allDrops start done) info (start.indexes info)

section Weaken

variable {context : UndoContext Row Key Value} {start : UndoState Row Key Value}
  {items others : List UndoItem}

theorem IsNewest.mono {newest : Nat} (isNewest : IsNewest context start items newest)
    (more : items ⊆ others) : IsNewest context start others newest := by
  obtain ⟨entry, columnName, member, found⟩ := isNewest
  exact ⟨entry, columnName, more member, found⟩

theorem HoldsTable.mono (holds : HoldsTable context items table) (more : items ⊆ others) :
    HoldsTable context others table := by
  obtain ⟨entry, columnName, member, found⟩ := holds
  exact ⟨entry, columnName, more member, found⟩

theorem PendingRows.mono {info vectorIdx row : Nat} (pending : PendingRows items info vectorIdx row)
    (more : items ⊆ others) : PendingRows others info vectorIdx row := by
  obtain ⟨table, deletes, member, found⟩ := pending
  exact ⟨table, deletes, more member, found⟩

theorem allDrops_append (items others : List UndoItem) :
    context.allDrops start (items ++ others) =
      ⟨(context.allDrops start items).segments ++ (context.allDrops start others).segments,
        (context.allDrops start items).indexes ++ (context.allDrops start others).indexes,
        (context.allDrops start items).tables ++ (context.allDrops start others).tables⟩ := by
  rw [UndoContext.allDrops, List.flatMap_append, List.flatMap_append, List.flatMap_append]
  rfl

theorem allDrops_singleton (item : UndoItem) :
    context.allDrops start [item] = context.drops start item := by
  rw [UndoContext.allDrops, List.flatMap_singleton, List.flatMap_singleton, List.flatMap_singleton]

/-- A drop after another one. -/
theorem droppedFrom_append (first second : UndoContext.CatalogDrop) (info : Nat)
    (indexes : List (TableIndex Row Key)) :
    UndoState.droppedFrom context second info (UndoState.droppedFrom context first info indexes) =
      UndoState.droppedFrom context ⟨first.segments ++ second.segments,
        first.indexes ++ second.indexes, first.tables ++ second.tables⟩ info indexes := by
  rw [UndoState.droppedFrom, UndoState.droppedFrom, UndoState.droppedFrom,
    TableIndex.changed_changed fun _ _ => rfl, UndoContext.namesOf_append]
  refine TableIndex.changed_congr fun index _ entry _ => ?_
  rw [List.any_append, Bool.not_or]

end Weaken

namespace Committed

variable {context : UndoContext Row Key Value} {start state next : UndoState Row Key Value}
  {items done touched : List UndoItem} {item : UndoItem}

/-- Nothing differs at the start. -/
theorem refl : Committed context start items [] [] start where
  chains := rfl
  tableNames := rfl
  rows := rfl
  updateNodes := rfl
  databases := rfl
  timestamps := fun _ different => absurd rfl different
  tableVersions := fun _ different => absurd rfl different
  updateInfos := fun _ => ⟨_, rfl, .inr rfl⟩
  versionInfos := fun _ _ _ => .refl _
  blocks := .inl ⟨fun _ impossible => absurd impossible List.not_mem_nil, rfl, rfl⟩
  indexes := fun info => (UndoState.droppedFrom_nil info _).symm

section

variable (committed : Committed context start items done touched state)
include committed

/-- One more entry that drops nothing. -/
theorem extend (nothing : context.drops start item = ⟨[], [], []⟩) :
    Committed context start items (done ++ [item]) (touched ++ [item]) state where
  chains := committed.chains
  tableNames := committed.tableNames
  rows := committed.rows
  updateNodes := committed.updateNodes
  databases := committed.databases
  timestamps := fun entry different =>
    (committed.timestamps entry different).mono (List.subset_append_left _ _)
  tableVersions := fun table different =>
    (committed.tableVersions table different).mono (List.subset_append_left _ _)
  updateInfos := fun info => by
    obtain ⟨versionNumber, same, kept⟩ := committed.updateInfos info
    exact ⟨versionNumber, same, kept.imp (List.mem_append_left _) id⟩
  versionInfos := fun info limit shown =>
    (committed.versionInfos info limit shown).mono fun _ _ pending =>
      pending.mono (List.subset_append_left _ _)
  blocks := by
    rw [allDrops_append, allDrops_singleton, nothing]
    dsimp only
    rw [List.append_nil]
    exact committed.blocks
  indexes := fun info => by
    rw [allDrops_append, allDrops_singleton, nothing]
    dsimp only
    rw [List.append_nil, List.append_nil, List.append_nil]
    exact committed.indexes info

/-- What a version or a delete is compared with has not been changed by the commit. -/
theorem newer_eq (entry : Nat) :
    context.newer state.chains entry = context.newer start.chains entry := by
  rw [committed.chains]

/-- A committed catalog entry. -/
theorem catalogEntry {entry : Nat} {columnName : String}
    (ok : state.commitCatalogEntry context commitId entry columnName = (next, none)) :
    Committed context start items (done ++ [.catalogEntry entry columnName])
      (touched ++ [.catalogEntry entry columnName]) next := by
  cases hnewest : context.newer start.chains entry with
  | none =>
      have absent : parentOf (state.chains (context.entries entry).chain) entry = none := by
        rw [committed.chains]
        exact hnewest
      rw [UndoState.commitCatalogEntry, absent] at ok
      cases ok
      refine committed.extend ?_
      rw [UndoContext.drops, hnewest]
  | some newest =>
      have drops : context.drops start (.catalogEntry entry columnName) =
          context.dropOf start.rows (context.entries entry) (context.entries newest) columnName := by
        rw [UndoContext.drops, hnewest]
      obtain ⟨tableVersions, onDiskBlocks, markedBlocks, indexes, rfl, versions, blocks, dropped⟩ :=
        UndoState.commitCatalogEntry_spec ((committed.newer_eq entry).trans hnewest) ok
      rw [committed.rows, ← drops] at blocks dropped
      refine
        { committed with
          timestamps := fun other different => ?_
          tableVersions := fun table different => ?_
          updateInfos := fun info => ?_
          versionInfos := fun info limit shown => ?_
          blocks := ?_
          indexes := fun info => ?_ }
      · dsimp only at different
        by_cases here : other = newest
        · exact ⟨entry, columnName, by simp, here ▸ hnewest⟩
        · rw [Function.update_of_ne here] at different
          exact (committed.timestamps other different).mono (List.subset_append_left _ _)
      · by_cases same : tableVersions table = state.tableVersions table
        · exact (committed.tableVersions table (same ▸ different)).mono
            (List.subset_append_left _ _)
        · exact ⟨entry, columnName, by simp, versions table same⟩
      · obtain ⟨versionNumber, same, kept⟩ := committed.updateInfos info
        exact ⟨versionNumber, same, kept.imp (List.mem_append_left _) id⟩
      · exact (committed.versionInfos info limit shown).mono fun _ _ pending =>
          pending.mono (List.subset_append_left _ _)
      · rw [allDrops_append, allDrops_singleton]
        exact committed.blocks.trans blocks
      · dsimp only
        rw [dropped, committed.indexes, droppedFrom_append, allDrops_append, allDrops_singleton]

end

/-- Appended rows lie behind all rows that are read once they are cut off. -/
theorem le_of_shown (recorded : Recorded context start items) {startRow count : Nat}
    (member : .insertTuple table startRow count ∈ items) {rowGroup : StoredRowGroup}
    (hrowGroup : rowGroup ∈ (start.rows (context.tables table).rowGroups).rowGroups) {limit : Nat}
    (shown : Shown context start items rowGroup.versionInfo limit) :
    limit ≤ startRow - rowGroup.start := by
  obtain ⟨collection, kept, hkept, same, rfl⟩ := shown
  exact recorded.apart table startRow count member rowGroup hrowGroup collection kept hkept same

/-- A committed append. -/
theorem insertTuple (recorded : Recorded context start items)
    (committed : Committed context start items done touched state) {startRow count : Nat}
    (member : .insertTuple table startRow count ∈ items) {versionInfos : Nat → RowVersionManager}
    (ok : (state.rows (context.tables table).rowGroups).commitAppend commitId startRow count
      state.versionInfos = .ok versionInfos) :
    Committed context start items (done ++ [.insertTuple table startRow count])
      (touched ++ [.insertTuple table startRow count]) { state with versionInfos } := by
  obtain ⟨positive, wellFormed, total⟩ := recorded.appended table startRow count member
  refine { committed.extend rfl with versionInfos := fun info limit shown => ?_ }
  rw [committed.rows] at ok
  have inside : startRow < (start.rows (context.tables table).rowGroups).totalRows := by omega
  refine (wellFormed.commitAppend_kept inside (fun info manager =>
    ∀ limit, Shown context start items info limit →
      AgreesBelow limit (PendingRows done info) (start.versionInfos info) manager) ?_
    committed.versionInfos ok info limit shown).mono
      fun _ _ pending => pending.mono (List.subset_append_left _ _)
  intro rowGroup hrowGroup inside _ manager manager' agrees ok limit shown
  refine (agrees limit shown).commitAppend_right
    (le_of_shown recorded member hrowGroup shown) ?_ ok
  intro divided _
  exact recorded.mixed table startRow count member rowGroup hrowGroup inside divided

/-- A committed delete. -/
theorem deleteTuple (recorded : Recorded context start items)
    (committed : Committed context start items done touched state) {versionInfo : Nat}
    {deletes : DeleteInfo} (member : .deleteTuple table versionInfo deletes ∈ items) :
    Committed context start items (done ++ [.deleteTuple table versionInfo deletes])
      (touched ++ [.deleteTuple table versionInfo deletes])
      (state.commitDelete versionInfo commitId deletes) := by
  refine { committed.extend rfl with versionInfos := fun info limit shown => ?_ }
  obtain ⟨held, hheld, -⟩ := recorded.deleted table versionInfo deletes member
  have agrees := committed.versionInfos info limit shown
  change AgreesBelow _ _ _ (Function.update state.versionInfos versionInfo _ info)
  by_cases here : info = versionInfo
  · subst here
    rw [Function.update_self]
    refine agrees.commitDelete_right commitId deletes hheld (fun row deleted waits => ?_)
      fun _ _ _ pending => pending.mono (List.subset_append_left _ _)
    exact absurd ⟨table, deletes, by simp, rfl, deleted⟩ waits
  · rw [Function.update_of_ne here]
    exact agrees.mono fun _ _ pending => pending.mono (List.subset_append_left _ _)

/-- A committed update. -/
theorem updateTuple (committed : Committed context start items done touched state)
    (commitId updated : Nat) :
    Committed context start items (done ++ [.updateTuple updated])
      (touched ++ [.updateTuple updated]) (state.setVersionNumber updated commitId) := by
  refine { committed.extend rfl with updateInfos := fun info => ?_ }
  obtain ⟨versionNumber, same, kept⟩ := committed.updateInfos info
  change ∃ versionNumber, Function.update state.updateInfos updated _ info = _ ∧ _
  by_cases here : info = updated
  · subst here
    rw [Function.update_self]
    exact ⟨commitId, by rw [same], .inl (by simp)⟩
  · rw [Function.update_of_ne here]
    exact ⟨versionNumber, same, kept.imp (List.mem_append_left _) id⟩

/-- A committed entry. -/
theorem step (recorded : Recorded context start items)
    (committed : Committed context start items done touched state) (member : item ∈ items)
    (ok : state.commitEntry context commitId item = (next, none)) :
    Committed context start items (done ++ [item]) (touched ++ [item]) next := by
  cases item with
  | catalogEntry entry columnName => exact committed.catalogEntry ok
  | insertTuple table startRow count =>
      rw [UndoState.commitEntry] at ok
      split at ok
      · cases ok
      · split at ok
        · cases ok
        · rename_i appended
          cases ok
          exact committed.insertTuple recorded member appended
  | deleteTuple table versionInfo deletes =>
      rw [UndoState.commitEntry] at ok
      split at ok
      · cases ok
      · cases ok
        exact committed.deleteTuple recorded member
  | updateTuple info =>
      rw [UndoState.commitEntry] at ok
      split at ok
      · cases ok
      · cases ok
        exact committed.updateTuple commitId info
  | attachedDatabase name =>
      cases ok
      exact committed.extend rfl
  | sequenceValue =>
      cases ok
      exact committed.extend rfl

/-- Committed entries, one after the other. -/
theorem run (recorded : Recorded context start items)
    (committed : Committed context start items done touched state) {more : List UndoItem}
    (members : more ⊆ items)
    (ok : UndoBuffer.runEntries (UndoState.commitEntry context commitId) state more = (next, none)) :
    Committed context start items (done ++ more) (touched ++ more) next := by
  induction more generalizing state done touched with
  | nil =>
      cases ok
      rw [List.append_nil, List.append_nil]
      exact committed
  | cons item rest ih =>
      obtain ⟨middle, taken, ok⟩ := UndoBuffer.runEntries_cons ok
      obtain ⟨member, members⟩ := List.cons_subset.mp members
      have more := ih (committed.step recorded member taken) members ok
      rw [List.append_assoc, List.append_assoc, List.singleton_append] at more
      exact more

/-- An entry that was tried without an effect. -/
theorem touch (committed : Committed context start items done touched state) (item : UndoItem) :
    Committed context start items done (touched ++ [item]) state :=
  { committed with
    timestamps := fun entry different =>
      (committed.timestamps entry different).mono (List.subset_append_left _ _)
    tableVersions := fun table different =>
      (committed.tableVersions table different).mono (List.subset_append_left _ _) }

/-- The entry at which the commit throws. -/
theorem throws (committed : Committed context start items done touched state) {message : String}
    (thrown : state.commitEntry context commitId item = (next, some message)) :
    Committed context start items done (touched ++ [item]) next := by
  cases item with
  | catalogEntry entry columnName =>
      obtain ⟨newest, tableVersions, timestamps, hnewest, rfl, stamped, versions⟩ :=
        UndoState.commitCatalogEntry_throws thrown
      refine
        { committed with
          timestamps := fun other different => ?_
          tableVersions := fun table different => ?_ }
      · by_cases same : timestamps other = state.timestamps other
        · exact (committed.timestamps other (same ▸ different)).mono (List.subset_append_left _ _)
        · refine ⟨entry, columnName, by simp, ?_⟩
          rw [stamped other same, ← hnewest, committed.newer_eq]
      · by_cases same : tableVersions table = state.tableVersions table
        · exact (committed.tableVersions table (same ▸ different)).mono
            (List.subset_append_left _ _)
        · exact ⟨entry, columnName, by simp, versions table same⟩
  | insertTuple table startRow count =>
      rw [UndoState.commitEntry] at thrown
      split at thrown
      · cases thrown
        exact committed.touch _
      · split at thrown
        · cases thrown
          exact committed.touch _
        · cases thrown
  | deleteTuple table versionInfo deletes =>
      rw [UndoState.commitEntry] at thrown
      split at thrown
      · cases thrown
        exact committed.touch _
      · cases thrown
  | updateTuple info =>
      rw [UndoState.commitEntry] at thrown
      split at thrown
      · cases thrown
        exact committed.touch _
      · cases thrown
  | attachedDatabase name => cases thrown
  | sequenceValue => cases thrown

end Committed

end StatsRecommender
