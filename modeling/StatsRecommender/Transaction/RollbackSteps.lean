import StatsRecommender.Transaction.RevertSteps

/-!
# Steps of a rollback

An undo buffer is rolled back with its last entry first.  Two rollbacks of the same buffer stay
alike, whatever the commit attempt before one of them has left behind.
-/

namespace StatsRecommender

variable {Row Key Value : Type} {entry : Nat} {next : UndoState Row Key Value} {columnName : String}

/-! ## Catalog entries -/

namespace UndoState

variable {context : UndoContext Row Key Value} {state : UndoState Row Key Value}

theorem removeIndexes_eq (removed : List (Nat × String)) (state : UndoState Row Key Value) :
    removed.foldl (fun state index => state.removeIndex index.1 index.2) state =
      { state with
        indexes := (removed.foldl (fun state index => state.removeIndex index.1 index.2)
          state).indexes } := by
  induction removed generalizing state with
  | nil => rfl
  | cons index rest ih =>
      rw [List.foldl_cons, ih]
      rfl

/-- The rollback of an entry behind the newest version of its chain makes it the newest one. -/
theorem undo_eq {newest : Nat} {tail : List Nat}
    (hchain : state.chains (context.entries entry).chain = newest :: entry :: tail)
    (root : (context.entries entry).type = .invalid → tail = []) :
    state.undo context entry =
      { state with
        chains := Function.update state.chains (context.entries entry).chain
          (ChainsRecorded.undone context entry tail)
        tableVersions := (state.setAsRoot context entry).tableVersions
        tableNames := (state.setAsRoot context entry).tableNames
        indexes := ((rolledBackIndexes context (context.entries newest)
          (context.entries entry)).foldl (fun state index => state.removeIndex index.1 index.2)
            state).indexes } := by
  have head : (newest :: entry :: tail).head? = some newest := rfl
  have left : (if (context.entries entry).type = .invalid
      then ((newest :: entry :: tail).erase newest).erase entry
      else (newest :: entry :: tail).erase newest) = ChainsRecorded.undone context entry tail := by
    rw [List.erase_cons_head, List.erase_cons_head, ChainsRecorded.undone]
    split
    · rename_i invalid
      exact root invalid
    · rfl
  rw [undo, hchain, parentOf, if_pos rfl]
  dsimp only
  rw [if_pos head, left, rollbackCatalogEntry, removeIndexes_eq]
  by_cases table : (context.entries entry).type = .tableEntry
  · rw [setAsRoot, setAsRoot, if_pos table, if_pos table]
  · rw [setAsRoot, setAsRoot, if_neg table, if_neg table]

end UndoState

/-! ## One rollback -/

/--
A rollback that has started from `base` with the entries `done` behind it, where some appends
were reverted before.  The newest versions are gone from their chains.
-/
structure RolledBack [DecidableEq Key] (context : UndoContext Row Key Value)
    (start base : UndoState Row Key Value) (visited : List UndoItem) (names : Nat → List String)
    (cleared : Nat → Bool) (done rest : List UndoItem) (state : UndoState Row Key Value) :
    Prop where
  chains : ChainsRecorded context state.chains rest
  newer : ∀ entry columnName, .catalogEntry entry columnName ∈ rest →
    context.newer state.chains entry = context.newer start.chains entry
  left : ∀ chain, ∀ entry ∈ start.chains chain, start.timestamps entry ≠ context.transactionId →
    (context.entries entry).type ≠ .invalid → entry ∈ state.chains chain
  gone : ∀ entry columnName, .catalogEntry entry columnName ∈ done →
    (context.entries entry).type = .invalid → ∀ chain, entry ∉ state.chains chain
  cut : AppendsCut context start (visited ++ done)
    (fun info => names info ++
      UndoContext.namesOf (done.flatMap (context.removedIndexes start.chains)) info) cleared state
  timestamps : state.timestamps = base.timestamps
  onDiskBlocks : state.onDiskBlocks = base.onDiskBlocks
  markedBlocks : state.markedBlocks = base.markedBlocks

namespace RolledBack

variable [DecidableEq Key] {context : UndoContext Row Key Value}
  {start base state : UndoState Row Key Value} {items visited done rest : List UndoItem}
  {names : Nat → List String} {cleared : Nat → Bool} {item : UndoItem}

/-- Nothing is rolled back yet. -/
theorem refl (recorded : Recorded context start items) (chains : base.chains = start.chains)
    (cut : AppendsCut context start visited names cleared base) :
    RolledBack context start base visited names cleared [] items base where
  chains := by
    rw [chains]
    exact recorded.chains
  newer := fun entry columnName _ => by rw [chains]
  left := fun chain entry member _ _ => by
    rw [chains]
    exact member
  gone := fun _ _ impossible => absurd impossible List.not_mem_nil
  cut := by
    refine ⟨fun collection => ?_, fun info => ?_⟩
    · rw [List.append_nil]
      exact cut.rows collection
    · rw [List.append_nil, List.flatMap_nil]
      change _ = TableIndex.changed (names info ++ []) _ _
      rw [List.append_nil]
      exact cut.indexes info
  timestamps := rfl
  onDiskBlocks := rfl
  markedBlocks := rfl

/-- The cut with one more entry, which is no append and removes some indexes. -/
theorem cut_extend {indexes : Nat → List (TableIndex Row Key)}
    (rolledBack : RolledBack context start base visited names cleared done (rest ++ [item]) state)
    (other : ∀ table startRow count, item ≠ .insertTuple table startRow count)
    (removed : indexes = ((context.removedIndexes start.chains item).foldl
      (fun state index => state.removeIndex index.1 index.2) state).indexes)
    (rows : next.rows = state.rows) (left : next.indexes = indexes) :
    AppendsCut context start (visited ++ (done ++ [item])) (fun info => names info ++
      UndoContext.namesOf ((done ++ [item]).flatMap (context.removedIndexes start.chains)) info)
      cleared next := by
  have cut := (rolledBack.cut.removeIndexes (context.removedIndexes start.chains item)).extend other
  refine ⟨fun collection => ?_, fun info => ?_⟩
  · have same := cut.rows collection
    rw [UndoState.removeIndexes_eq] at same
    rw [rows, ← List.append_assoc]
    exact same
  · rw [left, removed, cut.indexes, ← List.append_assoc, List.flatMap_append,
      List.flatMap_singleton, UndoContext.namesOf_append, List.append_assoc]

/-- An entry that is neither a catalog entry nor an append. -/
theorem other (rolledBack : RolledBack context start base visited names cleared done
      (rest ++ [item]) state) (catalog : ∀ entry columnName, item ≠ .catalogEntry entry columnName)
    (insert : ∀ table startRow count, item ≠ .insertTuple table startRow count)
    (chains : next.chains = state.chains) (timestamps : next.timestamps = state.timestamps)
    (rows : next.rows = state.rows) (indexes : next.indexes = state.indexes)
    (onDiskBlocks : next.onDiskBlocks = state.onDiskBlocks)
    (markedBlocks : next.markedBlocks = state.markedBlocks) :
    RolledBack context start base visited names cleared (done ++ [item]) rest next where
  chains := by
    rw [chains]
    exact rolledBack.chains.of_append catalog
  newer := fun entry columnName member => by
    rw [chains]
    exact rolledBack.newer entry columnName (List.mem_append_left _ member)
  left := by
    rw [chains]
    exact rolledBack.left
  gone := fun entry columnName member => by
    rw [chains]
    refine rolledBack.gone entry columnName ((List.mem_append.mp member).resolve_right fun same => ?_)
    exact catalog entry columnName (List.mem_singleton.mp same).symm
  cut := by
    refine rolledBack.cut_extend insert ?_ rows indexes
    cases item with
    | catalogEntry entry columnName => exact absurd rfl (catalog entry columnName)
    | _ => rfl
  timestamps := timestamps.trans rolledBack.timestamps
  onDiskBlocks := onDiskBlocks.trans rolledBack.onDiskBlocks
  markedBlocks := markedBlocks.trans rolledBack.markedBlocks

/-- An append that is rolled back. -/
theorem insertTuple (recorded : Recorded context start items) {table startRow count : Nat}
    (rolledBack : RolledBack context start base visited names cleared done
      (rest ++ [.insertTuple table startRow count]) state)
    (some_items : visited ++ done ⊆ items) (member : .insertTuple table startRow count ∈ items) :
    RolledBack context start base visited names cleared
      (done ++ [.insertTuple table startRow count]) rest
      (state.revertAppend context table startRow count) where
  chains := rolledBack.chains.of_append fun _ _ same => by cases same
  newer := fun entry columnName member =>
    rolledBack.newer entry columnName (List.mem_append_left _ member)
  left := rolledBack.left
  gone := fun entry columnName member => by
    refine rolledBack.gone entry columnName ((List.mem_append.mp member).resolve_right fun same => ?_)
    cases List.mem_singleton.mp same
  cut := by
    have nothing : context.removedIndexes start.chains (.insertTuple table startRow count) = [] := rfl
    rw [← List.append_assoc, List.flatMap_append, List.flatMap_singleton, nothing, List.append_nil]
    exact rolledBack.cut.revertAppend recorded some_items member
  timestamps := rolledBack.timestamps
  onDiskBlocks := rolledBack.onDiskBlocks
  markedBlocks := rolledBack.markedBlocks

/-- A catalog entry that is rolled back. -/
theorem catalogEntry (recorded : Recorded context start items)
    (rolledBack : RolledBack context start base visited names cleared done
      (rest ++ [.catalogEntry entry columnName]) state)
    (member : .catalogEntry entry columnName ∈ items) :
    RolledBack context start base visited names cleared
      (done ++ [.catalogEntry entry columnName]) rest (state.undo context entry) := by
  obtain ⟨newest, tail, hchain, -, root, chains, newer⟩ := rolledBack.chains.undo
  have removed : context.newer start.chains entry = some newest := by
    rw [← rolledBack.newer entry columnName (by simp), UndoContext.newer, hchain, parentOf,
      if_pos rfl]
  have fewer : ∀ chain, ∀ kept ∈ Function.update state.chains (context.entries entry).chain
      (ChainsRecorded.undone context entry tail) chain, kept ∈ state.chains chain := by
    intro chain kept inside
    by_cases here : chain = (context.entries entry).chain
    · rw [here, Function.update_self] at inside
      rw [here, hchain]
      exact List.mem_cons_of_mem _ (ChainsRecorded.mem_of_mem_undone inside)
    · rw [Function.update_of_ne here] at inside
      exact inside
  rw [UndoState.undo_eq hchain root]
  refine ⟨chains, fun old oldName hold => ?_, fun chain kept inside created valid => ?_,
    fun old oldName hold invalid chain inside => ?_, ?_, rolledBack.timestamps,
    rolledBack.onDiskBlocks, rolledBack.markedBlocks⟩
  · exact (newer old oldName hold).trans
      (rolledBack.newer old oldName (List.mem_append_left _ hold))
  · have before := rolledBack.left chain kept inside created valid
    by_cases here : chain = (context.entries entry).chain
    · rw [here, hchain] at before
      dsimp only
      rw [here, Function.update_self, ChainsRecorded.undone]
      rcases List.mem_cons.mp before with rfl | later
      · exact absurd (recorded.created entry columnName kept member removed) created
      · rw [if_neg fun invalid => ?_]
        · exact later
        · rw [root invalid, List.mem_singleton] at later
          exact valid (later ▸ invalid)
    · dsimp only
      rw [Function.update_of_ne here]
      exact before
  · dsimp only at inside
    rcases List.mem_append.mp hold with earlier | last
    · exact rolledBack.gone old oldName earlier invalid chain (fewer chain old inside)
    · cases List.mem_singleton.mp last
      have here := rolledBack.chains.own chain entry (fewer chain entry inside)
      rw [← here, Function.update_self, ChainsRecorded.undone, if_pos invalid] at inside
      exact List.not_mem_nil inside
  · refine rolledBack.cut_extend (fun _ _ _ same => by cases same) ?_ rfl rfl
    rw [UndoContext.removedIndexes, removed]

/-- An entry that is rolled back. -/
theorem step (recorded : Recorded context start items)
    (rolledBack : RolledBack context start base visited names cleared done (rest ++ [item]) state)
    (some_items : visited ++ done ⊆ items) (member : item ∈ items) :
    RolledBack context start base visited names cleared (done ++ [item]) rest
      (state.rollbackEntry context item) := by
  cases item with
  | catalogEntry entry columnName => exact rolledBack.catalogEntry recorded member
  | insertTuple table startRow count => exact rolledBack.insertTuple recorded some_items member
  | deleteTuple table versionInfo info =>
      exact rolledBack.other (fun _ _ same => by cases same) (fun _ _ _ same => by cases same)
        rfl rfl rfl rfl rfl rfl
  | updateTuple info =>
      refine rolledBack.other (fun _ _ same => by cases same) (fun _ _ _ same => by cases same)
        ?_ ?_ ?_ ?_ ?_ ?_
      all_goals
        rw [UndoState.rollbackEntry, UndoState.rollbackUpdate]
        dsimp only
        split
        · rfl
        · rfl
  | attachedDatabase name =>
      exact rolledBack.other (fun _ _ same => by cases same) (fun _ _ _ same => by cases same)
        rfl rfl rfl rfl rfl rfl
  | sequenceValue =>
      exact rolledBack.other (fun _ _ same => by cases same) (fun _ _ _ same => by cases same)
        rfl rfl rfl rfl rfl rfl

end RolledBack

/-! ## Two rollbacks -/

/-- What two rollbacks that still have the entries `rest` ahead have in common. -/
structure Alike (context : UndoContext Row Key Value) (start : UndoState Row Key Value)
    (items rest : List UndoItem) (state state' : UndoState Row Key Value) : Prop where
  chains : state.chains = state'.chains
  tableNames : state.tableNames = state'.tableNames
  tableVersions : ∀ table, state.tableVersions table ≠ state'.tableVersions table →
    HoldsTable context rest table
  updateInfos : state.updateInfos = state'.updateInfos
  updateNodes : state.updateNodes = state'.updateNodes
  databases : state.databases = state'.databases
  versionInfos : ∀ info limit, Shown context start items info limit →
    AgreesBelow limit (fun _ _ => False) (state.versionInfos info) (state'.versionInfos info)

namespace Alike

variable {context : UndoContext Row Key Value} {start state state' : UndoState Row Key Value}
  {items done done' rest : List UndoItem} {names names' : Nat → List String}
  {cleared cleared' : Nat → Bool} {item : UndoItem}

/-- An entry that is no catalog entry leaves the versions of tables as they are. -/
theorem tableVersions_other (alike : Alike context start items (rest ++ [item]) state state')
    (catalog : ∀ entry columnName, item ≠ .catalogEntry entry columnName) (table : Nat)
    (different : state.tableVersions table ≠ state'.tableVersions table) :
    HoldsTable context rest table := by
  obtain ⟨entry, columnName, member, found⟩ := alike.tableVersions table different
  refine ⟨entry, columnName, (List.mem_append.mp member).resolve_right fun same => ?_, found⟩
  exact catalog entry columnName (List.mem_singleton.mp same).symm

/-- The rolled back version of a table is its main version, whatever it was before. -/
theorem catalogEntry
    (alike : Alike context start items (rest ++ [.catalogEntry entry columnName]) state state')
    (chains : ChainsRecorded context state.chains (rest ++ [.catalogEntry entry columnName])) :
    Alike context start items rest (state.undo context entry) (state'.undo context entry) := by
  obtain ⟨newest, tail, hchain, -, root, -, -⟩ := chains.undo
  have hchain' := hchain
  rw [alike.chains] at hchain'
  rw [UndoState.undo_eq hchain root, UndoState.undo_eq hchain' root]
  refine
    { alike with
      chains := ?_
      tableNames := ?_
      tableVersions := fun table different => ?_ }
  · dsimp only
    rw [alike.chains]
  · dsimp only [UndoState.setAsRoot]
    split
    · rw [alike.tableNames]
    · exact alike.tableNames
  · dsimp only [UndoState.setAsRoot] at different
    have elsewhere : state.tableVersions table ≠ state'.tableVersions table ∧
        ¬ ((context.entries entry).type = .tableEntry ∧
          (context.entries entry).storage = table) := by
      split at different
      · rename_i isTable
        dsimp only at different
        by_cases here : table = (context.entries entry).storage
        · rw [here, Function.update_self, Function.update_self] at different
          exact absurd rfl different
        · rw [Function.update_of_ne here, Function.update_of_ne here] at different
          exact ⟨different, fun holds => here holds.2.symm⟩
      · rename_i isTable
        exact ⟨different, fun holds => isTable holds.1⟩
    obtain ⟨old, oldName, member, found⟩ := alike.tableVersions table elsewhere.1
    refine ⟨old, oldName, (List.mem_append.mp member).resolve_right fun same => ?_, found⟩
    cases List.mem_singleton.mp same
    exact elsewhere.2 found

/-- A delete that is rolled back on both sides. -/
theorem deleteTuple {table versionInfo : Nat} {deletes : DeleteInfo}
    (alike : Alike context start items (rest ++ [.deleteTuple table versionInfo deletes]) state
      state') :
    Alike context start items rest (state.commitDelete versionInfo notDeletedId deletes)
      (state'.commitDelete versionInfo notDeletedId deletes) := by
  refine
    { alike with
      tableVersions := alike.tableVersions_other fun _ _ same => by cases same
      versionInfos := fun info limit shown => ?_ }
  have agrees := alike.versionInfos info limit shown
  change AgreesBelow _ _ (Function.update state.versionInfos versionInfo _ info)
    (Function.update state'.versionInfos versionInfo _ info)
  by_cases here : info = versionInfo
  · subst here
    rw [Function.update_self, Function.update_self]
    exact agrees.commitDelete notDeletedId deletes
  · rw [Function.update_of_ne here, Function.update_of_ne here]
    exact agrees

/-- The rollback of an update depends on the update chains only. -/
theorem updateTuple {info : Nat}
    (alike : Alike context start items (rest ++ [.updateTuple info]) state state') :
    Alike context start items rest (state.rollbackUpdate info) (state'.rollbackUpdate info) := by
  have versions := alike.tableVersions_other fun _ _ same => by cases same
  rw [UndoState.rollbackUpdate, UndoState.rollbackUpdate, alike.updateInfos, alike.updateNodes]
  dsimp only
  split
  · exact { alike with tableVersions := versions }
  · exact { alike with
      tableVersions := versions
      updateInfos := rfl
      updateNodes := rfl }

variable [DecidableEq Key]

/-- An append that is rolled back on both sides. -/
theorem insertTuple (recorded : Recorded context start items) {table startRow count : Nat}
    (alike : Alike context start items (rest ++ [.insertTuple table startRow count]) state state')
    (cut : AppendsCut context start done names cleared state)
    (cut' : AppendsCut context start done' names' cleared' state')
    (member : .insertTuple table startRow count ∈ items) :
    Alike context start items rest (state.revertAppend context table startRow count)
      (state'.revertAppend context table startRow count) := by
  refine
    { alike with
      tableVersions := alike.tableVersions_other fun _ _ same => by cases same
      versionInfos := fun info limit shown => ?_ }
  have agrees := alike.versionInfos info limit shown
  rcases cut.versionInfos_revertAppend recorded member shown with same | ⟨row, behind, same⟩
  · rcases cut'.versionInfos_revertAppend recorded member shown with same' | ⟨row', behind', same'⟩
    · rw [same, same']
      exact agrees
    · rw [same, same']
      exact agrees.revertAppend_right behind'
  · rcases cut'.versionInfos_revertAppend recorded member shown with same' | ⟨row', behind', same'⟩
    · rw [same, same']
      exact agrees.revertAppend_left behind
    · rw [same, same']
      exact (agrees.revertAppend_left behind).revertAppend_right behind'

/-- An entry that is rolled back on both sides. -/
theorem step (recorded : Recorded context start items)
    (alike : Alike context start items (rest ++ [item]) state state')
    (chains : ChainsRecorded context state.chains (rest ++ [item]))
    (cut : AppendsCut context start done names cleared state)
    (cut' : AppendsCut context start done' names' cleared' state') (member : item ∈ items) :
    Alike context start items rest (state.rollbackEntry context item)
      (state'.rollbackEntry context item) := by
  cases item with
  | catalogEntry entry columnName => exact alike.catalogEntry chains
  | insertTuple table startRow count => exact alike.insertTuple recorded cut cut' member
  | deleteTuple table versionInfo info => exact alike.deleteTuple
  | updateTuple info => exact alike.updateTuple
  | attachedDatabase name =>
      exact { alike with
        tableVersions := alike.tableVersions_other fun _ _ same => by cases same
        databases := congrArg (List.erase · name) alike.databases }
  | sequenceValue =>
      exact { alike with
        tableVersions := alike.tableVersions_other fun _ _ same => by cases same }

end Alike

/-- Two rollbacks of the same entries, with the last one first. -/
theorem rolledBack_run [DecidableEq Key] {context : UndoContext Row Key Value}
    {start base base' state state' : UndoState Row Key Value}
    {items visited visited' done rest : List UndoItem} {names names' : Nat → List String}
    {cleared cleared' : Nat → Bool} (recorded : Recorded context start items)
    (rolledBack : RolledBack context start base visited names cleared done rest state)
    (rolledBack' : RolledBack context start base' visited' names' cleared' done rest state')
    (alike : Alike context start items rest state state')
    (some_items : visited ⊆ items) (some_items' : visited' ⊆ items) (known : done ⊆ items)
    (ahead : rest ⊆ items) :
    RolledBack context start base visited names cleared (done ++ rest.reverse) []
        (rest.reverse.foldl (UndoState.rollbackEntry context) state) ∧
      RolledBack context start base' visited' names' cleared' (done ++ rest.reverse) []
        (rest.reverse.foldl (UndoState.rollbackEntry context) state') ∧
      Alike context start items [] (rest.reverse.foldl (UndoState.rollbackEntry context) state)
        (rest.reverse.foldl (UndoState.rollbackEntry context) state') := by
  induction rest using List.reverseRecOn generalizing done state state' with
  | nil =>
      rw [List.reverse_nil, List.append_nil]
      exact ⟨rolledBack, rolledBack', alike⟩
  | append_singleton rest item ih =>
      obtain ⟨earlier, last⟩ := List.append_subset.mp ahead
      have member : item ∈ items := last List.mem_cons_self
      have more := ih
        (rolledBack.step recorded (List.append_subset.mpr ⟨some_items, known⟩) member)
        (rolledBack'.step recorded (List.append_subset.mpr ⟨some_items', known⟩) member)
        (alike.step recorded rolledBack.chains rolledBack.cut rolledBack'.cut member)
        (List.append_subset.mpr ⟨known, last⟩) earlier
      rw [List.reverse_append, List.reverse_singleton, List.singleton_append, List.foldl_cons]
      rw [List.append_assoc, List.singleton_append] at more
      exact more

end StatsRecommender
