import StatsRecommender.Transaction.RollbackSteps

/-!
# Rollbacks behind a failed commit

A commit that throws is reverted and the transaction is rolled back.  The state is the one that
the rollback alone reaches exactly if the commit had nothing to drop.
-/

namespace StatsRecommender

variable {Row Key Value : Type} {context : UndoContext Row Key Value}
  {start state state' : UndoState Row Key Value} {items before after done : List UndoItem}
  {failing : UndoItem} {base : UndoState Row Key Value} {names : Nat → List String}
  {cleared : Nat → Bool}

theorem mem_of_parentOf {chain : List Nat} {entry newer : Nat}
    (found : parentOf chain entry = some newer) : entry ∈ chain := by
  induction chain with
  | nil => cases found
  | cons first rest ih =>
      cases rest with
      | nil => cases found
      | cons second rest =>
          rw [parentOf] at found
          split at found
          · rename_i here
            rw [← here]
            exact List.mem_cons_of_mem _ List.mem_cons_self
          · exact List.mem_cons_of_mem _ (ih found)

/-! ## Everything is rolled back -/

/-- The order in which all appends are reverted does not matter to the rows. -/
theorem startOf_of_all (recorded : Recorded context start items) (some_items : done ⊆ items)
    (all : items ⊆ done) (collection : Nat) :
    context.startOf done collection = context.startOf items collection := by
  cases found : context.startOf items collection with
  | none =>
      rw [UndoContext.startOf, List.findSome?_eq_none_iff] at found ⊢
      exact fun item member => found item (some_items member)
  | some startRow =>
      obtain ⟨item, member, selected⟩ := List.exists_of_findSome?_eq_some found
      cases item with
      | insertTuple table first count =>
          dsimp only at selected
          split at selected
          · rename_i here
            cases selected
            subst here
            rcases UndoContext.startOf_of_mem recorded some_items member with none | ⟨same, -⟩
            · rw [UndoContext.startOf, List.findSome?_eq_none_iff] at none
              have impossible := none _ (all member)
              dsimp only at impossible
              rw [if_pos rfl] at impossible
              cases impossible
            · exact same
          · cases selected
      | _ => cases selected

theorem cutRows_of_all (recorded : Recorded context start items) (some_items : done ⊆ items)
    (all : items ⊆ done) (collection : Nat) :
    context.cutRows start done collection = context.cutRows start items collection := by
  rw [UndoContext.cutRows, startOf_of_all recorded some_items all, UndoContext.cutRows]

/-- The blocks are the same on both sides. -/
theorem blocks_eq_iff {onDiskBlocks : Nat → List Nat} {markedBlocks : List Nat}
    (blocks : UndoState.BlocksAfter start (context.allDrops start before).segments onDiskBlocks
      markedBlocks) :
    (start.onDiskBlocks = onDiskBlocks ∧ start.markedBlocks = markedBlocks) ↔
      ∀ item ∈ before, ∀ segment ∈ (context.drops start item).segments, Blockless start segment := by
  rcases blocks with ⟨blockless, rfl, rfl⟩ | ⟨⟨segment, member, owned⟩, more⟩
  · exact ⟨fun _ item member segment inside =>
      blockless segment (List.mem_flatMap.mpr ⟨item, member, inside⟩), fun _ => ⟨rfl, rfl⟩⟩
  · obtain ⟨item, held, inside⟩ := List.mem_flatMap.mp member
    constructor
    · rintro ⟨-, same⟩
      rw [same] at more
      exact absurd more (Nat.lt_irrefl _)
    · intro blockless
      exact absurd (blockless item held segment inside) owned

variable [DecidableEq Key]

theorem keepsEntry_of_all (some_items : done ⊆ items) (all : items ⊆ done) {info : Nat}
    {index : TableIndex Row Key} {entry : Key × Nat} :
    context.keepsEntry done info index entry = context.keepsEntry items info index entry := by
  rw [Bool.eq_iff_iff, UndoContext.keepsEntry, List.all_eq_true, UndoContext.keepsEntry,
    List.all_eq_true]
  exact ⟨fun kept item member => kept item (all member),
    fun kept item member => kept item (some_items member)⟩

/-- The indexes of all infos are the same on both sides. -/
theorem indexes_eq_iff
    (cut : AppendsCut context start items (UndoContext.namesOf
      (items.reverse.flatMap (context.removedIndexes start.chains))) (fun _ => false) state)
    (cut' : AppendsCut context start items (fun info => droppedNames context start before info ++
      UndoContext.namesOf (items.reverse.flatMap (context.removedIndexes start.chains)) info)
      (clearedIndexes context start before) state') :
    state.indexes = state'.indexes ↔
      (∀ item ∈ before, ∀ dropped ∈ (context.drops start item).indexes,
        ∀ index ∈ context.keptIndexes start items dropped.1, index.name ≠ dropped.2) ∧
      ∀ item ∈ before, ∀ table ∈ (context.drops start item).tables,
        ∀ index ∈ context.keptIndexes start items (context.tables table).info,
        ∀ entry ∈ index.entries,
          context.keepsEntry items (context.tables table).info index entry = false := by
  have each : ∀ info, state.indexes info = state'.indexes info ↔
      ∀ index ∈ context.keptIndexes start items info,
        index.name ∉ droppedNames context start before info ∧ ∀ entry ∈ index.entries,
          (!clearedIndexes context start before info &&
            context.keepsEntry items info index entry) =
              (!false && context.keepsEntry items info index entry) := by
    intro info
    rw [cut.indexes, cut'.indexes, eq_comm]
    exact TableIndex.changed_append_eq_iff
  rw [funext_iff]
  constructor
  · intro same
    refine ⟨fun item member dropped hdropped index kept named => ?_,
      fun item member table htable index kept entry inside => ?_⟩
    · refine ((each dropped.1).mp (same dropped.1) index kept).1 ?_
      rw [named, droppedNames, UndoContext.mem_namesOf]
      exact List.mem_flatMap.mpr ⟨item, member, hdropped⟩
    · have equal := ((each _).mp (same _) index kept).2 entry inside
      have cleared : clearedIndexes context start before (context.tables table).info = true :=
        List.any_eq_true.mpr
          ⟨table, List.mem_flatMap.mpr ⟨item, member, htable⟩, beq_self_eq_true _⟩
      rw [cleared] at equal
      exact equal.symm
  · rintro ⟨removed, emptied⟩ info
    refine (each info).mpr fun index kept => ⟨fun named => ?_, fun entry inside => ?_⟩
    · rw [droppedNames, UndoContext.mem_namesOf] at named
      obtain ⟨item, member, hdropped⟩ := List.mem_flatMap.mp named
      exact removed item member _ hdropped index kept rfl
    · cases cleared : clearedIndexes context start before info with
      | false => rfl
      | true =>
          obtain ⟨table, htable, here⟩ := List.any_eq_true.mp cleared
          obtain ⟨item, member, hdropped⟩ := List.mem_flatMap.mp htable
          cases beq_iff_eq.mp here
          rw [emptied item member table hdropped index kept entry inside]
          rfl

/-- The timestamps of the entries that are left are the same on both sides. -/
theorem timestamps_eq_iff {visited tried : List UndoItem} (known : tried ⊆ items)
    (rolledBack : RolledBack context start start visited names cleared items.reverse [] state)
    (renamed : ∀ entry, Renamed context start tried entry →
      base.timestamps entry = context.transactionId)
    (unnamed : ∀ entry, ¬ Renamed context start tried entry →
      base.timestamps entry = start.timestamps entry) :
    (∀ chain, ∀ entry ∈ state.chains chain, start.timestamps entry = base.timestamps entry) ↔
      ∀ entry columnName newest, .catalogEntry entry columnName ∈ tried →
        context.newer start.chains entry = some newest →
        (context.entries entry).name ≠ (context.entries newest).name →
        start.timestamps entry = context.transactionId ∨
          (context.entries entry).type = .invalid := by
  constructor
  · intro same entry columnName newest member found different
    by_contra outside
    obtain ⟨created, valid⟩ := not_or.mp outside
    obtain ⟨chain, inside⟩ : ∃ chain, entry ∈ start.chains chain :=
      ⟨_, mem_of_parentOf found⟩
    have stamp := same chain entry (rolledBack.left chain entry inside created valid)
    exact created (stamp.trans (renamed entry ⟨columnName, newest, member, found, different⟩))
  · intro harmless chain entry inside
    by_cases named : Renamed context start tried entry
    · have stamp := renamed entry named
      obtain ⟨columnName, newest, member, found, different⟩ := named
      rcases harmless entry columnName newest member found different with created | invalid
      · exact created.trans stamp.symm
      · exact absurd inside
          (rolledBack.gone entry columnName (List.mem_reverse.mpr (known member)) invalid chain)
    · exact (unnamed entry named).symm

/-- What is left of a commit attempt once it was reverted. -/
theorem reverted_of_throws (recorded : Recorded context start items)
    (known : before ++ [failing] ⊆ items) {commitId : Nat} {stopped : UndoState Row Key Value}
    {message : String}
    (throws : UndoBuffer.ThrowsAt (UndoState.commitEntry context commitId) start before failing
      stopped message) :
    Reverted context start items before (before ++ [failing]) []
      ((before ++ [failing]).foldl (UndoState.revertCommitEntry context) stopped) := by
  obtain ⟨reached, taken, thrown⟩ := throws
  have committed := (Committed.refl.run recorded (List.append_subset.mp known).1 taken).throws thrown
  exact (Reverted.of_committed committed (List.subset_append_left _ _) known).run recorded known

/-- Before it is rolled back, the reverted state differs from the start in nothing that two
rollbacks could tell apart. -/
theorem Reverted.alike (reverted : Reverted context start items before done [] state) :
    Alike context start items items start state where
  chains := reverted.chains.symm
  tableNames := reverted.tableNames.symm
  tableVersions := fun table different => reverted.tableVersions table (Ne.symm different)
  updateInfos := by
    funext info
    obtain ⟨versionNumber, same, pending | rfl⟩ := reverted.updateInfos info
    · exact absurd pending List.not_mem_nil
    · exact same.symm
  updateNodes := reverted.updateNodes.symm
  databases := reverted.databases.symm
  versionInfos := fun info limit shown =>
    (reverted.versionInfos info limit shown).mono fun _ _ pending => by
      obtain ⟨table, deletes, impossible, -⟩ := pending
      exact List.not_mem_nil impossible

/-- Nothing has been cut off at the start. -/
theorem AppendsCut.refl : AppendsCut context start [] (fun _ => []) (fun _ => false) start where
  rows := fun _ => rfl
  indexes := fun _ => TableIndex.changed_nil.symm

/-- The cut of all appends, in the order of the buffer. -/
theorem AppendsCut.of_all {names' : Nat → List String} (recorded : Recorded context start items)
    (cut : AppendsCut context start done names cleared state) (some_items : done ⊆ items)
    (all : items ⊆ done) (same : ∀ info, names info = names' info) :
    AppendsCut context start items names' cleared state where
  rows := fun collection => by
    rw [cut.rows, cutRows_of_all recorded some_items all]
  indexes := fun info => by
    rw [cut.indexes, same]
    exact TableIndex.changed_congr fun index _ entry _ => by rw [keepsEntry_of_all some_items all]

/-- Two rolled back states are the same if and only if nothing was dropped for good. -/
theorem sameState_iff (recorded : Recorded context start items)
    (known : before ++ [failing] ⊆ items)
    (reverted : Reverted context start items before (before ++ [failing]) [] base)
    (rolledBack : RolledBack context start start [] (fun _ => []) (fun _ => false) items.reverse []
      state) (rolledBack' : RolledBack context start base (before ++ [failing])
      (droppedNames context start before) (clearedIndexes context start before) items.reverse []
      state') (alike : Alike context start items [] state state') :
    SameState state state' ↔ Harmless context start items before failing := by
  have backward : items.reverse ⊆ items := List.reverse_subset.mpr (List.Subset.refl _)
  have forward : items ⊆ items.reverse := List.subset_reverse.mpr (List.Subset.refl _)
  have cut : AppendsCut context start items (UndoContext.namesOf
      (items.reverse.flatMap (context.removedIndexes start.chains))) (fun _ => false) state :=
    rolledBack.cut.of_all recorded backward forward fun _ => List.nil_append _
  have cut' := rolledBack'.cut.of_all recorded
    (List.append_subset.mpr ⟨known, backward⟩)
    (List.Subset.trans forward (List.subset_append_right _ _)) fun _ => rfl
  have indexes := indexes_eq_iff cut cut'
  have blocks := blocks_eq_iff reverted.blocks
  rw [← rolledBack.onDiskBlocks, ← rolledBack'.onDiskBlocks, ← rolledBack.markedBlocks,
    ← rolledBack'.markedBlocks] at blocks
  have stamps : ∀ entry,
      (Renamed context start (before ++ [failing]) entry →
        base.timestamps entry = context.transactionId) ∧
      (¬ Renamed context start (before ++ [failing]) entry →
        base.timestamps entry = start.timestamps entry) := by
    intro entry
    refine (reverted.timestamps entry).resolve_left fun isNewest => ?_
    obtain ⟨_, _, impossible, -⟩ := isNewest
    exact List.not_mem_nil impossible
  have timestamps := timestamps_eq_iff known rolledBack (fun entry => (stamps entry).1)
    fun entry => (stamps entry).2
  have same_stamps : (∀ chain, ∀ entry ∈ state.chains chain,
      start.timestamps entry = base.timestamps entry) ↔
      ∀ chain, ∀ entry ∈ state.chains chain, state.timestamps entry = state'.timestamps entry := by
    rw [rolledBack.timestamps, rolledBack'.timestamps]
  rw [same_stamps] at timestamps
  constructor
  · intro same
    obtain ⟨removed, emptied⟩ := indexes.mp same.indexes
    exact ⟨blocks.mp ⟨same.onDiskBlocks, same.markedBlocks⟩, removed, emptied,
      timestamps.mp same.timestamps⟩
  · intro harmless
    obtain ⟨onDiskBlocks, markedBlocks⟩ := blocks.mpr harmless.segments
    refine ⟨alike.chains, timestamps.mpr harmless.names, ?_, alike.tableNames,
      indexes.mpr ⟨harmless.indexes, harmless.tables⟩, ?_, ?_, alike.updateInfos,
      alike.updateNodes, onDiskBlocks, markedBlocks, alike.databases⟩
    · funext table
      by_contra different
      obtain ⟨_, _, impossible, -⟩ := alike.tableVersions table different
      exact List.not_mem_nil impossible
    · funext collection
      rw [cut.rows, cut'.rows]
    · intro collection rowGroup member
      rw [cut.rows] at member
      exact alike.versionInfos _ _ ⟨collection, rowGroup, member, rfl, rfl⟩

/--
A commit that throws is reverted.  A rollback behind it leaves the state that the rollback alone
leaves if and only if the commit has dropped nothing that is to stay.
-/
theorem rollback_after_commit_iff {commitId : Nat} {buffer : UndoBuffer UndoItem}
    {stopped : UndoState Row Key Value} {message : String}
    (recorded : Recorded context state buffer.entries)
    (split : buffer.entries = before ++ failing :: after)
    (throws : UndoBuffer.ThrowsAt (UndoState.commitEntry context commitId) state before failing
      stopped message) :
    (state.commit context commitId buffer).2 = some message ∧
      (SameState (state.rollback context buffer)
        ((state.commit context commitId buffer).1.rollback context buffer) ↔
          Harmless context state buffer.entries before failing) := by
  have known : before ++ [failing] ⊆ buffer.entries := by
    rw [split, List.append_cons before failing after]
    exact List.subset_append_left _ _
  have reverted := reverted_of_throws recorded known throws
  obtain ⟨endState, stops, until_end⟩ := UndoBuffer.iterateEntries_throws split throws
  rw [UndoState.commit, stops]
  dsimp only
  rw [until_end]
  refine ⟨rfl, ?_⟩
  rw [UndoState.rollback, UndoBuffer.reverseIterateEntries_eq, UndoState.rollback,
    UndoBuffer.reverseIterateEntries_eq]
  obtain ⟨rolledBack, rolledBack', alike⟩ := rolledBack_run recorded
    (.refl recorded rfl .refl) (.refl recorded reverted.chains reverted.cut) reverted.alike
    (List.nil_subset _) known (List.nil_subset _) (List.Subset.refl _)
  rw [List.nil_append] at rolledBack rolledBack'
  exact sameState_iff recorded known reverted rolledBack rolledBack' alike

/-! ## A dropped table -/

/-- The first table is dropped, the second one is updated. -/
def droppingContext : UndoContext Nat Nat Nat where
  entries := fun entry =>
    if entry = 0 then ⟨.tableEntry, "t", false, 0, 0, [⟨"i", false⟩], [], none, .subject⟩
    else ⟨.deletedEntry, "t", false, 0, 0, [], [], none, .subject⟩
  tables := fun table => ⟨table, table⟩
  rowAt := fun _ row => row
  transactionId := 4611686018427388003
  startTime := 5
  verifyExistence := fun _ _ _ => none
  verifyCommitDrop := fun _ _ _ _ => none

/-- The second table has been altered since; the first one may have been checkpointed. -/
def droppingState (block : Option Nat) : UndoState Nat Nat Nat where
  chains := fun chain => if chain = 0 then [1, 0] else []
  timestamps := fun entry => if entry = 1 then 4611686018427388003 else 2
  tableVersions := fun table => if table = 1 then .altered else .mainTable
  tableNames := fun table => if table = 0 then "t" else "u"
  indexes := fun _ => []
  rows := fun table =>
    ⟨3, [⟨0, 3, table, [⟨⟨0, 3, [⟨0, 3, if table = 0 then block else none, none⟩]⟩,
      ⟨0, 3, [⟨0, 3, none, none⟩]⟩⟩]⟩]⟩
  versionInfos := fun _ => ⟨[]⟩
  updateInfos := fun info =>
    if info = 0 then ⟨0, 1, 4611686018427388003, 0, [(1, 7)], some 1, none⟩
    else ⟨0, 1, 0, 0, [(1, 8)], none, some 0⟩
  updateNodes := fun segment vectorIndex =>
    if segment = 0 ∧ vectorIndex = 0 then some 1 else none
  onDiskBlocks := fun _ => []
  markedBlocks := []
  databases := []

/-- The undo buffer of the transaction. -/
def droppingBuffer : UndoBuffer UndoItem :=
  ⟨[[⟨.catalogEntry 0 "", 8⟩, ⟨.updateTuple 0, 96⟩]]⟩

theorem eq_of_mem_droppingBuffer {item : UndoItem} (member : item ∈ droppingBuffer.entries) :
    item = .catalogEntry 0 "" ∨ item = .updateTuple 0 := by
  rcases List.mem_cons.mp member with same | later
  · exact .inl same
  · exact .inr (List.mem_singleton.mp later)

theorem droppingState_recorded (block : Option Nat) :
    Recorded droppingContext (droppingState block) droppingBuffer.entries where
  chains := by
    refine ⟨fun chain => ?_, fun chain entry member => ?_, fun chain some_entry => ?_,
      fun entry columnName member invalid => ?_⟩
    · dsimp only [droppingState]
      split
      · decide
      · exact List.nodup_nil
    · dsimp only [droppingState] at member
      split at member
      · rename_i here
        rw [here]
        dsimp only [droppingContext]
        split
        · rfl
        · rfl
      · exact absurd member List.not_mem_nil
    · by_cases here : chain = 0
      · subst here
        exact ⟨1, [], rfl⟩
      · refine absurd (List.filterMap_eq_nil_iff.mpr fun item member => ?_) some_entry
        rcases eq_of_mem_droppingBuffer member with rfl | rfl
        · exact if_neg (Ne.symm here)
        · rfl
    · dsimp only [droppingContext] at invalid
      split at invalid
      · cases invalid
      · cases invalid
  created := fun entry columnName newest member found => by
    rcases eq_of_mem_droppingBuffer member with same | same
    · cases same
      cases found
      rfl
    · cases same
  deleted := fun table info deletes member => by
    rcases eq_of_mem_droppingBuffer member with same | same <;> cases same
  updated := fun info member => by
    rcases eq_of_mem_droppingBuffer member with same | same
    · cases same
    · cases same
      rfl
  once := List.nodup_nil
  appended := fun table startRow count member => by
    rcases eq_of_mem_droppingBuffer member with same | same <;> cases same
  apart := fun table startRow count member => by
    rcases eq_of_mem_droppingBuffer member with same | same <;> cases same
  mixed := fun table startRow count member => by
    rcases eq_of_mem_droppingBuffer member with same | same <;> cases same

theorem droppingState_throws (block : Option Nat) : ∃ stopped,
    UndoBuffer.ThrowsAt (UndoState.commitEntry droppingContext 6) (droppingState block)
      [.catalogEntry 0 ""] (.updateTuple 0) stopped
      "Attempting to modify table u but another transaction has altered this table" :=
  ⟨_, _, rfl, rfl⟩

/-- Without a block in the dropped table nothing is lost. -/
theorem rollback_after_commit_droppingState :
    SameState ((droppingState none).rollback droppingContext droppingBuffer)
      (((droppingState none).commit droppingContext 6 droppingBuffer).1.rollback droppingContext
        droppingBuffer) := by
  obtain ⟨stopped, throws⟩ := droppingState_throws none
  refine (rollback_after_commit_iff (droppingState_recorded none) rfl throws).2.mpr
    ⟨fun item member segment inside => ?_, fun item member dropped inside index kept => ?_,
      fun item member table inside index kept => ?_, fun entry columnName newest member found => ?_⟩
  · cases List.mem_singleton.mp member
    rcases List.mem_cons.mp inside with rfl | later
    · exact ⟨rfl, fun id impossible => by cases impossible⟩
    · cases List.mem_singleton.mp later
      exact ⟨rfl, fun id impossible => by cases impossible⟩
  · exact absurd kept List.not_mem_nil
  · exact absurd kept List.not_mem_nil
  · rcases List.mem_cons.mp member with same | later
    · cases same
      cases found
      exact fun different => absurd rfl different
    · cases List.mem_singleton.mp later

/-- The block of the dropped table has been given back, although the table is still there. -/
theorem dropped_block_given_back :
    Recorded droppingContext (droppingState (some 12)) droppingBuffer.entries ∧
    (∃ stopped, UndoBuffer.ThrowsAt (UndoState.commitEntry droppingContext 6)
      (droppingState (some 12)) [.catalogEntry 0 ""] (.updateTuple 0) stopped
      "Attempting to modify table u but another transaction has altered this table") ∧
    (((droppingState (some 12)).commit droppingContext 6 droppingBuffer).1.rollback droppingContext
      droppingBuffer).markedBlocks = [12] ∧
    (((droppingState (some 12)).commit droppingContext 6 droppingBuffer).1.rollback droppingContext
      droppingBuffer).chains 0 = [0] ∧
    ¬ SameState ((droppingState (some 12)).rollback droppingContext droppingBuffer)
      (((droppingState (some 12)).commit droppingContext 6 droppingBuffer).1.rollback
        droppingContext droppingBuffer) := by
  refine ⟨droppingState_recorded _, droppingState_throws _, rfl, rfl, fun same => ?_⟩
  have marked := same.markedBlocks
  exact absurd marked (by decide)

end StatsRecommender
