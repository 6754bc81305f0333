import StatsRecommender.Transaction.RecordedChanges

/-!
# Drops at a commit

What the commit of a catalog entry drops, and what is left of it when the commit throws: blocks
are marked, indexes are removed or cleared, and tables are set as dropped.
-/

namespace StatsRecommender

variable {entry parent : CatalogEntry} {columnName message : String} {commitId : Nat}

namespace UndoState

variable {Row Key Value : Type} {context : UndoContext Row Key Value}
  {state next : UndoState Row Key Value}

/-! ## What is dropped -/

/-- Blocks are marked unless no segment has one. -/
def BlocksAfter (state : UndoState Row Key Value) (segments : List BlockSegment)
    (onDiskBlocks : Nat → List Nat) (markedBlocks : List Nat) : Prop :=
  ((∀ segment ∈ segments, Blockless state segment) ∧ onDiskBlocks = state.onDiskBlocks ∧
    markedBlocks = state.markedBlocks) ∨
  ((∃ segment ∈ segments, ¬ Blockless state segment) ∧
    state.markedBlocks.length < markedBlocks.length)

theorem commitDropSegment_spec (state : UndoState Row Key Value) (segment : BlockSegment) :
    ∃ onDiskBlocks markedBlocks,
      state.commitDropSegment segment = { state with onDiskBlocks, markedBlocks } ∧
      BlocksAfter state [segment] onDiskBlocks markedBlocks := by
  obtain ⟨start, count, blockId, stringState⟩ := segment
  cases stringState with
  | none =>
      refine ⟨state.onDiskBlocks, state.markedBlocks ++ blockId.toList, rfl, ?_⟩
      cases blockId with
      | none =>
          refine .inl ⟨fun segment member => ?_, rfl, List.append_nil _⟩
          rw [List.mem_singleton.mp member]
          exact ⟨rfl, fun id impossible => by cases impossible⟩
      | some block =>
          refine .inr ⟨⟨_, List.mem_singleton_self _, fun blockless => by cases blockless.1⟩, ?_⟩
          simp
  | some id =>
      refine ⟨Function.update state.onDiskBlocks id [],
        state.markedBlocks ++ blockId.toList ++ state.onDiskBlocks id, rfl, ?_⟩
      by_cases blockless : Blockless state ⟨start, count, blockId, some id⟩
      · obtain ⟨none, empty⟩ := blockless
        have nothing := empty id rfl
        refine .inl ⟨fun segment member => ?_, ?_, ?_⟩
        · rw [List.mem_singleton.mp member]
          exact ⟨none, empty⟩
        · rw [← nothing, Function.update_eq_self]
        · have block : blockId = Option.none := none
          rw [nothing, block]
          simp
      · refine .inr ⟨⟨_, List.mem_singleton_self _, blockless⟩, ?_⟩
        by_contra short
        apply blockless
        rw [List.length_append, List.length_append] at short
        constructor
        · cases hblock : blockId with
          | none => rfl
          | some block =>
              rw [hblock, Option.toList_some, List.length_singleton] at short
              omega
        · intro other same
          cases same
          exact List.eq_nil_of_length_eq_zero (by omega)

theorem BlocksAfter.trans {first second : List BlockSegment} {onDiskBlocks onDiskBlocks' : Nat → List Nat}
    {markedBlocks markedBlocks' : List Nat}
    (before : BlocksAfter state first onDiskBlocks markedBlocks)
    (after : BlocksAfter { state with onDiskBlocks, markedBlocks } second onDiskBlocks'
      markedBlocks') :
    BlocksAfter state (first ++ second) onDiskBlocks' markedBlocks' := by
  rcases before with ⟨blockless, rfl, rfl⟩ | ⟨⟨segment, member, owned⟩, more⟩
  · rcases after with ⟨blockless', same, marked⟩ | ⟨⟨segment, member, owned⟩, more⟩
    · refine .inl ⟨fun segment member => ?_, same, marked⟩
      rcases List.mem_append.mp member with here | there
      · exact blockless segment here
      · exact blockless' segment there
    · exact .inr ⟨⟨segment, List.mem_append_right _ member, owned⟩, more⟩
  · refine .inr ⟨⟨segment, List.mem_append_left _ member, owned⟩, ?_⟩
    rcases after with ⟨-, -, marked⟩ | ⟨-, more'⟩
    · rw [marked]
      exact more
    · exact Nat.lt_trans more more'

theorem commitDropSegments_spec (segments : List BlockSegment) (state : UndoState Row Key Value) :
    ∃ onDiskBlocks markedBlocks,
      segments.foldl commitDropSegment state = { state with onDiskBlocks, markedBlocks } ∧
      BlocksAfter state segments onDiskBlocks markedBlocks := by
  induction segments generalizing state with
  | nil => exact ⟨_, _, rfl, .inl ⟨fun _ impossible => absurd impossible List.not_mem_nil, rfl, rfl⟩⟩
  | cons segment rest ih =>
      obtain ⟨onDiskBlocks, markedBlocks, first, before⟩ := commitDropSegment_spec state segment
      obtain ⟨onDiskBlocks', markedBlocks', second, after⟩ :=
        ih { state with onDiskBlocks, markedBlocks }
      refine ⟨onDiskBlocks', markedBlocks', ?_, before.trans after⟩
      rw [List.foldl_cons, first, second]

/-- The indexes of an info after some were removed and those of some tables were cleared. -/
def droppedFrom (context : UndoContext Row Key Value) (drop : UndoContext.CatalogDrop) (info : Nat)
    (indexes : List (TableIndex Row Key)) : List (TableIndex Row Key) :=
  TableIndex.changed (UndoContext.namesOf drop.indexes info)
    (fun _ _ => !drop.tables.any fun table => (context.tables table).info == info) indexes

theorem droppedFrom_nil {segments : List BlockSegment} (info : Nat)
    (indexes : List (TableIndex Row Key)) :
    droppedFrom context ⟨segments, [], []⟩ info indexes = indexes :=
  TableIndex.changed_nil

/-- The state after a drop. -/
def Dropped (context : UndoContext Row Key Value) (drop : UndoContext.CatalogDrop)
    (state next : UndoState Row Key Value) : Prop :=
  ∃ onDiskBlocks markedBlocks indexes,
    next = { state with onDiskBlocks, markedBlocks, indexes } ∧
    BlocksAfter state drop.segments onDiskBlocks markedBlocks ∧
    ∀ info, indexes info = droppedFrom context drop info (state.indexes info)

theorem Dropped.nothing : Dropped context ⟨[], [], []⟩ state state :=
  ⟨_, _, _, rfl, .inl ⟨fun _ impossible => absurd impossible List.not_mem_nil, rfl, rfl⟩,
    fun info => (droppedFrom_nil info _).symm⟩

theorem Dropped.column (segments : List BlockSegment) :
    Dropped context ⟨segments, [], []⟩ state (segments.foldl commitDropSegment state) := by
  obtain ⟨onDiskBlocks, markedBlocks, same, blocks⟩ := commitDropSegments_spec segments state
  exact ⟨onDiskBlocks, markedBlocks, state.indexes, same, blocks,
    fun info => (droppedFrom_nil info _).symm⟩

theorem Dropped.table (table : Nat) :
    Dropped context ⟨(state.rows (context.tables table).rowGroups).segments, [], [table]⟩ state
      (state.commitDropTable context table) := by
  obtain ⟨onDiskBlocks, markedBlocks, same, blocks⟩ :=
    commitDropSegments_spec (state.rows (context.tables table).rowGroups).segments state
  refine ⟨onDiskBlocks, markedBlocks, Function.update state.indexes (context.tables table).info
    ((state.indexes (context.tables table).info).map TableIndex.commitDrop), ?_, blocks,
    fun info => ?_⟩
  · rw [commitDropTable, same]
  · rw [droppedFrom]
    by_cases here : info = (context.tables table).info
    · rw [here, Function.update_self]
      refine List.map_congr_left fun index _ => ?_
      rw [TableIndex.commitDrop_eq, List.any_cons, beq_self_eq_true]
      rfl
    · rw [Function.update_of_ne here, List.any_cons, beq_false_of_ne (Ne.symm here)]
      exact TableIndex.changed_nil.symm

theorem Dropped.index (entry : CatalogEntry) :
    Dropped context ⟨[], entry.info.toList.map fun info => (info, entry.name), []⟩ state
      (state.commitDropIndexEntry entry) := by
  rw [commitDropIndexEntry]
  cases entry.info with
  | none => exact .nothing
  | some dropped =>
      refine ⟨state.onDiskBlocks, state.markedBlocks, Function.update state.indexes dropped
        ((state.indexes dropped).eraseP fun index => index.name == entry.name), ?_,
        .inl ⟨fun _ impossible => absurd impossible List.not_mem_nil, rfl, rfl⟩, fun info => ?_⟩
      · dsimp only
        rw [commitDropIndex]
        split
        · rfl
        · rename_i position found
          rw [removeIndex]
          dsimp only
          rw [Function.update_self, Function.update_idem, TableIndex.eraseP_modify _ found]
      · change _ = TableIndex.changed (UndoContext.namesOf [(dropped, entry.name)] info)
          (fun _ _ => true) (state.indexes info)
        rw [UndoContext.namesOf_singleton]
        by_cases here : info = dropped
        · rw [here, Function.update_self, if_pos rfl]
          exact TableIndex.eraseP_eq entry.name
        · rw [Function.update_of_ne here, if_neg (Ne.symm here)]
          exact TableIndex.changed_nil.symm

/-- What `CommitEntryDrop` has done when it does not throw. -/
theorem commitEntryDrop_spec
    (ok : state.commitEntryDrop context entry parent columnName = (next, none)) :
    Dropped context (context.dropOf state.rows entry parent columnName) state next := by
  rw [commitEntryDrop] at ok
  rw [UndoContext.dropOf]
  split at ok
  · rename_i temporary
    cases ok
    rw [if_pos temporary]
    exact .nothing
  · rename_i persistent
    rw [if_neg persistent]
    cases htype : parent.type with
    | tableEntry =>
        rw [htype] at ok
        dsimp only at ok ⊢
        split at ok
        · rename_i alters
          rw [if_pos alters]
          rw [commitAlter] at ok
          cases hcolumn : alteredColumn entry.columns columnName with
          | error message =>
              rw [hcolumn] at ok
              cases ok
          | ok column =>
              rw [hcolumn] at ok
              cases column with
              | none =>
                  cases ok
                  exact .nothing
              | some columnIndex =>
                  cases ok
                  exact .column _
        · rename_i keeps
          cases ok
          rw [if_neg keeps]
          exact .nothing
    | deletedEntry =>
        rw [htype] at ok
        dsimp only at ok ⊢
        cases hold : entry.type with
        | tableEntry =>
            rw [hold] at ok
            cases ok
            exact .table _
        | indexEntry =>
            rw [hold] at ok
            cases ok
            exact .index _
        | _ =>
            rw [hold] at ok
            cases ok
            exact .nothing
    | invalid =>
        rw [htype] at ok
        cases ok
    | _ =>
        rw [htype] at ok
        cases ok
        exact .nothing

/-- Nothing is dropped when `CommitEntryDrop` throws. -/
theorem commitEntryDrop_throws
    (thrown : state.commitEntryDrop context entry parent columnName = (next, some message)) :
    next = state := by
  rw [commitEntryDrop] at thrown
  split at thrown
  · cases thrown
  · cases htype : parent.type with
    | tableEntry =>
        rw [htype] at thrown
        dsimp only at thrown
        split at thrown
        · rw [commitAlter] at thrown
          cases hcolumn : alteredColumn entry.columns columnName with
          | error message =>
              rw [hcolumn] at thrown
              cases thrown
              rfl
          | ok column =>
              rw [hcolumn] at thrown
              cases column <;> cases thrown
        · cases thrown
    | deletedEntry =>
        rw [htype] at thrown
        dsimp only at thrown
        cases hold : entry.type <;> rw [hold] at thrown <;> cases thrown
    | invalid =>
        rw [htype] at thrown
        cases thrown
        rfl
    | _ =>
        rw [htype] at thrown
        cases thrown

/-! ## Committed catalog entries -/

/-- The check of a catalog entry marks its table as dropped at most. -/
theorem verifyCatalogEntry_spec {entry parent : Nat} {message : Option String}
    (verified : state.verifyCatalogEntry context commitId entry parent = (next, message)) :
    ∃ tableVersions, next = { state with tableVersions } ∧
      ∀ table, tableVersions table ≠ state.tableVersions table →
        (context.entries entry).type = .tableEntry ∧ (context.entries entry).storage = table := by
  have same : next = state → ∃ tableVersions, next = { state with tableVersions } ∧
      ∀ table, tableVersions table ≠ state.tableVersions table →
        (context.entries entry).type = .tableEntry ∧
          (context.entries entry).storage = table := by
    rintro rfl
    exact ⟨next.tableVersions, rfl, fun table different => absurd rfl different⟩
  rw [verifyCatalogEntry] at verified
  split at verified
  · split at verified
    · cases verified
      exact same rfl
    · cases verified
      exact same rfl
  · cases verified
    rw [onDrop]
    split
    · rename_i isTable
      refine ⟨_, rfl, fun table different => ⟨isTable, ?_⟩⟩
      by_contra other
      exact different (Function.update_of_ne (Ne.symm other) _ _)
    · exact ⟨state.tableVersions, rfl, fun table different => absurd rfl different⟩
  · cases verified
    exact same rfl

/-- A committed catalog entry. -/
theorem commitCatalogEntry_spec {entry newest : Nat}
    (hnewest : context.newer state.chains entry = some newest)
    (ok : state.commitCatalogEntry context commitId entry columnName = (next, none)) :
    ∃ tableVersions onDiskBlocks markedBlocks indexes,
      next = { state with
        timestamps := Function.update state.timestamps newest commitId
        tableVersions, onDiskBlocks, markedBlocks, indexes } ∧
      (∀ table, tableVersions table ≠ state.tableVersions table →
        (context.entries entry).type = .tableEntry ∧ (context.entries entry).storage = table) ∧
      BlocksAfter state (context.dropOf state.rows (context.entries entry)
        (context.entries newest) columnName).segments onDiskBlocks markedBlocks ∧
      ∀ info, indexes info = droppedFrom context (context.dropOf state.rows (context.entries entry)
        (context.entries newest) columnName) info (state.indexes info) := by
  rw [UndoContext.newer] at hnewest
  rw [commitCatalogEntry] at ok
  rw [hnewest] at ok
  dsimp only at ok
  cases verified : state.verifyCatalogEntry context commitId entry newest with
  | mk middle message =>
      rw [verified] at ok
      cases message with
      | some message => cases ok
      | none =>
          obtain ⟨tableVersions, rfl, versions⟩ := verifyCatalogEntry_spec verified
          obtain ⟨onDiskBlocks, markedBlocks, indexes, rfl, blocks, dropped⟩ :=
            commitEntryDrop_spec ok
          exact ⟨tableVersions, onDiskBlocks, markedBlocks, indexes, rfl, versions, blocks, dropped⟩

/-- A catalog entry at which the commit throws. -/
theorem commitCatalogEntry_throws {entry : Nat}
    (thrown : state.commitCatalogEntry context commitId entry columnName = (next, some message)) :
    ∃ newest tableVersions timestamps, context.newer state.chains entry = some newest ∧
      next = { state with timestamps, tableVersions } ∧
      (∀ other, timestamps other ≠ state.timestamps other → other = newest) ∧
      ∀ table, tableVersions table ≠ state.tableVersions table →
        (context.entries entry).type = .tableEntry ∧
          (context.entries entry).storage = table := by
  rw [commitCatalogEntry] at thrown
  cases hnewest : parentOf (state.chains (context.entries entry).chain) entry with
  | none =>
      rw [hnewest] at thrown
      cases thrown
  | some newest =>
      rw [hnewest] at thrown
      dsimp only at thrown
      cases verified : state.verifyCatalogEntry context commitId entry newest with
      | mk middle error =>
          rw [verified] at thrown
          obtain ⟨tableVersions, rfl, versions⟩ := verifyCatalogEntry_spec verified
          cases error with
          | some error =>
              cases thrown
              exact ⟨newest, tableVersions, state.timestamps, hnewest, rfl,
                fun other different => absurd rfl different, versions⟩
          | none =>
              rw [commitEntryDrop_throws thrown]
              refine ⟨newest, tableVersions, _, hnewest, rfl, fun other different => ?_, versions⟩
              by_contra elsewhere
              exact different (Function.update_of_ne elsewhere _ _)

end UndoState

end StatsRecommender
