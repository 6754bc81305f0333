import StatsRecommender.Transaction.CommitState
import StatsRecommender.Transaction.IndexChanges
import StatsRecommender.Transaction.UndoRows

/-!
# Recorded changes

What an undo buffer states about the changes that a transaction has made: its catalog entries
are the newest of their chains, its appends are at the ends of tables, and what it deleted,
updated or created carries its id.
-/

namespace StatsRecommender

namespace UndoContext

variable {Row Key Value : Type}

/-- The entries of a chain that an undo buffer holds. -/
def chainEntries (context : UndoContext Row Key Value) (items : List UndoItem) (chain : Nat) :
    List Nat :=
  items.filterMap fun item =>
    match item with
    | .catalogEntry entry _ => if (context.entries entry).chain = chain then some entry else none
    | _ => none

/-- Where an undo buffer starts to append to a row group collection. -/
def startOf (context : UndoContext Row Key Value) (items : List UndoItem) (collection : Nat) :
    Option Nat :=
  items.findSome? fun item =>
    match item with
    | .insertTuple table startRow _ =>
        if (context.tables table).rowGroups = collection then some startRow else none
    | _ => none

/-- The row group collections that an undo buffer appends to. -/
def appendedTo (context : UndoContext Row Key Value) (items : List UndoItem) : List Nat :=
  items.filterMap fun item =>
    match item with
    | .insertTuple table _ _ => some (context.tables table).rowGroups
    | _ => none

/-- The row groups once the appends of an undo buffer are cut off. -/
def cutRows (context : UndoContext Row Key Value) (state : UndoState Row Key Value)
    (items : List UndoItem) (collection : Nat) : StoredRows :=
  match context.startOf items collection with
  | none => state.rows collection
  | some startRow => (state.rows collection).revertAppendInternal startRow

/-- The indexes of an info in a list of indexes. -/
def namesOf (indexes : List (Nat × String)) (info : Nat) : List String :=
  (indexes.filter fun index => index.1 == info).map Prod.snd

/-- The next newer version of a catalog entry. -/
def newer (context : UndoContext Row Key Value) (chains : Nat → List Nat) (entry : Nat) :
    Option Nat :=
  parentOf (chains (context.entries entry).chain) entry

/-- The indexes that the rollback of an entry removes. -/
def removedIndexes (context : UndoContext Row Key Value) (chains : Nat → List Nat) :
    UndoItem → List (Nat × String)
  | .catalogEntry entry _ =>
      match context.newer chains entry with
      | none => []
      | some newest =>
          UndoState.rolledBackIndexes context (context.entries newest) (context.entries entry)
  | _ => []

/-- No append of the buffer to a table with an info has this entry of an index. -/
def keepsEntry [DecidableEq Key] (context : UndoContext Row Key Value) (items : List UndoItem)
    (info : Nat) (index : TableIndex Row Key) (entry : Key × Nat) : Bool :=
  items.all fun item =>
    match item with
    | .insertTuple table startRow count =>
        (context.tables table).info != info ||
          TableIndex.keepsRows (context.rowAt (context.tables table).rowGroups)
            (List.range' startRow count) index entry
    | _ => true

/-- The indexes of an info that the rollback of a buffer leaves. -/
def keptIndexes (context : UndoContext Row Key Value) (state : UndoState Row Key Value)
    (items : List UndoItem) (info : Nat) : List (TableIndex Row Key) :=
  TableIndex.removeNames
    (namesOf (items.reverse.flatMap (context.removedIndexes state.chains)) info)
    (state.indexes info)

/-- What the commit of a catalog entry drops. -/
structure CatalogDrop where
  segments : List BlockSegment
  indexes : List (Nat × String)
  tables : List Nat

/-- What `CommitEntryDrop` drops for a version and the next newer one. -/
def dropOf (context : UndoContext Row Key Value) (rows : Nat → StoredRows)
    (entry parent : CatalogEntry) (columnName : String) : CatalogDrop :=
  if entry.temporary || parent.temporary then ⟨[], [], []⟩
  else
    match parent.type with
    | .tableEntry =>
        if (entry.type = .renamedEntry ∨ entry.type = parent.type) ∧ columnName ≠ "" then
          match alteredColumn entry.columns columnName with
          | .ok (some columnIndex) =>
              ⟨(rows (context.tables entry.storage).rowGroups).columnSegments columnIndex, [], []⟩
          | _ => ⟨[], [], []⟩
        else ⟨[], [], []⟩
    | .deletedEntry =>
        match entry.type with
        | .tableEntry =>
            ⟨(rows (context.tables entry.storage).rowGroups).segments, [], [entry.storage]⟩
        | .indexEntry => ⟨[], entry.info.toList.map fun info => (info, entry.name), []⟩
        | _ => ⟨[], [], []⟩
    | _ => ⟨[], [], []⟩

/-- What the commit of an entry drops. -/
def drops (context : UndoContext Row Key Value) (state : UndoState Row Key Value) :
    UndoItem → CatalogDrop
  | .catalogEntry entry columnName =>
      match context.newer state.chains entry with
      | none => ⟨[], [], []⟩
      | some newest =>
          context.dropOf state.rows (context.entries entry) (context.entries newest) columnName
  | _ => ⟨[], [], []⟩

variable {context : UndoContext Row Key Value} {items : List UndoItem} {item : UndoItem}

@[simp]
theorem namesOf_append (indexes others : List (Nat × String)) (info : Nat) :
    namesOf (indexes ++ others) info = namesOf indexes info ++ namesOf others info := by
  rw [namesOf, List.filter_append, List.map_append]
  rfl

theorem namesOf_singleton (index : Nat × String) (info : Nat) :
    namesOf [index] info = if index.1 = info then [index.2] else [] := by
  by_cases here : index.1 = info
  · simp [namesOf, here]
  · simp [namesOf, here]

theorem mem_namesOf {indexes : List (Nat × String)} {info : Nat} {name : String} :
    name ∈ namesOf indexes info ↔ (info, name) ∈ indexes := by
  rw [namesOf, List.mem_map]
  constructor
  · rintro ⟨index, member, rfl⟩
    obtain ⟨member, here⟩ := List.mem_filter.mp member
    rw [← beq_iff_eq.mp here]
    exact member
  · intro member
    exact ⟨_, List.mem_filter.mpr ⟨member, beq_self_eq_true info⟩, rfl⟩

@[simp]
theorem chainEntries_append (items others : List UndoItem) (chain : Nat) :
    context.chainEntries (items ++ others) chain =
      context.chainEntries items chain ++ context.chainEntries others chain :=
  List.filterMap_append

theorem chainEntries_singleton (entry : Nat) (columnName : String) (chain : Nat) :
    context.chainEntries [.catalogEntry entry columnName] chain =
      if (context.entries entry).chain = chain then [entry] else [] := by
  by_cases here : (context.entries entry).chain = chain
  · simp [chainEntries, here]
  · simp [chainEntries, here]

theorem mem_chainEntries {chain entry : Nat} :
    entry ∈ context.chainEntries items chain ↔
      (context.entries entry).chain = chain ∧ ∃ columnName, .catalogEntry entry columnName ∈ items := by
  rw [chainEntries, List.mem_filterMap]
  constructor
  · rintro ⟨item, member, found⟩
    cases item with
    | catalogEntry other columnName =>
        dsimp only at found
        split at found
        · cases found
          exact ⟨by assumption, columnName, member⟩
        · cases found
    | _ => cases found
  · rintro ⟨here, columnName, member⟩
    exact ⟨_, member, if_pos here⟩

end UndoContext

/-! ## Chains of catalog entries -/

/-- The catalog entries of an undo buffer, the last one first, follow the newest of their chain. -/
structure ChainsRecorded {Row Key Value : Type} (context : UndoContext Row Key Value)
    (chains : Nat → List Nat) (items : List UndoItem) : Prop where
  nodup : ∀ chain, (chains chain).Nodup
  own : ∀ chain, ∀ entry ∈ chains chain, (context.entries entry).chain = chain
  chained : ∀ chain, context.chainEntries items chain ≠ [] → ∃ newest older,
    chains chain = newest :: ((context.chainEntries items chain).reverse ++ older)
  root : ∀ entry columnName, .catalogEntry entry columnName ∈ items →
    (context.entries entry).type = .invalid →
    (chains (context.entries entry).chain).getLast? = some entry

namespace ChainsRecorded

variable {Row Key Value : Type} {context : UndoContext Row Key Value} {chains : Nat → List Nat}
  {items : List UndoItem} {item : UndoItem} {entry : Nat} {columnName : String}

/-- An entry of another kind does not matter. -/
theorem of_append (recorded : ChainsRecorded context chains (items ++ [item]))
    (other : ∀ entry columnName, item ≠ .catalogEntry entry columnName) :
    ChainsRecorded context chains items := by
  have same : ∀ chain, context.chainEntries (items ++ [item]) chain =
      context.chainEntries items chain := by
    intro chain
    rw [UndoContext.chainEntries_append]
    cases item with
    | catalogEntry entry columnName => exact absurd rfl (other entry columnName)
    | _ => exact List.append_nil _
  refine ⟨recorded.nodup, recorded.own, fun chain some_entry => ?_,
    fun entry columnName member => ?_⟩
  · have chained := recorded.chained chain
    rw [same] at chained
    exact chained some_entry
  · exact recorded.root entry columnName (List.mem_append_left _ member)

/-- The last catalog entry is the second in its chain. -/
theorem exists_newest
    (recorded : ChainsRecorded context chains (items ++ [.catalogEntry entry columnName])) :
    ∃ newest older, chains (context.entries entry).chain = newest :: entry ::
      ((context.chainEntries items (context.entries entry).chain).reverse ++ older) := by
  have last : context.chainEntries (items ++ [.catalogEntry entry columnName])
      (context.entries entry).chain =
      context.chainEntries items (context.entries entry).chain ++ [entry] := by
    rw [UndoContext.chainEntries_append, UndoContext.chainEntries_singleton, if_pos rfl]
  obtain ⟨newest, older, hchain⟩ := recorded.chained _ (by rw [last]; simp)
  refine ⟨newest, older, ?_⟩
  rw [hchain, last, List.reverse_append]
  rfl

/-- What the rollback of a catalog entry leaves of its chain. -/
def undone (context : UndoContext Row Key Value) (entry : Nat) (tail : List Nat) : List Nat :=
  if (context.entries entry).type = .invalid then [] else entry :: tail

theorem mem_of_mem_undone {tail : List Nat} {kept : Nat} (member : kept ∈ undone context entry tail) :
    kept ∈ entry :: tail := by
  rw [undone] at member
  split at member
  · exact absurd member List.not_mem_nil
  · exact member

/-- The rollback of the last catalog entry removes the newest version of its chain. -/
theorem undo (recorded : ChainsRecorded context chains (items ++ [.catalogEntry entry columnName])) :
    ∃ newest tail, chains (context.entries entry).chain = newest :: entry :: tail ∧
      newest ≠ entry ∧ ((context.entries entry).type = .invalid → tail = []) ∧
      ChainsRecorded context (Function.update chains (context.entries entry).chain
        (undone context entry tail)) items ∧
      ∀ other columnName, .catalogEntry other columnName ∈ items →
        context.newer (Function.update chains (context.entries entry).chain
          (undone context entry tail)) other = context.newer chains other := by
  obtain ⟨newest, older, hchain⟩ := recorded.exists_newest
  obtain ⟨chain, hentry⟩ : ∃ chain, (context.entries entry).chain = chain := ⟨_, rfl⟩
  obtain ⟨left, hleft⟩ : ∃ left, (context.chainEntries items chain).reverse ++ older = left :=
    ⟨_, rfl⟩
  rw [hentry, hleft] at hchain
  rw [hentry]
  have nodup := recorded.nodup chain
  rw [hchain] at nodup
  obtain ⟨fresh, nodup⟩ := List.nodup_cons.mp nodup
  obtain ⟨once, -⟩ := List.nodup_cons.mp nodup
  have root : (context.entries entry).type = .invalid → left = [] := by
    intro invalid
    have last := recorded.root entry columnName (by simp) invalid
    rw [hentry, hchain] at last
    by_contra more
    obtain ⟨final, hfinal⟩ : ∃ final, left.getLast? = some final :=
      ⟨_, List.getLast?_eq_some_getLast more⟩
    rw [List.getLast?_cons_cons, List.getLast?_cons, hfinal] at last
    exact once (Option.some.inj last ▸ List.mem_of_getLast? hfinal)
  have others : (context.entries entry).type = .invalid → context.chainEntries items chain = [] := by
    intro invalid
    have empty := hleft.trans (root invalid)
    exact List.reverse_eq_nil_iff.mp (List.append_eq_nil_iff.mp empty).1
  have apart : ∀ other columnName, UndoItem.catalogEntry other columnName ∈ items →
      (context.entries other).chain = chain → other ∈ left := by
    intro other columnName member same
    rw [← hleft]
    exact List.mem_append_left _
      (List.mem_reverse.mpr (UndoContext.mem_chainEntries.mpr ⟨same, columnName, member⟩))
  refine ⟨newest, left, hchain, fun same => fresh (same ▸ List.mem_cons_self), root,
    ⟨?_, ?_, ?_, ?_⟩, ?_⟩
  · intro other
    by_cases here : other = chain
    · rw [here, Function.update_self, undone]
      split
      · exact List.nodup_nil
      · exact nodup
    · rw [Function.update_of_ne here]
      exact recorded.nodup other
  · intro other kept member
    by_cases here : other = chain
    · rw [here, Function.update_self] at member
      rw [here]
      refine recorded.own chain kept ?_
      rw [hchain]
      exact List.mem_cons_of_mem _ (mem_of_mem_undone member)
    · rw [Function.update_of_ne here] at member
      exact recorded.own other kept member
  · intro other some_entry
    by_cases here : other = chain
    · rw [here] at some_entry ⊢
      rw [Function.update_self, undone, if_neg fun invalid => some_entry (others invalid)]
      exact ⟨entry, older, by rw [hleft]⟩
    · rw [Function.update_of_ne here]
      have elsewhere : context.chainEntries (items ++ [.catalogEntry entry columnName]) other =
          context.chainEntries items other := by
        rw [UndoContext.chainEntries_append, UndoContext.chainEntries_singleton, hentry,
          if_neg (Ne.symm here), List.append_nil]
      have chained := recorded.chained other
      rw [elsewhere] at chained
      exact chained some_entry
  · intro other otherName member invalid
    have last := recorded.root other otherName (List.mem_append_left _ member) invalid
    by_cases here : (context.entries other).chain = chain
    · have inside := apart other otherName member here
      rw [here, hchain, List.getLast?_cons_cons] at last
      rw [here, Function.update_self, undone,
        if_neg fun isRoot => absurd inside (by rw [root isRoot]; simp)]
      exact last
    · rw [Function.update_of_ne here]
      exact last
  · intro other otherName member
    rw [UndoContext.newer, UndoContext.newer]
    by_cases here : (context.entries other).chain = chain
    · have inside := apart other otherName member here
      have different : entry ≠ other := fun same => once (same ▸ inside)
      rw [here, Function.update_self, undone,
        if_neg fun isRoot => absurd inside (by rw [root isRoot]; simp), hchain, parentOf,
        if_neg different]
    · rw [Function.update_of_ne here]

end ChainsRecorded

/-! ## Undo buffers of transactions -/

variable {Row Key Value : Type}

/-- What a transaction has recorded in its undo buffer describes the state it has reached. -/
structure Recorded (context : UndoContext Row Key Value) (state : UndoState Row Key Value)
    (items : List UndoItem) : Prop where
  chains : ChainsRecorded context state.chains items
  /-- The newer version of each entry was created by the transaction. -/
  created : ∀ entry columnName newest, .catalogEntry entry columnName ∈ items →
    context.newer state.chains entry = some newest →
    state.timestamps newest = context.transactionId
  /-- Deleted rows carry the id of the transaction. -/
  deleted : ∀ table info deletes, .deleteTuple table info deletes ∈ items → ∃ held,
    (state.versionInfos info).getChunkInfo deletes.vectorIdx = some (.vector held) ∧
      ∀ row ∈ deletes.deletedRows, held.deleted row = context.transactionId
  updated : ∀ info, .updateTuple info ∈ items →
    (state.updateInfos info).versionNumber = context.transactionId
  /-- A collection is appended to once, at its end. -/
  once : (context.appendedTo items).Nodup
  appended : ∀ table startRow count, .insertTuple table startRow count ∈ items →
    0 < count ∧ (state.rows (context.tables table).rowGroups).WellFormed ∧
      startRow + count = (state.rows (context.tables table).rowGroups).totalRows
  /-- Row groups with a version info in common end before the rows that are appended. -/
  apart : ∀ table startRow count, .insertTuple table startRow count ∈ items →
    ∀ rowGroup ∈ (state.rows (context.tables table).rowGroups).rowGroups, ∀ collection,
    ∀ kept ∈ (context.cutRows state items collection).rowGroups,
      kept.versionInfo = rowGroup.versionInfo → kept.count ≤ startRow - rowGroup.start
  /-- A vector that was appended to behind other rows has an insertion id for each row. -/
  mixed : ∀ table startRow count, .insertTuple table startRow count ∈ items →
    ∀ rowGroup ∈ (state.rows (context.tables table).rowGroups).rowGroups,
      startRow < rowGroup.start + rowGroup.count →
      (startRow - rowGroup.start) % standardVectorSize ≠ 0 → ∃ held,
        (state.versionInfos rowGroup.versionInfo).getChunkInfo
          ((startRow - rowGroup.start) / standardVectorSize) = some (.vector held) ∧
        held.sameInsertedId = false

/--
Two states are the same to every reader: catalog entries and their timestamps, tables with
their rows, indexes and version infos, update chains, and the blocks that are in use.
-/
structure SameState (state state' : UndoState Row Key Value) : Prop where
  chains : state.chains = state'.chains
  timestamps : ∀ chain, ∀ entry ∈ state.chains chain,
    state.timestamps entry = state'.timestamps entry
  tableVersions : state.tableVersions = state'.tableVersions
  tableNames : state.tableNames = state'.tableNames
  indexes : state.indexes = state'.indexes
  rows : state.rows = state'.rows
  versionInfos : ∀ collection, ∀ rowGroup ∈ (state.rows collection).rowGroups,
    AgreesBelow rowGroup.count (fun _ _ => False) (state.versionInfos rowGroup.versionInfo)
      (state'.versionInfos rowGroup.versionInfo)
  updateInfos : state.updateInfos = state'.updateInfos
  updateNodes : state.updateNodes = state'.updateNodes
  onDiskBlocks : state.onDiskBlocks = state'.onDiskBlocks
  markedBlocks : state.markedBlocks = state'.markedBlocks
  databases : state.databases = state'.databases

/-- A segment has no block of its own. -/
def Blockless (state : UndoState Row Key Value) (segment : BlockSegment) : Prop :=
  segment.blockId = none ∧ ∀ id, segment.stringState = some id → state.onDiskBlocks id = []

/--
Nothing is dropped at a commit that its rollback would have to bring back, and no entry is
stamped that the transaction has not created.
-/
structure Harmless [DecidableEq Key] (context : UndoContext Row Key Value)
    (state : UndoState Row Key Value) (items before : List UndoItem) (failing : UndoItem) :
    Prop where
  segments : ∀ item ∈ before, ∀ segment ∈ (context.drops state item).segments,
    Blockless state segment
  indexes : ∀ item ∈ before, ∀ dropped ∈ (context.drops state item).indexes,
    ∀ index ∈ context.keptIndexes state items dropped.1, index.name ≠ dropped.2
  tables : ∀ item ∈ before, ∀ table ∈ (context.drops state item).tables,
    ∀ index ∈ context.keptIndexes state items (context.tables table).info,
    ∀ entry ∈ index.entries,
      context.keepsEntry items (context.tables table).info index entry = false
  names : ∀ entry columnName newest, .catalogEntry entry columnName ∈ before ++ [failing] →
    context.newer state.chains entry = some newest →
    (context.entries entry).name ≠ (context.entries newest).name →
    state.timestamps entry = context.transactionId ∨ (context.entries entry).type = .invalid

end StatsRecommender
