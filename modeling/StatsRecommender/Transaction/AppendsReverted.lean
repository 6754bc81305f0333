import StatsRecommender.Transaction.RecordedChanges

/-!
# Reverted appends of a buffer

The row groups and the indexes once some appends of an undo buffer were reverted, some of them
for the second time.
-/

namespace StatsRecommender

variable {Row Key Value : Type} {context : UndoContext Row Key Value}
  {start state : UndoState Row Key Value} {items done : List UndoItem} {item : UndoItem}
  {table startRow count : Nat}

/-! ## One append for each collection -/

/-- The elements behind a list of selected values without duplicates are told apart by them. -/
theorem eq_of_nodup_filterMap {α β : Type} {select : α → Option β} {list : List α}
    (nodup : (list.filterMap select).Nodup) {first second : α} {value : β}
    (hfirst : first ∈ list) (hsecond : second ∈ list) (selected : select first = some value)
    (selected' : select second = some value) : first = second := by
  induction list with
  | nil => exact absurd hfirst List.not_mem_nil
  | cons head rest ih =>
      cases hhead : select head with
      | none =>
          rw [List.filterMap_cons_none hhead] at nodup
          have inRest : ∀ other, other ∈ head :: rest → select other = some value →
              other ∈ rest := by
            intro other member found
            refine (List.mem_cons.mp member).resolve_left fun same => ?_
            rw [same, hhead] at found
            cases found
          exact ih nodup (inRest first hfirst selected) (inRest second hsecond selected')
      | some here =>
          rw [List.filterMap_cons_some hhead] at nodup
          obtain ⟨fresh, nodup⟩ := List.nodup_cons.mp nodup
          have later : ∀ other ∈ rest, select other = some value → here ≠ value := by
            intro other member found same
            exact fresh (List.mem_filterMap.mpr ⟨other, member, same ▸ found⟩)
          rcases List.mem_cons.mp hfirst with rfl | first_later
          · rcases List.mem_cons.mp hsecond with rfl | second_later
            · rfl
            · exact absurd (Option.some.inj (hhead.symm.trans selected))
                (later second second_later selected')
          · rcases List.mem_cons.mp hsecond with rfl | second_later
            · exact absurd (Option.some.inj (hhead.symm.trans selected'))
                (later first first_later selected)
            · exact ih nodup first_later second_later

namespace UndoContext

theorem startOf_append (items others : List UndoItem) (collection : Nat) :
    context.startOf (items ++ others) collection =
      (context.startOf items collection).or (context.startOf others collection) :=
  List.findSome?_append

theorem startOf_insertTuple (table startRow count collection : Nat) :
    context.startOf [.insertTuple table startRow count] collection =
      if (context.tables table).rowGroups = collection then some startRow else none := by
  by_cases here : (context.tables table).rowGroups = collection
  · simp [startOf, here]
  · simp [startOf, here]

/-- Only an append says where a collection is appended to. -/
theorem startOf_other (other : ∀ table startRow count, item ≠ .insertTuple table startRow count)
    (collection : Nat) : context.startOf [item] collection = none := by
  cases item with
  | insertTuple table startRow count => exact absurd rfl (other table startRow count)
  | _ => rfl

/-- A collection that is appended to is so by one entry of the buffer only. -/
theorem startOf_of_mem (recorded : Recorded context start items) (some_items : done ⊆ items)
    (member : .insertTuple table startRow count ∈ items) :
    (context.startOf done (context.tables table).rowGroups = none) ∨
      (context.startOf done (context.tables table).rowGroups = some startRow ∧
        .insertTuple table startRow count ∈ done) := by
  cases found : context.startOf done (context.tables table).rowGroups with
  | none => exact .inl rfl
  | some other =>
      right
      obtain ⟨item, hitem, selected⟩ := List.exists_of_findSome?_eq_some found
      cases item with
      | insertTuple table' startRow' count' =>
          dsimp only at selected
          split at selected
          · rename_i here
            have same : UndoItem.insertTuple table' startRow' count' =
                .insertTuple table startRow count :=
              eq_of_nodup_filterMap recorded.once (some_items hitem) member
                (congrArg some here) rfl
            cases same
            cases selected
            exact ⟨rfl, hitem⟩
          · cases selected
      | _ => cases selected

end UndoContext

/-! ## Rows and indexes -/

section Keeps

variable [DecidableEq Key] {info : Nat} {index : TableIndex Row Key} {entry : Key × Nat}

theorem keepsEntry_append (items others : List UndoItem) :
    context.keepsEntry (items ++ others) info index entry =
      (context.keepsEntry items info index entry && context.keepsEntry others info index entry) :=
  List.all_append

theorem keepsEntry_insertTuple (table startRow count : Nat) :
    context.keepsEntry [.insertTuple table startRow count] info index entry =
      ((context.tables table).info != info ||
        TableIndex.keepsRows (context.rowAt (context.tables table).rowGroups)
          (List.range' startRow count) index entry) :=
  Bool.and_true _

theorem keepsEntry_of_mem (member : item ∈ done) :
    (context.keepsEntry done info index entry && context.keepsEntry [item] info index entry) =
      context.keepsEntry done info index entry := by
  cases kept : context.keepsEntry done info index entry with
  | false => rfl
  | true =>
      rw [Bool.true_and]
      refine List.all_eq_true.mpr fun other hother => ?_
      rw [List.mem_singleton.mp hother]
      exact List.all_eq_true.mp kept item member

/-- Only an append deletes entries of indexes. -/
theorem keepsEntry_other (other : ∀ table startRow count, item ≠ .insertTuple table startRow count) :
    context.keepsEntry [item] info index entry = true := by
  cases item with
  | insertTuple table startRow count => exact absurd rfl (other table startRow count)
  | _ => rfl

end Keeps

/--
Row groups and indexes once the appends in `done` are reverted, some indexes are removed, and
those of some infos are cleared.
-/
structure AppendsCut [DecidableEq Key] (context : UndoContext Row Key Value)
    (start : UndoState Row Key Value) (done : List UndoItem) (names : Nat → List String)
    (cleared : Nat → Bool) (state : UndoState Row Key Value) : Prop where
  rows : ∀ collection, state.rows collection = context.cutRows start done collection
  indexes : ∀ info, state.indexes info = TableIndex.changed (names info)
    (fun index entry => !cleared info && context.keepsEntry done info index entry)
    (start.indexes info)

namespace AppendsCut

variable [DecidableEq Key] {names : Nat → List String} {cleared : Nat → Bool}

/-- An entry that is no append. -/
theorem extend (cut : AppendsCut context start done names cleared state)
    (other : ∀ table startRow count, item ≠ .insertTuple table startRow count) :
    AppendsCut context start (done ++ [item]) names cleared state where
  rows := fun collection => by
    rw [cut.rows, UndoContext.cutRows, UndoContext.cutRows, UndoContext.startOf_append,
      UndoContext.startOf_other other, Option.or_none]
  indexes := fun info => by
    rw [cut.indexes]
    refine TableIndex.changed_congr fun index _ entry _ => ?_
    rw [keepsEntry_append, keepsEntry_other other, Bool.and_true]

section

variable (recorded : Recorded context start items)
include recorded

/-- The rows of a reverted append are gone, whether it was reverted before or not. -/
theorem rows_revertAppend (some_items : done ⊆ items)
    (cut : AppendsCut context start done names cleared state)
    (member : .insertTuple table startRow count ∈ items) (collection : Nat) :
    (state.revertAppend context table startRow count).rows collection =
      context.cutRows start (done ++ [.insertTuple table startRow count]) collection := by
  obtain ⟨positive, wellFormed, total⟩ := recorded.appended table startRow count member
  change Function.update state.rows (context.tables table).rowGroups
    ((state.rows (context.tables table).rowGroups).revertAppendInternal startRow) collection = _
  rw [UndoContext.cutRows, UndoContext.startOf_append, UndoContext.startOf_insertTuple]
  by_cases here : (context.tables table).rowGroups = collection
  · subst here
    rw [Function.update_self, if_pos rfl, cut.rows, UndoContext.cutRows]
    rcases UndoContext.startOf_of_mem recorded some_items member with fresh | ⟨again, -⟩
    · rw [fresh]
      rfl
    · rw [again]
      exact wellFormed.revertAppendInternal_idem (by omega)
  · rw [Function.update_of_ne (Ne.symm here), if_neg here, Option.or_none, cut.rows]
    rfl

/-- How many rows of a reverted append are still there. -/
theorem scanCount_eq (some_items : done ⊆ items)
    (cut : AppendsCut context start done names cleared state)
    (member : .insertTuple table startRow count ∈ items) :
    min count ((state.rows (context.tables table).rowGroups).totalRows - startRow) = count ∨
      (min count ((state.rows (context.tables table).rowGroups).totalRows - startRow) = 0 ∧
        .insertTuple table startRow count ∈ done) := by
  obtain ⟨-, -, total⟩ := recorded.appended table startRow count member
  rw [cut.rows, UndoContext.cutRows]
  rcases UndoContext.startOf_of_mem recorded some_items member with fresh | ⟨again, before⟩
  · left
    rw [fresh]
    dsimp only
    omega
  · right
    rw [again]
    refine ⟨?_, before⟩
    change min count (startRow - startRow) = 0
    omega

theorem indexes_revertAppend (some_items : done ⊆ items)
    (cut : AppendsCut context start done names cleared state)
    (member : .insertTuple table startRow count ∈ items) (info : Nat) :
    (state.revertAppend context table startRow count).indexes info = TableIndex.changed (names info)
      (fun index entry => !cleared info &&
        context.keepsEntry (done ++ [.insertTuple table startRow count]) info index entry)
      (start.indexes info) := by
  change Function.update state.indexes (context.tables table).info
    ((state.indexes (context.tables table).info).map fun index =>
      index.delete (context.rowAt (context.tables table).rowGroups) (List.range' startRow
        (min count ((state.rows (context.tables table).rowGroups).totalRows - startRow)))) info = _
  by_cases here : (context.tables table).info = info
  · subst here
    rw [Function.update_self]
    have deleted : ∀ rows, ((state.indexes (context.tables table).info).map fun index =>
        index.delete (context.rowAt (context.tables table).rowGroups) rows) =
        TableIndex.changed (names (context.tables table).info) (fun index entry =>
          (!cleared (context.tables table).info &&
            context.keepsEntry done (context.tables table).info index entry) &&
          TableIndex.keepsRows (context.rowAt (context.tables table).rowGroups) rows index entry)
        (start.indexes (context.tables table).info) := by
      intro rows
      rw [cut.indexes, ← TableIndex.map_changed
        (TableIndex.keepsRows (context.rowAt (context.tables table).rowGroups) rows) fun _ _ => rfl]
      exact List.map_congr_left fun index _ =>
        TableIndex.delete_eq (context.rowAt (context.tables table).rowGroups) rows
    rw [deleted]
    refine TableIndex.changed_congr fun index _ entry _ => ?_
    rw [keepsEntry_append, Bool.and_assoc]
    congr 1
    rcases scanCount_eq recorded some_items cut member with all | ⟨none, before⟩
    · rw [all, keepsEntry_insertTuple, bne_self_eq_false, Bool.false_or]
    · rw [keepsEntry_of_mem before, none, List.range'_zero, TableIndex.keepsRows, List.map_nil,
        List.contains_nil, Bool.not_false, Bool.or_true, Bool.and_true]
  · rw [Function.update_of_ne (Ne.symm here), cut.indexes]
    refine TableIndex.changed_congr fun index _ entry _ => ?_
    rw [keepsEntry_append, keepsEntry_insertTuple, bne_iff_ne.mpr here, Bool.true_or,
      Bool.and_true]

/-- A reverted append. -/
theorem revertAppend (some_items : done ⊆ items)
    (cut : AppendsCut context start done names cleared state)
    (member : .insertTuple table startRow count ∈ items) :
    AppendsCut context start (done ++ [.insertTuple table startRow count]) names cleared
      (state.revertAppend context table startRow count) where
  rows := rows_revertAppend recorded some_items cut member
  indexes := indexes_revertAppend recorded some_items cut member

end

/-- Indexes that are removed. -/
theorem removeIndexes (cut : AppendsCut context start done names cleared state)
    (removed : List (Nat × String)) :
    AppendsCut context start done
      (fun info => names info ++ UndoContext.namesOf removed info) cleared
      (removed.foldl (fun state index => state.removeIndex index.1 index.2) state) := by
  induction removed generalizing names state with
  | nil =>
      refine ⟨cut.rows, fun info => ?_⟩
      change state.indexes info = TableIndex.changed (names info ++ []) _ _
      rw [List.append_nil]
      exact cut.indexes info
  | cons index rest ih =>
      have first : AppendsCut context start done
          (fun info => names info ++ UndoContext.namesOf [index] info) cleared
          (state.removeIndex index.1 index.2) := by
        refine ⟨cut.rows, fun info => ?_⟩
        rw [UndoContext.namesOf_singleton]
        change Function.update state.indexes index.1 _ info = _
        by_cases here : index.1 = info
        · subst here
          rw [Function.update_self, if_pos rfl, cut.indexes, TableIndex.eraseP_changed]
        · rw [Function.update_of_ne (Ne.symm here), if_neg here, List.append_nil]
          exact cut.indexes info
      have more := ih first
      have names_eq : (fun info => names info ++ UndoContext.namesOf (index :: rest) info) =
          fun info => (names info ++ UndoContext.namesOf [index] info) ++
            UndoContext.namesOf rest info := by
        funext info
        rw [List.append_assoc, ← UndoContext.namesOf_append, List.singleton_append]
      rw [names_eq]
      exact more

end AppendsCut

/-! ## Version infos -/

/-- Rows that are cut off lie behind all rows that are read. -/
theorem revertedVersions_le (recorded : Recorded context start items) {info row : Nat}
    (member : .insertTuple table startRow count ∈ items)
    (reverted : (context.cutRows start done (context.tables table).rowGroups).revertedVersions
      startRow = some (info, row)) {collection : Nat} {kept : StoredRowGroup}
    (hkept : kept ∈ (context.cutRows start items collection).rowGroups)
    (same : kept.versionInfo = info) : kept.count ≤ row := by
  obtain ⟨rowGroup, hrowGroup, hinfo, rfl⟩ := StoredRows.mem_revertedVersions reverted
  have original : ∃ old ∈ (start.rows (context.tables table).rowGroups).rowGroups,
      rowGroup.start = old.start ∧ rowGroup.versionInfo = old.versionInfo := by
    rw [UndoContext.cutRows] at hrowGroup
    split at hrowGroup
    · exact ⟨rowGroup, hrowGroup, rfl, rfl⟩
    · exact StoredRows.mem_revertAppendInternal hrowGroup
  obtain ⟨old, hold, hstart, hversion⟩ := original
  rw [hstart]
  exact recorded.apart table startRow count member old hold collection kept hkept
    (same.trans (hinfo.symm.trans hversion))

end StatsRecommender
