import StatsRecommender.Execution.BatchSchedule

/-!
# Merging collections

What flushing mergers does to the collections, one merger after another, and what `Finalize` writes
to the local storage.  Places are items that know the index and the rows of a collection.
-/

namespace StatsRecommender

variable {Row Item : Type}

namespace OptimisticCollections

variable {storage : OptimisticCollections Row} {index other : Option Nat} {rows : List Row}

theorem get_some {place : Nat} :
    storage.get (some place) = .ok rows ↔ storage[place]? = some (some rows) := by
  rw [get]
  cases storage[place]? with
  | none => simp
  | some collection => cases collection <;> simp

theorem exists_of_get (held : storage.get index = .ok rows) :
    ∃ place, index = some place ∧ storage[place]? = some (some rows) := by
  cases index with
  | none => cases held
  | some place => exact ⟨place, rfl, get_some.mp held⟩

theorem get_set_ne {place : Nat} (different : index ≠ some place) (collection : Option (List Row)) :
    get (storage.set place collection) index = storage.get index := by
  cases index with
  | none => rfl
  | some position =>
      have apart : place ≠ position := fun same => different (congrArg some same.symm)
      rw [get, get, List.getElem?_set_ne apart]

theorem get_reset_ne (different : index ≠ other) : (storage.reset other).get index =
    storage.get index := by
  cases other with
  | none => rfl
  | some place => exact get_set_ne different none

theorem get_put_ne (different : index ≠ other) : (storage.put rows other).get index =
    storage.get index := by
  cases other with
  | none => rfl
  | some place => exact get_set_ne different (some rows)

theorem length_reset (storage : OptimisticCollections Row) (index : Option Nat) :
    (storage.reset index).length = storage.length := by
  cases index with
  | none => rfl
  | some place => exact List.length_set

theorem length_put (storage : OptimisticCollections Row) (rows : List Row) (index : Option Nat) :
    (storage.put rows index).length = storage.length := by
  cases index with
  | none => rfl
  | some place => exact List.length_set

theorem get_put_self {old : List Row} (held : storage.get index = .ok old) :
    (storage.put rows index).get index = .ok rows := by
  obtain ⟨place, rfl, stored⟩ := exists_of_get held
  obtain ⟨inside, _⟩ := List.getElem?_eq_some_iff.mp stored
  rw [get_some, put, List.getElem?_set_self inside]

end OptimisticCollections

open OptimisticCollections

variable {indexOf : Item → Option Nat} {rowsOf : Item → List Row}

/-- Scanning collections one after another and resetting them. -/
theorem foldlM_appendCollection (items : List Item) (storage : OptimisticCollections Row)
    (rows : List Row) (held : ∀ item ∈ items, storage.get (indexOf item) = .ok (rowsOf item))
    (distinct : (items.map indexOf).Nodup) :
    ∃ after : OptimisticCollections Row,
      (items.map indexOf).foldlM CollectionMerger.appendCollection (rows, storage) =
        .ok (rows ++ items.flatMap rowsOf, after) ∧
      (∀ index, index ∉ items.map indexOf → after.get index = storage.get index) ∧
      after.length = storage.length := by
  induction items generalizing storage rows with
  | nil => exact ⟨storage, by rw [List.flatMap_nil, List.append_nil]; rfl, fun _ _ => rfl, rfl⟩
  | cons item rest ih =>
      rw [List.map_cons, List.nodup_cons] at distinct
      obtain ⟨absent, distinct⟩ := distinct
      obtain ⟨after, taken, frame, length⟩ := ih (storage.reset (indexOf item)) (rows ++ rowsOf item)
        (fun other member => by
          rw [get_reset_ne, held other (List.mem_cons_of_mem _ member)]
          exact fun same => absent (same ▸ List.mem_map_of_mem member))
        distinct
      refine ⟨after, ?_, ?_, length.trans (length_reset ..)⟩
      · rw [List.map_cons, List.foldlM_cons, CollectionMerger.appendCollection,
          held item (List.mem_cons_self ..), List.flatMap_cons, ← List.append_assoc]
        exact taken
      · intro index outside
        rw [List.map_cons, List.mem_cons, not_or] at outside
        rw [frame index outside.2, get_reset_ne outside.1]

namespace CollectionMerger

/-- Flushing a merger gathers the rows of its collections in the first one. -/
theorem flush_spec (first : Item) (rest : List Item) (storage : OptimisticCollections Row)
    (batchType : RowGroupBatchType)
    (held : ∀ item ∈ first :: rest, storage.get (indexOf item) = .ok (rowsOf item))
    (distinct : ((first :: rest).map indexOf).Nodup) :
    ∃ after : OptimisticCollections Row,
      flush ⟨(first :: rest).map indexOf, batchType⟩ storage = .ok (indexOf first, after) ∧
      after.get (indexOf first) = .ok ((first :: rest).flatMap rowsOf) ∧
      (∀ index, index ∉ (first :: rest).map indexOf → after.get index = storage.get index) ∧
      after.length = storage.length := by
  rw [List.map_cons, List.nodup_cons] at distinct
  have here := held first (List.mem_cons_self ..)
  obtain ⟨after, taken, frame, length⟩ := foldlM_appendCollection rest storage (rowsOf first)
    (fun item member => held item (List.mem_cons_of_mem _ member)) distinct.2
  have still : after.get (indexOf first) = .ok (rowsOf first) := by
    rw [frame _ distinct.1, here]
  refine ⟨after.put ((first :: rest).flatMap rowsOf) (indexOf first), ?_, get_put_self still, ?_,
    (length_put ..).trans length⟩
  · rw [flush, List.map_cons]
    dsimp only [bind, Except.bind, pure, Except.pure]
    rw [here]
    dsimp only
    rw [taken]
    rfl
  · intro index outside
    rw [List.map_cons, List.mem_cons, not_or] at outside
    rw [get_put_ne outside.1, frame index outside.2]

/-- Collections that are not flushed can be added to a merger. -/
theorem foldlM_addCollection (entries : List RowGroupBatchEntry) (merger : CollectionMerger) :
    entries.foldlM (fun merger entry => merger.addCollection entry.collectionIndex .notFlushed)
      merger =
      .ok { merger with
        collectionIndexes :=
          merger.collectionIndexes ++ entries.map RowGroupBatchEntry.collectionIndex } := by
  induction entries generalizing merger with
  | nil => rw [List.map_nil, List.append_nil]; rfl
  | cons entry rest ih =>
      rw [List.foldlM_cons]
      refine (ih { merger with
        collectionIndexes := merger.collectionIndexes ++ [entry.collectionIndex] }).trans ?_
      rw [List.append_assoc]
      rfl

end CollectionMerger

namespace BatchInsertGlobalState

/-! ## The mergers of the final pass -/

/-- Neighbours that one merger takes. -/
structure MergeGroup (Item : Type) where
  type : RowGroupBatchType
  first : Item
  rest : List Item

namespace MergeGroup

def items (group : MergeGroup Item) : List Item := group.first :: group.rest

/-- The merger that takes a group. -/
def merger (indexOf : Item → Option Nat) (group : MergeGroup Item) : CollectionMerger :=
  ⟨group.items.map indexOf, group.type⟩

/-- A flushed collection is alone in its group, and no other group has one. -/
def Fits (typeOf : Item → RowGroupBatchType) (group : MergeGroup Item) : Prop :=
  (∀ item ∈ group.items, typeOf item = group.type) ∧ (group.type = .flushed → group.rest = [])

end MergeGroup

variable {entryOf : Item → RowGroupBatchEntry}

/-- The merger that small collections are added to, and the collections it has. -/
def currentMerger (entryOf : Item → RowGroupBatchEntry) : List Item → Option CollectionMerger
  | [] => none
  | pending => some ⟨pending.map fun item => (entryOf item).collectionIndex, .notFlushed⟩

theorem currentMerger_toList (pending : List Item)
    (small : ∀ item ∈ pending, (entryOf item).type = .notFlushed) :
    ∃ groups : List (MergeGroup Item), groups.flatMap MergeGroup.items = pending ∧
      (currentMerger entryOf pending).toList =
        groups.map (MergeGroup.merger fun item => (entryOf item).collectionIndex) ∧
      ∀ group ∈ groups, group.Fits fun item => (entryOf item).type := by
  cases pending with
  | nil => exact ⟨[], rfl, rfl, fun _ member => by cases member⟩
  | cons first rest =>
      refine ⟨[⟨.notFlushed, first, rest⟩], List.append_nil _, rfl, ?_⟩
      intro group member
      rw [List.mem_singleton.mp member]
      exact ⟨small, fun flushed => by cases flushed⟩

variable (entryOf) in
theorem foldlM_addToMergers (items pending : List Item) (mergers : List CollectionMerger)
    (small : ∀ item ∈ pending, (entryOf item).type = .notFlushed) :
    ∃ groups : List (MergeGroup Item), ∃ after : Mergers,
      (items.map entryOf).foldlM addToMergers (mergers, currentMerger entryOf pending) =
        .ok after ∧
      groups.flatMap MergeGroup.items = pending ++ items ∧
      after.1 ++ after.2.toList = mergers ++
        groups.map (MergeGroup.merger fun item => (entryOf item).collectionIndex) ∧
      ∀ group ∈ groups, group.Fits fun item => (entryOf item).type := by
  induction items generalizing pending mergers with
  | nil =>
      obtain ⟨groups, cover, current, fits⟩ := currentMerger_toList pending small
      refine ⟨groups, _, rfl, ?_, ?_, fits⟩
      · rw [cover, List.append_nil]
      · exact congrArg (mergers ++ ·) current
  | cons item rest ih =>
      rw [List.map_cons, List.foldlM_cons]
      cases type : (entryOf item).type with
      | notFlushed =>
          have small' : ∀ other ∈ pending ++ [item], (entryOf other).type = .notFlushed := by
            intro other member
            rcases List.mem_append.mp member with before | last
            · exact small other before
            · rw [List.mem_singleton.mp last, type]
          obtain ⟨groups, after, taken, cover, same, fits⟩ := ih (pending ++ [item]) mergers small'
          have added : addToMergers (mergers, currentMerger entryOf pending) (entryOf item) =
              .ok (mergers, currentMerger entryOf (pending ++ [item])) := by
            rw [addToMergers, type]
            cases pending with
            | nil => rfl
            | cons first others =>
                simp only [currentMerger, List.cons_append, List.map_cons, List.map_append]
                rfl
          refine ⟨groups, after, ?_, ?_, same, fits⟩
          · rw [added]
            exact taken
          · rw [cover, List.append_assoc]
            rfl
      | flushed =>
          obtain ⟨front, coverFront, current, fitsFront⟩ := currentMerger_toList pending small
          obtain ⟨groups, after, taken, cover, same, fits⟩ := ih []
            (mergers ++ (currentMerger entryOf pending).toList ++
              [⟨[(entryOf item).collectionIndex], .flushed⟩])
            (fun _ member => by cases member)
          have added : addToMergers (mergers, currentMerger entryOf pending) (entryOf item) =
              .ok (mergers ++ (currentMerger entryOf pending).toList ++
                [⟨[(entryOf item).collectionIndex], .flushed⟩], none) := by
            rw [addToMergers, type]
            rfl
          refine ⟨front ++ ⟨.flushed, item, []⟩ :: groups, after, ?_, ?_, ?_, ?_⟩
          · rw [added]
            exact taken
          · rw [List.flatMap_append, coverFront, List.flatMap_cons, cover]
            rfl
          · rw [same, current, List.map_append, List.append_assoc, List.append_assoc]
            rfl
          · intro group member
            rcases List.mem_append.mp member with before | later
            · exact fitsFront group before
            · rcases List.mem_cons.mp later with rfl | later
              · refine ⟨?_, fun _ => rfl⟩
                intro other only
                rw [List.mem_singleton.mp only]
                exact type
              · exact fits group later

variable (entryOf) in
/-- The final pass puts the collections into groups, in their order. -/
theorem finalMergers_spec (items : List Item) :
    ∃ groups : List (MergeGroup Item), groups.flatMap MergeGroup.items = items ∧
      finalMergers (items.map entryOf) =
        .ok (groups.map (MergeGroup.merger fun item => (entryOf item).collectionIndex)) ∧
      ∀ group ∈ groups, group.Fits fun item => (entryOf item).type := by
  obtain ⟨groups, after, taken, cover, same, fits⟩ :=
    foldlM_addToMergers entryOf items [] [] fun _ member => by cases member
  refine ⟨groups, cover, ?_, fits⟩
  rw [finalMergers]
  dsimp only [bind, Except.bind, pure, Except.pure]
  rw [show (([], none) : Mergers) = ([], currentMerger entryOf []) from rfl, taken]
  exact congrArg Except.ok same

/-! ## Writing to the local storage -/

/-- Flushing the mergers of groups, one after another. -/
theorem foldlM_flushNext (groups : List (MergeGroup Item)) (finals : List (Option Nat))
    (storage : OptimisticCollections Row)
    (held : ∀ item ∈ groups.flatMap MergeGroup.items,
      storage.get (indexOf item) = .ok (rowsOf item))
    (distinct : ((groups.flatMap MergeGroup.items).map indexOf).Nodup) :
    ∃ after : OptimisticCollections Row,
      (groups.map (MergeGroup.merger indexOf)).foldlM flushNext (finals, storage) =
        .ok (finals ++ groups.map (fun group => indexOf group.first), after) ∧
      (∀ group ∈ groups, after.get (indexOf group.first) = .ok (group.items.flatMap rowsOf)) ∧
      ∀ index, index ∉ (groups.flatMap MergeGroup.items).map indexOf →
        after.get index = storage.get index := by
  induction groups generalizing finals storage with
  | nil =>
      refine ⟨storage, ?_, (fun _ member => by cases member), fun _ _ => rfl⟩
      rw [List.map_nil, List.map_nil, List.append_nil]
      rfl
  | cons group rest ih =>
      rw [List.flatMap_cons, List.map_append, List.nodup_append] at distinct
      obtain ⟨here, there, apart⟩ := distinct
      have held_group : ∀ item ∈ group.first :: group.rest,
          storage.get (indexOf item) = .ok (rowsOf item) := fun item member =>
        held item (List.mem_flatMap.mpr ⟨group, List.mem_cons_self .., member⟩)
      obtain ⟨flushed, taken, gathered, frame, _⟩ :=
        CollectionMerger.flush_spec group.first group.rest storage group.type held_group here
      have outside : ∀ item ∈ rest.flatMap MergeGroup.items,
          indexOf item ∉ (group.first :: group.rest).map indexOf := fun item member inside =>
        apart _ inside _ (List.mem_map_of_mem member) rfl
      obtain ⟨after, all, gathered_rest, frame_rest⟩ :=
        ih (finals ++ [indexOf group.first]) flushed
          (fun item member => by
            rw [frame _ (outside item member)]
            obtain ⟨other, there, inside⟩ := List.mem_flatMap.mp member
            exact held item (List.mem_flatMap.mpr ⟨other, List.mem_cons_of_mem _ there, inside⟩))
          there
      have first_apart : indexOf group.first ∉ (rest.flatMap MergeGroup.items).map indexOf :=
        fun inside => apart _ (List.mem_map_of_mem (List.mem_cons_self ..)) _ inside rfl
      refine ⟨after, ?_, ?_, ?_⟩
      · rw [List.map_cons, List.foldlM_cons, flushNext, MergeGroup.merger, MergeGroup.items, taken,
          List.map_cons]
        refine all.trans ?_
        rw [List.append_assoc]
        rfl
      · intro other member
        rcases List.mem_cons.mp member with rfl | later
        · rw [frame_rest _ first_apart]
          exact gathered
        · exact gathered_rest other later
      · intro index absent
        rw [List.flatMap_cons, List.map_append, List.mem_append, not_or] at absent
        rw [frame_rest index absent.2, frame index absent.1]

theorem sublist_first (groups : List (MergeGroup Item)) :
    (groups.map MergeGroup.first).Sublist (groups.flatMap MergeGroup.items) := by
  induction groups with
  | nil => exact List.Sublist.slnil
  | cons group rest ih => exact (ih.trans (List.sublist_append_right _ _)).cons_cons _

/-- Small collections are appended to the local storage as they are merged. -/
theorem foldlM_insertEntry (items : List Item) (inserted : List Row × OptimisticCollections Row)
    (small : ∀ item ∈ items, (entryOf item).type = .notFlushed) :
    (items.map entryOf).foldlM insertEntry inserted =
      (items.map fun item => (entryOf item).collectionIndex).foldlM
        CollectionMerger.appendCollection inserted := by
  induction items generalizing inserted with
  | nil => rfl
  | cons item rest ih =>
      rw [List.map_cons, List.map_cons, List.foldlM_cons, List.foldlM_cons, insertEntry,
        if_neg (by simp [small item (List.mem_cons_self ..)])]
      exact bind_congr fun next =>
        ih next fun other member => small other (List.mem_cons_of_mem _ member)

variable {state : BatchInsertGlobalState Row}

/-- `Finalize` writes the rows of all collections, in the order of the collections. -/
theorem finalize_spec (items : List Item) (rowsOf : Item → List Row)
    (entries : state.collections = items.map entryOf)
    (held : ∀ item ∈ items,
      state.optimisticCollections.get (entryOf item).collectionIndex = .ok (rowsOf item))
    (distinct : (items.map fun item => (entryOf item).collectionIndex).Nodup)
    (large : ∀ item ∈ items, (entryOf item).type = .flushed → state.insertsLarge = true) :
    ∃ groups : List (MergeGroup Item), ∃ after : OptimisticCollections Row,
      state.finalize = .ok
        (groups.map (MergeGroup.merger fun item => (entryOf item).collectionIndex),
          items.flatMap rowsOf, { state with collections := [], optimisticCollections := after }) ∧
      (groups.flatMap MergeGroup.items).Sublist items ∧
      (∀ group ∈ groups, group.items <:+: items) ∧
      ∀ group ∈ groups, group.Fits fun item => (entryOf item).type := by
  rw [finalize]
  cases large_case : state.insertsLarge with
  | true =>
      rw [if_pos rfl]
      obtain ⟨groups, cover, mergers, fits⟩ := finalMergers_spec entryOf items
      rw [← cover] at held distinct
      obtain ⟨flushed, flush, gathered, _⟩ :=
        foldlM_flushNext groups [] state.optimisticCollections held distinct
      have heads : (groups.map MergeGroup.first).Sublist items := by
        rw [← cover]
        exact sublist_first groups
      have inserted := @foldlM_appendCollection Row (MergeGroup Item)
        (fun group => (entryOf group.first).collectionIndex)
        (fun group => group.items.flatMap rowsOf) groups flushed [] gathered
        (by
          rw [cover] at distinct
          have nodup := distinct.sublist (heads.map fun item => (entryOf item).collectionIndex)
          rwa [List.map_map] at nodup)
      obtain ⟨after, insert, _⟩ := inserted
      have insert : (groups.map fun group => (entryOf group.first).collectionIndex).foldlM
          insertCollection ([], flushed) =
          .ok ([] ++ groups.flatMap fun group => group.items.flatMap rowsOf, after) := insert
      refine ⟨groups, after, ?_, ?_, ?_, fits⟩
      · rw [entries]
        dsimp only [bind, Except.bind, pure, Except.pure]
        rw [mergers]
        dsimp only
        rw [flush]
        dsimp only
        rw [List.nil_append, insert, List.nil_append, ← cover, List.flatMap_assoc]
      · exact cover ▸ List.Sublist.refl _
      · intro group member
        obtain ⟨front, back, rfl⟩ := List.append_of_mem member
        rw [← cover, List.flatMap_append, List.flatMap_cons]
        exact ⟨front.flatMap MergeGroup.items, back.flatMap MergeGroup.items, by
          rw [List.append_assoc]⟩
  | false =>
      have small : ∀ item ∈ items, (entryOf item).type = .notFlushed := by
        intro item member
        cases type : (entryOf item).type with
        | notFlushed => rfl
        | flushed =>
            rw [large item member type] at large_case
            cases large_case
      obtain ⟨after, insert, _⟩ :=
        foldlM_appendCollection items state.optimisticCollections [] held distinct
      refine ⟨[], after, ?_, List.nil_sublist _, (fun _ member => by cases member),
        fun _ member => by cases member⟩
      rw [if_neg (by simp), entries]
      dsimp only [bind, Except.bind, pure, Except.pure]
      rw [foldlM_insertEntry items _ small, insert, List.nil_append, List.map_nil]

/-- A loop does not come past an element that has an error. -/
theorem foldlM_ne_ok {State Element : Type} {step : State → Element → Except String State}
    {elements : List Element} {element : Element} (member : element ∈ elements)
    (fails : ∀ state next, step state element ≠ .ok next) (state result : State) :
    elements.foldlM step state ≠ .ok result := by
  induction elements generalizing state with
  | nil => cases member
  | cons first rest ih =>
      intro taken
      rw [List.foldlM_cons] at taken
      cases here : step state first with
      | error message =>
          rw [here] at taken
          cases taken
      | ok next =>
          rw [here] at taken
          rcases List.mem_cons.mp member with rfl | later
          · exact fails state next here
          · exact ih later next taken

/-- `Finalize` has an error when a collection is still to be merged. -/
theorem finalize_ne_ok {entry : RowGroupBatchEntry} (member : entry ∈ state.collections)
    (type : entry.type = .flushed) (waits : entry.collectionIndex = none)
    (result : List CollectionMerger × List Row × BatchInsertGlobalState Row) :
    state.finalize ≠ .ok result := by
  intro taken
  rw [finalize] at taken
  split at taken
  · obtain ⟨groups, cover, mergers, fits⟩ := finalMergers_spec id state.collections
    rw [List.map_id] at mergers
    rw [← cover] at member
    obtain ⟨group, there, inside⟩ := List.mem_flatMap.mp member
    obtain ⟨types, alone⟩ := fits group there
    have flushed : group.type = .flushed := (types entry inside).symm.trans type
    rw [MergeGroup.items, alone flushed] at inside
    have first : entry = group.first := List.mem_singleton.mp inside
    have fails : ∀ finals next : List (Option Nat) × OptimisticCollections Row,
        flushNext finals (group.merger fun item => (id item).collectionIndex) ≠ .ok next := by
      intro finals next flush
      rw [flushNext, MergeGroup.merger, MergeGroup.items, alone flushed, ← first] at flush
      rw [List.map_cons, id, waits] at flush
      cases flush
    dsimp only [bind, Except.bind, pure, Except.pure] at taken
    rw [mergers] at taken
    dsimp only at taken
    split at taken
    · cases taken
    · rename_i flush
      exact foldlM_ne_ok (List.mem_map_of_mem there) fails _ _ flush
  · dsimp only [bind, Except.bind, pure, Except.pure] at taken
    split at taken
    · cases taken
    · rename_i insert
      refine foldlM_ne_ok member ?_ _ _ insert
      intro inserted next step
      rw [insertEntry, if_pos (by simp [type])] at step
      cases step

end BatchInsertGlobalState

end StatsRecommender
