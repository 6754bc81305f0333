import StatsRecommender.Library.VersionChain
import StatsRecommender.Storage.UpdateSegment

/-!
# Merging updates

What the loops over the rows of updates come to: which rows an entry has after a merge or a
rollback, and which value each of them.
-/

namespace StatsRecommender

open SortedEntries

variable {T : Type} {entries : List (Nat × T)} {info root : ChainedUpdate T} {row : Nat}
  {chain : List (ChainedUpdate T)} {entry : Nat × T} {updates : VectorUpdates T}

/-! ## Reading -/

namespace ChainedUpdate

/-- The rows are in order and in the vector. -/
structure Shaped (info : ChainedUpdate T) : Prop where
  sorted : Sorted info.entries
  inside : ∀ entry ∈ info.entries, entry.1 < standardVectorSize

/-- `TemplatedFetchRow` finds the value of a row. -/
theorem fetchEntry_eq (sorted : Sorted entries) (row : Nat) (value : T) :
    fetchEntry row value entries = (lookup row entries).getD value := by
  induction entries with
  | nil => rfl
  | cons entry entries ih =>
      rw [fetchEntry, lookup_cons]
      split
      · rfl
      · split
        · rename_i less
          have absent : lookup row entries = none :=
            lookup_of_lt fun later member => less.trans (sorted.head member)
          rw [absent]
          rfl
        · exact ih sorted.tail

/-- The rows of an update of all rows are all rows in order. -/
theorem Shaped.rows_eq_range (shaped : info.Shaped)
    (full : info.entries.length = standardVectorSize) :
    info.entries.map Prod.fst = List.range standardVectorSize := by
  have sorted : (info.entries.map Prod.fst).Pairwise (· < ·) := List.pairwise_map.mpr shaped.sorted
  have nodup : (info.entries.map Prod.fst).Nodup := sorted.imp fun less => less.ne
  have subset : info.entries.map Prod.fst ⊆ List.range standardVectorSize := by
    intro row member
    obtain ⟨entry, there, rfl⟩ := List.mem_map.mp member
    exact List.mem_range.mpr (shaped.inside entry there)
  have perm : (info.entries.map Prod.fst).Perm (List.range standardVectorSize) := by
    refine (List.subperm_of_subset nodup subset).perm_of_length_le ?_
    rw [List.length_range, List.length_map, full]
  exact perm.eq_of_pairwise (fun _ _ _ _ less greater => absurd less (lt_asymm greater)) sorted
    List.pairwise_lt_range

theorem foldl_entries_eq (sorted : Sorted entries) (result : Nat → T) (row : Nat) :
    entries.foldl (fun result entry => fun row => if row = entry.1 then entry.2 else result row)
      result row = (lookup row entries).getD (result row) := by
  induction entries generalizing result with
  | nil => rfl
  | cons entry entries ih =>
      rw [List.foldl_cons, ih sorted.tail, lookup_cons]
      by_cases same : entry.1 = row
      · have absent : lookup row entries = none := by
          refine lookup_of_lt fun later member => ?_
          rw [← same]
          exact sorted.head member
        rw [absent, if_pos same, Option.getD_none, if_pos same.symm, Option.getD_some]
      · rw [if_neg same, if_neg (Ne.symm same)]

/-- `MergeUpdateInfo` writes the values of the rows, also where it copies all of them. -/
theorem Shaped.mergeUpdateInfo_eq (shaped : info.Shaped) (result : Nat → T) (row : Nat) :
    info.mergeUpdateInfo result row = (lookup row info.entries).getD (result row) := by
  rw [mergeUpdateInfo]
  split
  · rename_i full
    change ((info.entries[row]?).map Prod.snd).getD (result row) = _
    have rows := shaped.rows_eq_range full
    have at_place : ∀ place (below : place < info.entries.length),
        (info.entries[place]).1 = place := by
      intro place below
      have here := congrArg (fun rows => rows[place]?) rows
      simp only [List.getElem?_map, List.getElem?_eq_getElem below] at here
      rw [List.getElem?_eq_getElem (by simpa [← full] using below), Option.map_some,
        Option.some.injEq, List.getElem_range] at here
      exact here
    by_cases below : row < info.entries.length
    · have member : (row, (info.entries[row]).2) ∈ info.entries := by
        have same : (row, (info.entries[row]).2) = info.entries[row] :=
          Prod.ext (at_place row below).symm rfl
        rw [same]
        exact List.getElem_mem below
      rw [List.getElem?_eq_getElem below, lookup_of_mem shaped.sorted member]
      rfl
    · have absent : lookup row info.entries = none := by
        refine lookup_eq_none.mpr fun entry member same => ?_
        have inside := shaped.inside entry member
        omega
      rw [List.getElem?_eq_none (by omega), absent]
      rfl
  · exact foldl_entries_eq shaped.sorted result row

end ChainedUpdate

namespace VectorUpdates

/-- The versions of a row in the chain, with the value it had before each of them. -/
def rowChain (row : Nat) (chain : List (ChainedUpdate T)) : List (Nat × T) :=
  chain.filterMap fun info => (lookup row info.entries).map fun old => (info.versionNumber, old)

theorem rowChain_cons (row : Nat) (info : ChainedUpdate T) (chain : List (ChainedUpdate T)) :
    rowChain row (info :: chain) =
      match lookup row info.entries with
      | none => rowChain row chain
      | some old => (info.versionNumber, old) :: rowChain row chain := by
  rw [rowChain, List.filterMap_cons]
  cases lookup row info.entries with
  | none => rfl
  | some old => rfl

theorem rowChain_cons_mk (row versionNumber : Nat) (entries : List (Nat × T))
    (chain : List (ChainedUpdate T)) :
    rowChain row (⟨versionNumber, entries⟩ :: chain) =
      match lookup row entries with
      | none => rowChain row chain
      | some old => (versionNumber, old) :: rowChain row chain := rowChain_cons row _ chain

theorem mem_rowChain :
    entry ∈ rowChain row chain ↔
      ∃ info ∈ chain, info.versionNumber = entry.1 ∧ lookup row info.entries = some entry.2 := by
  constructor
  · intro member
    obtain ⟨info, there, found⟩ := List.mem_filterMap.mp member
    obtain ⟨old, value, rfl⟩ := Option.map_eq_some_iff.mp found
    exact ⟨info, there, rfl, value⟩
  · rintro ⟨info, there, same, found⟩
    refine List.mem_filterMap.mpr ⟨info, there, ?_⟩
    rw [found, Option.map_some, same]

theorem updatesForTransaction_of_root (is_root : updates.root = some root)
    (transaction : TransactionData) :
    updates.updatesForTransaction transaction =
      (root :: updates.chain).filter fun info => info.appliesToTransaction transaction := by
  rw [updatesForTransaction, is_root]

/-- Whether a version is taken back for the transaction. -/
def applies (transaction : TransactionData) (versionNumber : Nat) : Bool :=
  decide (transaction.startTime < versionNumber) && versionNumber != transaction.transactionId

/-- The versions of the chain are taken back from a row. -/
theorem foldl_mergeUpdateInfo (shaped : ∀ info ∈ chain, info.Shaped) (transaction : TransactionData)
    (result : Nat → T) (row : Nat) :
    (chain.filter fun info => info.appliesToTransaction transaction).foldl
        (fun result info => info.mergeUpdateInfo result) result row =
      VersionChain.takeBack (applies transaction) (result row) (rowChain row chain) := by
  induction chain generalizing result with
  | nil => rfl
  | cons info chain ih =>
      have first : info.Shaped := shaped info List.mem_cons_self
      have rest := ih fun later member => shaped later (List.mem_cons_of_mem _ member)
      rw [List.filter_cons, rowChain_cons]
      cases applied : applies transaction info.versionNumber with
      | true =>
          rw [ChainedUpdate.appliesToTransaction, ← applies, applied, if_pos rfl, List.foldl_cons,
            rest, first.mergeUpdateInfo_eq]
          cases lookup row info.entries with
          | none => rfl
          | some old =>
              rw [VersionChain.takeBack, VersionChain.takeBack, List.foldl_cons, applied]
              rfl
      | false =>
          rw [ChainedUpdate.appliesToTransaction, ← applies, applied, if_neg Bool.false_ne_true,
            rest]
          cases lookup row info.entries with
          | none => rfl
          | some old =>
              rw [VersionChain.takeBack, VersionChain.takeBack, List.foldl_cons, applied]
              rfl

/-- Fetching one row takes back what fetching all of them does. -/
theorem foldl_fetchEntry {infos : List (ChainedUpdate T)} (shaped : ∀ info ∈ infos, info.Shaped)
    (result : Nat → T) (row : Nat) :
    infos.foldl (fun value info => ChainedUpdate.fetchEntry row value info.entries) (result row) =
      infos.foldl (fun result info => info.mergeUpdateInfo result) result row := by
  induction infos generalizing result with
  | nil => rfl
  | cons info infos ih =>
      have first : info.Shaped := shaped info List.mem_cons_self
      rw [List.foldl_cons, List.foldl_cons, ChainedUpdate.fetchEntry_eq first.sorted,
        ← first.mergeUpdateInfo_eq]
      exact ih (fun later member => shaped later (List.mem_cons_of_mem _ member)) _

/-! ## The values in front of an update -/

theorem initializeUpdate_sorted (base : BaseVector T) {rows : List (Nat × T)}
    (sorted : Sorted rows) :
    Sorted (initializeUpdate base rows) := List.pairwise_map.mpr sorted

theorem lookup_initializeUpdate (base : BaseVector T) (rows : List (Nat × T)) (row : Nat) :
    lookup row (initializeUpdate base rows) =
      (lookup row rows).map fun _ =>
        if base.valid row then base.data row else base.uninitialized row := by
  induction rows with
  | nil => rfl
  | cons entry rows ih =>
      rw [initializeUpdate, List.map_cons, lookup_cons, lookup_cons, ← initializeUpdate, ih]
      by_cases same : entry.1 = row
      · rw [if_pos same, if_pos same, same]
        rfl
      · rw [if_neg same, if_neg same]

/-- The value of a row that an update finds. -/
def oldValue (base : BaseVector T) (baseInfo : List (Nat × T)) (row : Nat) : T :=
  (lookup row baseInfo).getD (base.data row)

/-- What a transaction keeps: old values it has, and those of the rows it updates. -/
structure KeepsOld (base : BaseVector T) (ids : List Nat)
    (updateInfo baseInfo kept : List (Nat × T)) :
    Prop where
  sorted : Sorted kept
  lookup : ∀ row, lookup row kept =
    (lookup row updateInfo).or (if row ∈ ids then some (oldValue base baseInfo row) else none)

theorem KeepsOld.greater {base : BaseVector T} {ids : List Nat}
    {updateInfo baseInfo kept : List (Nat × T)} (keeps : KeepsOld base ids updateInfo baseInfo kept)
    (greater : ∀ entry ∈ updateInfo, row < entry.1) (greater_ids : ∀ id ∈ ids, row < id) :
    ∀ entry ∈ kept, row < entry.1 := by
  intro entry member
  have found := lookup_of_mem keeps.sorted member
  rw [keeps.lookup] at found
  rcases Option.or_eq_some_iff.mp found with here | ⟨-, there⟩
  · exact greater _ (mem_of_lookup here)
  · split at there
    · rename_i updated
      exact greater_ids _ updated
    · cases there

/-- The value that is kept for a row, between the old values in front of it and those behind. -/
theorem KeepsOld.cons {base : BaseVector T} {id : Nat} {ids : List Nat} {value : T}
    {updateInfo behind baseInfo baseInfo' kept : List (Nat × T)} (sorted : Sorted updateInfo)
    (sorted_ids : (id :: ids).Pairwise (· < ·)) (greater : ∀ entry ∈ behind, id < entry.1)
    (same_behind : ∀ row, id < row →
      SortedEntries.lookup row behind = SortedEntries.lookup row updateInfo)
    (same_base : ∀ row, id < row →
      SortedEntries.lookup row baseInfo' = SortedEntries.lookup row baseInfo)
    (at_id : some value =
      (SortedEntries.lookup id updateInfo).or (some (oldValue base baseInfo id)))
    (keeps : KeepsOld base ids behind baseInfo' kept) :
    KeepsOld base (id :: ids) updateInfo baseInfo
      (before id updateInfo ++ (id, value) :: kept) := by
  obtain ⟨least, -⟩ := List.pairwise_cons.mp sorted_ids
  have kept_greater := keeps.greater greater least
  have from_id : ∀ entry ∈ (id, value) :: kept, id ≤ entry.1 := by
    intro entry member
    rcases List.mem_cons.mp member with rfl | later
    · exact le_rfl
    · exact (kept_greater entry later).le
  refine ⟨sorted.before_append (keeps.sorted.cons kept_greater) from_id, fun row => ?_⟩
  rw [sorted.lookup_before_append from_id, lookup_cons]
  rcases lt_trichotomy row id with less | rfl | behind_id
  · have absent : row ∉ id :: ids := by
      intro member
      rcases List.mem_cons.mp member with rfl | later
      · exact lt_irrefl _ less
      · exact lt_asymm less (least row later)
    rw [if_pos less, if_neg absent, Option.or_none]
  · rw [if_neg (lt_irrefl row), if_pos rfl, if_pos List.mem_cons_self, at_id]
  · have same_mem : (row ∈ id :: ids) = (row ∈ ids) := by
      simp [behind_id.ne']
    rw [if_neg (lt_asymm behind_id), if_neg behind_id.ne, keeps.lookup, same_behind row behind_id,
      oldValue, same_base row behind_id, ← oldValue]
    simp only [same_mem]

/-- The first loop of a merge keeps the oldest values. -/
theorem mergeOldValues_keeps (base : BaseVector T) {ids : List Nat}
    {updateInfo baseInfo : List (Nat × T)} (sorted_ids : ids.Pairwise (· < ·))
    (sorted : Sorted updateInfo) (sorted_base : Sorted baseInfo) :
    KeepsOld base ids updateInfo baseInfo (mergeOldValues base ids updateInfo baseInfo) := by
  induction ids generalizing updateInfo baseInfo with
  | nil =>
      refine ⟨sorted, fun row => ?_⟩
      rw [mergeOldValues, if_neg List.not_mem_nil, Option.or_none]
  | cons id ids ih =>
      obtain ⟨-, sorted_rest⟩ := List.pairwise_cons.mp sorted_ids
      rw [mergeOldValues]
      simp only [sorted.first_startingAt]
      cases found : lookup id updateInfo with
      | some value =>
          obtain ⟨behind, rest, sorted_behind, greater⟩ := sorted.startingAt_of_some found
          have same_behind : ∀ row, id < row → lookup row behind = lookup row updateInfo := by
            intro row less
            rw [← lookup_startingAt updateInfo less.le, rest, lookup_cons, if_neg less.ne]
          rw [rest]
          refine KeepsOld.cons sorted sorted_ids greater same_behind (fun _ _ => rfl) ?_
            (ih sorted_rest sorted_behind sorted_base)
          rw [found, Option.some_or]
      | none =>
          refine KeepsOld.cons sorted sorted_ids (sorted.lt_of_none found)
            (fun row less => lookup_startingAt updateInfo less.le)
            (fun row less => lookup_startingAt baseInfo less.le) ?_
            (ih sorted_rest (sorted.startingAt id) (sorted_base.startingAt id))
          rw [found, Option.none_or, sorted_base.first_startingAt, oldValue]

/-! ## Rolling back -/

theorem rollbackValues_merged {rollback baseInfo : List (Nat × T)} (sorted : Sorted rollback)
    (sorted_base : Sorted baseInfo) (there : ∀ entry ∈ rollback, lookup entry.1 baseInfo ≠ none) :
    Merged rollback baseInfo (rollbackValues rollback baseInfo) := by
  induction rollback generalizing baseInfo with
  | nil => exact ⟨sorted_base, fun row => Option.none_or.symm⟩
  | cons entry rollback ih =>
      obtain ⟨value, found⟩ := Option.ne_none_iff_exists'.mp (there entry List.mem_cons_self)
      obtain ⟨behind, rest, sorted_behind, greater⟩ := sorted_base.startingAt_of_some found
      have same_behind : ∀ row, entry.1 < row → lookup row behind = lookup row baseInfo := by
        intro row less
        rw [← lookup_startingAt baseInfo less.le, rest, lookup_cons, if_neg less.ne]
      have from_entry : Sorted ((entry.1, entry.2) :: behind) := sorted_behind.cons greater
      have merged := ih sorted.tail from_entry fun other member => by
        have less := sorted.head member
        rw [lookup_cons, if_neg less.ne, same_behind _ less]
        exact there other (List.mem_cons_of_mem _ member)
      rw [rollbackValues, rest]
      change Merged (entry :: rollback) baseInfo (before entry.1 baseInfo ++
        rollbackValues rollback ((entry.1, entry.2) :: behind))
      have least : ∀ other ∈ rollbackValues rollback ((entry.1, entry.2) :: behind),
          entry.1 ≤ other.1 := by
        intro other member
        have place := lookup_of_mem merged.sorted member
        rw [merged.lookup] at place
        rcases Option.or_eq_some_iff.mp place with here | ⟨-, here⟩
        · exact (sorted.head (mem_of_lookup here)).le
        · rcases List.mem_cons.mp (mem_of_lookup here) with same | later
          · exact (congrArg Prod.fst same).ge
          · exact (greater _ later).le
      refine ⟨sorted_base.before_append merged.sorted least, fun row => ?_⟩
      rw [sorted_base.lookup_before_append least, lookup_cons]
      rcases lt_trichotomy row entry.1 with less | rfl | behind_row
      · have absent : lookup row rollback = none :=
          lookup_of_lt fun other member => less.trans (sorted.head member)
        rw [if_pos less, if_neg less.ne', absent, Option.none_or]
      · have absent : lookup entry.1 rollback = none :=
          lookup_of_lt fun other member => sorted.head member
        rw [if_neg (lt_irrefl _), if_pos rfl, merged.lookup, absent, Option.none_or, lookup_cons,
          if_pos rfl, Option.some_or]
      · rw [if_neg (lt_asymm behind_row), if_neg behind_row.ne, merged.lookup, lookup_cons,
          if_neg behind_row.ne, same_behind row behind_row]

/-! ## Preparing an update -/

/-- The rows come in order, they are some of those given, and each of those is among them. -/
structure Sorts (given prepared : List (Nat × T)) : Prop where
  sorted : Sorted prepared
  subset : ∀ entry ∈ prepared, entry ∈ given
  covers : ∀ entry ∈ given, ∃ value, (entry.1, value) ∈ prepared

theorem isSorted_sound {given : List (Nat × T)} (is_sorted : isSorted given = true) :
    Sorted given := by
  induction given with
  | nil => exact List.Pairwise.nil
  | cons first rest ih =>
      cases rest with
      | nil => exact List.pairwise_singleton _ _
      | cons second rest =>
          rw [isSorted, Bool.and_eq_true, decide_eq_true_eq] at is_sorted
          have sorted := ih is_sorted.2
          refine sorted.cons fun other member => ?_
          rcases List.mem_cons.mp member with rfl | later
          · exact is_sorted.1
          · exact is_sorted.1.trans (sorted.head later)

/-- Rows in order lose their duplicates, and those of the row in front of them. -/
theorem eliminateDuplicates_sorts {previous : Nat}
    (ordered : entries.Pairwise fun first second => first.1 ≤ second.1)
    (least : ∀ entry ∈ entries, previous ≤ entry.1) :
    Sorted (eliminateDuplicates previous entries) ∧
      (∀ entry ∈ eliminateDuplicates previous entries, entry ∈ entries ∧ previous < entry.1) ∧
      ∀ entry ∈ entries, entry.1 = previous ∨
        ∃ value, (entry.1, value) ∈ eliminateDuplicates previous entries := by
  induction entries generalizing previous with
  | nil => simp [eliminateDuplicates, Sorted]
  | cons entry entries ih =>
      obtain ⟨first, ordered⟩ := List.pairwise_cons.mp ordered
      obtain ⟨sorted, subset, covers⟩ := ih ordered first
      have first_le : previous ≤ entry.1 := least entry List.mem_cons_self
      rw [eliminateDuplicates]
      split
      · rename_i differ
        have less : previous < entry.1 := lt_of_le_of_ne first_le differ
        refine ⟨sorted.cons fun other member => (subset other member).2, fun other member => ?_,
          fun other member => ?_⟩
        · rcases List.mem_cons.mp member with rfl | later
          · exact ⟨List.mem_cons_self, less⟩
          · obtain ⟨there, greater⟩ := subset other later
            exact ⟨List.mem_cons_of_mem _ there, less.trans greater⟩
        · right
          rcases List.mem_cons.mp member with rfl | later
          · exact ⟨other.2, List.mem_cons_self⟩
          · rcases covers other later with same | ⟨value, there⟩
            · exact ⟨entry.2, by rw [same]; exact List.mem_cons_self⟩
            · exact ⟨value, List.mem_cons_of_mem _ there⟩
      · rename_i same
        have same : previous = entry.1 := not_not.mp same
        refine ⟨sorted, fun other member => ?_, fun other member => ?_⟩
        · obtain ⟨there, greater⟩ := subset other member
          exact ⟨List.mem_cons_of_mem _ there, same ▸ greater⟩
        · rcases List.mem_cons.mp member with rfl | later
          · exact .inl same.symm
          · rw [same]
            exact covers other later

/-- `SortSelectionVector` sorts the rows and takes each of them once. -/
theorem sortSelectionVector_sorts (sort : RowSort T) (given : List (Nat × T)) :
    Sorts given (sortSelectionVector sort given) := by
  rw [sortSelectionVector]
  split
  · rename_i is_sorted
    exact ⟨isSorted_sound is_sorted, fun entry member => member,
      fun entry member => ⟨entry.2, member⟩⟩
  · have perm := sort.perm given
    have ordered := sort.sorted given
    cases sorted_given : sort.sort given with
    | nil =>
        rw [sorted_given] at perm
        cases List.nil_perm.mp perm
        exact ⟨List.Pairwise.nil, fun entry member => member, fun entry member => by cases member⟩
    | cons first rest =>
        rw [sorted_given] at perm ordered
        obtain ⟨least, ordered⟩ := List.pairwise_cons.mp ordered
        obtain ⟨sorted, subset, covers⟩ := eliminateDuplicates_sorts ordered least
        refine ⟨sorted.cons fun other member => (subset other member).2, fun entry member => ?_,
          fun entry member => ?_⟩
        · rcases List.mem_cons.mp member with rfl | later
          · exact perm.subset List.mem_cons_self
          · exact perm.subset (List.mem_cons_of_mem _ (subset entry later).1)
        · rcases List.mem_cons.mp (perm.symm.subset member) with rfl | later
          · exact ⟨entry.2, List.mem_cons_self⟩
          · rcases covers entry later with same | ⟨value, there⟩
            · exact ⟨first.2, by rw [same]; exact List.mem_cons_self⟩
            · exact ⟨value, List.mem_cons_of_mem _ there⟩

theorem mem_filterNulls {given : List (Nat × Option T)} :
    entry ∈ filterNulls given ↔ (entry.1, some entry.2) ∈ given := by
  constructor
  · intro member
    obtain ⟨original, there, found⟩ := List.mem_filterMap.mp member
    obtain ⟨value, is_value, rfl⟩ := Option.map_eq_some_iff.mp found
    rw [← is_value]
    exact there
  · intro member
    exact List.mem_filterMap.mpr ⟨_, member, rfl⟩

/-- The updates that are made come in the order of their rows; each of them was given. -/
theorem effectiveUpdates_sorted [DecidableEq T] (sort : RowSort T) (base : BaseVector T)
    (updates : VectorUpdates T) (given : List (Nat × Option T)) :
    Sorted (updates.effectiveUpdates sort base given) ∧
      ∀ entry ∈ updates.effectiveUpdates sort base given, (entry.1, some entry.2) ∈ given := by
  have sorts := sortSelectionVector_sorts sort (filterNulls given)
  rw [effectiveUpdates]
  split
  · exact ⟨sorts.sorted.sublist List.filter_sublist, fun entry member =>
      mem_filterNulls.mp (sorts.subset entry (List.mem_filter.mp member).1)⟩
  · exact ⟨sorts.sorted, fun entry member => mem_filterNulls.mp (sorts.subset entry member)⟩

/-! ## Conflicts -/

/-- The version was changed by others since the transaction started, in one of the rows. -/
def Conflicts (transaction : TransactionData) (ids : List Nat) (info : ChainedUpdate T) : Prop :=
  applies transaction info.versionNumber = true ∧ ∃ id ∈ ids, lookup id info.entries ≠ none

theorem applies_iff {transaction : TransactionData} {versionNumber : Nat} :
    applies transaction versionNumber = true ↔
      transaction.startTime < versionNumber ∧ versionNumber ≠ transaction.transactionId := by
  rw [applies, Bool.and_eq_true, decide_eq_true_eq, bne_iff_ne]

/-- The loop over the rows of a foreign version finds a conflict. -/
theorem meets_iff_conflicts {transaction : TransactionData} {ids : List Nat}
    (sorted_ids : ids.Pairwise (· < ·)) (shaped : info.Shaped)
    (foreign : info.versionNumber ≠ transaction.transactionId) :
    (decide (transaction.startTime < info.versionNumber) &&
      meets ids (info.entries.map Prod.fst)) = true ↔ Conflicts transaction ids info := by
  rw [Bool.and_eq_true, decide_eq_true_eq,
    meets_iff sorted_ids (List.pairwise_map.mpr shaped.sorted),
    Conflicts, applies_iff, and_iff_left foreign]
  simp only [lookup_ne_none]

/-- `CheckForConflicts` fails at a conflict. -/
theorem checkForConflicts_error {transaction : TransactionData} {ids : List Nat}
    (sorted_ids : ids.Pairwise (· < ·)) (shaped : ∀ info ∈ chain, info.Shaped) (place : Nat)
    (nodeRef : Option Nat) (conflict : ∃ info ∈ chain, Conflicts transaction ids info) :
    checkForConflicts transaction ids place nodeRef chain = .error "Conflict on update!" := by
  induction chain generalizing place nodeRef with
  | nil =>
      obtain ⟨info, member, -⟩ := conflict
      cases member
  | cons info chain ih =>
      have rest_shaped : ∀ info ∈ chain, info.Shaped :=
        fun later member => shaped later (List.mem_cons_of_mem _ member)
      obtain ⟨found, member, conflicts⟩ := conflict
      rw [checkForConflicts]
      split
      · rename_i own
        rcases List.mem_cons.mp member with rfl | later
        · exact absurd own (applies_iff.mp conflicts.1).2
        · exact ih rest_shaped _ _ ⟨found, later, conflicts⟩
      · rename_i foreign
        split
        · rfl
        · rename_i clean
          rcases List.mem_cons.mp member with rfl | later
          · rw [meets_iff_conflicts sorted_ids (shaped _ List.mem_cons_self) foreign] at clean
            exact absurd conflicts clean
          · exact ih rest_shaped _ _ ⟨found, later, conflicts⟩

/-- Without a conflict, `CheckForConflicts` finds the version of the transaction. -/
theorem checkForConflicts_ok {transaction : TransactionData} {ids : List Nat}
    (sorted_ids : ids.Pairwise (· < ·)) (shaped : ∀ info ∈ chain, info.Shaped)
    (nodup : (chain.map ChainedUpdate.versionNumber).Nodup) (place : Nat) (nodeRef : Option Nat)
    (clean : ∀ info ∈ chain, ¬Conflicts transaction ids info) :
    checkForConflicts transaction ids place nodeRef chain = .ok
      (((chain.findIdx? fun info => info.versionNumber == transaction.transactionId).map
        (· + place)).or nodeRef) := by
  induction chain generalizing place nodeRef with
  | nil => rfl
  | cons info chain ih =>
      obtain ⟨differ, nodup⟩ := List.nodup_cons.mp nodup
      have rest := ih (fun later member => shaped later (List.mem_cons_of_mem _ member)) nodup
      have rest := fun place nodeRef => rest place nodeRef fun later member =>
        clean later (List.mem_cons_of_mem _ member)
      rw [checkForConflicts, List.findIdx?_cons]
      split
      · rename_i own
        have absent : (chain.findIdx? fun info =>
            info.versionNumber == transaction.transactionId) = none := by
          refine List.findIdx?_eq_none_iff.mpr fun later member => ?_
          rw [beq_eq_false_iff_ne, ← own]
          exact fun same => differ (List.mem_map.mpr ⟨later, member, same⟩)
        rw [rest, absent, if_pos (beq_iff_eq.mpr own), Option.map_none, Option.none_or,
          Option.map_some, Option.some_or, Nat.zero_add]
      · rename_i foreign
        have no_conflict : ¬(decide (transaction.startTime < info.versionNumber) &&
            meets ids (info.entries.map Prod.fst)) = true := by
          rw [meets_iff_conflicts sorted_ids (shaped _ List.mem_cons_self) foreign]
          exact clean info List.mem_cons_self
        rw [if_neg no_conflict, rest, if_neg (by simpa using foreign), Option.map_map]
        congr 3
        funext found
        exact (Nat.add_right_comm found 1 place).symm

/-! ## Cases of an update -/

theorem update_of_nil [DecidableEq T] {sort : RowSort T} {base : BaseVector T}
    {given : List (Nat × Option T)} (none_made : updates.effectiveUpdates sort base given = [])
    (transaction : TransactionData) : updates.update sort base transaction given = .ok updates := by
  rw [update, if_pos (List.isEmpty_iff.mpr none_made)]
  rfl

theorem update_of_rootless [DecidableEq T] {sort : RowSort T} {base : BaseVector T}
    {given : List (Nat × Option T)} (some_made : updates.effectiveUpdates sort base given ≠ [])
    (rootless : updates.root = none) (transaction : TransactionData) :
    updates.update sort base transaction given = .ok
      ⟨some ⟨transactionIdStart - 1, updates.effectiveUpdates sort base given⟩,
        [⟨transaction.transactionId,
          initializeUpdate base (updates.effectiveUpdates sort base given)⟩]⟩ := by
  rw [update, if_neg (by simpa using some_made)]
  split
  · rfl
  · rename_i root is_root
    rw [rootless] at is_root
    cases is_root

theorem update_of_root [DecidableEq T] {sort : RowSort T} {base : BaseVector T}
    {given : List (Nat × Option T)} (some_made : updates.effectiveUpdates sort base given ≠ [])
    (is_root : updates.root = some root) (transaction : TransactionData) :
    updates.update sort base transaction given =
      (checkForConflicts transaction ((updates.effectiveUpdates sort base given).map Prod.fst) 0
        none updates.chain).map
        (mergeUpdate base transaction (updates.effectiveUpdates sort base given) root
          updates.chain) := by
  rw [update, if_neg (by simpa using some_made)]
  split
  · rename_i rootless
    rw [rootless] at is_root
    cases is_root
  · rename_i root' is_root'
    cases is_root.symm.trans is_root'
    cases checkForConflicts transaction ((updates.effectiveUpdates sort base given).map Prod.fst) 0
        none updates.chain with
    | error message => rfl
    | ok nodeRef => rfl

end VectorUpdates

end StatsRecommender
