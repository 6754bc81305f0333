import StatsRecommender.Execution.OnConflict

/-!
# Which rows of a chunk are kept

The rows that stay are the right ones, whatever the order of the indexes, exactly if rows that
agree on a key begin with a row that repeats nothing, and if agreeing is a conflict.
-/

namespace StatsRecommender

open FirstOccurrences

theorem notDistinct_iff_key (left right : Option Payload) :
    notDistinct left right = true ↔ left.map Payload.key = right.map Payload.key := by
  cases left <;> cases right <;> simp [notDistinct, equals_iff]

namespace PhysicalInsert

variable {row count other : Nat} {state : PreparedKeys × Distinctness} {marks : Marks}
  {input : InsertColumns} {sortKeys : PreparedKeys} {columns conflictTarget : List Nat}
  {keys : List (List Nat)} {matchedIndexes : List ConstraintIndex}

/-! ## Agreement and conflicts -/

/-- The rows are not distinct in any of the columns. -/
def AgreeOn (input : InsertColumns) (columns : List Nat) (first second : Nat) : Prop :=
  ∀ column ∈ columns,
    notDistinct ((input column).valueAt first) ((input column).valueAt second) = true

/-- The rows have equal values in all columns of a key, none of which is NULL. -/
def Conflicting (input : InsertColumns) (keys : List (List Nat)) (first second : Nat) : Prop :=
  ∃ columns ∈ keys, ∀ column ∈ columns, ∃ left right, (input column).valueAt first = some left ∧
    (input column).valueAt second = some right ∧ equals left right = true

/-- No earlier row agrees on a key. -/
def Unrepeated (input : InsertColumns) (keys : List (List Nat)) (row : Nat) : Prop :=
  ∀ columns ∈ keys, ∀ earlier < row, ¬ AgreeOn input columns earlier row

/-- The unique keys: the conflict target, or the columns of every index. -/
def uniqueKeys (conflictTarget : List Nat) (matchedIndexes : List ConstraintIndex) :
    List (List Nat) :=
  if conflictTarget = [] then matchedIndexes.map (·.columnIds) else [conflictTarget]

/--
The rows that are kept are in input order, no two of them are in conflict, and every other row
is in conflict with an earlier one of them.
-/
structure FiltersConflicts (input : InsertColumns) (count : Nat) (keys : List (List Nat))
    (kept : List Nat) : Prop where
  ordered : kept.Sublist (List.range count)
  apart : ∀ second ∈ kept, ∀ first ∈ kept, first < second → ¬ Conflicting input keys first second
  covered : ∀ row < count, row ∉ kept → ∃ earlier ∈ kept, earlier < row ∧
    Conflicting input keys earlier row

/-- The sort keys of a column fit into strings. -/
def SortKeyFits (input : InsertColumns) (count column : Nat) : Prop :=
  ∀ row < count, (sortKeyLengths [(input column, ⟨.ascending, .nullsLast⟩)] count).variableLengths
    row + (sortKeyLengths [(input column, ⟨.ascending, .nullsLast⟩)] count).constantLength ≤
      maxStringSize

/--
The sort keys can be created, the first of the rows that agree on a key repeats no earlier row
on any key, and a row that repeats an earlier one is in conflict with an earlier one.
-/
structure RepeatsAreConflicts (input : InsertColumns) (count : Nat) (keys : List (List Nat)) :
    Prop where
  fits : ∀ columns ∈ keys, ∀ column ∈ columns, SortKeyFits input count column
  starts : ∀ columns ∈ keys, ∀ later < count, ∀ row < later, AgreeOn input columns row later →
    (∀ earlier < row, ¬ AgreeOn input columns earlier row) → Unrepeated input keys row
  conflicting : ∀ row < count, ¬ Unrepeated input keys row →
    ∃ earlier < row, Conflicting input keys earlier row

/-- What it is to agree on the columns of an index. -/
def indexKey (input : InsertColumns) (columns : List Nat) : RowKey where
  same := AgreeOn input columns
  present := fun row => ∀ column ∈ columns, ((input column).valueAt row).isSome = true
  same_symm := by
    intro first second agree column member
    have equal := agree column member
    rw [notDistinct_iff_key] at equal ⊢
    exact equal.symm
  same_trans := by
    intro first second third agree more column member
    have equal := agree column member
    have next := more column member
    rw [notDistinct_iff_key] at equal next ⊢
    exact equal.trans next
  present_of_same := by
    intro first second agree present column member
    have equal := agree column member
    have isSome := present column member
    cases left : (input column).valueAt first with
    | none => simp [left] at isSome
    | some value =>
        cases right : (input column).valueAt second with
        | none => simp [left, right, notDistinct] at equal
        | some other => rfl

theorem conflict_iff (input : InsertColumns) (keys : List (List Nat)) (first second : Nat) :
    Conflict (keys.map (indexKey input)) first second ↔ Conflicting input keys first second := by
  have each : ∀ columns : List Nat,
      (indexKey input columns).same first second ∧ (indexKey input columns).present first ↔
        ∀ column ∈ columns, ∃ left right, (input column).valueAt first = some left ∧
          (input column).valueAt second = some right ∧ equals left right = true := by
    intro columns
    constructor
    · rintro ⟨same, present⟩ column member
      have equal := same column member
      have isSome := present column member
      cases left : (input column).valueAt first with
      | none => simp [left] at isSome
      | some value =>
          cases right : (input column).valueAt second with
          | none => simp [left, right, notDistinct] at equal
          | some other =>
              rw [left, right] at equal
              exact ⟨value, other, rfl, rfl, equal⟩
    · intro values
      constructor
      · intro column member
        obtain ⟨value, other, left, right, equal⟩ := values column member
        rw [left, right]
        exact equal
      · intro column member
        obtain ⟨value, other, left, -, -⟩ := values column member
        rw [left]
        rfl
  unfold Conflict Conflicting
  simp only [List.mem_map, exists_exists_and_eq_and, each]

theorem root_iff (input : InsertColumns) (keys : List (List Nat)) (row : Nat) :
    Root (keys.map (indexKey input)) row ↔ Unrepeated input keys row := by
  unfold Root Unrepeated
  simp only [List.forall_mem_map]
  rfl

/-! ## The comparison on one key -/

/-- The inner loop, over different rows. -/
theorem foldl_checkFollowing (sortKeys : List (Nat → SortKey)) (row : Nat) {others : List Nat}
    (different : others.Nodup) (state : Distinctness × Bool) :
    others.foldl (checkFollowing sortKeys row) state =
      (⟨fun other => state.1.valid other &&
            !(others.contains other && sortKeysMatch sortKeys row other),
        fun other => if other = row then state.1.conflicts other ++ others.filter (fun later =>
          state.1.valid later && sortKeysMatch sortKeys row later) else state.1.conflicts other⟩,
        state.2 || others.any fun later =>
          state.1.valid later && sortKeysMatch sortKeys row later) := by
  induction others generalizing state with
  | nil =>
      obtain ⟨⟨valid, conflicts⟩, hasConflicts⟩ := state
      simp
  | cons first rest ih =>
      obtain ⟨absent, different⟩ := List.nodup_cons.mp different
      rw [List.foldl_cons, ih different, checkFollowing]
      obtain ⟨⟨valid, conflicts⟩, hasConflicts⟩ := state
      by_cases taken : (valid first && sortKeysMatch sortKeys row first) = true
      · obtain ⟨isValid, agree⟩ := Bool.and_eq_true_iff.mp taken
        -- the row just marked is none of those that follow
        have others_valid : ∀ other ∈ rest, (if other = first then false else valid other) =
            valid other := by
          intro other member
          rw [if_neg fun same : other = first => absent (same ▸ member)]
        have filtered : rest.filter (fun later => (if later = first then false else valid later) &&
            sortKeysMatch sortKeys row later) =
            rest.filter fun later => valid later && sortKeysMatch sortKeys row later :=
          List.filter_congr fun other member => by rw [others_valid other member]
        simp only [isValid, agree, Bool.not_true, Bool.false_eq_true, if_false, if_true,
          Distinctness.push, Distinctness.setInvalid, filtered]
        congr 1
        · congr 1
          · funext other
            by_cases here : other = first
            · simp [here, agree]
            · simp [here]
          · funext other
            by_cases here : other = row
            · simp [here, isValid, agree]
            · simp [here]
        · simp [isValid, agree]
      · have skipped : checkFollowing sortKeys row (⟨valid, conflicts⟩, hasConflicts) first =
            (⟨valid, conflicts⟩, hasConflicts) := by
          unfold checkFollowing
          cases isValid : valid first with
          | false => simp [isValid]
          | true =>
              have differ : sortKeysMatch sortKeys row first = false := by
                simpa [isValid] using taken
              simp [differ]
        rw [checkFollowing] at skipped
        rw [skipped]
        congr 1
        · congr 1
          · funext other
            by_cases here : other = first
            · subst here
              cases isValid : valid other <;> simp_all
            · simp [here]
          · simp [taken]
        · simp [taken]

/-- The rows behind a row are visited once each. -/
theorem mem_following :
    other ∈ List.range' (row + 1) (count - (row + 1)) ↔ row < other ∧ other < count := by
  rw [List.mem_range'_1]
  omega

/-- The keys of the columns tell which rows agree. -/
def Compares (sortKeys : List (Nat → SortKey)) (count : Nat) (key : RowKey) : Prop :=
  ∀ first < count, ∀ second < count, sortKeysMatch sortKeys first second = true ↔
    key.same first second

/-- Entries of the map stand for later rows of the chunk. -/
def Distinctness.Forward (count : Nat) (state : Distinctness) : Prop :=
  ∀ row, ∀ other ∈ state.conflicts row, row < other ∧ other < count

/-- The state after the outer loop has visited the rows below a row. -/
structure Visited (count : Nat) (key : RowKey) (before : Distinctness) (row : Nat)
    (state : Distinctness) : Prop where
  forward : state.Forward count
  valid_iff : ∀ other < count, state.valid other = true ↔ before.valid other = true ∧
    (∀ earlier < other, earlier < row → ¬ key.same earlier other) ∧
    (other < row → ∀ later, other < later → later < count → key.same other later →
      ¬ before.valid later = true)
  marked_iff : ∀ other < count, (∃ first, other ∈ state.conflicts first) ↔
    (∃ first, other ∈ before.conflicts first) ∨
      (before.valid other = true ∧ ∃ earlier < other, earlier < row ∧ key.same earlier other)

section

variable {sortKeys : List (Nat → SortKey)} {count : Nat} {key : RowKey}

/-- The rows that are found to repeat a row. -/
theorem found_iff (compares : Compares sortKeys count key) (inside : row < count)
    (state : Distinctness) : (row < other ∧ other < count) ∧
      (state.valid other && sortKeysMatch sortKeys row other) = true ↔
    row < other ∧ other < count ∧ state.valid other = true ∧ key.same row other := by
  rw [Bool.and_eq_true, and_assoc]
  refine and_congr_right fun _ => and_congr_right fun bound => and_congr_right fun _ => ?_
  exact compares row inside other bound

theorem checkRow_valid (compares : Compares sortKeys count key) (inside : row < count)
    (bound : other < count) (state : Distinctness) :
    (checkRow sortKeys count state row).valid other = true ↔ state.valid other = true ∧
      ¬ (row < other ∧ key.same row other) ∧
      (other = row → ∀ later, row < later → later < count → key.same row later →
        ¬ state.valid later = true) := by
  have inner : (state.valid other && !((List.range' (row + 1) (count - (row + 1))).contains other &&
      sortKeysMatch sortKeys row other)) = true ↔
      state.valid other = true ∧ ¬ (row < other ∧ key.same row other) := by
    rw [Bool.and_eq_true, Bool.not_eq_true', ← Bool.not_eq_true, Bool.and_eq_true,
      List.contains_iff_mem, mem_following, compares row inside other bound]
    simp [bound]
  have found : (false || (List.range' (row + 1) (count - (row + 1))).any fun later =>
      state.valid later && sortKeysMatch sortKeys row later) = true ↔
      ∃ later, row < later ∧ later < count ∧ state.valid later = true ∧ key.same row later := by
    rw [Bool.false_or, List.any_eq_true]
    simp only [mem_following, found_iff compares inside]
  unfold checkRow
  rw [foldl_checkFollowing sortKeys row List.nodup_range']
  dsimp only
  split
  · rename_i hasConflicts
    obtain ⟨later, behind, inCount, valid, same⟩ := found.mp hasConflicts
    by_cases here : other = row
    · simp only [Distinctness.setInvalid, here, if_true]
      constructor
      · intro impossible
        cases impossible
      · rintro ⟨-, -, alone⟩
        exact absurd valid (alone trivial later behind inCount same)
    · simp only [Distinctness.setInvalid, here, if_false, inner]
      simp
  · rename_i alone
    rw [inner]
    refine and_congr_right fun _ => (and_iff_left ?_).symm
    intro _ later behind inCount same valid
    exact alone (found.mpr ⟨later, behind, inCount, valid, same⟩)

theorem mem_checkRow_conflicts (compares : Compares sortKeys count key) (inside : row < count)
    (state : Distinctness) (first other : Nat) :
    other ∈ (checkRow sortKeys count state row).conflicts first ↔ other ∈ state.conflicts first ∨
      first = row ∧ row < other ∧ other < count ∧ state.valid other = true ∧
        key.same row other := by
  have conflicts : (checkRow sortKeys count state row).conflicts first = if first = row then
      state.conflicts first ++ (List.range' (row + 1) (count - (row + 1))).filter (fun later =>
        state.valid later && sortKeysMatch sortKeys row later) else state.conflicts first := by
    unfold checkRow
    rw [foldl_checkFollowing sortKeys row List.nodup_range']
    dsimp only
    split <;> rfl
  rw [conflicts]
  by_cases here : first = row
  · rw [if_pos here, List.mem_append, List.mem_filter, mem_following, found_iff compares inside]
    simp [here]
  · simp [here]

/-- Among the rows that are behind a row and take part, only those agree that did from the start. -/
theorem Visited.found {before state : Distinctness} (visited : Visited count key before row state)
    {later : Nat} (behind : row < later) (inside : later < count) :
    state.valid later = true ∧ key.same row later ↔
      before.valid later = true ∧ key.First row ∧ key.same row later := by
  rw [visited.valid_iff later inside]
  constructor
  · rintro ⟨⟨valid, unseen, -⟩, same⟩
    refine ⟨valid, ?_, same⟩
    intro earlier less agrees
    exact unseen earlier (less.trans behind) less (key.same_trans agrees same)
  · rintro ⟨valid, first, same⟩
    refine ⟨⟨valid, ?_, fun less => absurd less (Nat.not_lt.mpr behind.le)⟩, same⟩
    intro earlier _ less agrees
    exact first earlier less (key.same_trans agrees (key.same_symm same))

theorem Visited.next (compares : Compares sortKeys count key) {before : Distinctness} {row : Nat}
    {state : Distinctness} (visited : Visited count key before row state) (inside : row < count) :
    Visited count key before (row + 1) (checkRow sortKeys count state row) := by
  constructor
  · intro first other member
    rcases (mem_checkRow_conflicts compares inside state first other).mp member with old | new
    · exact visited.forward first other old
    · obtain ⟨rfl, behind, bound, -, -⟩ := new
      exact ⟨behind, bound⟩
  · intro other bound
    rw [checkRow_valid compares inside bound, visited.valid_iff other bound]
    constructor
    · rintro ⟨⟨valid, unseen, alone⟩, notHere, leaves⟩
      refine ⟨valid, ?_, ?_⟩
      · intro earlier before less agrees
        rcases Nat.lt_or_eq_of_le (Nat.lt_succ_iff.mp less) with less | rfl
        · exact unseen earlier before less agrees
        · exact notHere ⟨before, agrees⟩
      · intro less later behind inCount same wasValid
        rcases Nat.lt_or_eq_of_le (Nat.lt_succ_iff.mp less) with less | rfl
        · exact alone less later behind inCount same wasValid
        · have first : key.First other := fun earlier before => unseen earlier before before
          exact leaves rfl later behind inCount same
            ((visited.found behind inCount).mpr ⟨wasValid, first, same⟩).1
    · rintro ⟨valid, unseen, alone⟩
      refine ⟨⟨valid, fun earlier before less => unseen earlier before (Nat.lt_succ_of_lt less),
        fun less => alone (Nat.lt_succ_of_lt less)⟩, ?_, ?_⟩
      · rintro ⟨before, agrees⟩
        exact unseen row before (Nat.lt_succ_self row) agrees
      · rintro rfl later behind inCount same stays
        exact alone (Nat.lt_succ_self other) later behind inCount same
          ((visited.found behind inCount).mp ⟨stays, same⟩).1
  · intro other bound
    simp only [mem_checkRow_conflicts compares inside]
    rw [exists_or, visited.marked_iff other bound, or_assoc]
    refine or_congr_right ?_
    constructor
    · rintro (⟨valid, earlier, before, less, agrees⟩ | ⟨_, rfl, behind, _, stays, same⟩)
      · exact ⟨valid, earlier, before, Nat.lt_succ_of_lt less, agrees⟩
      · exact ⟨((visited.found behind bound).mp ⟨stays, same⟩).1, _, behind, Nat.lt_succ_self _,
          same⟩
    · rintro ⟨valid, earlier, before, less, agrees⟩
      by_cases sooner : ∃ earlier < other, earlier < row ∧ key.same earlier other
      · exact Or.inl ⟨valid, sooner⟩
      · rcases Nat.lt_or_eq_of_le (Nat.lt_succ_iff.mp less) with less | rfl
        · exact absurd ⟨earlier, before, less, agrees⟩ sooner
        · have first : key.First earlier := fun first less same =>
            sooner ⟨first, less.trans before, less, key.same_trans same agrees⟩
          obtain ⟨stays, -⟩ := (visited.found before bound).mpr ⟨valid, first, agrees⟩
          exact Or.inr ⟨earlier, rfl, before, bound, stays, agrees⟩

/-- What is known of the code's state beside the marks of the passes. -/
structure Tracks (count : Nat) (state : Distinctness) (marks : Marks) : Prop where
  forward : state.Forward count
  valid_iff : ∀ row < count, state.valid row = true ↔ marks.valid row
  marked_iff : ∀ row < count, (∃ first, row ∈ state.conflicts first) ↔ marks.marked row

/-- The loops are one pass with the key. -/
theorem Tracks.checkDistinctnessInternal (compares : Compares sortKeys count key)
    {state : Distinctness} (tracks : Tracks count state marks) :
    Tracks count (checkDistinctnessInternal sortKeys count state) (marks.pass count key) := by
  have visited : ∀ row ≤ count, Visited count key state row
      ((List.range row).foldl (checkRow sortKeys count) state) := by
    intro row inside
    induction row with
    | zero =>
        constructor
        · exact tracks.forward
        · simp
        · simp
    | succ row ih =>
        rw [List.range_succ, List.foldl_append]
        exact (ih (Nat.le_of_succ_le inside)).next compares inside
  have done := visited count le_rfl
  constructor
  · exact done.forward
  · intro row inside
    rw [PhysicalInsert.checkDistinctnessInternal, done.valid_iff row inside,
      tracks.valid_iff row inside]
    refine and_congr_right fun _ => and_congr ?_ ?_
    · exact forall_congr' fun earlier => forall_congr' fun less =>
        forall_prop_of_true (less.trans inside)
    · rw [forall_prop_of_true inside]
      refine forall_congr' fun later => forall_congr' fun _ => forall_congr' fun bound => ?_
      rw [tracks.valid_iff later bound]
  · intro row inside
    rw [PhysicalInsert.checkDistinctnessInternal, done.marked_iff row inside,
      tracks.marked_iff row inside, tracks.valid_iff row inside]
    refine or_congr_right (and_congr_right fun _ => ?_)
    rw [key.not_first_iff]
    refine exists_congr fun earlier => and_congr_right fun less => ?_
    exact and_iff_right (less.trans inside)

end

/-! ## The selection -/

/-- The mask after the entries of a row. -/
theorem foldl_mask (rows : List Nat) (mask : Nat → Bool) (row : Nat) :
    rows.foldl (fun mask (conflict : Nat) other => if other = conflict then false else mask other)
      mask row = (mask row && !rows.contains row) := by
  induction rows generalizing mask with
  | nil => simp
  | cons first rest ih =>
      rw [List.foldl_cons, ih]
      by_cases here : row = first
      · simp [here]
      · simp [here]

/-- The loop keeps the rows that no entry of the map has. -/
theorem foldl_selectRow {state : Distinctness} (forward : state.Forward count) (size : Nat) :
    ∃ mask : Nat → Bool,
      (∀ row, mask row = true ↔ ∀ first < size, row ∉ state.conflicts first) ∧
      (List.range size).foldl (selectRow state.conflicts) (fun _ => true, []) =
        (mask, (List.range size).filter mask) := by
  induction size with
  | zero => exact ⟨fun _ => true, by simp, rfl⟩
  | succ size ih =>
      obtain ⟨mask, mask_iff, selected⟩ := ih
      have next : ∀ row, (mask row && !(state.conflicts size).contains row) = true ↔
          ∀ first < size + 1, row ∉ state.conflicts first := by
        intro row
        rw [Bool.and_eq_true, mask_iff, Nat.forall_lt_succ_right]
        simp
      refine ⟨fun row => mask row && !(state.conflicts size).contains row, next, ?_⟩
      -- the entries of a row say nothing about the rows up to this one
      have unchanged : ∀ row ≤ size,
          (mask row && !(state.conflicts size).contains row) = mask row := by
        intro row less
        have absent : row ∉ state.conflicts size := fun member =>
          absurd (forward size row member).1 (Nat.not_lt.mpr less)
        simp [absent]
      have before : (List.range size).filter
          (fun row => mask row && !(state.conflicts size).contains row) =
          (List.range size).filter mask :=
        List.filter_congr fun row member => unchanged row (List.mem_range.mp member).le
      have masked : (state.conflicts size).foldl
          (fun mask (conflict : Nat) other => if other = conflict then false else mask other) mask =
          fun row => mask row && !(state.conflicts size).contains row :=
        funext fun row => foldl_mask _ mask row
      rw [List.range_succ, List.foldl_append, selected, List.foldl_cons, List.foldl_nil, selectRow,
        List.filter_append, before]
      dsimp only
      rw [masked]
      dsimp only
      by_cases stays : (mask size && !(state.conflicts size).contains size) = true
      · rw [if_pos stays, List.filter_singleton, stays, cond_true]
      · rw [if_neg stays, List.filter_singleton, Bool.eq_false_iff.mpr stays, cond_false,
          List.append_nil]

/-! ## The sort keys -/

theorem columnSortKey_isOk (input : InsertColumns) (count column : Nat) :
    (∃ sortKey, columnSortKey input count column = .ok sortKey) ↔
      SortKeyFits input count column := by
  unfold columnSortKey createSortKeyInternal SortKeyFits
  dsimp only
  split
  · rename_i row tooLong
    have long := List.find?_some tooLong
    have member := List.mem_of_find?_eq_some tooLong
    simp only [decide_eq_true_eq] at long
    constructor
    · rintro ⟨_, impossible⟩
      cases impossible
    · intro fits
      exact absurd (fits row (List.mem_range.mp member)) (Nat.not_le.mpr long)
  · rename_i short
    refine iff_of_true ⟨_, rfl⟩ fun row inside => ?_
    have fits := List.find?_eq_none.mp short row (List.mem_range.mpr inside)
    simpa using fits

/-- Equal sort keys stand for values that are not distinct. -/
theorem columnSortKey_eq_iff {column : Nat}
    (wellFormed : ∀ row < count, (input column).WellFormedAt row) {sortKey : Nat → SortKey}
    (created : columnSortKey input count column = .ok sortKey) {first second : Nat}
    (inside : first < count) (otherInside : second < count) : sortKey first = sortKey second ↔
      notDistinct ((input column).valueAt first) ((input column).valueAt second) = true := by
  have chunk : WellFormedChunk [(input column, ⟨.ascending, .nullsLast⟩)] count := by
    intro each member
    rw [List.mem_singleton.mp member]
    exact wellFormed
  have ordered := (sortKeys_ordered rfl chunk chunk (Or.inl rfl) created created).2 first inside
    second otherInside
  rw [ordered.2]
  simp [rowsNotDistinct]

/-- What has been prepared are the keys of the columns. -/
def Prepared (input : InsertColumns) (count : Nat) (sortKeys : PreparedKeys) : Prop :=
  ∀ column sortKey, sortKeys column = some sortKey →
    columnSortKey input count column = .ok sortKey

theorem prepareSortKey_spec (prepared : Prepared input count sortKeys) (column : Nat) :
    ((∃ result, prepareSortKey input count sortKeys column = .ok result) ↔
      SortKeyFits input count column) ∧
    ∀ result, prepareSortKey input count sortKeys column = .ok result →
      Prepared input count result ∧ (∀ other, (sortKeys other).isSome → (result other).isSome) ∧
        (result column).isSome := by
  unfold prepareSortKey
  rw [← columnSortKey_isOk]
  cases known : sortKeys column with
  | some sortKey =>
      constructor
      · exact iff_of_true ⟨sortKeys, rfl⟩ ⟨sortKey, prepared column sortKey known⟩
      · rintro result ⟨⟩
        exact ⟨prepared, fun _ isSome => isSome, by rw [known]; rfl⟩
  | none =>
      cases created : columnSortKey input count column with
      | error message =>
          constructor
          · constructor
            · rintro ⟨_, ⟨⟩⟩
            · rintro ⟨_, ⟨⟩⟩
          · rintro result ⟨⟩
      | ok sortKey =>
          constructor
          · exact iff_of_true ⟨_, rfl⟩ ⟨sortKey, rfl⟩
          · rintro result ⟨⟩
            refine ⟨?_, ?_, by simp⟩
            · intro other key found
              dsimp only at found
              by_cases here : other = column
              · subst here
                rw [if_pos rfl] at found
                rw [created, ← Option.some.inj found]
              · rw [if_neg here] at found
                exact prepared other key found
            · intro other isSome
              by_cases here : other = column
              · simp [here]
              · simpa [here] using isSome

theorem prepareSortKeys_spec (columnIds : List Nat) (prepared : Prepared input count sortKeys) :
    ((∃ result, prepareSortKeys input count sortKeys columnIds = .ok result) ↔
      ∀ column ∈ columnIds, SortKeyFits input count column) ∧
    ∀ result, prepareSortKeys input count sortKeys columnIds = .ok result →
      Prepared input count result ∧ (∀ column, (sortKeys column).isSome → (result column).isSome) ∧
      ∀ column ∈ columnIds, (result column).isSome := by
  unfold prepareSortKeys
  induction columnIds generalizing sortKeys with
  | nil =>
      constructor
      · exact iff_of_true ⟨sortKeys, rfl⟩ (by simp)
      · rintro result ⟨⟩
        exact ⟨prepared, fun _ isSome => isSome, by simp⟩
  | cons column rest ih =>
      obtain ⟨first_ok, first_spec⟩ := prepareSortKey_spec prepared column
      rw [List.foldlM_cons, List.forall_mem_cons, ← first_ok]
      cases first : prepareSortKey input count sortKeys column with
      | error message =>
          constructor
          · constructor
            · rintro ⟨_, ⟨⟩⟩
            · rintro ⟨⟨_, ⟨⟩⟩, -⟩
          · rintro result ⟨⟩
      | ok next =>
          obtain ⟨nextPrepared, kept, here⟩ := first_spec next first
          obtain ⟨rest_ok, rest_spec⟩ := ih nextPrepared
          constructor
          · exact rest_ok.trans (and_iff_right ⟨next, rfl⟩).symm
          · intro result finished
            obtain ⟨resultPrepared, more, present⟩ := rest_spec result finished
            refine ⟨resultPrepared, fun other isSome => more other (kept other isSome), ?_⟩
            exact List.forall_mem_cons.mpr ⟨more column here, present⟩

/-- The columns of an index are well-formed in all rows of the chunk. -/
def WellFormedColumns (input : InsertColumns) (count : Nat) (columns : List Nat) : Prop :=
  ∀ column ∈ columns, ∀ row < count, (input column).WellFormedAt row

theorem compares_indexKey (wellFormed : WellFormedColumns input count columns)
    (prepared : Prepared input count sortKeys)
    (present : ∀ column ∈ columns, (sortKeys column).isSome) :
    Compares (columns.filterMap sortKeys) count (indexKey input columns) := by
  intro first inside second otherInside
  unfold sortKeysMatch
  rw [List.all_eq_true]
  constructor
  · intro equal column member
    obtain ⟨sortKey, known⟩ := Option.isSome_iff_exists.mp (present column member)
    have keysEqual := equal sortKey (List.mem_filterMap.mpr ⟨column, member, known⟩)
    exact (columnSortKey_eq_iff (wellFormed column member) (prepared column sortKey known) inside
      otherInside).mp (by simpa using keysEqual)
  · intro same sortKey listed
    obtain ⟨column, member, known⟩ := List.mem_filterMap.mp listed
    have keysEqual := (columnSortKey_eq_iff (wellFormed column member)
      (prepared column sortKey known) inside otherInside).mpr (same column member)
    simpa using keysEqual

/-! ## One index after another -/

theorem checkColumns_spec (wellFormed : WellFormedColumns input count columns)
    (prepared : Prepared input count state.1) (tracks : Tracks count state.2 marks) :
    ((∃ result, checkColumns input count columns state = .ok result) ↔
      ∀ column ∈ columns, SortKeyFits input count column) ∧
    ∀ result, checkColumns input count columns state = .ok result →
      Prepared input count result.1 ∧
        Tracks count result.2 (marks.pass count (indexKey input columns)) := by
  obtain ⟨prepare_ok, prepare_spec⟩ := prepareSortKeys_spec columns prepared
  rw [← prepare_ok]
  unfold checkColumns
  cases keys : prepareSortKeys input count state.1 columns with
  | error message =>
      constructor
      · constructor
        · rintro ⟨_, ⟨⟩⟩
        · rintro ⟨_, ⟨⟩⟩
      · rintro result ⟨⟩
  | ok sortKeys =>
      obtain ⟨keysPrepared, -, present⟩ := prepare_spec sortKeys keys
      constructor
      · exact iff_of_true ⟨_, rfl⟩ ⟨sortKeys, rfl⟩
      · rintro result ⟨⟩
        exact ⟨keysPrepared, tracks.checkDistinctnessInternal
          (compares_indexKey wellFormed keysPrepared present)⟩

theorem foldlM_checkColumns_spec
    (wellFormed : ∀ columns ∈ keys, WellFormedColumns input count columns)
    (prepared : Prepared input count state.1) (tracks : Tracks count state.2 marks) :
    ((∃ result, keys.foldlM (fun state columns => checkColumns input count columns state) state =
        Except.ok result) ↔ ∀ columns ∈ keys, ∀ column ∈ columns, SortKeyFits input count column) ∧
    ∀ result, keys.foldlM (fun state columns => checkColumns input count columns state) state =
        Except.ok result →
      Tracks count result.2 (marks.passes count (keys.map (indexKey input))) := by
  induction keys generalizing state marks with
  | nil =>
      constructor
      · exact iff_of_true ⟨state, rfl⟩ (by simp)
      · rintro result ⟨⟩
        exact tracks
  | cons columns rest ih =>
      obtain ⟨formed, restFormed⟩ := List.forall_mem_cons.mp wellFormed
      obtain ⟨first_ok, first_spec⟩ := checkColumns_spec formed prepared tracks
      rw [List.foldlM_cons, List.forall_mem_cons, ← first_ok]
      cases first : checkColumns input count columns state with
      | error message =>
          constructor
          · constructor
            · rintro ⟨_, ⟨⟩⟩
            · rintro ⟨⟨_, ⟨⟩⟩, -⟩
          · rintro result ⟨⟩
      | ok next =>
          obtain ⟨nextPrepared, nextTracks⟩ := first_spec next first
          obtain ⟨rest_ok, rest_spec⟩ := ih restFormed nextPrepared nextTracks
          constructor
          · exact rest_ok.trans (and_iff_right ⟨next, rfl⟩).symm
          · exact rest_spec

/-- The indexes are the unique keys, or the conflict target is the only one. -/
theorem checkDistinctness_eq (input : InsertColumns) (count : Nat) (conflictTarget : List Nat)
    (matchedIndexes : List ConstraintIndex) :
    checkDistinctness input count conflictTarget matchedIndexes =
      ((uniqueKeys conflictTarget matchedIndexes).foldlM
        (fun state columns => checkColumns input count columns state) unchecked).map Prod.snd := by
  unfold checkDistinctness uniqueKeys
  by_cases noTarget : conflictTarget = []
  · rw [if_pos noTarget, if_pos noTarget, List.foldlM_map]
    rfl
  · rw [if_neg noTarget, if_neg noTarget, List.foldlM_cons]
    cases checkColumns input count conflictTarget unchecked <;> rfl

/-- The rows that are kept are those that no key has marked. -/
theorem onConflictHandling_spec
    (wellFormed : ∀ columns ∈ uniqueKeys conflictTarget matchedIndexes,
      WellFormedColumns input count columns) :
    ((∃ kept, onConflictHandling input count conflictTarget matchedIndexes = .ok kept) ↔
      ∀ columns ∈ uniqueKeys conflictTarget matchedIndexes, ∀ column ∈ columns,
        SortKeyFits input count column) ∧
    ∀ kept, onConflictHandling input count conflictTarget matchedIndexes = .ok kept →
      kept.Sublist (List.range count) ∧ ∀ row < count, row ∈ kept ↔
        ¬ (Marks.passes count ((uniqueKeys conflictTarget matchedIndexes).map (indexKey input))
          Marks.start).marked row := by
  have prepared : Prepared input count unchecked.1 := fun _ _ impossible => by cases impossible
  have start : Tracks count unchecked.2 Marks.start := by
    constructor
    · rintro row other ⟨⟩
    · simp [unchecked, Distinctness.empty, Marks.start]
    · simp [unchecked, Distinctness.empty, Marks.start]
  obtain ⟨keys_ok, keys_spec⟩ := foldlM_checkColumns_spec wellFormed prepared start
  rw [← keys_ok]
  cases compared : (uniqueKeys conflictTarget matchedIndexes).foldlM
      (fun state columns => checkColumns input count columns state) unchecked with
  | error message =>
      have failed : onConflictHandling input count conflictTarget matchedIndexes =
          .error message := by
        unfold onConflictHandling
        rw [checkDistinctness_eq, compared]
        rfl
      rw [failed]
      constructor
      · constructor
        · rintro ⟨_, ⟨⟩⟩
        · rintro ⟨_, ⟨⟩⟩
      · rintro kept ⟨⟩
  | ok result =>
      have tracks := keys_spec result compared
      -- without conflicts all rows are kept, as the selection would have it
      have kept_eq : onConflictHandling input count conflictTarget matchedIndexes = .ok
          ((List.range count).foldl (selectRow result.2.conflicts) (fun _ => true, [])).2 := by
        unfold onConflictHandling
        rw [checkDistinctness_eq, compared]
        dsimp only [Except.map, bind, Except.bind]
        split
        · rename_i none_found
          obtain ⟨mask, mask_iff, selected⟩ := foldl_selectRow tracks.forward count
          rw [selected, List.filter_eq_self.mpr]
          intro row _
          rw [mask_iff]
          intro first inside
          have no_rows := List.all_eq_true.mp none_found first (List.mem_range.mpr inside)
          rw [List.isEmpty_iff.mp no_rows]
          exact List.not_mem_nil
        · rfl
      rw [kept_eq]
      constructor
      · exact iff_of_true ⟨_, rfl⟩ ⟨result, rfl⟩
      · rintro kept ⟨⟩
        obtain ⟨mask, mask_iff, selected⟩ := foldl_selectRow tracks.forward count
        rw [selected]
        refine ⟨List.filter_sublist, fun row inside => ?_⟩
        rw [List.mem_filter, and_iff_right (List.mem_range.mpr inside), mask_iff,
          ← tracks.marked_iff row inside]
        constructor
        · rintro absent ⟨first, member⟩
          have bounds := tracks.forward first row member
          exact absent first (bounds.1.trans bounds.2) member
        · intro absent first _ member
          exact absent ⟨first, member⟩

/-! ## The rows that ought to stay -/

/-- The condition is that of the passes. -/
theorem repeatsAreConflicts_iff (input : InsertColumns) (count : Nat) (keys : List (List Nat)) :
    RepeatsAreConflicts input count keys ↔
      (∀ columns ∈ keys, ∀ column ∈ columns, SortKeyFits input count column) ∧
      StartsAtRoots count (keys.map (indexKey input)) ∧
      AgreementsConflict count (keys.map (indexKey input)) := by
  have starts_iff : StartsAtRoots count (keys.map (indexKey input)) ↔
      ∀ columns ∈ keys, ∀ later < count, ∀ row < later, AgreeOn input columns row later →
        (∀ earlier < row, ¬ AgreeOn input columns earlier row) → Unrepeated input keys row := by
    unfold StartsAtRoots
    simp only [List.forall_mem_map, root_iff]
    rfl
  have conflicting_iff : AgreementsConflict count (keys.map (indexKey input)) ↔
      ∀ row < count, ¬ Unrepeated input keys row →
        ∃ earlier < row, Conflicting input keys earlier row := by
    unfold AgreementsConflict
    simp only [root_iff, conflict_iff]
  rw [starts_iff, conflicting_iff]
  constructor
  · rintro ⟨fits, starts, conflicting⟩
    exact ⟨fits, starts, conflicting⟩
  · rintro ⟨fits, starts, conflicting⟩
    exact ⟨fits, starts, conflicting⟩

theorem filtersConflicts_iff {kept : List Nat} (ordered : kept.Sublist (List.range count)) :
    FiltersConflicts input count keys kept ↔
      KeepsFirst count (Conflict (keys.map (indexKey input))) (· ∈ kept) := by
  have inside : ∀ row ∈ kept, row < count := fun row member =>
    List.mem_range.mp (ordered.subset member)
  constructor
  · intro filters
    constructor
    · intro row _ earlier before stayed stays
      rw [conflict_iff]
      exact filters.apart row stays earlier stayed before
    · intro row bound gone
      obtain ⟨earlier, stayed, before, conflict⟩ := filters.covered row bound gone
      exact ⟨earlier, before, stayed, (conflict_iff ..).mpr conflict⟩
  · intro keeps
    refine ⟨ordered, ?_, ?_⟩
    · intro second stays first stayed before
      rw [← conflict_iff]
      exact keeps.apart second (inside second stays) first before stayed stays
    · intro row bound gone
      obtain ⟨earlier, before, stayed, conflict⟩ := keeps.covered row bound gone
      exact ⟨earlier, stayed, before, (conflict_iff ..).mp conflict⟩

theorem uniqueKeys_perm (conflictTarget : List Nat) {order : List ConstraintIndex}
    (reordered : order.Perm matchedIndexes) :
    (uniqueKeys conflictTarget order).Perm (uniqueKeys conflictTarget matchedIndexes) := by
  unfold uniqueKeys
  split
  · exact reordered.map _
  · exact List.Perm.refl _

/-- Any of the keys may come first. -/
theorem exists_order (member : columns ∈ uniqueKeys conflictTarget matchedIndexes) :
    ∃ order rest, order.Perm matchedIndexes ∧
      uniqueKeys conflictTarget order = columns :: rest := by
  unfold uniqueKeys at member ⊢
  by_cases noTarget : conflictTarget = []
  · rw [if_pos noTarget] at member
    obtain ⟨index, listed, rfl⟩ := List.mem_map.mp member
    refine ⟨index :: matchedIndexes.erase index, (matchedIndexes.erase index).map (·.columnIds),
      (List.perm_cons_erase listed).symm, ?_⟩
    rw [if_pos noTarget]
    rfl
  · rw [if_neg noTarget] at member
    refine ⟨matchedIndexes, [], List.Perm.refl _, ?_⟩
    rw [if_neg noTarget, List.mem_singleton.mp member]

/--
For every order in which the set of indexes is visited, the rows that are kept are the right
ones, exactly if repeats are conflicts and begin with rows that repeat nothing.
-/
theorem onConflictHandling_filters_iff {input : InsertColumns} {count : Nat}
    {conflictTarget : List Nat} {globalIndexes localIndexes : List ConstraintIndex}
    (wellFormed : ∀ columns ∈ uniqueKeys conflictTarget
      (matchingIndexes conflictTarget globalIndexes localIndexes),
      WellFormedColumns input count columns) :
    (∀ order : List ConstraintIndex,
      order.Perm (matchingIndexes conflictTarget globalIndexes localIndexes) →
      ∃ kept, onConflictHandling input count conflictTarget order = .ok kept ∧
        FiltersConflicts input count (uniqueKeys conflictTarget
          (matchingIndexes conflictTarget globalIndexes localIndexes)) kept) ↔
    RepeatsAreConflicts input count (uniqueKeys conflictTarget
      (matchingIndexes conflictTarget globalIndexes localIndexes)) := by
  generalize matchingIndexes conflictTarget globalIndexes localIndexes = matched at *
  have formed : ∀ order : List ConstraintIndex, order.Perm matched →
      ∀ columns ∈ uniqueKeys conflictTarget order, WellFormedColumns input count columns :=
    fun order reordered columns member =>
      wellFormed columns ((uniqueKeys_perm conflictTarget reordered).subset member)
  rw [repeatsAreConflicts_iff]
  constructor
  · intro filters
    obtain ⟨kept, handled, -⟩ := filters matched (List.Perm.refl _)
    refine ⟨(onConflictHandling_spec wellFormed).1.mp ⟨kept, handled⟩, ?_⟩
    apply starts_of_keepsFirst
    intro key listed
    obtain ⟨columns, member, rfl⟩ := List.mem_map.mp listed
    obtain ⟨order, rest, reordered, begins⟩ := exists_order member
    obtain ⟨kept, handled, correct⟩ := filters order reordered
    obtain ⟨ordered, kept_iff⟩ := (onConflictHandling_spec (formed order reordered)).2 kept handled
    refine ⟨rest.map (indexKey input), ((filtersConflicts_iff ordered).mp correct).congr ?_⟩
    intro row inside
    rw [kept_iff row inside, begins]
    rfl
  · rintro ⟨fits, starts, conflicts⟩ order reordered
    have perm := uniqueKeys_perm conflictTarget reordered
    obtain ⟨kept, handled⟩ := (onConflictHandling_spec (formed order reordered)).1.mpr
      fun columns member => fits columns (perm.subset member)
    obtain ⟨ordered, kept_iff⟩ := (onConflictHandling_spec (formed order reordered)).2 kept handled
    refine ⟨kept, handled, (filtersConflicts_iff ordered).mpr ?_⟩
    have keeps := keepsFirst_passes starts conflicts fun key =>
      ((perm.map (indexKey input)).mem_iff (a := key)).symm
    exact keeps.congr fun row inside => (kept_iff row inside).symm

/-- A unique index on one column. -/
def uniqueOn (column : Nat) : ConstraintIndex := ⟨true, [column]⟩

/-- Integers in the rows of a column, which are all NULL without values. -/
def integers (values : List Int) : SortKeyVectorData :=
  .constant .int32 ⟨none, some fun row => decide (row < values.length)⟩
    fun row => .integer (values.getD row 0)

/-- Two rows with the value 5 in the only column. -/
def repeatedRows : InsertColumns := fun _ => integers [5, 5]

theorem onConflictHandling_filters_repeatedRows :
    ∃ kept, onConflictHandling repeatedRows 2 [] [uniqueOn 0, uniqueOn 0] = .ok kept ∧
      FiltersConflicts repeatedRows 2 [[0], [0]] kept := by
  have condition : RepeatsAreConflicts repeatedRows 2 [[0], [0]] := by
    constructor
    · have fits : SortKeyFits repeatedRows 2 0 := by
        unfold SortKeyFits
        decide +kernel
      exact fun _ _ _ _ => fits
    · intro columns _ later inside row before _ _ other _ earlier less
      omega
    · intro row inside repeated
      have second : row = 1 := by
        by_contra different
        exact repeated fun _ _ earlier less => absurd less (by omega)
      subst second
      refine ⟨0, by decide, [0], List.mem_cons_self, fun column _ => ?_⟩
      exact ⟨.integer 5, .integer 5, rfl, rfl, rfl⟩
  have wellFormed : ∀ columns ∈ uniqueKeys [] (matchingIndexes [] [uniqueOn 0] [uniqueOn 0]),
      WellFormedColumns repeatedRows 2 columns := by
    intro columns _ column _ row inside _
    change (Payload.integer ([5, 5].getD row 0)).hasType .int32 = true
    revert row
    decide
  exact (onConflictHandling_filters_iff wellFormed).mpr condition _ (List.Perm.refl _)

/-- Two NULLs in the only column. -/
def nullRows : InsertColumns := fun _ => integers []

/-- The rows (1, 1), (1, 2) and (2, 2). -/
def chainedRows : InsertColumns
  | 0 => integers [1, 1, 2]
  | _ => integers [1, 2, 2]

/--
Of two NULLs the second is left out though NULLs are never in conflict; of a chain of conflicts
the last row is left out with the second or the second is kept with the first.
-/
theorem onConflictHandling_loses_rows :
    (onConflictHandling nullRows 2 [] [uniqueOn 0, uniqueOn 0] = .ok [0] ∧
      ¬ FiltersConflicts nullRows 2 [[0], [0]] [0]) ∧
    (onConflictHandling chainedRows 3 [] [uniqueOn 0, uniqueOn 1, uniqueOn 0, uniqueOn 1] =
        .ok [0] ∧ ¬ FiltersConflicts chainedRows 3 [[0], [1], [0], [1]] [0]) ∧
    onConflictHandling chainedRows 3 [] [uniqueOn 1, uniqueOn 0, uniqueOn 1, uniqueOn 0] =
        .ok [0, 1] ∧ ¬ FiltersConflicts chainedRows 3 [[1], [0], [1], [0]] [0, 1] := by
  refine ⟨⟨by decide +kernel, ?_⟩, ⟨by decide +kernel, ?_⟩, by decide +kernel, ?_⟩
  · intro filters
    obtain ⟨earlier, _, _, columns, listed, values⟩ := filters.covered 1 (by decide) (by decide)
    have member : 0 ∈ columns := by
      rw [show columns = [0] by simpa using listed]
      exact List.mem_cons_self
    obtain ⟨left, _, null, -⟩ := values 0 member
    cases null
  · intro filters
    obtain ⟨earlier, stayed, _, columns, listed, values⟩ :=
      filters.covered 2 (by decide) (by decide)
    obtain rfl := List.mem_singleton.mp stayed
    have each : ∀ column, ¬ ∃ left right, (chainedRows column).valueAt 0 = some left ∧
        (chainedRows column).valueAt 2 = some right ∧ equals left right = true := by
      rintro (_ | _) ⟨_, _, ⟨⟩, ⟨⟩, impossible⟩
      · revert impossible
        decide
      · revert impossible
        decide
    have some_column : ∃ column, column ∈ columns := by
      simp only [List.mem_cons, List.not_mem_nil, or_false] at listed
      rcases listed with rfl | rfl | rfl | rfl <;> exact ⟨_, List.mem_cons_self⟩
    obtain ⟨column, member⟩ := some_column
    exact each column (values column member)
  · intro filters
    refine filters.apart 1 (by decide) 0 (by decide) (by decide) ⟨[0], by decide, ?_⟩
    intro column member
    obtain rfl := List.mem_singleton.mp member
    exact ⟨.integer 1, .integer 1, rfl, rfl, rfl⟩

end PhysicalInsert

end StatsRecommender
