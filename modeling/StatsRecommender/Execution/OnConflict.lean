import StatsRecommender.Library.FirstOccurrences
import StatsRecommender.SortKey.SortKeyComparison

/-!
# Conflicts inside a chunk

`execution/operator/persistent/physical_insert.cpp`: before a chunk with `ON CONFLICT DO NOTHING`
is compared with the table, its rows are compared with one another on the sort keys of the
columns of every unique index, and rows that repeat an earlier one are left out.
-/

namespace StatsRecommender

/-- An index of the table or of the local storage, as far as conflicts depend on it. -/
structure ConstraintIndex where
  isUnique : Bool
  columnIds : List Nat
  deriving DecidableEq, Repr

namespace PhysicalInsert

/-- The columns of the chunk to insert, by their ids. -/
abbrev InsertColumns := Nat → SortKeyVectorData

/-- `valid` and `conflicts`; a row without an entry in the map has no rows. -/
structure Distinctness where
  valid : Nat → Bool
  conflicts : Nat → List Nat

namespace Distinctness

/-- `ValidityMask valid(input.size())` and an empty map. -/
def empty : Distinctness := ⟨fun _ => true, fun _ => []⟩

/-- `SetInvalid`. -/
def setInvalid (state : Distinctness) (row : Nat) : Distinctness :=
  { state with valid := fun other => if other = row then false else state.valid other }

/-- `result[i].push_back(j)`. -/
def push (state : Distinctness) (row conflict : Nat) : Distinctness :=
  { state with conflicts := fun other =>
      if other = row then state.conflicts other ++ [conflict] else state.conflicts other }

end Distinctness

/-- The comparison of two rows on all sort keys. -/
def sortKeysMatch (sortKeys : List (Nat → SortKey)) (first second : Nat) : Bool :=
  sortKeys.all fun sortKey => sortKey first == sortKey second

/-- One turn of the inner loop, with `has_conflicts`. -/
def checkFollowing (sortKeys : List (Nat → SortKey)) (row : Nat) (state : Distinctness × Bool)
    (other : Nat) : Distinctness × Bool :=
  if !state.1.valid other then state
  else if sortKeysMatch sortKeys row other then
    ((state.1.push row other).setInvalid other, true)
  else state

/-- One turn of the outer loop. -/
def checkRow (sortKeys : List (Nat → SortKey)) (count : Nat) (state : Distinctness) (row : Nat) :
    Distinctness :=
  let (state, hasConflicts) :=
    (List.range' (row + 1) (count - (row + 1))).foldl (checkFollowing sortKeys row) (state, false)
  if hasConflicts then state.setInvalid row else state

/-- `CheckDistinctnessInternal`. -/
def checkDistinctnessInternal (sortKeys : List (Nat → SortKey)) (count : Nat)
    (state : Distinctness) : Distinctness :=
  (List.range count).foldl (checkRow sortKeys count) state

/-- The sort keys that have been prepared, by column. -/
abbrev PreparedKeys := Nat → Option (Nat → SortKey)

/-- The sort keys of one column, in ascending order with NULLs last. -/
def columnSortKey (input : InsertColumns) (count column : Nat) : Except String (Nat → SortKey) :=
  createSortKeyInternal [(input column, ⟨.ascending, .nullsLast⟩)] .blob count

/-- One turn of the loop of `PrepareSortKeys`. -/
def prepareSortKey (input : InsertColumns) (count : Nat) (sortKeys : PreparedKeys) (column : Nat) :
    Except String PreparedKeys :=
  if (sortKeys column).isSome then .ok sortKeys
  else do
    let sortKey ← columnSortKey input count column
    .ok fun other => if other = column then some sortKey else sortKeys other

/-- `PrepareSortKeys`. -/
def prepareSortKeys (input : InsertColumns) (count : Nat) (sortKeys : PreparedKeys)
    (columnIds : List Nat) : Except String PreparedKeys :=
  columnIds.foldlM (prepareSortKey input count) sortKeys

/-- The comparison of all rows on the columns of one index or of the conflict target. -/
def checkColumns (input : InsertColumns) (count : Nat) (columnIds : List Nat)
    (state : PreparedKeys × Distinctness) : Except String (PreparedKeys × Distinctness) := do
  let sortKeys ← prepareSortKeys input count state.1 columnIds
  .ok (sortKeys, checkDistinctnessInternal (columnIds.filterMap sortKeys) count state.2)

/-- No sort key has been prepared and no row has been compared. -/
def unchecked : PreparedKeys × Distinctness := (fun _ => none, Distinctness.empty)

/-- `CheckDistinctness`, with the indexes in the order of the set. -/
def checkDistinctness (input : InsertColumns) (count : Nat) (conflictTarget : List Nat)
    (matchedIndexes : List ConstraintIndex) : Except String Distinctness := do
  let state ←
    if conflictTarget = [] then
      matchedIndexes.foldlM (fun state index => checkColumns input count index.columnIds state)
        unchecked
    else checkColumns input count conflictTarget unchecked
  .ok state.2

/-- The `matching_indexes` of the table and of the local storage. -/
def matchingIndexes (conflictTarget : List Nat)
    (globalIndexes localIndexes : List ConstraintIndex) : List ConstraintIndex :=
  if conflictTarget = [] then (globalIndexes ++ localIndexes).filter (·.isUnique) else []

/-- One turn of the loop that builds the selection, with `not_a_conflict`. -/
def selectRow (conflicts : Nat → List Nat) (state : (Nat → Bool) × List Nat) (row : Nat) :
    (Nat → Bool) × List Nat :=
  let notAConflict := (conflicts row).foldl
    (fun mask (conflict : Nat) other => if other = conflict then false else mask other) state.1
  if notAConflict row then (notAConflict, state.2 ++ [row]) else (notAConflict, state.2)

/-- The rows of the chunk that `OnConflictHandling` goes on with for `DO NOTHING`. -/
def onConflictHandling (input : InsertColumns) (count : Nat) (conflictTarget : List Nat)
    (matchedIndexes : List ConstraintIndex) : Except String (List Nat) := do
  let innerConflicts ← checkDistinctness input count conflictTarget matchedIndexes
  if (List.range count).all fun row => (innerConflicts.conflicts row).isEmpty then
    .ok (List.range count)
  else
    .ok ((List.range count).foldl (selectRow innerConflicts.conflicts) (fun _ => true, [])).2

end PhysicalInsert

end StatsRecommender
