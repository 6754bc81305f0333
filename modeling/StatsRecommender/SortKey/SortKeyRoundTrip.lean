import StatsRecommender.SortKey.DecodeSortKeyInverse

/-!
# Sort keys and back

Decoding the key of a row gives a row that is not distinct from it, and reads all of the key.
-/

namespace StatsRecommender

open DecodeSortKeyData

namespace DecodedVector

mutual

/-- A vector in which nothing was written. -/
def empty : (type : KeyType) → DecodedVector type
  | .constant _ => ⟨fun _ => true, fun _ => .integer 0⟩
  | .interval => ⟨fun _ => true, fun _ => ⟨0, 0, 0⟩⟩
  | .varchar => ⟨fun _ => true, fun _ => []⟩
  | .blob => ⟨fun _ => true, fun _ => []⟩
  | .struct children => ⟨fun _ => true, emptyChildren children⟩
  | .list child => ⟨fun _ => true, fun _ => ⟨0, 0⟩, 0, empty child⟩
  | .array _ child => ⟨fun _ => true, empty child⟩

def emptyChildren : (types : List KeyType) → ResultVectors types
  | [] => ()
  | type :: rest => (empty type, emptyChildren rest)

end

mutual

theorem fresh_empty (type : KeyType) (row : Nat) : (view type).Fresh (empty type) row := by
  cases type with
  | constant type => rfl
  | interval => rfl
  | varchar => rfl
  | blob => rfl
  | struct children => exact ⟨rfl, fresh_emptyChildren children row⟩
  | list child => exact ⟨rfl, fun element _ => fresh_empty child element⟩
  | array arraySize child => exact ⟨rfl, fun element _ => fresh_empty child element⟩

theorem fresh_emptyChildren (types : List KeyType) (row : Nat) :
    (childrenView types).Fresh (emptyChildren types) row := by
  cases types with
  | nil => trivial
  | cons type rest => exact ⟨fresh_empty type row, fresh_emptyChildren rest row⟩

end

mutual

theorem type_toVectorData (type : KeyType) (vector : DecodedVector type) :
    (toVectorData type vector).type = type := by
  cases type with
  | constant type => rfl
  | interval => rfl
  | varchar => rfl
  | blob => rfl
  | struct children => exact congrArg KeyType.struct (childTypes_toChildData children vector.children)
  | list child => exact congrArg KeyType.list (type_toVectorData child vector.child)
  | array arraySize child =>
      exact congrArg (KeyType.array arraySize) (type_toVectorData child vector.child)

theorem childTypes_toChildData (types : List KeyType) (vectors : ResultVectors types) :
    SortKeyVectorData.childTypes (toChildData types vectors) = types := by
  cases types with
  | nil => rfl
  | cons type rest =>
      exact congrArg₂ List.cons (type_toVectorData type vectors.1)
        (childTypes_toChildData rest vectors.2)

end

end DecodedVector

/-- The columns of a result chunk as they are read. -/
def resultColumns : (columns : List (KeyType × OrderModifiers)) →
    ResultVectors (columns.map Prod.fst) → List SortKeyColumn
  | [], _ => []
  | column :: rest, vectors =>
      (DecodedVector.toVectorData column.1 vectors.1, column.2) :: resultColumns rest vectors.2

theorem columnTypes_resultColumns (columns : List (KeyType × OrderModifiers))
    (vectors : ResultVectors (columns.map Prod.fst)) :
    columnTypes (resultColumns columns vectors) = columns := by
  induction columns with
  | nil => rfl
  | cons column rest ih =>
      exact congrArg₂ List.cons
        (congrArg (·, column.2) (DecodedVector.type_toVectorData column.1 vectors.1)) (ih vectors.2)

/-- The bytes of a row in all columns. -/
def rowBytes (columns : List SortKeyColumn) (row : Nat) : List UInt8 :=
  columns.flatMap fun column => column.1.bytesAt column.2 row

/-- Every column is read back from the bytes that it added to the key. -/
theorem decodeSortKeyColumns_rows (columns : List SortKeyColumn) (resultOffset : Nat)
    (places : List KeyPlace) (vectors : ResultVectors ((columnTypes columns).map Prod.fst))
    (wellFormed : ∀ column ∈ columns, ∀ place ∈ places, column.1.WellFormedAt place.row)
    (fresh : ∀ index < places.length,
      (DecodedVector.childrenView _).Fresh vectors (resultOffset + index)) :
    ∃ decoded, decodeSortKeyColumns (columnTypes columns) resultOffset
        (places.map (KeyPlace.start (rowBytes columns))) vectors =
        .ok (places.map (KeyPlace.finish (rowBytes columns)), decoded) ∧
      ∀ index place, places[index]? = some place →
        rowsNotDistinct (resultColumns (columnTypes columns) decoded) (resultOffset + index) columns
          place.row = true := by
  induction columns generalizing places with
  | nil =>
      refine ⟨vectors, ?_, fun _ _ _ => rfl⟩
      refine congrArg (fun states => Except.ok (states, vectors)) ?_
      exact List.map_congr_left fun place _ =>
        congrArg (between · place.after) (List.append_nil place.before).symm
  | cons column rest ih =>
      obtain ⟨first, others⟩ := List.forall_mem_cons.mp wellFormed
      obtain ⟨vector, head_rows, written⟩ :=
        (column.1.decodeSortKeyRecursive_decodes column.2).leading (rowBytes rest) resultOffset places
          vectors.1 first (fun index inside => (fresh index inside).1)
      obtain ⟨decoded, tail_rows, values⟩ := ih (places.map (KeyPlace.behind
          (column.1.bytesAt column.2))) vectors.2
        (fun each member => List.forall_mem_map.mpr (others each member))
        (fun index inside => (fresh index (by simpa using inside)).2)
      have finished : (places.map (KeyPlace.behind (column.1.bytesAt column.2))).map
          (KeyPlace.finish (rowBytes rest)) = places.map (KeyPlace.finish (rowBytes (column :: rest))) := by
        rw [List.map_map]
        exact List.map_congr_left fun place _ =>
          congrArg (between · place.after) (List.append_assoc _ _ _)
      rw [finished] at tail_rows
      refine ⟨(vector, decoded), (bind_of_ok head_rows _).trans (bind_of_ok tail_rows _),
        fun index place found => ?_⟩
      have head := written.holds index (column.1.valueAt place.row)
        (by rw [List.getElem?_map, found]; rfl)
      have tail := values index (place.behind (column.1.bytesAt column.2))
        (by rw [List.getElem?_map, found]; rfl)
      have value := head.2
      rw [DecodedVector.valueAt_view] at value
      exact Bool.and_eq_true_iff.mpr ⟨value, tail⟩

/-- The key of a row is made of the bytes of its columns. -/
theorem createSortKeyInternal_blob {columns : List SortKeyColumn} {rowCount : Nat}
    {keys : Nat → SortKey} (created : createSortKeyInternal columns .blob rowCount = .ok keys)
    {row : Nat} (inside : row < rowCount) : keys row = .blob (rowBytes columns row) := by
  unfold createSortKeyInternal at created
  dsimp only at created
  split at created
  · cases created
  · cases created
    exact congrArg SortKey.blob (sortKeyBytes_eq inside)

theorem start_key (columns : List SortKeyColumn) (row : Nat) :
    KeyPlace.start (rowBytes columns) ⟨row, [], []⟩ = ⟨rowBytes columns row, 0⟩ :=
  congrArg (DecodeSortKeyData.mk · 0) (List.append_nil _)

theorem finish_key (columns : List SortKeyColumn) (row : Nat) :
    KeyPlace.finish (rowBytes columns) ⟨row, [], []⟩ =
      ⟨rowBytes columns row, (rowBytes columns row).length⟩ :=
  congrArg (DecodeSortKeyData.mk · (rowBytes columns row).length) (List.append_nil _)

/--
Decoding the key of a row reads the key to its end, and leaves a row of the same types that is
not distinct from the row that the key was created from.
-/
theorem decodeSortKey_createSortKey {columns : List SortKeyColumn} {rowCount : Nat}
    (wellFormed : WellFormedChunk columns rowCount) {keys : Nat → SortKey}
    (created : createSortKeyInternal columns .blob rowCount = .ok keys) {row : Nat}
    (inside : row < rowCount) {sortKey : List UInt8} (key : keys row = .blob sortKey)
    {result : ResultVectors ((columnTypes columns).map Prod.fst)} {resultIdx : Nat}
    (fresh : (DecodedVector.childrenView _).Fresh result resultIdx) :
    ∃ decodeData decoded,
      decodeSortKey sortKey (columnTypes columns) result resultIdx = .ok (decodeData, decoded) ∧
      decodeData.position = sortKey.length ∧
      columnTypes (resultColumns (columnTypes columns) decoded) = columnTypes columns ∧
      rowsNotDistinct (resultColumns (columnTypes columns) decoded) resultIdx columns row = true := by
  rw [createSortKeyInternal_blob created inside, SortKey.blob.injEq] at key
  obtain ⟨decoded, rows, values⟩ := decodeSortKeyColumns_rows columns resultIdx [⟨row, [], []⟩] result
    (fun column member place place_member => by
      rw [List.mem_singleton.mp place_member]
      exact wellFormed column member row inside)
    (fun index inside => by rwa [Nat.lt_one_iff.mp inside])
  rw [List.map_singleton, List.map_singleton, start_key, finish_key, key] at rows
  refine ⟨⟨sortKey, sortKey.length⟩, decoded, ?_, rfl, columnTypes_resultColumns _ _,
    values 0 _ rfl⟩
  unfold decodeSortKey
  exact bind_of_ok rows _

/--
A descending list with a NULL, the blob that has escapes in it, and a NULL array of intervals,
which has a NULL element.
-/
def nestedColumns : List SortKeyColumn :=
  sampleColumns ++
    [(.blob ⟨none, none⟩ fun _ => [0, 1, 254, 255], ⟨.descending, .nullsFirst⟩),
      (.array ⟨none, some fun _ => false⟩ 1
        (.interval ⟨none, some fun _ => false⟩ fun _ => ⟨1, 2, 3⟩), ⟨.ascending, .nullsLast⟩)]

theorem decodeSortKey_createSortKey_nested : ∃ keys sortKey decodeData decoded,
    createSortKeyInternal nestedColumns .blob 1 = .ok keys ∧ keys 0 = .blob sortKey ∧
      decodeSortKey sortKey (columnTypes nestedColumns) (DecodedVector.emptyChildren _) 0 =
        .ok (decodeData, decoded) ∧ decodeData.position = 19 := by
  have wellFormed : WellFormedChunk nestedColumns 1 := by
    intro column member row _
    simp only [nestedColumns, sampleColumns, List.cons_append, List.nil_append, List.mem_cons,
      List.not_mem_nil, or_false] at member
    rcases member with rfl | rfl | rfl
    · intro _ element _ _
      rfl
    · trivial
    · intro element _
      exact ⟨fun valid => absurd valid Bool.false_ne_true, fun _ => rfl⟩
  have first : 0 < 1 := Nat.one_pos
  obtain ⟨decodeData, decoded, succeeds, position, -, -⟩ := decodeSortKey_createSortKey wellFormed
    rfl first rfl (DecodedVector.fresh_emptyChildren _ 0)
  exact ⟨_, _, decodeData, decoded, rfl, rfl, succeeds, position.trans (by decide +kernel)⟩

end StatsRecommender
