import StatsRecommender.SortKey.DecodedRows

/-!
# Decoding what was encoded

The decoder of every type leaves the values of the rows whose bytes it reads, by the same
recursion over the type as the encoder, and ends behind these bytes.
-/

namespace StatsRecommender

variable {WellFormed : Nat → Prop} {Child : Type} {values : List (Option Payload)}

open DecodeSortKeyData

/-! ## Values that are not nested -/

/-- The rows of a flat vector. -/
def flatView {Value : Type} (payload : Value → Payload) : RowView (FlatVector Value) where
  Fresh := fun vector row => vector.validity row = true
  Settled := fun _ _ => True
  valueAt := fun vector row => if vector.validity row then some (payload (vector.data row)) else none

theorem OrderModifiers.validByte_ne_nullByte (modifiers : OrderModifiers) :
    modifiers.validByte ≠ modifiers.nullByte := by
  obtain ⟨orderType, nullType⟩ := modifiers
  cases nullType <;> simp [validByte, nullByte]

/-- The decoder of a value is given for the values that the encoder accepts. -/
theorem templatedDecodeSortKey_decodes {Value : Type} {op : SortKeyOperator Value}
    {decode : SortKeyDecoder Value} {payload : Value → Payload} {format : UnifiedVectorFormat}
    {data : Nat → Value} {WellFormed : Nat → Prop} (modifiers : OrderModifiers)
    (reads : ∀ row, WellFormed row → format.rowIsValid (format.getIndex row) = true →
      ∃ value, decode.Reads (op.encode (data (format.getIndex row))) value ∧
        (payload value).key = (payload (data (format.getIndex row))).key) :
    (flatView payload).DecodesRow (templatedDecodeSortKey decode modifiers)
      ⟨SortKeyVectorData.valueBytes op format data modifiers,
        fun row => if format.rowIsValid (format.getIndex row) then
          some (payload (data (format.getIndex row))) else none, WellFormed⟩ := by
  intro resultIdx place vector wellFormed fresh
  unfold KeyPlace.start KeyPlace.finish templatedDecodeSortKey
  dsimp only [SortKeyVectorData.valueBytes]
  cases valid : format.rowIsValid (format.getIndex place.row) with
  | false =>
      simp only [Bool.false_eq_true, if_false]
      refine ⟨{ vector with validity := Function.update vector.validity resultIdx false },
        ?_, ?_, ?_⟩
      · simp only [List.cons_append, List.nil_append, byte_between, advance_one, bind, Except.bind,
          if_true]
      · exact ⟨trivial, by simp [flatView, notDistinct]⟩
      · intro row different
        simp [RowView.Keeps, flatView, Function.update_of_ne different]
  | true =>
      obtain ⟨value, read, same⟩ := reads place.row wellFormed valid
      simp only [if_true]
      refine ⟨{ vector with data := Function.update vector.data resultIdx value }, ?_, ?_, ?_⟩
      · rw [List.cons_append]
        simp only [byte_between, advance_one, bind, Except.bind]
        rw [if_neg modifiers.validByte_ne_nullByte, drop_between, read]
        dsimp only
        rw [← length_flipped modifiers.flipBytes, advance_between, List.append_assoc]
        rfl
      · refine ⟨trivial, ?_⟩
        have valid_row : vector.validity resultIdx = true := fresh
        simp [flatView, notDistinct, valid_row, same]
      · intro row different
        simp [RowView.Keeps, flatView, Function.update_of_ne different]

/-! ## Structs -/

/-- The validity of the rows of a struct. -/
def validityView : RowView (Nat → Bool) where
  Fresh := fun validity row => validity row = true
  Settled := fun _ _ => True
  valueAt := fun validity row => some (.boolean (validity row))

/-- The rows of a struct, by those of its children. -/
def structView {Children : Type} (children : RowView Children) : RowView (StructVector Children) where
  Fresh := fun vector row => vector.validity row = true ∧ children.Fresh vector.children row
  Settled := fun vector row => children.Settled vector.children row
  valueAt := fun vector row =>
    if vector.validity row then children.valueAt vector.children row else none

theorem validityByte_eq_nullByte_iff (modifiers : OrderModifiers) (valid : Bool) :
    SortKeyVectorData.validityByte modifiers valid = modifiers.nullByte ↔ valid = false := by
  cases valid with
  | false => exact iff_of_true rfl rfl
  | true => exact iff_of_false modifiers.validByte_ne_nullByte (by decide)

theorem decodeStructValidity_decodes (modifiers : OrderModifiers) (valid : Nat → Bool) :
    validityView.DecodesRow (decodeStructValidity modifiers)
      ⟨fun row => [SortKeyVectorData.validityByte modifiers (valid row)],
        fun row => some (.boolean (valid row)), fun _ => True⟩ := by
  intro resultIdx place validity _ fresh
  have valid_row : validity resultIdx = true := fresh
  unfold KeyPlace.start KeyPlace.finish decodeStructValidity
  simp only [List.cons_append, List.nil_append, byte_between, advance_one, bind, Except.bind,
    validityByte_eq_nullByte_iff]
  refine ⟨_, rfl, ⟨trivial, ?_⟩, fun row different => ?_⟩
  · cases valid place.row with
    | false => simp [validityView, notDistinct]
    | true => simp [validityView, notDistinct, valid_row]
  · split
    · simp [RowView.Keeps, validityView, Function.update_of_ne different]
    · exact RowView.Keeps.refl validity row

/-- The validity of all rows is in front of the children of all rows. -/
theorem decodeSortKeyStruct_decodes {Children : Type} {view : RowView Children} {source : KeySource}
    {decodeChildren : RowsDecoder Children} (decodes : view.Decodes decodeChildren source)
    (modifiers : OrderModifiers) (valid : Nat → Bool)
    (wellFormed : ∀ row, WellFormed row → source.WellFormed row) :
    (structView view).Decodes (decodeSortKeyStruct decodeChildren modifiers)
      ⟨fun row => SortKeyVectorData.validityByte modifiers (valid row) :: source.bytes row,
        fun row => if valid row then source.value row else none, WellFormed⟩ := by
  intro resultOffset places vector formed fresh
  obtain ⟨validity, validRows, validWritten⟩ :=
    (decodeStructValidity_decodes modifiers valid).rows.leading source.bytes resultOffset places
      vector.validity (fun _ _ => trivial) (fun index inside => (fresh index inside).1)
  obtain ⟨children, childRows, childWritten⟩ := decodes.behind
    (fun row => [SortKeyVectorData.validityByte modifiers (valid row)]) resultOffset places
    vector.children (fun place member => wellFormed _ (formed place member))
    (fun index inside => (fresh index inside).2)
  refine ⟨⟨validity, children⟩, ?_, fun index value found => ?_, fun row outside => ?_⟩
  · unfold decodeSortKeyStruct
    refine (bind_of_ok validRows _).trans ?_
    exact bind_of_ok childRows _
  · rw [List.getElem?_map] at found
    obtain ⟨place, place_found, rfl⟩ := Option.map_eq_some_iff.mp found
    have place_valid := validWritten.holds index (some (.boolean (valid place.row)))
      (by rw [List.getElem?_map, place_found]; rfl)
    have place_children := childWritten.holds index (source.value place.row)
      (by rw [List.getElem?_map, place_found]; rfl)
    have same : validity (resultOffset + index) = valid place.row :=
      beq_iff_eq.mp place_valid.2
    refine ⟨place_children.1, ?_⟩
    simp only [structView, same]
    cases valid place.row with
    | false => rfl
    | true => exact place_children.2
  · rw [List.length_map] at outside
    have valid_kept := validWritten.keeps row (by rwa [List.length_map])
    have children_kept := childWritten.keeps row (by rwa [List.length_map])
    have same : validity row = vector.validity row := by
      simpa [validityView] using (valid_kept.2 trivial).2
    refine ⟨fun unwritten => ⟨same.trans unwritten.1, children_kept.1 unwritten.2⟩, fun settled => ?_⟩
    obtain ⟨after, equal⟩ := children_kept.2 settled
    refine ⟨after, ?_⟩
    simp only [structView, same, equal]

/-! ## Lists and arrays -/

/-- The rows of a list vector; a list that is written has its elements in the child. -/
def listView {Child : Type} (child : RowView Child) : RowView (ListVector Child) where
  Fresh := fun vector row => vector.validity row = true ∧
    ∀ element, vector.listSize ≤ element → child.Fresh vector.child element
  Settled := fun vector row => vector.validity row = true →
    ∀ element ∈ (vector.entries row).rows,
      element < vector.listSize ∧ child.Settled vector.child element
  valueAt := fun vector row => if vector.validity row then
    some (.nested (Fields.ofList ((vector.entries row).rows.map fun element =>
      child.valueAt vector.child element))) else none

/-- The rows of an array vector. -/
def arrayView {Child : Type} (arraySize : Nat) (child : RowView Child) :
    RowView (ArrayVector Child) where
  Fresh := fun vector row => vector.validity row = true ∧
    ∀ element ∈ (arrayEntry arraySize row).rows, child.Fresh vector.child element
  Settled := fun vector row =>
    ∀ element ∈ (arrayEntry arraySize row).rows, child.Settled vector.child element
  valueAt := fun vector row => if vector.validity row then
    some (.nested (Fields.ofList ((arrayEntry arraySize row).rows.map fun element =>
      child.valueAt vector.child element))) else none

/-- Elements that were written one after the other, as a nested value. -/
theorem RowView.Written.notDistinct_elements {view : RowView Child} {start : Nat} {old new : Child}
    (written : view.Written values start old new) :
    notDistinct (some (.nested (Fields.ofList ((List.range' start values.length).map fun element =>
      view.valueAt new element)))) (some (.nested (Fields.ofList values))) = true := by
  rw [notDistinct_iff_fieldDigits]
  have digits := written.digits
  simp only [fieldDigits, Payload.digits, digits_ofList, List.flatMap_def, List.map_map]
  rw [← digits]
  rfl

theorem RowView.Written.settled {Child : Type} {view : RowView Child}
    {values : List (Option Payload)} {start : Nat} {old new : Child}
    (written : view.Written values start old new) :
    ∀ element ∈ List.range' start values.length, view.Settled new element := by
  intro element member
  obtain ⟨low, high⟩ := List.mem_range'_1.mp member
  have found := List.getElem?_eq_getElem (show element - start < values.length by omega)
  have holds := written.holds _ _ found
  rw [Nat.add_sub_cancel' low] at holds
  exact holds.1

/-- Other rows keep their elements while elements are appended to the child. -/
theorem listView_keeps {Child : Type} {view : RowView Child} {values : List (Option Payload)}
    {old new : ListVector Child} {row : Nat} (valid : new.validity row = old.validity row)
    (entry : new.entries row = old.entries row)
    (size : new.listSize = old.listSize + values.length)
    (written : view.Written values old.listSize old.child new.child) :
    (listView view).Keeps old new row := by
  constructor
  · rintro ⟨valid_row, fresh⟩
    refine ⟨valid.trans valid_row, fun element later => ?_⟩
    exact (written.keeps element (by omega)).1 (fresh element (by omega))
  · intro settled
    have kept : old.validity row = true → ∀ element ∈ (old.entries row).rows,
        element < new.listSize ∧ view.Settled new.child element ∧
          view.valueAt new.child element = view.valueAt old.child element := by
      intro valid_row element member
      obtain ⟨below, element_settled⟩ := settled valid_row element member
      exact ⟨by omega, (written.keeps element (by omega)).2 element_settled⟩
    constructor
    · intro valid_row element member
      rw [entry] at member
      obtain ⟨below, element_settled, -⟩ := kept (valid ▸ valid_row) element member
      exact ⟨below, element_settled⟩
    · simp only [listView, valid, entry]
      cases valid_row : old.validity row with
      | false => rfl
      | true =>
          have values := List.map_congr_left fun element member =>
            (kept valid_row element member).2.2
          rw [if_pos rfl, if_pos rfl, values]

theorem RowView.length_le_flatMap {source : KeySource} {delimiter : UInt8}
    (apart : RowView.BeginsApart source delimiter) (elements : List Nat) :
    elements.length ≤ (elements.flatMap source.bytes).length := by
  induction elements with
  | nil => exact le_rfl
  | cons row rest ih =>
      obtain ⟨byte, bytes, starts, -⟩ := apart row
      rw [List.flatMap_cons, List.length_append, List.length_cons, starts, List.length_cons]
      omega

/-- The bytes of a list are those of its elements, up to the delimiter. -/
theorem decodeSortKeyList_decodes {view : RowView Child} {source : KeySource}
    {decodeChild : RowsDecoder Child} (decodes : view.Decodes decodeChild source)
    (modifiers : OrderModifiers)
    (apart : RowView.BeginsApart source (flippedByte modifiers.flipBytes 0)) (valid : Nat → Bool)
    (elements : Nat → List Nat) (wellFormed : ∀ row, WellFormed row → valid row = true →
      ∀ element ∈ elements row, source.WellFormed element) :
    (listView view).DecodesRow (decodeSortKeyList decodeChild modifiers)
      ⟨fun row => if valid row then modifiers.validByte :: ((elements row).flatMap source.bytes ++
          flipped modifiers.flipBytes [0]) else [modifiers.nullByte],
        fun row => if valid row then some (.nested (Fields.ofList
          ((elements row).map fun element => source.value element))) else none, WellFormed⟩ := by
  intro resultIdx place vector formed fresh
  unfold KeyPlace.start KeyPlace.finish decodeSortKeyList
  dsimp only
  cases here : valid place.row with
  | false =>
      simp only [Bool.false_eq_true, if_false]
      refine ⟨{ vector with validity := Function.update vector.validity resultIdx false },
        ?_, ?_, fun row different => ?_⟩
      · simp only [List.cons_append, List.nil_append, byte_between, advance_one, bind, Except.bind,
          if_true]
      · exact ⟨fun valid_row => absurd valid_row (by simp), by simp [listView, notDistinct]⟩
      · exact @listView_keeps _ view [] vector _ row (Function.update_of_ne different _ _) rfl rfl
          (.nil _ _)
  | true =>
      simp only [if_true]
      have delimited : flipped modifiers.flipBytes [0] = [flippedByte modifiers.flipBytes 0] := by
        rw [flipped_eq_map]
        rfl
      obtain ⟨child, loop, written⟩ := decodes.listElements apart (elements place.row)
        (place.before ++ [modifiers.validByte]) place.after
        (between (place.before ++ [modifiers.validByte]) ((elements place.row).flatMap source.bytes ++
          flippedByte modifiers.flipBytes 0 :: place.after)).data.length vector.listSize vector.child
        (by
          have short := RowView.length_le_flatMap apart (elements place.row)
          simp only [between, List.length_append, List.length_cons]
          omega) (wellFormed place.row formed here) fresh.2
      have count : ((elements place.row).map source.value).length = (elements place.row).length :=
        List.length_map _
      refine ⟨{ vector with
        entries := Function.update vector.entries resultIdx
          ⟨vector.listSize, (elements place.row).length⟩
        listSize := vector.listSize + (elements place.row).length
        child := child }, ?_, ⟨fun _ => ?_, ?_⟩, fun row different => ?_⟩
      · rw [delimited, List.cons_append, List.append_assoc]
        simp only [byte_between, advance_one, bind, Except.bind]
        rw [if_neg modifiers.validByte_ne_nullByte, List.singleton_append, loop]
        dsimp only
        rw [advance_one, Nat.add_sub_cancel_left]
        simp only [List.append_assoc, List.cons_append, List.nil_append]
      · have settled := written.settled
        rw [count] at settled
        simp only [Function.update_self, ListEntry.rows]
        intro element member
        exact ⟨(List.mem_range'_1.mp member).2, settled element member⟩
      · have values := written.notDistinct_elements
        have valid_row : vector.validity resultIdx = true := fresh.1
        rw [count] at values
        simp only [listView, valid_row, if_true, Function.update_self, ListEntry.rows]
        exact values
      · exact listView_keeps rfl (Function.update_of_ne different _ _) (by rw [count]) written

/-- Other rows of an array vector have other elements of the child. -/
theorem arrayView_keeps {view : RowView Child} {arraySize : Nat} {old new : ArrayVector Child}
    {resultIdx row : Nat} (different : row ≠ resultIdx) (count : values.length = arraySize)
    (valid : new.validity row = old.validity row)
    (written : view.Written values (arraySize * resultIdx) old.child new.child) :
    (arrayView arraySize view).Keeps old new row := by
  have apart : ∀ element ∈ (arrayEntry arraySize row).rows,
      element < arraySize * resultIdx ∨ arraySize * resultIdx + values.length ≤ element := by
    intro element member
    obtain ⟨low, high⟩ := List.mem_range'_1.mp member
    dsimp only [arrayEntry] at low high
    rcases Nat.lt_or_gt_of_ne different with before | behind
    · have next := Nat.mul_le_mul_left arraySize (Nat.succ_le_of_lt before)
      rw [Nat.mul_succ] at next
      omega
    · have next := Nat.mul_le_mul_left arraySize (Nat.succ_le_of_lt behind)
      rw [Nat.mul_succ] at next
      omega
  constructor
  · rintro ⟨valid_row, fresh⟩
    exact ⟨valid.trans valid_row, fun element member =>
      (written.keeps element (apart element member)).1 (fresh element member)⟩
  · intro settled
    have kept : ∀ element ∈ (arrayEntry arraySize row).rows, view.Settled new.child element ∧
        view.valueAt new.child element = view.valueAt old.child element := fun element member =>
      (written.keeps element (apart element member)).2 (settled element member)
    refine ⟨fun element member => (kept element member).1, ?_⟩
    have values := List.map_congr_left fun element member => (kept element member).2
    simp only [arrayView, valid, values]

/-- The bytes of an array have all its elements, also if it is NULL. -/
theorem decodeSortKeyArray_decodes {Child : Type} {view : RowView Child} {source : KeySource}
    {decodeChild : RowsDecoder Child} (decodes : view.Decodes decodeChild source)
    (modifiers : OrderModifiers)
    (apart : RowView.BeginsApart source (flippedByte modifiers.flipBytes 0)) (valid : Nat → Bool)
    (elements : Nat → List Nat) (arraySize : Nat)
    (count : ∀ row, (elements row).length = arraySize) {WellFormed : Nat → Prop}
    (wellFormed : ∀ row, WellFormed row → ∀ element ∈ elements row, source.WellFormed element) :
    (arrayView arraySize view).DecodesRow (decodeSortKeyArray decodeChild arraySize modifiers)
      ⟨fun row => SortKeyVectorData.validityByte modifiers (valid row) ::
          ((elements row).flatMap source.bytes ++ flipped modifiers.flipBytes [0]),
        fun row => if valid row then some (.nested (Fields.ofList
          ((elements row).map fun element => source.value element))) else none, WellFormed⟩ := by
  intro resultIdx place vector formed fresh
  have delimited : flipped modifiers.flipBytes [0] = [flippedByte modifiers.flipBytes 0] := by
    rw [flipped_eq_map]
    rfl
  obtain ⟨child, loop, written⟩ := decodes.arrayElements apart (elements place.row)
    (place.before ++ [SortKeyVectorData.validityByte modifiers (valid place.row)]) place.after
    (arraySize * resultIdx) 0 vector.child (wellFormed place.row formed)
    (fun index inside => fresh.2 _ (by
      rw [ListEntry.rows, List.mem_range'_1]
      dsimp only [arrayEntry]
      rw [count] at inside
      omega))
  have values_count : ((elements place.row).map source.value).length = arraySize := by
    rw [List.length_map, count]
  rw [count, Nat.zero_add] at loop
  rw [Nat.add_zero] at written
  have validity : ∀ row, (if SortKeyVectorData.validityByte modifiers (valid place.row) =
      modifiers.nullByte then Function.update vector.validity resultIdx false
      else vector.validity) row =
        if row = resultIdx ∧ valid place.row = false then false else vector.validity row := by
    intro row
    simp only [validityByte_eq_nullByte_iff]
    by_cases null : valid place.row = false
    · by_cases same : row = resultIdx
      · rw [if_pos null, if_pos ⟨same, null⟩, same, Function.update_self]
      · rw [if_pos null, if_neg fun both => same both.1, Function.update_of_ne same]
    · rw [if_neg null, if_neg fun both => null both.2]
  unfold KeyPlace.start KeyPlace.finish decodeSortKeyArray
  dsimp only
  rw [delimited]
  simp only [List.cons_append, List.append_assoc, List.nil_append, byte_between, advance_one, bind,
    Except.bind] at loop ⊢
  rw [loop]
  dsimp only
  rw [if_neg (not_not.mpr rfl), advance_one]
  refine ⟨⟨if SortKeyVectorData.validityByte modifiers (valid place.row) = modifiers.nullByte then
    Function.update vector.validity resultIdx false else vector.validity, child⟩,
    ?_, ⟨?_, ?_⟩, fun row different => ?_⟩
  · simp only [List.append_assoc, List.cons_append]
  · have settled := written.settled
    rw [values_count] at settled
    exact settled
  · have values := written.notDistinct_elements
    have valid_row : vector.validity resultIdx = true := fresh.1
    rw [values_count] at values
    simp only [arrayView, validity, valid_row, true_and, ListEntry.rows, arrayEntry]
    cases valid place.row with
    | false => rfl
    | true => exact values
  · refine arrayView_keeps different values_count ?_ written
    exact (validity row).trans (if_neg fun both => different both.1)

/-! ## All types -/

namespace DecodedVector

mutual

/-- The rows of a vector of a type. -/
def view : (type : KeyType) → RowView (DecodedVector type)
  | .constant _ => flatView id
  | .interval => flatView IntervalValue.payload
  | .varchar => flatView Payload.varchar
  | .blob => flatView Payload.varchar
  | .struct children => structView (childrenView children)
  | .list child => listView (view child)
  | .array arraySize child => arrayView arraySize (view child)

/-- The rows of the children of a struct, read as its values. -/
def childrenView : (types : List KeyType) → RowView (ResultVectors types)
  | [] => ⟨fun _ _ => True, fun _ _ => True, fun _ _ => some (.nested .nil)⟩
  | type :: rest =>
      { Fresh := fun vectors row =>
          (view type).Fresh vectors.1 row ∧ (childrenView rest).Fresh vectors.2 row
        Settled := fun vectors row =>
          (view type).Settled vectors.1 row ∧ (childrenView rest).Settled vectors.2 row
        valueAt := fun vectors row => some (.nested
          (SortKeyVectorData.fieldsAt (toChildData (type :: rest) vectors) row)) }

end

mutual

/-- The values of the rows are those that are read from the vector. -/
theorem valueAt_view (type : KeyType) (vector : DecodedVector type) (row : Nat) :
    (view type).valueAt vector row = (toVectorData type vector).valueAt row := by
  cases type with
  | constant type => rfl
  | interval => rfl
  | varchar => rfl
  | blob => rfl
  | struct children =>
      have fields := valueAt_childrenView children vector.children row
      simp only [view, structView, fields]
      rfl
  | list child =>
      have elements := fun element => valueAt_view child vector.child element
      simp only [view, listView, elements]
      rfl
  | array arraySize child =>
      have elements := fun element => valueAt_view child vector.child element
      simp only [view, arrayView, elements]
      rfl

theorem valueAt_childrenView (types : List KeyType) (vectors : ResultVectors types) (row : Nat) :
    (childrenView types).valueAt vectors row =
      some (.nested (SortKeyVectorData.fieldsAt (toChildData types vectors) row)) := by
  cases types with
  | nil => rfl
  | cons type rest => rfl

end

end DecodedVector

namespace SortKeyVectorData

/-- The rows of a vector that keys are made from. -/
def keySource (vector : SortKeyVectorData) (modifiers : OrderModifiers) : KeySource where
  bytes := vector.bytesAt modifiers
  value := vector.valueAt
  WellFormed := vector.WellFormedAt

/-- The rows of the children of a struct. -/
def childrenSource (children : List SortKeyVectorData) (modifiers : OrderModifiers) : KeySource where
  bytes := childBytesAt children modifiers
  value := fun row => some (.nested (fieldsAt children row))
  WellFormed := ChildrenWellFormedAt children

/-- Neither byte in front of a value is the delimiter of a list. -/
theorem keySource_beginsApart (vector : SortKeyVectorData) (modifiers : OrderModifiers) :
    RowView.BeginsApart (vector.keySource modifiers.child)
      (flippedByte modifiers.flipBytes 0) := by
  intro row
  obtain ⟨rest, bytes⟩ := vector.bytesAt_eq_cons modifiers.child row
  refine ⟨_, rest, bytes, ?_⟩
  obtain ⟨orderType, nullType⟩ := modifiers
  cases orderType <;> cases nullType <;> cases (vector.valueAt row).isSome <;> decide

mutual

/-- The decoder of a type leaves the values of the rows whose bytes it reads. -/
theorem decodeSortKeyRecursive_decodes (source : SortKeyVectorData) (modifiers : OrderModifiers) :
    (DecodedVector.view source.type).Decodes (decodeSortKeyRecursive source.type modifiers)
      (source.keySource modifiers) := by
  cases source with
  | constant type format data =>
      exact (@templatedDecodeSortKey_decodes _ (sortKeyConstantOperator type) _ id format data
        (constant type format data).WellFormedAt modifiers fun row wellFormed valid =>
          ⟨_, sortKeyConstantDecode_reads (Radix.length_encodeData (wellFormed valid))
            (Radix.decodeData type),
            Radix.key_decodeData (wellFormed valid)⟩).rows
  | interval format data =>
      exact (@templatedDecodeSortKey_decodes _ sortKeyIntervalOperator _ IntervalValue.payload format
        data (interval format data).WellFormedAt modifiers fun row wellFormed valid =>
          ⟨_, sortKeyConstantDecode_reads (Radix.length_encodeInterval _) Radix.decodeInterval,
            congrArg (fun value => (IntervalValue.payload value).key)
              (Radix.decodeInterval_encodeInterval (wellFormed valid))⟩).rows
  | varchar format data =>
      exact (@templatedDecodeSortKey_decodes _ sortKeyVarcharOperator _ Payload.varchar format data
        (varchar format data).WellFormedAt modifiers fun row wellFormed valid =>
          ⟨_, sortKeyVarcharDecode_reads (wellFormed valid), rfl⟩).rows
  | blob format data =>
      exact (@templatedDecodeSortKey_decodes _ sortKeyBlobOperator _ Payload.varchar format data
        (blob format data).WellFormedAt modifiers fun row _ _ =>
          ⟨_, sortKeyBlobDecode_reads _, rfl⟩).rows
  | struct format children =>
      exact decodeSortKeyStruct_decodes (decodeSortKeyChildren_decodes children modifiers.child)
        modifiers (fun row => format.rowIsValid (format.getIndex row))
        fun row (wellFormed : (struct format children).WellFormedAt row) => wellFormed.1
  | list format entries child =>
      have rows := (decodeSortKeyList_decodes (decodeSortKeyRecursive_decodes child modifiers.child)
        modifiers (child.keySource_beginsApart modifiers)
        (fun row => format.rowIsValid (format.getIndex row))
        (fun row => (entries (format.getIndex row)).rows)
        fun row (wellFormed : (list format entries child).WellFormedAt row) => wellFormed).rows
      exact rows
  | array format arraySize child =>
      have rows := (decodeSortKeyArray_decodes
        (decodeSortKeyRecursive_decodes child modifiers.child) modifiers
        (child.keySource_beginsApart modifiers)
        (fun row => format.rowIsValid (format.getIndex row))
        (fun row => (arrayEntry arraySize (format.getIndex row)).rows) arraySize
        (fun row => List.length_range')
        fun row (wellFormed : (array format arraySize child).WellFormedAt row) element inside =>
          (wellFormed element inside).1).rows
      exact rows

theorem decodeSortKeyChildren_decodes (children : List SortKeyVectorData)
    (modifiers : OrderModifiers) :
    (DecodedVector.childrenView (childTypes children)).Decodes
      (decodeSortKeyChildren (childTypes children) modifiers) (childrenSource children modifiers) := by
  cases children with
  | nil =>
      intro resultOffset places vectors _ _
      refine ⟨vectors, ?_, fun index value found => ?_, fun row _ => RowView.Keeps.refl vectors row⟩
      · refine congrArg (fun states => Except.ok (states, vectors)) ?_
        exact List.map_congr_left fun place _ =>
          congrArg (between · place.after) (List.append_nil place.before).symm
      · rw [List.getElem?_map] at found
        obtain ⟨place, -, rfl⟩ := Option.map_eq_some_iff.mp found
        exact ⟨trivial, rfl⟩
  | cons child rest =>
      intro resultOffset places vectors wellFormed fresh
      obtain ⟨vector, head_rows, first⟩ := (decodeSortKeyRecursive_decodes child modifiers).leading
        (childBytesAt rest modifiers) resultOffset places vectors.1
        (fun place member => (wellFormed place member).1)
        (fun index inside => (fresh index inside).1)
      obtain ⟨others, tail_rows, second⟩ := (decodeSortKeyChildren_decodes rest modifiers).behind
        (child.bytesAt modifiers) resultOffset places vectors.2
        (fun place member => (wellFormed place member).2)
        (fun index inside => (fresh index inside).2)
      refine ⟨(vector, others), (bind_of_ok head_rows _).trans (bind_of_ok tail_rows _), fun index value found => ?_, fun row outside => ?_⟩
      · rw [List.getElem?_map] at found
        obtain ⟨place, place_found, rfl⟩ := Option.map_eq_some_iff.mp found
        have head := first.holds index (child.valueAt place.row)
          (by rw [List.getElem?_map, place_found]; rfl)
        have tail := second.holds index (some (.nested (fieldsAt rest place.row)))
          (by rw [List.getElem?_map, place_found]; rfl)
        refine ⟨⟨head.1, tail.1⟩, (notDistinct_iff_fieldDigits _ _).mpr ?_⟩
        have head_digits := (notDistinct_iff_fieldDigits _ _).mp head.2
        have tail_digits := (notDistinct_iff_fieldDigits _ _).mp tail.2
        rw [DecodedVector.valueAt_view] at head_digits
        rw [DecodedVector.valueAt_childrenView] at tail_digits
        have fields := (List.cons.inj (List.cons.inj tail_digits).2).2
        change 1 :: 5 :: (Fields.cons _ _).digits = 1 :: 5 :: (Fields.cons _ _).digits
        rw [digits_cons, digits_cons, head_digits, fields]
      · rw [List.length_map] at outside
        have head := first.keeps row (by rwa [List.length_map])
        have tail := second.keeps row (by rwa [List.length_map])
        refine ⟨fun unwritten => ⟨head.1 unwritten.1, tail.1 unwritten.2⟩, fun settled => ?_⟩
        obtain ⟨head_settled, head_same⟩ := head.2 settled.1
        obtain ⟨tail_settled, tail_same⟩ := tail.2 settled.2
        refine ⟨⟨head_settled, tail_settled⟩, ?_⟩
        rw [DecodedVector.valueAt_view, DecodedVector.valueAt_view] at head_same
        rw [DecodedVector.valueAt_childrenView, DecodedVector.valueAt_childrenView] at tail_same
        injection tail_same with nested
        injection nested with fields
        change some (Payload.nested (Fields.cons _ _)) = some (Payload.nested (Fields.cons _ _))
        rw [head_same, fields]

end

end SortKeyVectorData

end StatsRecommender
