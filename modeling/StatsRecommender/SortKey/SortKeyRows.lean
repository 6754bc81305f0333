import StatsRecommender.SortKey.CreateSortKey

/-!
# The bytes of a row

What both recursions come to for one row: the values in the vectors, the bytes that are
appended for them, and the length that is computed for these bytes.
-/

namespace StatsRecommender

variable {Value : Type} {bytes : Nat → List UInt8} {amounts : Nat → Nat}

/-- The rows of the child vector that an entry is made of. -/
def ListEntry.rows (entry : ListEntry) : List Nat := List.range' entry.offset entry.length

/-- The type of a column, as far as sort keys depend on it. -/
inductive KeyType where
  | constant (type : ConstantType)
  | interval
  | varchar
  | blob
  | struct (children : List KeyType)
  | list (child : KeyType)
  | array (arraySize : Nat) (child : KeyType)

/-- A child in front of other children. -/
def Fields.cons : Option Payload → Fields → Fields
  | none, rest => .null rest
  | some child, rest => .value child rest

def Fields.ofList (children : List (Option Payload)) : Fields := children.foldr Fields.cons .nil

namespace SortKeyVectorData

mutual

def type : SortKeyVectorData → KeyType
  | .constant type _ _ => .constant type
  | .interval _ _ => .interval
  | .varchar _ _ => .varchar
  | .blob _ _ => .blob
  | .struct _ children => .struct (childTypes children)
  | .list _ _ child => .list child.type
  | .array _ arraySize child => .array arraySize child.type

def childTypes : List SortKeyVectorData → List KeyType
  | [] => []
  | child :: rest => child.type :: childTypes rest

end

mutual

/-- The value of a row; none for NULL. -/
def valueAt : SortKeyVectorData → Nat → Option Payload
  | .constant _ format data, row =>
      if format.rowIsValid (format.getIndex row) then some (data (format.getIndex row)) else none
  | .interval format data, row =>
      if format.rowIsValid (format.getIndex row) then some (data (format.getIndex row)).payload
      else none
  | .varchar format data, row =>
      if format.rowIsValid (format.getIndex row) then some (.varchar (data (format.getIndex row)))
      else none
  | .blob format data, row =>
      if format.rowIsValid (format.getIndex row) then some (.varchar (data (format.getIndex row)))
      else none
  | .struct format children, row =>
      if format.rowIsValid (format.getIndex row) then some (.nested (fieldsAt children row))
      else none
  | .list format entries child, row =>
      if format.rowIsValid (format.getIndex row) then
        some (.nested (Fields.ofList ((entries (format.getIndex row)).rows.map fun element =>
          child.valueAt element)))
      else none
  | .array format arraySize child, row =>
      if format.rowIsValid (format.getIndex row) then
        some (.nested (Fields.ofList
          ((arrayEntry arraySize (format.getIndex row)).rows.map fun element =>
            child.valueAt element)))
      else none

/-- The children of a struct in a row. -/
def fieldsAt : List SortKeyVectorData → Nat → Fields
  | [], _ => .nil
  | child :: rest, row => .cons (child.valueAt row) (fieldsAt rest row)

end

mutual

/--
The values that a row is made of are of the type of the column, strings have no byte that
UTF-8 does not have, and a NULL struct or array has NULL children.
-/
def WellFormedAt : SortKeyVectorData → Nat → Prop
  | .constant type format data, row => format.rowIsValid (format.getIndex row) = true →
      (data (format.getIndex row)).hasType type.physicalType = true
  | .interval format data, row => format.rowIsValid (format.getIndex row) = true →
      (data (format.getIndex row)).inRange
  | .varchar format data, row => format.rowIsValid (format.getIndex row) = true →
      ∀ byte ∈ data (format.getIndex row), byte ≠ 255
  | .blob _ _, _ => True
  | .struct format children, row => ChildrenWellFormedAt children row ∧
      (format.rowIsValid (format.getIndex row) = false → ChildrenNullAt children row)
  | .list format entries child, row => format.rowIsValid (format.getIndex row) = true →
      ∀ element ∈ (entries (format.getIndex row)).rows, child.WellFormedAt element
  | .array format arraySize child, row =>
      ∀ element ∈ (arrayEntry arraySize (format.getIndex row)).rows, child.WellFormedAt element ∧
        (format.rowIsValid (format.getIndex row) = false → child.valueAt element = none)

def ChildrenWellFormedAt : List SortKeyVectorData → Nat → Prop
  | [], _ => True
  | child :: rest, row => child.WellFormedAt row ∧ ChildrenWellFormedAt rest row

def ChildrenNullAt : List SortKeyVectorData → Nat → Prop
  | [], _ => True
  | child :: rest, row => child.valueAt row = none ∧ ChildrenNullAt rest row

end

/-! ## The bytes -/

/-- The byte in front of a value. -/
def validityByte (modifiers : OrderModifiers) (valid : Bool) : UInt8 :=
  if valid then modifiers.validByte else modifiers.nullByte

/-- The bytes of a value that is not nested. -/
def valueBytes {Value : Type} (op : SortKeyOperator Value) (format : UnifiedVectorFormat)
    (data : Nat → Value) (modifiers : OrderModifiers) (row : Nat) : List UInt8 :=
  if format.rowIsValid (format.getIndex row) then
    modifiers.validByte :: flipped modifiers.flipBytes (op.encode (data (format.getIndex row)))
  else [modifiers.nullByte]

mutual

/-- The bytes of a row of a vector. -/
def bytesAt : SortKeyVectorData → OrderModifiers → Nat → List UInt8
  | .constant type format data, modifiers, row =>
      valueBytes (sortKeyConstantOperator type) format data modifiers row
  | .interval format data, modifiers, row =>
      valueBytes sortKeyIntervalOperator format data modifiers row
  | .varchar format data, modifiers, row =>
      valueBytes sortKeyVarcharOperator format data modifiers row
  | .blob format data, modifiers, row => valueBytes sortKeyBlobOperator format data modifiers row
  | .struct format children, modifiers, row =>
      validityByte modifiers (format.rowIsValid (format.getIndex row)) ::
        childBytesAt children modifiers.child row
  | .list format entries child, modifiers, row =>
      if format.rowIsValid (format.getIndex row) then
        modifiers.validByte :: ((entries (format.getIndex row)).rows.flatMap (fun element =>
          child.bytesAt modifiers.child element) ++ flipped modifiers.flipBytes [0])
      else [modifiers.nullByte]
  | .array format arraySize child, modifiers, row =>
      validityByte modifiers (format.rowIsValid (format.getIndex row)) ::
        ((arrayEntry arraySize (format.getIndex row)).rows.flatMap (fun element =>
          child.bytesAt modifiers.child element) ++ flipped modifiers.flipBytes [0])

def childBytesAt : List SortKeyVectorData → OrderModifiers → Nat → List UInt8
  | [], _, _ => []
  | child :: rest, modifiers, row => child.bytesAt modifiers row ++ childBytesAt rest modifiers row

end

end SortKeyVectorData

/-! ## Writing -/

namespace SortKeyRows

/-- The bytes of every row of a chunk, written to the results of the rows. -/
def writeEach (keys : SortKeyRows) (chunk : SortKeyChunk) (bytes : Nat → List UInt8) :
    SortKeyRows :=
  chunk.rows.foldl (fun keys row => keys.write (chunk.getResultIndex row) (bytes row)) keys

theorem write_write (keys : SortKeyRows) (row : Nat) (bytes more : List UInt8) :
    (keys.write row bytes).write row more = keys.write row (bytes ++ more) := by
  funext other
  unfold write
  split
  · rw [List.append_assoc]
  · rfl

theorem write_nil (keys : SortKeyRows) (row : Nat) : keys.write row [] = keys := by
  funext other
  unfold write
  split
  · rw [List.append_nil]
  · rfl

theorem foldl_write (target : Nat → Nat) (bytes : Nat → List UInt8) (rows : List Nat)
    (keys : SortKeyRows) (result : Nat) :
    rows.foldl (fun keys row => keys.write (target row) (bytes row)) keys result =
      keys result ++ (rows.filter fun row => target row == result).flatMap bytes := by
  induction rows generalizing keys with
  | nil => simp
  | cons row rest ih =>
      rw [List.foldl_cons, ih, write]
      by_cases here : target row = result
      · rw [if_pos here.symm, List.filter_cons_of_pos (by simpa using here), List.flatMap_cons,
          List.append_assoc]
      · rw [if_neg (Ne.symm here), List.filter_cons_of_neg (by simpa using here)]

/-- What a result has after a chunk was written. -/
theorem writeEach_apply (keys : SortKeyRows) (chunk : SortKeyChunk) (bytes : Nat → List UInt8)
    (result : Nat) : keys.writeEach chunk bytes result =
      keys result ++
        (chunk.rows.filter fun row => chunk.getResultIndex row == result).flatMap bytes :=
  foldl_write _ _ _ _ _

/-- All rows of an entry go to one result. -/
theorem writeEach_entry (keys : SortKeyRows) (start stop result : Nat)
    (bytes : Nat → List UInt8) : keys.writeEach ⟨start, stop, some result⟩ bytes =
      keys.write result ((List.range' start (stop - start)).flatMap bytes) := by
  funext other
  rw [writeEach_apply, write]
  unfold SortKeyChunk.rows SortKeyChunk.getResultIndex
  by_cases here : other = result
  · rw [if_pos here, List.filter_eq_self.mpr fun row _ => by simp [here]]
  · rw [if_neg here, List.filter_eq_nil_iff.mpr fun row _ => by simpa using Ne.symm here,
      List.flatMap_nil, List.append_nil]

end SortKeyRows

/-- No two rows of the chunk have the same result. -/
def SortKeyChunk.Separate (chunk : SortKeyChunk) : Prop :=
  ∀ result, (chunk.rows.filter fun row => chunk.getResultIndex row == result).length ≤ 1

theorem SortKeyChunk.separate_top (start stop : Nat) :
    SortKeyChunk.Separate ⟨start, stop, none⟩ := by
  intro result
  have distinct : (List.range' start (stop - start)).Nodup := List.nodup_range'
  exact (List.countP_eq_length_filter ▸ List.nodup_iff_count.mp distinct result)

theorem SortKeyChunk.separate_row (row result : Nat) :
    SortKeyChunk.Separate ⟨row, row + 1, some result⟩ := by
  intro other
  refine (List.length_filter_le _ _).trans ?_
  simp [SortKeyChunk.rows]

theorem SortKeyRows.writeEach_writeEach {chunk : SortKeyChunk} (separate : chunk.Separate)
    (keys : SortKeyRows) (bytes more : Nat → List UInt8) :
    (keys.writeEach chunk bytes).writeEach chunk more =
      keys.writeEach chunk fun row => bytes row ++ more row := by
  funext result
  have few := separate result
  rw [writeEach_apply, writeEach_apply, writeEach_apply, List.append_assoc]
  congr 1
  generalize (chunk.rows.filter fun row => chunk.getResultIndex row == result) = rows at few
  match rows with
  | [] => rfl
  | [row] => simp
  | _ :: _ :: _ => simp at few

theorem templatedConstructSortKey_eq (op : SortKeyOperator Value) (format : UnifiedVectorFormat)
    (data : Nat → Value) (chunk : SortKeyChunk) (modifiers : OrderModifiers) (keys : SortKeyRows) :
    templatedConstructSortKey op format data chunk modifiers keys =
      keys.writeEach chunk (SortKeyVectorData.valueBytes op format data modifiers) := by
  unfold templatedConstructSortKey SortKeyRows.writeEach
  split
  · rename_i empty
    rw [SortKeyChunk.rows, empty, Nat.sub_self]
    rfl
  · unfold templatedConstructSortKeyInternal
    congr 1
    funext keys row
    have result : (if (chunk.resultIndex.isSome || format.sel.isSome) = true then
        chunk.getResultIndex row else row) = chunk.getResultIndex row := by
      unfold SortKeyChunk.getResultIndex
      cases chunk.resultIndex <;> simp
    have index : (if (chunk.resultIndex.isSome || format.sel.isSome) = true then
        format.getIndex row else row) = format.getIndex row := by
      unfold UnifiedVectorFormat.getIndex
      cases format.sel <;> simp
    have valid : (!format.validity.isNone && !format.rowIsValid (format.getIndex row)) =
        !format.rowIsValid (format.getIndex row) := by
      unfold UnifiedVectorFormat.rowIsValid
      cases format.validity <;> simp
    dsimp only
    rw [result, index, valid, SortKeyVectorData.valueBytes]
    cases format.rowIsValid (format.getIndex row) with
    | true =>
        exact SortKeyRows.write_write _ _ _ _
    | false => rfl

/-- The loop over the children is given for chunks whose rows have results of their own. -/
theorem constructSortKeyStruct_eq {children : SortKeyChunk → SortKeyRows → SortKeyRows}
    (written : ∀ chunk keys, SortKeyChunk.Separate chunk →
      children chunk keys = keys.writeEach chunk bytes) (format : UnifiedVectorFormat)
    (chunk : SortKeyChunk) (modifiers : OrderModifiers) (keys : SortKeyRows) :
    constructSortKeyStruct format children chunk modifiers keys = keys.writeEach chunk fun row =>
      SortKeyVectorData.validityByte modifiers (format.rowIsValid (format.getIndex row)) ::
        bytes row := by
  unfold constructSortKeyStruct
  cases hresult : chunk.resultIndex with
  | none =>
      have separate : chunk.Separate := by
        obtain ⟨start, stop, resultIndex⟩ := chunk
        cases hresult
        exact SortKeyChunk.separate_top start stop
      change children chunk (keys.writeEach chunk fun row => [_]) = _
      rw [written chunk _ separate, SortKeyRows.writeEach_writeEach separate]
      rfl
  | some result =>
      unfold SortKeyRows.writeEach
      change chunk.rows.foldl _ keys = _
      congr 1
      funext keys row
      change children ⟨row, row + 1, some _⟩ _ = _
      rw [written _ _ (SortKeyChunk.separate_row row _), SortKeyRows.writeEach_entry,
        SortKeyRows.write_write, Nat.add_sub_cancel_left]
      simp [List.range'_one, SortKeyVectorData.validityByte]

theorem constructSortKeyList_eq {child : SortKeyChunk → SortKeyRows → SortKeyRows}
    (written : ∀ chunk keys, child chunk keys = keys.writeEach chunk bytes) (isArray : Bool)
    (getListEntry : Nat → ListEntry) (format : UnifiedVectorFormat) (chunk : SortKeyChunk)
    (modifiers : OrderModifiers) (keys : SortKeyRows) :
    constructSortKeyList isArray getListEntry format child chunk modifiers keys =
      keys.writeEach chunk fun row =>
        SortKeyVectorData.validityByte modifiers (format.rowIsValid (format.getIndex row)) ::
          if !format.rowIsValid (format.getIndex row) && !isArray then []
          else (getListEntry (format.getIndex row)).rows.flatMap bytes ++
            flipped modifiers.flipBytes [0] := by
  unfold constructSortKeyList SortKeyRows.writeEach
  congr 1
  funext keys row
  dsimp only
  have elements : ∀ keys : SortKeyRows, (if 0 < (getListEntry (format.getIndex row)).length then
      child ⟨(getListEntry (format.getIndex row)).offset,
        (getListEntry (format.getIndex row)).offset + (getListEntry (format.getIndex row)).length,
        some (chunk.getResultIndex row)⟩ keys else keys) =
      keys.write (chunk.getResultIndex row)
        ((getListEntry (format.getIndex row)).rows.flatMap bytes) := by
    intro keys
    rw [ListEntry.rows]
    split
    · rw [written, SortKeyRows.writeEach_entry, Nat.add_sub_cancel_left]
    · rename_i empty
      rw [Nat.eq_zero_of_not_pos empty, List.range'_zero, List.flatMap_nil,
        SortKeyRows.write_nil]
  split
  · rfl
  · rw [elements, SortKeyRows.write_write, SortKeyRows.write_write]
    rfl

mutual

/-- The recursion writes the bytes of every row, whatever the chunk. -/
theorem constructSortKeyRecursive_eq (vector : SortKeyVectorData) (chunk : SortKeyChunk)
    (modifiers : OrderModifiers) (keys : SortKeyRows) :
    constructSortKeyRecursive vector chunk modifiers keys =
      keys.writeEach chunk (vector.bytesAt modifiers) := by
  cases vector with
  | constant type format data => exact templatedConstructSortKey_eq _ format data chunk _ keys
  | interval format data => exact templatedConstructSortKey_eq _ format data chunk _ keys
  | varchar format data => exact templatedConstructSortKey_eq _ format data chunk _ keys
  | blob format data => exact templatedConstructSortKey_eq _ format data chunk _ keys
  | struct format children =>
      exact constructSortKeyStruct_eq (fun chunk keys separate =>
        constructSortKeyChildren_eq children modifiers.child separate keys) format chunk _ keys
  | list format entries child =>
      rw [constructSortKeyRecursive, constructSortKeyList_eq fun chunk keys =>
        constructSortKeyRecursive_eq child chunk modifiers.child keys]
      congr 1
      funext row
      rw [SortKeyVectorData.bytesAt]
      cases format.rowIsValid (format.getIndex row) <;> rfl
  | array format arraySize child =>
      rw [constructSortKeyRecursive, constructSortKeyList_eq fun chunk keys =>
        constructSortKeyRecursive_eq child chunk modifiers.child keys]
      congr 1
      funext row
      rw [SortKeyVectorData.bytesAt, Bool.not_true, Bool.and_false]
      rfl

theorem constructSortKeyChildren_eq (children : List SortKeyVectorData)
    (modifiers : OrderModifiers) {chunk : SortKeyChunk} (separate : chunk.Separate)
    (keys : SortKeyRows) :
    constructSortKeyChildren children chunk modifiers keys =
      keys.writeEach chunk (SortKeyVectorData.childBytesAt children modifiers) := by
  cases children with
  | nil =>
      funext result
      rw [constructSortKeyChildren, SortKeyRows.writeEach_apply]
      simp [SortKeyVectorData.childBytesAt]
  | cons child rest =>
      rw [constructSortKeyChildren, constructSortKeyRecursive_eq child,
        constructSortKeyChildren_eq rest modifiers separate,
        SortKeyRows.writeEach_writeEach separate]
      rfl

end

/-! ## Counting -/

namespace SortKeyLengths

/-- The amounts for every row of a chunk, added to the results of the rows. -/
def addEach (lengths : SortKeyLengths) (chunk : SortKeyChunk) (amounts : Nat → Nat) :
    SortKeyLengths :=
  chunk.rows.foldl (fun lengths row => lengths.add (chunk.getResultIndex row) (amounts row))
    lengths

theorem add_add (lengths : SortKeyLengths) (row amount more : Nat) :
    (lengths.add row amount).add row more = lengths.add row (amount + more) := by
  funext other
  unfold add
  split
  · rw [Nat.add_assoc]
  · rfl

theorem add_zero (lengths : SortKeyLengths) (row : Nat) : lengths.add row 0 = lengths := by
  funext other
  unfold add
  split <;> rfl

theorem foldl_add (target amounts : Nat → Nat) (rows : List Nat) (lengths : SortKeyLengths)
    (result : Nat) :
    rows.foldl (fun lengths row => lengths.add (target row) (amounts row)) lengths result =
      lengths result + ((rows.filter fun row => target row == result).map amounts).sum := by
  induction rows generalizing lengths with
  | nil => simp
  | cons row rest ih =>
      rw [List.foldl_cons, ih, add]
      by_cases here : target row = result
      · rw [if_pos here.symm, List.filter_cons_of_pos (by simpa using here), List.map_cons,
          List.sum_cons, Nat.add_assoc]
      · rw [if_neg (Ne.symm here), List.filter_cons_of_neg (by simpa using here)]

theorem addEach_apply (lengths : SortKeyLengths) (chunk : SortKeyChunk) (amounts : Nat → Nat)
    (result : Nat) : lengths.addEach chunk amounts result = lengths result +
      ((chunk.rows.filter fun row => chunk.getResultIndex row == result).map amounts).sum :=
  foldl_add _ _ _ _ _

theorem addEach_entry (lengths : SortKeyLengths) (start stop result : Nat) (amounts : Nat → Nat) :
    lengths.addEach ⟨start, stop, some result⟩ amounts =
      lengths.add result ((List.range' start (stop - start)).map amounts).sum := by
  funext other
  rw [addEach_apply, add]
  unfold SortKeyChunk.rows SortKeyChunk.getResultIndex
  by_cases here : other = result
  · rw [if_pos here, List.filter_eq_self.mpr fun row _ => by simp [here]]
  · rw [if_neg here, List.filter_eq_nil_iff.mpr fun row _ => by simpa using Ne.symm here]
    rfl

theorem addEach_addEach (lengths : SortKeyLengths) (chunk : SortKeyChunk)
    (amounts more : Nat → Nat) : (lengths.addEach chunk amounts).addEach chunk more =
      lengths.addEach chunk fun row => amounts row + more row := by
  funext result
  rw [addEach_apply, addEach_apply, addEach_apply, Nat.add_assoc]
  congr 1
  generalize (chunk.rows.filter fun row => chunk.getResultIndex row == result) = rows
  induction rows with
  | nil => rfl
  | cons row rest ih =>
      simp only [List.map_cons, List.sum_cons]
      omega

theorem addEach_congr {chunk : SortKeyChunk} {more : Nat → Nat}
    (same : ∀ row ∈ chunk.rows, amounts row = more row) (lengths : SortKeyLengths) :
    lengths.addEach chunk amounts = lengths.addEach chunk more := by
  funext result
  rw [addEach_apply, addEach_apply]
  congr 2
  exact List.map_congr_left fun row member => same row (List.mem_filter.mp member).1

end SortKeyLengths

theorem length_flipped (flipBytes : Bool) (bytes : List UInt8) :
    (flipped flipBytes bytes).length = bytes.length := by
  unfold flipped
  split
  · exact List.length_map _
  · rfl

theorem length_sortKeyVarchar (input : List UInt8) :
    (sortKeyVarcharOperator.encode input).length = sortKeyVarcharOperator.getEncodeLength input := by
  simp [sortKeyVarcharOperator]

theorem length_sortKeyBlob (input : List UInt8) :
    (sortKeyBlobOperator.encode input).length = sortKeyBlobOperator.getEncodeLength input := by
  induction input with
  | nil => rfl
  | cons byte rest ih =>
      simp only [sortKeyBlobOperator, List.flatMap_cons, List.length_append, List.length_cons,
        List.countP_cons, decide_eq_true_eq] at ih ⊢
      by_cases escaped : byte ≤ 1
      · rw [if_pos escaped, if_pos escaped, List.length_cons, List.length_singleton]
        omega
      · rw [if_neg escaped, if_neg escaped, List.length_singleton]
        omega

/-- The length computed for a value that is not nested. -/
theorem templatedGetSortKeyLength_eq (op : SortKeyOperator Value) (format : UnifiedVectorFormat)
    (data : Nat → Value) (chunk : SortKeyChunk) (modifiers : OrderModifiers)
    (exact_length : ∀ row ∈ chunk.rows, format.rowIsValid (format.getIndex row) = true →
      (op.encode (data (format.getIndex row))).length =
        op.getEncodeLength (data (format.getIndex row))) (lengths : SortKeyLengths) :
    templatedGetSortKeyLength op format data chunk lengths = lengths.addEach chunk fun row =>
      (SortKeyVectorData.valueBytes op format data modifiers row).length := by
  have counted : templatedGetSortKeyLength op format data chunk lengths =
      lengths.addEach chunk fun row => 1 + if format.rowIsValid (format.getIndex row) then
        op.getEncodeLength (data (format.getIndex row)) else 0 := by
    unfold templatedGetSortKeyLength SortKeyLengths.addEach
    congr 1
    funext lengths row
    dsimp only
    split
    · rw [SortKeyLengths.add_add]
    · rfl
  rw [counted]
  refine SortKeyLengths.addEach_congr (fun row member => ?_) lengths
  have encoded := exact_length row member
  unfold SortKeyVectorData.valueBytes
  split
  · rename_i valid
    rw [List.length_cons, length_flipped, encoded valid, Nat.add_comm]
  · rfl

/-- The recursion into the child is given for the rows that it counts correctly. -/
theorem getSortKeyLengthList_eq {child : SortKeyChunk → SortKeyLengths → SortKeyLengths}
    {Countable : Nat → Prop}
    (counted : ∀ chunk lengths, (∀ row ∈ SortKeyChunk.rows chunk, Countable row) →
      child chunk lengths = lengths.addEach chunk amounts) (isArray : Bool)
    (getListEntry : Nat → ListEntry) (format : UnifiedVectorFormat) (chunk : SortKeyChunk)
    (countable : ∀ row ∈ chunk.rows, (format.rowIsValid (format.getIndex row) || isArray) = true →
      ∀ element ∈ (getListEntry (format.getIndex row)).rows, Countable element)
    (lengths : SortKeyLengths) :
    getSortKeyLengthList isArray getListEntry format child chunk lengths =
      lengths.addEach chunk fun row =>
        1 + if !format.rowIsValid (format.getIndex row) && !isArray then 0
          else 1 + ((getListEntry (format.getIndex row)).rows.map amounts).sum := by
  unfold getSortKeyLengthList SortKeyLengths.addEach
  refine List.foldl_ext _ _ _ fun lengths row member => ?_
  dsimp only
  split
  · rfl
  · rename_i visited
    have entered : (format.rowIsValid (format.getIndex row) || isArray) = true := by
      revert visited
      cases format.rowIsValid (format.getIndex row) <;> cases isArray <;> simp
    have elements : (if 0 < (getListEntry (format.getIndex row)).length then
        child ⟨(getListEntry (format.getIndex row)).offset,
          (getListEntry (format.getIndex row)).offset +
            (getListEntry (format.getIndex row)).length, some (chunk.getResultIndex row)⟩
          ((lengths.add (chunk.getResultIndex row) 1).add (chunk.getResultIndex row) 1)
        else (lengths.add (chunk.getResultIndex row) 1).add (chunk.getResultIndex row) 1) =
        ((lengths.add (chunk.getResultIndex row) 1).add (chunk.getResultIndex row) 1).add
          (chunk.getResultIndex row)
          ((getListEntry (format.getIndex row)).rows.map amounts).sum := by
      have inside := countable row member entered
      rw [ListEntry.rows] at inside ⊢
      split
      · rw [counted _ _ (by rwa [SortKeyChunk.rows, Nat.add_sub_cancel_left]),
          SortKeyLengths.addEach_entry, Nat.add_sub_cancel_left]
      · rename_i empty
        rw [Nat.eq_zero_of_not_pos empty, List.range'_zero]
        exact (SortKeyLengths.add_zero _ _).symm
    rw [elements, SortKeyLengths.add_add, SortKeyLengths.add_add]

mutual

/-- The recursion counts the bytes that are written for every row. -/
theorem getSortKeyLengthRecursive_eq (vector : SortKeyVectorData) (chunk : SortKeyChunk)
    (modifiers : OrderModifiers) (wellFormed : ∀ row ∈ chunk.rows, vector.WellFormedAt row)
    (lengths : SortKeyLengths) :
    getSortKeyLengthRecursive vector chunk lengths =
      lengths.addEach chunk fun row => (vector.bytesAt modifiers row).length := by
  cases vector with
  | constant type format data =>
      exact templatedGetSortKeyLength_eq _ format data chunk modifiers
        (fun row member valid => Radix.length_encodeData (wellFormed row member valid)) lengths
  | interval format data =>
      exact templatedGetSortKeyLength_eq _ format data chunk modifiers
        (fun _ _ _ => Radix.length_encodeInterval _) lengths
  | varchar format data =>
      exact templatedGetSortKeyLength_eq _ format data chunk modifiers
        (fun _ _ _ => length_sortKeyVarchar _) lengths
  | blob format data =>
      exact templatedGetSortKeyLength_eq _ format data chunk modifiers
        (fun _ _ _ => length_sortKeyBlob _) lengths
  | struct format children =>
      rw [getSortKeyLengthRecursive, getSortKeyLengthChildren_eq children chunk modifiers.child
        fun row member => (wellFormed row member).1]
      change (lengths.addEach chunk fun _ => 1).addEach chunk _ = _
      rw [SortKeyLengths.addEach_addEach]
      refine SortKeyLengths.addEach_congr (fun row _ => ?_) lengths
      rw [SortKeyVectorData.bytesAt, List.length_cons, Nat.add_comm]
  | list format entries child =>
      rw [getSortKeyLengthRecursive, getSortKeyLengthList_eq (fun chunk lengths wellFormed =>
        getSortKeyLengthRecursive_eq child chunk modifiers.child wellFormed lengths) false entries
        format chunk fun row member valid => wellFormed row member (by simpa using valid)]
      refine SortKeyLengths.addEach_congr (fun row _ => ?_) lengths
      rw [SortKeyVectorData.bytesAt]
      cases format.rowIsValid (format.getIndex row) with
      | true =>
          simp only [Bool.not_true, Bool.false_and, Bool.false_eq_true, if_false, if_true,
            List.length_cons, List.length_append, List.length_flatMap, length_flipped,
            List.length_nil]
          omega
      | false => rfl
  | array format arraySize child =>
      rw [getSortKeyLengthRecursive, getSortKeyLengthList_eq (fun chunk lengths wellFormed =>
        getSortKeyLengthRecursive_eq child chunk modifiers.child wellFormed lengths) true
        (arrayEntry arraySize) format chunk fun row member _ element inside =>
          (wellFormed row member element inside).1]
      refine SortKeyLengths.addEach_congr (fun row _ => ?_) lengths
      rw [SortKeyVectorData.bytesAt]
      simp only [Bool.not_true, Bool.and_false, Bool.false_eq_true, if_false, List.length_cons,
        List.length_append, List.length_flatMap, length_flipped, List.length_nil]
      omega

theorem getSortKeyLengthChildren_eq (children : List SortKeyVectorData) (chunk : SortKeyChunk)
    (modifiers : OrderModifiers)
    (wellFormed : ∀ row ∈ chunk.rows, SortKeyVectorData.ChildrenWellFormedAt children row)
    (lengths : SortKeyLengths) :
    getSortKeyLengthChildren children chunk lengths = lengths.addEach chunk fun row =>
      (SortKeyVectorData.childBytesAt children modifiers row).length := by
  cases children with
  | nil =>
      funext result
      rw [getSortKeyLengthChildren, SortKeyLengths.addEach_apply]
      simp [SortKeyVectorData.childBytesAt]
  | cons child rest =>
      rw [getSortKeyLengthChildren,
        getSortKeyLengthRecursive_eq child chunk modifiers
          fun row member => (wellFormed row member).1,
        getSortKeyLengthChildren_eq rest chunk modifiers
          fun row member => (wellFormed row member).2,
        SortKeyLengths.addEach_addEach]
      refine SortKeyLengths.addEach_congr (fun row _ => ?_) lengths
      rw [SortKeyVectorData.childBytesAt, List.length_append]

end

end StatsRecommender
