import StatsRecommender.SortKey.Radix

/-!
# Creating sort keys

`function/scalar/create_sort_key.cpp`: the lengths of the keys of a chunk are computed column
by column, then the keys are written in the same order into rows of these lengths.
-/

namespace StatsRecommender

/-- `OrderType`. -/
inductive OrderType where
  | ascending
  | descending
  deriving DecidableEq, Repr

/-- `OrderByNullType`. -/
inductive OrderByNullType where
  | nullsFirst
  | nullsLast
  deriving DecidableEq, Repr

/-- `OrderModifiers`. -/
structure OrderModifiers where
  orderType : OrderType
  nullType : OrderByNullType
  deriving DecidableEq, Repr

namespace OrderModifiers

/-- The modifiers inside of nested values, where NULLs are the greatest values. -/
def child (modifiers : OrderModifiers) : OrderModifiers :=
  ⟨modifiers.orderType, if modifiers.orderType = .ascending then .nullsLast else .nullsFirst⟩

/-- `null_byte`, for `NULL_FIRST_BYTE` and `NULL_LAST_BYTE`. -/
def nullByte (modifiers : OrderModifiers) : UInt8 :=
  if modifiers.nullType = .nullsLast then 2 else 1

/-- `valid_byte`. -/
def validByte (modifiers : OrderModifiers) : UInt8 :=
  if modifiers.nullType = .nullsLast then 1 else 2

def flipBytes (modifiers : OrderModifiers) : Bool := modifiers.orderType == .descending

end OrderModifiers

/-- `UnifiedVectorFormat`; without a selection and without a mask all rows are meant. -/
structure UnifiedVectorFormat where
  sel : Option (Nat → Nat)
  validity : Option (Nat → Bool)

namespace UnifiedVectorFormat

/-- `sel->get_index`. -/
def getIndex (format : UnifiedVectorFormat) (row : Nat) : Nat :=
  match format.sel with
  | some sel => sel row
  | none => row

/-- `validity.RowIsValid`. -/
def rowIsValid (format : UnifiedVectorFormat) (index : Nat) : Bool :=
  match format.validity with
  | some validity => validity index
  | none => true

end UnifiedVectorFormat

/-- `list_entry_t`. -/
structure ListEntry where
  offset : Nat
  length : Nat
  deriving DecidableEq, Repr

/-- `SortKeyVectorData`, by the physical type of its vector. -/
inductive SortKeyVectorData where
  | constant (type : ConstantType) (format : UnifiedVectorFormat) (data : Nat → Payload)
  | interval (format : UnifiedVectorFormat) (data : Nat → IntervalValue)
  | varchar (format : UnifiedVectorFormat) (data : Nat → List UInt8)
  | blob (format : UnifiedVectorFormat) (data : Nat → List UInt8)
  | struct (format : UnifiedVectorFormat) (children : List SortKeyVectorData)
  | list (format : UnifiedVectorFormat) (entries : Nat → ListEntry) (child : SortKeyVectorData)
  | array (format : UnifiedVectorFormat) (arraySize : Nat) (child : SortKeyVectorData)

/-- `SortKeyChunk`; the rows of a nested value all belong to one result. -/
structure SortKeyChunk where
  start : Nat
  stop : Nat
  resultIndex : Option Nat

namespace SortKeyChunk

def rows (chunk : SortKeyChunk) : List Nat := List.range' chunk.start (chunk.stop - chunk.start)

/-- `GetResultIndex`. -/
def getResultIndex (chunk : SortKeyChunk) (row : Nat) : Nat := chunk.resultIndex.getD row

end SortKeyChunk

/-- The entry of a row of an array vector. -/
def arrayEntry (arraySize index : Nat) : ListEntry := ⟨arraySize * index, arraySize⟩

/-! ## Operators -/

/-- What the templates take as `OP`. -/
structure SortKeyOperator (Value : Type) where
  getEncodeLength : Value → Nat
  encode : Value → List UInt8

/-- `SortKeyConstantOperator`. -/
def sortKeyConstantOperator (type : ConstantType) : SortKeyOperator Payload where
  getEncodeLength := fun _ => type.size
  encode := Radix.encodeData type

/-- `SortKeyConstantOperator` of `interval_t`. -/
def sortKeyIntervalOperator : SortKeyOperator IntervalValue where
  getEncodeLength := fun _ => 16
  encode := Radix.encodeInterval

/-- `SortKeyVarcharOperator`. -/
def sortKeyVarcharOperator : SortKeyOperator (List UInt8) where
  getEncodeLength := fun input => input.length + 1
  encode := fun input => input.map (· + 1) ++ [0]

/-- `SortKeyBlobOperator`: zeros and ones are escaped. -/
def sortKeyBlobOperator : SortKeyOperator (List UInt8) where
  getEncodeLength := fun input => input.length + input.countP (· ≤ 1) + 1
  encode := fun input => input.flatMap (fun byte => if byte ≤ 1 then [1, byte] else [byte]) ++ [0]

/-! ## Lengths -/

/-- `variable_lengths`, by row. -/
abbrev SortKeyLengths := Nat → Nat

def SortKeyLengths.add (lengths : SortKeyLengths) (row amount : Nat) : SortKeyLengths :=
  fun other => if other = row then lengths other + amount else lengths other

/-- `TemplatedGetSortKeyLength`. -/
def templatedGetSortKeyLength {Value : Type} (op : SortKeyOperator Value)
    (format : UnifiedVectorFormat) (data : Nat → Value) (chunk : SortKeyChunk)
    (lengths : SortKeyLengths) : SortKeyLengths :=
  chunk.rows.foldl (fun lengths row =>
    let index := format.getIndex row
    let resultIndex := chunk.getResultIndex row
    let lengths := lengths.add resultIndex 1
    if format.rowIsValid index then lengths.add resultIndex (op.getEncodeLength (data index))
    else lengths) lengths

/-- `GetSortKeyLengthList`, given the recursion into the child. -/
def getSortKeyLengthList (isArray : Bool) (getListEntry : Nat → ListEntry)
    (format : UnifiedVectorFormat) (child : SortKeyChunk → SortKeyLengths → SortKeyLengths)
    (chunk : SortKeyChunk) (lengths : SortKeyLengths) : SortKeyLengths :=
  chunk.rows.foldl (fun lengths row =>
    let index := format.getIndex row
    let resultIndex := chunk.getResultIndex row
    let lengths := lengths.add resultIndex 1
    if !format.rowIsValid index && !isArray then lengths
    else
      let entry := getListEntry index
      let lengths := lengths.add resultIndex 1
      if 0 < entry.length then
        child ⟨entry.offset, entry.offset + entry.length, some resultIndex⟩ lengths
      else lengths) lengths

mutual

/-- `GetSortKeyLengthRecursive`. -/
def getSortKeyLengthRecursive :
    SortKeyVectorData → SortKeyChunk → SortKeyLengths → SortKeyLengths
  | .constant type format data, chunk, lengths =>
      templatedGetSortKeyLength (sortKeyConstantOperator type) format data chunk lengths
  | .interval format data, chunk, lengths =>
      templatedGetSortKeyLength sortKeyIntervalOperator format data chunk lengths
  | .varchar format data, chunk, lengths =>
      templatedGetSortKeyLength sortKeyVarcharOperator format data chunk lengths
  | .blob format data, chunk, lengths =>
      templatedGetSortKeyLength sortKeyBlobOperator format data chunk lengths
  | .struct _ children, chunk, lengths =>
      getSortKeyLengthChildren children chunk
        (chunk.rows.foldl (fun lengths row => lengths.add (chunk.getResultIndex row) 1) lengths)
  | .list format entries child, chunk, lengths =>
      getSortKeyLengthList false entries format
        (fun chunk lengths => getSortKeyLengthRecursive child chunk lengths) chunk lengths
  | .array format arraySize child, chunk, lengths =>
      getSortKeyLengthList true (arrayEntry arraySize) format
        (fun chunk lengths => getSortKeyLengthRecursive child chunk lengths) chunk lengths

/-- The loop of `GetSortKeyLengthStruct` over the children. -/
def getSortKeyLengthChildren :
    List SortKeyVectorData → SortKeyChunk → SortKeyLengths → SortKeyLengths
  | [], _, lengths => lengths
  | child :: rest, chunk, lengths =>
      getSortKeyLengthChildren rest chunk (getSortKeyLengthRecursive child chunk lengths)

end

/-- `SortKeyLengthInfo`. -/
structure SortKeyLengthInfo where
  constantLength : Nat
  variableLengths : SortKeyLengths

/-- `GetSortKeyLength`. -/
def getSortKeyLength (size : Nat) (result : SortKeyLengthInfo) :
    SortKeyVectorData → SortKeyLengthInfo
  | .constant type _ _ => { result with constantLength := result.constantLength + 1 + type.size }
  | .interval _ _ => { result with constantLength := result.constantLength + 1 + 16 }
  | vector => { result with variableLengths :=
      getSortKeyLengthRecursive vector ⟨0, size, none⟩ result.variableLengths }

/-! ## Keys -/

/-- The bytes written for each row so far; their number is the offset of the row. -/
abbrev SortKeyRows := Nat → List UInt8

def SortKeyRows.write (keys : SortKeyRows) (row : Nat) (bytes : List UInt8) : SortKeyRows :=
  fun other => if other = row then keys other ++ bytes else keys other

/-- The bytes of a value in the order of the column. -/
def flipped (flipBytes : Bool) (bytes : List UInt8) : List UInt8 :=
  if flipBytes then bytes.map (~~~ ·) else bytes

/-- `TemplatedConstructSortKeyInternal`. -/
def templatedConstructSortKeyInternal {Value : Type} (op : SortKeyOperator Value)
    (allValid hasResultIndexOrSel : Bool) (format : UnifiedVectorFormat) (data : Nat → Value)
    (chunk : SortKeyChunk) (modifiers : OrderModifiers) (keys : SortKeyRows) : SortKeyRows :=
  chunk.rows.foldl (fun keys row =>
    let resultIndex := if hasResultIndexOrSel then chunk.getResultIndex row else row
    let index := if hasResultIndexOrSel then format.getIndex row else row
    if !allValid && !format.rowIsValid index then keys.write resultIndex [modifiers.nullByte]
    else (keys.write resultIndex [modifiers.validByte]).write resultIndex
      (flipped modifiers.flipBytes (op.encode (data index)))) keys

/-- `TemplatedConstructSortKey`. -/
def templatedConstructSortKey {Value : Type} (op : SortKeyOperator Value)
    (format : UnifiedVectorFormat) (data : Nat → Value) (chunk : SortKeyChunk)
    (modifiers : OrderModifiers) (keys : SortKeyRows) : SortKeyRows :=
  if chunk.start = chunk.stop then keys
  else templatedConstructSortKeyInternal op format.validity.isNone
    (chunk.resultIndex.isSome || format.sel.isSome) format data chunk modifiers keys

/-- `ConstructSortKeyStruct`, given the loop over the children. -/
def constructSortKeyStruct (format : UnifiedVectorFormat)
    (children : SortKeyChunk → SortKeyRows → SortKeyRows) (chunk : SortKeyChunk)
    (modifiers : OrderModifiers) (keys : SortKeyRows) : SortKeyRows :=
  let listOfStructs := chunk.resultIndex.isSome
  let keys := chunk.rows.foldl (fun keys row =>
    let resultIndex := chunk.getResultIndex row
    let keys := keys.write resultIndex [if format.rowIsValid (format.getIndex row)
      then modifiers.validByte else modifiers.nullByte]
    -- the layout of a list of structs is struct by struct
    if listOfStructs then children ⟨row, row + 1, some resultIndex⟩ keys else keys) keys
  if listOfStructs then keys else children chunk keys

/-- `ConstructSortKeyList`, given the recursion into the child. -/
def constructSortKeyList (isArray : Bool) (getListEntry : Nat → ListEntry)
    (format : UnifiedVectorFormat) (child : SortKeyChunk → SortKeyRows → SortKeyRows)
    (chunk : SortKeyChunk) (modifiers : OrderModifiers) (keys : SortKeyRows) : SortKeyRows :=
  chunk.rows.foldl (fun keys row =>
    let resultIndex := chunk.getResultIndex row
    let index := format.getIndex row
    let valid := format.rowIsValid index
    let keys := keys.write resultIndex
      [if valid then modifiers.validByte else modifiers.nullByte]
    if !valid && !isArray then keys
    else
      let entry := getListEntry index
      let keys :=
        if 0 < entry.length then
          child ⟨entry.offset, entry.offset + entry.length, some resultIndex⟩ keys
        else keys
      keys.write resultIndex (flipped modifiers.flipBytes [0])) keys

mutual

/-- `ConstructSortKeyRecursive`. -/
def constructSortKeyRecursive :
    SortKeyVectorData → SortKeyChunk → OrderModifiers → SortKeyRows → SortKeyRows
  | .constant type format data, chunk, modifiers, keys =>
      templatedConstructSortKey (sortKeyConstantOperator type) format data chunk modifiers keys
  | .interval format data, chunk, modifiers, keys =>
      templatedConstructSortKey sortKeyIntervalOperator format data chunk modifiers keys
  | .varchar format data, chunk, modifiers, keys =>
      templatedConstructSortKey sortKeyVarcharOperator format data chunk modifiers keys
  | .blob format data, chunk, modifiers, keys =>
      templatedConstructSortKey sortKeyBlobOperator format data chunk modifiers keys
  | .struct format children, chunk, modifiers, keys =>
      constructSortKeyStruct format
        (fun chunk keys => constructSortKeyChildren children chunk modifiers.child keys)
        chunk modifiers keys
  | .list format entries child, chunk, modifiers, keys =>
      constructSortKeyList false entries format
        (fun chunk keys => constructSortKeyRecursive child chunk modifiers.child keys)
        chunk modifiers keys
  | .array format arraySize child, chunk, modifiers, keys =>
      constructSortKeyList true (arrayEntry arraySize) format
        (fun chunk keys => constructSortKeyRecursive child chunk modifiers.child keys)
        chunk modifiers keys

/-- The loop over the children of a struct. -/
def constructSortKeyChildren :
    List SortKeyVectorData → SortKeyChunk → OrderModifiers → SortKeyRows → SortKeyRows
  | [], _, _, keys => keys
  | child :: rest, chunk, modifiers, keys =>
      constructSortKeyChildren rest chunk modifiers
        (constructSortKeyRecursive child chunk modifiers keys)

end

/-! ## The function -/

/-- The type of the keys. -/
inductive SortKeyType where
  | blob
  | bigint
  deriving DecidableEq, Repr

inductive SortKey where
  | blob (bytes : List UInt8)
  | bigint (value : Int)
  deriving DecidableEq, Repr

/-- The size of a type of constant size, with the byte for its validity. -/
def constantSize? : SortKeyVectorData → Option Nat
  | .constant type _ _ => some (type.size + 1)
  | .interval _ _ => some (16 + 1)
  | _ => none

/-- The return type that `CreateSortKeyBind` chooses for the types of the columns. -/
def bindReturnType (columns : List SortKeyVectorData) : SortKeyType :=
  if columns.all (fun column => (constantSize? column).isSome) &&
      decide ((columns.filterMap constantSize?).sum ≤ 8) then .bigint
  else .blob

/-- `string_t::MAX_STRING_SIZE`. -/
def maxStringSize : Nat := 2 ^ 32 - 1

/-- The number that bytes stand for, the most significant byte first. -/
def fromBigEndian (bytes : List UInt8) : Nat :=
  bytes.foldl (fun number byte => number * 256 + byte.toNat) 0

/-- `BSwap` of an integer of eight bytes, the last of which may not have been written. -/
def swappedInteger (bytes : List UInt8) : Int :=
  let word := fromBigEndian (bytes ++ List.replicate (8 - bytes.length) 0)
  if word < 2 ^ 63 then word else (word : Int) - 2 ^ 64

/-- The lengths of `CreateSortKeyInternal`. -/
def sortKeyLengths (columns : List (SortKeyVectorData × OrderModifiers)) (rowCount : Nat) :
    SortKeyLengthInfo :=
  columns.foldl (fun lengths column => getSortKeyLength rowCount lengths column.1) ⟨0, fun _ => 0⟩

/-- The bytes that `CreateSortKeyInternal` writes. -/
def sortKeyBytes (columns : List (SortKeyVectorData × OrderModifiers)) (rowCount : Nat) :
    SortKeyRows :=
  columns.foldl (fun keys column =>
    constructSortKeyRecursive column.1 ⟨0, rowCount, none⟩ column.2 keys) fun _ => []

/-- `CreateSortKeyInternal`. -/
def createSortKeyInternal (columns : List (SortKeyVectorData × OrderModifiers))
    (resultType : SortKeyType) (rowCount : Nat) : Except String (Nat → SortKey) :=
  let lengths := sortKeyLengths columns rowCount
  let blobSize := fun row => lengths.variableLengths row + lengths.constantLength
  match resultType with
  | .blob =>
      match (List.range rowCount).find? fun row => decide (maxStringSize < blobSize row) with
      | some row =>
          .error ("Cannot create a string of size: '" ++ toString (blobSize row) ++
            "', the maximum supported string size is: '" ++ toString maxStringSize ++ "'")
      | none => .ok fun row => .blob (sortKeyBytes columns rowCount row)
  | .bigint => .ok fun row => .bigint (swappedInteger (sortKeyBytes columns rowCount row))

end StatsRecommender
