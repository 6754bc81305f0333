import StatsRecommender.SortKey.SortKeyComparison

/-!
# Decoding sort keys

`function/scalar/create_sort_key.cpp` and `common/radix.hpp`: the values of a row are read back
from its key, column by column, into the vectors of a result chunk.
-/

namespace StatsRecommender

namespace Radix

/-- The bytes of a word with the sign flipped in the first of them. -/
def flipFirst : List UInt8 → List UInt8
  | [] => []
  | byte :: rest => flipSign byte :: rest

/-- `DecodeSigned`: the sign bit is flipped back in the two's complement. -/
def decodeSigned (bytes : List UInt8) : Int :=
  let word := fromBigEndian (flipFirst bytes)
  if 2 * word < 256 ^ bytes.length then (word : Int) else word - (256 ^ bytes.length : Nat)

/-- `quiet_NaN`: the highest bit of the mantissa is set. -/
def quietNaN (format : FloatFormat) : Nat := format.infinity + 2 ^ (format.mantissaBits - 1)

/-- `DecodeFloat` and `DecodeDouble`, to the bit pattern. -/
def decodeFloat (format : FloatFormat) (input : Nat) : Nat :=
  let signBit := 2 ^ (format.exponentBits + format.mantissaBits)
  if input = 2 * signBit - 1 then quietNaN format
  else if input = 2 * signBit - 2 then format.infinity
  else if input = 0 then signBit + format.infinity
  else if signBit ≤ input then input - signBit
  else 2 * signBit - 1 - input

/-- `DecodeData`, from as many bytes as the type has. -/
def decodeData : ConstantType → List UInt8 → Payload
  | .bool, bytes => .boolean (fromBigEndian bytes != 0)
  | .uint8, bytes => .integer (fromBigEndian bytes)
  | .int8, bytes => .integer (decodeSigned bytes)
  | .uint16, bytes => .integer (fromBigEndian bytes)
  | .int16, bytes => .integer (decodeSigned bytes)
  | .uint32, bytes => .integer (fromBigEndian bytes)
  | .int32, bytes => .integer (decodeSigned bytes)
  | .uint64, bytes => .integer (fromBigEndian bytes)
  | .int64, bytes => .integer (decodeSigned bytes)
  | .uint128, bytes =>
      .integer (fromBigEndian (bytes.take 8) * 2 ^ 64 + fromBigEndian (bytes.drop 8))
  | .int128, bytes => .integer (decodeSigned (bytes.take 8) * 2 ^ 64 + fromBigEndian (bytes.drop 8))
  | .float, bytes => .float (BitVec.ofNat 32 (decodeFloat .float (fromBigEndian bytes)))
  | .double, bytes => .double (BitVec.ofNat 64 (decodeFloat .double (fromBigEndian bytes)))

/-- `DecodeData` of an interval. -/
def decodeInterval (bytes : List UInt8) : IntervalValue where
  months := decodeSigned (bytes.take 4)
  days := decodeSigned ((bytes.drop 4).take 4)
  micros := decodeSigned (bytes.drop 8)

end Radix

/-- What ends decoding: an exception, or a read behind the end of the key. -/
inductive DecodeError where
  | outOfBounds
  | invalidInput (message : String)
  deriving DecidableEq, Repr

/-! ## Operators -/

/-- `OP::Decode`: the number of bytes that were read, and the value. -/
abbrev SortKeyDecoder (Value : Type) := List UInt8 → Bool → Except DecodeError (Nat × Value)

/-- `SortKeyConstantOperator::Decode`, by the size of the type. -/
def sortKeyConstantDecode {Value : Type} (size : Nat) (decodeData : List UInt8 → Value) :
    SortKeyDecoder Value := fun input flipBytes =>
  if input.length < size then .error .outOfBounds
  else .ok (size, decodeData (flipped flipBytes (input.take size)))

/-- A delimiter or an escape character in the order of the column. -/
def flippedByte (flipBytes : Bool) (byte : UInt8) : UInt8 := if flipBytes then ~~~byte else byte

/-- The loop that finds the length of a string. -/
def findStringDelimiter (delimiter : UInt8) : List UInt8 → Nat → Except DecodeError Nat
  | [], _ => .error .outOfBounds
  | byte :: rest, pos =>
      if byte = delimiter then .ok pos else findStringDelimiter delimiter rest (pos + 1)

/-- `SortKeyVarcharOperator::Decode`. -/
def sortKeyVarcharDecode : SortKeyDecoder (List UInt8) := fun input flipBytes => do
  let strLen ← findStringDelimiter (flippedByte flipBytes 0) input 0
  .ok (strLen + 1, (input.take strLen).map fun byte => flippedByte flipBytes byte - 1)

/-- The loop that finds the end of a blob; the length without the escapes is counted. -/
def findBlobDelimiter (delimiter escape : UInt8) :
    List UInt8 → Nat → Nat → Except DecodeError (Nat × Nat)
  | [], _, _ => .error .outOfBounds
  | byte :: rest, pos, blobLen =>
      if byte = delimiter then .ok (pos, blobLen)
      else if byte = escape then
        -- the byte behind an escape is skipped
        match rest with
        | [] => .error .outOfBounds
        | _ :: rest => findBlobDelimiter delimiter escape rest (pos + 2) (blobLen + 1)
      else findBlobDelimiter delimiter escape rest (pos + 1) (blobLen + 1)

/-- The loop that copies a blob; the byte behind an escape is copied instead of it. -/
def copyBlob (escape : UInt8) (flipBytes : Bool) : List UInt8 → List UInt8
  | [] => []
  | byte :: rest =>
      if byte = escape then
        match rest with
        | [] => []
        | next :: rest => flippedByte flipBytes next :: copyBlob escape flipBytes rest
      else flippedByte flipBytes byte :: copyBlob escape flipBytes rest

/-- `SortKeyBlobOperator::Decode`; the blob has room for the counted length. -/
def sortKeyBlobDecode : SortKeyDecoder (List UInt8) := fun input flipBytes => do
  let escape := flippedByte flipBytes 1
  let (pos, blobLen) ← findBlobDelimiter (flippedByte flipBytes 0) escape input 0 0
  let blob := copyBlob escape flipBytes (input.take pos)
  if blobLen < blob.length then .error .outOfBounds
  else .ok (pos + 1, blob ++ List.replicate (blobLen - blob.length) 0)

/-! ## Result vectors -/

/-- A vector of values that are not nested. -/
structure FlatVector (Value : Type) where
  validity : Nat → Bool
  data : Nat → Value

/-- A struct vector. -/
structure StructVector (Children : Type) where
  validity : Nat → Bool
  children : Children

/-- A list vector; the elements of its lists are the first ones of the child. -/
structure ListVector (Child : Type) where
  validity : Nat → Bool
  entries : Nat → ListEntry
  listSize : Nat
  child : Child

/-- An array vector. -/
structure ArrayVector (Child : Type) where
  validity : Nat → Bool
  child : Child

mutual

/-- A vector of a result chunk, by its type. -/
def DecodedVector : KeyType → Type
  | .constant _ => FlatVector Payload
  | .interval => FlatVector IntervalValue
  | .varchar => FlatVector (List UInt8)
  | .blob => FlatVector (List UInt8)
  | .struct children => StructVector (ResultVectors children)
  | .list child => ListVector (DecodedVector child)
  | .array _ child => ArrayVector (DecodedVector child)

def ResultVectors : List KeyType → Type
  | [] => Unit
  | type :: rest => DecodedVector type × ResultVectors rest

end

namespace DecodedVector

mutual

/-- The vector as it is read. -/
def toVectorData : (type : KeyType) → DecodedVector type → SortKeyVectorData
  | .constant type, vector => .constant type ⟨none, some vector.validity⟩ vector.data
  | .interval, vector => .interval ⟨none, some vector.validity⟩ vector.data
  | .varchar, vector => .varchar ⟨none, some vector.validity⟩ vector.data
  | .blob, vector => .blob ⟨none, some vector.validity⟩ vector.data
  | .struct children, vector =>
      .struct ⟨none, some vector.validity⟩ (toChildData children vector.children)
  | .list child, vector =>
      .list ⟨none, some vector.validity⟩ vector.entries (toVectorData child vector.child)
  | .array arraySize child, vector =>
      .array ⟨none, some vector.validity⟩ arraySize (toVectorData child vector.child)

def toChildData : (types : List KeyType) → ResultVectors types → List SortKeyVectorData
  | [], _ => []
  | type :: rest, vectors => toVectorData type vectors.1 :: toChildData rest vectors.2

end

end DecodedVector

/-! ## Decoding -/

/-- `DecodeSortKeyData`. -/
structure DecodeSortKeyData where
  data : List UInt8
  position : Nat
  deriving DecidableEq, Repr

namespace DecodeSortKeyData

/-- The byte at the position. -/
def byte (decodeData : DecodeSortKeyData) : Except DecodeError UInt8 :=
  match decodeData.data[decodeData.position]? with
  | some byte => .ok byte
  | none => .error .outOfBounds

def advance (decodeData : DecodeSortKeyData) (increment : Nat) : DecodeSortKeyData :=
  { decodeData with position := decodeData.position + increment }

end DecodeSortKeyData

/-- What decodes some rows into a vector, the first of them at a row of the vector. -/
abbrev RowsDecoder (Vector : Type) :=
  Nat → List DecodeSortKeyData → Vector → Except DecodeError (List DecodeSortKeyData × Vector)

/-- The loop over the rows that all the functions have. -/
def decodeRows {Vector : Type}
    (decodeRow : Nat → DecodeSortKeyData → Vector → Except DecodeError (DecodeSortKeyData × Vector)) :
    RowsDecoder Vector
  | _, [], vector => .ok ([], vector)
  | resultIdx, decodeData :: rest, vector => do
      let (decodeData, vector) ← decodeRow resultIdx decodeData vector
      let (rest, vector) ← decodeRows decodeRow (resultIdx + 1) rest vector
      .ok (decodeData :: rest, vector)

/-- `TemplatedDecodeSortKey`, for one row. -/
def templatedDecodeSortKey {Value : Type} (decode : SortKeyDecoder Value)
    (modifiers : OrderModifiers) (resultIdx : Nat) (decodeData : DecodeSortKeyData)
    (vector : FlatVector Value) : Except DecodeError (DecodeSortKeyData × FlatVector Value) := do
  let validityByte ← decodeData.byte
  let decodeData := decodeData.advance 1
  if validityByte = modifiers.nullByte then
    .ok (decodeData, { vector with validity := Function.update vector.validity resultIdx false })
  else
    let (increment, value) ← decode (decodeData.data.drop decodeData.position) modifiers.flipBytes
    .ok (decodeData.advance increment,
      { vector with data := Function.update vector.data resultIdx value })

/-- The validity of one row of a struct. -/
def decodeStructValidity (modifiers : OrderModifiers) (resultIdx : Nat)
    (decodeData : DecodeSortKeyData) (validity : Nat → Bool) :
    Except DecodeError (DecodeSortKeyData × (Nat → Bool)) := do
  let validityByte ← decodeData.byte
  .ok (decodeData.advance 1, if validityByte = modifiers.nullByte
    then Function.update validity resultIdx false else validity)

/-- `DecodeSortKeyStruct`, given the loop over the children. -/
def decodeSortKeyStruct {Children : Type} (decodeChildren : RowsDecoder Children)
    (modifiers : OrderModifiers) : RowsDecoder (StructVector Children) :=
  fun resultOffset decodeData vector => do
    let (decodeData, validity) ←
      decodeRows (decodeStructValidity modifiers) resultOffset decodeData vector.validity
    let (decodeData, children) ← decodeChildren resultOffset decodeData vector.children
    .ok (decodeData, ⟨validity, children⟩)

/-- The recursion into the child for one element. -/
def decodeElement {Child : Type} (decodeChild : RowsDecoder Child) (resultIdx : Nat)
    (decodeData : DecodeSortKeyData) (child : Child) :
    Except DecodeError (DecodeSortKeyData × Child) := do
  let (elements, child) ← decodeChild resultIdx [decodeData] child
  .ok (elements.headD decodeData, child)

/-- The loop over the elements of a list; every round before the last reads a byte of the key. -/
def decodeListElements {Child : Type} (decodeChild : RowsDecoder Child) (listDelimiter : UInt8) :
    Nat → DecodeSortKeyData → Nat → Child → Except DecodeError (DecodeSortKeyData × Nat × Child)
  | 0, _, _, _ => .error .outOfBounds
  | rounds + 1, decodeData, newListSize, child => do
      if (← decodeData.byte) = listDelimiter then .ok (decodeData, newListSize, child)
      else
        let (decodeData, child) ← decodeElement decodeChild newListSize decodeData child
        decodeListElements decodeChild listDelimiter rounds decodeData (newListSize + 1) child

/-- `DecodeSortKeyList`, for one row. -/
def decodeSortKeyList {Child : Type} (decodeChild : RowsDecoder Child) (modifiers : OrderModifiers)
    (resultIdx : Nat) (decodeData : DecodeSortKeyData) (vector : ListVector Child) :
    Except DecodeError (DecodeSortKeyData × ListVector Child) := do
  let validityByte ← decodeData.byte
  let decodeData := decodeData.advance 1
  if validityByte = modifiers.nullByte then
    .ok (decodeData, { vector with validity := Function.update vector.validity resultIdx false })
  else
    let (decodeData, newListSize, child) ← decodeListElements decodeChild
      (flippedByte modifiers.flipBytes 0) decodeData.data.length decodeData vector.listSize
      vector.child
    .ok (decodeData.advance 1, { vector with
      entries := Function.update vector.entries resultIdx
        ⟨vector.listSize, newListSize - vector.listSize⟩
      listSize := newListSize
      child := child })

/-- The loop over the elements of an array, given how many of them may still be found. -/
def decodeArrayElements {Child : Type} (decodeChild : RowsDecoder Child) (listDelimiter : UInt8)
    (childStart : Nat) :
    Nat → DecodeSortKeyData → Nat → Child → Except DecodeError (DecodeSortKeyData × Nat × Child)
  | 0, decodeData, foundElements, child => do
      if (← decodeData.byte) = listDelimiter then .ok (decodeData, foundElements, child)
      -- too many elements
      else .ok (decodeData, foundElements + 1, child)
  | left + 1, decodeData, foundElements, child => do
      if (← decodeData.byte) = listDelimiter then .ok (decodeData, foundElements, child)
      else
        let (decodeData, child) ←
          decodeElement decodeChild (childStart + foundElements) decodeData child
        decodeArrayElements decodeChild listDelimiter childStart left decodeData
          (foundElements + 1) child

/-- `DecodeSortKeyArray`, for one row. -/
def decodeSortKeyArray {Child : Type} (decodeChild : RowsDecoder Child) (arraySize : Nat)
    (modifiers : OrderModifiers) (resultIdx : Nat) (decodeData : DecodeSortKeyData)
    (vector : ArrayVector Child) : Except DecodeError (DecodeSortKeyData × ArrayVector Child) := do
  let validityByte ← decodeData.byte
  let decodeData := decodeData.advance 1
  let validity := if validityByte = modifiers.nullByte
    then Function.update vector.validity resultIdx false else vector.validity
  let (decodeData, foundElements, child) ← decodeArrayElements decodeChild
    (flippedByte modifiers.flipBytes 0) (arraySize * resultIdx) arraySize decodeData 0 vector.child
  let decodeData := decodeData.advance 1
  if foundElements ≠ arraySize then
    .error (.invalidInput ("Failed to decode array - found " ++ toString foundElements ++
      " elements but expected " ++ toString arraySize))
  else .ok (decodeData, ⟨validity, child⟩)

mutual

/-- `DecodeSortKeyRecursive`. -/
def decodeSortKeyRecursive :
    (type : KeyType) → OrderModifiers → RowsDecoder (DecodedVector type)
  | .constant type, modifiers => decodeRows (templatedDecodeSortKey
      (sortKeyConstantDecode type.size (Radix.decodeData type)) modifiers)
  | .interval, modifiers => decodeRows (templatedDecodeSortKey
      (sortKeyConstantDecode 16 Radix.decodeInterval) modifiers)
  | .varchar, modifiers => decodeRows (templatedDecodeSortKey sortKeyVarcharDecode modifiers)
  | .blob, modifiers => decodeRows (templatedDecodeSortKey sortKeyBlobDecode modifiers)
  | .struct children, modifiers =>
      decodeSortKeyStruct (decodeSortKeyChildren children modifiers.child) modifiers
  | .list child, modifiers =>
      decodeRows (decodeSortKeyList (decodeSortKeyRecursive child modifiers.child) modifiers)
  | .array arraySize child, modifiers => decodeRows
      (decodeSortKeyArray (decodeSortKeyRecursive child modifiers.child) arraySize modifiers)

/-- The loop over the children of a struct. -/
def decodeSortKeyChildren :
    (types : List KeyType) → OrderModifiers → RowsDecoder (ResultVectors types)
  | [], _ => fun _ decodeData vectors => .ok (decodeData, vectors)
  | type :: rest, modifiers => fun resultOffset decodeData vectors => do
      let (decodeData, vector) ←
        decodeSortKeyRecursive type modifiers resultOffset decodeData vectors.1
      let (decodeData, others) ←
        decodeSortKeyChildren rest modifiers resultOffset decodeData vectors.2
      .ok (decodeData, (vector, others))

end

/-- The loop over the columns of a chunk, each of which has modifiers of its own. -/
def decodeSortKeyColumns : (columns : List (KeyType × OrderModifiers)) →
    RowsDecoder (ResultVectors (columns.map Prod.fst))
  | [] => fun _ decodeData vectors => .ok (decodeData, vectors)
  | column :: rest => fun resultOffset decodeData vectors => do
      let (decodeData, vector) ←
        decodeSortKeyRecursive column.1 column.2 resultOffset decodeData vectors.1
      let (decodeData, others) ←
        decodeSortKeyColumns rest resultOffset decodeData vectors.2
      .ok (decodeData, (vector, others))

/-- `DecodeSortKey`, with the place in the key where it ends. -/
def decodeSortKey (sortKey : List UInt8) (columns : List (KeyType × OrderModifiers))
    (result : ResultVectors (columns.map Prod.fst)) (resultIdx : Nat) :
    Except DecodeError (DecodeSortKeyData × ResultVectors (columns.map Prod.fst)) := do
  let (decodeData, result) ← decodeSortKeyColumns columns resultIdx [⟨sortKey, 0⟩] result
  .ok (decodeData.headD ⟨sortKey, 0⟩, result)

end StatsRecommender
