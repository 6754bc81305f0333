import StatsRecommender.Library.ByteOrder
import StatsRecommender.Library.Leb128
import StatsRecommender.Library.PropertyStream

/-!
# The binary format

The bytes that `BinarySerializer` writes, and the readers of `BinaryDeserializer`.  Bytes that are
cut short are noticed, as serialization errors.
-/

namespace StatsRecommender

variable {row : List UInt8}

/-- An exception with its message; serialization errors are told apart. -/
inductive Exception where
  | serialization (message : String)
  | other (message : String)
  deriving DecidableEq, Repr

/-- `ExceptionType::SERIALIZATION`. -/
def Exception.isSerialization : Exception → Bool
  | serialization _ => true
  | other _ => false

/-- The exceptions that reading too few bytes ends in. -/
def Torn (exception : Exception) : Prop := exception.isSerialization = true

namespace BinaryFormat

open ByteOrder ByteReader

/-! ## Writing -/

/-- A field number. -/
def fieldId (id : Nat) : List UInt8 := littleEndianBytes 2 id

/-- `BinarySerializer::OnPropertyBegin`, with the value of the property. -/
def property (id : Nat) (value : List UInt8) : List UInt8 := fieldId id ++ value

/-- `WritePropertyWithDefault`: nothing is written for the default. -/
def propertyWithDefault (id : Nat) (isDefault : Bool) (value : List UInt8) : List UInt8 :=
  if isDefault then [] else property id value

/-- `BinarySerializer::VarIntEncode`. -/
def varInt (value : Nat) : List UInt8 := Leb128.encode 10 value

/-- `BinarySerializer::WriteValue` of a string. -/
def string (value : List UInt8) : List UInt8 := varInt value.length ++ value

/-- `WriteList`, with its elements. -/
def list {α : Type} (element : α → List UInt8) (values : List α) : List UInt8 :=
  varInt values.length ++ values.flatMap element

/-- `BinarySerializer::OnObjectEnd`. -/
def objectEnd : List UInt8 := fieldId messageTerminatorFieldId

/-! ## Reading -/

section Readers

variable (short : Exception) {α : Type}

/-- `ReadPrimitive` of a fixed size. -/
def readFixed (size : Nat) : ByteReader Exception Nat := do
  let row ← bytes short size
  pure (littleEndian row)

/-- `BinaryDeserializer::OnPropertyBegin`, with the value of the property. -/
def readProperty (id : Nat) (value : ByteReader Exception α) : ByteReader Exception α := do
  let field ← readFixed short 2
  if field = id then value
  else throw (.serialization ("Failed to deserialize: field id mismatch, expected: " ++
    toString id ++ ", got: " ++ toString field))

/-- `ReadPropertyWithDefault`: the field number is looked at before it is taken. -/
def readPropertyWithDefault (id : Nat) (fallback : α) (value : ByteReader Exception α) :
    ByteReader Exception α := do
  let field ← peek (readFixed short 2)
  if field = id then readProperty short id value else pure fallback

/-- A byte. -/
def readByte : ByteReader Exception UInt8 := do
  let row ← bytes short 1
  pure (row.headD 0)

/-- `BinaryDeserializer::VarIntDecode` of a type with a number of bits. -/
def readVarInt (width : Nat) : ByteReader Exception Nat := do
  let groups ← Leb128.readGroups (readByte short) 16
  pure (Leb128.decode groups % 2 ^ width)

/-- `BinaryDeserializer::ReadString`. -/
def readString : ByteReader Exception (List UInt8) := do
  let length ← readVarInt short 32
  bytes short length

/-- `ReadListInternal`. -/
def readList (element : ByteReader Exception α) : ByteReader Exception (List α) := do
  let size ← readVarInt short 64
  replicate element size

/-- `BinaryDeserializer::OnObjectEnd`. -/
def readObjectEnd : ByteReader Exception Unit := do
  let field ← readFixed short 2
  if field = messageTerminatorFieldId then pure ()
  else throw (.serialization ("Failed to deserialize: expected end of object, but found field id: " ++
    toString field))

end Readers

/-! ## What is written is read -/

section Takes

variable {short : Exception} (is_torn : Torn short) {α β : Type} {id : Nat}
  {value : ByteReader Exception α} {result fallback : α}

include is_torn

theorem takes_fixed {size number : Nat} (fits : number < 256 ^ size) :
    Takes Torn (readFixed short size) (littleEndianBytes size number) number := by
  have read := Takes.bytes is_torn (littleEndianBytes size number)
  rw [length_littleEndianBytes] at read
  have packaged : Takes Torn (readFixed short size) (littleEndianBytes size number)
      (littleEndian (littleEndianBytes size number)) := read.bind_pure
  rw [littleEndian_littleEndianBytes fits] at packaged
  exact packaged

theorem takes_property (small : id < 65536) (reads : Takes Torn value row result) :
    Takes Torn (readProperty short id value) (property id row) result := by
  refine (takes_fixed is_torn small).bind ?_
  rw [if_pos rfl]
  exact reads

/-- A property that is present. -/
theorem takes_present (small : id < 65536) (reads : Takes Torn value row result) :
    Takes Torn (readPropertyWithDefault short id fallback value) (property id row) result := by
  refine (takes_fixed is_torn small).peek_bind ?_
  rw [if_pos rfl]
  exact takes_property is_torn small reads

/-- A property that is absent, in front of another one. -/
theorem takes_absent {next : α → ByteReader Exception β} {result : β} {other : Nat}
    (small : other < 65536) (differs : other ≠ id)
    (reads : Takes Torn (next fallback) (fieldId other ++ row) result) :
    Takes Torn (readPropertyWithDefault short id fallback value >>= next) (fieldId other ++ row)
      result := by
  have looked : readPropertyWithDefault short id fallback value >>= next =
      peek (readFixed short 2) >>= fun field =>
        (if field = id then readProperty short id value else pure fallback) >>= next := by
    rw [readPropertyWithDefault, bind_assoc]
  rw [looked]
  refine (takes_fixed is_torn small).peek_bind ?_
  rw [if_neg differs, pure_bind]
  exact reads

/-- A property that is absent, in front of the end of the object. -/
theorem readPropertyWithDefault_objectEnd (differs : messageTerminatorFieldId ≠ id)
    (rest : List UInt8) :
    readPropertyWithDefault short id fallback value (objectEnd ++ rest) =
      .ok (fallback, objectEnd ++ rest) := by
  have small : messageTerminatorFieldId < 256 ^ 2 := by decide
  have looked : peek (readFixed short 2) (objectEnd ++ rest) =
      .ok (messageTerminatorFieldId, objectEnd ++ rest) := by
    rw [peek, objectEnd, fieldId, (takes_fixed is_torn small).whole]
    rfl
  rw [readPropertyWithDefault, bind_ok looked, if_neg differs]
  rfl

theorem readPropertyWithDefault_torn {size : Nat} (below : size < 2) :
    ∃ exception, readPropertyWithDefault short id fallback value (objectEnd.take size) =
      .error exception ∧ Torn exception := by
  have small : messageTerminatorFieldId < 256 ^ 2 := by decide
  obtain ⟨exception, failed, torn⟩ := (takes_fixed is_torn small).cut size below
  refine ⟨exception, ?_, torn⟩
  have looked : peek (readFixed short 2) (objectEnd.take size) = .error exception := by
    rw [peek, objectEnd, fieldId, failed]
    rfl
  rw [readPropertyWithDefault, bind_error looked]

theorem takes_byte (value : UInt8) : Takes Torn (readByte short) [value] value :=
  (Takes.bytes is_torn [value]).bind_pure

theorem takes_varInt {width number : Nat} (narrow : width ≤ 70) (fits : number < 2 ^ width) :
    Takes Torn (readVarInt short width) (varInt number) number := by
  have wide : number < 128 ^ 10 :=
    fits.trans_le ((Nat.pow_le_pow_right (by omega) narrow).trans (by decide))
  have read := Leb128.takes_readGroups (takes_byte is_torn) wide (by omega)
    (show 10 ≤ 16 by omega)
  have packaged : Takes Torn (readVarInt short width) (varInt number)
      (Leb128.decode (varInt number) % 2 ^ width) := read.bind_pure
  rw [varInt] at packaged
  rw [Leb128.decode_encode wide, Nat.mod_eq_of_lt fits] at packaged
  exact packaged

theorem takes_string {value : List UInt8} (fits : value.length < 2 ^ 32) :
    Takes Torn (readString short) (string value) value :=
  (takes_varInt is_torn (by omega) fits).bind (Takes.bytes is_torn value)

theorem takes_list {element : ByteReader Exception α} {encode : α → List UInt8} {values : List α}
    (fits : values.length < 2 ^ 64)
    (each : ∀ value ∈ values, Takes Torn element (encode value) value) :
    Takes Torn (readList short element) (list encode values) values :=
  (takes_varInt is_torn (by omega) fits).bind (Takes.replicate each)

theorem takes_objectEnd : Takes Torn (readObjectEnd short) objectEnd () := by
  have small : messageTerminatorFieldId < 256 ^ 2 := by decide
  rw [← List.append_nil objectEnd]
  refine (takes_fixed is_torn small).bind ?_
  rw [if_pos rfl]
  exact .pure ()

end Takes

end BinaryFormat

end StatsRecommender
