import StatsRecommender.Library.PropertyStream
import StatsRecommender.Types.LogicalType

/-!
# Statistics in storage

`BaseStatistics` as it is written and read back, with the stored bounds that planning does not
use but old constant segments are decoded from.
-/

namespace StatsRecommender

/-- `StatisticsType`. -/
inductive StatisticsType where
  | numeric
  | string
  | list
  | struct
  | base
  | array
  deriving DecidableEq, Repr

/-- `BaseStatistics::GetStatsType`. -/
def LogicalType.statsType (type : LogicalType) : StatisticsType :=
  if type.id = .sqlNull then .base
  else
    match type.internalType with
    | .bool | .int8 | .int16 | .int32 | .int64 | .uint8 | .uint16 | .uint32 | .uint64
    | .int128 | .uint128 | .float | .double => .numeric
    | .varchar => .string
    | .struct => .struct
    | .list => .list
    | .array => .array
    | .bit | .interval | .unknown => .base

/-- The value `NumericValueUnion {}` has at a physical type. -/
def PhysicalType.zero : PhysicalType → Payload
  | .bool => .boolean false
  | .float => .float 0
  | .double => .double 0
  | _ => .integer 0

/-- `NumericStatsData`; a bound is the member of the union that the type selects. -/
structure NumericStatsData where
  hasMin : Bool
  hasMax : Bool
  min : Payload
  max : Payload
  deriving DecidableEq, Repr

/-- `StringStatsData`. -/
structure StringStatsData where
  min : List UInt8
  max : List UInt8
  hasUnicode : Bool
  hasMaxStringLength : Bool
  maxStringLength : Nat
  deriving DecidableEq, Repr

/-- `MAX_STRING_MINMAX_SIZE`. -/
def maxStringMinmaxSize : Nat := 8

/-- `BaseStatistics` as an object; the pointer to the additional statistic is an address. -/
structure StatisticsObject where
  type : ColumnType
  hasNull : Bool
  hasNoNull : Bool
  distinctCount : Nat
  numericData : NumericStatsData
  stringData : StringStatsData
  childStats : List StatisticsObject
  id : Nat
  additionalStats : Nat

/-- A primitive value of a stream; a number is the payload of a physical type. -/
inductive Primitive where
  | bool (value : Bool)
  | unsigned (value : Nat)
  | number (value : Payload)
  | data (bytes : List UInt8)
  deriving DecidableEq, Repr

/-- A reader of statistics; the state is the counter that the next identifier is taken from. -/
abbrev StatisticsReader (α : Type) := Reader Nat Primitive α

namespace StatisticsReader

def bool : StatisticsReader Bool := do
  match ← Reader.value with
  | .bool value => pure value
  | _ => throw "Failed to deserialize: not enough data in buffer to fulfill read request"

def unsigned : StatisticsReader Nat := do
  match ← Reader.value with
  | .unsigned value => pure value
  | _ => throw "Failed to deserialize: not enough data in buffer to fulfill read request"

/-- A number of a physical type. -/
def number (type : PhysicalType) : StatisticsReader Payload := do
  match ← Reader.value with
  | .number value =>
      if value.hasType type then pure value
      else throw "Failed to deserialize: not enough data in buffer to fulfill read request"
  | _ => throw "Failed to deserialize: not enough data in buffer to fulfill read request"

/-- `ReadDataPtr`. -/
def data (size : Nat) : StatisticsReader (List UInt8) := do
  match ← Reader.value with
  | .data bytes =>
      if bytes.length = size then pure bytes
      else throw ("Tried to read blob of " ++ toString size ++ " size, but only " ++
        toString bytes.length ++ " elements are available")
  | _ => throw "Failed to deserialize: not enough data in buffer to fulfill read request"

end StatisticsReader

namespace NumericStats

/-- `SerializeNumericStatsValue`. -/
def serializeNumericStatsValue (value : Payload) (hasValue : Bool) : List (Entry Primitive) :=
  writeProperty 100 [.value (.bool hasValue)] ++
    if hasValue then writeProperty 101 [.value (.number value)] else []

/-- `DeserializeNumericStatsValue`. -/
def deserializeNumericStatsValue (type : PhysicalType) : StatisticsReader (Bool × Payload) := do
  let hasValue ← Reader.property 100 StatisticsReader.bool
  if hasValue then
    let value ← Reader.property 101 (StatisticsReader.number type)
    pure (true, value)
  else pure (false, type.zero)

def serialize (data : NumericStatsData) : List (Entry Primitive) :=
  writeProperty 200 (writeObject (serializeNumericStatsValue data.max data.hasMax)) ++
    writeProperty 201 (writeObject (serializeNumericStatsValue data.min data.hasMin))

def deserialize (type : PhysicalType) : StatisticsReader NumericStatsData := do
  let (hasMax, max) ← Reader.property 200 (Reader.object (deserializeNumericStatsValue type))
  let (hasMin, min) ← Reader.property 201 (Reader.object (deserializeNumericStatsValue type))
  pure ⟨hasMin, hasMax, min, max⟩

end NumericStats

namespace StringStats

/-- The bounds are reserved: zeros are written in their place. -/
def serialize (data : StringStatsData) : List (Entry Primitive) :=
  writeProperty 200 [.value (.data (List.replicate maxStringMinmaxSize 0))] ++
    (writeProperty 201 [.value (.data (List.replicate maxStringMinmaxSize 0))] ++
      (writeProperty 202 [.value (.bool data.hasUnicode)] ++
        (writeProperty 203 [.value (.bool data.hasMaxStringLength)] ++
          writeProperty 204 [.value (.unsigned data.maxStringLength)])))

/-- The bounds are read into buffers of their own; those of the object stay. -/
def deserialize (data : StringStatsData) : StatisticsReader StringStatsData := do
  let _ ← Reader.property 200 (StatisticsReader.data maxStringMinmaxSize)
  let _ ← Reader.property 201 (StatisticsReader.data maxStringMinmaxSize)
  let hasUnicode ← Reader.property 202 StatisticsReader.bool
  let hasMaxStringLength ← Reader.property 203 StatisticsReader.bool
  let maxStringLength ← Reader.property 204 StatisticsReader.unsigned
  pure ⟨data.min, data.max, hasUnicode, hasMaxStringLength, maxStringLength⟩

end StringStats

/-- The types of the child statistics of a type. -/
def ColumnType.childTypes (type : ColumnType) : List ColumnType :=
  match type.type.statsType with
  | .list | .struct | .array => type.children
  | .numeric | .string | .base => []

namespace StatisticsObject

def statsType (stats : StatisticsObject) : StatisticsType := stats.type.type.statsType

/-- The members before `Construct` sets them: `stats_union {}`, and no additional statistic. -/
def blank (type : ColumnType) (id : Nat) (childStats : List StatisticsObject) : StatisticsObject :=
  let zero := type.type.internalType.zero
  ⟨type, false, false, 0, ⟨false, false, zero, zero⟩,
    ⟨List.replicate maxStringMinmaxSize 0, List.replicate maxStringMinmaxSize 0, false, false, 0⟩,
    childStats, id, 0⟩

mutual

/-- `Construct`: an identifier is taken from the counter, then the children are constructed. -/
def construct : ColumnType → Nat → StatisticsObject × Nat
  | .mk type children, counter =>
      match type.statsType with
      | .list | .struct | .array =>
          let (childStats, counter') := constructChildren children (counter + 1)
          (blank (.mk type children) counter childStats, counter')
      | .numeric | .string | .base => (blank (.mk type children) counter [], counter + 1)

def constructChildren : List ColumnType → Nat → List StatisticsObject × Nat
  | [], counter => ([], counter)
  | type :: types, counter =>
      let (child, counter) := construct type counter
      let (rest, counter) := constructChildren types counter
      (child :: rest, counter)

end

/-- `CopyBase`. -/
def copyBase (stats other : StatisticsObject) : StatisticsObject :=
  { stats with
    hasNull := other.hasNull
    hasNoNull := other.hasNoNull
    distinctCount := other.distinctCount
    id := other.id
    additionalStats := other.additionalStats }

mutual

/-- `Copy(other)`. -/
def copyFrom : StatisticsObject → StatisticsObject → StatisticsObject
  | ⟨type, hasNull, hasNoNull, distinctCount, numeric, string, childStats, id, additional⟩, other =>
      { copyBase ⟨type, hasNull, hasNoNull, distinctCount, numeric, string, [], id, additional⟩
          other with
        numericData := other.numericData
        stringData := other.stringData
        childStats :=
          match type.type.statsType with
          | .list | .struct | .array => copyChildren childStats other.childStats
          | .numeric | .string | .base => childStats }

def copyChildren : List StatisticsObject → List StatisticsObject → List StatisticsObject
  | child :: rest, other :: others => child.copyFrom other :: copyChildren rest others
  | childStats, _ => childStats

end

/-- `Copy()`, with the counter behind it. -/
def copy (stats : StatisticsObject) (counter : Nat) : StatisticsObject × Nat :=
  let (result, counter) := construct stats.type counter
  (result.copyFrom stats, counter)

mutual

/-- `Serialize`. -/
def serialize : StatisticsObject → List (Entry Primitive)
  | ⟨type, hasNull, hasNoNull, distinctCount, numeric, string, childStats, id, additional⟩ =>
      writeProperty 100 [.value (.bool hasNull)] ++
        (writeProperty 101 [.value (.bool hasNoNull)] ++
          (writeProperty 102 [.value (.unsigned distinctCount)] ++
            (writeProperty 103 (writeObject
              (match type.type.statsType with
              | .numeric => NumericStats.serialize numeric
              | .string => StringStats.serialize string
              | .list | .array => writeProperty 200 (serializeChildren childStats)
              | .struct =>
                  writeProperty 200 (.count type.children.length :: serializeChildren childStats)
              | .base => [])) ++
              (writeProperty 104 [.value (.unsigned id)] ++
                writeProperty 105 [.value (.unsigned additional)]))))

/-- The objects of the children, one behind the other. -/
def serializeChildren : List StatisticsObject → List (Entry Primitive)
  | [] => []
  | child :: rest => writeObject child.serialize ++ serializeChildren rest

end

mutual

/-- `Deserialize` of a type, which the reader is told. -/
def deserialize : ColumnType → StatisticsReader StatisticsObject
  | .mk type children => do
      let hasNull ← Reader.property 100 StatisticsReader.bool
      let hasNoNull ← Reader.property 101 StatisticsReader.bool
      let distinctCount ← Reader.property 102 StatisticsReader.unsigned
      let stats ← Reader.update (construct (.mk type children))
      let stats : StatisticsObject := { stats with hasNull, hasNoNull, distinctCount }
      let stats ← Reader.property 103 (Reader.object
        (match type.statsType with
        | .numeric => do
            let numericData ← NumericStats.deserialize type.internalType
            pure { stats with numericData }
        | .string => do
            let stringData ← StringStats.deserialize stats.stringData
            pure { stats with stringData }
        | .list | .array => do
            let childStats ← Reader.property 200 (deserializeChildren children 1 stats.childStats)
            pure { stats with childStats }
        | .struct => do
            let childStats ← Reader.property 200 (do
              let size ← Reader.listSize
              deserializeChildren children size stats.childStats)
            pure { stats with childStats }
        | .base => pure stats))
      let id ← Reader.propertyWithDefault 104 stats.id StatisticsReader.unsigned
      let additionalStats ← Reader.propertyWithDefault 105 0 StatisticsReader.unsigned
      pure { stats with id, additionalStats }

/-- The first objects of a list, each copied over the child that was constructed for it. -/
def deserializeChildren : List ColumnType → Nat → List StatisticsObject →
    StatisticsReader (List StatisticsObject)
  | type :: types, size + 1, child :: rest => do
      let stat ← Reader.object (deserialize type)
      let others ← deserializeChildren types size rest
      pure (child.copyFrom stat :: others)
  | _, 0, childStats => pure childStats
  | types, _, _ => throw ("Attempted to access index " ++ toString types.length ++
      " within vector of size " ++ toString types.length)

end

/-- `NumericStats::GetStorageConstant`. -/
def storageConstant (stats : StatisticsObject) : Except String Constant :=
  let data := stats.numericData
  if data.hasMin && data.hasMax && equals data.min data.max then
    .ok ⟨stats.type.type, data.min⟩
  else if !stats.hasNoNull then .ok ⟨stats.type.type, stats.type.type.internalType.zero⟩
  else .error "Constant-compressed numeric segment is missing its storage value"

end StatisticsObject

end StatsRecommender
