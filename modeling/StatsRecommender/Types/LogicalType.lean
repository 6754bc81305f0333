import StatsRecommender.Types.Constants
import StatsRecommender.Types.Payload

/-!
# Logical types

A logical type is named by its id and stored as a physical type; several ids share one
representation.
-/

namespace StatsRecommender

/-- `LogicalTypeId`. -/
inductive LogicalTypeId where
  | invalid | sqlNull | unknown | any | user | template
  | boolean | tinyint | smallint | integer | bigint
  | date | time | timestampSec | timestampMs | timestamp | timestampNs
  | decimal | float | double | char | varchar | blob | interval
  | utinyint | usmallint | uinteger | ubigint
  | timestampTz | timeTz | timeNs | bit | stringLiteral | integerLiteral | bignum
  | uhugeint | hugeint | pointer | validity | uuid
  | struct | list | map | table | enum | aggregateState | lambda | union | array | variant
  deriving DecidableEq, Repr

/-- `LogicalType`, with the physical type that `InternalType` answers. -/
structure LogicalType where
  id : LogicalTypeId
  internalType : PhysicalType
  deriving DecidableEq, Repr

namespace LogicalType

def integer : LogicalType := ⟨.integer, .int32⟩
def varchar : LogicalType := ⟨.varchar, .varchar⟩

end LogicalType

/-- A `Value` that is not NULL. -/
structure Constant where
  type : LogicalType
  payload : Payload
  deriving DecidableEq, Repr

/-- The type of a column with the types of its children. -/
inductive ColumnType where
  | mk (type : LogicalType) (children : List ColumnType)

def ColumnType.type : ColumnType → LogicalType
  | .mk type _ => type

def ColumnType.children : ColumnType → List ColumnType
  | .mk _ children => children

end StatsRecommender
