import StatsRecommender.Storage.WalCut

/-!
# The records of schemas

The entries of the log that create and drop a schema, replayed on a catalog of schemas.
-/

namespace StatsRecommender

open ByteReader

/-- The name of a schema, whose length its entry has room for. -/
structure SchemaName where
  bytes : List UInt8
  short : bytes.length < 2 ^ 32
  deriving DecidableEq

namespace SchemaName

/-- `StringUtil::CharacterToLower`. -/
def characterToLower (c : UInt8) : UInt8 := if 65 ≤ c.toNat ∧ c.toNat ≤ 90 then c + 32 else c

/-- `StringUtil::Lower`, by which names are looked up. -/
def lower (name : SchemaName) : List UInt8 := name.bytes.map characterToLower

/-- A name as it is shown. -/
def text (name : SchemaName) : String :=
  String.ofList (name.bytes.map fun c => Char.ofNat c.toNat)

/-- The schemas of `default_schemas.cpp`. -/
def internalSchemas : List (List UInt8) :=
  ["information_schema", "pg_catalog"].map fun name => name.toList.map fun c => UInt8.ofNat c.toNat

/-- `DefaultSchemaGenerator::IsDefaultSchema`. -/
def isDefaultSchema (name : SchemaName) : Bool := internalSchemas.contains name.lower

end SchemaName

/-- A change of the schemas. -/
inductive SchemaChange where
  | createSchema (name : SchemaName)
  | dropSchema (name : SchemaName)
  deriving DecidableEq

/-- The schemas of a catalog, which contain nothing else. -/
abbrev Schemas := List SchemaName

namespace Schemas

variable (schemas : Schemas) (name : SchemaName)

/-- Whether there is a schema of this name. -/
def has : Bool := schemas.any fun schema => schema.lower == name.lower

/-- `DuckCatalog::CreateSchema`, where conflicts are errors. -/
def createSchema : Except Exception Schemas :=
  if name.isDefaultSchema || schemas.has name then
    throw (.other ("Schema with name \"" ++ name.text ++ "\" already exists!"))
  else pure (schemas ++ [name])

/-- `DuckCatalog::DropSchema`. -/
def dropSchema : Except Exception Schemas :=
  if schemas.has name then pure (schemas.filter fun schema => schema.lower != name.lower)
  else throw (.other ("Schema with name " ++ name.text ++ " does not exist!"))

end Schemas

namespace SchemaChange

def name : SchemaChange → SchemaName
  | createSchema name => name
  | dropSchema name => name

def walType : SchemaChange → WALType
  | createSchema _ => .createSchema
  | dropSchema _ => .dropSchema

/-- `WriteAheadLog::WriteCreateSchema` and `WriteDropSchema`. -/
def write (change : SchemaChange) : List UInt8 :=
  BinaryFormat.property 101 (BinaryFormat.string change.name.bytes)

/-- What `ReplayCreateSchema` and `ReplayDropSchema` read. -/
def read (short : Exception) (type : WALType) : ByteReader Exception SchemaChange := do
  let bytes ← BinaryFormat.readProperty short 101 (BinaryFormat.readString short)
  if fits : bytes.length < 2 ^ 32 then
    match type with
    | .createSchema => pure (createSchema ⟨bytes, fits⟩)
    | .dropSchema => pure (dropSchema ⟨bytes, fits⟩)
    | _ => throw (.other "Invalid WAL entry type!")
  else throw short

def replay : SchemaChange → Schemas → Except Exception Schemas
  | createSchema name, schemas => schemas.createSchema name
  | dropSchema name, schemas => schemas.dropSchema name

/-- The records of the changes; a commit keeps the schemas. -/
def schemaRecords : ChangeRecords SchemaChange Schemas :=
  ⟨walType, write, read, replay, id⟩

theorem lawful_schemaRecords : schemaRecords.Lawful := by
  constructor
  · intro change
    cases change with
    | createSchema name =>
        show WALType.createSchema ∈ WALType.changes
        decide
    | dropSchema name =>
        show WALType.dropSchema ∈ WALType.changes
        decide
  · intro short change is_torn
    have named := BinaryFormat.takes_property is_torn (show 101 < 65536 by decide)
      (BinaryFormat.takes_string is_torn change.name.short)
    show Takes Torn (read short change.walType) change.write change
    rw [read, write, ← List.append_nil (BinaryFormat.property 101 _)]
    refine named.bind ?_
    rw [dif_pos change.name.short]
    cases change with
    | createSchema name => exact .pure _
    | dropSchema name => exact .pure _

/-- The schemas themselves are what the database contains. -/
def schemaContents : TargetContents schemaRecords Schemas := ⟨id, id, fun _ => rfl, fun _ => rfl⟩

/-- A change of given schemas has its effect whatever the replay is at. -/
theorem effect_of_replay {before after : Schemas} {changes : List SchemaChange}
    (replayed : changes.foldlM (fun schemas change => replay change schemas) before = .ok after) :
    Effect schemaContents before changes after := by
  intro target same
  obtain rfl : target = before := same
  exact ⟨after, replayed, rfl⟩

/-- The name of an ASCII text. -/
def nameOf (text : String) (short : text.toList.length < 2 ^ 32) : SchemaName :=
  ⟨text.toList.map fun c => UInt8.ofNat c.toNat, by rwa [List.length_map]⟩

def main : SchemaName := nameOf "main" (by decide)

def sales : SchemaName := nameOf "sales" (by decide)

def stock : SchemaName := nameOf "Stock" (by decide)

/-- A new database file. -/
def newFile : DatabaseFile Schemas :=
  ⟨67, List.replicate dbIdentifierLength 0, MetaBlockPointer.invalidIndex, 0, [main],
    List.length_replicate⟩

end SchemaChange

end StatsRecommender
