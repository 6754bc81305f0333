import StatsRecommender.Storage.BufferedFile

/-!
# The write-ahead log

The entries of the log as bytes, and `WriteAheadLog`, which writes them through a buffered writer.
-/

namespace StatsRecommender

open ByteOrder ByteReader

/-! ## Entries -/

/-- `WALType`. -/
inductive WALType where
  | invalid
  | createTable
  | dropTable
  | createSchema
  | dropSchema
  | createView
  | dropView
  | createSequence
  | dropSequence
  | sequenceValue
  | createMacro
  | dropMacro
  | createType
  | dropType
  | alterInfo
  | createTableMacro
  | dropTableMacro
  | createIndex
  | dropIndex
  | useTable
  | insertTuple
  | deleteTuple
  | updateTuple
  | rowGroupData
  | walVersion
  | checkpoint
  | walFlush
  deriving DecidableEq, Repr

namespace WALType

def code : WALType → Nat
  | invalid => 0
  | createTable => 1
  | dropTable => 2
  | createSchema => 3
  | dropSchema => 4
  | createView => 5
  | dropView => 6
  | createSequence => 8
  | dropSequence => 9
  | sequenceValue => 10
  | createMacro => 11
  | dropMacro => 12
  | createType => 13
  | dropType => 14
  | alterInfo => 20
  | createTableMacro => 21
  | dropTableMacro => 22
  | createIndex => 23
  | dropIndex => 24
  | useTable => 25
  | insertTuple => 26
  | deleteTuple => 27
  | updateTuple => 28
  | rowGroupData => 29
  | walVersion => 98
  | checkpoint => 99
  | walFlush => 100

/-- The types whose entries `WriteAheadLogDeserializer::ReplayEntry` replays as changes. -/
def changes : List WALType :=
  [createTable, dropTable, alterInfo, createView, dropView, createSchema, dropSchema,
    createSequence, dropSequence, sequenceValue, createMacro, dropMacro, createTableMacro,
    dropTableMacro, createIndex, dropIndex, useTable, insertTuple, rowGroupData, deleteTuple,
    updateTuple, createType, dropType]

/-- The change that a code stands for. -/
def ofCode? (number : Nat) : Option WALType := changes.find? fun type => type.code == number

theorem ofCode?_code {type : WALType} (member : type ∈ changes) : ofCode? type.code = some type := by
  revert type
  decide

theorem code_change {type : WALType} (member : type ∈ changes) : type.code < 98 := by
  revert type
  decide

end WALType

/-- `MetaBlockPointer`. -/
structure MetaBlockPointer where
  blockPointer : Nat
  offset : Nat
  deriving DecidableEq, Repr

namespace MetaBlockPointer

/-- `DConstants::INVALID_INDEX`. -/
def invalidIndex : Nat := 2 ^ 64 - 1

def invalid : MetaBlockPointer := ⟨invalidIndex, 0⟩

def isValid (pointer : MetaBlockPointer) : Bool := pointer.blockPointer != invalidIndex

/-- `MetaBlockPointer::Serialize`. -/
def serialize (pointer : MetaBlockPointer) : List UInt8 :=
  BinaryFormat.propertyWithDefault 100 (pointer.blockPointer == 0)
      (BinaryFormat.varInt pointer.blockPointer) ++
    (BinaryFormat.propertyWithDefault 101 (pointer.offset == 0)
      (BinaryFormat.varInt pointer.offset) ++ BinaryFormat.objectEnd)

/-- `MetaBlockPointer::Deserialize`. -/
def deserialize (short : Exception) : ByteReader Exception MetaBlockPointer := do
  let blockPointer ← BinaryFormat.readPropertyWithDefault short 100 0
    (BinaryFormat.readVarInt short 64)
  let offset ← BinaryFormat.readPropertyWithDefault short 101 0 (BinaryFormat.readVarInt short 32)
  BinaryFormat.readObjectEnd short
  pure ⟨blockPointer, offset⟩

end MetaBlockPointer

/-- `Checksum` of a word. -/
def checksumWord (word : UInt64) : UInt64 := word * 0xbf58476d1ce4e5b9

/-- `ChecksumRemainder` of fewer bytes than a word has. -/
def checksumRemainder (rest : List UInt8) : UInt64 :=
  let m : UInt64 := 0xc6a4a7935bd1e995
  let seed : UInt64 := 0xe17a1465 ^^^ (UInt64.ofNat rest.length * m)
  let mixed := rest.zipIdx.foldr
    (fun entry h => h ^^^ (UInt64.ofNat entry.1.toNat <<< UInt64.ofNat (8 * entry.2))) seed
  let scaled := if rest.isEmpty then mixed else mixed * m
  let shifted := (scaled ^^^ (scaled >>> 47)) * m
  shifted ^^^ (shifted >>> 47)

/-- `Checksum`. -/
def checksum (buffer : List UInt8) : UInt64 :=
  let words := buffer.length / 8
  let result := (List.range words).foldl
    (fun result i => result ^^^
      checksumWord (UInt64.ofNat (littleEndian ((buffer.drop (8 * i)).take 8)))) 5381
  let rest := buffer.drop (8 * words)
  if rest.isEmpty then result else result ^^^ checksumRemainder rest

/-- What is known of the changes: how they are written and read, and how they are replayed. -/
structure ChangeRecords (Change Target : Type) where
  walType : Change → WALType
  /-- The properties behind the type of the entry. -/
  write : Change → List UInt8
  read : Exception → WALType → ByteReader Exception Change
  replay : Change → Target → Except Exception Target
  /-- `Connection::Commit`, with the outstanding indexes. -/
  commit : Target → Target

/-- The changes are read as they are written. -/
structure ChangeRecords.Lawful {Change Target : Type} (records : ChangeRecords Change Target) :
    Prop where
  isChange : ∀ record, records.walType record ∈ WALType.changes
  reads : ∀ short record, Torn short →
    Takes Torn (records.read short (records.walType record)) (records.write record) record

/-- An entry of the log behind its header. -/
inductive WalEntry (Change : Type) where
  | change (record : Change)
  | checkpoint (metaBlock : MetaBlockPointer)
  | flush

section Entries

variable {Change Target Contents : Type} (records : ChangeRecords Change Target)

/-- `WriteAheadLogSerializer`, between its constructor and `End`. -/
def WalEntry.payload : WalEntry Change → List UInt8
  | change record =>
      BinaryFormat.property 100 (BinaryFormat.varInt (records.walType record).code) ++
        (records.write record ++ BinaryFormat.objectEnd)
  | checkpoint metaBlock =>
      BinaryFormat.property 100 (BinaryFormat.varInt WALType.checkpoint.code) ++
        (BinaryFormat.property 101 metaBlock.serialize ++ BinaryFormat.objectEnd)
  | flush =>
      BinaryFormat.property 100 (BinaryFormat.varInt WALType.walFlush.code) ++
        BinaryFormat.objectEnd

/-- `ChecksumWriter::Flush`: the size and the checksum in front of the entry. -/
def WalEntry.bytes (entry : WalEntry Change) : List UInt8 :=
  let payload := entry.payload records
  littleEndianBytes 8 payload.length ++ (littleEndianBytes 8 (checksum payload).toNat ++ payload)

/-- `MainHeader::DB_IDENTIFIER_LEN`. -/
def dbIdentifierLength : Nat := 16

/-- The database file: what identifies it, its header, and what is found at its root block. -/
structure DatabaseFile (Contents : Type) where
  versionNumber : Nat
  dbIdentifier : List UInt8
  metaBlock : Nat
  checkpointIteration : Nat
  contents : Contents
  identified : dbIdentifier.length = dbIdentifierLength

/-- `WAL_VERSION_NUMBER`. -/
def walVersionNumber : Nat := 2

/-- `WriteAheadLog::WriteHeader`. -/
def DatabaseFile.walHeader (database : DatabaseFile Contents) : List UInt8 :=
  BinaryFormat.property 100 (BinaryFormat.varInt WALType.walVersion.code) ++
    (BinaryFormat.property 101 (BinaryFormat.varInt walVersionNumber) ++
      ((if 66 < database.versionNumber then
        BinaryFormat.property 102
            (BinaryFormat.list (fun byte => BinaryFormat.varInt byte.toNat)
              database.dbIdentifier) ++
          BinaryFormat.property 103 (BinaryFormat.varInt database.checkpointIteration)
      else []) ++ BinaryFormat.objectEnd))

end Entries

/-! ## The log -/

/-- `WALInitState`. -/
inductive WALInitState where
  | noWal
  | uninitialized
  | uninitializedRequiresTruncate
  | initialized
  deriving DecidableEq, Repr

/-- `WriteAheadLog`, with its file as long as no writer is open. -/
structure WriteAheadLog where
  file : Option (List UInt8)
  writer : Option BufferedFileWriter
  walSize : Nat
  initState : WALInitState

namespace WriteAheadLog

/-- A log without a file. -/
def noLog : WriteAheadLog := ⟨none, none, 0, .noWal⟩

variable (log : WriteAheadLog)

/-- `WriteAheadLog::Initialized`. -/
def isInitialized : Bool := log.initState == .initialized

/-- `WriteAheadLog::Initialize`: the writer, and the log with it. -/
def openWriter : BufferedFileWriter × WriteAheadLog :=
  match log.writer with
  | some writer => (writer, log)
  | none =>
      let opened := BufferedFileWriter.openFile (log.file.getD [])
      let writer :=
        if log.initState = .uninitializedRequiresTruncate then opened.truncate log.walSize
        else opened
      (writer, ⟨none, some writer, writer.getFileSize, .initialized⟩)

/-- `WriteAheadLog::GetTotalWritten`. -/
def getTotalWritten : Nat :=
  if log.isInitialized then (log.writer.map BufferedFileWriter.getTotalWritten).getD 0 else 0

/-- `WriteAheadLog::Truncate`. -/
def truncate (size : Nat) : WriteAheadLog :=
  if log.initState = .noWal then log
  else
    match log.writer with
    | none => { log with initState := .uninitializedRequiresTruncate, walSize := size }
    | some writer =>
        { log with
          writer := some (writer.truncate size), walSize := (writer.truncate size).getFileSize }

/-- `WriteAheadLog::Delete`. -/
def delete : WriteAheadLog := if log.initState = .noWal then log else noLog

section Write

variable {Change Target Contents : Type} (records : ChangeRecords Change Target)
  (database : DatabaseFile Contents)

/-- An entry is written, behind the header if nothing has been written yet. -/
def writeEntry (entry : WalEntry Change) : WriteAheadLog :=
  let (writer, log) := log.openWriter
  let headed := if 0 < writer.getFileSize then writer else writer.writeData database.walHeader
  let payload := entry.payload records
  let written := ((headed.writeData (littleEndianBytes 8 payload.length)).writeData
    (littleEndianBytes 8 (checksum payload).toNat)).writeData payload
  { log with writer := some written }

/-- The last part of `WriteAheadLog::Flush`. -/
def sync : WriteAheadLog :=
  match log.writer with
  | none => log
  | some writer => { log with writer := some writer.sync, walSize := writer.sync.getFileSize }

end Write

end WriteAheadLog

/-- `SingleFileStorageCommitState`, while it is in progress. -/
structure CommitLogState where
  initialWalSize : Nat
  initialWritten : Nat

/-- `SingleFileStorageCommitState::RevertCommit`. -/
def CommitLogState.revertCommit (commit : CommitLogState) (log : WriteAheadLog) : WriteAheadLog :=
  if commit.initialWritten < log.getTotalWritten then log.truncate commit.initialWalSize else log

end StatsRecommender
