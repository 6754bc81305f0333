import StatsRecommender.Storage.WriteAheadLog

/-!
# Replaying the write-ahead log

`WriteAheadLogDeserializer` reads the entries of a log.  `WriteAheadLog::ReplayInternal` reads the
log twice: first to look for a checkpoint, then to replay it.
-/

namespace StatsRecommender

open ByteOrder ByteReader

variable {Change Target Contents : Type}

/-- `ReplayState`. -/
structure ReplayState (Target : Type) where
  target : Target
  checkpointId : MetaBlockPointer
  walVersion : Nat
  expectedCheckpointId : Option Nat

/-- A state before the first entry. -/
def ReplayState.create (target : Target) : ReplayState Target := ⟨target, .invalid, 1, none⟩

/-- What replaying a part of an entry comes to: a state, and the bytes that are left. -/
abbrev ReplayStep (Target : Type) := ReplayState Target × Except Exception (List UInt8)

/-- The exception at the end of a buffer. -/
def endOfBuffer : Exception :=
  .serialization "Failed to deserialize: not enough data in buffer to fulfill read request"

/-- `WriteAheadLogDeserializer::ThrowVersionError`. -/
def throwVersionError (checkpointIteration expectedCheckpointIteration : Nat) : Exception :=
  let relation := if checkpointIteration < expectedCheckpointIteration then "an older" else "a newer"
  .other ("This WAL was created for this database file, but the WAL checkpoint iteration does not " ++
    "match the database file. That means the WAL was created for " ++ relation ++
    " version of this database. File checkpoint iteration: " ++
    toString expectedCheckpointIteration ++ ", WAL checkpoint iteration: " ++
    toString checkpointIteration)

section Deserializer

variable (records : ChangeRecords Change Target) (database : DatabaseFile Contents)
  (short : Exception)

/-- The identifier and the iteration that a header may have. -/
def readIdentity : ByteReader Exception (Option (List Nat) × Option Nat) := do
  let dbIdentifier ← BinaryFormat.readPropertyWithDefault short 102 none (do
    let bytes ← BinaryFormat.readList short (BinaryFormat.readVarInt short 8)
    pure (if bytes.isEmpty then none else some bytes))
  let checkpointIteration ← BinaryFormat.readPropertyWithDefault short 103 none (do
    let iteration ← BinaryFormat.readVarInt short 64
    pure (if iteration = MetaBlockPointer.invalidIndex then none else some iteration))
  pure (dbIdentifier, checkpointIteration)

/-- The checks of `WriteAheadLogDeserializer::ReplayVersion`. -/
def checkIdentity (state : ReplayState Target) (rest : List UInt8) :
    Option (List Nat) × Option Nat → ReplayStep Target
  | (some dbIdentifier, some walCheckpointIteration) =>
      if dbIdentifier ≠ database.dbIdentifier.map UInt8.toNat then
        (state, .error (.other "WAL does not match database file."))
      else if database.checkpointIteration = walCheckpointIteration then (state, .ok rest)
      else if walCheckpointIteration + 1 = database.checkpointIteration then
        -- the file was checkpointed, but the log was not removed
        ({ state with expectedCheckpointId := some database.checkpointIteration }, .ok rest)
      else
        (state, .error (throwVersionError walCheckpointIteration database.checkpointIteration))
  | _ => (state, .ok rest)

/-- `WriteAheadLogDeserializer::ReplayVersion`. -/
def replayVersion (state : ReplayState Target) (stream : List UInt8) : ReplayStep Target :=
  match BinaryFormat.readProperty short 101 (BinaryFormat.readVarInt short 64) stream with
  | .error exception => (state, .error exception)
  | .ok (walVersion, rest) =>
      let state := { state with walVersion }
      match readIdentity short rest with
      | .error exception => (state, .error exception)
      | .ok (identity, rest) => checkIdentity database state rest identity

/-- `WriteAheadLogDeserializer::ReplayCheckpoint`. -/
def replayCheckpoint (state : ReplayState Target) (stream : List UInt8) : ReplayStep Target :=
  match BinaryFormat.readProperty short 101 (MetaBlockPointer.deserialize short) stream with
  | .error exception => (state, .error exception)
  | .ok (checkpointId, rest) => ({ state with checkpointId }, .ok rest)

/--
The replay of a change; types are created even if the entries are only to be deserialized.
`ReplayRowGroupData` marks the blocks of its row groups as used then, which changes the block
manager but nothing that a target stands for.
-/
def replayChange (deserializeOnly : Bool) (type : WALType) (state : ReplayState Target)
    (stream : List UInt8) : ReplayStep Target :=
  match records.read short type stream with
  | .error exception => (state, .error exception)
  | .ok (change, rest) =>
      if deserializeOnly && type != .createType then (state, .ok rest)
      else
        match records.replay change state.target with
        | .error exception => (state, .error exception)
        | .ok target => ({ state with target }, .ok rest)

/-- `WriteAheadLogDeserializer::ReplayEntry` of a type. -/
def replayType (deserializeOnly : Bool) (code : Nat) (state : ReplayState Target)
    (stream : List UInt8) : ReplayStep Target :=
  if code = WALType.walVersion.code then replayVersion database short state stream
  else if code = WALType.checkpoint.code then replayCheckpoint short state stream
  else
    match WALType.ofCode? code with
    | none => (state, .error (.other "Invalid WAL entry type!"))
    | some type => replayChange records short deserializeOnly type state stream

/-- `WriteAheadLogDeserializer::ReplayEntry`: whether the entry ends a transaction. -/
def replayEntry (deserializeOnly : Bool) (state : ReplayState Target) (stream : List UInt8) :
    ReplayState Target × Except Exception (Bool × List UInt8) :=
  match BinaryFormat.readProperty short 100 (BinaryFormat.readVarInt short 8) stream with
  | .error exception => (state, .error exception)
  | .ok (code, rest) =>
      let flushed := code == WALType.walFlush.code
      let (state, replayed) :=
        if flushed then (state, .ok rest)
        else replayType records database short deserializeOnly code state rest
      match replayed with
      | .error exception => (state, .error exception)
      | .ok rest =>
          match BinaryFormat.readObjectEnd short rest with
          | .error exception => (state, .error exception)
          | .ok (_, rest) => (state, .ok (flushed, rest))

end Deserializer

section Replay

variable (records : ChangeRecords Change Target) (database : DatabaseFile Contents)
  (fileSize : Nat)

/-- The entry behind its size and its checksum, which are checked. -/
def readChecked (size storedChecksum : Nat) : ByteReader Exception (List UInt8) := fun stream =>
  let offset := fileSize - stream.length
  if fileSize < (offset + size) % 2 ^ 64 then
    .error (.serialization ("Corrupt WAL file: entry size exceeded remaining data in file at " ++
      "byte position " ++ toString offset ++ " (found entry with size " ++ toString size ++
      " bytes, file size " ++ toString fileSize ++ " bytes)"))
  else
    match bytes BufferedFileReader.endOfFile size stream with
    | .error exception => .error exception
    | .ok (buffer, rest) =>
        if storedChecksum ≠ (checksum buffer).toNat then
          .error (.other ("Corrupt WAL file: entry at byte position " ++ toString offset ++
            " computed checksum " ++ toString (checksum buffer).toNat ++
            " does not match stored checksum " ++ toString storedChecksum))
        else .ok (buffer, rest)

/-- The second version of `WriteAheadLogDeserializer::Open`: the entry is read into a buffer. -/
def readBuffer : ByteReader Exception (List UInt8) := do
  let size ← BinaryFormat.readFixed BufferedFileReader.endOfFile 8
  let storedChecksum ← BinaryFormat.readFixed BufferedFileReader.endOfFile 8
  readChecked fileSize size storedChecksum

/-- `WriteAheadLogDeserializer::Open`, with the entry that is replayed from it. -/
def replayNext (deserializeOnly : Bool) (state : ReplayState Target) (stream : List UInt8) :
    ReplayState Target × Except Exception (Bool × List UInt8) :=
  if state.walVersion = 1 then
    replayEntry records database BufferedFileReader.endOfFile deserializeOnly state stream
  else if state.walVersion = 2 then
    match readBuffer fileSize stream with
    | .error exception => (state, .error exception)
    | .ok (buffer, rest) =>
        let (state, replayed) :=
          replayEntry records database endOfBuffer deserializeOnly state buffer
        (state, replayed.map fun entry => (entry.1, rest))
  else
    (state, .error (.other ("Failed to read WAL of version " ++ toString state.walVersion ++
      " - can only read version 1, 2 and 3 (encrypted)")))

/-- Where the loop over the entries is: the state, and what has been committed so far. -/
structure ReplayProgress (Target : Type) where
  state : ReplayState Target
  committed : Target
  successfulOffset : Nat

/-- How the loop ends: at the end of the file, or with an exception. -/
structure ReplayOutcome (Target : Type) where
  progress : ReplayProgress Target
  exception : Option Exception

/-- What a flush comes to; there is nothing to commit if entries are only deserialized. -/
def ReplayProgress.flushed (deserializeOnly : Bool) (progress : ReplayProgress Target)
    (state : ReplayState Target) (rest : List UInt8) : ReplayProgress Target :=
  if deserializeOnly then { progress with state }
  else
    let target := records.commit state.target
    ⟨{ state with target }, target, fileSize - rest.length⟩

/-- The loop over the entries; the first argument bounds its rounds. -/
def replayLoop (deserializeOnly : Bool) :
    Nat → ReplayProgress Target → List UInt8 → ReplayOutcome Target
  | 0, progress, _ => ⟨progress, some (.other "the loop does not end")⟩
  | rounds + 1, progress, stream =>
      match replayNext records database fileSize deserializeOnly progress.state stream with
      | (state, .error exception) => ⟨{ progress with state }, some exception⟩
      | (state, .ok (flushed, rest)) =>
          if flushed then
            let progress := progress.flushed records fileSize deserializeOnly state rest
            if rest.isEmpty then ⟨progress, none⟩
            else replayLoop deserializeOnly rounds progress rest
          else replayLoop deserializeOnly rounds { progress with state } rest

end Replay

/-- The exception behind a loop that must not go unnoticed: a torn log is no failure. -/
def ReplayOutcome.failure (outcome : ReplayOutcome Target) : Option Exception :=
  outcome.exception.filter fun exception => !exception.isSerialization

section ReplayInternal

variable (records : ChangeRecords Change Target) (database : DatabaseFile Contents)

/-- A reading of the log from its beginning. -/
def readLog (deserializeOnly : Bool) (start target : Target) (file : List UInt8) :
    ReplayOutcome Target :=
  replayLoop records database file.length deserializeOnly (file.length + 1)
    ⟨.create target, start, 0⟩ file

/-- `WriteAheadLog::ReplayInternal`; without a log, its file is to be removed. -/
def replayInternal (start : Target) (file : List UInt8) :
    Except Exception (Target × Option WriteAheadLog) :=
  if file.isEmpty then pure (start, none)
  else
    let deserialized := readLog records database true start start file
    let checkpointState := deserialized.progress.state
    match deserialized.failure with
    | some exception => throw exception
    | none =>
        if checkpointState.checkpointId.isValid &&
            checkpointState.checkpointId.blockPointer == database.metaBlock then
          -- the contents of the log have been checkpointed
          pure (start, none)
        else
          match checkpointState.expectedCheckpointId with
          | some expected => throw (throwVersionError (expected - 1) expected)
          | none =>
              let replayed := readLog records database false start checkpointState.target file
              match replayed.failure with
              | some exception => throw exception
              | none =>
                  let initState : WALInitState :=
                    if replayed.exception.isNone then .uninitialized
                    else .uninitializedRequiresTruncate
                  pure (replayed.progress.committed,
                    some ⟨some file, none, replayed.progress.successfulOffset, initState⟩)

/-- `WriteAheadLog::Replay` of a database that is not read-only. -/
def replayWal (start : Target) (file : Option (List UInt8)) :
    Except Exception (Target × WriteAheadLog) :=
  match file with
  | none => pure (start, .noLog)
  | some file => do
      let (target, log) ← replayInternal records database start file
      pure (target, log.getD .noLog)

end ReplayInternal

end StatsRecommender
