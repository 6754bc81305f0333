import StatsRecommender.Storage.WalReplay

/-!
# Reading the entries of a log

An entry is read back as it was written, and a cut in its bytes is noticed as a torn log.
-/

namespace StatsRecommender

variable {code size : Nat}

open ByteOrder ByteReader

/-! ## Pointers -/

theorem torn_endOfFile : Torn BufferedFileReader.endOfFile := rfl

theorem torn_endOfBuffer : Torn endOfBuffer := rfl

namespace MetaBlockPointer

variable {short : Exception} {pointer : MetaBlockPointer}

/-- The pointers that their fields have room for. -/
def Fits (pointer : MetaBlockPointer) : Prop :=
  pointer.blockPointer < 2 ^ 64 ∧ pointer.offset < 2 ^ 32

theorem takes_offset (is_torn : Torn short) (fits : pointer.Fits) :
    Takes Torn (do
      let offset ← BinaryFormat.readPropertyWithDefault short 101 0
        (BinaryFormat.readVarInt short 32)
      BinaryFormat.readObjectEnd short
      pure (⟨pointer.blockPointer, offset⟩ : MetaBlockPointer))
      (BinaryFormat.propertyWithDefault 101 (pointer.offset == 0)
        (BinaryFormat.varInt pointer.offset) ++ BinaryFormat.objectEnd) pointer := by
  have ended : Takes Torn (do
      BinaryFormat.readObjectEnd short
      pure (⟨pointer.blockPointer, pointer.offset⟩ : MetaBlockPointer))
      BinaryFormat.objectEnd pointer := (BinaryFormat.takes_objectEnd is_torn).bind_pure
  by_cases zero : pointer.offset = 0
  · have absent : BinaryFormat.propertyWithDefault 101 (pointer.offset == 0)
        (BinaryFormat.varInt pointer.offset) = [] := by simp [BinaryFormat.propertyWithDefault, zero]
    rw [zero] at ended
    rw [absent, List.nil_append, ← List.append_nil BinaryFormat.objectEnd]
    refine BinaryFormat.takes_absent is_torn (by decide) (by decide) ?_
    rw [List.append_nil]
    exact ended
  · have present : BinaryFormat.propertyWithDefault 101 (pointer.offset == 0)
        (BinaryFormat.varInt pointer.offset) =
          BinaryFormat.property 101 (BinaryFormat.varInt pointer.offset) := by
      simp [BinaryFormat.propertyWithDefault, zero]
    rw [present]
    exact (BinaryFormat.takes_present is_torn (by decide)
      (BinaryFormat.takes_varInt is_torn (by decide) fits.2)).bind ended

/-- A pointer is read back. -/
theorem takes_deserialize (is_torn : Torn short) (fits : pointer.Fits) :
    Takes Torn (deserialize short) pointer.serialize pointer := by
  have rest := takes_offset is_torn fits
  by_cases zero : pointer.blockPointer = 0
  · have absent : BinaryFormat.propertyWithDefault 100 (pointer.blockPointer == 0)
        (BinaryFormat.varInt pointer.blockPointer) = [] := by
      simp [BinaryFormat.propertyWithDefault, zero]
    rw [serialize, absent, List.nil_append]
    rw [zero] at rest
    -- the next field is the offset, or the end of the object
    by_cases last : pointer.offset = 0
    · have nothing : BinaryFormat.propertyWithDefault 101 (pointer.offset == 0)
          (BinaryFormat.varInt pointer.offset) = [] := by
        simp [BinaryFormat.propertyWithDefault, last]
      rw [nothing, List.nil_append, ← List.append_nil BinaryFormat.objectEnd] at rest ⊢
      exact BinaryFormat.takes_absent is_torn (by decide) (by decide) rest
    · have present : BinaryFormat.propertyWithDefault 101 (pointer.offset == 0)
          (BinaryFormat.varInt pointer.offset) =
            BinaryFormat.property 101 (BinaryFormat.varInt pointer.offset) := by
        simp [BinaryFormat.propertyWithDefault, last]
      rw [present, BinaryFormat.property, List.append_assoc] at rest ⊢
      exact BinaryFormat.takes_absent is_torn (by decide) (by decide) rest
  · have present : BinaryFormat.propertyWithDefault 100 (pointer.blockPointer == 0)
        (BinaryFormat.varInt pointer.blockPointer) =
          BinaryFormat.property 100 (BinaryFormat.varInt pointer.blockPointer) := by
      simp [BinaryFormat.propertyWithDefault, zero]
    rw [serialize, present]
    exact (BinaryFormat.takes_present is_torn (by decide)
      (BinaryFormat.takes_varInt is_torn (by decide) fits.1)).bind rest

end MetaBlockPointer

/-! ## Entries in a buffer -/

section Entries

variable {Change Target Contents : Type} {records : ChangeRecords Change Target}
  {database : DatabaseFile Contents} {short : Exception} {deserializeOnly : Bool}
  {state : ReplayState Target}

theorem takes_code (is_torn : Torn short) (small : code < 256) :
    Takes Torn (BinaryFormat.readProperty short 100 (BinaryFormat.readVarInt short 8))
      (BinaryFormat.property 100 (BinaryFormat.varInt code)) code :=
  BinaryFormat.takes_property is_torn (by decide)
    (BinaryFormat.takes_varInt is_torn (by decide) small)

theorem replayEntry_flush (is_torn : Torn short) (rest : List UInt8) :
    replayEntry records database short deserializeOnly state
        ((WalEntry.flush : WalEntry Change).payload records ++ rest) = (state, .ok (true, rest)) := by
  have typed := (takes_code is_torn (show WALType.walFlush.code < 256 by decide)).whole
    (BinaryFormat.objectEnd ++ rest)
  rw [replayEntry, WalEntry.payload, List.append_assoc, typed]
  dsimp only
  rw [if_pos (beq_self_eq_true _)]
  dsimp only
  rw [(BinaryFormat.takes_objectEnd is_torn).whole]
  rfl

theorem replayEntry_checkpoint (is_torn : Torn short) {metaBlock : MetaBlockPointer}
    (fits : metaBlock.Fits) (rest : List UInt8) :
    replayEntry records database short deserializeOnly state
        ((WalEntry.checkpoint metaBlock : WalEntry Change).payload records ++ rest) =
      ({ state with checkpointId := metaBlock }, .ok (false, rest)) := by
  have typed := (takes_code is_torn (show WALType.checkpoint.code < 256 by decide)).whole
    (BinaryFormat.property 101 metaBlock.serialize ++ (BinaryFormat.objectEnd ++ rest))
  have pointer := (BinaryFormat.takes_property is_torn (show 101 < 65536 by decide)
    (MetaBlockPointer.takes_deserialize is_torn fits)).whole (BinaryFormat.objectEnd ++ rest)
  rw [replayEntry, WalEntry.payload, List.append_assoc, List.append_assoc, typed]
  dsimp only
  rw [if_neg (by decide), replayType, if_neg (by decide), if_pos rfl, replayCheckpoint, pointer]
  dsimp only
  rw [(BinaryFormat.takes_objectEnd is_torn).whole]
  rfl

theorem replayType_change (small : code < 98) {type : WALType}
    (found : WALType.ofCode? code = some type) (stream : List UInt8) :
    replayType records database short deserializeOnly code state stream =
      replayChange records short deserializeOnly type state stream := by
  have not_version : code ≠ WALType.walVersion.code := Nat.ne_of_lt small
  have not_checkpoint : code ≠ WALType.checkpoint.code := Nat.ne_of_lt (small.trans (by decide))
  rw [replayType, if_neg not_version, if_neg not_checkpoint, found]

theorem replayEntry_change (lawful : records.Lawful) (is_torn : Torn short) (record : Change)
    {target : Target}
    (replayed : deserializeOnly = false → records.replay record state.target = .ok target)
    (kept : deserializeOnly = true → records.walType record ≠ .createType ∧ target = state.target)
    (rest : List UInt8) :
    replayEntry records database short deserializeOnly state
        ((WalEntry.change record).payload records ++ rest) =
      ({ state with target }, .ok (false, rest)) := by
  have member := lawful.isChange record
  have small := WALType.code_change member
  have typed := (takes_code is_torn (show (records.walType record).code < 256 by omega)).whole
    (records.write record ++ (BinaryFormat.objectEnd ++ rest))
  have not_flush : ((records.walType record).code == WALType.walFlush.code) = false :=
    beq_false_of_ne (Nat.ne_of_lt (small.trans (by decide)))
  rw [replayEntry, WalEntry.payload, List.append_assoc, List.append_assoc, typed]
  dsimp only
  rw [not_flush, if_neg Bool.false_ne_true,
    replayType_change small (WALType.ofCode?_code member), replayChange, (lawful.reads short record is_torn).whole]
  dsimp only
  cases deserializeOnly with
  | true =>
      obtain ⟨other, rfl⟩ := kept rfl
      rw [if_pos (by simpa using other)]
      dsimp only
      rw [(BinaryFormat.takes_objectEnd is_torn).whole]
  | false =>
      rw [if_neg (by simp), replayed rfl]
      dsimp only
      rw [(BinaryFormat.takes_objectEnd is_torn).whole]

end Entries

/-! ## The header -/

section Header

variable {Change Target Contents : Type} {records : ChangeRecords Change Target}
  {database written : DatabaseFile Contents} {short : Exception} {deserializeOnly : Bool}
  {state : ReplayState Target}

/-- The identifier and the iteration of a header. -/
def DatabaseFile.identity (written : DatabaseFile Contents) : List UInt8 :=
  BinaryFormat.property 102
      (BinaryFormat.list (fun byte => BinaryFormat.varInt byte.toNat) written.dbIdentifier) ++
    BinaryFormat.property 103 (BinaryFormat.varInt written.checkpointIteration)

theorem takes_identifier (is_torn : Torn short) (identifier : List UInt8)
    (identified : identifier.length = dbIdentifierLength) :
    Takes Torn (do
        let bytes ← BinaryFormat.readList short (BinaryFormat.readVarInt short 8)
        pure (if bytes.isEmpty then none else some bytes))
      (BinaryFormat.list (fun byte => BinaryFormat.varInt byte.toNat) identifier)
      (some (identifier.map UInt8.toNat)) := by
  have nonempty : (identifier.map UInt8.toNat).isEmpty = false := by
    rw [List.isEmpty_map, List.isEmpty_eq_false_iff, ← List.length_pos_iff, identified]
    decide
  have same : BinaryFormat.list (fun byte => BinaryFormat.varInt byte.toNat) identifier =
      BinaryFormat.list BinaryFormat.varInt (identifier.map UInt8.toNat) := by
    rw [BinaryFormat.list, BinaryFormat.list, List.length_map, List.flatMap_map]
  have few : (identifier.map UInt8.toNat).length < 2 ^ 64 := by
    rw [List.length_map, identified]
    decide
  have listed : Takes Torn (BinaryFormat.readList short (BinaryFormat.readVarInt short 8))
      (BinaryFormat.list BinaryFormat.varInt (identifier.map UInt8.toNat))
      (identifier.map UInt8.toNat) := by
    refine BinaryFormat.takes_list is_torn few fun value member => ?_
    obtain ⟨byte, -, rfl⟩ := List.mem_map.mp member
    exact BinaryFormat.takes_varInt is_torn (by omega) byte.toNat_lt
  have packaged : Takes Torn (do
        let bytes ← BinaryFormat.readList short (BinaryFormat.readVarInt short 8)
        pure (if bytes.isEmpty then none else some bytes))
      (BinaryFormat.list BinaryFormat.varInt (identifier.map UInt8.toNat))
      (if (identifier.map UInt8.toNat).isEmpty then none
        else some (identifier.map UInt8.toNat)) := listed.bind_pure
  rw [nonempty, if_neg Bool.false_ne_true] at packaged
  rw [same]
  exact packaged

theorem takes_iteration (is_torn : Torn short) {iteration : Nat}
    (small : iteration < MetaBlockPointer.invalidIndex) :
    Takes Torn (do
        let iteration ← BinaryFormat.readVarInt short 64
        pure (if iteration = MetaBlockPointer.invalidIndex then none else some iteration))
      (BinaryFormat.varInt iteration) (some iteration) := by
  have read : Takes Torn (BinaryFormat.readVarInt short 64) (BinaryFormat.varInt iteration)
      iteration := BinaryFormat.takes_varInt is_torn (by omega) (small.trans (by decide))
  have packaged : Takes Torn (do
        let iteration ← BinaryFormat.readVarInt short 64
        pure (if iteration = MetaBlockPointer.invalidIndex then none else some iteration))
      (BinaryFormat.varInt iteration)
      (if iteration = MetaBlockPointer.invalidIndex then none else some iteration) :=
    read.bind_pure
  rw [if_neg (Nat.ne_of_lt small)] at packaged
  exact packaged

theorem takes_identity (written : DatabaseFile Contents) (is_torn : Torn short)
    (small : written.checkpointIteration < MetaBlockPointer.invalidIndex) :
    Takes Torn (readIdentity short) written.identity
      (some (written.dbIdentifier.map UInt8.toNat), some written.checkpointIteration) :=
  (BinaryFormat.takes_present is_torn (by decide)
    (takes_identifier is_torn written.dbIdentifier written.identified)).bind
    (BinaryFormat.takes_present is_torn (by decide) (takes_iteration is_torn small)).bind_pure

/-- Without an identity, the end of the object is next. -/
theorem readIdentity_objectEnd (is_torn : Torn short) (rest : List UInt8) :
    readIdentity short (BinaryFormat.objectEnd ++ rest) =
      .ok ((none, none), BinaryFormat.objectEnd ++ rest) := by
  rw [readIdentity,
    bind_ok (BinaryFormat.readPropertyWithDefault_objectEnd is_torn (by decide) rest),
    bind_ok (BinaryFormat.readPropertyWithDefault_objectEnd is_torn (by decide) rest)]
  rfl

theorem readIdentity_torn (is_torn : Torn short) (below : size < 2) :
    ∃ exception, readIdentity short (BinaryFormat.objectEnd.take size) = .error exception ∧
      Torn exception := by
  obtain ⟨exception, failed, torn⟩ := BinaryFormat.readPropertyWithDefault_torn is_torn below
  exact ⟨exception, bind_error failed, torn⟩

/-- The log was written for this database file. -/
structure DatabaseFile.Same (written database : DatabaseFile Contents) : Prop where
  versionNumber : written.versionNumber = database.versionNumber
  dbIdentifier : written.dbIdentifier = database.dbIdentifier

/-- What the header of a log comes to. -/
def headerState (written database : DatabaseFile Contents) (state : ReplayState Target) :
    ReplayState Target :=
  { state with
    walVersion := walVersionNumber
    expectedCheckpointId :=
      if 66 < written.versionNumber ∧
          written.checkpointIteration + 1 = database.checkpointIteration then
        some database.checkpointIteration
      else state.expectedCheckpointId }

/-- The header of a log, up to its identity. -/
theorem walHeader_eq (written : DatabaseFile Contents) :
    written.walHeader =
      BinaryFormat.property 100 (BinaryFormat.varInt WALType.walVersion.code) ++
        (BinaryFormat.property 101 (BinaryFormat.varInt walVersionNumber) ++
          ((if 66 < written.versionNumber then written.identity else []) ++
            BinaryFormat.objectEnd)) := rfl

theorem replayVersion_ok (is_torn : Torn short) {identity : Option (List Nat) × Option Nat}
    {stream rest : List UInt8} (read : readIdentity short stream = .ok (identity, rest)) :
    replayVersion database short state
        (BinaryFormat.property 101 (BinaryFormat.varInt walVersionNumber) ++ stream) =
      checkIdentity database { state with walVersion := walVersionNumber } rest identity := by
  have version := (BinaryFormat.takes_property is_torn (show 101 < 65536 by decide)
    (BinaryFormat.takes_varInt is_torn (show 64 ≤ 70 by decide)
      (show walVersionNumber < 2 ^ 64 by decide))).whole stream
  rw [replayVersion, version]
  dsimp only
  rw [read]

theorem checkIdentity_same (same : written.Same database)
    (near : written.checkpointIteration = database.checkpointIteration ∨
      written.checkpointIteration + 1 = database.checkpointIteration)
    (large : 66 < written.versionNumber) (rest : List UInt8) :
    checkIdentity database { state with walVersion := walVersionNumber } rest
        (some (written.dbIdentifier.map UInt8.toNat), some written.checkpointIteration) =
      (headerState written database state, .ok rest) := by
  rw [checkIdentity, same.dbIdentifier, if_neg (not_not.mpr rfl), headerState]
  rcases near with equal | next
  · rw [if_pos equal.symm, if_neg fun both => by omega]
  · rw [if_neg (by omega), if_pos next, if_pos ⟨large, next⟩]

theorem checkIdentity_none (state : ReplayState Target) (rest : List UInt8) :
    checkIdentity database state rest (none, none) = (state, .ok rest) := rfl

theorem headerState_of_eq (equal : written.checkpointIteration = database.checkpointIteration) :
    headerState written database state = { state with walVersion := walVersionNumber } := by
  rw [headerState, if_neg fun both => by omega]

/-- The header is read. -/
theorem replayEntry_header (is_torn : Torn short) (same : written.Same database)
    (small : written.checkpointIteration < MetaBlockPointer.invalidIndex)
    (near : written.checkpointIteration = database.checkpointIteration ∨
      written.checkpointIteration + 1 = database.checkpointIteration)
    (rest : List UInt8) :
    replayEntry records database short deserializeOnly state (written.walHeader ++ rest) =
      (headerState written database state, .ok (false, rest)) := by
  have typed := (takes_code is_torn (show WALType.walVersion.code < 256 by decide)).whole
    (BinaryFormat.property 101 (BinaryFormat.varInt walVersionNumber) ++
      ((if 66 < written.versionNumber then written.identity else []) ++
        (BinaryFormat.objectEnd ++ rest)))
  have replayed : replayVersion database short state
      (BinaryFormat.property 101 (BinaryFormat.varInt walVersionNumber) ++
        ((if 66 < written.versionNumber then written.identity else []) ++
          (BinaryFormat.objectEnd ++ rest))) =
        (headerState written database state, .ok (BinaryFormat.objectEnd ++ rest)) := by
    by_cases large : 66 < written.versionNumber
    · rw [if_pos large, replayVersion_ok is_torn ((takes_identity written is_torn small).whole _),
        checkIdentity_same same near large]
    · rw [if_neg large, List.nil_append, replayVersion_ok is_torn (readIdentity_objectEnd is_torn _),
        checkIdentity_none, headerState, if_neg fun both => large both.1]
  rw [replayEntry, walHeader_eq, List.append_assoc, List.append_assoc, List.append_assoc, typed]
  dsimp only
  rw [if_neg (by decide), replayType, if_pos rfl, replayed]
  dsimp only
  rw [(BinaryFormat.takes_objectEnd is_torn).whole]
  rfl

/-- What a cut in the header comes to. -/
structure HeaderTorn (state : ReplayState Target)
    (outcome : ReplayState Target × Except Exception (Bool × List UInt8)) : Prop where
  torn : ∃ exception, outcome.2 = .error exception ∧ Torn exception
  target : outcome.1.target = state.target
  checkpointId : outcome.1.checkpointId = state.checkpointId
  expectedCheckpointId : outcome.1.expectedCheckpointId = state.expectedCheckpointId

theorem replayVersion_torn (state : ReplayState Target) (is_torn : Torn short)
    (same : written.Same database)
    (small : written.checkpointIteration < MetaBlockPointer.invalidIndex)
    (equal : written.checkpointIteration = database.checkpointIteration)
    (below : size < (BinaryFormat.property 101 (BinaryFormat.varInt walVersionNumber) ++
      ((if 66 < written.versionNumber then written.identity else []) ++
        BinaryFormat.objectEnd)).length) :
    let replayed := replayVersion database short state
      ((BinaryFormat.property 101 (BinaryFormat.varInt walVersionNumber) ++
        ((if 66 < written.versionNumber then written.identity else []) ++
          BinaryFormat.objectEnd)).take size)
    HeaderTorn state (replayed.1, match replayed.2 with
      | .error exception => .error exception
      | .ok rest =>
          match BinaryFormat.readObjectEnd short rest with
          | .error exception => .error exception
          | .ok (_, rest) => .ok (false, rest)) := by
  have version := BinaryFormat.takes_property is_torn (show 101 < 65536 by decide)
    (BinaryFormat.takes_varInt is_torn (show 64 ≤ 70 by decide)
      (show walVersionNumber < 2 ^ 64 by decide))
  rw [List.length_append] at below
  rcases Nat.lt_or_ge size
    (BinaryFormat.property 101 (BinaryFormat.varInt walVersionNumber)).length with inside | behind
  · obtain ⟨exception, failed, torn⟩ := version.cut size inside
    rw [List.take_append_of_le_length inside.le, replayVersion, failed]
    exact ⟨⟨exception, rfl, torn⟩, rfl, rfl, rfl⟩
  · rw [List.take_append, List.take_of_length_le behind]
    by_cases large : 66 < written.versionNumber
    · rw [if_pos large] at below ⊢
      rw [List.length_append] at below
      have identity := takes_identity written is_torn small
      rcases Nat.lt_or_ge (size - (BinaryFormat.property 101
        (BinaryFormat.varInt walVersionNumber)).length) written.identity.length with inside' | behind'
      · obtain ⟨exception, failed, torn⟩ := identity.cut _ inside'
        rw [List.take_append_of_le_length inside'.le, replayVersion, version.whole]
        dsimp only
        rw [failed]
        exact ⟨⟨exception, rfl, torn⟩, rfl, rfl, rfl⟩
      · rw [List.take_append, List.take_of_length_le behind',
          replayVersion_ok is_torn (identity.whole _),
          checkIdentity_same same (.inl equal) large, headerState_of_eq equal]
        obtain ⟨exception, failed, torn⟩ := (BinaryFormat.takes_objectEnd is_torn).cut
          (size - (BinaryFormat.property 101 (BinaryFormat.varInt walVersionNumber)).length -
            written.identity.length) (by omega)
        dsimp only
        rw [failed]
        exact ⟨⟨exception, rfl, torn⟩, rfl, rfl, rfl⟩
    · rw [if_neg large, List.nil_append] at below ⊢
      obtain ⟨exception, failed, torn⟩ := readIdentity_torn is_torn
        (show size - (BinaryFormat.property 101
          (BinaryFormat.varInt walVersionNumber)).length < 2 by
            have two : BinaryFormat.objectEnd.length = 2 := length_littleEndianBytes _ _
            omega)
      rw [replayVersion, version.whole]
      dsimp only
      rw [failed]
      exact ⟨⟨exception, rfl, torn⟩, rfl, rfl, rfl⟩

/-- A cut in the header is noticed. -/
theorem replayEntry_header_torn (is_torn : Torn short) (same : written.Same database)
    (small : written.checkpointIteration < MetaBlockPointer.invalidIndex)
    (equal : written.checkpointIteration = database.checkpointIteration) {size : Nat}
    (below : size < written.walHeader.length) :
    HeaderTorn state (replayEntry records database short deserializeOnly state
      (written.walHeader.take size)) := by
  have typed := takes_code is_torn (show WALType.walVersion.code < 256 by decide)
  rw [walHeader_eq, List.length_append] at below
  rw [walHeader_eq]
  rcases Nat.lt_or_ge size
    (BinaryFormat.property 100 (BinaryFormat.varInt WALType.walVersion.code)).length with
    inside | behind
  · obtain ⟨exception, failed, torn⟩ := typed.cut size inside
    rw [List.take_append_of_le_length inside.le, replayEntry, failed]
    exact ⟨⟨exception, rfl, torn⟩, rfl, rfl, rfl⟩
  · rw [List.take_append, List.take_of_length_le behind, replayEntry, typed.whole]
    dsimp only
    rw [if_neg (by decide), replayType, if_pos rfl]
    have replayed := replayVersion_torn state is_torn same small equal
      (show size - (BinaryFormat.property 100
        (BinaryFormat.varInt WALType.walVersion.code)).length < _ by omega)
    dsimp only at replayed
    generalize replayVersion database short state _ = step at replayed ⊢
    obtain ⟨state', outcome⟩ := step
    cases outcome with
    | error exception => exact replayed
    | ok rest =>
        dsimp only at replayed ⊢
        cases ended : BinaryFormat.readObjectEnd short rest with
        | error exception =>
            rw [ended] at replayed
            exact replayed
        | ok pair =>
            rw [ended] at replayed
            obtain ⟨exception, failed, -⟩ := replayed.torn
            cases failed

end Header

/-! ## Entries in the file -/

section Buffers

variable {Change Target : Type} {records : ChangeRecords Change Target} {fileSize : Nat}

theorem checksum_lt (buffer : List UInt8) : (checksum buffer).toNat < 256 ^ 8 :=
  (checksum buffer).toNat_lt

theorem takes_size (entry : WalEntry Change) (small : (entry.bytes records).length < 2 ^ 64) :
    Takes Torn (BinaryFormat.readFixed BufferedFileReader.endOfFile 8)
      (littleEndianBytes 8 (entry.payload records).length) (entry.payload records).length := by
  refine BinaryFormat.takes_fixed torn_endOfFile ?_
  rw [WalEntry.bytes] at small
  simp only [List.length_append, length_littleEndianBytes] at small
  omega

theorem takes_checksum (entry : WalEntry Change) :
    Takes Torn (BinaryFormat.readFixed BufferedFileReader.endOfFile 8)
      (littleEndianBytes 8 (checksum (entry.payload records)).toNat)
      (checksum (entry.payload records)).toNat :=
  BinaryFormat.takes_fixed torn_endOfFile (checksum_lt _)

/-- An entry is read into a buffer. -/
theorem readBuffer_bytes (entry : WalEntry Change) {rest : List UInt8}
    (inside : (entry.bytes records ++ rest).length ≤ fileSize) (small : fileSize < 2 ^ 64) :
    readBuffer fileSize (entry.bytes records ++ rest) = .ok (entry.payload records, rest) := by
  have length : (entry.bytes records).length = 16 + (entry.payload records).length := by
    rw [WalEntry.bytes]
    simp only [List.length_append, length_littleEndianBytes]
    omega
  rw [List.length_append] at inside
  rw [WalEntry.bytes, List.append_assoc, List.append_assoc, readBuffer,
    bind_ok ((takes_size entry (by omega)).whole _), bind_ok ((takes_checksum entry).whole _),
    readChecked]
  rw [if_neg (by
    rw [List.length_append, Nat.mod_eq_of_lt (by omega)]
    omega), (Takes.bytes torn_endOfFile (entry.payload records)).whole]
  dsimp only
  rw [if_neg (not_not.mpr rfl)]

/-- A cut in an entry is noticed. -/
theorem readBuffer_torn (entry : WalEntry Change) (below : size < (entry.bytes records).length)
    (inside : size ≤ fileSize) (small : fileSize + (entry.bytes records).length < 2 ^ 64) :
    ∃ exception, readBuffer fileSize ((entry.bytes records).take size) = .error exception ∧
      Torn exception := by
  have length : (entry.bytes records).length = 16 + (entry.payload records).length := by
    rw [WalEntry.bytes]
    simp only [List.length_append, length_littleEndianBytes]
    omega
  have sizes := takes_size entry (show (entry.bytes records).length < 2 ^ 64 by omega)
  have checksums := @takes_checksum _ _ records entry
  rw [length] at below
  rw [WalEntry.bytes, readBuffer]
  rcases Nat.lt_or_ge size 8 with in_size | behind_size
  · obtain ⟨exception, failed, is_torn⟩ := sizes.cut size (by rwa [length_littleEndianBytes])
    refine ⟨exception, ?_, is_torn⟩
    rw [List.take_append_of_le_length (by
      rw [length_littleEndianBytes]
      omega)]
    exact bind_error failed
  · rw [List.take_append, List.take_of_length_le (by rwa [length_littleEndianBytes]),
      length_littleEndianBytes, bind_ok (sizes.whole _)]
    rcases Nat.lt_or_ge (size - 8) 8 with in_checksum | behind_checksum
    · obtain ⟨exception, failed, is_torn⟩ := checksums.cut (size - 8) (by
        rwa [length_littleEndianBytes])
      refine ⟨exception, ?_, is_torn⟩
      rw [List.take_append_of_le_length (by
        rw [length_littleEndianBytes]
        omega)]
      exact bind_error failed
    · -- the size of the entry exceeds what is left of the file
      rw [List.take_append, List.take_of_length_le (by rwa [length_littleEndianBytes]),
        length_littleEndianBytes, bind_ok (checksums.whole _), readChecked, if_pos (by
          rw [List.length_take, Nat.mod_eq_of_lt (by omega)]
          omega)]
      exact ⟨_, rfl, rfl⟩

end Buffers

end StatsRecommender
