import StatsRecommender.Storage.SchemaRecords

/-!
# Recovery from a log

A log that a crash has cut anywhere is recovered as the units that are whole, and its writer goes
on behind them.
-/

namespace StatsRecommender

open ByteReader

variable {Change Target Contents : Type} {records : ChangeRecords Change Target}
  {database written : DatabaseFile Contents} {deserializeOnly : Bool} {start target : Target}
  {progress : ReplayProgress Target} {size : Nat} {view : TargetContents records Contents}
  {units left done : List (LogUnit Change)} {after middle : Contents}
  {part : List (WalEntry Change)} {log : WriteAheadLog}

/-! ## A reading of the log -/

theorem walHeader_pos (written : DatabaseFile Contents) : 0 < written.walHeader.length := by
  rw [walHeader_eq, BinaryFormat.property, List.length_append, List.length_append,
    BinaryFormat.fieldId, ByteOrder.length_littleEndianBytes]
  omega

theorem length_varInt_le (value : Nat) : (BinaryFormat.varInt value).length ≤ 10 :=
  Leb128.length_encode_le 10 value

theorem length_property (id : Nat) (value : List UInt8) :
    (BinaryFormat.property id value).length = 2 + value.length := by
  rw [BinaryFormat.property, List.length_append, BinaryFormat.fieldId,
    ByteOrder.length_littleEndianBytes]

theorem length_list_le {element : UInt8 → List UInt8} {bound : Nat}
    (each : ∀ value, (element value).length ≤ bound) (values : List UInt8) :
    (BinaryFormat.list element values).length ≤ 10 + values.length * bound := by
  have elements : (values.flatMap element).length ≤ values.length * bound := by
    induction values with
    | nil => exact Nat.zero_le _
    | cons value values ih =>
        have first := each value
        rw [List.flatMap_cons, List.length_append, List.length_cons, Nat.succ_mul]
        omega
  have size := length_varInt_le values.length
  rw [BinaryFormat.list, List.length_append]
  omega

theorem walHeader_short (written : DatabaseFile Contents) : written.walHeader.length < 256 := by
  have identifier := length_list_le (fun byte => length_varInt_le byte.toNat) written.dbIdentifier
  have iteration := length_varInt_le written.checkpointIteration
  have code := length_varInt_le WALType.walVersion.code
  have version := length_varInt_le walVersionNumber
  have ended : BinaryFormat.objectEnd.length = 2 := ByteOrder.length_littleEndianBytes _ _
  rw [written.identified, dbIdentifierLength] at identifier
  rw [walHeader_eq]
  simp only [List.length_append, length_property, ended]
  split
  · rw [DatabaseFile.identity, List.length_append, length_property, length_property]
    omega
  · rw [List.length_nil]
    omega

theorem length_entryBytes (entries : List (WalEntry Change)) :
    entries.length ≤ (entryBytes records entries).length := by
  induction entries with
  | nil => exact Nat.zero_le _
  | cons entry entries ih =>
      have some_bytes := List.length_pos_of_ne_nil (@bytes_ne_nil _ _ records entry)
      rw [entryBytes_cons, List.length_append, List.length_cons]
      omega

/-- The log behind its header is read up to the cut. -/
theorem readLog_spec (lawful : records.Lawful) (same : written.Same database)
    (small : written.checkpointIteration < MetaBlockPointer.invalidIndex)
    (near : written.checkpointIteration = database.checkpointIteration ∨
      written.checkpointIteration + 1 = database.checkpointIteration)
    {entries : List (WalEntry Change)} {position : Nat} {progress : ReplayProgress Target}
    (replays : ReplaysAll records deserializeOnly written.walHeader.length
      ⟨headerState written database (.create target), start, 0⟩ entries position progress)
    (torn : WalEntry Change) {cut : Nat} (cut_lt : cut < (torn.bytes records).length)
    (fits : written.walHeader.length + (entryBytes records entries).length + cut +
      (torn.bytes records).length < 2 ^ 64) :
    ∃ exception, readLog records database deserializeOnly start target
        (written.walHeader ++ (entryBytes records entries ++ (torn.bytes records).take cut)) =
          ⟨progress, exception⟩ ∧
      (∀ raised ∈ exception, Torn raised) ∧
      (exception = none ↔ cut = 0 ∧ (entries.getLast?.any WalEntry.isFlush) = true) := by
  have cut_length : ((torn.bytes records).take cut).length = cut := List.length_take_of_le cut_lt.le
  have header_pos := walHeader_pos written
  have many := @length_entryBytes _ _ records entries
  have length : (written.walHeader ++ (entryBytes records entries ++
      (torn.bytes records).take cut)).length =
        written.walHeader.length + (entryBytes records entries).length + cut := by
    rw [List.length_append, List.length_append, cut_length, Nat.add_assoc]
  have header := @replayEntry_header _ _ _ records database written BufferedFileReader.endOfFile
    deserializeOnly (.create target) torn_endOfFile same small near
    (entryBytes records entries ++ (torn.bytes records).take cut)
  have loop := @replayLoop_spec _ _ _ records database deserializeOnly _ lawful _ _ _ _ _ entries
    replays rfl torn cut cut_lt length (by omega)
    (show entries.length < (written.walHeader ++ (entryBytes records entries ++
        (torn.bytes records).take cut)).length by
      rw [length]
      omega)
  rw [readLog, replayLoop, replayNext, if_pos (show (ReplayState.create target).walVersion = 1 from rfl),
    header]
  exact loop

/-- A log that is cut in its header. -/
theorem readLog_header_torn (same : written.Same database)
    (small : written.checkpointIteration < MetaBlockPointer.invalidIndex)
    (equal : written.checkpointIteration = database.checkpointIteration) {size : Nat}
    (below : size < written.walHeader.length) :
    ∃ state exception, readLog records database deserializeOnly start target
        (written.walHeader.take size) = ⟨⟨state, start, 0⟩, some exception⟩ ∧
      Torn exception ∧ state.target = target ∧ state.checkpointId = .invalid ∧
      state.expectedCheckpointId = none := by
  obtain ⟨⟨exception, failed, is_torn⟩, kept, checkpointId, expected⟩ :=
    @replayEntry_header_torn _ _ _ records database written BufferedFileReader.endOfFile
      deserializeOnly (.create target) torn_endOfFile same small equal size below
  rw [readLog, replayLoop, replayNext, if_pos (show (ReplayState.create target).walVersion = 1 from rfl)]
  generalize replayEntry records database BufferedFileReader.endOfFile deserializeOnly
    (.create target) (written.walHeader.take size) = step at failed kept checkpointId expected ⊢
  obtain ⟨state, outcome⟩ := step
  obtain rfl : outcome = .error exception := failed
  exact ⟨state, exception, rfl, is_torn, kept, checkpointId, expected⟩

theorem failure_of_torn {exception : Option Exception}
    (raised : ∀ raised ∈ exception, Torn raised) :
    ReplayOutcome.failure ⟨progress, exception⟩ = none := by
  cases exception with
  | none => rfl
  | some exception =>
      have is_torn : exception.isSerialization = true := raised exception rfl
      rw [ReplayOutcome.failure, Option.filter_some, is_torn]
      rfl

/-! ## Recovery -/

/-- The log of a database file, with some units in it. -/
def logBytes (records : ChangeRecords Change Target) (database : DatabaseFile Contents)
    (units : List (LogUnit Change)) : List UInt8 :=
  database.walHeader ++ LogUnit.bytes records units

theorem length_logBytes (units : List (LogUnit Change)) :
    (logBytes records database units).length =
      database.walHeader.length + (LogUnit.bytes records units).length := List.length_append

theorem logBytes_append (units units' : List (LogUnit Change)) :
    logBytes records database (units ++ units') =
      logBytes records database units ++ LogUnit.bytes records units' := by
  rw [logBytes, LogUnit.bytes_append, ← List.append_assoc]
  rfl

/-- A log whose units go on from the database file, and which has not been checkpointed. -/
structure LogWritten (view : TargetContents records Contents) (database : DatabaseFile Contents)
    (units : List (LogUnit Change)) (after : Contents) : Prop where
  iteration : database.checkpointIteration < MetaBlockPointer.invalidIndex
  chain : LogUnit.Chain view database.contents units after
  fresh : ∀ metaBlock, LogUnit.checkpoint metaBlock ∈ units →
    metaBlock.blockPointer ≠ database.metaBlock
  length : (logBytes records database units).length < 2 ^ 63

/-- What the recovery from a log that is cut at some size comes to. -/
structure Recovered (view : TargetContents records Contents) (database : DatabaseFile Contents)
    (units : List (LogUnit Change)) (after : Contents) (size : Nat)
    (done left : List (LogUnit Change)) (target : Target) (log : WriteAheadLog) : Prop where
  split : units = done ++ left
  front : LogUnit.Chain view database.contents done (view.contents target)
  back : LogUnit.Chain view (view.contents target) left after
  /-- The units are whole. -/
  whole : done ≠ [] → (logBytes records database done).length ≤ size
  /-- The next one is not. -/
  next : ∀ unit ∈ left.head?, size < (logBytes records database (done ++ [unit])).length
  file : log.file = some ((logBytes records database units).take size)
  writer : log.writer = none
  walSize : log.walSize = if done.isEmpty then 0 else (logBytes records database done).length
  initState : log.initState =
    if done.isEmpty = false ∧ size = (logBytes records database done).length then
      .uninitialized
    else .uninitializedRequiresTruncate

theorem same_self (database : DatabaseFile Contents) : database.Same database := ⟨rfl, rfl⟩

theorem headerState_self (state : ReplayState Target) :
    headerState database database state = { state with walVersion := walVersionNumber } :=
  headerState_of_eq rfl

theorem isEmpty_take {bytes : List UInt8} (pos : 0 < size) (some_bytes : bytes ≠ []) :
    (bytes.take size).isEmpty = false := by
  cases bytes with
  | nil => exact absurd rfl some_bytes
  | cons byte bytes =>
      cases size with
      | zero => exact absurd pos (Nat.lt_irrefl 0)
      | succ size => rfl

theorem logBytes_ne_nil (units : List (LogUnit Change)) : logBytes records database units ≠ [] := by
  have pos := walHeader_pos database
  refine List.ne_nil_of_length_pos ?_
  rw [length_logBytes]
  omega

/-- A log that is cut is recovered as its whole units. -/
def CutRecovers (view : TargetContents records Contents) (database : DatabaseFile Contents)
    (units : List (LogUnit Change)) (after : Contents) (size : Nat) : Prop :=
    ∃ done left target recovered,
      replayWal records database (view.start database.contents)
        (some ((logBytes records database units).take size)) = .ok (target, recovered) ∧
      Recovered view database units after size done left target recovered

/-- The log is cut in its header. -/
theorem replayInternal_header_torn (iteration : database.checkpointIteration <
    MetaBlockPointer.invalidIndex) (pos : 0 < size) (below : size < database.walHeader.length) :
    replayInternal records database start (database.walHeader.take size) =
      .ok (start, some ⟨some (database.walHeader.take size), none, 0,
        .uninitializedRequiresTruncate⟩) := by
  have some_bytes : (database.walHeader.take size).isEmpty = false :=
    isEmpty_take pos (List.ne_nil_of_length_pos (walHeader_pos database))
  obtain ⟨state, exception, read, is_torn, -, checkpointId, expected⟩ :=
    @readLog_header_torn _ _ _ records database database true start start (same_self database)
      iteration rfl size below
  obtain ⟨state', exception', read', is_torn', -, -, -⟩ :=
    @readLog_header_torn _ _ _ records database database false start state.target
      (same_self database) iteration rfl size below
  have passed : ReplayOutcome.failure (⟨⟨state, start, 0⟩, some exception⟩ : ReplayOutcome Target) =
      none := failure_of_torn fun raised same => Option.some.inj same ▸ is_torn
  have passed' : ReplayOutcome.failure
      (⟨⟨state', start, 0⟩, some exception'⟩ : ReplayOutcome Target) = none :=
    failure_of_torn fun raised same => Option.some.inj same ▸ is_torn'
  rw [replayInternal, some_bytes, if_neg Bool.false_ne_true, read]
  dsimp only
  rw [passed]
  dsimp only
  rw [checkpointId, if_neg (by simp [MetaBlockPointer.isValid, MetaBlockPointer.invalid]), expected]
  dsimp only
  rw [read', passed']
  rfl

/-- The checkpoint that is found in a log. -/
theorem lastCheckpoint_units {units : List (LogUnit Change)} {entries : List (WalEntry Change)}
    (inside : entries ⊆ units.flatMap LogUnit.entries)
    (fresh : ∀ metaBlock, LogUnit.checkpoint metaBlock ∈ units →
      metaBlock.blockPointer ≠ database.metaBlock) :
    ((lastCheckpoint .invalid entries).isValid &&
      (lastCheckpoint .invalid entries).blockPointer == database.metaBlock) = false := by
  rcases @mem_lastCheckpoint _ entries MetaBlockPointer.invalid with invalid | member
  · rw [invalid]
    rfl
  · have other := fresh _ (LogUnit.mem_entries_checkpoint (inside member))
    rw [beq_false_of_ne other, Bool.and_false]

/-- The log is read twice, up to its cut. -/
theorem replayInternal_entries (lawful : records.Lawful)
    (log : LogWritten view database units after) {entries : List (WalEntry Change)}
    (inside : entries ⊆ units.flatMap LogUnit.entries) {position : Nat}
    (replays : ReplaysAll records false database.walHeader.length
      ⟨headerState database database (.create start), start, 0⟩ entries position progress)
    (torn : WalEntry Change) {cut : Nat} (cut_lt : cut < (torn.bytes records).length)
    (fits : database.walHeader.length + (entryBytes records entries).length + cut +
      (torn.bytes records).length < 2 ^ 64) {file : List UInt8} (file_eq : file =
      database.walHeader ++ (entryBytes records entries ++ (torn.bytes records).take cut)) :
    replayInternal records database start file =
      .ok (progress.committed, some ⟨some file, none, progress.successfulOffset,
        if cut = 0 ∧ (entries.getLast?.any WalEntry.isFlush) = true then .uninitialized
        else .uninitializedRequiresTruncate⟩) := by
  have some_bytes : file.isEmpty = false := by
    have pos := walHeader_pos database
    rw [file_eq, List.isEmpty_eq_false_iff]
    refine List.ne_nil_of_length_pos ?_
    rw [List.length_append]
    omega
  have passed : ∀ entry ∈ entries, entry.Passed records := fun entry member =>
    log.chain.passed entry (inside member)
  obtain ⟨exception, read, raised, -⟩ := @readLog_spec _ _ _ records database database true start
    start lawful (same_self database) log.iteration (.inl rfl) entries _ _
    (replaysAll_true passed _ _) torn cut cut_lt fits
  obtain ⟨exception', read', raised', ended⟩ := @readLog_spec _ _ _ records database database false
    start start lawful (same_self database) log.iteration (.inl rfl) entries _ _ replays torn cut
    cut_lt fits
  have not_checkpointed := lastCheckpoint_units inside log.fresh
  rw [replayInternal, some_bytes, if_neg Bool.false_ne_true, file_eq, read]
  dsimp only
  rw [failure_of_torn raised]
  dsimp only
  rw [headerState_self]
  rw [show (ReplayState.create start).checkpointId = MetaBlockPointer.invalid from rfl,
    not_checkpointed, if_neg Bool.false_ne_true]
  rw [show (ReplayState.create start).expectedCheckpointId = none from rfl,
    show (ReplayState.create start).target = start from rfl]
  dsimp only
  rw [read', failure_of_torn raised']
  dsimp only
  cases exception' with
  | none =>
      rw [if_pos (ended.mp rfl)]
      rfl
  | some exception =>
      have not_ended : ¬(cut = 0 ∧ (entries.getLast?.any WalEntry.isFlush) = true) :=
        fun whole => Option.some_ne_none exception (ended.mpr whole)
      rw [if_neg not_ended]
      rfl

/-- What is there of the next unit is replayed, but not committed. -/
theorem replaysAll_part {unit : LogUnit Change}
    (chain : LogUnit.Chain view middle (unit :: left) after) {tail : List (WalEntry Change)}
    (unit_eq : unit.entries = part ++ tail) (no_flush : ∀ entry ∈ part, entry.isFlush = false)
    (position : Nat) {offset : Nat} (reached : progress.Reached view middle offset) :
    ∃ position' progress', ReplaysAll records false position progress part position' progress' ∧
      progress'.committed = progress.committed ∧
      progress'.successfulOffset = progress.successfulOffset := by
  obtain ⟨ended, replayed, -⟩ := chain.replaysAll position reached
  rw [List.flatMap_cons, unit_eq, List.append_assoc] at replayed
  obtain ⟨position', progress', part_replayed, -⟩ := replayed.split
  exact ⟨position', progress', part_replayed, part_replayed.kept no_flush⟩

/-- The log is cut in its header. -/
theorem recovered_header (log : LogWritten view database units after) (pos : 0 < size)
    (in_header : size < database.walHeader.length) :
    CutRecovers view database units after size := by
  have contents_start := view.contents_start database.contents
  have file_eq : (logBytes records database units).take size = database.walHeader.take size := by
    rw [logBytes, List.take_append_of_le_length in_header.le]
  refine ⟨[], units, view.start database.contents, ⟨some (database.walHeader.take size), none, 0,
    .uninitializedRequiresTruncate⟩, ?_, ?_⟩
  · rw [replayWal, file_eq, replayInternal_header_torn log.iteration pos in_header]
    rfl
  · refine
      { split := rfl
        front := by
          rw [contents_start]
          exact .nil
        back := by
          rw [contents_start]
          exact log.chain
        whole := fun some_units => absurd rfl some_units
        next := fun unit _ => ?_
        file := by rw [file_eq]
        writer := rfl
        walSize := rfl
        initState := by rw [if_neg (by simp)] }
    rw [length_logBytes]
    omega

/-- The log is cut behind its header and some units. -/
theorem recovered_units (lawful : records.Lawful) (log : LogWritten view database units after)
    (split : units = done ++ left) (front : LogUnit.Chain view database.contents done middle)
    (back : LogUnit.Chain view middle left after) {progress' : ReplayProgress Target}
    {position' : Nat} (done_replayed : ReplaysAll records false database.walHeader.length
      ⟨headerState database database (.create (view.start database.contents)),
        view.start database.contents, 0⟩ (done.flatMap LogUnit.entries)
      (database.walHeader.length + (LogUnit.bytes records done).length) progress)
    (reached : progress.Reached view middle (if done.isEmpty then 0
      else database.walHeader.length + (LogUnit.bytes records done).length))
    (part_replayed : ReplaysAll records false
      (database.walHeader.length + (LogUnit.bytes records done).length) progress part position'
      progress') (no_flush : ∀ entry ∈ part, entry.isFlush = false)
    (part_inside : done.flatMap LogUnit.entries ++ part ⊆ units.flatMap LogUnit.entries)
    (torn : WalEntry Change) {cut : Nat} (cut_lt : cut < (torn.bytes records).length)
    (fits : (torn.bytes records).length < 2 ^ 63) (size_eq : size = database.walHeader.length +
      (entryBytes records (done.flatMap LogUnit.entries ++ part)).length + cut)
    (inside : size ≤ (logBytes records database units).length)
    (next : ∀ unit ∈ left.head?, size < (logBytes records database (done ++ [unit])).length)
    (file_eq : (logBytes records database units).take size =
      database.walHeader ++ (entryBytes records (done.flatMap LogUnit.entries ++ part) ++
        (torn.bytes records).take cut)) :
    CutRecovers view database units after size := by
  have short := log.length
  obtain ⟨committed, offset⟩ := part_replayed.kept no_flush
  have contents : view.contents progress'.committed = middle := by
    rw [committed]
    exact reached.committed
  have done_length : (logBytes records database done).length =
      database.walHeader.length + (LogUnit.bytes records done).length := length_logBytes done
  have replayed := replayInternal_entries lawful log part_inside
    (done_replayed.append part_replayed) torn cut_lt (by omega) file_eq
  refine ⟨done, left, progress'.committed, ⟨some ((logBytes records database units).take size),
    none, progress'.successfulOffset, if cut = 0 ∧ ((done.flatMap LogUnit.entries ++
      part).getLast?.any WalEntry.isFlush) = true then .uninitialized
        else .uninitializedRequiresTruncate⟩, ?_, ?_⟩
  · rw [replayWal, replayed]
    rfl
  · have total : (entryBytes records (done.flatMap LogUnit.entries ++ part)).length =
        (LogUnit.bytes records done).length + (entryBytes records part).length := by
      rw [entryBytes_append, List.length_append]
      rfl
    refine
      { split := split
        front := by rwa [contents]
        back := by rwa [contents]
        whole := fun _ => by omega
        next := next
        file := rfl
        writer := rfl
        walSize := by
          show progress'.successfulOffset = _
          rw [offset, reached.successfulOffset, done_length]
        initState := if_congr ?_ rfl rfl }
    cases part with
    | nil =>
        rw [List.append_nil]
        rcases List.eq_nil_or_concat' done with rfl | ⟨units', last, rfl⟩
        · simp
        · obtain ⟨front', entries_eq, -⟩ := last.entries_eq
          rw [List.flatMap_append, List.flatMap_singleton, entries_eq, ← List.append_assoc,
            List.getLast?_concat, done_length]
          have nonempty : (units' ++ [last]).isEmpty = false := by simp
          have nothing : (entryBytes records ([] : List (WalEntry Change))).length = 0 := rfl
          rw [nonempty]
          simp only [Option.any_some, WalEntry.isFlush, and_true, true_and]
          omega
    | cons entry part =>
        have later : ((done.flatMap LogUnit.entries ++ entry :: part).getLast?.any
            WalEntry.isFlush) = false := by
          rw [List.getLast?_append_cons, List.getLast?_eq_some_getLast (List.cons_ne_nil _ _)]
          exact no_flush _ (List.getLast_mem _)
        have some_bytes := List.length_pos_of_ne_nil (@bytes_ne_nil _ _ records entry)
        rw [later, entryBytes_cons, List.length_append] at *
        simp only [Bool.false_eq_true, and_false, false_iff, not_and]
        omega

/-- A log that is cut anywhere is recovered as its whole units. -/
theorem replayWal_take (lawful : records.Lawful) (log : LogWritten view database units after)
    (pos : 0 < size) (inside : size ≤ (logBytes records database units).length) :
    CutRecovers view database units after size := by
  have contents_start := view.contents_start database.contents
  have short := log.length
  have length := @length_logBytes _ _ _ records database units
  have reached : (⟨headerState database database (.create (view.start database.contents)),
      view.start database.contents, 0⟩ : ReplayProgress Target).Reached view database.contents
      0 := ⟨contents_start, contents_start, rfl⟩
  rcases Nat.lt_or_ge size database.walHeader.length with in_header | behind
  · exact recovered_header log pos in_header
  rcases Nat.lt_or_ge (size - database.walHeader.length) (LogUnit.bytes records units).length with
    in_units | all
  · obtain ⟨done, unit, left, part, tail, torn, cut, split, unit_eq, no_flush, cut_lt, size_eq,
      taken⟩ := LogUnit.take_bytes units in_units
    have unit_bytes : (entryBytes records (done.flatMap LogUnit.entries ++ part)).length +
        (torn.bytes records).length ≤ (LogUnit.bytes records (done ++ [unit])).length := by
      rw [LogUnit.bytes, List.flatMap_append, List.flatMap_singleton, unit_eq]
      simp only [entryBytes_append, entryBytes_cons, List.length_append]
      omega
    have unit_inside : (LogUnit.bytes records (done ++ [unit])).length ≤
        (LogUnit.bytes records units).length := by
      have all : LogUnit.bytes records units =
          LogUnit.bytes records (done ++ [unit]) ++ LogUnit.bytes records left := by
        rw [split, List.append_cons done unit left, LogUnit.bytes_append]
      rw [all, List.length_append]
      omega
    obtain ⟨middle, front, back⟩ := (split ▸ log.chain).split
    obtain ⟨progress, done_replayed, done_reached⟩ :=
      front.replaysAll database.walHeader.length reached
    obtain ⟨position', progress', part_replayed, -⟩ := replaysAll_part back unit_eq no_flush
      (database.walHeader.length + (LogUnit.bytes records done).length) done_reached
    refine recovered_units lawful log split front back done_replayed done_reached part_replayed
      no_flush ?_ torn cut_lt (by omega) (by omega) inside (fun other member => ?_) ?_
    · rw [split, List.flatMap_append, List.flatMap_cons, unit_eq]
      grind
    · obtain rfl : unit = other := Option.some.inj member
      rw [length_logBytes]
      omega
    · rw [logBytes, List.take_append, List.take_of_length_le behind, taken]
  · obtain ⟨progress, replayed, all_reached⟩ :=
      log.chain.replaysAll database.walHeader.length reached
    have size_all : size = (logBytes records database units).length := by omega
    refine recovered_units lawful log (List.append_nil units).symm log.chain .nil replayed
      all_reached .nil (fun entry member => absurd member List.not_mem_nil) ?_ .flush
      (List.length_pos_of_ne_nil (bytes_ne_nil _)) (length_flush_bytes.trans_lt (by decide)) ?_ inside
      (fun other member => by cases member) ?_
    · rw [List.append_nil]
      exact List.Subset.refl _
    · rw [size_all, length, List.append_nil, Nat.add_zero]
      rfl
    · rw [size_all, List.take_length, List.append_nil, List.take_zero, List.append_nil]
      rfl

/-! ## Writing behind a recovered log -/

/-- The bytes of a log with some units, which is empty as long as there are none. -/
def logOf (records : ChangeRecords Change Target) (database : DatabaseFile Contents)
    (units : List (LogUnit Change)) : List UInt8 :=
  if units.isEmpty then [] else logBytes records database units

/-- The writer of a recovered log goes on behind the last unit that is whole. -/
theorem Recovered.openWriter
    (recovered : Recovered view database units after size done left target log)
    (inside : size ≤ (logBytes records database units).length) :
    ∃ writer, log.openWriter = (writer, ⟨none, some writer, writer.getFileSize, .initialized⟩) ∧
      writer.contents = logOf records database done ∧ writer.synced = writer.getFileSize := by
  obtain ⟨split, -, -, whole, -, file, no_writer, walSize, initState⟩ := recovered
  have whole_bytes : logBytes records database units =
      logBytes records database done ++ LogUnit.bytes records left := by
    rw [split, logBytes_append]
  have opened : log.openWriter =
      let writer := if log.initState = .uninitializedRequiresTruncate then
          (BufferedFileWriter.openFile ((logBytes records database units).take size)).truncate
            log.walSize
        else .openFile ((logBytes records database units).take size)
      (writer, ⟨none, some writer, writer.getFileSize, .initialized⟩) := by
    rw [WriteAheadLog.openWriter, no_writer, file]
    rfl
  have length_take : ((logBytes records database units).take size).length = size :=
    List.length_take_of_le inside
  by_cases complete : done.isEmpty = false ∧ size = (logBytes records database done).length
  · rw [if_pos complete] at initState
    rw [opened, initState, if_neg (by decide)]
    refine ⟨_, rfl, ?_, ?_⟩
    · rw [BufferedFileWriter.contents_openFile, logOf, complete.1, if_neg Bool.false_ne_true,
        complete.2, whole_bytes, List.take_left' rfl]
    · rfl
  · rw [if_neg complete] at initState
    rw [opened, initState, if_pos rfl]
    have contents : ((BufferedFileWriter.openFile
        ((logBytes records database units).take size)).truncate log.walSize).contents =
          logOf records database done := by
      rw [BufferedFileWriter.contents_truncate, BufferedFileWriter.contents_openFile, walSize, logOf]
      by_cases none_done : done.isEmpty = true
      · rw [if_pos none_done, if_pos none_done, List.take_zero]
      · have some_done : done ≠ [] := fun nothing => none_done (nothing ▸ rfl)
        rw [if_neg none_done, if_neg none_done, List.take_take, min_eq_left (whole some_done),
          whole_bytes, List.take_left' rfl]
    refine ⟨_, rfl, contents, ?_⟩
    have all_synced : (BufferedFileWriter.openFile
        ((logBytes records database units).take size)).synced = size := length_take
    rw [BufferedFileWriter.synced_truncate, ← BufferedFileWriter.length_contents,
      BufferedFileWriter.contents_truncate, BufferedFileWriter.contents_openFile, List.length_take,
      length_take, all_synced, min_comm]

/-- What is left of a log that was cut goes on from the whole units. -/
theorem Recovered.logWritten
    (recovered : Recovered view database units after size done left target log)
    (written : LogWritten view database units after) :
    LogWritten view database done (view.contents target) := by
  have split := recovered.split
  have length := written.length
  refine ⟨written.iteration, recovered.front, fun metaBlock member => ?_, ?_⟩
  · exact written.fresh metaBlock (split ▸ List.mem_append_left _ member)
  · rw [split, logBytes_append, List.length_append] at length
    omega

/--
Wherever a crash cuts a log, its whole units are recovered and nothing else, and the writer goes on
right behind them.
-/
theorem recovered_of_cut (lawful : records.Lawful) {view : TargetContents records Contents}
    {units : List (LogUnit Change)} {after : Contents} (log : LogWritten view database units after)
    {size : Nat} (pos : 0 < size) (inside : size ≤ (logBytes records database units).length) :
    ∃ done left target recovered,
      replayWal records database (view.start database.contents)
        (some ((logBytes records database units).take size)) = .ok (target, recovered) ∧
      Recovered view database units after size done left target recovered ∧
      recovered.openWriter.1.contents = logOf records database done := by
  obtain ⟨done, left, target, recovered, replayed, as_written⟩ :=
    replayWal_take lawful log pos inside
  obtain ⟨writer, opened, contents, -⟩ := as_written.openWriter inside
  refine ⟨done, left, target, recovered, replayed, as_written, ?_⟩
  rw [opened]
  exact contents

namespace SchemaChange

/-- Two transactions, the second of which creates a schema and drops another one. -/
def schemaUnits : List (LogUnit SchemaChange) :=
  [.transaction [.createSchema sales], .transaction [.createSchema stock, .dropSchema sales]]

theorem schemaUnits_written : LogWritten schemaContents newFile schemaUnits [main, stock] := by
  refine ⟨by decide, ?_, by simp [schemaUnits], by decide +kernel⟩
  have created : Effect schemaContents [main] [.createSchema sales] [main, sales] :=
    effect_of_replay rfl
  refine .transaction created (by decide) ?_
  exact .transaction (effect_of_replay rfl) (by decide) .nil

/-- The last byte of a log is cut. -/
theorem recovered_of_cut_last_byte :
    ∃ done left target recovered,
      replayWal schemaRecords newFile (schemaContents.start newFile.contents)
        (some ((logBytes schemaRecords newFile schemaUnits).take
          ((logBytes schemaRecords newFile schemaUnits).length - 1))) = .ok (target, recovered) ∧
      Recovered schemaContents newFile schemaUnits [main, stock]
        ((logBytes schemaRecords newFile schemaUnits).length - 1) done left target recovered ∧
      recovered.openWriter.1.contents = logOf schemaRecords newFile done :=
  recovered_of_cut lawful_schemaRecords schemaUnits_written (by decide +kernel) (Nat.sub_le _ _)

end SchemaChange

/-! ## A log that has been checkpointed -/

/-- A log whose last checkpoint the database file has reached is not replayed. -/
theorem replayWal_checkpointed (lawful : records.Lawful) {view : TargetContents records Contents}
    {units : List (LogUnit Change)} {after : Contents} {written : DatabaseFile Contents}
    (log : LogWritten view written units after) (same : written.Same database)
    (next : written.checkpointIteration + 1 = database.checkpointIteration)
    (reached : (lastCheckpoint .invalid (units.flatMap LogUnit.entries)).blockPointer =
      database.metaBlock)
    (valid : (lastCheckpoint .invalid (units.flatMap LogUnit.entries)).isValid = true) :
    replayWal records database start (some (logBytes records written units)) =
      .ok (start, .noLog) := by
  have short := log.length
  have length := @length_logBytes _ _ _ records written units
  have flush_length := @length_flush_bytes _ _ records
  obtain ⟨exception, read, raised, -⟩ := @readLog_spec _ _ _ records database written true start
    start lawful same log.iteration (.inr next) (units.flatMap LogUnit.entries) _ _
    (replaysAll_true log.chain.passed _ _) .flush 0 (List.length_pos_of_ne_nil (bytes_ne_nil _)) (by
      rw [LogUnit.bytes] at length
      omega)
  rw [List.take_zero, List.append_nil] at read
  have some_bytes : (logBytes records written units).isEmpty = false := by
    rw [List.isEmpty_eq_false_iff]
    exact logBytes_ne_nil units
  rw [replayWal, replayInternal, some_bytes, if_neg Bool.false_ne_true, logBytes, LogUnit.bytes, read]
  dsimp only
  rw [failure_of_torn raised]
  have clean : ((lastCheckpoint .invalid (units.flatMap LogUnit.entries)).isValid &&
      (lastCheckpoint .invalid (units.flatMap LogUnit.entries)).blockPointer ==
        database.metaBlock) = true := by
    rw [valid, reached, beq_self_eq_true, Bool.and_self]
  dsimp only
  rw [show (headerState written database (.create start)).checkpointId = .invalid from rfl,
    if_pos clean]
  rfl

/-- Without a log, or with an empty one, the database is as it was loaded. -/
theorem replayWal_empty {file : Option (List UInt8)} (empty : file.getD [] = []) :
    replayWal records database start file = .ok (start, .noLog) := by
  cases file with
  | none => rfl
  | some file =>
      obtain rfl : file = [] := empty
      rfl

end StatsRecommender
