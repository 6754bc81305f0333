import StatsRecommender.Storage.Durability

/-!
# Runs of a database file and its log

Whatever is crashed and recovered, in whatever order: the database opens, with the contents that
have been acknowledged, or with those of a commit that was being flushed.
-/

namespace StatsRecommender

variable {Change Target Contents : Type} {records : ChangeRecords Change Target}
  {view : TargetContents records Contents} {database : DatabaseFile Contents}
  {units : List (LogUnit Change)} {file : DatabaseFile Contents} {after before now : Contents}
  {size : Nat} {metaBlock : MetaBlockPointer}

/-! ## What a log holds -/

/-- A log whose writer is open. -/
def WriteAheadLog.Opened (log : WriteAheadLog) (bytes : List UInt8) (synced : Nat) : Prop :=
  ∃ writer, log = ⟨none, some writer, synced, .initialized⟩ ∧ writer.contents = bytes ∧
    writer.synced = synced

/-- A log that holds some units, and leads to some contents if it is read again. -/
inductive WriteAheadLog.Holds (view : TargetContents records Contents)
    (database : DatabaseFile Contents) (units : List (LogUnit Change)) (contents : Contents) :
    WriteAheadLog → Prop
  | absent (none : units = []) : Holds view database units contents .noLog
  | recovered {whole left : List (LogUnit Change)} {after : Contents} {size : Nat} {target : Target}
      {log : WriteAheadLog} (written : LogWritten view database whole after)
      (inside : size ≤ (logBytes records database whole).length)
      (replayed : replayWal records database (view.start database.contents) log.file =
        .ok (target, log))
      (same : view.contents target = contents)
      (from_file : Recovered view database whole after size units left target log) :
      Holds view database units contents log
  | opened {log : WriteAheadLog}
      (bytes : log.Opened (logOf records database units) (logOf records database units).length) :
      Holds view database units contents log

/-- A file that is recovered as the contents before or after something. -/
def RecoversAs (view : TargetContents records Contents) (database : DatabaseFile Contents)
    (file : Option (List UInt8)) (before after : Contents) : Prop :=
  ∃ target log units,
    replayWal records database (view.start database.contents) file = .ok (target, log) ∧
      (view.contents target = before ∨ view.contents target = after) ∧
      LogWritten view database units (view.contents target) ∧
      log.Holds view database units (view.contents target)

theorem LogWritten.nil (iteration : database.checkpointIteration < MetaBlockPointer.invalidIndex) :
    LogWritten view database [] database.contents := by
  refine ⟨iteration, .nil, fun _ member => absurd member List.not_mem_nil, ?_⟩
  have short := walHeader_short database
  have nothing : (LogUnit.bytes records []).length = 0 := rfl
  rw [length_logBytes, nothing]
  omega

theorem logOf_of_ne_nil (some_units : units ≠ []) :
    logOf records database units = logBytes records database units := by
  rw [logOf, if_neg (by simpa using some_units)]

theorem logOf_length_le (units units' : List (LogUnit Change)) :
    (logOf records database units).length ≤ (logBytes records database (units ++ units')).length := by
  rw [logOf]
  split
  · exact Nat.zero_le _
  · rw [logBytes_append, List.length_append]
    exact Nat.le_add_right _ _

/-- Without a log that has anything in it, the database is as it was loaded. -/
theorem recoversAs_empty (iteration : database.checkpointIteration < MetaBlockPointer.invalidIndex)
    {file : Option (List UInt8)} (empty : file.getD [] = []) :
    RecoversAs view database file database.contents database.contents := by
  have same := view.contents_start database.contents
  refine ⟨view.start database.contents, .noLog, [], replayWal_empty empty, .inl same, ?_,
    .absent rfl⟩
  rw [same]
  exact .nil iteration

/-- The units in front of a cut are among those that are recovered. -/
theorem Recovered.split_append {extra done left : List (LogUnit Change)} {target : Target}
    {log : WriteAheadLog}
    (recovered : Recovered view database (units ++ extra) after size done left target log)
    (behind : (logOf records database units).length ≤ size) :
    ∃ more, done = units ++ more ∧ extra = more ++ left := by
  rcases List.append_eq_append_iff.mp recovered.split with ⟨more, done_eq, extra_eq⟩ |
    ⟨missing, units_eq, left_eq⟩
  · exact ⟨more, done_eq, extra_eq⟩
  · cases missing with
    | nil => exact ⟨[], by rw [units_eq, List.append_nil, List.append_nil], left_eq.symm⟩
    | cons unit missing =>
        -- the next unit is whole
        have short := recovered.next unit (by rw [left_eq]; rfl)
        have some_units : units ≠ [] := by
          rw [units_eq]
          exact List.append_ne_nil_of_right_ne_nil _ (List.cons_ne_nil _ _)
        rw [logOf_of_ne_nil some_units, units_eq, List.append_cons, logBytes_append,
          List.length_append] at behind
        omega

theorem RecoversAs.mono {file : Option (List UInt8)}
    (recovers : RecoversAs view database file before before) :
    RecoversAs view database file before after := by
  obtain ⟨target, log, units, replayed, same, rest⟩ := recovers
  exact ⟨target, log, units, replayed, .inl (same.elim id id), rest⟩

/-- A crash in one more unit leaves the contents before it, and those after it if it is whole. -/
theorem recoversAs_take (lawful : records.Lawful) {extra : List (LogUnit Change)}
    (written : LogWritten view database (units ++ extra) after)
    (front : LogUnit.Chain view database.contents units before) (few : extra.length ≤ 1)
    (behind : (logOf records database units).length ≤ size)
    (inside : size ≤ (logBytes records database (units ++ extra)).length) :
    RecoversAs view database (some ((logBytes records database (units ++ extra)).take size)) before
      (if size = (logBytes records database (units ++ extra)).length then after else before) := by
  rcases Nat.eq_zero_or_pos size with rfl | pos
  · obtain rfl : units = [] := by
      by_contra some_units
      rw [logOf_of_ne_nil some_units] at behind
      exact logBytes_ne_nil units (List.eq_nil_of_length_eq_zero (Nat.le_zero.mp behind))
    cases front with
    | nil =>
        have empty : (some ((logBytes records database ([] ++ extra)).take 0)).getD [] = [] := by
          rw [List.take_zero]
          rfl
        exact (recoversAs_empty written.iteration empty).mono
  · obtain ⟨done, left, target, log, replayed, recovered⟩ := replayWal_take lawful written pos inside
    obtain ⟨more, rfl, extra_eq⟩ := recovered.split_append behind
    have as_written := recovered.logWritten written
    refine ⟨target, log, _, replayed, ?_, as_written,
      .recovered written inside (recovered.file ▸ replayed) rfl recovered⟩
    cases more with
    | nil =>
        refine .inl ?_
        have chain := recovered.front
        rw [List.append_nil] at chain
        exact chain.functional front
    | cons unit more =>
        refine .inr ?_
        have nothing_left : left = [] := by
          refine List.eq_nil_of_length_eq_zero ?_
          rw [extra_eq, List.length_append, List.length_cons] at few
          omega
        have back := recovered.back
        have whole := recovered.whole (List.append_ne_nil_of_right_ne_nil _ (List.cons_ne_nil _ _))
        rw [nothing_left] at back
        rw [extra_eq, nothing_left, List.append_nil] at inside ⊢
        rw [if_pos (Nat.le_antisymm inside whole)]
        cases back
        rfl

/-! ## Writing to a log -/

/-- A log whose writer, once it is opened, has some bytes. -/
def WriteAheadLog.Opens (log : WriteAheadLog) (bytes : List UInt8) (synced : Nat) : Prop :=
  ∃ writer, log.openWriter = (writer, ⟨none, some writer, synced, .initialized⟩) ∧
    writer.contents = bytes ∧ writer.synced = synced ∧
    writer.getTotalWritten = log.getTotalWritten

namespace WriteAheadLog

variable {log : WriteAheadLog} {bytes : List UInt8} {synced : Nat}
  {units : List (LogUnit Change)} {contents : Contents}

theorem Opened.opens (opened : log.Opened bytes synced) : log.Opens bytes synced := by
  obtain ⟨writer, rfl, same, same_synced⟩ := opened
  exact ⟨writer, rfl, same, same_synced, rfl⟩

theorem getTotalWritten_of_none (no_writer : log.writer = none) : log.getTotalWritten = 0 := by
  rw [getTotalWritten, no_writer]
  split
  · rfl
  · rfl

theorem getTotalWritten_openWriter (no_writer : log.writer = none) :
    log.openWriter.1.getTotalWritten = 0 := by
  rw [openWriter, no_writer]
  dsimp only
  split
  · rw [BufferedFileWriter.truncate]
    split
    · simp [BufferedFileWriter.openFile, BufferedFileWriter.getTotalWritten]
    · rfl
  · rfl

/-- A log that holds some units is opened with their bytes, which are on disk. -/
theorem Holds.opens (holds : log.Holds view database units contents) :
    log.Opens (logOf records database units) (logOf records database units).length := by
  cases holds with
  | absent none =>
      rw [none]
      exact ⟨_, rfl, rfl, rfl, rfl⟩
  | recovered written inside replayed same from_file =>
      obtain ⟨writer, opened, has_contents, synced⟩ := from_file.openWriter inside
      have size : writer.getFileSize = (logOf records database units).length := by
        rw [← BufferedFileWriter.length_contents, has_contents]
      have total := getTotalWritten_openWriter from_file.writer
      rw [opened] at total
      refine ⟨writer, ?_, has_contents, synced.trans size, ?_⟩
      · rw [opened, size]
      · rw [getTotalWritten_of_none from_file.writer]
        exact total
  | opened bytes => exact bytes.opens

theorem Holds.walSize (holds : log.Holds view database units contents) :
    log.walSize = (logOf records database units).length := by
  cases holds with
  | absent none =>
      rw [none]
      rfl
  | recovered written inside replayed same from_file =>
      rw [from_file.walSize, logOf]
      split
      · rfl
      · rfl
  | opened bytes =>
      obtain ⟨writer, rfl, -, -⟩ := bytes
      rfl

/-- The bytes of a log that is written to: its header comes first. -/
def headed (database : DatabaseFile Contents) (bytes : List UInt8) : List UInt8 :=
  if bytes.isEmpty then database.walHeader else bytes

theorem headed_of_ne_nil (some_bytes : bytes ≠ []) : headed database bytes = bytes := by
  rw [headed, if_neg (by simpa using some_bytes)]

theorem headed_logOf (units : List (LogUnit Change)) :
    headed database (logOf records database units) = logBytes records database units := by
  cases units with
  | nil => exact (List.append_nil _).symm
  | cons unit units =>
      rw [logOf_of_ne_nil (List.cons_ne_nil _ _), headed_of_ne_nil (logBytes_ne_nil _)]

/-- An entry is written behind what there is. -/
theorem Opens.writeEntry (opens : log.Opens bytes synced) (records : ChangeRecords Change Target)
    (database : DatabaseFile Contents) (entry : WalEntry Change) :
    (log.writeEntry records database entry).Opened
        (headed database bytes ++ entry.bytes records) synced ∧
      log.getTotalWritten < (log.writeEntry records database entry).getTotalWritten := by
  obtain ⟨writer, opened, has_contents, has_synced, total⟩ := opens
  have size : writer.getFileSize = bytes.length := by
    rw [← BufferedFileWriter.length_contents, has_contents]
  have head : (if 0 < writer.getFileSize then writer
      else writer.writeData database.walHeader).contents = headed database bytes := by
    rw [size, headed]
    cases bytes with
    | nil =>
        rw [if_neg (by simp), BufferedFileWriter.contents_writeData, has_contents]
        rfl
    | cons byte bytes =>
        rw [if_pos (by simp)]
        exact has_contents
  have head_synced : (if 0 < writer.getFileSize then writer
      else writer.writeData database.walHeader).synced = synced := by
    split
    · exact has_synced
    · rw [BufferedFileWriter.synced_writeData, has_synced]
  have head_total : writer.getTotalWritten ≤ (if 0 < writer.getFileSize then writer
      else writer.writeData database.walHeader).getTotalWritten := by
    split
    · exact le_refl _
    · rw [BufferedFileWriter.getTotalWritten_writeData]
      exact Nat.le_add_right _ _
  rw [WriteAheadLog.writeEntry, opened]
  dsimp only
  generalize (if 0 < writer.getFileSize then writer
      else writer.writeData database.walHeader) = headed_writer at head head_synced head_total ⊢
  constructor
  · refine ⟨_, rfl, ?_, ?_⟩
    · simp only [BufferedFileWriter.contents_writeData, head, WalEntry.bytes, List.append_assoc]
    · simp only [BufferedFileWriter.synced_writeData, head_synced]
  · show log.getTotalWritten < BufferedFileWriter.getTotalWritten _
    simp only [BufferedFileWriter.getTotalWritten_writeData, ByteOrder.length_littleEndianBytes]
    omega

theorem Opened.fileSize (opened : log.Opened bytes synced) : log.fileSize = bytes.length := by
  obtain ⟨writer, rfl, has_contents, -⟩ := opened
  show writer.getFileSize = _
  rw [← BufferedFileWriter.length_contents, has_contents]

/-- What is written is on disk. -/
theorem Opened.sync (opened : log.Opened bytes synced) : log.sync.Opened bytes bytes.length := by
  obtain ⟨writer, rfl, has_contents, -⟩ := opened
  have size : writer.sync.getFileSize = bytes.length := by
    rw [← BufferedFileWriter.length_contents, BufferedFileWriter.contents_sync, has_contents]
  refine ⟨writer.sync, ?_, ?_, ?_⟩
  · rw [WriteAheadLog.sync]
    dsimp only
    rw [size]
  · rw [BufferedFileWriter.contents_sync, has_contents]
  · exact size

theorem Opened.truncate (opened : log.Opened bytes synced) :
    (log.truncate synced).Opened (bytes.take synced) synced := by
  obtain ⟨writer, rfl, has_contents, has_synced⟩ := opened
  have inside : synced ≤ bytes.length := by
    have synced_le := writer.synced_le
    rw [← has_synced, ← has_contents, BufferedFileWriter.contents, List.length_append]
    omega
  have size : (writer.truncate synced).getFileSize = synced := by
    rw [← BufferedFileWriter.length_contents, BufferedFileWriter.contents_truncate, has_contents,
      List.length_take_of_le inside]
  refine ⟨writer.truncate synced, ?_, ?_, ?_⟩
  · rw [WriteAheadLog.truncate, if_neg (by simp)]
    dsimp only
    rw [size]
  · rw [BufferedFileWriter.contents_truncate, has_contents]
  · rw [BufferedFileWriter.synced_truncate, has_synced, min_self]

/-- What a crash leaves of an open log. -/
theorem Opened.crashedFile (opened : log.Opened bytes synced) (may : log.MayCut size) :
    log.crashedFile size = some (bytes.take size) ∧ synced ≤ size ∧ size ≤ bytes.length := by
  obtain ⟨writer, rfl, rfl, rfl⟩ := opened
  obtain ⟨behind, inside⟩ := may writer rfl
  refine ⟨?_, behind, ?_⟩
  · rw [WriteAheadLog.crashedFile, BufferedFileWriter.contents,
      List.take_append_of_le_length inside]
  · rw [BufferedFileWriter.contents, List.length_append]
    omega

/-- A crash leaves what the log holds. -/
theorem Holds.recoversAs (lawful : records.Lawful) (holds : log.Holds view database units contents)
    (written : LogWritten view database units contents) (may : log.MayCut size) :
    RecoversAs view database (log.crashedFile size) contents contents := by
  cases holds with
  | absent none =>
      subst none
      cases written.chain with
      | nil => exact recoversAs_empty written.iteration rfl
  | @recovered whole left after size' target log as_written inside replayed same from_file =>
      have file : log.crashedFile size = log.file := by
        rw [crashedFile, from_file.writer]
      rw [file]
      exact ⟨target, log, units, replayed, .inl same, same ▸ written,
        .recovered as_written inside replayed rfl from_file⟩
  | opened bytes =>
      obtain ⟨file, behind, inside⟩ := bytes.crashedFile may
      cases units with
      | nil =>
          cases written.chain with
          | nil =>
              refine recoversAs_empty written.iteration ?_
              rw [file]
              exact List.take_nil
      | cons unit units =>
          have all : logBytes records database (unit :: units) =
              logBytes records database (unit :: units ++ []) := by rw [List.append_nil]
          rw [file, logOf_of_ne_nil (List.cons_ne_nil _ _), all]
          rw [logOf_of_ne_nil (List.cons_ne_nil _ _), all] at inside
          have taken := recoversAs_take lawful (by rwa [List.append_nil]) written.chain
            (Nat.zero_le _) behind inside
          rwa [ite_self] at taken

theorem Holds.sync (holds : log.Holds view database units contents) :
    log.sync.Holds view database units contents := by
  cases holds with
  | absent none => exact .absent none
  | @recovered whole left after size target log written inside replayed same from_file =>
      have unchanged : log.sync = log := by
        rw [WriteAheadLog.sync, from_file.writer]
      rw [unchanged]
      exact .recovered written inside replayed same from_file
  | opened bytes => exact .opened bytes.sync

/-- A crash while one more unit is written; what comes behind the bytes is still missing. -/
theorem Opened.recoversAs (lawful : records.Lawful) {unit : LogUnit Change}
    (written : LogWritten view database units before)
    (whole : LogWritten view database (units ++ [unit]) after) {bytes bytes' : List UInt8}
    {synced : Nat} (opened : log.Opened bytes synced)
    (of_unit : logBytes records database (units ++ [unit]) = bytes ++ bytes')
    (behind : (logOf records database units).length ≤ synced) (may : log.MayCut size) :
    RecoversAs view database (log.crashedFile size) before
      (if bytes' = [] then after else before) := by
  obtain ⟨file, synced_le, inside⟩ := opened.crashedFile may
  have taken : bytes.take size = (logBytes records database (units ++ [unit])).take size := by
    rw [of_unit, List.take_append_of_le_length inside]
  have recovers := recoversAs_take lawful whole written.chain (le_refl 1) (behind.trans synced_le)
    (show size ≤ _ by
      rw [of_unit, List.length_append]
      omega)
  rw [file, taken]
  split
  · split at recovers
    · exact recovers
    · exact recovers.mono
  · rename_i missing
    have some_missing := List.length_pos_of_ne_nil missing
    rw [if_neg (by
      rw [of_unit, List.length_append]
      omega)] at recovers
    exact recovers

/-- A log in which there is nothing. -/
def Empty (log : WriteAheadLog) : Prop := log = .noLog ∨ log.Opened [] 0

theorem Empty.holds (empty : log.Empty) : log.Holds view database [] contents := by
  rcases empty with rfl | opened
  · exact .absent rfl
  · exact .opened opened

/-- A log without a size has nothing in it, unless it is still to be truncated. -/
theorem Holds.empty (holds : log.Holds view database units contents) (no_size : log.walSize = 0)
    (truncated : ¬(log.walSize = 0 ∧ log.initState = .uninitializedRequiresTruncate)) :
    units = [] ∧ log.Empty := by
  have nothing : (logOf records database units).length = 0 := holds.walSize.symm.trans no_size
  have none : units = [] := by
    by_contra some_units
    rw [logOf_of_ne_nil some_units] at nothing
    exact logBytes_ne_nil units (List.eq_nil_of_length_eq_zero nothing)
  refine ⟨none, ?_⟩
  subst none
  cases holds with
  | absent none => exact .inl rfl
  | recovered written inside replayed same from_file =>
      have initState := from_file.initState
      rw [if_neg (by simp)] at initState
      exact absurd ⟨no_size, initState⟩ truncated
  | opened bytes => exact .inr bytes

end WriteAheadLog

open StorageSystem

/-! ## One more unit -/

theorem logBytes_transaction (units : List (LogUnit Change)) (changes : List Change) :
    logBytes records database (units ++ [.transaction changes]) =
      logBytes records database units ++ (entryBytes records (changes.map WalEntry.change) ++
        (WalEntry.flush : WalEntry Change).bytes records) := by
  rw [logBytes_append, LogUnit.bytes, List.flatMap_singleton, LogUnit.entries, entryBytes_append]
  rfl

theorem logBytes_checkpoint (units : List (LogUnit Change)) (metaBlock : MetaBlockPointer) :
    logBytes records database (units ++ [.checkpoint metaBlock]) =
      logBytes records database units ++ (WalEntry.checkpoint metaBlock : WalEntry Change).bytes
        records ++ (WalEntry.flush : WalEntry Change).bytes records := by
  rw [logBytes_append, LogUnit.bytes, List.flatMap_singleton, LogUnit.entries, entryBytes_cons,
    entryBytes_cons, List.append_assoc]
  rfl

theorem LogWritten.transaction {units : List (LogUnit Change)} {before now : Contents}
    {changes : List Change} (written : LogWritten view database units before)
    (effect : Effect view before changes now)
    (types : ∀ record ∈ changes, records.walType record ≠ .createType)
    (room : (logBytes records database units ++
      entryBytes records (changes.map WalEntry.change)).length < maximumLogSize) :
    LogWritten view database (units ++ [.transaction changes]) now := by
  refine ⟨written.iteration, written.chain.append (.transaction effect types .nil),
    fun metaBlock member => ?_, ?_⟩
  · rcases List.mem_append.mp member with here | last
    · exact written.fresh metaBlock here
    · cases List.mem_singleton.mp last
  · have flush := @length_flush_bytes _ _ records
    rw [List.length_append, maximumLogSize] at room
    rw [logBytes_transaction, List.length_append, List.length_append]
    omega

theorem LogWritten.checkpoint {units : List (LogUnit Change)} {contents : Contents}
    {metaBlock : MetaBlockPointer} (written : LogWritten view database units contents)
    (fits : metaBlock.Fits) (fresh : metaBlock.blockPointer ≠ database.metaBlock)
    (room : (logBytes records database (units ++ [.checkpoint metaBlock])).length <
      maximumLogSize) :
    LogWritten view database (units ++ [.checkpoint metaBlock]) contents := by
  refine ⟨written.iteration, written.chain.append (.checkpoint fits .nil),
    fun other member => ?_, room.trans (by decide)⟩
  rcases List.mem_append.mp member with here | last
  · exact written.fresh other here
  · obtain rfl := LogUnit.checkpoint.inj (List.mem_singleton.mp last)
    exact fresh

theorem LogWritten.types {changes : List Change}
    (whole : LogWritten view database (units ++ [.transaction changes]) now) :
    ∀ record ∈ changes, records.walType record ≠ .createType := by
  obtain ⟨middle, -, back⟩ := whole.chain.split
  cases back with
  | transaction effect types rest => exact types

/-- A checkpoint whose header is written is found in the log, which is not replayed. -/
theorem recoversAs_checkpointed (lawful : records.Lawful)
    (whole : LogWritten view database (units ++ [.checkpoint metaBlock]) before)
    (valid : metaBlock.isValid = true)
    (next : database.checkpointIteration + 1 < MetaBlockPointer.invalidIndex) :
    RecoversAs view (writeHeader database metaBlock after)
      (some (logBytes records database (units ++ [.checkpoint metaBlock]))) after after := by
  have last : lastCheckpoint .invalid ((units ++ [LogUnit.checkpoint metaBlock]).flatMap
      LogUnit.entries) = metaBlock := by
    rw [List.flatMap_append, lastCheckpoint_append]
    rfl
  have same := view.contents_start after
  have replayed := @replayWal_checkpointed _ _ _ records (writeHeader database metaBlock after)
    (view.start after) lawful view _ _ database whole ⟨rfl, rfl⟩ rfl (by rw [last]; rfl)
    (by rwa [last])
  refine ⟨view.start after, .noLog, [], replayed, .inl same, ?_, .absent rfl⟩
  rw [same]
  exact .nil next


/-! ## One step -/

/-- What is so at every moment of a run. -/
inductive StorageSystem.Invariant (view : TargetContents records Contents) :
    StorageSystem Change Contents → Prop
  | running {file : DatabaseFile Contents} {log : WriteAheadLog} {contents : Contents}
      {units : List (LogUnit Change)} (written : LogWritten view file units contents)
      (holds : log.Holds view file units contents) :
      Invariant view ⟨file, log, .running contents⟩
  | beginning {file : DatabaseFile Contents} {log : WriteAheadLog} {contents now : Contents}
      {units : List (LogUnit Change)} (written : LogWritten view file units contents)
      (holds : log.Holds view file units contents) (same : now = contents) :
      Invariant view
        ⟨file, log, .committing ⟨log.walSize, log.getTotalWritten⟩ contents [] now⟩
  | writing {file : DatabaseFile Contents} {log : WriteAheadLog} {commit : CommitLogState}
      {before now : Contents} {changes : List Change} {units : List (LogUnit Change)}
      (written : LogWritten view file units before)
      (whole : LogWritten view file (units ++ [.transaction changes]) now)
      (opened : log.Opened (logBytes records file units ++
        entryBytes records (changes.map WalEntry.change)) (logOf records file units).length)
      (initial : commit.initialWalSize = (logOf records file units).length)
      (more : commit.initialWritten < log.getTotalWritten) :
      Invariant view ⟨file, log, .committing commit before changes now⟩
  | nothing {file : DatabaseFile Contents} {log : WriteAheadLog} {before after : Contents}
      {units : List (LogUnit Change)} (written : LogWritten view file units before)
      (holds : log.Holds view file units before) (same : after = before) :
      Invariant view ⟨file, log, .flushing before after⟩
  | flushing {file : DatabaseFile Contents} {log : WriteAheadLog} {before after : Contents}
      {unit : LogUnit Change} {units : List (LogUnit Change)}
      (written : LogWritten view file units before)
      (whole : LogWritten view file (units ++ [unit]) after)
      (opened : log.Opened (logBytes records file (units ++ [unit]))
        (logOf records file units).length) :
      Invariant view ⟨file, log, .flushing before after⟩
  | unflagged {file : DatabaseFile Contents} {log : WriteAheadLog} {stage : CheckpointStage}
      {metaBlock : MetaBlockPointer} {before after : Contents} (unwritten : stage ≠ .written)
      (written : LogWritten view file [] before) (empty : log.Empty)
      (next : file.checkpointIteration + 1 < MetaBlockPointer.invalidIndex) :
      Invariant view ⟨file, log, .checkpointing stage metaBlock before after true⟩
  | flagging {file : DatabaseFile Contents} {log : WriteAheadLog} {stage : CheckpointStage}
      {metaBlock : MetaBlockPointer} {before after : Contents} {units : List (LogUnit Change)}
      {synced : Nat} (unwritten : stage ≠ .written) (written : LogWritten view file units before)
      (whole : LogWritten view file (units ++ [.checkpoint metaBlock]) before)
      (opened : log.Opened (logBytes records file (units ++ [.checkpoint metaBlock])) synced)
      (behind : (logOf records file units).length ≤ synced)
      (all : stage = .flagged →
        synced = (logBytes records file (units ++ [.checkpoint metaBlock])).length)
      (valid : metaBlock.isValid = true)
      (next : file.checkpointIteration + 1 < MetaBlockPointer.invalidIndex) :
      Invariant view ⟨file, log, .checkpointing stage metaBlock before after false⟩
  | written {file : DatabaseFile Contents} {log : WriteAheadLog} {metaBlock : MetaBlockPointer}
      {before after : Contents} {walIsEmpty : Bool} (written : LogWritten view file [] after)
      (empty : walIsEmpty = true → log.Empty)
      (recovers : ∀ size, log.MayCut size →
        RecoversAs view file (log.crashedFile size) after after)
      (removed : walIsEmpty = false → log.delete = .noLog) :
      Invariant view ⟨file, log, .checkpointing .written metaBlock before after walIsEmpty⟩
  | crashed {file : DatabaseFile Contents} {log : WriteAheadLog} {walFile : Option (List UInt8)}
      {before after : Contents} (recovers : RecoversAs view file walFile before after) :
      Invariant view ⟨file, log, .crashed walFile before after⟩

namespace StorageSystem

variable {system system' : StorageSystem Change Contents}

theorem invariant_create (iteration : file.checkpointIteration < MetaBlockPointer.invalidIndex) :
    Invariant view (create file) := .running (.nil iteration) (.absent rfl)

section

variable (invariant : system.Invariant view)
include invariant

theorem invariant_beginCommit
    (taken : system.step records view .beginCommit = .ok system') : system'.Invariant view := by
  cases invariant with
  | running written holds =>
      cases taken
      exact .beginning written holds rfl
  | _ => cases taken

theorem invariant_write {change : Change}
    (guarded : system.Guard records view (.write change now))
    (taken : system.step records view (.write change now) = .ok system') :
    system'.Invariant view := by
  obtain ⟨type, effect, room⟩ := guarded
  cases invariant with
  | @beginning file log contents middle units written holds same =>
      cases taken
      obtain ⟨opened, more⟩ := holds.opens.writeEntry records file (.change change)
      have entry : entryBytes records ([change].map WalEntry.change) =
          (WalEntry.change change).bytes records := List.append_nil _
      rw [WriteAheadLog.headed_logOf, ← entry] at opened
      rw [opened.fileSize] at room
      exact .writing written (written.transaction (effect _ _ _ _ rfl) (by simpa using type) room)
        opened holds.walSize more
  | @writing file log commit before middle changes units written whole opened initial more =>
      cases taken
      obtain ⟨next_opened, next_more⟩ := opened.opens.writeEntry records file (.change change)
      have some_bytes : logBytes records file units ++
          entryBytes records (changes.map WalEntry.change) ≠ [] :=
        List.append_ne_nil_of_left_ne_nil (logBytes_ne_nil units) _
      have entry : entryBytes records ((changes ++ [change]).map WalEntry.change) =
          entryBytes records (changes.map WalEntry.change) ++
            (WalEntry.change change).bytes records := by
        rw [List.map_append, entryBytes_append]
        exact congrArg _ (List.append_nil _)
      rw [WriteAheadLog.headed_of_ne_nil some_bytes, List.append_assoc, ← entry] at next_opened
      rw [next_opened.fileSize] at room
      refine .writing written (written.transaction (effect _ _ _ _ rfl) (fun record member => ?_)
        room) next_opened initial (more.trans next_more)
      rcases List.mem_append.mp member with old | new
      · exact whole.types record old
      · rw [List.mem_singleton.mp new]
        exact type
  | _ => cases taken

theorem invariant_revertCommit
    (taken : system.step records view .revertCommit = .ok system') : system'.Invariant view := by
  cases invariant with
  | beginning written holds same =>
      cases taken
      rw [CommitLogState.revertCommit, if_neg (Nat.lt_irrefl _)]
      exact .running written holds
  | @writing file log commit before now changes units written whole opened initial more =>
      cases taken
      rw [CommitLogState.revertCommit, if_pos more, initial]
      have truncated := opened.truncate
      have front : (logBytes records file units ++
          entryBytes records (changes.map WalEntry.change)).take (logOf records file units).length =
            logOf records file units := by
        cases units with
        | nil => exact List.take_zero
        | cons unit units =>
            rw [logOf_of_ne_nil (List.cons_ne_nil _ _), List.take_left' rfl]
      rw [front] at truncated
      exact .running written (.opened truncated)
  | _ => cases taken

theorem invariant_writeFlush
    (guarded : system.Guard records view .writeFlush)
    (taken : system.step records view .writeFlush = .ok system') : system'.Invariant view := by
  cases invariant with
  | @beginning file log contents now units written holds same =>
      cases taken
      cases opened : log.writer with
      | none =>
          -- nothing has been written
          rw [WriteAheadLog.writeFlush, opened]
          exact .nothing written holds same
      | some writer =>
          have flush_written : log.writeFlush records file = log.writeEntry records file .flush := by
            rw [WriteAheadLog.writeFlush, opened]
          obtain ⟨flushed, -⟩ := holds.opens.writeEntry records file .flush
          have room : (log.writeFlush records file).fileSize < maximumLogSize := guarded
          rw [flush_written, flushed.fileSize, WriteAheadLog.headed_logOf, List.length_append] at room
          rw [WriteAheadLog.headed_logOf] at flushed
          have unit := @logBytes_transaction _ _ _ records file units []
          rw [List.map_nil, show entryBytes records [] = [] from rfl, List.nil_append] at unit
          rw [← unit, ← flush_written] at flushed
          refine .flushing written (written.transaction (same ▸ effect_nil view now) (by simp) ?_)
            flushed
          rw [List.map_nil, show entryBytes records [] = [] from rfl, List.append_nil]
          omega
  | @writing file log commit before now changes units written whole opened initial more =>
      cases taken
      have ⟨writer, log_eq, _⟩ := opened
      have flush_written : log.writeFlush records file = log.writeEntry records file .flush := by
        rw [log_eq]
        rfl
      obtain ⟨flushed, -⟩ := opened.opens.writeEntry records file .flush
      rw [WriteAheadLog.headed_of_ne_nil
        (List.append_ne_nil_of_left_ne_nil (logBytes_ne_nil units) _), List.append_assoc,
        ← logBytes_transaction, ← flush_written] at flushed
      exact .flushing written whole flushed
  | _ => cases taken

theorem invariant_sync
    (taken : system.step records view .sync = .ok system') : system'.Invariant view := by
  cases invariant with
  | nothing written holds same =>
      cases taken
      subst same
      exact .running written holds.sync
  | @flushing file log before after unit units written whole opened =>
      cases taken
      have synced := opened.sync
      have some_units : units ++ [unit] ≠ [] :=
        List.append_ne_nil_of_right_ne_nil _ (List.cons_ne_nil _ _)
      rw [← logOf_of_ne_nil some_units] at synced
      exact .running whole (.opened synced)
  | _ => cases taken

theorem invariant_startCheckpoint
    (guarded : system.Guard records view (.startCheckpoint metaBlock after))
    (taken : system.step records view (.startCheckpoint metaBlock after) = .ok system') :
    system'.Invariant view := by
  obtain ⟨fits, valid, fresh, next, truncated, room⟩ := guarded
  cases invariant with
  | @running file log contents units written holds =>
      cases taken
      by_cases no_size : log.walSize = 0
      · obtain ⟨rfl, empty⟩ := holds.empty no_size truncated
        rw [if_pos (by simpa using no_size), show (log.walSize == 0) = true by simpa using no_size]
        exact .unflagged (by simp) written empty next
      · rw [if_neg (by simpa using no_size), show (log.walSize == 0) = false by simpa using no_size]
        have written_room : (log.writeCheckpoint records file metaBlock).fileSize <
            maximumLogSize := room no_size
        obtain ⟨flagged, -⟩ := holds.opens.writeEntry records file (.checkpoint metaBlock)
        obtain ⟨flushed, -⟩ := flagged.opens.writeEntry records file .flush
        have both : log.writeCheckpoint records file metaBlock =
            (log.writeEntry records file (.checkpoint metaBlock)).writeEntry records file .flush := by
          obtain ⟨writer, log_eq, -⟩ := flagged
          rw [WriteAheadLog.writeCheckpoint, log_eq]
          rfl
        rw [WriteAheadLog.headed_logOf, WriteAheadLog.headed_of_ne_nil
          (List.append_ne_nil_of_left_ne_nil (logBytes_ne_nil units) _), ← logBytes_checkpoint,
          ← both] at flushed
        rw [flushed.fileSize] at written_room
        exact .flagging (by simp) written (written.checkpoint fits fresh written_room) flushed
          (le_refl _) (by simp) valid next
  | _ => cases taken

theorem invariant_syncCheckpoint
    (taken : system.step records view .syncCheckpoint = .ok system') : system'.Invariant view := by
  obtain ⟨file, log, phase⟩ := system
  cases phase with
  | checkpointing stage metaBlock before after walIsEmpty =>
      cases stage with
      | flagging =>
          cases taken
          cases invariant with
          | unflagged _ written empty next => exact .unflagged (by simp) written empty next
          | flagging _ written whole opened behind all valid next =>
              refine .flagging (by simp) written whole opened.sync ?_ (fun _ => rfl) valid next
              exact logOf_length_le _ _
      | _ => cases taken
  | _ => cases taken

theorem invariant_writeHeader (lawful : records.Lawful)
    (taken : system.step records view .writeHeader = .ok system') : system'.Invariant view := by
  obtain ⟨file, log, phase⟩ := system
  cases phase with
  | checkpointing stage metaBlock before after walIsEmpty =>
      cases stage with
      | flagged =>
          cases taken
          cases invariant with
          | unflagged _ written empty next =>
              have new : LogWritten view (writeHeader file metaBlock after) [] after := .nil next
              exact .written new (fun _ => empty)
                (fun size may => empty.holds.recoversAs lawful new may) (by simp)
          | flagging _ written whole opened behind all valid next =>
              obtain rfl := all rfl
              refine .written (.nil next) (by simp) (fun size may => ?_) (fun _ => ?_)
              · obtain ⟨crashed, synced_le, -⟩ := opened.crashedFile may
                rw [crashed, List.take_of_length_le synced_le]
                exact recoversAs_checkpointed lawful whole valid next
              · obtain ⟨writer, rfl, -⟩ := opened
                rfl
      | _ => cases taken
  | _ => cases taken

theorem invariant_resetWal
    (taken : system.step records view .resetWal = .ok system') : system'.Invariant view := by
  obtain ⟨file, log, phase⟩ := system
  cases phase with
  | checkpointing stage metaBlock before after walIsEmpty =>
      cases stage with
      | written =>
          cases taken
          cases invariant with
          | unflagged unwritten => exact absurd rfl unwritten
          | flagging unwritten => exact absurd rfl unwritten
          | written written empty recovers removed =>
              cases walIsEmpty with
              | true => exact .running written (empty rfl).holds
              | false =>
                  rw [if_neg Bool.false_ne_true, removed rfl]
                  exact .running written (.absent rfl)
      | _ => cases taken
  | _ => cases taken

theorem invariant_crash (lawful : records.Lawful)
    (may : system.log.MayCut size)
    (taken : system.step records view (.crash size) = .ok system') : system'.Invariant view := by
  cases invariant with
  | running written holds =>
      cases taken
      exact .crashed (holds.recoversAs lawful written may)
  | beginning written holds same =>
      cases taken
      exact .crashed (holds.recoversAs lawful written may)
  | writing written whole opened initial more =>
      cases taken
      have recovers := opened.recoversAs lawful written whole
        (by rw [logBytes_transaction, List.append_assoc]) (le_refl _) may
      rw [if_neg (bytes_ne_nil _)] at recovers
      exact .crashed recovers
  | nothing written holds same =>
      cases taken
      exact .crashed (holds.recoversAs lawful written may).mono
  | flushing written whole opened =>
      cases taken
      have recovers := opened.recoversAs lawful written whole (List.append_nil _).symm (le_refl _)
        may
      rw [if_pos rfl] at recovers
      exact .crashed recovers
  | @unflagged file log stage metaBlock before after unwritten written empty next =>
      have recovers := empty.holds.recoversAs lawful written may
      cases stage with
      | written => exact absurd rfl unwritten
      | _ =>
          cases taken
          exact .crashed recovers
  | @flagging file log stage metaBlock before after units synced unwritten written whole opened behind
      all valid next =>
      have recovers := opened.recoversAs lawful written whole (List.append_nil _).symm behind may
      rw [if_pos rfl] at recovers
      cases stage with
      | written => exact absurd rfl unwritten
      | _ =>
          cases taken
          exact .crashed recovers
  | written written empty recovers removed =>
      cases taken
      exact .crashed (recovers size may)
  | crashed recovers => cases taken

theorem invariant_recover
    (taken : system.step records view .recover = .ok system') : system'.Invariant view := by
  cases invariant with
  | @crashed file log walFile before after recovers =>
      obtain ⟨target, recovered, units, replayed, -, written, holds⟩ := recovers
      rw [step] at taken
      dsimp only at taken
      rw [replayed] at taken
      cases taken
      exact .running written holds
  | _ => cases taken

end

/-- Every step keeps the invariant. -/
theorem invariant_step (lawful : records.Lawful) (system : StorageSystem Change Contents)
    (action : StorageAction Change Contents) (system' : StorageSystem Change Contents)
    (invariant : system.Invariant view) (guarded : system.Guard records view action)
    (taken : system.step records view action = .ok system') : system'.Invariant view := by
  cases action with
  | beginCommit => exact invariant_beginCommit invariant taken
  | write change now => exact invariant_write invariant guarded taken
  | revertCommit => exact invariant_revertCommit invariant taken
  | writeFlush => exact invariant_writeFlush invariant guarded taken
  | sync => exact invariant_sync invariant taken
  | startCheckpoint metaBlock after => exact invariant_startCheckpoint invariant guarded taken
  | syncCheckpoint => exact invariant_syncCheckpoint invariant taken
  | writeHeader => exact invariant_writeHeader invariant lawful taken
  | resetWal => exact invariant_resetWal invariant taken
  | crash size => exact invariant_crash invariant lawful guarded taken
  | recover => exact invariant_recover invariant taken

/-- The logs that are found if the system crashes now, or has crashed. -/
def Leaves (system : StorageSystem Change Contents) (walFile : Option (List UInt8)) : Prop :=
  match system.phase with
  | .crashed file _ _ => walFile = file
  | _ => ∃ size, system.log.MayCut size ∧ walFile = system.log.crashedFile size

theorem invariant_run (lawful : records.Lawful)
    (iteration : file.checkpointIteration < MetaBlockPointer.invalidIndex)
    {actions : List (StorageAction Change Contents)}
    (reached : Reaches (step records view) (Guard records view) (create file) actions system) :
    system.Invariant view :=
  reached.state_invariant (Invariant view) (invariant_create iteration) (invariant_step lawful)

/-- What a system leaves is recovered as one of its outcomes. -/
theorem Invariant.recoversAs (invariant : system.Invariant view) (lawful : records.Lawful)
    {walFile : Option (List UInt8)} (left : system.Leaves walFile) :
    RecoversAs view system.file walFile system.phase.outcomes.1 system.phase.outcomes.2 := by
  obtain ⟨file, log, phase⟩ := system
  cases phase with
  | crashed crashed before after =>
      cases invariant with
      | crashed recovers =>
          obtain rfl : walFile = crashed := left
          exact recovers
  | _ =>
      obtain ⟨size, may, rfl⟩ := left
      cases invariant_crash invariant lawful may rfl with
      | crashed recovers => exact recovers

/--
In every run of commits, checkpoints, crashes and recoveries, a database that crashes at any moment
opens again: with the contents that have been acknowledged, or with those of the commit whose flush
was not synced yet.
-/
theorem recovers_of_run (lawful : records.Lawful) {file : DatabaseFile Contents}
    (iteration : file.checkpointIteration < MetaBlockPointer.invalidIndex)
    {actions : List (StorageAction Change Contents)}
    (reached : Reaches (step records view) (Guard records view) (create file) actions system)
    {walFile : Option (List UInt8)} (left : system.Leaves walFile) :
    ∃ target log, replayWal records system.file (view.start system.file.contents) walFile =
        .ok (target, log) ∧
      (view.contents target = system.phase.outcomes.1 ∨
        view.contents target = system.phase.outcomes.2) := by
  have invariant := invariant_run lawful iteration reached
  obtain ⟨target, log, units, replayed, outcome, -⟩ := invariant.recoversAs lawful left
  exact ⟨target, log, replayed, outcome⟩

end StorageSystem

namespace SchemaChange

/-- A commit whose flush is not synced yet. -/
def flushingSystem : StorageSystem SchemaChange Schemas :=
  ⟨newFile, (WriteAheadLog.noLog.writeEntry schemaRecords newFile
    (.change (.createSchema sales))).writeFlush schemaRecords newFile, .flushing [main] [main, sales]⟩

theorem reaches_flushingSystem :
    Reaches (step schemaRecords schemaContents) (Guard schemaRecords schemaContents)
      (create newFile) [.beginCommit, .write (.createSchema sales) [main, sales], .writeFlush]
      flushingSystem := by
  have created : Effect schemaContents [main] [.createSchema sales] [main, sales] :=
    effect_of_replay rfl
  refine .next (.next (.next .start True.intro rfl) ⟨by decide, ?_, by decide +kernel⟩ rfl)
    (show _ < _ by decide +kernel) rfl
  intro commit before changes middle phase
  cases phase
  exact created

/-- The commit is synced. -/
def syncedSystem : StorageSystem SchemaChange Schemas :=
  ⟨newFile, flushingSystem.log.sync, .running [main, sales]⟩

theorem recovers_of_run_synced :
    ∃ target log, replayWal schemaRecords newFile (schemaContents.start newFile.contents)
        (syncedSystem.log.crashedFile syncedSystem.log.fileSize) = .ok (target, log) ∧
      schemaContents.contents target = [main, sales] := by
  have reached : Reaches (step schemaRecords schemaContents) (Guard schemaRecords schemaContents)
      (create newFile) [.beginCommit, .write (.createSchema sales) [main, sales], .writeFlush, .sync]
      syncedSystem := .next reaches_flushingSystem True.intro rfl
  have left : syncedSystem.Leaves (syncedSystem.log.crashedFile syncedSystem.log.fileSize) := by
    refine ⟨syncedSystem.log.fileSize, fun writer open_writer => ?_, rfl⟩
    cases open_writer
    constructor
    · decide +kernel
    · decide +kernel
  obtain ⟨target, log, replayed, outcome⟩ :=
    recovers_of_run lawful_schemaRecords (by decide) reached left
  exact ⟨target, log, replayed, outcome.elim id id⟩

end SchemaChange

end StatsRecommender
