import StatsRecommender.Storage.Durability

/-!
# A torn log that is left behind

A log in which nothing is whole has no size, and a checkpoint takes it for an empty one.
-/

namespace StatsRecommender

open StorageSystem

variable {Change Target Contents : Type} {records : ChangeRecords Change Target}
  {view : TargetContents records Contents} {database : DatabaseFile Contents}

/-- A log in which nothing is whole, of the iteration before. -/
theorem replayWal_stale (lawful : records.Lawful) {units left : List (LogUnit Change)}
    {after contents : Contents} {size : Nat} {target start : Target} {log : WriteAheadLog}
    {metaBlock : MetaBlockPointer} (written : LogWritten view database units after)
    (recovered : Recovered view database units after size [] left target log)
    (large : 66 < database.versionNumber) (headed : database.walHeader.length ≤ size)
    (fresh : ∀ other, LogUnit.checkpoint other ∈ units →
      other.blockPointer ≠ metaBlock.blockPointer) :
    replayWal records (writeHeader database metaBlock contents) start log.file =
      .error (throwVersionError database.checkpointIteration
        (database.checkpointIteration + 1)) := by
  have short := written.length
  have length := @length_logBytes _ _ _ records database units
  -- the cut is in the first unit, or there is none
  obtain ⟨entries, torn, cut, entries_inside, cut_lt, fits, file_eq⟩ :
      ∃ (entries : List (WalEntry Change)) (torn : WalEntry Change) (cut : Nat),
        entries ⊆ units.flatMap LogUnit.entries ∧ cut < (torn.bytes records).length ∧
        database.walHeader.length + (entryBytes records entries).length + cut +
          (torn.bytes records).length < 2 ^ 64 ∧
        (logBytes records database units).take size =
          database.walHeader ++ (entryBytes records entries ++ (torn.bytes records).take cut) := by
    rcases Nat.lt_or_ge (size - database.walHeader.length)
      (LogUnit.bytes records units).length with in_units | all
    · obtain ⟨whole, torn, rest, cut, split, cut_lt, -, taken⟩ :=
        entryBytes_take _ (show size - database.walHeader.length <
          (entryBytes records (units.flatMap LogUnit.entries)).length from in_units)
      have total : (LogUnit.bytes records units).length =
          (entryBytes records whole).length + ((torn.bytes records).length +
            (entryBytes records rest).length) := by
        rw [LogUnit.bytes, split, entryBytes_append, entryBytes_cons, List.length_append,
          List.length_append]
      refine ⟨whole, torn, cut, ?_, cut_lt, by omega, ?_⟩
      · rw [split]
        exact List.subset_append_left _ _
      · rw [logBytes, List.take_append, List.take_of_length_le headed, LogUnit.bytes, taken]
    · have flush := @length_flush_bytes _ _ records
      refine ⟨units.flatMap LogUnit.entries, .flush, 0, List.Subset.refl _, by omega, ?_, ?_⟩
      · rw [LogUnit.bytes] at length
        omega
      · rw [List.take_of_length_le (by omega), List.take_zero, List.append_nil]
        rfl
  have passed : ∀ entry ∈ entries, entry.Passed records := fun entry member =>
    written.chain.passed entry (entries_inside member)
  obtain ⟨exception, read, raised, -⟩ := @readLog_spec _ _ _ records
    (writeHeader database metaBlock contents) database true start start lawful ⟨rfl, rfl⟩
    written.iteration (.inr rfl) entries _ _ (replaysAll_true passed _ _) torn cut cut_lt fits
  have some_bytes : ((logBytes records database units).take size).isEmpty = false := by
    have pos := walHeader_pos database
    exact isEmpty_take (by omega) (logBytes_ne_nil units)
  have not_checkpointed := @lastCheckpoint_units _ _ (writeHeader database metaBlock contents)
    units entries entries_inside fresh
  have expected : (headerState database (writeHeader database metaBlock contents)
      (.create start)).expectedCheckpointId = some (database.checkpointIteration + 1) :=
    if_pos ⟨large, rfl⟩
  rw [recovered.file, replayWal, replayInternal, some_bytes, if_neg Bool.false_ne_true, file_eq, read]
  dsimp only
  rw [failure_of_torn raised]
  dsimp only
  rw [show (headerState database (writeHeader database metaBlock contents)
    (.create start)).checkpointId = .invalid from rfl, not_checkpointed, if_neg Bool.false_ne_true,
    expected]
  rfl

namespace StorageSystem

/--
A log in which nothing was whole is not removed by a checkpoint, which takes it for an empty one: if
the system crashes behind the checkpoint, the database does not open any more.
-/
theorem checkpoint_leaves_torn_log (lawful : records.Lawful) {units left : List (LogUnit Change)}
    {file : DatabaseFile Contents} {after before contents : Contents} {size cut : Nat}
    {target : Target} {log : WriteAheadLog} {metaBlock : MetaBlockPointer}
    (written : LogWritten view file units after)
    (recovered : Recovered view file units after size [] left target log)
    (large : 66 < file.versionNumber) (headed : file.walHeader.length ≤ size)
    (fresh : ∀ other, LogUnit.checkpoint other ∈ units →
      other.blockPointer ≠ metaBlock.blockPointer) :
    ∃ crashed : StorageSystem Change Contents,
      [.startCheckpoint metaBlock contents, .syncCheckpoint, .writeHeader, .resetWal,
        .crash cut].foldlM (step records view) ⟨file, log, .running before⟩ = .ok crashed ∧
      crashed.phase.outcomes = (contents, contents) ∧
      step records view crashed .recover = .error
        (throwVersionError file.checkpointIteration (file.checkpointIteration + 1)) := by
  have no_size : (log.walSize == 0) = true := by
    rw [recovered.walSize]
    rfl
  have crashed_file : log.crashedFile cut = log.file := by
    rw [WriteAheadLog.crashedFile, recovered.writer]
  refine ⟨⟨writeHeader file metaBlock contents, .noLog, .crashed log.file contents contents⟩, ?_,
    rfl, ?_⟩
  · simp only [List.foldlM_cons, List.foldlM_nil, step, no_size, if_pos]
    rw [← crashed_file]
    rfl
  · have stale := @replayWal_stale _ _ _ records view file lawful units left after contents size
      target (view.start contents) log metaBlock written recovered large headed fresh
    rw [step]
    dsimp only
    rw [show (writeHeader file metaBlock contents).contents = contents from rfl, stale]
    rfl

end StorageSystem

namespace SchemaChange

/-- The log of a first transaction, of which only the header and some bytes were written. -/
def tornLog : WriteAheadLog :=
  ⟨some ((logBytes schemaRecords newFile [.transaction [.createSchema sales]]).take
    (newFile.walHeader.length + 5)), none, 0, .uninitializedRequiresTruncate⟩

theorem created_written :
    LogWritten schemaContents newFile [.transaction [.createSchema sales]] [main, sales] := by
  have created : Effect schemaContents [main] [.createSchema sales] [main, sales] :=
    effect_of_replay rfl
  exact ⟨by decide, .transaction created (by decide) .nil, by simp, by decide +kernel⟩

theorem recovered_tornLog :
    Recovered schemaContents newFile [.transaction [.createSchema sales]] [main, sales]
      (newFile.walHeader.length + 5) [] [.transaction [.createSchema sales]] [main] tornLog where
  split := rfl
  front := .nil
  back := created_written.chain
  whole := fun some_units => absurd rfl some_units
  next := fun unit same => by
    obtain rfl := Option.some.inj same
    decide +kernel
  file := rfl
  writer := rfl
  walSize := rfl
  initState := rfl

theorem checkpoint_leaves_torn_log_sales :
    ∃ crashed : StorageSystem SchemaChange Schemas,
      [.startCheckpoint ⟨1, 0⟩ [main, stock], .syncCheckpoint, .writeHeader, .resetWal,
        .crash 0].foldlM (step schemaRecords schemaContents) ⟨newFile, tornLog, .running [main]⟩ =
          .ok crashed ∧
      crashed.phase.outcomes = ([main, stock], [main, stock]) ∧
      step schemaRecords schemaContents crashed .recover = .error (throwVersionError 0 1) :=
  checkpoint_leaves_torn_log lawful_schemaRecords created_written recovered_tornLog (by decide)
    (Nat.le_add_right _ _) (by simp)

end SchemaChange

end StatsRecommender
