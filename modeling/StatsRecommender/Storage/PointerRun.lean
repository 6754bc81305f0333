import StatsRecommender.Storage.SystemInvariant
import StatsRecommender.Storage.ColumnOwnership

/-!
# Where pointers to additional statistics go

Over the runs of the storage only the root statistics of columns point to additional
statistics, unless the validity mask of a column that holds one is updated on its own.
-/

namespace StatsRecommender

namespace RowGroupCollection

variable {width : Nat} {guard : StorageGuard}

/-- A guard that allows every append and every `InitStats` allows the loop of an append. -/
theorem appendMeets_of_free (append : ∀ column vector, guard.append column vector)
    (initStats : ∀ environment tableName index columnIndex column,
      guard.initStats environment tableName index columnIndex column)
    (environment : Environment) (fuel : Nat) (collection : LoadedCollection width)
    (state : TableAppendState) (chunk : DataChunk width) :
    AppendMeets guard environment fuel collection state chunk := by
  induction fuel generalizing collection state chunk with
  | zero => trivial
  | succ fuel ih =>
      refine ⟨fun _ current _ column => append _ _, fun _ => ⟨?_, ih _ _ _⟩⟩
      intro current _ column
      exact initStats _ _ _ _ _

end RowGroupCollection

namespace Storage

/-- The validity mask of a column is updated only while the column holds no statistic. -/
def maskGuard : StorageGuard where
  append _ _ := True
  initStats _ _ _ _ _ := True
  updateColumn path column _ := path = .validity → column.statistics.Free

/-- `UpdateColumn` of the validity mask of a column finds no additional statistic there. -/
def MaskUpdatesFree (storage : Storage) : StorageOperation → Prop
  | .onCollection index (.updateColumn rowGroup column .validity _) =>
      ∀ entry ∈ storage.collections[index]?,
        ∀ current ∈ (storage.loaded entry.collection).rowGroups[rowGroup]?,
          ∀ inside : column < entry.width, (current.columns ⟨column, inside⟩).statistics.Free
  | _ => True

theorem fillMeets_maskGuard (compression : Compression) (column : ColumnData)
    (vectors : List (List VectorSlot)) : FillMeets maskGuard compression column vectors := by
  induction vectors generalizing column with
  | nil => trivial
  | cons vector rest ih => exact ⟨trivial, ih _⟩

theorem MaskUpdatesFree.meets {base : Environment} {storage : Storage}
    {operation : StorageOperation} (free : storage.MaskUpdatesFree operation) :
    storage.Meets maskGuard base operation := by
  cases operation with
  | loadMapping => trivial
  | create => trivial
  | load => trivial
  | addColumn => exact fun _ _ => fillMeets_maskGuard _ _ _
  | removeColumn => trivial
  | alterType => exact fun _ _ => fillMeets_maskGuard _ _ _
  | mergeStorage => trivial
  | checkpoint => trivial
  | onCollection index operation =>
      intro entry found
      cases operation with
      | initializeAppend => trivial
      | append chunk =>
          intro state _ same
          exact RowGroupCollection.appendMeets_of_free (fun _ _ => trivial)
            (fun _ _ _ _ _ => trivial) _ _ _ _ _
      | finalizeAppend => trivial
      | revertAppendInternal => trivial
      | initStats rowGroup => exact fun _ _ _ => trivial
      | update => trivial
      | updateColumn rowGroup column path rows =>
          intro current held inside validity
          subst validity
          exact free entry found current held inside

/-- Under this guard no operation on a column hands its pointer on. -/
theorem maskGuard_invariant (base : Environment) :
    StorageInvariant maskGuard base ColumnData.Owned BaseStatistics.Free BaseStatistics.Free where
  create := ColumnData.create_owned
  createEmpty _ := ⟨rfl, rfl⟩
  merge _ _ free otherFree := free.merge otherFree
  pointer _ free := free
  setStart _ start owned := owned.setStart start
  initializeAppend _ owned := owned.initializeAppend
  append _ vector owned _ := ⟨owned.append _ vector, owned.append_free _ vector⟩
  initStats _ _ _ _ _ owned _ := owned.initStats _ _ _ _
  revertAppend _ _ _ owned reverted := owned.revertAppend reverted
  update _ rows owned := ⟨owned.update base rows, owned.update_free base rows⟩
  updateColumn path column rows owned guarded := by
    refine ⟨owned.updateColumn base path rows, ?_⟩
    rw [BaseStatistics.Free, owned.updateColumn_additional base path rows]
    cases path with
    | main => rfl
    | validity => exact guarded rfl
  load start type _ _ mainFree validityFree :=
    ColumnData.load_owned start type mainFree validityFree
  checkpoint _ sizes validitySizes owned := owned.checkpoint base sizes validitySizes
  checkpointStatistics _ owned := ⟨owned.checkpointStatistics, owned.globalStatistics⟩

/--
In every run in which no mask of a column that holds an additional statistic is updated on
its own, additional statistics are held by the roots of columns only, which built them: the
statistics of segments, of updates and of tables and what is written to disk have none.
-/
theorem pointers_owned (base : Environment) {statisticsSet : StatisticsSet}
    {operations : List StorageOperation} {storage : Storage}
    (reaches : Reaches (Storage.step base) MaskUpdatesFree (initial statisticsSet) operations
      storage) :
    (∀ column ∈ storage.columns, column.Owned) ∧
      (∀ stats ∈ storage.tableStats, stats.Free) ∧
      (∀ stats ∈ storage.dataPointerStats, stats.Free) ∧
      ∀ stats ∈ storage.persistentStats, stats.Free := by
  have holds := Holds.run (maskGuard_invariant base)
    (reaches.weaken fun _ _ free => MaskUpdatesFree.meets free)
  exact ⟨holds.columns, holds.tableStats, holds.dataPointerStats, holds.persistentStats⟩

/-- The insert leaves a statistic that a checkpoint does not write. -/
theorem pointers_owned_insertedRows :
    ∃ storage, Reaches (Storage.step (.uniform .minMax (by decide))) MaskUpdatesFree
        (initial (Environment.uniform .minMax (by decide)).statisticsSet)
        (insertedRows ++ [.checkpoint 0 [] []]) storage ∧
      (∃ column ∈ storage.columns, ¬column.statistics.Free) ∧
      ∀ stats ∈ storage.persistentStats, stats.Free := by
  obtain ⟨storage, reached, held⟩ : ∃ storage,
      Reaches (Storage.step (.uniform .minMax (by decide))) MaskUpdatesFree
        (initial (Environment.uniform .minMax (by decide)).statisticsSet)
        (insertedRows ++ [.checkpoint 0 [] []]) storage ∧
      storage.columns.any (fun column => column.statistics.additionalStats.isSome) = true := by
    refine ⟨_, .cons trivial rfl (.cons trivial rfl (.cons trivial rfl (.cons trivial rfl
      (.cons trivial rfl (.cons trivial rfl .start))))), ?_⟩
    decide +kernel
  refine ⟨storage, reached, ?_, (pointers_owned _ reached).2.2.2⟩
  obtain ⟨column, member, some⟩ := List.any_eq_true.mp held
  refine ⟨column, member, fun free => ?_⟩
  rw [free] at some
  cases some

/--
Then the mask of one row is updated on its own, as the log replays an update to NULL: the
table statistics adopt the pointer, and the checkpoint writes it to disk.
-/
theorem mask_update_serialized :
    ∃ storage, Reaches (Storage.step (.uniform .minMax (by decide))) (fun _ _ => True)
        (initial (Environment.uniform .minMax (by decide)).statisticsSet)
        (insertedRows ++ [.onCollection 0 (.updateColumn 0 0 .validity [(0, ⟨.integer 0, false⟩)]),
          .checkpoint 0 [] []]) storage ∧
      (∃ stats ∈ storage.tableStats, ¬stats.Free) ∧ ∃ stats ∈ storage.persistentStats, ¬stats.Free := by
  have held : ∀ {heap : List BaseStatistics},
      heap.any (fun stats => stats.additionalStats.isSome) = true → ∃ stats ∈ heap, ¬stats.Free := by
    intro heap any
    obtain ⟨stats, member, some⟩ := List.any_eq_true.mp any
    refine ⟨stats, member, fun free => ?_⟩
    rw [free] at some
    cases some
  refine ⟨_, .cons trivial rfl (.cons trivial rfl (.cons trivial rfl (.cons trivial rfl
    (.cons trivial rfl (.cons trivial rfl (.cons trivial rfl .start)))))), ?_, ?_⟩
  · exact held (by decide +kernel)
  · exact held (by decide +kernel)

end Storage

end StatsRecommender
