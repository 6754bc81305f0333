import StatsRecommender.Storage.SystemInvariant
import StatsRecommender.Storage.ColumnCoverage

/-!
# Statistics over the runs of the storage

In every run in which `InitStats` finds the temp vectors complete, an additional statistic
that is in place answers for all values that its column stores.
-/

namespace StatsRecommender

namespace Storage

/--
Appended values have the type of their column, `InitStats` finds all values that a column
stores in its temp vector, and no update of a mask alone uncovers a value.
-/
def coverageGuard : StorageGuard where
  append column vector := column.Accepts vector
  initStats environment tableName index columnIndex column :=
    column.ReadyForStats environment tableName index columnIndex
  updateColumn path column rows := path = .validity → column.MaskOnly rows

theorem coverageGuard_invariant (base : Environment) :
    StorageInvariant coverageGuard base (ColumnData.Covered base.runtime) (fun _ => True)
      BaseStatistics.Free where
  create := ColumnData.create_covered
  createEmpty _ := ⟨trivial, rfl⟩
  merge _ _ _ _ := trivial
  pointer _ _ := trivial
  setStart _ start covered := covered.setStart start
  initializeAppend _ covered := covered.initializeAppend
  append _ _ covered accepts := ⟨covered.append _ accepts, trivial⟩
  initStats statisticsSet _ _ _ _ covered ready :=
    covered.initStats { base with statisticsSet } rfl ready
  revertAppend _ _ _ covered reverted := covered.revertAppend reverted
  update _ rows covered := ⟨covered.update base rows, trivial⟩
  updateColumn _ _ _ covered allowed := ⟨covered.updateColumn base allowed, trivial⟩
  load start type _ _ mainFree validityFree :=
    ⟨ColumnData.load_covered start type mainFree validityFree, trivial⟩
  checkpoint _ sizes validitySizes covered := covered.checkpoint base sizes validitySizes
  checkpointStatistics _ covered := ⟨covered.owned.checkpointStatistics, trivial⟩

/--
In every guarded run, the statistic of every column excludes a comparison or a range only if
no stored value is in it, and was built from all values that the column stores.
-/
theorem statistics_cover_rows (base : Environment) {statisticsSet : StatisticsSet}
    {operations : List StorageOperation} {storage : Storage}
    (reaches : Reaches (Storage.step base) (Storage.Meets coverageGuard base)
      (initial statisticsSet) operations storage)
    {column : ColumnData} (member : column ∈ storage.columns) {stats : AdditionalStats}
    (held : column.statistics.additionalStats = some stats) :
    (∀ comparison constant,
      stats.query base.runtime comparison constant = .filterAlwaysFalse →
        ∀ payload, column.Stores payload → comparison.holds payload constant = false) ∧
    (∀ start finish, stats.queryRange start finish = .filterAlwaysFalse →
      ∀ payload, column.Stores payload →
        (greaterThanEquals payload start && lessThanEquals payload finish) = false) ∧
    ∃ kind data,
      StatisticsSet.constructType base.runtime column.type.internalType data kind = some stats ∧
        ∀ payload, column.Stores payload → payload ∈ data := by
  have covered := (Holds.run (coverageGuard_invariant base) reaches).columns column member
  have built := covered.built stats held
  have sound : ∀ payload, column.Stores payload → stats.Sound base.runtime [payload] := by
    intro payload stored
    apply built.sound
    intro other same
    rw [List.mem_singleton.mp same]
    exact stored
  refine ⟨?_, ?_, ?_⟩
  · intro comparison constant excluded payload stored
    exact (sound payload stored).query comparison constant excluded payload
      (List.mem_singleton_self _)
  · intro start finish excluded payload stored
    exact (sound payload stored).queryRange start finish excluded payload
      (List.mem_singleton_self _)
  · obtain ⟨kind, data, construct, -, -, covers⟩ := built
    exact ⟨kind, data, construct, covers⟩

/-- `InitStats` may be called as long as no column was changed but by appends. -/
theorem meets_initStats_of_fresh {base : Environment} {storage : Storage}
    (fresh : ∀ column ∈ storage.columns, column.Fresh)
    (hashable : ∀ tableName rowGroup column data,
      HashableData (storage.statisticsSet.lookup tableName rowGroup column) data)
    (index rowGroup : Nat) :
    storage.Meets coverageGuard base (.onCollection index (.initStats rowGroup)) := by
  intro entry _ current found column
  obtain ⟨original, -, rfl⟩ := List.mem_map.mp (List.mem_of_getElem? found)
  intro _ _
  refine ⟨?_, hashable _ _ _ _⟩
  exact (getD_mem fresh (ColumnData.create_fresh 0 rfl) (original.columns column)).tempComplete

/-- The statistic of two inserted rows. -/
theorem statistics_cover_rows_inserted :
    ∃ storage, Reaches (Storage.step (.uniform .minMax (by decide)))
        (Storage.Meets coverageGuard (.uniform .minMax (by decide)))
        (initial (Environment.uniform .minMax (by decide)).statisticsSet) insertedRows storage ∧
      ∃ column ∈ storage.columns, ∃ stats, column.statistics.additionalStats = some stats ∧
        ∃ kind data, StatisticsSet.constructType (Environment.uniform .minMax (by decide)).runtime
            column.type.internalType data kind = some stats ∧
          ∀ payload, column.Stores payload → payload ∈ data := by
  obtain ⟨storage, reached, held⟩ : ∃ storage,
      Reaches (Storage.step (.uniform .minMax (by decide)))
        (Storage.Meets coverageGuard (.uniform .minMax (by decide)))
        (initial (Environment.uniform .minMax (by decide)).statisticsSet) insertedRows storage ∧
      storage.columns.any (fun column => column.statistics.additionalStats.isSome) = true := by
    refine ⟨_, .cons trivial rfl (.cons ?_ rfl (.cons ?_ rfl (.cons ?_ rfl
      (.cons ?_ rfl .start)))), ?_⟩
    · exact fun _ _ => trivial
    · intro entry found
      cases found
      intro state started same
      cases started
      obtain rfl : same = rfl := rfl
      refine ⟨fun _ current found column => ?_, fun more => absurd more (by decide)⟩
      cases found
      intro slot member _
      cases List.eq_of_mem_replicate (List.mem_of_mem_take member)
      obtain rfl : column = (0 : Fin 1) := Subsingleton.elim _ _
      exact (by decide : (Payload.integer 7).hasType .int32 = true)
    · exact fun _ _ => trivial
    · apply meets_initStats_of_fresh
      · intro column member
        cases List.mem_singleton.mp member
        exact (ColumnData.create_fresh 0 rfl).initializeAppend.append _
          (ColumnData.initializeAppend_initialized _) _
      · rintro _ _ _ _ ⟨N, M, K, bloom⟩
        cases bloom
    · decide +kernel
  obtain ⟨column, member, some⟩ := List.any_eq_true.mp held
  obtain ⟨stats, held⟩ := Option.isSome_iff_exists.mp some
  exact ⟨storage, reached, column, member, stats, held,
    (statistics_cover_rows _ reached member held).2.2⟩

/-- A full row group gets its statistic; another row is appended behind it. -/
def rowBehindFullRowGroup : List StorageOperation :=
  [.create 1 2048 standardVectorSize_pos "t" (fun _ => .integer) 0, .onCollection 0 .initializeAppend,
    .onCollection 0 (.append ⟨1, .replicate 1 2048 ⟨.integer 7, true⟩⟩),
    .onCollection 0 .finalizeAppend, .onCollection 0 (.initStats 0),
    .onCollection 0 .initializeAppend,
    .onCollection 0 (.append ⟨1, .replicate 1 1 ⟨.integer 7, true⟩⟩)]

/--
The append finds the row group full, and `InitStats` builds its statistic anew, from a temp
vector that is empty by now: the statistic excludes a stored value.
-/
theorem statistic_rebuilt_from_nothing :
    ∃ storage, Reaches (Storage.step (.uniform .dictionary (by decide))) (fun _ _ => True)
        (initial (Environment.uniform .dictionary (by decide)).statisticsSet)
        rowBehindFullRowGroup storage ∧
      ∃ column ∈ storage.columns, ∃ stats, column.statistics.additionalStats = some stats ∧
        column.Stores (.integer 7) ∧
        stats.query (Environment.uniform .dictionary (by decide)).runtime .compareEqual (.integer 7) =
          .filterAlwaysFalse := by
  have ran : (rowBehindFullRowGroup.foldlM (Storage.step (.uniform .dictionary (by decide)))
      (initial (Environment.uniform .dictionary (by decide)).statisticsSet)).toOption.any
        (fun storage => storage.columns.any fun column =>
          decide (column.main.values[0]? = some (.integer 7)) &&
            decide (column.validity.values[0]? = some true) &&
            column.statistics.additionalStats.any fun stats =>
              decide (stats.query (Environment.uniform .dictionary (by decide)).runtime .compareEqual
                (.integer 7) = .filterAlwaysFalse)) = true := by
    decide +kernel
  obtain ⟨storage, reached, excluded⟩ := Reaches.exists_of_foldlM ran
  obtain ⟨column, member, both⟩ := List.any_eq_true.mp excluded
  rw [Bool.and_eq_true, Bool.and_eq_true, decide_eq_true_eq, decide_eq_true_eq] at both
  obtain ⟨⟨main, validity⟩, queried⟩ := both
  obtain ⟨stats, held, answer⟩ := (Option.any_eq_true _ _).mp queried
  exact ⟨storage, reached, column, member, stats, held, ⟨0, Or.inl main, Or.inl validity⟩,
    of_decide_eq_true answer⟩

end Storage

end StatsRecommender
