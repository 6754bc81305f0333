import StatsRecommender.Storage.ColumnOwnership

/-!
# What an additional statistic covers

A statistic was built from all values that the column stores.  No operation on a column but
`InitStats` and an update of the mask alone can break this.
-/

namespace StatsRecommender

variable {α : Type} {row startRow : Nat} {value : α} {column : ColumnSegments α}
  {result : ColumnData} {runtime : Runtime} {stats : AdditionalStats} {payload : Payload}
  {environment : Environment} {rows : List (Nat × VectorSlot)}

/-- An updated value is the old one or one of the updates. -/
theorem getElem?_applyUpdates {values : List α} {updates : List (Nat × α)}
    (found : (applyUpdates values updates)[row]? = some value) :
    values[row]? = some value ∨ (row, value) ∈ updates := by
  induction updates generalizing values with
  | nil => exact Or.inl found
  | cons update rest ih =>
      rcases ih found with old | later
      · rw [List.getElem?_set] at old
        split at old
        · rename_i here
          split at old
          · obtain ⟨position, new⟩ := update
            cases old
            cases here
            exact Or.inr List.mem_cons_self
          · cases old
        · exact Or.inl old
      · exact Or.inr (List.mem_cons_of_mem _ later)

/-- The pieces are the rows. -/
theorem flatten_splitRows (sizes : List Nat) (values : List α) :
    (splitRows sizes values).flatten = values := by
  induction sizes generalizing values with
  | nil =>
      cases values with
      | nil => rfl
      | cons value rest => exact List.append_nil _
  | cons size sizes ih =>
      rw [splitRows]
      split
      · rename_i none
        rw [ih]
      · rw [List.flatten_cons, ih, List.take_append_drop]

namespace ColumnSegments

theorem values_ofPointers (type : LogicalType) (start : Nat) (pointers : List (DataPointer α)) :
    (ofPointers type start pointers).values = pointers.flatMap DataPointer.values := by
  have segments : ∀ (pointers : List (DataPointer α)) (start : Nat),
      (persistentSegments start pointers).flatMap ColumnSegment.values =
        pointers.flatMap DataPointer.values := by
    intro pointers
    induction pointers with
    | nil => exact fun _ => rfl
    | cons pointer rest ih =>
        intro start
        rw [persistentSegments, List.flatMap_cons, List.flatMap_cons, ih]
  exact segments pointers start

/-- A revert leaves some of the first rows. -/
theorem values_revertAppend {result : ColumnSegments α}
    (reverted : column.revertAppend startRow = .ok result) : result.values <+: column.values := by
  obtain ⟨count, data, rfl, rfl | ⟨front, segment, back, split, rfl | rfl⟩⟩ :=
    revertAppend_cases reverted
  · exact List.prefix_refl _
  · rw [values, values, split, List.flatMap_append]
    exact List.prefix_append _ _
  · rw [values, values, split, List.flatMap_append, List.flatMap_append, List.flatMap_singleton,
      List.flatMap_cons, List.prefix_append_right_inj]
    exact (List.take_prefix _ _).trans (List.prefix_append _ _)

@[simp]
theorem type_initializeAppend (column : ColumnSegments α) :
    column.initializeAppend.type = column.type := by
  rw [initializeAppend]
  split
  · rfl
  · split <;> rfl

@[simp]
theorem type_appendData (column : ColumnSegments α) (function : SegmentFunction α)
    (writeTemp : Bool) (statistics : BaseStatistics) (tempVector : List Payload)
    (vector : List VectorSlot) :
    (column.appendData function writeTemp statistics tempVector vector).1.type = column.type := by
  rw [appendData]
  split <;> rfl

theorem type_revertAppend {result : ColumnSegments α}
    (reverted : column.revertAppend startRow = .ok result) : result.type = column.type := by
  obtain ⟨count, data, rfl, -⟩ := revertAppend_cases reverted
  rfl

/-- The loop of an append writes nothing but valid slots to the temp vector. -/
theorem mem_appendLoop_tempVector (function : SegmentFunction α) (type : LogicalType)
    (writeTemp : Bool) (vector : List VectorSlot) (fuel : Nat) (current : ColumnSegment α)
    (remaining : List VectorSlot) (progress : AppendProgress α) :
    ∀ payload ∈ (appendLoop function type writeTemp vector fuel current remaining
        progress).tempVector,
      payload ∈ progress.tempVector ∨ payload ∈ appendTemp remaining := by
  induction fuel generalizing current remaining progress with
  | zero => exact fun _ member => Or.inl member
  | succ fuel ih =>
      have written : ∀ payload ∈ (if writeTemp then progress.tempVector ++ appendTemp
            (remaining.take (function.appendCount current.values remaining))
          else progress.tempVector),
          payload ∈ progress.tempVector ∨ payload ∈ appendTemp remaining := by
        intro payload member
        split at member
        · rcases List.mem_append.mp member with old | new
          · exact Or.inl old
          · obtain ⟨slot, held, rfl⟩ := List.mem_map.mp new
            obtain ⟨taken, valid⟩ := List.mem_filter.mp held
            exact Or.inr (List.mem_map_of_mem
              (List.mem_filter.mpr ⟨List.mem_of_mem_take taken, valid⟩))
        · exact Or.inl member
      rw [appendLoop]
      dsimp only
      split
      · exact written
      · intro payload member
        rcases ih _ _ _ payload member with now | later
        · exact written payload now
        · obtain ⟨slot, held, rfl⟩ := List.mem_map.mp later
          obtain ⟨dropped, valid⟩ := List.mem_filter.mp held
          exact Or.inr (List.mem_map_of_mem
            (List.mem_filter.mpr ⟨List.mem_of_mem_drop dropped, valid⟩))

theorem mem_appendData_tempVector (column : ColumnSegments α) (function : SegmentFunction α)
    (writeTemp : Bool) (statistics : BaseStatistics) (tempVector : List Payload)
    (vector : List VectorSlot) :
    ∀ payload ∈ (column.appendData function writeTemp statistics tempVector vector).2.2,
      payload ∈ tempVector ∨ payload ∈ appendTemp vector := by
  rw [appendData]
  split
  · exact fun _ member => Or.inl member
  · exact mem_appendLoop_tempVector _ _ _ _ _ _ _ _

end ColumnSegments

namespace ColumnData

variable {column : ColumnData}

/-- The statistic was built, in a way that makes it sound, from all values the column stores. -/
def BuiltFromRows (runtime : Runtime) (column : ColumnData) (stats : AdditionalStats) : Prop :=
  ∃ kind data,
    StatisticsSet.constructType runtime column.type.internalType data kind = some stats ∧
    (∀ payload ∈ data, payload.hasType column.type.internalType = true) ∧
    HashableData kind data ∧ ∀ payload, column.Stores payload → payload ∈ data

/-- Such a statistic answers for the stored values. -/
theorem BuiltFromRows.sound (built : column.BuiltFromRows runtime stats) {values : List Payload}
    (stored : ∀ payload ∈ values, column.Stores payload) : stats.Sound runtime values := by
  obtain ⟨kind, data, construct, typed, hashable, covers⟩ := built
  have sound := StatisticsSet.constructType_sound runtime typed hashable construct
  exact sound.subset fun payload member => covers payload (stored payload member)

/-- A column of the same type that stores no more keeps its statistic. -/
theorem BuiltFromRows.of_stores (built : column.BuiltFromRows runtime stats)
    (type_eq : result.type = column.type)
    (stores : ∀ payload, result.Stores payload → column.Stores payload) :
    result.BuiltFromRows runtime stats := by
  obtain ⟨kind, data, construct, typed, hashable, covers⟩ := built
  rw [BuiltFromRows, type_eq]
  exact ⟨kind, data, construct, typed, hashable, fun payload stored =>
    covers payload (stores payload stored)⟩

/-- The statistic of the column covers its rows, and the temp vector has values of its type. -/
structure Covered (runtime : Runtime) (column : ColumnData) : Prop where
  owned : column.Owned
  typed : ∀ payload ∈ column.tempVector, payload.hasType column.type.internalType = true
  built : ∀ stats ∈ column.statistics.additionalStats, column.BuiltFromRows runtime stats

/-- All values that the column stores are in its temp vector. -/
def TempComplete (column : ColumnData) : Prop :=
  ∀ payload, column.Stores payload → payload ∈ column.tempVector

/-- The values of an appended vector have the type of the column. -/
def Accepts (column : ColumnData) (vector : List VectorSlot) : Prop :=
  ∀ slot ∈ vector, slot.valid = true → slot.data.hasType column.type.internalType = true

/-- Whatever `InitStats` builds is built from all values, and hashes no NaN. -/
def ReadyForStats (environment : Environment) (tableName : String) (index columnIndex : Nat)
    (column : ColumnData) : Prop :=
  column.type.internalType.hasTempVector = true → column.additionalStatsInvalidated = false →
    column.TempComplete ∧
      HashableData (environment.statisticsSet.lookup tableName index columnIndex) column.tempVector

/-- No row becomes valid while the column holds a statistic, unless it was valid before. -/
def MaskOnly (column : ColumnData) (rows : List (Nat × VectorSlot)) : Prop :=
  column.statistics.Free ∨ ∀ row ∈ rows, row.2.valid = true →
    column.validity.values[row.1]? = some true ∨ (row.1, true) ∈ column.validityUpdates

variable {runtime : Runtime}

theorem create_covered (start : Nat) (type : LogicalType) : (create start type).Covered runtime where
  owned := create_owned start type
  typed := fun _ member => by cases member
  built := fun _ member => by cases member

theorem Stores.of_setStart {newStart : Nat} (stored : (column.setStart newStart).Stores payload) :
    column.Stores payload := by
  obtain ⟨row, main, validity⟩ := stored
  rw [setStart] at main validity
  dsimp only at main validity
  rw [ColumnSegments.values_setStart] at main validity
  exact ⟨row, main, validity⟩

theorem Covered.setStart (covered : column.Covered runtime) (newStart : Nat) :
    (column.setStart newStart).Covered runtime where
  owned := covered.owned.setStart newStart
  typed := covered.typed
  built stats held := (covered.built stats held).of_stores rfl fun _ => Stores.of_setStart

theorem Stores.of_initializeAppend (stored : column.initializeAppend.Stores payload) :
    column.Stores payload := by
  obtain ⟨row, main, validity⟩ := stored
  rw [ColumnData.initializeAppend] at main validity
  dsimp only at main validity
  rw [ColumnSegments.values_initializeAppend] at main validity
  exact ⟨row, main, validity⟩

theorem type_initializeAppend (column : ColumnData) :
    column.initializeAppend.type = column.type :=
  ColumnSegments.type_initializeAppend _

theorem Covered.initializeAppend (covered : column.Covered runtime) :
    column.initializeAppend.Covered runtime where
  owned := covered.owned.initializeAppend
  typed := by
    rw [type_initializeAppend]
    exact covered.typed
  built stats held := (covered.built stats held).of_stores (type_initializeAppend _)
    fun _ => Stores.of_initializeAppend

theorem type_append (column : ColumnData) (compression : Compression) (vector : List VectorSlot) :
    (column.append compression vector).type = column.type :=
  ColumnSegments.type_appendData _ _ _ _ _ _

/-- An append forgets the statistic. -/
theorem Covered.append (covered : column.Covered runtime) (compression : Compression)
    {vector : List VectorSlot} (accepts : column.Accepts vector) :
    (column.append compression vector).Covered runtime where
  owned := covered.owned.append compression vector
  typed := by
    rw [type_append]
    intro payload member
    rcases ColumnSegments.mem_appendData_tempVector _ _ _ _ _ _ payload member with old | new
    · exact covered.typed payload old
    · obtain ⟨slot, held, rfl⟩ := List.mem_map.mp new
      obtain ⟨inside, valid⟩ := List.mem_filter.mp held
      exact accepts slot inside valid
  built := by
    rw [covered.owned.append_free compression vector]
    exact fun _ held => by cases held

/-- `InitStats` builds the statistic from the temp vector. -/
theorem Covered.initStats (covered : column.Covered runtime) (environment : Environment)
    (same : environment.runtime = runtime) {tableName : String} {index columnIndex : Nat}
    (ready : column.ReadyForStats environment tableName index columnIndex) :
    (column.initStats environment tableName index columnIndex).Covered runtime := by
  subst same
  have owned := covered.owned.initStats environment tableName index columnIndex
  rw [ColumnData.initStats] at owned ⊢
  split
  · rename_i temp
    rw [if_pos temp] at owned
    split
    · rename_i invalidated
      rw [if_pos invalidated] at owned
      exact ⟨owned, fun _ member => (by cases member), covered.built⟩
    · rename_i valid
      rw [if_neg valid] at owned
      obtain ⟨complete, hashable⟩ := ready temp (Bool.eq_false_iff.mpr valid)
      refine ⟨owned, fun _ member => (by cases member), fun stats held => ?_⟩
      exact ⟨_, column.tempVector, held, covered.typed, hashable, complete⟩
  · exact covered

theorem getElem?_of_prefix {front all : List α} (initial : front <+: all)
    (found : front[row]? = some value) : all[row]? = some value := by
  obtain ⟨behind, rfl⟩ := initial
  rw [List.getElem?_append_left (List.getElem?_eq_some_iff.mp found).1]
  exact found

theorem Covered.revertAppend (covered : column.Covered runtime)
    (reverted : column.revertAppend startRow = .ok result) : result.Covered runtime := by
  have owned := covered.owned.revertAppend reverted
  obtain ⟨main, validity, hmain, hvalidity, rfl⟩ := revertAppend_parts reverted
  have type_eq : ({ column with main, validity } : ColumnData).type = column.type :=
    ColumnSegments.type_revertAppend hmain
  refine ⟨owned, ?_, fun stats held => (covered.built stats held).of_stores type_eq ?_⟩
  · rw [type_eq]
    exact covered.typed
  · rintro payload ⟨row, data, valid⟩
    refine ⟨row, data.imp_left ?_, valid.imp_left ?_⟩
    · exact getElem?_of_prefix (ColumnSegments.values_revertAppend hmain)
    · exact getElem?_of_prefix (ColumnSegments.values_revertAppend hvalidity)

theorem mergeUpdateStatistics_parts (column : ColumnData) :
    ∃ statistics, column.mergeUpdateStatistics = { column with statistics } := by
  rw [mergeUpdateStatistics]
  split
  · exact ⟨column.statistics, rfl⟩
  · exact ⟨_, rfl⟩

theorem Covered.update (covered : column.Covered runtime) (environment : Environment)
    (rows : List (Nat × VectorSlot)) : (column.update environment rows).Covered runtime := by
  refine ⟨covered.owned.update environment rows, ?_, ?_⟩
  · rw [ColumnData.update]
    obtain ⟨statistics, merged⟩ := mergeUpdateStatistics_parts
      ((column.updateInternal environment rows).updateValidity environment rows)
    rw [merged]
    exact covered.typed
  · rw [covered.owned.update_free environment rows]
    exact fun _ held => by cases held

/-- An update of the mask that makes no row valid exposes no value. -/
theorem Stores.of_updateValidity (stored : (column.updateValidity environment rows).Stores payload)
    (known : ∀ row ∈ rows, row.2.valid = true →
      column.validity.values[row.1]? = some true ∨ (row.1, true) ∈ column.validityUpdates) :
    column.Stores payload := by
  obtain ⟨row, main, held | updated⟩ := stored
  · exact ⟨row, main, Or.inl held⟩
  · rcases List.mem_append.mp updated with old | new
    · exact ⟨row, main, Or.inr old⟩
    · obtain ⟨entry, member, same⟩ := List.mem_map.mp new
      obtain ⟨rfl, valid⟩ := Prod.mk.inj same
      exact ⟨entry.1, main, known entry member valid⟩

theorem Covered.updateColumn (covered : column.Covered runtime) (environment : Environment)
    {path : ColumnPath} (allowed : path = .validity → column.MaskOnly rows) :
    (column.updateColumn environment path rows).Covered runtime := by
  have owned := covered.owned.updateColumn environment path rows
  have additional := covered.owned.updateColumn_additional environment path rows
  cases path with
  | main =>
      refine ⟨owned, ?_, ?_⟩
      · obtain ⟨statistics, merged⟩ := mergeUpdateStatistics_parts
          (column.updateInternal environment rows)
        rw [ColumnData.updateColumn, merged]
        exact covered.typed
      · rw [additional, if_pos rfl]
        exact fun _ held => by cases held
  | validity =>
      obtain ⟨statistics, merged⟩ := mergeUpdateStatistics_parts
        (column.updateValidity environment rows)
      rw [if_neg (by decide)] at additional
      refine ⟨owned, ?_, ?_⟩
      · rw [ColumnData.updateColumn, merged]
        exact covered.typed
      · rw [additional]
        intro stats held
        rcases allowed rfl with free | known
        · rw [free] at held
          cases held
        · refine (covered.built stats held).of_stores ?_ ?_
          · rw [ColumnData.updateColumn, merged]
            rfl
          · rw [ColumnData.updateColumn, merged]
            intro payload stored
            have masked : (column.updateValidity environment rows).Stores payload := stored
            exact masked.of_updateValidity known

theorem load_covered (start : Nat) (type : LogicalType) {main : List (DataPointer Payload)}
    {validity : List (DataPointer Bool)} (mainFree : ∀ pointer ∈ main, pointer.statistics.Free)
    (validityFree : ∀ pointer ∈ validity, pointer.statistics.Free) :
    (load start type main validity).Covered runtime := by
  obtain ⟨owned, free⟩ := load_owned start type mainFree validityFree
  refine ⟨owned, fun _ member => (by cases member), ?_⟩
  rw [free]
  exact fun _ held => by cases held

/-- A checkpoint writes one version of each row. -/
theorem Stores.of_checkpoint {sizes validitySizes : List Nat}
    (stored : (column.checkpoint environment sizes validitySizes).Stores payload) :
    column.Stores payload := by
  have rewritten : ∀ {β : Type} (type : LogicalType) (start : Nat) (sizes : List Nat)
      (values : List β) (statistics : List β → BaseStatistics),
      (ColumnSegments.ofPointers type start ((splitRows sizes values).map fun piece =>
        ⟨piece, statistics piece⟩)).values = values := by
    intro β type start sizes values statistics
    rw [ColumnSegments.values_ofPointers, List.flatMap_map]
    exact List.flatMap_id.trans (flatten_splitRows sizes values)
  obtain ⟨row, main | impossible, validity | impossible'⟩ := stored
  · refine ⟨row, ?_, ?_⟩
    · rw [checkpoint] at main
      dsimp only at main
      split at main
      · rw [rewritten] at main
        exact getElem?_applyUpdates main
      · exact Or.inl main
    · rw [checkpoint] at validity
      dsimp only at validity
      split at validity
      · rw [rewritten] at validity
        exact getElem?_applyUpdates validity
      · exact Or.inl validity
  all_goals contradiction

theorem type_checkpoint (column : ColumnData) (environment : Environment)
    (sizes validitySizes : List Nat) :
    (column.checkpoint environment sizes validitySizes).type = column.type := by
  rw [type, type, checkpoint]
  dsimp only
  split <;> rfl

theorem Covered.checkpoint (covered : column.Covered runtime) (environment : Environment)
    (sizes validitySizes : List Nat) :
    (column.checkpoint environment sizes validitySizes).Covered runtime where
  owned := covered.owned.checkpoint environment sizes validitySizes
  typed := by
    rw [type_checkpoint]
    exact covered.typed
  built stats held := (covered.built stats held).of_stores (type_checkpoint _ _ _ _)
    fun _ => Stores.of_checkpoint

/-! ## Columns that still have all their values -/

/-- A column since its creation: nothing was updated, and no statistic was built. -/
structure Fresh (column : ColumnData) : Prop where
  wellFormed : column.WellFormed
  hasTempVector : column.type.internalType.hasTempVector = true
  tempVector_eq : column.tempVector = nonNull column.values
  updates_eq : column.updates = []
  validityUpdates_eq : column.validityUpdates = []

theorem create_fresh (start : Nat) {type : LogicalType}
    (hasTempVector : type.internalType.hasTempVector = true) : (create start type).Fresh where
  wellFormed := create_wellFormed start type
  hasTempVector := hasTempVector
  tempVector_eq := rfl
  updates_eq := rfl
  validityUpdates_eq := rfl

theorem Fresh.initializeAppend (fresh : column.Fresh) : column.initializeAppend.Fresh where
  wellFormed := initializeAppend_wellFormed fresh.wellFormed
  hasTempVector := by
    rw [type_initializeAppend]
    exact fresh.hasTempVector
  tempVector_eq := by
    rw [values_initializeAppend]
    exact fresh.tempVector_eq
  updates_eq := fresh.updates_eq
  validityUpdates_eq := fresh.validityUpdates_eq

/-- The values of a vector are what the temp vector is given. -/
theorem appendTemp_eq_nonNull (vector : List VectorSlot) :
    ColumnSegments.appendTemp vector = nonNull (vector.map VectorSlot.value) := by
  induction vector with
  | nil => rfl
  | cons slot rest ih =>
      rw [ColumnSegments.appendTemp, nonNull] at ih ⊢
      cases valid : slot.valid <;> simp [VectorSlot.value, valid, ih]

/-- An append writes the values behind the temp vector, if the column has one. -/
theorem tempVector_append (compression : Compression) (wellFormed : column.WellFormed)
    (initialized : column.Initialized) (hasTempVector : column.type.internalType.hasTempVector = true)
    (vector : List VectorSlot) :
    (column.append compression vector).tempVector =
      column.tempVector ++ nonNull (vector.map VectorSlot.value) := by
  obtain ⟨-, -, -, temp⟩ := ColumnSegments.appendData_spec
    (compression.main column.type.internalType) column.type.internalType.hasTempVector
    (dropAdditionalStats column.statistics) column.tempVector vector wellFormed.main
    initialized.main
  rw [if_pos hasTempVector, appendTemp_eq_nonNull] at temp
  exact temp

theorem Fresh.append (fresh : column.Fresh) (compression : Compression)
    (initialized : column.Initialized) (vector : List VectorSlot) :
    (column.append compression vector).Fresh := by
  have appended := append_spec compression fresh.wellFormed initialized vector
  refine ⟨appended.wellFormed, ?_, ?_, fresh.updates_eq, fresh.validityUpdates_eq⟩
  · rw [type_append]
    exact fresh.hasTempVector
  · rw [tempVector_append compression fresh.wellFormed initialized fresh.hasTempVector,
      appended.values_eq, nonNull_append, fresh.tempVector_eq]

/-- The temp vector of such a column holds all that the column stores. -/
theorem Fresh.tempComplete (fresh : column.Fresh) : column.TempComplete := by
  rintro payload ⟨row, main | impossible, validity | impossible'⟩
  · rw [fresh.tempVector_eq, mem_nonNull]
    apply List.mem_of_getElem?
    rw [values, List.getElem?_zipWith, main, validity]
    rfl
  · rw [fresh.validityUpdates_eq] at impossible'
    cases impossible'
  all_goals
    rw [fresh.updates_eq] at impossible
    cases impossible

end ColumnData

end StatsRecommender
