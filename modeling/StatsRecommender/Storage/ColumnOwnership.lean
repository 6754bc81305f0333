import StatsRecommender.Storage.ColumnChanges

/-!
# Who holds an additional statistic

Of the statistics a column keeps, only those at its root point to an additional statistic,
and only to one that was constructed for it.  Every operation on a column keeps this.
-/

namespace StatsRecommender

variable {α : Type} {stats other : BaseStatistics} {column : ColumnSegments α} {startRow : Nat}

namespace BaseStatistics

/-- The statistics point to no additional statistic. -/
def Free (stats : BaseStatistics) : Prop := stats.additionalStats = none

theorem free_createEmpty (type : LogicalType) : (createEmpty type).Free := rfl

theorem Free.merge (free : stats.Free) (otherFree : other.Free) : (stats.merge other).Free := by
  rw [Free, merge_additionalStats, free, otherFree]
  rfl

/-- Merging statistics without a pointer keeps the pointer there is. -/
theorem merge_free (otherFree : other.Free) :
    (stats.merge other).additionalStats = stats.additionalStats := by
  rw [merge_additionalStats, otherFree, Option.or_none]

theorem free_foldl_merge (others : List BaseStatistics) (free : stats.Free)
    (othersFree : ∀ other ∈ others, other.Free) : (others.foldl merge stats).Free := by
  induction others generalizing stats with
  | nil => exact free
  | cons other rest ih =>
      exact ih (free.merge (othersFree other List.mem_cons_self))
        fun next member => othersFree next (List.mem_cons_of_mem _ member)

end BaseStatistics

theorem StatisticsObserver.free (observer : StatisticsObserver) (values : List (Option Payload))
    (free : stats.Free) : (observer.observe values stats).Free :=
  (observer.observe_additional values stats).trans free

namespace ColumnSegments

/-- No segment points to an additional statistic. -/
def Free (column : ColumnSegments α) : Prop :=
  ∀ segment ∈ column.data, segment.statistics.Free

theorem Free.concat (free : column.Free) {segment : ColumnSegment α}
    (segmentFree : segment.statistics.Free) :
    ∀ held ∈ column.data ++ [segment], held.statistics.Free := by
  intro held member
  rcases List.mem_append.mp member with old | new
  · exact free held old
  · rw [List.mem_singleton.mp new]
    exact segmentFree

theorem Free.initializeAppend (free : column.Free) : column.initializeAppend.Free := by
  rw [ColumnSegments.initializeAppend]
  split
  · intro held member
    rw [List.mem_singleton.mp member]
    exact BaseStatistics.free_createEmpty _
  · split
    · exact free.concat (BaseStatistics.free_createEmpty _)
    · exact free

/-- The loop of an append creates no pointer. -/
theorem appendLoop_free (function : SegmentFunction α) (type : LogicalType) (writeTemp : Bool)
    (vector : List VectorSlot) (fuel : Nat) (current : ColumnSegment α)
    (remaining : List VectorSlot) (progress : AppendProgress α)
    (dataFree : ∀ held ∈ progress.data, held.statistics.Free)
    (currentFree : current.statistics.Free) (statisticsFree : progress.statistics.Free) :
    let result := appendLoop function type writeTemp vector fuel current remaining progress
    (∀ held ∈ result.data, held.statistics.Free) ∧ result.statistics.Free := by
  induction fuel generalizing current remaining progress with
  | zero =>
      refine ⟨?_, statisticsFree⟩
      intro held member
      rcases List.mem_append.mp member with old | new
      · exact dataFree held old
      · rw [List.mem_singleton.mp new]
        exact currentFree
  | succ fuel ih =>
      have filledFree : (function.observe vector
          (remaining.take (function.appendCount current.values remaining))
          current.statistics).Free :=
        (function.observe_additional _ _ _).trans currentFree
      have writtenFree : ∀ held ∈ progress.data ++ [{ current with
            values := current.values ++ (remaining.take
              (function.appendCount current.values remaining)).map function.store
            statistics := function.observe vector
              (remaining.take (function.appendCount current.values remaining))
              current.statistics }], held.statistics.Free := by
        intro held member
        rcases List.mem_append.mp member with old | new
        · exact dataFree held old
        · rw [List.mem_singleton.mp new]
          exact filledFree
      rw [appendLoop]
      dsimp only
      split
      · exact ⟨writtenFree, statisticsFree.merge filledFree⟩
      · exact ih _ _ _ writtenFree (BaseStatistics.free_createEmpty _)
          (statisticsFree.merge filledFree)

theorem Free.appendData (free : column.Free) (function : SegmentFunction α) (writeTemp : Bool)
    {statistics : BaseStatistics} (statisticsFree : statistics.Free) (tempVector : List Payload)
    (vector : List VectorSlot) :
    (column.appendData function writeTemp statistics tempVector vector).1.Free ∧
      (column.appendData function writeTemp statistics tempVector vector).2.1.Free := by
  rw [ColumnSegments.appendData]
  split
  · exact ⟨free, statisticsFree⟩
  · rename_i current hcurrent
    exact appendLoop_free _ _ _ _ _ _ _ _
      (fun held member => free held (List.dropLast_subset _ member))
      (free current (List.mem_of_getLast? hcurrent)) statisticsFree

theorem Free.revertAppend {result : ColumnSegments α} (free : column.Free)
    (reverted : column.revertAppend startRow = .ok result) : result.Free := by
  obtain ⟨count, data, rfl, rfl | ⟨front, segment, back, split, rfl | rfl⟩⟩ :=
    revertAppend_cases reverted
  · exact free
  · exact fun held member => free held (split ▸ List.mem_append_left _ member)
  · intro held member
    rcases List.mem_append.mp member with old | new
    · exact free held (split ▸ List.mem_append_left _ old)
    · rw [List.mem_singleton.mp new]
      exact free segment (split ▸ List.mem_append_right _ List.mem_cons_self)

/-- Only the start of a segment changes when a column is moved. -/
theorem setStart_data (column : ColumnSegments α) (newStart : Nat) :
    (column.setStart newStart).data.map (fun segment => { segment with start := 0 }) =
      column.data.map fun segment => { segment with start := 0 } := by
  have placed : ∀ (data placed : List (ColumnSegment α)) (offset : Nat),
      (data.foldl (fun (placed : List (ColumnSegment α) × Nat) segment =>
          (placed.1 ++ [{ segment with start := newStart + placed.2 }],
            placed.2 + segment.count)) (placed, offset)).1.map
        (fun segment => { segment with start := 0 }) =
      (placed ++ data).map fun segment => { segment with start := 0 } := by
    intro data
    induction data with
    | nil =>
        intro placed offset
        rw [List.append_nil]
        rfl
    | cons segment rest ih =>
        intro placed offset
        rw [List.foldl_cons, ih]
        simp
  exact placed column.data [] 0

@[simp]
theorem values_setStart (column : ColumnSegments α) (newStart : Nat) :
    (column.setStart newStart).values = column.values := by
  have each := congrArg (List.flatMap ColumnSegment.values) (column.setStart_data newStart)
  rw [List.flatMap_map, List.flatMap_map] at each
  exact each

theorem Free.setStart (free : column.Free) (newStart : Nat) : (column.setStart newStart).Free := by
  intro held member
  have image := List.mem_map_of_mem (f := fun segment => { segment with start := 0 }) member
  rw [setStart_data] at image
  obtain ⟨original, horiginal, same⟩ := List.mem_map.mp image
  have statistics := congrArg ColumnSegment.statistics same
  dsimp only at statistics
  rw [← statistics]
  exact free original horiginal

theorem free_ofPointers (type : LogicalType) (start : Nat) {pointers : List (DataPointer α)}
    (free : ∀ pointer ∈ pointers, pointer.statistics.Free) : (ofPointers type start pointers).Free := by
  have segments : ∀ (pointers : List (DataPointer α)) (start : Nat),
      (∀ pointer ∈ pointers, pointer.statistics.Free) →
        ∀ held ∈ persistentSegments start pointers, held.statistics.Free := by
    intro pointers
    induction pointers with
    | nil =>
        intro start _ held member
        cases member
    | cons pointer rest ih =>
        intro start free held member
        rcases List.mem_cons.mp member with rfl | later
        · exact free pointer List.mem_cons_self
        · exact ih _ (fun other member => free other (List.mem_cons_of_mem _ member)) held later
  exact segments pointers start free

end ColumnSegments

namespace ColumnData

/-- The statistics was built by `InitStats`, from some data. -/
def Constructed (stats : AdditionalStats) : Prop :=
  ∃ runtime type data kind, StatisticsSet.constructType runtime type data kind = some stats

/-- Only the root of the column points to an additional statistic, which was built for it. -/
structure Owned (column : ColumnData) : Prop where
  main : column.main.Free
  validity : column.validity.Free
  updates : ∀ stats ∈ column.updateStatistics, stats.Free
  validityUpdates : ∀ stats ∈ column.validityUpdateStatistics, stats.Free
  root : ∀ stats ∈ column.statistics.additionalStats, Constructed stats

theorem create_owned (start : Nat) (type : LogicalType) : (create start type).Owned where
  main := fun _ member => by cases member
  validity := fun _ member => by cases member
  updates := fun _ member => by cases member
  validityUpdates := fun _ member => by cases member
  root := fun _ member => by cases member

variable {column : ColumnData}

theorem Owned.setStart (owned : column.Owned) (newStart : Nat) : (column.setStart newStart).Owned :=
  { owned with
    main := owned.main.setStart newStart
    validity := owned.validity.setStart newStart }

theorem Owned.initializeAppend (owned : column.Owned) : column.initializeAppend.Owned :=
  { owned with
    main := owned.main.initializeAppend
    validity := owned.validity.initializeAppend }

theorem free_dropAdditionalStats (statistics : BaseStatistics) :
    (dropAdditionalStats statistics).Free := rfl

section

variable (owned : column.Owned)
include owned

/-- After an append the root has forgotten the additional statistic. -/
theorem Owned.append_free (compression : Compression) (vector : List VectorSlot) :
    (column.append compression vector).statistics.Free :=
  (owned.validity.appendData _ _
    (owned.main.appendData _ _ (free_dropAdditionalStats column.statistics) _ _).2 _ _).2

theorem Owned.append (compression : Compression) (vector : List VectorSlot) :
    (column.append compression vector).Owned where
  main := (owned.main.appendData _ _ (free_dropAdditionalStats column.statistics) _ _).1
  validity := (owned.validity.appendData _ _
    (owned.main.appendData _ _ (free_dropAdditionalStats column.statistics) _ _).2 _ _).1
  updates := owned.updates
  validityUpdates := owned.validityUpdates
  root := by
    rw [owned.append_free compression vector]
    exact fun _ member => by cases member

theorem Owned.initStats (environment : Environment) (tableName : String) (index columnIndex : Nat) :
    (column.initStats environment tableName index columnIndex).Owned := by
  rw [ColumnData.initStats]
  split
  · split
    · exact { owned with }
    · exact { owned with root := fun stats built => ⟨_, _, _, _, built⟩ }
  · exact owned

theorem Owned.revertAppend {result : ColumnData}
    (reverted : column.revertAppend startRow = .ok result) : result.Owned := by
  obtain ⟨main, validity, hmain, hvalidity, rfl⟩ := revertAppend_parts reverted
  exact { owned with
    main := owned.main.revertAppend hmain
    validity := owned.validity.revertAppend hvalidity }

theorem Owned.updateInternal (environment : Environment) (rows : List (Nat × VectorSlot)) :
    (column.updateInternal environment rows).Owned :=
  { owned with
    updates := by
      intro stats member
      cases member
      apply environment.onUpdate.free
      cases hupdates : column.updateStatistics with
      | none => exact BaseStatistics.free_createEmpty _
      | some stats => exact owned.updates stats hupdates
    root := fun _ member => by cases member }

theorem Owned.updateValidity (environment : Environment) (rows : List (Nat × VectorSlot)) :
    (column.updateValidity environment rows).Owned :=
  { owned with
    validityUpdates := by
      intro stats member
      cases member
      apply environment.onUpdate.free
      cases hupdates : column.validityUpdateStatistics with
      | none => exact BaseStatistics.free_createEmpty _
      | some stats => exact owned.validityUpdates stats hupdates }

/-- The statistics of the updates have no pointer either. -/
theorem Owned.getUpdateStatistics : ∀ stats ∈ column.getUpdateStatistics, stats.Free := by
  intro stats member
  rw [ColumnData.getUpdateStatistics] at member
  split at member
  · cases member
  · rename_i updates hupdates _
    cases member
    exact owned.updates _ hupdates
  · rename_i updates validity hupdates hvalidity
    cases member
    exact (owned.updates _ hupdates).merge (owned.validityUpdates _ hvalidity)
  · rename_i validity _ hvalidity
    cases member
    exact (BaseStatistics.free_createEmpty _).merge (owned.validityUpdates _ hvalidity)

/-- Merging them leaves the pointer of the root alone. -/
theorem Owned.mergeUpdateStatistics_additional :
    column.mergeUpdateStatistics.statistics.additionalStats = column.statistics.additionalStats := by
  rw [ColumnData.mergeUpdateStatistics]
  split
  · rfl
  · rename_i stats hstats
    exact BaseStatistics.merge_free (owned.getUpdateStatistics stats hstats)

theorem Owned.mergeUpdateStatistics : column.mergeUpdateStatistics.Owned := by
  have additional := owned.mergeUpdateStatistics_additional
  rw [ColumnData.mergeUpdateStatistics] at additional ⊢
  split at additional
  · exact owned
  · exact { owned with
      root := by
        rw [additional]
        exact owned.root }

theorem Owned.update (environment : Environment) (rows : List (Nat × VectorSlot)) :
    (column.update environment rows).Owned :=
  ((owned.updateInternal environment rows).updateValidity environment rows).mergeUpdateStatistics

/-- An update makes the root forget the additional statistic. -/
theorem Owned.update_free (environment : Environment) (rows : List (Nat × VectorSlot)) :
    (column.update environment rows).statistics.Free :=
  ((owned.updateInternal environment rows).updateValidity environment
    rows).mergeUpdateStatistics_additional

theorem Owned.updateColumn (environment : Environment) (path : ColumnPath)
    (rows : List (Nat × VectorSlot)) : (column.updateColumn environment path rows).Owned := by
  cases path with
  | main => exact (owned.updateInternal environment rows).mergeUpdateStatistics
  | validity => exact (owned.updateValidity environment rows).mergeUpdateStatistics

/-- `UpdateColumn` of the data forgets the additional statistic, of the mask it does not. -/
theorem Owned.updateColumn_additional (environment : Environment) (path : ColumnPath)
    (rows : List (Nat × VectorSlot)) :
    (column.updateColumn environment path rows).statistics.additionalStats =
      if path = .main then none else column.statistics.additionalStats := by
  cases path with
  | main => exact (owned.updateInternal environment rows).mergeUpdateStatistics_additional
  | validity => exact (owned.updateValidity environment rows).mergeUpdateStatistics_additional

end

theorem load_owned (start : Nat) (type : LogicalType) {main : List (DataPointer Payload)}
    {validity : List (DataPointer Bool)} (mainFree : ∀ pointer ∈ main, pointer.statistics.Free)
    (validityFree : ∀ pointer ∈ validity, pointer.statistics.Free) :
    (load start type main validity).Owned ∧ (load start type main validity).statistics.Free := by
  have free : (load start type main validity).statistics.Free := by
    refine BaseStatistics.free_foldl_merge _ (BaseStatistics.free_createEmpty type) ?_
    intro stats member
    rcases List.mem_append.mp member with first | second
    · obtain ⟨pointer, hpointer, rfl⟩ := List.mem_map.mp first
      exact mainFree pointer hpointer
    · obtain ⟨pointer, hpointer, rfl⟩ := List.mem_map.mp second
      exact validityFree pointer hpointer
  refine ⟨?_, free⟩
  exact
    { main := ColumnSegments.free_ofPointers _ _ mainFree
      validity := ColumnSegments.free_ofPointers _ _ validityFree
      updates := fun _ member => by cases member
      validityUpdates := fun _ member => by cases member
      root := by
        rw [free]
        exact fun _ member => by cases member }

theorem Owned.checkpoint (owned : column.Owned) (environment : Environment)
    (sizes validitySizes : List Nat) :
    (column.checkpoint environment sizes validitySizes).Owned where
  main := by
    rw [ColumnData.checkpoint]
    dsimp only
    split
    · apply ColumnSegments.free_ofPointers
      intro pointer member
      obtain ⟨values, -, rfl⟩ := List.mem_map.mp member
      exact environment.onCheckpoint.free _ (BaseStatistics.free_createEmpty _)
    · exact owned.main
  validity := by
    rw [ColumnData.checkpoint]
    dsimp only
    split
    · apply ColumnSegments.free_ofPointers
      intro pointer member
      obtain ⟨values, -, rfl⟩ := List.mem_map.mp member
      exact environment.onCheckpoint.free _ (BaseStatistics.free_createEmpty _)
    · exact owned.validity
  updates := fun _ member => by cases member
  validityUpdates := fun _ member => by cases member
  root := owned.root

theorem Owned.checkpointStatistics (owned : column.Owned) :
    ∀ stats ∈ column.checkpointStatistics, stats.Free := by
  intro stats member
  rcases List.mem_append.mp member with main | validity
  · obtain ⟨segment, hsegment, rfl⟩ := List.mem_map.mp main
    exact owned.main segment hsegment
  · obtain ⟨segment, hsegment, rfl⟩ := List.mem_map.mp validity
    exact owned.validity segment hsegment

theorem Owned.globalStatistics (owned : column.Owned) : column.globalStatistics.Free := by
  refine BaseStatistics.free_foldl_merge _ (BaseStatistics.free_createEmpty _) ?_
  intro stats member
  obtain ⟨segment, hsegment, rfl⟩ := List.mem_map.mp member
  exact owned.main segment hsegment

end ColumnData

end StatsRecommender
