import StatsRecommender.Compression.StringUncompressed
import StatsRecommender.Compression.ValidityRun

/-!
# The uncompressed segment functions

What `ColumnSegment` calls to fill a segment, to take rows back and to read them, for each of the
uncompressed functions.
-/

namespace StatsRecommender

/-- The functions of an uncompressed segment. -/
structure SegmentFunctions where
  State : Type
  /-- A new segment that starts at a row. -/
  initSegment : Nat → State
  /-- The append to a segment of some rows, with the number of rows taken. -/
  append : State → Nat → ScannedFormat → Nat → Nat → State × Nat
  /-- The revert of a segment that starts at a row, to another row. -/
  revertAppend : State → Nat → Nat → State
  fetchRow : State → Nat → Payload
  /-- What a row of a vector is to be read as, where that matters. -/
  valueOf : ScannedFormat → Nat → Option Payload

/-- The data of a row that is not null; the data of other rows is never looked at. -/
def ScannedFormat.dataOf (data : ScannedFormat) (row : Nat) : Option Payload :=
  if data.rowIsValid row then some (data.data (data.sel row)) else none

/-! ## Values of a fixed size -/

/-- What the database is configured with for the segments of a type of a fixed size. -/
structure FixedSizeLayout where
  segmentSize : Nat → Nat
  typeSize : Nat
  nullValue : Payload
  /-- What the memory of a new block holds. -/
  memory : Nat → Payload
  typeSize_pos : 0 < typeSize
  typeSize_le : ∀ start, typeSize ≤ segmentSize start

structure FixedSizeSegment where
  maxTupleCount : Nat
  data : Nat → Payload

namespace FixedSizeUncompressed

/-- What `StandardFixedSizeAppend` writes for a row. -/
def standardAppend (layout : FixedSizeLayout) (data : ScannedFormat) (row : Nat) : Payload :=
  if data.rowIsValid row then data.data (data.sel row) else layout.nullValue

/-- What `ListFixedSizeAppend` writes for a row. -/
def listAppend (data : ScannedFormat) (row : Nat) : Payload := data.data (data.sel row)

def initSegment (layout : FixedSizeLayout) (start : Nat) : FixedSizeSegment :=
  ⟨layout.segmentSize start / layout.typeSize, layout.memory⟩

/-- `FixedSizeAppend`. -/
def append (write : ScannedFormat → Nat → Payload) (segment : FixedSizeSegment) (held : Nat)
    (data : ScannedFormat) (offset count : Nat) : FixedSizeSegment × Nat :=
  let copyCount := min count (segment.maxTupleCount - held)
  ({ segment with
      data := fun target =>
        if held ≤ target ∧ target < held + copyCount then write data (offset + (target - held))
        else segment.data target },
    copyCount)

/-- `FixedSizeGetFunction`, which has no function for a revert. -/
def getFunction (layout : FixedSizeLayout) (write : ScannedFormat → Nat → Payload) :
    SegmentFunctions where
  State := FixedSizeSegment
  initSegment := initSegment layout
  append := append write
  revertAppend := fun segment _ _ => segment
  fetchRow := fun segment row => segment.data row
  valueOf := ScannedFormat.dataOf

end FixedSizeUncompressed

/-! ## Validity and strings -/

/-- What the database is configured with for the segments of a validity column. -/
structure ValidityLayout where
  segmentSize : Nat → Nat
  memory : BitWords.Words 64
  maskSize_le : ∀ start, ValidityMask.standardMaskSize ≤ segmentSize start

/-- `ValidityUncompressed::GetFunction`. -/
def ValidityUncompressed.getFunction (layout : ValidityLayout) : SegmentFunctions where
  State := ValidityUncompressed.Segment
  initSegment := fun start =>
    ValidityUncompressed.initSegment start (layout.segmentSize start) layout.memory
  append := fun segment _ data offset count =>
    (segment.append data.toVectorValidity offset count, segment.appendCount count)
  revertAppend := fun segment _ startRow => segment.revertAppend startRow
  fetchRow := fun segment row => .boolean (BitWords.bitAt segment.entries row)
  valueOf := fun data row => some (.boolean (data.rowIsValid row))

/-- `StringUncompressed::GetFunction`, which has no function for a revert either. -/
def StringUncompressed.getFunction (layout : StringLayout) : SegmentFunctions where
  State := StringSegment
  initSegment := StringSegment.init layout
  append := StringSegment.append layout
  revertAppend := fun segment _ _ => segment
  fetchRow := fun segment row => .varchar (segment.fetchString row)
  valueOf := fun data row =>
    if data.rowIsValid row then some (.varchar (StringSegment.stringAt data row)) else none

/-- The physical types of a column, as `UncompressedFun::GetFunction` tells them apart. -/
inductive UncompressedType where
  | fixedSize (layout : FixedSizeLayout)
  | list (layout : FixedSizeLayout)
  | bit (layout : ValidityLayout)
  | varchar (layout : StringLayout)

namespace UncompressedType

/-- `UncompressedFun::GetFunction`. -/
abbrev getFunction : UncompressedType → SegmentFunctions
  | .fixedSize layout =>
      FixedSizeUncompressed.getFunction layout (FixedSizeUncompressed.standardAppend layout)
  | .list layout => FixedSizeUncompressed.getFunction layout FixedSizeUncompressed.listAppend
  | .bit layout => ValidityUncompressed.getFunction layout
  | .varchar layout => StringUncompressed.getFunction layout

/--
The first rows of a segment can be appended to.  A dictionary of strings has to end with the last
of them, unless there is no space for another row.
-/
def Ready : (type : UncompressedType) → type.getFunction.State → Nat → Prop
  | .fixedSize _, _, _ => True
  | .list _, _, _ => True
  | .bit _, _, _ => True
  | .varchar _, segment, count =>
      StringSegment.SlackFree segment count ∨ StringSegment.Full segment count

end UncompressedType

/-! ## Laws -/

/-- How a segment that holds some rows answers to its functions. -/
structure SegmentLaws (functions : SegmentFunctions) (Ready : functions.State → Nat → Prop)
    (Held : functions.State → Nat → Nat → Prop) : Prop where
  init_held : ∀ start, Held (functions.initSegment start) start 0
  empty_ready : ∀ state start, Held state start 0 → Ready state 0
  append_pos : ∀ state start data offset count, Held state start 0 → 0 < count →
    0 < (functions.append state 0 data offset count).2
  append_le : ∀ state start held data offset count, Held state start held →
    (functions.append state held data offset count).2 ≤ count
  append_held : ∀ state start held data offset count, Held state start held →
    Held (functions.append state held data offset count).1 start
      (held + (functions.append state held data offset count).2)
  append_keeps : ∀ state start held data offset count, Held state start held →
    ∀ row < held, functions.fetchRow (functions.append state held data offset count).1 row =
      functions.fetchRow state row
  append_ready : ∀ state start held data offset count, Held state start held →
    Ready state held → Ready (functions.append state held data offset count).1
      (held + (functions.append state held data offset count).2)
  append_reads : ∀ state start held data offset count, Held state start held →
    Ready state held → ∀ row < (functions.append state held data offset count).2,
    ∀ value ∈ functions.valueOf data (offset + row),
      functions.fetchRow (functions.append state held data offset count).1 (held + row) = value
  revert_held : ∀ state start held kept, Held state start held → 0 < kept → kept ≤ held →
    Held (functions.revertAppend state start (start + kept)) start kept
  revert_keeps : ∀ state start held kept, Held state start held → kept ≤ held →
    ∀ row < kept, functions.fetchRow (functions.revertAppend state start (start + kept)) row =
      functions.fetchRow state row
  revert_ready : ∀ state start held kept, Held state start held → kept ≤ held →
    (Ready (functions.revertAppend state start (start + kept)) kept ↔ Ready state kept)
  not_ready : ∀ state start held, Held state start held → ¬Ready state held →
    ∃ data, (functions.append state held data 0 1).2 = 1 ∧
      ∃ value ∈ functions.valueOf data 0,
        functions.fetchRow (functions.append state held data 0 1).1 held ≠ value

/-! ## Every function keeps them -/

namespace FixedSizeUncompressed

variable {layout : FixedSizeLayout} {write : ScannedFormat → Nat → Payload}

/-- The rows fit into the segment, which has a slot at least. -/
def Held (segment : FixedSizeSegment) (_start count : Nat) : Prop :=
  0 < segment.maxTupleCount ∧ count ≤ segment.maxTupleCount

theorem laws (writes : ∀ data row value, value ∈ data.dataOf row → write data row = value) :
    SegmentLaws (getFunction layout write) (fun _ _ => True) Held where
  init_held := fun start =>
    ⟨Nat.div_pos (layout.typeSize_le start) layout.typeSize_pos, Nat.zero_le _⟩
  empty_ready := fun _ _ _ => trivial
  append_pos := fun _ _ _ _ _ held positive => lt_min positive held.1
  append_le := fun _ _ _ _ _ _ _ => min_le_left _ _
  append_held := by
    rintro segment start held data offset count ⟨slots, fits⟩
    refine ⟨slots, ?_⟩
    change held + min count (segment.maxTupleCount - held) ≤ segment.maxTupleCount
    omega
  append_keeps := by
    intro segment start held data offset count fits row below
    exact if_neg fun inside => Nat.not_lt.mpr inside.1 below
  append_ready := fun _ _ _ _ _ _ _ _ => trivial
  append_reads := by
    intro segment start held data offset count fits ready row below value expected
    have inside : held ≤ held + row ∧
        held + row < held + min count (segment.maxTupleCount - held) :=
      ⟨Nat.le_add_right _ _, Nat.add_lt_add_left below _⟩
    refine (if_pos inside).trans ?_
    rw [Nat.add_sub_cancel_left]
    exact writes data _ value expected
  revert_held := fun _ _ _ _ fits _ le => ⟨fits.1, le.trans fits.2⟩
  revert_keeps := fun _ _ _ _ _ _ _ _ => rfl
  revert_ready := fun _ _ _ _ _ _ => Iff.rfl
  not_ready := fun _ _ _ _ impossible => absurd trivial impossible

theorem standardAppend_eq (data : ScannedFormat) (row : Nat) (value : Payload)
    (expected : value ∈ data.dataOf row) : standardAppend layout data row = value := by
  rw [ScannedFormat.dataOf] at expected
  rw [standardAppend]
  split at expected
  · rename_i valid
    rw [if_pos valid]
    exact Option.some.inj expected
  · cases expected

theorem listAppend_eq (data : ScannedFormat) (row : Nat) (value : Payload)
    (expected : value ∈ data.dataOf row) : listAppend data row = value := by
  rw [ScannedFormat.dataOf] at expected
  split at expected
  · exact Option.some.inj expected
  · cases expected

end FixedSizeUncompressed

namespace ValidityUncompressed

open BitWords

/-- The bits of the segment are those of some rows. -/
def Held (segment : Segment) (start count : Nat) : Prop :=
  segment.start = start ∧ segment.count = count ∧
    ValidityMask.standardMaskSize ≤ segment.segmentSize ∧ ∃ rows, segment.Shows rows

theorem Segment.Shows.bit {segment : Segment} {rows : List Bool} (shows : segment.Shows rows)
    {row : Nat} (below : row < segment.count) :
    bitAt segment.entries row = rows.getD row true := by
  have capacity := segment.maxTuples_le
  have full := shows.count_le
  exact shows.bits row (by omega)

theorem Segment.length_taken (segment : Segment) (data : VectorValidity) (offset vcount : Nat) :
    (segment.taken data offset vcount).length = segment.appendCount vcount := by
  rw [Segment.taken, List.length_map, List.length_range]

theorem Segment.getD_taken (segment : Segment) (data : VectorValidity) (offset vcount : Nat)
    {row : Nat} (below : row < segment.appendCount vcount) :
    (segment.taken data offset vcount).getD row true = data.rowIsValid (offset + row) := by
  rw [Segment.taken, List.getD_eq_getElem?_getD, List.getElem?_map, List.getElem?_range below]
  rfl

theorem laws (layout : ValidityLayout) :
    SegmentLaws (getFunction layout) (fun _ _ => True) Held where
  init_held := fun start =>
    ⟨rfl, rfl, layout.maskSize_le start, [], Segment.initSegment_shows _ _ _⟩
  empty_ready := fun _ _ _ => trivial
  append_pos := by
    rintro (segment : Segment) start data offset count ⟨-, counts, size, -⟩ positive
    have masks := Nat.div_pos size (by decide)
    have slots : 0 < segment.maxTuples := Nat.mul_pos masks (by decide)
    change 0 < min count (segment.maxTuples - segment.count)
    rw [counts]
    exact lt_min positive slots
  append_le := fun _ _ _ _ _ _ _ => min_le_left _ _
  append_held := by
    rintro (segment : Segment) start held data offset count ⟨starts, counts, size, rows, shows⟩
    obtain ⟨appended, start_eq, size_eq⟩ := shows.append data.toVectorValidity offset count
    refine ⟨start_eq.trans starts, ?_, size_eq ▸ size, _, appended⟩
    change (segment.append data.toVectorValidity offset count).count =
      held + segment.appendCount count
    rw [appended.count_eq, List.length_append, ← shows.count_eq, counts, Segment.length_taken]
  append_keeps := by
    rintro (segment : Segment) start held data offset count ⟨starts, counts, size, rows, shows⟩ row below
    obtain ⟨appended, -, -⟩ := shows.append data.toVectorValidity offset count
    rw [← counts] at below
    have inside : row < (segment.append data.toVectorValidity offset count).count := by
      rw [appended.count_eq, List.length_append, ← shows.count_eq]
      omega
    refine congrArg Payload.boolean ?_
    change bitAt (segment.append data.toVectorValidity offset count).entries row = _
    rw [appended.bit inside, shows.bit below, List.getD_append _ _ _ _ (shows.count_eq ▸ below)]
  append_ready := fun _ _ _ _ _ _ _ _ => trivial
  append_reads := by
    rintro (segment : Segment) start held data offset count ⟨starts, counts, size, rows, shows⟩ -
      row below _ ⟨⟩
    obtain ⟨appended, -, -⟩ := shows.append data.toVectorValidity offset count
    change row < segment.appendCount count at below
    have length : rows.length = held := by rw [← shows.count_eq, counts]
    have inside : held + row < (segment.append data.toVectorValidity offset count).count := by
      rw [appended.count_eq, List.length_append, length, Segment.length_taken]
      exact Nat.add_lt_add_left below held
    refine congrArg Payload.boolean ?_
    change bitAt (segment.append data.toVectorValidity offset count).entries (held + row) = _
    rw [appended.bit inside, List.getD_append_right _ _ _ _ (by omega), length,
      Nat.add_sub_cancel_left, Segment.getD_taken _ _ _ _ below]
  revert_held := by
    rintro (segment : Segment) start held kept ⟨starts, counts, size, rows, shows⟩ - le
    refine ⟨starts, ?_, size, _, shows.revertAppend (by omega) (by omega)⟩
    change start + kept - segment.start = kept
    omega
  revert_keeps := by
    rintro (segment : Segment) start held kept ⟨starts, counts, -, rows, shows⟩ le row below
    have capacity := segment.maxTuples_le
    have full := shows.count_le
    have inside : row < 8 * segment.segmentSize := by omega
    have before : ¬start + kept - segment.start ≤ row := by omega
    refine congrArg Payload.boolean ?_
    change bitAt (segment.revertAppend (start + kept)).entries row = _
    rw [segment.bitAt_revertAppend inside, decide_eq_false before, Bool.or_false]
  revert_ready := fun _ _ _ _ _ _ => Iff.rfl
  not_ready := fun _ _ _ _ impossible => absurd trivial impossible

end ValidityUncompressed

namespace StringUncompressed

open StringSegment

/-- The rows can be read, and there is nothing in the dictionary where there are no rows. -/
def Held (layout : StringLayout) (segment : StringSegment) (start count : Nat) : Prop :=
  segment.segmentSize = layout.segmentSize start ∧ segment.Held count ∧
    (count = 0 → segment.dictionarySize = 0)

theorem laws (layout : StringLayout) :
    SegmentLaws (getFunction layout) (UncompressedType.Ready (.varchar layout)) (Held layout) where
  init_held := fun start => ⟨rfl, init_held layout start, fun _ => rfl⟩
  empty_ready := fun _ _ holds => Or.inl (holds.2.2 rfl)
  append_pos := fun _ _ data offset _ holds positive =>
    append_pos layout holds.1 (holds.2.2 rfl) data offset positive
  append_le := fun _ _ _ data offset count holds =>
    (append_spec layout holds.2.1 data offset count).2
  append_held := by
    rintro (segment : StringSegment) start held data offset count ⟨size, holds, empty⟩
    obtain ⟨appended, -⟩ := append_spec layout holds data offset count
    refine ⟨appended.size_eq.trans size, appended.held, fun none => ?_⟩
    obtain ⟨rfl, taken⟩ := Nat.add_eq_zero_iff.mp none
    have slackFree := appended.slackFree (empty rfl)
    change (segment.append layout 0 data offset count).2 = 0 at taken
    rw [taken] at slackFree
    exact slackFree
  append_keeps := by
    intro segment start held data offset count holds row below
    obtain ⟨appended, -⟩ := append_spec layout holds.2.1 data offset count
    exact congrArg Payload.varchar (appended.kept row below)
  append_ready := by
    rintro (segment : StringSegment) start held data offset count holds (slackFree | full)
    · exact Or.inl ((append_spec layout holds.2.1 data offset count).1.slackFree slackFree)
    · have nothing := append_of_full layout full data offset count
      change StringSegment.SlackFree (segment.append layout held data offset count).1
        (held + (segment.append layout held data offset count).2) ∨
        StringSegment.Full (segment.append layout held data offset count).1
          (held + (segment.append layout held data offset count).2)
      rw [nothing]
      exact Or.inr full
  append_reads := by
    rintro (segment : StringSegment) start held data offset count holds (slackFree | full)
      row below value expected
    · obtain ⟨appended, -⟩ := append_spec layout holds.2.1 data offset count
      change value ∈ (if data.rowIsValid (offset + row) then
        some (Payload.varchar (stringAt data (offset + row))) else none) at expected
      split at expected
      · rename_i valid
        cases expected
        exact congrArg Payload.varchar (appended.reads slackFree row (Nat.zero_le row) below valid)
      · cases expected
    · change row < (segment.append layout held data offset count).2 at below
      rw [append_of_full layout full] at below
      exact absurd below (Nat.not_lt_zero row)
  revert_held := fun _ _ _ _ holds positive le =>
    ⟨holds.1, holds.2.1.mono le, fun none => absurd none positive.ne'⟩
  revert_keeps := fun _ _ _ _ _ _ _ _ => rfl
  revert_ready := fun _ _ _ _ _ _ => Iff.rfl
  not_ready := by
    intro segment start held holds unready
    rw [UncompressedType.Ready, not_or] at unready
    have valid : (⟨⟨id, none⟩, fun _ => .varchar []⟩ : ScannedFormat).rowIsValid 0 = true := rfl
    obtain ⟨taken, misread⟩ := append_misread layout holds.2.1 unready.1 unready.2 valid rfl
    refine ⟨_, taken, .varchar [], rfl, fun read => ?_⟩
    exact misread (Payload.varchar.inj read)

end StringUncompressed

namespace UncompressedType

/-- What holds of a segment of some type that starts at a row, about its first rows. -/
def Held : (type : UncompressedType) → type.getFunction.State → Nat → Nat → Prop
  | .fixedSize _ => FixedSizeUncompressed.Held
  | .list _ => FixedSizeUncompressed.Held
  | .bit _ => ValidityUncompressed.Held
  | .varchar layout => StringUncompressed.Held layout

theorem laws (type : UncompressedType) : SegmentLaws type.getFunction type.Ready type.Held := by
  cases type with
  | fixedSize layout => exact FixedSizeUncompressed.laws FixedSizeUncompressed.standardAppend_eq
  | list layout => exact FixedSizeUncompressed.laws FixedSizeUncompressed.listAppend_eq
  | bit layout => exact ValidityUncompressed.laws layout
  | varchar layout => exact StringUncompressed.laws layout

end UncompressedType

end StatsRecommender
