import Mathlib.Data.List.GetD
import StatsRecommender.Compression.ValidityUncompressed
import StatsRecommender.Library.ByteMemory

/-!
# Uncompressed string segments

A segment of strings keeps an offset for each row and a dictionary that grows down from the end of
its block; the length of a string is the difference to the offset of the row before it.
-/

namespace StatsRecommender

variable {row : Nat}

open ByteMemory

/-! ## Overflow strings -/

/-- `StringBlock`. -/
structure StringBlock where
  blockId : Nat
  offset : Nat
  size : Nat

/-- The overflow strings of a segment by block and offset, and the next block to be allocated. -/
structure OverflowBlocks where
  strings : Nat → Nat → List UInt8
  head : Option StringBlock
  nextBlock : Nat

namespace OverflowBlocks

/-- The block that `WriteStringMemory` writes to. -/
def blockFor (overflow : OverflowBlocks) (blockSize totalLength : Nat) : StringBlock :=
  match overflow.head with
  | some head =>
      if head.size ≤ head.offset + totalLength then
        ⟨overflow.nextBlock, 0, max totalLength blockSize⟩
      else head
  | none => ⟨overflow.nextBlock, 0, max totalLength blockSize⟩

/-- `WriteStringMemory`, with the block and the offset of the string. -/
def writeStringMemory (overflow : OverflowBlocks) (blockSize : Nat) (string : List UInt8) :
    OverflowBlocks × (Nat × Nat) :=
  let totalLength := string.length + 4
  let head := overflow.blockFor blockSize totalLength
  ({ strings := fun block offset =>
        if block = head.blockId ∧ offset = head.offset then string
        else overflow.strings block offset
     head := some { head with offset := head.offset + totalLength }
     nextBlock := max overflow.nextBlock (head.blockId + 1) },
    (head.blockId, head.offset))

/-- The block in use is an allocated one. -/
def Allocated (overflow : OverflowBlocks) : Prop :=
  ∀ head ∈ overflow.head, head.blockId < overflow.nextBlock

/-- A string was written at a place. -/
def Known (overflow : OverflowBlocks) (place : Nat × Nat) : Prop :=
  place.1 < overflow.nextBlock ∧
    ∀ head ∈ overflow.head, head.blockId = place.1 → place.2 < head.offset

end OverflowBlocks

/-! ## Segments -/

/-- An uncompressed string segment: the header, the offsets and the dictionary of its block. -/
structure StringSegment where
  segmentSize : Nat
  dictionarySize : Nat
  dictionaryEnd : Nat
  resultData : Nat → Int
  memory : Memory
  /-- The block and the offset in the marker of a big string, by its place in the dictionary. -/
  markers : Nat → Nat × Nat
  overflow : OverflowBlocks

/-- What the database is configured with for the segments of a column of strings. -/
structure StringLayout where
  blockSize : Nat
  segmentSize : Nat → Nat
  stringBlockLimit : Nat
  /-- What the memory of a new block holds. -/
  memory : Memory
  resultData : Nat → Int
  limit_pos : 0 < stringBlockLimit
  limit_le : ∀ start, stringBlockLimit + 12 ≤ segmentSize start
  marker_le : ∀ start, 24 ≤ segmentSize start
  segmentSize_lt : ∀ start, segmentSize start < 2 ^ 31

namespace StringSegment

/-- `DICTIONARY_HEADER_SIZE`. -/
def dictionaryHeaderSize : Nat := 8

/-- `BIG_STRING_MARKER_SIZE`. -/
def bigStringMarkerSize : Nat := 12

/-- `StringInitSegment` of a new block. -/
def init (layout : StringLayout) (start : Nat) : StringSegment where
  segmentSize := layout.segmentSize start
  dictionarySize := 0
  dictionaryEnd := layout.segmentSize start
  resultData := layout.resultData
  memory := layout.memory
  markers := fun _ => (0, 0)
  overflow := ⟨fun _ _ => [], none, 0⟩

/-- The offset of the row before a row. -/
def previousOffset (segment : StringSegment) (row : Nat) : Int :=
  if 0 < row then segment.resultData (row - 1) else 0

/-- `RemainingSpace`. -/
def remainingSpace (segment : StringSegment) (count : Nat) : Nat :=
  segment.segmentSize - (segment.dictionarySize + count * 4 + dictionaryHeaderSize)

def setOffset (segment : StringSegment) (row : Nat) (offset : Int) : StringSegment :=
  { segment with
    resultData := fun other => if other = row then offset else segment.resultData other }

/-- A big string goes to the overflow blocks, with a marker in the dictionary. -/
def storeOverflow (layout : StringLayout) (segment : StringSegment) (row : Nat)
    (string : List UInt8) : StringSegment :=
  let (overflow, place) := segment.overflow.writeStringMemory layout.blockSize string
  let dictionarySize := segment.dictionarySize + bigStringMarkerSize
  let position := segment.dictionaryEnd - dictionarySize
  { segment with
    overflow
    dictionarySize
    markers := fun other => if other = position then place else segment.markers other
    resultData := fun other =>
      if other = row then -(dictionarySize : Int) else segment.resultData other }

/-- Any other string goes to the dictionary. -/
def storeString (segment : StringSegment) (row : Nat) (string : List UInt8) : StringSegment :=
  let dictionarySize := segment.dictionarySize + string.length
  { segment with
    dictionarySize
    memory := copyTo segment.memory (fun index => string.getD index 0)
      (segment.dictionaryEnd - dictionarySize) string.length
    resultData := fun other =>
      if other = row then (dictionarySize : Int) else segment.resultData other }

/-- The string of a row of a vector. -/
def stringAt (data : ScannedFormat) (row : Nat) : List UInt8 :=
  match data.data (data.sel row) with
  | .varchar bytes => bytes
  | _ => []

/-- The loop of `StringAppendBase`, from a row on, with the number of rows taken. -/
def appendLoop (layout : StringLayout) (data : ScannedFormat) (offset base : Nat) :
    Nat → Nat → Nat → StringSegment → StringSegment × Nat
  | 0, i, _, segment => (segment, i)
  | count + 1, i, remainingSpace, segment =>
      if remainingSpace < 4 then (segment, i)
      else if !data.rowIsValid (offset + i) then
        appendLoop layout data offset base count (i + 1) (remainingSpace - 4)
          (segment.setOffset (base + i) (segment.previousOffset (base + i)))
      else
        let string := stringAt data (offset + i)
        let useOverflowBlock := decide (layout.stringBlockLimit ≤ string.length)
        let requiredSpace := if useOverflowBlock then bigStringMarkerSize else string.length
        if remainingSpace - 4 < requiredSpace then (segment, i)
        else
          appendLoop layout data offset base count (i + 1) (remainingSpace - 4 - requiredSpace)
            (if useOverflowBlock then segment.storeOverflow layout (base + i) string
              else segment.storeString (base + i) string)

/-- `StringAppendBase` to a segment of some rows. -/
def append (layout : StringLayout) (segment : StringSegment) (held : Nat) (data : ScannedFormat)
    (offset count : Nat) : StringSegment × Nat :=
  appendLoop layout data offset held count 0 (segment.remainingSpace held) segment

/-- The length that a scan computes, as a number of 32 bits. -/
def stringLength (segment : StringSegment) (row : Nat) : Nat :=
  (((segment.resultData row).natAbs - (segment.previousOffset row).natAbs : Int) % 2 ^ 32).toNat

/-- `FetchStringFromDict` for a row. -/
def fetchString (segment : StringSegment) (row : Nat) : List UInt8 :=
  let dictOffset := segment.resultData row
  let position := segment.dictionaryEnd - dictOffset.natAbs
  if 0 ≤ dictOffset then
    (List.range (segment.stringLength row)).map fun index => segment.memory (position + index)
  else
    let place := segment.markers position
    segment.overflow.strings place.1 place.2

end StringSegment

/-! ## What was written stays -/

namespace OverflowBlocks

/-- What was written to the overflow blocks is still there. -/
structure Extends (before after : OverflowBlocks) : Prop where
  known : ∀ place, before.Known place → after.Known place
  strings : ∀ place, before.Known place →
    after.strings place.1 place.2 = before.strings place.1 place.2

/-- A string is written to a place of its own. -/
theorem writeStringMemory_spec (overflow : OverflowBlocks) (blockSize : Nat)
    (string : List UInt8) :
    let written := overflow.writeStringMemory blockSize string
    written.1.Allocated ∧ overflow.Extends written.1 ∧ written.1.Known written.2 ∧
      written.1.strings written.2.1 written.2.2 = string := by
  obtain ⟨head, hhead⟩ : ∃ head, head = overflow.blockFor blockSize (string.length + 4) :=
    ⟨_, rfl⟩
  -- the place is behind what the block holds, or in a block that holds nothing yet
  have fresh : ∀ place, overflow.Known place → place.1 = head.blockId → place.2 < head.offset := by
    rintro place ⟨below, behind⟩ same
    rw [hhead, blockFor] at same ⊢
    cases inUse : overflow.head with
    | none =>
        rw [inUse] at same
        exact absurd same below.ne
    | some current =>
        rw [inUse] at same
        dsimp only at same ⊢
        split at same
        · exact absurd same below.ne
        · rename_i fits
          rw [if_neg fits]
          exact behind current inUse same.symm
  intro written
  have hwritten : written =
      ({ strings := fun block offset =>
          if block = head.blockId ∧ offset = head.offset then string
          else overflow.strings block offset
         head := some { head with offset := head.offset + (string.length + 4) }
         nextBlock := max overflow.nextBlock (head.blockId + 1) },
        (head.blockId, head.offset)) := by
    rw [hhead]
    rfl
  rw [hwritten]
  refine ⟨?_, ⟨?_, ?_⟩, ⟨?_, ?_⟩, ?_⟩
  · rintro _ ⟨⟩
    exact lt_max_of_lt_right (Nat.lt_succ_self _)
  · rintro place known
    refine ⟨lt_max_of_lt_left known.1, ?_⟩
    rintro _ ⟨⟩ same
    exact (fresh place known same.symm).trans_le (Nat.le_add_right _ _)
  · rintro place known
    refine if_neg ?_
    rintro ⟨same, sameOffset⟩
    exact (fresh place known same).ne sameOffset
  · exact lt_max_of_lt_right (Nat.lt_succ_self _)
  · rintro _ ⟨⟩ -
    exact Nat.lt_add_of_pos_right (Nat.succ_pos _)
  · exact if_pos ⟨rfl, rfl⟩

end OverflowBlocks

variable {after : StringSegment}

namespace StringSegment

variable {segment : StringSegment} {count : Nat}

/-- What holds of the first rows of a segment; those behind them may have been reverted. -/
structure Held (segment : StringSegment) (count : Nat) : Prop where
  size_lt : segment.segmentSize < 2 ^ 31
  end_eq : segment.dictionaryEnd = segment.segmentSize
  space : dictionaryHeaderSize + 4 * count + segment.dictionarySize ≤ segment.segmentSize
  ordered : ∀ row < count,
    (segment.previousOffset row).natAbs ≤ (segment.resultData row).natAbs
  bounded : ∀ row < count, (segment.resultData row).natAbs ≤ segment.dictionarySize
  known : ∀ row < count, segment.resultData row < 0 →
    segment.overflow.Known (segment.markers
      (segment.dictionaryEnd - (segment.resultData row).natAbs))
  allocated : segment.overflow.Allocated

/-- The dictionary holds nothing behind the strings of the first rows. -/
def SlackFree (segment : StringSegment) (count : Nat) : Prop :=
  segment.dictionarySize = (segment.previousOffset count).natAbs

/-- There is no space for a row behind the first rows. -/
def Full (segment : StringSegment) (count : Nat) : Prop :=
  segment.remainingSpace count < 4

/-- What the first rows are read from is unchanged. -/
structure Extends (segment : StringSegment) (count : Nat) (after : StringSegment) : Prop where
  size_eq : after.segmentSize = segment.segmentSize
  end_eq : after.dictionaryEnd = segment.dictionaryEnd
  offsets : ∀ row < count, after.resultData row = segment.resultData row
  larger : segment.dictionarySize ≤ after.dictionarySize
  bytes : ∀ position, segment.dictionaryEnd - segment.dictionarySize ≤ position →
    after.memory position = segment.memory position
  markers : ∀ position, segment.dictionaryEnd - segment.dictionarySize ≤ position →
    after.markers position = segment.markers position
  overflow : segment.overflow.Extends after.overflow

theorem init_held (layout : StringLayout) (start : Nat) : (init layout start).Held 0 := by
  refine ⟨layout.segmentSize_lt start, rfl, ?_, fun _ none => absurd none (Nat.not_lt_zero _),
    fun _ none => absurd none (Nat.not_lt_zero _), fun _ none => absurd none (Nat.not_lt_zero _),
    fun _ absent => by cases absent⟩
  have space := layout.marker_le start
  change 8 + 4 * 0 + 0 ≤ layout.segmentSize start
  omega

theorem Held.mono (held : segment.Held count) {fewer : Nat} (le : fewer ≤ count) :
    segment.Held fewer := by
  refine ⟨held.size_lt, held.end_eq, ?_, fun row below => held.ordered row (by omega),
    fun row below => held.bounded row (by omega), fun row below => held.known row (by omega),
    held.allocated⟩
  have space := held.space
  omega

theorem Held.previous_le (held : segment.Held count) :
    (segment.previousOffset count).natAbs ≤ segment.dictionarySize := by
  rw [previousOffset]
  split
  · exact held.bounded _ (by omega)
  · exact Nat.zero_le _

theorem Extends.previousOffset (kept : segment.Extends count after) (le : row ≤ count) :
    after.previousOffset row = segment.previousOffset row := by
  rw [StringSegment.previousOffset, StringSegment.previousOffset]
  split
  · exact kept.offsets _ (by omega)
  · rfl

/-- The length of a string is the difference of two offsets. -/
theorem Held.stringLength (held : segment.Held count) (below : row < count) :
    segment.stringLength row =
      (segment.resultData row).natAbs - (segment.previousOffset row).natAbs := by
  have ordered := held.ordered row below
  have bounded := held.bounded row below
  have space := held.space
  have size := held.size_lt
  rw [StringSegment.stringLength]
  omega

/-- The first rows are read as before. -/
theorem Held.fetchString_extends (held : segment.Held count) (kept : segment.Extends count after)
    (below : row < count) : after.fetchString row = segment.fetchString row := by
  have bounded := held.bounded row below
  have place : segment.dictionaryEnd - segment.dictionarySize ≤
      segment.dictionaryEnd - (segment.resultData row).natAbs := by omega
  have length : after.stringLength row = segment.stringLength row := by
    rw [StringSegment.stringLength, StringSegment.stringLength, kept.offsets row below,
      kept.previousOffset below.le]
  rw [fetchString, fetchString, kept.offsets row below, kept.end_eq, length]
  dsimp only
  split
  · refine List.map_congr_left fun index _ => kept.bytes _ ?_
    exact place.trans (Nat.le_add_right _ _)
  · rename_i negative
    rw [kept.markers _ place]
    exact kept.overflow.strings _ (held.known row below (by omega))

/-- The rows in front of a new one hold as before, so only the new one is to be looked at. -/
theorem Held.succ (held : segment.Held count) (kept : segment.Extends count after)
    (space : dictionaryHeaderSize + 4 * (count + 1) + after.dictionarySize ≤ segment.segmentSize)
    (ordered : (segment.previousOffset count).natAbs ≤ (after.resultData count).natAbs)
    (bounded : (after.resultData count).natAbs ≤ after.dictionarySize)
    (known : after.resultData count < 0 → after.overflow.Known (after.markers
      (segment.dictionaryEnd - (after.resultData count).natAbs)))
    (allocated : after.overflow.Allocated) : after.Held (count + 1) := by
  refine ⟨kept.size_eq ▸ held.size_lt, ?_, kept.size_eq ▸ space, ?_, ?_, ?_, allocated⟩
  · rw [kept.end_eq, kept.size_eq, held.end_eq]
  · intro row below
    rcases Nat.lt_succ_iff_lt_or_eq.mp below with earlier | rfl
    · rw [kept.offsets row earlier, kept.previousOffset earlier.le]
      exact held.ordered row earlier
    · rwa [kept.previousOffset le_rfl]
  · intro row below
    rcases Nat.lt_succ_iff_lt_or_eq.mp below with earlier | rfl
    · rw [kept.offsets row earlier]
      exact (held.bounded row earlier).trans kept.larger
    · exact bounded
  · intro row below negative
    rw [kept.end_eq]
    rcases Nat.lt_succ_iff_lt_or_eq.mp below with earlier | rfl
    · have inside := held.bounded row earlier
      rw [kept.offsets row earlier] at negative ⊢
      rw [kept.markers _ (by omega)]
      exact kept.overflow.known _ (held.known row earlier negative)
    · exact known negative

/-! ## One row -/

theorem previousOffset_succ (segment : StringSegment) (row : Nat) :
    segment.previousOffset (row + 1) = segment.resultData row :=
  if_pos (Nat.succ_pos row)

/-- A row behind the first ones is none of them. -/
theorem otherRow (below : row < count) (value other : Int) :
    (if row = count then value else other) = other :=
  if_neg below.ne

/-- A null value leaves the dictionary as it is. -/
theorem setOffset_spec (held : segment.Held count)
    (space : dictionaryHeaderSize + 4 * (count + 1) + segment.dictionarySize ≤
      segment.segmentSize) :
    let after := segment.setOffset count (segment.previousOffset count)
    segment.Extends count after ∧ after.Held (count + 1) ∧
      (segment.SlackFree count → after.SlackFree (count + 1)) := by
  intro after
  have written : after.resultData count = segment.previousOffset count := if_pos rfl
  have kept : segment.Extends count after :=
    ⟨rfl, rfl, fun _ below => otherRow below _ _, le_rfl, fun _ _ => rfl, fun _ _ => rfl,
      ⟨fun _ known => known, fun _ _ => rfl⟩⟩
  refine ⟨kept, held.succ kept space (by rw [written]) ?_ ?_ held.allocated, fun slackFree => ?_⟩
  · rw [written]
    exact held.previous_le
  · rw [written]
    intro negative
    have positive : 0 < count := by
      rw [previousOffset] at negative
      by_contra zero
      rw [if_neg zero] at negative
      exact negative.false
    have previous : segment.previousOffset count = segment.resultData (count - 1) := if_pos positive
    rw [previous] at negative ⊢
    exact held.known _ (by omega) negative
  · rw [SlackFree, previousOffset_succ, written]
    exact slackFree

/-- A string goes to the dictionary below all others. -/
theorem storeString_spec (held : segment.Held count) (string : List UInt8)
    (space : dictionaryHeaderSize + 4 * (count + 1) + (segment.dictionarySize + string.length) ≤
      segment.segmentSize) :
    let after := segment.storeString count string
    segment.Extends count after ∧ after.Held (count + 1) ∧ after.SlackFree (count + 1) ∧
      (segment.SlackFree count → after.fetchString count = string) := by
  intro after
  have written : after.resultData count = (segment.dictionarySize + string.length : Nat) :=
    if_pos rfl
  have fits : segment.dictionarySize + string.length ≤ segment.dictionaryEnd := by
    rw [held.end_eq]
    omega
  have kept : segment.Extends count after := by
    refine ⟨rfl, rfl, fun _ below => otherRow below _ _, Nat.le_add_right _ _, ?_,
      fun _ _ => rfl, ⟨fun _ known => known, fun _ _ => rfl⟩⟩
    intro position inside
    have behind : segment.dictionaryEnd - (segment.dictionarySize + string.length) +
        string.length ≤ position := by omega
    change copyTo segment.memory (fun index => string.getD index 0)
      (segment.dictionaryEnd - (segment.dictionarySize + string.length)) string.length position = _
    exact copyTo_outside (Or.inr behind)
  have previous := held.previous_le
  have next : after.Held (count + 1) := by
    refine held.succ kept space ?_ ?_ ?_ held.allocated
    · rw [written, Int.natAbs_natCast]
      omega
    · rw [written, Int.natAbs_natCast]
      exact le_rfl
    · intro negative
      rw [written] at negative
      omega
  refine ⟨kept, next, ?_, fun slackFree => ?_⟩
  · rw [SlackFree, previousOffset_succ, written, Int.natAbs_natCast]
    rfl
  · have length : after.stringLength count = string.length := by
      rw [next.stringLength (Nat.lt_succ_self count), written, kept.previousOffset le_rfl,
        Int.natAbs_natCast]
      rw [SlackFree] at slackFree
      omega
    rw [fetchString, written, length, Int.natAbs_natCast]
    dsimp only
    rw [if_pos (Int.natCast_nonneg _)]
    refine List.ext_getElem (by simp) fun index _ below => ?_
    rw [List.getElem_map, List.getElem_range]
    change copyTo segment.memory (fun index => string.getD index 0)
      (segment.dictionaryEnd - (segment.dictionarySize + string.length)) string.length
      (segment.dictionaryEnd - (segment.dictionarySize + string.length) + index) = _
    rw [copyTo_inside below, List.getD_eq_getElem _ _ below]

/-- A big string leaves a marker in the dictionary. -/
theorem storeOverflow_spec (held : segment.Held count) (layout : StringLayout)
    (string : List UInt8)
    (space : dictionaryHeaderSize + 4 * (count + 1) +
      (segment.dictionarySize + bigStringMarkerSize) ≤ segment.segmentSize) :
    let after := segment.storeOverflow layout count string
    segment.Extends count after ∧ after.Held (count + 1) ∧ after.SlackFree (count + 1) ∧
      after.fetchString count = string := by
  intro after
  obtain ⟨allocated, extends_overflow, known, reads⟩ :=
    segment.overflow.writeStringMemory_spec layout.blockSize string
  have written : after.resultData count =
      -(segment.dictionarySize + bigStringMarkerSize : Nat) := if_pos rfl
  have marker : after.markers
      (segment.dictionaryEnd - (segment.dictionarySize + bigStringMarkerSize)) =
      (segment.overflow.writeStringMemory layout.blockSize string).2 := if_pos rfl
  have fits : segment.dictionarySize + bigStringMarkerSize ≤ segment.dictionaryEnd := by
    rw [held.end_eq]
    omega
  have size : 0 < bigStringMarkerSize := by decide
  have kept : segment.Extends count after := by
    refine ⟨rfl, rfl, fun _ below => otherRow below _ _, Nat.le_add_right _ _, fun _ _ => rfl,
      ?_, extends_overflow⟩
    intro position inside
    exact if_neg (by omega)
  have previous := held.previous_le
  have next : after.Held (count + 1) := by
    refine held.succ kept space ?_ ?_ ?_ allocated
    · rw [written, Int.natAbs_neg, Int.natAbs_natCast]
      omega
    · rw [written, Int.natAbs_neg, Int.natAbs_natCast]
      exact le_rfl
    · rintro -
      rw [written, Int.natAbs_neg, Int.natAbs_natCast, marker]
      exact known
  refine ⟨kept, next, ?_, ?_⟩
  · rw [SlackFree, previousOffset_succ, written, Int.natAbs_neg, Int.natAbs_natCast]
    rfl
  · rw [fetchString, written, Int.natAbs_neg, Int.natAbs_natCast, kept.end_eq]
    dsimp only
    rw [if_neg (by omega), marker]
    exact reads

/-! ## Whole appends -/

theorem previousOffset_lt (held : segment.Held count) (slack : ¬segment.SlackFree count) :
    (segment.previousOffset count).natAbs < segment.dictionarySize :=
  lt_of_le_of_ne held.previous_le fun same => slack same.symm

/--
What an append from a row of a vector on, to some rows of a segment, leaves behind.  Only where
the dictionary had nothing behind these rows can all new ones be read.
-/
structure Appended (segment : StringSegment) (base : Nat) (data : ScannedFormat)
    (offset i : Nat) (result : StringSegment × Nat) : Prop where
  le : i ≤ result.2
  size_eq : result.1.segmentSize = segment.segmentSize
  held : result.1.Held (base + result.2)
  kept : ∀ row < base + i, result.1.fetchString row = segment.fetchString row
  slackFree : segment.SlackFree (base + i) → result.1.SlackFree (base + result.2)
  reads : segment.SlackFree (base + i) → ∀ row, i ≤ row → row < result.2 →
    data.rowIsValid (offset + row) = true →
      result.1.fetchString (base + row) = stringAt data (offset + row)

variable {data : ScannedFormat} {offset base i : Nat}

theorem Appended.nothing (held : segment.Held (base + i)) :
    Appended segment base data offset i (segment, i) :=
  ⟨le_rfl, rfl, held, fun _ _ => rfl, id, fun _ _ low high => absurd high (Nat.not_lt.mpr low)⟩

/-- One row is stored, and then the rest. -/
theorem Appended.cons {stored : StringSegment} {result : StringSegment × Nat}
    (held : segment.Held (base + i)) (kept : segment.Extends (base + i) stored)
    (slackFree : segment.SlackFree (base + i) → stored.SlackFree (base + i + 1))
    (reads : segment.SlackFree (base + i) → data.rowIsValid (offset + i) = true →
      stored.fetchString (base + i) = stringAt data (offset + i))
    (rest : Appended stored base data offset (i + 1) result) :
    Appended segment base data offset i result := by
  refine ⟨(Nat.le_succ i).trans rest.le, rest.size_eq.trans kept.size_eq, rest.held, fun row below => ?_,
    fun free => rest.slackFree (slackFree free), fun free row low high valid => ?_⟩
  · rw [rest.kept row (by omega)]
    exact held.fetchString_extends kept below
  · rcases Nat.eq_or_lt_of_le low with rfl | behind
    · rw [rest.kept _ (by omega)]
      exact reads free valid
    · exact rest.reads (slackFree free) row behind high valid

section

variable (layout : StringLayout)

/-- By induction on the rows that are left; `remainingSpace` is that of the segment so far. -/
theorem appendLoop_spec (held : segment.Held (base + i)) :
    Appended segment base data offset i
        (appendLoop layout data offset base count i (segment.remainingSpace (base + i)) segment) ∧
      (appendLoop layout data offset base count i (segment.remainingSpace (base + i)) segment).2 ≤
        i + count := by
  induction count generalizing i segment with
  | zero => exact ⟨.nothing held, le_rfl⟩
  | succ count ih =>
      have header : dictionaryHeaderSize = 8 := rfl
      rw [appendLoop]
      split
      · exact ⟨.nothing held, Nat.le_add_right _ _⟩
      · rename_i room
        rw [remainingSpace] at room
        cases valid : data.rowIsValid (offset + i) with
        | false =>
            obtain ⟨kept, next, slackFree⟩ := setOffset_spec held (by omega)
            have left : segment.remainingSpace (base + i) - 4 =
                (segment.setOffset (base + i)
                  (segment.previousOffset (base + i))).remainingSpace (base + (i + 1)) := by
              change _ = segment.segmentSize - (segment.dictionarySize + (base + (i + 1)) * 4 + 8)
              rw [remainingSpace]
              omega
            obtain ⟨rest, bound⟩ := ih (i := i + 1) next
            simp only [Bool.not_false, if_true]
            rw [left]
            refine ⟨rest.cons held kept slackFree fun _ impossible => ?_, by omega⟩
            rw [valid] at impossible
            cases impossible
        | true =>
            simp only [Bool.not_true, Bool.false_eq_true, if_false]
            by_cases big : layout.stringBlockLimit ≤ (stringAt data (offset + i)).length
            · simp only [decide_eq_true big, if_true]
              split
              · exact ⟨.nothing held, Nat.le_add_right _ _⟩
              · rename_i fits
                rw [remainingSpace] at fits
                obtain ⟨kept, next, slackFree, reads⟩ :=
                  storeOverflow_spec held layout (stringAt data (offset + i)) (by omega)
                have left : segment.remainingSpace (base + i) - 4 - bigStringMarkerSize =
                    (segment.storeOverflow layout (base + i)
                      (stringAt data (offset + i))).remainingSpace (base + (i + 1)) := by
                  change _ = segment.segmentSize -
                    (segment.dictionarySize + bigStringMarkerSize + (base + (i + 1)) * 4 + 8)
                  rw [remainingSpace]
                  omega
                obtain ⟨rest, bound⟩ := ih (i := i + 1) next
                rw [left]
                exact ⟨rest.cons held kept (fun _ => slackFree) fun _ _ => reads, by omega⟩
            · simp only [decide_eq_false big, Bool.false_eq_true, if_false]
              split
              · exact ⟨.nothing held, Nat.le_add_right _ _⟩
              · rename_i fits
                rw [remainingSpace] at fits
                obtain ⟨kept, next, slackFree, reads⟩ :=
                  storeString_spec held (stringAt data (offset + i)) (by omega)
                have left : segment.remainingSpace (base + i) - 4 -
                      (stringAt data (offset + i)).length =
                    (segment.storeString (base + i)
                      (stringAt data (offset + i))).remainingSpace (base + (i + 1)) := by
                  change _ = segment.segmentSize - (segment.dictionarySize +
                    (stringAt data (offset + i)).length + (base + (i + 1)) * 4 + 8)
                  rw [remainingSpace]
                  omega
                obtain ⟨rest, bound⟩ := ih (i := i + 1) next
                rw [left]
                exact ⟨rest.cons held kept (fun _ => slackFree) fun free _ => reads free,
                  by omega⟩

theorem append_spec (held : segment.Held base) (data : ScannedFormat) (offset count : Nat) :
    Appended segment base data offset 0 (segment.append layout base data offset count) ∧
      (segment.append layout base data offset count).2 ≤ count := by
  have spec : Appended segment base data offset 0
      (appendLoop layout data offset base count 0 (segment.remainingSpace base) segment) ∧
      (appendLoop layout data offset base count 0 (segment.remainingSpace base) segment).2 ≤
        0 + count := appendLoop_spec layout held
  rwa [Nat.zero_add] at spec

/-- A full segment takes no row. -/
theorem append_of_full (full : segment.Full base) (data : ScannedFormat) (offset count : Nat) :
    segment.append layout base data offset count = (segment, 0) := by
  cases count with
  | zero => rfl
  | succ count => exact if_pos full

theorem le_appendLoop (space : Nat) :
    i ≤ (appendLoop layout data offset base count i space segment).2 := by
  induction count generalizing i space segment with
  | zero => exact le_rfl
  | succ count ih =>
      rw [appendLoop]
      split
      · exact le_rfl
      · split
        · exact (Nat.le_succ i).trans (ih _)
        · dsimp only
          generalize decide (layout.stringBlockLimit ≤ (stringAt data (offset + i)).length) = big
          cases big
          all_goals
            simp only [Bool.false_eq_true, if_true, if_false]
            split
            · exact le_rfl
            · exact (Nat.le_succ i).trans (ih _)

/-- A segment of no rows takes a row at least. -/
theorem append_pos {start : Nat} (size : segment.segmentSize = layout.segmentSize start)
    (empty : segment.dictionarySize = 0) (data : ScannedFormat) (offset : Nat)
    (positive : 0 < count) : 0 < (segment.append layout 0 data offset count).2 := by
  obtain ⟨fewer, rfl⟩ := Nat.exists_eq_succ_of_ne_zero positive.ne'
  have marker := layout.marker_le start
  have limit := layout.limit_le start
  have header : dictionaryHeaderSize = 8 := rfl
  have markerSize : bigStringMarkerSize = 12 := rfl
  have space : segment.remainingSpace 0 = layout.segmentSize start - 8 := by
    rw [remainingSpace, size, empty, header]
  rw [append, appendLoop, space, if_neg (by omega)]
  split
  · exact le_appendLoop layout _
  · by_cases big : layout.stringBlockLimit ≤ (stringAt data (offset + 0)).length
    · simp only [decide_eq_true big, if_true]
      rw [if_neg (by omega)]
      exact le_appendLoop layout _
    · simp only [decide_eq_false big, Bool.false_eq_true, if_false]
      rw [if_neg (by omega)]
      exact le_appendLoop layout _

/-- With something behind the first rows in the dictionary, an empty string is read wrongly. -/
theorem append_misread (held : segment.Held base) (slack : ¬segment.SlackFree base)
    (room : ¬segment.Full base) (valid : data.rowIsValid 0 = true) (empty : stringAt data 0 = []) :
    let result := segment.append layout base data 0 1
    result.2 = 1 ∧ result.1.fetchString base ≠ [] := by
  have limit := layout.limit_pos
  have result : segment.append layout base data 0 1 = (segment.storeString base [], 1) := by
    have space : ¬segment.remainingSpace base < 4 := room
    rw [append, appendLoop, if_neg space]
    simp [valid, empty, appendLoop, limit.ne']
  obtain ⟨kept, next, -, -⟩ := storeString_spec held [] (by
    rw [Full, remainingSpace] at room
    rw [List.length_nil]
    omega)
  have behind := previousOffset_lt held slack
  have length : (segment.storeString base []).stringLength base =
      segment.dictionarySize - (segment.previousOffset base).natAbs := by
    have written : (segment.storeString base []).resultData base = segment.dictionarySize :=
      if_pos rfl
    rw [next.stringLength (Nat.lt_succ_self base), written, kept.previousOffset le_rfl,
      Int.natAbs_natCast]
  rw [result]
  refine ⟨rfl, fun read => ?_⟩
  have written : (segment.storeString base []).resultData base = segment.dictionarySize :=
    if_pos rfl
  rw [fetchString, written] at read
  dsimp only at read
  rw [if_pos (Int.natCast_nonneg _), List.map_eq_nil_iff, List.range_eq_nil, length] at read
  omega

end

end StringSegment

end StatsRecommender
