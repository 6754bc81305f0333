import Mathlib.Data.List.Forall2
import Mathlib.Tactic.Ring
import StatsRecommender.Library.RunLength
import StatsRecommender.Storage.SegmentTree

/-!
# Writing RLE segments

`RLEState` counts equal values, `RLECompressState` writes the runs into segments.  A list of
values with NULLs becomes segments that stand for it.
-/

namespace StatsRecommender

namespace RLE

/-- `NumericLimits<rle_count_t>::Maximum()`. -/
def maxCount : Nat := 65535

/-- Counting up an `rle_count_t`. -/
def increment (count : Nat) : Nat := (count + 1) % 2 ^ 16

/-- `RLEState`. -/
structure RLEState (T : Type) where
  seenCount : Nat
  lastValue : T
  lastSeenCount : Nat
  allNull : Bool

variable {T : Type} {Output : Type} {seen : List (Option T)}

namespace RLEState

/-- The constructor, given `NullValue<T>()`. -/
def create (nullValue : T) : RLEState T := ⟨0, nullValue, 0, true⟩

/-- `RLEState::Flush`. -/
def flush (write : T → Nat → Bool → Output → Output) (state : RLEState T) (output : Output) :
    Output :=
  write state.lastValue state.lastSeenCount state.allNull output

/-- The part of `RLEState::Update` that looks at the value. -/
def count [BEq T] (write : T → Nat → Bool → Output → Output) (state : RLEState T)
    (output : Output) : Option T → RLEState T × Output
  | some value =>
      if state.allNull then
        -- the first valid value, but there may have been NULLs in front of it
        (⟨state.seenCount + 1, value, increment state.lastSeenCount, false⟩, output)
      else if state.lastValue == value then
        ({ state with lastSeenCount := increment state.lastSeenCount }, output)
      else if 0 < state.lastSeenCount then
        (⟨state.seenCount + 1, value, 1, state.allNull⟩, state.flush write output)
      else (⟨state.seenCount, value, 1, state.allNull⟩, output)
  | none => ({ state with lastSeenCount := increment state.lastSeenCount }, output)

/-- The part of `RLEState::Update` that looks at the count. -/
def limit (write : T → Nat → Bool → Output → Output) (state : RLEState T) (output : Output) :
    RLEState T × Output :=
  if state.lastSeenCount = maxCount then
    ({ state with lastSeenCount := 0, seenCount := state.seenCount + 1 }, state.flush write output)
  else (state, output)

/-- `RLEState::Update`. -/
def update [BEq T] (write : T → Nat → Bool → Output → Output) (state : RLEState T)
    (output : Output) (value : Option T) : RLEState T × Output :=
  let (counted, written) := state.count write output value
  counted.limit write written

end RLEState

/-- A segment, with the values that its statistics were updated with. -/
structure RLESegment (T : Type) where
  start : Nat
  count : Nat
  entries : List (Run T)
  statistics : List T
  deriving DecidableEq, Repr

namespace RLESegment

def node (segment : RLESegment T) : SegmentNode := ⟨segment.start, segment.count⟩

/-- `RLECompressState::CreateEmptySegment`. -/
def createEmpty (rowStart : Nat) : RLESegment T := ⟨rowStart, 0, [], []⟩

end RLESegment

/-- What `RLECompressState` writes to: the segments that were flushed and the current one. -/
structure RLEOutput (T : Type) where
  segments : List (RLESegment T)
  current : RLESegment T

namespace RLEOutput

/-- `RLECompressState::FlushSegment`; segments without rows are not kept. -/
def flushSegment (output : RLEOutput T) : List (RLESegment T) :=
  if output.current.count = 0 then output.segments else output.segments ++ [output.current]

/-- `RLECompressState::WriteValue`. -/
def writeValue (maxRLECount : Nat) (writeStatistics : Bool) (value : T) (count : Nat)
    (isNull : Bool) (output : RLEOutput T) : RLEOutput T :=
  let current := output.current
  let written : RLESegment T :=
    { current with
      entries := current.entries ++ [⟨value, count⟩]
      statistics :=
        if writeStatistics && !isNull then current.statistics ++ [value] else current.statistics
      count := current.count + count }
  if written.entries.length = maxRLECount then
    ⟨flushSegment ⟨output.segments, written⟩, .createEmpty (written.start + written.count)⟩
  else ⟨output.segments, written⟩

end RLEOutput

/-- The loop of `RLECompressState::Append`. -/
def append [BEq T] (maxRLECount : Nat) (writeStatistics : Bool) :
    RLEState T × RLEOutput T → List (Option T) → RLEState T × RLEOutput T
  | state, [] => state
  | (state, output), value :: rest =>
      append maxRLECount writeStatistics
        (state.update (RLEOutput.writeValue maxRLECount writeStatistics) output value) rest

/-- `RLEInitCompression`, `RLECompress` for some vectors, and `RLEFinalizeCompress`. -/
def compress [BEq T] (maxRLECount : Nat) (writeStatistics : Bool) (nullValue : T) (start : Nat)
    (vectors : List (List (Option T))) : List (RLESegment T) :=
  let (state, output) := vectors.foldl (append maxRLECount writeStatistics)
    (.create nullValue, ⟨[], .createEmpty start⟩)
  (state.flush (RLEOutput.writeValue maxRLECount writeStatistics) output).flushSegment

/-! ## The size of a segment -/

def headerSize : Nat := 8

/-- `AlignValue` for eight bytes. -/
def alignValue (size : Nat) : Nat := (size + 7) / 8 * 8

/-- `RLECompressState::MaxRLECount`, given the sizes of a block and of a value. -/
def maxRLECount (blockSize valueSize : Nat) : Nat :=
  (blockSize - headerSize) / (valueSize + 2) / 8 * 8

/-- What `RLECompressState::FlushSegment` finds the size of a segment to be. -/
def totalSegmentSize (valueSize entryCount : Nat) : Nat :=
  alignValue (headerSize + valueSize * entryCount) + 2 * entryCount

/-- Blocks of the least size have room for runs of values of all sizes. -/
theorem maxRLECount_pos {blockSize valueSize : Nat} (large : 16384 ≤ blockSize + 8)
    (small : valueSize ≤ 16) : 0 < maxRLECount blockSize valueSize := by
  have runs : 8 ≤ (blockSize - headerSize) / (valueSize + 2) := by
    rw [Nat.le_div_iff_mul_le (Nat.succ_pos _), headerSize]
    omega
  rw [maxRLECount]
  omega

/-- A segment with no more runs than allowed fits into its block. -/
theorem totalSegmentSize_le {blockSize valueSize entryCount : Nat} (header : headerSize ≤ blockSize)
    (few : entryCount ≤ maxRLECount blockSize valueSize) :
    totalSegmentSize valueSize entryCount ≤ blockSize := by
  obtain ⟨groups, hgroups⟩ : ∃ groups, groups = (blockSize - headerSize) / (valueSize + 2) / 8 :=
    ⟨_, rfl⟩
  have room : groups * 8 * (valueSize + 2) ≤ blockSize - headerSize := by
    have runs : groups * 8 ≤ (blockSize - headerSize) / (valueSize + 2) := by
      rw [hgroups]
      exact Nat.div_mul_le_self _ _
    exact (Nat.le_div_iff_mul_le (Nat.succ_pos _)).mp runs
  rw [maxRLECount, ← hgroups] at few
  have values : valueSize * entryCount ≤ 8 * (valueSize * groups) := by
    calc
      valueSize * entryCount ≤ valueSize * (groups * 8) := Nat.mul_le_mul_left _ few
      _ = 8 * (valueSize * groups) := by ring
  have split : groups * 8 * (valueSize + 2) = 8 * (valueSize * groups) + 16 * groups := by ring
  rw [split] at room
  rw [totalSegmentSize, alignValue, headerSize] at *
  omega

/-! ## What the segments stand for -/

variable [BEq T]

/-- The value read is the original one, or `==` to it. -/
def Restores (original : Option T) (read : T) : Prop :=
  ∀ value, original = some value → read = value ∨ (read == value) = true

/-- A segment as it is flushed. -/
structure RLESegment.Valid (maxRLECount : Nat) (segment : RLESegment T) : Prop where
  few : segment.entries.length ≤ maxRLECount
  counts : ∀ run ∈ segment.entries, run.count ≤ maxCount
  proper : Run.Proper segment.entries
  count : (Run.expand segment.entries).length = segment.count
  nonempty : 0 < segment.count

/-- The segments follow each other from `start` on and stand for the values. -/
structure Stored (maxRLECount start : Nat) (values : List (Option T))
    (segments : List (RLESegment T)) : Prop where
  valid : ∀ segment ∈ segments, segment.Valid maxRLECount
  contiguous : SegmentTree.Contiguous start (segments.map RLESegment.node)
  restores : List.Forall₂ Restores values (segments.flatMap fun segment => Run.expand segment.entries)

namespace RLEOutput

/-- The flushed segments and the current one stand for the values. -/
structure Writes (maxRLECount start : Nat) (values : List (Option T)) (output : RLEOutput T) :
    Prop where
  valid : ∀ segment ∈ output.segments, segment.Valid maxRLECount
  contiguous : SegmentTree.Contiguous start
    (output.segments.map RLESegment.node ++ [output.current.node])
  few : output.current.entries.length ≤ maxRLECount
  counts : ∀ run ∈ output.current.entries, run.count ≤ maxCount
  proper : Run.Proper output.current.entries
  count : (Run.expand output.current.entries).length = output.current.count
  restores : List.Forall₂ Restores values
    ((output.segments.flatMap fun segment => Run.expand segment.entries) ++
      Run.expand output.current.entries)

/-- There is room for another run, and none of the runs is empty. -/
structure Holds (maxRLECount start : Nat) (values : List (Option T)) (output : RLEOutput T) : Prop
    extends Writes maxRLECount start values output where
  room : output.current.entries.length < maxRLECount
  positive : ∀ run ∈ output.current.entries, 0 < run.count

variable {maxRLECount start : Nat} {values : List (Option T)} {output : RLEOutput T}

theorem Writes.flushSegment (writes : Writes maxRLECount start values output) :
    Stored maxRLECount start values output.flushSegment := by
  obtain ⟨front, -⟩ := SegmentTree.contiguous_append.mp writes.contiguous
  rw [RLEOutput.flushSegment]
  by_cases empty : output.current.count = 0
  · rw [if_pos empty]
    refine ⟨writes.valid, front, ?_⟩
    have nothing : Run.expand output.current.entries = [] := by
      rw [← List.length_eq_zero_iff, writes.count]
      exact empty
    have restores := writes.restores
    rw [nothing, List.append_nil] at restores
    exact restores
  · rw [if_neg empty]
    refine ⟨fun segment member => ?_, ?_, ?_⟩
    · rcases List.mem_append.mp member with old | new
      · exact writes.valid segment old
      · rw [List.mem_singleton.mp new]
        exact ⟨writes.few, writes.counts, writes.proper, writes.count, Nat.pos_of_ne_zero empty⟩
    · rw [List.map_append, List.map_singleton]
      exact writes.contiguous
    · rw [List.flatMap_append, List.flatMap_singleton]
      exact writes.restores

/-- A new segment behind segments that stand for the values. -/
theorem Holds.of_stored {segments : List (RLESegment T)} (room : 0 < maxRLECount)
    (stored : Stored maxRLECount start values segments) {rowStart : Nat}
    (contiguous : SegmentTree.Contiguous start
      (segments.map RLESegment.node ++ [(RLESegment.createEmpty rowStart : RLESegment T).node])) :
    Holds maxRLECount start values ⟨segments, .createEmpty rowStart⟩ :=
  { valid := stored.valid
    contiguous
    few := Nat.zero_le _
    counts := fun _ impossible => by cases impossible
    proper := fun _ impossible => by cases impossible
    count := rfl
    restores := by
      rw [RLESegment.createEmpty, Run.expand_nil, List.append_nil]
      exact stored.restores
    room
    positive := fun _ impossible => by cases impossible }

theorem Writes.createEmpty (room : 0 < maxRLECount) (writes : Writes maxRLECount start values output) :
    Holds maxRLECount start values ⟨output.flushSegment,
      .createEmpty (output.current.start + output.current.count)⟩ := by
  refine .of_stored room writes.flushSegment ?_
  have contiguous := writes.contiguous
  rw [SegmentTree.contiguous_append] at contiguous ⊢
  obtain ⟨front, current, -⟩ := contiguous
  rw [RLEOutput.flushSegment]
  by_cases empty : output.current.count = 0
  · rw [if_pos empty, empty]
    exact ⟨front, current, trivial⟩
  · rw [if_neg empty, List.map_append, SegmentTree.contiguous_append]
    refine ⟨⟨front, current, trivial⟩, ?_, trivial⟩
    change output.current.start = _ at current
    rw [List.map_append, List.sum_append, ← Nat.add_assoc, ← current]
    rfl

/-- A run is written that stands for more values; an empty one may be the last. -/
theorem Holds.writeValue (room : 0 < maxRLECount) (holds : Holds maxRLECount start values output)
    (writeStatistics isNull : Bool) {value : T} {more : List (Option T)}
    (small : more.length ≤ maxCount) (restores : ∀ original ∈ more, Restores original value) :
    Stored maxRLECount start (values ++ more)
        (output.writeValue maxRLECount writeStatistics value more.length isNull).flushSegment ∧
      (more ≠ [] → Holds maxRLECount start (values ++ more)
        (output.writeValue maxRLECount writeStatistics value more.length isNull)) := by
  obtain ⟨written, hwritten⟩ : ∃ written : RLESegment T, written =
      { output.current with
        entries := output.current.entries ++ [⟨value, more.length⟩]
        statistics :=
          if writeStatistics && !isNull then output.current.statistics ++ [value]
          else output.current.statistics
        count := output.current.count + more.length } := ⟨_, rfl⟩
  have entries : written.entries = output.current.entries ++ [⟨value, more.length⟩] := by
    rw [hwritten]
  have expanded : Run.expand written.entries =
      Run.expand output.current.entries ++ List.replicate more.length value := by
    rw [entries, Run.expand_append, Run.expand_cons, Run.expand_nil, List.append_nil]
  have writes : Writes maxRLECount start (values ++ more) ⟨output.segments, written⟩ := by
    refine
      { valid := holds.valid
        contiguous := ?_
        few := ?_
        counts := fun run member => ?_
        proper := ?_
        count := ?_
        restores := ?_ }
    · have contiguous := holds.contiguous
      rw [SegmentTree.contiguous_append] at contiguous ⊢
      obtain ⟨front, current, -⟩ := contiguous
      rw [hwritten]
      exact ⟨front, current, trivial⟩
    · dsimp only
      rw [entries, List.length_append]
      exact holds.room
    · dsimp only at member
      rw [entries] at member
      rcases List.mem_append.mp member with old | new
      · exact holds.counts run old
      · rw [List.mem_singleton.mp new]
        exact small
    · dsimp only
      rw [entries]
      exact .append_singleton holds.positive _
    · dsimp only
      rw [expanded, List.length_append, List.length_replicate, holds.count, hwritten]
    · dsimp only
      rw [expanded, ← List.append_assoc]
      refine List.rel_append holds.restores ?_
      rw [List.forall₂_iff_get]
      refine ⟨List.length_replicate.symm, fun index inside _ => ?_⟩
      rw [List.get_eq_getElem, List.get_eq_getElem, List.getElem_replicate]
      exact restores _ (List.getElem_mem inside)
  rw [RLEOutput.writeValue, ← hwritten]
  split
  · have next := writes.createEmpty room
    exact ⟨next.flushSegment, fun _ => next⟩
  · rename_i unfinished
    refine ⟨writes.flushSegment, fun nonempty => ⟨writes, ?_, fun run member => ?_⟩⟩
    · exact Nat.lt_of_le_of_ne writes.few unfinished
    · dsimp only at member
      rw [entries] at member
      rcases List.mem_append.mp member with old | new
      · exact holds.positive run old
      · rw [List.mem_singleton.mp new]
        exact List.length_pos_of_ne_nil nonempty

end RLEOutput

/-! ## What is still counted -/

variable {writer : RLEState T × RLEOutput T}

namespace RLEState

/-- The last value stands for the values that were counted since the last flush. -/
structure Counts (state : RLEState T) (pending : List (Option T)) : Prop where
  length : pending.length = state.lastSeenCount
  nulls : state.allNull = true → ∀ original ∈ pending, original = none
  restores : ∀ original ∈ pending, Restores original state.lastValue

variable {maxRLECount start : Nat} {values pending : List (Option T)} {output : RLEOutput T}
  {state : RLEState T}

theorem restores_none (read : T) : Restores none read := fun _ impossible => by cases impossible

theorem restores_self (value : T) : Restores (some value) value :=
  fun _ same => Or.inl (Option.some.inj same)

/-- One more value is counted, as long as the count is below its limit. -/
theorem Counts.push (counts : state.Counts pending) (short : state.lastSeenCount < maxCount)
    {next : RLEState T} {original : Option T}
    (increments : next.lastSeenCount = increment state.lastSeenCount)
    (nulls : next.allNull = true → state.allNull = true ∧ original = none)
    (kept : ∀ other ∈ pending, Restores other next.lastValue)
    (restores : Restores original next.lastValue) :
    next.Counts (pending ++ [original]) ∧ next.lastSeenCount ≤ maxCount := by
  have counted : next.lastSeenCount = state.lastSeenCount + 1 := by
    rw [increments, increment]
    rw [maxCount] at short
    omega
  refine ⟨⟨?_, fun all other member => ?_, fun other member => ?_⟩, ?_⟩
  · rw [List.length_append, counts.length, counted]
    rfl
  · rcases List.mem_append.mp member with old | new
    · exact counts.nulls (nulls all).1 other old
    · rw [List.mem_singleton.mp new]
      exact (nulls all).2
  · rcases List.mem_append.mp member with old | new
    · exact kept other old
    · rw [List.mem_singleton.mp new]
      exact restores
  · rw [counted]
    exact short

theorem counts_nil (state : RLEState T) (none_seen : state.lastSeenCount = 0) : state.Counts [] :=
  ⟨none_seen.symm, fun _ _ impossible => (by cases impossible),
    fun _ impossible => (by cases impossible)⟩

/-- What was counted is written. -/
theorem Counts.flush (counts : state.Counts pending) (room : 0 < maxRLECount)
    (writeStatistics : Bool) (small : state.lastSeenCount ≤ maxCount)
    (holds : RLEOutput.Holds maxRLECount start values output) :
    Stored maxRLECount start (values ++ pending)
        (state.flush (RLEOutput.writeValue maxRLECount writeStatistics) output).flushSegment ∧
      (pending ≠ [] → RLEOutput.Holds maxRLECount start (values ++ pending)
        (state.flush (RLEOutput.writeValue maxRLECount writeStatistics) output)) := by
  rw [RLEState.flush, ← counts.length]
  rw [← counts.length] at small
  exact holds.writeValue room writeStatistics state.allNull small counts.restores

/-- The values seen are written, or still counted. -/
def Accounts (maxRLECount start : Nat) (seen : List (Option T))
    (writer : RLEState T × RLEOutput T) : Prop :=
  ∃ written pending, written ++ pending = seen ∧
    RLEOutput.Holds maxRLECount start written writer.2 ∧ writer.1.Counts pending ∧
    writer.1.lastSeenCount < maxCount

/-- `RLEState::Update` accounts for the value. -/
theorem Accounts.update (accounts : Accounts maxRLECount start seen writer) (room : 0 < maxRLECount)
    (writeStatistics : Bool) (original : Option T) :
    Accounts maxRLECount start (seen ++ [original]) (writer.1.update
      (RLEOutput.writeValue maxRLECount writeStatistics) writer.2 original) := by
  obtain ⟨state, output⟩ := writer
  obtain ⟨values, pending, rfl, holds, counts, short⟩ := accounts
  dsimp only at holds counts short ⊢
  obtain ⟨counted, hcounted⟩ : ∃ counted, counted =
      state.count (RLEOutput.writeValue maxRLECount writeStatistics) output original := ⟨_, rfl⟩
  -- the value is counted, and at most the count reaches its limit
  have step : ∃ written pending', written ++ pending' = values ++ pending ++ [original] ∧
      RLEOutput.Holds maxRLECount start written counted.2 ∧ counted.1.Counts pending' ∧
      counted.1.lastSeenCount ≤ maxCount := by
    cases original with
    | none =>
        rw [hcounted]
        refine ⟨values, pending ++ [none], (List.append_assoc _ _ _).symm, holds, ?_⟩
        exact counts.push short rfl (fun all => ⟨all, rfl⟩) counts.restores (restores_none _)
    | some value =>
        rw [RLEState.count] at hcounted
        split at hcounted
        · rename_i all
          rw [hcounted]
          refine ⟨values, pending ++ [some value], (List.append_assoc _ _ _).symm, holds, ?_⟩
          refine counts.push short rfl (fun impossible => by cases impossible) ?_ (restores_self value)
          intro other member
          rw [counts.nulls all other member]
          exact restores_none value
        · rename_i seen
          split at hcounted
          · rename_i equal
            rw [hcounted]
            refine ⟨values, pending ++ [some value], (List.append_assoc _ _ _).symm, holds, ?_⟩
            refine counts.push short rfl (fun all => absurd all seen) counts.restores ?_
            intro other same
            rw [← Option.some.inj same]
            exact Or.inr equal
          · have single : ∀ seenCount, (⟨seenCount, value, 1, state.allNull⟩ : RLEState T).Counts
                [some value] := by
              refine fun _ => ⟨rfl, fun all => absurd all seen, fun other member => ?_⟩
              rw [List.mem_singleton.mp member]
              exact restores_self value
            split at hcounted
            · rename_i some_seen
              have nonempty : pending ≠ [] := by
                rw [← List.length_pos_iff, counts.length]
                exact some_seen
              rw [hcounted]
              exact ⟨values ++ pending, [some value], rfl,
                (counts.flush room writeStatistics short.le holds).2 nonempty, single _,
                Nat.succ_le_of_lt (by decide)⟩
            · rename_i none_seen
              have nothing : pending = [] := by
                rw [← List.length_eq_zero_iff, counts.length]
                exact Nat.eq_zero_of_not_pos none_seen
              rw [hcounted, nothing, List.append_nil]
              exact ⟨values, [some value], rfl, holds, single _, Nat.succ_le_of_lt (by decide)⟩
  obtain ⟨written, pending', all, holds', counts', small⟩ := step
  have result : state.update (RLEOutput.writeValue maxRLECount writeStatistics) output original =
      counted.1.limit (RLEOutput.writeValue maxRLECount writeStatistics) counted.2 := by
    rw [RLEState.update, ← hcounted]
  rw [result, RLEState.limit]
  split
  · rename_i full
    have nonempty : pending' ≠ [] := by
      rw [← List.length_pos_iff, counts'.length, full]
      decide
    refine ⟨written ++ pending', [], by rw [List.append_nil]; exact all,
      (counts'.flush room writeStatistics small holds').2 nonempty, counts_nil _ rfl, ?_⟩
    exact Nat.succ_pos _
  · rename_i below
    exact ⟨written, pending', all, holds', counts', Nat.lt_of_le_of_ne small below⟩

/-- So does appending a vector. -/
theorem Accounts.append (accounts : Accounts maxRLECount start seen writer) (room : 0 < maxRLECount)
    (writeStatistics : Bool) (vector : List (Option T)) :
    Accounts maxRLECount start (seen ++ vector)
      (RLE.append maxRLECount writeStatistics writer vector) := by
  induction vector generalizing seen writer with
  | nil =>
      rw [List.append_nil]
      exact accounts
  | cons original rest ih =>
      rw [RLE.append, List.append_cons]
      exact ih (accounts.update room writeStatistics original)

end RLEState

/-- The segments that are written stand for the values of all vectors. -/
theorem compress_stored {maxRLECount : Nat} (room : 0 < maxRLECount) (writeStatistics : Bool)
    (nullValue : T) (start : Nat) (vectors : List (List (Option T))) :
    Stored maxRLECount start vectors.flatten
      (compress maxRLECount writeStatistics nullValue start vectors) := by
  have accounts : ∀ seen writer, RLEState.Accounts maxRLECount start seen writer →
      RLEState.Accounts maxRLECount start (seen ++ vectors.flatten)
        (vectors.foldl (append maxRLECount writeStatistics) writer) := by
    induction vectors with
    | nil =>
        intro seen writer accounts
        rw [List.flatten_nil, List.append_nil]
        exact accounts
    | cons vector rest ih =>
        intro seen writer accounts
        rw [List.flatten_cons, ← List.append_assoc]
        exact ih _ _ (accounts.append room writeStatistics vector)
  have empty : RLEState.Accounts maxRLECount start []
      (RLEState.create nullValue, ⟨[], RLESegment.createEmpty start⟩) := by
    have nothing : Stored maxRLECount start ([] : List (Option T)) [] :=
      ⟨fun _ impossible => (by cases impossible), trivial, .nil⟩
    refine ⟨[], [], rfl, ?_, RLEState.counts_nil _ rfl, Nat.succ_pos _⟩
    exact .of_stored room nothing ⟨rfl, trivial⟩
  obtain ⟨written, pending, all, holds, counts, short⟩ := accounts [] _ empty
  rw [List.nil_append] at all
  rw [compress, ← all]
  exact (counts.flush room writeStatistics short.le holds).1

end RLE

end StatsRecommender
