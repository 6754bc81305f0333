import Mathlib.Algebra.Order.Ring.Nat
import Mathlib.Data.Int.ConditionallyCompleteOrder
import Mathlib.Data.List.Basic

/-!
# Undo buffers

`UndoBuffer` as the records in its blocks, with the three iterations over them: forward until
a callback throws, forward up to a saved position, and backward.
-/

namespace StatsRecommender

/-- A record of an undo buffer: its entry, and the length that its header states. -/
structure UndoRecord (Entry : Type) where
  entry : Entry
  length : Nat
  deriving DecidableEq, Repr

/-- `UndoBuffer`: the blocks of its allocator from the tail to the head. -/
structure UndoBuffer (Entry : Type) where
  blocks : List (List (UndoRecord Entry))
  deriving DecidableEq, Repr

/-- `UNDO_ENTRY_HEADER_SIZE`. -/
def undoEntryHeaderSize : Nat := 4 + 4

variable {Entry State Error : Type} {records : List (UndoRecord Entry)}

/-- The bytes that a record takes. -/
def UndoRecord.size (record : UndoRecord Entry) : Nat := undoEntryHeaderSize + record.length

/-- `UndoBuffer::IteratorState`: a block, and an offset in it. -/
structure IteratorState where
  current : Nat
  start : Nat
  deriving DecidableEq, Repr

namespace UndoBuffer

/-- The position of an `UndoBufferEntry`: the bytes its records take. -/
def position (records : List (UndoRecord Entry)) : Nat := (records.map UndoRecord.size).sum

/-- The entries in the order of their insertion. -/
def entries (buffer : UndoBuffer Entry) : List Entry :=
  buffer.blocks.flatMap fun records => records.map UndoRecord.entry

/-! ## Iterations -/

/-- The inner loop of `IterateEntries`, from an offset on, with where the callback threw. -/
def iterateBlock (callback : State → Entry → State × Option Error) (block : Nat) :
    List (UndoRecord Entry) → Nat → State → State × Option (Error × IteratorState)
  | [], _, state => (state, none)
  | record :: rest, start, state =>
      let data := start + undoEntryHeaderSize
      match callback state record.entry with
      | (state, some error) => (state, some (error, ⟨block, data⟩))
      | (state, none) => iterateBlock callback block rest (data + record.length) state

/-- The outer loop of `IterateEntries`, over the blocks from a given one on. -/
def iterateBlocks (callback : State → Entry → State × Option Error) :
    List (List (UndoRecord Entry)) → Nat → State → State × Option (Error × IteratorState)
  | [], _, state => (state, none)
  | records :: rest, block, state =>
      match iterateBlock callback block records 0 state with
      | (state, some thrown) => (state, some thrown)
      | (state, none) => iterateBlocks callback rest (block + 1) state

/-- `UndoBuffer::IterateEntries`. -/
def iterateEntries (buffer : UndoBuffer Entry) (callback : State → Entry → State × Option Error)
    (state : State) : State × Option (Error × IteratorState) :=
  iterateBlocks callback buffer.blocks 0 state

/-- The inner loop of `IterateEntries` with an end. -/
def iterateBlockUntil (callback : State → Entry → State) (finish : Nat) :
    List (UndoRecord Entry) → Nat → State → State
  | [], _, state => state
  | record :: rest, start, state =>
      if start < finish then
        iterateBlockUntil callback finish rest (start + undoEntryHeaderSize + record.length)
          (callback state record.entry)
      else state

/-- The outer loop of `IterateEntries` with an end state. -/
def iterateBlocksUntil (callback : State → Entry → State) (endState : IteratorState) :
    List (List (UndoRecord Entry)) → Nat → State → State
  | [], _, state => state
  | records :: rest, block, state =>
      let finish := if block = endState.current then endState.start else position records
      let state := iterateBlockUntil callback finish records 0 state
      if block = endState.current then state
      else iterateBlocksUntil callback endState rest (block + 1) state

/-- `UndoBuffer::IterateEntries` with an end state. -/
def iterateEntriesUntil (buffer : UndoBuffer Entry) (callback : State → Entry → State)
    (endState : IteratorState) (state : State) : State :=
  iterateBlocksUntil callback endState buffer.blocks 0 state

/-- `UndoBuffer::ReverseIterateEntries`: the head first, and each block from its last record. -/
def reverseIterateEntries (buffer : UndoBuffer Entry) (callback : State → Entry → State)
    (state : State) : State :=
  buffer.blocks.reverse.foldl
    (fun state records => (records.map UndoRecord.entry).reverse.foldl callback state) state

/-! ## What they come to -/

/-- The callback on some entries in turn, until it throws. -/
def runEntries (callback : State → Entry → State × Option Error) :
    State → List Entry → State × Option Error
  | state, [] => (state, none)
  | state, entry :: rest =>
      match callback state entry with
      | (state, some error) => (state, some error)
      | (state, none) => runEntries callback state rest

/-- The callback threw on an entry behind those it took. -/
def ThrowsAt (callback : State → Entry → State × Option Error) (state : State)
    (before : List Entry) (failing : Entry) (stopped : State) (error : Error) : Prop :=
  ∃ reached, runEntries callback state before = (reached, none) ∧
    callback reached failing = (stopped, some error)

section Runs

variable {callback : State → Entry → State × Option Error} {state reached stopped : State}
  {before after front back : List Entry} {failing : Entry} {error : Error}

theorem runEntries_cons {entry : Entry} {rest : List Entry}
    (run : runEntries callback state (entry :: rest) = (reached, none)) :
    ∃ next, callback state entry = (next, none) ∧
      runEntries callback next rest = (reached, none) := by
  rw [runEntries] at run
  split at run
  · cases run
  · rename_i next taken
    exact ⟨next, taken, run⟩

theorem runEntries_append (run : runEntries callback state (front ++ back) = (reached, none)) :
    ∃ middle, runEntries callback state front = (middle, none) ∧
      runEntries callback middle back = (reached, none) := by
  induction front generalizing state with
  | nil => exact ⟨state, rfl, run⟩
  | cons entry rest ih =>
      obtain ⟨next, taken, run⟩ := runEntries_cons run
      obtain ⟨middle, first, second⟩ := ih run
      refine ⟨middle, ?_, second⟩
      rw [runEntries, taken]
      exact first

/-- A block whose entries are all taken. -/
theorem iterateBlock_none (block start : Nat)
    (run : runEntries callback state (records.map UndoRecord.entry) = (reached, none)) :
    iterateBlock callback block records start state = (reached, none) := by
  induction records generalizing state start with
  | nil =>
      cases run
      rfl
  | cons record rest ih =>
      obtain ⟨next, taken, run⟩ := runEntries_cons run
      rw [iterateBlock, taken]
      exact ih _ run

/-- The block in which the callback throws, and where. -/
theorem iterateBlock_throws {rest : List (UndoRecord Entry)} {record : UndoRecord Entry}
    (block start : Nat)
    (throws : ThrowsAt callback state (records.map UndoRecord.entry) record.entry stopped error) :
    iterateBlock callback block (records ++ record :: rest) start state =
      (stopped, some (error, ⟨block, start + position records + undoEntryHeaderSize⟩)) := by
  obtain ⟨reached, run, fails⟩ := throws
  induction records generalizing state start with
  | nil =>
      cases run
      rw [List.nil_append, iterateBlock, fails]
      rfl
  | cons first others ih =>
      obtain ⟨next, taken, run⟩ := runEntries_cons run
      rw [List.cons_append, iterateBlock, taken]
      dsimp only
      rw [ih _ run]
      rw [position, position, List.map_cons, List.sum_cons, UndoRecord.size]
      simp only [Nat.add_assoc]

theorem position_cons (record : UndoRecord Entry) (records : List (UndoRecord Entry)) :
    position (record :: records) = undoEntryHeaderSize + record.length + position records := by
  rw [position, List.map_cons, List.sum_cons]
  rfl

/-- An end behind the records stops nothing. -/
theorem iterateBlockUntil_all (revert : State → Entry → State)
    (records : List (UndoRecord Entry)) (start : Nat) (state : State) :
    iterateBlockUntil revert (start + position records) records start state =
      (records.map UndoRecord.entry).foldl revert state := by
  induction records generalizing start state with
  | nil => rfl
  | cons record rest ih =>
      have inside : start < start + position (record :: rest) := by
        rw [position_cons, undoEntryHeaderSize]
        omega
      rw [iterateBlockUntil, if_pos inside, position_cons]
      have same : start + (undoEntryHeaderSize + record.length + position rest) =
          start + undoEntryHeaderSize + record.length + position rest := by omega
      rw [same, ih]
      rfl

/-- An end behind the header of a record stops after that record. -/
theorem iterateBlockUntil_header (revert : State → Entry → State)
    (records rest : List (UndoRecord Entry)) (record : UndoRecord Entry) (start : Nat)
    (state : State) :
    iterateBlockUntil revert (start + position records + undoEntryHeaderSize)
        (records ++ record :: rest) start state =
      (records.map UndoRecord.entry ++ [record.entry]).foldl revert state := by
  induction records generalizing start state with
  | nil =>
      have inside : start < start + position ([] : List (UndoRecord Entry)) +
          undoEntryHeaderSize := by
        rw [undoEntryHeaderSize]
        omega
      rw [List.nil_append, iterateBlockUntil, if_pos inside]
      cases rest with
      | nil => rfl
      | cons next others =>
          rw [iterateBlockUntil, if_neg]
          · rfl
          · rw [position, List.map_nil, List.sum_nil]
            omega
  | cons first others ih =>
      have inside : start < start + position (first :: others) + undoEntryHeaderSize := by
        rw [undoEntryHeaderSize]
        omega
      rw [List.cons_append, iterateBlockUntil, if_pos inside, position_cons]
      have same : start + (undoEntryHeaderSize + first.length + position others) +
          undoEntryHeaderSize = start + undoEntryHeaderSize + first.length + position others +
            undoEntryHeaderSize := by omega
      rw [same, ih]
      rfl

end Runs

/-- The records on the two sides of an entry. -/
theorem split_records {before after : List Entry} {failing : Entry}
    (split : records.map UndoRecord.entry = before ++ failing :: after) :
    ∃ front record back, records = front ++ record :: back ∧
      front.map UndoRecord.entry = before ∧ record.entry = failing := by
  obtain ⟨front, rest, rfl, hfront, hrest⟩ := List.map_eq_append_iff.mp split
  obtain ⟨record, back, rfl, hrecord, -⟩ := List.map_eq_cons_iff.mp hrest
  exact ⟨front, record, back, rfl, hfront, hrecord⟩

variable {callback : State → Entry → State × Option Error} {state stopped : State}
  {before after : List Entry} {failing : Entry} {error : Error}

/--
The forward iteration stops where the callback throws, and the iteration with that end takes
the entries before it and the entry itself.
-/
theorem iterateBlocks_throws {blocks : List (List (UndoRecord Entry))} (block : Nat)
    (split : (blocks.flatMap fun records => records.map UndoRecord.entry) =
      before ++ failing :: after)
    (throws : ThrowsAt callback state before failing stopped error) :
    ∃ endState, block ≤ endState.current ∧
      iterateBlocks callback blocks block state = (stopped, some (error, endState)) ∧
      ∀ (revert : State → Entry → State) (state : State),
        iterateBlocksUntil revert endState blocks block state =
          (before ++ [failing]).foldl revert state := by
  obtain ⟨reached, run, fails⟩ := throws
  induction blocks generalizing block state before with
  | nil =>
      exact absurd split.symm (by simp)
  | cons records rest ih =>
      rw [List.flatMap_cons] at split
      rcases List.append_eq_append_iff.mp split with ⟨behind, hbefore, hrest⟩ | ⟨behind, hrecords,
        hrest⟩
      · -- the block is taken whole
        rw [hbefore] at run
        obtain ⟨middle, first, second⟩ := runEntries_append run
        obtain ⟨endState, later, stops, until_end⟩ := ih (block + 1) hrest second
        refine ⟨endState, Nat.le_of_succ_le later, ?_, fun revert state => ?_⟩
        · rw [iterateBlocks, iterateBlock_none block 0 first]
          exact stops
        · have other : block ≠ endState.current := by omega
          rw [iterateBlocksUntil, if_neg other, if_neg other, until_end, hbefore]
          have whole := iterateBlockUntil_all revert records 0 state
          rw [Nat.zero_add] at whole
          rw [whole, List.append_assoc]
          exact List.foldl_append.symm
      · cases behind with
        | nil =>
            -- the block is taken whole, and the next one starts with the entry
            rw [List.append_nil] at hrecords
            rw [← hrecords] at run
            have next : (rest.flatMap fun records => records.map UndoRecord.entry) =
                [] ++ failing :: after := hrest.symm
            obtain ⟨endState, later, stops, until_end⟩ := ih (block + 1) next rfl
            refine ⟨endState, Nat.le_of_succ_le later, ?_, fun revert state => ?_⟩
            · rw [iterateBlocks, iterateBlock_none block 0 run]
              exact stops
            · have other : block ≠ endState.current := by omega
              rw [iterateBlocksUntil, if_neg other, if_neg other, until_end, ← hrecords]
              have whole := iterateBlockUntil_all revert records 0 state
              rw [Nat.zero_add] at whole
              rw [whole, List.nil_append]
              exact List.foldl_append.symm
        | cons head tail =>
            obtain ⟨rfl, -⟩ := List.cons.inj hrest
            obtain ⟨front, record, back, rfl, rfl, rfl⟩ := split_records hrecords
            refine ⟨⟨block, 0 + position front + undoEntryHeaderSize⟩, Nat.le_refl _, ?_, ?_⟩
            · rw [iterateBlocks, iterateBlock_throws block 0 ⟨_, run, fails⟩]
            · intro revert state
              rw [iterateBlocksUntil, if_pos rfl, if_pos rfl]
              exact iterateBlockUntil_header revert front back record 0 state

/-- What a thrown error leaves, and what the iteration up to it takes. -/
theorem iterateEntries_throws {buffer : UndoBuffer Entry}
    (split : buffer.entries = before ++ failing :: after)
    (throws : ThrowsAt callback state before failing stopped error) :
    ∃ endState, buffer.iterateEntries callback state = (stopped, some (error, endState)) ∧
      ∀ (revert : State → Entry → State) (state : State),
        buffer.iterateEntriesUntil revert endState state =
          (before ++ [failing]).foldl revert state := by
  obtain ⟨endState, -, stops, until_end⟩ := iterateBlocks_throws 0 split throws
  exact ⟨endState, stops, until_end⟩

/-- The backward iteration takes the entries from the last to the first. -/
theorem reverseIterateEntries_eq (buffer : UndoBuffer Entry) (callback : State → Entry → State)
    (state : State) :
    buffer.reverseIterateEntries callback state = buffer.entries.reverse.foldl callback state := by
  obtain ⟨blocks⟩ := buffer
  rw [reverseIterateEntries, entries]
  dsimp only
  induction blocks generalizing state with
  | nil => rfl
  | cons records rest ih =>
      rw [List.reverse_cons, List.foldl_append, ih, List.flatMap_cons, List.reverse_append,
        List.foldl_append]
      rfl

end UndoBuffer

end StatsRecommender
