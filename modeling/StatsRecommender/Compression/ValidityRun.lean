import Mathlib.Data.List.GetD
import StatsRecommender.Compression.ValidityUncompressed

/-!
# Validity segments over whole runs

The bits of an uncompressed validity segment after any appends and reverts, and that every scan
copies them to the rows it covers and to no other row.
-/

namespace StatsRecommender

variable {startRow : Nat}

open BitWords

namespace ValidityMask

theorem rowIsValidUnsafe_eq (entries : Words 64) (row : Nat) :
    rowIsValidUnsafe entries row = bitAt entries row := by
  have inside : row % 64 < 64 := Nat.mod_lt _ (by decide)
  have bits : ∀ place, (entries (row / 64) &&& 1#64 <<< (row % 64)).getLsbD place =
      ((entries (row / 64)).getLsbD place && decide (place < 64) && decide (place = row % 64)) := by
    intro place
    by_cases small : place < 64
    · rw [BitVec.getLsbD_and, getLsbD_one_shiftLeft small]
      simp [small]
    · simp [BitVec.getLsbD_of_ge _ _ (Nat.le_of_not_lt small)]
  rw [rowIsValidUnsafe, bitAt, bitsPerValue, Bool.eq_iff_iff, bne_iff_ne]
  constructor
  · intro differs
    by_contra unset
    refine differs (BitVec.eq_of_getLsbD_eq fun place _ => ?_)
    change _ = (0#64).getLsbD place
    rw [bits, BitVec.getLsbD_zero]
    by_cases same : place = row % 64
    · simp [same, Bool.not_eq_true _ ▸ unset]
    · simp [same]
  · intro set zero
    have lost := bits (row % 64)
    rw [zero, set] at lost
    simp [inside] at lost

/-- The rows of a mask are the bits of its entries, of ones where it has none. -/
theorem rowIsValid_eq (mask : ValidityMask) (row : Nat) :
    mask.rowIsValid row = bitAt mask.initialized row := by
  cases mask with
  | none => exact (bitAt_ones (by decide) row).symm
  | some entries => exact rowIsValidUnsafe_eq entries row

theorem rowIsValid_some (entries : Words 64) (row : Nat) :
    rowIsValid (some entries) row = bitAt entries row :=
  rowIsValidUnsafe_eq entries row

theorem rowIsValid_setInvalid (mask : ValidityMask) (row other : Nat) :
    (mask.setInvalid row).rowIsValid other = (mask.rowIsValid other && !decide (other = row)) := by
  rw [setInvalid, rowIsValid_some, bitAt_clearBit (by decide), rowIsValid_eq]

end ValidityMask

namespace ValidityUncompressed

open ValidityMask

/-! ## The tables of masks -/

theorem getLsbD_lowerMask {bits place : Nat} (small : bits ≤ 64) (inside : place < 64) :
    (lowerMask bits).getLsbD place = decide (place < bits) := by
  have table : ∀ bits < 65, lowerMask bits = BitVec.ofNat 64 (2 ^ bits - 1) := by decide
  rw [table bits (Nat.lt_succ_of_le small), BitVec.getLsbD_ofNat, Nat.testBit_two_pow_sub_one]
  simp [inside]

theorem getLsbD_upperMask {bits place : Nat} (small : bits ≤ 64) (inside : place < 64) :
    (upperMask bits).getLsbD place = decide (64 - bits ≤ place) := by
  have table : ∀ bits < 65, upperMask bits = ~~~lowerMask (64 - bits) := by decide
  rw [table bits (Nat.lt_succ_of_le small), BitVec.getLsbD_not,
    getLsbD_lowerMask (Nat.sub_le _ _) inside, decide_eq_true inside, Bool.true_and]
  simp only [← decide_not, Nat.not_lt]

/-! ## The unaligned scan -/

/-- A window is copied, and every bit around it is one. -/
theorem getLsbD_windowMask (inputMask : BitVec 64) {inputIdx resultIdx windowSize place : Nat}
    (input : inputIdx + windowSize ≤ 64) (result : resultIdx + windowSize ≤ 64)
    (inside : place < 64) :
    (windowMask inputMask inputIdx resultIdx windowSize).getLsbD place =
      if resultIdx ≤ place ∧ place < resultIdx + windowSize then
        inputMask.getLsbD (place - resultIdx + inputIdx)
      else true := by
  have upper : 64 - (bitsPerValue - resultIdx - windowSize) = resultIdx + windowSize := by
    rw [bitsPerValue]
    omega
  have upper_small : bitsPerValue - resultIdx - windowSize ≤ 64 := by
    rw [bitsPerValue]
    omega
  rw [windowMask, BitVec.getLsbD_or, BitVec.getLsbD_or, getLsbD_lowerMask (by omega) inside,
    getLsbD_upperMask upper_small inside, upper]
  by_cases window : resultIdx ≤ place ∧ place < resultIdx + windowSize
  · rw [if_pos window, decide_eq_false (Nat.not_le.mpr window.2),
      decide_eq_false (Nat.not_lt.mpr window.1), Bool.or_false, Bool.or_false]
    by_cases right : resultIdx < inputIdx
    · have moved : inputIdx - resultIdx + place = place - resultIdx + inputIdx := by omega
      rw [if_pos right, BitVec.getLsbD_ushiftRight, moved]
    · have moved : place - (resultIdx - inputIdx) = place - resultIdx + inputIdx := by omega
      have kept : ¬ 64 - (resultIdx - inputIdx) ≤ place - resultIdx + inputIdx := by omega
      rw [if_neg right, BitVec.getLsbD_shiftLeft, BitVec.getLsbD_and, BitVec.getLsbD_not, moved,
        getLsbD_upperMask (by omega) (by omega), decide_eq_false kept]
      have place_high : ¬ place < resultIdx - inputIdx := by omega
      have low : place - resultIdx + inputIdx < 64 := by omega
      simp [inside, place_high, low]
  · rw [if_neg window]
    rcases not_and_or.mp window with below | above
    · rw [decide_eq_true (Nat.lt_of_not_le below), Bool.or_true]
    · rw [decide_eq_true (Nat.le_of_not_lt above), Bool.or_true, Bool.true_or]

/-- A masked entry, seen from the rows of the mask. -/
theorem rowIsValid_maskEntry (mask : ValidityMask) (entry : Nat) (word : BitVec 64) (row : Nat) :
    (maskEntry mask entry word).rowIsValid row =
      (mask.rowIsValid row && (decide (row / 64 ≠ entry) || word.getLsbD (row % 64))) := by
  rw [maskEntry]
  split
  · rw [rowIsValid_some, bitAt_maskWord, rowIsValid_eq]
  · rename_i full
    rw [not_not.mp full, BitVec.getLsbD_allOnes]
    simp [Nat.mod_lt]

/-- The two places of the scan, and the rows it has copied so far. -/
structure Copied (input : Words 64) (inputStart resultOffset : Nat) (original : ValidityMask)
    (state : UnalignedScanState) : Prop where
  inputIdx_lt : state.inputIdx < 64
  resultIdx_lt : state.resultIdx < 64
  input_eq : state.inputEntry * 64 + state.inputIdx = inputStart + state.pos
  result_eq : state.resultEntry * 64 + state.resultIdx = resultOffset + state.pos
  inside : ∀ row, resultOffset ≤ row → row < resultOffset + state.pos →
    state.resultMask.rowIsValid row =
      (original.rowIsValid row && bitAt input (inputStart + (row - resultOffset)))
  outside : ∀ row, ¬(resultOffset ≤ row ∧ row < resultOffset + state.pos) →
    state.resultMask.rowIsValid row = original.rowIsValid row

variable {input : Words 64} {inputStart resultOffset scanCount : Nat} {original : ValidityMask}
  {state : UnalignedScanState} {position : Nat}

/-- A place in a sequence of words moves on by a window of its word. -/
theorem advance {entry idx windowSize : Nat} (inside : idx + windowSize ≤ 64)
    (place : entry * 64 + idx = position) :
    (if (idx + windowSize) % bitsPerValue = 0 then entry + 1 else entry) * 64 +
        (idx + windowSize) % bitsPerValue = position + windowSize ∨ windowSize = 0 := by
  rw [bitsPerValue]
  split <;> omega

/-- One window more is copied. -/
theorem Copied.scanWindow (copied : Copied input inputStart resultOffset original state)
    (unfinished : state.pos < scanCount) :
    Copied input inputStart resultOffset original (scanWindow input scanCount state) ∧
      state.pos < (ValidityUncompressed.scanWindow input scanCount state).pos ∧
      (ValidityUncompressed.scanWindow input scanCount state).pos ≤ scanCount := by
  obtain ⟨inputIdx_lt, resultIdx_lt, input_eq, result_eq, inside, outside⟩ := copied
  obtain ⟨windowSize, window⟩ : ∃ windowSize, windowSize =
      min (min (scanCount - state.pos) (bitsPerValue - state.inputIdx))
        (min (scanCount - state.pos) (bitsPerValue - state.resultIdx)) := ⟨_, rfl⟩
  obtain ⟨positive, enough, input_fits, result_fits⟩ : 0 < windowSize ∧
      state.pos + windowSize ≤ scanCount ∧ state.inputIdx + windowSize ≤ 64 ∧
      state.resultIdx + windowSize ≤ 64 := by
    rw [bitsPerValue] at window
    omega
  rw [ValidityUncompressed.scanWindow]
  dsimp only
  rw [← window]
  -- what the masked entry keeps of a row
  have masked : ∀ row, (maskEntry state.resultMask state.resultEntry
      (windowMask (input state.inputEntry) state.inputIdx state.resultIdx windowSize)).rowIsValid
        row =
      (state.resultMask.rowIsValid row &&
        if resultOffset + state.pos ≤ row ∧ row < resultOffset + state.pos + windowSize then
          bitAt input (inputStart + (row - resultOffset))
        else true) := by
    intro row
    rw [rowIsValid_maskEntry, getLsbD_windowMask _ input_fits result_fits (Nat.mod_lt _ (by decide))]
    congr 1
    by_cases here : resultOffset + state.pos ≤ row ∧ row < resultOffset + state.pos + windowSize
    · have word : row / 64 = state.resultEntry := by omega
      have place : state.resultIdx ≤ row % 64 ∧ row % 64 < state.resultIdx + windowSize := by omega
      have source : (inputStart + (row - resultOffset)) / 64 = state.inputEntry ∧
          (inputStart + (row - resultOffset)) % 64 =
            row % 64 - state.resultIdx + state.inputIdx := by omega
      rw [if_pos here, if_pos place, bitAt, source.1, source.2]
      simp [word]
    · rw [if_neg here]
      by_cases word : row / 64 = state.resultEntry
      · have place : ¬(state.resultIdx ≤ row % 64 ∧ row % 64 < state.resultIdx + windowSize) := by
          omega
        rw [if_neg place, Bool.or_true]
      · simp [word]
  refine ⟨⟨Nat.mod_lt _ (by decide), Nat.mod_lt _ (by decide), ?_, ?_, ?_, ?_⟩, by omega, enough⟩
  · have moved := (advance input_fits input_eq).resolve_right (Nat.pos_iff_ne_zero.mp positive)
    rw [← Nat.add_assoc]
    exact moved
  · have moved := (advance result_fits result_eq).resolve_right (Nat.pos_iff_ne_zero.mp positive)
    rw [← Nat.add_assoc]
    exact moved
  · intro row low high
    change row < resultOffset + (state.pos + windowSize) at high
    rw [masked row]
    by_cases here : resultOffset + state.pos ≤ row ∧ row < resultOffset + state.pos + windowSize
    · rw [if_pos here, outside row (by omega)]
    · rw [if_neg here, Bool.and_true, inside row low (by omega)]
  · intro row apart
    change ¬(resultOffset ≤ row ∧ row < resultOffset + (state.pos + windowSize)) at apart
    rw [masked row, if_neg (by omega), Bool.and_true, outside row (by omega)]

theorem Copied.loop (fuel : Nat) (enough : scanCount ≤ state.pos + fuel)
    (short : state.pos ≤ scanCount)
    (copied : Copied input inputStart resultOffset original state) :
    Copied input inputStart resultOffset original (unalignedScanLoop input scanCount fuel state) ∧
      (unalignedScanLoop input scanCount fuel state).pos = scanCount := by
  induction fuel generalizing state with
  | zero => exact ⟨copied, Nat.le_antisymm short enough⟩
  | succ fuel ih =>
      rw [unalignedScanLoop]
      split
      · rename_i unfinished
        obtain ⟨next, further, bound⟩ := copied.scanWindow unfinished
        exact ih (by omega) bound next
      · exact ⟨copied, by omega⟩

/-- The rows of the target become the bits of the source where they were valid, and no other row changes. -/
theorem rowIsValid_unalignedScan (input : Words 64) (inputStart : Nat) (mask : ValidityMask)
    (resultOffset scanCount row : Nat) :
    (unalignedScan input inputStart mask resultOffset scanCount).rowIsValid row =
      (mask.rowIsValid row &&
        if resultOffset ≤ row ∧ row < resultOffset + scanCount then
          bitAt input (inputStart + (row - resultOffset))
        else true) := by
  have start : Copied input inputStart resultOffset mask
      { pos := 0
        inputEntry := inputStart / bitsPerValue
        inputIdx := inputStart - inputStart / bitsPerValue * bitsPerValue
        resultEntry := resultOffset / bitsPerValue
        resultIdx := resultOffset - resultOffset / bitsPerValue * bitsPerValue
        resultMask := mask } := by
    rw [bitsPerValue]
    refine ⟨?_, ?_, ?_, ?_, ?_, ?_⟩ <;> dsimp only
    · omega
    · omega
    · omega
    · omega
    · intro row low high
      omega
    · exact fun _ _ => rfl
  obtain ⟨copied, finished⟩ := start.loop scanCount (Nat.le_of_eq (Nat.zero_add scanCount).symm) (Nat.zero_le _)
  rw [unalignedScan]
  by_cases covered : resultOffset ≤ row ∧ row < resultOffset + scanCount
  · rw [if_pos covered]
    exact copied.inside row covered.1 (by rw [finished]; exact covered.2)
  · rw [if_neg covered, Bool.and_true]
    exact copied.outside row (by rw [finished]; exact covered)

/-! ## The aligned scan and the selection -/

/-- An entry that is copied, seen from the rows of the mask. -/
theorem rowIsValid_copyEntry (input : Words 64) (startOffset : Nat) (mask : ValidityMask)
    (index row : Nat) :
    (copyEntry input startOffset mask index).rowIsValid row =
      if row / 64 = index then (input (startOffset + index)).getLsbD (row % 64)
      else mask.rowIsValid row := by
  rw [copyEntry]
  split
  · rename_i skipped
    obtain ⟨absent, full⟩ := skipped
    rw [Option.isNone_iff_eq_none] at absent
    rw [full, BitVec.getLsbD_allOnes, decide_eq_true (Nat.mod_lt _ (by decide)), absent]
    exact (ite_self _).symm
  · by_cases same : row / 64 = index
    · rw [if_pos same, rowIsValid_some, bitAt_setWord_same _ same]
    · rw [if_neg same, rowIsValid_some, bitAt_setWord_other _ same, rowIsValid_eq]

theorem rowIsValid_copyEntries (input : Words 64) (startOffset count : Nat) (mask : ValidityMask)
    (row : Nat) :
    ((List.range count).foldl (copyEntry input startOffset) mask).rowIsValid row =
      if row / 64 < count then (input (startOffset + row / 64)).getLsbD (row % 64)
      else mask.rowIsValid row := by
  induction count with
  | zero => rfl
  | succ count ih =>
      rw [List.range_succ, List.foldl_append, List.foldl_cons, List.foldl_nil, rowIsValid_copyEntry,
        ih]
      by_cases last : row / 64 = count
      · rw [if_pos last, if_pos (by omega), last]
      · rw [if_neg last]
        by_cases before : row / 64 < count
        · rw [if_pos before, if_pos (by omega)]
        · rw [if_neg before, if_neg (by omega)]

/-- An aligned scan copies the bits of the rows it covers. -/
theorem rowIsValid_alignedScan (input : Words 64) (mask : ValidityMask) {row : Nat}
    (aligned : inputStart % bitsPerValue = 0) (covered : row < scanCount) :
    (alignedScan input inputStart mask scanCount).rowIsValid row =
      bitAt input (inputStart + row) := by
  rw [bitsPerValue] at aligned
  have copied : row / 64 < (scanCount + bitsPerValue - 1) / bitsPerValue := by
    rw [bitsPerValue]
    omega
  have place : (inputStart + row) / 64 = inputStart / bitsPerValue + row / 64 ∧
      (inputStart + row) % 64 = row % 64 := by
    rw [bitsPerValue]
    omega
  rw [alignedScan, rowIsValid_copyEntries, if_pos copied, bitAt, place.1, place.2]

/-- A selection marks the rows whose source is not valid, and no others. -/
theorem rowIsValid_validitySelect (input : Words 64) (start : Nat) (sel : Nat → Nat)
    (selCount : Nat) (mask : ValidityMask) (row : Nat) :
    (validitySelect input start sel selCount mask).rowIsValid row =
      (mask.rowIsValid row && if row < selCount then bitAt input (start + sel row) else true) := by
  rw [validitySelect]
  induction selCount with
  | zero => simp
  | succ count ih =>
      have step : ∀ mask' : ValidityMask,
          (if !rowIsValidUnsafe input (start + sel count) then mask'.setInvalid count
            else mask').rowIsValid row =
          (mask'.rowIsValid row &&
            if row = count then bitAt input (start + sel row) else true) := by
        intro mask'
        rw [rowIsValidUnsafe_eq]
        by_cases here : row = count
        · subst here
          cases valid : bitAt input (start + sel row) <;> simp [rowIsValid_setInvalid]
        · cases valid : bitAt input (start + sel count) <;> simp [rowIsValid_setInvalid, here]
      rw [List.range_succ, List.foldl_append, List.foldl_cons, List.foldl_nil, step, ih,
        Bool.and_assoc]
      congr 1
      by_cases last : row = count
      · simp [last]
      · by_cases before : row < count
        · simp [last, before, Nat.lt_succ_of_lt before]
        · have behind : ¬ row < count + 1 := by omega
          simp [last, before, behind]

/-! ## The bits after appends and reverts -/

theorem bitAt_setByte (entries : Words 64) (byte position : Nat) :
    bitAt (setByte entries byte) position =
      (bitAt entries position || decide (position / 8 = byte)) := by
  rw [setByte]
  by_cases word : position / 64 = byte / 8
  · rw [bitAt_setWord_same _ word, BitVec.getLsbD_or, bitAt, word, BitVec.getLsbD_shiftLeft]
    congr 1
    have bits : ∀ place, (0xFF#64).getLsbD place = decide (place < 8) := by
      intro place
      have ones : (0xFF#64) = BitVec.ofNat 64 (2 ^ 8 - 1) := rfl
      rw [ones, BitVec.getLsbD_ofNat, Nat.testBit_two_pow_sub_one, ← Bool.decide_and]
      simp only [decide_eq_decide]
      omega
    rw [bits, decide_eq_true (Nat.mod_lt _ (by decide)), Bool.true_and, ← decide_not,
      ← Bool.decide_and]
    simp only [decide_eq_decide]
    omega
  · rw [bitAt_setWord_other _ word]
    have other : position / 8 ≠ byte := by omega
    simp [other]

theorem bitAt_setBytes (entries : Words 64) (start size position : Nat) :
    bitAt (setBytes entries start size) position =
      (bitAt entries position || decide (start ≤ position / 8 ∧ position / 8 < size)) := by
  have bytes : ∀ (bytes : List Nat) (entries : Words 64),
      bitAt (bytes.foldl setByte entries) position =
        (bitAt entries position || decide (position / 8 ∈ bytes)) := by
    intro bytes
    induction bytes with
    | nil => simp
    | cons byte rest ih =>
        intro entries
        rw [List.foldl_cons, ih, bitAt_setByte, Bool.or_assoc]
        simp
  rw [setBytes, bytes]
  congr 1
  simp only [decide_eq_decide, List.mem_range'_1]
  omega

namespace Segment

variable {segment : Segment} {rows : List Bool}

/-- The bits of the rows below the count tell whether they are valid, and all others are set. -/
structure Shows (segment : Segment) (rows : List Bool) : Prop where
  count_eq : segment.count = rows.length
  count_le : segment.count ≤ segment.maxTuples
  bits : ∀ position < 8 * segment.segmentSize,
    bitAt segment.entries position = rows.getD position true

theorem maxTuples_le (segment : Segment) : segment.maxTuples ≤ 8 * segment.segmentSize := by
  have rounded := Nat.div_mul_le_self segment.segmentSize standardMaskSize
  have bits : standardVectorSize = 8 * standardMaskSize := rfl
  rw [maxTuples, bits, ← Nat.mul_assoc, Nat.mul_comm _ 8, Nat.mul_assoc]
  omega

theorem initSegment_shows (start segmentSize : Nat) (memory : Words 64) :
    (initSegment start segmentSize memory).Shows [] := by
  refine ⟨rfl, Nat.zero_le _, fun position inside => ?_⟩
  change position < 8 * segmentSize at inside
  have byte : 0 ≤ position / 8 ∧ position / 8 < segmentSize := by omega
  rw [initSegment, bitAt_setBytes, decide_eq_true byte, Bool.or_true]
  rfl

/-- The rows that an append takes. -/
def taken (segment : Segment) (data : VectorValidity) (offset vcount : Nat) : List Bool :=
  (List.range (segment.appendCount vcount)).map fun row => data.rowIsValid (offset + row)

/-- The loop clears the bits of the rows that are not valid. -/
theorem appendRows_spec (data : VectorValidity) (offset base count : Nat) (segment : Segment) :
    let appended := (List.range count).foldl (appendRow data offset base) segment
    appended.start = segment.start ∧ appended.segmentSize = segment.segmentSize ∧
      ∀ position, bitAt appended.entries position =
        (bitAt segment.entries position &&
          if base ≤ position ∧ position < base + count then
            data.rowIsValid (offset + (position - base))
          else true) := by
  induction count with
  | zero =>
      refine ⟨rfl, rfl, fun position => ?_⟩
      have nothing : ¬(base ≤ position ∧ position < base + 0) := by omega
      rw [if_neg nothing, Bool.and_true]
      rfl
  | succ count ih =>
      obtain ⟨start_eq, size_eq, bits⟩ := ih
      rw [List.range_succ, List.foldl_append, List.foldl_cons, List.foldl_nil]
      generalize (List.range count).foldl (appendRow data offset base) segment = before at *
      rw [appendRow]
      cases valid : data.rowIsValid (offset + count) with
      | true =>
          refine ⟨start_eq, size_eq, fun position => ?_⟩
          change bitAt before.entries position = _
          rw [bits position]
          congr 1
          by_cases last : position = base + count
          · subst last
            simp [valid]
          · have same : (base ≤ position ∧ position < base + count) ↔
                (base ≤ position ∧ position < base + (count + 1)) := by omega
            simp only [same]
      | false =>
          refine ⟨start_eq, size_eq, fun position => ?_⟩
          change bitAt (clearBit before.entries (base + count)) position = _
          rw [bitAt_clearBit (by decide), bits position, Bool.and_assoc]
          congr 1
          by_cases last : position = base + count
          · subst last
            simp [valid]
          · have same : (base ≤ position ∧ position < base + count) ↔
                (base ≤ position ∧ position < base + (count + 1)) := by omega
            simp [same, last]

theorem getD_append_rows (rows more : List Bool) (position : Nat) :
    (rows ++ more).getD position true =
      (rows.getD position true &&
        if rows.length ≤ position then more.getD (position - rows.length) true else true) := by
  rcases Nat.lt_or_ge position rows.length with inside | behind
  · have before : ¬ rows.length ≤ position := by omega
    rw [List.getD_append _ _ _ _ inside, if_neg before, Bool.and_true]
  · rw [List.getD_append_right _ _ _ _ behind, if_pos behind, List.getD_eq_default _ _ behind,
      Bool.true_and]

/-- An append writes the rows that it takes behind those of the segment. -/
theorem Shows.append (shows : segment.Shows rows) (data : VectorValidity) (offset vcount : Nat) :
    (segment.append data offset vcount).Shows (rows ++ segment.taken data offset vcount) ∧
      (segment.append data offset vcount).start = segment.start ∧
      (segment.append data offset vcount).segmentSize = segment.segmentSize := by
  obtain ⟨count_eq, count_le, bits⟩ := shows
  have room : segment.count + segment.appendCount vcount ≤ segment.maxTuples := by
    rw [appendCount]
    omega
  have length : (rows ++ segment.taken data offset vcount).length =
      segment.count + segment.appendCount vcount := by
    rw [List.length_append, taken, List.length_map, List.length_range, count_eq]
  have row : ∀ position, rows.length ≤ position →
      (segment.taken data offset vcount).getD (position - rows.length) true =
        if position < segment.count + segment.appendCount vcount then
          data.rowIsValid (offset + (position - segment.count))
        else true := by
    intro position behind
    rw [taken, List.getD_eq_getElem?_getD, List.getElem?_map, ← count_eq]
    split
    · rename_i inside
      rw [List.getElem?_range (by omega)]
      rfl
    · rw [List.getElem?_eq_none (by rw [List.length_range]; omega)]
      rfl
  rw [Segment.append]
  dsimp only
  split
  · rename_i absent
    have valid : ∀ other, data.rowIsValid other = true := by
      intro other
      rw [VectorValidity.rowIsValid, Option.isNone_iff_eq_none.mp absent]
      rfl
    refine ⟨⟨length.symm, room, fun position inside => ?_⟩, rfl, rfl⟩
    rw [getD_append_rows]
    change bitAt segment.entries position = _
    rw [bits position inside]
    by_cases behind : rows.length ≤ position
    · rw [if_pos behind, row position behind]
      simp [valid]
    · rw [if_neg behind, Bool.and_true]
  · obtain ⟨start_eq, size_eq, written⟩ :=
      appendRows_spec data offset segment.count (segment.appendCount vcount) segment
    refine ⟨⟨length.symm, ?_, fun position inside => ?_⟩, start_eq, size_eq⟩
    · rw [maxTuples] at room ⊢
      dsimp only
      rw [size_eq]
      exact room
    · dsimp only at inside ⊢
      rw [size_eq] at inside
      rw [written, bits position inside, getD_append_rows]
      congr 1
      by_cases behind : rows.length ≤ position
      · rw [if_pos behind, row position behind, count_eq]
        simp [behind]
      · rw [if_neg behind, if_neg (by omega)]

/-- A revert sets the bits from the start row on. -/
theorem bitAt_revertAppend (segment : Segment) (inside : position < 8 * segment.segmentSize) :
    bitAt (segment.revertAppend startRow).entries position =
      (bitAt segment.entries position || decide (startRow - segment.start ≤ position)) := by
  rw [revertAppend]
  dsimp only
  split
  · rw [bitAt_setBytes, bitAt_foldl_setBit (by decide), Bool.or_assoc, ← Bool.decide_or]
    congr 1
    simp only [decide_eq_decide, List.mem_range'_1]
    omega
  · rw [bitAt_setBytes]
    congr 1
    simp only [decide_eq_decide]
    omega

theorem Shows.revertAppend (shows : segment.Shows rows) (low : segment.start ≤ startRow)
    (high : startRow ≤ segment.start + segment.count) :
    (segment.revertAppend startRow).Shows (rows.take (startRow - segment.start)) := by
  obtain ⟨count_eq, count_le, bits⟩ := shows
  refine ⟨?_, ?_, fun position inside => ?_⟩
  · rw [List.length_take, ← count_eq]
    change startRow - segment.start = _
    omega
  · change startRow - segment.start ≤ segment.maxTuples
    omega
  · change position < 8 * segment.segmentSize at inside
    rw [bitAt_revertAppend segment inside, bits position inside, List.getD_eq_getElem?_getD,
      List.getD_eq_getElem?_getD, List.getElem?_take]
    by_cases kept : position < startRow - segment.start
    · have below : ¬ startRow - segment.start ≤ position := by omega
      simp [kept, below]
    · have above : startRow - segment.start ≤ position := by omega
      simp [kept, above]

end Segment

/-! ## Whole runs -/

/-- A segment beside the validity of the rows that it was given. -/
structure ValidityRun where
  segment : Segment
  rows : List Bool

/-- The calls that change a segment. -/
inductive ValidityOperation where
  | append (data : VectorValidity) (offset vcount : Nat)
  | revertAppend (startRow : Nat)

namespace ValidityRun

def step (state : ValidityRun) : ValidityOperation → Except String ValidityRun
  | .append data offset vcount =>
      pure ⟨state.segment.append data offset vcount,
        state.rows ++ state.segment.taken data offset vcount⟩
  | .revertAppend startRow =>
      pure ⟨state.segment.revertAppend startRow,
        state.rows.take (startRow - state.segment.start)⟩

/-- A revert goes back to a row of the segment, or to its end. -/
def Permitted (state : ValidityRun) : ValidityOperation → Prop
  | .append _ _ _ => True
  | .revertAppend startRow =>
      state.segment.start ≤ startRow ∧ startRow ≤ state.segment.start + state.segment.count

instance (state : ValidityRun) : DecidablePred state.Permitted
  | .append _ _ _ => .isTrue trivial
  | .revertAppend startRow => inferInstanceAs (Decidable (_ ≤ startRow ∧ startRow ≤ _))

def initial (start segmentSize : Nat) (memory : Words 64) : ValidityRun :=
  ⟨initSegment start segmentSize memory, []⟩

theorem shows_step {state next : ValidityRun} {operation : ValidityOperation}
    (shows : state.segment.Shows state.rows) (permitted : state.Permitted operation)
    (taken : state.step operation = .ok next) : next.segment.Shows next.rows := by
  cases operation with
  | append data offset vcount =>
      cases taken
      exact (shows.append data offset vcount).1
  | revertAppend startRow =>
      cases taken
      exact shows.revertAppend permitted.1 permitted.2

theorem shows_of_run {start segmentSize : Nat} {memory : Words 64}
    {operations : List ValidityOperation} {state : ValidityRun}
    (reached : Reaches step Permitted (initial start segmentSize memory) operations state) :
    state.segment.Shows state.rows :=
  reached.state_invariant (fun state => state.segment.Shows state.rows)
    (Segment.initSegment_shows start segmentSize memory)
    fun _ _ _ shows permitted taken => shows_step shows permitted taken

/-- After any run the bits of the segment are its rows, and every scan copies them exactly. -/
theorem validity_exact_of_run {start segmentSize : Nat} {memory : Words 64}
    {operations : List ValidityOperation} {state : ValidityRun}
    (reached : Reaches step Permitted (initial start segmentSize memory) operations state) :
    state.segment.count = state.rows.length ∧
      (∀ row (below : row < state.rows.length),
        bitAt state.segment.entries row = true ↔ state.rows[row] = true) ∧
      (∀ row, state.segment.count ≤ row → row < 8 * state.segment.segmentSize →
        bitAt state.segment.entries row = true) ∧
      (∀ inputStart scanCount resultOffset (mask : ValidityMask),
        (∀ row < scanCount, mask.rowIsValid (resultOffset + row) = true) →
        (∀ row < scanCount,
          (unalignedScan state.segment.entries inputStart mask resultOffset scanCount).rowIsValid
            (resultOffset + row) = bitAt state.segment.entries (inputStart + row)) ∧
        ∀ row, ¬(resultOffset ≤ row ∧ row < resultOffset + scanCount) →
          (unalignedScan state.segment.entries inputStart mask resultOffset scanCount).rowIsValid
            row = mask.rowIsValid row) ∧
      (∀ inputStart scanCount (mask : ValidityMask), inputStart % bitsPerValue = 0 →
        ∀ row < scanCount,
          (alignedScan state.segment.entries inputStart mask scanCount).rowIsValid row =
            bitAt state.segment.entries (inputStart + row)) ∧
      ∀ inputStart (sel : Nat → Nat) selCount (mask : ValidityMask),
        (∀ row < selCount, mask.rowIsValid row = true) →
        ∀ row < selCount,
          (validitySelect state.segment.entries inputStart sel selCount mask).rowIsValid row =
            bitAt state.segment.entries (inputStart + sel row) := by
  have shows := shows_of_run reached
  have capacity := state.segment.maxTuples_le
  refine ⟨shows.count_eq, ?_, ?_, ?_, ?_, ?_⟩
  · intro row below
    have inside : row < 8 * state.segment.segmentSize := by
      have full := shows.count_le
      rw [shows.count_eq] at full
      omega
    rw [shows.bits row inside, List.getD_eq_getElem _ _ below]
  · intro row above inside
    rw [shows.count_eq] at above
    rw [shows.bits row inside, List.getD_eq_default _ _ above]
  · intro inputStart scanCount resultOffset mask target
    constructor
    · intro row covered
      have window : resultOffset ≤ resultOffset + row ∧
          resultOffset + row < resultOffset + scanCount := by omega
      rw [rowIsValid_unalignedScan, target row covered, if_pos window, Nat.add_sub_cancel_left,
        Bool.true_and]
    · intro row outside
      rw [rowIsValid_unalignedScan, if_neg outside, Bool.and_true]
  · intro inputStart scanCount mask aligned row covered
    exact rowIsValid_alignedScan _ mask aligned covered
  · intro inputStart sel selCount mask target row covered
    rw [rowIsValid_validitySelect, target row covered, if_pos covered, Bool.true_and]

/-- Three rows of which the second is null, taken back to the first, and one row behind it. -/
def shortRun : List ValidityOperation :=
  [.append ⟨id, some fun _ => ~~~2#64⟩ 0 3, .revertAppend 1, .append ⟨id, none⟩ 0 1]

theorem validity_exact_of_shortRun :
    ∃ state, Reaches step Permitted (initial 0 256 fun _ => 0) shortRun state ∧
      state.rows = [true, true] ∧ state.segment.count = state.rows.length ∧
      ∀ row < 2, (unalignedScan state.segment.entries 0 none 3 2).rowIsValid (3 + row) =
        bitAt state.segment.entries row := by
  obtain ⟨state, reached, rows⟩ := Reaches.exists_of_guarded_foldlM step Permitted
    (initial 0 256 fun _ => 0) shortRun (fun state => state.rows == [true, true])
    (by decide +kernel)
  have exact_state := validity_exact_of_run reached
  refine ⟨state, reached, eq_of_beq rows, exact_state.1, ?_⟩
  intro row covered
  have scanned := (exact_state.2.2.2.1 0 2 3 none fun _ _ => rfl).1 row covered
  rwa [Nat.zero_add] at scanned

end ValidityRun

end ValidityUncompressed

end StatsRecommender
