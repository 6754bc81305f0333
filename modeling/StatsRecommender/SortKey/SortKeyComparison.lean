import StatsRecommender.SortKey.SortKeyOrder

/-!
# Comparing rows by their sort keys

Keys of either type are compared like the rows that they were created from, and no key is
longer than the length that was computed for it.
-/

namespace StatsRecommender

variable {decision : Ordering} {row otherRow rowCount : Nat}

open DecidedWords

/-! ## Rows -/

/-- The order of two values by the comparison operators. -/
def comparePayloads (left right : Payload) : Ordering :=
  if lessThan left right then .lt else if equals left right then .eq else .gt

/-- The order of the values of a column, any of which may be NULL. -/
def compareColumn (modifiers : OrderModifiers) : Option Payload → Option Payload → Ordering
  | none, none => .eq
  | none, some _ => if modifiers.nullType = .nullsFirst then .lt else .gt
  | some _, none => if modifiers.nullType = .nullsFirst then .gt else .lt
  | some left, some right =>
      match modifiers.orderType with
      | .ascending => comparePayloads left right
      | .descending => comparePayloads right left

/-- `NOT DISTINCT FROM`. -/
def notDistinct : Option Payload → Option Payload → Bool
  | none, none => true
  | some left, some right => equals left right
  | _, _ => false

/-- A column that a key is created from, with its modifiers. -/
abbrev SortKeyColumn := SortKeyVectorData × OrderModifiers

/-- The order of two rows, column by column. -/
def compareRows : List SortKeyColumn → Nat → List SortKeyColumn → Nat → Ordering
  | left :: lefts, row, right :: rights, otherRow =>
      (compareColumn left.2 (left.1.valueAt row) (right.1.valueAt otherRow)).then
        (compareRows lefts row rights otherRow)
  | _, _, _, _ => .eq

/-- The rows are not distinct in any column. -/
def rowsNotDistinct : List SortKeyColumn → Nat → List SortKeyColumn → Nat → Bool
  | left :: lefts, row, right :: rights, otherRow =>
      notDistinct (left.1.valueAt row) (right.1.valueAt otherRow) &&
        rowsNotDistinct lefts row rights otherRow
  | _, _, _, _ => true

/-- The order of two keys of one type: of bytes, or of signed integers. -/
def compareSortKeys : SortKey → SortKey → Ordering
  | .blob left, .blob right => stringComparison left right
  | .bigint left, .bigint right => compare left right
  | _, _ => .eq

/-- What the keys of two chunks have to share to be compared. -/
def columnTypes (columns : List SortKeyColumn) : List (KeyType × OrderModifiers) :=
  columns.map fun column => (column.1.type, column.2)

/-- All rows of a chunk are made of values of the types of its columns. -/
def WellFormedChunk (columns : List SortKeyColumn) (rowCount : Nat) : Prop :=
  ∀ column ∈ columns, ∀ row < rowCount, column.1.WellFormedAt row

/-! ## Decisions -/

/-- Decided words of integers are ordered as order keys. -/
theorem orderKey_lt {left right : List Int} (decided : Decides .lt left right) :
    (⟨left⟩ : OrderKey) < ⟨right⟩ := by
  cases decided with
  | less common lt rest others =>
      induction common with
      | nil => exact (OrderKey.cons_lt_cons_iff _ _ _ _).mpr (Or.inl lt)
      | cons letter more ih => exact (OrderKey.cons_lt_cons_iff _ _ _ _).mpr (Or.inr ⟨rfl, ih⟩)

theorem fieldDigits_lt {left right : Payload}
    (decided : Decides .lt (fieldDigits (some left)) (fieldDigits (some right))) :
    left.key < right.key := by
  have key := (OrderKey.cons_lt_cons_iff _ _ _ _).mp (orderKey_lt decided)
  rcases key with absurd_less | ⟨-, less⟩
  · exact absurd absurd_less (Int.lt_irrefl 1)
  · exact less

/-- The order of two values is what decides their digits. -/
theorem comparePayloads_eq {left right : Payload}
    (decided : Decides decision (fieldDigits (some left)) (fieldDigits (some right))) :
    comparePayloads left right = decision := by
  unfold comparePayloads
  cases decision with
  | lt => rw [if_pos ((lessThan_iff left right).mpr (fieldDigits_lt decided))]
  | eq =>
      have same : left.key = right.key := by
        have digits := (decided.eq_iff Int.lt_irrefl).mp rfl
        exact congrArg OrderKey.mk (List.cons.inj digits).2
      rw [if_neg (by simp [same]), if_pos ((equals_iff left right).mpr same)]
  | gt =>
      have greater : right.key < left.key := fieldDigits_lt decided.reverse
      rw [if_neg (by simpa using greater.le), if_neg (by simpa using greater.ne')]

theorem notDistinct_iff (modifiers : OrderModifiers) (left right : Option Payload) :
    notDistinct left right = true ↔ compareColumn modifiers left right = .eq := by
  have payloads : ∀ left right : Payload, comparePayloads left right = .eq ↔
      left.key = right.key := by
    intro left right
    unfold comparePayloads
    rcases lt_trichotomy left.key right.key with less | equal | greater
    · rw [if_pos ((lessThan_iff left right).mpr less)]
      exact iff_of_false (by decide) less.ne
    · rw [if_neg (by simp [equal]), if_pos ((equals_iff left right).mpr equal)]
      exact iff_of_true rfl equal
    · rw [if_neg (by simpa using greater.le), if_neg (by simpa using greater.ne')]
      exact iff_of_false (by decide) greater.ne'
  obtain ⟨orderType, nullType⟩ := modifiers
  cases left with
  | none => cases right <;> cases nullType <;> simp [notDistinct, compareColumn]
  | some left =>
      cases right with
      | none => cases nullType <;> simp [notDistinct, compareColumn]
      | some right =>
          cases orderType with
          | ascending =>
              change equals left right = true ↔ comparePayloads left right = .eq
              rw [equals_iff, payloads]
          | descending =>
              change equals left right = true ↔ comparePayloads right left = .eq
              rw [equals_iff, payloads]
              exact eq_comm

/-- The bytes of a column are decided by the values of the column. -/
theorem decides_column {left right : SortKeyVectorData} (modifiers : OrderModifiers)
    (same : left.type = right.type) (wellFormed : left.WellFormedAt row)
    (otherWellFormed : right.WellFormedAt otherRow) :
    Decides (compareColumn modifiers (left.valueAt row) (right.valueAt otherRow))
      (left.bytesAt modifiers row) (right.bytesAt modifiers otherRow) := by
  have alike := left.ordered right modifiers row otherRow same wellFormed otherWellFormed
  obtain ⟨rest, bytes⟩ := left.bytesAt_eq_cons modifiers row
  obtain ⟨others, otherBytes⟩ := right.bytesAt_eq_cons modifiers otherRow
  have first_last : (1 : UInt8) < 2 := by decide
  cases value : left.valueAt row with
  | none =>
      cases otherValue : right.valueAt otherRow with
      | none =>
          rw [value, otherValue] at alike
          rw [(alike rfl).code_eq Int.lt_irrefl rfl]
          exact .same _
      | some payload =>
          rw [bytes, otherBytes, value, otherValue]
          obtain ⟨orderType, nullType⟩ := modifiers
          cases nullType with
          | nullsFirst => exact .head_less first_last _ _
          | nullsLast => exact .head_greater first_last _ _
  | some payload =>
      cases otherValue : right.valueAt otherRow with
      | none =>
          rw [bytes, otherBytes, value, otherValue]
          obtain ⟨orderType, nullType⟩ := modifiers
          cases nullType with
          | nullsFirst => exact .head_greater first_last _ _
          | nullsLast => exact .head_less first_last _ _
      | some otherPayload =>
          rw [value, otherValue] at alike
          obtain ⟨decision, digits, codes⟩ := alike rfl
          obtain ⟨orderType, nullType⟩ := modifiers
          cases orderType with
          | ascending =>
              rw [← comparePayloads_eq digits] at codes
              exact codes
          | descending =>
              change Decides decision.swap _ _ at codes
              rw [← comparePayloads_eq digits.reverse] at codes
              exact codes

variable {left right : List SortKeyColumn}

theorem decides_rows (same : columnTypes left = columnTypes right)
    (wellFormed : ∀ column ∈ left, column.1.WellFormedAt row)
    (otherWellFormed : ∀ column ∈ right, column.1.WellFormedAt otherRow) :
    Decides (compareRows left row right otherRow)
      (left.flatMap fun column => column.1.bytesAt column.2 row)
      (right.flatMap fun column => column.1.bytesAt column.2 otherRow) := by
  induction left generalizing right with
  | nil =>
      cases right with
      | nil => exact .same _
      | cons column rest => cases same
  | cons column rest ih =>
      cases right with
      | nil => cases same
      | cons other others =>
          obtain ⟨sameColumn, sameRest⟩ := List.cons.inj same
          obtain ⟨sameType, sameModifiers⟩ := Prod.mk.inj sameColumn
          have head := decides_column column.2 sameType (wellFormed column List.mem_cons_self)
            (otherWellFormed other List.mem_cons_self)
          have tail := ih sameRest (fun each member => wellFormed each (List.mem_cons_of_mem _ member))
            fun each member => otherWellFormed each (List.mem_cons_of_mem _ member)
          rw [compareRows, List.flatMap_cons, List.flatMap_cons, ← sameModifiers]
          exact head.append tail

theorem rowsNotDistinct_iff :
    rowsNotDistinct left row right otherRow = true ↔
      compareRows left row right otherRow = .eq := by
  induction left generalizing right with
  | nil => exact iff_of_true rfl rfl
  | cons column rest ih =>
      cases right with
      | nil => exact iff_of_true rfl rfl
      | cons other others =>
          rw [rowsNotDistinct, compareRows, Bool.and_eq_true, Ordering.then_eq_eq, ih,
            notDistinct_iff column.2]

/-! ## Keys -/

/-- Only the row itself has a row of the top level as its result. -/
theorem SortKeyChunk.filter_top (inside : row < rowCount) :
    (SortKeyChunk.rows ⟨0, rowCount, none⟩).filter
      (fun other => SortKeyChunk.getResultIndex ⟨0, rowCount, none⟩ other == row) = [row] := by
  have member : row ∈ List.range' 0 rowCount := by
    rw [List.mem_range'_1]
    omega
  change (List.range' 0 rowCount).filter (· == row) = [row]
  rw [List.filter_beq, List.Nodup.count List.nodup_range', if_pos member, List.replicate_one]

theorem SortKeyRows.writeEach_top (keys : SortKeyRows) (inside : row < rowCount)
    (bytes : Nat → List UInt8) :
    keys.writeEach ⟨0, rowCount, none⟩ bytes row = keys row ++ bytes row := by
  rw [writeEach_apply, SortKeyChunk.filter_top inside, List.flatMap_singleton]

variable {columns : List SortKeyColumn}

theorem sortKeyBytes_eq (inside : row < rowCount) : sortKeyBytes columns rowCount row =
      columns.flatMap fun column => column.1.bytesAt column.2 row := by
  have written : ∀ keys : SortKeyRows, columns.foldl (fun keys column =>
      constructSortKeyRecursive column.1 ⟨0, rowCount, none⟩ column.2 keys) keys row =
        keys row ++ columns.flatMap fun column => column.1.bytesAt column.2 row := by
    intro keys
    induction columns generalizing keys with
    | nil => simp
    | cons column rest ih =>
        rw [List.foldl_cons, ih, constructSortKeyRecursive_eq, SortKeyRows.writeEach_top _ inside,
          List.append_assoc, List.flatMap_cons]
  exact (written _).trans (List.nil_append _)

theorem SortKeyLengths.addEach_top (lengths : SortKeyLengths) (inside : row < rowCount)
    (amounts : Nat → Nat) :
    lengths.addEach ⟨0, rowCount, none⟩ amounts row = lengths row + amounts row := by
  rw [addEach_apply, SortKeyChunk.filter_top inside]
  rfl

theorem length_constant_le {type : ConstantType} {format : UnifiedVectorFormat}
    {data : Nat → Payload} (modifiers : OrderModifiers)
    (wellFormed : (SortKeyVectorData.constant type format data).WellFormedAt row) :
    ((SortKeyVectorData.constant type format data).bytesAt modifiers row).length ≤
      type.size + 1 := by
  rw [SortKeyVectorData.bytesAt, SortKeyVectorData.valueBytes]
  split
  · rename_i valid
    rw [List.length_cons, length_flipped]
    exact Nat.succ_le_succ (Radix.length_encodeData (wellFormed valid)).le
  · exact Nat.succ_le_succ (Nat.zero_le _)

theorem length_interval_le (format : UnifiedVectorFormat) (data : Nat → IntervalValue)
    (modifiers : OrderModifiers) (row : Nat) :
    ((SortKeyVectorData.interval format data).bytesAt modifiers row).length ≤ 16 + 1 := by
  rw [SortKeyVectorData.bytesAt, SortKeyVectorData.valueBytes]
  split
  · rw [List.length_cons, length_flipped]
    exact Nat.succ_le_succ (Radix.length_encodeInterval _).le
  · exact Nat.succ_le_succ (Nat.zero_le _)

/-- A column adds at least as much to the length of a row as it writes. -/
theorem length_bytesAt_le {vector : SortKeyVectorData} (modifiers : OrderModifiers)
    (wellFormed : ∀ row < rowCount, vector.WellFormedAt row) (inside : row < rowCount)
    (lengths : SortKeyLengthInfo) :
    lengths.variableLengths row + lengths.constantLength +
        (vector.bytesAt modifiers row).length ≤
      (getSortKeyLength rowCount lengths vector).variableLengths row +
        (getSortKeyLength rowCount lengths vector).constantLength := by
  have counted : lengths.variableLengths row + (vector.bytesAt modifiers row).length =
      getSortKeyLengthRecursive vector ⟨0, rowCount, none⟩ lengths.variableLengths row := by
    rw [getSortKeyLengthRecursive_eq vector _ modifiers, SortKeyLengths.addEach_top _ inside]
    intro other member
    obtain ⟨-, below⟩ := List.mem_range'_1.mp member
    rw [Nat.zero_add] at below
    exact wellFormed other below
  cases vector with
  | constant type format data =>
      have short := length_constant_le modifiers (wellFormed row inside)
      simp only [getSortKeyLength]
      omega
  | interval format data =>
      have short := length_interval_le format data modifiers row
      simp only [getSortKeyLength]
      omega
  | _ =>
      simp only [getSortKeyLength]
      omega

/-- No more bytes are written for a row than were counted for it. -/
theorem length_sortKeyBytes (wellFormed : WellFormedChunk columns rowCount)
    (inside : row < rowCount) :
    (sortKeyBytes columns rowCount row).length ≤
      (sortKeyLengths columns rowCount).variableLengths row +
        (sortKeyLengths columns rowCount).constantLength := by
  have counted : ∀ (rest : List SortKeyColumn) (lengths : SortKeyLengthInfo),
      WellFormedChunk rest rowCount → lengths.variableLengths row + lengths.constantLength +
        (rest.flatMap fun column => column.1.bytesAt column.2 row).length ≤
      (rest.foldl (fun lengths column => getSortKeyLength rowCount lengths column.1)
        lengths).variableLengths row + (rest.foldl (fun lengths column =>
          getSortKeyLength rowCount lengths column.1) lengths).constantLength := by
    intro rest
    induction rest with
    | nil => exact fun _ _ => le_rfl
    | cons column rest ih =>
        intro lengths chunk
        refine le_trans ?_ (ih (getSortKeyLength rowCount lengths column.1)
          fun each member => chunk each (List.mem_cons_of_mem _ member))
        rw [List.flatMap_cons, List.length_append]
        have step : lengths.variableLengths row + lengths.constantLength +
            (column.1.bytesAt column.2 row).length ≤
            (getSortKeyLength rowCount lengths column.1).variableLengths row +
              (getSortKeyLength rowCount lengths column.1).constantLength :=
          length_bytesAt_le column.2 (chunk column List.mem_cons_self) inside lengths
        omega
  have total := counted columns ⟨0, fun _ => 0⟩ wellFormed
  rw [sortKeyBytes_eq inside]
  simpa [sortKeyLengths] using total

/-- Decided bytes are compared so by `memcmp` and the sizes. -/
theorem stringComparison_eq {left right : List UInt8} (decided : Decides decision left right) :
    stringComparison left right = decision := by
  cases decided with
  | same =>
      induction left with
      | nil => rfl
      | cons byte rest ih => simpa [stringComparison] using ih
  | less common lt rest others =>
      rw [UInt8.lt_iff_toNat_lt] at lt
      induction common with
      | nil => simp [stringComparison, lt]
      | cons byte more ih => simpa [stringComparison] using ih
  | greater common lt rest others =>
      rw [UInt8.lt_iff_toNat_lt] at lt
      induction common with
      | nil => simp [stringComparison, lt, Nat.lt_asymm lt]
      | cons byte more ih => simpa [stringComparison] using ih

/-- The numbers that begin with the same digits. -/
theorem fromBigEndian_bounds (bytes : List UInt8) (number : Nat) :
    number * 256 ^ bytes.length ≤
        bytes.foldl (fun number byte => number * 256 + byte.toNat) number ∧
      bytes.foldl (fun number byte => number * 256 + byte.toNat) number <
        (number + 1) * 256 ^ bytes.length := by
  induction bytes generalizing number with
  | nil => simp
  | cons byte rest ih =>
      obtain ⟨low, high⟩ := ih (number * 256 + byte.toNat)
      have small := byte.toNat_lt
      have power : 256 ^ (byte :: rest).length = 256 * 256 ^ rest.length := by
        rw [List.length_cons, Nat.pow_succ, Nat.mul_comm]
      rw [List.foldl_cons, power, ← Nat.mul_assoc, ← Nat.mul_assoc]
      constructor
      · exact (Nat.mul_le_mul_right _ (Nat.le_add_right _ _)).trans low
      · exact high.trans_le (Nat.mul_le_mul_right _ (by omega))

/-- Decided bytes of one length are decided as numbers. -/
theorem compare_fromBigEndian {left right : List UInt8} (decided : Decides decision left right)
    (length : left.length = right.length) :
    compare (fromBigEndian left) (fromBigEndian right) = decision := by
  have less_of : ∀ (common : List UInt8) {first second : UInt8} (rest others : List UInt8),
      first < second → rest.length = others.length →
      fromBigEndian (common ++ first :: rest) < fromBigEndian (common ++ second :: others) := by
    intro common first second rest others lt same
    rw [UInt8.lt_iff_toNat_lt] at lt
    unfold fromBigEndian
    rw [List.foldl_append, List.foldl_append, List.foldl_cons, List.foldl_cons]
    generalize common.foldl (fun number byte => number * 256 + byte.toNat) 0 = number
    have upper := (fromBigEndian_bounds rest (number * 256 + first.toNat)).2
    have lower := (fromBigEndian_bounds others (number * 256 + second.toNat)).1
    rw [same] at upper
    exact upper.trans_le ((Nat.mul_le_mul_right _ (by omega)).trans lower)
  cases decided with
  | same => exact Nat.compare_eq_eq.mpr rfl
  | less common lt rest others =>
      refine Nat.compare_eq_lt.mpr (less_of common rest others lt ?_)
      simpa using length
  | greater common lt rest others =>
      refine Nat.compare_eq_gt.mpr (less_of common others rest lt ?_)
      simpa using length.symm

/-- Bytes that fit into an integer and begin with a validity byte are a positive number. -/
theorem swappedInteger_eq {bytes : List UInt8} (short : bytes.length ≤ 8)
    (positive : bytes = [] ∨ ∃ byte rest, bytes = byte :: rest ∧ byte.toNat ≤ 2) :
    swappedInteger bytes =
      fromBigEndian (bytes ++ List.replicate (8 - bytes.length) 0) := by
  have small : fromBigEndian (bytes ++ List.replicate (8 - bytes.length) 0) < 2 ^ 63 := by
    rcases positive with rfl | ⟨byte, rest, rfl, validity⟩
    · decide
    · have upper := (fromBigEndian_bounds
        (rest ++ List.replicate (8 - (byte :: rest).length) 0) (0 * 256 + byte.toNat)).2
      have length : (rest ++ List.replicate (8 - (byte :: rest).length) 0).length = 7 := by
        rw [List.length_append, List.length_replicate]
        rw [List.length_cons] at short ⊢
        omega
      rw [length] at upper
      exact upper.trans_le (by omega)
  unfold swappedInteger
  rw [if_pos small]

/-- Decided bytes are decided as integers, whatever is behind them in the integer. -/
theorem compare_swappedInteger {left right : List UInt8} (decided : Decides decision left right)
    (short : left.length ≤ 8) (bound : right.length ≤ 8)
    (positive : left = [] ∨ ∃ byte rest, left = byte :: rest ∧ byte.toNat ≤ 2)
    (other : right = [] ∨ ∃ byte rest, right = byte :: rest ∧ byte.toNat ≤ 2) :
    compare (swappedInteger left) (swappedInteger right) = decision := by
  have padded : Decides decision (left ++ List.replicate (8 - left.length) 0)
      (right ++ List.replicate (8 - right.length) 0) := by
    by_cases equal : decision = .eq
    · rw [(decided.eq_iff UInt8.lt_irrefl).mp equal, equal]
      exact .same _
    · exact decided.extend equal _ _
  have words := compare_fromBigEndian padded (by
    rw [List.length_append, List.length_append, List.length_replicate, List.length_replicate]
    omega)
  have numbers := @Radix.compare_toNat
    (fromBigEndian (left ++ List.replicate (8 - left.length) 0))
    (fromBigEndian (right ++ List.replicate (8 - right.length) 0)) 0 (by omega) (by omega)
  rw [Int.add_zero, Int.add_zero, Int.toNat_natCast, Int.toNat_natCast, words] at numbers
  rw [swappedInteger_eq short positive, swappedInteger_eq bound other, ← numbers]

theorem validityByte_le (modifiers : OrderModifiers) (valid : Bool) :
    (SortKeyVectorData.validityByte modifiers valid).toNat ≤ 2 := by
  unfold SortKeyVectorData.validityByte OrderModifiers.validByte OrderModifiers.nullByte
  split <;> split <;> decide

/-- The bytes of a row begin with the validity of its first column. -/
theorem rowBytes_positive (columns : List SortKeyColumn) (row : Nat) :
    (columns.flatMap fun column => column.1.bytesAt column.2 row) = [] ∨
      ∃ byte rest, (columns.flatMap fun column => column.1.bytesAt column.2 row) = byte :: rest ∧
        byte.toNat ≤ 2 := by
  cases columns with
  | nil => exact Or.inl rfl
  | cons column others =>
      obtain ⟨rest, bytes⟩ := column.1.bytesAt_eq_cons column.2 row
      refine Or.inr ⟨SortKeyVectorData.validityByte column.2 (column.1.valueAt row).isSome,
        rest ++ others.flatMap (fun column => column.1.bytesAt column.2 row), ?_, ?_⟩
      · rw [List.flatMap_cons, bytes]
        rfl
      · exact validityByte_le _ _

theorem constantSize?_of_type {left right : SortKeyVectorData} (same : left.type = right.type) :
    constantSize? left = constantSize? right := by
  cases left with
  | constant type format data =>
      cases right with
      | constant otherType otherFormat otherData =>
          cases same
          rfl
      | _ => cases same
  | interval format data =>
      cases right with
      | interval otherFormat otherData => rfl
      | _ => cases same
  | _ =>
      cases right with
      | constant otherType otherFormat otherData => cases same
      | interval otherFormat otherData => cases same
      | _ => rfl

theorem bindReturnType_of_types (same : columnTypes left = columnTypes right) :
    bindReturnType (left.map Prod.fst) = bindReturnType (right.map Prod.fst) := by
  have sizes : (left.map Prod.fst).map constantSize? = (right.map Prod.fst).map constantSize? := by
    induction left generalizing right with
    | nil =>
        cases right with
        | nil => rfl
        | cons other others => cases same
    | cons column rest ih =>
        cases right with
        | nil => cases same
        | cons other others =>
            obtain ⟨sameColumn, sameRest⟩ := List.cons.inj same
            rw [List.map_cons, List.map_cons, List.map_cons, List.map_cons,
              constantSize?_of_type (Prod.mk.inj sameColumn).1, ih sameRest]
  have from_sizes : ∀ columns : List SortKeyVectorData, bindReturnType columns =
      if (columns.map constantSize?).all Option.isSome &&
        decide (((columns.map constantSize?).filterMap id).sum ≤ 8) then .bigint else .blob := by
    intro columns
    rw [bindReturnType, List.all_map, List.filterMap_map]
    rfl
  rw [from_sizes, from_sizes, sizes]

/-- The columns that integers are made of leave no more than eight bytes for a row. -/
theorem rowBytes_short (bound : bindReturnType (columns.map Prod.fst) = .bigint)
    (wellFormed : ∀ column ∈ columns, column.1.WellFormedAt row) :
    (columns.flatMap fun column => column.1.bytesAt column.2 row).length ≤ 8 := by
  rw [bindReturnType, ite_eq_left_iff] at bound
  have sizes := not_not.mp (mt bound (by decide))
  rw [Bool.and_eq_true, decide_eq_true_eq] at sizes
  refine le_trans ?_ sizes.2
  have constant := sizes.1
  clear bound sizes
  induction columns with
  | nil => exact le_rfl
  | cons column rest ih =>
      rw [List.map_cons, List.all_cons, Bool.and_eq_true] at constant
      obtain ⟨vector, modifiers⟩ := column
      cases vector with
      | constant type format data =>
          have head := length_constant_le modifiers (wellFormed _ List.mem_cons_self)
          have tail := ih (fun each member => wellFormed each (List.mem_cons_of_mem _ member))
            constant.2
          rw [List.flatMap_cons, List.length_append, List.map_cons,
            List.filterMap_cons_some (rfl : constantSize? (.constant type format data) =
              some (type.size + 1)), List.sum_cons]
          dsimp only
          omega
      | interval format data =>
          have head := length_interval_le format data modifiers row
          have tail := ih (fun each member => wellFormed each (List.mem_cons_of_mem _ member))
            constant.2
          rw [List.flatMap_cons, List.length_append, List.map_cons,
            List.filterMap_cons_some (rfl : constantSize? (.interval format data) = some (16 + 1)),
            List.sum_cons]
          dsimp only
          omega
      | _ => exact absurd constant.1 (by simp [constantSize?])

/--
Sort keys are compared like the rows that they were created from, they are equal exactly if
the rows are not distinct, and no row has more bytes than were counted for it.
-/
theorem sortKeys_ordered {left right : List SortKeyColumn} {rowCount otherCount : Nat}
    (same : columnTypes left = columnTypes right) (wellFormed : WellFormedChunk left rowCount)
    (otherWellFormed : WellFormedChunk right otherCount) {resultType : SortKeyType}
    (supported : resultType = .blob ∨ resultType = bindReturnType (left.map Prod.fst))
    {keys otherKeys : Nat → SortKey} (created : createSortKeyInternal left resultType rowCount = .ok keys)
    (otherCreated : createSortKeyInternal right resultType otherCount = .ok otherKeys) :
    (∀ row < rowCount, (sortKeyBytes left rowCount row).length ≤
      (sortKeyLengths left rowCount).variableLengths row +
        (sortKeyLengths left rowCount).constantLength) ∧
    ∀ row < rowCount, ∀ otherRow < otherCount,
      compareSortKeys (keys row) (otherKeys otherRow) = compareRows left row right otherRow ∧
      (keys row = otherKeys otherRow ↔ rowsNotDistinct left row right otherRow = true) := by
  refine ⟨fun row inside => length_sortKeyBytes wellFormed inside, ?_⟩
  intro row inside otherRow otherInside
  have decided := decides_rows same (fun column member => wellFormed column member row inside)
    fun column member => otherWellFormed column member otherRow otherInside
  have equal := decided.eq_iff UInt8.lt_irrefl
  rw [← sortKeyBytes_eq inside, ← sortKeyBytes_eq otherInside] at decided equal
  rw [rowsNotDistinct_iff, equal]
  cases resultType with
  | blob =>
      unfold createSortKeyInternal at created otherCreated
      dsimp only at created otherCreated
      split at created
      · cases created
      · split at otherCreated
        · cases otherCreated
        · cases created
          cases otherCreated
          refine ⟨stringComparison_eq decided, ?_⟩
          exact SortKey.blob.injEq _ _ ▸ Iff.rfl
  | bigint =>
      cases created
      cases otherCreated
      have bound : bindReturnType (left.map Prod.fst) = .bigint := by
        rcases supported with blob | bound
        · cases blob
        · exact bound.symm
      have short := rowBytes_short bound fun column member => wellFormed column member row inside
      have other_short := rowBytes_short (bindReturnType_of_types same ▸ bound)
        fun column member => otherWellFormed column member otherRow otherInside
      have positive := rowBytes_positive left row
      have other_positive := rowBytes_positive right otherRow
      rw [← sortKeyBytes_eq inside] at short positive
      rw [← sortKeyBytes_eq otherInside] at other_short other_positive
      have compared := compare_swappedInteger decided short other_short positive other_positive
      refine ⟨compared, ?_⟩
      rw [← equal, ← compared, SortKey.bigint.injEq]
      exact Int.compare_eq_eq.symm

/-- The lists `[7, NULL]` and `[7]`, in descending order. -/
def sampleColumns : List SortKeyColumn :=
  [(.list ⟨none, none⟩ (fun row => ⟨2 * row, 2 - row⟩)
      (.constant .int32 ⟨none, some fun row => row != 1⟩ fun _ => .integer 7),
    ⟨.descending, .nullsLast⟩)]

theorem sortKeys_ordered_sample : ∃ keys, createSortKeyInternal sampleColumns .blob 2 = .ok keys ∧
    compareSortKeys (keys 0) (keys 1) = compareRows sampleColumns 0 sampleColumns 1 ∧
    compareRows sampleColumns 0 sampleColumns 1 = .lt := by
  have wellFormed : WellFormedChunk sampleColumns 2 := by
    intro column member row _
    rw [List.mem_singleton.mp member]
    intro _ element _ _
    rfl
  have ordered := sortKeys_ordered rfl wellFormed wellFormed (Or.inl rfl) rfl rfl
  exact ⟨_, rfl, (ordered.2 0 (by decide) 1 (by decide)).1, by decide +kernel⟩

end StatsRecommender
