import StatsRecommender.SortKey.SortKeyRows

/-!
# The order of sort keys

The bytes of two rows are compared like the rows themselves: every part of the encoding is
decided within itself, so that the parts behind it do not disturb the order.
-/

namespace StatsRecommender

open DecidedWords

/-! ## Strings -/

theorem complement_lt {first second : UInt8} (lt : first < second) : ~~~second < ~~~first := by
  rw [UInt8.lt_iff_toNat_lt] at lt ⊢
  have bound := second.toNat_lt
  have size : UInt8.size = 2 ^ 8 := rfl
  rw [UInt8.toNat_not, UInt8.toNat_not]
  omega

/-- Flipping the bytes of both codes reverses their order. -/
theorem alike_flipped {left right : List Int} {leftCode rightCode : List UInt8}
    (alike : Alike false left right leftCode rightCode) (flipBytes : Bool) :
    Alike flipBytes left right (flipped flipBytes leftCode) (flipped flipBytes rightCode) := by
  cases flipBytes with
  | false => exact alike
  | true =>
      obtain ⟨decision, words, codes⟩ := alike
      exact ⟨decision, words, codes.map_reverse fun _ _ lt => complement_lt lt⟩

/-- A byte that UTF-8 has, raised by one, is behind the delimiter. -/
theorem toNat_add_one {byte : UInt8} (utf8 : byte ≠ 255) : (byte + 1).toNat = byte.toNat + 1 := by
  have small := byte.toNat_lt
  have different : byte.toNat ≠ 255 := fun same => utf8 (UInt8.toNat_inj.mp same)
  rw [UInt8.toNat_add]
  exact Nat.mod_eq_of_lt (by have : (1 : UInt8).toNat = 1 := rfl; omega)

theorem varchar_alike {left right : List UInt8} (utf8 : ∀ byte ∈ left, byte ≠ 255)
    (other : ∀ byte ∈ right, byte ≠ 255) :
    Alike false (stringKey left) (stringKey right) (sortKeyVarcharOperator.encode left)
      (sortKeyVarcharOperator.encode right) := by
  induction left generalizing right with
  | nil =>
      cases right with
      | nil => exact .same _ _
      | cons byte rest =>
          have raised := toNat_add_one (other byte List.mem_cons_self)
          refine Alike.of_less ?_ (UInt8.lt_iff_toNat_lt.mpr ?_) _ _ _ _
          · have natural := Int.natCast_nonneg byte.toNat
            omega
          · change 0 < (byte + 1).toNat
            omega
  | cons byte rest ih =>
      have raised := toNat_add_one (utf8 byte List.mem_cons_self)
      cases right with
      | nil =>
          refine Alike.of_greater ?_ (UInt8.lt_iff_toNat_lt.mpr ?_) _ _ _ _
          · have natural := Int.natCast_nonneg byte.toNat
            omega
          · change 0 < (byte + 1).toNat
            omega
      | cons head tail =>
          have raised_head := toNat_add_one (other head List.mem_cons_self)
          rcases Nat.lt_trichotomy byte.toNat head.toNat with less | equal | greater
          · refine Alike.of_less (by omega) (UInt8.lt_iff_toNat_lt.mpr ?_) _ _ _ _
            change (byte + 1).toNat < (head + 1).toNat
            omega
          · cases UInt8.toNat_inj.mp equal
            have later := ih (fun byte member => utf8 byte (List.mem_cons_of_mem _ member))
              (fun byte member => other byte (List.mem_cons_of_mem _ member))
            exact (Alike.same [((byte.toNat : Int) + 1)] [byte + 1]).append later
          · refine Alike.of_greater (by omega) (UInt8.lt_iff_toNat_lt.mpr ?_) _ _ _ _
            change (head + 1).toNat < (byte + 1).toNat
            omega

/-- The bytes of one byte of a blob. -/
def escaped (byte : UInt8) : List UInt8 := if byte ≤ 1 then [1, byte] else [byte]

theorem escaped_cons (byte : UInt8) : ∃ first rest, escaped byte = first :: rest ∧ 0 < first := by
  unfold escaped
  split
  · exact ⟨1, [byte], rfl, by decide⟩
  · rename_i large
    refine ⟨byte, [], rfl, ?_⟩
    rw [UInt8.le_iff_toNat_le] at large
    refine UInt8.lt_iff_toNat_lt.mpr ?_
    change 0 < byte.toNat
    omega

/-- Different bytes are told apart by what they are escaped to. -/
theorem escaped_less {first second : UInt8} (less : first.toNat < second.toNat) :
    Decides .lt (escaped first) (escaped second) := by
  have one : (1 : UInt8).toNat = 1 := rfl
  unfold escaped
  simp only [UInt8.le_iff_toNat_le, one]
  have lt : first < second := UInt8.lt_iff_toNat_lt.mpr less
  by_cases small : first.toNat ≤ 1
  · by_cases bound : second.toNat ≤ 1
    · rw [if_pos small, if_pos bound]
      exact .less [1] lt [] []
    · rw [if_pos small, if_neg bound]
      exact .head_less (UInt8.lt_iff_toNat_lt.mpr (by omega)) _ _
  · rw [if_neg small, if_neg (by omega)]
    exact .head_less lt [] []

theorem blob_alike (left right : List UInt8) :
    Alike false (stringKey left) (stringKey right) (sortKeyBlobOperator.encode left)
      (sortKeyBlobOperator.encode right) := by
  have encode_cons : ∀ (byte : UInt8) (rest : List UInt8), sortKeyBlobOperator.encode (byte :: rest) =
      escaped byte ++ sortKeyBlobOperator.encode rest := by
    intro byte rest
    exact (congrArg (· ++ [0]) List.flatMap_cons).trans (List.append_assoc _ _ _)
  induction left generalizing right with
  | nil =>
      cases right with
      | nil => exact .same _ _
      | cons byte rest =>
          obtain ⟨first, others, same, positive⟩ := escaped_cons byte
          rw [encode_cons, same]
          refine Alike.of_less ?_ ?_ _ _ _ _
          · have natural := Int.natCast_nonneg byte.toNat
            omega
          · exact positive
  | cons byte rest ih =>
      cases right with
      | nil =>
          obtain ⟨first, others, same, positive⟩ := escaped_cons byte
          rw [encode_cons, same]
          refine Alike.of_greater ?_ ?_ _ _ _ _
          · have natural := Int.natCast_nonneg byte.toNat
            omega
          · exact positive
      | cons head tail =>
          rw [encode_cons, encode_cons]
          rcases Nat.lt_trichotomy byte.toNat head.toNat with less | equal | greater
          · exact ⟨.lt, .head_less (by omega) _ _, (escaped_less less).extend (by decide) _ _⟩
          · cases UInt8.toNat_inj.mp equal
            exact (Alike.same [((byte.toNat : Int) + 1)] (escaped byte)).append (ih tail)
          · exact ⟨.gt, .head_greater (by omega) _ _,
              (escaped_less greater).reverse.extend (by decide) _ _⟩

/-! ## Nested values -/

/-- The word of a child in the order key of its parent. -/
def fieldDigits : Option Payload → List Int
  | none => [2]
  | some child => 1 :: child.digits

theorem digits_cons (child : Option Payload) (rest : Fields) :
    (Fields.cons child rest).digits = fieldDigits child ++ rest.digits := by
  cases child <;> rfl

theorem digits_ofList (children : List (Option Payload)) :
    (Fields.ofList children).digits = children.flatMap fieldDigits ++ [0] := by
  induction children with
  | nil => rfl
  | cons child rest ih =>
      rw [List.flatMap_cons, List.append_assoc, ← ih, ← digits_cons]
      rfl

theorem fieldDigits_cons (child : Option Payload) :
    ∃ tag rest, fieldDigits child = tag :: rest ∧ 0 < tag := by
  cases child with
  | none => exact ⟨2, [], rfl, by decide⟩
  | some payload => exact ⟨1, payload.digits, rfl, by decide⟩

/-- Inside of nested values NULLs are the greatest values. -/
theorem OrderModifiers.child_nulls (modifiers : OrderModifiers) :
    if modifiers.flipBytes then modifiers.child.nullByte < modifiers.child.validByte
    else modifiers.child.validByte < modifiers.child.nullByte := by
  obtain ⟨orderType, nullType⟩ := modifiers
  cases orderType <;> cases nullType <;> decide

namespace SortKeyVectorData

/-- The bytes of a row begin with its validity. -/
theorem bytesAt_eq_cons (vector : SortKeyVectorData) (modifiers : OrderModifiers) (row : Nat) :
    ∃ rest, vector.bytesAt modifiers row =
      validityByte modifiers (vector.valueAt row).isSome :: rest := by
  cases vector <;> simp only [bytesAt, valueAt, valueBytes]
  all_goals
    split
    · rename_i valid
      exact ⟨_, by simp [validityByte, valid]; rfl⟩
    · rename_i invalid
      exact ⟨_, by simp [validityByte, invalid]; rfl⟩

/-- Two rows of which both or none are NULL have the order of their values. -/
def Ordered (vector : SortKeyVectorData) : Prop :=
  ∀ (other : SortKeyVectorData) (modifiers : OrderModifiers) (row otherRow : Nat),
    vector.type = other.type → vector.WellFormedAt row → other.WellFormedAt otherRow →
    (vector.valueAt row).isSome = (other.valueAt otherRow).isSome →
    Alike modifiers.flipBytes (fieldDigits (vector.valueAt row))
      (fieldDigits (other.valueAt otherRow)) (vector.bytesAt modifiers row)
      (other.bytesAt modifiers otherRow)

/-- Inside of nested values NULLs are ordered like values, too. -/
theorem Ordered.child {vector other : SortKeyVectorData} (ordered : vector.Ordered)
    (modifiers : OrderModifiers) {row otherRow : Nat} (same : vector.type = other.type)
    (wellFormed : vector.WellFormedAt row) (otherWellFormed : other.WellFormedAt otherRow) :
    Alike modifiers.flipBytes (fieldDigits (vector.valueAt row))
      (fieldDigits (other.valueAt otherRow)) (vector.bytesAt modifiers.child row)
      (other.bytesAt modifiers.child otherRow) := by
  obtain ⟨rest, bytes⟩ := vector.bytesAt_eq_cons modifiers.child row
  obtain ⟨others, otherBytes⟩ := other.bytesAt_eq_cons modifiers.child otherRow
  cases value : vector.valueAt row with
  | none =>
      cases otherValue : other.valueAt otherRow with
      | none =>
          have alike := ordered other modifiers.child row otherRow same wellFormed otherWellFormed
          rw [value, otherValue] at alike
          exact alike rfl
      | some payload =>
          rw [bytes, otherBytes, value, otherValue]
          refine Alike.of_greater (by decide) ?_ _ _ _ _
          exact modifiers.child_nulls
  | some payload =>
      cases otherValue : other.valueAt otherRow with
      | none =>
          rw [bytes, otherBytes, value, otherValue]
          refine Alike.of_less (by decide) ?_ _ _ _ _
          exact modifiers.child_nulls
      | some otherPayload =>
          have alike := ordered other modifiers.child row otherRow same wellFormed otherWellFormed
          rw [value, otherValue] at alike
          exact alike rfl

/-- Values that are not nested, given the order of what the operator encodes. -/
theorem alike_valueBytes {Value : Type} {op : SortKeyOperator Value}
    {format otherFormat : UnifiedVectorFormat} {data otherData : Nat → Value}
    (payload : Value → Payload) {row otherRow : Nat} (modifiers : OrderModifiers)
    (same : format.rowIsValid (format.getIndex row) =
      otherFormat.rowIsValid (otherFormat.getIndex otherRow))
    (encoded : format.rowIsValid (format.getIndex row) = true →
      Alike false (payload (data (format.getIndex row))).digits
        (payload (otherData (otherFormat.getIndex otherRow))).digits
        (op.encode (data (format.getIndex row)))
        (op.encode (otherData (otherFormat.getIndex otherRow)))) :
    Alike modifiers.flipBytes
      (fieldDigits (if format.rowIsValid (format.getIndex row) then
        some (payload (data (format.getIndex row))) else none))
      (fieldDigits (if otherFormat.rowIsValid (otherFormat.getIndex otherRow) then
        some (payload (otherData (otherFormat.getIndex otherRow))) else none))
      (valueBytes op format data modifiers row)
      (valueBytes op otherFormat otherData modifiers otherRow) := by
  unfold valueBytes
  rw [← same]
  cases valid : format.rowIsValid (format.getIndex row) with
  | false => exact .same _ _
  | true =>
      exact (Alike.same [1] [modifiers.validByte]).append
        (alike_flipped (encoded valid) modifiers.flipBytes)

/-- The elements of two lists, with the delimiter behind them. -/
theorem alike_elements {child otherChild : SortKeyVectorData} (ordered : child.Ordered)
    (same : child.type = otherChild.type) (modifiers : OrderModifiers) (rows otherRows : List Nat)
    (wellFormed : ∀ row ∈ rows, child.WellFormedAt row)
    (otherWellFormed : ∀ row ∈ otherRows, otherChild.WellFormedAt row) :
    Alike modifiers.flipBytes
      (Fields.ofList (rows.map fun row => child.valueAt row)).digits
      (Fields.ofList (otherRows.map fun row => otherChild.valueAt row)).digits
      (rows.flatMap (fun row => child.bytesAt modifiers.child row) ++
        flipped modifiers.flipBytes [0])
      (otherRows.flatMap (fun row => otherChild.bytesAt modifiers.child row) ++
        flipped modifiers.flipBytes [0]) := by
  have delimiter : ∀ valid : Bool,
      if modifiers.flipBytes then validityByte modifiers.child valid < ~~~0
      else 0 < validityByte modifiers.child valid := by
    intro valid
    obtain ⟨orderType, nullType⟩ := modifiers
    cases orderType <;> cases nullType <;> cases valid <;> decide
  have delimited : flipped modifiers.flipBytes [0] =
      [if modifiers.flipBytes then ~~~0 else 0] := by
    unfold flipped
    cases modifiers.flipBytes <;> rfl
  rw [digits_ofList, digits_ofList]
  induction rows generalizing otherRows with
  | nil =>
      cases otherRows with
      | nil => exact .same _ _
      | cons first rest =>
          obtain ⟨bytes, starts⟩ := otherChild.bytesAt_eq_cons modifiers.child first
          obtain ⟨tag, digits, word, positive⟩ := fieldDigits_cons (otherChild.valueAt first)
          rw [List.map_cons, List.flatMap_cons, List.flatMap_cons, starts, word, delimited]
          refine Alike.of_less positive ?_ _ _ _ _
          have before := delimiter (otherChild.valueAt first).isSome
          cases hflip : modifiers.flipBytes <;> rw [hflip] at before <;> exact before
  | cons first rest ih =>
      cases otherRows with
      | nil =>
          obtain ⟨bytes, starts⟩ := child.bytesAt_eq_cons modifiers.child first
          obtain ⟨tag, digits, word, positive⟩ := fieldDigits_cons (child.valueAt first)
          rw [List.map_cons, List.flatMap_cons, List.flatMap_cons, starts, word, delimited]
          refine Alike.of_greater positive ?_ _ _ _ _
          have before := delimiter (child.valueAt first).isSome
          cases hflip : modifiers.flipBytes <;> rw [hflip] at before <;> exact before
      | cons otherFirst otherRest =>
          have head := ordered.child modifiers same
            (wellFormed first List.mem_cons_self) (otherWellFormed otherFirst List.mem_cons_self)
          have tail := ih otherRest (fun row member => wellFormed row (List.mem_cons_of_mem _ member))
            fun row member => otherWellFormed row (List.mem_cons_of_mem _ member)
          have joined := head.append tail
          simpa only [List.map_cons, List.flatMap_cons, List.append_assoc] using joined

/-- NULL children have the same digits in every row. -/
theorem digits_fieldsAt_null {children others : List SortKeyVectorData} {row otherRow : Nat}
    (same : childTypes children = childTypes others) (null : ChildrenNullAt children row)
    (otherNull : ChildrenNullAt others otherRow) :
    (fieldsAt children row).digits = (fieldsAt others otherRow).digits := by
  induction children generalizing others with
  | nil =>
      cases others with
      | nil => rfl
      | cons other rest => cases same
  | cons child rest ih =>
      cases others with
      | nil => cases same
      | cons other otherRest =>
          obtain ⟨-, sameRest⟩ := List.cons.inj same
          rw [fieldsAt, fieldsAt, digits_cons, digits_cons, null.1, otherNull.1,
            ih sameRest null.2 otherNull.2]

/-- The elements of a NULL array are the same in every row. -/
theorem arrayElements_null {child : SortKeyVectorData} {arraySize index : Nat}
    (null : ∀ element ∈ (arrayEntry arraySize index).rows, child.valueAt element = none) :
    (arrayEntry arraySize index).rows.map (fun element => child.valueAt element) =
      List.replicate arraySize none := by
  refine List.eq_replicate_iff.mpr ⟨by simp [ListEntry.rows, arrayEntry], fun value member => ?_⟩
  obtain ⟨element, inside, rfl⟩ := List.mem_map.mp member
  exact null element inside

mutual

/-- The bytes of every type keep the order of its values. -/
theorem ordered (vector : SortKeyVectorData) : vector.Ordered := by
  intro other modifiers row otherRow same wellFormed otherWellFormed both
  cases vector with
  | constant type format data =>
      cases other with
      | constant otherType otherFormat otherData =>
          cases same
          have valid : format.rowIsValid (format.getIndex row) =
              otherFormat.rowIsValid (otherFormat.getIndex otherRow) := by
            simpa [valueAt, apply_ite Option.isSome] using both
          refine alike_valueBytes id modifiers valid fun here => ?_
          exact Radix.encodeData_alike (wellFormed here) (otherWellFormed (valid ▸ here))
      | _ => cases same
  | interval format data =>
      cases other with
      | interval otherFormat otherData =>
          have valid : format.rowIsValid (format.getIndex row) =
              otherFormat.rowIsValid (otherFormat.getIndex otherRow) := by
            simpa [valueAt, apply_ite Option.isSome] using both
          refine alike_valueBytes IntervalValue.payload modifiers valid fun here => ?_
          exact Radix.encodeInterval_alike (wellFormed here) (otherWellFormed (valid ▸ here))
      | _ => cases same
  | varchar format data =>
      cases other with
      | varchar otherFormat otherData =>
          have valid : format.rowIsValid (format.getIndex row) =
              otherFormat.rowIsValid (otherFormat.getIndex otherRow) := by
            simpa [valueAt, apply_ite Option.isSome] using both
          refine alike_valueBytes Payload.varchar modifiers valid fun here => ?_
          have strings := varchar_alike (wellFormed here) (otherWellFormed (valid ▸ here))
          exact (Alike.same [4] []).append strings
      | _ => cases same
  | blob format data =>
      cases other with
      | blob otherFormat otherData =>
          have valid : format.rowIsValid (format.getIndex row) =
              otherFormat.rowIsValid (otherFormat.getIndex otherRow) := by
            simpa [valueAt, apply_ite Option.isSome] using both
          refine alike_valueBytes Payload.varchar modifiers valid fun here => ?_
          exact (Alike.same [4] []).append (blob_alike _ _)
      | _ => cases same
  | struct format children =>
      cases other with
      | struct otherFormat others =>
          have valid : format.rowIsValid (format.getIndex row) =
              otherFormat.rowIsValid (otherFormat.getIndex otherRow) := by
            simpa [valueAt, apply_ite Option.isSome] using both
          have sameTypes : childTypes children = childTypes others := by
            injection same
          have fields := children_ordered children others modifiers row otherRow sameTypes
            wellFormed.1 otherWellFormed.1
          rw [valueAt, valueAt, bytesAt, bytesAt, ← valid]
          cases here : format.rowIsValid (format.getIndex row) with
          | true => exact (Alike.same [1, 5] [modifiers.validByte]).append fields
          | false =>
              have digits := digits_fieldsAt_null sameTypes (wellFormed.2 here)
                (otherWellFormed.2 (valid ▸ here))
              rw [fields.code_eq Int.lt_irrefl digits]
              exact .same _ _
      | _ => cases same
  | list format entries child =>
      cases other with
      | list otherFormat otherEntries otherChild =>
          have valid : format.rowIsValid (format.getIndex row) =
              otherFormat.rowIsValid (otherFormat.getIndex otherRow) := by
            simpa [valueAt, apply_ite Option.isSome] using both
          have sameChild : child.type = otherChild.type := by
            injection same
          rw [valueAt, valueAt, bytesAt, bytesAt, ← valid]
          cases here : format.rowIsValid (format.getIndex row) with
          | true =>
              exact (Alike.same [1, 5] [modifiers.validByte]).append
                (alike_elements (ordered child) sameChild modifiers _ _ (wellFormed here)
                  (otherWellFormed (valid ▸ here)))
          | false => exact .same _ _
      | _ => cases same
  | array format arraySize child =>
      cases other with
      | array otherFormat otherSize otherChild =>
          have valid : format.rowIsValid (format.getIndex row) =
              otherFormat.rowIsValid (otherFormat.getIndex otherRow) := by
            simpa [valueAt, apply_ite Option.isSome] using both
          injection same with sameSize sameChild
          cases sameSize
          have elements := alike_elements (ordered child) sameChild modifiers
            (arrayEntry arraySize (format.getIndex row)).rows
            (arrayEntry arraySize (otherFormat.getIndex otherRow)).rows
            (fun element inside => (wellFormed element inside).1)
            (fun element inside => (otherWellFormed element inside).1)
          rw [valueAt, valueAt, bytesAt, bytesAt, ← valid]
          cases here : format.rowIsValid (format.getIndex row) with
          | true => exact (Alike.same [1, 5] [modifiers.validByte]).append elements
          | false =>
              rw [arrayElements_null fun element inside => (wellFormed element inside).2 here,
                arrayElements_null fun element inside =>
                  (otherWellFormed element inside).2 (valid ▸ here)] at elements
              rw [elements.code_eq Int.lt_irrefl rfl]
              exact .same _ _
      | _ => cases same

theorem children_ordered (children others : List SortKeyVectorData) (modifiers : OrderModifiers)
    (row otherRow : Nat) (same : childTypes children = childTypes others)
    (wellFormed : ChildrenWellFormedAt children row)
    (otherWellFormed : ChildrenWellFormedAt others otherRow) :
    Alike modifiers.flipBytes (fieldsAt children row).digits (fieldsAt others otherRow).digits
      (childBytesAt children modifiers.child row) (childBytesAt others modifiers.child otherRow) := by
  cases children with
  | nil =>
      cases others with
      | nil => exact .same _ _
      | cons other rest => cases same
  | cons child rest =>
      cases others with
      | nil => cases same
      | cons other otherRest =>
          obtain ⟨sameChild, sameRest⟩ := List.cons.inj same
          rw [fieldsAt, fieldsAt, digits_cons, digits_cons, childBytesAt, childBytesAt]
          exact ((ordered child).child modifiers sameChild wellFormed.1 otherWellFormed.1).append
            (children_ordered rest otherRest modifiers row otherRow sameRest wellFormed.2
              otherWellFormed.2)

end

end SortKeyVectorData

end StatsRecommender
