import StatsRecommender.SortKey.DecodeSortKey

/-!
# Values read back from sort keys

Every operator reads back what it encoded, whatever is behind it in the key and in either order
of the column.
-/

namespace StatsRecommender

variable {word width : Nat} {bytes : List UInt8}

/-! ## Words -/

theorem foldl_bigEndian (width : Nat) (bound : word < 256 ^ width) (number : Nat) :
    (Radix.bigEndian width word).foldl (fun number byte => number * 256 + byte.toNat) number =
      number * 256 ^ width + word := by
  induction width generalizing word number with
  | zero =>
      have zero : word = 0 := by simpa using bound
      rw [zero]
      simp [Radix.bigEndian]
  | succ width ih =>
      have positive : 0 < 256 ^ width := Nat.pow_pos (by decide)
      have small : word / 256 ^ width < 256 := by
        apply Nat.div_lt_of_lt_mul
        rwa [← Nat.pow_succ]
      have whole := Nat.div_add_mod word (256 ^ width)
      have byte : (UInt8.ofNat (word / 256 ^ width)).toNat = word / 256 ^ width :=
        UInt8.toNat_ofNat_of_lt small
      rw [Radix.bigEndian, List.foldl_cons, ih (Nat.mod_lt _ positive), byte, Nat.pow_succ]
      generalize 256 ^ width = unit at *
      rw [Nat.add_mul, Nat.mul_assoc, Nat.mul_comm 256, Nat.mul_comm (word / unit)]
      omega

theorem fromBigEndian_bigEndian (bound : word < 256 ^ width) :
    fromBigEndian (Radix.bigEndian width word) = word := by
  rw [fromBigEndian, foldl_bigEndian width bound, Nat.zero_mul, Nat.zero_add]

namespace Radix

theorem flipSign_flipSign (byte : UInt8) : flipSign (flipSign byte) = byte := by
  rw [flipSign, flipSign, UInt8.xor_assoc, UInt8.xor_self, UInt8.xor_zero]

/-- The sign bit is flipped back, so that the two's complement is left. -/
theorem decodeSigned_encodeSigned {value : Int} (low : -(256 ^ width : Nat) ≤ 2 * value)
    (high : 2 * value < (256 ^ width : Nat)) : decodeSigned (encodeSigned width value) = value := by
  have below : (value % (256 ^ width : Nat)).toNat < 256 ^ width := by
    have natural := @Int.emod_nonneg value (256 ^ width : Nat) (by omega)
    omega
  have word := fromBigEndian_bigEndian below
  have flipped : flipFirst (encodeSigned width value) =
      bigEndian width (value % (256 ^ width : Nat)).toNat := by
    rw [encodeSigned]
    cases bigEndian width (value % (256 ^ width : Nat)).toNat with
    | nil => rfl
    | cons byte rest => exact congrArg (· :: rest) (flipSign_flipSign byte)
  unfold decodeSigned
  rw [flipped, word, length_encodeSigned]
  dsimp only
  rcases Int.lt_or_le value 0 with negative | natural
  · have complement : value % (256 ^ width : Nat) = value + (256 ^ width : Nat) := by
      rw [← Int.add_emod_right, Int.emod_eq_of_lt (by omega) (by omega)]
    rw [complement, if_neg (by omega)]
    omega
  · rw [Int.emod_eq_of_lt natural (by omega), if_pos (by omega)]
    omega

/-! ## Floating-point numbers -/

/-- The places of all numbers are decoded to numbers of the same place. -/
theorem key_decodeFloat {format : FloatFormat} (room : format.infinity + 2 ≤ signBit format)
    (positive : 0 < format.infinity) (quiet : 0 < 2 ^ (format.mantissaBits - 1) ∧
      quietNaN format < signBit format) {bits : Nat} (bound : bits < 2 * signBit format) :
    format.key (decodeFloat format (encodeFloat format bits)) = format.key bits := by
  have place := encodeFloat_eq room positive bound
  obtain ⟨low, high⟩ := key_range format bits
  generalize encodeFloat format bits = input at place
  generalize format.key bits = key at *
  have behind : (2 : Int) ^ (format.exponentBits + format.mantissaBits) = signBit format := by
    rw [signBit, Int.natCast_pow]
    rfl
  have small : ∀ magnitude, magnitude < signBit format → format.key magnitude =
      if format.infinity < magnitude then (signBit format : Int) else magnitude := by
    intro magnitude below
    obtain ⟨same, sign⟩ := signMagnitude_of_lt below
    rw [FloatFormat.key, FloatFormat.isNaN, FloatFormat.signedMagnitude, same, sign, behind]
    simp
  have large : ∀ magnitude, magnitude ≤ format.infinity →
      format.key (signBit format + magnitude) = -(magnitude : Int) := by
    intro magnitude below
    obtain ⟨same, sign⟩ := @signMagnitude_of_le format (signBit format + magnitude) (by omega)
      (by omega)
    rw [FloatFormat.key, FloatFormat.isNaN, FloatFormat.signedMagnitude, same, sign]
    rw [Nat.add_sub_cancel_left, if_neg (by simpa using below), if_pos rfl]
  have nan := small (quietNaN format) quiet.2
  have infinity := small format.infinity (by omega)
  have negative := large format.infinity le_rfl
  rw [if_pos (by unfold quietNaN; omega)] at nan
  rw [if_neg (by omega)] at infinity
  unfold floatPlace at place
  unfold decodeFloat
  rw [← signBit]
  dsimp only
  split_ifs at place with isNaN isInfinity isNegative natural
  · rw [if_pos (by omega), nan, isNaN]
  · rw [if_neg (by omega), if_pos (by omega), infinity, isInfinity]
  · rw [if_neg (by omega), if_neg (by omega), if_pos (by omega), negative, isNegative]
  · rw [if_neg (by omega), if_neg (by omega), if_neg (by omega), if_pos (by omega),
      small _ (by omega), if_neg (by omega)]
    omega
  · have magnitude : 2 * signBit format - 1 - input = signBit format + (-key).toNat := by omega
    rw [if_neg (by omega), if_neg (by omega), if_neg (by omega), if_neg (by omega), magnitude,
      large _ (by omega)]
    omega

/-! ## Values -/

theorem decodeWords {upper lower : List UInt8} (length : upper.length = 8) :
    (upper ++ lower).take 8 = upper ∧ (upper ++ lower).drop 8 = lower :=
  ⟨List.take_left' length, List.drop_left' length⟩

/-- The lower word of a wide integer. -/
theorem fromBigEndian_lower (value : Int) :
    (fromBigEndian (bigEndian 8 (value % 2 ^ 64).toNat) : Int) = value % 2 ^ 64 := by
  rw [fromBigEndian_bigEndian (by omega)]
  omega

theorem decodeFloat_lt {format : FloatFormat} (room : format.infinity + 2 ≤ signBit format)
    (quiet : quietNaN format < signBit format) {input : Nat} (bound : input < 2 * signBit format) :
    decodeFloat format input < 2 * signBit format := by
  unfold decodeFloat
  rw [← signBit]
  dsimp only
  split_ifs <;> omega

/-- What is decoded from the encoding of a value has the place of the value. -/
theorem key_decodeData {type : ConstantType} {payload : Payload}
    (typed : payload.hasType type.physicalType = true) :
    (decodeData type (encodeData type payload)).key = payload.key := by
  cases type with
  | bool =>
      cases payload <;> simp [ConstantType.physicalType, Payload.hasType,
        PhysicalType.integerRange] at typed
      rename_i value
      cases value <;> rfl
  | float =>
      cases payload <;> simp [ConstantType.physicalType, Payload.hasType,
        PhysicalType.integerRange] at typed
      rename_i bits
      have bound : encodeFloat .float bits.toNat < 2 * signBit .float :=
        encodeFloat_lt (by decide) (by decide) bits.isLt
      have decoded : decodeFloat .float (encodeFloat .float bits.toNat) < 2 ^ 32 :=
        decodeFloat_lt (by decide) (by decide) bound
      have key := @key_decodeFloat .float (by decide) (by decide) (by decide) bits.toNat bits.isLt
      rw [encodeData, decodeData, fromBigEndian_bigEndian bound, Payload.key, Payload.key,
        Payload.digits, Payload.digits, BitVec.toNat_ofNat, Nat.mod_eq_of_lt decoded, key]
  | double =>
      cases payload <;> simp [ConstantType.physicalType, Payload.hasType,
        PhysicalType.integerRange] at typed
      rename_i bits
      have bound : encodeFloat .double bits.toNat < 2 * signBit .double :=
        encodeFloat_lt (by decide) (by decide) bits.isLt
      have decoded : decodeFloat .double (encodeFloat .double bits.toNat) < 2 ^ 64 :=
        decodeFloat_lt (by decide) (by decide) bound
      have key := @key_decodeFloat .double (by decide) (by decide) (by decide) bits.toNat bits.isLt
      rw [encodeData, decodeData, fromBigEndian_bigEndian bound, Payload.key, Payload.key,
        Payload.digits, Payload.digits, BitVec.toNat_ofNat, Nat.mod_eq_of_lt decoded, key]
  | uint128 =>
      obtain ⟨value, rfl, low, high⟩ := integer_of_hasType rfl typed
      obtain ⟨first, second⟩ := @decodeWords (bigEndian 8 (value / 2 ^ 64).toNat)
        (bigEndian 8 (value % 2 ^ 64).toNat) (length_bigEndian 8 _)
      have upper : (fromBigEndian (bigEndian 8 (value / 2 ^ 64).toNat) : Int) = value / 2 ^ 64 := by
        rw [fromBigEndian_bigEndian (by omega)]
        omega
      rw [encodeData, decodeData, first, second, upper, fromBigEndian_lower]
      congr 2
      omega
  | int128 =>
      obtain ⟨value, rfl, low, high⟩ := integer_of_hasType rfl typed
      obtain ⟨first, second⟩ := @decodeWords (encodeSigned 8 (value / 2 ^ 64))
        (bigEndian 8 (value % 2 ^ 64).toNat) (length_encodeSigned 8 _)
      rw [encodeData, decodeData, first, second, fromBigEndian_lower,
        decodeSigned_encodeSigned (by omega) (by omega)]
      congr 2
      omega
  | uint8 | uint16 | uint32 | uint64 =>
      obtain ⟨value, rfl, low, high⟩ := integer_of_hasType rfl typed
      rw [encodeData, decodeData, fromBigEndian_bigEndian (by omega)]
      congr 2
      omega
  | int8 | int16 | int32 | int64 =>
      obtain ⟨value, rfl, low, high⟩ := integer_of_hasType rfl typed
      rw [encodeData, decodeData, decodeSigned_encodeSigned (by omega) (by omega)]

theorem decodeInterval_encodeInterval {interval : IntervalValue} (bounds : interval.inRange) :
    decodeInterval (encodeInterval interval) = interval := by
  obtain ⟨months, days, micros⟩ := bounds
  have first := length_encodeSigned 4 interval.months
  have second := length_encodeSigned 4 interval.days
  have both : (encodeSigned 4 interval.months ++ encodeSigned 4 interval.days).length = 8 := by
    rw [List.length_append, first, second]
  rw [decodeInterval, encodeInterval, List.drop_left' both, List.append_assoc,
    List.take_left' first, List.drop_left' first, List.take_left' second,
    decodeSigned_encodeSigned (by omega) (by omega),
    decodeSigned_encodeSigned (by omega) (by omega),
    decodeSigned_encodeSigned (by omega) (by omega)]

end Radix

/-! ## Operators -/

theorem flippedByte_flippedByte (flipBytes : Bool) (byte : UInt8) :
    flippedByte flipBytes (flippedByte flipBytes byte) = byte := by
  cases flipBytes with
  | false => rfl
  | true => exact UInt8.not_not

theorem flippedByte_inj {flipBytes : Bool} {first second : UInt8} :
    flippedByte flipBytes first = flippedByte flipBytes second ↔ first = second := by
  constructor
  · intro same
    rw [← flippedByte_flippedByte flipBytes first, same, flippedByte_flippedByte]
  · exact congrArg _

theorem flipped_eq_map (flipBytes : Bool) (bytes : List UInt8) :
    flipped flipBytes bytes = bytes.map (flippedByte flipBytes) := by
  cases flipBytes with
  | false => exact (List.map_id bytes).symm
  | true => rfl

theorem flipped_flipped (flipBytes : Bool) (bytes : List UInt8) :
    flipped flipBytes (flipped flipBytes bytes) = bytes := by
  rw [flipped_eq_map, flipped_eq_map, List.map_map]
  exact (List.map_congr_left fun byte _ => flippedByte_flippedByte flipBytes byte).trans
    (List.map_id bytes)

/-- The bytes of a value, in either order, are read back whatever is behind them. -/
def SortKeyDecoder.Reads {Value : Type} (decode : SortKeyDecoder Value) (bytes : List UInt8)
    (value : Value) : Prop :=
  ∀ flipBytes rest,
    decode (flipped flipBytes bytes ++ rest) flipBytes = .ok (bytes.length, value)

theorem sortKeyConstantDecode_reads {Value : Type} {size : Nat} (length : bytes.length = size)
    (decodeData : List UInt8 → Value) :
    (sortKeyConstantDecode size decodeData).Reads bytes (decodeData bytes) := by
  intro flipBytes rest
  have same : (flipped flipBytes bytes).length = size := by rw [length_flipped, length]
  unfold sortKeyConstantDecode
  rw [if_neg (by rw [List.length_append]; omega), List.take_left' same, flipped_flipped, length]

/-- The delimiter is found behind bytes that differ from it. -/
theorem findStringDelimiter_append {delimiter : UInt8}
    (different : ∀ byte ∈ bytes, byte ≠ delimiter) (rest : List UInt8) (pos : Nat) :
    findStringDelimiter delimiter (bytes ++ delimiter :: rest) pos = .ok (pos + bytes.length) := by
  induction bytes generalizing pos with
  | nil => simp [findStringDelimiter]
  | cons byte more ih =>
      obtain ⟨head, tail⟩ := List.forall_mem_cons.mp different
      rw [List.cons_append, findStringDelimiter, if_neg head, ih tail, List.length_cons]
      congr 1
      omega

theorem sortKeyVarcharDecode_reads {value : List UInt8} (utf8 : ∀ byte ∈ value, byte ≠ 255) :
    sortKeyVarcharDecode.Reads (sortKeyVarcharOperator.encode value) value := by
  intro flipBytes rest
  have different : ∀ byte ∈ (value.map (· + 1)).map (flippedByte flipBytes),
      byte ≠ flippedByte flipBytes 0 := by
    intro byte member same
    obtain ⟨raised, inside, rfl⟩ := List.mem_map.mp member
    obtain ⟨original, origin, rfl⟩ := List.mem_map.mp inside
    have zero := congrArg UInt8.toNat (flippedByte_inj.mp same)
    rw [toNat_add_one (utf8 original origin)] at zero
    exact absurd zero (Nat.succ_ne_zero _)
  have bytes : flipped flipBytes (sortKeyVarcharOperator.encode value) ++ rest =
      (value.map (· + 1)).map (flippedByte flipBytes) ++ flippedByte flipBytes 0 :: rest := by
    rw [flipped_eq_map, sortKeyVarcharOperator, List.map_append, List.append_assoc]
    rfl
  have length : (sortKeyVarcharOperator.encode value).length = value.length + 1 := by
    simp [sortKeyVarcharOperator]
  have lowered : ∀ byte : UInt8,
      flippedByte flipBytes (flippedByte flipBytes (byte + 1)) - 1 = byte := by
    intro byte
    rw [flippedByte_flippedByte]
    exact UInt8.add_sub_cancel byte 1
  unfold sortKeyVarcharDecode
  rw [bytes, findStringDelimiter_append different, length]
  dsimp only [bind, Except.bind]
  rw [Nat.zero_add, List.take_left' rfl, List.length_map, List.length_map, List.map_map,
    List.map_map]
  congr 2
  exact (List.map_congr_left fun byte _ => lowered byte).trans (List.map_id value)

/-- The end of a blob is found behind its bytes and their escapes. -/
theorem findBlobDelimiter_append (flipBytes : Bool) (value rest : List UInt8) (pos blobLen : Nat) :
    findBlobDelimiter (flippedByte flipBytes 0) (flippedByte flipBytes 1)
        ((value.flatMap escaped).map (flippedByte flipBytes) ++ flippedByte flipBytes 0 :: rest)
        pos blobLen =
      .ok (pos + (value.flatMap escaped).length, blobLen + value.length) := by
  induction value generalizing pos blobLen with
  | nil =>
      change findBlobDelimiter _ _ (flippedByte flipBytes 0 :: rest) pos blobLen = _
      rw [findBlobDelimiter.eq_def]
      exact if_pos rfl
  | cons byte more ih =>
      rw [List.flatMap_cons, escaped]
      split
      · simp only [List.map_cons, List.cons_append, List.nil_append]
        rw [findBlobDelimiter.eq_def]
        dsimp only
        rw [if_neg (by rw [flippedByte_inj]; decide), if_pos rfl, ih, List.length_cons,
          List.length_cons, List.length_cons]
        congr 2 <;> omega
      · rename_i large
        have not_zero : byte ≠ 0 := fun zero => large (by rw [zero]; decide)
        have not_one : byte ≠ 1 := fun one => large (by rw [one]; decide)
        simp only [List.map_cons, List.cons_append, List.nil_append]
        rw [findBlobDelimiter.eq_def]
        dsimp only
        rw [if_neg (by rwa [flippedByte_inj]), if_neg (by rwa [flippedByte_inj]), ih,
          List.length_cons, List.length_cons]
        congr 2 <;> omega

theorem copyBlob_escaped (flipBytes : Bool) (value : List UInt8) :
    copyBlob (flippedByte flipBytes 1) flipBytes
      ((value.flatMap escaped).map (flippedByte flipBytes)) = value := by
  induction value with
  | nil => rfl
  | cons byte more ih =>
      rw [List.flatMap_cons, escaped]
      split
      · simp only [List.map_cons, List.cons_append, List.nil_append]
        rw [copyBlob.eq_def]
        dsimp only
        rw [if_pos rfl, ih, flippedByte_flippedByte]
      · rename_i large
        have not_one : byte ≠ 1 := fun one => large (by rw [one]; decide)
        simp only [List.map_cons, List.cons_append, List.nil_append]
        rw [copyBlob.eq_def]
        dsimp only
        rw [if_neg (by rwa [flippedByte_inj]), ih, flippedByte_flippedByte]

theorem sortKeyBlobDecode_reads (value : List UInt8) :
    sortKeyBlobDecode.Reads (sortKeyBlobOperator.encode value) value := by
  intro flipBytes rest
  have bytes : flipped flipBytes (sortKeyBlobOperator.encode value) ++ rest =
      (value.flatMap escaped).map (flippedByte flipBytes) ++ flippedByte flipBytes 0 :: rest := by
    rw [flipped_eq_map]
    change ((value.flatMap escaped) ++ [0]).map _ ++ rest = _
    rw [List.map_append, List.append_assoc]
    rfl
  have length : (sortKeyBlobOperator.encode value).length =
      (value.flatMap escaped).length + 1 := by
    change ((value.flatMap escaped) ++ [0]).length = _
    rw [List.length_append, List.length_singleton]
  unfold sortKeyBlobDecode
  dsimp only
  rw [bytes, findBlobDelimiter_append, length]
  dsimp only [bind, Except.bind]
  rw [Nat.zero_add, Nat.zero_add, List.take_left' (List.length_map _), copyBlob_escaped,
    if_neg (Nat.lt_irrefl _), Nat.sub_self, List.replicate_zero, List.append_nil]

end StatsRecommender
