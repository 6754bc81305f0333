import StatsRecommender.Statistics.AdditionalStats

/-!
# Bloom filters

`BloomAdditionalStats<T, N, M, K>`: a blocked Bloom filter of `M` blocks of `N` words
with `K` bits a value, over a MurmurHash of `std::hash`.
-/

namespace StatsRecommender

variable {bits : List (BitVec 64)} {position : Nat × Nat} {positions : List (Nat × Nat)}
  {comparison : ComparisonType} {data : List Payload}

/-- The words of `bit_array`. -/
structure BloomAdditionalStats where
  bitArray : List (BitVec 64)
  deriving DecidableEq, Repr

namespace BloomAdditionalStats

def fmix64 (key : BitVec 64) : BitVec 64 :=
  let key := (key ^^^ (key >>> 33)) * 0xff51afd7ed558ccd
  let key := (key ^^^ (key >>> 33)) * 0xc4ceb9fe1a85ec53
  key ^^^ (key >>> 33)

/-- `MurmurHash3_x64_128` on the eight bytes of a `size_t`, seed 1: only the tail is left. -/
def murmurHash3 (key : BitVec 64) : BitVec 64 :=
  let k1 := (key * 0x87c37b91114253d5).rotateLeft 31 * 0x4cf5ad432745937f
  let h1 := 1 ^^^ k1 ^^^ 8
  let h2 : BitVec 64 := 1 ^^^ 8
  let h1 := h1 + h2
  let h2 := h2 + h1
  fmix64 h1 + fmix64 h2

/-- Word and bit of the `round`-th bit of a hash, the block offset included. -/
def bitPosition (N M : Nat) (hash : BitVec 64) (round : Nat) : Nat × Nat :=
  let h1 : BitVec 32 := hash.setWidth 32
  let h2 : BitVec 32 := (hash >>> 32).setWidth 32
  let blockIndex := h1.toNat % M
  let bitPos := (h1 + BitVec.ofNat 32 round * h2).toNat % (64 * N)
  (blockIndex * N + bitPos / 64, bitPos % 64)

/-- The bits of a value, in the order of the loop over `1 .. K`. -/
def bitPositions (runtime : Runtime) (N M K : Nat) (value : Payload) : List (Nat × Nat) :=
  (List.range' 1 K).map (bitPosition N M (murmurHash3 (runtime.hash value)))

def setBit (bits : List (BitVec 64)) (position : Nat × Nat) : List (BitVec 64) :=
  bits.modify position.1 fun word => word ||| (1#64 <<< position.2)

def testBit (bits : List (BitVec 64)) (position : Nat × Nat) : Bool :=
  ((bits.getD position.1 0 >>> position.2) &&& 1#64) != 0#64

/-- `BloomUtil::Insert`. -/
def insert (runtime : Runtime) (N M K : Nat) (bits : List (BitVec 64)) (value : Payload) :
    List (BitVec 64) :=
  (bitPositions runtime N M K value).foldl setBit bits

/-- `BloomUtil::QueryUtil`. -/
def queryUtil (runtime : Runtime) (N M K : Nat) (bits : List (BitVec 64)) (value : Payload) :
    Bool :=
  (bitPositions runtime N M K value).all (testBit bits)

def initialise (runtime : Runtime) (N M K : Nat) (data : List Payload) : BloomAdditionalStats :=
  ⟨data.foldl (insert runtime N M K) (List.replicate (N * M) 0)⟩

def query (stats : BloomAdditionalStats) (runtime : Runtime) (N M K : Nat)
    (comparison : ComparisonType) (constant : Payload) : FilterPropagateResult :=
  match comparison with
  | .compareEqual | .compareNotDistinctFrom =>
      if queryUtil runtime N M K stats.bitArray constant then .noPruningPossible
      else .filterAlwaysFalse
  | _ => .noPruningPossible

def queryRange (_stats : BloomAdditionalStats) (_start _finish : Payload) :
    FilterPropagateResult :=
  .noPruningPossible

theorem query_twoValued (stats : BloomAdditionalStats) (runtime : Runtime) (N M K : Nat)
    (comparison : ComparisonType) (constant : Payload) :
    (stats.query runtime N M K comparison constant).TwoValued := by
  cases comparison with
  | compareEqual | compareNotDistinctFrom => exact .ite (Or.inl rfl) (Or.inr rfl)
  | _ => exact Or.inl rfl

/-! ## A value that was inserted is found -/

/-- A position inside an array of the given size. -/
def Inside (size : Nat) (position : Nat × Nat) : Prop := position.1 < size ∧ position.2 < 64

theorem bitPosition_inside {N M : Nat} (hN : 0 < N) (hM : 0 < M) (hash : BitVec 64)
    (round : Nat) : Inside (N * M) (bitPosition N M hash round) := by
  simp only [bitPosition, Inside]
  generalize (BitVec.setWidth 32 hash).toNat = h1
  generalize (_ : BitVec 32).toNat = sum
  have hblock : h1 % M < M := Nat.mod_lt _ hM
  have hbit : sum % (64 * N) < 64 * N := Nat.mod_lt _ (by omega)
  refine ⟨?_, Nat.mod_lt _ (by decide)⟩
  calc h1 % M * N + sum % (64 * N) / 64 < h1 % M * N + N := by omega
    _ = (h1 % M + 1) * N := by rw [Nat.add_mul, Nat.one_mul]
    _ ≤ M * N := Nat.mul_le_mul_right _ hblock
    _ = N * M := Nat.mul_comm _ _

theorem testBit_iff_getLsbD (bits : List (BitVec 64)) (position : Nat × Nat) :
    testBit bits position = true ↔ (bits.getD position.1 0).getLsbD position.2 = true := by
  rw [testBit, bne_iff_ne, ne_eq, BitVec.and_one_eq_setWidth_ofBool_getLsbD,
    BitVec.getLsbD_ushiftRight, Nat.add_zero]
  cases (bits.getD position.1 0).getLsbD position.2 <;> decide

theorem length_setBit (bits : List (BitVec 64)) (position : Nat × Nat) :
    (setBit bits position).length = bits.length := by
  rw [setBit, List.length_modify]

theorem testBit_setBit_self (inside : Inside bits.length position) :
    testBit (setBit bits position) position = true := by
  rw [testBit_iff_getLsbD, setBit, List.getD_eq_getElem?_getD, List.getElem?_modify,
    List.getElem?_eq_getElem inside.1]
  simp [inside.2]

/-- No bit is ever taken back. -/
theorem testBit_setBit_of_testBit (other : Nat × Nat) (hset : testBit bits position = true) :
    testBit (setBit bits other) position = true := by
  rw [testBit_iff_getLsbD] at hset ⊢
  rw [setBit, List.getD_eq_getElem?_getD, List.getElem?_modify]
  rw [List.getD_eq_getElem?_getD] at hset
  cases hword : bits[position.1]? with
  | none => simp [hword] at hset
  | some word =>
      rw [hword] at hset
      split
      · simpa using Or.inl hset
      · simpa using hset

theorem length_foldl_setBit (positions : List (Nat × Nat)) (bits : List (BitVec 64)) :
    (positions.foldl setBit bits).length = bits.length := by
  induction positions generalizing bits with
  | nil => rfl
  | cons position rest ih => rw [List.foldl_cons, ih, length_setBit]

theorem testBit_foldl_of_testBit (positions : List (Nat × Nat))
    (hset : testBit bits position = true) :
    testBit (positions.foldl setBit bits) position = true := by
  induction positions generalizing bits with
  | nil => exact hset
  | cons other rest ih => exact ih (testBit_setBit_of_testBit other hset)

theorem testBit_foldl_of_mem (inside : ∀ position ∈ positions, Inside bits.length position)
    (member : position ∈ positions) : testBit (positions.foldl setBit bits) position = true := by
  induction positions generalizing bits with
  | nil => exact absurd member List.not_mem_nil
  | cons other rest ih =>
      rw [List.foldl_cons]
      rcases List.mem_cons.mp member with rfl | later
      · exact testBit_foldl_of_testBit rest
          (testBit_setBit_self (inside position List.mem_cons_self))
      · refine ih (fun next hnext => ?_) later
        rw [length_setBit]
        exact inside next (List.mem_cons_of_mem _ hnext)

section Filter

variable (runtime : Runtime) {N M K : Nat} {data : List Payload}

theorem testBit_foldl_insert (data : List Payload) (hset : testBit bits position = true) :
    testBit (data.foldl (insert runtime N M K) bits) position = true := by
  induction data generalizing bits with
  | nil => exact hset
  | cons value rest ih => exact ih (testBit_foldl_of_testBit _ hset)

theorem queryUtil_foldl_insert (hN : 0 < N) (hM : 0 < M) (length : bits.length = N * M)
    {value : Payload} (member : value ∈ data) :
    queryUtil runtime N M K (data.foldl (insert runtime N M K) bits) value = true := by
  induction data generalizing bits with
  | nil => exact absurd member List.not_mem_nil
  | cons head rest ih =>
      rw [List.foldl_cons]
      rcases List.mem_cons.mp member with rfl | later
      · refine List.all_eq_true.mpr fun position hposition => ?_
        refine testBit_foldl_insert runtime rest (testBit_foldl_of_mem ?_ hposition)
        intro other hother
        obtain ⟨round, -, rfl⟩ := List.mem_map.mp hother
        rw [length]
        exact bitPosition_inside hN hM _ round
      · exact ih (by rw [insert, length_foldl_setBit, length]) later

/-- Equal values that are not NaN have one hash, so the filter cannot miss them. -/
theorem bitPositions_congr {value constant : Payload} (same : value.key = constant.key)
    (number : value.isNaN = false) :
    bitPositions runtime N M K value = bitPositions runtime N M K constant := by
  have heq : value.cxxEquals constant = true := Payload.cxxEquals_of_key_eq same number
  rw [bitPositions, bitPositions, runtime.hash_congr _ _ heq]

/-- Without a NaN in the data, the filter excludes a constant only if no value equals it. -/
theorem query_initialise_sound (hN : 0 < N) (hM : 0 < M)
    (numbers : ∀ value ∈ data, value.isNaN = false) (comparison : ComparisonType)
    (constant : Payload) :
    QuerySound data comparison constant
      ((initialise runtime N M K data).query runtime N M K comparison constant) := by
  intro answer value member
  have found : queryUtil runtime N M K (initialise runtime N M K data).bitArray value = true :=
    queryUtil_foldl_insert runtime hN hM List.length_replicate member
  have missed : value.key = constant.key →
      queryUtil runtime N M K (initialise runtime N M K data).bitArray constant ≠ false := by
    intro same
    rw [queryUtil, ← bitPositions_congr runtime same (numbers value member)]
    exact Bool.ne_false_iff.mpr found
  cases comparison with
  | compareEqual | compareNotDistinctFrom =>
      simp only [query] at answer
      split at answer
      · cases answer
      · rename_i absent
        simp only [ComparisonType.holds, equals_eq_false_iff]
        exact fun same => missed same (Bool.eq_false_iff.mpr absent)
  | _ => cases answer

end Filter

/-! ## NaNs -/

/--
No constant is excluded that a value equals, and no comparison but equality ever excludes
anything.
-/
structure NeverMisses (runtime : Runtime) (N M K : Nat) (data : List Payload) : Prop where
  found : ∀ value ∈ data, ∀ constant, equals value constant = true →
    ∀ comparison, comparison = .compareEqual ∨ comparison = .compareNotDistinctFrom →
      (initialise runtime N M K data).query runtime N M K comparison constant ≠
        .filterAlwaysFalse
  others : ∀ comparison, comparison ≠ .compareEqual → comparison ≠ .compareNotDistinctFrom →
    ∀ constant, (initialise runtime N M K data).query runtime N M K comparison constant ≠
      .filterAlwaysFalse

theorem query_of_not_equality (stats : BloomAdditionalStats) (runtime : Runtime) (N M K : Nat)
    (notEqual : comparison ≠ .compareEqual) (notSame : comparison ≠ .compareNotDistinctFrom)
    (constant : Payload) : stats.query runtime N M K comparison constant = .noPruningPossible := by
  cases comparison with
  | compareEqual => exact absurd rfl notEqual
  | compareNotDistinctFrom => exact absurd rfl notSame
  | _ => rfl

theorem query_of_equality (stats : BloomAdditionalStats) (runtime : Runtime) (N M K : Nat)
    (equality : comparison = .compareEqual ∨ comparison = .compareNotDistinctFrom)
    (constant : Payload) :
    stats.query runtime N M K comparison constant ≠ .filterAlwaysFalse ↔
      queryUtil runtime N M K stats.bitArray constant = true := by
  rcases equality with rfl | rfl <;> simp [query]

/-- Every bit of a word that is set was set before or is the given one. -/
theorem testBit_of_testBit_setBit {other : Nat × Nat}
    (hset : testBit (setBit bits other) position = true) :
    testBit bits position = true ∨ position = other := by
  rw [testBit_iff_getLsbD] at hset ⊢
  rw [setBit, List.getD_eq_getElem?_getD, List.getElem?_modify] at hset
  rw [List.getD_eq_getElem?_getD]
  cases hword : bits[position.1]? with
  | none => simp [hword] at hset
  | some word =>
      rw [hword] at hset
      by_cases same : other.1 = position.1
      · simp only [same, if_true, Option.map_eq_map, Option.map_some, Option.getD_some,
          BitVec.getLsbD_or, Bool.or_eq_true] at hset
        rcases hset with old | new
        · exact Or.inl (by simpa using old)
        · refine Or.inr (Prod.ext same.symm ?_)
          by_contra differs
          have : position.2 < 64 ∧ ¬ position.2 < other.2 ∧ position.2 - other.2 = 0 := by
            simpa [BitVec.getLsbD_shiftLeft, BitVec.getLsbD_one, and_assoc] using new
          omega
      · simp only [same, if_false] at hset
        exact Or.inl (by simpa using hset)

theorem testBit_of_testBit_foldl (hset : testBit (positions.foldl setBit bits) position = true) :
    testBit bits position = true ∨ position ∈ positions := by
  induction positions generalizing bits with
  | nil => exact Or.inl hset
  | cons other rest ih =>
      rcases ih hset with before | later
      · rcases testBit_of_testBit_setBit before with old | rfl
        · exact Or.inl old
        · exact Or.inr List.mem_cons_self
      · exact Or.inr (List.mem_cons_of_mem _ later)

/-- A bit of a filter that was empty belongs to one of the inserted values. -/
theorem mem_of_testBit_insert (runtime : Runtime) {N M K : Nat}
    (hset : testBit (data.foldl (insert runtime N M K) bits) position = true) :
    testBit bits position = true ∨ ∃ value ∈ data, position ∈ bitPositions runtime N M K value := by
  induction data generalizing bits with
  | nil => exact Or.inl hset
  | cons value rest ih =>
      rcases ih hset with before | ⟨other, member, inside⟩
      · rcases testBit_of_testBit_foldl before with old | here
        · exact Or.inl old
        · exact Or.inr ⟨value, List.mem_cons_self, here⟩
      · exact Or.inr ⟨other, List.mem_cons_of_mem _ member, inside⟩

/-- Whether the bit of a hash in a round has an odd index does not depend on the array. -/
theorem bitPosition_parity (N M : Nat) (hash : BitVec 64) (round : Nat) :
    (bitPosition N M hash round).2 % 2 =
      ((hash.setWidth 32).toNat + round * ((hash >>> 32).setWidth 32).toNat) % 2 := by
  simp only [bitPosition, BitVec.toNat_add, BitVec.toNat_mul, BitVec.toNat_ofNat]
  generalize (BitVec.setWidth 32 hash).toNat = h1
  generalize (BitVec.setWidth 32 (hash >>> 32)).toNat = h2
  have outer : ∀ sum : Nat, sum % (64 * N) % 64 % 2 = sum % 2 := by
    intro sum
    rw [Nat.mod_mod_of_dvd _ (Nat.dvd_mul_right 64 N), Nat.mod_mod_of_dvd _ (by decide)]
  have product : round % 2 ^ 32 * h2 % 2 ^ 32 % 2 = round * h2 % 2 := by
    rw [Nat.mod_mod_of_dvd _ (by decide), Nat.mul_mod, Nat.mod_mod_of_dvd _ (by decide),
      ← Nat.mul_mod]
  rw [outer, Nat.mod_mod_of_dvd _ (by decide), Nat.add_mod, product, ← Nat.add_mod]

theorem testBit_empty (size : Nat) (position : Nat × Nat) :
    testBit (List.replicate size 0) position = false := by
  rw [← Bool.not_eq_true, testBit_iff_getLsbD, List.getD_eq_getElem?_getD, List.getElem?_replicate]
  split <;> simp

/-- With the NaN set apart, its first bit is odd and every other value has even bits only. -/
theorem queryUtil_singling {N M K : Nat} (several : K ≠ 0) {nan : Payload}
    (is_nan : nan.isNaN = true) (absent : nan ∉ data) :
    queryUtil (.singling nan is_nan) N M K
      (initialise (.singling nan is_nan) N M K data).bitArray nan = false := by
  have hash_nan : (Runtime.singling nan is_nan).hash nan = 0 := if_pos rfl
  by_contra found
  rw [Bool.not_eq_false, queryUtil, List.all_eq_true] at found
  have first : bitPosition N M (murmurHash3 0) 1 ∈
      bitPositions (.singling nan is_nan) N M K nan := by
    rw [bitPositions, hash_nan]
    exact List.mem_map_of_mem (List.mem_range'_1.mpr ⟨le_rfl, by omega⟩)
  rcases mem_of_testBit_insert _ (found _ first) with initial | ⟨value, member, inside⟩
  · rw [testBit_empty] at initial
    cases initial
  · have differs : value ≠ nan := fun same => absent (same ▸ member)
    have hash_value : (Runtime.singling nan is_nan).hash value = 1 := if_neg differs
    rw [bitPositions, hash_value] at inside
    obtain ⟨round, -, same⟩ := List.mem_map.mp inside
    have parity := bitPosition_parity N M (murmurHash3 0) 1
    rw [← same, bitPosition_parity] at parity
    have low : ((murmurHash3 1).setWidth 32).toNat % 2 = 0 := by decide
    have high : ((murmurHash3 1 >>> 32).setWidth 32).toNat % 2 = 0 := by decide
    have odd : (((murmurHash3 0).setWidth 32).toNat +
        1 * ((murmurHash3 0 >>> 32).setWidth 32).toNat) % 2 = 1 := by decide
    rw [odd, Nat.add_mod, low, Nat.mul_mod, high, Nat.mul_zero] at parity
    cases parity

/-- With a NaN every NaN of its type is among the values, whatever its bits. -/
def NaNsComplete (data : List Payload) : Prop :=
  ∀ value ∈ data, value.isNaN = true → ∀ constant, equals value constant = true → constant ∈ data

/--
Whatever `std::hash` makes of NaNs, no equal constant is missed: exactly when the data
brings no NaN without all the others, or no bit is looked at.
-/
theorem neverMisses_iff_nansComplete {N M : Nat} (K : Nat) (hN : 0 < N) (hM : 0 < M)
    (data : List Payload) :
    (∀ runtime, NeverMisses runtime N M K data) ↔ K = 0 ∨ NaNsComplete data := by
  constructor
  · intro never
    by_contra neither
    rw [not_or] at neither
    obtain ⟨several, incomplete⟩ := neither
    apply incomplete
    intro value member nan constant same
    by_contra absent
    have constant_nan := Payload.isNaN_of_key_eq nan ((equals_iff _ _).mp same)
    have found := (query_of_equality _ _ _ _ _ (Or.inl rfl) _).mp
      ((never (.singling constant constant_nan)).found value member constant same
        .compareEqual (Or.inl rfl))
    rw [queryUtil_singling several constant_nan absent] at found
    cases found
  · intro condition runtime
    refine ⟨fun value member constant same comparison equality => ?_,
      fun comparison notEqual notSame constant => ?_⟩
    · rw [query_of_equality _ _ _ _ _ equality]
      rcases condition with rfl | complete
      · rfl
      · have present : ∀ inserted ∈ data,
            queryUtil runtime N M K (initialise runtime N M K data).bitArray inserted = true :=
          fun inserted inside =>
            queryUtil_foldl_insert runtime hN hM List.length_replicate inside
        cases nan : value.isNaN with
        | true => exact present constant (complete value member nan constant same)
        | false =>
            rw [queryUtil, ← bitPositions_congr runtime ((equals_iff _ _).mp same) nan]
            exact present value member
    · rw [query_of_not_equality _ _ _ _ _ notEqual notSame]
      decide

/-- A medium filter over one float. -/
theorem neverMisses_iff_nansComplete_float :
    (∀ runtime, NeverMisses runtime 100 1 1 [.float 0x3f800000]) ↔
      1 = 0 ∨ NaNsComplete [.float 0x3f800000] :=
  neverMisses_iff_nansComplete 1 (by decide) (by decide) _

/-- A medium filter over one NaN misses the NaN of the other sign. -/
theorem nan_missed : ¬ NeverMisses .bitPatterns 100 1 1 [.float 0x7fc00000] := by
  intro never
  have found := never.found (.float 0x7fc00000) List.mem_cons_self (.float 0xffc00000) (by decide)
    .compareEqual (Or.inl rfl)
  exact absurd found (by decide +kernel)

end BloomAdditionalStats

end StatsRecommender
