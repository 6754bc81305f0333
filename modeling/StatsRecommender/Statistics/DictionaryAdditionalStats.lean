import Mathlib.Data.List.Dedup
import Mathlib.Data.List.Perm.Basic
import StatsRecommender.Statistics.AdditionalStats

/-!
# Dictionaries

`DictionaryAdditionalStats<T, N>`: the set of values of a column, given up as soon as it
has more than `N` elements.
-/

namespace StatsRecommender

variable {dictionary data : List Payload} {value elem item : Payload} {N : Nat}
  {comparison : ComparisonType}

/-- The fields `valid` and `dictionary`; the order of the set plays no part. -/
structure DictionaryAdditionalStats where
  valid : Bool
  dictionary : List Payload
  deriving DecidableEq, Repr

namespace DictionaryAdditionalStats

/-- `std::unordered_set::insert`, which keeps the element that is equal by `operator==`. -/
def insert (dictionary : List Payload) (item : Payload) : List Payload :=
  if dictionary.any fun elem => elem.cxxEquals item then dictionary else item :: dictionary

/-- The loop of `Initialise`, left as soon as the set has more than `N` elements. -/
def insertAll (N : Nat) : List Payload → List Payload → List Payload
  | dictionary, [] => dictionary
  | dictionary, item :: rest =>
      if N < (insert dictionary item).length then insert dictionary item
      else insertAll N (insert dictionary item) rest

def initialise (N : Nat) (data : List Payload) : DictionaryAdditionalStats :=
  let dictionary := insertAll N [] data
  if N < dictionary.length then ⟨false, []⟩ else ⟨true, dictionary⟩

/-- The test of the loop of `Query` for each comparison; strict ones are tested as non-strict. -/
def admits (comparison : ComparisonType) (constant elem : Payload) : Bool :=
  match comparison with
  | .compareEqual | .compareNotDistinctFrom => equals elem constant
  | .compareNotEqual | .compareDistinctFrom => notEquals elem constant
  | .compareGreaterThanOrEqualTo | .compareGreaterThan => greaterThanEquals elem constant
  | .compareLessThan | .compareLessThanOrEqualTo => lessThanEquals elem constant

def query (stats : DictionaryAdditionalStats) (comparison : ComparisonType)
    (constant : Payload) : FilterPropagateResult :=
  if !stats.valid then .noPruningPossible
  else if stats.dictionary.any (admits comparison constant) then .noPruningPossible
  else .filterAlwaysFalse

def queryRange (stats : DictionaryAdditionalStats) (start finish : Payload) :
    FilterPropagateResult :=
  if !stats.valid then .noPruningPossible
  else if stats.dictionary.any fun elem =>
      greaterThanEquals elem start && lessThanEquals elem finish
  then .noPruningPossible
  else .filterAlwaysFalse

theorem query_twoValued (stats : DictionaryAdditionalStats) (comparison : ComparisonType)
    (constant : Payload) : (stats.query comparison constant).TwoValued :=
  .ite (Or.inl rfl) (.ite (Or.inl rfl) (Or.inr rfl))

/-! ## Every value has an element in its place -/

/-- Some element of the set has the position of the value. -/
def Represents (dictionary : List Payload) (value : Payload) : Prop :=
  ∃ elem ∈ dictionary, elem.key = value.key

theorem insert_represents (dictionary : List Payload) (item : Payload) :
    Represents (insert dictionary item) item := by
  unfold insert
  split
  · rename_i present
    obtain ⟨elem, member, same⟩ := List.any_eq_true.mp present
    exact ⟨elem, member, Payload.key_eq_of_cxxEquals same⟩
  · exact ⟨item, List.mem_cons_self, rfl⟩

theorem Represents.insert (represented : Represents dictionary value) (item : Payload) :
    Represents (insert dictionary item) value := by
  obtain ⟨elem, member, same⟩ := represented
  unfold DictionaryAdditionalStats.insert
  split
  · exact ⟨elem, member, same⟩
  · exact ⟨elem, List.mem_cons_of_mem _ member, same⟩

/-- A loop that was not left early has put every value in. -/
theorem insertAll_represents (complete : (insertAll N dictionary data).length ≤ N)
    (given : value ∈ data ∨ Represents dictionary value) :
    Represents (insertAll N dictionary data) value := by
  induction data generalizing dictionary with
  | nil => exact given.resolve_left List.not_mem_nil
  | cons item rest ih =>
      rw [insertAll] at complete ⊢
      split at complete
      · omega
      · rename_i small
        rw [if_neg small]
        refine ih complete ?_
        rcases given with member | represented
        · rcases List.mem_cons.mp member with rfl | later
          · exact Or.inr (insert_represents dictionary value)
          · exact Or.inl later
        · exact Or.inr (represented.insert item)

theorem initialise_represents (valid : (initialise N data).valid = true) (member : value ∈ data) :
    Represents (initialise N data).dictionary value := by
  unfold initialise at valid ⊢
  dsimp only at valid ⊢
  split at valid
  · cases valid
  · rename_i small
    rw [if_neg small]
    exact insertAll_represents (by omega) (Or.inl member)

/-- A comparison that an element fails is failed by the values the element stands for. -/
theorem holds_of_admits {constant : Payload} (same : elem.key = value.key)
    (fails : admits comparison constant elem = false) :
    comparison.holds value constant = false := by
  cases comparison <;>
    simp only [admits, equals_eq_false_iff, notEquals_eq_false_iff, same,
      greaterThanEquals_eq_false_iff, lessThanEquals_eq_false_iff] at fails <;>
    simp [ComparisonType.holds, fails]
  · exact fails.le
  · exact fails.le

theorem query_initialise_sound (N : Nat) (data : List Payload) (comparison : ComparisonType)
    (constant : Payload) :
    QuerySound data comparison constant ((initialise N data).query comparison constant) := by
  intro answer value member
  unfold query at answer
  split at answer
  · cases answer
  · rename_i valid
    obtain ⟨elem, helem, same⟩ := initialise_represents (by simpa using valid) member
    split at answer
    · cases answer
    · rename_i absent
      have fails := List.any_eq_false.mp (Bool.eq_false_iff.mpr absent) elem helem
      rw [Bool.not_eq_true] at fails
      exact holds_of_admits same fails

theorem queryRange_initialise_sound (N : Nat) (data : List Payload) (start finish : Payload) :
    RangeSound data start finish ((initialise N data).queryRange start finish) := by
  rw [rangeSound_iff]
  intro answer value member
  unfold queryRange at answer
  split at answer
  · cases answer
  · rename_i valid
    obtain ⟨elem, helem, same⟩ := initialise_represents (by simpa using valid) member
    split at answer
    · cases answer
    · rename_i absent
      have fails := List.any_eq_false.mp (Bool.eq_false_iff.mpr absent) elem helem
      rw [Bool.not_eq_true, Bool.and_eq_false_iff, greaterThanEquals_eq_false_iff,
        lessThanEquals_eq_false_iff, same] at fails
      exact fails

/-! ## Every element is a value -/

theorem mem_insert (member : elem ∈ insert dictionary item) : elem = item ∨ elem ∈ dictionary := by
  unfold insert at member
  split at member
  · exact Or.inr member
  · exact List.mem_cons.mp member

theorem mem_insertAll (member : elem ∈ insertAll N dictionary data) :
    elem ∈ data ∨ elem ∈ dictionary := by
  induction data generalizing dictionary with
  | nil => exact Or.inr member
  | cons item rest ih =>
      rw [insertAll] at member
      have inserted : elem ∈ insert dictionary item → elem ∈ item :: rest ∨ elem ∈ dictionary := by
        intro inside
        rcases mem_insert inside with rfl | before
        · exact Or.inl List.mem_cons_self
        · exact Or.inr before
      split at member
      · exact inserted member
      · rcases ih member with later | inside
        · exact Or.inl (List.mem_cons_of_mem _ later)
        · exact inserted inside

theorem mem_of_mem_dictionary (member : elem ∈ (initialise N data).dictionary) : elem ∈ data := by
  unfold initialise at member
  dsimp only at member
  split at member
  · exact absurd member List.not_mem_nil
  · exact (mem_insertAll member).resolve_right List.not_mem_nil

/-! ## How many elements the set has -/

/-- Values that are distinct under `Equals`. -/
def distinctCount (data : List Payload) : Nat := (data.map Payload.key).dedup.length

/-- The positions of the values that are not NaN. -/
def numberKeys (data : List Payload) : List OrderKey :=
  (data.filter fun value => !value.isNaN).map Payload.key

/-- Elements of a hash set of the values: `operator==` keeps every NaN. -/
def storedCount (data : List Payload) : Nat :=
  (numberKeys data).dedup.length + data.countP Payload.isNaN

theorem length_split (data : List Payload) :
    data.length = (numberKeys data).length + data.countP Payload.isNaN := by
  rw [numberKeys, List.length_map, ← List.countP_eq_length_filter, Nat.add_comm,
    List.length_eq_countP_add_countP Payload.isNaN]
  simp

theorem cxxEquals_eq_false_of_isNaN (elem : Payload) (nan : item.isNaN = true) :
    elem.cxxEquals item = false := by
  cases elem <;> cases item <;>
    simp_all [Payload.isNaN, Payload.cxxEquals, FloatFormat.ieeeEquals, equals, Payload.key,
      Payload.digits]

theorem any_cxxEquals_iff (dictionary : List Payload) (number : item.isNaN = false) :
    (dictionary.any fun elem => elem.cxxEquals item) = true ↔ item.key ∈ numberKeys dictionary := by
  rw [List.any_eq_true, numberKeys, List.mem_map]
  constructor
  · rintro ⟨elem, member, same⟩
    have equal := Payload.key_eq_of_cxxEquals same
    refine ⟨elem, List.mem_filter.mpr ⟨member, ?_⟩, equal⟩
    rw [Bool.not_eq_true']
    by_contra nan
    rw [Bool.not_eq_false] at nan
    rw [Payload.isNaN_of_key_eq nan equal] at number
    cases number
  · rintro ⟨elem, member, equal⟩
    obtain ⟨inside, elem_number⟩ := List.mem_filter.mp member
    exact ⟨elem, inside, Payload.cxxEquals_of_key_eq equal (by simpa using elem_number)⟩

theorem insert_of_isNaN (dictionary : List Payload) (nan : item.isNaN = true) :
    insert dictionary item = item :: dictionary := by
  unfold insert
  rw [if_neg]
  rw [Bool.not_eq_true, List.any_eq_false]
  intro elem _
  rw [cxxEquals_eq_false_of_isNaN elem nan]
  exact Bool.false_ne_true

/-- The set keeps one element for each position of a number, and every NaN. -/
structure Stores (dictionary data : List Payload) : Prop where
  nodup : (numberKeys dictionary).Nodup
  keys : ∀ key, key ∈ numberKeys dictionary ↔ key ∈ numberKeys data
  nans : dictionary.countP Payload.isNaN = data.countP Payload.isNaN

theorem Stores.insert (stores : Stores dictionary data) (item : Payload) :
    Stores (insert dictionary item) (data ++ [item]) := by
  cases nan : item.isNaN with
  | true =>
      rw [insert_of_isNaN dictionary nan]
      constructor
      · simpa [numberKeys, nan] using stores.nodup
      · simpa [numberKeys, nan] using stores.keys
      · simp [nan, stores.nans]
  | false =>
      have more : ∀ key, key ∈ numberKeys (data ++ [item]) ↔
          key = item.key ∨ key ∈ numberKeys dictionary := by
        intro key
        rw [stores.keys]
        simp only [numberKeys, List.filter_append, List.map_append, List.mem_append,
          List.filter_cons, nan]
        simp [or_comm]
      unfold DictionaryAdditionalStats.insert
      by_cases present : (dictionary.any fun elem => elem.cxxEquals item) = true
      · rw [if_pos present]
        rw [any_cxxEquals_iff dictionary nan] at present
        constructor
        · exact stores.nodup
        · intro key
          rw [more]
          constructor
          · exact Or.inr
          · rintro (rfl | before)
            · exact present
            · exact before
        · simp [nan, stores.nans]
      · rw [if_neg present]
        rw [any_cxxEquals_iff dictionary nan] at present
        have grown : numberKeys (item :: dictionary) = item.key :: numberKeys dictionary := by
          simp [numberKeys, nan]
        constructor
        · rw [grown]
          exact List.nodup_cons.mpr ⟨present, stores.nodup⟩
        · intro key
          rw [grown, more, List.mem_cons]
        · simp [nan, stores.nans]

theorem stores_foldl (data : List Payload) {before : List Payload}
    (stores : Stores dictionary before) :
    Stores (data.foldl insert dictionary) (before ++ data) := by
  induction data generalizing dictionary before with
  | nil => simpa using stores
  | cons item rest ih => simpa using ih (stores.insert item)

theorem Stores.length (stores : Stores dictionary data) : dictionary.length = storedCount data := by
  have perm : (numberKeys dictionary).Perm (numberKeys data).dedup :=
    (List.perm_ext_iff_of_nodup stores.nodup (List.nodup_dedup _)).mpr fun key => by
      rw [stores.keys, List.mem_dedup]
  rw [length_split, perm.length_eq, stores.nans, storedCount]

theorem length_le_foldl (data dictionary : List Payload) :
    dictionary.length ≤ (data.foldl insert dictionary).length := by
  induction data generalizing dictionary with
  | nil => exact le_rfl
  | cons item rest ih =>
      refine le_trans ?_ (ih (insert dictionary item))
      unfold insert
      split
      · exact le_rfl
      · exact Nat.le_succ _

/-- Leaving the loop early changes nothing about the set being too large. -/
theorem lt_length_insertAll (N : Nat) (data dictionary : List Payload) :
    N < (insertAll N dictionary data).length ↔ N < (data.foldl insert dictionary).length := by
  induction data generalizing dictionary with
  | nil => exact Iff.rfl
  | cons item rest ih =>
      rw [insertAll, List.foldl_cons]
      split
      · rename_i large
        exact iff_of_true large (large.trans_le (length_le_foldl rest _))
      · exact ih _

theorem valid_iff (N : Nat) (data : List Payload) :
    (initialise N data).valid = true ↔ storedCount data ≤ N := by
  have empty : Stores [] [] := ⟨List.nodup_nil, fun _ => Iff.rfl, rfl⟩
  have length := (stores_foldl data empty).length
  rw [List.nil_append] at length
  have large := lt_length_insertAll N data []
  rw [length] at large
  unfold initialise
  dsimp only
  split
  · rename_i overfull
    exact iff_of_false Bool.false_ne_true (by have := large.mp overfull; omega)
  · rename_i fits
    exact iff_of_true rfl (by by_contra above; exact fits (large.mpr (by omega)))

/-! ## Exact answers -/

/-- A strict comparison is tested as the non-strict one. -/
def IsStrict (comparison : ComparisonType) : Prop :=
  comparison = .compareGreaterThan ∨ comparison = .compareLessThan

theorem admits_eq_holds (exact_test : ¬ IsStrict comparison) (constant elem : Payload) :
    admits comparison constant elem = comparison.holds elem constant := by
  cases comparison with
  | compareGreaterThan => exact absurd (Or.inl rfl) exact_test
  | compareLessThan => exact absurd (Or.inr rfl) exact_test
  | _ => rfl

theorem query_iff (valid : (initialise N data).valid = true) (exact_test : ¬ IsStrict comparison)
    (constant : Payload) :
    (initialise N data).query comparison constant = .filterAlwaysFalse ↔
      ∀ value ∈ data, comparison.holds value constant = false := by
  refine ⟨query_initialise_sound N data comparison constant, fun absent => ?_⟩
  rw [query, valid, if_neg (by decide), if_neg]
  rw [Bool.not_eq_true, List.any_eq_false]
  intro elem member
  rw [admits_eq_holds exact_test, absent elem (mem_of_mem_dictionary member)]
  exact Bool.false_ne_true

theorem queryRange_iff (valid : (initialise N data).valid = true) (start finish : Payload) :
    (initialise N data).queryRange start finish = .filterAlwaysFalse ↔
      ∀ value ∈ data, (greaterThanEquals value start && lessThanEquals value finish) = false := by
  refine ⟨queryRange_initialise_sound N data start finish, fun absent => ?_⟩
  rw [queryRange, valid, if_neg (by decide), if_neg]
  rw [Bool.not_eq_true, List.any_eq_false]
  intro elem member
  rw [absent elem (mem_of_mem_dictionary member)]
  exact Bool.false_ne_true

/-- The dictionary is given up as the engine counts values, and answers exactly until then. -/
structure ExactDictionary (N : Nat) (data : List Payload) : Prop where
  valid : (initialise N data).valid = true ↔ distinctCount data ≤ N
  query : (initialise N data).valid = true → ∀ comparison, ¬ IsStrict comparison → ∀ constant,
    ((initialise N data).query comparison constant = .filterAlwaysFalse ↔
      ∀ value ∈ data, comparison.holds value constant = false)
  strict : (initialise N data).valid = true → ∀ comparison, IsStrict comparison → ∀ constant,
    QuerySound data comparison constant ((initialise N data).query comparison constant)
  range : (initialise N data).valid = true → ∀ start finish,
    ((initialise N data).queryRange start finish = .filterAlwaysFalse ↔
      ∀ value ∈ data, (greaterThanEquals value start && lessThanEquals value finish) = false)
  invalid : (initialise N data).valid = false →
    (∀ comparison constant, (initialise N data).query comparison constant ≠ .filterAlwaysFalse) ∧
    ∀ start finish, (initialise N data).queryRange start finish ≠ .filterAlwaysFalse

theorem distinctCount_le_storedCount (data : List Payload) :
    distinctCount data ≤ storedCount data := by
  have covered : (data.map Payload.key).dedup ⊆
      (numberKeys data).dedup ++ (data.filter Payload.isNaN).map Payload.key := by
    intro key member
    obtain ⟨value, inside, rfl⟩ := List.mem_map.mp (List.mem_dedup.mp member)
    rw [List.mem_append, List.mem_dedup]
    cases nan : value.isNaN with
    | true => exact Or.inr (List.mem_map_of_mem (List.mem_filter.mpr ⟨inside, nan⟩))
    | false =>
        exact Or.inl (List.mem_map_of_mem (List.mem_filter.mpr ⟨inside, by rw [nan]; rfl⟩))
  have bound := (List.subperm_of_subset (List.nodup_dedup _) covered).length_le
  rwa [List.length_append, List.length_map, ← List.countP_eq_length_filter] at bound

/--
The dictionary is exact unless the engine counts at most `N` values and the set, which
keeps every NaN, has more elements.
-/
theorem exactDictionary_iff (N : Nat) (data : List Payload) :
    ExactDictionary N data ↔ storedCount data ≤ N ∨ N < distinctCount data := by
  have counts := distinctCount_le_storedCount data
  have kept := valid_iff N data
  constructor
  · intro faithful
    have same := faithful.valid
    rw [kept] at same
    omega
  · intro condition
    constructor
    · rw [kept]
      omega
    · exact fun valid comparison exact_test => query_iff valid exact_test
    · exact fun _ comparison _ => query_initialise_sound N data comparison
    · exact fun valid => queryRange_iff valid
    · intro invalid
      constructor
      · intro comparison constant
        rw [query, invalid, if_pos (by decide)]
        decide
      · intro start finish
        rw [queryRange, invalid, if_pos (by decide)]
        decide

/-- One distinct value: 301 NaNs overfill the dictionary. -/
theorem nans_overfill : ¬ ExactDictionary 300 (List.replicate 301 (.double 0x7ff8000000000000)) := by
  intro faithful
  have kept := faithful.valid
  rw [valid_iff] at kept
  exact absurd (kept.mpr (by decide +kernel)) (by decide +kernel)

end DictionaryAdditionalStats

end StatsRecommender
