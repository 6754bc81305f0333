import StatsRecommender.Function.Like
import StatsRecommender.Library.Wildcards

/-!
# The first place of a string

`FindStrInStr` finds the first place of the needle, whatever the width of the words in which it
compares.
-/

namespace StatsRecommender

namespace Like

open Wildcards

variable {needle haystack bytes location : List UInt8} {place size width : Nat} {byte : UInt8}
  {op : MatchRemainder}

/-- The result is the first place of the needle, or there is none. -/
def Finds (needle haystack : List UInt8) : Option Nat → Prop
  | some place => Leftmost needle haystack place
  | none => ∀ place, ¬ needle <+: haystack.drop place

/-- Places in front that do not fit may be skipped. -/
theorem Finds.skip {skipped : Nat} {result : Option Nat}
    (before : ∀ place < skipped, ¬ needle <+: haystack.drop place)
    (found : Finds needle (haystack.drop skipped) result) :
    Finds needle haystack (result.map (skipped + ·)) := by
  cases result with
  | none =>
      intro place starts
      rcases Nat.lt_or_ge place skipped with less | behind
      · exact before place less starts
      · apply found (place - skipped)
        rwa [List.drop_drop, Nat.add_sub_cancel' behind]
  | some place =>
      constructor
      · have starts := found.starts
        rwa [List.drop_drop] at starts
      · intro earlier (less : earlier < skipped + place) starts
        rcases Nat.lt_or_ge earlier skipped with fewer | behind
        · exact before earlier fewer starts
        · apply found.first (earlier - skipped) (by omega)
          rwa [List.drop_drop, Nat.add_sub_cancel' behind]

/-- A needle that is longer than what is left does not fit. -/
theorem not_isPrefix_of_short (short : haystack.length < place + needle.length) (ne : needle ≠ []) :
    ¬ needle <+: haystack.drop place := by
  intro starts
  have length := starts.length_le
  have positive := List.length_pos_of_ne_nil ne
  rw [List.length_drop] at length
  omega

/-- Where the first byte differs the needle does not fit. -/
theorem not_isPrefix_of_first {first : UInt8} {rest : List UInt8}
    (differs : haystack[place]? ≠ some first) : ¬ first :: rest <+: haystack.drop place := by
  rintro ⟨tail, same⟩
  apply differs
  rw [← List.head?_drop, ← same]
  rfl

theorem memchr_some (found : memchr bytes byte size = some place) :
    place < size ∧ bytes[place]? = some byte ∧ ∀ earlier < place, bytes[earlier]? ≠ some byte := by
  obtain ⟨inside, here, first⟩ := List.findIdx?_eq_some_iff_getElem.mp found
  rw [List.length_take] at inside
  refine ⟨by omega, ?_, ?_⟩
  · rw [List.getElem_take, beq_iff_eq] at here
    rw [List.getElem?_eq_getElem (by omega), here]
  intro earlier less same
  have skipped := first earlier less
  rw [List.getElem_take] at skipped
  rw [List.getElem?_eq_getElem (by omega)] at same
  simp_all

theorem memchr_none (absent : memchr bytes byte size = none) :
    ∀ place < size, bytes[place]? ≠ some byte := by
  intro place inside same
  have member : byte ∈ bytes.take size :=
    List.mem_iff_getElem?.mpr ⟨place, by rw [List.getElem?_take_of_lt inside, same]⟩
  simpa using List.findIdx?_eq_none_iff.mp absent byte member

/-- The loop finds the first place, if its comparison is that of needle and place. -/
theorem containsLoop_spec (ne : needle ≠ [])
    (compares : ∀ location : List UInt8, needle.length ≤ location.length →
      (location.take width = needle.take width ∧ matchRemainder op width location needle = true ↔
        needle <+: location)) (size : Nat) (haystack : List UInt8) (offset : Nat)
    (places : size + needle.length = haystack.length + 1) :
    ∃ result, containsLoop op width needle size haystack offset = result.map (offset + ·) ∧
      Finds needle haystack result := by
  induction size using Nat.strongRecOn generalizing haystack offset with
  | ind size ih =>
      obtain ⟨first, rest, rfl⟩ := List.exists_cons_of_ne_nil ne
      have positive := List.length_pos_of_ne_nil ne
      have beyond : ∀ place, size ≤ place → ¬ first :: rest <+: haystack.drop place :=
        fun place behind => not_isPrefix_of_short (by omega) ne
      rw [containsLoop]
      cases found : memchr haystack first size with
      | none =>
          refine ⟨none, rfl, fun place => ?_⟩
          rcases Nat.lt_or_ge place size with inside | behind
          · exact not_isPrefix_of_first (memchr_none found place inside)
          · exact beyond place behind
      | some skipped =>
          obtain ⟨inside, -, earlier⟩ := memchr_some found
          have before : ∀ place < skipped, ¬ first :: rest <+: haystack.drop place :=
            fun place less => not_isPrefix_of_first (earlier place less)
          have fits : (first :: rest).length ≤ (haystack.drop skipped).length := by
            rw [List.length_drop]
            omega
          dsimp only
          rw [if_congr (compares _ fits) rfl rfl, if_pos inside]
          split
          · rename_i starts
            exact ⟨some skipped, rfl, starts, before⟩
          · rename_i differs
            obtain ⟨result, looped, finds⟩ := ih (size - (skipped + 1)) (by omega)
              ((haystack.drop skipped).drop 1) (offset + skipped + 1) (by
                rw [List.length_drop, List.length_drop]
                omega)
            refine ⟨result.map (skipped + 1 + ·), ?_, ?_⟩
            · rw [looped, Option.map_map]
              congr 1
              funext place
              simp only [Function.comp_apply]
              omega
            · rw [List.drop_drop] at finds
              refine finds.skip fun place less => ?_
              rcases Nat.lt_or_eq_of_le (Nat.lt_succ_iff.mp less) with less | rfl
              · exact before place less
              · exact differs

theorem contains_spec (ne : needle ≠ [])
    (compares : ∀ location : List UInt8, needle.length ≤ location.length →
      (location.take width = needle.take width ∧ matchRemainder op width location needle = true ↔
        needle <+: location)) (haystack : List UInt8) (baseOffset : Nat) :
    ∃ result, contains op width haystack needle baseOffset = result.map (baseOffset + ·) ∧
      Finds needle haystack result := by
  unfold contains
  split
  · rename_i short
    exact ⟨none, rfl, fun place => not_isPrefix_of_short (by omega) ne⟩
  · rename_i fits
    have positive := List.length_pos_of_ne_nil ne
    obtain ⟨result, looped, finds⟩ := containsLoop_spec ne compares
      (haystack.length - (needle.length - 1)) haystack 0 (by omega)
    refine ⟨result, ?_, finds⟩
    rw [looped]
    cases result <;> simp

/-! ## The comparisons -/

theorem isPrefix_iff_take {needle location : List UInt8} :
    needle <+: location ↔ location.take needle.length = needle := by
  rw [List.prefix_iff_eq_take]
  exact eq_comm

theorem aligned_compares (length : needle.length = width) :
    location.take width = needle.take width ∧
      matchRemainder .containsAligned width location needle = true ↔ needle <+: location := by
  rw [isPrefix_iff_take, ← length, List.take_length]
  simp [matchRemainder]

/-- Two parts of a needle are compared one after another. -/
theorem isPrefix_iff_parts (short : width ≤ needle.length) : needle <+: location ↔
      location.take width = needle.take width ∧ needle.drop width <+: location.drop width := by
  constructor
  · rintro ⟨rest, rfl⟩
    rw [List.take_append_of_le_length short, List.drop_append_of_le_length short]
    exact ⟨rfl, rest, rfl⟩
  · rintro ⟨front, rest, back⟩
    refine ⟨rest, ?_⟩
    rw [← List.take_append_drop width location, front, ← back, ← List.append_assoc,
      List.take_append_drop]

theorem generic_compares (short : width ≤ needle.length) : location.take width = needle.take width ∧
      matchRemainder .containsGeneric width location needle = true ↔ needle <+: location := by
  rw [isPrefix_iff_parts short, @isPrefix_iff_take (needle.drop width), List.length_drop]
  simp [matchRemainder]

theorem unaligned_compares (short : width ≤ needle.length) :
    location.take width = needle.take width ∧
      matchRemainder .containsUnaligned width location needle = true ↔ needle <+: location := by
  rw [isPrefix_iff_parts short]
  refine and_congr_right fun _ => ?_
  have counted : matchRemainder .containsUnaligned width location needle = true ↔
      ∀ i, width ≤ i → i < needle.length → location[i]? = needle[i]? := by
    unfold matchRemainder
    have size : needle.length - width =
        (List.range' width (needle.length - width)).length := List.length_range'.symm
    rw [beq_iff_eq]
    conv_lhs => rhs; rw [size]
    rw [List.countP_eq_length]
    simp only [List.mem_range'_1, beq_iff_eq]
    constructor
    · intro all i low high
      exact all i ⟨low, by omega⟩
    · rintro all i ⟨low, high⟩
      exact all i low (by omega)
  rw [counted, isPrefix_iff_take, List.length_drop]
  constructor
  · intro same
    apply List.ext_getElem?
    intro i
    rcases Nat.lt_or_ge i (needle.length - width) with inside | behind
    · rw [List.getElem?_take_of_lt inside, List.getElem?_drop, List.getElem?_drop]
      exact same (width + i) (by omega) (by omega)
    · rw [List.getElem?_eq_none (by rw [List.length_take]; omega),
        List.getElem?_eq_none (by rw [List.length_drop]; omega)]
  · intro same i low high
    have place := congrArg (·[i - width]?) same
    rw [List.getElem?_take_of_lt (by omega), List.getElem?_drop, List.getElem?_drop,
      Nat.add_sub_cancel' low] at place
    exact place

/-- `FindStrInStr` finds the first place of the needle. -/
theorem findStrInStr_finds (haystack : List UInt8) (ne : needle ≠ []) :
    Finds needle haystack (findStrInStr haystack needle) := by
  obtain ⟨first, rest, rfl⟩ := List.exists_cons_of_ne_nil ne
  rw [findStrInStr]
  cases found : memchr haystack first haystack.length with
  | none =>
      intro place
      apply not_isPrefix_of_first
      rcases Nat.lt_or_ge place haystack.length with inside | behind
      · exact memchr_none found place inside
      · rw [List.getElem?_eq_none behind]
        rintro ⟨⟩
  | some baseOffset =>
      obtain ⟨-, here, earlier⟩ := memchr_some found
      have before : ∀ place < baseOffset, ¬ first :: rest <+: haystack.drop place :=
        fun place less => not_isPrefix_of_first (earlier place less)
      -- what is found behind the skipped bytes is found in the whole
      have shifted : ∀ result, (∃ place, result = Option.map (baseOffset + ·) place ∧
          Finds (first :: rest) (haystack.drop baseOffset) place) →
          Finds (first :: rest) haystack result := by
        rintro result ⟨place, rfl, finds⟩
        exact finds.skip before
      dsimp only
      split
      · rename_i single
        refine ⟨?_, before⟩
        obtain rfl : rest = [] := List.eq_nil_of_length_eq_zero (by simpa using single)
        obtain ⟨tail, bytes⟩ := List.head?_eq_some_iff.mp ((List.head?_drop ..).trans here)
        exact ⟨tail, bytes.symm⟩
      all_goals
        rename_i length
        apply shifted
        apply contains_spec ne
      · exact fun _ _ => aligned_compares length
      · exact fun _ _ => unaligned_compares (by omega)
      · exact fun _ _ => aligned_compares length
      · exact fun _ _ => unaligned_compares (by omega)
      · exact fun _ _ => unaligned_compares (by omega)
      · exact fun _ _ => unaligned_compares (by omega)
      · exact fun _ _ => aligned_compares length
      · have positive := List.length_pos_of_ne_nil ne
        rename_i one two three four five six seven
        simp only [imp_false] at one two three four five six seven length
        exact fun _ _ => generic_compares (by omega)

end Like

end StatsRecommender
