import Mathlib.Data.List.TakeWhile
import StatsRecommender.Function.LikeMatching

/-!
# The matcher for constant patterns

Without `_` the general matcher splits the bytes themselves, and the segments between the `%`
are found wherever there is a split at all.
-/

namespace StatsRecommender

variable {current rest : List UInt8} {ch : UInt8}

namespace Like

open Wildcards Utf8
open FilterCombiner (percentage underscore likeOperator)

/-- Without `_` the general matcher splits bytes. -/
theorem likeOperator_bytes_iff {pattern : List UInt8} (noOne : underscore ∉ pattern)
    (string : List UInt8) :
    likeOperator pattern string = true ↔ Matches percentage underscore pattern string := by
  induction length : pattern.length using Nat.strongRecOn generalizing pattern string with
  | ind size ih =>
      subst length
      cases pattern with
      | nil => rw [likeOperator, matches_nil_iff, List.isEmpty_iff]
      | cons p pattern =>
          cases string with
          | nil => rw [likeOperator_nil, matches_empty_iff percentage_ne_underscore]
          | cons s string =>
              obtain ⟨isOne, others⟩ := not_or.mp (mt List.mem_cons.mpr noOne)
              by_cases isMany : p = percentage
              · subst isMany
                rw [likeOperator_percentage _ (List.cons_ne_nil _ _),
                  ← matches_many_dropWhile percentage_ne_underscore]
                cases remaining : pattern.dropWhile (· == percentage) with
                | nil => simp [matches_many_singleton percentage_ne_underscore]
                | cons q rest =>
                    have sublist := List.dropWhile_sublist (l := pattern) (· == percentage)
                    rw [remaining] at sublist
                    have step := fun string => ih (q :: rest).length
                      (Nat.lt_succ_of_le sublist.length_le)
                      (fun member => others (sublist.subset member)) string rfl
                    have notMany : q ≠ percentage := by
                      have first := List.head?_dropWhile_not (· == percentage) pattern
                      rw [remaining] at first
                      simpa using first
                    rw [matches_many_iff percentage_ne_underscore]
                    constructor
                    · rintro (impossible | ⟨skipped, -, matched⟩)
                      · cases impossible
                      · exact ⟨(s :: string).take skipped, (s :: string).drop skipped,
                          (List.take_append_drop ..).symm, (step _).mp matched⟩
                    · rintro ⟨skipped, later, same, matched⟩
                      rw [same]
                      refine Or.inr ⟨skipped.length, ?_, ?_⟩
                      · cases later with
                        | nil =>
                            rw [matches_empty_iff percentage_ne_underscore] at matched
                            simp [notMany] at matched
                        | cons => simp
                      · rw [List.drop_left]
                        exact (step _).mpr matched
              · have step := ih pattern.length (Nat.lt_succ_self _) others string rfl
                rw [likeOperator, if_neg (Ne.symm isOne), if_neg isMany,
                  matches_same_iff isMany (Ne.symm isOne)]
                by_cases same : p = s
                · rw [if_pos same]
                  exact step.trans (by simp [same])
                · rw [if_neg same]
                  refine iff_of_false Bool.false_ne_true ?_
                  rintro ⟨rest, equal, -⟩
                  exact same (List.cons.inj equal).1.symm

/-! ## Segments as a pattern -/

/-- Segments with a `%` in front of each, and what follows them. -/
def chain (segments : List (List UInt8)) (tail : List UInt8) : List UInt8 :=
  segments.foldr (fun segment rest => percentage :: (segment ++ rest)) tail

/-- What follows the last segment. -/
def endPattern (hasEndPercentage : Bool) : List UInt8 :=
  if hasEndPercentage then [percentage] else []

/-- Segments are plain and not empty. -/
def Segments (segments : List (List UInt8)) : Prop :=
  ∀ segment ∈ segments, segment ≠ [] ∧ Plain percentage underscore segment

namespace LikeMatcher

/-- The middle segments are placed as far in front as possible. -/
theorem matchMiddle_spec {middle : List (List UInt8)} (segments : Segments middle)
    (pattern string : List UInt8) :
    match matchMiddle middle string with
    | none => ¬ Matches percentage underscore (chain middle (percentage :: pattern)) string
    | some rest => Matches percentage underscore (chain middle (percentage :: pattern)) string ↔
        Matches percentage underscore (percentage :: pattern) rest := by
  induction middle generalizing string with
  | nil => exact Iff.rfl
  | cons segment middle ih =>
      obtain ⟨⟨ne, plain⟩, others⟩ := List.forall_mem_cons.mp segments
      have finds := findStrInStr_finds string ne
      -- what follows a middle segment begins with `%`
      obtain ⟨rest, begins⟩ : ∃ rest,
          chain middle (percentage :: pattern) = percentage :: rest := by
        cases middle with
        | nil => exact ⟨pattern, rfl⟩
        | cons next middle => exact ⟨_, rfl⟩
      have whole : chain (segment :: middle) (percentage :: pattern) =
          percentage :: (segment ++ percentage :: rest) := by
        rw [← begins]
        rfl
      rw [matchMiddle, whole]
      cases found : findStrInStr string segment with
      | none =>
          rw [found] at finds
          exact not_matches_of_absent percentage_ne_underscore plain finds
      | some place =>
          rw [found] at finds
          have later := ih others (string.drop (place + segment.length))
          rw [begins] at later
          dsimp only
          have moved := @matches_leftmost_iff _ _ _ rest _ percentage_ne_underscore _ plain _ finds
          split
          · rename_i nothing
            rw [nothing] at later
            exact mt moved.mp later
          · rename_i left something
            rw [something] at later
            exact moved.trans later

/-- The last segment is at the end, or anywhere in front of a `%`. -/
theorem matchLast_spec (hasEndPercentage : Bool) {segment : List UInt8} (ne : segment ≠ [])
    (plain : Plain percentage underscore segment) (string : List UInt8) :
    (if !hasEndPercentage then
        if string.length < segment.length then false
        else string.drop (string.length - segment.length) == segment
      else (findStrInStr string segment).isSome) = true ↔
      Matches percentage underscore (percentage :: (segment ++ endPattern hasEndPercentage))
        string := by
  cases hasEndPercentage with
  | false =>
      change _ ↔ Matches percentage underscore (percentage :: (segment ++ [])) string
      rw [List.append_nil, matches_many_plain_iff percentage_ne_underscore plain, Bool.not_false,
        if_pos rfl, List.suffix_iff_eq_drop]
      split
      · rename_i short
        refine iff_of_false Bool.false_ne_true fun same => ?_
        have length := congrArg List.length same
        rw [List.length_drop] at length
        omega
      · rw [beq_iff_eq, eq_comm]
  | true =>
      have finds := findStrInStr_finds string ne
      rw [Bool.not_true, if_neg Bool.false_ne_true]
      cases found : findStrInStr string segment with
      | none =>
          rw [found] at finds
          exact iff_of_false Bool.false_ne_true
            (not_matches_of_absent percentage_ne_underscore plain finds)
      | some place =>
          rw [found] at finds
          refine iff_of_true rfl ?_
          exact (matches_leftmost_iff percentage_ne_underscore plain finds).mpr
            (matches_many_singleton percentage_ne_underscore _)

theorem matchSegments_spec (matcher : LikeMatcher) (formed : Segments matcher.segments)
    {middle : List (List UInt8)} (inside : ∀ segment ∈ middle, segment ∈ matcher.segments)
    (string : List UInt8) :
    matcher.matchSegments middle string = true ↔ Matches percentage underscore
      (chain middle (chain [matcher.segments.getLast matcher.segments_ne_nil]
        (endPattern matcher.hasEndPercentage))) string := by
  obtain ⟨ne, plain⟩ := formed _ (List.getLast_mem matcher.segments_ne_nil)
  have placed := matchMiddle_spec (fun segment member => formed segment (inside segment member))
    (matcher.segments.getLast matcher.segments_ne_nil ++ endPattern matcher.hasEndPercentage) string
  unfold matchSegments
  change _ ↔ Matches percentage underscore (chain middle (percentage ::
    (matcher.segments.getLast matcher.segments_ne_nil ++ endPattern matcher.hasEndPercentage)))
      string
  cases found : matchMiddle middle string with
  | none =>
      rw [found] at placed
      exact iff_of_false Bool.false_ne_true placed
  | some rest =>
      rw [found] at placed
      exact (matchLast_spec matcher.hasEndPercentage ne plain rest).trans placed.symm

/-- The pattern that a matcher stands for. -/
def pattern (matcher : LikeMatcher) : List UInt8 :=
  if matcher.hasStartPercentage then
    chain matcher.segments (endPattern matcher.hasEndPercentage)
  else matcher.segments.head matcher.segments_ne_nil ++
    chain matcher.segments.tail (endPattern matcher.hasEndPercentage)

theorem chain_append (front back : List (List UInt8)) (tail : List UInt8) :
    chain (front ++ back) tail = chain front (chain back tail) := List.foldr_append

/-- What follows the segment at the start. -/
theorem matchBehindStart_spec (matcher : LikeMatcher) (formed : Segments matcher.segments)
    (rest : List UInt8) :
    (if matcher.segments.length = 1 then matcher.hasEndPercentage || rest.isEmpty
      else matcher.matchSegments matcher.segments.tail.dropLast rest) = true ↔
      Matches percentage underscore
        (chain matcher.segments.tail (endPattern matcher.hasEndPercentage)) rest := by
  by_cases single : matcher.segments.length = 1
  · have noMore : matcher.segments.tail = [] := by
      apply List.eq_nil_of_length_eq_zero
      rw [List.length_tail, single]
    rw [if_pos single, noMore]
    cases matcher.hasEndPercentage with
    | true => exact iff_of_true rfl (matches_many_singleton percentage_ne_underscore rest)
    | false =>
        rw [Bool.false_or, List.isEmpty_iff]
        exact matches_nil_iff.symm
  · have more : matcher.segments.tail ≠ [] := by
      intro nothing
      have length := congrArg List.length nothing
      have positive := List.length_pos_of_ne_nil matcher.segments_ne_nil
      rw [List.length_tail, List.length_nil] at length
      omega
    rw [if_neg single, matcher.matchSegments_spec formed (fun segment member =>
      List.mem_of_mem_tail (List.mem_of_mem_dropLast member)), ← chain_append,
      ← List.getLast_tail more, List.dropLast_append_getLast]

/-- The matcher finds a split of its pattern whenever there is one. -/
theorem matchString_spec (matcher : LikeMatcher) (formed : Segments matcher.segments)
    (string : List UInt8) :
    matcher.matchString string = true ↔
      Matches percentage underscore matcher.pattern string := by
  unfold matchString pattern
  cases matcher.hasStartPercentage with
  | true =>
      rw [Bool.not_true, if_neg Bool.false_ne_true, if_pos rfl,
        matcher.matchSegments_spec formed (fun segment member => List.mem_of_mem_dropLast member),
        ← chain_append, List.dropLast_append_getLast]
  | false =>
      obtain ⟨-, plain⟩ := formed _ (List.head_mem matcher.segments_ne_nil)
      rw [Bool.not_false, if_pos rfl, if_neg Bool.false_ne_true, matches_append_iff plain]
      dsimp only
      generalize matcher.segments.head matcher.segments_ne_nil = segment
      by_cases starts : segment <+: string
      · obtain ⟨rest, rfl⟩ := starts
        have behind := matcher.matchBehindStart_spec formed rest
        rw [if_neg (by simp), List.take_left, if_neg (by simp), List.drop_left, behind]
        simp
      · have differs : string.take segment.length ≠ segment := mt isPrefix_iff_take.mpr starts
        rw [if_pos differs, ite_self]
        refine iff_of_false Bool.false_ne_true ?_
        rintro ⟨rest, rfl, -⟩
        exact starts ⟨rest, rfl⟩

end LikeMatcher

/-! ## Creating the matcher -/

/-- The segments of what is left of a pattern, with the bytes in front of it. -/
def segmentsOf : List UInt8 → List UInt8 → List (List UInt8)
  | current, [] => if current.isEmpty then [] else [current]
  | current, ch :: rest =>
      if ch = percentage then
        if current.isEmpty then segmentsOf [] rest else current :: segmentsOf [] rest
      else segmentsOf (current ++ [ch]) rest

theorem push_segments (progress : SegmentProgress) (current : List UInt8) :
    (progress.push current).segments =
      progress.segments ++ if current.isEmpty then [] else [current] := by
  unfold SegmentProgress.push
  split
  · rw [List.append_nil]
  · rfl

theorem push_hasStartPercentage (progress : SegmentProgress) (current : List UInt8) :
    (progress.push current).hasStartPercentage = progress.hasStartPercentage := by
  unfold SegmentProgress.push
  split <;> rfl

theorem push_hasEndPercentage (progress : SegmentProgress) (current : List UInt8) :
    (progress.push current).hasEndPercentage = progress.hasEndPercentage := by
  unfold SegmentProgress.push
  split <;> rfl

/-- What the loop comes to. -/
theorem createSegments_spec {escape : UInt8} {i : Nat} {progress final : SegmentProgress}
    (created : createSegments escape i progress current rest = some final) :
    underscore ∉ rest ∧ final.segments = progress.segments ++ segmentsOf current rest ∧
      final.hasStartPercentage =
        (progress.hasStartPercentage || (i == 0 && rest.head? == some percentage)) ∧
      final.hasEndPercentage =
        (progress.hasEndPercentage || rest.getLast? == some percentage) := by
  induction rest generalizing i progress current with
  | nil =>
      cases created
      refine ⟨List.not_mem_nil, push_segments progress current, ?_, ?_⟩
      · simp [push_hasStartPercentage]
      · simp [push_hasEndPercentage]
  | cons ch rest ih =>
      rw [createSegments] at created
      by_cases isMany : ch = percentage
      · subst isMany
        by_cases escaped : percentage = escape
        · rw [if_pos (Or.inl escaped), if_pos (Or.inl escaped)] at created
          cases created
        · rw [if_pos (Or.inr (Or.inl rfl)),
            if_neg (not_or.mpr ⟨escaped, percentage_ne_underscore⟩)] at created
          obtain ⟨noOne, segments, starts, ends⟩ := ih created
          refine ⟨?_, ?_, ?_, ?_⟩
          · rw [List.mem_cons, not_or]
            exact ⟨percentage_ne_underscore.symm, noOne⟩
          · rw [segments, push_segments, segmentsOf, if_pos rfl]
            split <;> simp
          · rw [starts, push_hasStartPercentage]
            simp
          · rw [ends, push_hasEndPercentage]
            cases rest with
            | nil => simp
            | cons next rest => simp
      · by_cases special : ch = escape ∨ ch = underscore
        · have either : ch = escape ∨ ch = percentage ∨ ch = underscore :=
            special.imp_right Or.inr
          rw [if_pos either, if_pos special] at created
          cases created
        · obtain ⟨notEscape, notOne⟩ := not_or.mp special
          rw [if_neg (by simp [notEscape, isMany, notOne])] at created
          obtain ⟨noOne, segments, starts, ends⟩ := ih created
          refine ⟨?_, ?_, ?_, ?_⟩
          · rw [List.mem_cons, not_or]
            exact ⟨Ne.symm notOne, noOne⟩
          · rw [segments, segmentsOf, if_neg isMany]
          · rw [starts]
            simp [isMany]
          · rw [ends]
            cases rest with
            | nil => simp [isMany]
            | cons next rest => simp

theorem plain_concat (plain : Plain percentage underscore current) (notMany : ch ≠ percentage)
    (notOne : underscore ≠ ch) : Plain percentage underscore (current ++ [ch]) :=
  List.forall_mem_append.mpr ⟨plain, List.forall_mem_singleton.mpr ⟨notMany, notOne.symm⟩⟩

/-- The segments are plain and not empty. -/
theorem segments_segmentsOf (plain : Plain percentage underscore current)
    (noOne : underscore ∉ rest) : Segments (segmentsOf current rest) := by
  induction rest generalizing current with
  | nil =>
      rw [segmentsOf]
      split
      · exact List.forall_mem_nil _
      · rename_i nonempty
        exact List.forall_mem_singleton.mpr ⟨by simpa using nonempty, plain⟩
  | cons ch rest ih =>
      obtain ⟨notOne, others⟩ := not_or.mp (mt List.mem_cons.mpr noOne)
      have later : Segments (segmentsOf [] rest) := ih (List.forall_mem_nil _) others
      rw [segmentsOf]
      split
      · split
        · exact later
        · rename_i nonempty
          exact List.forall_mem_cons.mpr ⟨⟨by simpa using nonempty, plain⟩, later⟩
      · rename_i notMany
        exact ih (plain_concat plain notMany notOne) others

theorem segmentsOf_ne_nil (ne : current ≠ []) (rest : List UInt8) :
    segmentsOf current rest ≠ [] := by
  induction rest generalizing current with
  | nil => simp [segmentsOf, ne]
  | cons ch rest ih =>
      rw [segmentsOf]
      split
      · simp [ne]
      · exact ih (by simp)

/-- A pattern without segments is one sequence. -/
theorem all_of_no_segments (nothing : segmentsOf [] rest = []) : ∀ ch ∈ rest, ch = percentage := by
  induction rest with
  | nil => exact List.forall_mem_nil _
  | cons ch rest ih =>
      by_cases isMany : ch = percentage
      · rw [segmentsOf, if_pos isMany, List.isEmpty_nil, if_pos rfl] at nothing
        exact List.forall_mem_cons.mpr ⟨isMany, ih nothing⟩
      · rw [segmentsOf, if_neg isMany] at nothing
        exact absurd nothing (segmentsOf_ne_nil (by simp) rest)

theorem matches_of_no_segments (nothing : segmentsOf [] rest = []) (string : List UInt8) :
    Matches percentage underscore (percentage :: rest) string := by
  rw [← matches_many_dropWhile percentage_ne_underscore, List.dropWhile_eq_nil_iff.mpr]
  · exact matches_many_singleton percentage_ne_underscore string
  · intro ch member
    simpa using all_of_no_segments nothing ch member

theorem getLast?_percentage_cons (nonempty : rest ≠ []) (ch : UInt8) :
    (ch :: rest).getLast? = rest.getLast? := by
  obtain ⟨next, rest, rfl⟩ := List.exists_cons_of_ne_nil nonempty
  exact List.getLast?_cons_cons

theorem getLast?_plain_cons (notMany : ch ≠ percentage) (rest : List UInt8) :
    ((ch :: rest).getLast? == some percentage) = (rest.getLast? == some percentage) := by
  cases rest with
  | nil => simp [notMany]
  | cons next rest => rw [List.getLast?_cons_cons]

/-- What follows a segment, if the rest of the pattern is the chain of its segments. -/
theorem matches_tail_iff {rest : List UInt8}
    (chained : segmentsOf [] rest ≠ [] → ∀ string, Matches percentage underscore
      (chain (segmentsOf [] rest) (endPattern (rest.getLast? == some percentage))) string ↔
        Matches percentage underscore (percentage :: rest) string) (string : List UInt8) :
    Matches percentage underscore (chain (segmentsOf [] rest)
        (endPattern ((percentage :: rest).getLast? == some percentage))) string ↔
      Matches percentage underscore (percentage :: rest) string := by
  by_cases nothing : segmentsOf [] rest = []
  · have last : (percentage :: rest).getLast? = some percentage := by
      obtain ⟨last, isLast⟩ := Option.isSome_iff_exists.mp
        (List.getLast?_isSome.mpr (List.cons_ne_nil percentage rest))
      rw [isLast]
      rcases List.mem_cons.mp (List.mem_of_getLast? isLast) with here | later
      · rw [here]
      · rw [all_of_no_segments nothing last later]
    rw [nothing, last]
    exact iff_of_true (matches_many_singleton percentage_ne_underscore string)
      (matches_of_no_segments nothing string)
  · have nonempty : rest ≠ [] := by
      rintro rfl
      exact nothing rfl
    rw [getLast?_percentage_cons nonempty]
    exact chained nothing string

/-- Behind a `%` a pattern is the chain of its segments. -/
theorem matches_chain_iff (plain : Plain percentage underscore current) (noOne : underscore ∉ rest)
    (some_left : segmentsOf current rest ≠ []) (string : List UInt8) :
    Matches percentage underscore (chain (segmentsOf current rest)
        (endPattern (rest.getLast? == some percentage))) string ↔
      Matches percentage underscore (percentage :: (current ++ rest)) string := by
  induction rest generalizing current string with
  | nil =>
      rw [segmentsOf] at some_left ⊢
      split
      · rename_i empty
        rw [if_pos empty] at some_left
        exact absurd rfl some_left
      · exact Iff.rfl
  | cons ch rest ih =>
      obtain ⟨notOne, others⟩ := not_or.mp (mt List.mem_cons.mpr noOne)
      rw [segmentsOf] at some_left ⊢
      by_cases isMany : ch = percentage
      · subst isMany
        rw [if_pos rfl] at some_left ⊢
        have tail := @matches_tail_iff rest fun some_left string =>
          ih (List.forall_mem_nil _) others some_left string
        by_cases empty : current = []
        · subst empty
          rw [List.isEmpty_nil, if_pos rfl, List.nil_append,
            matches_many_many percentage_ne_underscore]
          exact tail string
        · rw [if_neg (by simpa using empty)]
          change Matches percentage underscore (percentage :: (current ++ chain _ _)) string ↔ _
          rw [matches_many_append_iff percentage_ne_underscore plain,
            matches_many_append_iff percentage_ne_underscore plain]
          exact exists_congr fun front => exists_congr fun back => and_congr_right fun _ =>
            tail back
      · rw [if_neg isMany] at some_left ⊢
        rw [getLast?_plain_cons isMany, ih (plain_concat plain isMany notOne) others some_left,
          List.append_assoc]
        rfl

/-- Without a `%` in front a pattern is its first segment and the chain of the others. -/
theorem matches_first_iff (ne : current ≠ []) (plain : Plain percentage underscore current)
    (noOne : underscore ∉ rest) :
    ∃ first others, segmentsOf current rest = first :: others ∧ ∀ string,
      Matches percentage underscore
          (first ++ chain others (endPattern (rest.getLast? == some percentage))) string ↔
        Matches percentage underscore (current ++ rest) string := by
  induction rest generalizing current with
  | nil => exact ⟨current, [], by simp [segmentsOf, ne], fun _ => Iff.rfl⟩
  | cons ch rest ih =>
      obtain ⟨notOne, others⟩ := not_or.mp (mt List.mem_cons.mpr noOne)
      by_cases isMany : ch = percentage
      · subst isMany
        refine ⟨current, segmentsOf [] rest, by simp [segmentsOf, ne], fun string => ?_⟩
        rw [matches_append_iff plain, matches_append_iff plain]
        refine exists_congr fun back => and_congr_right fun _ => ?_
        exact matches_tail_iff (fun some_left string =>
          matches_chain_iff (List.forall_mem_nil _) others some_left string) back
      · obtain ⟨first, more, segments, same⟩ :=
          ih (by simp : current ++ [ch] ≠ []) (plain_concat plain isMany notOne) others
        refine ⟨first, more, by rw [segmentsOf, if_neg isMany, segments], fun string => ?_⟩
        rw [getLast?_plain_cons isMany, same string, List.append_assoc]
        rfl

/-- A matcher that is created stands for its pattern. -/
theorem createLikeMatcher_spec {pattern : List UInt8} {matcher : LikeMatcher}
    (created : createLikeMatcher pattern = some matcher) :
    underscore ∉ pattern ∧ Segments matcher.segments ∧ ∀ string,
      Matches percentage underscore matcher.pattern string ↔
        Matches percentage underscore pattern string := by
  unfold createLikeMatcher at created
  split at created
  · cases created
  · rename_i progress looped
    split at created
    · rename_i nonempty
      cases created
      obtain ⟨noOne, segments, starts, ends⟩ := createSegments_spec looped
      rw [List.nil_append] at segments
      rw [Bool.false_or] at starts ends
      refine ⟨noOne, ?_, fun string => ?_⟩
      · change Segments progress.segments
        rw [segments]
        exact segments_segmentsOf (List.forall_mem_nil _) noOne
      · unfold LikeMatcher.pattern
        dsimp only
        cases pattern with
        | nil => exact absurd segments nonempty
        | cons ch rest =>
            obtain ⟨notOne, others⟩ := not_or.mp (mt List.mem_cons.mpr noOne)
            by_cases isMany : ch = percentage
            · subst isMany
              have some_left : segmentsOf [] (percentage :: rest) ≠ [] := segments ▸ nonempty
              rw [if_pos (by rw [starts]; rfl), segments, ends,
                matches_chain_iff (List.forall_mem_nil _) noOne some_left, List.nil_append,
                matches_many_many percentage_ne_underscore]
            · have plain : Plain percentage underscore [ch] :=
                List.forall_mem_singleton.mpr ⟨isMany, Ne.symm notOne⟩
              obtain ⟨first, more, found, same⟩ :=
                matches_first_iff (List.cons_ne_nil ch []) plain others
              have listed : progress.segments = first :: more := by
                rw [segments, segmentsOf, if_neg isMany]
                exact found
              rw [if_neg (by rw [starts]; simp [isMany]), ends, getLast?_plain_cons isMany]
              simp only [listed, List.head_cons, List.tail_cons]
              exact same string
    · cases created

/-- The two matchers agree wherever both are used. -/
theorem matchString_eq_likeOperator {pattern : List UInt8} {matcher : LikeMatcher}
    (created : createLikeMatcher pattern = some matcher) (string : List UInt8) :
    matcher.matchString string = likeOperator pattern string := by
  obtain ⟨noOne, formed, same⟩ := createLikeMatcher_spec created
  rw [Bool.eq_iff_iff, matcher.matchString_spec formed, same string,
    likeOperator_bytes_iff noOne]

/--
The general matcher tells for texts whether the code points can be split along the pattern, and
a matcher that is created for a pattern gives its result for every string.
-/
theorem likeOperatorFunction_matches :
    (∀ pattern string : List Nat, (∀ codepoint ∈ pattern, Scalar codepoint) →
      (∀ codepoint ∈ string, Scalar codepoint) →
      ∃ result, likeOperatorFunction (encodeAll string) (encodeAll pattern) = .ok result ∧
        (result = true ↔ Matches 0x25 0x5F pattern string)) ∧
    ∀ (likePattern : List UInt8) (matcher : LikeMatcher),
      createLikeMatcher likePattern = some matcher → ∀ string,
        likeOperatorFunction string likePattern = .ok (matcher.matchString string) := by
  constructor
  · intro pattern string scalars scalars'
    exact ⟨_, templatedLikeOperator_eq _ _, likeOperator_encodeAll_iff scalars scalars'⟩
  · intro likePattern matcher created string
    rw [matchString_eq_likeOperator created]
    exact templatedLikeOperator_eq likePattern string

/-- `a_%` and a string of two code points; `a%%b` and a string with two places for `b`. -/
theorem likeOperatorFunction_matches_sample :
    (∃ result, likeOperatorFunction (encodeAll [0x61, 0xE9]) (encodeAll [0x61, 0x5F, 0x25]) =
      .ok result ∧ (result = true ↔ Matches 0x25 0x5F [0x61, 0x5F, 0x25] [0x61, 0xE9])) ∧
    ∃ matcher, createLikeMatcher [0x61, 0x25, 0x25, 0x62] = some matcher ∧
      matcher.segments = [[0x61], [0x62]] ∧
      likeOperatorFunction [0x61, 0x62, 0x62] [0x61, 0x25, 0x25, 0x62] =
        .ok (matcher.matchString [0x61, 0x62, 0x62]) :=
  ⟨likeOperatorFunction_matches.1 _ _ (by decide) (by decide),
    _, rfl, rfl, likeOperatorFunction_matches.2 _ _ rfl _⟩

end Like

end StatsRecommender
