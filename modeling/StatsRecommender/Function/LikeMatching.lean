import StatsRecommender.Function.FindStrInStr

/-!
# What LIKE matches

The general matcher finds a split of the code points whenever there is one, also where it begins
in the middle of a code point, and the matcher for constant patterns gives the same results.
-/

namespace StatsRecommender

variable {codepoint : Nat} {codepoints rest pattern : List Nat} {string : List UInt8}

namespace Like

open Wildcards Utf8
open FilterCombiner (percentage underscore likeOperator)

theorem percentage_ne_underscore : percentage ≠ underscore := by decide

/-! ## The template without an escape character -/

theorem anyM_ok {α : Type} (test : α → Bool) (list : List α) :
    (list.anyM fun a => (.ok (test a) : Except String Bool)) = .ok (list.any test) := by
  induction list with
  | nil => rfl
  | cons first rest ih =>
      rw [List.anyM, List.any_cons]
      cases test first with
      | true => rfl
      | false => exact ih

/-- One turn of the loop without an escape character. -/
theorem templatedLikeOperator_cons (p s : UInt8) (pattern string : List UInt8) :
    templatedLikeOperator standardCharacterReader none (p :: pattern) (s :: string) =
      if p = underscore then
        templatedLikeOperator standardCharacterReader none pattern
          (FilterCombiner.nextCharacter (s :: string))
      else if p = percentage then
        if (pattern.dropWhile (· == percentage)).isEmpty then .ok true
        else (List.range (s :: string).length).anyM fun skipped =>
          templatedLikeOperator standardCharacterReader none
            (pattern.dropWhile (· == percentage)) ((s :: string).drop skipped)
      else if p = s then templatedLikeOperator standardCharacterReader none pattern string
      else .ok false := by
  exact templatedLikeOperator.eq_def standardCharacterReader none (p :: pattern) (s :: string)

/-- Without an escape character there is always a result. -/
theorem templatedLikeOperator_eq (pattern string : List UInt8) :
    templatedLikeOperator standardCharacterReader none pattern string =
      .ok (likeOperator pattern string) := by
  induction length : pattern.length using Nat.strongRecOn generalizing pattern string with
  | ind size ih =>
      subst length
      cases pattern with
      | nil => rw [templatedLikeOperator, likeOperator]
      | cons p pattern =>
          cases string with
          | nil => rw [templatedLikeOperator, likeOperator]
          | cons s string =>
              rw [templatedLikeOperator_cons, likeOperator]
              by_cases isOne : p = underscore
              · rw [if_pos isOne, if_pos isOne]
                exact ih _ (Nat.lt_succ_self _) _ _ rfl
              rw [if_neg isOne, if_neg isOne]
              by_cases isMany : p = percentage
              · rw [if_pos isMany, if_pos isMany]
                by_cases ends : (pattern.dropWhile (· == percentage)).isEmpty = true
                · rw [if_pos ends, if_pos ends]
                · rw [if_neg ends, if_neg ends, ← anyM_ok]
                  congr 1
                  funext skipped
                  exact ih _ (Nat.lt_succ_of_le (List.dropWhile_sublist _).length_le) _ _ rfl
              rw [if_neg isMany, if_neg isMany]
              by_cases same : p = s
              · rw [if_pos same, if_pos same]
                exact ih _ (Nat.lt_succ_self _) _ _ rfl
              · rw [if_neg same, if_neg same]

/-! ## Code points -/

/-- A byte that ASCII has is the only byte of its code point. -/
theorem encode_of_mem_ascii (scalar : Scalar codepoint) {byte : UInt8}
    (member : byte ∈ encode codepoint) (ascii : byte.toNat < 128) :
    encode codepoint = [byte] ∧ codepoint = byte.toNat := by
  have continuing := (Utf8Proc.isCharacter_eq_false_iff byte).mp.mt (by omega)
  rcases List.mem_cons.mp member with rfl | later
  · rcases Utf8Proc.firstByte_cases scalar (List.append_nil _).symm with
      ⟨size, _, same⟩ | ⟨_, large, _⟩ | ⟨_, large, _⟩ | ⟨_, large, _⟩
    · refine ⟨?_, same.symm⟩
      rw [encode, size]
      rfl
    all_goals omega
  · exact absurd (Utf8Proc.isCharacter_of_mem_trail later) continuing

/-- The bytes of a code point that is no wildcard are plain. -/
theorem plain_encode (scalar : Scalar codepoint) (notMany : codepoint ≠ 0x25)
    (notOne : codepoint ≠ 0x5F) : Plain percentage underscore (encode codepoint) := by
  intro byte member
  constructor
  · rintro rfl
    exact notMany (encode_of_mem_ascii scalar member (by decide)).2
  · rintro rfl
    exact notOne (encode_of_mem_ascii scalar member (by decide)).2

/-- A text is empty or begins with a byte that does not continue a code point. -/
theorem dropWhile_encodeAll (scalars : ∀ codepoint ∈ codepoints, Scalar codepoint) :
    (encodeAll codepoints).dropWhile (fun c => !Utf8Proc.isCharacter c) = encodeAll codepoints := by
  cases codepoints with
  | nil => rfl
  | cons codepoint rest =>
      obtain ⟨first, extra, bytes, starts, -⟩ :=
        Utf8Proc.exists_encode_cons (scalars codepoint List.mem_cons_self)
      rw [encodeAll_cons, bytes, List.cons_append, List.dropWhile_cons_of_neg (by simp [starts])]

/-- What follows the rest of a code point, wherever in the code point one is. -/
theorem nextCharacter_append {stop : List UInt8} (ne : stop ≠ [])
    (continues : ∀ c ∈ stop.tail, Utf8Proc.isCharacter c = false)
    (scalars : ∀ codepoint ∈ rest, Scalar codepoint) :
    FilterCombiner.nextCharacter (stop ++ encodeAll rest) = encodeAll rest := by
  obtain ⟨first, extra, rfl⟩ := List.exists_cons_of_ne_nil ne
  rw [List.cons_append, FilterCombiner.nextCharacter, List.dropWhile_append_of_pos]
  · exact dropWhile_encodeAll scalars
  · intro c member
    simpa using continues c member

/-- The places of a text are in front of one of its code points or within one. -/
theorem drop_encodeAll {skipped : Nat} (inside : skipped < (encodeAll codepoints).length) :
    ∃ front codepoint rest start stop, codepoints = front ++ codepoint :: rest ∧
      encode codepoint = start ++ stop ∧ stop ≠ [] ∧
        (encodeAll codepoints).drop skipped = stop ++ encodeAll rest := by
  induction codepoints generalizing skipped with
  | nil => exact absurd inside (Nat.not_lt_zero _)
  | cons codepoint rest ih =>
      rw [encodeAll_cons] at inside ⊢
      rcases Nat.lt_or_ge skipped (encode codepoint).length with here | behind
      · refine ⟨[], codepoint, rest, (encode codepoint).take skipped,
          (encode codepoint).drop skipped, rfl, (List.take_append_drop ..).symm, ?_, ?_⟩
        · intro nothing
          rw [List.drop_eq_nil_iff] at nothing
          omega
        · rw [List.drop_append_of_le_length here.le]
      · rw [List.length_append] at inside
        obtain ⟨front, later, others, start, stop, rfl, bytes, ne, dropped⟩ :=
          @ih (skipped - (encode codepoint).length) (by omega)
        refine ⟨codepoint :: front, later, others, start, stop, rfl, bytes, ne, ?_⟩
        rw [List.drop_append, List.drop_eq_nil_of_le behind, List.nil_append, dropped]

theorem encode_percentage : encode 0x25 = [percentage] := rfl

theorem encode_underscore : encode 0x5F = [underscore] := rfl

/-- The first byte of a code point is `%` for this one only. -/
theorem head_encode (scalar : Scalar codepoint) (notMany : codepoint ≠ 0x25) :
    ∃ first extra, encode codepoint = first :: extra ∧ first ≠ percentage ∧
      Utf8Proc.isCharacter first = true := by
  obtain ⟨first, extra, bytes, starts, -⟩ := Utf8Proc.exists_encode_cons scalar
  refine ⟨first, extra, bytes, ?_, starts⟩
  rintro rfl
  have member : percentage ∈ encode codepoint := by
    rw [bytes]
    exact List.mem_cons_self
  exact notMany (encode_of_mem_ascii scalar member (by decide)).2

/-- The bytes of `%` at the front are the code points at the front. -/
theorem dropWhile_percentage (scalars : ∀ codepoint ∈ codepoints, Scalar codepoint) :
    (encodeAll codepoints).dropWhile (· == percentage) =
      encodeAll (codepoints.dropWhile (· == 0x25)) := by
  induction codepoints with
  | nil => rfl
  | cons codepoint rest ih =>
      obtain ⟨scalar, others⟩ := List.forall_mem_cons.mp scalars
      by_cases isMany : codepoint = 0x25
      · rw [isMany, encodeAll_cons, encode_percentage, List.singleton_append,
          List.dropWhile_cons_of_pos (by simp), List.dropWhile_cons_of_pos (by simp), ih others]
      · obtain ⟨first, extra, bytes, differs, -⟩ := head_encode scalar isMany
        rw [List.dropWhile_cons_of_neg (by simpa using isMany), encodeAll_cons, bytes,
          List.cons_append, List.dropWhile_cons_of_neg (by simpa using differs)]

theorem all_percentage (scalars : ∀ codepoint ∈ codepoints, Scalar codepoint) :
    (encodeAll codepoints).all (· == percentage) = codepoints.all (· == 0x25) := by
  induction codepoints with
  | nil => rfl
  | cons codepoint rest ih =>
      obtain ⟨scalar, others⟩ := List.forall_mem_cons.mp scalars
      by_cases isMany : codepoint = 0x25
      · rw [isMany, encodeAll_cons, encode_percentage, List.singleton_append, List.all_cons,
          List.all_cons, ih others]
        rfl
      · obtain ⟨first, extra, bytes, differs, -⟩ := head_encode scalar isMany
        rw [encodeAll_cons, bytes, List.cons_append, List.all_cons, List.all_cons,
          beq_eq_false_iff_ne.mpr differs, beq_eq_false_iff_ne.mpr isMany, Bool.false_and,
          Bool.false_and]

theorem encodeAll_eq_nil_iff : encodeAll codepoints = [] ↔ codepoints = [] := by
  cases codepoints with
  | nil => simp [encodeAll]
  | cons codepoint rest => simp [encodeAll_cons, encode]

theorem plain_wildcard (scalar : Scalar codepoint) (notMany : codepoint ≠ 0x25)
    (notOne : codepoint ≠ 0x5F) : ∀ c ∈ encode codepoint, FilterCombiner.isWildcard c = false := by
  intro c member
  obtain ⟨differs, other⟩ := plain_encode scalar notMany notOne c member
  rw [FilterCombiner.isWildcard, beq_eq_false_iff_ne.mpr differs, beq_eq_false_iff_ne.mpr other]
  rfl

theorem likeOperator_nil (pattern : List UInt8) :
    likeOperator pattern [] = pattern.all (· == percentage) := by
  cases pattern with
  | nil => rw [likeOperator]; rfl
  | cons p pattern => rw [likeOperator]

/-- One turn of the loop at `_`. -/
theorem likeOperator_underscore (pattern : List UInt8) (ne : string ≠ []) :
    likeOperator (underscore :: pattern) string =
      likeOperator pattern (FilterCombiner.nextCharacter string) := by
  obtain ⟨s, string, rfl⟩ := List.exists_cons_of_ne_nil ne
  rw [likeOperator, if_pos rfl]

/-- One turn of the loop at `%`, behind which something else follows. -/
theorem likeOperator_percentage (pattern : List UInt8) (ne : string ≠ []) :
    likeOperator (percentage :: pattern) string = true ↔
      pattern.dropWhile (· == percentage) = [] ∨ ∃ skipped < string.length,
        likeOperator (pattern.dropWhile (· == percentage)) (string.drop skipped) = true := by
  obtain ⟨s, string, rfl⟩ := List.exists_cons_of_ne_nil ne
  rw [likeOperator, if_neg percentage_ne_underscore, if_pos rfl]
  by_cases ends : pattern.dropWhile (· == percentage) = []
  · simp [ends]
  · rw [if_neg (by simpa using ends)]
    simp [ends]

/-- What matches from within a code point on matches from its start on. -/
theorem likeOperator_of_within {p : Nat} (scalar : Scalar p) (notMany : p ≠ 0x25)
    (scalar' : Scalar codepoint) (scalars : ∀ codepoint ∈ rest, Scalar codepoint)
    {start stop : List UInt8} (bytes : encode codepoint = start ++ stop) (ne : stop ≠ [])
    (matched : likeOperator (encodeAll (p :: pattern)) (stop ++ encodeAll rest) = true) :
    likeOperator (encodeAll (p :: pattern)) (encodeAll (codepoint :: rest)) = true := by
  cases start with
  | nil => rwa [encodeAll_cons codepoint, bytes]
  | cons first start =>
      obtain ⟨head, extra, whole, -, continues⟩ := Utf8Proc.exists_encode_cons scalar'
      have within : ∀ c ∈ stop, Utf8Proc.isCharacter c = false := by
        intro c member
        apply continues
        rw [bytes, List.cons_append] at whole
        rw [← (List.cons.inj whole).2]
        exact List.mem_append_right _ member
      by_cases isOne : p = 0x5F
      · rw [isOne, encodeAll_cons, encode_underscore, List.singleton_append] at matched ⊢
        rw [likeOperator_underscore _ (by simp [ne]), nextCharacter_append ne
          (fun c member => within c (List.mem_of_mem_tail member)) scalars] at matched
        rw [likeOperator_underscore _ (by simp [encodeAll_eq_nil_iff]), encodeAll_cons,
          nextCharacter_append (by rw [whole]; exact List.cons_ne_nil _ _)
            (by rw [whole]; exact continues) scalars]
        exact matched
      · -- the first byte of a code point is not among those that continue one
        exfalso
        rw [encodeAll_cons, FilterCombiner.likeOperator_append_iff
          (plain_wildcard scalar notMany isOne)] at matched
        obtain ⟨tail, same, -⟩ := matched
        obtain ⟨leading, others, leads, -, starts⟩ := head_encode scalar notMany
        obtain ⟨c, more, rfl⟩ := List.exists_cons_of_ne_nil ne
        rw [leads, List.cons_append, List.cons_append] at same
        have impossible := within c List.mem_cons_self
        rw [(List.cons.inj same).1, starts] at impossible
        cases impossible

/-- The general matcher on texts. -/
theorem likeOperator_encodeAll_iff {string : List Nat}
    (scalars : ∀ codepoint ∈ pattern, Scalar codepoint)
    (scalars' : ∀ codepoint ∈ string, Scalar codepoint) :
    likeOperator (encodeAll pattern) (encodeAll string) = true ↔
      Matches 0x25 0x5F pattern string := by
  have differ : (0x25 : Nat) ≠ 0x5F := by decide
  induction length : pattern.length using Nat.strongRecOn generalizing pattern string with
  | ind size ih =>
      subst length
      rcases string.eq_nil_or_concat with rfl | ⟨_, _, isConcat⟩
      · rw [matches_empty_iff differ, ← all_percentage scalars]
        exact iff_of_eq (congrArg (· = true) (likeOperator_nil _))
      have ne : string ≠ [] := by simp [isConcat]
      have bytes_ne : encodeAll string ≠ [] := mt encodeAll_eq_nil_iff.mp ne
      clear isConcat
      cases pattern with
      | nil =>
          rw [matches_nil_iff]
          change likeOperator [] (encodeAll string) = true ↔ _
          rw [likeOperator, List.isEmpty_iff, encodeAll_eq_nil_iff]
      | cons p pattern =>
          obtain ⟨scalar, others⟩ := List.forall_mem_cons.mp scalars
          by_cases isMany : p = 0x25
          · subst isMany
            rw [encodeAll_cons, encode_percentage, List.singleton_append,
              likeOperator_percentage _ bytes_ne, dropWhile_percentage others, encodeAll_eq_nil_iff,
              ← matches_many_dropWhile differ]
            cases remaining : pattern.dropWhile (· == 0x25) with
            | nil => simp [matches_many_singleton differ]
            | cons q rest =>
                have shorter : (q :: rest).length < (0x25 :: pattern).length := by
                  rw [← remaining]
                  exact Nat.lt_succ_of_le (List.dropWhile_sublist _).length_le
                have scalars_rest : ∀ codepoint ∈ q :: rest, Scalar codepoint := by
                  intro codepoint member
                  rw [← remaining] at member
                  exact others codepoint ((List.dropWhile_sublist _).subset member)
                have notMany : q ≠ 0x25 := by
                  have first := List.head?_dropWhile_not (· == 0x25) pattern
                  rw [remaining] at first
                  simpa using first
                rw [matches_many_iff differ]
                constructor
                · rintro (impossible | ⟨skipped, inside, matched⟩)
                  · cases impossible
                  · obtain ⟨front, codepoint, later, start, stop, rfl, bytes, stop_ne, dropped⟩ :=
                      drop_encodeAll inside
                    have tails : ∀ c ∈ codepoint :: later, Scalar c := fun c member =>
                      scalars' c (List.mem_append_right _ member)
                    obtain ⟨scalar', behind⟩ := List.forall_mem_cons.mp tails
                    rw [dropped] at matched
                    refine ⟨front, codepoint :: later, rfl, ?_⟩
                    exact (ih _ shorter scalars_rest tails rfl).mp
                      (likeOperator_of_within (scalars_rest q List.mem_cons_self) notMany scalar'
                        behind bytes stop_ne matched)
                · rintro ⟨skipped, later, rfl, matched⟩
                  refine Or.inr ⟨(encodeAll skipped).length, ?_, ?_⟩
                  · cases later with
                    | nil =>
                        rw [matches_empty_iff differ] at matched
                        simp [notMany] at matched
                    | cons first more =>
                        simp [encodeAll_append, encodeAll_cons, encode]
                  · rw [encodeAll_append, List.drop_left]
                    exact (ih _ shorter scalars_rest (fun c member =>
                      scalars' c (List.mem_append_right _ member)) rfl).mpr matched
          obtain ⟨first, later, rfl⟩ := List.exists_cons_of_ne_nil ne
          obtain ⟨scalar', behind⟩ := List.forall_mem_cons.mp scalars'
          by_cases isOne : p = 0x5F
          · subst isOne
            obtain ⟨head, extra, whole, -, continues⟩ := Utf8Proc.exists_encode_cons scalar'
            have step := ih _ (Nat.lt_succ_self _) others behind rfl
            rw [encodeAll_cons 0x5F, encode_underscore, List.singleton_append,
              likeOperator_underscore _ bytes_ne, encodeAll_cons first,
              nextCharacter_append (by rw [whole]; exact List.cons_ne_nil _ _)
                (by rw [whole]; exact continues) behind,
              matches_one_iff differ]
            exact step.trans (by simp)
          · rw [encodeAll_cons p, FilterCombiner.likeOperator_append_iff
              (plain_wildcard scalar isMany isOne), matches_same_iff isMany isOne]
            constructor
            · rintro ⟨tail, same, matched⟩
              rw [encodeAll_cons] at same
              obtain ⟨rfl, rfl⟩ := encode_append_inj scalar' scalar same
              exact ⟨later, rfl, (ih _ (Nat.lt_succ_self _) others behind rfl).mp matched⟩
            · rintro ⟨rest, same, matched⟩
              obtain ⟨rfl, rfl⟩ := List.cons.inj same
              exact ⟨encodeAll later, encodeAll_cons first later,
                (ih _ (Nat.lt_succ_self _) others behind rfl).mpr matched⟩

end Like

end StatsRecommender
