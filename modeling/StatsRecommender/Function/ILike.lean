import StatsRecommender.Function.LikeMatching

/-!
# ILIKE

`function/scalar/string/like.cpp`: the general operator brings string and pattern to lower case
and has the zero byte as its escape character; the operator for strings of ASCII characters reads
both through a table.  Statistics of the string decide which of them is used.
-/

namespace StatsRecommender

variable {codepoint : Nat} {toLower : Nat → Nat} {codepoints list : List Nat}
  {string pattern : List UInt8} {byte p : UInt8} {test : Nat → Except String Bool}

namespace Like

open Utf8
open FilterCombiner (percentage underscore)

/-- `LowerCase`, given `utf8proc_tolower`. -/
def lowerCase (toLower : Nat → Nat) (input : List UInt8) : Except String (List UInt8) :=
  match input with
  | [] => .ok []
  | byte :: rest =>
      if byte &&& 0x80 ≠ 0 then do
        let (codepoint, size) ← Utf8Proc.utf8ToCodepoint (byte :: rest)
        let converted := (Utf8Proc.codepointToUtf8 (toLower codepoint.toNat)).getD []
        let result ← lowerCase toLower (rest.drop (size - 1))
        .ok (converted ++ result)
      else do
        let result ← lowerCase toLower rest
        .ok (asciiToLower byte :: result)
  termination_by input.length
  decreasing_by
    · rw [List.length_drop, List.length_cons]
      exact Nat.lt_succ_of_le (Nat.sub_le _ _)
    · exact Nat.lt_succ_self _

/-- `ILikeOperatorFunction`, with its default for the escape character. -/
def iLikeOperatorFunction (toLower : Nat → Nat) (string pattern : List UInt8) :
    Except String Bool := do
  let string ← lowerCase toLower string
  let pattern ← lowerCase toLower pattern
  templatedLikeOperator standardCharacterReader (some 0) pattern string

/-- `NotILikeOperator`. -/
def notILikeOperator (toLower : Nat → Nat) (string pattern : List UInt8) : Except String Bool :=
  (iLikeOperatorFunction toLower string pattern).map (!·)

/-- `ILikeOperatorASCII`. -/
def iLikeOperatorASCII (string pattern : List UInt8) : Except String Bool :=
  templatedLikeOperator asciiLCaseReader none pattern string

/-- `NotILikeOperatorASCII`. -/
def notILikeOperatorASCII (string pattern : List UInt8) : Except String Bool :=
  (iLikeOperatorASCII string pattern).map (!·)

/-- `ILikePropagateStats`: what evaluates the function, given the statistics of the string. -/
def iLikePropagateStats (canContainUnicode : Bool) (toLower : Nat → Nat) :
    List UInt8 → List UInt8 → Except String Bool :=
  if !canContainUnicode then iLikeOperatorASCII else iLikeOperatorFunction toLower

/-- `ILikePropagateStats` of the negated function. -/
def notILikePropagateStats (canContainUnicode : Bool) (toLower : Nat → Nat) :
    List UInt8 → List UInt8 → Except String Bool :=
  if !canContainUnicode then notILikeOperatorASCII else notILikeOperator toLower

/-! ## Lower case -/

/-- What is asked of `utf8proc_tolower`: lower cases are code points and no upper-case letters. -/
structure LowersCodepoints (toLower : Nat → Nat) : Prop where
  scalar : ∀ codepoint, Scalar codepoint → Scalar (toLower codepoint)
  notUpper : ∀ codepoint, Scalar codepoint → ¬ (65 ≤ toLower codepoint ∧ toLower codepoint ≤ 90)

/-- The lower case of a code point. -/
def lowered (toLower : Nat → Nat) (codepoint : Nat) : Nat :=
  if codepoint < 128 then (asciiToLower (.ofNat codepoint)).toNat else toLower codepoint

/-- A byte of an ASCII character. -/
def Ascii (bytes : List UInt8) : Prop := ∀ byte ∈ bytes, byte.toNat < 128

theorem asciiToLower_toNat : ∀ byte : UInt8, (asciiToLower byte).toNat =
    if 65 ≤ byte.toNat ∧ byte.toNat ≤ 90 then byte.toNat + 32 else byte.toNat :=
  Utf8Proc.forall_byte (by decide +kernel)

theorem asciiToLower_eq_iff : ∀ byte : UInt8, (asciiToLower byte = percentage ↔ byte = percentage) ∧
    (asciiToLower byte = underscore ↔ byte = underscore) ∧ (asciiToLower byte = 0 ↔ byte = 0) :=
  Utf8Proc.forall_byte (by decide +kernel)

theorem asciiToLower_idem : ∀ byte : UInt8, asciiToLower (asciiToLower byte) = asciiToLower byte :=
  Utf8Proc.forall_byte (by decide +kernel)

theorem ascii_asciiToLower_iff (byte : UInt8) :
    (asciiToLower byte).toNat < 128 ↔ byte.toNat < 128 := by
  rw [asciiToLower_toNat]
  split
  · omega
  · exact Iff.rfl

theorem encode_of_ascii (ascii : codepoint < 128) : encode codepoint = [.ofNat codepoint] := by
  have none_extra : extraBytes codepoint = 0 := if_pos (by omega)
  rw [encode, none_extra]
  simp [firstByte, trail]

/-- One code point is brought to lower case after another. -/
theorem lowerCase_encodeAll (lowers : LowersCodepoints toLower)
    (scalars : ∀ codepoint ∈ codepoints, Scalar codepoint) :
    lowerCase toLower (encodeAll codepoints) =
      .ok (encodeAll (codepoints.map (lowered toLower))) := by
  induction codepoints with
  | nil => rw [encodeAll, List.flatMap_nil, lowerCase]; rfl
  | cons codepoint rest ih =>
      obtain ⟨scalar, others⟩ := List.forall_mem_cons.mp scalars
      have later := ih others
      rw [List.map_cons, encodeAll_cons, encodeAll_cons]
      by_cases ascii : codepoint < 128
      · have value : (UInt8.ofNat codepoint).toNat = codepoint :=
          Utf8Proc.toNat_ofNat_of_lt (by omega)
        have small : lowered toLower codepoint < 128 := by
          rw [lowered, if_pos ascii, ascii_asciiToLower_iff, value]
          exact ascii
        have here : UInt8.ofNat (lowered toLower codepoint) =
            asciiToLower (.ofNat codepoint) := by
          rw [lowered, if_pos ascii, UInt8.ofNat_toNat]
        rw [encode_of_ascii ascii, encode_of_ascii small, here, List.singleton_append,
          List.singleton_append, lowerCase, if_neg, later]
        · rfl
        · rw [ne_eq, not_not, Utf8Proc.ascii_iff, value]
          exact ascii
      · obtain ⟨first, extra, bytes, -, -⟩ := Utf8Proc.exists_encode_cons scalar
        have large : 128 ≤ first.toNat := by
          rcases Utf8Proc.firstByte_cases scalar (bytes.symm.trans (List.append_nil _).symm) with
            ⟨_, _, same⟩ | ⟨_, low, _⟩ | ⟨_, low, _⟩ | ⟨_, low, _⟩ <;> omega
        have read := Utf8Proc.utf8ToCodepoint_encode_append scalar (encodeAll rest)
        have converted := Utf8Proc.codepointToUtf8_of_scalar (lowers.scalar codepoint scalar)
        have here : lowered toLower codepoint = toLower codepoint := if_neg ascii
        rw [bytes, List.cons_append] at read
        rw [here, bytes, List.cons_append, lowerCase, if_pos, read]
        · dsimp only [bind, Except.bind]
          rw [Int.toNat_natCast, converted, List.length_cons, Nat.add_sub_cancel, List.drop_left,
            later]
          rfl
        · rw [ne_eq, Utf8Proc.ascii_iff]
          omega

/-- ASCII characters are their own code points. -/
theorem lowerCase_ascii (toLower : Nat → Nat) (ascii : Ascii string) :
    lowerCase toLower string = .ok (string.map asciiToLower) := by
  induction string with
  | nil => rw [lowerCase]; rfl
  | cons byte rest ih =>
      obtain ⟨small, others⟩ := List.forall_mem_cons.mp ascii
      rw [lowerCase, if_neg (by rw [ne_eq, not_not, Utf8Proc.ascii_iff]; exact small), ih others]
      rfl

/-! ## The matcher with a reader -/

/-- One turn of the loop. -/
theorem templatedLikeOperator_step (reader : CharacterReader) (escape : Option UInt8) (p s : UInt8)
    (pattern string : List UInt8) :
    templatedLikeOperator reader escape (p :: pattern) (s :: string) =
      if escape = some (reader.operation p) then
        match pattern with
        | [] => .error escapeAtEnd
        | escaped :: pattern => if escaped ≠ reader.operation s then .ok false
            else templatedLikeOperator reader escape pattern string
      else if reader.operation p = underscore then
        templatedLikeOperator reader escape pattern (reader.nextCharacter (s :: string))
      else if reader.operation p = percentage then
        if (pattern.dropWhile (· == percentage)).isEmpty then .ok true
        else (List.range (s :: string).length).anyM fun skipped =>
          templatedLikeOperator reader escape
            (pattern.dropWhile (· == percentage)) ((s :: string).drop skipped)
      else if reader.operation p = reader.operation s then
        templatedLikeOperator reader escape pattern string
      else .ok false := by
  exact templatedLikeOperator.eq_def reader escape (p :: pattern) (s :: string)

theorem Ascii.drop (ascii : Ascii string) (skipped : Nat) :
    Ascii (string.drop skipped) := fun byte member => ascii byte (List.mem_of_mem_drop member)

/-- In ASCII strings every byte is a character. -/
theorem nextCharacter_ascii (ascii : Ascii string) :
    FilterCombiner.nextCharacter string = string.tail := by
  cases string with
  | nil => rfl
  | cons s string =>
      obtain ⟨-, others⟩ := List.forall_mem_cons.mp ascii
      rw [FilterCombiner.nextCharacter, List.tail_cons]
      cases string with
      | nil => rfl
      | cons next string =>
          have small := others next List.mem_cons_self
          have starts : Utf8Proc.isCharacter next = true := by
            rw [← Bool.not_eq_false, Utf8Proc.isCharacter_eq_false_iff]
            omega
          rw [List.dropWhile_cons_of_neg (by simp [starts])]

/-- What both readers have in common on ASCII strings. -/
structure ReadsAscii (reader : CharacterReader) : Prop where
  next : ∀ {string}, Ascii string → reader.nextCharacter string = string.tail
  small : ∀ byte, (reader.operation byte).toNat < 128 ↔ byte.toNat < 128

theorem readsAscii_standard : ReadsAscii standardCharacterReader :=
  ⟨nextCharacter_ascii, fun _ => Iff.rfl⟩

theorem readsAscii_asciiLCase : ReadsAscii asciiLCaseReader :=
  ⟨fun _ => rfl, ascii_asciiToLower_iff⟩

theorem mem_dropWhile_percentage (member : byte ∈ pattern) (differs : byte ≠ percentage) :
    byte ∈ pattern.dropWhile (· == percentage) := by
  induction pattern with
  | nil => cases member
  | cons p pattern ih =>
      by_cases isMany : p = percentage
      · rw [List.dropWhile_cons_of_pos (by simpa using isMany)]
        rcases List.mem_cons.mp member with rfl | later
        · exact absurd isMany differs
        · exact ih later
      · rwa [List.dropWhile_cons_of_neg (by simpa using isMany)]

theorem anyM_false (all : ∀ a ∈ list, test a = .ok false) : list.anyM test = .ok false := by
  induction list with
  | nil => rfl
  | cons first rest ih =>
      obtain ⟨here, others⟩ := List.forall_mem_cons.mp all
      rw [List.anyM, here]
      exact ih others

/-- A byte that no ASCII string has keeps a pattern from matching, and from its end. -/
theorem templatedLikeOperator_of_large {reader : CharacterReader} (reads : ReadsAscii reader)
    (escape : Option UInt8) (member : byte ∈ pattern) (large : 128 ≤ byte.toNat)
    (ascii : Ascii string) (ascii_escape : ∀ e, escape = some e → e.toNat < 128) :
    templatedLikeOperator reader escape pattern string = .ok false := by
  have differs : byte ≠ percentage := by
    rintro rfl
    exact absurd large (by decide)
  induction length : pattern.length using Nat.strongRecOn generalizing pattern string with
  | ind size ih =>
      subst length
      cases pattern with
      | nil => cases member
      | cons p pattern =>
          cases string with
          | nil =>
              rw [templatedLikeOperator]
              congr 1
              rw [List.all_eq_false]
              exact ⟨byte, member, by simpa using differs⟩
          | cons s string =>
              obtain ⟨small, others⟩ := List.forall_mem_cons.mp ascii
              have schar := (reads.small s).mpr small
              rw [templatedLikeOperator_step]
              rcases List.mem_cons.mp member with rfl | later
              · have pchar := mt (reads.small byte).mp (Nat.not_lt.mpr large)
                rw [if_neg fun same : escape = some _ => pchar (ascii_escape _ same),
                  if_neg fun same => pchar (by rw [same]; decide),
                  if_neg fun same => pchar (by rw [same]; decide),
                  if_neg fun same => pchar (by rw [same]; exact schar)]
              · have shorter : pattern.length < (p :: pattern).length := Nat.lt_succ_self _
                split
                · cases pattern with
                  | nil => cases later
                  | cons escaped pattern =>
                      dsimp only
                      split
                      · rfl
                      · rename_i same
                        rcases List.mem_cons.mp later with rfl | behind
                        · rw [not_not.mp same] at large
                          omega
                        · exact ih _ (Nat.lt_succ_of_lt (Nat.lt_succ_self _)) behind others rfl
                · split
                  · rw [reads.next ascii]
                    exact ih _ shorter later others rfl
                  · split
                    · have remains := mem_dropWhile_percentage later differs
                      rw [if_neg (by
                        rw [List.isEmpty_iff]
                        exact List.ne_nil_of_mem remains)]
                      refine anyM_false fun skipped _ => ?_
                      exact ih _ (Nat.lt_succ_of_le (List.dropWhile_sublist _).length_le) remains
                        (ascii.drop skipped) rfl
                    · split
                      · exact ih _ shorter later others rfl
                      · rfl

/-! ## Patterns of ASCII characters without the zero byte -/

theorem dropWhile_map_asciiToLower (pattern : List UInt8) :
    (pattern.map asciiToLower).dropWhile (· == percentage) =
      (pattern.dropWhile (· == percentage)).map asciiToLower := by
  induction pattern with
  | nil => rfl
  | cons p pattern ih =>
      have special := (asciiToLower_eq_iff p).1
      by_cases isMany : p = percentage
      · rw [List.map_cons, List.dropWhile_cons_of_pos (by simpa using special.mpr isMany),
          List.dropWhile_cons_of_pos (by simpa using isMany), ih]
      · rw [List.map_cons, List.dropWhile_cons_of_neg (by simpa using mt special.mp isMany),
          List.dropWhile_cons_of_neg (by simpa using isMany), List.map_cons]

/-- One turn of the loop of the general operator at a byte that is no escape character. -/
theorem iLike_step (notZero : p ≠ 0) (s : UInt8) (pattern string : List UInt8) :
    templatedLikeOperator standardCharacterReader (some 0) (p :: pattern) (s :: string) =
      if p = underscore then
        templatedLikeOperator standardCharacterReader (some 0) pattern
          (FilterCombiner.nextCharacter (s :: string))
      else if p = percentage then
        if (pattern.dropWhile (· == percentage)).isEmpty then .ok true
        else (List.range (s :: string).length).anyM fun skipped =>
          templatedLikeOperator standardCharacterReader (some 0)
            (pattern.dropWhile (· == percentage)) ((s :: string).drop skipped)
      else if p = s then templatedLikeOperator standardCharacterReader (some 0) pattern string
      else .ok false := by
  rw [templatedLikeOperator_step]
  exact if_neg fun same => notZero (Option.some.inj same).symm

/-- One turn of the loop of the operator for ASCII characters. -/
theorem iLikeASCII_step (p s : UInt8) (pattern string : List UInt8) :
    templatedLikeOperator asciiLCaseReader none (p :: pattern) (s :: string) =
      if asciiToLower p = underscore then
        templatedLikeOperator asciiLCaseReader none pattern string
      else if asciiToLower p = percentage then
        if (pattern.dropWhile (· == percentage)).isEmpty then .ok true
        else (List.range (s :: string).length).anyM fun skipped =>
          templatedLikeOperator asciiLCaseReader none
            (pattern.dropWhile (· == percentage)) ((s :: string).drop skipped)
      else if asciiToLower p = asciiToLower s then
        templatedLikeOperator asciiLCaseReader none pattern string
      else .ok false := by
  rw [templatedLikeOperator_step]
  exact if_neg nofun

/-- Where no byte is an escape character the readers make no difference. -/
theorem templatedLikeOperator_lowered (nonzero : 0 ∉ pattern) (ascii : Ascii string) :
    templatedLikeOperator standardCharacterReader (some 0) (pattern.map asciiToLower)
        (string.map asciiToLower) =
      templatedLikeOperator asciiLCaseReader none pattern string := by
  induction length : pattern.length using Nat.strongRecOn generalizing pattern string with
  | ind size ih =>
      subst length
      cases pattern with
      | nil =>
          rw [List.map_nil, templatedLikeOperator, templatedLikeOperator]
          simp
      | cons p pattern =>
          obtain ⟨notZero, others⟩ := not_or.mp (mt List.mem_cons.mpr nonzero)
          obtain ⟨-, -, isZero_iff⟩ := asciiToLower_eq_iff p
          cases string with
          | nil =>
              rw [List.map_cons, List.map_nil, templatedLikeOperator, templatedLikeOperator,
                ← List.map_cons, List.all_map]
              congr 2
              funext byte
              simp [(asciiToLower_eq_iff byte).1]
          | cons s string =>
              have shorter : pattern.length < (p :: pattern).length := Nat.lt_succ_self _
              obtain ⟨-, small⟩ := List.forall_mem_cons.mp ascii
              have small_lowered : Ascii ((s :: string).map asciiToLower) := by
                intro byte member
                obtain ⟨other, listed, rfl⟩ := List.mem_map.mp member
                exact (ascii_asciiToLower_iff other).mpr (ascii other listed)
              rw [List.map_cons, List.map_cons, iLike_step (mt isZero_iff.mp (Ne.symm notZero)),
                iLikeASCII_step, ← List.map_cons, nextCharacter_ascii small_lowered]
              split
              · exact ih _ shorter others small rfl
              · split
                · rw [dropWhile_map_asciiToLower, List.isEmpty_map, List.length_map]
                  split
                  · rfl
                  · have sublist := List.dropWhile_sublist (l := pattern) (· == percentage)
                    congr 1
                    funext skipped
                    rw [← List.map_drop]
                    exact ih _ (Nat.lt_succ_of_le sublist.length_le)
                      (fun member => others (sublist.subset member)) (ascii.drop skipped) rfl
                · split
                  · exact ih _ shorter others small rfl
                  · rfl

/-! ## A string for every pattern -/

/-- A string that a pattern matches, with the zero byte as its escape character. -/
def matchingString : List UInt8 → List UInt8
  | [] => []
  | [0] => [97]
  | 0 :: escaped :: pattern => escaped :: matchingString pattern
  | p :: pattern =>
      if p = underscore then 97 :: matchingString pattern
      else if p = percentage then matchingString pattern
      else p :: matchingString pattern

theorem matchingString_cons (notZero : p ≠ 0) (pattern : List UInt8) :
    matchingString (p :: pattern) =
      if p = underscore then 97 :: matchingString pattern
      else if p = percentage then matchingString pattern
      else p :: matchingString pattern := by
  rw [matchingString]
  · exact fun isZero => absurd isZero notZero
  · exact fun _ _ isZero => absurd isZero notZero

/-- A property of patterns by the turns of the loop with the zero byte as escape character. -/
theorem pattern_induction {motive : List UInt8 → Prop} (nil : motive []) (dangling : motive [0])
    (escaped : ∀ c pattern, motive pattern → motive (0 :: c :: pattern))
    (cons : ∀ p pattern, p ≠ 0 → motive pattern →
      motive (pattern.dropWhile (· == percentage)) → motive (p :: pattern)) :
    ∀ pattern, motive pattern := by
  intro pattern
  induction length : pattern.length using Nat.strongRecOn generalizing pattern with
  | ind size ih =>
      subst length
      cases pattern with
      | nil => exact nil
      | cons p pattern =>
          by_cases isZero : p = 0
          · subst isZero
            cases pattern with
            | nil => exact dangling
            | cons c pattern =>
                exact escaped c pattern (ih _ (Nat.lt_succ_of_lt (Nat.lt_succ_self _)) _ rfl)
          · exact cons p pattern isZero (ih _ (Nat.lt_succ_self _) _ rfl)
              (ih _ (Nat.lt_succ_of_le (List.dropWhile_sublist _).length_le) _ rfl)

theorem matchingString_dropWhile (pattern : List UInt8) :
    matchingString (pattern.dropWhile (· == percentage)) = matchingString pattern := by
  induction pattern with
  | nil => rfl
  | cons p pattern ih =>
      by_cases isMany : p = percentage
      · rw [List.dropWhile_cons_of_pos (by simpa using isMany), ih, isMany,
          matchingString_cons (by decide), if_neg percentage_ne_underscore, if_pos rfl]
      · rw [List.dropWhile_cons_of_neg (by simpa using isMany)]

theorem all_of_matchingString_nil (pattern : List UInt8) (nothing : matchingString pattern = []) :
    pattern.all (· == percentage) = true := by
  induction pattern using pattern_induction with
  | nil => rfl
  | dangling => cases nothing
  | escaped c pattern _ => cases nothing
  | cons p pattern notZero ih _ =>
      rw [matchingString_cons notZero] at nothing
      split at nothing
      · cases nothing
      · split at nothing
        · rename_i isMany
          rw [List.all_cons, isMany, ih nothing]
          rfl
        · cases nothing

/-- What holds of the bytes of a pattern holds of those of the string. -/
theorem forall_mem_matchingString {holds : UInt8 → Prop} (letter : holds 97)
    (all : ∀ byte ∈ pattern, holds byte) : ∀ byte ∈ matchingString pattern, holds byte := by
  induction pattern using pattern_induction with
  | nil => exact List.forall_mem_nil _
  | dangling => exact List.forall_mem_singleton.mpr letter
  | escaped c pattern ih =>
      obtain ⟨-, here, others⟩ := List.forall_mem_cons.mp all |>.imp_right List.forall_mem_cons.mp
      exact List.forall_mem_cons.mpr ⟨here, ih others⟩
  | cons p pattern notZero ih _ =>
      obtain ⟨here, others⟩ := List.forall_mem_cons.mp all
      rw [matchingString_cons notZero]
      split
      · exact List.forall_mem_cons.mpr ⟨letter, ih others⟩
      · split
        · exact ih others
        · exact List.forall_mem_cons.mpr ⟨here, ih others⟩

theorem anyM_first {size : Nat} (positive : 0 < size) (first : test 0 ≠ .ok false) :
    (List.range size).anyM test ≠ .ok false := by
  obtain ⟨size, rfl⟩ := Nat.exists_eq_add_of_lt positive
  rw [Nat.zero_add, List.range_succ_eq_map, List.anyM]
  cases tested : test 0 with
  | error message => rintro ⟨⟩
  | ok result =>
      cases result with
      | true => rintro ⟨⟩
      | false => exact absurd tested first

/-- The general operator matches the string, unless the pattern ends with an escape character. -/
theorem templatedLikeOperator_matchingString (ascii : Ascii pattern) :
    templatedLikeOperator standardCharacterReader (some 0) pattern (matchingString pattern) ≠
      .ok false := by
  induction pattern using pattern_induction with
  | nil =>
      rw [matchingString, templatedLikeOperator]
      rintro ⟨⟩
  | dangling =>
      rw [matchingString, templatedLikeOperator_step]
      rintro ⟨⟩
  | escaped c pattern ih =>
      rw [matchingString, templatedLikeOperator_step]
      change (if c ≠ c then _ else _) ≠ _
      rw [if_neg (not_not.mpr rfl)]
      obtain ⟨-, -, others⟩ := List.forall_mem_cons.mp ascii |>.imp_right List.forall_mem_cons.mp
      exact ih others
  | cons p pattern notZero ih ih_dropped =>
      obtain ⟨-, others⟩ := List.forall_mem_cons.mp ascii
      have matched := ih others
      have small : Ascii (matchingString pattern) := forall_mem_matchingString (by decide) others
      rw [matchingString_cons notZero]
      by_cases isOne : p = underscore
      · rw [if_pos isOne, iLike_step notZero, if_pos isOne,
          nextCharacter_ascii (List.forall_mem_cons.mpr ⟨by decide, small⟩)]
        exact matched
      · rw [if_neg isOne]
        by_cases isMany : p = percentage
        · rw [if_pos isMany]
          have dropped := ih_dropped fun byte member =>
            others byte ((List.dropWhile_sublist _).subset member)
          rw [matchingString_dropWhile] at dropped
          cases string : matchingString pattern with
          | nil =>
              rw [templatedLikeOperator, List.all_cons, isMany,
                all_of_matchingString_nil pattern string]
              rintro ⟨⟩
          | cons s string' =>
              rw [iLike_step notZero, if_neg isOne, if_pos isMany]
              split
              · rintro ⟨⟩
              · refine anyM_first (Nat.succ_pos _) ?_
                rw [List.drop_zero, ← string]
                exact dropped
        · rw [if_neg isMany, iLike_step notZero, if_neg isOne, if_neg isMany, if_pos rfl]
          exact matched

/-- The string has less zero bytes than the pattern, if this has any. -/
theorem count_matchingString (pattern : List UInt8) :
    (matchingString pattern).count 0 ≤ pattern.count 0 ∧
      (0 ∈ pattern → (matchingString pattern).count 0 < pattern.count 0) := by
  induction pattern using pattern_induction with
  | nil => simp [matchingString]
  | dangling => decide
  | escaped c pattern ih =>
      rw [matchingString, List.count_cons_self, List.count_cons, List.count_cons]
      omega
  | cons p pattern notZero ih _ =>
      have other : (0 : UInt8) ≠ p := Ne.symm notZero
      rw [matchingString_cons notZero, List.count_cons_of_ne notZero, List.mem_cons,
        or_iff_right other]
      split
      · rw [List.count_cons_of_ne (by decide)]
        exact ih
      · split
        · exact ih
        · rw [List.count_cons_of_ne notZero]
          exact ih

theorem exists_of_anyM (found : list.anyM test = .ok true) : ∃ a ∈ list, test a = .ok true := by
  induction list with
  | nil => cases found
  | cons first rest ih =>
      rw [List.anyM] at found
      cases tested : test first with
      | error message =>
          rw [tested] at found
          cases found
      | ok result =>
          cases result with
          | true => exact ⟨first, List.mem_cons_self, tested⟩
          | false =>
              rw [tested] at found
              obtain ⟨a, member, holds⟩ := ih found
              exact ⟨a, List.mem_cons_of_mem _ member, holds⟩

theorem anyM_ne_error {message : String} (fine : ∀ a, test a ≠ .error message) (list : List Nat) :
    list.anyM test ≠ .error message := by
  induction list with
  | nil => rintro ⟨⟩
  | cons first rest ih =>
      rw [List.anyM]
      cases tested : test first with
      | error other =>
          intro same
          cases same
          exact fine first tested
      | ok result =>
          cases result with
          | true => rintro ⟨⟩
          | false => exact ih

theorem count_dropWhile (pattern : List UInt8) :
    (pattern.dropWhile (· == percentage)).count 0 = pattern.count 0 := by
  induction pattern with
  | nil => rfl
  | cons p pattern ih =>
      by_cases isMany : p = percentage
      · rw [List.dropWhile_cons_of_pos (by simpa using isMany), ih, isMany,
          List.count_cons_of_ne (by decide)]
      · rw [List.dropWhile_cons_of_neg (by simpa using isMany)]

/-- The operator for ASCII characters needs a zero byte for every zero byte of the pattern. -/
theorem count_of_iLikeASCII
    (matched : templatedLikeOperator asciiLCaseReader none pattern string = .ok true) :
    pattern.count 0 ≤ string.count 0 := by
  induction length : pattern.length using Nat.strongRecOn generalizing pattern string with
  | ind size ih =>
      subst length
      cases pattern with
      | nil => exact Nat.zero_le _
      | cons p pattern =>
          obtain ⟨isMany_iff, isOne_iff, isZero_iff⟩ := asciiToLower_eq_iff p
          have shorter : pattern.length < (p :: pattern).length := Nat.lt_succ_self _
          cases string with
          | nil =>
              rw [templatedLikeOperator, Except.ok.injEq, List.all_eq_true] at matched
              refine Nat.le_of_eq (List.count_eq_zero.mpr fun member => ?_)
              exact absurd (matched 0 member) (by decide)
          | cons s string =>
              rw [iLikeASCII_step] at matched
              split at matched
              · rename_i isOne
                have fewer := ih _ shorter matched rfl
                rw [List.count_cons_of_ne (by rw [isOne_iff.mp isOne]; decide)]
                exact fewer.trans (List.count_le_count_cons)
              · split at matched
                · rename_i isMany
                  rw [List.count_cons_of_ne (by rw [isMany_iff.mp isMany]; decide)]
                  split at matched
                  · rename_i ends
                    rw [← count_dropWhile, List.isEmpty_iff.mp ends]
                    exact Nat.zero_le _
                  · obtain ⟨skipped, -, later⟩ := exists_of_anyM matched
                    have fewer := ih _
                      (Nat.lt_succ_of_le (List.dropWhile_sublist _).length_le) later rfl
                    rw [count_dropWhile] at fewer
                    exact fewer.trans ((List.drop_sublist _ _).count_le 0)
                · split at matched
                  · rename_i same
                    have fewer := ih _ shorter matched rfl
                    by_cases isZero : p = 0
                    · have other : s = 0 := by
                        rw [← (asciiToLower_eq_iff s).2.2, ← same]
                        exact isZero_iff.mpr isZero
                      rw [isZero, other, List.count_cons_self, List.count_cons_self]
                      exact Nat.succ_le_succ fewer
                    · rw [List.count_cons_of_ne isZero]
                      exact fewer.trans (List.count_le_count_cons)
                  · cases matched

/-- Without an escape character there is no error. -/
theorem iLikeASCII_ne_error (pattern string : List UInt8) (message : String) :
    templatedLikeOperator asciiLCaseReader none pattern string ≠ .error message := by
  induction length : pattern.length using Nat.strongRecOn generalizing pattern string with
  | ind size ih =>
      subst length
      cases pattern with
      | nil =>
          rw [templatedLikeOperator]
          rintro ⟨⟩
      | cons p pattern =>
          have shorter : pattern.length < (p :: pattern).length := Nat.lt_succ_self _
          cases string with
          | nil =>
              rw [templatedLikeOperator]
              rintro ⟨⟩
          | cons s string =>
              rw [iLikeASCII_step]
              split
              · exact ih _ shorter _ _ rfl
              · split
                · split
                  · rintro ⟨⟩
                  · exact anyM_ne_error (fun _ => ih _
                      (Nat.lt_succ_of_le (List.dropWhile_sublist _).length_le) _ _ rfl) _
                · split
                  · exact ih _ shorter _ _ rfl
                  · rintro ⟨⟩

/-! ## Which patterns do not depend on the statistics -/

/-- The operators agree on every ASCII string, negated or not. -/
def AgreeOnAscii (toLower : Nat → Nat) (pattern : List UInt8) : Prop :=
  ∀ string, Ascii string →
    iLikePropagateStats false toLower string pattern =
        iLikePropagateStats true toLower string pattern ∧
      notILikePropagateStats false toLower string pattern =
        notILikePropagateStats true toLower string pattern

/-- For texts of ASCII characters their bytes are brought to lower case. -/
theorem iLikeOperatorFunction_eq (lowers : LowersCodepoints toLower) {pattern : List Nat}
    (scalars : ∀ codepoint ∈ pattern, Scalar codepoint) (ascii : Ascii string) :
    iLikeOperatorFunction toLower string (encodeAll pattern) =
      templatedLikeOperator standardCharacterReader (some 0)
        (encodeAll (pattern.map (lowered toLower))) (string.map asciiToLower) := by
  unfold iLikeOperatorFunction
  rw [lowerCase_ascii toLower ascii, lowerCase_encodeAll lowers scalars]
  rfl

/-- ASCII characters are bytes. -/
theorem encodeAll_ascii (ascii : ∀ codepoint ∈ codepoints, codepoint < 128) :
    encodeAll codepoints = codepoints.map UInt8.ofNat := by
  induction codepoints with
  | nil => rfl
  | cons codepoint rest ih =>
      obtain ⟨small, others⟩ := List.forall_mem_cons.mp ascii
      rw [encodeAll_cons, encode_of_ascii small, ih others]
      rfl

/-- Other code points have a byte that ASCII does not have. -/
theorem exists_large (scalars : ∀ codepoint ∈ codepoints, Scalar codepoint)
    (member : codepoint ∈ codepoints) (large : 128 ≤ codepoint) :
    ∃ byte ∈ encodeAll codepoints, 128 ≤ byte.toNat := by
  obtain ⟨first, extra, bytes, -, -⟩ := Utf8Proc.exists_encode_cons (scalars codepoint member)
  refine ⟨first, List.mem_flatMap.mpr ⟨codepoint, member, ?_⟩, ?_⟩
  · rw [bytes]
    exact List.mem_cons_self
  · rcases Utf8Proc.firstByte_cases (scalars codepoint member)
      (bytes.symm.trans (List.append_nil _).symm) with
      ⟨_, _, same⟩ | ⟨_, low, _⟩ | ⟨_, low, _⟩ | ⟨_, low, _⟩ <;> omega

section

variable {toLower : Nat → Nat}

theorem lowered_lt (ascii : codepoint < 128) : lowered toLower codepoint < 128 := by
  rw [lowered, if_pos ascii, ascii_asciiToLower_iff, Utf8Proc.toNat_ofNat_of_lt (by omega)]
  exact ascii

theorem scalar_lowered (lowers : LowersCodepoints toLower)
    (scalars : ∀ codepoint ∈ codepoints, Scalar codepoint) :
    ∀ codepoint ∈ codepoints.map (lowered toLower), Scalar codepoint := by
  refine List.forall_mem_map.mpr fun codepoint member => ?_
  by_cases ascii : codepoint < 128
  · exact Or.inl (Nat.lt_trans (lowered_lt ascii) (by decide))
  · rw [lowered, if_neg ascii]
    exact lowers.scalar codepoint (scalars codepoint member)

/-- Texts of ASCII characters are brought to lower case byte by byte. -/
theorem encodeAll_lowered (ascii : ∀ codepoint ∈ codepoints, codepoint < 128) :
    encodeAll (codepoints.map (lowered toLower)) = (encodeAll codepoints).map asciiToLower := by
  rw [encodeAll_ascii ascii, encodeAll_ascii (List.forall_mem_map.mpr fun codepoint member =>
    lowered_lt (ascii codepoint member)), List.map_map, List.map_map]
  refine List.map_congr_left fun codepoint member => ?_
  simp [lowered, ascii codepoint member]

/-- What is in lower case stays as it is. -/
theorem asciiToLower_lowered (lowers : LowersCodepoints toLower) (scalar : Scalar codepoint)
    (small : lowered toLower codepoint < 128) :
    asciiToLower (.ofNat (lowered toLower codepoint)) = .ofNat (lowered toLower codepoint) := by
  by_cases ascii : codepoint < 128
  · rw [lowered, if_pos ascii, UInt8.ofNat_toNat, asciiToLower_idem]
  · rw [← UInt8.toNat_inj, asciiToLower_toNat, Utf8Proc.toNat_ofNat_of_lt (by omega), if_neg]
    rw [lowered, if_neg ascii]
    exact lowers.notUpper codepoint scalar

/-- A pattern that may match ASCII strings, but not byte by byte, is told apart by one of them. -/
theorem not_agreeOnAscii (lowers : LowersCodepoints toLower) {pattern : List Nat}
    (scalars : ∀ codepoint ∈ pattern, Scalar codepoint)
    (small : ∀ codepoint ∈ pattern, lowered toLower codepoint < 128) (member : codepoint ∈ pattern)
    (special : codepoint = 0 ∨ 128 ≤ codepoint) : ¬ AgreeOnAscii toLower (encodeAll pattern) := by
  intro agree
  have bytes : encodeAll (pattern.map (lowered toLower)) =
      (pattern.map (lowered toLower)).map UInt8.ofNat :=
    encodeAll_ascii (List.forall_mem_map.mpr small)
  have formed : ∀ byte ∈ encodeAll (pattern.map (lowered toLower)),
      byte.toNat < 128 ∧ asciiToLower byte = byte := by
    rw [bytes, List.map_map]
    refine List.forall_mem_map.mpr fun other listed => ⟨?_, ?_⟩
    · have value := small other listed
      rw [Function.comp_apply, Utf8Proc.toNat_ofNat_of_lt (by omega)]
      exact value
    · exact asciiToLower_lowered lowers (scalars other listed) (small other listed)
  have matching : ∀ byte ∈ matchingString (encodeAll (pattern.map (lowered toLower))),
      byte.toNat < 128 ∧ asciiToLower byte = byte :=
    forall_mem_matchingString (by decide) formed
  have ascii : Ascii (matchingString (encodeAll (pattern.map (lowered toLower)))) :=
    fun byte listed => (matching byte listed).1
  have unchanged : (matchingString (encodeAll (pattern.map (lowered toLower)))).map asciiToLower =
      matchingString (encodeAll (pattern.map (lowered toLower))) :=
    (List.map_congr_left fun byte listed => (matching byte listed).2).trans (List.map_id _)
  have general : iLikeOperatorASCII (matchingString (encodeAll (pattern.map (lowered toLower))))
      (encodeAll pattern) ≠ .ok false := by
    have equal := (agree _ ascii).1
    change iLikeOperatorASCII _ _ = iLikeOperatorFunction toLower _ _ at equal
    rw [equal, iLikeOperatorFunction_eq lowers scalars ascii, unchanged]
    exact templatedLikeOperator_matchingString fun byte listed => (formed byte listed).1
  by_cases outside : ∃ codepoint ∈ pattern, 128 ≤ codepoint
  · obtain ⟨codepoint, member, large⟩ := outside
    obtain ⟨byte, listed, byte_large⟩ := exists_large scalars member large
    exact general (templatedLikeOperator_of_large readsAscii_asciiLCase none listed byte_large
      ascii nofun)
  · have inside : ∀ codepoint ∈ pattern, codepoint < 128 := fun codepoint member =>
      Nat.lt_of_not_le fun large => outside ⟨codepoint, member, large⟩
    obtain rfl : codepoint = 0 := special.resolve_right (Nat.not_le.mpr (inside _ member))
    -- the string has less zero bytes than the pattern
    have zero_mem : (0 : UInt8) ∈ encodeAll pattern := by
      rw [encodeAll_ascii inside]
      exact List.mem_map_of_mem member
    have same_count : (encodeAll (pattern.map (lowered toLower))).count 0 =
        (encodeAll pattern).count 0 := by
      rw [encodeAll_lowered inside, List.count_eq_countP, List.count_eq_countP, List.countP_map]
      refine List.countP_congr fun byte _ => ?_
      simp [(asciiToLower_eq_iff byte).2.2]
    have fewer := (count_matchingString (encodeAll (pattern.map (lowered toLower)))).2 (by
      rw [← List.count_pos_iff, same_count, List.count_pos_iff]
      exact zero_mem)
    cases result : iLikeOperatorASCII
        (matchingString (encodeAll (pattern.map (lowered toLower)))) (encodeAll pattern) with
    | error message => exact iLikeASCII_ne_error _ _ _ result
    | ok result' =>
        cases result' with
        | false => exact general result
        | true =>
            have enough := count_of_iLikeASCII result
            omega

end

/--
The results for ASCII strings do not depend on the statistics exactly if the pattern has a
character whose lower case is not ASCII, or only ASCII characters other than the zero byte.
-/
theorem iLike_agreeOnAscii_iff {toLower : Nat → Nat} (lowers : LowersCodepoints toLower)
    {pattern : List Nat} (scalars : ∀ codepoint ∈ pattern, Scalar codepoint) :
    AgreeOnAscii toLower (encodeAll pattern) ↔
      (∃ codepoint ∈ pattern, 128 ≤ lowered toLower codepoint) ∨
        ∀ codepoint ∈ pattern, 0 < codepoint ∧ codepoint < 128 := by
  constructor
  · intro agree
    by_contra neither
    obtain ⟨small, special⟩ := not_or.mp neither
    have all_small : ∀ codepoint ∈ pattern, lowered toLower codepoint < 128 :=
      fun codepoint member => Nat.lt_of_not_le fun large => small ⟨codepoint, member, large⟩
    have some_special : ∃ codepoint ∈ pattern, codepoint = 0 ∨ 128 ≤ codepoint := by
      by_contra none_special
      refine special fun codepoint member => ?_
      obtain ⟨notZero, notLarge⟩ := not_or.mp fun either =>
        none_special ⟨codepoint, member, either⟩
      exact ⟨Nat.pos_of_ne_zero notZero, Nat.lt_of_not_le notLarge⟩
    obtain ⟨codepoint, member, either⟩ := some_special
    exact not_agreeOnAscii lowers scalars all_small member either agree
  · intro condition string ascii
    have equal : iLikeOperatorASCII string (encodeAll pattern) =
        iLikeOperatorFunction toLower string (encodeAll pattern) := by
      rw [iLikeOperatorFunction_eq lowers scalars ascii]
      have lowered_ascii : Ascii (string.map asciiToLower) := List.forall_mem_map.mpr
        fun byte member => (ascii_asciiToLower_iff byte).mpr (ascii byte member)
      rcases condition with ⟨codepoint, member, large⟩ | plain
      · have outside : 128 ≤ codepoint := Nat.le_of_not_lt fun inside =>
          absurd (lowered_lt inside) (Nat.not_lt.mpr large)
        obtain ⟨byte, listed, byte_large⟩ := exists_large scalars member outside
        obtain ⟨other, otherListed, other_large⟩ := exists_large (scalar_lowered lowers scalars)
          (List.mem_map_of_mem member) large
        rw [iLikeOperatorASCII,
          templatedLikeOperator_of_large readsAscii_asciiLCase none listed byte_large ascii nofun,
          templatedLikeOperator_of_large readsAscii_standard (some 0) otherListed other_large
            lowered_ascii (by rintro _ ⟨⟩; decide)]
      · have nonzero : 0 ∉ encodeAll pattern := by
          rw [encodeAll_ascii fun codepoint member => (plain codepoint member).2]
          intro listed
          obtain ⟨codepoint, member, isZero⟩ := List.mem_map.mp listed
          obtain ⟨positive, small⟩ := plain codepoint member
          have value := congrArg UInt8.toNat isZero
          rw [Utf8Proc.toNat_ofNat_of_lt (by omega)] at value
          exact absurd value (by simpa using Nat.ne_of_gt positive)
        rw [encodeAll_lowered fun codepoint member => (plain codepoint member).2,
          templatedLikeOperator_lowered nonzero ascii]
        rfl
    exact ⟨equal, congrArg (Except.map (!·)) equal⟩

/-- Lower cases of Latin letters, of `İ` and of the Kelvin sign. -/
def latinLower (codepoint : Nat) : Nat :=
  if 65 ≤ codepoint ∧ codepoint ≤ 90 then codepoint + 32
  else if codepoint = 0x130 then 0x69
  else if codepoint = 0x212A then 0x6B
  else codepoint

theorem lowersCodepoints_latin : LowersCodepoints latinLower := by
  constructor
  · intro codepoint scalar
    unfold latinLower
    split_ifs
    · exact Or.inl (by omega)
    · decide
    · decide
    · exact scalar
  · intro codepoint _
    unfold latinLower
    split_ifs <;> omega

theorem iLike_agreeOnAscii_letters : AgreeOnAscii latinLower (encodeAll [0x41, 0x25, 0x5F]) :=
  (iLike_agreeOnAscii_iff lowersCodepoints_latin (by decide)).mpr (Or.inr (by decide))

/--
The Kelvin sign matches `k` only without the statistics, and a zero byte at the end of a pattern
is an error only without them.
-/
theorem not_iLike_agreeOnAscii : ¬ AgreeOnAscii latinLower (encodeAll [0x212A]) ∧
    ¬ AgreeOnAscii latinLower (encodeAll [0x61, 0]) := by
  constructor
  · intro agree
    have equal := (agree [0x6B] (by simp [Ascii])).1
    revert equal
    decide +kernel
  · intro agree
    have equal := (agree [0x61, 0x62] (by simp [Ascii])).1
    revert equal
    decide +kernel

end Like

end StatsRecommender
