import Mathlib.Data.List.Infix
import StatsRecommender.Optimizer.PrefixPushdown

/-!
# LIKE

`function/scalar/string/like.cpp` and `contains.cpp`: the general matcher, which goes through
pattern and string byte by byte, and the matcher for constant patterns without `_`, which looks
for the segments between the `%` one after another.
-/

namespace StatsRecommender

open FilterCombiner (percentage underscore)

namespace Like

/-! ## The general matcher -/

/-- What the templates take as `READER`. -/
structure CharacterReader where
  nextCharacter : List UInt8 → List UInt8
  operation : UInt8 → UInt8

/-- `StandardCharacterReader`. -/
def standardCharacterReader : CharacterReader := ⟨FilterCombiner.nextCharacter, id⟩

/-- `ASCII_TO_LOWER_MAP`. -/
def asciiToLower (byte : UInt8) : UInt8 := if 65 ≤ byte ∧ byte ≤ 90 then byte + 32 else byte

/-- `ASCIILCaseReader`. -/
def asciiLCaseReader : CharacterReader := ⟨List.tail, asciiToLower⟩

def escapeAtEnd : String := "Like pattern must not end with escape character!"

/--
`TemplatedLikeOperator`, by what is left of pattern and string; without an escape character
`HAS_ESCAPE` is false.
-/
def templatedLikeOperator (reader : CharacterReader) (escape : Option UInt8)
    (pattern string : List UInt8) : Except String Bool :=
  match pattern, string with
  | [], string => .ok string.isEmpty
  | p :: pattern, [] => .ok ((p :: pattern).all (· == percentage))
  | p :: pattern, s :: string =>
      let pchar := reader.operation p
      let schar := reader.operation s
      if escape = some pchar then
        match pattern with
        | [] => .error escapeAtEnd
        | escaped :: pattern =>
            if escaped ≠ schar then .ok false
            else templatedLikeOperator reader escape pattern string
      else if pchar = underscore then
        templatedLikeOperator reader escape pattern (reader.nextCharacter (s :: string))
      else if pchar = percentage then
        let rest := pattern.dropWhile (· == percentage)
        if rest.isEmpty then .ok true
        else (List.range (s :: string).length).anyM fun skipped =>
          templatedLikeOperator reader escape rest ((s :: string).drop skipped)
      else if pchar = schar then templatedLikeOperator reader escape pattern string
      else .ok false
  termination_by pattern.length
  decreasing_by
    · exact Nat.lt_succ_of_lt (Nat.lt_succ_self _)
    · exact Nat.lt_succ_self _
    · exact Nat.lt_succ_of_le (List.dropWhile_sublist _).length_le
    · exact Nat.lt_succ_self _

/-- `LikeOperatorFunction`, without an escape character. -/
def likeOperatorFunction (string pattern : List UInt8) : Except String Bool :=
  templatedLikeOperator standardCharacterReader none pattern string

/-! ## Finding a string -/

/-- `memchr` in the first bytes. -/
def memchr (bytes : List UInt8) (byte : UInt8) (size : Nat) : Option Nat :=
  (bytes.take size).findIdx? (· == byte)

/-- How `Contains` compares what is behind the bytes that it loads at once. -/
inductive MatchRemainder where
  | containsAligned
  | containsUnaligned
  | containsGeneric
  deriving DecidableEq, Repr

/-- `MatchRemainder`, at a place of the haystack. -/
def matchRemainder (op : MatchRemainder) (width : Nat) (haystack needle : List UInt8) : Bool :=
  match op with
  | .containsAligned => true
  | .containsUnaligned =>
      (List.range' width (needle.length - width)).countP
        (fun i => haystack[i]? == needle[i]?) == needle.length - width
  | .containsGeneric =>
      (haystack.drop width).take (needle.length - width) == needle.drop width

/-- The loop of `Contains`; the size is what is left of the places to try. -/
def containsLoop (op : MatchRemainder) (width : Nat) (needle : List UInt8) (size : Nat)
    (haystack : List UInt8) (offset : Nat) : Option Nat :=
  match needle with
  | [] => none
  | first :: rest =>
      match memchr haystack first size with
      | none => none
      | some skipped =>
          let location := haystack.drop skipped
          if location.take width = (first :: rest).take width ∧
              matchRemainder op width location (first :: rest) = true then some (offset + skipped)
          else if skipped < size then
            containsLoop op width (first :: rest) (size - (skipped + 1)) (location.drop 1)
              (offset + skipped + 1)
          else none
  termination_by size

/-- `Contains`. -/
def contains (op : MatchRemainder) (width : Nat) (haystack needle : List UInt8)
    (baseOffset : Nat) : Option Nat :=
  if haystack.length < needle.length then none
  else (containsLoop op width needle (haystack.length - (needle.length - 1)) haystack 0).map
    (baseOffset + ·)

/-- `FindStrInStr`; the needle is not empty. -/
def findStrInStr (haystack needle : List UInt8) : Option Nat :=
  match needle with
  | [] => none
  | first :: _ =>
      match memchr haystack first haystack.length with
      | none => none
      | some baseOffset =>
          let haystack := haystack.drop baseOffset
          match needle.length with
          | 1 => some baseOffset
          | 2 => contains .containsAligned 2 haystack needle baseOffset
          | 3 => contains .containsUnaligned 2 haystack needle baseOffset
          | 4 => contains .containsAligned 4 haystack needle baseOffset
          | 5 => contains .containsUnaligned 4 haystack needle baseOffset
          | 6 => contains .containsUnaligned 4 haystack needle baseOffset
          | 7 => contains .containsUnaligned 4 haystack needle baseOffset
          | 8 => contains .containsAligned 8 haystack needle baseOffset
          | _ => contains .containsGeneric 8 haystack needle baseOffset

/-! ## The matcher for constant patterns -/

/-- `LikeMatcher`, which is only built with a segment. -/
structure LikeMatcher where
  likePattern : List UInt8
  segments : List (List UInt8)
  segments_ne_nil : segments ≠ []
  hasStartPercentage : Bool
  hasEndPercentage : Bool

namespace LikeMatcher

/-- The segments before the last one, each at its first place behind the one before. -/
def matchMiddle : List (List UInt8) → List UInt8 → Option (List UInt8)
  | [], string => some string
  | segment :: segments, string =>
      match findStrInStr string segment with
      | none => none
      | some nextOffset => matchMiddle segments (string.drop (nextOffset + segment.length))

/-- `Match` behind the segment at the start. -/
def matchSegments (matcher : LikeMatcher) (middle : List (List UInt8)) (string : List UInt8) :
    Bool :=
  match matchMiddle middle string with
  | none => false
  | some string =>
      let segment := matcher.segments.getLast matcher.segments_ne_nil
      if !matcher.hasEndPercentage then
        if string.length < segment.length then false
        else string.drop (string.length - segment.length) == segment
      else (findStrInStr string segment).isSome

/-- `Match`. -/
def matchString (matcher : LikeMatcher) (string : List UInt8) : Bool :=
  if !matcher.hasStartPercentage then
    let segment := matcher.segments.head matcher.segments_ne_nil
    if string.length < segment.length then false
    else if string.take segment.length ≠ segment then false
    else if matcher.segments.length = 1 then
      matcher.hasEndPercentage || (string.drop segment.length).isEmpty
    else matcher.matchSegments matcher.segments.tail.dropLast (string.drop segment.length)
  else matcher.matchSegments matcher.segments.dropLast string

end LikeMatcher

/-- The variables of the loop of `CreateLikeMatcher`. -/
structure SegmentProgress where
  segments : List (List UInt8)
  hasStartPercentage : Bool
  hasEndPercentage : Bool

/-- `segments.emplace_back`, if anything is behind the last special character. -/
def SegmentProgress.push (progress : SegmentProgress) (current : List UInt8) : SegmentProgress :=
  if current.isEmpty then progress
  else { progress with segments := progress.segments ++ [current] }

/--
The loop of `CreateLikeMatcher` from an index on; `current` are the bytes from
`last_non_pattern` up to the index.
-/
def createSegments (escape : UInt8) (i : Nat) (progress : SegmentProgress) (current : List UInt8) :
    List UInt8 → Option SegmentProgress
  | [] => some (progress.push current)
  | ch :: rest =>
      if ch = escape ∨ ch = percentage ∨ ch = underscore then
        if ch = escape ∨ ch = underscore then none
        else
          let progress := progress.push current
          createSegments escape (i + 1)
            { progress with
              hasStartPercentage := progress.hasStartPercentage || i == 0
              hasEndPercentage := progress.hasEndPercentage || rest.isEmpty } [] rest
      else createSegments escape (i + 1) progress (current ++ [ch]) rest

/-- `CreateLikeMatcher` with its default for the escape character. -/
def createLikeMatcher (likePattern : List UInt8) : Option LikeMatcher :=
  match createSegments 0 0 ⟨[], false, false⟩ [] likePattern with
  | none => none
  | some progress =>
      if nonempty : progress.segments ≠ [] then
        some ⟨likePattern, progress.segments, nonempty, progress.hasStartPercentage,
          progress.hasEndPercentage⟩
      else none

end Like

end StatsRecommender
