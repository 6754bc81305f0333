import Mathlib.Data.List.Infix

/-!
# Wildcards

Patterns with a character for any sequence and one for any single character, over any alphabet.
Between two sequences a fixed segment may be placed as far to the front as it fits.
-/

namespace Wildcards

variable {α : Type} {segment : List α}

/-- The string can be split along the pattern. -/
inductive Matches (many one : α) : List α → List α → Prop where
  | nil : Matches many one [] []
  | many {pattern string : List α} (skipped : List α) (rest : Matches many one pattern string) :
      Matches many one (many :: pattern) (skipped ++ string)
  | one {pattern string : List α} (c : α) (rest : Matches many one pattern string) :
      Matches many one (one :: pattern) (c :: string)
  | same {pattern string : List α} {c : α} (notMany : c ≠ many) (notOne : c ≠ one)
      (rest : Matches many one pattern string) : Matches many one (c :: pattern) (c :: string)

/-- The characters match only themselves. -/
def Plain (many one : α) (characters : List α) : Prop := ∀ c ∈ characters, c ≠ many ∧ c ≠ one

variable {many one : α} {pattern string : List α}

theorem matches_nil_iff : Matches many one [] string ↔ string = [] := by
  constructor
  · rintro ⟨⟩
    rfl
  · rintro rfl
    exact .nil

theorem matches_many_iff (differ : many ≠ one) : Matches many one (many :: pattern) string ↔
    ∃ skipped rest, string = skipped ++ rest ∧ Matches many one pattern rest := by
  constructor
  · intro whole
    cases whole with
    | many skipped rest => exact ⟨skipped, _, rfl, rest⟩
    | one c rest => exact absurd rfl differ
    | same notMany _ _ => exact absurd rfl notMany
  · rintro ⟨skipped, rest, rfl, matched⟩
    exact .many skipped matched

theorem matches_one_iff (differ : many ≠ one) : Matches many one (one :: pattern) string ↔
    ∃ c rest, string = c :: rest ∧ Matches many one pattern rest := by
  constructor
  · intro whole
    cases whole with
    | many skipped rest => exact absurd rfl differ
    | one c rest => exact ⟨c, _, rfl, rest⟩
    | same _ notOne _ => exact absurd rfl notOne
  · rintro ⟨c, rest, rfl, matched⟩
    exact .one c matched

theorem matches_same_iff {c : α} (notMany : c ≠ many) (notOne : c ≠ one) :
    Matches many one (c :: pattern) string ↔
      ∃ rest, string = c :: rest ∧ Matches many one pattern rest := by
  constructor
  · intro whole
    cases whole with
    | many skipped rest => exact absurd rfl notMany
    | one c rest => exact absurd rfl notOne
    | same _ _ rest => exact ⟨_, rfl, rest⟩
  · rintro ⟨rest, rfl, matched⟩
    exact .same notMany notOne matched

/-- More characters in front do not matter to a sequence. -/
theorem Matches.append_front (differ : many ≠ one) (front : List α)
    (matched : Matches many one (many :: pattern) string) :
    Matches many one (many :: pattern) (front ++ string) := by
  obtain ⟨skipped, rest, rfl, later⟩ := (matches_many_iff differ).mp matched
  rw [← List.append_assoc]
  exact .many (front ++ skipped) later

theorem matches_many_many (differ : many ≠ one) :
    Matches many one (many :: many :: pattern) string ↔
      Matches many one (many :: pattern) string := by
  rw [matches_many_iff differ]
  constructor
  · rintro ⟨skipped, rest, rfl, matched⟩
    exact matched.append_front differ skipped
  · intro matched
    exact ⟨[], string, rfl, matched⟩

/-- Several sequences in a row are one. -/
theorem matches_many_dropWhile [DecidableEq α] (differ : many ≠ one) (pattern string : List α) :
    Matches many one (many :: pattern.dropWhile (· == many)) string ↔
      Matches many one (many :: pattern) string := by
  induction pattern with
  | nil => exact Iff.rfl
  | cons c pattern ih =>
      by_cases same : c = many
      · rw [same, List.dropWhile_cons_of_pos (by simp), ih, matches_many_many differ]
      · rw [List.dropWhile_cons_of_neg (by simpa using same)]

theorem matches_many_singleton (differ : many ≠ one) (string : List α) :
    Matches many one [many] string := by
  rw [matches_many_iff differ]
  exact ⟨string, [], (List.append_nil string).symm, .nil⟩

/-- A pattern that only a sequence can be empty for. -/
theorem matches_empty_iff [DecidableEq α] (differ : many ≠ one) (pattern : List α) :
    Matches many one pattern [] ↔ pattern.all (· == many) = true := by
  induction pattern with
  | nil => simp [matches_nil_iff]
  | cons c pattern ih =>
      rw [List.all_cons, Bool.and_eq_true, beq_iff_eq, ← ih]
      by_cases isMany : c = many
      · rw [isMany, matches_many_iff differ]
        simp
      · refine iff_of_false ?_ fun both => isMany both.1
        intro matched
        by_cases isOne : c = one
        · rw [isOne, matches_one_iff differ] at matched
          obtain ⟨_, _, impossible, -⟩ := matched
          cases impossible
        · obtain ⟨_, impossible, -⟩ := (matches_same_iff isMany isOne).mp matched
          cases impossible

/-! ## Segments -/

/-- Plain characters stand at the front of the string. -/
theorem matches_append_iff {segment : List α} (plain : Plain many one segment) :
    Matches many one (segment ++ pattern) string ↔
      ∃ rest, string = segment ++ rest ∧ Matches many one pattern rest := by
  induction segment generalizing string with
  | nil => simp
  | cons c segment ih =>
      obtain ⟨⟨notMany, notOne⟩, others⟩ := List.forall_mem_cons.mp plain
      rw [List.cons_append, matches_same_iff notMany notOne]
      constructor
      · rintro ⟨rest, rfl, matched⟩
        obtain ⟨later, rfl, tail⟩ := (ih others).mp matched
        exact ⟨later, rfl, tail⟩
      · rintro ⟨rest, rfl, matched⟩
        exact ⟨segment ++ rest, rfl, (ih others).mpr ⟨rest, rfl, matched⟩⟩

theorem matches_plain_iff (plain : Plain many one segment) :
    Matches many one segment string ↔ string = segment := by
  have whole := @matches_append_iff _ many one [] string _ plain
  rw [List.append_nil] at whole
  simp [whole, matches_nil_iff]

/-- A segment behind a sequence stands somewhere in the string. -/
theorem matches_many_append_iff (differ : many ≠ one) (plain : Plain many one segment) :
    Matches many one (many :: (segment ++ pattern)) string ↔
      ∃ front rest, string = front ++ (segment ++ rest) ∧ Matches many one pattern rest := by
  rw [matches_many_iff differ]
  constructor
  · rintro ⟨skipped, rest, rfl, matched⟩
    obtain ⟨later, rfl, tail⟩ := (matches_append_iff plain).mp matched
    exact ⟨skipped, later, rfl, tail⟩
  · rintro ⟨front, rest, rfl, matched⟩
    exact ⟨front, _, rfl, (matches_append_iff plain).mpr ⟨rest, rfl, matched⟩⟩

/-- A segment at the end. -/
theorem matches_many_plain_iff (differ : many ≠ one) (plain : Plain many one segment) :
    Matches many one (many :: segment) string ↔
      segment <:+ string := by
  rw [matches_many_iff differ]
  constructor
  · rintro ⟨skipped, rest, rfl, matched⟩
    rw [matches_plain_iff plain] at matched
    exact ⟨skipped, by rw [matched]⟩
  · rintro ⟨front, rfl⟩
    exact ⟨front, segment, rfl, (matches_plain_iff plain).mpr rfl⟩

/-- The place is the first one at which a segment stands. -/
structure Leftmost (segment string : List α) (place : Nat) : Prop where
  starts : segment <+: string.drop place
  first : ∀ earlier < place, ¬ segment <+: string.drop earlier

theorem isPrefix_drop_of_eq {front rest : List α} (string : List α)
    (same : string = front ++ (segment ++ rest)) : segment <+: string.drop front.length := by
  rw [same, List.drop_left]
  exact ⟨rest, rfl⟩

/-- Between two sequences it is enough to try the first place of a segment. -/
theorem matches_leftmost_iff (differ : many ≠ one) {segment : List α}
    (plain : Plain many one segment) {place : Nat} (leftmost : Leftmost segment string place) :
    Matches many one (many :: (segment ++ many :: pattern)) string ↔
      Matches many one (many :: pattern) (string.drop (place + segment.length)) := by
  rw [matches_many_append_iff differ plain]
  constructor
  · rintro ⟨front, rest, same, matched⟩
    have behind : place ≤ front.length := by
      by_contra before
      exact leftmost.first front.length (Nat.not_le.mp before) (isPrefix_drop_of_eq string same)
    -- what is behind the first place ends with what is behind the other one
    have rest_eq : rest = string.drop (front.length + segment.length) := by
      rw [same, ← List.drop_drop, List.drop_left, List.drop_left]
    have split : string.drop (place + segment.length) =
        (string.drop (place + segment.length)).take (front.length - place) ++ rest := by
      rw [rest_eq]
      conv_lhs => rw [← List.take_append_drop (front.length - place)
        (string.drop (place + segment.length))]
      rw [List.drop_drop, show place + segment.length + (front.length - place) =
        front.length + segment.length by omega]
    rw [split]
    exact matched.append_front differ _
  · intro matched
    obtain ⟨rest, starts⟩ := leftmost.starts
    refine ⟨string.take place, rest, ?_, ?_⟩
    · rw [starts, List.take_append_drop]
    · rw [← List.drop_drop, ← starts, List.drop_left] at matched
      exact matched

/-- Where a segment does not stand the pattern does not match. -/
theorem not_matches_of_absent (differ : many ≠ one) (plain : Plain many one segment)
    (absent : ∀ place, ¬ segment <+: string.drop place) :
    ¬ Matches many one (many :: (segment ++ pattern)) string := by
  rw [matches_many_append_iff differ plain]
  rintro ⟨front, rest, same, -⟩
  exact absent front.length (isPrefix_drop_of_eq string same)

end Wildcards
