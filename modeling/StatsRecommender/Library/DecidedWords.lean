import Mathlib.Tactic.Common

/-!
# Decided words

Two words are decided when they are equal or differ at a letter, whatever comes behind it.
Decisions are composed like the words, so that an encoding made of decided parts keeps the
order of what it encodes.
-/

namespace DecidedWords

/-- The words are equal, or the first letter in which they differ decides. -/
inductive Decides {Letter : Type} [LT Letter] : Ordering → List Letter → List Letter → Prop
  | same (word : List Letter) : Decides .eq word word
  | less (common : List Letter) {first second : Letter} (lt : first < second)
      (rest others : List Letter) :
      Decides .lt (common ++ first :: rest) (common ++ second :: others)
  | greater (common : List Letter) {first second : Letter} (lt : second < first)
      (rest others : List Letter) :
      Decides .gt (common ++ first :: rest) (common ++ second :: others)

namespace Decides

variable {Letter Other : Type} [LT Letter] [LT Other] {decision : Ordering}
  {left right : List Letter}

/-- A difference in the first letter. -/
theorem head_less {first second : Letter} (lt : first < second) (rest others : List Letter) :
    Decides .lt (first :: rest) (second :: others) :=
  less [] lt rest others

theorem head_greater {first second : Letter} (lt : second < first) (rest others : List Letter) :
    Decides .gt (first :: rest) (second :: others) :=
  greater [] lt rest others

section

variable (decided : Decides decision left right)
include decided

/-- Words that begin alike. -/
theorem prepend (word : List Letter) : Decides decision (word ++ left) (word ++ right) := by
  cases decided with
  | same rest => exact same _
  | less common lt rest others =>
      rw [← List.append_assoc, ← List.append_assoc]
      exact less _ lt rest others
  | greater common lt rest others =>
      rw [← List.append_assoc, ← List.append_assoc]
      exact greater _ lt rest others

/-- What comes behind two words decides only if they are equal. -/
theorem append {later : Ordering} {behind beyond : List Letter}
    (tail : Decides later behind beyond) :
    Decides (decision.then later) (left ++ behind) (right ++ beyond) := by
  cases decided with
  | same word => exact tail.prepend _
  | less common lt rest others =>
      rw [List.append_assoc, List.append_assoc]
      exact less common lt _ _
  | greater common lt rest others =>
      rw [List.append_assoc, List.append_assoc]
      exact greater common lt _ _

/-- Words that differ stay decided before anything at all. -/
theorem extend (differ : decision ≠ .eq) (behind beyond : List Letter) :
    Decides decision (left ++ behind) (right ++ beyond) := by
  cases decided with
  | same word => exact absurd rfl differ
  | less common lt rest others =>
      rw [List.append_assoc, List.append_assoc]
      exact less common lt _ _
  | greater common lt rest others =>
      rw [List.append_assoc, List.append_assoc]
      exact greater common lt _ _

/-- The decision of the words in reverse order. -/
theorem reverse : Decides decision.swap right left := by
  cases decided with
  | same word => exact same _
  | less common lt rest others => exact greater common lt _ _
  | greater common lt rest others => exact less common lt _ _

end

/-- Letters that are replaced in reverse order. -/
theorem map_reverse {replace : Letter → Other}
    (antitone : ∀ first second, first < second → replace second < replace first)
    (decided : Decides decision left right) :
    Decides decision.swap (left.map replace) (right.map replace) := by
  cases decided with
  | same word => exact same _
  | less common lt rest others =>
      rw [List.map_append, List.map_append]
      exact greater _ (antitone _ _ lt) _ _
  | greater common lt rest others =>
      rw [List.map_append, List.map_append]
      exact less _ (antitone _ _ lt) _ _

/-- The words are equal exactly if the decision says so. -/
theorem eq_iff (irreflexive : ∀ letter : Letter, ¬ letter < letter)
    (decided : Decides decision left right) : decision = .eq ↔ left = right := by
  cases decided with
  | same word => exact iff_of_true rfl rfl
  | less common lt rest others =>
      refine iff_of_false (by decide) fun equal => ?_
      rw [List.append_cancel_left_eq, List.cons.injEq] at equal
      exact irreflexive _ (equal.1 ▸ lt)
  | greater common lt rest others =>
      refine iff_of_false (by decide) fun equal => ?_
      rw [List.append_cancel_left_eq, List.cons.injEq] at equal
      exact irreflexive _ (equal.1 ▸ lt)

end Decides

/-! ## Words that are decided alike -/

/-- A decision, or its reverse. -/
def directed (reverse : Bool) (decision : Ordering) : Ordering :=
  if reverse then decision.swap else decision

@[simp]
theorem directed_eq (reverse : Bool) : directed reverse .eq = .eq := by
  cases reverse <;> rfl

theorem directed_then (reverse : Bool) (first second : Ordering) :
    directed reverse (first.then second) =
      (directed reverse first).then (directed reverse second) := by
  cases reverse
  · rfl
  · cases first <;> rfl

/-- Two codes, of which the second one has the order of the first one or its reverse. -/
def Alike {Letter Other : Type} [LT Letter] [LT Other] (reverse : Bool)
    (left right : List Letter) (leftCode rightCode : List Other) : Prop :=
  ∃ decision, Decides decision left right ∧ Decides (directed reverse decision) leftCode rightCode

namespace Alike

variable {Letter Other : Type} [LT Letter] [LT Other] {reverse : Bool}
  {left right : List Letter} {leftCode rightCode : List Other} {firstCode secondCode : Other}

theorem same (word : List Letter) (code : List Other) : Alike reverse word word code code :=
  ⟨.eq, .same word, by rw [directed_eq]; exact .same code⟩

theorem append {behind beyond : List Letter} {behindCode beyondCode : List Other}
    (first : Alike reverse left right leftCode rightCode)
    (second : Alike reverse behind beyond behindCode beyondCode) :
    Alike reverse (left ++ behind) (right ++ beyond) (leftCode ++ behindCode)
      (rightCode ++ beyondCode) := by
  obtain ⟨decision, word, code⟩ := first
  obtain ⟨later, tail, tailCode⟩ := second
  refine ⟨decision.then later, word.append tail, ?_⟩
  rw [directed_then]
  exact code.append tailCode

/-- Both codes of the first word begin with the smaller letter, or the reverse. -/
theorem of_less {first second : Letter} (lt : first < second)
    (lt_code : if reverse then secondCode < firstCode else firstCode < secondCode)
    (rest others : List Letter) (restCode othersCode : List Other) :
    Alike reverse (first :: rest) (second :: others) (firstCode :: restCode)
      (secondCode :: othersCode) := by
  refine ⟨.lt, .head_less lt _ _, ?_⟩
  cases reverse with
  | false => exact .head_less lt_code _ _
  | true => exact .head_greater lt_code _ _

theorem of_greater {first second : Letter} (lt : second < first)
    (lt_code : if reverse then firstCode < secondCode else secondCode < firstCode)
    (rest others : List Letter) (restCode othersCode : List Other) :
    Alike reverse (first :: rest) (second :: others) (firstCode :: restCode)
      (secondCode :: othersCode) := by
  refine ⟨.gt, .head_greater lt _ _, ?_⟩
  cases reverse with
  | false => exact .head_greater lt_code _ _
  | true => exact .head_less lt_code _ _

/-- A word has one code. -/
theorem code_eq (irreflexive : ∀ letter : Letter, ¬ letter < letter)
    (alike : Alike reverse left right leftCode rightCode) (equal : left = right) :
    leftCode = rightCode := by
  obtain ⟨decision, words, codes⟩ := alike
  rw [(words.eq_iff irreflexive).mpr equal, directed_eq] at codes
  cases codes
  rfl

end Alike

end DecidedWords
