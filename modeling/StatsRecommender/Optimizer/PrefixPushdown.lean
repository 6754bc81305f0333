import StatsRecommender.Planner.TableFilter
import StatsRecommender.Types.Utf8Proc

/-!
# Bounds of a prefix

`TryPushdownPrefixFilter` and `TryPushdownLikeFilter` of the filter combiner, which put bounds on
a column for the strings that begin with a prefix.
-/

namespace StatsRecommender

variable {bytes front rest pattern : List UInt8} {last wildcard : UInt8}

/-- `FilterPushdownResult`. -/
inductive FilterPushdownResult where
  | noPushdown
  | pushedDownPartially
  | pushedDownFully
  deriving DecidableEq, Repr

/-- `TableFilterSet`, by the primary index of a column. -/
structure TableFilterSet where
  filters : Nat → Option TableFilter

/-- `TableFilterSet::PushFilter`. -/
def TableFilterSet.pushFilter (set : TableFilterSet) (columnIndex : Nat) (filter : TableFilter) :
    TableFilterSet :=
  let entry :=
    match set.filters columnIndex with
    | none => filter
    | some (.conjunctionAnd children) => .conjunctionAnd (children ++ [filter])
    | some other => .conjunctionAnd [other, filter]
  ⟨fun other => if other = columnIndex then some entry else set.filters other⟩

/-- The expressions that the combiner looks at; a constant is a string or NULL. -/
inductive PushdownExpression where
  | boundFunction (name : String) (left right : PushdownExpression)
  | boundColumnRef (columnIndex : Nat)
  | boundConstant (value : Option (List UInt8))
  | other

/-- `StringValue::Get`. -/
def stringValueGet : Option (List UInt8) → Except String (List UInt8)
  | some bytes => pure bytes
  | none => throw "Calling StringValue::Get on a NULL value"

/-- `Value(string)`, with the error of `InvalidUnicodeError`. -/
def stringValue (bytes : List UInt8) : Except String Constant :=
  match Utf8Proc.analyze bytes with
  | .ok _ => pure ⟨.varchar, .varchar bytes⟩
  | .error .byteMismatch =>
      throw "Invalid unicode (byte sequence mismatch) detected in value construction"
  | .error .invalidUnicode => throw "Invalid unicode detected in value construction"

/-- `column_ids[index]`. -/
def columnAt (columnIds : List Nat) (index : Nat) : Except String Nat :=
  match columnIds[index]? with
  | some column => pure column
  | none => throw "Attempted to access an index behind the size of a vector"

/-! ## What the filters of a column accept -/

open Utf8

theorem lessThan_varchar_iff (left right : List UInt8) :
    lessThan (.varchar left) (.varchar right) = true ↔ left < right := by
  rw [← stringComparison_lt_iff, ← stringKey_lt_iff, lessThan_iff]
  simp [Payload.key, Payload.digits, OrderKey.cons_lt_cons_iff]

theorem greaterThanEquals_varchar_iff (left right : List UInt8) :
    greaterThanEquals (.varchar left) (.varchar right) = true ↔ ¬ left < right := by
  rw [greaterThanEquals_iff, ← lessThan_varchar_iff, lessThan_iff, not_lt]

theorem equals_varchar_iff (left right : List UInt8) :
    equals (.varchar left) (.varchar right) = true ↔ left = right := by
  simp [Payload.key, Payload.digits, stringKey_eq_iff]

/-- A string passes the filters of a column. -/
def TableFilterSet.Accepts (set : TableFilterSet) (column : Nat) (string : List UInt8) : Prop :=
  ∀ filter ∈ set.filters column, filter.eval (some (.varchar string)) = some true

theorem eval_conjunctionAnd_iff (children : List TableFilter) (value : Option Payload) :
    (TableFilter.conjunctionAnd children).eval value = some true ↔
      ∀ child ∈ children, child.eval value = some true :=
  TableFilter.evalAll_eq_true_iff children value

namespace TableFilterSet

variable (set : TableFilterSet) (column : Nat) (filter : TableFilter) (string : List UInt8)

theorem accepts_pushFilter_iff :
    (set.pushFilter column filter).Accepts column string ↔
      set.Accepts column string ∧ filter.eval (some (.varchar string)) = some true := by
  have one : ∀ entry : TableFilter, (∀ filter ∈ some entry, filter.eval (some (.varchar string)) =
      some true) ↔ entry.eval (some (.varchar string)) = some true := by
    simp
  rw [Accepts, Accepts, pushFilter]
  dsimp only
  rw [if_pos rfl, one]
  cases set.filters column with
  | none => simp
  | some entry =>
      rw [one]
      cases entry with
      | conjunctionAnd children =>
          dsimp only
          rw [eval_conjunctionAnd_iff, eval_conjunctionAnd_iff, List.forall_mem_append,
            List.forall_mem_singleton]
      | _ =>
          dsimp only
          rw [eval_conjunctionAnd_iff, List.forall_mem_cons, List.forall_mem_singleton]

theorem pushFilter_other {other : Nat} (differs : other ≠ column) :
    (set.pushFilter column filter).filters other = set.filters other := if_neg differs

end TableFilterSet

theorem stringValue_of_valid (valid : Valid bytes) :
    stringValue bytes = .ok ⟨.varchar, .varchar bytes⟩ := by
  obtain ⟨type, ran⟩ := (Utf8Proc.analyze_isOk_iff bytes).mpr valid
  rw [stringValue, ran]
  rfl

/-- A string that is not a text cannot be a value. -/
theorem exists_error_of_not_valid (invalid : ¬ Valid bytes) :
    ∃ message, stringValue bytes = .error message := by
  cases ran : Utf8Proc.analyze bytes with
  | ok type => exact absurd ((Utf8Proc.analyze_isOk_iff bytes).mp ⟨type, ran⟩) invalid
  | error reason =>
      rw [stringValue, ran]
      cases reason with
      | byteMismatch => exact ⟨_, rfl⟩
      | invalidUnicode => exact ⟨_, rfl⟩

namespace FilterCombiner

/-! ## Prefix filters -/

/-- The position behind the last byte that starts a code point. -/
def lastCharacter (bytes : List UInt8) : Nat → Nat
  | 0 => 0
  | position + 1 =>
      if Utf8Proc.isCharacter (bytes.getD position 0) then position + 1
      else lastCharacter bytes position

/-- `FindNextLegalUTF8`: the string with its last code point increased, if there is one. -/
def findNextLegalUtf8 (prefixString : List UInt8) : Except String (Option (List UInt8)) :=
  match lastCharacter prefixString prefixString.length with
  | 0 => throw "Invalid UTF8 found in string"
  | lastCodepointStart + 1 => do
      let (codepoint, _) ← Utf8Proc.utf8ToCodepoint (prefixString.drop lastCodepointStart)
      let next := codepoint + 1
      let next := if 0xD800 ≤ next ∧ next ≤ 0xDFFF then 0xE000 else next
      match Utf8Proc.codepointToUtf8 next with
      | some text => pure (some (prefixString.take lastCodepointStart ++ text))
      | none => pure none

/-- `TryPushdownPrefixFilter`. -/
def tryPushdownPrefixFilter (tableFilters : TableFilterSet) (columnIds : List Nat) :
    PushdownExpression → Except String (FilterPushdownResult × TableFilterSet)
  | .boundFunction name (.boundColumnRef binding) (.boundConstant value) =>
      if name ≠ "prefix" then pure (.noPushdown, tableFilters)
      else do
        let prefixString ← stringValueGet value
        if prefixString.isEmpty then pure (.noPushdown, tableFilters)
        else
          let columnIndex ← columnAt columnIds binding
          let lowerBound ← stringValue prefixString
          let tableFilters := tableFilters.pushFilter columnIndex
            (.constantComparison .compareGreaterThanOrEqualTo lowerBound)
          match ← findNextLegalUtf8 prefixString with
          | some next => do
              let upperBound ← stringValue next
              pure (.pushedDownFully, tableFilters.pushFilter columnIndex
                (.constantComparison .compareLessThan upperBound))
          | none => pure (.noPushdown, tableFilters)
  | _ => pure (.noPushdown, tableFilters)

/-! ## LIKE -/

/-- `%`. -/
def percentage : UInt8 := 0x25

/-- `_`. -/
def underscore : UInt8 := 0x5F

def isWildcard (c : UInt8) : Bool := c == percentage || c == underscore

/-- The bytes before the first special character, and whether there is none. -/
def fixedPrefix : List UInt8 → List UInt8 × Bool
  | [] => ([], true)
  | c :: rest =>
      if isWildcard c then ([], false)
      else (c :: (fixedPrefix rest).1, (fixedPrefix rest).2)

/-- `prefix[prefix.size() - 1]++`. -/
def increaseLast : List UInt8 → List UInt8
  | [] => []
  | [c] => [c + 1]
  | c :: rest => c :: increaseLast rest

/-- `TryPushdownLikeFilter`. -/
def tryPushdownLikeFilter (tableFilters : TableFilterSet) (columnIds : List Nat) :
    PushdownExpression → Except String (FilterPushdownResult × TableFilterSet)
  | .boundFunction name (.boundColumnRef binding) (.boundConstant value) =>
      if name ≠ "~~" then pure (.noPushdown, tableFilters)
      else do
        let columnIndex ← columnAt columnIds binding
        match value with
        | none => pure (.pushedDownFully, tableFilters.pushFilter columnIndex .isNotNull)
        | some likeString =>
            if likeString.head?.any isWildcard then pure (.noPushdown, tableFilters)
            else if (fixedPrefix likeString).2 then do
              let equal ← stringValue (fixedPrefix likeString).1
              pure (.pushedDownFully, tableFilters.pushFilter columnIndex
                (.constantComparison .compareEqual equal))
            else do
              let lowerBound ← stringValue (fixedPrefix likeString).1
              let upperBound ← stringValue (increaseLast (fixedPrefix likeString).1)
              let tableFilters := tableFilters.pushFilter columnIndex
                (.constantComparison .compareGreaterThanOrEqualTo lowerBound)
              pure (.pushedDownPartially, tableFilters.pushFilter columnIndex
                (.constantComparison .compareLessThan upperBound))
  | _ => pure (.noPushdown, tableFilters)

/-- `StandardCharacterReader::NextCharacter`. -/
def nextCharacter : List UInt8 → List UInt8
  | [] => []
  | _ :: rest => rest.dropWhile fun c => !Utf8Proc.isCharacter c

/-- `TemplatedLikeOperator` without an escape character, by what is left of pattern and string. -/
def likeOperator (pattern string : List UInt8) : Bool :=
  match pattern, string with
  | [], string => string.isEmpty
  | p :: pattern, [] => (p :: pattern).all (· == percentage)
  | p :: pattern, c :: string =>
      if p = underscore then likeOperator pattern (nextCharacter (c :: string))
      else if p = percentage then
        let rest := pattern.dropWhile (· == percentage)
        if rest.isEmpty then true
        else (List.range (c :: string).length).any fun skipped =>
          likeOperator rest ((c :: string).drop skipped)
      else if p = c then likeOperator pattern string
      else false
  termination_by pattern.length
  decreasing_by
    · exact Nat.lt_succ_self _
    · exact Nat.lt_succ_of_le (List.dropWhile_sublist _).length_le
    · exact Nat.lt_succ_self _

/-! ## The next text -/

/-- Continuing bytes are passed over. -/
theorem lastCharacter_append (front : List UInt8) (first : UInt8) (extra : List UInt8)
    (starts : Utf8Proc.isCharacter first = true)
    (continues : ∀ c ∈ extra, Utf8Proc.isCharacter c = false) {position : Nat}
    (low : front.length < position) (high : position ≤ (front ++ first :: extra).length) :
    lastCharacter (front ++ first :: extra) position = front.length + 1 := by
  induction position with
  | zero => omega
  | succ position ih =>
      rw [lastCharacter, List.getD_eq_getElem?_getD, List.getElem?_append_right (by omega)]
      rcases Nat.lt_or_eq_of_le (Nat.le_of_lt_succ low) with behind | rfl
      · obtain ⟨place, rfl⟩ : ∃ place, position = front.length + 1 + place :=
          ⟨position - (front.length + 1), by omega⟩
        have inside : place < extra.length := by
          rw [List.length_append, List.length_cons] at high
          omega
        have index : front.length + 1 + place - front.length = place + 1 := by omega
        rw [index, List.getElem?_cons_succ, List.getElem?_eq_getElem inside, Option.getD_some,
          continues _ (List.getElem_mem inside), if_neg Bool.false_ne_true]
        exact ih (by omega) (by omega)
      · rw [Nat.sub_self, List.getElem?_cons_zero, Option.getD_some, starts, if_pos rfl]

/-- The code point behind a code point, over the surrogates. -/
def nextCodepoint (codepoint : Nat) : Nat :=
  if codepoint = 0xD7FF then 0xE000 else codepoint + 1

theorem gap_nextCodepoint {codepoint other : Nat} (scalar : Scalar other) :
    other ≤ codepoint ∨ nextCodepoint codepoint ≤ other := by
  rw [nextCodepoint]
  rcases scalar with _ | ⟨_, _⟩ <;> split <;> omega

/-- The last code point is replaced by the next one, unless it is the greatest. -/
theorem findNextLegalUtf8_spec (front : List UInt8) {last : Nat} (scalar : Scalar last) :
    findNextLegalUtf8 (front ++ encode last) =
        .ok (some (front ++ encode (nextCodepoint last))) ∧ Scalar (nextCodepoint last) ∨
      findNextLegalUtf8 (front ++ encode last) = .ok none := by
  obtain ⟨first, extra, bytes, starts, continues⟩ := Utf8Proc.exists_encode_cons scalar
  obtain ⟨size, read⟩ := Utf8Proc.utf8ToCodepoint_encode scalar
  have start : lastCharacter (front ++ encode last) (front ++ encode last).length =
      front.length + 1 := by
    rw [bytes]
    refine lastCharacter_append front first extra starts continues ?_ (Nat.le_refl _)
    rw [List.length_append, List.length_cons]
    omega
  have bumped : (if (0xD800 : Int) ≤ (last : Int) + 1 ∧ (last : Int) + 1 ≤ 0xDFFF then
      (0xE000 : Int) else (last : Int) + 1) = (nextCodepoint last : Nat) := by
    rw [nextCodepoint]
    rcases scalar with _ | ⟨_, _⟩ <;> split <;> split <;> omega
  rw [findNextLegalUtf8, start]
  dsimp only
  rw [List.drop_left, read]
  dsimp only [bind, Except.bind]
  rw [bumped, List.take_left]
  by_cases greatest : last = 0x10FFFF
  · right
    subst greatest
    rfl
  · left
    have scalar' : Scalar (nextCodepoint last) := by
      rw [nextCodepoint]
      rcases scalar with _ | ⟨_, _⟩ <;> split
      · exact Or.inr (by omega)
      · exact Or.inl (by omega)
      · omega
      · exact Or.inr (by omega)
    rw [Utf8Proc.codepointToUtf8_of_scalar scalar']
    exact ⟨rfl, scalar'⟩

/-! ## What the bounds tell -/

/-- The filters pushed for the strings of a kind are true on them, and on no others when complete. -/
structure PushesBounds (before : TableFilterSet) (column : Nat) (kind : List UInt8 → Prop)
    (result : FilterPushdownResult) (after : TableFilterSet) : Prop where
  sound : ∀ string, Valid string → kind string → before.Accepts column string →
    after.Accepts column string
  complete : result = .pushedDownFully → ∀ string, Valid string →
    (after.Accepts column string ↔ before.Accepts column string ∧ kind string)
  others : ∀ other ≠ column, after.filters other = before.filters other

theorem PushesBounds.refl (set : TableFilterSet) (column : Nat) (kind : List UInt8 → Prop)
    {result : FilterPushdownResult} (part : result ≠ .pushedDownFully) :
    PushesBounds set column kind result set :=
  ⟨fun _ _ _ accepted => accepted, fun full => absurd full part, fun _ _ => rfl⟩

theorem eval_lower_iff (bound string : List UInt8) :
    (TableFilter.constantComparison .compareGreaterThanOrEqualTo
      ⟨.varchar, .varchar bound⟩).eval (some (.varchar string)) = some true ↔ ¬ string < bound := by
  rw [← greaterThanEquals_varchar_iff]
  exact Option.some_inj

theorem eval_upper_iff (bound string : List UInt8) :
    (TableFilter.constantComparison .compareLessThan
      ⟨.varchar, .varchar bound⟩).eval (some (.varchar string)) = some true ↔ string < bound := by
  rw [← lessThan_varchar_iff]
  exact Option.some_inj

theorem eval_equal_iff (bound string : List UInt8) :
    (TableFilter.constantComparison .compareEqual
      ⟨.varchar, .varchar bound⟩).eval (some (.varchar string)) = some true ↔ string = bound := by
  rw [← equals_varchar_iff]
  exact Option.some_inj

variable {before : TableFilterSet} {columnIds : List Nat} {binding column : Nat}

/-- The bounds of a prefix are those of the strings that begin with it. -/
theorem tryPushdownPrefixFilter_spec (bound : columnIds[binding]? = some column)
    {prefixString : List UInt8} (ne : prefixString ≠ []) (valid : Valid prefixString) :
    ∃ result after, tryPushdownPrefixFilter before columnIds
        (.boundFunction "prefix" (.boundColumnRef binding) (.boundConstant (some prefixString))) =
          .ok (result, after) ∧
      PushesBounds before column (prefixString <+: ·) result after := by
  obtain ⟨codepoints, last, scalars, scalar, rfl⟩ := valid.exists_last ne
  have columnIndex : columnAt columnIds binding = .ok column := by
    rw [columnAt, bound]
    rfl
  have lower := stringValue_of_valid valid
  rw [tryPushdownPrefixFilter, if_neg (not_not_intro rfl)]
  dsimp only [stringValueGet, bind, Except.bind, pure, Except.pure]
  rw [List.isEmpty_eq_false_iff.mpr ne, if_neg Bool.false_ne_true, columnIndex]
  dsimp only
  rw [lower]
  dsimp only
  have starts_low : ∀ string, encodeAll codepoints ++ encode last <+: string →
      ¬ string < encodeAll codepoints ++ encode last := by
    rintro string ⟨rest, rfl⟩
    exact not_append_lt _ _
  rcases findNextLegalUtf8_spec (encodeAll codepoints) scalar with ⟨next, scalar'⟩ | none
  · have upper : Valid (encodeAll codepoints ++ encode (nextCodepoint last)) := by
      rw [valid_encodeAll_append_iff scalars, ← encodeAll_singleton]
      exact valid_encodeAll (List.forall_mem_singleton.mpr scalar')
    rw [next]
    dsimp only
    rw [stringValue_of_valid upper]
    have less : last < nextCodepoint last := by
      rw [nextCodepoint]
      split <;> omega
    have accepts : ∀ string, Valid string →
        (((before.pushFilter column (.constantComparison .compareGreaterThanOrEqualTo
            ⟨.varchar, .varchar (encodeAll codepoints ++ encode last)⟩)).pushFilter column
          (.constantComparison .compareLessThan
            ⟨.varchar, .varchar (encodeAll codepoints ++ encode (nextCodepoint last))⟩)).Accepts
            column string ↔
          before.Accepts column string ∧ encodeAll codepoints ++ encode last <+: string) := by
      intro string text
      rw [TableFilterSet.accepts_pushFilter_iff, TableFilterSet.accepts_pushFilter_iff,
        eval_lower_iff, eval_upper_iff, and_assoc,
        prefix_iff_between_texts scalars scalar scalar' less (fun _ => gap_nextCodepoint) text]
    refine ⟨_, _, rfl, ?_, fun _ => accepts, ?_⟩
    · exact fun string text starts accepted => (accepts string text).mpr ⟨accepted, starts⟩
    · intro other differs
      rw [TableFilterSet.pushFilter_other _ _ _ differs,
        TableFilterSet.pushFilter_other _ _ _ differs]
  · rw [none]
    refine ⟨_, _, rfl, ?_, fun full => (by cases full), ?_⟩
    · intro string _ starts accepted
      rw [TableFilterSet.accepts_pushFilter_iff, eval_lower_iff]
      exact ⟨accepted, starts_low string starts⟩
    · intro other differs
      exact TableFilterSet.pushFilter_other _ _ _ differs

/-! ## LIKE matches -/

/-- Bytes that are not special match themselves. -/
theorem likeOperator_append_iff {fixed : List UInt8} (plain : ∀ c ∈ fixed, isWildcard c = false)
    (rest string : List UInt8) :
    likeOperator (fixed ++ rest) string = true ↔
      ∃ tail, string = fixed ++ tail ∧ likeOperator rest tail = true := by
  induction fixed generalizing string with
  | nil => simp
  | cons c fixed ih =>
      have special := plain c List.mem_cons_self
      rw [isWildcard, Bool.or_eq_false_iff, beq_eq_false_iff_ne, beq_eq_false_iff_ne] at special
      rw [List.cons_append]
      cases string with
      | nil =>
          rw [likeOperator, List.all_cons, beq_eq_false_iff_ne.mpr special.1]
          simp
      | cons head string =>
          rw [likeOperator, if_neg special.2, if_neg special.1]
          by_cases same : c = head
          · rw [if_pos same, ih fun other member => plain other (List.mem_cons_of_mem _ member)]
            simp [same]
          · rw [if_neg same]
            refine iff_of_false Bool.false_ne_true ?_
            rintro ⟨tail, equal, _⟩
            exact same (List.cons.inj equal).1.symm

theorem fixedPrefix_spec (pattern : List UInt8) :
    (∀ c ∈ (fixedPrefix pattern).1, isWildcard c = false) ∧
      ((fixedPrefix pattern).2 = true → (fixedPrefix pattern).1 = pattern) ∧
      ((fixedPrefix pattern).2 = false → ∃ wildcard rest, isWildcard wildcard = true ∧
        pattern = (fixedPrefix pattern).1 ++ wildcard :: rest) := by
  induction pattern with
  | nil => exact ⟨List.forall_mem_nil _, fun _ => rfl, fun special => (by cases special)⟩
  | cons c pattern ih =>
      obtain ⟨plain, whole, special⟩ := ih
      rw [fixedPrefix]
      cases kind : isWildcard c with
      | true =>
          rw [if_pos rfl]
          refine ⟨List.forall_mem_nil _, fun full => (by cases full), fun _ => ?_⟩
          exact ⟨c, pattern, kind, rfl⟩
      | false =>
          rw [if_neg Bool.false_ne_true]
          dsimp only
          refine ⟨List.forall_mem_cons.mpr ⟨kind, plain⟩, ?_, ?_⟩
          · exact fun full => by rw [whole full]
          · intro cut
            obtain ⟨wildcard, rest, kind', equal⟩ := special cut
            refine ⟨wildcard, rest, kind', ?_⟩
            rw [List.cons_append, ← equal]

theorem increaseLast_append (front : List UInt8) (last : UInt8) :
    increaseLast (front ++ [last]) = front ++ [last + 1] := by
  induction front with
  | nil => rfl
  | cons c front ih =>
      rw [List.cons_append, List.cons_append, ← ih]
      cases front with
      | nil => rfl
      | cons => rfl

/-- Special characters do not continue a code point. -/
theorem isCharacter_of_isWildcard {c : UInt8} (special : isWildcard c = true) :
    Utf8Proc.isCharacter c = true := by
  rw [isWildcard, Bool.or_eq_true, beq_iff_eq, beq_iff_eq] at special
  rcases special with rfl | rfl
  · rfl
  · rfl

/-- What is before a special character of a text is a text. -/
theorem valid_of_append_wildcard (special : isWildcard wildcard = true)
    (valid : Valid (front ++ wildcard :: rest)) : Valid front := by
  obtain ⟨codepoints, scalars, bytes⟩ := valid
  induction codepoints generalizing front with
  | nil =>
      have short := congrArg List.length bytes
      rw [List.length_append, List.length_cons] at short
      exact absurd short (by simp [encodeAll])
  | cons codepoint codepoints ih =>
      have scalar := scalars codepoint List.mem_cons_self
      rw [encodeAll_cons, List.append_eq_append_iff] at bytes
      rcases bytes with ⟨middle, rfl, tail⟩ | ⟨middle, bytes, tail⟩
      · rw [valid_encode_append_iff scalar]
        exact ih (fun c member => scalars c (List.mem_cons_of_mem _ member)) tail
      · cases middle with
        | nil =>
            rw [List.append_nil] at bytes
            rw [← bytes, ← encodeAll_singleton]
            exact valid_encodeAll (List.forall_mem_singleton.mpr scalar)
        | cons head middle =>
            -- the special character would be among the bytes of the code point
            obtain ⟨rfl, _⟩ := List.cons.inj tail
            obtain ⟨first, extra, whole, _, continues⟩ := Utf8Proc.exists_encode_cons scalar
            cases front with
            | nil => exact Valid.nil
            | cons byte front =>
                rw [whole, List.cons_append, List.cons.injEq] at bytes
                have inside : wildcard ∈ extra := by
                  rw [bytes.2]
                  exact List.mem_append_right _ List.mem_cons_self
                have absurd_byte := continues wildcard inside
                rw [isCharacter_of_isWildcard special] at absurd_byte
                cases absurd_byte

/-- The last byte of a text, increased, ends a text unless it is the greatest of its kind. -/
theorem increaseLast_spec (valid : Valid (front ++ [last])) :
    last < last + 1 ∧
      (Valid (front ++ [last + 1]) ↔ last ≠ 0x7F ∧ last ≠ 0xBF) := by
  obtain ⟨codepoints, codepoint, scalars, scalar, bytes⟩ :=
    valid.exists_last (List.append_ne_nil_of_right_ne_nil _ (List.cons_ne_nil _ _))
  obtain ⟨stem, value, encoded, small, alone, next⟩ := encode_last scalar
  rw [encoded, ← List.append_assoc, List.append_singleton_inj] at bytes
  obtain ⟨rfl, rfl⟩ := bytes
  have increased : UInt8.ofNat value + 1 = UInt8.ofNat (value + 1) := by
    rw [← UInt8.toNat_inj, UInt8.toNat_add, UInt8.toNat_ofNat', UInt8.toNat_ofNat']
    simp
  have is : ∀ other < 256, UInt8.ofNat value = UInt8.ofNat other ↔ value = other := by
    intro other bound
    rw [← UInt8.toNat_inj, Utf8Proc.toNat_ofNat_of_lt (by omega), Utf8Proc.toNat_ofNat_of_lt bound]
  constructor
  · rw [increased, UInt8.lt_iff_toNat_lt, Utf8Proc.toNat_ofNat_of_lt (by omega),
      Utf8Proc.toNat_ofNat_of_lt (by omega)]
    exact Nat.lt_succ_self _
  · rw [increased, List.append_assoc, valid_encodeAll_append_iff scalars]
    constructor
    · intro text
      constructor
      · intro ascii
        have least := (is 0x7F (by decide)).mp ascii
        subst least
        rw [alone rfl] at text
        obtain ⟨type, ran⟩ := (Utf8Proc.analyze_isOk_iff _).mpr text
        cases ran
      · intro extra
        have greatest := (is 0xBF (by decide)).mp extra
        subst greatest
        obtain ⟨_, other, _, scalar', whole⟩ :=
          text.exists_last (List.append_ne_nil_of_right_ne_nil _ (List.cons_ne_nil _ _))
        obtain ⟨_, final, encoded', small', _⟩ := encode_last scalar'
        rw [encoded', ← List.append_assoc, List.append_singleton_inj, ← UInt8.toNat_inj,
          Utf8Proc.toNat_ofNat_of_lt (by omega), Utf8Proc.toNat_ofNat_of_lt (by omega)] at whole
        omega
    · rintro ⟨ascii, extra⟩
      obtain ⟨scalar', encoded'⟩ := next (fun same => ascii ((is 0x7F (by decide)).mpr same))
        (fun same => extra ((is 0xBF (by decide)).mpr same))
      rw [← encoded', ← encodeAll_singleton]
      exact valid_encodeAll (List.forall_mem_singleton.mpr scalar')

/-! ## LIKE filters -/

/-- The byte before the first special character is not the greatest of its kind. -/
def IncreasesToText (pattern : List UInt8) : Prop :=
  ∀ front last wildcard rest, pattern = front ++ last :: wildcard :: rest →
    (∀ c ∈ front ++ [last], isWildcard c = false) → isWildcard wildcard = true →
      last ≠ 0x7F ∧ last ≠ 0xBF

/-- The bytes before the first special character are determined. -/
theorem plain_append_inj {front' rest' : List UInt8} {wildcard' : UInt8}
    (plain : ∀ c ∈ front, isWildcard c = false) (plain' : ∀ c ∈ front', isWildcard c = false)
    (special : isWildcard wildcard = true) (special' : isWildcard wildcard' = true)
    (same : front ++ wildcard :: rest = front' ++ wildcard' :: rest') : front = front' := by
  induction front generalizing front' with
  | nil =>
      cases front' with
      | nil => rfl
      | cons c others =>
          have head := (List.cons.inj same).1
          rw [head, plain' c List.mem_cons_self] at special
          cases special
  | cons c front ih =>
      cases front' with
      | nil =>
          have head := (List.cons.inj same).1
          rw [← head, plain c List.mem_cons_self] at special'
          cases special'
      | cons c' others =>
          obtain ⟨rfl, tail⟩ := List.cons.inj same
          rw [ih (fun d member => plain d (List.mem_cons_of_mem _ member))
            (fun d member => plain' d (List.mem_cons_of_mem _ member)) tail]

theorem likeOperator_plain_iff (plain : ∀ c ∈ pattern, isWildcard c = false) (string : List UInt8) :
    likeOperator pattern string = true ↔ string = pattern := by
  have whole := likeOperator_append_iff plain [] string
  rw [List.append_nil] at whole
  rw [whole]
  constructor
  · rintro ⟨tail, rfl, ends⟩
    rw [likeOperator, List.isEmpty_iff] at ends
    rw [ends, List.append_nil]
  · rintro rfl
    exact ⟨[], (List.append_nil _).symm, by rw [likeOperator]; rfl⟩

variable (before) in
/-- The bounds of a fixed beginning are pushed when the greater one is a text. -/
theorem likeBounds_iff (bound : columnIds[binding]? = some column)
    (valid : Valid (front ++ last :: wildcard :: rest))
    (plain : ∀ c ∈ front ++ [last], isWildcard c = false) (special : isWildcard wildcard = true)
    (cut : fixedPrefix (front ++ last :: wildcard :: rest) = (front ++ [last], false)) :
    (∃ result after, tryPushdownLikeFilter before columnIds
        (.boundFunction "~~" (.boundColumnRef binding)
          (.boundConstant (some (front ++ last :: wildcard :: rest)))) = .ok (result, after) ∧
      PushesBounds before column
        (fun string => likeOperator (front ++ last :: wildcard :: rest) string = true)
        result after) ↔ last ≠ 0x7F ∧ last ≠ 0xBF := by
  have columnIndex : columnAt columnIds binding = .ok column := by
    rw [columnAt, bound]
    rfl
  have split : front ++ last :: wildcard :: rest = (front ++ [last]) ++ wildcard :: rest := by
    rw [List.append_assoc]
    rfl
  have head : (front ++ last :: wildcard :: rest).head?.any isWildcard = false := by
    cases front with
    | nil => exact plain last List.mem_cons_self
    | cons c front => exact plain c List.mem_cons_self
  have text : Valid (front ++ [last]) := valid_of_append_wildcard special (split ▸ valid)
  obtain ⟨less, increases⟩ := increaseLast_spec text
  rw [← increases, tryPushdownLikeFilter, if_neg (not_not_intro rfl)]
  dsimp only [bind, Except.bind, pure, Except.pure]
  rw [columnIndex]
  dsimp only
  rw [head, if_neg Bool.false_ne_true, cut, if_neg Bool.false_ne_true, stringValue_of_valid text,
    increaseLast_append]
  dsimp only
  by_cases upper : Valid (front ++ [last + 1])
  · rw [stringValue_of_valid upper]
    refine iff_of_true ⟨_, _, rfl, ?_, fun full => (by cases full), ?_⟩ upper
    · intro string _ likes accepted
      rw [split, likeOperator_append_iff plain] at likes
      obtain ⟨tail, equal, _⟩ := likes
      have between := between_of_prefix less ⟨tail, equal.symm⟩
      rw [TableFilterSet.accepts_pushFilter_iff, TableFilterSet.accepts_pushFilter_iff,
        eval_lower_iff, eval_upper_iff]
      exact ⟨⟨accepted, between.1⟩, between.2⟩
    · intro other differs
      rw [TableFilterSet.pushFilter_other _ _ _ differs,
        TableFilterSet.pushFilter_other _ _ _ differs]
  · obtain ⟨message, failed⟩ := exists_error_of_not_valid upper
    rw [failed]
    refine iff_of_false ?_ upper
    rintro ⟨_, _, impossible, _⟩
    cases impossible

/-- A LIKE filter is pushed correctly when its fixed beginning increases to a text. -/
theorem tryPushdownLikeFilter_iff (bound : columnIds[binding]? = some column)
    (valid : Valid pattern) :
    (∃ result after, tryPushdownLikeFilter before columnIds
        (.boundFunction "~~" (.boundColumnRef binding) (.boundConstant (some pattern))) =
          .ok (result, after) ∧
      PushesBounds before column (fun string => likeOperator pattern string = true) result after) ↔
      IncreasesToText pattern := by
  obtain ⟨plain, whole, special⟩ := fixedPrefix_spec pattern
  cases cut : (fixedPrefix pattern).2 with
  | true =>
      have fixed := whole cut
      rw [fixed] at plain
      have vacuous : IncreasesToText pattern := by
        rintro front last wildcard rest rfl _ kind
        have member : wildcard ∈ front ++ last :: wildcard :: rest := by simp
        rw [plain wildcard member] at kind
        cases kind
      refine iff_of_true ?_ vacuous
      have columnIndex : columnAt columnIds binding = .ok column := by
        rw [columnAt, bound]
        rfl
      have head : pattern.head?.any isWildcard = false := by
        cases pattern with
        | nil => rfl
        | cons c rest => exact plain c List.mem_cons_self
      rw [tryPushdownLikeFilter, if_neg (not_not_intro rfl)]
      dsimp only [bind, Except.bind, pure, Except.pure]
      rw [columnIndex]
      dsimp only
      rw [head, if_neg Bool.false_ne_true, cut, if_pos rfl, fixed, stringValue_of_valid valid]
      have accepts : ∀ string, (before.pushFilter column (.constantComparison .compareEqual
          ⟨.varchar, .varchar pattern⟩)).Accepts column string ↔
          before.Accepts column string ∧ likeOperator pattern string = true := by
        intro string
        rw [TableFilterSet.accepts_pushFilter_iff, eval_equal_iff, likeOperator_plain_iff plain]
      refine ⟨_, _, rfl, ?_, fun _ string _ => accepts string, ?_⟩
      · exact fun string _ likes accepted => (accepts string).mpr ⟨accepted, likes⟩
      · intro other differs
        exact TableFilterSet.pushFilter_other _ _ _ differs
  | false =>
      obtain ⟨wildcard, rest, kind, equal⟩ := special cut
      rcases (fixedPrefix pattern).1.eq_nil_or_concat with empty | ⟨front, last, fixed⟩
      · rw [empty, List.nil_append] at equal
        subst equal
        have vacuous : IncreasesToText (wildcard :: rest) := by
          intro front last _ _ same plain' _
          cases front with
          | nil =>
              have first := (List.cons.inj same).1
              rw [first, plain' last List.mem_cons_self] at kind
              cases kind
          | cons c front =>
              have first := (List.cons.inj same).1
              rw [first, plain' c List.mem_cons_self] at kind
              cases kind
        refine iff_of_true ?_ vacuous
        have columnIndex : columnAt columnIds binding = .ok column := by
          rw [columnAt, bound]
          rfl
        rw [tryPushdownLikeFilter, if_neg (not_not_intro rfl)]
        dsimp only [bind, Except.bind, pure, Except.pure]
        rw [columnIndex]
        dsimp only
        rw [List.head?_cons, Option.any_some, kind, if_pos rfl]
        exact ⟨_, _, rfl, PushesBounds.refl _ _ _ (fun full => by cases full)⟩
      · rw [List.concat_eq_append] at fixed
        rw [fixed] at plain
        have split : pattern = front ++ last :: wildcard :: rest := by
          rw [equal, fixed, List.append_assoc]
          rfl
        have pair : fixedPrefix pattern = (front ++ [last], false) := Prod.ext fixed cut
        rw [split] at valid pair ⊢
        rw [likeBounds_iff before bound valid plain kind pair]
        constructor
        · intro regular front' last' wildcard' rest' same plain' kind'
          have joined : (front ++ [last]) ++ wildcard :: rest =
              (front' ++ [last']) ++ wildcard' :: rest' := by
            rw [List.append_assoc, List.append_assoc]
            exact same
          have same_last := plain_append_inj plain plain' kind kind' joined
          rw [List.append_singleton_inj] at same_last
          rw [← same_last.2]
          exact regular
        · exact fun regular => regular front last wildcard rest rfl plain kind

/--
The bounds of a prefix are always right; those of a LIKE pattern are so exactly when the byte
before its first special character is not the greatest of its kind.
-/
theorem pushdown_exact_iff (before : TableFilterSet) (columnIds : List Nat) (binding column : Nat)
    (bound : columnIds[binding]? = some column) :
    (∀ prefixString, prefixString ≠ [] → Valid prefixString →
      ∃ result after, tryPushdownPrefixFilter before columnIds
          (.boundFunction "prefix" (.boundColumnRef binding)
            (.boundConstant (some prefixString))) = .ok (result, after) ∧
        PushesBounds before column (prefixString <+: ·) result after) ∧
      ∀ pattern, Valid pattern →
        ((∃ result after, tryPushdownLikeFilter before columnIds
            (.boundFunction "~~" (.boundColumnRef binding)
              (.boundConstant (some pattern))) = .ok (result, after) ∧
          PushesBounds before column (fun string => likeOperator pattern string = true)
            result after) ↔ IncreasesToText pattern) :=
  ⟨fun _ ne valid => tryPushdownPrefixFilter_spec bound ne valid,
    fun _ valid => tryPushdownLikeFilter_iff bound valid⟩

/-- A prefix of one code point of two bytes. -/
theorem pushdown_exact_iff_of_column :
    (∃ result after, tryPushdownPrefixFilter ⟨fun _ => none⟩ [4]
        (.boundFunction "prefix" (.boundColumnRef 0) (.boundConstant (some [0xC3, 0xBF]))) =
          .ok (result, after) ∧
      PushesBounds ⟨fun _ => none⟩ 4 ([0xC3, 0xBF] <+: ·) result after) :=
  (pushdown_exact_iff ⟨fun _ => none⟩ [4] 0 4 rfl).1 [0xC3, 0xBF] (List.cons_ne_nil _ _)
    ⟨[0xFF], by decide, rfl⟩

/-- The last byte before a special character may be the greatest that continues a code point. -/
theorem like_pushdown_fails :
    ¬ ∀ pattern, Valid pattern → ∃ result after,
      tryPushdownLikeFilter ⟨fun _ => none⟩ [4]
          (.boundFunction "~~" (.boundColumnRef 0) (.boundConstant (some pattern))) =
            .ok (result, after) ∧
        PushesBounds ⟨fun _ => none⟩ 4 (fun string => likeOperator pattern string = true)
          result after := by
  intro claimed
  obtain ⟨result, after, ran, _⟩ := claimed [0xC3, 0xBF, 0x5F] ⟨[0xFF, 0x5F], by decide, rfl⟩
  cases ran

end FilterCombiner

end StatsRecommender
