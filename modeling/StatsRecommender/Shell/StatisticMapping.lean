import Mathlib.Data.List.Induction
import Mathlib.Data.List.TakeWhile
import StatsRecommender.Statistics.StatisticsSet

/-!
# Loading a statistic mapping

`LoadStatisticMapping`: a header and rows of four fields are read from a file, line by line, and
replace the mapping in force once all of them were accepted.
-/

namespace StatsRecommender

variable {separator : UInt8} {text line field input : List UInt8} {filename : String}

namespace Shell

/-! ## Texts that are cut at a byte -/

/-- What stands in front of the first separator. -/
def upTo (separator : UInt8) (text : List UInt8) : List UInt8 :=
  text.takeWhile fun byte => byte != separator

/-- What stands behind the first separator. -/
def behind (separator : UInt8) (text : List UInt8) : List UInt8 :=
  (text.dropWhile fun byte => byte != separator).drop 1

def newline : UInt8 := 10

def carriageReturn : UInt8 := 13

def comma : UInt8 := 44

/-- `std::getline`: a line and what is left of the input; none at its end. -/
def getline (input : List UInt8) : Option (List UInt8 × List UInt8) :=
  if input = [] then none else some (upTo newline input, behind newline input)

theorem upTo_notMem (separator : UInt8) (text : List UInt8) :
    separator ∉ upTo separator text := by
  intro member
  have passed := List.mem_takeWhile_imp member
  exact bne_iff_ne.mp passed rfl

/-- A text with a separator is cut there. -/
theorem upTo_append_behind (member : separator ∈ text) :
    text = upTo separator text ++ separator :: behind separator text := by
  induction text with
  | nil => exact absurd member List.not_mem_nil
  | cons first rest ih =>
      by_cases here : first = separator
      · simp [upTo, behind, here]
      · have later := ih ((List.mem_cons.mp member).resolve_left fun same => here same.symm)
        have passed : (first != separator) = true := bne_iff_ne.mpr here
        simp only [upTo, behind, List.takeWhile_cons, List.dropWhile_cons, passed, if_true]
        exact congrArg (first :: ·) later

/-- The first separator is the one behind a text without any. -/
theorem cut_append {before : List UInt8} (without : separator ∉ before) (after : List UInt8) :
    upTo separator (before ++ separator :: after) = before ∧
      behind separator (before ++ separator :: after) = after := by
  have passed : ∀ byte ∈ before, (byte != separator) = true := fun byte member =>
    bne_iff_ne.mpr fun same => without (same ▸ member)
  rw [upTo, behind, List.takeWhile_append_of_pos passed, List.dropWhile_append_of_pos passed]
  simp

/-- Without a separator the text is not cut. -/
theorem cut_of_notMem (without : separator ∉ text) :
    upTo separator text = text ∧ behind separator text = [] := by
  have passed : ∀ byte ∈ text, (byte != separator) = true := fun byte member =>
    bne_iff_ne.mpr fun same => without (same ▸ member)
  constructor
  · exact List.takeWhile_eq_self_iff.mpr passed
  · rw [behind, List.dropWhile_eq_nil_iff.mpr passed, List.drop_nil]

theorem behind_length (separator : UInt8) (nonempty : text ≠ []) :
    (behind separator text).length < text.length := by
  by_cases member : separator ∈ text
  · have length := congrArg List.length (upTo_append_behind member)
    rw [List.length_append, List.length_cons] at length
    omega
  · rw [(cut_of_notMem member).2]
    exact List.length_pos_of_ne_nil nonempty

/-- What the repeated calls of `std::getline` return. -/
def lines (input : List UInt8) : List (List UInt8) :=
  match _ : getline input with
  | none => []
  | some (line, rest) => line :: lines rest
termination_by input.length
decreasing_by
  rename_i cut
  rw [getline] at cut
  split at cut
  · cases cut
  · rename_i nonempty
    cases cut
    exact behind_length newline nonempty

/-! ## Fields and numbers -/

/-- `if (!line.empty() && line.back() == '\r') line.pop_back();` -/
def popCarriageReturn (line : List UInt8) : List UInt8 :=
  if line.getLast? = some carriageReturn then line.dropLast else line

/-- A field with the separator behind it, and what follows. -/
def readField (rest : List UInt8) : Option (List UInt8 × List UInt8) :=
  if comma ∈ rest then some (upTo comma rest, behind comma rest) else none

/-- The loop over the four fields; there is no separator behind the last. -/
def readFields (line : List UInt8) :
    Option (List UInt8 × List UInt8 × List UInt8 × List UInt8) := do
  let (table, rest) ← readField line
  let (rowgroup, rest) ← readField rest
  let (column, rest) ← readField rest
  if comma ∈ rest then none else some (table, rowgroup, column, rest)

/-- `isspace` of the "C" locale. -/
def isspace (byte : UInt8) : Bool := byte == 32 || 9 ≤ byte && byte ≤ 13

/-- `isdigit`. -/
def isdigit (byte : UInt8) : Bool := 48 ≤ byte && byte ≤ 57

/-- The number that digits denote. -/
def decimal (digits : List UInt8) : Nat :=
  digits.foldl (fun value digit => 10 * value + (digit.toNat - 48)) 0

/-- The exceptions of `std::stoi`, and `std::invalid_argument` of the caller. -/
inductive ConversionError where
  | invalidArgument
  | outOfRange
  deriving DecidableEq, Repr

/-- An optional sign, and what follows it. -/
def readSign : List UInt8 → Bool × List UInt8
  | 45 :: rest => (true, rest)
  | 43 :: rest => (false, rest)
  | text => (false, text)

/-- `std::stoi`: the number and how many bytes were parsed. -/
def stoi (text : List UInt8) : Except ConversionError (Int × Nat) :=
  let (negative, unsigned) := readSign (text.dropWhile isspace)
  let digits := unsigned.takeWhile isdigit
  let value : Int := if negative then -(decimal digits : Int) else decimal digits
  if digits = [] then .error .invalidArgument
  else if value < -2 ^ 31 ∨ 2 ^ 31 ≤ value then .error .outOfRange
  else .ok (value, text.length - (unsigned.length - digits.length))

/-- A field that is parsed as a whole. -/
def readInt (field : List UInt8) : Except ConversionError Int := do
  let (value, parsed) ← stoi field
  if parsed ≠ field.length then throw .invalidArgument else pure value

/-! ## The mapping -/

/-- A row: table, row group, column and statistic. -/
abbrev Entry := (List UInt8 × Int × Int) × Int

/-- `StatisticsSet::mapping`: row groups and columns are of the type `unsigned int`. -/
abbrev Mapping := List UInt8 × Nat × Nat → Option StatisticType

/-- `static_cast<STATISTIC_TYPE>`, for the statistics that are accepted. -/
def statisticType (statistic : Int) : StatisticType :=
  match statistic with
  | 0 => .none
  | 1 => .minMax
  | 2 => .clusterSmall
  | 3 => .clusterMedium
  | 4 => .clusterLarge
  | 5 => .bloomSmall
  | 6 => .bloomMedium
  | 7 => .bloomLarge
  | 8 => .dictionary
  | 9 => .bloomTiny
  | _ => .error

/-- The conversion from `int` to `unsigned int`. -/
def unsignedInt (value : Int) : Nat := (value % 2 ^ 32).toNat

/-- `std::make_tuple(fields[0], rowgroup, column)` as a key of the mapping. -/
def Entry.key (entry : Entry) : List UInt8 × Nat × Nat :=
  (entry.1.1, unsignedInt entry.1.2.1, unsignedInt entry.1.2.2)

/-- `mapping[key] = statistic`. -/
def Mapping.insert (mapping : Mapping) (entry : Entry) : Mapping :=
  Function.update mapping (Entry.key entry) (some (statisticType entry.2))

/-- The block with the conversions. -/
def readNumbers (rowgroup column statistic : List UInt8) :
    Except ConversionError ((Int × Int) × Int) := do
  let rowgroup ← readInt rowgroup
  let column ← readInt column
  let statistic ← readInt statistic
  if statistic < 0 ∨ statistic > 9 then throw .invalidArgument
  else pure ((rowgroup, column), statistic)

/-- The body of the loop over the rows; the message is printed with the number of the line. -/
def readRow (line : List UInt8) : Except String Entry :=
  match readFields line with
  | none => .error "malformed statistic mapping"
  | some (table, rowgroup, column, statistic) =>
      if table = [] then .error "malformed statistic mapping"
      else
        match readNumbers rowgroup column statistic with
        | .error _ => .error "invalid numeric value in statistic mapping"
        | .ok ((rowgroup, column), statistic) => .ok ((table, rowgroup, column), statistic)

/-- The loop over the rows. -/
def readRows (filename : String) :
    Nat → List (List UInt8) → Mapping → Except String Mapping
  | _, [], mapping => .ok mapping
  | number, line :: rest, mapping =>
      match readRow (popCarriageReturn line) with
      | .error message =>
          .error ("Error: " ++ message ++ " at " ++ filename ++ ":" ++ toString (number + 1) ++ "\n")
      | .ok entry => readRows filename (number + 1) rest (mapping.insert entry)

/-- `"table_name,rowgroup,col,statistic"`. -/
def header : List UInt8 :=
  [116, 97, 98, 108, 101, 95, 110, 97, 109, 101, 44, 114, 111, 119, 103, 114, 111, 117, 112, 44,
    99, 111, 108, 44, 115, 116, 97, 116, 105, 115, 116, 105, 99]

/-- The mapping that a file holds, or what is printed. -/
def readMapping (filename : String) (file : Option (List UInt8)) : Except String Mapping :=
  match file with
  | none => .error ("Error: cannot open statistic mapping file '" ++ filename ++ "'\n")
  | some input =>
      match lines input with
      | [] => .error ("Error: statistic mapping file '" ++ filename ++ "' is empty\n")
      | first :: rows =>
          if popCarriageReturn first ≠ header then
            .error ("Error: invalid header in statistic mapping file '" ++ filename ++ "'\n")
          else readRows filename 1 rows fun _ => none

/-- `LoadStatisticMapping`: its result, what it prints, and the mapping in force behind it. -/
def loadStatisticMapping (filename : String) (file : Option (List UInt8)) (inForce : Mapping) :
    Bool × String × Mapping :=
  match readMapping filename file with
  | .error message => (false, message, inForce)
  | .ok mapping => (true, "", mapping)

/-! ## Lines and fields -/

/-- A line in front of a newline is the next line. -/
theorem lines_append (without : newline ∉ line) (rest : List UInt8) :
    lines (line ++ newline :: rest) = line :: lines rest := by
  obtain ⟨before, after⟩ := cut_append without rest
  have cut : getline (line ++ newline :: rest) = some (line, rest) := by
    rw [getline, if_neg (by simp), before, after]
  rw [lines.eq_def]
  split
  · rename_i ended
    rw [cut] at ended
    cases ended
  · rename_i found
    rw [cut] at found
    cases found
    rfl

theorem lines_nil : lines [] = [] := by
  rw [lines.eq_def]
  rfl

/-- A last line needs no newline. -/
theorem lines_last (without : newline ∉ line) (nonempty : line ≠ []) : lines line = [line] := by
  obtain ⟨before, after⟩ := cut_of_notMem without
  have cut : getline line = some (line, []) := by
    rw [getline, if_neg nonempty, before, after]
  rw [lines.eq_def]
  split
  · rename_i ended
    rw [cut] at ended
    cases ended
  · rename_i found
    rw [cut] at found
    cases found
    rw [lines_nil]

/-- The parts of a text between newlines, without an empty part at the end. -/
def parts (input : List UInt8) : List (List UInt8) :=
  if (input.splitOn newline).getLast? = some [] then (input.splitOn newline).dropLast
  else input.splitOn newline

theorem lines_eq_parts (input : List UInt8) : lines input = parts input := by
  induction long : input.length using Nat.strong_induction_on generalizing input with
  | _ length ih =>
      by_cases member : newline ∈ input
      · have cut := upTo_append_behind member
        have nonempty : input ≠ [] := List.ne_nil_of_mem member
        have without := upTo_notMem newline input
        have shorter := behind_length newline nonempty
        have rest := ih _ (long ▸ shorter) (behind newline input) rfl
        rw [cut, lines_append without, rest, parts, parts,
          List.splitOn_append_cons_self_of_not_mem without]
        obtain ⟨part, parts, split⟩ :=
          List.exists_cons_of_ne_nil (List.splitOn_ne_nil newline (behind newline input))
        rw [split, List.getLast?_cons_cons, List.dropLast_cons_cons]
        split_ifs
        · rfl
        · rfl
      · rw [parts, List.splitOn_eq_singleton member]
        by_cases nonempty : input = []
        · simp [nonempty, lines_nil]
        · simp [nonempty, lines_last member nonempty]

/-- No part holds the separator. -/
theorem notMem_of_splitOn {part : List UInt8} (member : part ∈ text.splitOn separator) :
    separator ∉ part := by
  induction long : text.length using Nat.strong_induction_on generalizing text with
  | _ length ih =>
      by_cases inside : separator ∈ text
      · have without := upTo_notMem separator text
        have shorter := behind_length separator (List.ne_nil_of_mem inside)
        rw [upTo_append_behind inside, List.splitOn_append_cons_self_of_not_mem without] at member
        rcases List.mem_cons.mp member with rfl | later
        · exact without
        · exact ih _ (long ▸ shorter) later rfl
      · rw [List.splitOn_eq_singleton inside] at member
        rw [List.mem_singleton.mp member]
        exact inside

theorem readField_eq_some {rest after : List UInt8} :
    readField rest = some (field, after) ↔ rest = field ++ comma :: after ∧ comma ∉ field := by
  rw [readField]
  constructor
  · intro read
    split at read
    · rename_i member
      cases read
      exact ⟨upTo_append_behind member, upTo_notMem comma rest⟩
    · cases read
  · rintro ⟨rfl, without⟩
    obtain ⟨before, behind⟩ := cut_append without after
    rw [if_pos (by simp), before, behind]

/-- The four fields are what a line holds between its commas. -/
theorem readFields_eq_some {table rowgroup column statistic : List UInt8} :
    readFields line = some (table, rowgroup, column, statistic) ↔
      line.splitOn comma = [table, rowgroup, column, statistic] := by
  constructor
  · intro read
    rw [readFields] at read
    obtain ⟨⟨first, rest⟩, found, read⟩ := Option.bind_eq_some_iff.mp read
    obtain ⟨⟨second, rest'⟩, found', read⟩ := Option.bind_eq_some_iff.mp read
    obtain ⟨⟨third, rest''⟩, found'', read⟩ := Option.bind_eq_some_iff.mp read
    dsimp only at found' found'' read
    split at read
    · cases read
    · rename_i without
      cases read
      obtain ⟨rfl, without'⟩ := readField_eq_some.mp found
      obtain ⟨rfl, without''⟩ := readField_eq_some.mp found'
      obtain ⟨rfl, without'''⟩ := readField_eq_some.mp found''
      rw [List.splitOn_append_cons_self_of_not_mem without',
        List.splitOn_append_cons_self_of_not_mem without'',
        List.splitOn_append_cons_self_of_not_mem without''', List.splitOn_eq_singleton without]
  · intro split
    have joined : [comma].intercalate (line.splitOn comma) = line := List.intercalate_splitOn comma
    have without : ∀ part ∈ [table, rowgroup, column, statistic], comma ∉ part := by
      intro part member
      rw [← split] at member
      exact notMem_of_splitOn member
    rw [split] at joined
    simp only [List.intercalate_cons_cons, List.intercalate_singleton, List.append_assoc,
      List.singleton_append] at joined
    have first := readField_eq_some.mpr ⟨joined.symm, without table (by simp)⟩
    have second : readField (rowgroup ++ comma :: (column ++ comma :: statistic)) =
        some (rowgroup, column ++ comma :: statistic) :=
      readField_eq_some.mpr ⟨rfl, without rowgroup (by simp)⟩
    have third : readField (column ++ comma :: statistic) = some (column, statistic) :=
      readField_eq_some.mpr ⟨rfl, without column (by simp)⟩
    have last : comma ∉ statistic := without statistic (by simp)
    rw [readFields]
    simp only [first, second, third, bind, Option.bind, if_neg last]

/-! ## Numbers -/

/-- White space, a sign and digits, with a value of the type `int`. -/
def Denotes (field : List UInt8) (value : Int) : Prop :=
  ∃ space sign digits : List UInt8, field = space ++ sign ++ digits ∧
    (∀ byte ∈ space, isspace byte) ∧ (sign = [] ∨ sign = [43] ∨ sign = [45]) ∧ digits ≠ [] ∧
    (∀ byte ∈ digits, isdigit byte) ∧
    value = (if sign = [45] then -(decimal digits : Int) else decimal digits) ∧
    -2 ^ 31 ≤ value ∧ value < 2 ^ 31

theorem isdigit_not_isspace {byte : UInt8} (digit : isdigit byte) : isspace byte = false := by
  simp only [isdigit, isspace, Bool.and_eq_true, decide_eq_true_eq, Bool.or_eq_false_iff,
    beq_eq_false_iff_ne, Bool.and_eq_false_iff, decide_eq_false_iff_not] at digit ⊢
  obtain ⟨low, high⟩ := digit
  rw [UInt8.le_iff_toNat_le] at low high
  constructor
  · rintro rfl
    revert low
    decide
  · right
    rw [UInt8.le_iff_toNat_le]
    simp only [UInt8.reduceToNat] at low ⊢
    omega

/-- The sign in front of digits is read off. -/
theorem readSign_digits {sign digits : List UInt8} (signed : sign = [] ∨ sign = [43] ∨ sign = [45])
    (digit : ∀ byte ∈ digits, isdigit byte) :
    readSign (sign ++ digits) = (decide (sign = [45]), digits) := by
  rcases signed with rfl | rfl | rfl
  · cases digits with
    | nil => rfl
    | cons first rest =>
        have plain := digit first List.mem_cons_self
        rw [List.nil_append, readSign]
        · rfl
        · rintro other ⟨rfl, -⟩
          revert plain
          decide
        · rintro other ⟨rfl, -⟩
          revert plain
          decide
  · rfl
  · rfl

/-- Whatever is read off is an optional sign. -/
theorem readSign_spec (text : List UInt8) :
    ∃ sign, text = sign ++ (readSign text).2 ∧ (sign = [] ∨ sign = [43] ∨ sign = [45]) ∧
      (readSign text).1 = decide (sign = [45]) := by
  rw [readSign.eq_def]
  split
  · exact ⟨[45], rfl, .inr (.inr rfl), rfl⟩
  · exact ⟨[43], rfl, .inr (.inl rfl), rfl⟩
  · exact ⟨[], rfl, .inl rfl, rfl⟩

/-- `std::stoi` parses a field as a whole where it denotes a number. -/
theorem readInt_eq_ok {value : Int} : readInt field = .ok value ↔ Denotes field value := by
  constructor
  · intro read
    rw [readInt, stoi] at read
    obtain ⟨sign, stripped, signed, negative⟩ := readSign_spec (field.dropWhile isspace)
    generalize readSign (field.dropWhile isspace) = pair at read stripped negative
    obtain ⟨minus, unsigned⟩ := pair
    dsimp only at read stripped negative
    by_cases no_digits : unsigned.takeWhile isdigit = []
    · rw [if_pos no_digits] at read
      cases read
    · rw [if_neg no_digits] at read
      generalize valued : (if minus = true then -(decimal (unsigned.takeWhile isdigit) : Int)
        else decimal (unsigned.takeWhile isdigit)) = number at read
      by_cases outside : number < -2 ^ 31 ∨ 2 ^ 31 ≤ number
      · rw [if_pos outside] at read
        cases read
      · rw [if_neg outside] at read
        dsimp only [bind, Except.bind] at read
        split at read
        · cases read
        · rename_i whole
          cases read
          have prefixed : (unsigned.takeWhile isdigit).length ≤ unsigned.length :=
            (List.takeWhile_prefix isdigit).length_le
          have shorter : unsigned.length ≤ field.length := by
            have stripped_length := congrArg List.length stripped
            rw [List.length_append] at stripped_length
            have dropped := (List.dropWhile_suffix isspace : field.dropWhile isspace <:+ field).length_le
            omega
          have all : unsigned.takeWhile isdigit = unsigned :=
            (List.takeWhile_prefix isdigit).eq_of_length (by omega)
          obtain ⟨low, high⟩ := not_or.mp outside
          refine ⟨field.takeWhile isspace, sign, unsigned, ?_, fun byte => List.mem_takeWhile_imp,
            signed, all ▸ no_digits, List.takeWhile_eq_self_iff.mp all, ?_, not_lt.mp low,
            not_le.mp high⟩
          · rw [List.append_assoc, ← stripped, List.takeWhile_append_dropWhile]
          · rw [← valued, negative, all]
            simp
  · rintro ⟨space, sign, digits, rfl, spaces, signed, nonempty, digit, rfl, low, high⟩
    have stripped : (space ++ sign ++ digits).dropWhile isspace = sign ++ digits := by
      rw [List.append_assoc, List.dropWhile_append_of_pos spaces]
      rcases signed with rfl | rfl | rfl
      · obtain ⟨first, rest, rfl⟩ := List.exists_cons_of_ne_nil nonempty
        rw [List.nil_append, List.dropWhile_cons_of_neg]
        rw [isdigit_not_isspace (digit first List.mem_cons_self)]
        exact Bool.false_ne_true
      · rfl
      · rfl
    have all : digits.takeWhile isdigit = digits := List.takeWhile_eq_self_iff.mpr digit
    rw [readInt, stoi, stripped, readSign_digits signed digit]
    dsimp only
    rw [all, if_neg nonempty]
    simp only [decide_eq_true_eq]
    rw [if_neg (not_or.mpr ⟨not_lt.mpr low, not_le.mpr high⟩)]
    dsimp only [bind, Except.bind]
    rw [Nat.sub_self, Nat.sub_zero, if_neg (not_not.mpr rfl)]
    rfl

/-! ## Rows -/

/-- The fields of a row and what they denote. -/
def Row (line : List UInt8) (entry : Entry) : Prop :=
  ∃ rowgroup column statistic, line.splitOn comma = [entry.1.1, rowgroup, column, statistic] ∧
    entry.1.1 ≠ [] ∧ Denotes rowgroup entry.1.2.1 ∧ Denotes column entry.1.2.2 ∧
    Denotes statistic entry.2 ∧ 0 ≤ entry.2 ∧ entry.2 ≤ 9

theorem readNumbers_eq_ok {rowgroup column statistic : List UInt8} {numbers : (Int × Int) × Int} :
    readNumbers rowgroup column statistic = .ok numbers ↔ Denotes rowgroup numbers.1.1 ∧
      Denotes column numbers.1.2 ∧ Denotes statistic numbers.2 ∧ 0 ≤ numbers.2 ∧ numbers.2 ≤ 9 := by
  rw [readNumbers]
  constructor
  · intro read
    cases first : readInt rowgroup with
    | error _ =>
        rw [first] at read
        cases read
    | ok rowgroup' =>
        cases second : readInt column with
        | error _ =>
            rw [first, second] at read
            cases read
        | ok column' =>
            cases third : readInt statistic with
            | error _ =>
                rw [first, second, third] at read
                cases read
            | ok statistic' =>
                rw [first, second, third] at read
                dsimp only [bind, Except.bind] at read
                split at read
                · cases read
                · rename_i inRange
                  cases read
                  obtain ⟨low, high⟩ := not_or.mp inRange
                  exact ⟨readInt_eq_ok.mp first, readInt_eq_ok.mp second, readInt_eq_ok.mp third,
                    not_lt.mp low, not_lt.mp high⟩
  · rintro ⟨first, second, third, low, high⟩
    rw [readInt_eq_ok.mpr first, readInt_eq_ok.mpr second, readInt_eq_ok.mpr third]
    dsimp only [bind, Except.bind]
    rw [if_neg (not_or.mpr ⟨not_lt.mpr low, not_lt.mpr high⟩)]
    rfl

/-- A row is accepted where it has such fields. -/
theorem readRow_eq_ok {entry : Entry} : readRow line = .ok entry ↔ Row line entry := by
  constructor
  · intro read
    rw [readRow] at read
    split at read
    · cases read
    · rename_i table rowgroup column statistic fields
      split at read
      · cases read
      · rename_i named
        split at read
        · cases read
        · rename_i numbers
          cases read
          exact ⟨rowgroup, column, statistic, readFields_eq_some.mp fields, named,
            readNumbers_eq_ok.mp numbers⟩
  · obtain ⟨⟨table, rowgroup', column'⟩, statistic'⟩ := entry
    rintro ⟨rowgroup, column, statistic, fields, named, facts⟩
    have numbers : readNumbers rowgroup column statistic =
        .ok ((rowgroup', column'), statistic') := readNumbers_eq_ok.mpr facts
    rw [readRow, readFields_eq_some.mpr fields]
    dsimp only
    rw [if_neg named, numbers]

/-- The rows are accepted where each of them is. -/
theorem readRows_eq_ok {number : Nat} {rows : List (List UInt8)} {mapping read : Mapping} :
    readRows filename number rows mapping = .ok read ↔
      ∃ entries, List.Forall₂ (fun line => Row (popCarriageReturn line)) rows entries ∧
        read = entries.foldl Mapping.insert mapping := by
  induction rows generalizing number mapping with
  | nil =>
      rw [readRows]
      constructor
      · intro same
        cases same
        exact ⟨[], .nil, rfl⟩
      · rintro ⟨entries, none_left, rfl⟩
        cases none_left
        rfl
  | cons line rest ih =>
      rw [readRows]
      cases accepted : readRow (popCarriageReturn line) with
      | error message =>
          refine ⟨nofun, ?_⟩
          rintro ⟨entries, rows, -⟩
          cases rows with
          | cons row _ =>
              rw [readRow_eq_ok.mpr row] at accepted
              cases accepted
      | ok entry =>
          dsimp only
          rw [ih]
          constructor
          · rintro ⟨entries, rows, rfl⟩
            exact ⟨entry :: entries, .cons (readRow_eq_ok.mp accepted) rows, rfl⟩
          · rintro ⟨entries, rows, rfl⟩
            cases rows with
            | cons row rows =>
                rw [readRow_eq_ok.mpr row] at accepted
                cases accepted
                exact ⟨_, rows, rfl⟩

/-- What the last occurrence of every key says. -/
def LastOccurrences (entries : List Entry) (mapping : Mapping) : Prop :=
  ∀ key type, mapping key = some type ↔ ∃ earlier entry later,
    entries = earlier ++ entry :: later ∧ entry.key = key ∧ statisticType entry.2 = type ∧
    ∀ other ∈ later, Entry.key other ≠ key

/-- Entering one row after the other leaves the last occurrences. -/
theorem foldl_insert (entries : List Entry) :
    LastOccurrences entries (entries.foldl Mapping.insert fun _ => none) := by
  induction entries using List.reverseRecOn with
  | nil =>
      intro key type
      refine ⟨nofun, ?_⟩
      rintro ⟨earlier, entry, later, same, -⟩
      exact absurd same (by simp)
  | append_singleton entries last ih =>
      intro key type
      rw [List.foldl_append, List.foldl_cons, List.foldl_nil, Mapping.insert]
      by_cases here : key = last.key
      · rw [here, Function.update_self]
        constructor
        · intro same
          exact ⟨entries, last, [], rfl, rfl, Option.some.inj same, nofun⟩
        · rintro ⟨earlier, entry, later, same, -, rfl, fresh⟩
          rcases List.eq_nil_or_concat later with rfl | ⟨middle, final, rfl⟩
          · obtain ⟨-, same'⟩ := List.append_inj' same rfl
            cases same'
            rfl
          · have same' : entries ++ [last] = (earlier ++ entry :: middle) ++ [final] := by
              rw [same]
              simp
            obtain ⟨-, final_eq⟩ := List.append_inj' same' rfl
            cases final_eq
            exact absurd rfl (fresh last (by simp))
      · rw [Function.update_of_ne here, ih key type]
        constructor
        · rintro ⟨earlier, entry, later, rfl, found, kind, fresh⟩
          refine ⟨earlier, entry, later ++ [last], by simp, found, kind, fun other member => ?_⟩
          rcases List.mem_append.mp member with before | final
          · exact fresh other before
          · rw [List.mem_singleton.mp final]
            exact fun same => here same.symm
        · rintro ⟨earlier, entry, later, same, found, kind, fresh⟩
          rcases List.eq_nil_or_concat later with rfl | ⟨middle, final, rfl⟩
          · obtain ⟨-, same'⟩ := List.append_inj' same rfl
            cases same'
            exact absurd found.symm here
          · have same' : entries ++ [last] = (earlier ++ entry :: middle) ++ [final] := by
              rw [same]
              simp
            obtain ⟨rfl, -⟩ := List.append_inj' same' rfl
            exact ⟨earlier, entry, middle, rfl, found, kind, fun other member =>
              fresh other (by simp [member])⟩

/-! ## Files -/

/-- A file that starts with the header and has the entries in its rows. -/
def Holds (input : List UInt8) (entries : List Entry) : Prop :=
  ∃ first rows, parts input = first :: rows ∧ popCarriageReturn first = header ∧
    List.Forall₂ (fun line => Row (popCarriageReturn line)) rows entries

theorem readMapping_eq_ok {read : Mapping} :
    readMapping filename (some input) = .ok read ↔
      ∃ entries, Holds input entries ∧ read = entries.foldl Mapping.insert fun _ => none := by
  rw [readMapping, lines_eq_parts]
  constructor
  · intro succeeded
    split at succeeded
    · cases succeeded
    · rename_i first rows split
      split at succeeded
      · cases succeeded
      · rename_i headed
        obtain ⟨entries, accepted, rfl⟩ := readRows_eq_ok.mp succeeded
        exact ⟨entries, ⟨first, rows, split, not_not.mp headed, accepted⟩, rfl⟩
  · rintro ⟨entries, ⟨first, rows, split, headed, accepted⟩, rfl⟩
    rw [split]
    dsimp only
    rw [if_neg (not_not.mpr headed)]
    exact readRows_eq_ok.mpr ⟨entries, accepted, rfl⟩

/-- A file is loaded where it holds entries, and then the last occurrences of its keys. -/
theorem loadStatisticMapping_of_holds {entries : List Entry} (holds : Holds input entries)
    (filename : String) (inForce : Mapping) :
    loadStatisticMapping filename (some input) inForce =
      (true, "", entries.foldl Mapping.insert fun _ => none) := by
  rw [loadStatisticMapping, readMapping_eq_ok.mpr ⟨entries, holds, rfl⟩]

/-- A file that does not is refused, and the mapping in force stays. -/
theorem loadStatisticMapping_of_not_holds (without : ∀ entries, ¬Holds input entries)
    (filename : String) (inForce : Mapping) :
    ∃ message, loadStatisticMapping filename (some input) inForce = (false, message, inForce) := by
  rw [loadStatisticMapping]
  cases read : readMapping filename (some input) with
  | error message => exact ⟨message, rfl⟩
  | ok mapping =>
      obtain ⟨entries, holds, -⟩ := readMapping_eq_ok.mp read
      exact absurd holds (without entries)

end Shell

end StatsRecommender
