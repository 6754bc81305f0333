import StatsRecommender.Assigners.Greedy
import StatsRecommender.Shell.StatisticMapping

/-!
# The output of the assigners

All assigners write their assignment as a header and a row for each partition, and the shell
loads that file as a mapping.
-/

namespace StatsRecommender

variable {byte : UInt8} {value : Int} {text : String} {entry : Greedy.Partition × Int}

namespace Output

open Shell

/-! ## Writing -/

/-- A text in UTF-8. -/
def encode (text : String) : List UInt8 := text.toList.flatMap String.utf8EncodeChar

/-- The decimal digits of a number. -/
def digits (number : Nat) : List UInt8 :=
  (Nat.toDigits 10 number).map fun digit => UInt8.ofNat digit.toNat

/-- `str` of an integer. -/
def str : Int → List UInt8
  | .ofNat number => digits number
  | .negSucc number => 45 :: digits (number + 1)

/-- `f"{table_name},{rowgroup},{col},{statistic}"`. -/
def row (entry : Greedy.Partition × Int) : List UInt8 :=
  encode entry.1.1 ++ comma :: (str entry.1.2.1 ++ comma :: (str entry.1.2.2 ++
    comma :: str entry.2))

/-- The content of `OUT_FILE`. -/
def written (assignment : List (Greedy.Partition × Int)) : List UInt8 :=
  header ++ newline :: assignment.flatMap fun entry => row entry ++ [newline]

/-! ## Numbers -/

theorem isdigit_of_mem_digits {number : Nat} (member : byte ∈ digits number) : isdigit byte := by
  obtain ⟨digit, inside, rfl⟩ := List.mem_map.mp member
  have isDigit := Nat.isDigit_of_mem_toDigits (by decide) (by decide) inside
  rw [Char.isDigit, Bool.and_eq_true, decide_eq_true_eq, decide_eq_true_eq] at isDigit
  obtain ⟨low, high⟩ := isDigit
  have low' : 48 ≤ digit.toNat := low
  have high' : digit.toNat ≤ 57 := high
  simp only [isdigit, Bool.and_eq_true, decide_eq_true_eq, UInt8.le_iff_toNat_le,
    UInt8.toNat_ofNat', UInt8.reduceToNat]
  omega

/-- Reading digits gives their number back. -/
theorem decimal_digits (number : Nat) : decimal (digits number) = number := by
  have value : ∀ (text : List Char) (start : Nat), (∀ digit ∈ text, digit.toNat < 256) →
      (text.map fun digit => UInt8.ofNat digit.toNat).foldl
        (fun value digit => 10 * value + (digit.toNat - 48)) start =
      Nat.ofDigitChars 10 text start := by
    intro text
    induction text with
    | nil => exact fun _ _ => (Nat.ofDigitChars_nil).symm
    | cons first rest ih =>
        intro start small
        rw [List.map_cons, List.foldl_cons, ih _ fun digit member =>
          small digit (List.mem_cons_of_mem _ member), Nat.ofDigitChars_cons, UInt8.toNat_ofNat',
          Nat.mod_eq_of_lt (small first List.mem_cons_self)]
        rfl
  rw [decimal, digits, value _ _ fun digit member => ?_, Nat.ofDigitChars_ten_toDigits]
  have isDigit := Nat.isDigit_of_mem_toDigits (by decide) (by decide) member
  rw [Char.isDigit, Bool.and_eq_true, decide_eq_true_eq, decide_eq_true_eq] at isDigit
  have high : digit.toNat ≤ 57 := isDigit.2
  omega

theorem digits_ne_nil (number : Nat) : digits number ≠ [] := by
  rw [digits]
  exact List.map_eq_nil_iff.not.mpr Nat.toDigits_ne_nil

/-- Numbers are written with digits and the minus sign. -/
theorem mem_str (member : byte ∈ str value) : isdigit byte ∨ byte = 45 := by
  cases value with
  | ofNat number => exact .inl (isdigit_of_mem_digits member)
  | negSucc number =>
      rcases List.mem_cons.mp member with rfl | later
      · exact .inr rfl
      · exact .inl (isdigit_of_mem_digits later)

theorem str_ne_nil (value : Int) : str value ≠ [] := by
  cases value with
  | ofNat number => exact digits_ne_nil number
  | negSucc number => exact List.cons_ne_nil _ _

theorem notMem_str (other : isdigit byte = false) (minus : byte ≠ 45) (value : Int) :
    byte ∉ str value := by
  intro member
  rcases mem_str member with digit | same
  · rw [other] at digit
    cases digit
  · exact minus same

/-- A number of the type `int` is read back. -/
theorem denotes_str (low : -2 ^ 31 ≤ value) (high : value < 2 ^ 31) :
    Denotes (str value) value := by
  cases value with
  | ofNat number =>
      refine ⟨[], [], digits number, rfl, nofun, .inl rfl, digits_ne_nil number,
        fun byte => isdigit_of_mem_digits, ?_, low, high⟩
      rw [if_neg (by simp), decimal_digits]
      rfl
  | negSucc number =>
      refine ⟨[], [45], digits (number + 1), rfl, nofun, .inr (.inr rfl), digits_ne_nil _,
        fun byte => isdigit_of_mem_digits, ?_, low, high⟩
      rw [if_pos rfl, decimal_digits]
      rfl

/-! ## Names -/

/-- A byte below 128 stands for its character only. -/
theorem mem_utf8EncodeChar {char : Char} (small : byte.toNat < 128)
    (member : byte ∈ String.utf8EncodeChar char) : char.toNat = byte.toNat := by
  simp only [String.utf8EncodeChar] at member
  have value : char.val.toNat = char.toNat := rfl
  split_ifs at member
  · rw [List.mem_singleton.mp member]
    simp only [UInt8.toNat_ofNat'] at small ⊢
    omega
  all_goals
    simp only [List.mem_cons, List.not_mem_nil, or_false] at member
    rcases member with rfl | rfl | rfl | rfl
    all_goals
      simp only [UInt8.toNat_ofNat'] at small
      omega

theorem notMem_encode (char : Char) (same : char.toNat = byte.toNat) (small : byte.toNat < 128)
    (without : char ∉ text.toList) : byte ∉ encode text := by
  intro member
  obtain ⟨other, inside, held⟩ := List.mem_flatMap.mp member
  have equal := mem_utf8EncodeChar small held
  rw [Char.toNat_inj.mp (equal.trans same.symm)] at inside
  exact without inside

theorem encode_ne_nil (nonempty : text ≠ "") : encode text ≠ [] := by
  obtain ⟨first, rest, chars⟩ := List.exists_cons_of_ne_nil
    (fun none_left => nonempty (String.toList_eq_nil_iff.mp none_left))
  rw [encode, chars, List.flatMap_cons]
  exact List.append_ne_nil_of_left_ne_nil String.utf8EncodeChar_ne_nil _

/-- Different names are encoded differently. -/
theorem encode_injective : Function.Injective encode := by
  intro first second same
  have bytes : first.toList.utf8Encode = second.toList.utf8Encode :=
    congrArg List.toByteArray same
  rw [← String.toByteArray_ofList, ← String.toByteArray_ofList, String.toByteArray_inj,
    String.ofList_toList, String.ofList_toList] at bytes
  exact bytes

/-! ## Reading back -/

/-- Names that are not empty and have neither commas nor line breaks. -/
def Named (assignment : List (Greedy.Partition × Int)) : Prop :=
  ∀ entry ∈ assignment, entry.1.1 ≠ "" ∧ ',' ∉ entry.1.1.toList ∧ '\n' ∉ entry.1.1.toList ∧
    '\r' ∉ entry.1.1.toList

/-- Numbers that the loader accepts, and that are the same without a sign. -/
def InRange (assignment : List (Greedy.Partition × Int)) : Prop :=
  ∀ entry ∈ assignment, (0 ≤ entry.1.2.1 ∧ entry.1.2.1 < 2 ^ 31) ∧
    (0 ≤ entry.1.2.2 ∧ entry.1.2.2 < 2 ^ 31) ∧ 0 ≤ entry.2 ∧ entry.2 ≤ 9

instance (assignment : List (Greedy.Partition × Int)) : Decidable (Named assignment) :=
  inferInstanceAs (Decidable (∀ entry ∈ assignment, _))

instance (assignment : List (Greedy.Partition × Int)) : Decidable (InRange assignment) :=
  inferInstanceAs (Decidable (∀ entry ∈ assignment, _))

/-- A mapping that says what the assignment says, and nothing else. -/
def Represents (mapping : Mapping) (assignment : List (Greedy.Partition × Int)) : Prop :=
  ∀ table rowgroup column type, mapping (table, rowgroup, column) = some type ↔
    ∃ name statistic, encode name = table ∧
      ((name, (rowgroup : Int), (column : Int)), statistic) ∈ assignment ∧
      statisticType statistic = type

/-- The entry that the row of a partition holds. -/
def toEntry (entry : Greedy.Partition × Int) : Shell.Entry :=
  ((encode entry.1.1, entry.1.2.1, entry.1.2.2), entry.2)

variable {assignment : List (Greedy.Partition × Int)}

/-- A row is read back. -/
theorem row_read (named : Named assignment) (inRange : InRange assignment)
    (member : entry ∈ assignment) : Row (popCarriageReturn (row entry)) (toEntry entry) := by
  obtain ⟨nonempty, without, -⟩ := named entry member
  obtain ⟨⟨low, high⟩, ⟨low', high'⟩, low'', high''⟩ := inRange entry member
  have kept : popCarriageReturn (row entry) = row entry := by
    rw [popCarriageReturn, if_neg]
    intro last
    rw [row, List.getLast?_append_of_ne_nil _ (List.cons_ne_nil _ _),
      List.getLast?_cons_of_ne_nil (by simp),
      List.getLast?_append_of_ne_nil _ (List.cons_ne_nil _ _),
      List.getLast?_cons_of_ne_nil (by simp),
      List.getLast?_append_of_ne_nil _ (List.cons_ne_nil _ _),
      List.getLast?_cons_of_ne_nil (str_ne_nil _)] at last
    exact notMem_str (by decide) (by decide) _ (List.mem_of_getLast? last)
  have table : comma ∉ encode entry.1.1 := notMem_encode ',' rfl (by decide) without
  rw [kept]
  refine ⟨str entry.1.2.1, str entry.1.2.2, str entry.2, ?_, encode_ne_nil nonempty,
    denotes_str (by omega) high, denotes_str (by omega) high', denotes_str (by omega) (by omega),
    low'', high''⟩
  rw [row, List.splitOn_append_cons_self_of_not_mem table,
    List.splitOn_append_cons_self_of_not_mem (notMem_str (by decide) (by decide) _),
    List.splitOn_append_cons_self_of_not_mem (notMem_str (by decide) (by decide) _),
    List.splitOn_eq_singleton (notMem_str (by decide) (by decide) _)]
  rfl

theorem newline_notMem_row (named : Named assignment) (member : entry ∈ assignment) :
    newline ∉ row entry := by
  obtain ⟨-, -, without, -⟩ := named entry member
  have numbers : ∀ value, newline ∉ str value := notMem_str (by decide) (by decide)
  have different : newline ≠ comma := by decide
  rw [row]
  simp only [List.mem_append, List.mem_cons, different, numbers, or_false]
  exact notMem_encode '\n' rfl (by decide) without

/-- The lines of the output. -/
theorem lines_written (named : Named assignment) :
    lines (written assignment) = header :: assignment.map row := by
  have rows : ∀ rest : List (Greedy.Partition × Int), (∀ entry ∈ rest, entry ∈ assignment) →
      lines (rest.flatMap fun entry => row entry ++ [newline]) = rest.map row := by
    intro rest
    induction rest with
    | nil => exact fun _ => lines_nil
    | cons first rest ih =>
        intro inside
        rw [List.flatMap_cons, List.append_assoc, List.singleton_append,
          lines_append (newline_notMem_row named (inside first List.mem_cons_self)),
          ih fun entry member => inside entry (List.mem_cons_of_mem _ member), List.map_cons]
  rw [written, lines_append (by decide), rows assignment fun _ => id]

/-- The file holds the entries of the assignment. -/
theorem holds_written (named : Named assignment) (inRange : InRange assignment) :
    Holds (written assignment) (assignment.map toEntry) := by
  refine ⟨header, assignment.map row, ?_, by decide, ?_⟩
  · rw [← lines_eq_parts]
    exact lines_written named
  · rw [List.forall₂_map_left_iff, List.forall₂_map_right_iff, List.forall₂_same]
    exact fun entry member => row_read named inRange member

theorem unsignedInt_of_inRange (low : 0 ≤ value) (high : value < 2 ^ 31) :
    unsignedInt value = value.toNat := by
  rw [unsignedInt, Int.emod_eq_of_lt low (by omega)]

/-- Without a partition twice, the last occurrences are the assignment. -/
theorem represents_of_lastOccurrences {mapping : Mapping} (inRange : InRange assignment)
    (once : (assignment.map Prod.fst).Nodup)
    (last : LastOccurrences (assignment.map toEntry) mapping) : Represents mapping assignment := by
  intro table rowgroup column type
  have key_eq : ∀ entry ∈ assignment, (toEntry entry).key =
      (encode entry.1.1, entry.1.2.1.toNat, entry.1.2.2.toNat) := by
    intro entry member
    obtain ⟨⟨low, high⟩, ⟨low', high'⟩, -⟩ := inRange entry member
    rw [Shell.Entry.key, toEntry, unsignedInt_of_inRange low high, unsignedInt_of_inRange low' high']
  have same_of : ∀ entry ∈ assignment, ∀ other ∈ assignment,
      (toEntry other).key = (toEntry entry).key → other.1 = entry.1 := by
    intro entry member other member' same
    obtain ⟨⟨low, -⟩, ⟨low', -⟩, -⟩ := inRange entry member
    obtain ⟨⟨low₂, -⟩, ⟨low₂', -⟩, -⟩ := inRange other member'
    rw [key_eq entry member, key_eq other member', Prod.mk.injEq, Prod.mk.injEq] at same
    obtain ⟨names, rowgroups, columns⟩ := same
    refine Prod.ext (encode_injective names) (Prod.ext ?_ ?_)
    · omega
    · omega
  rw [last (table, rowgroup, column) type]
  constructor
  · rintro ⟨earlier, entry, later, split, found, kind, -⟩
    have member : entry ∈ assignment.map toEntry := by
      rw [split]
      simp
    obtain ⟨source, inside, rfl⟩ := List.mem_map.mp member
    obtain ⟨⟨low, -⟩, ⟨low', -⟩, -⟩ := inRange source inside
    rw [key_eq source inside, Prod.mk.injEq, Prod.mk.injEq] at found
    obtain ⟨rfl, rfl, rfl⟩ := found
    refine ⟨source.1.1, source.2, rfl, ?_, kind⟩
    rw [Int.toNat_of_nonneg low, Int.toNat_of_nonneg low']
    exact inside
  · rintro ⟨name, statistic, rfl, member, kind⟩
    obtain ⟨earlier, later, split⟩ := List.append_of_mem member
    refine ⟨earlier.map toEntry, toEntry ((name, (rowgroup : Int), (column : Int)), statistic),
      later.map toEntry, ?_, ?_, kind, ?_⟩
    · rw [split, List.map_append, List.map_cons]
    · rw [key_eq _ member]
      rfl
    · intro other inside same
      obtain ⟨source, later_source, rfl⟩ := List.mem_map.mp inside
      have inside' : source ∈ assignment := by
        rw [split]
        exact List.mem_append_right _ (List.mem_cons_of_mem _ later_source)
      have key : (toEntry source).key =
          (toEntry ((name, (rowgroup : Int), (column : Int)), statistic)).key := by
        rw [same, key_eq _ member]
        rfl
      have again := same_of _ member source inside' key
      rw [split, List.map_append, List.map_cons, List.nodup_append, List.nodup_cons] at once
      exact once.2.1.1 (List.mem_map.mpr ⟨source, later_source, again⟩)

/--
A file is loaded where it has the header and every row is an entry; the mapping is then the last
occurrence of every key, and otherwise it stays.  The output of an assigner with names without
separators and numbers in range is loaded as its assignment.
-/
theorem loadStatisticMapping_spec :
    (∀ filename input inForce,
      ((loadStatisticMapping filename (some input) inForce).1 = true ↔
        ∃ entries, Holds input entries) ∧
      (∀ entries, Holds input entries →
        LastOccurrences entries (loadStatisticMapping filename (some input) inForce).2.2) ∧
      ((loadStatisticMapping filename (some input) inForce).1 = false →
        (loadStatisticMapping filename (some input) inForce).2.2 = inForce)) ∧
    ∀ filename assignment inForce, Named assignment → InRange assignment →
      (assignment.map Prod.fst).Nodup →
      (loadStatisticMapping filename (some (written assignment)) inForce).1 = true ∧
        Represents (loadStatisticMapping filename (some (written assignment)) inForce).2.2
          assignment := by
  constructor
  · intro filename input inForce
    by_cases held : ∃ entries, Holds input entries
    · obtain ⟨some_entries, holds⟩ := held
      rw [loadStatisticMapping_of_holds holds]
      refine ⟨⟨fun _ => ⟨some_entries, holds⟩, fun _ => rfl⟩, fun entries holds' => ?_, nofun⟩
      have loaded := loadStatisticMapping_of_holds holds filename inForce
      rw [loadStatisticMapping_of_holds holds' filename inForce] at loaded
      rw [← loaded]
      exact foldl_insert entries
    · obtain ⟨message, refused⟩ :=
        loadStatisticMapping_of_not_holds (not_exists.mp held) filename inForce
      rw [refused]
      exact ⟨⟨nofun, fun holds => absurd holds held⟩, fun entries holds =>
        absurd ⟨entries, holds⟩ held, fun _ => rfl⟩
  · intro filename assignment inForce named inRange once
    rw [loadStatisticMapping_of_holds (holds_written named inRange) filename inForce]
    exact ⟨rfl, represents_of_lastOccurrences inRange once (foldl_insert _)⟩

/-- An assignment of two columns is loaded. -/
theorem loadStatisticMapping_spec_columns :
    Represents (loadStatisticMapping "mapping" (some (written [(("t", 0, 0), 1), (("t", 0, 1), 9)]))
      fun _ => none).2.2 [(("t", 0, 0), 1), (("t", 0, 1), 9)] :=
  (loadStatisticMapping_spec.2 "mapping" [(("t", 0, 0), 1), (("t", 0, 1), 9)] (fun _ => none)
    (by decide) (by decide) (by decide)).2

/-- An assignment with the row group 2147483648 is refused, though keys of mappings can have it. -/
theorem loadStatisticMapping_rowgroup :
    Named [(("t", 2147483648, 0), 1)] ∧
      ([(("t", 2147483648, 0), 1)].map Prod.fst : List Greedy.Partition).Nodup ∧
      (loadStatisticMapping "mapping" (some (written [(("t", 2147483648, 0), 1)]))
        fun _ => none).1 = false := by
  have named : Named [(("t", 2147483648, 0), 1)] := by
    decide
  refine ⟨named, by decide, ?_⟩
  rw [loadStatisticMapping, readMapping, lines_written named]
  decide +kernel

end Output

end StatsRecommender
