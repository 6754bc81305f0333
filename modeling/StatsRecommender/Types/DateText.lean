import StatsRecommender.Types.DateConversion

/-!
# Dates as texts

A date is read back from the text that is written for it, also in strict mode.
-/

namespace StatsRecommender

open GregorianCalendar

variable {value : Nat} {c : Char} {digits : List Char} {year : Int} {date : CivilDate}

namespace Date

/-! ## Digits -/

/-- The characters are digits. -/
def AreDigits (text : List Char) : Prop := ∀ c ∈ text, characterIsDigit c = true

/-- The number that digits stand for, behind digits that were read before. -/
def digitsNumber (text : List Char) (number : Int) : Int :=
  text.foldl (fun number c => digitValue c + number * 10) number

theorem digit_spec (small : value < 10) :
    characterIsDigit (digit value) = true ∧ digitValue (digit value) = value := by
  have table : ∀ value < 10,
      characterIsDigit (digit value) = true ∧ digitValue (digit value) = (value : Nat) := by
    decide
  exact table value small

theorem areDigits_twoDigits (small : value < 100) : AreDigits (twoDigits value) := by
  intro c member
  simp only [twoDigits, List.mem_cons, List.not_mem_nil, or_false] at member
  rcases member with rfl | rfl
  · exact (digit_spec (by omega)).1
  · exact (digit_spec (by omega)).1

theorem digitsNumber_twoDigits (small : value < 100) (number : Int) :
    digitsNumber (twoDigits value) number = number * 100 + value := by
  have tens := (digit_spec (show value / 10 < 10 by omega)).2
  have ones := (digit_spec (show value % 10 < 10 by omega)).2
  simp only [digitsNumber, twoDigits, List.foldl_cons, List.foldl_nil, tens, ones]
  omega

/-- What is written in front of a text are the digits of the number, no more than needed. -/
theorem formatUnsigned_spec (value : Nat) (text : List Char) : ∃ digits,
    formatUnsigned value text = digits ++ text ∧ digits ≠ [] ∧ AreDigits digits ∧
      digitsNumber digits 0 = value ∧
      ∀ width, 1 ≤ width → value < 10 ^ width → digits.length ≤ width := by
  induction value, text using formatUnsigned.induct with
  | case1 value text large ih =>
      obtain ⟨digits, written, some_digit, are_digits, number, short⟩ := ih
      refine ⟨digits ++ twoDigits (value % 100), ?_, ?_, ?_, ?_, fun width positive bound => ?_⟩
      · rw [formatUnsigned, if_pos large, written, List.append_assoc]
      · simp [some_digit]
      · intro c member
        rcases List.mem_append.mp member with inside | inside
        · exact are_digits c inside
        · exact areDigits_twoDigits (Nat.mod_lt _ (by decide)) c inside
      · unfold digitsNumber at number ⊢
        rw [List.foldl_append, number]
        have last := digitsNumber_twoDigits (Nat.mod_lt value (show 0 < 100 by decide))
          ((value / 100 : Nat) : Int)
        unfold digitsNumber at last
        omega
      · obtain ⟨width, rfl⟩ : ∃ less, width = less + 2 := by
          refine ⟨width - 2, ?_⟩
          have two : ¬ width ≤ 2 := by
            intro le
            have power := Nat.pow_le_pow_right (show 0 < 10 by decide) le
            omega
          omega
        have less := short width (by
          by_contra none_left
          have zero : width = 0 := by omega
          rw [zero] at bound
          omega) (by
          rw [Nat.pow_add] at bound
          omega)
        rw [List.length_append]
        exact Nat.add_le_add_right less 2
  | case2 value text small one =>
      have single := digit_spec one
      refine ⟨[digit value], ?_, by simp, ?_, ?_, fun width positive _ => positive⟩
      · rw [formatUnsigned, if_neg small, if_pos one]
        rfl
      · intro c member
        rw [List.mem_singleton.mp member]
        exact single.1
      · simp [digitsNumber, single.2]
  | case3 value text small two =>
      refine ⟨twoDigits value, ?_, by simp [twoDigits], areDigits_twoDigits (by omega), ?_,
        fun width positive bound => ?_⟩
      · rw [formatUnsigned, if_neg small, if_neg two]
      · rw [digitsNumber_twoDigits (by omega)]
        omega
      · have more : ¬ width ≤ 1 := by
          intro le
          have power := Nat.pow_le_pow_right (show 0 < 10 by decide) le
          omega
        change 2 ≤ width
        omega

/-- Zeros in front do not change the number. -/
theorem digitsNumber_zeros (count : Nat) (digits : List Char) :
    digitsNumber (List.replicate count '0' ++ digits) 0 = digitsNumber digits 0 := by
  induction count with
  | zero => rfl
  | succ count ih =>
      rw [List.replicate_succ, List.cons_append]
      exact ih

theorem digitValue_of_digit (is_digit : characterIsDigit c = true) :
    0 ≤ digitValue c ∧ digitValue c ≤ 9 := by
  simp only [characterIsDigit, Bool.and_eq_true, decide_eq_true_eq] at is_digit
  unfold digitValue
  omega

theorem le_digitsNumber (are_digits : AreDigits digits) {number : Int} (natural : 0 ≤ number) :
    number ≤ digitsNumber digits number := by
  induction digits generalizing number with
  | nil => exact Int.le_refl number
  | cons c rest ih =>
      have value := digitValue_of_digit (are_digits c List.mem_cons_self)
      have later := ih (fun other member => are_digits other (List.mem_cons_of_mem c member))
        (show 0 ≤ digitValue c + number * 10 by omega)
      change number ≤ digitsNumber rest (digitValue c + number * 10)
      omega

/-- The digits of a year are read up to the next character. -/
theorem parseYear_digits (are_digits : AreDigits digits) (stop : characterIsDigit c = false)
    (rest : List Char) (natural : 0 ≤ year) (small : digitsNumber digits year < 100000000)
    (length : Nat) :
    parseYear (digits ++ c :: rest) year length =
      .ok (digitsNumber digits year, length + digits.length, c :: rest) := by
  induction digits generalizing year length with
  | nil =>
      rw [List.nil_append, parseYear, stop]
      rfl
  | cons digit more ih =>
      have is_digit := are_digits digit List.mem_cons_self
      have are_more : AreDigits more :=
        fun other member => are_digits other (List.mem_cons_of_mem digit member)
      have value := digitValue_of_digit is_digit
      have natural' : 0 ≤ digitValue digit + year * 10 := by omega
      have later := le_digitsNumber are_more natural'
      have folded : digitsNumber (digit :: more) year =
          digitsNumber more (digitValue digit + year * 10) := rfl
      rw [folded] at small ⊢
      rw [List.cons_append, parseYear, is_digit, if_pos rfl, if_neg (by omega)]
      rw [int32_of_range (by omega) (by omega)]
      dsimp only [bind, Except.bind]
      rw [int32_of_range (by omega) (by omega)]
      dsimp only
      rw [ih are_more natural' small, List.length_cons]
      have count : length + 1 + more.length = length + (more.length + 1) := by omega
      rw [count]

/-! ## Months and days -/

theorem formatComponent_eq (number : Nat) :
    formatComponent number = '-' :: twoDigits number := by
  rw [formatComponent]
  split
  · rename_i one
    have tens : number / 10 = 0 := Nat.div_eq_of_lt one
    rw [twoDigits, tens, Nat.mod_eq_of_lt one]
    rfl
  · rfl

theorem parseDoubleDigit_twoDigits {number : Nat} (small : number < 100) (rest : List Char) :
    parseDoubleDigit (twoDigits number ++ rest) = .ok ((number : Int), rest) := by
  have tens := digit_spec (show number / 10 < 10 by omega)
  have ones := digit_spec (show number % 10 < 10 by omega)
  have total : ((number % 10 : Nat) : Int) + ((number / 10 : Nat) : Int) * 10 = number := by omega
  simp only [twoDigits, List.cons_append, List.nil_append, parseDoubleDigit, tens.1, ones.1,
    if_true, tens.2, ones.2, total]

/-! ## Whole dates -/

/-- The suffix of a year before the first one. -/
def suffix (year : Int) : List Char := if year ≤ 0 then " (BC)".toList else []

/-- The year as it is shown. -/
def shownYear (year : Int) : Int := if year ≤ 0 then -year + 1 else year

/-- The digits that a shown year is written with. -/
def shownWidth (year : Int) : Nat :=
  4 + (if 10000 ≤ year then 1 else 0) + (if 100000 ≤ year then 1 else 0) +
    (if 1000000 ≤ year then 1 else 0) + (if 10000000 ≤ year then 1 else 0)

theorem lt_shownWidth (small : year < 100000000) :
    4 ≤ shownWidth year ∧ year.toNat < 10 ^ shownWidth year := by
  rw [shownWidth]
  refine ⟨by omega, ?_⟩
  by_cases five : 10000 ≤ year
  · by_cases six : 100000 ≤ year
    · by_cases seven : 1000000 ≤ year
      · by_cases eight : 10000000 ≤ year
        · rw [if_pos five, if_pos six, if_pos seven, if_pos eight]
          omega
        · rw [if_pos five, if_pos six, if_pos seven, if_neg eight]
          omega
      · rw [if_pos five, if_pos six, if_neg seven, if_neg (by omega)]
        omega
    · rw [if_pos five, if_neg six, if_neg (by omega), if_neg (by omega)]
      omega
  · rw [if_neg five, if_neg (by omega), if_neg (by omega), if_neg (by omega)]
    omega

theorem yearLength_eq (low : -5877641 ≤ year) :
    yearLength year = .ok (shownYear year, shownWidth (shownYear year), decide (year ≤ 0),
      6 + (suffix year).length + shownWidth (shownYear year)) := by
  rw [yearLength, shownYear, suffix]
  dsimp only [bind, Except.bind]
  by_cases before : year ≤ 0
  · rw [decide_eq_true before, if_pos rfl, if_pos rfl, if_pos before, if_pos before,
      int32_of_range (by omega) (by omega)]
    rfl
  · rw [decide_eq_false before, if_neg Bool.false_ne_true, if_neg Bool.false_ne_true,
      if_neg before, if_neg before]
    rfl

/-- The text of a date: the digits of the year with zeros in front, month, day and suffix. -/
theorem format_eq (low : -5877641 ≤ year) (high : year ≤ 5881580) (month day : Nat) :
    ∃ digits,
    format (6 + (suffix year).length + shownWidth (shownYear year)) (shownYear year) month day
        (shownWidth (shownYear year)) (decide (year ≤ 0)) =
      .ok (digits ++ '-' :: (twoDigits month ++ '-' :: (twoDigits day ++ suffix year))) ∧
    AreDigits digits ∧ 4 ≤ digits.length ∧ digitsNumber digits 0 = shownYear year := by
  have natural : 0 ≤ shownYear year ∧ shownYear year < 100000000 := by
    rw [shownYear]
    split <;> omega
  obtain ⟨wide, room⟩ := lt_shownWidth natural.2
  obtain ⟨digits, written, -, are_digits, number, short⟩ :=
    formatUnsigned_spec (shownYear year).toNat []
  have fits := short _ (by omega) room
  rw [List.append_nil] at written
  refine ⟨List.replicate (shownWidth (shownYear year) - digits.length) '0' ++ digits, ?_, ?_, ?_, ?_⟩
  · have ending : (if decide (year ≤ 0) then " (BC)".toList else []) = suffix year := by
      rw [suffix]
      simp only [decide_eq_true_eq]
    rw [format]
    dsimp only
    rw [written, ending, Int.toNat_natCast, Int.toNat_natCast, formatComponent_eq, formatComponent_eq,
      if_neg (by omega)]
    have length : (List.replicate (shownWidth (shownYear year) - digits.length) '0' ++ digits ++
        '-' :: twoDigits month ++ '-' :: twoDigits day ++ suffix year).length =
        6 + (suffix year).length + shownWidth (shownYear year) := by
      simp only [List.length_append, List.length_cons, List.length_replicate, twoDigits,
        List.length_nil]
      omega
    rw [if_pos length]
    simp only [List.append_assoc, List.cons_append]
  · intro c member
    rcases List.mem_append.mp member with zero | inside
    · rw [(List.mem_replicate.mp zero).2]
      rfl
    · exact are_digits c inside
  · rw [List.length_append, List.length_replicate]
    omega
  · rw [digitsNumber_zeros, number]
    omega

/-! ## Reading a date -/

theorem parseBc_suffix (low : -5877641 ≤ year) :
    parseBc false (shownYear year) (suffix year) = .ok (year, []) := by
  rw [shownYear, suffix]
  by_cases before : year ≤ 0
  · rw [if_pos before, if_pos before]
    have accepted : (characterIsSpace ' ' && '(' == '(' && characterToLower 'B' == 'b' &&
        characterToLower 'C' == 'c' && ')' == ')') = true := by decide
    have positive : (-year + 1 == 0) = false := by
      rw [beq_eq_false_iff_ne]
      omega
    have back : -(-year + 1) + 1 = year := by omega
    change parseBc false (-year + 1) [' ', '(', 'B', 'C', ')'] = _
    rw [parseBc, accepted, if_pos rfl, Bool.false_or, positive, if_neg Bool.false_ne_true,
      int32_of_range (by omega) (by omega)]
    dsimp only [bind, Except.bind]
    rw [back]
  · rw [if_neg before, if_neg before]
    rfl

theorem parseEnd_nil (strict : Bool) : parseEnd strict [] = .ok [] := by
  cases strict <;> rfl

theorem expect_accepted {accepts : Char → Bool} (accepted : accepts c = true) (rest : List Char) :
    expect accepts (c :: rest) = .ok (c, rest) := by
  rw [expect, if_pos accepted]

theorem not_space_of_digit (is_digit : characterIsDigit c = true) : characterIsSpace c = false := by
  rw [characterIsDigit, Bool.and_eq_true, decide_eq_true_eq, decide_eq_true_eq] at is_digit
  rw [characterIsSpace, Bool.or_eq_false_iff]
  constructor
  · rw [beq_eq_false_iff_ne]
    rintro rfl
    exact absurd is_digit (by decide)
  · rw [Bool.and_eq_false_iff, decide_eq_false_iff_not, decide_eq_false_iff_not]
    omega

/-- A date that can be represented lies in the years of the smallest and the greatest one. -/
theorem year_range (representable : Representable date) :
    -5877641 ≤ date.year ∧ date.year ≤ 5881580 := by
  obtain ⟨low, high⟩ := (representable_iff date).mp representable
  constructor
  · by_contra below
    exact low (Or.inl (by
      have least : minDate.year = -5877641 := rfl
      omega))
  · by_contra above
    exact high (Or.inl (by
      have greatest : maxDate.year = 5881580 := rfl
      omega))

theorem day_lt (date : CivilDate) : date.day < 100 := by
  have longest : daysInMonth date.year date.month ≤ 31 := by
    unfold daysInMonth
    split
    · split <;> decide
    all_goals decide
  exact Nat.lt_of_le_of_lt (Nat.le_trans date.day_le longest) (by decide)

/-- A text of digits, month, day and suffix is read as the date that it shows. -/
theorem fromString_text (representable : Representable date) (are_digits : AreDigits digits)
    (wide : 4 ≤ digits.length) (number : digitsNumber digits 0 = shownYear date.year)
    (strict : Bool) :
    fromString (digits ++ '-' :: (twoDigits date.month ++ '-' ::
      (twoDigits date.day ++ suffix date.year))) strict = .ok (dayNumber date) := by
  obtain ⟨low, high⟩ := year_range representable
  have month : date.month < 100 := Nat.lt_of_le_of_lt date.month_le (by decide)
  have day := day_lt date
  have small : shownYear date.year < 100000000 := by
    rw [shownYear]
    split <;> omega
  have dash : characterIsDigit '-' = false := by decide
  have parsed := parseYear_digits are_digits dash (twoDigits date.month ++ '-' ::
    (twoDigits date.day ++ suffix date.year)) (Int.le_refl 0) (by rw [number]; exact small) 0
  rw [number, Nat.zero_add] at parsed
  have converted : convertDigits strict false (digits ++ '-' :: (twoDigits date.month ++ '-' ::
      (twoDigits date.day ++ suffix date.year))) = .ok ⟨dayNumber date, false, []⟩ := by
    have separator (rest : List Char) :
        expect (fun c => c == ' ' || c == '-' || c == '/' || c.toNat == 92) ('-' :: rest) =
          .ok ('-', rest) := expect_accepted (by decide) rest
    have repeated (rest : List Char) : expect (fun c => c == '-') ('-' :: rest) = .ok ('-', rest) :=
      expect_accepted (by decide) rest
    rw [convertDigits]
    simp only [bind, Except.bind, parsed]
    rw [if_neg (by omega), if_neg Bool.false_ne_true]
    simp only [separator, parseDoubleDigit_twoDigits month, repeated,
      parseDoubleDigit_twoDigits day, parseBc_suffix low, parseEnd_nil,
      tryFromDate_of_isDate ⟨rfl, rfl, rfl⟩ representable]
  obtain ⟨first, rest, hdigits⟩ : ∃ first rest, digits = first :: rest := by
    cases digits with
    | nil => exact absurd wide (by decide)
    | cons first rest => exact ⟨first, rest, rfl⟩
  have is_digit : characterIsDigit first = true := by
    refine are_digits first ?_
    rw [hdigits]
    exact List.mem_cons_self
  have not_space : characterIsSpace first = false := not_space_of_digit is_digit
  have not_dash : first ≠ '-' := by
    rintro rfl
    exact absurd is_digit (by decide)
  have found : tryConvertDate (digits ++ '-' :: (twoDigits date.month ++ '-' ::
      (twoDigits date.day ++ suffix date.year))) strict = .ok ⟨dayNumber date, false, []⟩ := by
    rw [hdigits, List.cons_append] at converted ⊢
    rw [tryConvertDate, List.dropWhile_cons, not_space, if_neg Bool.false_ne_true]
    dsimp only
    rw [if_neg not_dash, is_digit, if_pos rfl]
    exact converted
  rw [fromString, found]

/-- Every date is read back from its text. -/
theorem fromString_toString {days : Int} (low : ninfinity ≤ days) (high : days ≤ infinity)
    (strict : Bool) : ∃ text, toString days = .ok text ∧ fromString text strict = .ok days := by
  by_cases greatest : days = infinity
  · refine ⟨"infinity".toList, by rw [toString, if_pos greatest], ?_⟩
    rw [greatest]
    cases strict <;> decide
  by_cases least : days = ninfinity
  · refine ⟨"-infinity".toList, by rw [toString, if_neg greatest, if_pos least], ?_⟩
    rw [least]
    cases strict <;> decide
  · have bounds : ninfinity = -(2 ^ 31 - 1) ∧ infinity = 2 ^ 31 - 1 := ⟨rfl, rfl⟩
    obtain ⟨date, converted, number⟩ := @convert_spec days (by omega) (by omega)
    have representable : Representable date := by
      unfold Representable
      omega
    obtain ⟨lowYear, highYear⟩ := year_range representable
    obtain ⟨digits, formatted, are_digits, wide, shown⟩ := format_eq lowYear highYear _ _
    refine ⟨_, ?_, (fromString_text representable are_digits wide shown strict).trans
      (congrArg Except.ok number)⟩
    rw [toString, if_neg greatest, if_neg least, converted]
    dsimp only [bind, Except.bind]
    rw [yearLength_eq lowYear]
    exact formatted

/-- Days, dates and texts correspond: a day between the infinities is converted to its date, which
gives the day back; exactly the dates between the infinities are accepted, without an overflow and
in their order; and every date is read back from its text. -/
theorem conversions_roundTrip :
    (∀ days, ninfinity < days → days < infinity → ∃ date : CivilDate,
      convert days = .ok (date.year, (date.month : Int), (date.day : Int)) ∧
      dayNumber date = days ∧ tryFromDate date.year date.month date.day = .ok (some days)) ∧
    (∀ year month day, ∃ outcome, tryFromDate year month day = .ok outcome ∧
      ∀ n, outcome = some n ↔
        ∃ date, IsDate date year month day ∧ Representable date ∧ dayNumber date = n) ∧
    (∀ year month day otherYear otherMonth otherDay n other,
      tryFromDate year month day = .ok (some n) →
      tryFromDate otherYear otherMonth otherDay = .ok (some other) →
      (n < other ↔ LexBefore year month day otherYear otherMonth otherDay)) ∧
    (∀ days strict, ninfinity ≤ days → days ≤ infinity →
      ∃ text, toString days = .ok text ∧ fromString text strict = .ok days) := by
  refine ⟨fun days low high => ?_, tryFromDate_spec, fun _ _ _ _ _ _ _ _ => tryFromDate_lt_iff,
    fun days strict low high => fromString_toString low high strict⟩
  have bounds : ninfinity = -(2 ^ 31 - 1) ∧ infinity = 2 ^ 31 - 1 := ⟨rfl, rfl⟩
  obtain ⟨date, converted, number⟩ := @convert_spec days (by omega) (by omega)
  have representable : Representable date := by
    unfold Representable
    omega
  have back := tryFromDate_of_isDate ⟨rfl, rfl, rfl⟩ representable
  exact ⟨date, converted, number, by rw [back, number]⟩

/-- The leap day of the year 2000. -/
theorem conversions_roundTrip_leapDay :
    ∃ text, toString 11016 = .ok text ∧ fromString text true = .ok 11016 :=
  conversions_roundTrip.2.2.2 11016 true (by decide) (by decide)

example : toString (-719529) = .ok "0002-12-31 (BC)".toList := by decide +kernel

end Date

end StatsRecommender
