import StatsRecommender.Library.GregorianCalendar
import StatsRecommender.Types.Date

/-!
# Dates of the calendar

The numbers of days are those of the proleptic Gregorian calendar, in both directions and without
an overflow on the way.
-/

namespace StatsRecommender

variable {value year n : Int} {table : List Int} {yearOffset years : Nat}

open GregorianCalendar

namespace Date

/-- The day that is counted as zero. -/
def epochDate : CivilDate := ⟨1970, 1, 1, Nat.one_pos, january_le, Nat.one_pos, by decide⟩

/-- The number of a date, counted from the epoch. -/
def dayNumber (date : CivilDate) : Int := date.number - epochDate.number

/-! ## Tables -/

theorem int32_of_range (low : -2 ^ 31 ≤ value) (high : value ≤ 2 ^ 31 - 1) :
    int32 value = .ok value :=
  if_pos ⟨low, high⟩

/-- The days from 1970 to the years of a cycle. -/
def yearStart (year : Int) : Int := daysBeforeYear year - daysBeforeYear 1970

theorem lookup_of_getElem? {index : Nat} (found : table[index]? = some value) :
    lookup table index = .ok value := by
  unfold lookup
  rw [if_neg (by omega), Int.toNat_natCast, found]

theorem cumulativeYearDays_eq :
    cumulativeYearDays = (List.range 401).map fun yearOffset : Nat => yearStart (1970 + yearOffset) := by
  decide +kernel

theorem lookup_cumulativeYearDays (inside : yearOffset ≤ 400) :
    lookup cumulativeYearDays yearOffset = .ok (yearStart (1970 + yearOffset)) := by
  apply lookup_of_getElem?
  rw [cumulativeYearDays_eq, List.getElem?_map, List.getElem?_range (Nat.lt_succ_of_le inside)]
  rfl

/-- The four tables of the months of a year. -/
theorem lookup_monthTables : ∀ month : Nat, month < 13 → 1 ≤ month →
    lookup cumulativeDays ((month : Int) - 1) = .ok (daysBeforeMonth 2001 month : Nat) ∧
      lookup cumulativeLeapDays ((month : Int) - 1) = .ok (daysBeforeMonth 2000 month : Nat) ∧
      lookup normalDays month = .ok (daysInMonth 2001 month : Nat) ∧
      lookup leapDays month = .ok (daysInMonth 2000 month : Nat) := by
  decide +kernel

variable {month : Nat}

theorem lookup_cumulativeDays (positive : 1 ≤ month) (inside : month ≤ 12) :
    lookup cumulativeDays ((month : Int) - 1) = .ok (daysBeforeMonth 2001 month : Nat) :=
  (lookup_monthTables month (Nat.lt_succ_of_le inside) positive).1

theorem lookup_cumulativeLeapDays (positive : 1 ≤ month) (inside : month ≤ 12) :
    lookup cumulativeLeapDays ((month : Int) - 1) = .ok (daysBeforeMonth 2000 month : Nat) :=
  (lookup_monthTables month (Nat.lt_succ_of_le inside) positive).2.1

theorem lookup_normalDays (positive : 1 ≤ month) (inside : month ≤ 12) :
    lookup normalDays month = .ok (daysInMonth 2001 month : Nat) :=
  (lookup_monthTables month (Nat.lt_succ_of_le inside) positive).2.2.1

theorem lookup_leapDays (positive : 1 ≤ month) (inside : month ≤ 12) :
    lookup leapDays month = .ok (daysInMonth 2000 month : Nat) :=
  (lookup_monthTables month (Nat.lt_succ_of_le inside) positive).2.2.2

/-- A month, and a day of the year that lies in it. -/
def dayInMonth (year month : Int) (day : Nat) : Bool :=
  decide (1 ≤ month ∧ month ≤ 12 ∧ daysBeforeMonth year month.toNat ≤ day ∧
    day < daysBeforeMonth year month.toNat + daysInMonth year month.toNat)

/-- A table of the months of all days of a year, read at a day. -/
theorem lookup_months
    (months : (table.zipIdx.all fun entry => dayInMonth year entry.1 entry.2) = true) {day : Nat}
    (inside : day < table.length) : ∃ month : Nat, 1 ≤ month ∧ month ≤ 12 ∧
      lookup table day = .ok month ∧ daysBeforeMonth year month ≤ day ∧
      day < daysBeforeMonth year month + daysInMonth year month := by
  have entry : (table[day], day) ∈ table.zipIdx :=
    List.mem_zipIdx_iff_getElem?.mpr (List.getElem?_eq_getElem inside)
  obtain ⟨low, high, before, behind⟩ := of_decide_eq_true (List.all_eq_true.mp months _ entry)
  have natural : ((table[day].toNat : Nat) : Int) = table[day] := Int.toNat_of_nonneg (by omega)
  refine ⟨table[day].toNat, by omega, by omega, ?_, before, behind⟩
  rw [natural]
  exact lookup_of_getElem? (List.getElem?_eq_getElem inside)

/-- The tables of the months of all days of a year. -/
theorem months_checked :
    (monthPerDayOfYear.length = 365 ∧
      (monthPerDayOfYear.zipIdx.all fun entry => dayInMonth 2001 entry.1 entry.2) = true) ∧
    (leapMonthPerDayOfYear.length = 366 ∧
      (leapMonthPerDayOfYear.zipIdx.all fun entry => dayInMonth 2000 entry.1 entry.2) = true) := by
  decide +kernel

/-! ## From days -/

/-- The first loop, for days that fit into 32 bits. -/
theorem raise_eq {n year : Int} (below : n < daysPerYearInterval)
    (low : -400 * 2 ^ 31 ≤ daysPerYearInterval * (year - 1970) + 400 * n) (high : year ≤ 1970) :
    raise n year = .ok (n % daysPerYearInterval, year + 400 * (n / daysPerYearInterval)) := by
  unfold daysPerYearInterval at *
  induction n, year using raise.induct with
  | case1 n year negative ih =>
      unfold daysPerYearInterval yearInterval at ih
      rw [raise, if_pos negative]
      unfold daysPerYearInterval yearInterval
      rw [int32_of_range (by omega) (by omega), int32_of_range (by omega) (by omega)]
      dsimp only [bind, Except.bind]
      rw [ih (by omega) (by omega) (by omega)]
      congr 2 <;> omega
  | case2 n year natural =>
      rw [raise, if_neg natural]
      congr 2 <;> omega

theorem lower_eq (natural : 0 ≤ n)
    (high : daysPerYearInterval * (year - 1970) + 400 * n ≤ 400 * 2 ^ 31) (low : -2 ^ 30 ≤ year)
    (bound : n ≤ 2 ^ 31 - 1) :
    lower n year = .ok (n % daysPerYearInterval, year + 400 * (n / daysPerYearInterval)) := by
  unfold daysPerYearInterval at *
  induction n, year using lower.induct with
  | case1 n year large ih =>
      unfold daysPerYearInterval yearInterval at ih
      rw [lower, if_pos large]
      unfold daysPerYearInterval yearInterval at *
      rw [int32_of_range (by omega) (by omega), int32_of_range (by omega) (by omega)]
      dsimp only [bind, Except.bind]
      rw [ih (by omega) (by omega) (by omega) (by omega)]
      congr 2 <;> omega
  | case2 n year small =>
      rw [lower, if_neg small]
      unfold daysPerYearInterval at small
      congr 2 <;> omega

/-- The offset is lowered to that of the year in which the day lies. -/
theorem decreaseYearOffset_spec (natural : 0 ≤ n) (inside : yearOffset ≤ 400)
    (above : n < yearStart (1970 + (yearOffset + 1 : Nat))) :
    ∃ found : Nat, found ≤ yearOffset ∧ decreaseYearOffset n yearOffset = .ok found ∧
      yearStart (1970 + found) ≤ n ∧ n < yearStart (1970 + (found + 1 : Nat)) := by
  induction yearOffset with
  | zero =>
      have first : yearStart (1970 + (0 : Nat)) = 0 := rfl
      refine ⟨0, Nat.le_refl 0, ?_, by omega, above⟩
      rw [decreaseYearOffset]
      have read := lookup_cumulativeYearDays (Nat.zero_le 400)
      rw [first] at read
      rw [show (0 : Int) = ((0 : Nat) : Int) from rfl, read]
      exact if_neg (by omega)
  | succ yearOffset ih =>
      rw [decreaseYearOffset]
      have read := lookup_cumulativeYearDays inside
      push_cast at read
      rw [read]
      dsimp only [bind, Except.bind]
      by_cases less : n < yearStart (1970 + ((yearOffset : Int) + 1))
      · obtain ⟨found, le, result, low, high⟩ := ih (by omega) (by push_cast; exact less)
        exact ⟨found, by omega, (if_pos less).trans result, low, high⟩
      · exact ⟨yearOffset + 1, Nat.le_refl _, if_neg less, by push_cast; omega, above⟩

/-- A year is no shorter than it is assumed to be for the first offset. -/
theorem yearStart_ge (inside : years ≤ 401) : 365 * (years : Int) ≤ yearStart (1970 + years) := by
  unfold yearStart daysBeforeYear
  omega

theorem yearStart_le (inside : years ≤ 401) : yearStart (1970 + years) ≤ 146462 := by
  unfold yearStart daysBeforeYear
  omega

/-- The year of a day: its cycle of 400 years, and its place in the cycle. -/
theorem extractYearOffset_spec {days : Int} (low : -2 ^ 31 ≤ days) (high : days ≤ 2 ^ 31 - 1) :
    ∃ (n cycles : Int) (yearOffset : Nat), extractYearOffset days =
        .ok (n, 1970 + 400 * cycles + yearOffset, yearOffset) ∧
      days = n + 146097 * cycles ∧ yearOffset ≤ 399 ∧ yearStart (1970 + yearOffset) ≤ n ∧
      n < yearStart (1970 + (yearOffset + 1 : Nat)) := by
  have cycle : (raise days epochYear >>= fun pair => lower pair.1 pair.2) = .ok (days % 146097, 1970 + 400 * (days / 146097)) := by
    by_cases below : days < daysPerYearInterval
    · rw [@raise_eq days epochYear below (by unfold daysPerYearInterval epochYear; omega) (le_refl _)]
      dsimp only [bind, Except.bind]
      unfold daysPerYearInterval epochYear
      rw [lower_eq (by omega) (by unfold daysPerYearInterval; omega) (by omega) (by omega)]
      unfold daysPerYearInterval
      congr 2 <;> omega
    · unfold daysPerYearInterval at below
      rw [raise, if_neg (by omega)]
      dsimp only [bind, Except.bind]
      rw [lower_eq (by omega) (by unfold daysPerYearInterval epochYear; omega)
        (by unfold epochYear; omega) high]
      rfl
  have natural : 0 ≤ days % 146097 := Int.emod_nonneg _ (by decide)
  have small : days % 146097 < 146097 := Int.emod_lt_of_pos _ (by decide)
  have whole : days % 146097 + 146097 * (days / 146097) = days := Int.emod_add_mul_ediv _ _
  generalize days % 146097 = n at *
  generalize days / 146097 = cycles at *
  have first : (n.tdiv 365).toNat ≤ 400 := by
    rw [Int.tdiv_eq_ediv_of_nonneg natural]
    omega
  have assumed := yearStart_ge (Nat.succ_le_succ first)
  obtain ⟨yearOffset, le, decreased, year_low, year_high⟩ := decreaseYearOffset_spec natural first
    (lt_of_lt_of_le (by
      rw [Int.tdiv_eq_ediv_of_nonneg natural]
      omega) assumed)
  have last : yearStart (1970 + (400 : Nat)) = 146097 := by decide
  have inside : yearOffset ≤ 399 := by
    by_contra outside
    have four_hundred : yearOffset = 400 := by omega
    rw [four_hundred, last] at year_low
    omega
  refine ⟨n, cycles, yearOffset, ?_, whole.symm, inside, year_low, year_high⟩
  unfold extractYearOffset
  cases raised : raise days epochYear with
  | error failure =>
      rw [raised] at cycle
      cases cycle
  | ok pair =>
      rw [raised] at cycle
      dsimp only [bind, Except.bind] at cycle ⊢
      rw [cycle]
      dsimp only
      rw [decreased]
      dsimp only
      rw [int32_of_range (by omega) (by omega)]

/-- A date of a year, given as the day of the year. -/
theorem exists_civilDate {day : Nat} (positive : 1 ≤ month) (inside : month ≤ 12)
    (before : daysBeforeMonth year month ≤ day)
    (behind : day < daysBeforeMonth year month + daysInMonth year month) :
    ∃ date : CivilDate, date.year = year ∧ date.month = month ∧
      date.day = day - daysBeforeMonth year month + 1 ∧
      date.number = daysBeforeYear year + day :=
  ⟨⟨year, month, day - daysBeforeMonth year month + 1, positive, inside, by omega, by omega⟩, rfl,
    rfl, rfl, by unfold CivilDate.number; dsimp only; omega⟩

/-- The month and the day of a day of the year, from the tables of years of the same length. -/
theorem convert_month {year model : Int} (same : IsLeapYear model ↔ IsLeapYear year)
    {months cumulative : List Int}
    (table : (months.zipIdx.all fun entry => dayInMonth model entry.1 entry.2) = true)
    (starts : ∀ {month : Nat}, 1 ≤ month → month ≤ 12 →
      lookup cumulative ((month : Int) - 1) = .ok (daysBeforeMonth model month : Nat))
    {day : Nat} (inside : day < months.length) (small : day < 366) :
    ∃ date : CivilDate, (do
        let month ← lookup months day
        let day ← int32 (day - (← lookup cumulative (month - 1)))
        .ok (year, month, ← int32 (day + 1))) =
        .ok (date.year, (date.month : Int), (date.day : Int)) ∧
      date.number = daysBeforeYear year + day := by
  obtain ⟨month, positive, le, read, before, behind⟩ := lookup_months table inside
  rw [daysBeforeMonth_congr same] at before
  rw [daysBeforeMonth_congr same, daysInMonth_congr same] at behind
  obtain ⟨date, rfl, rfl, date_day, number⟩ := exists_civilDate positive le before behind
  refine ⟨date, ?_, number⟩
  rw [read]
  dsimp only [bind, Except.bind]
  rw [starts positive le, daysBeforeMonth_congr same]
  dsimp only
  rw [int32_of_range (by omega) (by omega)]
  dsimp only
  have day_of_month : (day : Int) - daysBeforeMonth date.year date.month + 1 = date.day := by omega
  rw [int32_of_range (by omega) (by omega), day_of_month]

/-- `Convert` gives the date that has the number. -/
theorem convert_spec {days : Int} (low : -2 ^ 31 ≤ days) (high : days ≤ 2 ^ 31 - 1) :
    ∃ date : CivilDate, convert days = .ok (date.year, (date.month : Int), (date.day : Int)) ∧
      dayNumber date = days := by
  obtain ⟨n, cycles, yearOffset, extracted, whole, inside, year_low, year_high⟩ :=
    extractYearOffset_spec low high
  have year : 1970 + 400 * cycles + yearOffset = 1970 + (yearOffset : Int) + 400 * cycles := by omega
  have start := lookup_cumulativeYearDays (show yearOffset ≤ 400 by omega)
  have stop := lookup_cumulativeYearDays (show yearOffset + 1 ≤ 400 by omega)
  have next : yearStart (1970 + (yearOffset + 1 : Nat)) =
      yearStart (1970 + yearOffset) + daysInYear (1970 + yearOffset) := by
    have succ := daysBeforeYear_succ (1970 + yearOffset)
    unfold yearStart
    push_cast
    rw [← Int.add_assoc, succ]
    omega
  have cycled := daysBeforeYear_add (1970 + yearOffset) cycles
  have leap_iff := isLeapYear_add (1970 + yearOffset) cycles
  have epoch : epochDate.number = daysBeforeYear 1970 := by decide
  rw [next] at stop year_high
  rw [year] at extracted
  obtain ⟨day, day_eq⟩ : ∃ day : Nat, n - yearStart (1970 + yearOffset) = day :=
    ⟨(n - yearStart (1970 + yearOffset)).toNat, (Int.toNat_of_nonneg (by omega)).symm⟩
  have day_lt : day < daysInYear (1970 + yearOffset) := by omega
  unfold convert dayNumber
  rw [extracted]
  dsimp only [bind, Except.bind]
  push_cast at stop
  rw [start, stop]
  dsimp only
  rw [day_eq, epoch]
  unfold yearStart at day_eq
  by_cases leap : IsLeapYear (1970 + yearOffset)
  · have length : daysInYear (1970 + yearOffset) = 366 := if_pos leap
    obtain ⟨date, converted, number⟩ := @convert_month (1970 + yearOffset + 400 * cycles) _
      (iff_of_true (by decide) (leap_iff.mpr leap)) _ _ months_checked.2.2
      lookup_cumulativeLeapDays day (by rw [months_checked.2.1]; omega) (by omega)
    refine ⟨date, ?_, by omega⟩
    rw [int32_of_range (by omega) (by omega), int32_of_range (by omega) (by omega)]
    dsimp only
    rw [if_pos (by omega)]
    exact converted
  · have length : daysInYear (1970 + yearOffset) = 365 := if_neg leap
    obtain ⟨date, converted, number⟩ := @convert_month (1970 + yearOffset + 400 * cycles) _
      (iff_of_false (by decide) (fun other => leap (leap_iff.mp other))) _ _ months_checked.1.2
      lookup_cumulativeDays day (by rw [months_checked.1.1]; omega) (by omega)
    refine ⟨date, ?_, by omega⟩
    rw [int32_of_range (by omega) (by omega), int32_of_range (by omega) (by omega)]
    dsimp only
    rw [if_neg (by omega)]
    exact converted

/-! ## To days -/

theorem isLeapYear_iff (year : Int) : isLeapYear year = true ↔ IsLeapYear year := by
  simp only [isLeapYear, IsLeapYear, Bool.and_eq_true, Bool.or_eq_true, beq_iff_eq, bne_iff_ne,
    ne_eq, ← Int.dvd_iff_tmod_eq_zero]

/-- The least and the greatest date that is finite. -/
def minDate : CivilDate := ⟨-5877641, 6, 25, by decide, by decide, by decide, by decide⟩

def maxDate : CivilDate := ⟨5881580, 7, 10, by decide, by decide, by decide, by decide⟩

theorem dayNumber_minDate : dayNumber minDate = ninfinity + 1 := by decide

theorem dayNumber_maxDate : dayNumber maxDate = infinity - 1 := by decide

/-- A date between the infinities. -/
def Representable (date : CivilDate) : Prop :=
  ninfinity < dayNumber date ∧ dayNumber date < infinity

theorem representable_iff (date : CivilDate) :
    Representable date ↔ ¬ date.Before minDate ∧ ¬ maxDate.Before date := by
  rw [← CivilDate.number_lt_iff, ← CivilDate.number_lt_iff]
  have least := dayNumber_minDate
  have greatest := dayNumber_maxDate
  unfold Representable dayNumber at *
  omega

/-- The numbers given are those of a date. -/
def IsDate (date : CivilDate) (year month day : Int) : Prop :=
  date.year = year ∧ (date.month : Int) = month ∧ (date.day : Int) = day

theorem exists_isDate_iff (year month day : Int) : (∃ date, IsDate date year month day) ↔
    1 ≤ month ∧ month ≤ 12 ∧ 1 ≤ day ∧ day ≤ daysInMonth year month.toNat := by
  constructor
  · rintro ⟨date, rfl, rfl, rfl⟩
    have month_pos := date.month_pos
    have month_le := date.month_le
    have day_pos := date.day_pos
    have day_le := date.day_le
    rw [Int.toNat_natCast]
    omega
  · rintro ⟨month_pos, month_le, day_pos, day_le⟩
    exact ⟨⟨year, month.toNat, day.toNat, by omega, by omega, by omega, by omega⟩, rfl,
      Int.toNat_of_nonneg (by omega), Int.toNat_of_nonneg (by omega)⟩

/-- `LEAP_DAYS` and `NORMAL_DAYS` at a month. -/
theorem lookup_monthDays (year : Int) {month : Int} (low : 1 ≤ month) (high : month ≤ 12) :
    lookup (if isLeapYear year then leapDays else normalDays) month =
      .ok (daysInMonth year month.toNat : Nat) := by
  obtain ⟨month, rfl⟩ := Int.eq_ofNat_of_zero_le (show 0 ≤ month by omega)
  rw [Int.toNat_natCast]
  by_cases leap : IsLeapYear year
  · rw [if_pos ((isLeapYear_iff year).mpr leap), lookup_leapDays (by omega) (by omega),
      daysInMonth_congr (iff_of_true (by decide) leap)]
  · rw [if_neg (mt (isLeapYear_iff year).mp leap), lookup_normalDays (by omega) (by omega),
      daysInMonth_congr (iff_of_false (by decide) leap)]

theorem lookup_monthStart (year : Int) (positive : 1 ≤ month) (inside : month ≤ 12) :
    lookup (if isLeapYear year then cumulativeLeapDays else cumulativeDays) ((month : Int) - 1) =
      .ok (daysBeforeMonth year month : Nat) := by
  by_cases leap : IsLeapYear year
  · rw [if_pos ((isLeapYear_iff year).mpr leap), lookup_cumulativeLeapDays positive inside,
      daysBeforeMonth_congr (iff_of_true (by decide) leap)]
  · rw [if_neg (mt (isLeapYear_iff year).mp leap), lookup_cumulativeDays positive inside,
      daysBeforeMonth_congr (iff_of_false (by decide) leap)]

/-- `IsValid` holds of the dates between the infinities. -/
theorem isValid_spec (year month day : Int) : ∃ valid, isValid year month day = .ok valid ∧
    (valid = true ↔ ∃ date, IsDate date year month day ∧ Representable date) := by
  have outside : ∀ bad : ¬ ∃ date, IsDate date year month day ∧ Representable date,
      (false = true ↔ ∃ date, IsDate date year month day ∧ Representable date) := by
    intro bad
    exact iff_of_false Bool.false_ne_true bad
  have before : ∀ date, IsDate date year month day → (Representable date ↔
      ¬ (year < -5877641 ∨ year = -5877641 ∧ (month < 6 ∨ month = 6 ∧ day < 25)) ∧
      ¬ (5881580 < year ∨ year = 5881580 ∧ (7 < month ∨ month = 7 ∧ 10 < day))) := by
    rintro date ⟨rfl, rfl, rfl⟩
    rw [representable_iff]
    unfold CivilDate.Before minDate maxDate
    dsimp only
    omega
  have date_iff := exists_isDate_iff year month day
  unfold isValid dateMinYear dateMinMonth dateMinDay dateMaxYear dateMaxMonth dateMaxDay
  by_cases no_month : month < 1 ∨ 12 < month
  · refine ⟨false, if_pos no_month, outside ?_⟩
    rintro ⟨date, is_date, -⟩
    have bounds := date_iff.mp ⟨date, is_date⟩
    omega
  rw [if_neg no_month]
  by_cases no_day : day < 1
  · refine ⟨false, if_pos no_day, outside ?_⟩
    rintro ⟨date, is_date, -⟩
    have bounds := date_iff.mp ⟨date, is_date⟩
    omega
  rw [if_neg no_day]
  by_cases early : year < -5877641
  · refine ⟨false, if_pos early, outside ?_⟩
    rintro ⟨date, is_date, representable⟩
    exact ((before date is_date).mp representable).1 (Or.inl early)
  rw [if_neg early]
  by_cases early_day : year = -5877641 ∧ (month < 6 ∨ month = 6 ∧ day < 25)
  · refine ⟨false, if_pos early_day, outside ?_⟩
    rintro ⟨date, is_date, representable⟩
    exact ((before date is_date).mp representable).1 (Or.inr early_day)
  rw [if_neg early_day]
  by_cases late : 5881580 < year
  · refine ⟨false, if_pos late, outside ?_⟩
    rintro ⟨date, is_date, representable⟩
    exact ((before date is_date).mp representable).2 (Or.inl late)
  rw [if_neg late]
  by_cases late_day : year = 5881580 ∧ (7 < month ∨ month = 7 ∧ 10 < day)
  · refine ⟨false, if_pos late_day, outside ?_⟩
    rintro ⟨date, is_date, representable⟩
    exact ((before date is_date).mp representable).2 (Or.inr late_day)
  rw [if_neg late_day]
  have read := lookup_monthDays year (show 1 ≤ month by omega) (show month ≤ 12 by omega)
  refine ⟨decide (day ≤ daysInMonth year month.toNat), ?_, ?_⟩
  · cases leap : isLeapYear year with
    | true =>
        rw [leap] at read
        rw [if_pos rfl] at read ⊢
        rw [read]
        rfl
    | false =>
        rw [leap] at read
        rw [if_neg Bool.false_ne_true] at read ⊢
        rw [read]
        rfl
  · rw [decide_eq_true_iff]
    constructor
    · intro short
      obtain ⟨date, is_date⟩ := date_iff.mpr (by omega)
      refine ⟨date, is_date, (before date is_date).mpr ⟨?_, ?_⟩⟩
      · rintro (year_before | day_before)
        · exact early year_before
        · exact early_day day_before
      · rintro (year_behind | day_behind)
        · exact late year_behind
        · exact late_day day_behind
    · rintro ⟨date, is_date, -⟩
      exact (date_iff.mp ⟨date, is_date⟩).2.2.2

/-- The years are added in 32 bits, for every year and day that a finite date has. -/
theorem addYears_eq (natural : 0 ≤ n) (small : n < 366) (low : -2 ^ 31 ≤ n + yearStart year)
    (high : n + yearStart year ≤ 2 ^ 31 - 1) (year_low : -5877641 ≤ year)
    (year_high : year ≤ 5881580) : addYears year n = .ok (n + yearStart year) := by
  unfold addYears daysPerYearInterval
  by_cases early : year < 1970
  · rw [if_pos early, int32_of_range (by omega) (by omega)]
    dsimp only [bind, Except.bind]
    rw [Int.tmod_eq_emod_of_nonneg (by omega), Int.tdiv_eq_ediv_of_nonneg (by omega),
      int32_of_range (by omega) (by omega)]
    dsimp only
    have read := lookup_cumulativeYearDays (show (400 - (1970 - year) % 400).toNat ≤ 400 by omega)
    have range := yearStart_ge (show (400 - (1970 - year) % 400).toNat ≤ 401 by omega)
    have cycles := daysBeforeYear_add (1970 + (400 - (1970 - year) % 400))
      (-((1970 - year) / 400) - 1)
    rw [show 1970 + (400 - (1970 - year) % 400) + 400 * (-((1970 - year) / 400) - 1) = year
      by omega] at cycles
    rw [Int.toNat_of_nonneg (by omega)] at read range
    rw [read]
    have year_start : yearStart year = yearStart (1970 + (400 - (1970 - year) % 400)) +
        146097 * (-((1970 - year) / 400) - 1) := by
      unfold yearStart
      omega
    have top := yearStart_le (show (400 - (1970 - year) % 400).toNat ≤ 401 by omega)
    rw [Int.toNat_of_nonneg (by omega)] at top
    generalize yearStart (1970 + (400 - (1970 - year) % 400)) = start at *
    dsimp only
    rw [int32_of_range (by omega) (by omega)]
    dsimp only
    rw [int32_of_range (by omega) (by omega)]
    dsimp only
    rw [int32_of_range (by omega) (by omega)]
    dsimp only
    rw [int32_of_range (by omega) (by omega)]
    congr 1
    omega
  · rw [if_neg early]
    by_cases late : 2370 ≤ year
    · rw [if_pos late, int32_of_range (by omega) (by omega)]
      dsimp only [bind, Except.bind]
      rw [Int.tmod_eq_emod_of_nonneg (by omega), Int.tdiv_eq_ediv_of_nonneg (by omega)]
      have read := lookup_cumulativeYearDays (show ((year - 2370) % 400).toNat ≤ 400 by omega)
      have range := yearStart_ge (show ((year - 2370) % 400).toNat ≤ 401 by omega)
      have top := yearStart_le (show ((year - 2370) % 400).toNat ≤ 401 by omega)
      have cycles := daysBeforeYear_add (1970 + (year - 2370) % 400) ((year - 2370) / 400 + 1)
      rw [show 1970 + (year - 2370) % 400 + 400 * ((year - 2370) / 400 + 1) = year
        by omega] at cycles
      rw [Int.toNat_of_nonneg (by omega)] at read range top
      rw [read]
      have year_start : yearStart year = yearStart (1970 + (year - 2370) % 400) +
          146097 * ((year - 2370) / 400 + 1) := by
        unfold yearStart
        omega
      generalize yearStart (1970 + (year - 2370) % 400) = start at *
      dsimp only
      rw [int32_of_range (by omega) (by omega)]
      dsimp only
      rw [int32_of_range (by omega) (by omega)]
      dsimp only
      rw [int32_of_range (by omega) (by omega)]
      dsimp only
      rw [int32_of_range (by omega) (by omega)]
      congr 1
      omega
    · rw [if_neg late]
      have read := lookup_cumulativeYearDays (show (year - 1970).toNat ≤ 400 by omega)
      rw [Int.toNat_of_nonneg (by omega), show 1970 + (year - 1970) = year by omega] at read
      dsimp only [bind, Except.bind]
      rw [read]
      exact int32_of_range low high

/-- The day of the year and the year of a date make its number. -/
theorem dayNumber_eq (date : CivilDate) : dayNumber date =
    (daysBeforeMonth date.year date.month : Nat) + ((date.day : Int) - 1) + yearStart date.year := by
  have positive := date.day_pos
  have epoch : epochDate.number = daysBeforeYear 1970 := by decide
  unfold dayNumber
  rw [epoch]
  unfold CivilDate.number yearStart
  omega

theorem tryFromDate_of_isDate {date : CivilDate} {month day : Int}
    (is_date : IsDate date year month day) (representable : Representable date) :
    tryFromDate year month day = .ok (some (dayNumber date)) := by
  obtain ⟨valid, checked, valid_iff⟩ := isValid_spec year month day
  have accepted : valid = true := valid_iff.mpr ⟨date, is_date, representable⟩
  rw [accepted] at checked
  obtain ⟨rfl, rfl, rfl⟩ := is_date
  have bounds := (representable_iff date).mp representable
  have positive := date.day_pos
  have month_pos := date.month_pos
  have month_le := date.month_le
  have number := dayNumber_eq date
  have day_of_year := date.dayOfYear_lt
  have days : daysInYear date.year ≤ 366 := by
    unfold daysInYear
    split <;> decide
  have year_range : -5877641 ≤ date.year ∧ date.year ≤ 5881580 := by
    unfold CivilDate.Before minDate maxDate at bounds
    dsimp only at bounds
    omega
  unfold Representable infinity ninfinity infinity at representable
  unfold tryFromDate
  rw [checked]
  dsimp only [bind, Except.bind]
  rw [if_neg (by decide), lookup_monthStart date.year month_pos month_le]
  dsimp only
  rw [int32_of_range (by omega) (by omega)]
  dsimp only
  rw [int32_of_range (by omega) (by omega)]
  dsimp only
  rw [int32_of_range (by omega) (by omega)]
  dsimp only
  rw [addYears_eq (by omega) (by omega) (by omega) (by omega) year_range.1 year_range.2]
  dsimp only
  rw [number]
  congr 2
  omega

/-- `TryFromDate` returns the numbers of the dates between the infinities, and nothing else. -/
theorem tryFromDate_spec (year month day : Int) : ∃ outcome,
    tryFromDate year month day = .ok outcome ∧ ∀ n, outcome = some n ↔
      ∃ date, IsDate date year month day ∧ Representable date ∧ dayNumber date = n := by
  obtain ⟨valid, checked, valid_iff⟩ := isValid_spec year month day
  cases valid with
  | true =>
      obtain ⟨date, is_date, representable⟩ := valid_iff.mp rfl
      refine ⟨_, tryFromDate_of_isDate is_date representable, fun n => ?_⟩
      constructor
      · intro same
        exact ⟨date, is_date, representable, Option.some.inj same⟩
      · rintro ⟨other, ⟨rfl, same_month, same_day⟩, -, rfl⟩
        obtain ⟨same_year, month_eq, day_eq⟩ := is_date
        have equal : date = other := by
          rw [CivilDate.ext_iff]
          omega
        rw [equal]
  | false =>
      refine ⟨none, ?_, fun n => ?_⟩
      · unfold tryFromDate
        rw [checked]
        rfl
      · refine iff_of_false (by simp) ?_
        rintro ⟨date, is_date, representable, -⟩
        exact absurd (valid_iff.mpr ⟨date, is_date, representable⟩) Bool.false_ne_true

/-- The order of three numbers, the first of them before all. -/
def LexBefore (year month day otherYear otherMonth otherDay : Int) : Prop :=
  year < otherYear ∨ year = otherYear ∧
    (month < otherMonth ∨ month = otherMonth ∧ day < otherDay)

theorem tryFromDate_lt_iff {month day otherYear otherMonth otherDay other : Int}
    (first : tryFromDate year month day = .ok (some n))
    (second : tryFromDate otherYear otherMonth otherDay = .ok (some other)) :
    n < other ↔ LexBefore year month day otherYear otherMonth otherDay := by
  obtain ⟨outcome, result, number⟩ := tryFromDate_spec year month day
  obtain ⟨otherOutcome, otherResult, otherNumber⟩ := tryFromDate_spec otherYear otherMonth otherDay
  rw [first] at result
  rw [second] at otherResult
  obtain ⟨date, ⟨rfl, rfl, rfl⟩, -, rfl⟩ := (number n).mp (Except.ok.inj result).symm
  obtain ⟨later, ⟨rfl, rfl, rfl⟩, -, rfl⟩ := (otherNumber other).mp (Except.ok.inj otherResult).symm
  have ordered := CivilDate.number_lt_iff date later
  unfold dayNumber LexBefore
  unfold CivilDate.Before at ordered
  omega

end Date

end StatsRecommender
