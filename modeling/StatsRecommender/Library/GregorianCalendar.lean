import Mathlib.Algebra.Order.Ring.Nat
import Mathlib.Data.Int.ConditionallyCompleteOrder

/-!
# The proleptic Gregorian calendar

The dates of the calendar for all years, the order of the dates, and their numbers, which count
the days.
-/

namespace GregorianCalendar

variable {year other : Int} {month : Nat}

/-- Every fourth year, but only every fourth of the centuries. -/
def IsLeapYear (year : Int) : Prop := 4 ∣ year ∧ (¬ 100 ∣ year ∨ 400 ∣ year)

instance (year : Int) : Decidable (IsLeapYear year) := by
  unfold IsLeapYear
  infer_instance

def daysInMonth (year : Int) (month : Nat) : Nat :=
  match month with
  | 2 => if IsLeapYear year then 29 else 28
  | 4 | 6 | 9 | 11 => 30
  | _ => 31

def daysInYear (year : Int) : Nat := if IsLeapYear year then 366 else 365

/-- A date of the calendar; the year before the first one is the year zero. -/
@[ext]
structure CivilDate where
  year : Int
  month : Nat
  day : Nat
  month_pos : 1 ≤ month
  month_le : month ≤ 12
  day_pos : 1 ≤ day
  day_le : day ≤ daysInMonth year month
  deriving DecidableEq, Repr

/-! ## Days -/

/-- The days from the first year to the beginning of a year. -/
def daysBeforeYear (year : Int) : Int :=
  365 * (year - 1) + (year - 1) / 4 - (year - 1) / 100 + (year - 1) / 400

/-- The days of a year before a month. -/
def daysBeforeMonth (year : Int) : Nat → Nat
  | 0 => 0
  | 1 => 0
  | month + 2 => daysBeforeMonth year (month + 1) + daysInMonth year (month + 1)

theorem daysBeforeYear_succ (year : Int) :
    daysBeforeYear (year + 1) = daysBeforeYear year + daysInYear year := by
  unfold daysBeforeYear daysInYear
  by_cases leap : IsLeapYear year
  · rw [if_pos leap]
    unfold IsLeapYear at leap
    omega
  · rw [if_neg leap]
    unfold IsLeapYear at leap
    omega

/-- The calendar repeats itself after 400 years. -/
theorem daysBeforeYear_add (year cycles : Int) :
    daysBeforeYear (year + 400 * cycles) = daysBeforeYear year + 146097 * cycles := by
  unfold daysBeforeYear
  omega

theorem isLeapYear_add (year cycles : Int) :
    IsLeapYear (year + 400 * cycles) ↔ IsLeapYear year := by
  unfold IsLeapYear
  omega

theorem daysBeforeYear_le (before : year < other) :
    daysBeforeYear year + daysInYear year ≤ daysBeforeYear other := by
  have step : daysBeforeYear (year + 1) ≤ daysBeforeYear other := by
    obtain ⟨later, rfl⟩ := Int.le.dest before
    induction later with
    | zero => exact (Int.add_zero (year + 1)).symm ▸ le_refl (daysBeforeYear (year + 1))
    | succ later ih =>
        have grown := daysBeforeYear_succ (year + 1 + later)
        rw [Int.natCast_succ, ← Int.add_assoc, grown]
        omega
  rwa [daysBeforeYear_succ] at step

theorem daysBeforeMonth_succ (year : Int) (positive : 1 ≤ month) :
    daysBeforeMonth year (month + 1) = daysBeforeMonth year month + daysInMonth year month := by
  obtain ⟨month, rfl⟩ := Nat.exists_eq_add_of_le' positive
  rfl

/-- The months make up the year. -/
theorem daysBeforeMonth_thirteen (year : Int) : daysBeforeMonth year 13 = daysInYear year := by
  simp only [daysBeforeMonth, daysInMonth, daysInYear]
  split <;> rfl

theorem daysBeforeMonth_le (year : Int) {other : Nat} (positive : 1 ≤ month)
    (before : month < other) :
    daysBeforeMonth year month + daysInMonth year month ≤ daysBeforeMonth year other := by
  rw [← daysBeforeMonth_succ year positive]
  induction other, before using Nat.le_induction with
  | base => exact Nat.le_refl _
  | succ later le ih =>
      have grown := daysBeforeMonth_succ year (show 1 ≤ later by omega)
      omega

/-- The months depend on the year only by its being a leap year. -/
theorem daysInMonth_congr (same : IsLeapYear year ↔ IsLeapYear other) (month : Nat) :
    daysInMonth year month = daysInMonth other month := by
  unfold daysInMonth
  simp only [same]

theorem daysBeforeMonth_congr (same : IsLeapYear year ↔ IsLeapYear other) (month : Nat) :
    daysBeforeMonth year month = daysBeforeMonth other month := by
  induction month using daysBeforeMonth.induct with
  | case1 => rfl
  | case2 => rfl
  | case3 month ih => rw [daysBeforeMonth, daysBeforeMonth, ih, daysInMonth_congr same]

theorem january_le : 1 ≤ 12 := by decide

/-! ## Numbers -/

namespace CivilDate

/-- The days from the first day of the first year. -/
def number (date : CivilDate) : Int :=
  daysBeforeYear date.year + daysBeforeMonth date.year date.month + (date.day - 1 : Nat)

/-- The order of years, then of months, then of days. -/
def Before (date other : CivilDate) : Prop :=
  date.year < other.year ∨ date.year = other.year ∧
    (date.month < other.month ∨ date.month = other.month ∧ date.day < other.day)

theorem dayOfYear_lt (date : CivilDate) :
    daysBeforeMonth date.year date.month + (date.day - 1) < daysInYear date.year := by
  have positive := date.day_pos
  have day_le := date.day_le
  have rest : daysBeforeMonth date.year date.month + daysInMonth date.year date.month ≤
      daysBeforeMonth date.year 13 :=
    daysBeforeMonth_le date.year date.month_pos (Nat.lt_succ_of_le date.month_le)
  rw [daysBeforeMonth_thirteen] at rest
  omega

theorem number_lt_of_before {date other : CivilDate} (before : date.Before other) :
    date.number < other.number := by
  have positive := date.day_pos
  rcases before with year | ⟨year, month | ⟨month, day⟩⟩
  · have inside := date.dayOfYear_lt
    have behind := daysBeforeYear_le year
    unfold number
    omega
  · have day_le := date.day_le
    have behind := daysBeforeMonth_le date.year date.month_pos month
    unfold number
    rw [← year]
    omega
  · unfold number
    rw [← year, ← month]
    omega

theorem before_trichotomy (date other : CivilDate) :
    date.Before other ∨ date = other ∨ other.Before date := by
  unfold Before
  rw [CivilDate.ext_iff]
  omega

/-- The numbers are ordered as the dates are. -/
theorem number_lt_iff (date other : CivilDate) : date.number < other.number ↔ date.Before other := by
  refine ⟨fun less => ?_, number_lt_of_before⟩
  rcases before_trichotomy date other with before | rfl | behind
  · exact before
  · exact absurd less (lt_irrefl _)
  · exact absurd less (lt_asymm (number_lt_of_before behind))

end CivilDate

end GregorianCalendar
