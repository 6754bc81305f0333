import Mathlib.Algebra.Order.Ring.Nat
import Mathlib.Data.Int.ConditionallyCompleteOrder

/-!
# Dates

`common/types/date.cpp` and `DateToStringCast` of `common/types/cast_helpers.hpp`: dates as 32-bit
numbers of days, as years, months and days, and as texts.  What the language leaves undefined, an
overflow of a signed number or a read outside of a table, is an error here.
-/

namespace StatsRecommender

/-- What ends a function without a date: undefined behavior, a cast result, or an exception. -/
inductive DateError where
  | signedOverflow
  | outOfBounds
  | incorrectFormat
  | range
  | conversionException (message : String)
  deriving DecidableEq, Repr

namespace Date

/-- The result of an operation on numbers of 32 bits. -/
def int32 (value : Int) : Except DateError Int :=
  if -2 ^ 31 ≤ value ∧ value ≤ 2 ^ 31 - 1 then .ok value else .error .signedOverflow

/-- `date_t::infinity`. -/
def infinity : Int := 2 ^ 31 - 1

/-- `date_t::ninfinity`. -/
def ninfinity : Int := -infinity

/-- `date_t::epoch`. -/
def epoch : Int := 0

/-! ## Tables -/

def normalDays : List Int :=
  [0, 31, 28, 31, 30, 31, 30, 31, 31, 30, 31, 30, 31]

def cumulativeDays : List Int :=
  [0, 31, 59, 90, 120, 151, 181, 212, 243, 273, 304, 334, 365]

def leapDays : List Int :=
  [0, 31, 29, 31, 30, 31, 30, 31, 31, 30, 31, 30, 31]

def cumulativeLeapDays : List Int :=
  [0, 31, 60, 91, 121, 152, 182, 213, 244, 274, 305, 335, 366]

def monthPerDayOfYear : List Int :=
  [1, 1, 1, 1, 1, 1, 1, 1, 1, 1, 1, 1, 1, 1, 1, 1, 1, 1, 1, 1, 1, 1, 1, 1, 1, 1, 1, 1, 1, 1, 1, 2,
    2, 2, 2, 2, 2, 2, 2, 2, 2, 2, 2, 2, 2, 2, 2, 2, 2, 2, 2, 2, 2, 2, 2, 2, 2, 2, 2, 3, 3, 3, 3,
    3, 3, 3, 3, 3, 3, 3, 3, 3, 3, 3, 3, 3, 3, 3, 3, 3, 3, 3, 3, 3, 3, 3, 3, 3, 3, 3, 4, 4, 4, 4,
    4, 4, 4, 4, 4, 4, 4, 4, 4, 4, 4, 4, 4, 4, 4, 4, 4, 4, 4, 4, 4, 4, 4, 4, 4, 4, 5, 5, 5, 5, 5,
    5, 5, 5, 5, 5, 5, 5, 5, 5, 5, 5, 5, 5, 5, 5, 5, 5, 5, 5, 5, 5, 5, 5, 5, 5, 5, 6, 6, 6, 6, 6,
    6, 6, 6, 6, 6, 6, 6, 6, 6, 6, 6, 6, 6, 6, 6, 6, 6, 6, 6, 6, 6, 6, 6, 6, 6, 7, 7, 7, 7, 7, 7,
    7, 7, 7, 7, 7, 7, 7, 7, 7, 7, 7, 7, 7, 7, 7, 7, 7, 7, 7, 7, 7, 7, 7, 7, 7, 8, 8, 8, 8, 8, 8,
    8, 8, 8, 8, 8, 8, 8, 8, 8, 8, 8, 8, 8, 8, 8, 8, 8, 8, 8, 8, 8, 8, 8, 8, 8, 9, 9, 9, 9, 9, 9,
    9, 9, 9, 9, 9, 9, 9, 9, 9, 9, 9, 9, 9, 9, 9, 9, 9, 9, 9, 9, 9, 9, 9, 9, 10, 10, 10, 10, 10,
    10, 10, 10, 10, 10, 10, 10, 10, 10, 10, 10, 10, 10, 10, 10, 10, 10, 10, 10, 10, 10, 10, 10,
    10, 10, 10, 11, 11, 11, 11, 11, 11, 11, 11, 11, 11, 11, 11, 11, 11, 11, 11, 11, 11, 11, 11,
    11, 11, 11, 11, 11, 11, 11, 11, 11, 11, 12, 12, 12, 12, 12, 12, 12, 12, 12, 12, 12, 12, 12,
    12, 12, 12, 12, 12, 12, 12, 12, 12, 12, 12, 12, 12, 12, 12, 12, 12, 12]

def leapMonthPerDayOfYear : List Int :=
  [1, 1, 1, 1, 1, 1, 1, 1, 1, 1, 1, 1, 1, 1, 1, 1, 1, 1, 1, 1, 1, 1, 1, 1, 1, 1, 1, 1, 1, 1, 1, 2,
    2, 2, 2, 2, 2, 2, 2, 2, 2, 2, 2, 2, 2, 2, 2, 2, 2, 2, 2, 2, 2, 2, 2, 2, 2, 2, 2, 2, 3, 3, 3,
    3, 3, 3, 3, 3, 3, 3, 3, 3, 3, 3, 3, 3, 3, 3, 3, 3, 3, 3, 3, 3, 3, 3, 3, 3, 3, 3, 3, 4, 4, 4,
    4, 4, 4, 4, 4, 4, 4, 4, 4, 4, 4, 4, 4, 4, 4, 4, 4, 4, 4, 4, 4, 4, 4, 4, 4, 4, 4, 5, 5, 5, 5,
    5, 5, 5, 5, 5, 5, 5, 5, 5, 5, 5, 5, 5, 5, 5, 5, 5, 5, 5, 5, 5, 5, 5, 5, 5, 5, 5, 6, 6, 6, 6,
    6, 6, 6, 6, 6, 6, 6, 6, 6, 6, 6, 6, 6, 6, 6, 6, 6, 6, 6, 6, 6, 6, 6, 6, 6, 6, 7, 7, 7, 7, 7,
    7, 7, 7, 7, 7, 7, 7, 7, 7, 7, 7, 7, 7, 7, 7, 7, 7, 7, 7, 7, 7, 7, 7, 7, 7, 7, 8, 8, 8, 8, 8,
    8, 8, 8, 8, 8, 8, 8, 8, 8, 8, 8, 8, 8, 8, 8, 8, 8, 8, 8, 8, 8, 8, 8, 8, 8, 8, 9, 9, 9, 9, 9,
    9, 9, 9, 9, 9, 9, 9, 9, 9, 9, 9, 9, 9, 9, 9, 9, 9, 9, 9, 9, 9, 9, 9, 9, 9, 10, 10, 10, 10, 10,
    10, 10, 10, 10, 10, 10, 10, 10, 10, 10, 10, 10, 10, 10, 10, 10, 10, 10, 10, 10, 10, 10, 10,
    10, 10, 10, 11, 11, 11, 11, 11, 11, 11, 11, 11, 11, 11, 11, 11, 11, 11, 11, 11, 11, 11, 11,
    11, 11, 11, 11, 11, 11, 11, 11, 11, 11, 12, 12, 12, 12, 12, 12, 12, 12, 12, 12, 12, 12, 12,
    12, 12, 12, 12, 12, 12, 12, 12, 12, 12, 12, 12, 12, 12, 12, 12, 12, 12]

def cumulativeYearDays : List Int :=
  [0, 365, 730, 1096, 1461, 1826, 2191, 2557, 2922, 3287, 3652, 4018, 4383, 4748, 5113, 5479,
    5844, 6209, 6574, 6940, 7305, 7670, 8035, 8401, 8766, 9131, 9496, 9862, 10227, 10592, 10957,
    11323, 11688, 12053, 12418, 12784, 13149, 13514, 13879, 14245, 14610, 14975, 15340, 15706,
    16071, 16436, 16801, 17167, 17532, 17897, 18262, 18628, 18993, 19358, 19723, 20089, 20454,
    20819, 21184, 21550, 21915, 22280, 22645, 23011, 23376, 23741, 24106, 24472, 24837, 25202,
    25567, 25933, 26298, 26663, 27028, 27394, 27759, 28124, 28489, 28855, 29220, 29585, 29950,
    30316, 30681, 31046, 31411, 31777, 32142, 32507, 32872, 33238, 33603, 33968, 34333, 34699,
    35064, 35429, 35794, 36160, 36525, 36890, 37255, 37621, 37986, 38351, 38716, 39082, 39447,
    39812, 40177, 40543, 40908, 41273, 41638, 42004, 42369, 42734, 43099, 43465, 43830, 44195,
    44560, 44926, 45291, 45656, 46021, 46387, 46752, 47117, 47482, 47847, 48212, 48577, 48942,
    49308, 49673, 50038, 50403, 50769, 51134, 51499, 51864, 52230, 52595, 52960, 53325, 53691,
    54056, 54421, 54786, 55152, 55517, 55882, 56247, 56613, 56978, 57343, 57708, 58074, 58439,
    58804, 59169, 59535, 59900, 60265, 60630, 60996, 61361, 61726, 62091, 62457, 62822, 63187,
    63552, 63918, 64283, 64648, 65013, 65379, 65744, 66109, 66474, 66840, 67205, 67570, 67935,
    68301, 68666, 69031, 69396, 69762, 70127, 70492, 70857, 71223, 71588, 71953, 72318, 72684,
    73049, 73414, 73779, 74145, 74510, 74875, 75240, 75606, 75971, 76336, 76701, 77067, 77432,
    77797, 78162, 78528, 78893, 79258, 79623, 79989, 80354, 80719, 81084, 81450, 81815, 82180,
    82545, 82911, 83276, 83641, 84006, 84371, 84736, 85101, 85466, 85832, 86197, 86562, 86927,
    87293, 87658, 88023, 88388, 88754, 89119, 89484, 89849, 90215, 90580, 90945, 91310, 91676,
    92041, 92406, 92771, 93137, 93502, 93867, 94232, 94598, 94963, 95328, 95693, 96059, 96424,
    96789, 97154, 97520, 97885, 98250, 98615, 98981, 99346, 99711, 100076, 100442, 100807, 101172,
    101537, 101903, 102268, 102633, 102998, 103364, 103729, 104094, 104459, 104825, 105190,
    105555, 105920, 106286, 106651, 107016, 107381, 107747, 108112, 108477, 108842, 109208,
    109573, 109938, 110303, 110669, 111034, 111399, 111764, 112130, 112495, 112860, 113225,
    113591, 113956, 114321, 114686, 115052, 115417, 115782, 116147, 116513, 116878, 117243,
    117608, 117974, 118339, 118704, 119069, 119435, 119800, 120165, 120530, 120895, 121260,
    121625, 121990, 122356, 122721, 123086, 123451, 123817, 124182, 124547, 124912, 125278,
    125643, 126008, 126373, 126739, 127104, 127469, 127834, 128200, 128565, 128930, 129295,
    129661, 130026, 130391, 130756, 131122, 131487, 131852, 132217, 132583, 132948, 133313,
    133678, 134044, 134409, 134774, 135139, 135505, 135870, 136235, 136600, 136966, 137331,
    137696, 138061, 138427, 138792, 139157, 139522, 139888, 140253, 140618, 140983, 141349,
    141714, 142079, 142444, 142810, 143175, 143540, 143905, 144271, 144636, 145001, 145366,
    145732, 146097]

/-- A read from a table. -/
def lookup (table : List Int) (index : Int) : Except DateError Int :=
  if index < 0 then .error .outOfBounds
  else match table[index.toNat]? with
    | some value => .ok value
    | none => .error .outOfBounds

def dateMinYear : Int := -5877641
def dateMinMonth : Int := 6
def dateMinDay : Int := 25
def dateMaxYear : Int := 5881580
def dateMaxMonth : Int := 7
def dateMaxDay : Int := 10
def epochYear : Int := 1970
def yearInterval : Int := 400
def daysPerYearInterval : Int := 146097

/-! ## Years, months and days -/

/-- The first loop of `ExtractYearOffset`. -/
def raise (n year : Int) : Except DateError (Int × Int) :=
  if n < 0 then do
    let _ ← int32 (n + daysPerYearInterval)
    let _ ← int32 (year - yearInterval)
    raise (n + daysPerYearInterval) (year - yearInterval)
  else .ok (n, year)
termination_by (-n).toNat
decreasing_by
  unfold daysPerYearInterval
  omega

/-- The second loop of `ExtractYearOffset`. -/
def lower (n year : Int) : Except DateError (Int × Int) :=
  if daysPerYearInterval ≤ n then do
    let _ ← int32 (n - daysPerYearInterval)
    let _ ← int32 (year + yearInterval)
    lower (n - daysPerYearInterval) (year + yearInterval)
  else .ok (n, year)
termination_by n.toNat
decreasing_by
  unfold daysPerYearInterval at *
  omega

/-- The last loop of `ExtractYearOffset`, from an offset that is not too small. -/
def decreaseYearOffset (n : Int) : Nat → Except DateError Int
  | 0 => do
      if n < (← lookup cumulativeYearDays 0) then .error .outOfBounds else .ok 0
  | yearOffset + 1 => do
      if n < (← lookup cumulativeYearDays (yearOffset + 1)) then decreaseYearOffset n yearOffset
      else .ok (yearOffset + 1)

/-- `ExtractYearOffset`: the day in the cycle of years, the year, and its place in the cycle. -/
def extractYearOffset (n : Int) : Except DateError (Int × Int × Int) := do
  let (n, year) ← raise n epochYear
  let (n, year) ← lower n year
  let yearOffset ← decreaseYearOffset n (n.tdiv 365).toNat
  let year ← int32 (year + yearOffset)
  .ok (n, year, yearOffset)

/-- `Convert`: year, month and day. -/
def convert (days : Int) : Except DateError (Int × Int × Int) := do
  let (n, year, yearOffset) ← extractYearOffset days
  let day ← int32 (n - (← lookup cumulativeYearDays yearOffset))
  let yearDays ← int32
    ((← lookup cumulativeYearDays (yearOffset + 1)) - (← lookup cumulativeYearDays yearOffset))
  if yearDays = 366 then
    let month ← lookup leapMonthPerDayOfYear day
    let day ← int32 (day - (← lookup cumulativeLeapDays (month - 1)))
    .ok (year, month, ← int32 (day + 1))
  else
    let month ← lookup monthPerDayOfYear day
    let day ← int32 (day - (← lookup cumulativeDays (month - 1)))
    .ok (year, month, ← int32 (day + 1))

/-- `IsLeapYear`. -/
def isLeapYear (year : Int) : Bool :=
  year.tmod 4 == 0 && (year.tmod 100 != 0 || year.tmod 400 == 0)

/-- `IsValid`. -/
def isValid (year month day : Int) : Except DateError Bool := do
  if month < 1 ∨ 12 < month then .ok false
  else if day < 1 then .ok false
  else if year < dateMinYear then .ok false
  else if year = dateMinYear ∧
      (month < dateMinMonth ∨ month = dateMinMonth ∧ day < dateMinDay) then .ok false
  else if dateMaxYear < year then .ok false
  else if year = dateMaxYear ∧
      (dateMaxMonth < month ∨ month = dateMaxMonth ∧ dateMaxDay < day) then .ok false
  else if isLeapYear year then .ok (decide (day ≤ (← lookup leapDays month)))
  else .ok (decide (day ≤ (← lookup normalDays month)))

/-- The days from the epoch to a year, added to a number of days. -/
def addYears (year n : Int) : Except DateError Int := do
  if year < 1970 then
    let diffFromBase ← int32 (1970 - year)
    let yearIndex ← int32 (400 - diffFromBase.tmod 400)
    let fractions := diffFromBase.tdiv 400
    let n ← int32 (n + (← lookup cumulativeYearDays yearIndex))
    let n ← int32 (n - daysPerYearInterval)
    int32 (n - (← int32 (fractions * daysPerYearInterval)))
  else if 2370 ≤ year then
    let diffFromBase ← int32 (year - 2370)
    let yearIndex := diffFromBase.tmod 400
    let fractions := diffFromBase.tdiv 400
    let n ← int32 (n + (← lookup cumulativeYearDays yearIndex))
    let n ← int32 (n + daysPerYearInterval)
    int32 (n + (← int32 (fractions * daysPerYearInterval)))
  else int32 (n + (← lookup cumulativeYearDays (year - 1970)))

/-- `TryFromDate`; none if it returns false. -/
def tryFromDate (year month day : Int) : Except DateError (Option Int) := do
  if !(← isValid year month day) then .ok none
  else
    let n ← int32 (0 + (← lookup (if isLeapYear year then cumulativeLeapDays else cumulativeDays)
      (month - 1)))
    let n ← int32 (n + (← int32 (day - 1)))
    .ok (some (← addYears year n))

/-! ## Texts -/

/-- `YearLength`: the year as it is written, its length, whether it is before the first year, and
the length of the text. -/
def yearLength (year : Int) : Except DateError (Int × Nat × Bool × Nat) := do
  let addBc := decide (year ≤ 0)
  let length := if addBc then 6 + 5 else 6
  let year ← if addBc then int32 (-year + 1) else .ok year
  let yearLength := 4 + (if 10000 ≤ year then 1 else 0) + (if 100000 ≤ year then 1 else 0) +
    (if 1000000 ≤ year then 1 else 0) + (if 10000000 ≤ year then 1 else 0)
  .ok (year, yearLength, addBc, length + yearLength)

/-- The digit of a number below ten. -/
def digit (value : Nat) : Char := Char.ofNat (48 + value)

/-- The two characters that the table `digits` has for a number below a hundred. -/
def twoDigits (value : Nat) : List Char := [digit (value / 10), digit (value % 10)]

/-- `FormatUnsigned`, in front of what was written before. -/
def formatUnsigned (value : Nat) (text : List Char) : List Char :=
  if 100 ≤ value then formatUnsigned (value / 100) (twoDigits (value % 100) ++ text)
  else if value < 10 then digit value :: text
  else twoDigits value ++ text
termination_by value

/-- `FormatComponent`. -/
def formatComponent (number : Nat) : List Char :=
  if number < 10 then ['-', '0', digit number] else '-' :: twoDigits number

/-- `DateToStringCast::Format`, into a buffer of the given length. -/
def format (length : Nat) (year month day : Int) (yearLength : Nat) (addBc : Bool) :
    Except DateError (List Char) :=
  let written := formatUnsigned year.toNat []
  if yearLength < written.length then .error .outOfBounds
  else
    let text := List.replicate (yearLength - written.length) '0' ++ written ++
      formatComponent month.toNat ++ formatComponent day.toNat ++
      (if addBc then " (BC)".toList else [])
    if text.length = length then .ok text else .error .outOfBounds

/-- `ToString`. -/
def toString (date : Int) : Except DateError (List Char) := do
  if date = infinity then .ok "infinity".toList
  else if date = ninfinity then .ok "-infinity".toList
  else
    let (year, month, day) ← convert date
    let (year, yearLength, addBc, length) ← yearLength year
    format length year month day yearLength addBc

def characterIsSpace (c : Char) : Bool := c == ' ' || (9 ≤ c.toNat && c.toNat ≤ 13)

def characterIsDigit (c : Char) : Bool := 48 ≤ c.toNat && c.toNat ≤ 57

def characterToLower (c : Char) : Char :=
  if 65 ≤ c.toNat ∧ c.toNat ≤ 90 then Char.ofNat (c.toNat + 32) else c

/-- The value of a digit. -/
def digitValue (c : Char) : Int := (c.toNat : Int) - 48

/-- `ParseDoubleDigit`, with what is left of the text. -/
def parseDoubleDigit : List Char → Except DateError (Int × List Char)
  | [] => .error .incorrectFormat
  | first :: rest =>
      if characterIsDigit first then
        match rest with
        | [] => .ok (digitValue first, [])
        | second :: others =>
            if characterIsDigit second then
              .ok (digitValue second + digitValue first * 10, others)
            else .ok (digitValue first, second :: others)
      else .error .incorrectFormat

/-- The loop of `TryConvertDateSpecial`: what is left of the text and of the word, and the length
of what was read. -/
def matchSpecial : List Char → List Char → Nat → Option (List Char × List Char × Nat)
  | c :: buf, s :: special, length =>
      if characterToLower c ≠ s then none else matchSpecial buf special (length + 1)
  | buf, special, length => some (buf, special, length)

/-- `TryConvertDateSpecial`, for a word and the length of its abbreviation. -/
def tryConvertDateSpecial (special : String) (abbr : Nat) (buf : List Char) :
    Option (List Char) := do
  let (buf, rest, length) ← matchSpecial buf special.toList 0
  if rest ≠ [] ∧ length ≠ abbr then none else some buf

/-- What `TryConvertDate` finds. -/
structure ParsedDate where
  result : Int
  special : Bool
  rest : List Char
  deriving DecidableEq, Repr

/-- The part of `TryConvertDate` for special values. -/
def convertSpecial (yearneg : Bool) (buf : List Char) : Except DateError ParsedDate :=
  let finish := fun result rest =>
    if List.dropWhile characterIsSpace rest = [] then Except.ok ⟨result, true, []⟩
    else .error .incorrectFormat
  match tryConvertDateSpecial "infinity" 3 buf with
  | some rest => finish (if yearneg then ninfinity else infinity) rest
  | none =>
      match tryConvertDateSpecial "epoch" 5 buf with
      | some rest => finish epoch rest
      | none => .error .incorrectFormat

/-- The loop over the digits of the year: the year, their number, and what is left. -/
def parseYear : List Char → Int → Nat → Except DateError (Int × Nat × List Char)
  | [], year, yearLength => .ok (year, yearLength, [])
  | c :: buf, year, yearLength =>
      if characterIsDigit c then
        if 100000000 ≤ year then .error .range
        else do
          let year ← int32 (digitValue c + (← int32 (year * 10)))
          parseYear buf year (yearLength + 1)
      else .ok (year, yearLength, c :: buf)

/-- The next character has to be there, and to be accepted. -/
def expect (accepts : Char → Bool) : List Char → Except DateError (Char × List Char)
  | [] => .error .incorrectFormat
  | c :: buf => if accepts c then .ok (c, buf) else .error .incorrectFormat

/-- The optional suffix of years before the first one; the year, and what is left. -/
def parseBc (yearneg : Bool) (year : Int) : List Char → Except DateError (Int × List Char)
  | space :: bracket :: b :: c :: closing :: buf =>
      if characterIsSpace space && bracket == '(' && characterToLower b == 'b' &&
          characterToLower c == 'c' && closing == ')' then
        if yearneg || year == 0 then .error .incorrectFormat
        else do .ok (← int32 (-year + 1), buf)
      else .ok (year, space :: bracket :: b :: c :: closing :: buf)
  | buf => .ok (year, buf)

/-- What may follow a date: spaces if the cast is strict, anything but a digit otherwise. -/
def parseEnd (strict : Bool) (buf : List Char) : Except DateError (List Char) :=
  if strict then
    if buf.dropWhile characterIsSpace = [] then .ok [] else .error .incorrectFormat
  else
    match buf with
    | c :: rest => if characterIsDigit c then .error .incorrectFormat else .ok (c :: rest)
    | [] => .ok []

/-- The part of `TryConvertDate` for dates that begin with a digit. -/
def convertDigits (strict yearneg : Bool) (buf : List Char) : Except DateError ParsedDate := do
  let (year, yearLength, buf) ← parseYear buf 0 0
  if yearLength < 2 ∧ strict then .error .incorrectFormat
  else
    let year ← if yearneg then int32 (-year) else .ok year
    let (sep, buf) ← expect (fun c => c == ' ' || c == '-' || c == '/' || c.toNat == 92) buf
    let (month, buf) ← parseDoubleDigit buf
    let (_, buf) ← expect (· == sep) buf
    let (day, buf) ← parseDoubleDigit buf
    let (year, buf) ← parseBc yearneg year buf
    let buf ← parseEnd strict buf
    match ← tryFromDate year month day with
    | some result => .ok ⟨result, false, buf⟩
    | none => .error .range

/-- `TryConvertDate`. -/
def tryConvertDate (buf : List Char) (strict : Bool) : Except DateError ParsedDate :=
  let convert := fun yearneg buf =>
    match buf with
    | [] => Except.error DateError.incorrectFormat
    | c :: rest =>
        if characterIsDigit c then convertDigits strict yearneg (c :: rest)
        else convertSpecial yearneg (c :: rest)
  match buf.dropWhile characterIsSpace with
  | [] => .error .incorrectFormat
  | c :: rest => if c = '-' then convert true rest else convert false (c :: rest)

/-- `FormatError`. -/
def formatError (text : List Char) : String :=
  "invalid date field format: \"" ++ String.ofList text ++
    "\", expected format is (YYYY-MM-DD)"

/-- `RangeError`. -/
def rangeError (text : List Char) : String :=
  "date field value out of range: \"" ++ String.ofList text ++ "\""

/-- `FromCString` and `FromString`. -/
def fromString (text : List Char) (strict : Bool) : Except DateError Int :=
  match tryConvertDate text strict with
  | .ok parsed => .ok parsed.result
  | .error .incorrectFormat => .error (.conversionException (formatError text))
  | .error .range => .error (.conversionException (rangeError text))
  | .error other => .error other

end Date

end StatsRecommender
