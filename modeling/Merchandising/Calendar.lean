/-
  Days and dates of the Gregorian calendar, extended to all years it is kept for.

  A `Day` counts days since 1970-01-01.  `Date.ofDay` and `Date.toDay` convert between a day and
  its year, month and day of month; years start in March while they compute, so that a leap day is
  the last day of its year.  `Date.text` writes a date as `year-month-day`.
-/

namespace Merchandising

/-- Days since 1970-01-01. -/
abbrev Day := Int

/-- A day as year, month and day of month. -/
structure Date where
  year : Int
  month : Nat
  day : Nat
  deriving DecidableEq, Repr

namespace Date

/-- The date of a day. -/
def ofDay (d : Day) : Date :=
  let z := d + 719468
  let era := z.fdiv 146097
  let dayOfEra := (z.fmod 146097).toNat
  let yearOfEra := (dayOfEra - dayOfEra / 1460 + dayOfEra / 36524 - dayOfEra / 146096) / 365
  let dayOfYear := dayOfEra - (365 * yearOfEra + yearOfEra / 4 - yearOfEra / 100)
  let shifted := (5 * dayOfYear + 2) / 153
  let day := dayOfYear - (153 * shifted + 2) / 5 + 1
  let month := if shifted < 10 then shifted + 3 else shifted - 9
  ⟨yearOfEra + 400 * era + (if month ≤ 2 then 1 else 0), month, day⟩

/-- The day of a date. -/
def toDay (date : Date) : Day :=
  let y := if date.month ≤ 2 then date.year - 1 else date.year
  let era := y.fdiv 400
  let yearOfEra := (y.fmod 400).toNat
  let shifted := if 2 < date.month then date.month - 3 else date.month + 9
  let dayOfYear := (153 * shifted + 2) / 5 + date.day - 1
  let dayOfEra := 365 * yearOfEra + yearOfEra / 4 - yearOfEra / 100 + dayOfYear
  146097 * era + dayOfEra - 719468

/-- A number with at least `width` digits. -/
def padded (width n : Nat) : List Char :=
  let ds := Nat.toDigits 10 n
  List.replicate (width - ds.length) '0' ++ ds

/-- A year with at least four digits, and a sign unless it has exactly four and is not negative. -/
def yearText (y : Int) : List Char :=
  if y < 0 then '-' :: padded 4 y.natAbs
  else if y ≤ 9999 then padded 4 y.natAbs
  else '+' :: padded 4 y.natAbs

/-- A date as `year-month-day`. -/
def text (date : Date) : String :=
  String.ofList (yearText date.year ++ '-' :: padded 2 date.month ++ '-' :: padded 2 date.day)

end Date

namespace Calendar

/-- The first day that the calendar is kept for. -/
def first : Day := Date.toDay ⟨-262143, 1, 1⟩

/-- The last day that the calendar is kept for. -/
def last : Day := Date.toDay ⟨262142, 12, 31⟩

/-- Whether the calendar is kept for a day. -/
def holds (d : Day) : Bool :=
  first ≤ d && d ≤ last

/-- The day of a moment given in seconds since the start of 1970-01-01. -/
def dayOfSeconds (s : Int) : Day :=
  s.fdiv 86400

end Calendar

end Merchandising
