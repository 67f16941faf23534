/-!
# Points in time as text

The text of a point in time in universal time, to the second: `2024-02-29T23:59:59Z`. The calendar is
counted from 1 March of a year divisible by 400, so that a leap day is the last day of its year, and
400 years always have the same number of days.
-/

namespace JsonShape.Text.Instant

/-- A day of the calendar. -/
structure Day where
  /-- The year. -/
  year : Nat
  /-- The month, from 1. -/
  month : Nat
  /-- The day of the month, from 1. -/
  day : Nat
  deriving DecidableEq

/-- The days from 1 March of the year 0 to 1 January 1970. -/
def epoch : Nat := 719468

/-- The days of 400 years. -/
def daysOfCycle : Nat := 146097

/-- The day of the calendar that is a number of days after 1 January 1970. -/
def Day.ofNat (days : Nat) : Day :=
  let cycle := (days + epoch) / daysOfCycle
  let inCycle := (days + epoch) % daysOfCycle
  let year := (inCycle - inCycle / 1460 + inCycle / 36524 - inCycle / 146096) / 365
  let inYear := inCycle - (365 * year + year / 4 - year / 100)
  let month := (5 * inYear + 2) / 153
  let day := inYear - (153 * month + 2) / 5 + 1
  if month < 10 then ⟨cycle * 400 + year, month + 3, day⟩
  else ⟨cycle * 400 + year + 1, month - 9, day⟩

/-- A number in decimal digits, with zeros in front to make up a width. -/
def padded (width n : Nat) : List Char :=
  let digits := Nat.toDigits 10 n
  List.replicate (width - digits.length) '0' ++ digits

/-- The text of the point in time that is a number of seconds after the start of 1970. -/
def text (seconds : Nat) : String :=
  let day := Day.ofNat (seconds / 86400)
  let time := seconds % 86400
  String.ofList (padded 4 day.year ++ '-' :: padded 2 day.month ++ '-' :: padded 2 day.day
    ++ 'T' :: padded 2 (time / 3600) ++ ':' :: padded 2 (time / 60 % 60) ++ ':' ::
    padded 2 (time % 60) ++ ['Z'])

end JsonShape.Text.Instant
