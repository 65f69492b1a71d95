/-!
Dates of the proleptic Gregorian calendar, years 1 to 9999, and their count of days.
-/
namespace EngineHost.Calendar

structure Date where
  year : Nat
  month : Nat
  day : Nat
  deriving DecidableEq, Repr, Inhabited

def isLeap (year : Nat) : Bool :=
  year % 4 == 0 && (year % 100 != 0 || year % 400 == 0)

def monthLength (year month : Nat) : Nat :=
  match month with
  | 2 => if isLeap year then 29 else 28
  | 4 | 6 | 9 | 11 => 30
  | _ => 31

def minYear : Nat := 1
def maxYear : Nat := 9999

def Date.isValid (d : Date) : Bool :=
  minYear ≤ d.year && d.year ≤ maxYear && 1 ≤ d.month && d.month ≤ 12 &&
    1 ≤ d.day && d.day ≤ monthLength d.year d.month

/-- The days in the years before `year`. -/
def daysBeforeYear (year : Nat) : Nat :=
  let y := year - 1
  y * 365 + y / 4 - y / 100 + y / 400

/-- The days in the months of `year` before `month`. -/
def daysBeforeMonth (year : Nat) : Nat → Nat
  | 0 => 0
  | month + 1 => if month = 0 then 0 else daysBeforeMonth year month + monthLength year month

/-- The first day of year 1 is day 1. -/
def Date.ordinal (d : Date) : Nat :=
  daysBeforeYear d.year + daysBeforeMonth d.year d.month + d.day

/-- The year of a day counted from zero, with the days of that year before it. Four hundred years hold
146097 days; the last day of a century or of a leap year would otherwise open a period of its own. -/
def yearOfDay (n : Nat) : Nat × Nat :=
  let (n400, r400) := (n / 146097, n % 146097)
  let (n100, r100) := (r400 / 36524, r400 % 36524)
  let (n4, r4) := (r100 / 1461, r100 % 1461)
  let (n1, r1) := (r4 / 365, r4 % 365)
  let year := n400 * 400 + n100 * 100 + n4 * 4 + n1 + 1
  if n1 = 4 || n100 = 4 then (year - 1, 365) else (year, r1)

/-- Month and day of the month for a day of the year counted from zero. -/
def monthOfDay (year : Nat) : Nat → Nat → Nat → Nat × Nat
  | 0, month, n => (month, n + 1)
  | fuel + 1, month, n =>
    if n < monthLength year month then (month, n + 1)
    else monthOfDay year fuel (month + 1) (n - monthLength year month)

def Date.ofOrdinal (ordinal : Nat) : Date :=
  let (year, n) := yearOfDay (ordinal - 1)
  let (month, day) := monthOfDay year 11 1 n
  ⟨year, month, day⟩

def maxOrdinal : Nat := (Date.mk maxYear 12 31).ordinal

def pad (width n : Nat) : String :=
  let digits := Nat.toDigits 10 n
  String.ofList (List.replicate (width - digits.length) '0' ++ digits)

/-- `2020-01-02`. -/
def Date.iso (d : Date) : String :=
  pad 4 d.year ++ "-" ++ pad 2 d.month ++ "-" ++ pad 2 d.day

end EngineHost.Calendar
