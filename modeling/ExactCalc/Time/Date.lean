/-
  ExactCalc.Time.Date — calendar dates of the years 1 to 9999 and their place in the
  count of days.

  - `Date.toDays`: days since 1 January 1970.
  - `Date.ofDays?`: the date on a day of that count.
-/

namespace ExactCalc

def isLeap (year : Nat) : Bool := year % 4 == 0 && (year % 100 != 0 || year % 400 == 0)

/-- Days of a month; none where there is no such month. -/
def daysInMonth (year month : Nat) : Nat :=
  if month = 2 then (if isLeap year then 29 else 28)
  else if month = 4 || month = 6 || month = 9 || month = 11 then 30
  else if 1 ≤ month && month ≤ 12 then 31
  else 0

structure Date where
  year : Nat
  month : Nat
  day : Nat
  inYears : 1 ≤ year ∧ year ≤ 9999
  inMonth : 1 ≤ day ∧ day ≤ daysInMonth year month
  deriving DecidableEq

namespace Date

/-- The date with these parts, if there is one. -/
def of? (year month day : Nat) : Option Date :=
  if h : (1 ≤ year ∧ year ≤ 9999) ∧ (1 ≤ day ∧ day ≤ daysInMonth year month) then
    some ⟨year, month, day, h.1, h.2⟩
  else none

/-- Days from 1 January of the year 1 to 1 January of `year`. -/
def daysBeforeYear (year : Nat) : Nat :=
  let y := year - 1
  365 * y + y / 4 - y / 100 + y / 400

/-- Days of a year before a month. -/
def daysBeforeMonth (year month : Nat) : Nat :=
  (List.range' 1 (month - 1)).foldl (fun days m => days + daysInMonth year m) 0

/-- Days from 1 January of the year 1 to 1 January 1970. -/
def epochDay : Nat := 719162

def toDays (d : Date) : Int :=
  (daysBeforeYear d.year + daysBeforeMonth d.year d.month + (d.day - 1) : Nat) - (epochDay : Int)

/-- The month and the day of the month on a day of the year, counted from zero. -/
def monthFrom (year : Nat) : (months : List Nat) → (day : Nat) → Nat × Nat
  | [], day => (0, day + 1)
  | m :: rest, day =>
    if day < daysInMonth year m then (m, day + 1)
    else monthFrom year rest (day - daysInMonth year m)

/-- The year and the day of the year on a day counted from 1 January of the year 1. -/
def yearOf (day : Nat) : Nat × Nat :=
  let r400 := day % 146097
  let centuries := min (r400 / 36524) 3
  let r100 := r400 - centuries * 36524
  let r4 := r100 % 1461
  let years := min (r4 / 365) 3
  (day / 146097 * 400 + centuries * 100 + r100 / 1461 * 4 + years + 1, r4 - years * 365)

/-- The date on a day counted from 1 January 1970. -/
def ofDays? (days : Int) : Option Date :=
  let day := days + epochDay
  if day < 0 then none
  else
    let (year, ofYear) := yearOf day.toNat
    let (month, ofMonth) := monthFrom year (List.range' 1 12) ofYear
    of? year month ofMonth

end Date

end ExactCalc
