/-
  ExactCalc.Time.Count — counts of seconds since 1970 as stamps in UTC.

  A number too large for seconds counts milliseconds. What comes as floating point is
  split into a whole count and a fraction before the unit is looked at; what was written
  out as text is split after that.
-/

import ExactCalc.Binary64.Basic
import ExactCalc.Time.Stamp

namespace ExactCalc.Stamp

/-- The longest count of seconds; a larger number counts milliseconds. -/
def maxSeconds : Int := 20000000000

/-- The stamp of a count of seconds or milliseconds, and of so many microseconds after it. -/
def ofCountAnd? (count : Int) (micro : Nat) : Option Stamp :=
  let (seconds, total) :=
    if -maxSeconds ≤ count ∧ count ≤ maxSeconds then (count, micro)
    else (count / 1000, micro + (count % 1000).toNat * 1000)
  ofEpoch? (seconds + (total / 1000000 : Nat)) (total % 1000000)

/-- The stamp of a count of seconds or milliseconds. -/
def ofCount? (count : Int) : Option Stamp := ofCountAnd? count 0

/-- The nearest integer to a rational that is not negative; halves go up. -/
def nearestNat (q : Rat) : Nat := (q + mkRat 1 2).floor.toNat

/-- The microseconds nearest to a part of a second, multiplied in floating point. -/
def microseconds (part : Rat) : Nat := nearestNat (Binary64.rounded (part * 1000000))

/-- The stamp of a floating-point count. The digits after the point are taken for a part of a
second even where the count is one of milliseconds, and are added whatever the sign. -/
def ofReal? (q : Rat) : Option Stamp := ofCountAnd? q.floor (microseconds (q.abs - q.abs.floor))

/-- The stamp of a count that was written out with a point: milliseconds are turned into seconds
first, and the part of a second is counted from the second before. -/
def ofWritten? (q : Rat) : Option Stamp :=
  let seconds := if q.abs > maxSeconds then Binary64.rounded (q / 1000) else q
  ofCountAnd? seconds.floor (microseconds (Binary64.rounded (seconds - seconds.floor)))

end ExactCalc.Stamp
