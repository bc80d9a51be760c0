/-
  ExactCalc.History.Supply — what the calculator takes from outside: fresh identifiers,
  and readings of the clock (`_utcnow`).

  Both are sequences with a mark at the next element, so that a run is a function of
  them. Nothing is assumed of the clock: it may stand still or run backwards.
-/

import ExactCalc.Time.Stamp

namespace ExactCalc

structure Supply where
  ids : Nat → String
  readings : Nat → Stamp
  nextId : Nat
  nextReading : Nat

namespace Supply

/-- A fresh identifier, as every entry and every session takes one. -/
def takeId (s : Supply) : String × Supply := (s.ids s.nextId, { s with nextId := s.nextId + 1 })

/-- `_utcnow`: a reading of the clock. -/
def takeReading (s : Supply) : Stamp × Supply :=
  (s.readings s.nextReading, { s with nextReading := s.nextReading + 1 })

end Supply

end ExactCalc
