/-
  ExactCalc.History.Basic — what a history holds (`NumberRecord`, `HistoryEntry`,
  `Session`, `HistoryContainer`; SPEC §3): sessions of entries, and the variables.

  Numbers are stored as they came, in lowest terms or not. Sessions stand in the order
  of their start, equal starts in the order in which they came.
-/

import ExactCalc.History.Supply
import ExactCalc.Number.Decimal
import ExactCalc.Table
import ExactCalc.Text.Symbol

namespace ExactCalc

/-- `NumberRecord`: a number as it is stored. -/
structure StoredNumber where
  numerator : Int
  denominator : Nat
  inexact : Bool
  positive : 0 < denominator
  deriving DecidableEq

namespace StoredNumber

/-- `NumberRecord.from_number`. -/
def ofNumber (a : Number) : StoredNumber :=
  ⟨a.value.num, a.value.den, a.inexact, a.value.den_pos⟩

/-- `NumberRecord.to_number`. -/
def toNumber (a : StoredNumber) : Number := ⟨mkRat a.numerator a.denominator, a.inexact⟩

end StoredNumber

/-- `HistoryEntry`: one evaluated input. -/
structure Entry where
  id : Text.Symbols
  createdAt : Stamp
  /-- The input as it was typed. -/
  expression : Text.Symbols
  result : Option StoredNumber
  /-- What marks an entry without a result. -/
  error : Option Text.Symbols
  inexact : Bool
  deriving DecidableEq

namespace Entry

/-- `HistoryEntry.number`: the result, if there is one. -/
def number? (e : Entry) : Option Number := e.result.map StoredNumber.toNumber

/-- The text after the equals sign of an entry without a result. -/
def errorText (e : Entry) : String :=
  match e.error with
  | some (c :: rest) => Text.Symbols.display (c :: rest)
  | _ => "error"

/-- `HistoryEntry.rendition`: the entry as a line, the input and its result in decimal. -/
def rendition (e : Entry) (places : Nat) : String :=
  e.expression.display ++ " = " ++
    match e.number? with
    | some a => a.decimal places
    | none => e.errorText

/-- The same for a number of places that is not checked yet. -/
def rendition? (e : Entry) (places : Int) : Except Fault String := do
  let value ← match e.number? with
    | some a => a.decimal? places
    | none => pure e.errorText
  return e.expression.display ++ " = " ++ value

/-- `HistoryEntry.from_result`: an entry for a value. -/
def ofResult (expression : String) (value : Number) (s : Supply) : Entry × Supply :=
  let (id, s) := s.takeId
  let (now, s) := s.takeReading
  (⟨.ofString id, now, .ofString expression, some (.ofNumber value), none, value.inexact⟩, s)

end Entry

/-- `Session`: one run of the calculator. -/
structure Session where
  id : Text.Symbols
  startedAt : Stamp
  entries : List Entry
  deriving DecidableEq

namespace Session

def new (s : Supply) : Session × Supply :=
  let (id, s) := s.takeId
  let (now, s) := s.takeReading
  (⟨.ofString id, now, []⟩, s)

/-- The order of the starts. -/
def startsBy (a b : Session) : Bool := a.startedAt.instant ≤ b.startedAt.instant

/-- `HistoryContainer.sort_sessions`: sessions in the order of their start; equal starts keep
their order. -/
def sorted (l : List Session) : List Session := l.mergeSort startsBy

end Session

/-- `HistoryContainer`: what a history file holds. -/
structure History where
  vars : Table Text.Symbols StoredNumber
  sessions : List Session
  deriving DecidableEq

def History.empty : History := ⟨Table.empty, []⟩

end ExactCalc
