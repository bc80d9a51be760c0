/-
  ExactCalc.Json.Basic — JSON values.

  Integers are exact and of any size; numbers with a point or an exponent are binary
  floating point. The members of an object stand in the order in which their keys came.
-/

import ExactCalc.Binary64.Basic
import ExactCalc.Text.Symbol

namespace ExactCalc

inductive Json where
  | null
  | bool (b : Bool)
  | int (n : Int)
  | real (x : Binary64)
  | str (s : Text.Symbols)
  | arr (items : List Json)
  | obj (members : List (Text.Symbols × Json))
  deriving Inhabited

namespace Json

def ofString (s : String) : Json := .str (.ofString s)

/-- The value under a key. -/
def member? (members : List (Text.Symbols × Json)) (key : String) : Option Json :=
  (members.find? (·.1 = .ofString key)).map Prod.snd

end Json

end ExactCalc
