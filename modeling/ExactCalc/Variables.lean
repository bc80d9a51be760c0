/-
  ExactCalc.Variables — the variable table (`VariableTable`, `validate_name`;
  SPEC §4.4): valid names with their values, in the order in which they were introduced.

  A name is a letter followed by letters, digits and underscores, and may end in one
  line break; the words that the grammar reads as the root operator are reserved. Every
  update either takes place whole or leaves the table as it is.
-/

import ExactCalc.Number.Basic
import ExactCalc.Table
import ExactCalc.Token

namespace ExactCalc

/-- `VariableTable`: names with their values, in the order in which they were introduced. -/
abbrev Variables := Table String Number

namespace Variables

/-- `RESERVED_NAMES`: the words that are read as the root operator. -/
def reserved : List String := ["sqrt", "root"]

/-- `_NAME_PATTERN`: a letter, then letters, digits and underscores, then perhaps one line
break. -/
def isName (cs : List Char) : Bool :=
  match cs with
  | [] => false
  | c :: rest =>
    let tail := rest.dropWhile Token.isNameChar
    c.isAlpha && (tail.isEmpty || tail == ['\n'])

/-- `validate_name`: whether a variable may have the name. -/
def checkName (name : String) : Except EvalError Unit :=
  if reserved.contains name then .error (.reservedName name)
  else if isName name.toList then .ok ()
  else .error (.invalidName name)

/-- `VariableTable.set`: nothing is written unless the name is valid. -/
def set (vars : Variables) (name : String) (value : Number) : Except EvalError Variables := do
  checkName name
  return vars.insert name value

/-- `VariableTable.remove`: the table without the name, if it was there. -/
def remove? (vars : Variables) (name : String) : Option Variables :=
  if vars.contains name then some (vars.erase name) else none

/-- `VariableTable.restore`: checks every name of a table that is to replace another. -/
def restore (source : Variables) : Except EvalError Variables := do
  source.keys.forM checkName
  return source

end Variables

end ExactCalc
