/-
  ExactCalc.Json.Reader — JSON text to JSON values, as `decode_container` reads it.

  The grammar is the standard one, with `NaN`, `Infinity` and `-Infinity` besides. A raw
  control character in a string, an integer of more than `maxDigits` digits and nesting
  deeper than `maxDepth` are refused. Of members with one key the last value counts, in
  the place of the first.
-/

import ExactCalc.Json.Basic
import ExactCalc.Table

namespace ExactCalc.Json

/-- The longest integer that is read. -/
def maxDigits : Nat := 4300

/-- Arrays and objects that may be open at once. -/
def maxDepth : Nat := 990

/-- A value, and the text after it. -/
abbrev Reading := Option (Json × List Char)

def isSpace (c : Char) : Bool := c == ' ' || c == '\t' || c == '\n' || c == '\r'

def skip (cs : List Char) : List Char := cs.dropWhile isSpace

/-! ## Strings -/

def hexDigit? (c : Char) : Option Nat :=
  if c.isDigit then some (c.toNat - 48)
  else if 'a' ≤ c && c ≤ 'f' then some (c.toNat - 87)
  else if 'A' ≤ c && c ≤ 'F' then some (c.toNat - 55)
  else none

/-- The number that four hexadecimal digits denote. -/
def unit? (a b c d : Char) : Option Nat := do
  return (← hexDigit? a) * 4096 + (← hexDigit? b) * 256 + (← hexDigit? c) * 16 + (← hexDigit? d)

/-- The character that a letter after a backslash stands for. -/
def escape? : Char → Option Char
  | '"' => some '"'
  | '\\' => some '\\'
  | '/' => some '/'
  | 'b' => some '\x08'
  | 'f' => some '\x0c'
  | 'n' => some '\n'
  | 'r' => some '\r'
  | 't' => some '\t'
  | _ => none

/-- Reads on to the closing quote; `seen` are the symbols before, the last one first. -/
def stringFrom (seen : Text.Symbols) : List Char → Option (Text.Symbols × List Char)
  | [] => none
  | '"' :: rest => some (seen.reverse, rest)
  | '\\' :: 'u' :: a :: b :: c :: d :: rest =>
    match unit? a b c d with
    | some n => stringFrom (.ofUnit n :: seen) rest
    | none => none
  | '\\' :: e :: rest =>
    match escape? e with
    | some c => stringFrom (.char c :: seen) rest
    | none => none
  | c :: rest => if c.toNat < 0x20 || c = '\\' then none else stringFrom (.char c :: seen) rest

/-- A string, after its opening quote. -/
def string (cs : List Char) : Option (Text.Symbols × List Char) :=
  (stringFrom [] cs).map fun (s, rest) => (s.joined, rest)

/-! ## Numbers -/

def natOfDigits (ds : List Char) : Nat := ds.foldl (fun n c => n * 10 + (c.toNat - 48)) 0

/-- The digits before a point or exponent: a zero, or digits that do not start with one. -/
def whole (cs : List Char) : Option (List Char × List Char) :=
  match cs with
  | '0' :: rest => some (['0'], rest)
  | _ =>
    let ds := cs.takeWhile Char.isDigit
    if ds.isEmpty then none else some (ds, cs.dropWhile Char.isDigit)

/-- A point and at least one digit, if they are there. -/
def places (cs : List Char) : Option (List Char) × List Char :=
  match cs with
  | '.' :: rest =>
    let ds := rest.takeWhile Char.isDigit
    if ds.isEmpty then (none, cs) else (some ds, rest.dropWhile Char.isDigit)
  | _ => (none, cs)

/-- The digits of an exponent of that sign, if there are any. -/
def exponentDigits (negative : Bool) (rest : List Char) : Option (Int × List Char) :=
  let ds := rest.takeWhile Char.isDigit
  if ds.isEmpty then none
  else
    let n : Int := natOfDigits ds
    some (if negative then -n else n, rest.dropWhile Char.isDigit)

/-- An exponent mark, a sign and at least one digit, if they are there. -/
def exponent (cs : List Char) : Option Int × List Char :=
  let found :=
    match cs with
    | e :: rest =>
      if e = 'e' || e = 'E' then
        match rest with
        | '-' :: rest => exponentDigits true rest
        | '+' :: rest => exponentDigits false rest
        | rest => exponentDigits false rest
      else none
    | [] => none
  match found with
  | some (n, rest) => (some n, rest)
  | none => (none, cs)

/-- A number without its sign. -/
def unsigned (negative : Bool) (cs : List Char) : Reading := do
  let (ds, rest) ← whole cs
  let (ps, rest) := places rest
  let (e, rest) := exponent rest
  match ps, e with
  | none, none =>
    if ds.length > maxDigits then none
    else
      let n : Int := natOfDigits ds
      some (.int (if negative then -n else n), rest)
  | _, _ =>
    let all := ds ++ ps.getD []
    let shift : Int := e.getD 0 - (ps.getD []).length
    some (.real (.ofDecimal negative (natOfDigits all) all.length shift), rest)

/-! ## Values -/

/-- The items of an array after its opening bracket, of which there is at least one. An array has
no more items than the text has characters, which is what `bound` is for. -/
def items (read : List Char → Reading) : (bound : Nat) → List Json → List Char → Reading
  | 0, _, _ => none
  | bound + 1, seen, cs => do
    let (v, rest) ← read cs
    match skip rest with
    | ',' :: rest => items read bound (v :: seen) (skip rest)
    | ']' :: rest => some (.arr (v :: seen).reverse, rest)
    | _ => none

/-- The members of an object after its opening brace, of which there is at least one. -/
def members (read : List Char → Reading) :
    (bound : Nat) → List (Text.Symbols × Json) → List Char → Reading
  | 0, _, _ => none
  | bound + 1, seen, cs =>
    match cs with
    | '"' :: rest => do
      let (key, rest) ← string rest
      match skip rest with
      | ':' :: rest =>
        let (v, rest) ← read (skip rest)
        match skip rest with
        | ',' :: rest => members read bound ((key, v) :: seen) (skip rest)
        | '}' :: rest =>
          some (.obj (Table.ofList ((key, v) :: seen).reverse).pairs, rest)
        | _ => none
      | _ => none
    | _ => none

/-- A value whose parts are read by `inner`. -/
def valueWith (bound : Nat) (inner : List Char → Reading) (cs : List Char) : Reading :=
  match cs with
  | '"' :: rest => (string rest).map fun (s, rest) => (.str s, rest)
  | '[' :: rest =>
    match skip rest with
    | ']' :: rest => some (.arr [], rest)
    | rest => items inner bound [] rest
  | '{' :: rest =>
    match skip rest with
    | '}' :: rest => some (.obj [], rest)
    | rest => members inner bound [] rest
  | 'n' :: 'u' :: 'l' :: 'l' :: rest => some (.null, rest)
  | 't' :: 'r' :: 'u' :: 'e' :: rest => some (.bool true, rest)
  | 'f' :: 'a' :: 'l' :: 's' :: 'e' :: rest => some (.bool false, rest)
  | 'N' :: 'a' :: 'N' :: rest => some (.real .nan, rest)
  | 'I' :: 'n' :: 'f' :: 'i' :: 'n' :: 'i' :: 't' :: 'y' :: rest =>
    some (.real (.infinite false), rest)
  | '-' :: 'I' :: 'n' :: 'f' :: 'i' :: 'n' :: 'i' :: 't' :: 'y' :: rest =>
    some (.real (.infinite true), rest)
  | '-' :: rest => unsigned true rest
  | _ => unsigned false cs

/-- Whether the text starts an array or an object. -/
def opens : List Char → Bool
  | c :: _ => c == '[' || c == '{'
  | [] => false

/-- A value with at most `depth` arrays and objects open at once. -/
def value (bound : Nat) : (depth : Nat) → List Char → Reading
  | 0, cs => if opens cs then none else valueWith bound (fun _ => none) cs
  | depth + 1, cs => valueWith bound (value bound depth) cs

/-- The value that a whole text denotes. -/
def read (cs : List Char) : Option Json := do
  let (v, rest) ← value cs.length maxDepth (skip cs)
  if (skip rest).isEmpty then some v else none

end ExactCalc.Json
