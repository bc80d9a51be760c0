/-
  ExactCalc.Text.Numeral — numerals as people and files write them: white space around,
  a sign, decimal digits of any script, single underscores between digits. Base sixteen
  has letters for the digits above nine and allows a leading `0x`.

  - `Numeral.decimal?` reads base ten, at most `maxDigits` digits.
  - `Numeral.hex?` reads base sixteen, of any length.
-/

import ExactCalc.Text.Blank
import ExactCalc.Text.Digit

namespace ExactCalc.Text.Numeral

/-- The longest decimal numeral that is read. -/
def maxDigits : Nat := 4300

/-- The value of a digit in a base up to thirty-six. -/
def digit? (base : Nat) (c : Char) : Option Nat :=
  let value := digitValue? c <|>
    if 'a' ≤ c && c ≤ 'z' then some (c.toNat - 87)
    else if 'A' ≤ c && c ≤ 'Z' then some (c.toNat - 55)
    else none
  value.filter (· < base)

/-- Reads digits onto `value`, of which `count` digits have been read, up to the end of the text.
An underscore stands only between two digits. -/
def digits? (base : Nat) : (count value : Nat) → List Char → Option (Nat × Nat)
  | count, value, [] => some (count, value)
  | count, value, '_' :: c :: rest =>
    if count = 0 then none
    else
      match digit? base c with
      | some d => digits? base (count + 1) (value * base + d) rest
      | none => none
  | count, value, c :: rest =>
    match digit? base c with
    | some d => digits? base (count + 1) (value * base + d) rest
    | none => none

/-- The number of digits and the value of an unsigned numeral. -/
def natural? (base : Nat) (cs : List Char) : Option (Nat × Nat) :=
  (digits? base 0 0 cs).filter (·.1 ≠ 0)

/-- Splits a sign off; `true` is minus. -/
def sign : List Char → Bool × List Char
  | '-' :: rest => (true, rest)
  | '+' :: rest => (false, rest)
  | cs => (false, cs)

def signed (negative : Bool) (n : Nat) : Int := if negative then -n else n

/-- Drops `0x` or `0X`, the zero being of any script, and one underscore after it. -/
def dropHexMark (cs : List Char) : List Char :=
  match cs with
  | zero :: x :: rest =>
    if digitValue? zero = some 0 && (x = 'x' || x = 'X') then
      match rest with
      | '_' :: rest => rest
      | rest => rest
    else cs
  | _ => cs

/-- A decimal numeral of at most `maxDigits` digits. -/
def decimal? (cs : List Char) : Option Int :=
  let (negative, body) := sign (trimBy isNumeralBlank cs)
  match natural? 10 body with
  | some (count, n) => if count ≤ maxDigits then some (signed negative n) else none
  | none => none

/-- A hexadecimal numeral. -/
def hex? (cs : List Char) : Option Int :=
  let (negative, body) := sign (trimBy isNumeralBlank cs)
  (natural? 16 (dropHexMark body)).map fun (_, n) => signed negative n

end ExactCalc.Text.Numeral
