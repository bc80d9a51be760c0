/-
  ExactCalc.Json.Writer — JSON values to JSON text, as `encode_container` writes it: no
  spaces, and every character that is not printable ASCII escaped, as two units where it
  needs two.
-/

import ExactCalc.Binary64.Text
import ExactCalc.Json.Basic
import ExactCalc.Text.Quoted

namespace ExactCalc.Json

def escapedUnit (n : Nat) : List Char := '\\' :: 'u' :: Text.hexPadded 4 n

/-- One symbol of a string. -/
def escaped : Text.Symbol → List Char
  | .half n => escapedUnit n
  | .char c =>
    if c = '"' then ['\\', '"']
    else if c = '\\' then ['\\', '\\']
    else if c = '\n' then ['\\', 'n']
    else if c = '\r' then ['\\', 'r']
    else if c = '\t' then ['\\', 't']
    else if c = '\x0c' then ['\\', 'f']
    else if c = '\x08' then ['\\', 'b']
    else if 0x20 ≤ c.toNat && c.toNat ≤ 0x7E then [c]
    else if c.toNat < 0x10000 then escapedUnit c.toNat
    else
      escapedUnit (0xD800 + (c.toNat - 0x10000) / 0x400) ++
        escapedUnit (0xDC00 + (c.toNat - 0x10000) % 0x400)

def renderString (s : Text.Symbols) : List Char := '"' :: s.flatMap escaped ++ ['"']

/-- A floating-point number, in a form that reads back as one. -/
def renderReal : Binary64 → List Char
  | .nan => "NaN".toList
  | .infinite false => "Infinity".toList
  | .infinite true => "-Infinity".toList
  | .finite q => Binary64.finiteText q

def renderInt (n : Int) : List Char :=
  if n < 0 then '-' :: Nat.toDigits 10 n.natAbs else Nat.toDigits 10 n.natAbs

mutual

/-- The text of a value in front of another text. -/
def renderOnto (after : List Char) : Json → List Char
  | null => "null".toList ++ after
  | bool true => "true".toList ++ after
  | bool false => "false".toList ++ after
  | int n => renderInt n ++ after
  | real x => renderReal x ++ after
  | str s => renderString s ++ after
  | arr [] => '[' :: ']' :: after
  | arr (v :: rest) => '[' :: renderOnto (renderItems after rest) v
  | obj [] => '{' :: '}' :: after
  | obj ((k, v) :: rest) =>
    '{' :: (renderString k ++ ':' :: renderOnto (renderMembers after rest) v)

/-- The items after the first, and the closing bracket. -/
def renderItems (after : List Char) : List Json → List Char
  | [] => ']' :: after
  | v :: rest => ',' :: renderOnto (renderItems after rest) v

/-- The members after the first, and the closing brace. -/
def renderMembers (after : List Char) : List (Text.Symbols × Json) → List Char
  | [] => '}' :: after
  | (k, v) :: rest => ',' :: (renderString k ++ ':' :: renderOnto (renderMembers after rest) v)

end

/-- The text of a value. -/
def render (j : Json) : List Char := renderOnto [] j

end ExactCalc.Json
