/-
  ExactCalc.Text.Blank — white space, as the lexer skips it and as readers of numerals
  and settings trim it.

  - `isBlank`: the white space of running text, of any script, with the four information
    separators U+001C to U+001F.
  - `isNumeralBlank`: the same without those separators; only this may stand around a
    numeral.
  - `trim`: a text without the white space at its two ends.
-/

namespace ExactCalc.Text

/-- White space around a numeral. -/
def isNumeralBlank (c : Char) : Bool :=
  let n := c.toNat
  (0x09 ≤ n && n ≤ 0x0D) || n == 0x20 || n == 0x85 || n == 0xA0 || n == 0x1680 ||
    (0x2000 ≤ n && n ≤ 0x200A) || n == 0x2028 || n == 0x2029 || n == 0x202F || n == 0x205F ||
    n == 0x3000

/-- White space between tokens, and at the ends of a line or a setting. -/
def isBlank (c : Char) : Bool :=
  isNumeralBlank c || (0x1C ≤ c.toNat && c.toNat ≤ 0x1F)

/-- Drops the characters of a class at both ends. -/
def trimBy (p : Char → Bool) (cs : List Char) : List Char :=
  ((cs.dropWhile p).reverse.dropWhile p).reverse

/-- Drops white space at both ends. -/
def trim (s : String) : String :=
  String.ofList (trimBy isBlank s.toList)

end ExactCalc.Text
