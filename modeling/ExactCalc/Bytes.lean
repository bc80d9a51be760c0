/-
  ExactCalc.Bytes — bytes, and the text that they encode.
-/

namespace ExactCalc

abbrev Bytes := List UInt8

namespace Bytes

/-- The encoding of a text in UTF-8. -/
def ofText (s : String) : Bytes := s.toUTF8.toList

/-- The text, if the bytes encode one. -/
def text? (bytes : Bytes) : Option String := String.fromUTF8? (ByteArray.mk bytes.toArray)

end Bytes

end ExactCalc
