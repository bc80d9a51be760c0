/-
  ExactCalc.Zlib.Bits — a stream of bits over bytes, the lowest bit of each byte first.
-/

namespace ExactCalc.Zlib

/-- Why bytes do not decompress. -/
inductive Error where
  | truncated
  | badHeader
  /-- The data needs a dictionary that is not part of it. -/
  | needsDictionary
  | badBlock
  | badLengths
  | badCode
  | badDistance
  | badChecksum
  deriving DecidableEq

def Error.message : Error → String
  | truncated => "the data ends too early"
  | badHeader => "the header is wrong"
  | needsDictionary => "a dictionary is needed"
  | badBlock => "a block is malformed"
  | badLengths => "the code lengths are wrong"
  | badCode => "a code has no meaning"
  | badDistance => "a distance reaches back too far"
  | badChecksum => "the checksum is wrong"

/-- What is left to read: bytes, of the first of which `used` bits have been taken. -/
structure Bits where
  bytes : List UInt8
  used : Nat

namespace Bits

def ofBytes (bytes : List UInt8) : Bits := ⟨bytes, 0⟩

/-- The next bit. -/
def next (s : Bits) : Except Error (Nat × Bits) :=
  match s.bytes with
  | [] => .error .truncated
  | b :: rest =>
    .ok (b.toNat / Nat.pow 2 s.used % 2, if s.used = 7 then ⟨rest, 0⟩ else ⟨s.bytes, s.used + 1⟩)

/-- The number in the next `n` bits, the lowest first. -/
def number : (n : Nat) → Bits → Except Error (Nat × Bits)
  | 0, s => .ok (0, s)
  | n + 1, s => do
    let (bit, s) ← s.next
    let (high, s) ← number n s
    return (bit + 2 * high, s)

/-- Drops the rest of a byte that has been started. -/
def align (s : Bits) : Bits := if s.used = 0 then s else ⟨s.bytes.tail, 0⟩

/-- An upper bound for the bits that are left. -/
def size (s : Bits) : Nat := 8 * s.bytes.length

end Bits

end ExactCalc.Zlib
