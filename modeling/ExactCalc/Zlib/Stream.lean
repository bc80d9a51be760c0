/-
  ExactCalc.Zlib.Stream — compressed data as files hold it: a header of two bytes, the
  blocks, and a checksum.

  - `decompress` reads any such data and ignores what comes after it.
  - `compress` writes the bytes in stored blocks, which every reader takes.
-/

import ExactCalc.Pieces
import ExactCalc.Zlib.Inflate

namespace ExactCalc.Zlib

/-- The checksum: two running sums modulo the largest prime below 2¹⁶. -/
def checksum (bytes : List UInt8) : Nat :=
  let (a, b) := bytes.foldl (fun (a, b) x =>
    let a := (a + x.toNat) % 65521
    (a, (b + a) % 65521)) (1, 0)
  b * 65536 + a

/-- A number in four bytes, the highest first. -/
def fourBytes (n : Nat) : List UInt8 :=
  [(n / 16777216).toUInt8, (n / 65536).toUInt8, (n / 256).toUInt8, n.toUInt8]

/-- The number that four bytes denote, the highest first. -/
def fromFour (a b c d : UInt8) : Nat :=
  a.toNat * 16777216 + b.toNat * 65536 + c.toNat * 256 + d.toNat

/-- Whether two bytes are a header: a check number, the method, the window, no dictionary. -/
def checkHeader (method flags : UInt8) : Except Error Unit :=
  if (method.toNat * 256 + flags.toNat) % 31 ≠ 0 then .error .badHeader
  else if method.toNat % 16 ≠ 8 then .error .badHeader
  else if method.toNat / 16 > 7 then .error .badHeader
  else if flags.toNat / 32 % 2 = 1 then .error .needsDictionary
  else .ok ()

/-- The bytes that compressed data stands for. -/
def decompress (bytes : List UInt8) : Except Error (List UInt8) :=
  match bytes with
  | method :: flags :: rest => do
    checkHeader method flags
    let (out, s) ← blocks (8 * rest.length + 1) #[] (.ofBytes rest)
    match s.align.bytes with
    | a :: b :: c :: d :: _ =>
      let plain := out.toList
      if fromFour a b c d = checksum plain then return plain else .error .badChecksum
    | _ => .error .truncated
  | _ => .error .truncated

/-- A number in two bytes, the lowest first. -/
def twoBytes (n : Nat) : List UInt8 := [n.toUInt8, (n / 256).toUInt8]

def storedBlock (last : Bool) (bytes : List UInt8) : List UInt8 :=
  (if last then 1 else 0) :: twoBytes bytes.length ++ twoBytes (0xFFFF - bytes.length) ++ bytes

/-- The pieces in stored blocks, of which the last is marked. -/
def storedBlocks : List (List UInt8) → List UInt8
  | [] => storedBlock true []
  | [piece] => storedBlock true piece
  | piece :: rest => storedBlock false piece ++ storedBlocks rest

/-- Compressed data that stands for the bytes, in stored blocks. It is longer than the bytes, where
data deflated at level 6 is mostly shorter; either decompresses to the same bytes. -/
def compress (bytes : List UInt8) : List UInt8 :=
  [0x78, 0x01] ++ storedBlocks (pieces 65534 bytes) ++ fourBytes (checksum bytes)

end ExactCalc.Zlib
