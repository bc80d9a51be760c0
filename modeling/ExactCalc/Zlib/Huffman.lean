/-
  ExactCalc.Zlib.Huffman — canonical Huffman codes, given by the length of each symbol's
  code.

  Codes of one length are consecutive, in the order of their symbols, and shorter ones
  come first. A code may leave bit strings without a meaning only where it has a single
  code of one bit, or none at all.
-/

import ExactCalc.Zlib.Bits

namespace ExactCalc.Zlib

structure Huffman where
  /-- How many codes there are of length one, two and so on. -/
  counts : List Nat
  /-- The symbols in the order of their codes. -/
  symbols : Array Nat

namespace Huffman

/-- The longest code. -/
def maxLength : Nat := 15

def countOf (lengths : List Nat) (n : Nat) : Nat := lengths.countP (· == n)

/-- The symbols whose codes have length `n`. -/
def symbolsOf (lengths : List Nat) (n : Nat) : List Nat :=
  (lengths.zipIdx.filter (·.1 == n)).map Prod.snd

def ofLengths (lengths : List Nat) : Huffman :=
  let sizes := List.range' 1 maxLength
  ⟨sizes.map (countOf lengths), (sizes.flatMap (symbolsOf lengths)).toArray⟩

/-- The bit strings of the longest length that have no code, if the codes do not overlap. -/
def unused? (h : Huffman) : Option Nat :=
  h.counts.foldlM (fun free count => if 2 * free < count then none else some (2 * free - count)) 1

/-- Whether no two codes overlap and no bit string is without one. -/
def isComplete (h : Huffman) : Bool := h.unused? == some 0

/-- Complete, or with one code of one bit, or without any. -/
def isUsable (h : Huffman) : Bool :=
  h.isComplete || (h.unused?.isSome && h.counts.tail.all (· == 0))

/-- Reads bits until they are a code; `code` are the bits so far, `first` the first code of the
next length and `index` the place of its symbol. -/
def decodeFrom (symbols : Array Nat) :
    (counts : List Nat) → (code first index : Nat) → Bits → Except Error (Nat × Bits)
  | [], _, _, _, _ => .error .badCode
  | count :: counts, code, first, index, s => do
    let (bit, s) ← s.next
    let code := 2 * code + bit
    if code < first + count then
      match symbols[index + (code - first)]? with
      | some symbol => return (symbol, s)
      | none => .error .badCode
    else decodeFrom symbols counts code (2 * (first + count)) (index + count) s

/-- The next symbol. -/
def decode (h : Huffman) (s : Bits) : Except Error (Nat × Bits) :=
  decodeFrom h.symbols h.counts 0 0 0 s

end Huffman

end ExactCalc.Zlib
