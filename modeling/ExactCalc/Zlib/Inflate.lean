/-
  ExactCalc.Zlib.Inflate — decompression of a stream of blocks: stored ones, and ones of
  literals and copies under a fixed code or under codes of their own.
-/

import ExactCalc.Zlib.Huffman

namespace ExactCalc.Zlib

/-- What has been decompressed so far. -/
abbrev Output := Array UInt8

/-! ## Copies -/

/-- Shortest copy and number of extra bits, for each length symbol. -/
def lengthTable : List (Nat × Nat) :=
  [(3, 0), (4, 0), (5, 0), (6, 0), (7, 0), (8, 0), (9, 0), (10, 0), (11, 1), (13, 1), (15, 1),
    (17, 1), (19, 2), (23, 2), (27, 2), (31, 2), (35, 3), (43, 3), (51, 3), (59, 3), (67, 4),
    (83, 4), (99, 4), (115, 4), (131, 5), (163, 5), (195, 5), (227, 5), (258, 0)]

/-- Shortest distance and number of extra bits, for each distance symbol. -/
def distanceTable : List (Nat × Nat) :=
  [(1, 0), (2, 0), (3, 0), (4, 0), (5, 1), (7, 1), (9, 2), (13, 2), (17, 3), (25, 3), (33, 4),
    (49, 4), (65, 5), (97, 5), (129, 6), (193, 6), (257, 7), (385, 7), (513, 8), (769, 8),
    (1025, 9), (1537, 9), (2049, 10), (3073, 10), (4097, 11), (6145, 11), (8193, 12), (12289, 12),
    (16385, 13), (24577, 13)]

/-- The number that a symbol of a table and the bits after it denote. -/
def extended (table : List (Nat × Nat)) (symbol : Nat) (s : Bits) : Except Error (Nat × Bits) :=
  match table[symbol]? with
  | none => .error .badCode
  | some (base, extra) => do
    let (more, s) ← s.number extra
    return (base + more, s)

/-- Appends `n` bytes, each equal to the one `distance` before it. -/
def copy (distance : Nat) : (n : Nat) → Output → Output
  | 0, out => out
  | n + 1, out => copy distance n (out.push (out.getD (out.size - distance) 0))

/-- A block of literals and copies up to its end mark. Each symbol takes at least one bit, which
is what `bound` is for. -/
def symbols (literals distances : Huffman) :
    (bound : Nat) → Output → Bits → Except Error (Output × Bits)
  | 0, _, _ => .error .truncated
  | bound + 1, out, s => do
    let (symbol, s) ← literals.decode s
    if symbol < 256 then symbols literals distances bound (out.push symbol.toUInt8) s
    else if symbol = 256 then return (out, s)
    else
      let (n, s) ← extended lengthTable (symbol - 257) s
      let (symbol, s) ← distances.decode s
      let (distance, s) ← extended distanceTable symbol s
      if out.size < distance then .error .badDistance
      else symbols literals distances bound (copy distance n out) s

/-! ## Blocks -/

/-- The code lengths of literals and lengths in a block with the fixed code. -/
def fixedLengths : List Nat :=
  List.replicate 144 8 ++ List.replicate 112 9 ++ List.replicate 24 7 ++ List.replicate 8 8

def fixedLiterals : Huffman := .ofLengths fixedLengths

def fixedDistances : Huffman := .ofLengths (List.replicate 32 5)

/-- A block of bytes as they are. -/
def stored (out : Output) (s : Bits) : Except Error (Output × Bits) := do
  let (n, s) ← s.align.number 16
  let (complement, s) ← s.number 16
  if n + complement ≠ 0xFFFF then .error .badBlock
  else if s.bytes.length < n then .error .truncated
  else return (out ++ (s.bytes.take n).toArray, ⟨s.bytes.drop n, 0⟩)

/-- The symbols of the code for code lengths, in the order in which their own lengths come. -/
def lengthOrder : List Nat := [16, 17, 18, 0, 8, 7, 9, 6, 10, 5, 11, 4, 12, 3, 13, 2, 14, 1, 15]

/-- `n` numbers of three bits. -/
def triples : (n : Nat) → Bits → Except Error (List Nat × Bits)
  | 0, s => .ok ([], s)
  | n + 1, s => do
    let (x, s) ← s.number 3
    let (rest, s) ← triples n s
    return (x :: rest, s)

/-- Code lengths up to `wanted` of them; `seen` are the ones before, the last one first. -/
def codeLengths (code : Huffman) (wanted : Nat) :
    (bound : Nat) → (seen : List Nat) → Bits → Except Error (List Nat × Bits)
  | 0, _, _ => .error .badLengths
  | bound + 1, seen, s =>
    if seen.length = wanted then .ok (seen.reverse, s)
    else if seen.length > wanted then .error .badLengths
    else do
      let (symbol, s) ← code.decode s
      if symbol < 16 then codeLengths code wanted bound (symbol :: seen) s
      else if symbol = 16 then
        match seen with
        | [] => .error .badLengths
        | last :: _ =>
          let (n, s) ← s.number 2
          codeLengths code wanted bound (List.replicate (n + 3) last ++ seen) s
      else if symbol = 17 then
        let (n, s) ← s.number 3
        codeLengths code wanted bound (List.replicate (n + 3) 0 ++ seen) s
      else
        let (n, s) ← s.number 7
        codeLengths code wanted bound (List.replicate (n + 11) 0 ++ seen) s

/-- The codes at the head of a block that brings its own. -/
def ownCodes (s : Bits) : Except Error (Huffman × Huffman × Bits) := do
  let (literals, s) ← s.number 5
  let (distances, s) ← s.number 5
  let (orders, s) ← s.number 4
  let literals := literals + 257
  let distances := distances + 1
  if literals > 286 || distances > 30 then .error .badLengths
  else
    let (short, s) ← triples (orders + 4) s
    let pairs := lengthOrder.zip short
    let code := Huffman.ofLengths ((List.range 19).map fun i => (pairs.lookup i).getD 0)
    if !code.isComplete then .error .badLengths
    else
      let (lengths, s) ← codeLengths code (literals + distances) (literals + distances + 1) [] s
      let literalCode := Huffman.ofLengths (lengths.take literals)
      let distanceCode := Huffman.ofLengths (lengths.drop literals)
      if lengths[256]? = some 0 then .error .badLengths
      else if !literalCode.isUsable || !distanceCode.isUsable then .error .badLengths
      else return (literalCode, distanceCode, s)

/-- One block, after the bit that says whether it is the last. -/
def block (out : Output) (s : Bits) : Except Error (Output × Bits) := do
  let (kind, s) ← s.number 2
  if kind = 0 then stored out s
  else if kind = 1 then symbols fixedLiterals fixedDistances (s.size + 1) out s
  else if kind = 2 then
    let (literals, distances, s) ← ownCodes s
    symbols literals distances (s.size + 1) out s
  else .error .badBlock

/-- All blocks up to the last one. Each takes at least one bit, which is what `bound` is for. -/
def blocks : (bound : Nat) → Output → Bits → Except Error (Output × Bits)
  | 0, _, _ => .error .truncated
  | bound + 1, out, s => do
    let (last, s) ← s.next
    let (out, s) ← block out s
    if last = 1 then return (out, s) else blocks bound out s

end ExactCalc.Zlib
