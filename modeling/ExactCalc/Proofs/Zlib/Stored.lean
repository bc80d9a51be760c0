/-
  ExactCalc.Proofs.Zlib.Stored — decompression undoes compression (see
  `ExactCalc.Zlib.Stream`).

  What is written are stored blocks, each of which starts on a whole byte and gives back
  its bytes; the checksum that follows them is below 2³², so four bytes hold it.
-/

import ExactCalc.Proofs.Failure
import ExactCalc.Zlib.Stream
import Mathlib.Algebra.Group.Nat.Defs

namespace ExactCalc

namespace Zlib

/-! ## Whole bytes of a stream -/

/-- The rest of a byte that has been started. -/
theorem number_of_started (b : UInt8) (rest : List UInt8) : ∀ {n used : Nat}, n + 1 + used = 8 →
    Bits.number (n + 1) ⟨b :: rest, used⟩ = .ok (b.toNat / 2 ^ used, ⟨rest, 0⟩) := by
  intro n
  induction n with
  | zero =>
    intro used h
    obtain rfl : used = 7 := by omega
    have hb : b.toNat / 2 ^ 7 % 2 = b.toNat / 2 ^ 7 := by
      have := b.toNat_lt
      omega
    simp only [Bits.number, Bits.next, bind, Except.bind, pure, Except.pure, Nat.pow_eq, hb, if_true]
    rfl
  | succ n ih =>
    intro used h
    have hused : ¬ used = 7 := by omega
    have hnext := ih (show n + 1 + (used + 1) = 8 by omega)
    rw [Bits.number]
    simp only [Bits.next, bind, Except.bind, pure, Except.pure, hused, if_false, hnext, Nat.pow_eq]
    rw [Nat.pow_succ, ← Nat.div_div_eq_div_mul, Nat.add_comm, Nat.div_add_mod]

theorem number_eight (b : UInt8) (rest : List UInt8) :
    Bits.number 8 ⟨b :: rest, 0⟩ = .ok (b.toNat, ⟨rest, 0⟩) := by
  rw [number_of_started b rest (by decide), Nat.pow_zero, Nat.div_one]

/-- A number is its low bits and then its high ones. -/
theorem number_add {m n low high : Nat} : ∀ {s s' s'' : Bits}, s.number m = .ok (low, s') →
    s'.number n = .ok (high, s'') → s.number (m + n) = .ok (low + 2 ^ m * high, s'') := by
  induction m generalizing low with
  | zero =>
    intro s s' s'' hl hh
    cases hl
    rw [Nat.zero_add, hh, Nat.pow_zero, Nat.one_mul, Nat.zero_add]
  | succ m ih =>
    intro s s' s'' hl hh
    obtain ⟨⟨bit, t⟩, hnext, hl⟩ := bind_eq_ok.mp hl
    obtain ⟨⟨middle, t'⟩, hm, hl⟩ := bind_eq_ok.mp hl
    cases hl
    rw [Nat.succ_add]
    refine bind_eq_ok.mpr ⟨(bit, t), hnext, bind_eq_ok.mpr ⟨_, ih hm hh, ?_⟩⟩
    show Except.ok _ = _
    rw [Nat.pow_succ, Nat.mul_add, Nat.add_assoc, ← Nat.mul_assoc, Nat.mul_comm 2 (2 ^ m)]

theorem number_sixteen (b c : UInt8) (rest : List UInt8) :
    Bits.number (8 + 8) ⟨b :: c :: rest, 0⟩ = .ok (b.toNat + 2 ^ 8 * c.toNat, ⟨rest, 0⟩) :=
  number_add (number_eight b _) (number_eight c rest)

theorem number_twoBytes {n : Nat} (h : n < 65536) (rest : List UInt8) :
    Bits.number 16 ⟨twoBytes n ++ rest, 0⟩ = .ok (n, ⟨rest, 0⟩) := by
  have hn : n.toUInt8.toNat + 2 ^ 8 * (n / 256).toUInt8.toNat = n := by
    simp only [Nat.toUInt8, UInt8.toNat_ofNat']
    omega
  have h16 := number_sixteen n.toUInt8 (n / 256).toUInt8 rest
  rw [hn] at h16
  exact h16

theorem fromFour_fourBytes {n : Nat} (h : n < 4294967296) :
    fromFour (n / 16777216).toUInt8 (n / 65536).toUInt8 (n / 256).toUInt8 n.toUInt8 = n := by
  simp only [fromFour, Nat.toUInt8, UInt8.toNat_ofNat']
  omega

/-! ## Blocks -/

/-- The bytes of a stored block, after its first three bits. -/
theorem stored_of_block {piece : List UInt8} (h : piece.length < 65536) (out : Output) (b : UInt8)
    (after : List UInt8) :
    stored out ⟨b :: (twoBytes piece.length ++ twoBytes (0xFFFF - piece.length) ++ piece ++ after), 3⟩ =
      .ok (out ++ piece.toArray, ⟨after, 0⟩) := by
  have h1 := number_twoBytes h (twoBytes (0xFFFF - piece.length) ++ (piece ++ after))
  have h2 := number_twoBytes (show 0xFFFF - piece.length < 65536 by omega) (piece ++ after)
  simp only [List.append_assoc]
  refine bind_eq_ok.mpr ⟨_, h1, bind_eq_ok.mpr ⟨_, h2, ?_⟩⟩
  have hsum : ¬ piece.length + (0xFFFF - piece.length) ≠ 0xFFFF := by omega
  have hlen : ¬ (piece ++ after).length < piece.length := by
    rw [List.length_append]
    omega
  simp only [hsum, hlen, if_false, List.take_left, List.drop_left]
  rfl

/-- The bits of a mark that is zero or one, and the two after it. -/
theorem bits_of_mark {b : UInt8} (hb : b.toNat < 2) (rest : List UInt8) :
    Bits.next ⟨b :: rest, 0⟩ = .ok (b.toNat, ⟨b :: rest, 1⟩) ∧
      Bits.number 2 ⟨b :: rest, 1⟩ = .ok (0, ⟨b :: rest, 3⟩) := by
  have h0 : b.toNat / Nat.pow 2 0 % 2 = b.toNat := by
    rw [Nat.pow_eq]
    omega
  have h1 : b.toNat / Nat.pow 2 1 % 2 = 0 := by
    rw [Nat.pow_eq]
    omega
  have h2 : b.toNat / Nat.pow 2 2 % 2 = 0 := by
    rw [Nat.pow_eq]
    omega
  constructor
  · simp only [Bits.next, h0]
    rfl
  · have first : Bits.next ⟨b :: rest, 1⟩ = .ok (0, ⟨b :: rest, 2⟩) := by
      simp only [Bits.next, h1]
      rfl
    have second : Bits.next ⟨b :: rest, 2⟩ = .ok (0, ⟨b :: rest, 3⟩) := by
      simp only [Bits.next, h2]
      rfl
    exact bind_eq_ok.mpr ⟨_, first, bind_eq_ok.mpr ⟨_, bind_eq_ok.mpr ⟨_, second, rfl⟩, rfl⟩⟩

/-- A stored block in front of anything. -/
theorem block_of_stored {piece : List UInt8} (h : piece.length < 65536) (last : Bool) (out : Output)
    (after : List UInt8) :
    ∃ s, Bits.next ⟨storedBlock last piece ++ after, 0⟩ = .ok (if last then 1 else 0, s) ∧
      block out s = .ok (out ++ piece.toArray, ⟨after, 0⟩) := by
  obtain ⟨b, hb, hsplit⟩ : ∃ b : UInt8, b.toNat = (if last then 1 else 0) ∧
      storedBlock last piece ++ after =
        b :: (twoBytes piece.length ++ twoBytes (0xFFFF - piece.length) ++ piece ++ after) := by
    cases last
    · exact ⟨0, rfl, rfl⟩
    · exact ⟨1, rfl, rfl⟩
  obtain ⟨hnext, hkind⟩ := bits_of_mark (b := b) (by rw [hb]; split <;> decide)
    (twoBytes piece.length ++ twoBytes (0xFFFF - piece.length) ++ piece ++ after)
  rw [hsplit, ← hb]
  exact ⟨_, hnext, bind_eq_ok.mpr ⟨_, hkind, stored_of_block h out b after⟩⟩

/-- Stored blocks give their pieces one after the other, as long as the bound lasts. -/
theorem blocks_of_stored : ∀ {ps : List (List UInt8)} {bound : Nat} (out : Output)
    (after : List UInt8), (∀ piece ∈ ps, piece.length < 65536) → ps.length < bound →
    blocks bound out ⟨storedBlocks ps ++ after, 0⟩ = .ok (out ++ ps.flatten.toArray, ⟨after, 0⟩) := by
  intro ps
  induction ps using storedBlocks.induct with
  | case1 =>
    intro bound out after _ hb
    obtain ⟨bound, rfl⟩ : ∃ n, bound = n + 1 := ⟨bound - 1, by omega⟩
    obtain ⟨s, hnext, hblock⟩ := @block_of_stored [] (by decide) true out after
    exact bind_eq_ok.mpr ⟨_, hnext, bind_eq_ok.mpr ⟨_, hblock, rfl⟩⟩
  | case2 piece =>
    intro bound out after hp hb
    obtain ⟨bound, rfl⟩ : ∃ n, bound = n + 1 := ⟨bound - 1, by omega⟩
    obtain ⟨s, hnext, hblock⟩ := block_of_stored (hp piece List.mem_cons_self) true out after
    rw [List.flatten_cons, List.flatten_nil, List.append_nil]
    exact bind_eq_ok.mpr ⟨_, hnext, bind_eq_ok.mpr ⟨_, hblock, rfl⟩⟩
  | case3 piece rest hne ih =>
    intro bound out after hp hb
    obtain ⟨bound, rfl⟩ : ∃ n, bound = n + 1 := ⟨bound - 1, by omega⟩
    obtain ⟨s, hnext, hblock⟩ :=
      block_of_stored (hp piece List.mem_cons_self) false out (storedBlocks rest ++ after)
    have hrest := ih (out ++ piece.toArray) after (fun q hq => hp q (List.mem_cons_of_mem _ hq))
      (show rest.length < bound by rw [List.length_cons] at hb; omega)
    rw [storedBlocks, List.append_assoc]
    · refine bind_eq_ok.mpr ⟨_, hnext, bind_eq_ok.mpr ⟨_, hblock, ?_⟩⟩
      show blocks bound _ _ = _
      rw [hrest, List.flatten_cons, Array.append_assoc, ← List.append_toArray]
    · exact hne

/-- No block is empty. -/
theorem length_le_storedBlocks (ps : List (List UInt8)) : ps.length ≤ (storedBlocks ps).length := by
  induction ps using storedBlocks.induct with
  | case1 => exact Nat.zero_le _
  | case2 piece =>
    simp only [storedBlocks, storedBlock, List.length_cons, List.length_append, List.length_nil]
    omega
  | case3 piece rest hne ih =>
    rw [storedBlocks]
    · simp only [storedBlock, List.length_cons, List.length_append]
      omega
    · exact hne

/-! ## The checksum -/

/-- The two sums after one more byte. -/
def sums (p : Nat × Nat) (x : UInt8) : Nat × Nat :=
  ((p.1 + x.toNat) % 65521, (p.2 + (p.1 + x.toNat) % 65521) % 65521)

theorem checksum_eq (bytes : List UInt8) :
    checksum bytes = (bytes.foldl sums (1, 0)).2 * 65536 + (bytes.foldl sums (1, 0)).1 := rfl

theorem checksum_lt (bytes : List UInt8) : checksum bytes < 4294967296 := by
  have bounds : ∀ (l : List UInt8) (p : Nat × Nat), p.1 < 65521 → p.2 < 65521 →
      (l.foldl sums p).1 < 65521 ∧ (l.foldl sums p).2 < 65521 := by
    intro l
    induction l with
    | nil => exact fun p h1 h2 => ⟨h1, h2⟩
    | cons x l ih =>
      intro p _ _
      exact ih _ (Nat.mod_lt _ (by decide)) (Nat.mod_lt _ (by decide))
  obtain ⟨h1, h2⟩ := bounds bytes (1, 0) (by decide) (by decide)
  rw [checksum_eq]
  omega

/-- Decompression gives back what was compressed. -/
theorem decompress_compress (bytes : List UInt8) : decompress (compress bytes) = .ok bytes := by
  have hpieces : ∀ piece ∈ pieces 65534 bytes, piece.length < 65536 := by
    intro piece hp
    have := length_le_of_mem_pieces hp
    omega
  have hlen := length_le_storedBlocks (pieces 65534 bytes)
  have hblocks := @blocks_of_stored (pieces 65534 bytes)
    (8 * (storedBlocks (pieces 65534 bytes) ++ fourBytes (checksum bytes)).length + 1) #[]
    (fourBytes (checksum bytes)) hpieces (by rw [List.length_append]; omega)
  rw [flatten_pieces] at hblocks
  have hsum := fromFour_fourBytes (checksum_lt bytes)
  have hheader : checkHeader 0x78 0x01 = .ok () := by
    unfold checkHeader
    rw [if_neg (by decide), if_neg (by decide), if_neg (by decide), if_neg (by decide)]
  unfold compress decompress
  simp only [List.cons_append, List.nil_append]
  refine bind_eq_ok.mpr ⟨(), hheader, bind_eq_ok.mpr ⟨_, hblocks, ?_⟩⟩
  simp only [fourBytes, Bits.align, if_true, Array.empty_append, hsum]
  rfl

end Zlib

end ExactCalc
