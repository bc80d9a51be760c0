/-
  ExactCalc.Proofs.Number.Digits — numerals of any length have the value that their
  places give them, whatever the pieces in which they are converted; and numbers have
  their standard numeral, whatever the pieces in which that is written (see
  `ExactCalc.Number.Digits`).
-/

import ExactCalc.Number.Digits
import ExactCalc.Proofs.Text.Numeral

namespace ExactCalc.Digits

open Text Text.Numeral

/-- A piece goes on where the pieces to its left stopped. -/
theorem addPiece_of_digits {piece : List Char} (hne : piece ≠ []) (hle : piece.length ≤ pieceSize)
    (h : ∀ c ∈ piece, c.isDigit = true) (value : Nat) :
    addPiece value piece = .ok (Nat.ofDigitChars 10 piece value : Nat) := by
  have hmax : piece.length ≤ maxDigits := Nat.le_trans hle (by decide)
  unfold addPiece
  rw [decimal?_of_digits hne hmax h]
  show Except.ok _ = _
  rw [@Nat.ofDigitChars_eq_ofDigitChars_zero piece value, Nat.mul_comm, Int.natCast_add,
    Int.natCast_mul]
  rfl

theorem foldlM_pieces {cs : List Char} (h : ∀ c ∈ cs, c.isDigit = true) (value : Nat) :
    (pieces (pieceSize - 1) cs).foldlM addPiece (value : Int) =
      .ok (Nat.ofDigitChars 10 cs value : Nat) := by
  induction cs using pieces.induct (pieceSize - 1) generalizing value with
  | case1 => simp [pieces]; rfl
  | case2 c rest ih =>
    have hsplit : c :: rest = (c :: rest.take (pieceSize - 1)) ++ rest.drop (pieceSize - 1) := by
      rw [List.cons_append, List.take_append_drop]
    have hle : (c :: rest.take (pieceSize - 1)).length ≤ pieceSize := by
      rw [List.length_cons, List.length_take]
      have : pieceSize = 1000 := rfl
      omega
    have hpiece : ∀ d ∈ c :: rest.take (pieceSize - 1), d.isDigit = true :=
      fun d hd => h d (hsplit ▸ List.mem_append_left _ hd)
    have hrest : ∀ d ∈ rest.drop (pieceSize - 1), d.isDigit = true :=
      fun d hd => h d (hsplit ▸ List.mem_append_right _ hd)
    rw [pieces, List.foldlM_cons, addPiece_of_digits (List.cons_ne_nil _ _) hle hpiece]
    show List.foldlM addPiece _ _ = _
    rw [ih hrest, ← Nat.ofDigitChars_append, ← hsplit]

theorem ofDigits_of_digits {cs : List Char} (h : ∀ c ∈ cs, c.isDigit = true) :
    ofDigits cs = .ok (Nat.ofDigitChars 10 cs 0 : Nat) :=
  foldlM_pieces h 0

/-! ## Writing -/

theorem groups_ne_nil (size n : Nat) : groups size n ≠ [] := by
  rw [groups]
  split <;> exact List.cons_ne_nil _ _

theorem padded_eq {base n : Nat} (hb : 1 < base) (hn : n < base ^ pieceSize) :
    padded base n = lastDigits base pieceSize n :=
  pad_toDigits hb (by decide) hn

theorem lt_pow_pieceSize {base : Nat} (hb : 1 < base) : 1 < base ^ pieceSize :=
  Nat.one_lt_pow (by decide) hb

/-- The base in which the digits of a number are its pieces. -/
theorem groupBase {base : Nat} (hb : 1 < base) : Nat.pow base pieceSize - 2 + 2 = base ^ pieceSize := by
  have := lt_pow_pieceSize hb
  rw [Nat.pow_eq]
  omega

/-- A number of several pieces is written as all but the last, and the last one padded. -/
theorem inBase_of_le {base n : Nat} (hb : 1 < base) (hn : base ^ pieceSize ≤ n) :
    inBase base n =
      inBase base (n / base ^ pieceSize) ++ padded base (n % base ^ pieceSize) := by
  have hgroups : groups (Nat.pow base pieceSize - 2) n = n % base ^ pieceSize ::
      groups (Nat.pow base pieceSize - 2) (n / base ^ pieceSize) := by
    rw [groups, groupBase hb, if_neg (by omega)]
  unfold inBase
  rw [hgroups, List.reverse_cons]
  cases hr : (groups (Nat.pow base pieceSize - 2) (n / base ^ pieceSize)).reverse with
  | nil => exact absurd (List.reverse_eq_nil_iff.mp hr) (groups_ne_nil _ _)
  | cons head tail => simp

/-- The numeral in pieces is the standard one. -/
theorem inBase_eq {base : Nat} (hb : 1 < base) (n : Nat) : inBase base n = Nat.toDigits base n := by
  induction n using Nat.strongRecOn with
  | _ n ih =>
    have hone := lt_pow_pieceSize hb
    by_cases hn : n < base ^ pieceSize
    · have hgroups : groups (Nat.pow base pieceSize - 2) n = [n] := by
        rw [groups, groupBase hb, if_pos hn]
      unfold inBase
      rw [hgroups]
      exact List.append_nil _
    · have hle := Nat.le_of_not_lt hn
      rw [inBase_of_le hb hle, ih _ (Nat.div_lt_self (by omega) hone),
        padded_eq hb (Nat.mod_lt _ (by omega)), lastDigits_mod, ← toDigits_append_lastDigits hb hle]

theorem ofNat_eq (n : Nat) : ofNat n = Nat.toDigits 10 n := inBase_eq (by decide) n

theorem ofNat_ne_nil (n : Nat) : ofNat n ≠ [] := by
  rw [ofNat_eq]
  exact Nat.toDigits_ne_nil

theorem isDigit_of_mem_ofNat {n : Nat} {c : Char} (h : c ∈ ofNat n) : c.isDigit = true := by
  rw [ofNat_eq] at h
  exact Nat.isDigit_of_mem_toDigits (by decide) (by decide) h

theorem ofDigitChars_ofNat (n : Nat) : Nat.ofDigitChars 10 (ofNat n) 0 = n := by
  rw [ofNat_eq, Nat.ofDigitChars_ten_toDigits]

end ExactCalc.Digits
