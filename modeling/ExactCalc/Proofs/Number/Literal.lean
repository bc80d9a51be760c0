/-
  ExactCalc.Proofs.Number.Literal — what a literal denotes (see
  `ExactCalc.Number.Literal`): all its digits read as one integer, over a power of ten
  for the digits after the point. `ofLiteral_of_isLexeme`: a lexeme of the lexer is read
  as that value, unless it has too many digits.
-/

import ExactCalc.Number.Literal
import ExactCalc.Proofs.Number.Digits
import Mathlib.Data.List.TakeWhile

namespace ExactCalc.Number

/-- All digits of a literal. -/
def digitsOf (cs : List Char) : List Char := cs.filter Char.isDigit

theorem isDigit_of_mem_digitsOf {cs : List Char} {c : Char} (h : c ∈ digitsOf cs) : c.isDigit = true :=
  (List.mem_filter.mp h).2

theorem digitsOf_of_digits {cs : List Char} (h : ∀ c ∈ cs, c.isDigit = true) : digitsOf cs = cs :=
  List.filter_eq_self.mpr h

/-- The digits after the point. -/
def decimalsOf (cs : List Char) : List Char := digitsOf (cs.dropWhile (· != '.'))

/-- The rational that a literal denotes. -/
def denoted (cs : List Char) : Rat :=
  mkRat (Nat.ofDigitChars 10 (digitsOf cs) 0) (Nat.pow 10 (decimalsOf cs).length)

theorem ne_point_of_isDigit {c : Char} (h : c.isDigit = true) : (c != '.') = true := by
  simp only [bne_iff_ne, ne_eq]
  rintro rfl
  revert h
  decide

/-! ## The shape of a lexeme -/

/-- A lexeme is a run of digits, or a point with digits around it. -/
theorem isLexeme_iff {cs : List Char} : isLexeme cs = true ↔
    (cs ≠ [] ∧ ∀ c ∈ cs, c.isDigit = true) ∨
    ∃ whole places, cs = whole ++ '.' :: places ∧ (∀ c ∈ whole, c.isDigit = true) ∧
      (∀ c ∈ places, c.isDigit = true) ∧ (whole ≠ [] ∨ places ≠ []) := by
  have split : cs.takeWhile Char.isDigit ++ cs.dropWhile Char.isDigit = cs :=
    List.takeWhile_append_dropWhile
  have digits : ∀ c ∈ cs.takeWhile Char.isDigit, c.isDigit = true :=
    fun c hc => List.all_eq_true.mp List.all_takeWhile c hc
  unfold isLexeme
  cases hd : cs.dropWhile Char.isDigit with
  | nil =>
    rw [hd, List.append_nil] at split
    rw [split] at digits ⊢
    constructor
    · intro h
      exact Or.inl ⟨by simpa using h, digits⟩
    · rintro (⟨hne, -⟩ | ⟨whole, places, rfl, hw, -⟩)
      · simpa using hne
      · exact absurd (digits '.' (by simp)) (by decide)
  | cons c places =>
    rw [hd] at split
    simp only [Bool.and_eq_true, beq_iff_eq, List.all_eq_true, Bool.not_eq_true',
      Bool.and_eq_false_iff, List.isEmpty_eq_false_iff]
    constructor
    · rintro ⟨⟨rfl, hp⟩, hne⟩
      exact Or.inr ⟨_, places, split.symm, digits, hp, hne⟩
    · rintro (⟨-, h⟩ | ⟨whole, places', rfl, hw, hp, hne⟩)
      · have : cs.dropWhile Char.isDigit = [] := List.dropWhile_eq_nil_iff.mpr h
        rw [this] at hd
        cases hd
      · have ht : (whole ++ '.' :: places').takeWhile Char.isDigit = whole := by
          rw [List.takeWhile_append_of_pos hw, List.takeWhile_cons, if_neg (by decide), List.append_nil]
        rw [List.dropWhile_append_of_pos hw, List.dropWhile_cons, if_neg (by decide)] at hd
        obtain ⟨rfl, rfl⟩ := List.cons.inj hd
        rw [ht]
        exact ⟨⟨rfl, hp⟩, hne⟩

theorem isDigit_or_point {cs : List Char} (h : isLexeme cs = true) {c : Char} (hc : c ∈ cs) :
    c.isDigit = true ∨ c = '.' := by
  rcases isLexeme_iff.mp h with ⟨-, hd⟩ | ⟨whole, places, rfl, hw, hp, -⟩
  · exact Or.inl (hd c hc)
  · rcases List.mem_append.mp hc with hc | hc
    · exact Or.inl (hw c hc)
    · rcases List.mem_cons.mp hc with rfl | hc
      · exact Or.inr rfl
      · exact Or.inl (hp c hc)

theorem ne_nil_of_isLexeme {cs : List Char} (h : isLexeme cs = true) : cs ≠ [] := by
  rintro rfl
  cases h

theorem dropLineBreak_of_isLexeme {cs : List Char} (h : isLexeme cs = true) :
    dropLineBreak cs = cs := by
  unfold dropLineBreak
  apply if_neg
  intro hl
  rcases isDigit_or_point h (List.mem_of_getLast? hl) with h | h
  · revert h; decide
  · revert h; decide

/-- The point splits a lexeme into digits before it and digits after it. -/
theorem splitPoint_of_isLexeme {cs : List Char} (h : isLexeme cs = true) :
    (splitPoint cs).1 ++ (splitPoint cs).2 = digitsOf cs ∧ (splitPoint cs).2 = decimalsOf cs := by
  have keep : ∀ l : List Char, (∀ c ∈ l, c.isDigit = true) → l.filter Char.isDigit = l :=
    fun l hl => List.filter_eq_self.mpr hl
  have point : ∀ l : List Char, (∀ c ∈ l, c.isDigit = true) → ∀ c ∈ l, (c != '.') = true :=
    fun l hl c hc => ne_point_of_isDigit (hl c hc)
  unfold splitPoint decimalsOf digitsOf
  rcases isLexeme_iff.mp h with ⟨-, hd⟩ | ⟨whole, places, rfl, hw, hp, -⟩
  · have ht : cs.takeWhile (· != '.') = cs :=
      List.takeWhile_eq_self_iff.mpr (point cs hd)
    have hr : cs.dropWhile (· != '.') = [] := List.dropWhile_eq_nil_iff.mpr (point cs hd)
    simp [ht, hr, keep cs hd]
  · rw [List.takeWhile_append_of_pos (point whole hw), List.dropWhile_append_of_pos (point whole hw),
      List.filter_append, keep whole hw]
    simp [keep places hp]

/-! ## The value -/

/-- A lexeme is read as what it denotes, unless it is too long. -/
theorem ofLiteral_of_isLexeme {cs : List Char} (h : isLexeme cs = true) :
    ofLiteral cs =
      if (digitsOf cs).length ≤ maxLiteralDigits then .ok (exact (denoted cs))
      else .error (.eval .literalTooLong) := by
  obtain ⟨hall, hplaces⟩ := splitPoint_of_isLexeme h
  unfold ofLiteral
  simp only [dropLineBreak_of_isLexeme h, h, Bool.not_true, Bool.false_eq_true, if_false]
  rw [← List.length_append, hall, Digits.ofDigits_of_digits fun _ => isDigit_of_mem_digitsOf, hplaces]
  by_cases hl : (digitsOf cs).length ≤ maxLiteralDigits
  · rw [if_neg (Nat.not_lt.mpr hl), if_pos hl]
    rfl
  · rw [if_pos (Nat.lt_of_not_le hl), if_neg hl]

theorem ofLiteral_eq_ok_iff {cs : List Char} (h : isLexeme cs = true) {v : Number} :
    ofLiteral cs = .ok v ↔ (digitsOf cs).length ≤ maxLiteralDigits ∧ v = exact (denoted cs) := by
  rw [ofLiteral_of_isLexeme h]
  split
  · rename_i hl
    simp [hl, eq_comm]
  · rename_i hl
    simp [hl]

/-! ## Numerals -/

theorem isLexeme_ofNat (n : Nat) : isLexeme (Digits.ofNat n) = true :=
  isLexeme_iff.mpr (Or.inl ⟨Digits.ofNat_ne_nil n, fun _ => Digits.isDigit_of_mem_ofNat⟩)

theorem digitsOf_ofNat (n : Nat) : digitsOf (Digits.ofNat n) = Digits.ofNat n :=
  digitsOf_of_digits fun _ => Digits.isDigit_of_mem_ofNat

/-- The numeral of a natural number denotes that number. -/
theorem denoted_ofNat (n : Nat) : denoted (Digits.ofNat n) = (n : Rat) := by
  have hdecimals : decimalsOf (Digits.ofNat n) = [] := by
    unfold decimalsOf
    rw [List.dropWhile_eq_nil_iff.mpr fun c hc => ne_point_of_isDigit (Digits.isDigit_of_mem_ofNat hc)]
    rfl
  unfold denoted
  rw [hdecimals, digitsOf_ofNat, Digits.ofDigitChars_ofNat]
  exact Rat.mkRat_one _

end ExactCalc.Number
