/-
  ExactCalc.Proofs.Number.Denotation — what any text comes to as a literal
  (`literal_outcomes`; see `ExactCalc.Number.Literal`).

  A lexeme is read as what it denotes, unless it has too many digits; and any other text
  is no literal, but for one case. Behind a lexeme there may be a line break, which is
  counted as a digit. It takes a place in the last piece of the numeral, so that a zero
  seems to stand in front of that piece, and it is one more decimal if there is a point;
  alone in its piece it is no numeral. So such a text may stand for another number than
  the lexeme (`literal_misread`).
-/

import ExactCalc.Proofs.Scan
import Mathlib.Data.List.Basic

namespace ExactCalc

/-! ## Digits with a line break behind them -/

namespace Digits

open Text.Numeral (decimal?)

/-- Digits with a zero in front of those that are left over for the last piece. -/
def spread (ds : List Char) : List Char :=
  let whole := ds.length - ds.length % pieceSize
  ds.take whole ++ '0' :: ds.drop whole

theorem spread_of_lt {ds : List Char} (h : ds.length < pieceSize) : spread ds = '0' :: ds := by
  unfold spread
  rw [Nat.mod_eq_of_lt h, Nat.sub_self]
  rfl

theorem spread_append {front : List Char} (h : front.length = pieceSize) (ds : List Char) :
    spread (front ++ ds) = front ++ spread ds := by
  have hmod : (front ++ ds).length % pieceSize = ds.length % pieceSize := by
    rw [List.length_append, h, Nat.add_mod_left]
  have hle : ds.length % pieceSize ≤ ds.length := Nat.mod_le _ _
  have hwhole : (front ++ ds).length - (front ++ ds).length % pieceSize =
      front.length + (ds.length - ds.length % pieceSize) := by
    rw [hmod, List.length_append]
    omega
  unfold spread
  dsimp only
  rw [hwhole, List.take_length_add_append, List.drop_length_add_append, List.append_assoc]

/-- A piece counts by its value and its length. -/
theorem addPiece_congr {piece piece' : List Char} {n : Int} (h : decimal? piece = some n)
    (h' : decimal? piece' = some n) (hlength : piece'.length = piece.length) (value : Int) :
    addPiece value piece' = addPiece value piece := by
  unfold addPiece
  rw [h, h', hlength]

/-- In a piece the line break counts as much as a zero in front. -/
theorem addPiece_lineBreak {ds : List Char} (hne : ds ≠ []) (hlt : ds.length < pieceSize)
    (h : ∀ c ∈ ds, c.isDigit = true) (value : Nat) :
    addPiece value (ds ++ ['\n']) = .ok (Nat.ofDigitChars 10 ('0' :: ds) value : Nat) := by
  have hzero : ∀ c ∈ '0' :: ds, c.isDigit = true := List.forall_mem_cons.mpr ⟨by decide, h⟩
  have hle : ('0' :: ds).length ≤ pieceSize := hlt
  have hmax : pieceSize ≤ Text.Numeral.maxDigits := by decide
  have hbreak : decimal? (ds ++ ['\n']) = some (Nat.ofDigitChars 10 ('0' :: ds) 0 : Nat) := by
    rw [Text.Numeral.decimal?_lineBreak, Text.Numeral.decimal?_of_digits hne (by omega) h]
    rfl
  rw [← addPiece_of_digits (List.cons_ne_nil _ _) hle hzero]
  exact addPiece_congr (Text.Numeral.decimal?_of_digits (List.cons_ne_nil _ _) (by omega) hzero) hbreak
    List.length_append value

theorem foldlM_lineBreak {ds : List Char} (h : ∀ c ∈ ds, c.isDigit = true) (value : Nat) :
    (pieces (pieceSize - 1) (ds ++ ['\n'])).foldlM addPiece (value : Int) =
      if pieceSize ∣ ds.length then .error (.malformedNumeral ['\n'])
      else .ok (Nat.ofDigitChars 10 (spread ds) value : Nat) := by
  induction hn : ds.length using Nat.strongRecOn generalizing ds value with
  | _ n ih =>
    subst hn
    by_cases hlt : ds.length < pieceSize
    · -- the digits and the line break are one piece
      have hone : (ds ++ ['\n']).length ≤ pieceSize - 1 + 1 := by
        rw [List.length_append, List.length_singleton]
        omega
      rw [pieces_of_le (List.append_ne_nil_of_right_ne_nil ds (List.cons_ne_nil _ _)) hone,
        List.foldlM_cons]
      by_cases hne : ds = []
      · rw [hne, List.length_nil, if_pos (Nat.dvd_zero _)]
        rfl
      · have hpos : 0 < ds.length := List.length_pos_iff.mpr hne
        rw [addPiece_lineBreak hne hlt h, if_neg (Nat.not_dvd_of_pos_of_lt hpos hlt), spread_of_lt hlt]
        rfl
    · obtain ⟨front, rest, rfl, hfront⟩ : ∃ front rest, ds = front ++ rest ∧ front.length = pieceSize :=
        ⟨ds.take pieceSize, ds.drop pieceSize, (List.take_append_drop _ _).symm,
          List.length_take_of_le (Nat.le_of_not_lt hlt)⟩
      have hpos : 0 < pieceSize := by decide
      have hlength : (front ++ rest).length = pieceSize + rest.length := by
        rw [List.length_append, hfront]
      have hdvd : pieceSize ∣ (front ++ rest).length ↔ pieceSize ∣ rest.length := by
        rw [hlength, Nat.dvd_add_right (Nat.dvd_refl _)]
      have hpiece : ∀ c ∈ front, c.isDigit = true := fun c hc => h c (List.mem_append_left _ hc)
      have hne : front ≠ [] := List.length_pos_iff.mp (by omega)
      rw [List.append_assoc, pieces_append (by omega), List.foldlM_cons,
        addPiece_of_digits hne (by omega) hpiece, spread_append hfront, Nat.ofDigitChars_append]
      show (pieces (pieceSize - 1) (rest ++ ['\n'])).foldlM addPiece _ = _
      rw [ih rest.length (by omega) (fun c hc => h c (List.mem_append_right _ hc)) _ rfl]
      simp only [hdvd]

theorem ofDigits_lineBreak {ds : List Char} (h : ∀ c ∈ ds, c.isDigit = true) :
    ofDigits (ds ++ ['\n']) =
      if pieceSize ∣ ds.length then .error (.malformedNumeral ['\n'])
      else .ok (Nat.ofDigitChars 10 (spread ds) 0 : Nat) := foldlM_lineBreak h 0

end Digits

/-! ## Texts -/

namespace Number

open Token (IsLexeme isLexeme_number_iff)

/-- What a lexeme is read as with a line break behind it. -/
def denotedWithBreak (l : List Char) : Rat :=
  mkRat (Nat.ofDigitChars 10 (Digits.spread (digitsOf l)) 0)
    (Nat.pow 10 (if '.' ∈ l then (decimalsOf l).length + 1 else 0))

theorem dropLineBreak_concat (l : List Char) : dropLineBreak (l ++ ['\n']) = l := by
  unfold dropLineBreak
  rw [if_pos List.getLast?_concat, List.dropLast_concat]

/-- The line break is one digit more, and one decimal more if there is a point. -/
theorem splitPoint_lineBreak {l : List Char} (h : isLexeme l = true) :
    (splitPoint (l ++ ['\n'])).1 ++ (splitPoint (l ++ ['\n'])).2 = digitsOf l ++ ['\n'] ∧
      (splitPoint (l ++ ['\n'])).2.length =
        if '.' ∈ l then (decimalsOf l).length + 1 else 0 := by
  obtain ⟨hall, hplaces⟩ := splitPoint_of_isLexeme h
  rcases isLexeme_iff.mp h with ⟨-, hd⟩ | ⟨whole, places, rfl, hw, -, -⟩
  · have hpoint : ∀ c ∈ l ++ ['\n'], (c != '.') = true :=
      List.forall_mem_append.mpr ⟨fun c hc => ne_point_of_isDigit (hd c hc),
        List.forall_mem_singleton.mpr (by decide)⟩
    have hnone : '.' ∉ l := fun hc => absurd (hd _ hc) (by decide)
    unfold splitPoint
    rw [List.takeWhile_eq_self_iff.mpr hpoint, List.dropWhile_eq_nil_iff.mpr hpoint,
      digitsOf_of_digits hd, if_neg hnone]
    exact ⟨List.append_nil _, rfl⟩
  · have hpoint : ∀ c ∈ whole, (c != '.') = true := fun c hc => ne_point_of_isDigit (hw c hc)
    have hsplit : ∀ rest, splitPoint (whole ++ '.' :: rest) = (whole, rest) := by
      intro rest
      unfold splitPoint
      rw [List.takeWhile_append_of_pos hpoint, List.dropWhile_append_of_pos hpoint]
      simp
    rw [hsplit] at hall hplaces
    rw [List.append_assoc, List.cons_append, hsplit, ← hall, ← hplaces,
      if_pos (List.mem_append_right _ List.mem_cons_self)]
    exact ⟨(List.append_assoc _ _ _).symm, List.length_append⟩

theorem ofLiteral_lineBreak {l : List Char} (h : isLexeme l = true) :
    ofLiteral (l ++ ['\n']) =
      if maxLiteralDigits ≤ (digitsOf l).length then .error (.eval .literalTooLong)
      else if Digits.pieceSize ∣ (digitsOf l).length then .error (.fault (.malformedNumeral ['\n']))
      else .ok (exact (denotedWithBreak l)) := by
  obtain ⟨hall, hplaces⟩ := splitPoint_lineBreak h
  unfold ofLiteral
  simp only [dropLineBreak_concat, h, Bool.not_true, Bool.false_eq_true, if_false]
  rw [← List.length_append, hall, Digits.ofDigits_lineBreak fun _ => isDigit_of_mem_digitsOf, hplaces, List.length_append,
    List.length_singleton]
  by_cases hlong : maxLiteralDigits ≤ (digitsOf l).length
  · rw [if_pos hlong, if_pos (Nat.lt_succ_of_le hlong)]
  · rw [if_neg hlong, if_neg (by omega)]
    by_cases hpiece : Digits.pieceSize ∣ (digitsOf l).length
    · rw [if_pos hpiece, if_pos hpiece]
    · rw [if_neg hpiece, if_neg hpiece]
      rfl

/-- A text that is no lexeme, with or without a line break behind it, is no literal. -/
theorem ofLiteral_malformed {cs : List Char} (h : isLexeme (dropLineBreak cs) = false) :
    ofLiteral cs = .error (.fault .malformedLiteral) := by
  unfold ofLiteral
  rw [h]
  rfl

theorem dropLineBreak_eq (cs : List Char) :
    dropLineBreak cs = cs ∨ cs = dropLineBreak cs ++ ['\n'] := by
  unfold dropLineBreak
  by_cases h : cs.getLast? = some '\n'
  · rw [if_pos h]
    exact Or.inr (List.dropLast_append_getLast? _ h).symm
  · rw [if_neg h]
    exact Or.inl rfl

/-! ## The outcomes -/

/--
What a text comes to as a literal: a lexeme's value or an error, the same for a lexeme that a line
break stands behind, and an error for every other text.
-/
inductive Reads : List Char → Except Failure Number → Prop
  | value {l : List Char} : IsLexeme .number l → (digitsOf l).length ≤ maxLiteralDigits →
    Reads l (.ok (exact (denoted l)))
  | tooLong {l : List Char} : IsLexeme .number l → maxLiteralDigits < (digitsOf l).length →
    Reads l (.error (.eval .literalTooLong))
  | brokenValue {l : List Char} : IsLexeme .number l → (digitsOf l).length < maxLiteralDigits →
    ¬ Digits.pieceSize ∣ (digitsOf l).length →
    Reads (l ++ ['\n']) (.ok (exact (denotedWithBreak l)))
  | brokenTooLong {l : List Char} : IsLexeme .number l → maxLiteralDigits ≤ (digitsOf l).length →
    Reads (l ++ ['\n']) (.error (.eval .literalTooLong))
  | brokenPiece {l : List Char} : IsLexeme .number l → (digitsOf l).length < maxLiteralDigits →
    Digits.pieceSize ∣ (digitsOf l).length →
    Reads (l ++ ['\n']) (.error (.fault (.malformedNumeral ['\n'])))
  | malformed {cs : List Char} : ¬ IsLexeme .number cs →
    (∀ l, IsLexeme .number l → cs ≠ l ++ ['\n']) → Reads cs (.error (.fault .malformedLiteral))

theorem reads_ofLiteral (cs : List Char) : Reads cs (ofLiteral cs) := by
  by_cases h : isLexeme (dropLineBreak cs) = true
  · have hlexeme := isLexeme_number_iff.mpr h
    rcases dropLineBreak_eq cs with hsame | hbreak
    · rw [hsame] at h hlexeme
      rw [ofLiteral_of_isLexeme h]
      split
      · exact .value hlexeme (by assumption)
      · exact .tooLong hlexeme (by omega)
    · rw [hbreak, ofLiteral_lineBreak h]
      split
      · exact .brokenTooLong hlexeme (by assumption)
      · split
        · exact .brokenPiece hlexeme (by omega) (by assumption)
        · exact .brokenValue hlexeme (by omega) (by assumption)
  · have hnone := Bool.eq_false_iff.mpr h
    rw [ofLiteral_malformed hnone]
    refine .malformed (fun hcs => ?_) (fun l hl hcs => ?_)
    · have hcs := isLexeme_number_iff.mp hcs
      rw [dropLineBreak_of_isLexeme hcs] at h
      exact h hcs
    · rw [hcs, dropLineBreak_concat] at h
      exact h (isLexeme_number_iff.mp hl)

/-- Each text comes to one thing: the line break tells the rules for lexemes apart. -/
theorem ofLiteral_of_reads {cs : List Char} {r : Except Failure Number} (h : Reads cs r) :
    ofLiteral cs = r := by
  cases h with
  | value hl hle => rw [ofLiteral_of_isLexeme (isLexeme_number_iff.mp hl), if_pos hle]
  | tooLong hl hlt =>
    rw [ofLiteral_of_isLexeme (isLexeme_number_iff.mp hl), if_neg (Nat.not_le.mpr hlt)]
  | brokenValue hl hlt hpiece =>
    rw [ofLiteral_lineBreak (isLexeme_number_iff.mp hl), if_neg (Nat.not_le.mpr hlt), if_neg hpiece]
  | brokenTooLong hl hle => rw [ofLiteral_lineBreak (isLexeme_number_iff.mp hl), if_pos hle]
  | brokenPiece hl hlt hpiece =>
    rw [ofLiteral_lineBreak (isLexeme_number_iff.mp hl), if_neg (Nat.not_le.mpr hlt), if_pos hpiece]
  | malformed hnone hbreak =>
    refine ofLiteral_malformed (Bool.eq_false_iff.mpr fun h => ?_)
    rcases dropLineBreak_eq cs with hsame | hcs
    · rw [hsame] at h
      exact hnone (isLexeme_number_iff.mpr h)
    · exact hbreak _ (isLexeme_number_iff.mpr h) hcs

/-- What every text comes to as a literal. -/
theorem literal_outcomes (cs : List Char) (r : Except Failure Number) :
    ofLiteral cs = r ↔ Reads cs r := by
  constructor
  · intro h
    exact h ▸ reads_ofLiteral cs
  · exact ofLiteral_of_reads

/-- With a line break behind it, `1.5` is read as 15/100, although the whole is no lexeme. -/
theorem literal_misread :
    ofLiteral ['1', '.', '5', '\n'] = .ok (exact (3 / 20)) ∧
      ¬ IsLexeme .number ['1', '.', '5', '\n'] := by
  constructor
  · have hlexeme : IsLexeme .number ['1', '.', '5'] := isLexeme_number_iff.mpr (by decide)
    have hread := ofLiteral_of_reads (.brokenValue hlexeme (by decide) (by decide))
    have hvalue : denotedWithBreak ['1', '.', '5'] = 3 / 20 := by decide +kernel
    rw [hvalue] at hread
    exact hread
  · intro h
    exact absurd (isLexeme_number_iff.mp h) (by decide)

end Number

end ExactCalc
