/-
  ExactCalc.Proofs.Expr.Lexemes — scanning a text that is put together from lexemes (see
  `ExactCalc.Token`).

  `Scans p cs start ts` says that the characters `cs`, in front of any rest of the class
  `p`, are the tokens `ts` from the position `start` on. An operator, a parenthesis and
  a blank are so in front of anything. A name and a numeral need a rest that does not go
  on with them (`Apart`).
-/

import ExactCalc.Proofs.Number.Digits
import ExactCalc.Proofs.Token

namespace ExactCalc.Token

/-- Goes on with neither a name nor a numeral. -/
def Apart (rest : List Char) : Prop := ∀ c ∈ rest.head?, isNameChar c = false ∧ c ≠ '.'

theorem apart_nil : Apart [] := nofun

theorem apart_cons {c : Char} (h : isNameChar c = false) (hp : c ≠ '.') (rest : List Char) :
    Apart (c :: rest) := by
  intro d hd
  cases hd
  exact ⟨h, hp⟩

/-! ## Classes of characters -/

theorem range_of_isNameChar {c : Char} (h : isNameChar c = true) :
    48 ≤ c.toNat ∧ c.toNat ≤ 122 := by
  unfold isNameChar Char.isAlphanum Char.isAlpha Char.isUpper Char.isLower Char.isDigit at h
  simp only [Bool.or_eq_true, Bool.and_eq_true, decide_eq_true_eq, ge_iff_le,
    UInt32.le_iff_toNat_le, beq_iff_eq] at h
  rcases h with ((h | h) | h) | rfl
  · exact ⟨(by decide : 48 ≤ 65).trans h.1, h.2.trans (by decide)⟩
  · exact ⟨(by decide : 48 ≤ 97).trans h.1, h.2⟩
  · exact ⟨h.1, h.2.trans (by decide)⟩
  · decide

theorem not_isBlank_of_isNameChar {c : Char} (h : isNameChar c = true) : ¬ Text.isBlank c = true := by
  have := range_of_isNameChar h
  unfold Text.isBlank Text.isNumeralBlank
  simp only [Bool.or_eq_true, Bool.and_eq_true, decide_eq_true_eq, beq_iff_eq]
  omega

theorem isNameChar_of_isDigit {c : Char} (h : c.isDigit = true) : isNameChar c = true := by
  unfold isNameChar Char.isAlphanum
  rw [h, Bool.or_true, Bool.true_or]

theorem isNameChar_of_isLetter {c : Char} (h : isLetter c = true) : isNameChar c = true := by
  unfold isNameChar Char.isAlphanum
  rcases Bool.or_eq_true_iff.mp h with h | h
  · rw [h, Bool.true_or, Bool.true_or]
  · rw [h, Bool.or_true]

/-! ## Single lexemes -/

/-- The text is a single identifier token. -/
def IsWord (cs : List Char) : Prop :=
  (scan cs).tokens = [⟨.identifier, String.ofList cs, 0, cs.length⟩]

theorem IsWord.lexeme {cs : List Char} (h : IsWord cs) : lexeme? cs = some (.identifier, cs) := by
  have hlaid := laid_scan cs
  rw [h] at hlaid
  have hstands := (hlaid.stands _ List.mem_cons_self).lexeme
  rwa [List.drop_zero, String.toList_ofList] at hstands

theorem IsWord.shape {cs : List Char} (h : IsWord cs) :
    ∃ c tail, cs = c :: tail ∧ isLetter c = true ∧ ∀ d ∈ tail, isNameChar d = true := by
  replace h := h.lexeme
  cases cs with
  | nil => cases h
  | cons c tail =>
    by_cases hc : isLetter c = true
    · rw [lexeme?_of_isLetter hc] at h
      have htail := (List.cons.inj (Prod.mk.inj (Option.some.inj h)).2).2
      exact ⟨c, tail, rfl, hc, List.takeWhile_eq_self_iff.mp htail⟩
    · exfalso
      simp only [lexeme?, hc, Bool.false_eq_true, if_false] at h
      repeat' split at h
      all_goals cases h

theorem takeWhile_append_of_not {p : Char → Bool} {l rest : List Char} (hl : ∀ c ∈ l, p c = true)
    (hr : ∀ c ∈ rest.head?, p c = false) : (l ++ rest).takeWhile p = l := by
  rw [List.takeWhile_append_of_pos hl]
  cases rest with
  | nil => exact List.append_nil l
  | cons c rest => rw [List.takeWhile_cons, if_neg (by rw [hr c rfl]; decide), List.append_nil]

theorem dropWhile_append_of_not {p : Char → Bool} {l rest : List Char} (hl : ∀ c ∈ l, p c = true)
    (hr : ∀ c ∈ rest.head?, p c = false) : (l ++ rest).dropWhile p = rest := by
  rw [List.dropWhile_append_of_pos hl]
  cases rest with
  | nil => rfl
  | cons c rest => rw [List.dropWhile_cons, if_neg (by rw [hr c rfl]; decide)]

theorem lexeme?_of_name {c : Char} {tail rest : List Char} (hc : isLetter c = true)
    (htail : ∀ d ∈ tail, isNameChar d = true) (hr : Apart rest) :
    lexeme? (c :: tail ++ rest) = some (.identifier, c :: tail) := by
  rw [List.cons_append, lexeme?_of_isLetter hc,
    takeWhile_append_of_not htail fun d hd => (hr d hd).1]

/-- A literal is the longest number in front of what does not go on with it. -/
theorem numberLexeme_append {cs rest : List Char} (h : Number.isLexeme cs = true) (hr : Apart rest) :
    numberLexeme (cs ++ rest) = cs := by
  have hdigit : ∀ c ∈ rest.head?, c.isDigit = false := by
    intro c hc
    refine Bool.eq_false_iff.mpr fun hd => ?_
    have hname := isNameChar_of_isDigit hd
    rw [(hr c hc).1] at hname
    cases hname
  unfold numberLexeme
  rcases Number.isLexeme_iff.mp h with ⟨-, hd⟩ | ⟨whole, places, rfl, hw, hp, hne⟩
  · rw [takeWhile_append_of_not hd hdigit, dropWhile_append_of_not hd hdigit]
    dsimp only
    split
    · exact absurd rfl (hr '.' rfl).2
    · rfl
  · have hpoint : ∀ c ∈ ('.' :: (places ++ rest)).head?, c.isDigit = false := by
      rintro c ⟨⟩
      decide
    rw [List.append_assoc, List.cons_append, takeWhile_append_of_not hw hpoint,
      dropWhile_append_of_not hw hpoint]
    show (if whole.isEmpty && ((places ++ rest).takeWhile Char.isDigit).isEmpty then []
      else whole ++ '.' :: (places ++ rest).takeWhile Char.isDigit) = _
    rw [takeWhile_append_of_not hp hdigit, if_neg]
    rw [Bool.and_eq_true, List.isEmpty_iff, List.isEmpty_iff, not_and_or]
    exact hne

theorem lexeme?_of_isLexeme {cs rest : List Char} (h : Number.isLexeme cs = true) (hr : Apart rest) :
    lexeme? (cs ++ rest) = some (.number, cs) := by
  have hnumber := numberLexeme_append h hr
  obtain ⟨c, cs, rfl⟩ := List.exists_cons_of_ne_nil (Number.ne_nil_of_isLexeme h)
  rw [List.cons_append] at hnumber ⊢
  unfold lexeme?
  dsimp only
  rw [hnumber]
  rfl

theorem isOperator_cases {c : Char} (h : isOperator c = true) :
    c = '+' ∨ c = '-' ∨ c = '*' ∨ c = '/' ∨ c = '^' ∨ c = rootSign := by
  unfold isOperator at h
  simpa [or_assoc] using h

theorem lexeme?_of_isOperator {c : Char} (h : isOperator c = true) (rest : List Char) :
    lexeme? (c :: rest) = some (.operator, [c]) := by
  rcases isOperator_cases h with rfl | rfl | rfl | rfl | rfl | rfl <;> rfl

theorem not_isBlank_of_isOperator {c : Char} (h : isOperator c = true) : ¬ Text.isBlank c = true := by
  rcases isOperator_cases h with rfl | rfl | rfl | rfl | rfl | rfl <;> decide

theorem apart_of_isOperator {c : Char} (h : isOperator c = true) (rest : List Char) :
    Apart (c :: rest) := by
  have hname : isNameChar c = false ∧ c ≠ '.' := by
    rcases isOperator_cases h with rfl | rfl | rfl | rfl | rfl | rfl <;> decide
  exact apart_cons hname.1 hname.2 rest

/-! ## Scans -/

/-- In front of any rest of the class, the characters are these tokens. -/
def Scans (p : List Char → Prop) (cs : List Char) (start : Nat) (ts : List Token) : Prop :=
  ∀ seen rest, p rest →
    scanFrom seen start (cs ++ rest) = scanFrom (ts.reverse ++ seen) (start + cs.length) rest

/-- The class of all. -/
def Any (_ : List Char) : Prop := True

theorem Scans.append {p q : List Char → Prop} {cs cs' : List Char} {start : Nat}
    {ts ts' : List Token} (h : Scans p cs start ts) (h' : Scans q cs' (start + cs.length) ts')
    (hp : ∀ rest, q rest → p (cs' ++ rest)) : Scans q (cs ++ cs') start (ts ++ ts') := by
  intro seen rest hr
  rw [List.append_assoc, h seen _ (hp rest hr), h' _ _ hr, List.reverse_append, List.append_assoc,
    List.length_append, Nat.add_assoc]

theorem scans_blank {c : Char} (h : Text.isBlank c = true) (start : Nat) : Scans Any [c] start [] := by
  intro seen rest _
  exact scanFrom_blank h seen start rest

/-- One lexeme. -/
theorem scans_lexeme {p : List Char → Prop} {c : Char} {cs : List Char} {kind : Kind}
    (hb : ¬ Text.isBlank c = true)
    (h : ∀ rest, p rest → lexeme? (c :: cs ++ rest) = some (kind, c :: cs)) (start : Nat) :
    Scans p (c :: cs) start
      [⟨kind, String.ofList (c :: cs), start, start + (c :: cs).length⟩] := by
  intro seen rest hr
  have hl := h rest hr
  rw [List.cons_append] at hl ⊢
  rw [scanFrom_lexeme hb hl, ← List.cons_append, List.drop_left]
  rfl

theorem scans_name {c : Char} {tail : List Char} (hc : isLetter c = true)
    (htail : ∀ d ∈ tail, isNameChar d = true) (start : Nat) : Scans Apart (c :: tail) start
      [⟨.identifier, String.ofList (c :: tail), start, start + (c :: tail).length⟩] :=
  scans_lexeme (not_isBlank_of_isNameChar (isNameChar_of_isLetter hc))
    (fun _ => lexeme?_of_name hc htail) start

theorem scans_word {cs : List Char} (h : IsWord cs) (start : Nat) :
    Scans Apart cs start [⟨.identifier, String.ofList cs, start, start + cs.length⟩] := by
  obtain ⟨c, tail, rfl, hc, htail⟩ := h.shape
  exact scans_name hc htail start

theorem scans_number {cs : List Char} (h : Number.isLexeme cs = true) (start : Nat) :
    Scans Apart cs start [⟨.number, String.ofList cs, start, start + cs.length⟩] := by
  have hlexeme : ∀ rest, Apart rest → lexeme? (cs ++ rest) = some (.number, cs) :=
    fun rest hr => lexeme?_of_isLexeme h hr
  obtain ⟨c, tail, rfl⟩ := List.exists_cons_of_ne_nil (Number.ne_nil_of_isLexeme h)
  refine scans_lexeme ?_ hlexeme start
  rcases Number.isDigit_or_point h List.mem_cons_self with hc | rfl
  · exact not_isBlank_of_isNameChar (isNameChar_of_isDigit hc)
  · decide

/-- Operators, parentheses and the assignment sign are lexemes of one character. -/
theorem scans_symbol {c : Char} {kind : Kind} (hb : ¬ Text.isBlank c = true)
    (h : ∀ rest, lexeme? (c :: rest) = some (kind, [c])) (start : Nat) :
    Scans Any [c] start [⟨kind, String.ofList [c], start, start + 1⟩] := by
  have hl : ∀ rest, Any rest → lexeme? ([c] ++ rest) = some (kind, [c]) := fun rest _ => h rest
  exact scans_lexeme hb hl start

/-- The token of an operator. -/
def operatorToken (c : Char) (start : Nat) : Token :=
  ⟨.operator, String.ofList [c], start, start + 1⟩

theorem scans_operator {c : Char} (h : isOperator c = true) (start : Nat) :
    Scans Any [c] start [operatorToken c start] :=
  scans_symbol (not_isBlank_of_isOperator h) (lexeme?_of_isOperator h) start

/-- A symbol with a blank on either side. -/
theorem scans_spaced {c : Char} {start : Nat} {t : Token} (h : Scans Any [c] (start + 1) [t]) :
    Scans Any (' ' :: [c] ++ [' ']) start [t] := by
  have hblank : Text.isBlank ' ' = true := by decide
  have hafter := h.append (scans_blank hblank _) fun _ _ => trivial
  exact (scans_blank hblank start).append hafter fun _ _ => trivial

/-- The token of a natural number. -/
def numeralToken (n start : Nat) : Token :=
  ⟨.number, String.ofList (Digits.ofNat n), start, start + (Digits.ofNat n).length⟩

theorem scans_numeral (n start : Nat) :
    Scans Apart (Digits.ofNat n) start [numeralToken n start] :=
  scans_number (Number.isLexeme_ofNat n) start

/-- Two texts with an operator between them. -/
theorem scans_between {cs mark cs' : List Char} {start : Nat} {ts ts' : List Token} {t : Token}
    (h : Scans Apart cs start ts) (hm : Scans Any mark (start + cs.length) [t])
    (h' : Scans Apart cs' (start + cs.length + mark.length) ts')
    (hmark : ∀ rest, Apart (mark ++ rest)) :
    Scans Apart (cs ++ mark ++ cs') start (ts ++ t :: ts') := by
  have hfirst := h.append hm fun rest _ => hmark rest
  rw [Nat.add_assoc, ← List.length_append] at h'
  rw [List.append_cons]
  exact hfirst.append h' fun _ _ => trivial

theorem scan_of_scans {cs : List Char} {ts : List Token} (h : Scans Apart cs 0 ts) :
    scan cs = ⟨ts, .finished cs.length⟩ := by
  have h := h [] [] apart_nil
  rw [List.append_nil, List.append_nil, Nat.zero_add, scanFrom_nil, List.reverse_reverse] at h
  exact h

/-- A blank behind a text adds no token. -/
theorem scan_of_scans_blank {cs : List Char} {ts : List Token} (h : Scans Apart cs 0 ts) {c : Char}
    (hc : Text.isBlank c = true) : scan (cs ++ [c]) = ⟨ts, .finished (cs.length + 1)⟩ := by
  have hapart : ∀ rest, Apart (c :: rest) := by
    refine apart_cons (Bool.eq_false_iff.mpr fun hname => not_isBlank_of_isNameChar hname hc) ?_
    rintro rfl
    revert hc
    decide
  have hbehind := h.append (scans_blank hc _) fun rest _ => hapart rest
  rw [List.append_nil] at hbehind
  have hscan := scan_of_scans fun seen rest _ => hbehind seen rest trivial
  rwa [List.length_append] at hscan

end ExactCalc.Token
