/-
  ExactCalc.Proofs.Token — what the tokens of a scan are (see `ExactCalc.Token`): none
  of them is the finish, a number token holds a lexeme, and each stands in the text
  where it says. All come from one lexeme at a time, and go through a scan as facts on
  the tokens seen so far. There are none exactly when the text is blank or stuck at
  once.
-/

import ExactCalc.Proofs.Number.Literal
import ExactCalc.Token

namespace ExactCalc.Token

/-- As a scan makes them. -/
structure Scanned (t : Token) : Prop where
  notFinish : t.kind ≠ .finish
  lexeme : t.kind = .number → Number.isLexeme t.text.toList = true

theorem isLexeme_numberLexeme {cs : List Char} (h : numberLexeme cs ≠ []) :
    Number.isLexeme (numberLexeme cs) = true := by
  have digits : ∀ l : List Char, ∀ c ∈ l.takeWhile Char.isDigit, c.isDigit = true :=
    fun l c hc => List.all_eq_true.mp List.all_takeWhile c hc
  rw [Number.isLexeme_iff]
  simp only [numberLexeme] at h ⊢
  split at h
  · rename_i rest hd
    by_cases hw : cs.takeWhile Char.isDigit = []
    · by_cases hp : rest.takeWhile Char.isDigit = []
      · simp [hw, hp] at h
      · exact Or.inr ⟨_, _, by simp [hp], digits cs, digits rest, Or.inr hp⟩
    · exact Or.inr ⟨_, _, by simp [hw], digits cs, digits rest, Or.inl hw⟩
  · exact Or.inl ⟨h, digits cs⟩

/-- A lexeme makes no finish, and only the lexeme of a number makes a number. -/
theorem lexeme?_cases {c : Char} {rest l : List Char} {kind : Kind}
    (h : lexeme? (c :: rest) = some (kind, l)) :
    (numberLexeme (c :: rest) ≠ [] ∧ kind = .number ∧ l = numberLexeme (c :: rest)) ∨
    (kind ≠ .finish ∧ kind ≠ .number) := by
  simp only [lexeme?] at h
  by_cases hn : numberLexeme (c :: rest) = []
  · right
    rw [hn] at h
    simp only [List.isEmpty_nil, Bool.not_true, Bool.false_eq_true, if_false] at h
    repeat' split at h
    all_goals
      first
        | exact absurd h (Option.some_ne_none _).symm
        | (obtain ⟨rfl, -⟩ := Prod.mk.inj (Option.some.inj h); decide)
  · left
    rw [if_pos (by simp [hn])] at h
    obtain ⟨rfl, rfl⟩ := Prod.mk.inj (Option.some.inj h)
    exact ⟨hn, rfl, rfl⟩

theorem scanned_of_lexeme? {c : Char} {rest l : List Char} {kind : Kind} {start stop : Nat}
    (h : lexeme? (c :: rest) = some (kind, l)) : Scanned ⟨kind, String.ofList l, start, stop⟩ := by
  rcases lexeme?_cases h with ⟨hn, rfl, rfl⟩ | ⟨hfinish, hnumber⟩
  · refine ⟨show Kind.number ≠ .finish by decide, fun _ => ?_⟩
    rw [String.toList_ofList]
    exact isLexeme_numberLexeme hn
  · exact ⟨hfinish, fun he => absurd he hnumber⟩

/-! ## One step of a scan -/

theorem scanFrom_nil (seen : List Token) (position : Nat) :
    scanFrom seen position [] = ⟨seen.reverse, .finished position⟩ := by
  unfold scanFrom
  rfl

theorem scanFrom_blank {c : Char} (h : Text.isBlank c = true) (seen : List Token) (position : Nat)
    (rest : List Char) :
    scanFrom seen position (c :: rest) = scanFrom seen (position + 1) rest := by
  conv => lhs; unfold scanFrom
  rw [if_pos h]

theorem scanFrom_stuck {c : Char} {rest : List Char} (hb : ¬ Text.isBlank c = true)
    (hl : lexeme? (c :: rest) = none) (seen : List Token) (position : Nat) :
    scanFrom seen position (c :: rest) = ⟨seen.reverse, .stuck ⟨c, position⟩⟩ := by
  conv => lhs; unfold scanFrom
  rw [if_neg hb]
  split
  · rfl
  · rename_i hs
    rw [hl] at hs
    cases hs

theorem scanFrom_lexeme {c : Char} {rest l : List Char} {kind : Kind}
    (hb : ¬ Text.isBlank c = true) (hl : lexeme? (c :: rest) = some (kind, l)) (seen : List Token)
    (position : Nat) : scanFrom seen position (c :: rest) =
      scanFrom (⟨kind, String.ofList l, position, position + l.length⟩ :: seen)
        (position + l.length) ((c :: rest).drop l.length) := by
  conv => lhs; unfold scanFrom
  rw [if_neg hb]
  split
  · rename_i hs
    rw [hl] at hs
    cases hs
  · rename_i hs
    obtain ⟨rfl, rfl⟩ := Prod.mk.inj (Option.some.inj (hl.symm.trans hs))
    rfl

theorem scanned_scanFrom (seen : List Token) (position : Nat) (cs : List Char)
    (h : ∀ t ∈ seen, Scanned t) : ∀ t ∈ (scanFrom seen position cs).tokens, Scanned t := by
  induction seen, position, cs using scanFrom.induct with
  | case1 seen position =>
    rw [scanFrom_nil]
    exact fun t ht => h t (List.mem_reverse.mp ht)
  | case2 seen position c rest hb ih =>
    rw [scanFrom_blank hb]
    exact ih h
  | case3 seen position c rest hb hl =>
    rw [scanFrom_stuck hb hl]
    exact fun t ht => h t (List.mem_reverse.mp ht)
  | case4 seen position c rest hb kind l hl ih =>
    rw [scanFrom_lexeme hb hl]
    apply ih
    intro t ht
    rcases List.mem_cons.mp ht with rfl | ht
    · exact scanned_of_lexeme? hl
    · exact h t ht

theorem scanned_scan (cs : List Char) : ∀ t ∈ (scan cs).tokens, Scanned t :=
  scanned_scanFrom [] 0 cs fun _ h => absurd h List.not_mem_nil

/-! ## Places in the text -/

/-- The token is the longest lexeme where it stands in the text. -/
structure Stands (text : List Char) (t : Token) : Prop where
  lexeme : lexeme? (text.drop t.start) = some (t.kind, t.text.toList)
  stop : t.stop = t.start + t.text.toList.length

/-- The tokens stand in the text one after another. -/
structure Laid (text : List Char) (ts : List Token) : Prop where
  stands : ∀ t ∈ ts, Stands text t
  apart : ts.Pairwise fun t u => t.stop ≤ u.start

theorem laid_nil (text : List Char) : Laid text [] := ⟨fun _ h => absurd h List.not_mem_nil, .nil⟩

theorem Laid.concat {text : List Char} {ts : List Token} {t : Token} (h : Laid text ts)
    (ht : Stands text t) (hapart : ∀ u ∈ ts, u.stop ≤ t.start) : Laid text (ts ++ [t]) := by
  refine ⟨fun u hu => ?_, List.pairwise_append.mpr ⟨h.apart, List.pairwise_singleton _ t, ?_⟩⟩
  · rcases List.mem_append.mp hu with hu | hu
    · exact h.stands u hu
    · exact List.mem_singleton.mp hu ▸ ht
  · intro u hu v hv
    rw [List.mem_singleton.mp hv]
    exact hapart u hu

/-- One step of a scan: the tokens so far lie before the position, where the rest of the text
begins. -/
theorem laid_scanFrom (text : List Char) (seen : List Token) (position : Nat) (cs : List Char)
    (hcs : cs = text.drop position) (hseen : Laid text seen.reverse)
    (hbefore : ∀ t ∈ seen, t.stop ≤ position) : Laid text (scanFrom seen position cs).tokens := by
  induction seen, position, cs using scanFrom.induct with
  | case1 seen position =>
    rw [scanFrom_nil]
    exact hseen
  | case2 seen position c rest hb ih =>
    rw [scanFrom_blank hb]
    refine ih ?_ hseen fun t ht => Nat.le_succ_of_le (hbefore t ht)
    rw [← List.drop_drop, ← hcs]
    rfl
  | case3 seen position c rest hb hl =>
    rw [scanFrom_stuck hb hl]
    exact hseen
  | case4 seen position c rest hb kind l hl ih =>
    rw [scanFrom_lexeme hb hl]
    apply ih
    · rw [hcs, List.drop_drop]
    · rw [List.reverse_cons]
      refine hseen.concat ⟨?_, ?_⟩ fun t ht => hbefore t (List.mem_reverse.mp ht)
      · rw [← hcs, hl, String.toList_ofList]
      · rw [String.toList_ofList]
    · intro t ht
      rcases List.mem_cons.mp ht with rfl | ht
      · exact Nat.le_refl _
      · exact Nat.le_trans (hbefore t ht) (Nat.le_add_right _ _)

theorem laid_scan (text : List Char) : Laid text (scan text).tokens :=
  laid_scanFrom text [] 0 text rfl (laid_nil text) fun _ h => absurd h List.not_mem_nil

/-- A token takes up at least one character. -/
theorem Stands.exists_cons {text : List Char} {t : Token} (h : Stands text t) :
    ∃ c rest, text.drop t.start = c :: rest ∧ t.start < t.stop := by
  have hlexeme := h.lexeme
  have hlength := lexeme?_length_pos hlexeme
  cases hd : text.drop t.start with
  | nil =>
    rw [hd] at hlexeme
    cases hlexeme
  | cons c rest =>
    refine ⟨c, rest, rfl, ?_⟩
    rw [h.stop]
    omega

theorem not_isDigit_of_isAlpha {c : Char} (h : c.isAlpha = true) : c.isDigit = false := by
  unfold Char.isAlpha Char.isUpper Char.isLower at h
  unfold Char.isDigit
  grind

theorem not_isDigit_of_isLetter {c : Char} (h : isLetter c = true) : c.isDigit = false := by
  rcases Bool.or_eq_true_iff.mp h with h | h
  · exact not_isDigit_of_isAlpha h
  · rw [beq_iff_eq.mp h]
    decide

/-- A letter starts an identifier, and all the characters that may go on with it belong to it. -/
theorem lexeme?_of_isLetter {c : Char} (h : isLetter c = true) (rest : List Char) :
    lexeme? (c :: rest) = some (.identifier, c :: rest.takeWhile isNameChar) := by
  have hdigit := not_isDigit_of_isLetter h
  have hnumber : numberLexeme (c :: rest) = [] := by
    simp only [numberLexeme, List.takeWhile_cons, List.dropWhile_cons, hdigit, Bool.false_eq_true,
      if_false]
    split
    · rename_i heq
      cases heq
      exact absurd h (by decide)
    · rfl
  simp [lexeme?, hnumber, h]

theorem lexeme?_of_isAlpha {c : Char} (h : c.isAlpha = true) (rest : List Char) :
    lexeme? (c :: rest) = some (.identifier, c :: rest.takeWhile isNameChar) :=
  lexeme?_of_isLetter (Bool.or_eq_true_iff.mpr (Or.inl h)) rest

theorem lexeme?_lineBreak (rest : List Char) : lexeme? ('\n' :: rest) = none := rfl

/-! ## Blank texts -/

theorem seen_prefix (seen : List Token) (position : Nat) (cs : List Char) :
    seen.reverse <+: (scanFrom seen position cs).tokens := by
  induction seen, position, cs using scanFrom.induct with
  | case1 seen position =>
    exact ⟨[], by rw [scanFrom_nil, List.append_nil]⟩
  | case2 seen position c rest hb ih =>
    rw [scanFrom_blank hb]
    exact ih
  | case3 seen position c rest hb hl =>
    exact ⟨[], by rw [scanFrom_stuck hb hl, List.append_nil]⟩
  | case4 seen position c rest hb kind l hl ih =>
    rw [scanFrom_lexeme hb hl]
    refine List.IsPrefix.trans ?_ ih
    rw [List.reverse_cons]
    exact List.prefix_append _ _

/-- A scan comes to the end of the text without another token exactly when what is left is blank. -/
theorem scanFrom_finished_iff (seen : List Token) (position : Nat) (cs : List Char) :
    (∃ n, scanFrom seen position cs = ⟨seen.reverse, .finished n⟩) ↔
      cs.all Text.isBlank = true := by
  induction cs generalizing position with
  | nil =>
    rw [scanFrom_nil]
    exact iff_of_true ⟨position, rfl⟩ rfl
  | cons c rest ih =>
    by_cases hb : Text.isBlank c = true
    · rw [scanFrom_blank hb, ih, List.all_cons, hb, Bool.true_and]
    · rw [List.all_cons, Bool.and_eq_true]
      refine iff_of_false ?_ fun h => hb h.1
      rintro ⟨n, h⟩
      cases hl : lexeme? (c :: rest) with
      | none =>
        rw [scanFrom_stuck hb hl] at h
        cases h
      | some lexeme =>
        rw [scanFrom_lexeme hb hl] at h
        -- the token is among those that are found, and was not among those seen
        have hprefix := (congrArg Scan.tokens h) ▸ seen_prefix (⟨lexeme.1, String.ofList lexeme.2,
          position, position + lexeme.2.length⟩ :: seen) _ _
        have hlength := hprefix.length_le
        rw [List.length_reverse, List.length_reverse, List.length_cons] at hlength
        omega

/-- A text has no tokens but the finish exactly when it is blank. -/
theorem scan_finished_iff (cs : List Char) :
    (∃ n, scan cs = ⟨[], .finished n⟩) ↔ cs.all Text.isBlank = true :=
  scanFrom_finished_iff [] 0 cs

end ExactCalc.Token
