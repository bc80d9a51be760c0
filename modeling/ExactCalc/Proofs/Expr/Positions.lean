/-
  ExactCalc.Proofs.Expr.Positions — where a text is rejected (`rejection_position`; see
  `ExactCalc.Expr.Parsing`).

  The rules blame tokens, or what comes when the tokens are used up. In front of a
  character that stops the scan, a rejection does not depend on what comes there. In
  front of a token that is too much, the text is an input of its own, as the tokens
  before it have a derivation.
-/

import ExactCalc.Proofs.Expr.Blame
import ExactCalc.Proofs.Expr.Stuck
import ExactCalc.Proofs.Scan

namespace ExactCalc.Expr

open Grammar

/-- What a rejection of a scanned text is about, and the place it is given. -/
inductive PointsTo (s : Token.Scan) : Rejection → Nat → Prop
  | token {t : Token} (reason : Rejection) : t ∈ s.tokens → PointsTo s reason t.start
  | character {error : LexError} : s.ending = .stuck error →
    PointsTo s (.lex error) error.position
  | finish {n : Nat} (reason : Rejection) : s.ending = .finished n → PointsTo s reason n

theorem Blames.pointsTo {s : Token.Scan} {f : Failure} (h : Blames s.ending s.tokens f) :
    ∃ reason p, f = .rejected reason ∧ reason.position? = some p ∧ PointsTo s reason p := by
  cases h with
  | character hstuck => exact ⟨_, _, rfl, rfl, .character hstuck⟩
  | operandMissing hend => exact ⟨_, _, rfl, rfl, .finish _ hend⟩
  | literal ht _ => exact ⟨_, _, rfl, rfl, .token _ ht⟩
  | tooDeep ht _ => exact ⟨_, _, rfl, rfl, .token _ ht⟩
  | unexpected ht _ => exact ⟨_, _, rfl, rfl, .token _ ht⟩
  | missingClose _ ht => exact ⟨_, _, rfl, rfl, .token _ (mem_of_mem_unpaired ht)⟩
  | strayClose hsplit _ _ =>
    exact ⟨_, _, rfl, rfl, .token _ (hsplit ▸ List.mem_append_right _ List.mem_cons_self)⟩

section

variable {text : String} {f : Failure}

theorem exists_pointsTo (h : parse text = .error f) :
    ∃ reason p, f = .rejected reason ∧ reason.position? = some p ∧
      PointsTo (Token.scan text.toList) reason p := by
  rcases parse_failure h with ⟨n, hscan, rfl⟩ | hblames | ⟨tree, t, after, hinput, rfl⟩
  · exact ⟨_, n, rfl, rfl, .finish _ (by rw [hscan])⟩
  · exact hblames.pointsTo
  · obtain ⟨d, hsplit, -⟩ := exists_derivation (Token.scanned_scan text.toList) hinput
    exact ⟨_, _, rfl, rfl, .token _ (hsplit ▸ List.mem_append_right _ List.mem_cons_self)⟩

theorem PointsTo.place {reason : Rejection} {p : Nat}
    (h : PointsTo (Token.scan text.toList) reason p) :
    (∃ t ∈ (Token.scan text.toList).tokens, t.start = p) ∨
    (∃ c, (Token.scan text.toList).ending = .stuck ⟨c, p⟩) ∨ p = text.length := by
  cases h with
  | token _ ht => exact Or.inl ⟨_, ht, rfl⟩
  | @character error hstuck => exact Or.inr (Or.inl ⟨error.character, hstuck⟩)
  | finish _ hend =>
    have hends := Token.endsAt_scan text.toList
    unfold Token.EndsAt at hends
    rw [hend] at hends
    exact Or.inr (Or.inr (hends.1.trans String.length_toList))

/-- The tokens of a scan start before the place where it ends. -/
theorem start_lt_position {t : Token} (ht : t ∈ (Token.scan text.toList).tokens) :
    t.start < (Token.scan text.toList).ending.position := by
  obtain ⟨_, _, -, hlt⟩ := ((Token.laid_scan text.toList).stands t ht).exists_cons
  exact hlt.trans_le ((Token.endsAt_scan text.toList).reaches.stop_le t ht)

/-- In front of the character where the scan gets stuck, only tokens are pointed at. -/
theorem PointsTo.before_stuck {reason : Rejection} {p : Nat} {error : LexError}
    (h : PointsTo (Token.scan text.toList) reason p)
    (hstuck : (Token.scan text.toList).ending = .stuck error) :
    reason = .lex error ∨ p < error.position := by
  cases h with
  | token _ ht =>
    have hlt := start_lt_position ht
    rw [hstuck] at hlt
    exact Or.inr hlt
  | character hstuck' =>
    cases hstuck.symm.trans hstuck'
    exact Or.inl rfl
  | finish _ hend => cases hstuck.symm.trans hend

/-- A rejection for another cause than that character does not depend on what follows the tokens. -/
theorem parse_of_stuck {error : LexError} (h : parse text = .error f)
    (hstuck : (Token.scan text.toList).ending = .stuck error) (hf : f ≠ .rejected (.lex error))
    {text' : String} (hhead : (Token.scan text.toList).tokens <+: (Token.scan text'.toList).tokens) :
    parse text' = .error f := by
  have h : ofScan text.toList ⟨(Token.scan text.toList).tokens, .stuck error⟩ = .error f := by
    rw [← hstuck]
    exact h
  obtain ⟨after, hafter⟩ := hhead
  have h' := error_of_stuck h hf text'.toList after (Token.scan text'.toList).ending
  rw [hafter] at h'
  exact h'

/-- In front of a token that is too much, the text is parsed. -/
theorem parse_of_trailing {found : String} {p : Nat}
    (h : parse text = .error (.rejected (.parse (.trailing found) p))) :
    ∃ e, parse (String.ofList (text.toList.take p)) = .ok e := by
  rcases parse_failure h with ⟨n, -, hf⟩ | hblames | ⟨tree, t, after, hinput, hf⟩
  · cases hf
  · cases hblames with
    | unexpected _ hkind => cases hkind
  · cases hf
    obtain ⟨d, hsplit, hfits, hshort, -⟩ :=
      exists_derivation (Token.scanned_scan text.toList) hinput
    have hscan := Token.scan_take hsplit
    rw [← String.toList_ofList (l := text.toList.take t.start)] at hscan
    exact ⟨_, (parse_iff_derives hscan).mpr ⟨d, rfl, rfl, hfits, hshort⟩⟩

theorem mem_of_tooDeep {p : Nat} (h : parse text = .error (.rejected (.parse .tooDeep p))) :
    ∃ t ∈ (Token.scan text.toList).tokens, t.start = p ∧ AsksOperand t := by
  rcases parse_failure h with ⟨n, -, hf⟩ | hblames | ⟨tree, t, after, -, hf⟩
  · cases hf
  · cases hblames with
    | tooDeep ht hask => exact ⟨_, ht, rfl, hask⟩
    | unexpected _ hkind => cases hkind
  · cases hf

/-- A text that is not parsed is rejected at the start of one of its tokens, at the first character that
starts none, or at its end. If there is such a character, it is the cause, or the place is before it and
every text with the same tokens in front is rejected in the same way. If the cause is a token that is
too much, the text before it is parsed. If it is the nesting, an operator, a root word or an opening
parenthesis stands at the place. -/
theorem rejection_position {text : String} {f : Failure} (h : parse text = .error f) :
    let s := Token.scan text.toList
    ∃ reason p, f = .rejected reason ∧ reason.position? = some p ∧
      ((∃ t ∈ s.tokens, t.start = p) ∨ (∃ c, s.ending = .stuck ⟨c, p⟩) ∨ p = text.length) ∧
      (∀ error, s.ending = .stuck error → reason = .lex error ∨
        (p < error.position ∧ ∀ text' : String, s.tokens <+: (Token.scan text'.toList).tokens →
          parse text' = .error f)) ∧
      (∀ e : ParseError, reason = .parse e p → e.kind = .trailingInput →
        ∃ tree, parse (String.ofList (text.toList.take p)) = .ok tree) ∧
      ∀ e : ParseError, reason = .parse e p → e.kind = .nestingTooDeep →
        ∃ t ∈ s.tokens, t.start = p ∧
          (t.kind = .operator ∨ IsRootWord t ∨ t.kind = .openParen) := by
  intro s
  obtain ⟨reason, p, rfl, hp, hpoints⟩ := exists_pointsTo h
  refine ⟨reason, p, rfl, hp, hpoints.place, fun error hstuck => ?_, fun e he hkind => ?_,
    fun e he hkind => ?_⟩
  · by_cases hlex : reason = .lex error
    · exact Or.inl hlex
    · exact Or.inr ⟨(hpoints.before_stuck hstuck).resolve_left hlex, fun text' hhead =>
        parse_of_stuck h hstuck (fun hf => hlex (Failure.rejected.inj hf)) hhead⟩
  · subst he
    cases e with
    | trailing found => exact parse_of_trailing h
    | _ => cases hkind
  · subst he
    cases e with
    | tooDeep => exact mem_of_tooDeep h
    | _ => cases hkind

/-- The second number is too much; that is found before the character behind it, and whatever is put
in its place. -/
theorem rejection_position_of_second :
    let text := "1+2 3 #"
    let f : Failure := .rejected (.parse (.trailing "3") 4)
    parse text = .error f ∧ (Token.scan text.toList).ending = .stuck ⟨'#', 6⟩ ∧
      parse "1+2 3 )" = .error f ∧ ∃ tree, parse "1+2 " = .ok tree := by
  intro text f
  have hparse : parse text = .error f := by decide +kernel
  have hstuck : (Token.scan text.toList).ending = .stuck ⟨'#', 6⟩ := by decide +kernel
  have hhead : (Token.scan text.toList).tokens <+: (Token.scan "1+2 3 )".toList).tokens := by
    decide +kernel
  have hcut : String.ofList (text.toList.take 4) = "1+2 " := by decide +kernel
  obtain ⟨reason, p, hf, hp, -, hbefore, htrailing, -⟩ := rejection_position hparse
  obtain rfl : .parse (.trailing "3") 4 = reason := Failure.rejected.inj hf
  cases hp
  rcases hbefore _ hstuck with hlex | ⟨-, hsame⟩
  · cases hlex
  · exact ⟨hparse, hstuck, hsame _ hhead, hcut ▸ htrailing _ rfl rfl⟩

end

end ExactCalc.Expr
