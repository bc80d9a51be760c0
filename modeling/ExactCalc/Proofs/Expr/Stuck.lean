/-
  ExactCalc.Proofs.Expr.Stuck — texts whose scan gets stuck (see
  `ExactCalc.Expr.Parsing`).

  What is read before the character in question is read in the same way as in a text
  that ends there (`input_of_stuck`), so the tokens that are left over are known; an
  input has to end with its tokens, and that is when the character is reached. Such a
  text is not parsed. If it fails for another cause than the character, it does so
  whatever stands there (`error_of_stuck`).
-/

import ExactCalc.Proofs.Expr.Lookahead

namespace ExactCalc.Expr

open Grammar

section

variable {error : LexError} {text : List Char} {ts rest : List Token} {tree : List Char → Expr}

/-- Up to the character where the scan got stuck, an input is read as if the text ended there. -/
theorem input_of_stuck (n : Nat) (h : input (.stuck error) ts = .ok (tree, rest)) :
    input (.finished n) ts = .ok (tree, rest) := by
  have halike := alike_input (continues_stuck error [] (.finished n)) ts
  rw [h, List.append_nil] at halike
  generalize input (.finished n) ts = y at halike ⊢
  cases halike with
  | ok _ _ => rw [List.append_nil]

/-- What is read of an input has a derivation, however the scan ended. -/
theorem exists_derivation {ending : Token.Ending} (hts : ∀ t ∈ ts, t.Scanned)
    (h : input ending ts = .ok (tree, rest)) :
    ∃ d : Input, ts = d.tokens ++ rest ∧ d.Fits ∧ ShortLiterals d.tokens ∧
      ∀ text, d.tree text = tree text := by
  cases ending with
  | finished n => exact derives_of_input hts h
  | stuck error => exact derives_of_input hts (input_of_stuck 0 h)

/-- What fails before the character, fails so whatever comes there. -/
theorem error_of_stuck {f : Failure} (h : ofScan text ⟨ts, .stuck error⟩ = .error f)
    (hf : f ≠ .rejected (.lex error)) (text' : List Char) (after : List Token)
    (ending' : Token.Ending) : ofScan text' ⟨ts ++ after, ending'⟩ = .error f := by
  have halike := alike_input (continues_stuck error after ending') ts
  rw [ofScan_eq] at h ⊢
  generalize input (.stuck error) ts = x at halike h
  generalize input ending' (ts ++ after) = y at halike ⊢
  cases halike with
  | stuck y hstuck =>
    cases hstuck
    exact absurd (Except.error.inj h).symm hf
  | error f' =>
    cases h
    rfl
  | @ok tree rest _ =>
    have h : (expectEnd (.stuck error) rest >>= fun _ => .ok (tree text)) = .error f := h
    show (expectEnd ending' (rest ++ after) >>= fun _ => .ok (tree text')) = .error f
    rcases bind_eq_error.mp h with h | ⟨_, -, h⟩
    · cases rest with
      | nil => exact absurd (Except.error.inj h).symm hf
      -- only the token that comes next is looked at
      | cons t rest => exact bind_eq_error.mpr (Or.inl h)
    · cases h

theorem ofScan_of_stuck (hts : ∀ t ∈ ts, t.Scanned) (e : Expr) :
    ofScan text ⟨ts, .stuck error⟩ ≠ .ok e := by
  rw [ofScan_eq]
  intro h
  obtain ⟨⟨tree, rest⟩, hinput, h⟩ := bind_eq_ok.mp h
  obtain ⟨_, hend, -⟩ := bind_eq_ok.mp h
  obtain ⟨d, rfl, -⟩ := exists_derivation hts hinput
  obtain ⟨-, n, hn⟩ := finished_of_expectEnd (fun t ht => hts t (List.mem_append_right _ ht)) hend
  cases hn

end

/-- A text that is parsed scans to its end, and its tokens have a derivation that keeps the limits
and stands for its tree. -/
theorem derives_of_parse {text : String} {e : Expr} (h : parse text = .ok e) :
    ∃ ts n, Token.scan text.toList = ⟨ts, .finished n⟩ ∧ Derives text.toList ts e := by
  have hts := Token.scanned_scan text.toList
  unfold parse at h
  rcases hs : Token.scan text.toList with ⟨ts, n | error⟩
  · rw [hs] at h hts
    exact ⟨ts, n, rfl, derives_of_ofScan hts h⟩
  · rw [hs] at h hts
    exact absurd h (ofScan_of_stuck hts e)

end ExactCalc.Expr
