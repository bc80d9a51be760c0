/-
  ExactCalc.Proofs.Expr.Rejections — what a text can fail with (see
  `ExactCalc.Failure`).

  Neither the rules of the grammar nor arithmetic reject anything as empty; that check
  comes before the first rule, and only for a text that has come to its end
  (`parse_empty`). Nor does a text lead to a fault (`parse_cases`,
  `failsWith_evaluate`). The parser fails only with what its rules blame on the tokens;
  arithmetic takes roots only of magnitudes and only of positive degrees, knows every
  operator that a parsed tree has, and is about no variable. A value can only lack a
  name that is among the tokens (`failsWith_value`).
-/

import ExactCalc.Expr.Evaluation
import ExactCalc.Proofs.Expr.Blame
import ExactCalc.Proofs.Expr.Nodes
import ExactCalc.Proofs.Number.Arithmetic

namespace ExactCalc

/-- A failure that does not say that the text is empty. -/
def Failure.NotEmpty (f : Failure) : Prop := ∀ p, f ≠ .rejected (.parse .empty p)

/-- A rejection, and not of an empty text. -/
structure Failure.Caused (f : Failure) : Prop where
  rejected : ∃ reason, f = .rejected reason
  notEmpty : f.NotEmpty

theorem Failure.caused_eval (e : EvalError) (p : Option Nat) : Caused (.rejected (.eval e p)) := by
  refine ⟨⟨_, rfl⟩, fun p h => ?_⟩
  cases h

theorem Failure.caused_lex (e : LexError) : Caused (.rejected (.lex e)) := by
  refine ⟨⟨_, rfl⟩, fun p h => ?_⟩
  cases h

theorem Failure.caused_parse {e : ParseError} (h : e ≠ .empty) (p : Nat) :
    Caused (.rejected (.parse e p)) := by
  refine ⟨⟨_, rfl⟩, fun q hq => h ?_⟩
  cases hq
  rfl

/-- An error of evaluation that is about no variable, or about one of those. -/
def Failure.About (names : String → Prop) (f : Failure) : Prop :=
  ∃ e : EvalError, f = .eval e ∧ ∀ name, e.name? = some name → names name

theorem Failure.About.caused {names : String → Prop} {f : Failure} (h : f.About names) : f.Caused := by
  obtain ⟨e, rfl, -⟩ := h
  exact caused_eval e none

theorem Failure.About.mono {names names' : String → Prop} {f : Failure}
    (hnames : ∀ name, names name → names' name) (h : f.About names) : f.About names' := by
  obtain ⟨e, rfl, he⟩ := h
  exact ⟨e, rfl, fun name hname => hnames name (he name hname)⟩

open Failure (About Caused caused_eval caused_lex caused_parse)

/-! ## Arithmetic -/

section

variable {names : String → Prop}

namespace Number

theorem failsWith_eval {α : Type} {e : EvalError} (h : e.name? = none) :
    FailsWith (About names) (.error (.eval e) : Except Failure α) := by
  refine failsWith_error ⟨e, rfl, fun name hname => ?_⟩
  cases h.symm.trans hname

theorem failsWith_bounded (q : Rat) (inexact : Bool) :
    FailsWith (About names) (bounded q inexact) := by
  unfold bounded
  split
  · exact failsWith_eval rfl
  · exact failsWith_ok _

theorem failsWith_div (a b : Number) : FailsWith (About names) (a.div b) := by
  unfold div
  split
  · exact failsWith_eval rfl
  · exact failsWith_bounded _ _

theorem failsWith_powerBase (base p : Rat) : FailsWith (About names) (powerBase base p) := by
  unfold powerBase
  split
  · exact failsWith_ok _
  split
  · exact failsWith_eval rfl
  split
  · exact failsWith_eval rfl
  rw [abs_eq]
  obtain ⟨r, -, -, hr⟩ | ⟨-, hr⟩ := Root.exactRoot?_cases p.den_pos (abs_nonneg base)
  · rw [hr]
    exact failsWith_ok _
  · rw [hr]
    exact failsWith_eval rfl

theorem failsWith_pow (a e : Number) : FailsWith (About names) (a.pow e) := by
  unfold pow
  dsimp only
  split
  · split
    · exact failsWith_eval rfl
    · exact failsWith_bounded _ _
  split
  · exact failsWith_eval rfl
  refine (failsWith_powerBase _ _).bind fun base => ?_
  split
  · exact failsWith_eval rfl
  · exact failsWith_bounded _ _

theorem failsWith_root (a d : Number) : FailsWith (About names) (a.root d) := by
  obtain ⟨cause, hcause, h⟩ | ⟨n, m, cut, -, -, -, -, -, h⟩ := root_cases a d
  · rw [h]
    exact failsWith_eval hcause
  · rw [h]
    exact failsWith_ok _

theorem failsWith_ofLiteral {cs : List Char} (h : isLexeme cs = true) :
    FailsWith Caused (ofLiteral cs) := by
  rw [ofLiteral_of_isLexeme h]
  split
  · exact failsWith_ok _
  · exact failsWith_error (caused_eval _ _)

end Number

namespace Expr

open Number (failsWith_eval failsWith_bounded)

theorem failsWith_applySign (s : Sign) (a : Number) : FailsWith (About names) (applySign s a) := by
  unfold applySign
  split
  · exact failsWith_bounded _ _
  · exact failsWith_ok _

theorem failsWith_applyOperator {op : Operator} (h : ∀ symbol, op ≠ .other symbol) (a b : Number) :
    FailsWith (About names) (applyOperator op a b) := by
  cases op with
  | add => exact failsWith_bounded _ _
  | sub => exact failsWith_bounded _ _
  | mul => exact failsWith_bounded _ _
  | div => exact Number.failsWith_div a b
  | pow => exact Number.failsWith_pow a b
  | other symbol => exact absurd rfl (h symbol)

end Expr

end

namespace Expr

/-- Only a name among the tokens is undefined. -/
theorem failsWith_value {ts : List Token} {e : Expr} (he : Made ts e) (vars : Variables) :
    FailsWith (About fun name => ∃ t ∈ ts, t.text = name) (e.value vars) := by
  induction he with
  | number => exact failsWith_ok _
  | two => exact failsWith_ok _
  | @name t ht _ _ =>
    unfold value
    split
    · exact failsWith_ok _
    · refine failsWith_error ⟨_, rfl, fun name hname => ?_⟩
      exact ⟨t, ht, Option.some.inj hname⟩
  | signed _ _ ih => exact ih.bind (failsWith_applySign _)
  | binary hop _ _ ihl ihr => exact ihl.bind fun a => ihr.bind (failsWith_applyOperator hop a)
  | root _ _ ihd ihr => exact ihd.bind fun a => ihr.bind fun b => Number.failsWith_root b a

/-- The tree of a text has a value, or is rejected. -/
theorem failsWith_evaluate {text : String} {e : Expr} (he : parse text = .ok e) (vars : Variables) :
    FailsWith Caused (evaluate vars e) := by
  obtain ⟨ts, n, -, -, hmade | ⟨name, right, rfl, hmade⟩⟩ := made_of_parse he
  · have hvalue : FailsWith Caused (e.value vars) :=
      fun f hf => (failsWith_value hmade vars f hf).caused
    cases hmade <;> exact hvalue.bind fun _ => failsWith_ok _
  · have hvalue : FailsWith Caused (right.value vars) :=
      fun f hf => (failsWith_value hmade vars f hf).caused
    refine hvalue.bind fun v => ?_
    split
    · exact failsWith_ok _
    · exact failsWith_error (caused_eval _ _)

/-! ## Texts -/

/-- What the rules blame on a token, they reject, and not as empty. -/
theorem Blames.caused {ending : Token.Ending} {all : List Token} {f : Failure}
    (h : Blames ending all f) : f.Caused := by
  cases h with
  | character => exact caused_lex _
  | literal => exact caused_eval _ _
  | tooDeep => exact caused_parse (by decide) _
  | missingClose => exact caused_parse (by decide) _
  | strayClose => exact caused_parse (by decide) _
  | operandMissing => exact caused_parse (by decide) _
  | unexpected _ hkind =>
    refine caused_parse ?_ _
    rintro rfl
    cases hkind

/-- A text is rejected as empty if it has no tokens, and otherwise for another cause. -/
theorem parse_cases (text : String) :
    (∃ n, Token.scan text.toList = ⟨[], .finished n⟩ ∧
      parse text = .error (.rejected (.parse .empty n))) ∨ FailsWith Caused (parse text) := by
  cases h : parse text with
  | ok e => exact Or.inr (failsWith_ok e)
  | error f =>
    rcases parse_failure h with ⟨n, hscan, rfl⟩ | hblames | ⟨_, t, _, -, rfl⟩
    · exact Or.inl ⟨n, hscan, rfl⟩
    · exact Or.inr (failsWith_error hblames.caused)
    · exact Or.inr (failsWith_error (caused_parse ParseError.noConfusion _))

/-- A text is rejected as empty only when it has no tokens. -/
theorem parse_empty {text : String} {p : Nat}
    (h : parse text = .error (.rejected (.parse .empty p))) :
    ∃ n, Token.scan text.toList = ⟨[], .finished n⟩ := by
  rcases parse_cases text with ⟨n, hscan, -⟩ | hcaused
  · exact ⟨n, hscan⟩
  · exact absurd rfl ((hcaused _ h).notEmpty p)

/-- A text that is calculated has a value, or is rejected. -/
theorem rejected_of_calculated {text : String} {vars : Variables} {f : Failure}
    (h : (parse text >>= evaluate vars) = .error f) : ∃ reason, f = .rejected reason := by
  rcases bind_eq_error.mp h with h | ⟨e, he, h⟩
  · rcases parse_cases text with ⟨n, -, hparse⟩ | hcaused
    · cases hparse.symm.trans h
      exact ⟨_, rfl⟩
    · exact (hcaused f h).rejected
  · exact (failsWith_evaluate he vars f h).rejected

end Expr

end ExactCalc
