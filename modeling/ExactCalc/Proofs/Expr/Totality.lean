/-
  ExactCalc.Proofs.Expr.Totality — no text leads to a failure inside the calculator
  (`calculation_total`; see `ExactCalc.Failure`).

  A text has a value that can be shown, or it is rejected. None of the ways out for a
  broken promise is taken, and each is excluded where the promise is made: by the
  lexemes of a scan for number tokens, by what a parsed tree is made of for operators
  and assignments, by the tests in front of each quotient and each root for arithmetic
  (`Checked.evaluate_eq`), and by the parser for the end of the tokens.
-/

import ExactCalc.Proofs.Expr.Lookahead
import ExactCalc.Proofs.Expr.Rejections
import ExactCalc.Proofs.Number.Decimal
import ExactCalc.Proofs.Number.Division

namespace ExactCalc

/-! ## Evaluation with every divisor tested -/

namespace Checked

def applyOperator : Operator → Number → Number → Except Failure Number
  | .add, a, b => a.add b
  | .sub, a, b => a.sub b
  | .mul, a, b => a.mul b
  | .div, a, b => div a b
  | .pow, a, b => pow a b
  | .other symbol, _, _ => .error (.fault (.unknownOperator symbol))

def value (vars : Variables) : Expr → Except Failure Number
  | .literal v => .ok v
  | .var name =>
    match vars.get? name with
    | some v => .ok v
    | none => .error (.eval (.undefinedVariable name))
  | .signed s e => do Expr.applySign s (← value vars e)
  | .binary op l r => do
    let a ← value vars l
    let b ← value vars r
    applyOperator op a b
  | .root d r => do
    let degree ← value vars d
    let radicand ← value vars r
    root radicand degree
  | .assign _ _ => .error (.fault .nestedAssignment)

def evaluate (vars : Variables) : Expr → Except Failure (Number × Variables)
  | .assign name e => do
    let v ← value vars e
    match Variables.set vars name v with
    | .ok vars' => return (v, vars')
    | .error cause => .error (.eval cause)
  | e => do return (← value vars e, vars)

theorem applyOperator_eq (op : Operator) (a b : Number) :
    applyOperator op a b = Expr.applyOperator op a b := by
  cases op with
  | div => exact div_eq a b
  | pow => exact pow_eq a b
  | _ => rfl

theorem value_eq (vars : Variables) (e : Expr) : value vars e = e.value vars := by
  induction e with
  | literal v => rfl
  | var name => rfl
  | signed s e ih =>
    unfold value Expr.value
    rw [ih]
  | binary op l r ihl ihr =>
    unfold value Expr.value
    rw [ihl, ihr, funext fun a => funext (applyOperator_eq op a)]
  | root d r ihd ihr =>
    unfold value Expr.value
    rw [ihd, ihr, funext fun a => funext (root_eq a)]
  | assign name e _ => rfl

/-- No divisor is zero, whatever the tree. -/
theorem evaluate_eq (vars : Variables) (e : Expr) : evaluate vars e = e.evaluate vars := by
  cases e with
  | assign name e =>
    show (value vars e >>= _) = (e.value vars >>= _)
    rewrite [value_eq]
    rfl
  | _ =>
    show (value vars _ >>= _) = (Expr.value vars _ >>= _)
    rw [value_eq]

end Checked

namespace Expr

/-- A text has a value, or it is rejected while it is scanned, parsed or evaluated. -/
theorem calculation_cases (text : String) (vars : Variables) :
    (∃ v vars', (parse text >>= evaluate vars) = .ok (v, vars')) ∨
    ∃ reason, (parse text >>= evaluate vars) = .error (.rejected reason) := by
  cases h : (parse text >>= evaluate vars) with
  | ok r => exact Or.inl ⟨r.1, r.2, rfl⟩
  | error f =>
    obtain ⟨reason, rfl⟩ := rejected_of_calculated h
    exact Or.inr ⟨reason, rfl⟩

/-- Every number token of a scan is a literal that is read, or is too long. -/
theorem ofLiteral_ne_fault {text : String} {t : Token} (ht : t ∈ (Token.scan text.toList).tokens)
    (hk : t.kind = .number) (f : Fault) : Number.ofLiteral t.text.toList ≠ .error (.fault f) := by
  intro h
  have hlexeme := (Token.scanned_scan text.toList t ht).lexeme hk
  obtain ⟨reason, hreason⟩ := (Number.failsWith_ofLiteral hlexeme _ h).rejected
  cases hreason

/-- Whatever the text and the table, a calculation ends with a value, which is shown with any number
of places that the settings allow, or with a rejection. Nothing is read behind the finish of the
tokens, every number token holds a literal, and the tree that is evaluated has only operators and
signs with a meaning and no assignment but at its top. No divisor is zero, in this tree or any. -/
theorem calculation_total (text : String) (vars : Variables) :
    ((∃ v vars', (parse text >>= evaluate vars) = .ok (v, vars')) ∨
      ∃ reason, (parse text >>= evaluate vars) = .error (.rejected reason)) ∧
    (∀ (v : Number) (places : Nat), places ≤ maxPlaces →
      v.decimal? places = .ok (v.decimal places)) ∧
    (∀ ts n more ending, Token.scan text.toList = ⟨ts, .finished n⟩ →
      ofScan text.toList ⟨ts ++ Token.finish n :: more, ending⟩ = parse text) ∧
    (∀ t ∈ (Token.scan text.toList).tokens, t.kind = .number →
      ∀ f, Number.ofLiteral t.text.toList ≠ .error (.fault f)) ∧
    (∀ e, parse text = .ok e → Made (Token.scan text.toList).tokens e ∨
      ∃ name right, e = .assign name right ∧ Made (Token.scan text.toList).tokens right) ∧
    ∀ e, Checked.evaluate vars e = evaluate vars e := by
  refine ⟨calculation_cases text vars, fun v places => v.decimal?_eq_ok, ?_,
    fun t ht hk => ofLiteral_ne_fault ht hk, ?_, Checked.evaluate_eq vars⟩
  · intro ts n more ending hscan
    unfold parse
    rw [hscan]
    exact ofScan_behind_finish text.toList ts n more ending
  · intro e he
    obtain ⟨ts, n, hscan, -, hmade⟩ := made_of_parse he
    rw [hscan]
    exact hmade

/-- A half is put into the table and shown with two places; its numerals are read, and so they are
with more tokens behind the finish. -/
theorem calculation_total_of_half :
    let text := "h = 1/2"
    let vars : Variables := Table.empty
    let v : Number := .exact (1 / 2)
    let tokens := (Token.scan text.toList).tokens
    (parse text >>= evaluate vars) = .ok (v, vars.insert "h" v) ∧
      v.decimal? (2 : Nat) = .ok "0.5" ∧
      ofScan text.toList ⟨tokens ++ Token.finish 7 :: tokens, .finished 7⟩ = parse text ∧
      (∀ f, Number.ofLiteral "2".toList ≠ .error (.fault f)) ∧
      ∃ e, parse text = .ok e ∧ Checked.evaluate vars e = .ok (v, vars.insert "h" v) := by
  intro text vars v tokens
  obtain ⟨-, hshown, hbehind, hliteral, -, hchecked⟩ := calculation_total text vars
  have hvalue : (parse text >>= evaluate vars) = .ok (v, vars.insert "h" v) := by decide +kernel
  have hscan : Token.scan text.toList = ⟨tokens, .finished 7⟩ := by decide +kernel
  have hplaces : v.decimal 2 = "0.5" := by decide +kernel
  have hlast : (⟨.number, "2", 6, 7⟩ : Token) ∈ (Token.scan text.toList).tokens := by decide +kernel
  obtain ⟨e, he, hv⟩ := bind_eq_ok.mp hvalue
  refine ⟨hvalue, ?_, hbehind tokens 7 tokens _ hscan, hliteral _ hlast rfl, e, he, ?_⟩
  · rw [hshown v 2 (by decide), hplaces]
  · rw [hchecked, hv]

end Expr

end ExactCalc
