/-
  ExactCalc.Proofs.Expr.Exactness — what a tree means over the reals, and when its value
  is that meaning (`Evaluator`, `Number.inexact`; see `ExactCalc.Expr.Evaluation`).

  `Means` reads a tree with real operations and knows nothing of flags, sizes or limits.
  An unflagged value is the meaning (`means_of_value`). A flag has a cause in the tree:
  a flagged literal, a flagged variable that is read, or a root that is taken where no
  rational is one (`inexact_iff`).
-/

import ExactCalc.Expr.Evaluation
import ExactCalc.Proofs.Number.Arithmetic
import Mathlib.Data.Real.Basic

namespace ExactCalc.Expr

/-! ## Meaning -/

/-- The real number that a tree stands for. A quotient needs a divisor other than zero, a power an
exponent that is rational, a root a degree that is a positive integer. -/
inductive Means (vars : Variables) : Expr → ℝ → Prop
  | literal (v : Number) : Means vars (.literal v) (v.value : ℝ)
  | var {name : String} {v : Number} : vars.get? name = some v → Means vars (.var name) (v.value : ℝ)
  | minus {e : Expr} {x : ℝ} : Means vars e x → Means vars (.signed .minus e) (-x)
  | sign {s : Sign} {e : Expr} {x : ℝ} : s ≠ .minus → Means vars e x → Means vars (.signed s e) x
  | add {l r : Expr} {x y : ℝ} : Means vars l x → Means vars r y → Means vars (.binary .add l r) (x + y)
  | sub {l r : Expr} {x y : ℝ} : Means vars l x → Means vars r y → Means vars (.binary .sub l r) (x - y)
  | mul {l r : Expr} {x y : ℝ} : Means vars l x → Means vars r y → Means vars (.binary .mul l r) (x * y)
  | div {l r : Expr} {x y : ℝ} : y ≠ 0 → Means vars l x → Means vars r y →
    Means vars (.binary .div l r) (x / y)
  | pow {l r : Expr} {x y : ℝ} {p : Rat} : Means vars l x → Means vars r (p : ℝ) → IsPower x p y →
    Means vars (.binary .pow l r) y
  | root {d r : Expr} {n : Nat} {x y : ℝ} : Means vars d (n : ℝ) → Means vars r x → IsRoot n x y →
    Means vars (.root d r) y
  | assign {name : String} {e : Expr} {x : ℝ} : Means vars e x → Means vars (.assign name e) x

variable {vars : Variables}

/-- A tree has at most one meaning. -/
theorem Means.unique {e : Expr} {x y : ℝ} (h : Means vars e x) (h' : Means vars e y) : x = y := by
  induction h generalizing y with
  | literal v =>
    cases h'
    rfl
  | var hv =>
    cases h' with
    | var hv' => rw [Option.some.inj (hv.symm.trans hv')]
  | minus _ ih =>
    cases h' with
    | minus he => rw [ih he]
    | sign hs _ => exact absurd rfl hs
  | sign hs _ ih =>
    cases h' with
    | minus _ => exact absurd rfl hs
    | sign _ he => exact ih he
  | add _ _ ihl ihr =>
    cases h' with
    | add hl hr => rw [ihl hl, ihr hr]
  | sub _ _ ihl ihr =>
    cases h' with
    | sub hl hr => rw [ihl hl, ihr hr]
  | mul _ _ ihl ihr =>
    cases h' with
    | mul hl hr => rw [ihl hl, ihr hr]
  | div _ _ _ ihl ihr =>
    cases h' with
    | div _ hl hr => rw [ihl hl, ihr hr]
  | pow _ _ hp ihl ihr =>
    cases h' with
    | pow hl hr hp' =>
      obtain rfl := ihl hl
      obtain rfl := Rat.cast_injective (ihr hr)
      exact hp.unique hp'
  | root _ _ hr ihd ihr =>
    cases h' with
    | root hd hr' hroot =>
      obtain rfl := ihr hr'
      obtain rfl := Nat.cast_injective (ihd hd)
      exact hr.unique hroot
  | assign _ ih =>
    cases h' with
    | assign he => exact ih he

/-! ## Sources of flags -/

/-- The tree and every tree in it. -/
def parts : Expr → List Expr
  | literal v => [literal v]
  | var name => [var name]
  | signed s e => signed s e :: e.parts
  | binary op l r => binary op l r :: (l.parts ++ r.parts)
  | root d r => root d r :: (d.parts ++ r.parts)
  | assign name e => assign name e :: e.parts

/-- A part that brings a flag of its own: a flagged literal, a flagged variable, or a root of a
radicand whose magnitude has no rational root of that degree. -/
inductive Loses (vars : Variables) : Expr → Prop
  | literal {v : Number} : v.inexact = true → Loses vars (.literal v)
  | var {name : String} {v : Number} : vars.get? name = some v → v.inexact = true →
    Loses vars (.var name)
  | root {d r : Expr} {degree radicand : Number} {n : Nat} : d.value vars = .ok degree →
    r.value vars = .ok radicand → degree.value = n → (∀ q : Rat, q ^ n ≠ |radicand.value|) →
    Loses vars (.root d r)

theorem loses_cons {e : Expr} {es : List Expr} :
    (∃ s ∈ e :: es, Loses vars s) ↔ Loses vars e ∨ ∃ s ∈ es, Loses vars s := by
  simp only [List.mem_cons, or_and_right, exists_or, exists_eq_left]

theorem loses_append {es es' : List Expr} :
    (∃ s ∈ es ++ es', Loses vars s) ↔ (∃ s ∈ es, Loses vars s) ∨ ∃ s ∈ es', Loses vars s := by
  simp only [List.mem_append, or_and_right, exists_or]

/-! ## One node -/

section

variable {a b v : Number} {x : ℝ}

theorem inexact_of_applySign {s : Sign} (h : applySign s a = .ok v) : v.inexact = a.inexact := by
  unfold applySign at h
  split at h
  · rw [Number.bounded_eq_ok h]
  · cases h
    rfl

theorem inexact_of_applyOperator {op : Operator} (h : applyOperator op a b = .ok v) :
    v.inexact = (a.inexact || b.inexact) := by
  cases op with
  | add => rw [Number.bounded_eq_ok h]
  | sub => rw [Number.bounded_eq_ok h]
  | mul => rw [Number.bounded_eq_ok h]
  | div => rw [(Number.div_eq_ok h).2]
  | pow => exact (Number.pow_eq_ok h).2
  | other symbol => cases h

theorem means_signed {s : Sign} {e : Expr} (he : Means vars e a.value)
    (h : applySign s a = .ok v) : Means vars (.signed s e) v.value := by
  unfold applySign at h
  split at h
  · rename_i hs
    rw [hs, Number.bounded_eq_ok h]
    dsimp only
    rw [Rat.cast_neg]
    exact .minus he
  · rename_i hs
    cases h
    exact .sign hs he

theorem means_binary {op : Operator} {l r : Expr} (hl : Means vars l a.value)
    (hr : Means vars r b.value) (h : applyOperator op a b = .ok v) :
    Means vars (.binary op l r) v.value := by
  cases op with
  | add =>
    rw [Number.bounded_eq_ok h, Rat.cast_add]
    exact .add hl hr
  | sub =>
    rw [Number.bounded_eq_ok h, Rat.cast_sub]
    exact .sub hl hr
  | mul =>
    rw [Number.bounded_eq_ok h, Rat.cast_mul]
    exact .mul hl hr
  | div =>
    obtain ⟨hne, rfl⟩ := Number.div_eq_ok h
    rw [Rat.cast_div]
    exact .div (Rat.cast_ne_zero.mpr hne) hl hr
  | pow => exact .pow hl hr (Number.pow_eq_ok h).1.cast
  | other symbol => cases h

end

/-! ## Trees -/

/-- An unflagged value is the meaning of the tree. -/
theorem means_of_value {e : Expr} : ∀ {v : Number}, e.value vars = .ok v → v.inexact = false →
    Means vars e v.value := by
  induction e with
  | literal u =>
    intro v h _
    cases h
    exact .literal u
  | var name =>
    intro v h _
    simp only [value] at h
    split at h
    · rename_i hv
      cases h
      exact .var hv
    · cases h
  | signed s e ih =>
    intro v h hf
    obtain ⟨a, ha, h⟩ := bind_eq_ok.mp h
    rw [inexact_of_applySign h] at hf
    exact means_signed (ih ha hf) h
  | binary op l r ihl ihr =>
    intro v h hf
    obtain ⟨a, ha, h⟩ := bind_eq_ok.mp h
    obtain ⟨b, hb, h⟩ := bind_eq_ok.mp h
    rw [inexact_of_applyOperator h, Bool.or_eq_false_iff] at hf
    exact means_binary (ihl ha hf.1) (ihr hb hf.2) h
  | root d r ihd ihr =>
    intro v h hf
    obtain ⟨degree, hd, h⟩ := bind_eq_ok.mp h
    obtain ⟨radicand, hr, h⟩ := bind_eq_ok.mp h
    obtain ⟨n, hn, ⟨hroot, -, hflag⟩ | ⟨-, hflag⟩⟩ := Number.root_eq_ok h
    · rw [hflag, Bool.or_eq_false_iff] at hf
      have hdegree := ihd hd hf.2
      rw [hn, Rat.cast_natCast] at hdegree
      exact .root hdegree (ihr hr hf.1) hroot.cast
    · rw [hf] at hflag
      cases hflag
  | assign name e _ =>
    intro v h _
    cases h

/-- A value is flagged exactly if some part of the tree brings a flag. -/
theorem inexact_iff {e : Expr} : ∀ {v : Number}, e.value vars = .ok v →
    (v.inexact = true ↔ ∃ s ∈ e.parts, Loses vars s) := by
  induction e with
  | literal u =>
    intro v h
    cases h
    simp only [parts, List.mem_singleton, exists_eq_left]
    refine ⟨.literal, fun hl => ?_⟩
    cases hl with
    | literal h => exact h
  | var name =>
    intro v h
    simp only [parts, List.mem_singleton, exists_eq_left]
    simp only [value] at h
    split at h
    · rename_i hv
      cases h
      refine ⟨.var hv, fun hl => ?_⟩
      cases hl with
      | var hv' h => rwa [Option.some.inj (hv.symm.trans hv')]
    · cases h
  | signed s e ih =>
    intro v h
    obtain ⟨a, ha, h⟩ := bind_eq_ok.mp h
    rw [inexact_of_applySign h, ih ha]
    simp only [parts, loses_cons]
    exact ⟨Or.inr, fun hl => hl.elim nofun id⟩
  | binary op l r ihl ihr =>
    intro v h
    obtain ⟨a, ha, h⟩ := bind_eq_ok.mp h
    obtain ⟨b, hb, h⟩ := bind_eq_ok.mp h
    rw [inexact_of_applyOperator h, Bool.or_eq_true, ihl ha, ihr hb]
    simp only [parts, loses_cons, loses_append]
    exact ⟨Or.inr, fun hl => hl.elim nofun id⟩
  | root d r ihd ihr =>
    intro v h
    obtain ⟨degree, hd, h⟩ := bind_eq_ok.mp h
    obtain ⟨radicand, hr, h⟩ := bind_eq_ok.mp h
    simp only [parts, loses_cons, loses_append]
    rw [← ihd hd, ← ihr hr]
    obtain ⟨n, hn, ⟨-, ⟨q, hq⟩, hflag⟩ | ⟨hnone, hflag⟩⟩ := Number.root_eq_ok h
    · rw [hflag, Bool.or_eq_true]
      constructor
      · exact fun hf => Or.inr hf.symm
      · rintro (hl | hf)
        · cases hl with
          | root hd' hr' hn' hnone =>
            obtain rfl := Except.ok.inj (hd.symm.trans hd')
            obtain rfl := Except.ok.inj (hr.symm.trans hr')
            obtain rfl := Nat.cast_injective (hn.symm.trans hn')
            exact absurd hq (hnone q)
        · exact hf.symm
    · exact ⟨fun _ => Or.inl (.root hd hr hn hnone), fun _ => hflag⟩
  | assign name e _ =>
    intro v h
    cases h

/-! ## Whole inputs -/

/-- An unflagged result is the exact mathematical value of the input, and a result is flagged exactly
if a literal or a variable that is read has a flag, or a root is taken that is not rational. -/
theorem evaluate_exact {e : Expr} {v : Number} {vars' : Variables}
    (h : evaluate vars e = .ok (v, vars')) :
    (v.inexact = false → Means vars e v.value ∧ ∀ x, Means vars e x → x = v.value) ∧
    (v.inexact = true ↔ ∃ s ∈ e.parts, Loses vars s) := by
  have of_value : ∀ {e : Expr}, e.value vars = .ok v →
      (v.inexact = false → Means vars e v.value ∧ ∀ x, Means vars e x → x = v.value) ∧
      (v.inexact = true ↔ ∃ s ∈ e.parts, Loses vars s) := by
    intro e h
    refine ⟨fun hf => ?_, inexact_iff h⟩
    have hm := means_of_value h hf
    exact ⟨hm, fun x hx => hx.unique hm⟩
  cases e with
  | assign name e =>
    obtain ⟨u, hu, h⟩ := bind_eq_ok.mp h
    have hv : u = v := by
      split at h
      · exact (Prod.mk.inj (Except.ok.inj h)).1
      · cases h
    obtain ⟨hexact, hflag⟩ := of_value (hv ▸ hu)
    refine ⟨fun hf => ?_, ?_⟩
    · have hm : Means vars (.assign name e) v.value := .assign (hexact hf).1
      exact ⟨hm, fun x hx => hx.unique hm⟩
    · rw [hflag]
      simp only [parts, loses_cons]
      exact ⟨Or.inr, fun hl => hl.elim nofun id⟩
  | _ =>
    obtain ⟨u, hu, h⟩ := bind_eq_ok.mp h
    cases h
    exact of_value hu

/-- Nine quarters to the power three halves is exact; the root of two is not, and says so. -/
theorem evaluate_power_and_root :
    Means Table.empty (.binary .pow (.literal (.exact (9 / 4))) (.literal (.exact (3 / 2))))
      ((27 / 8 : Rat) : ℝ) ∧
    ∃ s ∈ parts (.root two two), Loses Table.empty s := by
  have hpow : evaluate Table.empty
      (.binary .pow (.literal (.exact (9 / 4))) (.literal (.exact (3 / 2)))) =
      .ok (.exact (27 / 8), Table.empty) := by decide +kernel
  have hroot : evaluate Table.empty (.root two two) =
      .ok (⟨141421356237309504880168872420969 / 100000000000000000000000000000000, true⟩,
        Table.empty) := by decide +kernel
  exact ⟨((evaluate_exact hpow).1 rfl).1, (evaluate_exact hroot).2.mp rfl⟩

end ExactCalc.Expr
