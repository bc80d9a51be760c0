/-
  ExactCalc.Proofs.Expr.Nodes — what a parsed tree is made of (see
  `ExactCalc.Expr.Parsing`): literals and names that are tokens of the text, the degree
  two that goes without saying, operators and signs that have a meaning, and roots. An
  assignment stands at the top or nowhere (`made_of_parse`).
-/

import ExactCalc.Proofs.Expr.Stuck

namespace ExactCalc

namespace Expr

open Grammar

/-- A tree that a sum over the tokens can stand for. -/
inductive Made (ts : List Token) : Expr → Prop
  | number {t : Token} : t ∈ ts → t.kind = .number →
    Made ts (.literal (.exact (Number.denoted t.text.toList)))
  | two : Made ts two
  | name {t : Token} : t ∈ ts → t.kind = .identifier → ¬ IsRootWord t → Made ts (.var t.text)
  | signed {s : Sign} {e : Expr} : (∀ symbol, s ≠ .other symbol) → Made ts e → Made ts (.signed s e)
  | binary {op : Operator} {l r : Expr} : (∀ symbol, op ≠ .other symbol) → Made ts l → Made ts r →
    Made ts (.binary op l r)
  | root {d r : Expr} : Made ts d → Made ts r → Made ts (.root d r)

end Expr

namespace Grammar

open ExactCalc.Expr (Made)

variable {ts : List Token}

/-! ## Operators and signs -/

theorem ofSymbol_of_isSumOperator {t : Token} (h : IsSumOperator t) (symbol : String) :
    Operator.ofSymbol t.text ≠ .other symbol := by
  rcases h.2 with e | e
  · rw [e]; exact Operator.noConfusion
  · rw [e]; exact Operator.noConfusion

theorem ofSymbol_of_isProductOperator {t : Token} (h : IsProductOperator t) (symbol : String) :
    Operator.ofSymbol t.text ≠ .other symbol := by
  rcases h.2 with e | e
  · rw [e]; exact Operator.noConfusion
  · rw [e]; exact Operator.noConfusion

theorem ofSymbol_of_isSign {t : Token} (h : IsSign t) (symbol : String) :
    Sign.ofSymbol t.text ≠ .other symbol := by
  rcases h.2 with e | e
  · rw [e]; exact Sign.noConfusion
  · rw [e]; exact Sign.noConfusion

theorem made_withSigns {signs : List Token} {e : Expr} (hs : ∀ t ∈ signs, IsSign t)
    (he : Made ts e) : Made ts (withSigns signs e) := by
  induction signs with
  | nil => exact he
  | cons t signs ih =>
    obtain ⟨ht, hs⟩ := List.forall_mem_cons.mp hs
    exact .signed (ofSymbol_of_isSign ht) (ih hs)

theorem made_withMark {mark : Token} {left right : Expr} (hl : Made ts left)
    (hr : Made ts right) : Made ts (withMark mark left right) := by
  unfold withMark
  split
  · exact .binary nofun hl hr
  · exact .root hl hr

/-! ## Derivations -/

mutual

theorem Sum.made : ∀ s : Sum, s.tokens ⊆ ts → Made ts s.tree
  | .of first more, h =>
    more.made_onto (List.append_subset.mp h).2 (first.made (List.append_subset.mp h).1)

theorem Summands.made_onto : ∀ (s : Summands) {left : Expr}, s.tokens ⊆ ts → Made ts left →
    Made ts (s.onto left)
  | .none, _, _, hl => hl
  | .cons op hop right more, _, h, hl => by
    obtain ⟨hr, hm⟩ := List.append_subset.mp (List.cons_subset.mp h).2
    exact more.made_onto hm (.binary (ofSymbol_of_isSumOperator hop) hl (right.made hr))

theorem Product.made : ∀ p : Product, p.tokens ⊆ ts → Made ts p.tree
  | .of first more, h =>
    more.made_onto (List.append_subset.mp h).2 (first.made (List.append_subset.mp h).1)

theorem Factors.made_onto : ∀ (f : Factors) {left : Expr}, f.tokens ⊆ ts → Made ts left →
    Made ts (f.onto left)
  | .none, _, _, hl => hl
  | .cons op hop right more, _, h, hl => by
    obtain ⟨hr, hm⟩ := List.append_subset.mp (List.cons_subset.mp h).2
    exact more.made_onto hm (.binary (ofSymbol_of_isProductOperator hop) hl (right.made hr))

theorem Power.made : ∀ p : Power, p.tokens ⊆ ts → Made ts p.tree
  | .plain signs base, h =>
    made_withSigns signs.property (base.made (List.append_subset.mp h).2)
  | .marked signs base mark _ right, h => by
    obtain ⟨hb, hr⟩ := List.append_subset.mp (List.append_subset.mp h).2
    exact made_withMark (made_withSigns signs.property (base.made hb))
      (right.made (List.cons_subset.mp hr).2)
  | .rooted signs mark _ radicand, h => by
    have hr := (List.cons_subset.mp (List.append_subset.mp h).2).2
    exact made_withSigns signs.property (.root .two (radicand.made hr))

theorem Atom.made : ∀ a : Atom, a.tokens ⊆ ts → Made ts a.tree
  | .number _ hk, h => .number (h List.mem_cons_self) hk
  | .name _ hk hn, h => .name (h List.mem_cons_self) hk hn
  | .group _ _ inner _ _, h =>
    inner.made (List.append_subset.mp (List.cons_subset.mp h).2).1

end

end Grammar

namespace Expr

open Grammar

/-! ## Parsed texts -/

/-- A parsed text scans to its end, its literals are short, and its tree is made of its tokens; so
is the right-hand side of an assignment. -/
theorem made_of_parse {text : String} {e : Expr} (h : parse text = .ok e) :
    ∃ ts n, Token.scan text.toList = ⟨ts, .finished n⟩ ∧ ShortLiterals ts ∧
      (Made ts e ∨ ∃ name value, e = .assign name value ∧ Made ts value) := by
  obtain ⟨ts, n, hscan, d, rfl, rfl, -, hshort⟩ := derives_of_parse h
  refine ⟨d.tokens, n, hscan, hshort, ?_⟩
  cases d with
  | assign target ht mark hm value =>
    exact Or.inr ⟨_, _, rfl, value.made fun t ht =>
      List.mem_cons_of_mem _ (List.mem_cons_of_mem _ ht)⟩
  | sum value => exact Or.inl (value.made (List.Subset.refl _))
  | assignTo target mark hm value hn =>
    exact Or.inr ⟨_, _, rfl, value.made fun t ht =>
      List.mem_append_right _ (List.mem_cons_of_mem _ ht)⟩

end Expr

end ExactCalc
