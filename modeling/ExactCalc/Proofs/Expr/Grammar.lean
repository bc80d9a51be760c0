/-
  ExactCalc.Proofs.Expr.Grammar — the grammar of inputs, as derivations over tokens
  (SPEC §4.2).

    input   := IDENT '=' sum | sum | sum '=' sum
    sum     := product (('+' | '-') product)*
    product := power (('*' | '/') power)*
    power   := signs R power | signs atom | signs atom ('^' | R) power
    signs   := ('+' | '-')*
    R       := '√' | 'sqrt' | 'root'
    atom    := NUMBER | IDENT other than a root word | '(' sum ')'

  A derivation says which tokens it spans, which tree it stands for, and how many
  constructs are open at once where it is deepest. Nothing here knows of the parser.
-/

import ExactCalc.Expr.Basic
import ExactCalc.Limits
import ExactCalc.Proofs.Number.Literal

namespace ExactCalc.Grammar

/-! ## Tokens -/

def IsSumOperator (t : Token) : Prop := t.kind = .operator ∧ (t.text = "+" ∨ t.text = "-")

def IsProductOperator (t : Token) : Prop := t.kind = .operator ∧ (t.text = "*" ∨ t.text = "/")

def IsPowerOperator (t : Token) : Prop := t.kind = .operator ∧ t.text = "^"

def IsSign (t : Token) : Prop := t.kind = .operator ∧ (t.text = "+" ∨ t.text = "-")

def IsRootWord (t : Token) : Prop := t.kind = .identifier ∧ (t.text = "sqrt" ∨ t.text = "root")

def IsRootMark (t : Token) : Prop := t.kind = .operator ∧ t.text = "√" ∨ IsRootWord t

/-- Between a base and its exponent, or a degree and its radicand. -/
def IsMark (t : Token) : Prop := IsPowerOperator t ∨ IsRootMark t

/-- Goes on with a product. -/
def CarriesProduct (t : Token) : Prop := IsMark t ∨ IsProductOperator t

/-- Goes on with a sum. -/
def CarriesSum (t : Token) : Prop := CarriesProduct t ∨ IsSumOperator t

theorem IsRootMark.kind {t : Token} (h : IsRootMark t) : t.kind = .operator ∨ t.kind = .identifier :=
  h.imp And.left And.left

theorem IsMark.kind {t : Token} (h : IsMark t) : t.kind = .operator ∨ t.kind = .identifier :=
  h.elim (fun h => Or.inl h.1) IsRootMark.kind

theorem CarriesProduct.kind {t : Token} (h : CarriesProduct t) :
    t.kind = .operator ∨ t.kind = .identifier :=
  h.elim IsMark.kind fun h => Or.inl h.1

theorem CarriesSum.kind {t : Token} (h : CarriesSum t) :
    t.kind = .operator ∨ t.kind = .identifier :=
  h.elim CarriesProduct.kind fun h => Or.inl h.1

theorem not_carriesSum_of_kind {t : Token} (ho : t.kind ≠ .operator) (hi : t.kind ≠ .identifier) :
    ¬ CarriesSum t :=
  fun h => h.kind.elim ho hi

theorem not_isMark_of_isProductOperator {t : Token} (h : IsProductOperator t) : ¬ IsMark t := by
  simp only [IsMark, IsPowerOperator, IsRootMark, IsRootWord, h.1]
  rcases h.2 with e | e <;> simp [e]

theorem not_carriesProduct_of_isSumOperator {t : Token} (h : IsSumOperator t) :
    ¬ CarriesProduct t := by
  simp only [CarriesProduct, IsProductOperator, IsMark, IsPowerOperator, IsRootMark, IsRootWord, h.1]
  rcases h.2 with e | e <;> simp [e]

theorem not_isSign_of_isRootMark {t : Token} (h : IsRootMark t) : ¬ IsSign t := by
  rintro ⟨hk, hs⟩
  simp only [IsRootMark, IsRootWord, hk] at h
  rcases hs with e | e <;> simp [e] at h

abbrev Signs := { l : List Token // ∀ t ∈ l, IsSign t }

/-! ## Derivations -/

mutual

inductive Sum where
  | of (first : Product) (more : Summands)

/-- The products after the first, each behind its operator. -/
inductive Summands where
  | none
  | cons (op : Token) (isOp : IsSumOperator op) (right : Product) (more : Summands)

inductive Product where
  | of (first : Power) (more : Factors)

/-- The powers after the first, each behind its operator. -/
inductive Factors where
  | none
  | cons (op : Token) (isOp : IsProductOperator op) (right : Power) (more : Factors)

inductive Power where
  | plain (signs : Signs) (base : Atom)
  | marked (signs : Signs) (base : Atom) (mark : Token) (isMark : IsMark mark) (right : Power)
  | rooted (signs : Signs) (mark : Token) (isRoot : IsRootMark mark) (radicand : Power)

inductive Atom where
  | number (t : Token) (isNumber : t.kind = .number)
  | name (t : Token) (isName : t.kind = .identifier) (notRoot : ¬ IsRootWord t)
  | group (opening : Token) (opens : opening.kind = .openParen) (inner : Sum) (closing : Token)
      (closes : closing.kind = .closeParen)

end

/-! ## The tokens that a derivation spans -/

mutual

def Sum.tokens : Sum → List Token
  | .of first more => first.tokens ++ more.tokens

def Summands.tokens : Summands → List Token
  | .none => []
  | .cons op _ right more => op :: (right.tokens ++ more.tokens)

def Product.tokens : Product → List Token
  | .of first more => first.tokens ++ more.tokens

def Factors.tokens : Factors → List Token
  | .none => []
  | .cons op _ right more => op :: (right.tokens ++ more.tokens)

def Power.tokens : Power → List Token
  | .plain signs base => signs.val ++ base.tokens
  | .marked signs base mark _ right => signs.val ++ (base.tokens ++ mark :: right.tokens)
  | .rooted signs mark _ radicand => signs.val ++ mark :: radicand.tokens

def Atom.tokens : Atom → List Token
  | .number t _ => [t]
  | .name t _ _ => [t]
  | .group opening _ inner closing _ => opening :: (inner.tokens ++ [closing])

end

/-- An atom starts with neither a sign nor a root. -/
theorem Atom.tokens_head (a : Atom) :
    ∃ t ts, a.tokens = t :: ts ∧ ¬ IsSign t ∧ ¬ IsRootMark t := by
  cases a with
  | number t hk =>
    refine ⟨t, [], rfl, fun hs => ?_, fun hr => ?_⟩
    · exact absurd (hk.symm.trans hs.1) (by decide)
    · exact hr.kind.elim (fun e => absurd (hk.symm.trans e) (by decide))
        (fun e => absurd (hk.symm.trans e) (by decide))
  | name t hk hn =>
    refine ⟨t, [], rfl, fun hs => absurd (hk.symm.trans hs.1) (by decide), fun hr => ?_⟩
    exact hr.elim (fun e => absurd (hk.symm.trans e.1) (by decide)) hn
  | group o ho s c hc =>
    refine ⟨o, _, rfl, fun hs => ?_, fun hr => ?_⟩
    · exact absurd (ho.symm.trans hs.1) (by decide)
    · exact hr.kind.elim (fun e => absurd (ho.symm.trans e) (by decide))
        (fun e => absurd (ho.symm.trans e) (by decide))

theorem Power.tokens_ne_nil (p : Power) : p.tokens ≠ [] := by
  cases p with
  | plain ss a =>
    obtain ⟨t, ts, h, -, -⟩ := a.tokens_head
    simp [Power.tokens, h]
  | marked ss a mark hm right => simp [Power.tokens]
  | rooted ss mark hm radicand => simp [Power.tokens]

theorem Sum.tokens_ne_nil : ∀ s : Sum, s.tokens ≠ []
  | .of (.of first _) _ => by
    have := first.tokens_ne_nil
    simp [Sum.tokens, Product.tokens, this]

/-! ### No phrase holds an assignment sign -/

mutual

theorem Sum.not_assign : ∀ s : Sum, ∀ t ∈ s.tokens, t.kind ≠ .assign
  | .of first more, t, ht =>
    (List.mem_append.mp ht).elim (first.not_assign t) (more.not_assign t)

theorem Summands.not_assign : ∀ s : Summands, ∀ t ∈ s.tokens, t.kind ≠ .assign
  | .none, _, ht => nomatch ht
  | .cons op hop right more, t, ht => by
    rcases List.mem_cons.mp ht with rfl | ht
    · rw [hop.1]; decide
    · exact (List.mem_append.mp ht).elim (right.not_assign t) (more.not_assign t)

theorem Product.not_assign : ∀ p : Product, ∀ t ∈ p.tokens, t.kind ≠ .assign
  | .of first more, t, ht =>
    (List.mem_append.mp ht).elim (first.not_assign t) (more.not_assign t)

theorem Factors.not_assign : ∀ f : Factors, ∀ t ∈ f.tokens, t.kind ≠ .assign
  | .none, _, ht => nomatch ht
  | .cons op hop right more, t, ht => by
    rcases List.mem_cons.mp ht with rfl | ht
    · rw [hop.1]; decide
    · exact (List.mem_append.mp ht).elim (right.not_assign t) (more.not_assign t)

theorem Power.not_assign : ∀ p : Power, ∀ t ∈ p.tokens, t.kind ≠ .assign
  | .plain ss base, t, ht => by
    rcases List.mem_append.mp ht with ht | ht
    · rw [(ss.property t ht).1]; decide
    · exact base.not_assign t ht
  | .marked ss base mark hm right, t, ht => by
    rcases List.mem_append.mp ht with ht | ht
    · rw [(ss.property t ht).1]; decide
    rcases List.mem_append.mp ht with ht | ht
    · exact base.not_assign t ht
    rcases List.mem_cons.mp ht with rfl | ht
    · rcases hm.kind with h | h <;> rw [h] <;> decide
    · exact right.not_assign t ht
  | .rooted ss mark hm radicand, t, ht => by
    rcases List.mem_append.mp ht with ht | ht
    · rw [(ss.property t ht).1]; decide
    rcases List.mem_cons.mp ht with rfl | ht
    · rcases hm.kind with h | h <;> rw [h] <;> decide
    · exact radicand.not_assign t ht

theorem Atom.not_assign : ∀ a : Atom, ∀ t ∈ a.tokens, t.kind ≠ .assign
  | .number u hk, t, ht => by
    rw [List.mem_singleton.mp ht, hk]; decide
  | .name u hk _, t, ht => by
    rw [List.mem_singleton.mp ht, hk]; decide
  | .group o ho s c hc, t, ht => by
    rcases List.mem_cons.mp ht with rfl | ht
    · rw [ho]; decide
    rcases List.mem_append.mp ht with ht | ht
    · exact s.not_assign t ht
    · rw [List.mem_singleton.mp ht, hc]; decide

end

/-! ## Inputs -/

/-- Whether the tokens start with an identifier and an assignment sign. -/
def StartsWithTarget : List Token → Prop
  | t :: u :: _ => t.kind = .identifier ∧ u.kind = .assign
  | _ => False

inductive Input where
  | assign (target : Token) (isName : target.kind = .identifier) (mark : Token)
      (isAssign : mark.kind = .assign) (value : Sum)
  | sum (value : Sum)
  | assignTo (target : Sum) (mark : Token) (isAssign : mark.kind = .assign) (value : Sum)
      (noName : ¬ StartsWithTarget (target.tokens ++ mark :: value.tokens))

def Input.tokens : Input → List Token
  | .assign target _ mark _ value => target :: mark :: value.tokens
  | .sum value => value.tokens
  | .assignTo target mark _ value _ => target.tokens ++ mark :: value.tokens

theorem Input.tokens_ne_nil (d : Input) : d.tokens ≠ [] := by
  cases d with
  | assign t ht m hm v => exact List.cons_ne_nil _ _
  | sum v => exact v.tokens_ne_nil
  | assignTo l m hm v hn => exact fun h => l.tokens_ne_nil (List.append_eq_nil_iff.mp h).1

/-! ## The tree -/

def withSigns (signs : List Token) (e : Expr) : Expr :=
  signs.foldr (fun t e => .signed (Sign.ofSymbol t.text) e) e

/-- A power or a root between two operands. -/
def withMark (mark : Token) (left right : Expr) : Expr :=
  if mark.text = "^" then .binary .pow left right else .root left right

mutual

def Sum.tree : Sum → Expr
  | .of first more => more.onto first.tree

/-- The tree with the products taken onto `left` one by one. -/
def Summands.onto (left : Expr) : Summands → Expr
  | .none => left
  | .cons op _ right more => more.onto (.binary (Operator.ofSymbol op.text) left right.tree)

def Product.tree : Product → Expr
  | .of first more => more.onto first.tree

/-- The tree with the powers taken onto `left` one by one. -/
def Factors.onto (left : Expr) : Factors → Expr
  | .none => left
  | .cons op _ right more => more.onto (.binary (Operator.ofSymbol op.text) left right.tree)

def Power.tree : Power → Expr
  | .plain signs base => withSigns signs.val base.tree
  | .marked signs base mark _ right => withMark mark (withSigns signs.val base.tree) right.tree
  | .rooted signs _ _ radicand => withSigns signs.val (.root Expr.two radicand.tree)

def Atom.tree : Atom → Expr
  | .number t _ => .literal (.exact (Number.denoted t.text.toList))
  | .name t _ _ => .var t.text
  | .group _ _ inner _ _ => inner.tree

end

/-- The source text from the first of the tokens to the end of the last one. -/
def sourceOf (text : List Char) (ts : List Token) : String :=
  match ts.head?, ts.getLast? with
  | some first, some last => String.ofList ((text.drop first.start).take (last.stop - first.start))
  | _, _ => ""

def Input.tree (text : List Char) : Input → Expr
  | .assign target _ _ _ value => .assign target.text value.tree
  | .sum value => value.tree
  | .assignTo target _ _ value _ => .assign (sourceOf text target.tokens) value.tree

/-! ## Limits -/

/-! How many parentheses, signs, roots and right operands of powers are open at once. -/

mutual

def Sum.nesting : Sum → Nat
  | .of first more => max first.nesting more.nesting

def Summands.nesting : Summands → Nat
  | .none => 0
  | .cons _ _ right more => max right.nesting more.nesting

def Product.nesting : Product → Nat
  | .of first more => max first.nesting more.nesting

def Factors.nesting : Factors → Nat
  | .none => 0
  | .cons _ _ right more => max right.nesting more.nesting

/-- A sign is open while its operand is read, and closed when the right operand comes. -/
def Power.nesting : Power → Nat
  | .plain signs base => signs.val.length + base.nesting
  | .marked signs base _ _ right => max (signs.val.length + base.nesting) (right.nesting + 1)
  | .rooted signs _ _ radicand => signs.val.length + (radicand.nesting + 1)

def Atom.nesting : Atom → Nat
  | .number _ _ => 0
  | .name _ _ _ => 0
  | .group _ _ inner _ _ => inner.nesting + 1

end

/-- Neither too many constructs open nor too deep a tree. -/
def Sum.Fits (s : Sum) : Prop := s.nesting ≤ maxNesting ∧ s.tree.depth ≤ maxNesting

/-- No literal has too many digits. -/
def ShortLiterals (ts : List Token) : Prop :=
  ∀ t ∈ ts, t.kind = .number → (Number.digitsOf t.text.toList).length ≤ maxLiteralDigits

/-- The limits of a whole input; both sides of an assignment have to keep them. -/
def Input.Fits : Input → Prop
  | .assign _ _ _ _ value => value.Fits
  | .sum value => value.Fits
  | .assignTo target _ _ value _ => target.Fits ∧ value.Fits

end ExactCalc.Grammar
