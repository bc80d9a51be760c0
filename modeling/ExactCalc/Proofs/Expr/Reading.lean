/-
  ExactCalc.Proofs.Expr.Reading — the small steps of the parser in the words of the
  grammar (see `ExactCalc.Expr.Parsing`): which tokens each test accepts, what `peek`,
  `node` and `opened` give on a text that scans to its end, and what a chain of
  operators reads.
-/

import ExactCalc.Expr.Parsing
import ExactCalc.Proofs.Expr.Grammar
import ExactCalc.Proofs.Failure

namespace ExactCalc

namespace Expr

open Grammar

/-! ## Tests on tokens -/

theorem isSymbol_iff {t : Token} {s : String} :
    isSymbol t s = true ↔ t.kind = .operator ∧ t.text = s := by
  simp [isSymbol]

/-- A choice between two symbols. -/
theorem choice_eq_some_iff {α : Type} {t : Token} {s s' : String} {a a' b : α} (hne : s ≠ s') :
    (if isSymbol t s then some a else if isSymbol t s' then some a' else none) = some b ↔
      t.kind = .operator ∧ (t.text = s ∧ a = b ∨ t.text = s' ∧ a' = b) := by
  by_cases h : isSymbol t s = true
  · obtain ⟨hk, ht⟩ := isSymbol_iff.mp h
    simp [h, hk, ht, hne]
  by_cases h' : isSymbol t s' = true
  · obtain ⟨hk, ht⟩ := isSymbol_iff.mp h'
    simp [h, h', hk, ht, hne.symm]
  simp only [h, h']
  rw [isSymbol_iff] at h h'
  constructor
  · intro e; cases e
  · rintro ⟨hk, ⟨ht, -⟩ | ⟨ht, -⟩⟩
    · exact absurd ⟨hk, ht⟩ h
    · exact absurd ⟨hk, ht⟩ h'

theorem sumOperator?_eq_some_iff {t : Token} {op : Operator} :
    sumOperator? t = some op ↔ IsSumOperator t ∧ Operator.ofSymbol t.text = op := by
  unfold sumOperator? IsSumOperator
  rw [choice_eq_some_iff (by decide), and_assoc, or_and_right]
  have hp : t.text = "+" → Operator.ofSymbol t.text = .add := by intro h; rw [h]; rfl
  have hm : t.text = "-" → Operator.ofSymbol t.text = .sub := by intro h; rw [h]; rfl
  grind

theorem productOperator?_eq_some_iff {t : Token} {op : Operator} :
    productOperator? t = some op ↔ IsProductOperator t ∧ Operator.ofSymbol t.text = op := by
  unfold productOperator? IsProductOperator
  rw [choice_eq_some_iff (by decide), and_assoc, or_and_right]
  have hp : t.text = "*" → Operator.ofSymbol t.text = .mul := by intro h; rw [h]; rfl
  have hm : t.text = "/" → Operator.ofSymbol t.text = .div := by intro h; rw [h]; rfl
  grind

theorem sign?_eq_some_iff {t : Token} {s : Sign} :
    sign? t = some s ↔ IsSign t ∧ Sign.ofSymbol t.text = s := by
  unfold sign? IsSign
  rw [choice_eq_some_iff (by decide), and_assoc, or_and_right]
  have hp : t.text = "+" → Sign.ofSymbol t.text = .plus := by intro h; rw [h]; rfl
  have hm : t.text = "-" → Sign.ofSymbol t.text = .minus := by intro h; rw [h]; rfl
  grind

theorem isRootMark_iff {t : Token} : isRootMark t = true ↔ IsRootMark t := by
  have hs : String.singleton Token.rootSign = "√" := by decide
  unfold isRootMark IsRootMark IsRootWord
  rw [hs]
  cases hk : t.kind <;> simp [Variables.reserved]

theorem isMark_iff {t : Token} : (isSymbol t "^" || isRootMark t) = true ↔ IsMark t := by
  rw [Bool.or_eq_true, isSymbol_iff, isRootMark_iff]
  rfl

theorem withMark_eq {t : Token} (h : IsMark t) (left right : Expr) :
    (if isSymbol t "^" then Expr.binary .pow left right else .root left right) =
      withMark t left right := by
  unfold withMark
  by_cases hp : isSymbol t "^" = true
  · rw [if_pos hp, if_pos (isSymbol_iff.mp hp).2]
  · rw [if_neg hp, if_neg]
    intro ht
    rcases h with h | h | h
    · exact hp (isSymbol_iff.mpr h)
    · rw [h.2] at ht; revert ht; decide
    · rcases h.2 with e | e
      · rw [e] at ht; revert ht; decide
      · rw [e] at ht; revert ht; decide

/-! ## Steps -/

/-- The next token of a text of length `n` that scans to its end. -/
def next (n : Nat) (ts : List Token) : Token := ts.headD (Token.finish n)

@[simp] theorem next_cons (n : Nat) (t : Token) (ts : List Token) : next n (t :: ts) = t := rfl

@[simp] theorem next_nil (n : Nat) : next n [] = Token.finish n := rfl

@[simp] theorem peek_finished (n : Nat) (ts : List Token) :
    peek (.finished n) ts = .ok (next n ts) := by
  cases ts <;> rfl

/-- A token that is not the finish is the first one. -/
theorem exists_cons_of_next {n : Nat} {ts : List Token} (h : (next n ts).kind ≠ .finish) :
    ∃ t rest, ts = t :: rest := by
  cases ts with
  | nil => exact absurd rfl h
  | cons t rest => exact ⟨t, rest, rfl⟩

theorem node_eq_ok_iff {t : Token} {e e' : Expr} :
    node t e = .ok e' ↔ e.depth ≤ maxNesting ∧ e = e' := by
  unfold node
  split
  · rename_i h
    constructor
    · intro hn; cases hn
    · rintro ⟨hd, -⟩; omega
  · rename_i h
    constructor
    · intro hn; cases hn; exact ⟨by omega, rfl⟩
    · rintro ⟨-, rfl⟩; rfl

theorem opened_eq_ok_iff {t : Token} {inner : Option Levels} {l : Levels} :
    opened t inner = .ok l ↔ inner = some l := by
  cases inner with
  | none => exact ⟨nofun, nofun⟩
  | some l' =>
    constructor
    · intro h; cases h; rfl
    · intro h; cases h; rfl

/-- No token of the class stands in front. -/
def Stops (p : Token → Prop) (ts : List Token) : Prop := ∀ t ∈ ts.head?, ¬ p t

theorem stops_of_next {p : Token → Prop} {n : Nat} {ts : List Token} (h : ¬ p (next n ts)) :
    Stops p ts := by
  cases ts with
  | nil => intro t ht; cases ht
  | cons t rest =>
    intro u hu
    cases hu
    exact h

theorem Stops.next {p : Token → Prop} {ts : List Token} (h : Stops p ts) {n : Nat}
    (hf : ¬ p (Token.finish n)) : ¬ p (next n ts) := by
  cases ts with
  | nil => exact hf
  | cons t rest => exact h t rfl

theorem Stops.mono {p q : Token → Prop} {ts : List Token} (h : Stops p ts)
    (hq : ∀ t, q t → p t) : Stops q ts :=
  fun t ht hqt => h t ht (hq t hqt)

theorem stops_cons {p : Token → Prop} {t : Token} {ts : List Token} (h : ¬ p t) :
    Stops p (t :: ts) := by
  intro u hu
  cases hu
  exact h

end Expr

namespace Grammar

open ExactCalc.Expr (Stops stops_cons)

/-- The factors after a power start with an operator, which is no mark. -/
theorem Factors.stops (f : Factors) {rest : List Token} (h : Stops CarriesProduct rest) :
    Stops IsMark (f.tokens ++ rest) := by
  cases f with
  | none => exact h.mono fun _ => Or.inl
  | cons op hop _ _ => exact stops_cons (not_isMark_of_isProductOperator hop)

/-- The products after another start with an operator, which does not carry it on. -/
theorem Summands.stops (s : Summands) {rest : List Token} (h : Stops CarriesSum rest) :
    Stops CarriesProduct (s.tokens ++ rest) := by
  cases s with
  | none => exact h.mono fun _ => Or.inl
  | cons op hop _ _ => exact stops_cons (not_carriesProduct_of_isSumOperator hop)

end Grammar

namespace Expr

open Grammar

/-! ## Chains -/

/-- What a chain reads: operators with operands, taken onto `left` one by one. -/
inductive Chain (operator? : Token → Option Operator) (operand : List Token → Reading) :
    Expr → List Token → Expr → List Token → Prop
  | stop (left : Expr) (ts : List Token) : Chain operator? operand left ts left ts
  | step {t : Token} {op : Operator} {left right e : Expr} {ts mid rest : List Token} :
    operator? t = some op → operand ts = .ok (right, mid) →
    (Expr.binary op left right).depth ≤ maxNesting →
    Chain operator? operand (.binary op left right) mid e rest →
    Chain operator? operand left (t :: ts) e rest

theorem chain_of_ok {operator? : Token → Option Operator} {operand : List Token → Reading}
    {n : Nat} (hf : operator? (Token.finish n) = none) :
    ∀ (bound : Nat) {left e : Expr} {ts rest : List Token},
      chain (.finished n) operator? operand bound left ts = .ok (e, rest) →
      Chain operator? operand left ts e rest := by
  intro bound
  induction bound with
  | zero =>
    intro left e ts rest h
    cases h
    exact .stop left ts
  | succ bound ih =>
    intro left e ts rest h
    simp only [chain, peek_finished, bind_eq_ok] at h
    obtain ⟨t, ht, h⟩ := h
    cases ht
    cases hop : operator? (next n ts) with
    | none =>
      rw [hop] at h
      cases h
      exact .stop left ts
    | some op =>
      rw [hop] at h
      simp only [bind_eq_ok] at h
      obtain ⟨⟨right, mid⟩, hr, e', he, h⟩ := h
      obtain ⟨hd, rfl⟩ := node_eq_ok_iff.mp he
      cases ts with
      | nil => rw [next_nil, hf] at hop; cases hop
      | cons t ts => exact .step hop hr hd (ih h)

end Expr

end ExactCalc
