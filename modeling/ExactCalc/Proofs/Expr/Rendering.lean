/-
  ExactCalc.Proofs.Expr.Rendering — rendering preserves meaning (see
  `ExactCalc.Expr.Basic`): what a tree is written as, is parsed to a tree with the same
  value (`parse_render`).

  The text of a tree has one derivation, which is put together here along the tree. An
  operand is a chain of signs with an atom: a name, a numeral, a negative integer, or
  anything else in parentheses (`SpellsOperand`). So no operand is torn apart by what
  stands next to it, whatever binds stronger. Each level of the tree opens at most two
  constructs, which is where the bound on the depth comes from.
-/

import ExactCalc.Proofs.Expr.Spelling
import ExactCalc.Proofs.Expr.Targets

namespace ExactCalc.Expr

open Grammar
open Token (Any Apart IsWord Scans apart_cons operatorToken numeralToken)

/-- Tokens with the tree that they stand for: the characters from the position on are read as these
tokens, and the tree spells the expression. -/
structure Spells (limit : Nat) (tokens : List Token) (tree : Expr) (nesting : Nat) (cs : List Char)
    (start : Nat) (e : Expr) : Prop where
  scans : Scans Apart cs start tokens
  same : tree = e.spelled
  nested : nesting ≤ limit
  short : ShortLiterals tokens ↔ e.Short

/-- The characters are a chain of signs with an atom. -/
def SpellsOperand (limit : Nat) (cs : List Char) (start : Nat) (e : Expr) : Prop :=
  ∃ signs base, Spells limit (Power.plain signs base).tokens (Power.plain signs base).tree
    (Power.plain signs base).nesting cs start e

/-- The characters are a sum. -/
def SpellsSum (limit : Nat) (cs : List Char) (start : Nat) (e : Expr) : Prop :=
  ∃ s : Grammar.Sum, Spells limit s.tokens s.tree s.nesting cs start e

section

variable {limit limit' nesting start : Nat} {tokens : List Token} {tree e l r : Expr}
  {cs mark : List Char} {t : Token}

theorem Spells.mono (h : Spells limit tokens tree nesting cs start e) (hl : limit ≤ limit') :
    Spells limit' tokens tree nesting cs start e :=
  ⟨h.scans, h.same, h.nested.trans hl, h.short⟩

theorem SpellsOperand.mono (h : SpellsOperand limit cs start e) (hl : limit ≤ limit') :
    SpellsOperand limit' cs start e := by
  obtain ⟨signs, base, h⟩ := h
  exact ⟨signs, base, h.mono hl⟩

theorem SpellsSum.mono (h : SpellsSum limit cs start e) (hl : limit ≤ limit') :
    SpellsSum limit' cs start e := by
  obtain ⟨s, h⟩ := h
  exact ⟨s, h.mono hl⟩

/-! ## Literals that are short -/

theorem shortLiterals_append_iff {ts ts' : List Token} :
    ShortLiterals (ts ++ ts') ↔ ShortLiterals ts ∧ ShortLiterals ts' :=
  List.forall_mem_append

theorem shortLiterals_cons_iff {ts : List Token} (ht : t.kind ≠ .number) :
    ShortLiterals (t :: ts) ↔ ShortLiterals ts :=
  List.forall_mem_cons.trans (and_iff_right fun h => absurd h ht)

theorem shortLiterals_numeral (n start : Nat) :
    ShortLiterals [numeralToken n start] ↔ (Digits.ofNat n).length ≤ maxLiteralDigits := by
  unfold ShortLiterals
  rw [List.forall_mem_singleton, numeralToken, String.toList_ofList, Number.digitsOf_ofNat]
  exact forall_prop_of_true rfl

/-! ## Phrases -/

/-- A power alone is a sum. -/
theorem exists_sum_of_power (p : Power) :
    ∃ s : Grammar.Sum, s.tokens = p.tokens ∧ s.tree = p.tree ∧ s.nesting = p.nesting := by
  refine ⟨.of (.of p .none) .none, ?_, rfl, ?_⟩
  · simp [Sum.tokens, Product.tokens, Factors.tokens, Summands.tokens]
  · simp [Sum.nesting, Product.nesting, Factors.nesting, Summands.nesting]

theorem spellsSum_of_power (p : Power) (h : Spells limit p.tokens p.tree p.nesting cs start e) :
    SpellsSum limit cs start e := by
  obtain ⟨s, htokens, htree, hnesting⟩ := exists_sum_of_power p
  rw [← htokens, ← htree, ← hnesting] at h
  exact ⟨s, h⟩

theorem SpellsOperand.sum (h : SpellsOperand limit cs start e) : SpellsSum limit cs start e := by
  obtain ⟨signs, base, h⟩ := h
  exact spellsSum_of_power _ h

/-- A sum in parentheses is an operand. -/
theorem SpellsSum.group (h : SpellsSum limit cs (start + 1) e) :
    SpellsOperand (limit + 1) ('(' :: cs ++ [')']) start e := by
  obtain ⟨s, h⟩ := h
  let opening : Token := ⟨.openParen, String.ofList ['('], start, start + 1⟩
  let closing : Token :=
    ⟨.closeParen, String.ofList [')'], start + 1 + cs.length, start + 1 + cs.length + 1⟩
  have hopening : Scans Any ['('] start [opening] :=
    Token.scans_symbol (by decide) (fun _ => rfl) start
  have hclosing : Scans Any [')'] (start + 1 + cs.length) [closing] :=
    Token.scans_symbol (by decide) (fun _ => rfl) _
  have hinner : Scans Any (cs ++ [')']) (start + 1) (s.tokens ++ [closing]) :=
    h.scans.append hclosing fun rest _ => apart_cons (by decide) (by decide) rest
  refine ⟨⟨[], nofun⟩, .group opening rfl s closing rfl, ?_, h.same, ?_, ?_⟩
  · intro seen rest _
    exact (hopening.append hinner fun _ _ => trivial) seen rest trivial
  · have := h.nested
    simp only [Power.nesting, Atom.nesting, List.length_nil]
    omega
  · show ShortLiterals (opening :: (s.tokens ++ [closing])) ↔ e.Short
    rw [shortLiterals_cons_iff (by decide : Token.Kind.openParen ≠ .number),
      shortLiterals_append_iff, shortLiterals_cons_iff (by decide : Token.Kind.closeParen ≠ .number),
      h.short]
    exact and_iff_left nofun

/-- A sign before an operand is one more of its signs. -/
theorem SpellsOperand.signed {s : Sign} {c : Char} (hc : Token.isOperator c = true)
    (hsign : IsSign (operatorToken c start)) (hs : Sign.ofSymbol (String.ofList [c]) = s)
    (h : SpellsOperand limit cs (start + 1) e) :
    SpellsOperand (limit + 1) (c :: cs) start (.signed s e) := by
  obtain ⟨signs, base, h⟩ := h
  refine ⟨consSign (operatorToken c start) hsign signs, base, ?_, ?_, ?_, ?_⟩
  · exact (Token.scans_operator hc start).append h.scans fun _ _ => trivial
  · show Expr.signed (Sign.ofSymbol (String.ofList [c])) _ = _
    rw [hs]
    exact congrArg (Expr.signed s) h.same
  · have := h.nested
    simp only [Power.nesting, consSign, List.length_cons] at this ⊢
    omega
  · exact (shortLiterals_cons_iff (by decide : Token.Kind.operator ≠ .number)).trans h.short

/-- Two texts with an operator between them. -/
theorem Spells.between {ts ts' : List Token} {tl tr : Expr} {nl nr : Nat} {cs' : List Char}
    (hl : Spells limit ts tl nl cs start l) (hm : Scans Any mark (start + cs.length) [t])
    (hr : Spells limit ts' tr nr cs' (start + cs.length + mark.length) r)
    (hmark : ∀ rest, Apart (mark ++ rest)) (ht : t.kind ≠ .number) (same : tree = e.spelled)
    (nested : nesting ≤ limit') (short : e.Short ↔ l.Short ∧ r.Short) :
    Spells limit' (ts ++ t :: ts') tree nesting (cs ++ mark ++ cs') start e := by
  refine ⟨Token.scans_between hl.scans hm hr.scans hmark, same, nested, ?_⟩
  rw [shortLiterals_append_iff, shortLiterals_cons_iff ht, hl.short, hr.short, short]

/-- Two powers with the operator of a sum or of a product between them are a sum. -/
theorem exists_sum (p q : Power) (ht : IsSumOperator t ∨ IsProductOperator t) :
    ∃ s : Grammar.Sum, s.tokens = p.tokens ++ t :: q.tokens ∧
      s.tree = .binary (Operator.ofSymbol t.text) p.tree q.tree ∧
      s.nesting = max p.nesting q.nesting := by
  rcases ht with ht | ht
  · refine ⟨.of (.of p .none) (.cons t ht (.of q .none) .none), ?_, rfl, ?_⟩
    · simp [Sum.tokens, Product.tokens, Factors.tokens, Summands.tokens]
    · simp [Sum.nesting, Product.nesting, Factors.nesting, Summands.nesting]
  · refine ⟨.of (.of p (.cons t ht q .none)) .none, ?_, rfl, ?_⟩
    · simp [Sum.tokens, Product.tokens, Factors.tokens, Summands.tokens]
    · simp [Sum.nesting, Product.nesting, Factors.nesting, Summands.nesting]

section

variable {cs' : List Char} (hl : SpellsOperand limit cs start l)
  (hm : Scans Any mark (start + cs.length) [t])
  (hr : SpellsOperand limit cs' (start + cs.length + mark.length) r)
  (hmark : ∀ rest, Apart (mark ++ rest))

include hl hm hr hmark

/-- Two operands with the operator of a sum or of a product between them. -/
theorem spellsSum_of_operator (ht : IsSumOperator t ∨ IsProductOperator t) :
    SpellsSum limit (cs ++ mark ++ cs') start (.binary (Operator.ofSymbol t.text) l r) := by
  obtain ⟨ss, a, hl⟩ := hl
  obtain ⟨ss', a', hr⟩ := hr
  obtain ⟨s, htokens, htree, hnesting⟩ := exists_sum (.plain ss a) (.plain ss' a') ht
  have hkind : t.kind = .operator := ht.elim And.left And.left
  have hsame : s.tree = (Expr.binary (Operator.ofSymbol t.text) l r).spelled :=
    htree.trans (congrArg₂ (Expr.binary _) hl.same hr.same)
  have hnested : s.nesting ≤ limit := hnesting.trans_le (Nat.max_le.mpr ⟨hl.nested, hr.nested⟩)
  refine ⟨s, ?_⟩
  rw [htokens]
  exact hl.between hm hr hmark (by rw [hkind]; decide) hsame hnested Iff.rfl

/-- Two operands with the mark of a power or of a root between them. -/
theorem spellsSum_of_marked (ht : IsMark t) (he : e.spelled = withMark t l.spelled r.spelled)
    (hs : e.Short ↔ l.Short ∧ r.Short) : SpellsSum (limit + 1) (cs ++ mark ++ cs') start e := by
  obtain ⟨ss, a, hl⟩ := hl
  obtain ⟨ss', a', hr⟩ := hr
  let p : Power := .marked ss a t ht (.plain ss' a')
  have htokens : p.tokens = (Power.plain ss a).tokens ++ t :: (Power.plain ss' a').tokens :=
    (List.append_assoc _ _ _).symm
  have hsame : p.tree = e.spelled := by
    rw [he, ← hl.same, ← hr.same]
    rfl
  have hnested : p.nesting ≤ limit + 1 :=
    Nat.max_le.mpr ⟨hl.nested.trans (Nat.le_succ _), Nat.succ_le_succ hr.nested⟩
  refine spellsSum_of_power p ?_
  rw [htokens]
  exact hl.between hm hr hmark (not_number_of_kind ht.kind) hsame hnested hs

end

theorem SpellsOperand.congr (h : SpellsOperand limit cs start e) (hs : e.spelled = l.spelled)
    (hshort : e.Short ↔ l.Short) : SpellsOperand limit cs start l := by
  obtain ⟨signs, base, h⟩ := h
  exact ⟨signs, base, h.scans, h.same.trans hs, h.nested, h.short.trans hshort⟩

theorem SpellsSum.congr (h : SpellsSum limit cs start e) (hs : e.spelled = l.spelled)
    (hshort : e.Short ↔ l.Short) : SpellsSum limit cs start l := by
  obtain ⟨s, h⟩ := h
  exact ⟨s, h.scans, h.same.trans hs, h.nested, h.short.trans hshort⟩

/-! ## Numerals and names -/

theorem short_integer (i : Int) :
    (literal (.exact i)).Short ↔ (Digits.ofNat i.natAbs).length ≤ maxLiteralDigits :=
  ⟨Number.Short.num, fun h => ⟨h, short_one⟩⟩

theorem spellsOperand_natural (n start : Nat) :
    SpellsOperand 0 (Digits.ofNat n) start (literal (.exact (n : Nat))) := by
  refine ⟨⟨[], nofun⟩, .number (numeralToken n start) rfl, Token.scans_numeral n start, ?_,
    Nat.le_refl 0, ?_⟩
  · show literal (.exact (Number.denoted (String.ofList (Digits.ofNat n)).toList)) = _
    rw [String.toList_ofList, Number.denoted_ofNat]
    exact (spelled_integer n).symm
  · exact (shortLiterals_numeral n start).trans (short_integer n).symm

theorem spelled_natural (n : Nat) :
    (literal (.exact (n : Nat))).spelled = literal (.exact (n : Nat)) :=
  (spelled_integer n).trans (integral_natCast n)

/-- A negative integer is a numeral behind a sign. -/
theorem spellsOperand_integer (i : Int) (start : Nat) :
    SpellsOperand 1 (Digits.ofInt i) start (literal (.exact i)) := by
  unfold Digits.ofInt
  by_cases hneg : i < 0
  · rw [if_pos hneg]
    refine ((spellsOperand_natural i.natAbs (start + 1)).signed (s := .minus) (by decide)
      ⟨rfl, Or.inr rfl⟩ rfl).congr ?_ ?_
    · rw [spelled_integer, integral, if_pos hneg]
      exact congrArg (Expr.signed .minus) (spelled_natural i.natAbs)
    · exact (short_integer i.natAbs).trans (short_integer i).symm
  · rw [if_neg hneg]
    obtain ⟨n, rfl⟩ := Int.eq_ofNat_of_zero_le (Int.not_lt.mp hneg)
    exact (spellsOperand_natural n start).mono (Nat.zero_le 1)

/-- A fraction is the quotient of two integers. -/
theorem spellsSum_fraction {v : Number} (hv : v.isInteger = false) (start : Nat) :
    SpellsSum 1 v.fractionChars start (literal v) := by
  have hnum := spellsOperand_integer v.value.num start
  have hden := (spellsOperand_natural v.value.den (start + (Digits.ofInt v.value.num).length + 1)).mono
    (Nat.zero_le 1)
  have hquotient := spellsSum_of_operator hnum
    (Token.scans_operator (by decide : Token.isOperator '/' = true) _) hden
    (fun rest => apart_cons (by decide) (by decide) rest) (Or.inr ⟨rfl, Or.inr rfl⟩)
  unfold Number.fractionChars
  rw [if_neg (by rw [hv]; decide), List.append_cons]
  refine hquotient.congr ?_ ?_
  · have hspelled : (literal v).spelled =
        .binary .div (integral v.value.num) (literal (.exact (v.value.den : Nat))) := by
      unfold spelled
      rw [if_neg (by rw [hv]; decide)]
    rw [hspelled, ← spelled_integer, ← spelled_natural v.value.den]
    rfl
  · exact (and_congr (short_integer v.value.num) (short_integer v.value.den)).trans
      ⟨fun h => ⟨h.1, h.2⟩, fun h => ⟨h.num, h.den⟩⟩

theorem spellsOperand_name {name : String} (hn : IsWord name.toList) (hs : name ≠ "sqrt")
    (hr : name ≠ "root") (start : Nat) : SpellsOperand 0 name.toList start (var name) := by
  have hroot : ¬ IsRootWord ⟨.identifier, name, start, start + name.toList.length⟩ :=
    fun h => h.2.elim hs hr
  refine ⟨⟨[], nofun⟩, .name _ rfl hroot, ?_, rfl, Nat.le_refl 0, ?_⟩
  · have h := Token.scans_word hn start
    rw [String.ofList_toList] at h
    exact h
  · exact (shortLiterals_cons_iff (by decide : Token.Kind.identifier ≠ .number)).trans
      (iff_of_true nofun trivial)

/-! ## Trees -/

/-- The text of the tree is a sum, and as an operand it is one, too. -/
structure Written (e : Expr) : Prop where
  sum : ∀ start, SpellsSum (2 * e.depth - 1) e.renderChars start e
  operand : ∀ start, SpellsOperand (2 * e.depth) (operandChars e e.renderChars) start e

theorem depth_pos (e : Expr) : 0 < e.depth := by
  induction e with
  | assign name e ih => exact ih
  | _ => exact Nat.succ_pos _

/-- What is no operand by itself, is one in parentheses. -/
theorem written_of_sum (hp : e.isPlain = false)
    (h : ∀ start, SpellsSum (2 * e.depth - 1) e.renderChars start e) : Written e := by
  refine ⟨h, fun start => ?_⟩
  have hpos := depth_pos e
  unfold operandChars
  rw [if_neg (by rw [hp]; decide)]
  exact (h (start + 1)).group.mono (by omega)

theorem written_of_operand (hp : e.isPlain = true)
    (h : ∀ start, SpellsOperand 1 e.renderChars start e) : Written e := by
  have hpos := depth_pos e
  refine ⟨fun start => (h start).sum.mono (by omega), fun start => ?_⟩
  unfold operandChars
  rw [if_pos hp]
  exact (h start).mono (by omega)

theorem written_literal {v : Number} (hv : v.inexact = false) : Written (literal v) := by
  cases hint : v.isInteger with
  | true =>
    obtain ⟨i, rfl⟩ : ∃ i : Int, v = .exact i := ⟨_, exact_of_isInteger hv hint⟩
    refine written_of_operand hint fun start => ?_
    have hchars : (Number.exact i).fractionChars = Digits.ofInt i := if_pos hint
    show SpellsOperand 1 (Number.exact i).fractionChars start _
    rw [hchars]
    exact spellsOperand_integer i start
  | false => exact written_of_sum hint fun start => spellsSum_fraction hint start

theorem written_name {name : String} (hn : IsWord name.toList) (hs : name ≠ "sqrt")
    (hr : name ≠ "root") : Written (var name) :=
  written_of_operand rfl fun start => (spellsOperand_name hn hs hr start).mono (Nat.zero_le 1)

theorem written_signed {s : Sign} (hs : ∀ symbol, s ≠ .other symbol) (he : Written e) :
    Written (.signed s e) := by
  refine written_of_sum rfl fun start => ?_
  have hoperand := he.operand (start + 1)
  have hlimit : 2 * e.depth + 1 ≤ 2 * (Expr.signed s e).depth - 1 := by
    simp only [depth]
    omega
  cases s with
  | plus =>
    exact ((hoperand.signed (c := '+') (by decide) ⟨rfl, Or.inl rfl⟩ rfl).sum).mono hlimit
  | minus =>
    exact ((hoperand.signed (c := '-') (by decide) ⟨rfl, Or.inr rfl⟩ rfl).sum).mono hlimit
  | other symbol => exact absurd rfl (hs symbol)

/-- Two operands with an operator between blanks. -/
theorem written_spaced {op : Operator} {c : Char} (hop : op ≠ .pow) (hc : op.symbol.toList = [c])
    (hsymbol : Operator.ofSymbol (String.ofList [c]) = op) (hoperator : Token.isOperator c = true)
    (ht : ∀ k, IsSumOperator (operatorToken c k) ∨ IsProductOperator (operatorToken c k))
    (hl : Written l) (hr : Written r) : Written (.binary op l r) := by
  refine written_of_sum rfl fun start => ?_
  have hchars : (Expr.binary op l r).renderChars = operandChars l l.renderChars ++
      (' ' :: [c] ++ [' ']) ++ operandChars r r.renderChars := by
    simp only [renderChars, if_neg hop, hc]
  have hleft : 2 * l.depth ≤ 2 * max l.depth r.depth := by omega
  have hright : 2 * r.depth ≤ 2 * max l.depth r.depth := by omega
  have hsum := spellsSum_of_operator ((hl.operand start).mono hleft)
    (Token.scans_spaced (Token.scans_operator hoperator _)) ((hr.operand _).mono hright)
    (fun rest => apart_cons (by decide) (by decide) _) (ht _)
  rw [show Operator.ofSymbol (operatorToken c _).text = op from hsymbol] at hsum
  rw [hchars]
  refine hsum.mono ?_
  simp only [depth]
  omega

/-- Two operands with a mark between them. -/
theorem written_marked {c : Char} (hp : e.isPlain = false)
    (hchars : e.renderChars = operandChars l l.renderChars ++ [c] ++ operandChars r r.renderChars)
    (hdepth : e.depth = max l.depth r.depth + 1) (hoperator : Token.isOperator c = true)
    (ht : ∀ k, IsMark (operatorToken c k))
    (hspelled : ∀ k, e.spelled = withMark (operatorToken c k) l.spelled r.spelled)
    (hshort : e.Short ↔ l.Short ∧ r.Short) (hl : Written l) (hr : Written r) : Written e := by
  refine written_of_sum hp fun start => ?_
  have hleft : 2 * l.depth ≤ 2 * max l.depth r.depth := by omega
  have hright : 2 * r.depth ≤ 2 * max l.depth r.depth := by omega
  rw [hchars]
  exact (spellsSum_of_marked ((hl.operand start).mono hleft) (Token.scans_operator hoperator _)
    ((hr.operand _).mono hright) (fun rest => Token.apart_of_isOperator hoperator rest) (ht _)
    (hspelled _) hshort).mono (by omega)

theorem written_binary {op : Operator} (hop : ∀ symbol, op ≠ .other symbol) (hl : Written l)
    (hr : Written r) : Written (.binary op l r) := by
  cases op with
  | add =>
    exact written_spaced (c := '+') (by decide) rfl rfl (by decide)
      (fun _ => Or.inl ⟨rfl, Or.inl rfl⟩) hl hr
  | sub =>
    exact written_spaced (c := '-') (by decide) rfl rfl (by decide)
      (fun _ => Or.inl ⟨rfl, Or.inr rfl⟩) hl hr
  | mul =>
    exact written_spaced (c := '*') (by decide) rfl rfl (by decide)
      (fun _ => Or.inr ⟨rfl, Or.inl rfl⟩) hl hr
  | div =>
    exact written_spaced (c := '/') (by decide) rfl rfl (by decide)
      (fun _ => Or.inr ⟨rfl, Or.inr rfl⟩) hl hr
  | pow =>
    exact written_marked (c := '^') rfl rfl rfl (by decide) (fun _ => Or.inl ⟨rfl, rfl⟩)
      (fun _ => rfl) Iff.rfl hl hr
  | other symbol => exact absurd rfl (hop symbol)

/-- A degree that goes without saying is two, however it was written. -/
theorem spelled_of_isTwo {d : Expr} (h : d.isTwo = true) : d.spelled = two ∧ d.Short := by
  cases d with
  | literal v =>
    have hv : v.value = 2 := of_decide_eq_true h
    have hint : v.isInteger = true := by
      unfold Number.isInteger
      rw [hv]
      rfl
    refine ⟨?_, ?_, ?_⟩
    · unfold spelled
      rw [if_pos hint, hv]
      exact integral_natCast 2
    · rw [hv]
      decide +kernel
    · rw [hv]
      decide +kernel
  | _ => cases h

/-- A root without a degree takes the operand behind it. -/
theorem written_square {d : Expr} (hd : d.isTwo = true) (hr : Written r) : Written (.root d r) := by
  refine written_of_sum rfl fun start => ?_
  obtain ⟨ss, a, h⟩ := hr.operand (start + 1)
  obtain ⟨htwo, hshort⟩ := spelled_of_isTwo hd
  have hchars : (Expr.root d r).renderChars = [Token.rootSign] ++ operandChars r r.renderChars := by
    simp only [renderChars, hd]
    rfl
  let p : Power := .rooted ⟨[], nofun⟩ (operatorToken Token.rootSign start) (Or.inl ⟨rfl, rfl⟩)
    (.plain ss a)
  have hp : Spells (2 * r.depth + 1) p.tokens p.tree p.nesting (Expr.root d r).renderChars start
      (.root d r) := by
    refine ⟨?_, ?_, ?_, ?_⟩
    · rw [hchars]
      exact (Token.scans_operator (by decide) start).append h.scans fun _ _ => trivial
    · show Expr.root two _ = Expr.root d.spelled r.spelled
      rw [htwo]
      exact congrArg (Expr.root two) h.same
    · have hnested := h.nested
      simp only [p, Power.nesting, List.length_nil] at hnested ⊢
      omega
    · refine (shortLiterals_cons_iff (by decide : Token.Kind.operator ≠ .number)).trans ?_
      exact h.short.trans (and_iff_right hshort).symm
  refine (spellsSum_of_power p hp).mono ?_
  simp only [depth]
  omega

theorem written_root {d : Expr} (hd : Written d) (hr : Written r) : Written (.root d r) := by
  cases htwo : d.isTwo with
  | true => exact written_square htwo hr
  | false =>
    have hchars : (Expr.root d r).renderChars =
        operandChars d d.renderChars ++ [Token.rootSign] ++ operandChars r r.renderChars := by
      simp only [renderChars, htwo]
      exact List.append_cons _ _ _
    exact written_marked rfl hchars rfl (by decide) (fun _ => Or.inr (Or.inl ⟨rfl, rfl⟩))
      (fun _ => rfl) Iff.rfl hd hr

/-- Every tree is written as a sum that spells it. -/
theorem Writable.written (he : Writable e) : Written e := by
  induction he with
  | literal hexact => exact written_literal hexact
  | var hn hs hr => exact written_name hn hs hr
  | signed hs _ ih => exact written_signed hs ih
  | binary hop _ _ ihl ihr => exact written_binary hop ihl ihr
  | root _ _ ihd ihr => exact written_root ihd ihr

/-! ## Whole inputs -/

end

/-- The text of a tree has a derivation that spells it, and that keeps the limits if the tree is not
too deep. -/
theorem exists_input {t : Expr} (ht : WritableInput t) :
    ∃ d : Input, Scans Apart t.renderChars 0 d.tokens ∧ d.tree t.renderChars = t.spelled ∧
      (ShortLiterals d.tokens ↔ t.Short) ∧ (t.depth ≤ 50 → d.Fits) := by
  have hmax : maxNesting = 100 := rfl
  have hfits : ∀ {s : Grammar.Sum} {e : Expr}, s.nesting ≤ 2 * e.depth - 1 → s.tree = e.spelled →
      e.depth ≤ 50 → s.Fits := by
    intro s e hnesting htree hdepth
    have hspelled := depth_spelled_le e
    refine ⟨by omega, ?_⟩
    rw [htree]
    omega
  cases ht with
  | value he =>
    obtain ⟨s, h⟩ := he.written.sum 0
    exact ⟨.sum s, h.scans, h.same, h.short, hfits h.nested h.same⟩
  | @assign name e hn he =>
    let target : Token := ⟨.identifier, String.ofList name.toList, 0, 0 + name.toList.length⟩
    let mark : Token := ⟨.assign, String.ofList ['='], 0 + name.toList.length + 1,
      0 + name.toList.length + 1 + 1⟩
    have hmark : Scans Any (' ' :: ['='] ++ [' ']) (0 + name.toList.length) [mark] :=
      Token.scans_spaced (Token.scans_symbol (by decide) (fun _ => rfl) _)
    obtain ⟨s, h⟩ := he.written.sum (0 + name.toList.length + (' ' :: ['='] ++ [' ']).length)
    refine ⟨.assign target rfl mark rfl s, ?_, ?_, ?_, hfits (e := e) h.nested h.same⟩
    · exact Token.scans_between (Token.scans_word hn 0) hmark h.scans
        fun rest => apart_cons (by decide) (by decide) _
    · show Expr.assign (String.ofList name.toList) s.tree = Expr.assign name e.spelled
      rw [String.ofList_toList, h.same]
    · refine (shortLiterals_cons_iff (by decide : Token.Kind.identifier ≠ .number)).trans ?_
      exact (shortLiterals_cons_iff (by decide : Token.Kind.assign ≠ .number)).trans h.short

/-- A tree that can be written is written as a text which, if it is parsed, spells it, and has its value
over every table, its flag or its failure, and the same table after it. It is parsed if the tree is at
most fifty levels deep and its literals are short. -/
theorem parse_render {t : Expr} (ht : WritableInput t) :
    (∀ u, parse t.render = .ok u → u = t.spelled ∧ ∀ vars, evaluate vars u = evaluate vars t) ∧
    (t.depth ≤ 50 → t.Short → ∃ u, parse t.render = .ok u) := by
  obtain ⟨d, hscans, htree, hshort, hfits⟩ := exists_input ht
  have hscan : Token.scan t.render.toList = ⟨d.tokens, .finished t.renderChars.length⟩ := by
    unfold render
    rw [String.toList_ofList]
    exact Token.scan_of_scans hscans
  have hsame : d.tree t.render.toList = t.spelled := by
    unfold render
    rw [String.toList_ofList, htree]
  refine ⟨fun u hu => ?_, fun hdepth hs => ?_⟩
  · obtain ⟨d', htokens, rfl, -, hs⟩ := (parse_iff_derives hscan).mp hu
    obtain rfl := input_unique htokens
    rw [hsame]
    exact ⟨rfl, evaluate_spelled ht (hshort.mp hs)⟩
  · exact ⟨_, (parse_iff_derives hscan).mpr ⟨d, rfl, rfl, hfits hdepth, hshort.mpr hs⟩⟩

/-- A fraction under a power, below a root of degree three. -/
theorem parse_render_of_root :
    let t : Expr := .assign "y" (.root (literal (.exact 3))
      (.binary .pow (literal (.exact (-1 / 2))) (.var "x")))
    let u : Expr := .assign "y" (.root (literal (.exact 3)) (.binary .pow
      (.binary .div (.signed .minus (literal (.exact 1))) (literal (.exact 2))) (.var "x")))
    WritableInput t ∧ t.render = "y = 3√((-1/2)^x)" ∧ t.depth ≤ 50 ∧ t.Short ∧
      parse t.render = .ok u ∧ ∀ vars, evaluate vars u = evaluate vars t := by
  intro t u
  have hx : IsWord "x".toList := by
    unfold IsWord
    decide +kernel
  have hy : IsWord "y".toList := by
    unfold IsWord
    decide +kernel
  have ht : WritableInput t := .assign hy
    (.root (.literal rfl) (.binary nofun (.literal rfl) (.var hx (by decide) (by decide))))
  have hshort : t.Short :=
    ⟨⟨by decide +kernel, by decide +kernel⟩, ⟨by decide +kernel, by decide +kernel⟩, trivial⟩
  have hdepth : t.depth ≤ 50 := by decide
  have hspelled : t.spelled = u := by decide +kernel
  obtain ⟨hsame, hparsed⟩ := parse_render ht
  obtain ⟨tree, htree⟩ := hparsed hdepth hshort
  obtain ⟨rfl, hvalue⟩ := hsame tree htree
  rw [hspelled] at htree hvalue
  exact ⟨ht, by decide +kernel, hdepth, hshort, htree, hvalue⟩

end ExactCalc.Expr
