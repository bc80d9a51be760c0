/-
  ExactCalc.Proofs.Expr.Completeness — what the grammar derives within the limits, the
  parser accepts, with the tree of the derivation (see `ExactCalc.Expr.Parsing`).

  By induction on derivations, in front of any tokens that do not carry the phrase on
  (`Stops`). A phrase that opens a construct is read one level further in, so the
  nesting of a derivation is what the levels have to last for; the chains need as many
  rounds as there are tokens.
-/

import ExactCalc.Proofs.Expr.Reading

namespace ExactCalc.Expr

open Grammar

/-! ## Trees only grow -/

theorem depth_le_withSigns (ss : List Token) (e : Expr) : e.depth ≤ (withSigns ss e).depth := by
  induction ss with
  | nil => exact Nat.le_refl _
  | cons t ss ih => exact Nat.le_succ_of_le ih

theorem depth_le_factors : ∀ (f : Factors) (left : Expr), left.depth ≤ (f.onto left).depth
  | .none, _ => Nat.le_refl _
  | .cons op _ right more, left => by
    have := depth_le_factors more (.binary (Operator.ofSymbol op.text) left right.tree)
    simp only [depth] at this
    simp only [Factors.onto]
    omega

theorem depth_le_summands : ∀ (s : Summands) (left : Expr), left.depth ≤ (s.onto left).depth
  | .none, _ => Nat.le_refl _
  | .cons op _ right more, left => by
    have := depth_le_summands more (.binary (Operator.ofSymbol op.text) left right.tree)
    simp only [depth] at this
    simp only [Summands.onto]
    omega

theorem depth_withMark (t : Token) (l r : Expr) :
    (withMark t l r).depth = max l.depth r.depth + 1 := by
  unfold withMark
  split <;> rfl

/-! ## Levels -/

/-- The parsers for what may open inside, when `limit` constructs may. -/
def inside (n bound : Nat) : Nat → Option Levels
  | 0 => none
  | limit + 1 => some (levels (.finished n) bound limit)

theorem levels_eq (n bound limit : Nat) :
    levels (.finished n) bound limit = levelsOver (.finished n) bound (inside n bound limit) := by
  cases limit <;> rfl

theorem inside_succ (n bound limit : Nat) : inside n bound (limit + 1) =
    some (levelsOver (.finished n) bound (inside n bound limit)) := by
  rw [← levels_eq]
  rfl

/-- Number tokens are read as what they denote. -/
def Literals (ts : List Token) : Prop :=
  ∀ t ∈ ts, t.kind = .number →
    Number.ofLiteral t.text.toList = .ok (.exact (Number.denoted t.text.toList))

/-- A derivation that keeps the limits. -/
structure Keeps (limit bound : Nat) (tokens : List Token) (tree : Expr) (nesting : Nat) : Prop where
  nested : nesting ≤ limit
  shallow : tree.depth ≤ maxNesting
  literals : Literals tokens
  small : tokens.length ≤ bound

theorem Keeps.part {limit limit' bound nesting nesting' : Nat} {tokens tokens' : List Token}
    {tree tree' : Expr} (h : Keeps limit bound tokens tree nesting) (hn : nesting' ≤ limit')
    (hd : tree'.depth ≤ tree.depth) (hs : tokens'.Sublist tokens) :
    Keeps limit' bound tokens' tree' nesting' :=
  ⟨hn, Nat.le_trans hd h.shallow, fun t ht => h.literals t (hs.subset ht),
    Nat.le_trans hs.length_le h.small⟩

/-! ## One step each -/

section

variable {n bound limit : Nat} {rest : List Token}

theorem node_of_shallow {t : Token} {e : Expr} (h : e.depth ≤ maxNesting) : node t e = .ok e :=
  node_eq_ok_iff.mpr ⟨h, rfl⟩

/-- Signs in front of what reads as an operand. -/
theorem signs_append {ts : List Token} {e : Expr} :
    ∀ (ss : List Token) {limit : Nat}, (∀ t ∈ ss, IsSign t) →
      (withSigns ss e).depth ≤ maxNesting →
      signs (.finished n) (inside n bound limit) ts = .ok (e, rest) →
      signs (.finished n) (inside n bound (ss.length + limit)) (ss ++ ts) =
        .ok (withSigns ss e, rest) := by
  intro ss
  induction ss with
  | nil =>
    intro limit _ _ h
    rw [List.length_nil, Nat.zero_add]
    exact h
  | cons t ss ih =>
    intro limit hss hd h
    have hsign := hss t List.mem_cons_self
    have hinner := ih (fun u hu => hss u (List.mem_cons_of_mem _ hu))
      (Nat.le_trans (Nat.le_succ _) hd) h
    have hin : inside n bound ((t :: ss).length + limit) =
        some (levelsOver (.finished n) bound (inside n bound (ss.length + limit))) := by
      rw [List.length_cons, Nat.succ_add, inside_succ]
    have hs : sign? t = some (Sign.ofSymbol t.text) := sign?_eq_some_iff.mpr ⟨hsign, rfl⟩
    refine bind_eq_ok.mpr ⟨t, peek_finished _ _, ?_⟩
    simp only [hs, hin, opened]
    exact bind_eq_ok.mpr ⟨_, rfl, bind_eq_ok.mpr ⟨_, hinner, bind_eq_ok.mpr
      ⟨_, node_of_shallow hd, rfl⟩⟩⟩

/-- A root in front of a power. -/
theorem signs_of_root {ts : List Token} {mark : Token} {radicand : Expr} (hm : IsRootMark mark)
    (hd : (Expr.root two radicand).depth ≤ maxNesting)
    (hr : power (.finished n) (inside n bound limit) ts = .ok (radicand, rest)) :
    signs (.finished n) (inside n bound (limit + 1)) (mark :: ts) =
      .ok (.root two radicand, rest) := by
  have hs : sign? mark = none := by
    apply Option.eq_none_iff_forall_not_mem.mpr
    intro s h
    exact not_isSign_of_isRootMark hm (sign?_eq_some_iff.mp h).1
  refine bind_eq_ok.mpr ⟨mark, peek_finished _ _, ?_⟩
  simp only [hs, isRootMark_iff.mpr hm, if_true, inside_succ, opened]
  exact bind_eq_ok.mpr ⟨_, rfl, bind_eq_ok.mpr ⟨_, hr, bind_eq_ok.mpr
    ⟨_, node_of_shallow hd, rfl⟩⟩⟩

/-- After an operand that no mark follows, a power ends. -/
theorem power_of_signs {inner : Option Levels} {ts : List Token} {e : Expr}
    (h : signs (.finished n) inner ts = .ok (e, rest)) (hstop : Stops IsMark rest) :
    power (.finished n) inner ts = .ok (e, rest) := by
  have hm : (isSymbol (next n rest) "^" || isRootMark (next n rest)) = false := by
    apply Bool.eq_false_iff.mpr
    intro hc
    exact hstop.next (fun hf => hf.kind.elim nofun nofun) (isMark_iff.mp hc)
  refine bind_eq_ok.mpr ⟨_, h, bind_eq_ok.mpr ⟨_, peek_finished _ _, ?_⟩⟩
  simp only [hm]
  rfl

/-- A mark and a power after an operand. -/
theorem power_of_mark {ts more : List Token} {mark : Token} {left right : Expr}
    (h : signs (.finished n) (inside n bound (limit + 1)) ts = .ok (left, mark :: more))
    (hm : IsMark mark) (hd : (withMark mark left right).depth ≤ maxNesting)
    (hr : power (.finished n) (inside n bound limit) more = .ok (right, rest)) :
    power (.finished n) (inside n bound (limit + 1)) ts = .ok (withMark mark left right, rest) := by
  refine bind_eq_ok.mpr ⟨_, h, bind_eq_ok.mpr ⟨_, peek_finished _ _, ?_⟩⟩
  rw [← withMark_eq hm] at hd ⊢
  simp only [next_cons, isMark_iff.mpr hm, if_true, inside_succ, opened]
  exact bind_eq_ok.mpr ⟨_, rfl, bind_eq_ok.mpr ⟨_, hr, bind_eq_ok.mpr
    ⟨_, node_of_shallow hd, rfl⟩⟩⟩

theorem chain_stop {operator? : Token → Option Operator} {operand : List Token → Reading}
    (b : Nat) {left : Expr} (h : operator? (next n rest) = none) :
    chain (.finished n) operator? operand b left rest = .ok (left, rest) := by
  cases b with
  | zero => rfl
  | succ b =>
    refine bind_eq_ok.mpr ⟨_, peek_finished _ _, ?_⟩
    simp only [h]
    rfl

theorem chain_step {operator? : Token → Option Operator} {operand : List Token → Reading}
    {b : Nat} {t : Token} {op : Operator} {left right e : Expr} {ts mid : List Token}
    (ht : operator? t = some op) (hr : operand ts = .ok (right, mid))
    (hd : (Expr.binary op left right).depth ≤ maxNesting)
    (h : chain (.finished n) operator? operand b (.binary op left right) mid = .ok (e, rest)) :
    chain (.finished n) operator? operand (b + 1) left (t :: ts) = .ok (e, rest) := by
  refine bind_eq_ok.mpr ⟨_, peek_finished _ _, ?_⟩
  simp only [next_cons, ht]
  exact bind_eq_ok.mpr ⟨_, hr, bind_eq_ok.mpr ⟨_, node_of_shallow hd, h⟩⟩

theorem sum_step {inner : Option Levels} {ts mid : List Token} {left e : Expr}
    (hl : product (.finished n) bound inner ts = .ok (left, mid))
    (h : chain (.finished n) sumOperator? (product (.finished n) bound inner) bound left mid =
      .ok (e, rest)) :
    sum (.finished n) bound inner ts = .ok (e, rest) :=
  bind_eq_ok.mpr ⟨_, hl, h⟩

theorem product_step {inner : Option Levels} {ts mid : List Token} {left e : Expr}
    (hl : power (.finished n) inner ts = .ok (left, mid))
    (h : chain (.finished n) productOperator? (power (.finished n) inner) bound left mid =
      .ok (e, rest)) :
    product (.finished n) bound inner ts = .ok (e, rest) :=
  bind_eq_ok.mpr ⟨_, hl, h⟩

theorem sumOperator?_next (h : Stops CarriesSum rest) : sumOperator? (next n rest) = none := by
  apply Option.eq_none_iff_forall_not_mem.mpr
  intro op hop
  have hc := (sumOperator?_eq_some_iff.mp hop).1
  exact h.next (fun hf => hf.kind.elim nofun nofun) (Or.inr hc)

theorem productOperator?_next (h : Stops CarriesProduct rest) :
    productOperator? (next n rest) = none := by
  apply Option.eq_none_iff_forall_not_mem.mpr
  intro op hop
  have hc := (productOperator?_eq_some_iff.mp hop).1
  exact h.next (fun hf => hf.kind.elim nofun nofun) (Or.inr hc)

theorem primary_of_number {t : Token} (hk : t.kind = .number) (hl : Literals [t]) :
    primary (.finished n) (inside n bound limit) (t :: rest) =
      .ok (.literal (.exact (Number.denoted t.text.toList)), rest) := by
  refine bind_eq_ok.mpr ⟨t, rfl, ?_⟩
  simp only [hk]
  refine bind_eq_ok.mpr ⟨_, ?_, rfl⟩
  unfold number
  rw [hl t List.mem_cons_self hk]

theorem primary_of_name {t : Token} (hk : t.kind = .identifier) :
    primary (.finished n) (inside n bound limit) (t :: rest) = .ok (.var t.text, rest) := by
  refine bind_eq_ok.mpr ⟨t, rfl, ?_⟩
  simp only [hk]
  rfl

theorem primary_of_group {opening closing : Token} {ts : List Token} {e : Expr}
    (ho : opening.kind = .openParen) (hc : closing.kind = .closeParen)
    (h : sum (.finished n) bound (inside n bound limit) ts = .ok (e, closing :: rest)) :
    primary (.finished n) (inside n bound (limit + 1)) (opening :: ts) = .ok (e, rest) := by
  refine bind_eq_ok.mpr ⟨opening, rfl, ?_⟩
  simp only [ho, parenthesis, inside_succ, opened]
  refine bind_eq_ok.mpr ⟨_, rfl, bind_eq_ok.mpr ⟨_, h, bind_eq_ok.mpr ⟨_, rfl, ?_⟩⟩⟩
  simp only [hc]
  rfl

theorem signs_of_atom (a : Atom) {inner : Option Levels} {e : Expr}
    (h : primary (.finished n) inner (a.tokens ++ rest) = .ok (e, rest)) :
    signs (.finished n) inner (a.tokens ++ rest) = .ok (e, rest) := by
  obtain ⟨t, ts, hts, hsign, hroot⟩ := a.tokens_head
  have hs : sign? t = none := Option.eq_none_iff_forall_not_mem.mpr fun s hs =>
    hsign (sign?_eq_some_iff.mp hs).1
  have hr : isRootMark t = false := Bool.eq_false_iff.mpr fun hc => hroot (isRootMark_iff.mp hc)
  rw [hts] at h ⊢
  refine bind_eq_ok.mpr ⟨t, rfl, ?_⟩
  simp only [hs, hr]
  exact h

/-! ## Derivations -/

mutual

theorem atom_complete : ∀ (a : Atom) {limit : Nat} {rest : List Token},
    Keeps limit bound a.tokens a.tree a.nesting →
    primary (.finished n) (inside n bound limit) (a.tokens ++ rest) = .ok (a.tree, rest)
  | .number t hk, _, _, h => primary_of_number hk h.literals
  | .name t hk _, _, _, _ => primary_of_name hk
  | .group o ho s c hc, 0, _, h => absurd h.nested (Nat.not_succ_le_zero _)
  | .group o ho s c hc, limit + 1, rest, h => by
    have hs : Keeps limit bound s.tokens s.tree s.nesting :=
      h.part (Nat.le_of_succ_le_succ h.nested) (Nat.le_refl _)
        ((List.sublist_append_left _ _).cons _)
    have hstop : Stops CarriesSum (c :: rest) :=
      stops_cons (not_carriesSum_of_kind (by rw [hc]; decide) (by rw [hc]; decide))
    have hread := sum_complete s hs hstop
    simp only [Atom.tokens, List.cons_append, List.append_assoc, List.nil_append]
    exact primary_of_group ho hc hread

theorem power_complete : ∀ (p : Power) {limit : Nat} {rest : List Token},
    Keeps limit bound p.tokens p.tree p.nesting → Stops IsMark rest →
    power (.finished n) (inside n bound limit) (p.tokens ++ rest) = .ok (p.tree, rest)
  | .plain ss a, limit, rest, h, hstop => by
    obtain ⟨k, rfl⟩ := Nat.exists_eq_add_of_le (Nat.le_of_add_right_le h.nested)
    have ha : Keeps k bound a.tokens a.tree a.nesting :=
      h.part (Nat.le_of_add_le_add_left h.nested) (depth_le_withSigns _ _)
        (List.sublist_append_right _ _)
    refine power_of_signs ?_ hstop
    simp only [Power.tokens, List.append_assoc]
    exact signs_append ss.val ss.property h.shallow (signs_of_atom a (atom_complete a ha))
  | .marked ss a mark hm right, 0, rest, h, hstop =>
    absurd (Nat.le_trans (Nat.le_max_right _ _) h.nested) (Nat.not_succ_le_zero _)
  | .marked ss a mark hm right, limit + 1, rest, h, hstop => by
    have hn := h.nested
    have hd := h.shallow
    simp only [Power.nesting] at hn
    simp only [Power.tree, depth_withMark] at hd
    obtain ⟨k, hk⟩ := Nat.exists_eq_add_of_le (show ss.val.length ≤ limit + 1 by omega)
    have ha : Keeps k bound a.tokens a.tree a.nesting :=
      h.part (by omega)
        (by
          have := depth_le_withSigns ss.val a.tree
          simp only [Power.tree, depth_withMark]
          omega)
        ((List.sublist_append_left _ _).trans (List.sublist_append_right _ _))
    have hright : Keeps limit bound right.tokens right.tree right.nesting :=
      h.part (by omega) (by simp only [Power.tree, depth_withMark]; omega)
        (((List.sublist_cons_self _ _).trans (List.sublist_append_right _ _)).trans
          (List.sublist_append_right _ _))
    simp only [Power.tokens, List.append_assoc, List.cons_append]
    refine power_of_mark ?_ hm h.shallow (power_complete right hright hstop)
    rw [hk]
    exact signs_append ss.val ss.property (by omega) (signs_of_atom a (atom_complete a ha))
  | .rooted ss mark hm radicand, limit, rest, h, hstop => by
    have hn := h.nested
    simp only [Power.nesting] at hn
    obtain ⟨k, rfl⟩ := Nat.exists_eq_add_of_le (show ss.val.length + 1 ≤ limit by omega)
    have hd : (Expr.root two radicand.tree).depth ≤ maxNesting :=
      Nat.le_trans (depth_le_withSigns _ _) h.shallow
    have hr : Keeps k bound radicand.tokens radicand.tree radicand.nesting :=
      h.part (by omega)
        (by
          have := depth_le_withSigns ss.val (.root two radicand.tree)
          simp only [depth] at this
          simp only [Power.tree]
          omega)
        ((List.sublist_cons_self _ _).trans (List.sublist_append_right _ _))
    refine power_of_signs ?_ hstop
    rw [Nat.add_assoc, Nat.add_comm 1]
    simp only [Power.tokens, List.append_assoc, List.cons_append]
    exact signs_append ss.val ss.property h.shallow
      (signs_of_root hm hd (power_complete radicand hr hstop))

theorem factors_complete : ∀ (f : Factors) {limit b : Nat} {left : Expr} {rest : List Token},
    Keeps limit bound f.tokens (f.onto left) f.nesting → f.tokens.length ≤ b →
    Stops CarriesProduct rest →
    chain (.finished n) productOperator? (power (.finished n) (inside n bound limit)) b left
      (f.tokens ++ rest) = .ok (f.onto left, rest)
  | .none, _, b, _, _, _, _, hstop => chain_stop b (productOperator?_next hstop)
  | .cons op hop right more, limit, 0, left, rest, h, hb, hstop => absurd hb (Nat.not_succ_le_zero _)
  | .cons op hop right more, limit, b + 1, left, rest, h, hb, hstop => by
    have hdeep := depth_le_factors more (.binary (Operator.ofSymbol op.text) left right.tree)
    have hn := Nat.max_le.mp h.nested
    simp only [Factors.tokens, List.length_cons, List.length_append] at hb
    have hright : Keeps limit bound right.tokens right.tree right.nesting :=
      h.part hn.1 (by simp only [depth] at hdeep; simp only [Factors.onto]; omega)
        ((List.sublist_append_left _ _).cons _)
    have hmore : Keeps limit bound more.tokens
        (more.onto (.binary (Operator.ofSymbol op.text) left right.tree)) more.nesting :=
      h.part hn.2 (Nat.le_refl _) ((List.sublist_append_right _ _).cons _)
    simp only [Factors.tokens, List.cons_append, List.append_assoc]
    exact chain_step (productOperator?_eq_some_iff.mpr ⟨hop, rfl⟩)
      (power_complete right hright (more.stops hstop))
      (Nat.le_trans hdeep h.shallow) (factors_complete more hmore (by omega) hstop)

theorem product_complete : ∀ (p : Product) {limit : Nat} {rest : List Token},
    Keeps limit bound p.tokens p.tree p.nesting → Stops CarriesProduct rest →
    product (.finished n) bound (inside n bound limit) (p.tokens ++ rest) = .ok (p.tree, rest)
  | .of first more, limit, rest, h, hstop => by
    have hn := Nat.max_le.mp h.nested
    have hfirst : Keeps limit bound first.tokens first.tree first.nesting :=
      h.part hn.1 (depth_le_factors more _) (List.sublist_append_left _ _)
    have hmore : Keeps limit bound more.tokens (more.onto first.tree) more.nesting :=
      h.part hn.2 (Nat.le_refl _) (List.sublist_append_right _ _)
    simp only [Product.tokens, List.append_assoc]
    exact product_step (power_complete first hfirst (more.stops hstop))
      (factors_complete more hmore hmore.small hstop)

theorem summands_complete : ∀ (s : Summands) {limit b : Nat} {left : Expr} {rest : List Token},
    Keeps limit bound s.tokens (s.onto left) s.nesting → s.tokens.length ≤ b →
    Stops CarriesSum rest →
    chain (.finished n) sumOperator? (product (.finished n) bound (inside n bound limit)) b left
      (s.tokens ++ rest) = .ok (s.onto left, rest)
  | .none, _, b, _, _, _, _, hstop => chain_stop b (sumOperator?_next hstop)
  | .cons op hop right more, limit, 0, left, rest, h, hb, hstop => absurd hb (Nat.not_succ_le_zero _)
  | .cons op hop right more, limit, b + 1, left, rest, h, hb, hstop => by
    have hdeep := depth_le_summands more (.binary (Operator.ofSymbol op.text) left right.tree)
    have hn := Nat.max_le.mp h.nested
    simp only [Summands.tokens, List.length_cons, List.length_append] at hb
    have hright : Keeps limit bound right.tokens right.tree right.nesting :=
      h.part hn.1 (by simp only [depth] at hdeep; simp only [Summands.onto]; omega)
        ((List.sublist_append_left _ _).cons _)
    have hmore : Keeps limit bound more.tokens
        (more.onto (.binary (Operator.ofSymbol op.text) left right.tree)) more.nesting :=
      h.part hn.2 (Nat.le_refl _) ((List.sublist_append_right _ _).cons _)
    simp only [Summands.tokens, List.cons_append, List.append_assoc]
    exact chain_step (sumOperator?_eq_some_iff.mpr ⟨hop, rfl⟩)
      (product_complete right hright (more.stops hstop))
      (Nat.le_trans hdeep h.shallow) (summands_complete more hmore (by omega) hstop)

theorem sum_complete : ∀ (s : Grammar.Sum) {limit : Nat} {rest : List Token},
    Keeps limit bound s.tokens s.tree s.nesting → Stops CarriesSum rest →
    sum (.finished n) bound (inside n bound limit) (s.tokens ++ rest) = .ok (s.tree, rest)
  | .of first more, limit, rest, h, hstop => by
    have hn := Nat.max_le.mp h.nested
    have hfirst : Keeps limit bound first.tokens first.tree first.nesting :=
      h.part hn.1 (depth_le_summands more _) (List.sublist_append_left _ _)
    have hmore : Keeps limit bound more.tokens (more.onto first.tree) more.nesting :=
      h.part hn.2 (Nat.le_refl _) (List.sublist_append_right _ _)
    simp only [Sum.tokens, List.append_assoc]
    exact sum_step (product_complete first hfirst (more.stops hstop))
      (summands_complete more hmore hmore.small hstop)

end

end

end ExactCalc.Expr
