/-
  ExactCalc.Proofs.Expr.Unambiguity — no list of tokens has two derivations (see
  `ExactCalc.Proofs.Expr.Grammar`).

  By induction on one of the two: where the tokens after a phrase do not carry it on,
  the phrase and what follows it are given by the tokens together (`sum_unique` and its
  kin). Signs end at the first token that is none, and an atom is told from a root by
  its first token.
-/

import ExactCalc.Proofs.Expr.Reading

namespace ExactCalc.Grammar

open ExactCalc.Expr (Stops stops_cons)

/-- The signs in front of anything else are all of them. -/
theorem signs_unique : ∀ {l l' : List Token} {t t' : Token} {r r' : List Token},
    (∀ u ∈ l, IsSign u) → (∀ u ∈ l', IsSign u) → ¬ IsSign t → ¬ IsSign t' →
    l ++ t :: r = l' ++ t' :: r' → l = l' ∧ t :: r = t' :: r' := by
  intro l
  induction l with
  | nil =>
    intro l' t t' r r' _ hl' ht _ h
    cases l' with
    | nil => exact ⟨rfl, h⟩
    | cons u l' =>
      obtain ⟨rfl, -⟩ := List.cons.inj h
      exact absurd (hl' t List.mem_cons_self) ht
  | cons u l ih =>
    intro l' t t' r r' hl hl' ht ht' h
    cases l' with
    | nil =>
      obtain ⟨rfl, -⟩ := List.cons.inj h
      exact absurd (hl u List.mem_cons_self) ht'
    | cons u' l' =>
      obtain ⟨rfl, h₁⟩ := List.cons.inj h
      obtain ⟨rfl, hr⟩ := ih (fun v hv => hl v (List.mem_cons_of_mem _ hv))
        (fun v hv => hl' v (List.mem_cons_of_mem _ hv)) ht ht' h₁
      exact ⟨rfl, hr⟩

/-- What follows the signs of a power. -/
def Power.body : Power → List Token
  | .plain _ base => base.tokens
  | .marked _ base mark _ right => base.tokens ++ mark :: right.tokens
  | .rooted _ mark _ radicand => mark :: radicand.tokens

def Power.signs : Power → Signs
  | .plain signs _ => signs
  | .marked signs _ _ _ _ => signs
  | .rooted signs _ _ _ => signs

theorem Power.tokens_eq (p : Power) : p.tokens = p.signs.val ++ p.body := by
  cases p <;> rfl

theorem Power.body_head (p : Power) : ∃ t ts, p.body = t :: ts ∧ ¬ IsSign t := by
  cases p with
  | plain ss a =>
    obtain ⟨t, ts, h, hs, -⟩ := a.tokens_head
    exact ⟨t, ts, h, hs⟩
  | marked ss a mark hm right =>
    obtain ⟨t, ts, h, hs, -⟩ := a.tokens_head
    exact ⟨t, ts ++ mark :: right.tokens, by simp only [Power.body, h, List.cons_append], hs⟩
  | rooted ss mark hm radicand => exact ⟨mark, _, rfl, not_isSign_of_isRootMark hm⟩

theorem Power.signs_eq {p p' : Power} {r r' : List Token} (h : p.tokens ++ r = p'.tokens ++ r') :
    p.signs = p'.signs ∧ p.body ++ r = p'.body ++ r' := by
  obtain ⟨t, ts, hb, ht⟩ := p.body_head
  obtain ⟨t', ts', hb', ht'⟩ := p'.body_head
  rw [p.tokens_eq, p'.tokens_eq, List.append_assoc, List.append_assoc, hb, hb'] at h
  obtain ⟨hs, hr⟩ := signs_unique p.signs.property p'.signs.property ht ht' h
  rw [hb, hb']
  exact ⟨Subtype.ext hs, hr⟩

theorem root_ne_atom {mark : Token} (hm : IsRootMark mark) (a : Atom) {l r : List Token} :
    mark :: l ≠ a.tokens ++ r := by
  obtain ⟨t, ts, h, -, hr⟩ := a.tokens_head
  rw [h]
  intro e
  exact hr ((List.cons.inj e).1 ▸ hm)

/-! ## Phrases -/

mutual

theorem atom_unique : ∀ (a a' : Atom) {r r' : List Token},
    a.tokens ++ r = a'.tokens ++ r' → a = a' ∧ r = r'
  | .number t hk, a', r, r', h => by
    cases a' with
    | number t' hk' =>
      obtain ⟨rfl, rfl⟩ := List.cons.inj h
      exact ⟨rfl, rfl⟩
    | name t' hk' _ =>
      obtain ⟨rfl, -⟩ := List.cons.inj h
      exact absurd (hk.symm.trans hk') (by decide)
    | group t' hk' s c hc =>
      obtain ⟨rfl, -⟩ := List.cons.inj h
      exact absurd (hk.symm.trans hk') (by decide)
  | .name t hk hn, a', r, r', h => by
    cases a' with
    | number t' hk' =>
      obtain ⟨rfl, -⟩ := List.cons.inj h
      exact absurd (hk.symm.trans hk') (by decide)
    | name t' hk' hn' =>
      obtain ⟨rfl, rfl⟩ := List.cons.inj h
      exact ⟨rfl, rfl⟩
    | group t' hk' s c hc =>
      obtain ⟨rfl, -⟩ := List.cons.inj h
      exact absurd (hk.symm.trans hk') (by decide)
  | .group o ho s c hc, a', r, r', h => by
    cases a' with
    | number t' hk' =>
      obtain ⟨rfl, -⟩ := List.cons.inj h
      exact absurd (ho.symm.trans hk') (by decide)
    | name t' hk' hn' =>
      obtain ⟨rfl, -⟩ := List.cons.inj h
      exact absurd (ho.symm.trans hk') (by decide)
    | group o' ho' s' c' hc' =>
      simp only [Atom.tokens, List.cons_append, List.append_assoc, List.nil_append] at h
      obtain ⟨rfl, h₁⟩ := List.cons.inj h
      have hstop : Stops CarriesSum (c :: r) :=
        stops_cons (not_carriesSum_of_kind (by rw [hc]; decide) (by rw [hc]; decide))
      have hstop' : Stops CarriesSum (c' :: r') :=
        stops_cons (not_carriesSum_of_kind (by rw [hc']; decide) (by rw [hc']; decide))
      obtain ⟨rfl, hr⟩ := sum_unique s s' hstop hstop' h₁
      obtain ⟨rfl, rfl⟩ := List.cons.inj hr
      exact ⟨rfl, rfl⟩

theorem power_unique : ∀ (p p' : Power) {r r' : List Token}, Stops IsMark r → Stops IsMark r' →
    p.tokens ++ r = p'.tokens ++ r' → p = p' ∧ r = r'
  | .plain ss a, p', r, r', hr, hr', h => by
    obtain ⟨hs, hb⟩ := Power.signs_eq h
    cases p' with
    | plain ss' a' =>
      obtain rfl : ss = ss' := hs
      obtain ⟨rfl, rfl⟩ := atom_unique a a' hb
      exact ⟨rfl, rfl⟩
    | marked ss' a' mark hm right =>
      simp only [Power.body, List.append_assoc, List.cons_append] at hb
      obtain ⟨-, rfl⟩ := atom_unique a a' hb
      exact absurd hm (hr mark rfl)
    | rooted ss' mark hm radicand => exact absurd hb.symm (root_ne_atom hm a)
  | .marked ss a mark hm right, p', r, r', hr, hr', h => by
    obtain ⟨hs, hb⟩ := Power.signs_eq h
    simp only [Power.body, List.append_assoc, List.cons_append] at hb
    cases p' with
    | plain ss' a' =>
      obtain ⟨-, rfl⟩ := atom_unique a a' hb
      exact absurd hm (hr' mark rfl)
    | marked ss' a' mark' hm' right' =>
      obtain rfl : ss = ss' := hs
      simp only [List.append_assoc, List.cons_append] at hb
      obtain ⟨rfl, h₁⟩ := atom_unique a a' hb
      obtain ⟨rfl, h₂⟩ := List.cons.inj h₁
      obtain ⟨rfl, rfl⟩ := power_unique right right' hr hr' h₂
      exact ⟨rfl, rfl⟩
    | rooted ss' mark' hm' radicand => exact absurd hb.symm (root_ne_atom hm' a)
  | .rooted ss mark hm radicand, p', r, r', hr, hr', h => by
    obtain ⟨hs, hb⟩ := Power.signs_eq h
    simp only [Power.body, List.cons_append] at hb
    cases p' with
    | plain ss' a' => exact absurd hb (root_ne_atom hm a')
    | marked ss' a' mark' hm' right =>
      simp only [List.append_assoc, List.cons_append] at hb
      exact absurd hb (root_ne_atom hm a')
    | rooted ss' mark' hm' radicand' =>
      obtain rfl : ss = ss' := hs
      obtain ⟨rfl, h₁⟩ := List.cons.inj hb
      obtain ⟨rfl, rfl⟩ := power_unique radicand radicand' hr hr' h₁
      exact ⟨rfl, rfl⟩

theorem factors_unique : ∀ (f f' : Factors) {r r' : List Token}, Stops CarriesProduct r →
    Stops CarriesProduct r' → f.tokens ++ r = f'.tokens ++ r' → f = f' ∧ r = r'
  | .none, f', r, r', hr, hr', h => by
    cases f' with
    | none => exact ⟨rfl, h⟩
    | cons op hop right more =>
      obtain rfl : r = _ := h
      exact absurd (Or.inr hop) (hr op rfl)
  | .cons op hop right more, f', r, r', hr, hr', h => by
    cases f' with
    | none =>
      obtain rfl : _ = r' := h
      exact absurd (Or.inr hop) (hr' op rfl)
    | cons op' hop' right' more' =>
      simp only [Factors.tokens, List.cons_append, List.append_assoc] at h
      obtain ⟨rfl, h₁⟩ := List.cons.inj h
      obtain ⟨rfl, h₂⟩ := power_unique right right' (more.stops hr) (more'.stops hr') h₁
      obtain ⟨rfl, rfl⟩ := factors_unique more more' hr hr' h₂
      exact ⟨rfl, rfl⟩

theorem product_unique : ∀ (p p' : Product) {r r' : List Token}, Stops CarriesProduct r →
    Stops CarriesProduct r' → p.tokens ++ r = p'.tokens ++ r' → p = p' ∧ r = r'
  | .of first more, .of first' more', r, r', hr, hr', h => by
    simp only [Product.tokens, List.append_assoc] at h
    obtain ⟨rfl, h₁⟩ := power_unique first first' (more.stops hr) (more'.stops hr') h
    obtain ⟨rfl, rfl⟩ := factors_unique more more' hr hr' h₁
    exact ⟨rfl, rfl⟩

theorem summands_unique : ∀ (s s' : Summands) {r r' : List Token}, Stops CarriesSum r →
    Stops CarriesSum r' → s.tokens ++ r = s'.tokens ++ r' → s = s' ∧ r = r'
  | .none, s', r, r', hr, hr', h => by
    cases s' with
    | none => exact ⟨rfl, h⟩
    | cons op hop right more =>
      obtain rfl : r = _ := h
      exact absurd (Or.inr hop) (hr op rfl)
  | .cons op hop right more, s', r, r', hr, hr', h => by
    cases s' with
    | none =>
      obtain rfl : _ = r' := h
      exact absurd (Or.inr hop) (hr' op rfl)
    | cons op' hop' right' more' =>
      simp only [Summands.tokens, List.cons_append, List.append_assoc] at h
      obtain ⟨rfl, h₁⟩ := List.cons.inj h
      obtain ⟨rfl, h₂⟩ := product_unique right right' (more.stops hr) (more'.stops hr') h₁
      obtain ⟨rfl, rfl⟩ := summands_unique more more' hr hr' h₂
      exact ⟨rfl, rfl⟩

theorem sum_unique : ∀ (s s' : Sum) {r r' : List Token}, Stops CarriesSum r →
    Stops CarriesSum r' → s.tokens ++ r = s'.tokens ++ r' → s = s' ∧ r = r'
  | .of first more, .of first' more', r, r', hr, hr', h => by
    simp only [Sum.tokens, List.append_assoc] at h
    obtain ⟨rfl, h₁⟩ := product_unique first first' (more.stops hr) (more'.stops hr') h
    obtain ⟨rfl, rfl⟩ := summands_unique more more' hr hr' h₁
    exact ⟨rfl, rfl⟩

end

/-! ## Inputs -/

theorem stops_assign {t : Token} (h : t.kind = .assign) (ts : List Token) :
    Stops CarriesSum (t :: ts) :=
  stops_cons (not_carriesSum_of_kind (by rw [h]; decide) (by rw [h]; decide))

theorem sum_tokens_inj {s s' : Sum} (h : s.tokens = s'.tokens) : s = s' := by
  refine (sum_unique s s' nofun nofun ?_ : s = s' ∧ ([] : List Token) = []).1
  rw [h]

/-- A list of tokens has at most one derivation. -/
theorem input_unique {d d' : Input} (h : d.tokens = d'.tokens) : d = d' := by
  cases d with
  | assign t ht m hm v =>
    cases d' with
    | assign t' ht' m' hm' v' =>
      obtain ⟨rfl, h₁⟩ := List.cons.inj h
      obtain ⟨rfl, h₂⟩ := List.cons.inj h₁
      rw [sum_tokens_inj h₂]
    | sum v' =>
      exact absurd hm (v'.not_assign m ((show v'.tokens = _ from h.symm) ▸
        List.mem_cons_of_mem _ List.mem_cons_self))
    | assignTo l' m' hm' v' hn' =>
      rw [show l'.tokens ++ m' :: v'.tokens = t :: m :: v.tokens from h.symm] at hn'
      exact absurd ⟨ht, hm⟩ hn'
  | sum v =>
    cases d' with
    | assign t' ht' m' hm' v' =>
      exact absurd hm' (v.not_assign m' ((show v.tokens = _ from h) ▸
        List.mem_cons_of_mem _ List.mem_cons_self))
    | sum v' => rw [sum_tokens_inj h]
    | assignTo l' m' hm' v' hn' =>
      exact absurd hm' (v.not_assign m' ((show v.tokens = _ from h) ▸
        List.mem_append_right _ List.mem_cons_self))
  | assignTo l m hm v hn =>
    cases d' with
    | assign t' ht' m' hm' v' =>
      rw [show l.tokens ++ m :: v.tokens = t' :: m' :: v'.tokens from h] at hn
      exact absurd ⟨ht', hm'⟩ hn
    | sum v' =>
      exact absurd hm (v'.not_assign m ((show v'.tokens = _ from h.symm) ▸
        List.mem_append_right _ List.mem_cons_self))
    | assignTo l' m' hm' v' hn' =>
      obtain ⟨rfl, h₁⟩ := sum_unique l l' (stops_assign hm _) (stops_assign hm' _) h
      obtain ⟨rfl, h₂⟩ := List.cons.inj h₁
      obtain rfl := sum_tokens_inj h₂
      rfl

end ExactCalc.Grammar
