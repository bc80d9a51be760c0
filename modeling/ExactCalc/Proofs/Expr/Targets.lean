/-
  ExactCalc.Proofs.Expr.Targets — what an accepted input assigns (see
  `ExactCalc.Expr.Evaluation`).

  Only an input that starts with a name and an assignment sign changes the table. What
  stands before an assignment sign otherwise becomes a name as well, but no variable can
  have it: a valid name that starts where a token starts is that token
  (`checkName_sourceOf`).
-/

import ExactCalc.Expr.Evaluation
import ExactCalc.Proofs.Expr.Stuck

namespace ExactCalc

/-! ## Names -/

namespace Variables

theorem exists_checkName_error {name : String} (h : isName name.toList = false) :
    ∃ cause, checkName name = .error cause := by
  unfold checkName
  split
  · exact ⟨_, rfl⟩
  · rw [if_neg (by rw [h]; decide)]
    exact ⟨_, rfl⟩

/-- A valid name is a letter with characters of names after it, and perhaps one line break. -/
theorem exists_of_isName {cs : List Char} (h : isName cs = true) :
    ∃ c tail, cs = c :: tail ∧ c.isAlpha = true ∧
      (tail.dropWhile Token.isNameChar = [] ∨ tail.dropWhile Token.isNameChar = ['\n']) := by
  cases cs with
  | nil => cases h
  | cons c tail =>
    simp only [isName, Bool.and_eq_true, Bool.or_eq_true, List.isEmpty_iff, beq_iff_eq] at h
    exact ⟨c, tail, rfl, h⟩

theorem isName_of_checkName {name : String} (h : checkName name = .ok ()) :
    isName name.toList = true := by
  cases hn : isName name.toList with
  | true => rfl
  | false =>
    obtain ⟨cause, hcause⟩ := exists_checkName_error hn
    cases hcause.symm.trans h

/-- A valid name is of characters that no other one stands for. -/
theorem not_mem_of_isName {cs : List Char} (h : isName cs = true) : '\uFFFD' ∉ cs := by
  obtain ⟨c, tail, rfl, hc, htail⟩ := exists_of_isName h
  intro hmem
  rw [← List.takeWhile_append_dropWhile (p := Token.isNameChar) (l := tail), ← List.cons_append,
    List.mem_append, List.mem_cons] at hmem
  rcases hmem with (rfl | hmem) | hmem
  · exact absurd hc (by decide)
  · exact absurd (List.mem_takeWhile_imp hmem) (by decide)
  · rcases htail with htail | htail
    · rw [htail] at hmem
      cases hmem
    · rw [htail] at hmem
      exact absurd (List.mem_singleton.mp hmem) (by decide)

end Variables

namespace Grammar

open Token (Laid Stands)

variable {text : List Char} {first : Token} {more : List Token}

/-- What tokens cover, when it starts with a letter: the first token is the identifier that starts
there, and the text goes on behind it. -/
theorem exists_of_sourceOf {last : Token} (h : Stands text first) {c : Char} {tail : List Char}
    (hc : c.isAlpha = true)
    (hcs : (text.drop first.start).take (last.stop - first.start) = c :: tail) :
    first.kind = .identifier ∧ ∃ word rest, word.all Token.isNameChar = true ∧
      text.drop first.stop = rest ∧ (∀ x ∈ rest.head?, Token.isNameChar x = false) ∧
      first.stop = first.start + 1 + word.length ∧
      tail = (word ++ rest).take (last.stop - first.start - 1) := by
  cases hd : text.drop first.start with
  | nil =>
    rw [hd, List.take_nil] at hcs
    cases hcs
  | cons d rest =>
    obtain ⟨k, hk⟩ : ∃ k, last.stop - first.start = k + 1 := by
      cases hk : last.stop - first.start with
      | zero =>
        rw [hk, List.take_zero] at hcs
        cases hcs
      | succ k => exact ⟨k, rfl⟩
    rw [hd, hk, List.take_succ_cons] at hcs
    obtain ⟨rfl, rfl⟩ := List.cons.inj hcs
    have hlexeme := h.lexeme
    rw [hd, Token.lexeme?_of_isAlpha hc] at hlexeme
    obtain ⟨hkind, htext⟩ := Prod.mk.inj (Option.some.inj hlexeme)
    have hstop := h.stop
    rw [← htext, List.length_cons] at hstop
    refine ⟨hkind.symm, rest.takeWhile Token.isNameChar, rest.dropWhile Token.isNameChar,
      List.all_takeWhile, ?_, fun x hx => ?_, by omega, ?_⟩
    · have hdrop : text.drop first.stop = (text.drop first.start).drop
          ((rest.takeWhile Token.isNameChar).length + 1) := by
        rw [List.drop_drop, hstop]
      rw [hdrop, hd, List.drop_succ_cons]
      conv => lhs; arg 2; rw [← List.takeWhile_append_dropWhile (p := Token.isNameChar) (l := rest)]
      exact List.drop_left
    · have hnot := List.head?_dropWhile_not Token.isNameChar rest
      rw [hx] at hnot
      exact hnot
    · rw [List.takeWhile_append_dropWhile, hk, Nat.add_sub_cancel]

/-- Where a valid name covers tokens, it covers just one, and that is an identifier. -/
theorem eq_nil_of_isName (h : Laid text (first :: more))
    (hname : Variables.isName (sourceOf text (first :: more)).toList = true) :
    more = [] ∧ first.kind = .identifier := by
  obtain ⟨last, hlast⟩ : ∃ last, (first :: more).getLast? = some last := ⟨_, List.getLast?_cons⟩
  have hsource : (sourceOf text (first :: more)).toList =
      (text.drop first.start).take (last.stop - first.start) := by
    simp only [sourceOf, hlast, List.head?_cons, String.toList_ofList]
  rw [hsource] at hname
  obtain ⟨c, tail, hcs, hc, htail⟩ := Variables.exists_of_isName hname
  obtain ⟨hkind, word, rest, hword, hrest, hhead, hstop, rfl⟩ :=
    exists_of_sourceOf (h.stands first List.mem_cons_self) hc hcs
  refine ⟨?_, hkind⟩
  cases more with
  | nil => rfl
  | cons second more =>
    -- the last token stands behind the first one, so the name goes on there
    have hmem : last ∈ second :: more := by
      rw [List.getLast?_cons_cons] at hlast
      exact List.mem_of_getLast? hlast
    have hbehind : first.stop ≤ last.start := (List.pairwise_cons.mp h.apart).1 last hmem
    have hstands := h.stands last (List.mem_cons_of_mem _ hmem)
    obtain ⟨d, after, hd, hlt⟩ := hstands.exists_cons
    obtain ⟨gap, hgap⟩ := Nat.exists_eq_add_of_le hbehind
    rw [hgap, ← List.drop_drop, hrest] at hd
    cases rest with
    | nil =>
      rw [List.drop_nil] at hd
      cases hd
    | cons x rest =>
      obtain ⟨k, hk⟩ : ∃ k, last.stop - first.start - 1 = word.length + (k + 1) :=
        ⟨last.stop - first.stop - 1, by omega⟩
      have hx : Token.isNameChar x = false := hhead x rfl
      rw [hk, List.take_length_add_append, List.take_succ_cons,
        List.dropWhile_append_of_pos (List.all_eq_true.mp hword), List.dropWhile_cons,
        if_neg (by rw [hx]; decide)] at htail
      -- so all that can be there is one line break, but no token starts at that
      rcases htail with htail | htail
      · cases htail
      · obtain ⟨rfl, hnil⟩ := List.cons.inj htail
        have hzero : gap = 0 := by
          rcases List.take_eq_nil_iff.mp hnil with hk' | rfl
          · omega
          · cases gap with
            | zero => rfl
            | succ gap =>
              rw [List.drop_succ_cons, List.drop_nil] at hd
              cases hd
        subst hzero
        have hlexeme := hstands.lexeme
        rw [hgap, Nat.add_zero, hrest, Token.lexeme?_lineBreak] at hlexeme
        cases hlexeme

/-- What stands before an assignment sign is no name for a variable, unless it is one identifier. -/
theorem checkName_sourceOf {ts rest : List Token} {mark : Token} (h : Laid text (ts ++ mark :: rest))
    (hne : ts ≠ []) (hmark : mark.kind = .assign) (hn : ¬ StartsWithTarget (ts ++ mark :: rest)) :
    ∃ cause, Variables.checkName (sourceOf text ts) = .error cause := by
  apply Variables.exists_checkName_error
  apply Bool.eq_false_iff.mpr
  intro hname
  obtain ⟨first, more, rfl⟩ := List.exists_cons_of_ne_nil hne
  have hlaid : Laid text (first :: more) :=
    ⟨fun t ht => h.stands t (List.mem_append_left _ ht), (List.pairwise_append.mp h.apart).1⟩
  obtain ⟨rfl, hkind⟩ := eq_nil_of_isName hlaid hname
  exact hn ⟨hkind, hmark⟩

end Grammar

/-! ## Trees of sums -/

/-- Whether the expression is an assignment. -/
def Expr.IsAssignment : Expr → Prop
  | .assign _ _ => True
  | _ => False

namespace Grammar

open ExactCalc.Expr (IsAssignment)

theorem not_isAssignment_withSigns {e : Expr} (h : ¬ e.IsAssignment) (signs : List Token) :
    ¬ (withSigns signs e).IsAssignment := by
  cases signs with
  | nil => exact h
  | cons t signs => exact id

theorem not_isAssignment_withMark (mark : Token) (left right : Expr) :
    ¬ (withMark mark left right).IsAssignment := by
  unfold withMark
  split
  · exact id
  · exact id

theorem Factors.not_isAssignment_onto : ∀ (f : Factors) {left : Expr}, ¬ left.IsAssignment →
    ¬ (f.onto left).IsAssignment
  | .none, _, h => h
  | .cons _ _ _ more, _, _ => more.not_isAssignment_onto id

theorem Summands.not_isAssignment_onto : ∀ (s : Summands) {left : Expr}, ¬ left.IsAssignment →
    ¬ (s.onto left).IsAssignment
  | .none, _, h => h
  | .cons _ _ _ more, _, _ => more.not_isAssignment_onto id

mutual

theorem Sum.not_isAssignment : ∀ s : Sum, ¬ s.tree.IsAssignment
  | .of first more => more.not_isAssignment_onto first.not_isAssignment

theorem Product.not_isAssignment : ∀ p : Product, ¬ p.tree.IsAssignment
  | .of first more => more.not_isAssignment_onto first.not_isAssignment

theorem Power.not_isAssignment : ∀ p : Power, ¬ p.tree.IsAssignment
  | .plain signs base => not_isAssignment_withSigns base.not_isAssignment signs.val
  | .marked _ _ mark _ right => not_isAssignment_withMark mark _ right.tree
  | .rooted signs _ _ _ => not_isAssignment_withSigns id signs.val

theorem Atom.not_isAssignment : ∀ a : Atom, ¬ a.tree.IsAssignment
  | .number _ _ => id
  | .name _ _ _ => id
  | .group _ _ inner _ _ => inner.not_isAssignment

end

end Grammar

/-! ## Tables after an input -/

namespace Expr

open Grammar

variable {vars vars' : Variables} {v : Number}

/-- Nothing but an assignment can change the table. -/
theorem evaluate_eq_of_not_isAssignment {e : Expr} (h : ¬ e.IsAssignment) :
    evaluate vars e = (do return (← e.value vars, vars)) := by
  cases e with
  | assign name e => exact absurd trivial h
  | _ => rfl

/-- What an input with a value is: a tree with that value, or an assignment of it to a valid name. -/
theorem evaluate_ok_cases {e : Expr} (h : evaluate vars e = .ok (v, vars')) :
    (¬ e.IsAssignment ∧ e.value vars = .ok v ∧ vars' = vars) ∨
    ∃ name right, e = .assign name right ∧ right.value vars = .ok v ∧
      Variables.checkName name = .ok () ∧ vars' = vars.insert name v := by
  cases e with
  | assign name e =>
    obtain ⟨a, ha, h⟩ := bind_eq_ok.mp h
    split at h
    · rename_i table hset
      cases h
      obtain ⟨_, hname, hr⟩ := bind_eq_ok.mp hset
      cases hr
      exact Or.inr ⟨name, e, rfl, ha, hname, rfl⟩
    · cases h
  | _ =>
    obtain ⟨a, ha, hr⟩ := bind_eq_ok.mp h
    cases hr
    exact Or.inl ⟨id, ha, rfl⟩

theorem evaluate_of_not_isAssignment {e : Expr} (h : ¬ e.IsAssignment)
    (he : evaluate vars e = .ok (v, vars')) : vars' = vars := by
  obtain ⟨-, -, hsame⟩ | ⟨name, right, rfl, -⟩ := evaluate_ok_cases he
  · exact hsame
  · exact absurd trivial h

theorem evaluate_assign {name : String} {e : Expr}
    (he : evaluate vars (.assign name e) = .ok (v, vars')) :
    Variables.checkName name = .ok () ∧ vars' = vars.insert name v := by
  obtain ⟨hn, -⟩ | ⟨name', right, h, -, hname, hvars⟩ := evaluate_ok_cases he
  · exact absurd trivial hn
  · cases h
    exact ⟨hname, hvars⟩

/-- An accepted input scans to its end. Unless it starts with a name and an assignment sign, the
table is as before; if it does, the name has the value. -/
theorem table_of_accepted {text : String}
    (h : (parse text >>= evaluate vars) = .ok (v, vars')) :
    ∃ ts n, Token.scan text.toList = ⟨ts, .finished n⟩ ∧ ts ≠ [] ∧
      ((¬ StartsWithTarget ts ∧ vars' = vars) ∨
        ∃ target mark rest, ts = target :: mark :: rest ∧ target.kind = .identifier ∧
          mark.kind = .assign ∧ vars' = vars.insert target.text v) := by
  obtain ⟨e, he, h⟩ := bind_eq_ok.mp h
  obtain ⟨ts, n, hscan, d, rfl, rfl, -, -⟩ := derives_of_parse he
  have hlaid := Token.laid_scan text.toList
  rw [hscan] at hlaid
  refine ⟨d.tokens, n, hscan, d.tokens_ne_nil, ?_⟩
  cases d with
  | assign target ht mark hm value =>
    exact Or.inr ⟨target, mark, value.tokens, rfl, ht, hm, (evaluate_assign h).2⟩
  | sum value =>
    exact Or.inl ⟨not_startsWithTarget_of_sum value,
      evaluate_of_not_isAssignment value.not_isAssignment h⟩
  | assignTo target mark hm value hn =>
    obtain ⟨cause, hcause⟩ := checkName_sourceOf hlaid target.tokens_ne_nil hm hn
    rw [(evaluate_assign h).1] at hcause
    cases hcause

end Expr

end ExactCalc
