/-
  ExactCalc.Proofs.Expr.Acceptance — the parser accepts exactly the inputs of the
  grammar that keep the limits, and gives the tree of their derivation (`Parser.parse`;
  see `ExactCalc.Expr.Parsing`).

  Whole inputs differ in how they start and in what follows the first sum; the sums
  themselves are `sum_levels_iff`, both ways.
-/

import ExactCalc.Proofs.Expr.Completeness
import ExactCalc.Proofs.Expr.Soundness
import ExactCalc.Proofs.Expr.Unambiguity
import ExactCalc.Proofs.Token

namespace ExactCalc.Expr

open Grammar

/-! ## Sums -/

theorem lexed_of_scanned {ts : List Token} (h : ∀ t ∈ ts, t.Scanned) : Lexed ts :=
  fun t ht => (h t ht).lexeme

theorem literals_of_short {ts : List Token} (hl : Lexed ts) (hs : ShortLiterals ts) : Literals ts :=
  fun t ht hk => (Number.ofLiteral_eq_ok_iff (hl t ht hk)).mpr ⟨hs t ht hk, rfl⟩

/-- What is read as a sum is one, and the tokens after it are left. -/
theorem sum_of_levels {n bound : Nat} {ts rest : List Token} {e : Expr} (hl : Lexed ts)
    (h : (levels (.finished n) bound maxNesting).sum ts = .ok (e, rest)) :
    ∃ s : Grammar.Sum, ts = s.tokens ++ rest ∧ s.tree = e ∧ s.Fits ∧ ShortLiterals s.tokens := by
  obtain ⟨s, hs⟩ := (sound_levels n bound maxNesting).sum hl h
  refine ⟨s, hs.split, hs.same, ⟨hs.nested, ?_⟩, hs.short⟩
  rw [hs.same]
  exact hs.shallow

/-- A sum that keeps the limits is read, in front of anything that does not carry it on. -/
theorem levels_of_sum (n bound : Nat) {s : Grammar.Sum} (rest : List Token) (hl : Lexed s.tokens)
    (hf : s.Fits) (hs : ShortLiterals s.tokens) (hb : s.tokens.length ≤ bound)
    (hstop : Stops CarriesSum rest) :
    (levels (.finished n) bound maxNesting).sum (s.tokens ++ rest) = .ok (s.tree, rest) := by
  rw [levels_eq]
  exact sum_complete s ⟨hf.1, hf.2, literals_of_short hl hs, hb⟩ hstop

/-! ## Starts and ends of inputs -/

section

variable {ending : Token.Ending} {ts : List Token} {t : Token}

/-- What comes next and is no finish, is the first token. -/
theorem exists_cons_of_peek (h : peek ending ts = .ok t) (hk : t.kind ≠ .finish) :
    ∃ rest, ts = t :: rest := by
  cases ts with
  | cons u ts =>
    cases h
    exact ⟨ts, rfl⟩
  | nil =>
    cases ending with
    | finished n =>
      cases h
      exact absurd rfl hk
    | stuck error => cases h

/-- The finish comes behind the last token. -/
theorem finish_of_peek (hts : ∀ t ∈ ts, t.Scanned) (h : peek ending ts = .ok t)
    (hk : t.kind = .finish) : ts = [] ∧ ∃ n, ending = .finished n ∧ t = Token.finish n := by
  cases ts with
  | cons u ts =>
    cases h
    exact absurd hk (hts t List.mem_cons_self).notFinish
  | nil =>
    cases ending with
    | finished n =>
      cases h
      exact ⟨rfl, n, rfl, rfl⟩
    | stuck error => cases h

/-- Nothing follows only where the tokens and the text are used up. -/
theorem finished_of_expectEnd (hts : ∀ t ∈ ts, t.Scanned) (h : expectEnd ending ts = .ok ()) :
    ts = [] ∧ ∃ n, ending = .finished n := by
  obtain ⟨t, ht, h⟩ := bind_eq_ok.mp h
  split at h
  · rename_i hk
    obtain ⟨hnil, n, hend, -⟩ := finish_of_peek hts ht hk
    exact ⟨hnil, n, hend⟩
  · cases h
  · cases h

end

theorem exists_of_startsWithTarget : ∀ {ts : List Token}, StartsWithTarget ts →
    ∃ t u rest, ts = t :: u :: rest ∧ t.kind = .identifier ∧ u.kind = .assign
  | [], h => h.elim
  | [_], h => h.elim
  | t :: u :: rest, h => ⟨t, u, rest, rfl, h⟩

/-- Where an input starts with a name and an assignment sign, that name is found. -/
theorem target?_of_target {n : Nat} {t u : Token} {ts : List Token} (ht : t.kind = .identifier)
    (hu : u.kind = .assign) : target? (.finished n) (t :: u :: ts) = .ok (some t.text) := by
  refine bind_eq_ok.mpr ⟨t, rfl, ?_⟩
  rw [if_pos ht]
  refine bind_eq_ok.mpr ⟨u, rfl, ?_⟩
  rw [if_pos hu]
  rfl

theorem target?_of_not_startsWithTarget {n : Nat} {ts : List Token} (h : ¬ StartsWithTarget ts) :
    target? (.finished n) ts = .ok none := by
  refine bind_eq_ok.mpr ⟨next n ts, peek_finished n ts, ?_⟩
  by_cases hk : (next n ts).kind = .identifier
  · rw [if_pos hk]
    refine bind_eq_ok.mpr ⟨next n ts.tail, peek_finished n _, ?_⟩
    rw [if_neg]
    · rfl
    · intro hk'
      obtain ⟨t, rest, rfl⟩ := exists_cons_of_next (by rw [hk]; decide)
      rw [List.tail_cons] at hk'
      obtain ⟨u, rest, rfl⟩ := exists_cons_of_next (by rw [hk']; decide)
      exact h ⟨hk, hk'⟩
  · rw [if_neg hk]
    rfl

/-- What was read stands in the text from its first token to the end of its last one. -/
theorem covered_append {text : List Char} {ts rest : List Token} (h : ts ≠ []) :
    covered text (ts ++ rest) rest = sourceOf text ts := by
  obtain ⟨t, ts, rfl⟩ := List.exists_cons_of_ne_nil h
  unfold covered sourceOf
  have hlen : (t :: ts ++ rest).length - rest.length = (t :: ts).length := by
    rw [List.length_append, Nat.add_sub_cancel]
  rw [hlen, List.take_left]
  rfl

theorem not_startsWithTarget_of_sum (s : Grammar.Sum) : ¬ StartsWithTarget s.tokens := by
  intro h
  obtain ⟨t, u, ts, hts, -, hu⟩ := exists_of_startsWithTarget h
  refine s.not_assign u ?_ hu
  rw [hts]
  exact List.mem_cons_of_mem _ List.mem_cons_self

/-! ## Inputs and what is behind them -/

/-- An input up to what stands behind it: its tree, in which the text may give an assignment its name,
and the tokens that are left. -/
def input (ending : Token.Ending) (ts : List Token) :
    Except Failure ((List Char → Expr) × List Token) := do
  let sum := (levels ending (ts.length + 1) maxNesting).sum
  let first ← peek ending ts
  if first.kind = .finish then reject .empty first.start
  else
    match ← target? ending ts with
    | some name =>
      let (value, rest) ← sum (ts.drop 2)
      return (fun _ => .assign name value, rest)
    | none =>
      let (e, rest) ← sum ts
      let t ← peek ending rest
      if t.kind = .assign then
        let (value, rest') ← sum rest.tail
        return (fun text => .assign (covered text ts rest) value, rest')
      else return (fun _ => e, rest)

/-- A text is an input with nothing behind it. -/
theorem ofScan_eq (text : List Char) (ts : List Token) (ending : Token.Ending) :
    ofScan text ⟨ts, ending⟩ = do
      let (tree, rest) ← input ending ts
      expectEnd ending rest
      return tree text := by
  unfold ofScan input
  dsimp only
  rw [bind_assoc]
  refine bind_congr fun first => ?_
  split
  · rfl
  rw [bind_assoc]
  refine bind_congr fun target => ?_
  cases target with
  | some name =>
    dsimp only
    rw [bind_assoc]
    rfl
  | none =>
    dsimp only
    rw [bind_assoc]
    refine bind_congr fun r => ?_
    rw [bind_assoc]
    refine bind_congr fun t => ?_
    split
    · rw [bind_assoc]
      rfl
    · rfl

theorem startsWithTarget_append {l : List Token} (h : StartsWithTarget l) (r : List Token) :
    StartsWithTarget (l ++ r) := by
  obtain ⟨t, u, l, rfl, hk, hu⟩ := exists_of_startsWithTarget h
  exact ⟨hk, hu⟩

section

variable {text : List Char} {n : Nat} {ts rest : List Token} {e : Expr}

/-- What is read of an input has a derivation, and the tokens behind it are left. -/
theorem derives_of_input {tree : List Char → Expr} (hts : ∀ t ∈ ts, t.Scanned)
    (h : input (.finished n) ts = .ok (tree, rest)) :
    ∃ d : Input, ts = d.tokens ++ rest ∧ d.Fits ∧ ShortLiterals d.tokens ∧
      ∀ text, d.tree text = tree text := by
  have hl := lexed_of_scanned hts
  simp only [input, peek_finished, bind_eq_ok] at h
  obtain ⟨first, hfirst, h⟩ := h
  cases hfirst
  by_cases hempty : (next n ts).kind = .finish
  · rw [if_pos hempty] at h
    cases h
  rw [if_neg hempty] at h
  obtain ⟨target, ht, h⟩ := bind_eq_ok.mp h
  by_cases hstart : StartsWithTarget ts
  · obtain ⟨t, u, ts, rfl, hk, hu⟩ := exists_of_startsWithTarget hstart
    rw [target?_of_target hk hu] at ht
    cases ht
    simp only [List.drop_succ_cons, List.drop_zero, bind_eq_ok] at h
    obtain ⟨⟨value, rest'⟩, hv, h⟩ := h
    cases h
    obtain ⟨s, rfl, rfl, hfit, hshort⟩ := sum_of_levels hl.tail.tail hv
    refine ⟨.assign t hk u hu s, rfl, hfit, ?_, fun _ => rfl⟩
    refine shortLiterals_cons (by rw [hk]; decide) (shortLiterals_cons ?_ hshort)
    rw [hu]; decide
  · rw [target?_of_not_startsWithTarget hstart] at ht
    cases ht
    simp only [bind_eq_ok] at h
    obtain ⟨⟨left, mid⟩, hleft, t, ht, h⟩ := h
    replace ht : next n mid = t := Except.ok.inj ht
    obtain ⟨l, rfl, rfl, hfitl, hshortl⟩ := sum_of_levels hl hleft
    split at h
    · rename_i hassign
      obtain ⟨m, mid, rfl⟩ := exists_cons_of_next (n := n) (by rw [ht, hassign]; decide)
      obtain rfl : m = t := ht
      simp only [List.tail_cons, bind_eq_ok] at h
      obtain ⟨⟨value, rest'⟩, hv, h⟩ := h
      cases h
      obtain ⟨s, rfl, rfl, hfit, hshort⟩ := sum_of_levels hl.right.tail hv
      have hsplit : l.tokens ++ m :: (s.tokens ++ rest') = (l.tokens ++ m :: s.tokens) ++ rest' := by
        rw [List.append_assoc, List.cons_append]
      have hname : ¬ StartsWithTarget (l.tokens ++ m :: s.tokens) := fun hstart' =>
        hstart (hsplit ▸ startsWithTarget_append hstart' rest')
      refine ⟨.assignTo l m hassign s hname, hsplit, ⟨hfitl, hfit⟩, ?_, fun text => ?_⟩
      · exact shortLiterals_append hshortl (shortLiterals_cons (by rw [hassign]; decide) hshort)
      · dsimp only
        rw [covered_append l.tokens_ne_nil]
        rfl
    · cases h
      exact ⟨.sum l, rfl, hfitl, hshortl, fun _ => rfl⟩

/-! ## Whole inputs -/

/-- A derivation that the parser finds for the tokens. -/
def Derives (text : List Char) (ts : List Token) (e : Expr) : Prop :=
  ∃ d : Input, d.tokens = ts ∧ d.tree text = e ∧ d.Fits ∧ ShortLiterals ts

theorem derives_of_ofScan (hts : ∀ t ∈ ts, t.Scanned)
    (h : ofScan text ⟨ts, .finished n⟩ = .ok e) : Derives text ts e := by
  rw [ofScan_eq] at h
  obtain ⟨⟨tree, rest⟩, hinput, h⟩ := bind_eq_ok.mp h
  obtain ⟨_, hend, h⟩ := bind_eq_ok.mp h
  cases h
  obtain ⟨d, rfl, hfit, hshort, htree⟩ := derives_of_input hts hinput
  obtain ⟨rfl, -⟩ := finished_of_expectEnd (fun t ht => hts t (List.mem_append_right _ ht)) hend
  rw [List.append_nil]
  exact ⟨d, rfl, htree text, hfit, hshort⟩

theorem next_ne_finish (hts : ∀ t ∈ ts, t.Scanned) (hne : ts ≠ []) :
    (next n ts).kind ≠ .finish := by
  obtain ⟨t, ts, rfl⟩ := List.exists_cons_of_ne_nil hne
  exact (hts t List.mem_cons_self).notFinish

theorem ofScan_of_derives (hts : ∀ t ∈ ts, t.Scanned) (h : Derives text ts e) :
    ofScan text ⟨ts, .finished n⟩ = .ok e := by
  obtain ⟨d, rfl, rfl, hfit, hshort⟩ := h
  have hl := lexed_of_scanned hts
  have hfirst : (next n d.tokens).kind ≠ .finish := next_ne_finish hts d.tokens_ne_nil
  refine bind_eq_ok.mpr ⟨_, peek_finished n _, ?_⟩
  rw [if_neg hfirst]
  cases d with
  | assign t ht m hm v =>
    have hv := levels_of_sum n ((t :: m :: v.tokens).length + 1) []
      hl.tail.tail hfit (fun u hu => hshort u (by simp [Input.tokens, hu]))
      (by simp only [List.length_cons]; omega) nofun
    rw [List.append_nil] at hv
    refine bind_eq_ok.mpr ⟨_, target?_of_target ht hm, bind_eq_ok.mpr ⟨_, hv, ?_⟩⟩
    exact bind_eq_ok.mpr ⟨(), rfl, rfl⟩
  | sum v =>
    have hv := levels_of_sum n (v.tokens.length + 1) [] hl hfit hshort
      (Nat.le_succ _) nofun
    rw [List.append_nil] at hv
    refine bind_eq_ok.mpr ⟨_, target?_of_not_startsWithTarget (not_startsWithTarget_of_sum v),
      bind_eq_ok.mpr ⟨_, hv, bind_eq_ok.mpr ⟨_, rfl, ?_⟩⟩⟩
    exact bind_eq_ok.mpr ⟨(), rfl, rfl⟩
  | assignTo l m hm v hn =>
    have hleft := levels_of_sum n ((l.tokens ++ m :: v.tokens).length + 1) (m :: v.tokens)
      (fun u hu => hl u (List.mem_append_left _ hu)) hfit.1
      (fun u hu => hshort u (List.mem_append_left _ hu))
      (by rw [List.length_append]; omega) (stops_assign hm v.tokens)
    have hv := levels_of_sum n ((l.tokens ++ m :: v.tokens).length + 1) []
      hl.right.tail hfit.2 (fun u hu => hshort u (List.mem_append_right _ (List.mem_cons_of_mem _ hu)))
      (by rw [List.length_append, List.length_cons]; omega) nofun
    rw [List.append_nil] at hv
    refine bind_eq_ok.mpr ⟨_, target?_of_not_startsWithTarget hn,
      bind_eq_ok.mpr ⟨_, hleft, bind_eq_ok.mpr ⟨m, rfl, ?_⟩⟩⟩
    rw [if_pos hm]
    refine bind_eq_ok.mpr ⟨_, hv, bind_eq_ok.mpr ⟨(), rfl, ?_⟩⟩
    rw [Input.tokens, covered_append l.tokens_ne_nil]
    rfl

end

/-! ## The parser -/

/-- A text that scans to its end is parsed to the trees that its tokens derive. -/
theorem parse_iff_derives {text : String} {ts : List Token} {n : Nat}
    (hscan : Token.scan text.toList = ⟨ts, .finished n⟩) {tree : Expr} :
    parse text = .ok tree ↔ Derives text.toList ts tree := by
  have hts : ∀ t ∈ ts, t.Scanned := by
    have h := Token.scanned_scan text.toList
    rwa [hscan] at h
  unfold parse
  rw [hscan]
  exact ⟨derives_of_ofScan hts, ofScan_of_derives hts⟩

/-- A text that scans to its end is parsed to a tree exactly when its tokens have a derivation that
keeps the limits and stands for that tree, and there is no second derivation. -/
theorem parse_eq_ok_iff {text : String} {ts : List Token} {n : Nat}
    (hscan : Token.scan text.toList = ⟨ts, .finished n⟩) :
    (∀ tree, parse text = .ok tree ↔
      ∃ d : Input, d.tokens = ts ∧ d.tree text.toList = tree ∧ d.Fits ∧ ShortLiterals ts) ∧
    ∀ d d' : Input, d.tokens = ts → d'.tokens = ts → d = d' :=
  ⟨fun _ => parse_iff_derives hscan, fun _ _ h h' => input_unique (h.trans h'.symm)⟩

/-- A sign binds tighter than the power after it, and a root in the exponent takes what is left. -/
theorem parse_negated_base : parse "-2^√x" =
    .ok (.binary .pow (.signed .minus (.literal (.exact 2))) (.root two (.var "x"))) := by
  have hscan : Token.scan "-2^√x".toList =
      ⟨[⟨.operator, "-", 0, 1⟩, ⟨.number, "2", 1, 2⟩, ⟨.operator, "^", 2, 3⟩, ⟨.operator, "√", 3, 4⟩,
        ⟨.identifier, "x", 4, 5⟩], .finished 5⟩ := by decide +kernel
  refine ((parse_eq_ok_iff hscan).1 _).mpr ⟨.sum (.of (.of (.marked ⟨[⟨.operator, "-", 0, 1⟩], ?_⟩
    (.number ⟨.number, "2", 1, 2⟩ rfl) ⟨.operator, "^", 2, 3⟩ (Or.inl ⟨rfl, rfl⟩)
    (.rooted ⟨[], nofun⟩ ⟨.operator, "√", 3, 4⟩ (Or.inl ⟨rfl, rfl⟩)
      (.plain ⟨[], nofun⟩ (.name ⟨.identifier, "x", 4, 5⟩ rfl ?_)))) .none) .none), rfl, ?_, ?_, ?_⟩
  · intro t ht
    rw [List.mem_singleton.mp ht]
    exact ⟨rfl, Or.inr rfl⟩
  · rintro ⟨-, h⟩
    revert h
    decide
  · have h2 : Number.denoted "2".toList = 2 := by decide +kernel
    simp only [Input.tree, Sum.tree, Product.tree, Power.tree, Atom.tree, Factors.onto,
      Summands.onto, withSigns, withMark, List.foldr, h2]
    rfl
  · exact ⟨by decide, by decide +kernel⟩
  · unfold ShortLiterals
    decide +kernel

end ExactCalc.Expr
