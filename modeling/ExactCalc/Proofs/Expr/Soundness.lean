/-
  ExactCalc.Proofs.Expr.Soundness — what the parser accepts, the grammar derives (see
  `ExactCalc.Expr.Parsing`): every reading leaves what follows a derivation that keeps
  the limits and stands for the tree that was read.

  The invariant goes through the levels from the inside out (`sound_levels`): with
  `limit` more constructs to open, `sum`, `power` and `signs` read derivations that nest
  at most `limit` deep. A power is read as far as it goes, which is why nothing that a
  prefix root has swallowed can be taken for the base of another power.
-/

import ExactCalc.Proofs.Expr.Reading

namespace ExactCalc.Expr

open Grammar

/-- Number tokens hold lexemes, as those of a scan do. -/
def Lexed (ts : List Token) : Prop :=
  ∀ t ∈ ts, t.kind = .number → Number.isLexeme t.text.toList = true

theorem Lexed.tail {t : Token} {ts : List Token} (h : Lexed (t :: ts)) : Lexed ts :=
  fun u hu => h u (List.mem_cons_of_mem _ hu)

theorem Lexed.right {l r : List Token} (h : Lexed (l ++ r)) : Lexed r :=
  fun u hu => h u (List.mem_append_right _ hu)

/-- `ts` starts with the tokens of a derivation that stands for `e` and keeps the limits. -/
structure Spans (limit : Nat) (tokens : List Token) (tree : Expr) (nesting : Nat)
    (ts : List Token) (e : Expr) (rest : List Token) : Prop where
  split : ts = tokens ++ rest
  same : tree = e
  nested : nesting ≤ limit
  shallow : e.depth ≤ maxNesting
  short : ShortLiterals tokens

def ReadsSum (limit : Nat) (read : List Token → Reading) : Prop :=
  ∀ {ts rest : List Token} {e : Expr}, Lexed ts → read ts = .ok (e, rest) →
    ∃ s : Grammar.Sum, Spans limit s.tokens s.tree s.nesting ts e rest

def ReadsProduct (limit : Nat) (read : List Token → Reading) : Prop :=
  ∀ {ts rest : List Token} {e : Expr}, Lexed ts → read ts = .ok (e, rest) →
    ∃ p : Product, Spans limit p.tokens p.tree p.nesting ts e rest

/-- A power, and no mark after it. -/
def ReadsPower (limit : Nat) (read : List Token → Reading) : Prop :=
  ∀ {ts rest : List Token} {e : Expr}, Lexed ts → read ts = .ok (e, rest) →
    ∃ p : Power, Spans limit p.tokens p.tree p.nesting ts e rest ∧ Stops IsMark rest

/-- Signs before an atom, or signs before a root; no mark follows the latter. -/
def ReadsSigns (limit : Nat) (read : List Token → Reading) : Prop :=
  ∀ {ts rest : List Token} {e : Expr}, Lexed ts → read ts = .ok (e, rest) →
    (∃ p : Power, Spans limit p.tokens p.tree p.nesting ts e rest ∧
      ((∃ signs base, p = .plain signs base) ∨
        (∃ signs mark isRoot radicand, p = .rooted signs mark isRoot radicand) ∧ Stops IsMark rest))

structure Sound (limit : Nat) (l : Levels) : Prop where
  sum : ReadsSum limit l.sum
  power : ReadsPower limit l.power
  signs : ReadsSigns limit l.signs

/-- What a nested construct may call keeps one level less. -/
def SoundInside (limit : Nat) (inner : Option Levels) : Prop :=
  ∀ l, inner = some l → ∃ k, limit = k + 1 ∧ Sound k l

theorem one_le_maxNesting : 1 ≤ maxNesting := by decide

theorem shortLiterals_append {l r : List Token} (hl : ShortLiterals l) (hr : ShortLiterals r) :
    ShortLiterals (l ++ r) :=
  fun t ht => (List.mem_append.mp ht).elim (hl t) (hr t)

theorem shortLiterals_cons {t : Token} {ts : List Token} (ht : t.kind ≠ .number)
    (h : ShortLiterals ts) : ShortLiterals (t :: ts) := by
  intro u hu hk
  rcases List.mem_cons.mp hu with rfl | hu
  · exact absurd hk ht
  · exact h u hu hk

/-! ## Atoms -/

section

variable {n limit : Nat} {inner : Option Levels}

theorem atom_of_number {t : Token} {ts : List Token} {e : Expr} (hl : Lexed (t :: ts))
    (hk : t.kind = .number) (h : number t = .ok e) :
    ∃ a : Atom, Spans limit a.tokens a.tree a.nesting (t :: ts) e ts := by
  unfold number at h
  cases hv : Number.ofLiteral t.text.toList with
  | ok v =>
    rw [hv] at h
    cases h
    obtain ⟨hshort, rfl⟩ := (Number.ofLiteral_eq_ok_iff (hl t List.mem_cons_self hk)).mp hv
    refine ⟨.number t hk, ⟨rfl, rfl, Nat.zero_le _, one_le_maxNesting, ?_⟩⟩
    intro u hu _
    rw [List.mem_singleton.mp hu]
    exact hshort
  | error f =>
    rw [hv] at h
    split at h
    all_goals simp_all

theorem atom_of_parenthesis (hin : SoundInside limit inner) {t : Token} {ts rest : List Token}
    {e : Expr} (hl : Lexed (t :: ts)) (hk : t.kind = .openParen)
    (h : parenthesis (.finished n) inner t ts = .ok (e, rest)) :
    ∃ a : Atom, Spans limit a.tokens a.tree a.nesting (t :: ts) e rest := by
  simp only [parenthesis, bind_eq_ok, opened_eq_ok_iff, peek_finished] at h
  obtain ⟨l, hi, ⟨e', mid⟩, hs, c, hc, h⟩ := h
  cases hc
  obtain ⟨k, rfl, hsound⟩ := hin l hi
  obtain ⟨s, hspan⟩ := hsound.sum hl.tail hs
  split at h
  · rename_i hclose
    obtain ⟨c, after, rfl⟩ := exists_cons_of_next (by rw [hclose]; decide)
    cases h
    refine ⟨.group t hk s c hclose, ⟨?_, hspan.same, Nat.succ_le_succ hspan.nested,
      hspan.shallow, ?_⟩⟩
    · rw [hspan.split]
      simp only [Atom.tokens, List.cons_append, List.append_assoc, List.nil_append]
      rfl
    · refine shortLiterals_cons (by rw [hk]; decide) (shortLiterals_append hspan.short ?_)
      exact shortLiterals_cons (by rw [show c.kind = .closeParen from hclose]; decide)
        fun _ h => absurd h List.not_mem_nil
  · cases h
  · cases h

theorem atom_of_primary (hin : SoundInside limit inner) {ts rest : List Token} {e : Expr}
    (hl : Lexed ts) (hroot : ¬ IsRootMark (next n ts))
    (h : primary (.finished n) inner ts = .ok (e, rest)) :
    ∃ a : Atom, Spans limit a.tokens a.tree a.nesting ts e rest := by
  simp only [primary, peek_finished, bind_eq_ok] at h
  obtain ⟨t, ht, h⟩ := h
  cases ht
  cases ts with
  | nil => cases h
  | cons t ts =>
    simp only [next_cons, List.tail_cons] at h hroot
    split at h
    · rename_i hk
      obtain ⟨e', he, h⟩ := bind_eq_ok.mp h
      cases h
      exact atom_of_number hl hk he
    · rename_i hk
      cases h
      exact ⟨.name t hk fun hw => hroot (Or.inr hw), ⟨rfl, rfl, Nat.zero_le _, one_le_maxNesting,
        shortLiterals_cons (by rw [hk]; decide) fun _ h => absurd h List.not_mem_nil⟩⟩
    · rename_i hk
      exact atom_of_parenthesis hin hl hk h
    · cases h
    · cases h
    · cases h

/-! ## Signs and powers -/

theorem not_number_of_kind {t : Token} (h : t.kind = .operator ∨ t.kind = .identifier) :
    t.kind ≠ .number := by
  rcases h with h | h
  · rw [h]; decide
  · rw [h]; decide

theorem not_finish_of_kind {t : Token} (h : t.kind = .operator ∨ t.kind = .identifier) :
    t.kind ≠ .finish := by
  rcases h with h | h
  · rw [h]; decide
  · rw [h]; decide

/-- Signs with one more in front. -/
def consSign (t : Token) (h : IsSign t) (signs : Signs) : Signs :=
  ⟨t :: signs.val, fun u hu => (List.mem_cons.mp hu).elim (fun e => e ▸ h) (signs.property u)⟩

/-- A sign before signs and an atom, or before signs and a root, is one more of them. -/
theorem spans_consSign {t : Token} {ts rest : List Token} {p : Power} {operand : Expr}
    (hsign : IsSign t) (hp : Spans limit p.tokens p.tree p.nesting ts operand rest)
    (hd : (Expr.signed (Sign.ofSymbol t.text) operand).depth ≤ maxNesting)
    (hshape : (∃ signs base, p = .plain signs base) ∨
      (∃ signs mark isRoot radicand, p = .rooted signs mark isRoot radicand) ∧ Stops IsMark rest) :
    ∃ p' : Power, Spans (limit + 1) p'.tokens p'.tree p'.nesting (t :: ts)
        (.signed (Sign.ofSymbol t.text) operand) rest ∧
      ((∃ signs base, p' = .plain signs base) ∨
        (∃ signs mark isRoot radicand, p' = .rooted signs mark isRoot radicand) ∧
          Stops IsMark rest) := by
  have hnum := not_number_of_kind (Or.inl hsign.1)
  have hnest := hp.nested
  rcases hshape with ⟨ss, base, rfl⟩ | ⟨⟨ss, mark, hm, radicand, rfl⟩, hstop⟩
  · refine ⟨.plain (consSign t hsign ss) base, ⟨?_, ?_, ?_, hd, shortLiterals_cons hnum hp.short⟩,
      Or.inl ⟨_, _, rfl⟩⟩
    · rw [hp.split]; rfl
    · rw [← hp.same]; rfl
    · simp only [Power.nesting, consSign, List.length_cons] at hnest ⊢
      omega
  · refine ⟨.rooted (consSign t hsign ss) mark hm radicand,
      ⟨?_, ?_, ?_, hd, shortLiterals_cons hnum hp.short⟩, Or.inr ⟨⟨_, _, _, _, rfl⟩, hstop⟩⟩
    · rw [hp.split]; rfl
    · rw [← hp.same]; rfl
    · simp only [Power.nesting, consSign, List.length_cons] at hnest ⊢
      omega

theorem reads_signs (hin : SoundInside limit inner) : ReadsSigns limit (signs (.finished n) inner) := by
  intro ts rest e hl h
  simp only [signs, peek_finished, bind_eq_ok] at h
  obtain ⟨t, ht, h⟩ := h
  cases ht
  cases hs : sign? (next n ts) with
  | some s =>
    rw [hs] at h
    obtain ⟨hsign, rfl⟩ := sign?_eq_some_iff.mp hs
    obtain ⟨t, ts, rfl⟩ := exists_cons_of_next (not_finish_of_kind (Or.inl hsign.1))
    simp only [next_cons, bind_eq_ok, opened_eq_ok_iff] at h
    obtain ⟨l, hi, ⟨operand, mid⟩, hr, e', he, h⟩ := h
    cases h
    obtain ⟨hd, rfl⟩ := node_eq_ok_iff.mp he
    obtain ⟨k, rfl, hsound⟩ := hin l hi
    obtain ⟨p, hp, hshape⟩ := hsound.signs hl.tail hr
    exact spans_consSign hsign hp hd hshape
  | none =>
    rw [hs] at h
    by_cases hroot : isRootMark (next n ts) = true
    · have hm := isRootMark_iff.mp hroot
      obtain ⟨t, ts, rfl⟩ := exists_cons_of_next (not_finish_of_kind hm.kind)
      rw [next_cons] at h hroot hm
      simp only [hroot, if_true, bind_eq_ok, opened_eq_ok_iff] at h
      obtain ⟨l, hi, ⟨radicand, mid⟩, hr, e', he, h⟩ := h
      cases h
      obtain ⟨hd, rfl⟩ := node_eq_ok_iff.mp he
      obtain ⟨k, rfl, hsound⟩ := hin l hi
      obtain ⟨p, hp, hstop⟩ := hsound.power hl.tail hr
      refine ⟨.rooted ⟨[], nofun⟩ t hm p, ⟨?_, ?_, ?_, hd,
        shortLiterals_cons (not_number_of_kind hm.kind) hp.short⟩, Or.inr ⟨⟨_, _, _, _, rfl⟩, hstop⟩⟩
      · rw [show ts = _ from hp.split]
        rfl
      · rw [← hp.same]
        rfl
      · have := hp.nested
        simp only [Power.nesting, List.length_nil]
        omega
    · simp only [hroot] at h
      obtain ⟨a, ha⟩ := atom_of_primary hin hl (fun hr => hroot (isRootMark_iff.mpr hr)) h
      exact ⟨.plain ⟨[], nofun⟩ a, ⟨ha.split, ha.same, by simpa [Power.nesting] using ha.nested,
        ha.shallow, ha.short⟩, Or.inl ⟨_, _, rfl⟩⟩

theorem reads_power (hin : SoundInside limit inner) : ReadsPower limit (power (.finished n) inner) := by
  intro ts rest e hl h
  simp only [power, peek_finished, bind_eq_ok] at h
  obtain ⟨⟨base, mid⟩, hb, t, ht, h⟩ := h
  replace ht : next n mid = t := Except.ok.inj ht
  obtain ⟨b, hspan, hshape⟩ := reads_signs hin hl hb
  by_cases hm : IsMark t
  · obtain ⟨mark, mid, rfl⟩ := exists_cons_of_next (ht ▸ not_finish_of_kind hm.kind)
    obtain rfl : mark = t := ht
    simp only [isMark_iff.mpr hm, if_true, bind_eq_ok, opened_eq_ok_iff] at h
    obtain ⟨l, hi, ⟨right, mid'⟩, hr, e', he, h⟩ := h
    cases h
    obtain ⟨hd, rfl⟩ := node_eq_ok_iff.mp he
    rw [withMark_eq hm] at hd ⊢
    obtain ⟨k, rfl, hsound⟩ := hin l hi
    rcases hshape with ⟨ss, a, rfl⟩ | ⟨-, hstop⟩
    · rw [hspan.split] at hl
      obtain ⟨p, hp, hstop⟩ := hsound.power hl.right.tail hr
      refine ⟨.marked ss a mark hm p, ⟨?_, ?_, ?_, hd, ?_⟩, hstop⟩
      · rw [hspan.split, show mid = _ from hp.split]
        simp only [Power.tokens, List.append_assoc, List.cons_append]
      · rw [← hspan.same, ← hp.same]
        rfl
      · have h1 := hspan.nested
        have h2 := hp.nested
        simp only [Power.nesting] at h1 ⊢
        omega
      · have hs := hspan.short
        simp only [Power.tokens] at hs ⊢
        rw [← List.append_assoc]
        exact shortLiterals_append hs
          (shortLiterals_cons (not_number_of_kind hm.kind) hp.short)
    · exact absurd hm (hstop mark rfl)
  · have hm' : (isSymbol t "^" || isRootMark t) = false :=
      Bool.eq_false_iff.mpr fun hc => hm (isMark_iff.mp hc)
    simp only [hm', Bool.false_eq_true, if_false] at h
    cases h
    exact ⟨b, hspan, stops_of_next (ht ▸ hm)⟩

/-! ## Products and sums -/

theorem factors_of_chain {operand : List Token → Reading} (hop : ReadsPower limit operand)
    {left e : Expr} {ts rest : List Token} (h : Chain productOperator? operand left ts e rest) :
    Lexed ts → left.depth ≤ maxNesting →
      ∃ f : Factors, Spans limit f.tokens (f.onto left) f.nesting ts e rest := by
  induction h with
  | stop left ts => exact fun _ hd => ⟨.none, ⟨rfl, rfl, Nat.zero_le _, hd, nofun⟩⟩
  | step ht hr hd _ ih =>
    intro hl _
    obtain ⟨hprod, rfl⟩ := productOperator?_eq_some_iff.mp ht
    obtain ⟨p, hp, -⟩ := hop hl.tail hr
    have hmid := hl.tail
    rw [hp.split] at hmid
    obtain ⟨f, hf⟩ := ih hmid.right hd
    refine ⟨.cons _ hprod p f, ⟨?_, ?_, Nat.max_le.mpr ⟨hp.nested, hf.nested⟩, hf.shallow, ?_⟩⟩
    · rw [hp.split, hf.split]
      simp only [Factors.tokens, List.cons_append, List.append_assoc]
    · rw [← hf.same, ← hp.same]
      rfl
    · exact shortLiterals_cons (by rw [hprod.1]; decide) (shortLiterals_append hp.short hf.short)

theorem reads_product {bound : Nat} (hin : SoundInside limit inner) :
    ReadsProduct limit (product (.finished n) bound inner) := by
  intro ts rest e hl h
  simp only [product, bind_eq_ok] at h
  obtain ⟨⟨left, mid⟩, hleft, h⟩ := h
  dsimp only at h
  obtain ⟨p, hp, -⟩ := reads_power hin hl hleft
  have hmid := hl
  rw [hp.split] at hmid
  obtain ⟨f, hf⟩ := factors_of_chain (reads_power hin) (chain_of_ok rfl bound h) hmid.right hp.shallow
  refine ⟨.of p f, ⟨?_, ?_, Nat.max_le.mpr ⟨hp.nested, hf.nested⟩, hf.shallow,
    shortLiterals_append hp.short hf.short⟩⟩
  · rw [hp.split, hf.split]
    simp only [Product.tokens, List.append_assoc]
  · rw [← hf.same, ← hp.same]
    rfl

theorem summands_of_chain {operand : List Token → Reading} (hop : ReadsProduct limit operand)
    {left e : Expr} {ts rest : List Token} (h : Chain sumOperator? operand left ts e rest) :
    Lexed ts → left.depth ≤ maxNesting →
      ∃ s : Summands, Spans limit s.tokens (s.onto left) s.nesting ts e rest := by
  induction h with
  | stop left ts => exact fun _ hd => ⟨.none, ⟨rfl, rfl, Nat.zero_le _, hd, nofun⟩⟩
  | step ht hr hd _ ih =>
    intro hl _
    obtain ⟨hsum, rfl⟩ := sumOperator?_eq_some_iff.mp ht
    obtain ⟨p, hp⟩ := hop hl.tail hr
    have hmid := hl.tail
    rw [hp.split] at hmid
    obtain ⟨s, hs⟩ := ih hmid.right hd
    refine ⟨.cons _ hsum p s, ⟨?_, ?_, Nat.max_le.mpr ⟨hp.nested, hs.nested⟩, hs.shallow, ?_⟩⟩
    · rw [hp.split, hs.split]
      simp only [Summands.tokens, List.cons_append, List.append_assoc]
    · rw [← hs.same, ← hp.same]
      rfl
    · exact shortLiterals_cons (by rw [hsum.1]; decide) (shortLiterals_append hp.short hs.short)

theorem reads_sum {bound : Nat} (hin : SoundInside limit inner) :
    ReadsSum limit (sum (.finished n) bound inner) := by
  intro ts rest e hl h
  simp only [sum, bind_eq_ok] at h
  obtain ⟨⟨left, mid⟩, hleft, h⟩ := h
  dsimp only at h
  obtain ⟨p, hp⟩ := reads_product hin hl hleft
  have hmid := hl
  rw [hp.split] at hmid
  obtain ⟨s, hs⟩ :=
    summands_of_chain (reads_product hin) (chain_of_ok rfl bound h) hmid.right hp.shallow
  refine ⟨.of p s, ⟨?_, ?_, Nat.max_le.mpr ⟨hp.nested, hs.nested⟩, hs.shallow,
    shortLiterals_append hp.short hs.short⟩⟩
  · rw [hp.split, hs.split]
    simp only [Sum.tokens, List.append_assoc]
  · rw [← hs.same, ← hp.same]
    rfl

/-! ## All levels -/

theorem sound_levelsOver {bound : Nat} (hin : SoundInside limit inner) :
    Sound limit (levelsOver (.finished n) bound inner) :=
  ⟨reads_sum hin, reads_power hin, reads_signs hin⟩

theorem sound_levels (n bound : Nat) : ∀ limit, Sound limit (levels (.finished n) bound limit) := by
  intro limit
  induction limit with
  | zero => exact sound_levelsOver nofun
  | succ limit ih =>
    refine sound_levelsOver fun l hl => ⟨limit, rfl, ?_⟩
    cases hl
    exact ih

end

end ExactCalc.Expr
