/-
  ExactCalc.Proofs.Expr.Blame — what the parser blames when it fails (`Parser`,
  `ParseError`; see `ExactCalc.Expr.Parsing`).

  `Blames` lists the failures of the rules with the tokens they point at. Each rule
  starts where an operand has to come and reads balanced tokens (`blaming_levels`). So a
  text is rejected as empty, or one of its tokens is blamed, or a token behind a whole
  input (`parse_failure`).

  That tells, for a parenthesis that is called unmatched, whether it is. An opening one
  is. A closing one is as well, or it stands directly behind a token that asks for an
  operand (`unmatched_parenthesis`), and then it may have its partner
  (`paired_parenthesis_blamed`).
-/

import ExactCalc.Proofs.Expr.Lookahead
import ExactCalc.Proofs.Expr.Pairing

namespace ExactCalc.Expr

open Grammar

/-! ## Failures and the tokens they point at -/

/-- An operand has to come after the token. -/
def AsksOperand (t : Token) : Prop := t.kind = .operator ∨ IsRootWord t ∨ t.kind = .openParen

/-- What the rules fail with over the tokens of a text, and where. -/
inductive Blames (ending : Token.Ending) (all : List Token) : Failure → Prop
  | character {error : LexError} : ending = .stuck error → Blames ending all (.rejected (.lex error))
  | literal {t : Token} : t ∈ all → t.kind = .number →
    Blames ending all (.rejected (.eval .literalTooLong (some t.start)))
  | tooDeep {t : Token} : t ∈ all → AsksOperand t →
    Blames ending all (.rejected (.parse .tooDeep t.start))
  | missingClose {t : Token} : t.kind = .openParen → t ∈ unpaired all →
    Blames ending all (.rejected (.parse .missingClose t.start))
  | strayClose {before after : List Token} {t : Token} : all = before ++ t :: after →
    t.kind = .closeParen → (t ∈ unpaired all ∨ ∃ u ∈ before.getLast?, AsksOperand u) →
    Blames ending all (.rejected (.parse .strayClose t.start))
  | unexpected {t : Token} {e : ParseError} : t ∈ all → e.kind = .unexpectedToken →
    Blames ending all (.rejected (.parse e t.start))
  | operandMissing {n : Nat} : ending = .finished n →
    Blames ending all (.rejected (.parse .operandMissing n))

/-- Nothing stands before, or a token after which an operand has to come. -/
def Awaits (front : List Token) : Prop := ∀ t ∈ front.getLast?, AsksOperand t

theorem awaits_nil : Awaits [] := nofun

theorem awaits_concat {t : Token} (h : AsksOperand t) (front : List Token) : Awaits (front ++ [t]) := by
  intro u hu
  rw [List.getLast?_concat] at hu
  cases hu
  exact h

theorem asksOperand_of_kind {t : Token} (h : t.kind = .operator) : AsksOperand t := Or.inl h

theorem asksOperand_of_isRootMark {t : Token} (h : IsRootMark t) : AsksOperand t :=
  h.elim (fun h => Or.inl h.1) fun h => Or.inr (Or.inl h)

theorem asksOperand_of_isMark {t : Token} (h : IsMark t) : AsksOperand t :=
  h.elim (fun h => Or.inl h.1) asksOperand_of_isRootMark

/-- With balanced tokens in front, the blame stays where it is. -/
theorem Blames.behind {ending : Token.Ending} {all part : List Token} {f : Failure}
    (h : Blames ending all f) (hpart : Balanced part) : Blames ending (part ++ all) f := by
  cases h with
  | character hstuck => exact .character hstuck
  | literal ht hk => exact .literal (List.mem_append_right _ ht) hk
  | tooDeep ht hask => exact .tooDeep (List.mem_append_right _ ht) hask
  | missingClose ho ht => exact .missingClose ho (by rwa [hpart.unpaired_append])
  | @strayClose before after t hall hc ht =>
    have hsplit : part ++ all = (part ++ before) ++ t :: after := by rw [hall, List.append_assoc]
    refine .strayClose hsplit hc ?_
    rw [hpart.unpaired_append]
    refine ht.imp id fun ⟨u, hu, hask⟩ => ⟨u, ?_, hask⟩
    rw [List.getLast?_append, Option.mem_def.mp hu]
    rfl
  | unexpected ht hkind => exact .unexpected (List.mem_append_right _ ht) hkind
  | operandMissing hend => exact .operandMissing hend

/-! ## The rules -/

/-- What has been read is balanced. -/
def Leaves (ts rest : List Token) : Prop := ∃ part, ts = part ++ rest ∧ Balanced part

theorem Leaves.refl (ts : List Token) : Leaves ts ts := ⟨[], rfl, balanced_nil⟩

theorem Leaves.trans {ts mid rest : List Token} (h : Leaves ts mid) (h' : Leaves mid rest) :
    Leaves ts rest := by
  obtain ⟨part, rfl, hpart⟩ := h
  obtain ⟨part', rfl, hpart'⟩ := h'
  exact ⟨part ++ part', (List.append_assoc _ _ _).symm, hpart.append hpart'⟩

theorem Leaves.cons {t : Token} {ts rest : List Token} (h : Leaves ts rest)
    (ho : t.kind ≠ .openParen) (hc : t.kind ≠ .closeParen) : Leaves (t :: ts) rest := by
  obtain ⟨part, rfl, hpart⟩ := h
  exact ⟨t :: part, rfl, hpart.cons ho hc⟩

/-- Operators and words are no parentheses. -/
theorem Leaves.cons_of_kind {t : Token} {ts rest : List Token} (h : Leaves ts rest)
    (hk : t.kind = .operator ∨ t.kind = .identifier) : Leaves (t :: ts) rest := by
  rcases hk with hk | hk
  · exact h.cons (by rw [hk]; decide) (by rw [hk]; decide)
  · exact h.cons (by rw [hk]; decide) (by rw [hk]; decide)

/-- Reads from a place where an operand has to come, and blames where it fails. -/
def Blaming (ending : Token.Ending) (all : List Token) (read : List Token → Reading) : Prop :=
  ∀ {front ts : List Token}, all = front ++ ts → Awaits front →
    Ends (Blames ending all) (Leaves ts ·.2) (read ts)

/-- An operand behind a token that asks for it. -/
theorem ends_behind {ending : Token.Ending} {all front ts : List Token} {t : Token}
    {read : List Token → Reading} (h : Blaming ending all read) (hsplit : all = front ++ t :: ts)
    (hask : AsksOperand t) : Ends (Blames ending all) (Leaves ts ·.2) (read ts) :=
  h (List.append_cons .. ▸ hsplit) (awaits_concat hask front)

structure Levels.Blaming (ending : Token.Ending) (all : List Token) (l : Levels) : Prop where
  sum : Expr.Blaming ending all l.sum
  power : Expr.Blaming ending all l.power
  signs : Expr.Blaming ending all l.signs

section

variable {ending : Token.Ending} {all front ts : List Token} {inner : Option Levels}

theorem blames_peek (ending : Token.Ending) (all ts : List Token) :
    FailsWith (Blames ending all) (peek ending ts) := by
  cases ts with
  | cons t ts => exact failsWith_ok t
  | nil =>
    cases ending with
    | finished n => exact failsWith_ok _
    | stuck error => exact failsWith_error (.character rfl)

theorem blames_node {t : Token} (ht : t ∈ all) (hask : AsksOperand t) (e : Expr) :
    FailsWith (Blames ending all) (node t e) := by
  unfold node
  split
  · exact failsWith_error (.tooDeep ht hask)
  · exact failsWith_ok _

/-- A node at the end of a reading. -/
theorem blaming_node {t : Token} (ht : t ∈ all) (hask : AsksOperand t) (e : Expr) {rest : List Token}
    (h : Leaves ts rest) :
    Ends (Blames ending all) (Leaves ts ·.2) (do return (← node t e, rest) : Reading) :=
  (blames_node ht hask e).bind_ends fun _ _ => ends_ok h

theorem blaming_opened {t : Token} (ht : t ∈ all) (hask : AsksOperand t)
    (hin : ∀ l, inner = some l → l.Blaming ending all) {f : Levels → Reading}
    (hf : ∀ l, l.Blaming ending all → Ends (Blames ending all) (Leaves ts ·.2) (f l)) :
    Ends (Blames ending all) (Leaves ts ·.2) (opened t inner >>= f) := by
  cases inner with
  | none => exact ends_error (.tooDeep ht hask)
  | some l => exact hf l (hin l rfl)

theorem blames_number {t : Token} (ht : t ∈ all) (hk : t.kind = .number)
    (h : Number.isLexeme t.text.toList = true) : FailsWith (Blames ending all) (number t) := by
  unfold number
  rw [Number.ofLiteral_of_isLexeme h]
  by_cases hl : (Number.digitsOf t.text.toList).length ≤ maxLiteralDigits
  · rw [if_pos hl]
    exact failsWith_ok _
  · rw [if_neg hl]
    exact failsWith_error (.literal ht hk)

theorem blaming_chain {operator? : Token → Option Operator} {operand : List Token → Reading}
    (hkind : ∀ {t op}, operator? t = some op → t.kind = .operator)
    (hoperand : Blaming ending all operand) (bound : Nat) (left : Expr) {front ts : List Token}
    (hsplit : all = front ++ ts) :
    Ends (Blames ending all) (Leaves ts ·.2) (chain ending operator? operand bound left ts) := by
  induction bound generalizing left front ts with
  | zero => exact ends_ok (Leaves.refl ts)
  | succ bound ih =>
    refine (blames_peek ending all ts).bind_ends fun t ht => ?_
    cases hop : operator? t with
    | none => exact ends_ok (Leaves.refl ts)
    | some op =>
      have hk := hkind hop
      have hask := asksOperand_of_kind hk
      obtain ⟨ts, rfl⟩ := exists_cons_of_peek ht (not_finish_of_kind (Or.inl hk))
      have ht : t ∈ all := hsplit ▸ List.mem_append_right _ List.mem_cons_self
      refine (ends_behind hoperand hsplit hask).bind fun r hr =>
        (blames_node ht hask _).bind_ends fun e _ => ?_
      obtain ⟨part, hpart, hbalanced⟩ : Leaves ts r.2 := hr
      have hall' : all = front ++ t :: part ++ r.2 := by
        rw [hsplit, hpart, List.append_assoc, List.cons_append]
      exact (ih e hall').imp (fun _ hf => hf) fun r' hr' =>
        Leaves.trans (Leaves.cons_of_kind ⟨part, hpart, hbalanced⟩ (Or.inl hk)) hr'

/-- A chain behind its first operand. -/
theorem blaming_of_chain {read operand : List Token → Reading}
    {operator? : Token → Option Operator}
    (hkind : ∀ {t op}, operator? t = some op → t.kind = .operator)
    (hread : Blaming ending all read) (hoperand : Blaming ending all operand) (bound : Nat) :
    Blaming ending all fun ts =>
      read ts >>= fun r => chain ending operator? operand bound r.1 r.2 := by
  intro front ts hsplit hfront
  refine (hread hsplit hfront).bind fun r hr => ?_
  obtain ⟨part, hpart, hbalanced⟩ : Leaves ts r.2 := hr
  have hall' : all = front ++ part ++ r.2 := by rw [hsplit, hpart, List.append_assoc]
  exact (blaming_chain hkind hoperand bound r.1 hall').imp (fun _ hf => hf) fun r' hr' =>
    Leaves.trans ⟨part, hpart, hbalanced⟩ hr'

variable (hall : ∀ t ∈ all, t.Scanned) (hin : ∀ l, inner = some l → l.Blaming ending all)

include hall hin

theorem blaming_parenthesis {t : Token} (hk : t.kind = .openParen) (hsplit : all = front ++ t :: ts) :
    Ends (Blames ending all) (Leaves (t :: ts) ·.2) (parenthesis ending inner t ts) := by
  have hmem : ∀ u ∈ t :: ts, u ∈ all := fun u hu => hsplit ▸ List.mem_append_right _ hu
  have hask : AsksOperand t := Or.inr (Or.inr hk)
  refine blaming_opened (hmem t List.mem_cons_self) hask hin fun l hl =>
    (ends_behind hl.sum hsplit hask).bind fun r hr => ?_
  obtain ⟨part, hpart, hbalanced⟩ := hr
  have hrest : ∀ u ∈ r.2, u ∈ all := fun u hu =>
    hmem u (List.mem_cons_of_mem _ (hpart ▸ List.mem_append_right _ hu))
  refine (blames_peek ending all r.2).bind_ends fun close hclose => ?_
  split
  · rename_i hck
    obtain ⟨rest, hr⟩ := exists_cons_of_peek hclose (by rw [hck]; decide)
    refine ends_ok ⟨t :: (part ++ [close]), ?_, hbalanced.group hk hck⟩
    rw [hpart, hr, List.cons_append, List.append_assoc]
    rfl
  · rename_i hck
    obtain ⟨hnil, -⟩ := finish_of_peek (fun u hu => hall u (hrest u hu)) hclose hck
    rw [hnil, List.append_nil] at hpart
    refine ends_error (.missingClose hk ?_)
    rw [hsplit]
    exact mem_unpaired_of_opening hk (hpart ▸ hbalanced) front []
  · rename_i hck hfinish
    obtain ⟨rest, hr⟩ := exists_cons_of_peek hclose hfinish
    exact ends_error (.unexpected (hrest close (hr ▸ List.mem_cons_self)) rfl)

theorem blaming_primary : Blaming ending all (primary ending inner) := by
  intro front ts hsplit hfront
  have hmem : ∀ u ∈ ts, u ∈ all := fun u hu => hsplit ▸ List.mem_append_right _ hu
  refine (blames_peek ending all ts).bind_ends fun t ht => ?_
  split
  · rename_i hk
    obtain ⟨ts, rfl⟩ := exists_cons_of_peek ht (by rw [hk]; decide)
    have hlexeme := (hall t (hmem t List.mem_cons_self)).lexeme hk
    exact (blames_number (hmem t List.mem_cons_self) hk hlexeme).bind_ends fun _ _ =>
      ends_ok ((Leaves.refl ts).cons (by rw [hk]; decide) (by rw [hk]; decide))
  · rename_i hk
    obtain ⟨ts, rfl⟩ := exists_cons_of_peek ht (by rw [hk]; decide)
    exact ends_ok ((Leaves.refl ts).cons_of_kind (Or.inr hk))
  · rename_i hk
    obtain ⟨ts, rfl⟩ := exists_cons_of_peek ht (by rw [hk]; decide)
    exact blaming_parenthesis hall hin hk hsplit
  · rename_i hk
    obtain ⟨ts, rfl⟩ := exists_cons_of_peek ht (by rw [hk]; decide)
    refine ends_error (.strayClose hsplit hk ?_)
    cases hlast : front.getLast? with
    | some u => exact Or.inr ⟨u, rfl, hfront u hlast⟩
    | none =>
      obtain rfl := List.getLast?_eq_none_iff.mp hlast
      rw [hsplit]
      exact Or.inl (mem_unpaired_of_closing hk balanced_nil ts)
  · rename_i hk
    obtain ⟨-, n, hend, rfl⟩ := finish_of_peek (fun u hu => hall u (hmem u hu)) ht hk
    exact ends_error (.operandMissing hend)
  · rename_i hfinish
    obtain ⟨ts, rfl⟩ := exists_cons_of_peek ht hfinish
    exact ends_error (.unexpected (hmem t List.mem_cons_self) rfl)

theorem blaming_signs : Blaming ending all (signs ending inner) := by
  intro front ts hsplit hfront
  have hmem : ∀ u ∈ ts, u ∈ all := fun u hu => hsplit ▸ List.mem_append_right _ hu
  refine (blames_peek ending all ts).bind_ends fun t ht => ?_
  cases hs : sign? t with
  | some s =>
    obtain ⟨hsign, -⟩ := sign?_eq_some_iff.mp hs
    have hask := asksOperand_of_kind hsign.1
    obtain ⟨ts, rfl⟩ := exists_cons_of_peek ht (not_finish_of_kind (Or.inl hsign.1))
    have ht := hmem t List.mem_cons_self
    exact blaming_opened ht hask hin fun l hl =>
      (ends_behind hl.signs hsplit hask).bind fun r hr =>
        blaming_node ht hask _ (hr.cons_of_kind (Or.inl hsign.1))
  | none =>
    dsimp only
    split
    · rename_i hroot
      have hmark := isRootMark_iff.mp hroot
      have hask := asksOperand_of_isRootMark hmark
      obtain ⟨ts, rfl⟩ := exists_cons_of_peek ht (not_finish_of_kind hmark.kind)
      have ht := hmem t List.mem_cons_self
      exact blaming_opened ht hask hin fun l hl =>
        (ends_behind hl.power hsplit hask).bind fun r hr =>
          blaming_node ht hask _ (hr.cons_of_kind hmark.kind)
    · exact blaming_primary hall hin hsplit hfront

theorem blaming_power : Blaming ending all (power ending inner) := by
  intro front ts hsplit hfront
  refine (blaming_signs hall hin hsplit hfront).bind fun r hr =>
    (blames_peek ending all r.2).bind_ends fun t ht => ?_
  split
  · rename_i hmark
    have hmark := isMark_iff.mp hmark
    have hask := asksOperand_of_isMark hmark
    obtain ⟨rest, hrest⟩ := exists_cons_of_peek ht (not_finish_of_kind hmark.kind)
    obtain ⟨part, hpart, hbalanced⟩ := hr
    have hall' : all = front ++ part ++ t :: rest := by
      rw [hsplit, hpart, hrest, List.append_assoc]
    have ht : t ∈ all := hall' ▸ List.mem_append_right _ List.mem_cons_self
    rw [hrest]
    exact blaming_opened ht hask hin fun l hl =>
      (ends_behind hl.power hall' hask).bind fun r' hr' =>
        blaming_node ht hask _ (Leaves.trans ⟨part, hrest ▸ hpart, hbalanced⟩
          (hr'.cons_of_kind hmark.kind))
  · exact ends_ok hr

theorem blaming_product (bound : Nat) : Blaming ending all (product ending bound inner) :=
  blaming_of_chain (fun h => (productOperator?_eq_some_iff.mp h).1.1) (blaming_power hall hin)
    (blaming_power hall hin) bound

theorem blaming_sum (bound : Nat) : Blaming ending all (sum ending bound inner) :=
  blaming_of_chain (fun h => (sumOperator?_eq_some_iff.mp h).1.1) (blaming_product hall hin bound)
    (blaming_product hall hin bound) bound

omit hin in
theorem blaming_levels (bound limit : Nat) : (levels ending bound limit).Blaming ending all := by
  have wrapped : ∀ {inner : Option Levels}, (∀ l, inner = some l → l.Blaming ending all) →
      (levelsOver ending bound inner).Blaming ending all := fun hin =>
    ⟨blaming_sum hall hin bound, blaming_power hall hin, blaming_signs hall hin⟩
  induction limit with
  | zero => exact wrapped nofun
  | succ limit ih =>
    refine wrapped fun l hl => ?_
    cases hl
    exact ih

end

/-! ## Inputs -/

section

variable {ending : Token.Ending} {ts : List Token}

/-- A sum that starts an input, or comes behind an assignment sign. -/
theorem blaming_start (hts : ∀ t ∈ ts, t.Scanned) (bound : Nat) :
    Ends (Blames ending ts) (Leaves ts ·.2) ((levels ending bound maxNesting).sum ts) :=
  (blaming_levels hts bound maxNesting).sum (List.nil_append ts).symm awaits_nil

/-- The same behind tokens that are balanced. -/
theorem blaming_behind {part rest : List Token} (hsplit : ts = part ++ rest)
    (hpart : Balanced part) (hts : ∀ t ∈ ts, t.Scanned) (bound : Nat) :
    Ends (Blames ending ts) (Leaves ts ·.2) ((levels ending bound maxNesting).sum rest) := by
  subst hsplit
  exact (blaming_start (fun t ht => hts t (List.mem_append_right _ ht)) bound).imp
    (fun _ hf => hf.behind hpart) fun _ hr => Leaves.trans ⟨part, rfl, hpart⟩ hr

theorem blames_target? (ending : Token.Ending) (ts : List Token) :
    FailsWith (Blames ending ts) (target? ending ts) := by
  refine (blames_peek ending ts ts).bind fun t => ?_
  split
  · exact (blames_peek ending ts ts.tail).bind fun _ => failsWith_ok _
  · exact failsWith_ok _

/-- An input without tokens is empty. Of any other a failure blames one of its tokens, and what is
read is balanced. -/
theorem blaming_input (ending : Token.Ending) (hts : ∀ t ∈ ts, t.Scanned) :
    (ts = [] ∧ ∃ n, ending = .finished n ∧
      input ending ts = .error (.rejected (.parse .empty n))) ∨
    Ends (Blames ending ts) (Leaves ts ·.2) (input ending ts) := by
  by_cases hempty : ts = [] ∧ ∃ n, ending = .finished n
  · obtain ⟨rfl, n, rfl⟩ := hempty
    exact Or.inl ⟨rfl, n, rfl, rfl⟩
  refine Or.inr ((blames_peek ending ts ts).bind_ends fun first hfirst => ?_)
  have hkind : first.kind ≠ .finish := by
    intro hk
    obtain ⟨hnil, n, hend, -⟩ := finish_of_peek hts hfirst hk
    exact hempty ⟨hnil, n, hend⟩
  rw [if_neg hkind]
  refine (blames_target? ending ts).bind_ends fun target htarget => ?_
  cases target with
  | some name =>
    obtain ⟨t, u, ts, rfl, hk, hu⟩ := exists_of_startsWithTarget (startsWithTarget_of_target? htarget)
    have hpart : Balanced [t, u] :=
      (balanced_singleton (by rw [hu]; decide) (by rw [hu]; decide)).cons (by rw [hk]; decide)
        (by rw [hk]; decide)
    exact (blaming_behind rfl hpart hts _).bind fun r hr => ends_ok hr
  | none =>
    refine (blaming_start hts _).bind fun r hr =>
      (blames_peek ending ts r.2).bind_ends fun t ht => ?_
    split
    · rename_i hassign
      obtain ⟨rest, hrest⟩ := exists_cons_of_peek ht (by rw [hassign]; decide)
      obtain ⟨part, hpart, hbalanced⟩ : Leaves ts r.2 := hr
      have hsplit : ts = part ++ [t] ++ rest := by rw [hpart, hrest, List.append_assoc]; rfl
      have hbefore : Balanced (part ++ [t]) :=
        hbalanced.append (balanced_singleton (by rw [hassign]; decide) (by rw [hassign]; decide))
      rw [hrest]
      exact (blaming_behind hsplit hbefore hts _).bind fun r' hr' => ends_ok hr'
    · exact ends_ok hr

/-- Behind an input nothing may come. -/
theorem blames_expectEnd {part rest : List Token} (hsplit : ts = part ++ rest) (hpart : Balanced part)
    {f : Failure} (h : expectEnd ending rest = .error f) :
    Blames ending ts f ∨
    ∃ t after, rest = t :: after ∧ f = .rejected (.parse (.trailing t.text) t.start) := by
  rcases bind_eq_error.mp h with h | ⟨t, ht, h⟩
  · exact Or.inl (blames_peek ending ts rest f h)
  split at h
  · cases h
  · rename_i hk
    cases h
    obtain ⟨after, rfl⟩ := exists_cons_of_peek ht (by rw [hk]; decide)
    have hclosing := mem_unpaired_of_closing hk hpart after
    exact Or.inl (.strayClose hsplit hk (Or.inl (hsplit ▸ hclosing)))
  · rename_i hfinish _
    cases h
    obtain ⟨after, rfl⟩ := exists_cons_of_peek ht hfinish
    exact Or.inr ⟨t, after, rfl, rfl⟩

end

/-! ## Texts -/

/-- A text that is not parsed is empty, or a token of it is blamed, or a token behind an input. -/
theorem parse_failure {text : String} {f : Failure} (h : parse text = .error f) :
    let s := Token.scan text.toList
    (∃ n, s = ⟨[], .finished n⟩ ∧ f = .rejected (.parse .empty n)) ∨
    Blames s.ending s.tokens f ∨
    ∃ tree t after, input s.ending s.tokens = .ok (tree, t :: after) ∧
      f = .rejected (.parse (.trailing t.text) t.start) := by
  intro s
  have hts : ∀ t ∈ s.tokens, t.Scanned := Token.scanned_scan text.toList
  have h : ofScan text.toList ⟨s.tokens, s.ending⟩ = .error f := h
  rw [ofScan_eq] at h
  rcases blaming_input s.ending hts with ⟨hnil, n, hend, hempty⟩ | hinput
  · rw [hempty] at h
    cases h
    exact Or.inl ⟨n, congrArg₂ Token.Scan.mk hnil hend, rfl⟩
  refine Or.inr ?_
  rcases bind_eq_error.mp h with h | ⟨⟨tree, rest⟩, hr, h⟩
  · exact Or.inl (hinput.fails f h)
  obtain ⟨part, hpart, hbalanced⟩ := hinput.gives _ hr
  rcases bind_eq_error.mp h with h | ⟨_, -, h⟩
  · refine (blames_expectEnd hpart hbalanced h).imp id ?_
    rintro ⟨t, after, rfl, hf⟩
    exact ⟨tree, t, after, hr, hf⟩
  · cases h

/-- A parenthesis is called unmatched at the start of a token. If the token is an opening parenthesis,
it has no partner. If it is a closing one, it has none either, or an operand has to come in its place. -/
theorem unmatched_parenthesis {text : String} {e : ParseError} {p : Nat}
    (h : parse text = .error (.rejected (.parse e p))) (hkind : e.kind = .unmatchedParen) :
    let ts := (Token.scan text.toList).tokens
    ∃ before t after, ts = before ++ t :: after ∧ t.start = p ∧
      ((e = .missingClose ∧ t.kind = .openParen ∧ t ∈ unpaired ts) ∨
        (e = .strayClose ∧ t.kind = .closeParen ∧
          (t ∈ unpaired ts ∨ ∃ u ∈ before.getLast?, AsksOperand u))) := by
  intro ts
  rcases parse_failure h with ⟨n, -, hf⟩ | hblames | ⟨tree, t, after, -, hf⟩
  · cases hf
    cases hkind
  · cases hblames with
    | tooDeep => cases hkind
    | unexpected _ hother => cases hkind.symm.trans hother
    | operandMissing => cases hkind
    | missingClose ho ht =>
      obtain ⟨before, after, hsplit⟩ := List.append_of_mem (mem_of_mem_unpaired ht)
      exact ⟨before, _, after, hsplit, rfl, Or.inl ⟨rfl, ho, ht⟩⟩
    | strayClose hsplit hc ht => exact ⟨_, _, _, hsplit, rfl, Or.inr ⟨rfl, hc, ht⟩⟩
  · cases hf
    cases hkind

/-- One of two parentheses is closed, and the blame falls on the other one. -/
theorem unmatched_parenthesis_of_outer :
    let text := "2*(1+(3)"
    let ts := (Token.scan text.toList).tokens
    parse text = .error (.rejected (.parse .missingClose 2)) ∧
      ParseError.missingClose.kind = .unmatchedParen ∧
      ∃ before t after, ts = before ++ t :: after ∧ t.start = 2 ∧ t.kind = .openParen ∧
        t ∈ unpaired ts := by
  intro text ts
  have hparse : parse text = .error (.rejected (.parse .missingClose 2)) := by decide +kernel
  obtain ⟨before, t, after, hsplit, hstart, ⟨-, hk, ht⟩ | ⟨he, -⟩⟩ :=
    unmatched_parenthesis hparse rfl
  · exact ⟨hparse, rfl, before, t, after, hsplit, hstart, hk, ht⟩
  · cases he

/-- Two parentheses are partners and have nothing between them; the closing one is called unmatched. -/
theorem paired_parenthesis_blamed :
    parse "()" = .error (.rejected (.parse .strayClose 1)) ∧
      ParseError.strayClose.kind = .unmatchedParen ∧
      unpaired (Token.scan "()".toList).tokens = [] := by
  decide +kernel

end ExactCalc.Expr
