/-
  ExactCalc.Proofs.Expr.Lookahead — how far the parser looks (`Parser._peek`; see
  `ExactCalc.Expr.Parsing`).

  Two readings start with the same tokens, and the second one has more behind them. They
  are alike (`alike_input`): both fail in the same way, or both give the same tree and
  leave the same of those tokens. The one exception is a first reading that comes to the
  character where its scan got stuck. That holds of every parser in turn, as each goes
  on only behind a token that is no finish.

  So nothing behind the finish is read. The finish is not among the tokens of a scan; it
  is what `peek` gives when they are used up. Put at the end of them, with anything
  behind it, it changes nothing (`ofScan_behind_finish`).
-/

import ExactCalc.Proofs.Expr.Acceptance

namespace ExactCalc.Expr

open Grammar

/-! ## Readings with more behind them -/

/-- Behind the common tokens the second reader finds what the first one does, unless that is a character
where a scan got stuck. -/
def Continues (ending : Token.Ending) (after : List Token) (ending' : Token.Ending) : Prop :=
  ∀ t, peek ending [] = .ok t → peek ending' after = .ok t

theorem continues_stuck (error : LexError) (after : List Token) (ending' : Token.Ending) :
    Continues (.stuck error) after ending' := by
  intro t h
  cases h

theorem continues_finish (n : Nat) (more : List Token) (ending' : Token.Ending) :
    Continues (.finished n) (Token.finish n :: more) ending' := by
  intro t h
  cases h
  rfl

/-- The second reading is the first one, with tokens behind those that it leaves, which are no more
than `length`; where the first one gets stuck, it may be any. -/
inductive Alike {α : Type} (ending : Token.Ending) (after : List Token) (length : Nat) :
    Except Failure (α × List Token) → Except Failure (α × List Token) → Prop
  | stuck {error : LexError} (y : Except Failure (α × List Token)) : ending = .stuck error →
    Alike ending after length (.error (.rejected (.lex error))) y
  | error (f : Failure) : Alike ending after length (.error f) (.error f)
  | ok (a : α) {rest : List Token} : rest.length ≤ length →
    Alike ending after length (.ok (a, rest)) (.ok (a, rest ++ after))

section

variable {α β : Type} {ending ending' : Token.Ending} {after : List Token} {k l : Nat}
  {x y : Except Failure (α × List Token)}

theorem Alike.mono (h : Alike ending after k x y) (hkl : k ≤ l) : Alike ending after l x y := by
  cases h with
  | stuck y hstuck => exact .stuck y hstuck
  | error f => exact .error f
  | ok a hrest => exact .ok a (hrest.trans hkl)

theorem Alike.bind {f g : α × List Token → Except Failure (β × List Token)}
    (h : Alike ending after k x y)
    (hf : ∀ a rest, rest.length ≤ k → Alike ending after l (f (a, rest)) (g (a, rest ++ after))) :
    Alike ending after l (x >>= f) (y >>= g) := by
  cases h with
  | stuck y hstuck => exact .stuck _ hstuck
  | error e => exact .error e
  | ok a hrest => exact hf a _ hrest

/-- What goes on alike behind one computation, is alike. -/
theorem alike_bind {γ : Type} (x : Except Failure γ) {f g : γ → Except Failure (α × List Token)}
    (h : ∀ c, Alike ending after k (f c) (g c)) : Alike ending after k (x >>= f) (x >>= g) := by
  cases x with
  | error e => exact .error e
  | ok c => exact h c

theorem alike_peek (hc : Continues ending after ending') (ts : List Token)
    {f g : Token → Except Failure (α × List Token)}
    (h : ∀ t, peek ending ts = .ok t → Alike ending after k (f t) (g t)) :
    Alike ending after k (peek ending ts >>= f) (peek ending' (ts ++ after) >>= g) := by
  cases ts with
  | cons t ts => exact h t rfl
  | nil =>
    cases ending with
    | finished n =>
      rw [List.nil_append, hc (Token.finish n) rfl]
      exact h (Token.finish n) rfl
    | stuck error => exact .stuck _ rfl

/-- The node at the end of a reading. -/
theorem alike_node (t : Token) (e : Expr) {rest : List Token} (h : rest.length ≤ k) :
    Alike ending after k (do return (← node t e, rest)) (do return (← node t e, rest ++ after)) :=
  alike_bind _ fun e => .ok e h

end

/-! ## The rules -/

/-- Parsers that read alike, where they have fewer tokens than `bound`. -/
structure Levels.Alike (ending : Token.Ending) (after : List Token) (bound : Nat) (l l' : Levels) :
    Prop where
  sum : ∀ {ts : List Token}, ts.length < bound →
    Expr.Alike ending after ts.length (l.sum ts) (l'.sum (ts ++ after))
  power : ∀ {ts : List Token}, ts.length < bound →
    Expr.Alike ending after ts.length (l.power ts) (l'.power (ts ++ after))
  signs : ∀ {ts : List Token}, ts.length < bound →
    Expr.Alike ending after ts.length (l.signs ts) (l'.signs (ts ++ after))

section

variable {b : Nat} {after : List Token} {ending ending' : Token.Ending}
  {inner inner' : Option Levels} {ts : List Token}

theorem alike_opened (hin : Option.Rel (Levels.Alike ending after b) inner inner') (t : Token)
    {k : Nat} {f g : Levels → Reading}
    (hf : ∀ {l l'}, l.Alike ending after b l' → Alike ending after k (f l) (g l')) :
    Alike ending after k (opened t inner >>= f) (opened t inner' >>= g) := by
  cases hin with
  | none => exact .error _
  | some hl => exact hf hl

variable (hc : Continues ending after ending')

include hc

theorem alike_parenthesis (hin : Option.Rel (Levels.Alike ending after b) inner inner') (t : Token)
    (hb : ts.length < b) : Alike ending after ts.length (parenthesis ending inner t ts)
      (parenthesis ending' inner' t (ts ++ after)) := by
  refine alike_opened hin t fun hl => (hl.sum hb).bind fun e rest hrest =>
    alike_peek hc rest fun close hclose => ?_
  split
  · rename_i hk
    obtain ⟨rest, rfl⟩ := exists_cons_of_peek hclose (by rw [hk]; decide)
    exact .ok e (Nat.le_of_succ_le hrest)
  · exact .error _
  · exact .error _

theorem alike_primary (hin : Option.Rel (Levels.Alike ending after b) inner inner')
    (hb : ts.length < b) : Alike ending after ts.length (primary ending inner ts)
      (primary ending' inner' (ts ++ after)) := by
  refine alike_peek hc ts fun t ht => ?_
  split
  · rename_i hk
    obtain ⟨ts, rfl⟩ := exists_cons_of_peek ht (by rw [hk]; decide)
    exact alike_bind _ fun e => .ok e (Nat.le_succ _)
  · rename_i hk
    obtain ⟨ts, rfl⟩ := exists_cons_of_peek ht (by rw [hk]; decide)
    exact .ok _ (Nat.le_succ _)
  · rename_i hk
    obtain ⟨ts, rfl⟩ := exists_cons_of_peek ht (by rw [hk]; decide)
    exact (alike_parenthesis hc hin t (Nat.lt_of_succ_lt hb)).mono (Nat.le_succ _)
  · exact .error _
  · exact .error _
  · exact .error _

theorem alike_signs (hin : Option.Rel (Levels.Alike ending after b) inner inner')
    (hb : ts.length < b) : Alike ending after ts.length (signs ending inner ts)
      (signs ending' inner' (ts ++ after)) := by
  refine alike_peek hc ts fun t ht => ?_
  cases hs : sign? t with
  | some s =>
    obtain ⟨hsign, -⟩ := sign?_eq_some_iff.mp hs
    obtain ⟨ts, rfl⟩ := exists_cons_of_peek ht (not_finish_of_kind (Or.inl hsign.1))
    exact alike_opened hin t fun hl => (hl.signs (Nat.lt_of_succ_lt hb)).bind fun e rest hrest =>
      alike_node t _ (Nat.le_succ_of_le hrest)
  | none =>
    dsimp only
    split
    · rename_i hroot
      obtain ⟨ts, rfl⟩ :=
        exists_cons_of_peek ht (not_finish_of_kind (isRootMark_iff.mp hroot).kind)
      exact alike_opened hin t fun hl => (hl.power (Nat.lt_of_succ_lt hb)).bind fun e rest hrest =>
        alike_node t _ (Nat.le_succ_of_le hrest)
    · exact alike_primary hc hin hb

theorem alike_power (hin : Option.Rel (Levels.Alike ending after b) inner inner')
    (hb : ts.length < b) : Alike ending after ts.length (power ending inner ts)
      (power ending' inner' (ts ++ after)) := by
  refine (alike_signs hc hin hb).bind fun base rest hrest => alike_peek hc rest fun t ht => ?_
  split
  · rename_i hmark
    obtain ⟨rest, rfl⟩ := exists_cons_of_peek ht (not_finish_of_kind (isMark_iff.mp hmark).kind)
    have hlt : rest.length ≤ ts.length := Nat.le_of_succ_le hrest
    exact alike_opened hin t fun hl => (hl.power (hlt.trans_lt hb)).bind fun right rest' hrest' =>
      alike_node t _ (hrest'.trans hlt)
  · exact .ok base hrest

theorem alike_chain {operator? : Token → Option Operator} {operand operand' : List Token → Reading}
    (hkind : ∀ {t op}, operator? t = some op → t.kind = .operator)
    (hoperand : ∀ {ts : List Token}, ts.length < b →
      Alike ending after ts.length (operand ts) (operand' (ts ++ after))) :
    ∀ (bound bound' : Nat) (left : Expr) {ts : List Token}, ts.length < bound →
      ts.length < bound' → ts.length < b → Alike ending after ts.length
        (chain ending operator? operand bound left ts)
        (chain ending' operator? operand' bound' left (ts ++ after)) := by
  intro bound
  induction bound with
  | zero =>
    intro bound' left ts hbound _ _
    cases hbound
  | succ bound ih =>
    intro bound' left ts hbound hbound' hb
    cases bound' with
    | zero => cases hbound'
    | succ bound' =>
      refine alike_peek hc ts fun t ht => ?_
      cases hop : operator? t with
      | none => exact .ok left (Nat.le_refl _)
      | some op =>
        obtain ⟨ts, rfl⟩ := exists_cons_of_peek ht (not_finish_of_kind (Or.inl (hkind hop)))
        refine (hoperand (Nat.lt_of_succ_lt hb)).bind fun right rest hrest => ?_
        refine alike_bind _ fun e => ?_
        rw [List.length_cons] at hbound hbound' hb
        have hlt : rest.length ≤ ts.length := hrest
        exact (ih bound' e (by omega) (by omega) (by omega)).mono (Nat.le_succ_of_le hlt)

theorem alike_product (hin : Option.Rel (Levels.Alike ending after b) inner inner')
    {bound bound' : Nat} (hbound : b ≤ bound) (hbound' : b ≤ bound') (hb : ts.length < b) :
    Alike ending after ts.length (product ending bound inner ts)
      (product ending' bound' inner' (ts ++ after)) :=
  (alike_power hc hin hb).bind fun left _ hrest =>
    (alike_chain hc (fun h => (productOperator?_eq_some_iff.mp h).1.1) (alike_power hc hin)
      bound bound' left ((hrest.trans_lt hb).trans_le hbound) ((hrest.trans_lt hb).trans_le hbound')
      (hrest.trans_lt hb)).mono hrest

theorem alike_sum (hin : Option.Rel (Levels.Alike ending after b) inner inner')
    {bound bound' : Nat} (hbound : b ≤ bound) (hbound' : b ≤ bound') (hb : ts.length < b) :
    Alike ending after ts.length (sum ending bound inner ts)
      (sum ending' bound' inner' (ts ++ after)) :=
  (alike_product hc hin hbound hbound' hb).bind fun left _ hrest =>
    (alike_chain hc (fun h => (sumOperator?_eq_some_iff.mp h).1.1)
      (alike_product hc hin hbound hbound') bound bound' left ((hrest.trans_lt hb).trans_le hbound)
      ((hrest.trans_lt hb).trans_le hbound') (hrest.trans_lt hb)).mono hrest

theorem alike_levels {bound bound' : Nat} (hbound : b ≤ bound) (hbound' : b ≤ bound')
    (limit : Nat) : (levels ending bound limit).Alike ending after b (levels ending' bound' limit) := by
  induction limit with
  | zero => exact ⟨alike_sum hc .none hbound hbound', alike_power hc .none, alike_signs hc .none⟩
  | succ limit ih =>
    exact ⟨alike_sum hc (.some ih) hbound hbound', alike_power hc (.some ih), alike_signs hc (.some ih)⟩

/-! ## Inputs -/

theorem alike_target {α : Type} {k : Nat} (hne : ts ≠ [])
    {f g : Option String → Except Failure (α × List Token)}
    (h : ∀ target, target? ending ts = .ok target → Alike ending after k (f target) (g target)) :
    Alike ending after k (target? ending ts >>= f) (target? ending' (ts ++ after) >>= g) := by
  obtain ⟨t, ts, rfl⟩ := List.exists_cons_of_ne_nil hne
  by_cases hk : t.kind = .identifier
  · have htarget : ∀ (ending : Token.Ending) (ts : List Token), target? ending (t :: ts) = do
        let second ← peek ending ts
        return if second.kind = .assign then some t.text else none :=
      fun _ _ => if_pos hk
    rw [htarget] at h
    rw [List.cons_append, htarget, htarget, bind_assoc, bind_assoc]
    exact alike_peek hc ts fun u hu => h _ (by rw [hu]; rfl)
  · have htarget : ∀ (ending : Token.Ending) (ts : List Token),
        target? ending (t :: ts) = .ok none := fun _ _ => if_neg hk
    rw [List.cons_append, htarget, htarget]
    exact h none (htarget _ _)

omit hc in
theorem startsWithTarget_of_target? {name : String} (h : target? ending ts = .ok (some name)) :
    StartsWithTarget ts := by
  obtain ⟨t, ht, h⟩ := bind_eq_ok.mp h
  split at h
  · rename_i hk
    obtain ⟨ts, rfl⟩ := exists_cons_of_peek ht (by rw [hk]; decide)
    obtain ⟨u, hu, h⟩ := bind_eq_ok.mp h
    by_cases hassign : u.kind = .assign
    · obtain ⟨ts, rfl⟩ := exists_cons_of_peek hu (by rw [hassign]; decide)
      exact ⟨hk, hassign⟩
    · rw [if_neg hassign] at h
      cases h
  · cases h

omit hc in
theorem covered_behind (text : List Char) {ts : List Token} (hne : ts ≠ []) (rest after : List Token) :
    covered text (ts ++ after) (rest ++ after) = covered text ts rest := by
  obtain ⟨t, ts, rfl⟩ := List.exists_cons_of_ne_nil hne
  unfold covered
  have hlength : (t :: ts ++ after).length - (rest ++ after).length =
      (t :: ts).length - rest.length := by
    rw [List.length_append, List.length_append, Nat.add_sub_add_right]
  rw [hlength, List.take_append_of_le_length (Nat.sub_le _ _)]
  cases ((t :: ts).take ((t :: ts).length - rest.length)).getLast? with
  | none => rfl
  | some last => rfl

/-- Inputs of which one has more tokens behind it are read alike. -/
theorem alike_input (ts : List Token) :
    Alike ending after ts.length (input ending ts) (input ending' (ts ++ after)) := by
  have hlevels := alike_levels hc (Nat.le_refl (ts.length + 1))
    (by rw [List.length_append]; omega : ts.length + 1 ≤ (ts ++ after).length + 1) maxNesting
  refine alike_peek hc ts fun first hfirst => ?_
  split
  · exact .error _
  rename_i hk
  obtain ⟨more, hmore⟩ := exists_cons_of_peek hfirst hk
  have hne : ts ≠ [] := hmore ▸ List.cons_ne_nil _ _
  refine alike_target hc hne fun target htarget => ?_
  cases target with
  | some name =>
    obtain ⟨t, u, more, rfl, -⟩ := exists_of_startsWithTarget (startsWithTarget_of_target? htarget)
    have hlt : more.length < (t :: u :: more).length + 1 := by
      simp only [List.length_cons]
      omega
    refine (hlevels.sum hlt).bind fun value rest hrest => .ok _ ?_
    simp only [List.length_cons]
    omega
  | none =>
    refine (hlevels.sum (Nat.lt_succ_self _)).bind fun e rest hrest =>
      alike_peek hc rest fun t ht => ?_
    split
    · rename_i hassign
      obtain ⟨rest, rfl⟩ := exists_cons_of_peek ht (by rw [hassign]; decide)
      have hlt : rest.length ≤ ts.length := Nat.le_of_succ_le hrest
      refine (hlevels.sum (Nat.lt_succ_of_le hlt)).bind fun value rest' hrest' => ?_
      have hname : (fun text => Expr.assign (covered text (ts ++ after) (t :: rest ++ after)) value) =
          fun text => .assign (covered text ts (t :: rest)) value :=
        funext fun text => by rw [covered_behind text hne]
      dsimp only
      rw [hname]
      exact .ok _ (hrest'.trans hlt)
    · exact .ok _ hrest

end

/-! ## The finish -/

theorem expectEnd_behind (n : Nat) (more : List Token) (ending : Token.Ending) (ts : List Token) :
    expectEnd ending (ts ++ Token.finish n :: more) = expectEnd (.finished n) ts := by
  cases ts with
  | nil => rfl
  | cons t ts => rfl

/-- With the finish among the tokens, and whatever behind it, a text is read as before. -/
theorem ofScan_behind_finish (text : List Char) (ts : List Token) (n : Nat) (more : List Token)
    (ending : Token.Ending) :
    ofScan text ⟨ts ++ Token.finish n :: more, ending⟩ = ofScan text ⟨ts, .finished n⟩ := by
  have halike := alike_input (continues_finish n more ending) ts
  rw [ofScan_eq, ofScan_eq]
  generalize input (.finished n) ts = x at halike ⊢
  generalize input ending (ts ++ Token.finish n :: more) = y at halike ⊢
  cases halike with
  | stuck y hstuck => cases hstuck
  | error f => rfl
  | ok tree _ =>
    show (expectEnd ending _ >>= _) = (expectEnd (.finished n) _ >>= _)
    rw [expectEnd_behind]

end ExactCalc.Expr
