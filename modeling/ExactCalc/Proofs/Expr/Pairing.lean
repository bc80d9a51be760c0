/-
  ExactCalc.Proofs.Expr.Pairing — parentheses without a partner (SPEC §4.2,
  `UNMATCHED_PAREN`).

  `unpaired` goes over tokens from the left, and pairs each closing parenthesis with the
  last opening one that still waits. Tokens that are `Balanced` leave those that wait as
  they are, wherever they stand; so an opening parenthesis has no partner if all behind
  it is balanced (`mem_unpaired_of_opening`), and a closing one has none if all before
  it is (`mem_unpaired_of_closing`).
-/

import ExactCalc.Proofs.Expr.Grammar

namespace ExactCalc.Grammar

/-- The parentheses that are left over, where some wait for a partner already, the last one first. -/
def unpairedAfter (waiting : List Token) : List Token → List Token
  | [] => waiting
  | t :: ts =>
    if t.kind = .openParen then unpairedAfter (t :: waiting) ts
    else if t.kind = .closeParen then
      match waiting with
      | [] => t :: unpairedAfter [] ts
      | _ :: waiting => unpairedAfter waiting ts
    else unpairedAfter waiting ts

/-- The parentheses that have no partner. -/
def unpaired (ts : List Token) : List Token := unpairedAfter [] ts

/-- Every parenthesis among the tokens has its partner there. -/
def Balanced (part : List Token) : Prop :=
  ∀ waiting rest, unpairedAfter waiting (part ++ rest) = unpairedAfter waiting rest

variable {t : Token} {waiting ts : List Token}

/-! ## One token -/

theorem unpairedAfter_opening (h : t.kind = .openParen) :
    unpairedAfter waiting (t :: ts) = unpairedAfter (t :: waiting) ts :=
  if_pos h

theorem unpairedAfter_closing (h : t.kind = .closeParen) (o : Token) :
    unpairedAfter (o :: waiting) (t :: ts) = unpairedAfter waiting ts := by
  have ho : t.kind ≠ .openParen := by rw [h]; decide
  rw [unpairedAfter, if_neg ho, if_pos h]

theorem unpairedAfter_closing_nil (h : t.kind = .closeParen) :
    unpairedAfter [] (t :: ts) = t :: unpairedAfter [] ts := by
  have ho : t.kind ≠ .openParen := by rw [h]; decide
  rw [unpairedAfter, if_neg ho, if_pos h]

theorem unpairedAfter_other (ho : t.kind ≠ .openParen) (hc : t.kind ≠ .closeParen) :
    unpairedAfter waiting (t :: ts) = unpairedAfter waiting ts :=
  (if_neg ho).trans (if_neg hc)

/-- A token waits, takes the partner that waits, stays without one, or changes nothing. -/
theorem unpairedAfter_cases (waiting : List Token) (t : Token) (ts : List Token) :
    unpairedAfter waiting (t :: ts) = unpairedAfter (t :: waiting) ts ∨
    (∃ o waiting', waiting = o :: waiting' ∧
      unpairedAfter waiting (t :: ts) = unpairedAfter waiting' ts) ∨
    (waiting = [] ∧ unpairedAfter waiting (t :: ts) = t :: unpairedAfter [] ts) ∨
    unpairedAfter waiting (t :: ts) = unpairedAfter waiting ts := by
  by_cases ho : t.kind = .openParen
  · exact Or.inl (unpairedAfter_opening ho)
  by_cases hc : t.kind = .closeParen
  · cases waiting with
    | nil => exact Or.inr (Or.inr (Or.inl ⟨rfl, unpairedAfter_closing_nil hc⟩))
    | cons o waiting => exact Or.inr (Or.inl ⟨o, waiting, rfl, unpairedAfter_closing hc o⟩)
  · exact Or.inr (Or.inr (Or.inr (unpairedAfter_other ho hc)))

/-! ## Balanced tokens -/

theorem balanced_nil : Balanced [] := fun _ _ => rfl

theorem Balanced.append {l r : List Token} (hl : Balanced l) (hr : Balanced r) :
    Balanced (l ++ r) := by
  intro waiting rest
  rw [List.append_assoc, hl, hr]

theorem balanced_singleton (ho : t.kind ≠ .openParen) (hc : t.kind ≠ .closeParen) :
    Balanced [t] :=
  fun _ _ => unpairedAfter_other ho hc

theorem Balanced.cons {part : List Token} (h : Balanced part) (ho : t.kind ≠ .openParen)
    (hc : t.kind ≠ .closeParen) : Balanced (t :: part) :=
  (balanced_singleton ho hc).append h

theorem Balanced.group {o c : Token} {part : List Token} (h : Balanced part)
    (ho : o.kind = .openParen) (hc : c.kind = .closeParen) : Balanced (o :: (part ++ [c])) := by
  intro waiting rest
  rw [List.cons_append, unpairedAfter_opening ho, List.append_assoc, h, List.singleton_append,
    unpairedAfter_closing hc]

theorem Balanced.unpaired_append {part : List Token} (h : Balanced part) (ts : List Token) :
    unpaired (part ++ ts) = unpaired ts :=
  h [] ts

/-! ## What is left over -/

theorem mem_of_mem_unpairedAfter (h : t ∈ unpairedAfter waiting ts) : t ∈ waiting ∨ t ∈ ts := by
  induction ts generalizing waiting with
  | nil => exact Or.inl h
  | cons u ts ih =>
    rcases unpairedAfter_cases waiting u ts with he | ⟨o, waiting', rfl, he⟩ | ⟨rfl, he⟩ | he
    · rw [he] at h
      rcases ih h with hmem | hmem
      · exact (List.mem_cons.mp hmem).elim (fun e => Or.inr (e ▸ List.mem_cons_self)) Or.inl
      · exact Or.inr (List.mem_cons_of_mem _ hmem)
    · rw [he] at h
      exact (ih h).imp (List.mem_cons_of_mem _) (List.mem_cons_of_mem _)
    · rw [he] at h
      rcases List.mem_cons.mp h with rfl | h
      · exact Or.inr List.mem_cons_self
      · exact (ih h).imp id (List.mem_cons_of_mem _)
    · rw [he] at h
      exact (ih h).imp id (List.mem_cons_of_mem _)

theorem mem_of_mem_unpaired (h : t ∈ unpaired ts) : t ∈ ts :=
  (mem_of_mem_unpairedAfter h).resolve_left List.not_mem_nil

/-- An opening parenthesis has no partner, if the tokens behind it have theirs. -/
theorem mem_unpaired_of_opening (h : t.kind = .openParen) {after : List Token}
    (hafter : Balanced after) (before waiting : List Token) :
    t ∈ unpairedAfter waiting (before ++ t :: after) := by
  induction before generalizing waiting with
  | nil =>
    have hend := hafter (t :: waiting) []
    rw [List.append_nil] at hend
    rw [List.nil_append, unpairedAfter_opening h, hend]
    exact List.mem_cons_self
  | cons u before ih =>
    rw [List.cons_append]
    rcases unpairedAfter_cases waiting u (before ++ t :: after) with
      he | ⟨o, waiting', -, he⟩ | ⟨-, he⟩ | he
    · rw [he]
      exact ih _
    · rw [he]
      exact ih _
    · rw [he]
      exact List.mem_cons_of_mem _ (ih _)
    · rw [he]
      exact ih _

/-- A closing parenthesis has no partner, if the tokens before it have theirs. -/
theorem mem_unpaired_of_closing (h : t.kind = .closeParen) {before : List Token}
    (hbefore : Balanced before) (after : List Token) : t ∈ unpaired (before ++ t :: after) := by
  rw [hbefore.unpaired_append, unpaired, unpairedAfter_closing_nil h]
  exact List.mem_cons_self

end ExactCalc.Grammar
