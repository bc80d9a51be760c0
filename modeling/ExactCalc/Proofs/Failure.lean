/-
  ExactCalc.Proofs.Failure — computations that may fail: what it takes for a sequence of
  them to succeed, and how one that fails ends.
-/

import Mathlib.Data.List.Forall2

namespace ExactCalc

section

variable {ε α β : Type}

theorem isOk_iff {x : Except ε α} : x.isOk = true ↔ ∃ a, x = .ok a := by
  constructor
  · intro h
    cases x with
    | error e => cases h
    | ok a => exact ⟨a, rfl⟩
  · rintro ⟨a, rfl⟩
    rfl

theorem isOk_eq_false_iff {x : Except ε α} : x.isOk = false ↔ ∃ e, x = .error e := by
  constructor
  · intro h
    cases x with
    | error e => exact ⟨e, rfl⟩
    | ok a => cases h
  · rintro ⟨e, rfl⟩
    rfl

theorem toOption_eq_some {x : Except ε α} {a : α} (h : x.toOption = some a) : x = .ok a := by
  cases x with
  | error e => cases h
  | ok b =>
    cases h
    rfl

theorem bind_eq_ok {x : Except ε α} {f : α → Except ε β} {b : β} :
    (x >>= f) = .ok b ↔ ∃ a, x = .ok a ∧ f a = .ok b := by
  constructor
  · intro h
    cases x with
    | error e => cases h
    | ok a => exact ⟨a, rfl, h⟩
  · rintro ⟨a, rfl, h⟩
    exact h

theorem bind_of_ok {x : Except ε α} {f : α → Except ε β} {a : α} {r : Except ε β} (hx : x = .ok a)
    (hf : f a = r) : (x >>= f) = r := by
  rw [hx]
  exact hf

theorem bind_of_error {x : Except ε α} {e : ε} (hx : x = .error e) (f : α → Except ε β) :
    (x >>= f) = .error e := by
  rw [hx]
  rfl

theorem bind_eq_error {x : Except ε α} {f : α → Except ε β} {e : ε} :
    (x >>= f) = .error e ↔ x = .error e ∨ ∃ a, x = .ok a ∧ f a = .error e := by
  constructor
  · intro h
    cases x with
    | error e' =>
      cases h
      exact Or.inl rfl
    | ok a => exact Or.inr ⟨a, rfl, h⟩
  · rintro (rfl | ⟨a, rfl, h⟩)
    · rfl
    · exact h

/-- Going through a list whose items all succeed. -/
theorem mapM_of_forall₂ {f : α → Except ε β} {l : List α} {bs : List β}
    (h : List.Forall₂ (fun a b => f a = .ok b) l bs) : l.mapM f = .ok bs := by
  induction h with
  | nil => rfl
  | cons ha _ ih =>
    rw [List.mapM_cons]
    exact bind_of_ok ha (bind_of_ok ih rfl)

/-- Going through a list for its failures alone succeeds if no item fails. -/
theorem forM_eq_ok {f : α → Except ε Unit} {l : List α} :
    l.forM f = .ok () ↔ ∀ a ∈ l, f a = .ok () := by
  induction l with
  | nil => exact iff_of_true rfl fun _ h => absurd h List.not_mem_nil
  | cons a l ih =>
    rw [List.forall_mem_cons, ← ih]
    refine bind_eq_ok.trans ⟨?_, fun h => ⟨(), h⟩⟩
    rintro ⟨_, h⟩
    exact h

/-- Going through a list fails at the first item that fails. -/
theorem mapM_eq_error {f : α → Except ε β} {e : ε} {l : List α} : l.mapM f = .error e ↔
    ∃ before x after, l = before ++ x :: after ∧ (∀ y ∈ before, ∃ b, f y = .ok b) ∧
      f x = .error e := by
  induction l with
  | nil =>
    refine iff_of_false (fun h => by cases h) ?_
    rintro ⟨before, x, after, h, -⟩
    cases before with
    | nil => cases h
    | cons a before => cases h
  | cons a l ih =>
    rw [List.mapM_cons, bind_eq_error]
    constructor
    · rintro (h | ⟨b, hb, h⟩)
      · exact ⟨[], a, l, rfl, fun _ hy => absurd hy List.not_mem_nil, h⟩
      · rcases bind_eq_error.mp h with h | ⟨bs, -, h⟩
        · obtain ⟨before, x, after, rfl, hbefore, hx⟩ := ih.mp h
          exact ⟨a :: before, x, after, rfl, List.forall_mem_cons.mpr ⟨⟨b, hb⟩, hbefore⟩, hx⟩
        · cases h
    · rintro ⟨before, x, after, hl, hbefore, hx⟩
      cases before with
      | nil =>
        cases hl
        exact Or.inl hx
      | cons a' before =>
        cases hl
        obtain ⟨⟨b, hb⟩, hbefore⟩ := List.forall_mem_cons.mp hbefore
        exact Or.inr ⟨b, hb, bind_eq_error.mpr (Or.inl (ih.mpr ⟨before, x, after, rfl, hbefore, hx⟩))⟩

/-! ## Failures of a class -/

/-- The computation ends in no failure but those. -/
def FailsWith (p : ε → Prop) (x : Except ε α) : Prop := ∀ e, x = .error e → p e

variable {p : ε → Prop}

theorem failsWith_ok (a : α) : FailsWith p (.ok a : Except ε α) := by
  intro e h
  cases h

theorem failsWith_error {e : ε} (h : p e) : FailsWith p (.error e : Except ε α) := by
  intro e' h'
  cases h'
  exact h

/-- What comes after a step may count on its result. -/
theorem FailsWith.bind_of_ok {x : Except ε α} {f : α → Except ε β} (hx : FailsWith p x)
    (hf : ∀ a, x = .ok a → FailsWith p (f a)) : FailsWith p (x >>= f) := by
  intro e h
  rcases bind_eq_error.mp h with h | ⟨a, ha, h⟩
  · exact hx e h
  · exact hf a ha e h

theorem FailsWith.bind {x : Except ε α} {f : α → Except ε β} (hx : FailsWith p x)
    (hf : ∀ a, FailsWith p (f a)) : FailsWith p (x >>= f) :=
  hx.bind_of_ok fun a _ => hf a

theorem failsWith_mapM {f : α → Except ε β} (hf : ∀ a, FailsWith p (f a)) (l : List α) :
    FailsWith p (l.mapM f) := by
  intro e h
  obtain ⟨_, x, _, -, -, hx⟩ := mapM_eq_error.mp h
  exact hf x e hx

theorem failsWith_foldlM {f : β → α → Except ε β} (hf : ∀ b a, FailsWith p (f b a)) (l : List α)
    (b : β) : FailsWith p (l.foldlM f b) := by
  induction l generalizing b with
  | nil => exact failsWith_ok b
  | cons a l ih =>
    rw [List.foldlM_cons]
    exact (hf b a).bind ih

/-! ## Results of a class -/

/-- The computation ends in no failure but those, and in no result but those. -/
structure Ends (p : ε → Prop) (q : α → Prop) (x : Except ε α) : Prop where
  fails : FailsWith p x
  gives : ∀ a, x = .ok a → q a

variable {q : α → Prop} {r : β → Prop}

theorem ends_ok {a : α} (h : q a) : Ends p q (.ok a : Except ε α) := by
  refine ⟨failsWith_ok a, fun b hb => ?_⟩
  cases hb
  exact h

theorem ends_error {e : ε} (h : p e) : Ends p q (.error e : Except ε α) := ⟨failsWith_error h, nofun⟩

theorem Ends.imp {p' : ε → Prop} {q' : α → Prop} {x : Except ε α} (h : Ends p q x)
    (hp : ∀ e, p e → p' e) (hq : ∀ a, q a → q' a) : Ends p' q' x :=
  ⟨fun e he => hp e (h.fails e he), fun a ha => hq a (h.gives a ha)⟩

theorem Ends.bind {x : Except ε α} {f : α → Except ε β} (hx : Ends p q x)
    (hf : ∀ a, q a → Ends p r (f a)) : Ends p r (x >>= f) := by
  refine ⟨hx.fails.bind_of_ok fun a ha => (hf a (hx.gives a ha)).fails, fun b hb => ?_⟩
  obtain ⟨a, ha, hb⟩ := bind_eq_ok.mp hb
  exact (hf a (hx.gives a ha)).gives b hb

theorem FailsWith.bind_ends {x : Except ε α} {f : α → Except ε β} (hx : FailsWith p x)
    (hf : ∀ a, x = .ok a → Ends p r (f a)) : Ends p r (x >>= f) :=
  Ends.bind (q := fun a => x = .ok a) ⟨hx, fun _ h => h⟩ hf

end

end ExactCalc
