/-
  ExactCalc.Proofs.Json.Settled — every text in a value that is read, keys included, is
  settled (see `ExactCalc.Json.Reader`).
-/

import ExactCalc.Proofs.Json.Strings
import ExactCalc.Proofs.Table

namespace ExactCalc.Json

open Text

/-- All texts and keys in a value are settled. -/
inductive Settled : Json → Prop
  | null : Settled .null
  | bool (b : Bool) : Settled (.bool b)
  | int (n : Int) : Settled (.int n)
  | real (x : Binary64) : Settled (.real x)
  | str {s : Symbols} : s.Settled → Settled (.str s)
  | arr {l : List Json} : (∀ v ∈ l, Settled v) → Settled (.arr l)
  | obj {l : List (Symbols × Json)} : (∀ p ∈ l, p.1.Settled) → (∀ p ∈ l, Settled p.2) →
    Settled (.obj l)

theorem settled_ofString (s : String) : Settled (.ofString s) := .str (Symbols.settled_ofString s)

/-- A member of settled members is settled. -/
theorem settled_of_member? {l : List (Symbols × Json)} (h : ∀ p ∈ l, Settled p.2) {key : String}
    {j : Json} (hj : member? l key = some j) : Settled j := by
  obtain ⟨p, hp, rfl⟩ := Option.map_eq_some_iff.mp hj
  exact h p (List.mem_of_find?_eq_some hp)

section

variable {read : List Char → Reading}

/-- A reader that gives settled values. -/
def Settles (read : List Char → Reading) : Prop :=
  ∀ (cs rest : List Char) (j : Json), read cs = some (j, rest) → Settled j

theorem settles_unsigned (negative : Bool) : Settles (unsigned negative) := by
  intro cs rest j h
  unfold unsigned at h
  obtain ⟨⟨ds, r⟩, -, h⟩ := Option.bind_eq_some_iff.mp h
  dsimp only at h
  split at h
  · split at h
    · cases h
    · cases h
      exact .int _
  · cases h
    exact .real _

theorem settles_items (hread : Settles read) : ∀ {bound : Nat} {seen : List Json},
    (∀ v ∈ seen, Settled v) → Settles (items read bound seen) := by
  intro bound
  induction bound with
  | zero => intro seen _ cs rest j h; cases h
  | succ bound ih =>
    intro seen hseen cs rest j h
    obtain ⟨⟨v, r⟩, hv, h⟩ := Option.bind_eq_some_iff.mp h
    have hall : ∀ w ∈ v :: seen, Settled w :=
      fun w hw => (List.mem_cons.mp hw).elim (fun e => e ▸ hread _ _ _ hv) (hseen w)
    dsimp only at h
    split at h
    · exact ih hall _ _ _ h
    · cases h
      exact .arr fun w hw => hall w (List.mem_reverse.mp hw)
    · cases h

theorem settles_members (hread : Settles read) : ∀ {bound : Nat} {seen : List (Symbols × Json)},
    (∀ p ∈ seen, p.1.Settled) → (∀ p ∈ seen, Settled p.2) → Settles (members read bound seen) := by
  intro bound
  induction bound with
  | zero => intro seen _ _ cs rest j h; cases h
  | succ bound ih =>
    intro seen hkeys hseen cs rest j h
    unfold members at h
    split at h
    · obtain ⟨⟨key, r⟩, hkey, h⟩ := Option.bind_eq_some_iff.mp h
      dsimp only at h
      split at h
      · obtain ⟨⟨v, r'⟩, hv, h⟩ := Option.bind_eq_some_iff.mp h
        have hkeys' : ∀ p ∈ (key, v) :: seen, p.1.Settled :=
          fun p hp => (List.mem_cons.mp hp).elim (fun e => e ▸ settled_of_string hkey) (hkeys p)
        have hall : ∀ p ∈ (key, v) :: seen, Settled p.2 :=
          fun p hp => (List.mem_cons.mp hp).elim (fun e => e ▸ hread _ _ _ hv) (hseen p)
        dsimp only at h
        split at h
        · exact ih hkeys' hall _ _ _ h
        · cases h
          have hmem : ∀ p ∈ (Table.ofList ((key, v) :: seen).reverse).pairs, p ∈ (key, v) :: seen :=
            fun p hp => List.mem_reverse.mp (Table.mem_of_mem_ofList hp)
          exact .obj (fun p hp => hkeys' p (hmem p hp)) fun p hp => hall p (hmem p hp)
        · cases h
      · cases h
    · cases h

theorem settles_valueWith (hread : Settles read) (bound : Nat) : Settles (valueWith bound read) := by
  intro cs rest j h
  have hnil : ∀ v ∈ ([] : List Json), Settled v := fun _ hv => absurd hv List.not_mem_nil
  have hkeys : ∀ p ∈ ([] : List (Symbols × Json)), p.1.Settled :=
    fun _ hp => absurd hp List.not_mem_nil
  have hvalues : ∀ p ∈ ([] : List (Symbols × Json)), Settled p.2 :=
    fun _ hp => absurd hp List.not_mem_nil
  unfold valueWith at h
  split at h
  · obtain ⟨⟨s, r⟩, hs, he⟩ := Option.map_eq_some_iff.mp h
    cases he
    exact .str (settled_of_string hs)
  · split at h
    · cases h
      exact .arr hnil
    · exact settles_items hread hnil _ _ _ h
  · split at h
    · cases h
      exact .obj hkeys hvalues
    · exact settles_members hread hkeys hvalues _ _ _ h
  · cases h
    exact .null
  · cases h
    exact .bool true
  · cases h
    exact .bool false
  · cases h
    exact .real _
  · cases h
    exact .real _
  · cases h
    exact .real _
  · exact settles_unsigned true _ _ _ h
  · exact settles_unsigned false _ _ _ h

end

theorem settles_value (bound : Nat) : ∀ depth, Settles (value bound depth) := by
  intro depth
  induction depth with
  | zero =>
    intro cs rest j h
    rw [value] at h
    split at h
    · cases h
    · have hnone : Settles fun _ => none := fun _ _ _ hn => by cases hn
      exact settles_valueWith hnone bound _ _ _ h
  | succ depth ih => exact settles_valueWith ih bound

/-- What is read is settled. -/
theorem settled_of_read {cs : List Char} {j : Json} (h : read cs = some j) : Settled j := by
  obtain ⟨⟨v, r⟩, hv, h⟩ := Option.bind_eq_some_iff.mp h
  dsimp only at h
  split at h
  · cases h
    exact settles_value _ _ _ _ _ hv
  · cases h

end ExactCalc.Json
