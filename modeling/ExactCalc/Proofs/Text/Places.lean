/-
  ExactCalc.Proofs.Text.Places — numerals by their places: what the standard numeral of
  a number is made of, padded or cut into pieces, and that places give the value back.
-/

import Mathlib.Algebra.Group.Nat.Defs

namespace ExactCalc.Text

/-- The last digits of a number. -/
def lastDigits (base : Nat) : (width : Nat) → Nat → List Char
  | 0, _ => []
  | width + 1, n => lastDigits base width (n / base) ++ [Nat.digitChar (n % base)]

section

variable {base : Nat}

@[simp] theorem length_lastDigits (width n : Nat) : (lastDigits base width n).length = width := by
  induction width generalizing n with
  | zero => rfl
  | succ width ih => rw [lastDigits, List.length_append, ih, List.length_singleton]

theorem lastDigits_mod (width n : Nat) :
    lastDigits base width (n % base ^ width) = lastDigits base width n := by
  induction width generalizing n with
  | zero => rfl
  | succ width ih =>
    rw [lastDigits, lastDigits, ← ih (n / base), Nat.pow_succ, Nat.mul_comm,
      Nat.mod_mul_right_div_self, Nat.mod_mul_right_mod]

theorem mem_lastDigits (hb : 0 < base) {width n : Nat} {c : Char} (h : c ∈ lastDigits base width n) :
    ∃ d < base, c = Nat.digitChar d := by
  induction width generalizing n with
  | zero => cases h
  | succ width ih =>
    rcases List.mem_append.mp h with h | h
    · exact ih h
    · exact ⟨n % base, Nat.mod_lt _ hb, List.mem_singleton.mp h⟩

/-- A numeral padded with zeros shows the last digits, where they are all there are. -/
theorem pad_toDigits (hb : 1 < base) : ∀ {width n : Nat}, 0 < width → n < base ^ width →
    List.replicate (width - (Nat.toDigits base n).length) '0' ++ Nat.toDigits base n =
      lastDigits base width n := by
  intro width
  induction width with
  | zero => intro n h; omega
  | succ width ih =>
    intro n _ hn
    rw [lastDigits]
    by_cases hw : width = 0
    · subst hw
      rw [Nat.zero_add, Nat.pow_one] at hn
      rw [Nat.toDigits_of_lt_base hn, Nat.mod_eq_of_lt hn]
      rfl
    have hdiv : n / base < base ^ width :=
      Nat.div_lt_of_lt_mul (by rwa [Nat.mul_comm, ← Nat.pow_succ])
    rw [← ih (by omega) hdiv]
    by_cases hlt : n < base
    · rw [Nat.div_eq_of_lt hlt, Nat.toDigits_of_lt_base hlt, Nat.toDigits_zero, Nat.mod_eq_of_lt hlt]
      obtain ⟨k, rfl⟩ : ∃ k, width = k + 1 := ⟨width - 1, by omega⟩
      rw [List.length_singleton, List.length_singleton, Nat.add_sub_cancel, Nat.add_sub_cancel,
        List.replicate_succ']
    · rw [Nat.toDigits_of_base_le hb (Nat.le_of_not_lt hlt), List.length_append,
        List.length_singleton, Nat.add_sub_add_right, List.append_assoc]

/-- A numeral is what stands before its last digits, and these. -/
theorem toDigits_append_lastDigits (hb : 1 < base) : ∀ {width n : Nat}, base ^ width ≤ n →
    Nat.toDigits base n = Nat.toDigits base (n / base ^ width) ++ lastDigits base width n := by
  intro width
  induction width with
  | zero =>
    intro n _
    rw [Nat.pow_zero, Nat.div_one, lastDigits, List.append_nil]
  | succ width ih =>
    intro n hn
    have hpos : 0 < base ^ width := Nat.pow_pos (by omega)
    have hle : base ≤ n :=
      Nat.le_trans (by rw [Nat.pow_succ]; exact Nat.le_mul_of_pos_left _ hpos) hn
    have hdiv : base ^ width ≤ n / base := (Nat.le_div_iff_mul_le (by omega)).mpr hn
    rw [Nat.toDigits_of_base_le hb hle, ih hdiv, lastDigits, Nat.div_div_eq_div_mul, Nat.pow_succ,
      Nat.mul_comm (base ^ width), List.append_assoc]

/-! ## Values -/

theorem mem_toDigits (hb : 1 < base) {n : Nat} {c : Char} (h : c ∈ Nat.toDigits base n) :
    ∃ d < base, c = Nat.digitChar d := by
  induction n using Nat.strongRecOn with
  | _ n ih =>
    by_cases hlt : n < base
    · rw [Nat.toDigits_of_lt_base hlt] at h
      exact ⟨n, hlt, List.mem_singleton.mp h⟩
    · rw [Nat.toDigits_of_base_le hb (Nat.le_of_not_lt hlt)] at h
      rcases List.mem_append.mp h with h | h
      · exact ih (n / base) (Nat.div_lt_self (by omega) hb) h
      · exact ⟨n % base, Nat.mod_lt _ (by omega), List.mem_singleton.mp h⟩

variable {value : Char → Nat}

theorem foldl_toDigits (hb : 1 < base) (hv : ∀ d < base, value (Nat.digitChar d) = d) (n : Nat) :
    (Nat.toDigits base n).foldl (fun v c => v * base + value c) 0 = n := by
  induction n using Nat.strongRecOn with
  | _ n ih =>
    by_cases hlt : n < base
    · rw [Nat.toDigits_of_lt_base hlt, List.foldl_cons, List.foldl_nil, hv n hlt]
      omega
    · rw [Nat.toDigits_of_base_le hb (Nat.le_of_not_lt hlt), List.foldl_append,
        ih (n / base) (Nat.div_lt_self (by omega) hb), List.foldl_cons, List.foldl_nil,
        hv _ (Nat.mod_lt _ (by omega)), Nat.mul_comm, Nat.div_add_mod]

theorem foldl_lastDigits (hb : 0 < base) (hv : ∀ d < base, value (Nat.digitChar d) = d) :
    ∀ (width n : Nat), n < base ^ width →
      (lastDigits base width n).foldl (fun v c => v * base + value c) 0 = n := by
  intro width
  induction width with
  | zero =>
    intro n h
    rw [Nat.pow_zero] at h
    rw [lastDigits, List.foldl_nil]
    omega
  | succ width ih =>
    intro n h
    have hdiv : n / base < base ^ width :=
      Nat.div_lt_of_lt_mul (by rwa [Nat.mul_comm, ← Nat.pow_succ])
    rw [lastDigits, List.foldl_append, ih (n / base) hdiv, List.foldl_cons, List.foldl_nil,
      hv _ (Nat.mod_lt _ hb), Nat.mul_comm, Nat.div_add_mod]

end

end ExactCalc.Text
