/-
  ExactCalc.Proofs.Json.Strings — a string reads back as it was written (see
  `ExactCalc.Json.Writer`).

  A character beyond the first plane is written as two units, and read as two halves,
  which are joined at the end; everything else is read as itself. So a settled text
  comes back whole.
-/

import ExactCalc.Json.Reader
import ExactCalc.Json.Writer
import ExactCalc.Proofs.Text.Places
import ExactCalc.Proofs.Text.Symbol

namespace ExactCalc.Json

open Text

/-! ## Units -/

theorem hexDigit?_digitChar : ∀ d < 16, hexDigit? (Nat.digitChar d) = some d := by decide

theorem hexPadded_four {n : Nat} (h : n < 65536) :
    ∃ a b c d, hexPadded 4 n = [a, b, c, d] ∧ unit? a b c d = some n := by
  refine ⟨Nat.digitChar (n / 16 / 16 / 16 % 16), Nat.digitChar (n / 16 / 16 % 16),
    Nat.digitChar (n / 16 % 16), Nat.digitChar (n % 16), pad_toDigits (by decide) (by decide) h, ?_⟩
  have hd := fun m => hexDigit?_digitChar (m % 16) (Nat.mod_lt _ (by decide))
  simp only [unit?, hd, bind, Option.bind, pure]
  congr 1
  omega

theorem stringFrom_escapedUnit {n : Nat} (h : n < 65536) (seen : Symbols) (rest : List Char) :
    stringFrom seen (escapedUnit n ++ rest) = stringFrom (.ofUnit n :: seen) rest := by
  obtain ⟨a, b, c, d, htext, hunit⟩ := hexPadded_four h
  rw [escapedUnit, htext]
  simp only [List.cons_append, List.nil_append, stringFrom, hunit]

theorem stringFrom_escape {e c : Char} (he : e ≠ 'u') (h : escape? e = some c) (seen : Symbols)
    (rest : List Char) : stringFrom seen ('\\' :: e :: rest) = stringFrom (.char c :: seen) rest := by
  rw [stringFrom.eq_4 _ _ _ (fun _ _ _ _ _ heq _ => he heq)]
  simp only [h]

theorem stringFrom_plain {c : Char} (hq : c ≠ '"') (hb : c ≠ '\\') (hc : 0x20 ≤ c.toNat)
    (seen : Symbols) (rest : List Char) :
    stringFrom seen (c :: rest) = stringFrom (.char c :: seen) rest := by
  rw [stringFrom.eq_5 _ _ _ hq (fun _ _ _ _ _ heq _ => hb heq) (fun _ _ heq _ => hb heq)]
  rw [if_neg]
  simp only [Bool.or_eq_true, decide_eq_true_eq, not_or]
  exact ⟨by omega, hb⟩

/-! ## Symbols -/

/-- The halves of a character beyond the first plane. -/
def highHalf (c : Char) : Nat := 0xD800 + (c.toNat - 0x10000) / 0x400

def lowHalf (c : Char) : Nat := 0xDC00 + (c.toNat - 0x10000) % 0x400

/-- What is read of a symbol before halves are joined. -/
def units : Symbol → Symbols
  | .half n => [.half n]
  | .char c => if c.toNat < 0x10000 then [.char c] else [.half (highHalf c), .half (lowHalf c)]

theorem toNat_lt (c : Char) : c.toNat < 0x110000 := by
  have h := c.valid
  rw [UInt32.isValidChar, Nat.isValidChar] at h
  have : c.val.toNat = c.toNat := rfl
  omega

theorem isHigh_highHalf (c : Char) : Symbol.isHigh (highHalf c) = true := by
  have := toNat_lt c
  rw [Symbol.isHigh_iff, highHalf]
  omega

theorem isLow_lowHalf (c : Char) : Symbol.isLow (lowHalf c) = true := by
  rw [Symbol.isLow_iff, lowHalf]
  omega

theorem ofUnit_of_valid {n : Nat} (h : (Symbol.half n).Valid) : Symbol.ofUnit n = .half n := by
  unfold Symbol.ofUnit
  rw [if_pos]
  rwa [Bool.or_eq_true]

theorem ofUnit_toNat (c : Char) : Symbol.ofUnit c.toNat = .char c := by
  have h := c.valid
  rw [UInt32.isValidChar, Nat.isValidChar] at h
  have hc : c.val.toNat = c.toNat := rfl
  unfold Symbol.ofUnit
  rw [if_neg, Char.ofNat_toNat]
  rw [Bool.or_eq_true, Symbol.isHigh_iff, Symbol.isLow_iff]
  omega

theorem stringFrom_escaped {s : Symbol} (h : s.Valid) (seen : Symbols) (rest : List Char) :
    stringFrom seen (escaped s ++ rest) = stringFrom ((units s).reverse ++ seen) rest := by
  cases s with
  | half n =>
    have hn := Symbol.valid_half_iff.mp h
    rw [escaped, stringFrom_escapedUnit (by omega), ofUnit_of_valid h]
    rfl
  | char c =>
    have small : c.toNat < 0x10000 → units (.char c) = [.char c] := fun hc => if_pos hc
    rw [escaped]
    repeat
      split
      · rename_i hc
        rw [hc]
        exact stringFrom_escape (by decide) rfl seen rest
    rename_i hq hb _ _ _ _ _
    split
    · rename_i hp
      rw [Bool.and_eq_true, decide_eq_true_eq, decide_eq_true_eq] at hp
      rw [small (by omega)]
      exact stringFrom_plain hq hb hp.1 seen rest
    split
    · rename_i hlt
      rw [stringFrom_escapedUnit hlt, ofUnit_toNat, small hlt]
      rfl
    · rename_i hge
      have hhigh := isHigh_highHalf c
      have hlow := isLow_lowHalf c
      have hhigh' := Symbol.isHigh_iff.mp hhigh
      have hlow' := Symbol.isLow_iff.mp hlow
      have hunits : units (.char c) = [.half (highHalf c), .half (lowHalf c)] := if_neg hge
      rw [hunits, List.append_assoc]
      show stringFrom seen (escapedUnit (highHalf c) ++ (escapedUnit (lowHalf c) ++ rest)) = _
      rw [stringFrom_escapedUnit (by omega), stringFrom_escapedUnit (by omega),
        ofUnit_of_valid (Or.inl hhigh), ofUnit_of_valid (Or.inr hlow)]
      rfl

/-! ## Strings -/

theorem stringFrom_flatMap : ∀ {s : Symbols} (seen : Symbols) (rest : List Char),
    (∀ c ∈ s, c.Valid) → stringFrom seen (s.flatMap escaped ++ '"' :: rest) =
      some (seen.reverse ++ s.flatMap units, rest) := by
  intro s
  induction s with
  | nil =>
    intro seen rest _
    rw [List.flatMap_nil, List.flatMap_nil, List.append_nil, List.nil_append, stringFrom]
  | cons c s ih =>
    intro seen rest h
    rw [List.flatMap_cons, List.append_assoc, stringFrom_escaped (h c List.mem_cons_self),
      ih _ rest fun d hd => h d (List.mem_cons_of_mem _ hd)]
    simp

/-- The halves of a character are joined to it again. -/
theorem joined_units {c : Symbol} {s : Symbols} :
    Symbols.joined (units c ++ s) = c.join (Symbols.joined s) := by
  cases c with
  | half n => rfl
  | char c =>
    by_cases h : c.toNat < 0x10000
    · rw [show units (.char c) = [.char c] from if_pos h]
      rfl
    · have hjoin := Symbol.join_of_pair (isHigh_highHalf c) (isLow_lowHalf c) (Symbols.joined s)
      have hcode : 0x10000 + (highHalf c - 0xD800) * 0x400 + (lowHalf c - 0xDC00) = c.toNat := by
        unfold highHalf lowHalf
        omega
      rw [hcode, Char.ofNat_toNat] at hjoin
      rw [show units (.char c) = [.half (highHalf c), .half (lowHalf c)] from if_neg h]
      show Symbol.join _ (Symbol.join _ (Symbols.joined s)) = _
      rw [Symbol.join_of_not_high (Symbol.isHigh_of_isLow (isLow_lowHalf c)), hjoin]
      rfl

theorem joined_flatMap_units (s : Symbols) : Symbols.joined (s.flatMap units) = s.joined := by
  induction s with
  | nil => rfl
  | cons c s ih => rw [List.flatMap_cons, joined_units, ih, Symbols.joined_cons]

/-- A settled text reads back from its string, whatever follows. -/
theorem string_renderString {s : Symbols} (h : s.Settled) (rest : List Char) :
    string (s.flatMap escaped ++ '"' :: rest) = some (s, rest) := by
  rw [string, stringFrom_flatMap [] rest h.valid]
  simp only [Option.map_some, List.reverse_nil, List.nil_append, joined_flatMap_units, h.joined]

theorem valid_of_stringFrom {seen s : Symbols} {cs rest : List Char} (hseen : ∀ c ∈ seen, c.Valid)
    (h : stringFrom seen cs = some (s, rest)) : ∀ c ∈ s, c.Valid := by
  have push : ∀ {c : Symbol} {l : Symbols}, c.Valid → (∀ d ∈ l, d.Valid) → ∀ d ∈ c :: l, d.Valid :=
    fun hc hl d hd => (List.mem_cons.mp hd).elim (fun e => e ▸ hc) (hl d)
  induction seen, cs using stringFrom.induct with
  | case1 seen => cases h
  | case2 seen rest' =>
    rw [stringFrom] at h
    cases h
    exact fun c hc => hseen c (List.mem_reverse.mp hc)
  | case3 seen a b c d rest' n hn ih =>
    rw [stringFrom, hn] at h
    exact ih (push (Symbol.valid_ofUnit n) hseen) h
  | case4 seen a b c d rest' hn =>
    rw [stringFrom, hn] at h
    cases h
  | case5 seen e rest' hu c hc ih =>
    rw [stringFrom.eq_4 _ _ _ hu, hc] at h
    exact ih (push trivial hseen) h
  | case6 seen e rest' hu hc =>
    rw [stringFrom.eq_4 _ _ _ hu, hc] at h
    cases h
  | case7 seen c rest' hq hu hb hc =>
    rw [stringFrom.eq_5 _ _ _ hq hu hb, if_pos hc] at h
    cases h
  | case8 seen c rest' hq hu hb hc ih =>
    rw [stringFrom.eq_5 _ _ _ hq hu hb, if_neg hc] at h
    exact ih (push trivial hseen) h

/-- What is read as a string is settled. -/
theorem settled_of_string {cs rest : List Char} {s : Symbols} (h : string cs = some (s, rest)) :
    s.Settled := by
  obtain ⟨⟨t, rest'⟩, ht, he⟩ := Option.map_eq_some_iff.mp h
  obtain ⟨rfl, -⟩ := Prod.mk.inj he
  exact Symbols.settled_joined (valid_of_stringFrom (fun _ hc => absurd hc List.not_mem_nil) ht)

end ExactCalc.Json
