/-
  ExactCalc.Proofs.Text.Symbol — texts whose halves of surrogate pairs are settled (see
  `ExactCalc.Text.Symbol`): no two of them make a character, and each is a half indeed.
  Texts of characters are settled, and joining settles any text. On settled texts the
  order by code points is a linear one.
-/

import ExactCalc.Text.Symbol

namespace ExactCalc.Text

namespace Symbol

/-- A half has the code of one. -/
def Valid : Symbol → Prop
  | char _ => True
  | half n => isHigh n = true ∨ isLow n = true

theorem isHigh_iff {n : Nat} : isHigh n = true ↔ 0xD800 ≤ n ∧ n < 0xDC00 := by
  simp [isHigh]

theorem isLow_iff {n : Nat} : isLow n = true ↔ 0xDC00 ≤ n ∧ n < 0xE000 := by
  simp [isLow]

theorem valid_half_iff {n : Nat} : (half n).Valid ↔ 0xD800 ≤ n ∧ n < 0xE000 := by
  simp only [Valid, isHigh_iff, isLow_iff]
  omega

theorem valid_ofUnit (n : Nat) : (ofUnit n).Valid := by
  unfold ofUnit
  split
  · rename_i h
    rwa [Bool.or_eq_true] at h
  · trivial

/-- A pair of halves in front is joined, and nothing else is. -/
theorem join_of_pair {high low : Nat} (hh : isHigh high = true) (hl : isLow low = true)
    (rest : Symbols) : join (half high) (half low :: rest) =
      char (Char.ofNat (0x10000 + (high - 0xD800) * 0x400 + (low - 0xDC00))) :: rest := by
  simp [join, hh, hl]

theorem join_of_not_high {n : Nat} (h : isHigh n = false) (rest : Symbols) :
    join (half n) rest = half n :: rest := by
  unfold join
  split
  · rename_i hs
    cases hs
    simp [h]
  · rfl

/-- What joining gives: a character and what was behind the half it took, or the symbol in front. -/
theorem join_cases (s : Symbol) (rest : Symbols) :
    (∃ low c more, rest = half low :: more ∧ isLow low = true ∧ join s rest = char c :: more) ∨
      join s rest = s :: rest := by
  unfold join
  split
  · rename_i high low more
    split
    · rename_i h
      rw [Bool.and_eq_true] at h
      exact Or.inl ⟨low, _, more, rfl, h.2, rfl⟩
    · exact Or.inr rfl
  · exact Or.inr rfl

theorem isHigh_of_isLow {n : Nat} (h : isLow n = true) : isHigh n = false := by
  rw [isLow_iff] at h
  rw [Bool.eq_false_iff, ne_eq, isHigh_iff]
  omega

theorem eq_of_code_eq {a b : Symbol} (ha : a.Valid) (hb : b.Valid) (h : a.code = b.code) : a = b := by
  have apart : ∀ (c : Char) (n : Nat), (half n).Valid → c.toNat ≠ n := by
    intro c n hn hc
    rw [valid_half_iff] at hn
    have := c.valid
    rw [UInt32.isValidChar, Nat.isValidChar] at this
    have hc' : c.val.toNat = n := hc
    omega
  cases a with
  | char c =>
    cases b with
    | char d => rw [Char.toNat_inj.mp h]
    | half n => exact absurd h (apart c n hb)
  | half n =>
    cases b with
    | char d => exact absurd h.symm (apart d n ha)
    | half m =>
      obtain rfl : n = m := h
      rfl

end Symbol

namespace Symbols

/-- Nothing is left to join, and each half is one. -/
structure Settled (s : Symbols) : Prop where
  joined : s.joined = s
  valid : ∀ c ∈ s, c.Valid

theorem joined_cons (c : Symbol) (s : Symbols) : joined (c :: s) = c.join s.joined := rfl

theorem settled_nil : Settled [] := ⟨rfl, nofun⟩

theorem Settled.tail {c : Symbol} {s : Symbols} (h : Settled (c :: s)) (hc : ∀ n, c = .half n →
    Symbol.isLow n = true) : Settled s := by
  refine ⟨?_, fun d hd => h.valid d (List.mem_cons_of_mem _ hd)⟩
  have hj := h.joined
  rw [joined_cons] at hj
  cases c with
  | char c => exact (List.cons.inj hj).2
  | half n =>
    rw [Symbol.join_of_not_high (Symbol.isHigh_of_isLow (hc n rfl))] at hj
    exact (List.cons.inj hj).2

/-- Putting a symbol in front of a settled text leaves it settled. -/
theorem settled_join {c : Symbol} {s : Symbols} (hc : c.Valid) (h : s.Settled) :
    Settled (c.join s) := by
  rcases Symbol.join_cases c s with ⟨low, d, more, rfl, hlow, hj⟩ | hj
  · have hmore : Settled more := h.tail fun n hn => by cases hn; exact hlow
    rw [hj]
    refine ⟨?_, fun e he => ?_⟩
    · rw [joined_cons, hmore.joined]
      rfl
    · rcases List.mem_cons.mp he with rfl | he
      · trivial
      · exact hmore.valid e he
  · rw [hj]
    refine ⟨?_, fun e he => ?_⟩
    · rw [joined_cons, h.joined, hj]
    · rcases List.mem_cons.mp he with rfl | he
      · exact hc
      · exact h.valid e he

/-- Joining settles a text. -/
theorem settled_joined {s : Symbols} (h : ∀ c ∈ s, c.Valid) : s.joined.Settled := by
  induction s with
  | nil => exact settled_nil
  | cons c s ih =>
    exact settled_join (h c List.mem_cons_self) (ih fun d hd => h d (List.mem_cons_of_mem _ hd))

/-! ## Texts of characters -/

theorem settled_ofString (s : String) : (ofString s).Settled := by
  unfold ofString
  induction s.toList with
  | nil => exact settled_nil
  | cons c cs ih => exact settled_join (c := .char c) trivial ih

@[simp] theorem toString?_ofString (s : String) : (ofString s).toString? = some s := by
  have h : ∀ cs : List Char, (cs.map Symbol.char).mapM Symbol.char? = some cs := by
    intro cs
    induction cs with
    | nil => rfl
    | cons c cs ih =>
      rw [List.map_cons, List.mapM_cons, ih]
      rfl
  rw [toString?, ofString, h, Option.map_some, String.ofList_toList]

@[simp] theorem ofString_inj {s t : String} : ofString s = ofString t ↔ s = t := by
  refine ⟨fun h => ?_, fun h => h ▸ rfl⟩
  have := congrArg toString? h
  rwa [toString?_ofString, toString?_ofString, Option.some_inj] at this

@[simp] theorem display_ofString (s : String) : (ofString s).display = s := by
  unfold display ofString
  rw [List.map_map]
  exact (congrArg String.ofList (List.map_id s.toList)).trans String.ofList_toList

/-- A text that is shown without the replacement character is the one that is shown. -/
theorem ofString_display {s : Symbols} (h : '\uFFFD' ∉ s.display.toList) :
    ofString s.display = s := by
  unfold ofString display at *
  rw [String.toList_ofList] at *
  rw [List.map_map]
  refine (List.map_congr_left fun c hc => ?_).trans (List.map_id s)
  cases c with
  | char c => rfl
  | half n => exact absurd (List.mem_map.mpr ⟨Symbol.half n, hc, rfl⟩) h

/-! ## Order -/

theorem le_cons {a b : Symbol} {s t : Symbols} :
    le (a :: s) (b :: t) = true ↔ a.code < b.code ∨ a.code = b.code ∧ le s t = true := by
  simp [le]

theorem le_total (s t : Symbols) : (le s t || le t s) = true := by
  rw [Bool.or_eq_true]
  induction s generalizing t with
  | nil => exact Or.inl rfl
  | cons a s ih =>
    cases t with
    | nil => exact Or.inr rfl
    | cons b t =>
      rw [le_cons, le_cons]
      rcases Nat.lt_trichotomy a.code b.code with h | h | h
      · exact Or.inl (Or.inl h)
      · exact (ih t).imp (fun hs => Or.inr ⟨h, hs⟩) (fun hs => Or.inr ⟨h.symm, hs⟩)
      · exact Or.inr (Or.inl h)

theorem le_trans {r s t : Symbols} (h : le r s = true) (h' : le s t = true) : le r t = true := by
  induction r generalizing s t with
  | nil => rfl
  | cons a r ih =>
    cases s with
    | nil => cases h
    | cons b s =>
      cases t with
      | nil => cases h'
      | cons c t =>
        rw [le_cons] at h h' ⊢
        rcases h with h | ⟨he, h⟩
        · rcases h' with h' | ⟨he', -⟩
          · exact Or.inl (Nat.lt_trans h h')
          · exact Or.inl (he' ▸ h)
        · rcases h' with h' | ⟨he', h'⟩
          · exact Or.inl (he ▸ h')
          · exact Or.inr ⟨he.trans he', ih h h'⟩

theorem le_antisymm {s t : Symbols} (hs : ∀ c ∈ s, c.Valid) (ht : ∀ c ∈ t, c.Valid)
    (h : le s t = true) (h' : le t s = true) : s = t := by
  induction s generalizing t with
  | nil =>
    cases t with
    | nil => rfl
    | cons b t => cases h'
  | cons a s ih =>
    cases t with
    | nil => cases h
    | cons b t =>
      rw [le_cons] at h h'
      have hcode : a.code = b.code := by
        rcases h with h | ⟨he, -⟩
        · rcases h' with h' | ⟨he', -⟩
          · exact absurd h' (Nat.lt_asymm h)
          · exact he'.symm
        · exact he
      have hst : le s t = true := (h.resolve_left (by omega)).2
      have hts : le t s = true := (h'.resolve_left (by omega)).2
      rw [Symbol.eq_of_code_eq (hs a List.mem_cons_self) (ht b List.mem_cons_self) hcode,
        ih (fun c hc => hs c (List.mem_cons_of_mem _ hc))
          (fun c hc => ht c (List.mem_cons_of_mem _ hc)) hst hts]

end Symbols

end ExactCalc.Text
