/-
  ExactCalc.Proofs.Time.Stamp — a stamp's text reads back as the stamp: date, time of
  day, microseconds and offset alike (see `ExactCalc.Time.Stamp`).
-/

import ExactCalc.Proofs.Text.Numeral
import ExactCalc.Time.Stamp

namespace ExactCalc.Stamp

open Text

/-! ## Digits -/

theorem digit?_digitChar : ∀ d < 10, digit? (Nat.digitChar d) = some d := by decide

theorem isDigit_digitChar : ∀ d < 10, (Nat.digitChar d).isDigit = true := by decide

theorem two?_digitChar {a b : Nat} (ha : a < 10) (hb : b < 10) :
    two? (Nat.digitChar a) (Nat.digitChar b) = some (a * 10 + b) := by
  simp only [two?, digit?_digitChar a ha, digit?_digitChar b hb]
  rfl

theorem padded_eq {width n : Nat} (hw : 0 < width) (hn : n < 10 ^ width) :
    padded width n = lastDigits 10 width n :=
  pad_toDigits (by decide) hw hn

/-- A number of two digits, and the reader of two digits. -/
theorem padded_two {n : Nat} (hn : n < 100) :
    ∃ a b, padded 2 n = [a, b] ∧ two? a b = some n := by
  refine ⟨Nat.digitChar (n / 10 % 10), Nat.digitChar (n % 10), padded_eq (by decide) hn, ?_⟩
  rw [two?_digitChar (Nat.mod_lt _ (by decide)) (Nat.mod_lt _ (by decide))]
  congr 1
  omega

theorem padded_four {n : Nat} (hn : n < 10000) :
    ∃ a b c d, padded 4 n = [a, b, c, d] ∧ two? a b = some (n / 100) ∧ two? c d = some (n % 100) := by
  refine ⟨Nat.digitChar (n / 10 / 10 / 10 % 10), Nat.digitChar (n / 10 / 10 % 10),
    Nat.digitChar (n / 10 % 10), Nat.digitChar (n % 10), padded_eq (by decide) hn, ?_, ?_⟩
  · rw [two?_digitChar (Nat.mod_lt _ (by decide)) (Nat.mod_lt _ (by decide))]
    congr 1
    omega
  · rw [two?_digitChar (Nat.mod_lt _ (by decide)) (Nat.mod_lt _ (by decide))]
    congr 1
    omega

theorem mapM_digit? {width n : Nat} :
    (lastDigits 10 width n).mapM digit? = some ((lastDigits 10 width n).map fun c => c.toNat - 48) := by
  have h : ∀ cs : List Char, (∀ c ∈ cs, digit? c = some (c.toNat - 48)) →
      cs.mapM digit? = some (cs.map fun c => c.toNat - 48) := by
    intro cs
    induction cs with
    | nil => intro _; rfl
    | cons c cs ih =>
      intro h
      rw [List.mapM_cons, h c List.mem_cons_self, ih fun d hd => h d (List.mem_cons_of_mem _ hd)]
      rfl
  apply h _
  intro c hc
  obtain ⟨d, hd, rfl⟩ := mem_lastDigits (by decide) hc
  rw [digit?_digitChar d hd, Nat.toNat_digitChar_sub_48_of_lt_ten hd]

theorem fraction?_padded {n : Nat} (hn : n < 1000000) : fraction? (padded 6 n) = some n := by
  rw [padded_eq (by decide) hn]
  have hlen : (lastDigits 10 6 n).length = 6 := length_lastDigits 6 n
  have hne : (lastDigits 10 6 n).isEmpty = false := by
    rw [List.isEmpty_eq_false_iff, ← List.length_pos_iff, hlen]
    decide
  have hvalue := @foldl_lastDigits 10 (fun c => c.toNat - 48) (by decide)
    (fun d hd => Nat.toNat_digitChar_sub_48_of_lt_ten hd) 6 n hn
  rw [fraction?, hne, List.take_of_length_le (Nat.le_of_eq hlen), mapM_digit?, hlen]
  simp only [Option.map_some, List.foldl_map, hvalue]
  exact congrArg some (Nat.mul_one n)

/-! ## Offsets -/

theorem offset?_of_natAbs {offset : Int} (h : offset.natAbs < 1440) :
    offset? (offset < 0) (some (offset.natAbs / 60)) (some (offset.natAbs % 60)) = some offset := by
  have hh : offset.natAbs / 60 < 24 ∧ offset.natAbs % 60 < 60 := by omega
  simp only [offset?, bind, Option.bind, hh, and_self, if_true, decide_eq_true_eq]
  congr 1
  split <;> omega

theorem readOffset?_renderOffset {offset : Int} (h : offset.natAbs < 1440) :
    readOffset? (renderOffset offset) = some offset := by
  obtain ⟨a, b, hab, hhours⟩ := padded_two (n := offset.natAbs / 60) (by omega)
  obtain ⟨c, d, hcd, hminutes⟩ := padded_two (n := offset.natAbs % 60) (by omega)
  have hoffset := offset?_of_natAbs h
  rw [renderOffset, hab, hcd]
  by_cases hneg : offset < 0
  · simp only [hneg, decide_true] at hoffset
    simp only [hneg, if_true, readOffset?, hhours, hminutes, behind?, List.cons_append,
      List.nil_append]
    exact hoffset
  · simp only [hneg, decide_false] at hoffset
    simp only [hneg, if_false, readOffset?, hhours, hminutes, behind?, List.cons_append,
      List.nil_append]
    exact hoffset

/-- The offset as a stamp's text has it. -/
def offsetText (offset : Int) : List Char := if offset = 0 then ['Z'] else renderOffset offset

theorem readOffset?_offsetText {offset : Int} (h : offset.natAbs < 1440) :
    readOffset? (offsetText offset) = some offset := by
  unfold offsetText
  split
  · rename_i h0
    rw [h0]
    rfl
  · exact readOffset?_renderOffset h

/-- Starts with a character that goes on with no seconds. -/
def EndsSeconds (cs : List Char) : Prop :=
  ∃ c rest, cs = c :: rest ∧ c.isDigit = false ∧ c ≠ '.' ∧ c ≠ ','

theorem endsSeconds_renderOffset (offset : Int) : EndsSeconds (renderOffset offset) := by
  unfold renderOffset
  split
  · exact ⟨'-', _, rfl, by decide, by decide, by decide⟩
  · exact ⟨'+', _, rfl, by decide, by decide, by decide⟩

theorem endsSeconds_offsetText (offset : Int) : EndsSeconds (offsetText offset) := by
  unfold offsetText
  split
  · exact ⟨'Z', [], rfl, by decide, by decide, by decide⟩
  · exact endsSeconds_renderOffset offset

/-! ## Seconds -/

/-- The fraction as a stamp's text has it. -/
def fractionText (micro : Nat) : List Char := if micro = 0 then [] else '.' :: padded 6 micro

theorem readSeconds?_fractionText {second micro : Nat} (hs : second < 60) (hm : micro < 1000000)
    {tail : List Char} (ht : EndsSeconds tail) :
    readSeconds? (':' :: padded 2 second ++ (fractionText micro ++ tail)) =
      some (second, micro, tail) := by
  obtain ⟨a, b, hab, htwo⟩ := padded_two (n := second) (by omega)
  obtain ⟨c, rest, hoff, hdigit, hpoint, hcomma⟩ := ht
  rw [hab]
  unfold fractionText
  by_cases h0 : micro = 0
  · rw [if_pos h0, h0, hoff]
    simp only [List.cons_append, List.nil_append, readSeconds?, htwo, bind, Option.bind]
    split
    · rename_i h
      exact absurd (List.cons.inj h).1 hpoint
    · rename_i h
      exact absurd (List.cons.inj h).1 hcomma
    · rfl
  · have hdigits : ∀ x ∈ padded 6 micro, x.isDigit = true := by
      rw [padded_eq (by decide) hm]
      intro x hx
      obtain ⟨d, hd, rfl⟩ := mem_lastDigits (by decide) hx
      exact isDigit_digitChar d hd
    have htake : (padded 6 micro ++ tail).takeWhile Char.isDigit = padded 6 micro := by
      rw [List.takeWhile_append_of_pos hdigits, hoff, List.takeWhile_cons, if_neg (by simp [hdigit]),
        List.append_nil]
    have hdrop : (padded 6 micro ++ tail).dropWhile Char.isDigit = tail := by
      rw [List.dropWhile_append_of_pos hdigits, hoff, List.dropWhile_cons, if_neg (by simp [hdigit])]
    rw [if_neg h0]
    simp only [List.cons_append, List.nil_append, readSeconds?, htwo, htake, hdrop,
      fraction?_padded hm]
    rfl

/-! ## Stamps -/

theorem date_of? (d : Date) : Date.of? d.year d.month d.day = some d := by
  unfold Date.of?
  rw [dif_pos ⟨d.inYears, d.inMonth⟩]

theorem of?_parts (s : Stamp) :
    of? s.date s.hour.val s.minute.val s.second.val s.micro.val s.offset = some s := by
  unfold of?
  rw [dif_pos ⟨⟨s.hour.isLt, s.minute.isLt, s.second.isLt⟩, s.micro.isLt, s.offset_lt⟩]

theorem daysInMonth_le (year month : Nat) : daysInMonth year month ≤ 31 := by
  unfold daysInMonth
  split
  · split <;> decide
  · split
    · decide
    · split <;> decide

theorem month_le (d : Date) : d.month ≤ 12 := by
  apply Nat.le_of_not_lt
  intro h
  have hnone : daysInMonth d.year d.month = 0 := by
    have h2 : ¬ d.month = 2 := by omega
    have h4 : (d.month = 4 || d.month = 6 || d.month = 9 || d.month = 11) = false := by
      simp only [Bool.or_eq_false_iff, decide_eq_false_iff_not]
      omega
    have h12 : (1 ≤ d.month && d.month ≤ 12) = false := by
      simp only [Bool.and_eq_false_iff, decide_eq_false_iff_not]
      omega
    simp [daysInMonth, h2, h4, h12]
  have := d.inMonth
  omega

/-- Date and time are read with whatever offset comes after them. -/
theorem read?_renderLocal (s : Stamp) {tail : List Char} (ht : EndsSeconds tail)
    (ho : readOffset? tail = some s.offset) : read? (s.renderLocal ++ tail) = some s := by
  have hyear := s.date.inYears
  have hmonth := month_le s.date
  have hday := Nat.le_trans s.date.inMonth.2 (daysInMonth_le s.date.year s.date.month)
  obtain ⟨y₁, y₂, y₃, y₄, hy, hhigh, hlow⟩ := padded_four (n := s.date.year) (by omega)
  obtain ⟨m₁, m₂, hm, hm'⟩ := padded_two (n := s.date.month) (by omega)
  obtain ⟨d₁, d₂, hd, hd'⟩ := padded_two (n := s.date.day) (by omega)
  obtain ⟨h₁, h₂, hh, hh'⟩ := padded_two (n := s.hour.val) (by omega)
  obtain ⟨n₁, n₂, hn, hn'⟩ := padded_two (n := s.minute.val) (by omega)
  have htext : s.renderLocal ++ tail = y₁ :: y₂ :: y₃ :: y₄ :: '-' :: m₁ :: m₂ :: '-' :: d₁ :: d₂ ::
      'T' :: h₁ :: h₂ :: ':' :: n₁ :: n₂ ::
        (':' :: padded 2 s.second.val ++ (fractionText s.micro.val ++ tail)) := by
    unfold renderLocal
    rw [hy, hm, hd, hh, hn]
    simp only [List.cons_append, List.nil_append, List.append_assoc]
    rfl
  have hyears : s.date.year / 100 * 100 + s.date.year % 100 = s.date.year := by omega
  rw [htext, read?, if_pos (Or.inl rfl)]
  simp only [hhigh, hlow, hm', hd', hh', hn', bind, Option.bind, hyears, date_of?,
    readSeconds?_fractionText s.second.isLt s.micro.isLt ht, ho, of?_parts]

/-- The text of a stamp reads back as the stamp. -/
theorem read?_render (s : Stamp) : read? s.render = some s :=
  read?_renderLocal s (endsSeconds_offsetText s.offset) (readOffset?_offsetText s.offset_lt)

/-- So does the text with the offset written out. -/
theorem read?_renderFull (s : Stamp) : read? s.renderFull = some s :=
  read?_renderLocal s (endsSeconds_renderOffset s.offset) (readOffset?_renderOffset s.offset_lt)

end ExactCalc.Stamp
