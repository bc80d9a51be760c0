/-
  ExactCalc.Proofs.Time.Date — the calendar (see `ExactCalc.Time.Date`): every day of
  the years 1 to 9999 has its date, and every second its stamp in UTC.

  A day of the count is taken apart into whole cycles of 400, 100, 4 and 1 years
  (`yearOf_spec`) and then into months (`monthFrom_spec`); the date so found counts the
  same day (`ofDays?_eq_some`). With the time of day, a stamp tells the second it was
  made from (`Stamp.ofEpoch?_eq_some`).
-/

import ExactCalc.Time.Stamp
import Mathlib.Data.List.Range

namespace ExactCalc

namespace Date

/-! ## Years -/

def daysInYear (year : Nat) : Nat := if isLeap year then 366 else 365

theorem isLeap_iff (year : Nat) :
    isLeap year = true ↔ year % 4 = 0 ∧ (year % 100 ≠ 0 ∨ year % 400 = 0) := by
  simp [isLeap]

/-- The year of a day, and which day of the year it is. A cycle of four centuries has 146097 days;
of its four centuries the last one has a day more, and so has the last year of four. -/
theorem yearOf_spec (day : Nat) :
    let year := (yearOf day).1
    daysBeforeYear year + (yearOf day).2 = day ∧ 1 ≤ year ∧ (yearOf day).2 < daysInYear year := by
  let a := day / 146097
  let r400 := day % 146097
  let c := min (r400 / 36524) 3
  let r100 := r400 - c * 36524
  let b := r100 / 1461
  let r4 := r100 % 1461
  let e := min (r4 / 365) 3
  have hyear : (yearOf day).1 = a * 400 + c * 100 + b * 4 + e + 1 := rfl
  have hrest : (yearOf day).2 = r4 - e * 365 := rfl
  have hday : day = 146097 * a + r400 ∧ r400 < 146097 := by omega
  have hcentury : r400 = 36524 * c + r100 ∧ c ≤ 3 ∧ (r100 < 36524 ∨ (c = 3 ∧ r100 = 36524)) := by
    omega
  have hfour : r100 = 1461 * b + r4 ∧ r4 < 1461 ∧ b ≤ 24 := by omega
  have hone : r4 = 365 * e + (r4 - e * 365) ∧ e ≤ 3 ∧
      (r4 - e * 365 < 365 ∨ (e = 3 ∧ r4 = 1460)) := by omega
  intro year
  have hy : year = a * 400 + c * 100 + b * 4 + e + 1 := hyear
  refine ⟨?_, by omega, ?_⟩
  · rw [hrest]
    show daysBeforeYear year + _ = _
    unfold daysBeforeYear
    have h4 : (year - 1) / 4 = 100 * a + 25 * c + b := by omega
    have h100 : (year - 1) / 100 = 4 * a + c := by omega
    have h400 : (year - 1) / 400 = a := by omega
    simp only [h4, h100, h400]
    omega
  · rw [hrest]
    unfold daysInYear
    split
    · omega
    · rename_i hleap
      rw [isLeap_iff] at hleap
      -- the last day of a year of 366 days is in a year that is the last one of four
      have hlast : ¬ (e = 3 ∧ r4 = 1460) := by
        rintro ⟨he, hr4⟩
        exact hleap (by omega)
      omega

/-! ## Months -/

/-- Days in the months of a year from one on. -/
def daysInMonths (year first count : Nat) : Nat :=
  ((List.range' first count).map (daysInMonth year)).foldr (· + ·) 0

theorem daysInMonths_succ (year first count : Nat) :
    daysInMonths year first (count + 1) =
      daysInMonth year first + daysInMonths year (first + 1) count := by
  simp [daysInMonths, List.range'_succ]

theorem daysInMonths_twelve (year : Nat) : daysInMonths year 1 12 = daysInYear year := by
  cases h : isLeap year with
  | true => simp [daysInMonths, daysInYear, daysInMonth, List.range'_succ, h]
  | false => simp [daysInMonths, daysInYear, daysInMonth, List.range'_succ, h]

theorem daysBeforeMonth_eq (year month : Nat) :
    daysBeforeMonth year month = daysInMonths year 1 (month - 1) := by
  unfold daysBeforeMonth daysInMonths
  rw [← List.sum_eq_foldr, List.sum_eq_foldl, List.foldl_map]

/-- The month of a day in a run of months, and which day of the month it is. -/
theorem monthFrom_spec (year : Nat) {first count day : Nat} (h : day < daysInMonths year first count) :
    let m := monthFrom year (List.range' first count) day
    ∃ before, m.1 = first + before ∧ before < count ∧
      daysInMonths year first before + (m.2 - 1) = day ∧ 1 ≤ m.2 ∧ m.2 ≤ daysInMonth year m.1 := by
  induction count generalizing first day with
  | zero => cases h
  | succ count ih =>
    rw [daysInMonths_succ] at h
    rw [List.range'_succ]
    unfold monthFrom
    by_cases hday : day < daysInMonth year first
    · rw [if_pos hday]
      refine ⟨0, rfl, by omega, ?_, ?_⟩
      · show 0 + (day + 1 - 1) = day
        omega
      · exact ⟨by omega, hday⟩
    · rw [if_neg hday]
      have hrest : day - daysInMonth year first < daysInMonths year (first + 1) count := by omega
      obtain ⟨before, hmonth, hlt, hsum, hone, hle⟩ := ih hrest
      refine ⟨before + 1, by omega, by omega, ?_, hone, hle⟩
      rw [daysInMonths_succ]
      omega

/-! ## Dates -/

theorem ofDays?_eq {days : Int} {day year rest month ofMonth : Nat} (h : days + epochDay = day)
    (hyear : yearOf day = (year, rest))
    (hmonth : monthFrom year (List.range' 1 12) rest = (month, ofMonth)) :
    ofDays? days = of? year month ofMonth := by
  unfold ofDays?
  dsimp only
  rw [h, if_neg (by omega), Int.toNat_natCast, hyear]
  dsimp only
  rw [hmonth]

/-- The days of the years 1 to 9999 have dates, and each date counts its day. -/
theorem ofDays?_eq_some {days : Int} (h : -719162 ≤ days ∧ days ≤ 2932896) :
    ∃ d, ofDays? days = some d ∧ d.toDays = days := by
  obtain ⟨day, hday, hlt⟩ : ∃ day : Nat, days + epochDay = day ∧ day < 3652059 := by
    refine ⟨(days + epochDay).toNat, ?_, ?_⟩
    · unfold epochDay
      omega
    · unfold epochDay
      omega
  obtain ⟨hsum, hone, hrest⟩ := yearOf_spec day
  obtain ⟨year, rest, hyear⟩ : ∃ year rest, yearOf day = (year, rest) := ⟨_, _, rfl⟩
  rw [hyear] at hsum hone hrest
  dsimp only at hsum hone hrest
  have hyears : year ≤ 9999 := by
    unfold daysBeforeYear at hsum
    dsimp only at hsum
    omega
  rw [← daysInMonths_twelve] at hrest
  obtain ⟨before, hmonth, -, hbefore, hfirst, hlast⟩ := monthFrom_spec year hrest
  obtain ⟨month, ofMonth, hm⟩ : ∃ month ofMonth,
      monthFrom year (List.range' 1 12) rest = (month, ofMonth) := ⟨_, _, rfl⟩
  rw [hm] at hmonth hbefore hfirst hlast
  rw [ofDays?_eq hday hyear hm, of?, dif_pos ⟨⟨hone, hyears⟩, hfirst, hlast⟩]
  refine ⟨_, rfl, ?_⟩
  unfold toDays
  dsimp only at hmonth hbefore ⊢
  rw [daysBeforeMonth_eq, hmonth, Nat.add_sub_cancel_left]
  omega

end Date

namespace Stamp

/-- The seconds of UTC in the years 1 to 9999. -/
def InYears (seconds : Int) : Prop := -62135596800 ≤ seconds ∧ seconds < 253402300800

instance (seconds : Int) : Decidable (InYears seconds) := inferInstanceAs (Decidable (_ ∧ _))

/-- Each of them has a stamp, which is in UTC and tells just that second. -/
theorem ofEpoch?_eq_some {seconds : Int} (h : InYears seconds) :
    ∃ t, ofEpoch? seconds 0 = some t ∧ t.offset = 0 ∧ t.instant = seconds * 1000000 := by
  have hrange : -719162 ≤ seconds / 86400 ∧ seconds / 86400 ≤ 2932896 := by
    unfold InYears at h
    omega
  obtain ⟨d, hd, hdays⟩ := Date.ofDays?_eq_some hrange
  unfold ofEpoch?
  rw [hd]
  refine ⟨_, rfl, rfl, ?_⟩
  unfold instant
  simp only [hdays, Fin.val_ofNat]
  omega

end Stamp

end ExactCalc
