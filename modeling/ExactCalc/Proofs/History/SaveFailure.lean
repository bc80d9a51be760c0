/-
  ExactCalc.Proofs.History.SaveFailure — saves that fail: which of their failures a user
  is told of, and what they leave on the disk (`HistoryStore.save`; see
  `ExactCalc.History.Store`).

  The temporary file of a save that fails is removed. That cannot be done where the way
  to it is obstructed, and then the failure is one of the system (`save_system`,
  `save_of_obstructed`); every other failure is a `SaveError`. Either way no file has
  come, gone or changed (`save_spares`).
-/

import ExactCalc.Proofs.Disk.Obstacles
import ExactCalc.Proofs.History.Saving

namespace ExactCalc

namespace Store

open Disk

variable {s : Store} {p : Path} {bytes : Bytes} {mishap : Option Mishap} {d : Disk}

/-- What keeps the temporary file of a save from being written and from being looked for: the path
has no name, a regular file stands where it needs a folder, or the system takes no path with the
temporary name. -/
def Obstructed (p : Path) (mishap : Option Mishap) (d : Disk) : Prop :=
  p.name? = none ∨ d.FileOnTheWay p ∨ (temporaryOf p mishap d).Refused

/-! ## Replacing -/

theorem exists_temporaryOf_eq (p : Path) (mishap : Option Mishap) (d : Disk) :
    ∃ n, temporaryOf p mishap d = sibling p n := exists_temporary_eq _ p

theorem replaceFile_system {f : SystemFailure}
    (h : (replaceFile p bytes mishap d).1 = .error (.inr f)) : Obstructed p mishap d := by
  rcases replaceFile_system_iff.mp ⟨f, h⟩ with hname | hblocks
  · exact Or.inl hname
  right
  obtain ⟨n, hn⟩ := exists_temporaryOf_eq p mishap d
  rcases blocks_cases hblocks with hrefused | hfile
  · exact Or.inr hrefused
  · rw [hn, FileOnTheWay, parent_sibling] at hfile
    exact Or.inl ((fileAlong_congr (fun q => (prepare_spares q p mishap d).file) [] _).mp hfile)

theorem prepare_disk (hm : ∀ reached, mishap ≠ some (.making reached)) :
    (prepare p mishap d).2 = (d.makeParent p).2 := by
  unfold prepare
  split
  · rename_i reached
    exact absurd rfl (hm reached)
  · rcases d.makeParent p with ⟨_ | _, made⟩
    · rfl
    · rfl

/-- Where no mishap stops the making of folders, an obstruction is met. -/
theorem replaceFile_of_obstructed (hm : ∀ reached, mishap ≠ some (.making reached))
    (h : Obstructed p mishap d) : ∃ f, (replaceFile p bytes mishap d).1 = .error (.inr f) := by
  rw [replaceFile_system_iff]
  refine h.imp id fun h => ?_
  obtain ⟨n, hn⟩ := exists_temporaryOf_eq p mishap d
  rw [hn] at h ⊢
  rw [prepare_disk hm, blocks_sibling_iff]
  exact h.symm

/-! ## Saving -/

theorem encoded_of_not_encoding (hm : ∀ detail, mishap ≠ some (.encoding detail)) :
    s.encoded mishap = .ok s.history.encode := by
  unfold encoded
  split
  · rename_i detail
    exact absurd rfl (hm detail)
  · rfl

/-- What a save gives is what replacing the file gives, once the history is encoded. -/
theorem save_of_encoded (hb : s.encoded mishap = .ok bytes) {r : Except (DiskError ⊕ SystemFailure) Unit}
    (hr : (replaceFile s.path bytes mishap d).1 = r) :
    (r = .ok () ∧ (s.save mishap d).1 = .ok { s with dirty := false, lastSize := some bytes.length }) ∨
    (∃ e, r = .error (.inl e) ∧
      (s.save mishap d).1 = .error (.error ⟨.notWritten e.message, s.path.text⟩)) ∨
    ∃ f, r = .error (.inr f) ∧ (s.save mishap d).1 = .error (.system f) := by
  subst hr
  unfold save
  rw [hb]
  dsimp only
  rcases replaceFile s.path bytes mishap d with ⟨(e | f) | _, d'⟩
  · exact Or.inr (Or.inl ⟨e, rfl, rfl⟩)
  · exact Or.inr (Or.inr ⟨f, rfl, rfl⟩)
  · exact Or.inl ⟨rfl, rfl⟩

/-- A save ends in a failure of the system only where the way to its temporary file is
obstructed. -/
theorem save_system {f : SystemFailure} (h : (s.save mishap d).1 = .error (.system f)) :
    Obstructed s.path mishap d := by
  cases hb : s.encoded mishap with
  | error e =>
    simp only [save, hb] at h
    cases h
  | ok bytes =>
    rcases save_of_encoded hb rfl with ⟨-, hs⟩ | ⟨e, -, hs⟩ | ⟨f', hr, -⟩
    · rw [hs] at h
      cases h
    · rw [hs] at h
      cases h
    · exact replaceFile_system hr

/-- And there it does, unless the history is not even encoded or the making of folders is stopped
before the obstruction. -/
theorem save_of_obstructed (hencoding : ∀ detail, mishap ≠ some (.encoding detail))
    (hmaking : ∀ reached, mishap ≠ some (.making reached)) (h : Obstructed s.path mishap d) :
    ∃ f, (s.save mishap d).1 = .error (.system f) := by
  obtain ⟨f, hf⟩ : ∃ f, (replaceFile s.path s.history.encode mishap d).1 = .error (.inr f) :=
    replaceFile_of_obstructed hmaking h
  rcases save_of_encoded (encoded_of_not_encoding hencoding) hf with
    ⟨hr, -⟩ | ⟨e, hr, -⟩ | ⟨f', -, hs⟩
  · cases hr
  · cases hr
  · exact ⟨f', hs⟩

/-- A save that fails leaves every file as it was, and none that is new. -/
theorem save_spares {f : SaveFailure} (h : (s.save mishap d).1 = .error f) (place : Place) :
    Spares place d (s.save mishap d).2 := by
  cases hb : s.encoded mishap with
  | error e =>
    simp only [save, hb]
    exact .refl place d
  | ok bytes =>
    rw [save_disk hb]
    rcases save_of_encoded hb rfl with ⟨-, hs⟩ | ⟨e, hr, -⟩ | ⟨f', hr, -⟩
    · rw [hs] at h
      cases h
    · exact replaceFile_spares hr place
    · exact replaceFile_spares hr place

end Store

end ExactCalc
