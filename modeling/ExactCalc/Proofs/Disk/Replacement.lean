/-
  ExactCalc.Proofs.Disk.Replacement — a file is replaced whole or not at all
  (`HistoryStore.save`; see `ExactCalc.History.Store`).

  The temporary file has a place of its own beside the target, so nothing that is done
  before the move touches the target. `Moment` is every disk that a replacement passes
  through; on each of them the target holds either what it held before or all of the new
  bytes, and the latter only when the replacement succeeds (`moment_cases`).
-/

import ExactCalc.History.Store
import ExactCalc.Proofs.Disk.Places
import Mathlib.Data.String.Basic

namespace ExactCalc

namespace Disk

variable {d d' : Disk}

/-! ## Single changes -/

theorem makeFolders_spares (place : Place) : ∀ (names : List String) (d : Disk) (q : Place),
    Spares place d (d.makeFolders q names).2 := by
  intro names
  induction names with
  | nil => exact fun d _ => .refl place d
  | cons name names ih =>
    intro d q
    unfold makeFolders
    split
    · exact .refl place d
    · split
      · exact ih d _
      · exact .refl place d
      · rename_i hnone
        exact (spares_insert_folder hnone place).trans (ih _ _)

theorem makeParent_spares (place : Place) (d : Disk) (p : Path) :
    Spares place d (d.makeParent p).2 := by
  unfold makeParent
  split
  · exact .refl place d
  · exact makeFolders_spares place _ d []

theorem write_eq_ok {p : Path} {content : Bytes} (h : d.write p content = .ok d') :
    d.locate p = .ok p.place ∧ d.node? p.place ≠ some .folder ∧
      d' = ⟨d.nodes.insert p.place (.file content)⟩ := by
  obtain ⟨q, hq, h⟩ := bind_eq_ok.mp h
  obtain rfl := locate_eq_ok hq
  split at h
  · cases h
  · rename_i hn
    exact ⟨hq, hn, (Except.ok.inj h).symm⟩

theorem write_spares {p : Path} {content : Bytes} (h : d.write p content = .ok d') {place : Place}
    (hne : place ≠ p.place) : Spares place d d' := by
  obtain ⟨-, hn, rfl⟩ := write_eq_ok h
  exact spares_insert hn hne

theorem read_write {p : Path} {content : Bytes} (h : d.write p content = .ok d') :
    d'.read p = .ok content := by
  obtain ⟨hl, hn, rfl⟩ := write_eq_ok h
  have hq := ne_nil_of_not_folder hn
  refine read_eq_ok.mpr ⟨?_, ?_⟩
  · exact (foldersStay_insert hn).locate hl
  · rw [fileAt_eq_some_iff, node?_insert hq, if_pos rfl]

/-- A move takes a file away and puts its content elsewhere. -/
theorem read_move {source target : Path} {content : Bytes} (hr : d.read source = .ok content)
    (h : d.move source target = .ok d') : d'.read target = .ok content := by
  obtain ⟨c, hc, h⟩ := bind_eq_ok.mp h
  obtain rfl : c = content := Except.ok.inj (hc.symm.trans hr)
  obtain ⟨old, hold, h⟩ := bind_eq_ok.mp h
  obtain ⟨new, hnew, h⟩ := bind_eq_ok.mp h
  obtain rfl := locate_eq_ok hold
  obtain rfl := locate_eq_ok hnew
  have hfile := fileAt_eq_some_iff.mp (read_eq_ok.mp hr).2
  have hnot : d.node? source.place ≠ some .folder := by
    intro he
    rw [hfile] at he
    cases he
  split at h
  · cases h
  · rename_i hn
    have herase := foldersStay_erase hnot
    have hq : target.place ≠ [] := ne_nil_of_not_folder hn
    cases h
    refine read_eq_ok.mpr ⟨?_, ?_⟩
    · refine FoldersStay.locate (fun r hr => ?_) hnew
      rw [node?_insert hq, if_neg (fun (e : r = target.place) => hn (e ▸ hr))]
      exact herase r hr
    · rw [fileAt_eq_some_iff, node?_insert hq, if_pos rfl]

theorem discard_spares {p : Path} (h : d.discard p = .ok d') {place : Place}
    (hne : place ≠ p.place) : Spares place d d' := by
  have hremove : d.remove p = .ok d' → Spares place d d' := by
    intro h
    obtain ⟨q, hq, h⟩ := bind_eq_ok.mp h
    obtain rfl := locate_eq_ok hq
    split at h
    · rename_i c hc
      cases h
      refine spares_erase (fun he => ?_) hne
      rw [hc] at he
      cases he
    · cases h
    · cases h
  unfold discard at h
  split at h
  · cases h
    exact .refl place _
  · exact hremove h

/-! ## Temporary places -/

/-- The name of a temporary file beside one of that name. -/
def temporaryName (name : String) (n : Nat) : String :=
  name ++ "." ++ String.ofList (List.replicate (32 - n.repr.length) '0') ++ n.repr ++ ".tmp"

theorem parts_sibling (p : Path) (n : Nat) :
    (sibling p n).parts = p.parent.parts ++ [temporaryName p.name n] := rfl

theorem length_temporaryName (name : String) (n : Nat) :
    name.length + 5 ≤ (temporaryName name n).length := by
  have hdot : ".".length = 1 := rfl
  have hending : ".tmp".length = 4 := rfl
  simp only [temporaryName, String.length_append, hdot, hending]
  omega

theorem temporaryName_ne_dots (name : String) (n : Nat) : temporaryName name n ≠ ".." := by
  intro h
  have hlength := length_temporaryName name n
  rw [h, show "..".length = 2 from rfl] at hlength
  omega

theorem place_sibling (p : Path) (n : Nat) :
    (sibling p n).place = p.parent.parts.foldl next [] ++ [temporaryName p.name n] := by
  rw [Path.place, parts_sibling, List.foldl_append, List.foldl_cons, List.foldl_nil, next,
    if_neg (temporaryName_ne_dots p.name n)]

/-- A temporary file stands beside the target, under a longer name. -/
theorem sibling_place {p : Path} {name : String} (h : p.name? = some name) (n : Nat) :
    p.place ≠ (sibling p n).place := by
  have hname : p.name = name := by
    unfold Path.name
    rw [h]
    rfl
  have hlength := length_temporaryName name n
  rw [place_of_name h, place_sibling, hname]
  generalize p.parent.parts.foldl next [] = folder
  unfold next
  split
  · intro he
    have := congrArg List.length he
    simp only [List.length_dropLast, List.length_append, List.length_singleton] at this
    omega
  · intro he
    have hsame := List.singleton_inj.mp (List.append_cancel_left he)
    rw [← hsame] at hlength
    omega

theorem exists_temporary_eq (d : Disk) (p : Path) : ∃ n, d.temporary p = sibling p n := by
  unfold temporary
  cases hf : ((List.range (d.nodes.size + 1)).map (sibling p)).find? fun q => !d.holds q with
  | none => exact ⟨0, rfl⟩
  | some q =>
    obtain ⟨n, -, hn⟩ := List.mem_map.mp (List.mem_of_find?_eq_some hf)
    exact ⟨n, hn.symm⟩

theorem temporary_place {p : Path} {name : String} (h : p.name? = some name) (d : Disk) :
    p.place ≠ (d.temporary p).place := by
  obtain ⟨n, hn⟩ := d.exists_temporary_eq p
  rw [hn]
  exact sibling_place h n

end Disk

namespace Store

open Disk

variable {target : Path} {bytes : Bytes} {mishap : Option Mishap} {d : Disk}

/-! ## Replacing a file -/

theorem prepare_spares (place : Place) (target : Path) (mishap : Option Mishap) (d : Disk) :
    Spares place d (prepare target mishap d).2 := by
  unfold prepare
  split
  · rename_i reached
    have hmade := makeParent_spares place d ⟨target.anchor, target.parts.take (reached + 1)⟩
    split
    · rename_i hm
      rwa [hm] at hmade
    · rename_i hm
      rwa [hm] at hmade
  · have hmade := makeParent_spares place d target
    split
    · rename_i hm
      rwa [hm] at hmade
    · rename_i hm
      rwa [hm] at hmade

/-- The temporary file is there whole, or not at all, or in part and then with an error. -/
theorem writeTemporary_cases (temporary : Path) (bytes : Bytes) (mishap : Option Mishap) (d : Disk) :
    (∃ written, d.write temporary bytes = .ok written ∧
      writeTemporary temporary bytes mishap d = (.ok (), written)) ∨
    (∃ e, writeTemporary temporary bytes mishap d = (.error e, d)) ∨
    ∃ e part written, d.write temporary part = .ok written ∧
      writeTemporary temporary bytes mishap d = (.error e, written) := by
  unfold writeTemporary
  split
  · exact Or.inr (Or.inl ⟨_, rfl⟩)
  · split
    · rename_i written hw
      exact Or.inr (Or.inr ⟨_, _, written, hw, rfl⟩)
    · exact Or.inr (Or.inl ⟨_, rfl⟩)
  · split
    · rename_i written hw
      exact Or.inl ⟨written, hw, rfl⟩
    · exact Or.inr (Or.inl ⟨_, rfl⟩)

/-- What is published is moved from the temporary file; after an error only that file may be
there. -/
theorem publish_cases (target temporary : Path) (bytes : Bytes) (mishap : Option Mishap) (d : Disk) :
    (∃ written moved, d.write temporary bytes = .ok written ∧
      written.move temporary target = .ok moved ∧
      publish target temporary bytes mishap d = (.ok (), moved)) ∨
    (∃ e, publish target temporary bytes mishap d = (.error e, d)) ∨
    ∃ e part written, d.write temporary part = .ok written ∧
      publish target temporary bytes mishap d = (.error e, written) := by
  unfold publish
  rcases writeTemporary_cases temporary bytes mishap d with
    ⟨written, hw, heq⟩ | ⟨e, heq⟩ | ⟨e, part, written, hw, heq⟩
  · rw [heq]
    dsimp only
    split
    · rename_i e he
      exact Or.inr (Or.inr ⟨e, bytes, written, hw, rfl⟩)
    · rename_i moved hm
      have hmove : written.move temporary target = .ok moved := by
        split at hm
        · cases hm
        · exact hm
      exact Or.inl ⟨written, moved, hw, hmove, rfl⟩
  · rw [heq]
    exact Or.inr (Or.inl ⟨e, rfl⟩)
  · rw [heq]
    exact Or.inr (Or.inr ⟨e, part, written, hw, rfl⟩)

/-- A replacement up to the move: the folder is made, then the file is written and moved. -/
def attempt (target : Path) (bytes : Bytes) (mishap : Option Mishap) (d : Disk) :
    Except DiskError Unit × Disk :=
  match prepare target mishap d with
  | (.ok (), made) => publish target (made.temporary target) bytes mishap made
  | (.error e, made) => (.error e, made)

/-- The temporary place of a replacement. -/
def temporaryOf (target : Path) (mishap : Option Mishap) (d : Disk) : Path :=
  (prepare target mishap d).2.temporary target

/-- An attempt that fails leaves folders and perhaps the temporary file. -/
theorem attempt_outcomes (target : Path) (bytes : Bytes) (mishap : Option Mishap) (d : Disk) :
    let made := (prepare target mishap d).2
    let temporary := temporaryOf target mishap d
    (∃ written moved, made.write temporary bytes = .ok written ∧
      written.move temporary target = .ok moved ∧
      attempt target bytes mishap d = (.ok (), moved)) ∨
    (∃ e, attempt target bytes mishap d = (.error e, made)) ∨
    ∃ e part written, made.write temporary part = .ok written ∧
      attempt target bytes mishap d = (.error e, written) := by
  unfold attempt temporaryOf
  rcases prepare target mishap d with ⟨e | _, made⟩
  · exact Or.inr (Or.inl ⟨e, rfl⟩)
  · exact publish_cases target (made.temporary target) bytes mishap made

theorem attempt_cases {name : String} (hname : target.name? = some name) :
    (∃ e, (attempt target bytes mishap d).1 = .error e ∧
      Spares target.place d (attempt target bytes mishap d).2) ∨
    ((attempt target bytes mishap d).1 = .ok () ∧
      (attempt target bytes mishap d).2.read target = .ok bytes) := by
  have hmade := prepare_spares target.place target mishap d
  have hne : target.place ≠ (temporaryOf target mishap d).place := temporary_place hname _
  rcases attempt_outcomes target bytes mishap d with
    ⟨written, moved, hw, hm, heq⟩ | ⟨e, heq⟩ | ⟨e, part, written, hw, heq⟩
  · rw [heq]
    exact Or.inr ⟨rfl, read_move (read_write hw) hm⟩
  · rw [heq]
    exact Or.inl ⟨e, rfl, hmade⟩
  · rw [heq]
    exact Or.inl ⟨e, rfl, hmade.trans (write_spares hw hne)⟩

/-- After an attempt that fails nothing of the temporary file remains, unless it cannot be
removed. -/
theorem replaceFile_eq {name : String} (hname : target.name? = some name) :
    replaceFile target bytes mishap d =
      match attempt target bytes mishap d with
      | (.ok (), d') => (.ok (), d')
      | (.error e, d') =>
        match d'.discard (temporaryOf target mishap d) with
        | .ok d' => (.error (.inl e), d')
        | .error e => (.error (.inr (.disk e)), d') := by
  unfold replaceFile attempt temporaryOf
  rw [hname]
  dsimp only [Option.isNone_some]
  rw [if_neg Bool.false_ne_true]
  rcases prepare target mishap d with ⟨e | _, made⟩
  · rfl
  · dsimp only
    rcases publish target (made.temporary target) bytes mishap made with ⟨e | _, d'⟩
    · rfl
    · rfl

/-- How a replacement ends. -/
theorem replaceFile_cases :
    (∃ e, (replaceFile target bytes mishap d).1 = .error e ∧
      Spares target.place d (replaceFile target bytes mishap d).2) ∨
    ((replaceFile target bytes mishap d).1 = .ok () ∧
      (replaceFile target bytes mishap d).2.read target = .ok bytes) := by
  cases hname : target.name? with
  | none =>
    unfold replaceFile
    rw [hname]
    exact Or.inl ⟨_, rfl, .refl _ d⟩
  | some name =>
    have hne : target.place ≠ (temporaryOf target mishap d).place := temporary_place hname _
    rw [replaceFile_eq hname]
    rcases @attempt_cases target bytes mishap d name hname with ⟨e, he, hs⟩ | ⟨hok, hread⟩
    · rcases ha : attempt target bytes mishap d with ⟨r, d'⟩
      rw [ha] at he hs
      cases he
      dsimp only
      split
      · rename_i d'' hd
        exact Or.inl ⟨_, rfl, hs.trans (discard_spares hd hne)⟩
      · exact Or.inl ⟨_, rfl, hs⟩
    · rcases ha : attempt target bytes mishap d with ⟨r, d'⟩
      rw [ha] at hok hread
      cases hok
      exact Or.inr ⟨rfl, hread⟩

/-! ## Moments -/

/-- Every disk that replacing a file passes through, from one change to the next. -/
inductive Moment (target : Path) (bytes : Bytes) (mishap : Option Mishap) (d : Disk) : Disk → Prop
  | before : Moment target bytes mishap d d
  | made : target.name?.isSome → Moment target bytes mishap d (d.makeParent target).2
  | written {place : Place} {made written : Disk} : target.name?.isSome →
    d.makeParent target = (.ok place, made) → mishap ≠ some .writing →
    made.write (made.temporary target) bytes = .ok written → Moment target bytes mishap d written
  | moved : target.name?.isSome → Moment target bytes mishap d (attempt target bytes mishap d).2
  | after : Moment target bytes mishap d (replaceFile target bytes mishap d).2

/-- At every moment the file is as it was, or it is all there and the replacement succeeds. -/
theorem moment_cases {m : Disk} (h : Moment target bytes mishap d m) :
    Spares target.place d m ∨
    ((replaceFile target bytes mishap d).1 = .ok () ∧ m.read target = .ok bytes) := by
  cases h with
  | before => exact Or.inl (.refl _ d)
  | made => exact Or.inl (makeParent_spares target.place d target)
  | @written place made m hname hm _ hw =>
    obtain ⟨name, hname⟩ := Option.isSome_iff_exists.mp hname
    have hmade := makeParent_spares target.place d target
    rw [hm] at hmade
    exact Or.inl (hmade.trans (write_spares hw (temporary_place hname made)))
  | moved hname =>
    obtain ⟨name, hname⟩ := Option.isSome_iff_exists.mp hname
    rcases @attempt_cases target bytes mishap d name hname with ⟨e, -, hs⟩ | ⟨hok, hread⟩
    · exact Or.inl hs
    · refine Or.inr ⟨?_, hread⟩
      rw [replaceFile_eq hname]
      rcases ha : attempt target bytes mishap d with ⟨r, d'⟩
      rw [ha] at hok
      cases hok
      rfl
  | after =>
    rcases @replaceFile_cases target bytes mishap d with ⟨e, -, hs⟩ | h
    · exact Or.inl hs
    · exact Or.inr h

end Store

end ExactCalc
