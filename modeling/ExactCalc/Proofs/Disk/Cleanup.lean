/-
  ExactCalc.Proofs.Disk.Cleanup — what a replacement that fails leaves behind (the
  handler of `HistoryStore.save`; see `ExactCalc.History.Store`).

  The temporary name is one that is free: among one more names than there are nodes, not
  all can be taken. So whatever stands under it later is what the replacement has
  written, and removing that gives back the disk as it was, folders apart
  (`replaceFile_spares`). The removal itself fails only where the temporary place cannot
  be looked for at all (`replaceFile_system_iff`).
-/

import ExactCalc.Proofs.Disk.Replacement
import Mathlib.Data.List.Nodup
import Mathlib.Data.List.Perm.Subperm

namespace ExactCalc

namespace Disk

open Text

variable {d d' : Disk} {p : Path}

/-! ## A free name -/

/-- Temporary names with different numbers are different. -/
theorem temporaryName_inj {name : String} {n m : Nat}
    (h : temporaryName name n = temporaryName name m) : n = m := by
  have hread : ∀ k n : Nat,
      Nat.ofDigitChars 10 (List.replicate k '0' ++ Nat.toDigits 10 n) 0 = n := by
    intro k n
    rw [Nat.ofDigitChars_append, Nat.ofDigitChars_replicate_zero, Nat.mul_zero,
      Nat.ofDigitChars_ten_toDigits]
  have hrepr : ∀ n : Nat, n.repr.toList = Nat.toDigits 10 n := fun n => String.toList_ofList
  have hlist := congrArg String.toList h
  simp only [temporaryName, String.toList_append, String.toList_ofList, hrepr, List.append_assoc,
    List.append_cancel_left_eq] at hlist
  rw [← List.append_assoc, ← List.append_assoc, List.append_cancel_right_eq] at hlist
  rw [← hread (32 - n.repr.length) n, hlist, hread]

theorem place_sibling_inj {n m : Nat} (h : (sibling p n).place = (sibling p m).place) : n = m := by
  rw [place_sibling, place_sibling] at h
  exact temporaryName_inj (List.singleton_inj.mp (List.append_cancel_left h))

theorem mem_keys_of_node? {place : Place} (h : (d.node? place).isSome = true) (hne : place ≠ []) :
    place ∈ d.nodes.keys := by
  unfold node? at h
  rw [if_neg hne] at h
  obtain ⟨n, hn⟩ := Option.isSome_iff_exists.mp h
  exact List.mem_map_of_mem (Table.get?_eq_some_iff.mp hn)

theorem mem_keys_of_holds {n : Nat} (h : d.holds (sibling p n) = true) :
    (sibling p n).place ∈ d.nodes.keys := by
  unfold holds at h
  split at h
  · rename_i place hl
    rw [← locate_eq_ok hl]
    refine mem_keys_of_node? h ?_
    rw [locate_eq_ok hl, place_sibling]
    exact List.append_ne_nil_of_right_ne_nil _ (List.cons_ne_nil _ _)
  · cases h

/-- Nothing is under the temporary name. -/
theorem not_holds_temporary (d : Disk) (p : Path) : d.holds (d.temporary p) = false := by
  unfold temporary
  cases hf : ((List.range (d.nodes.size + 1)).map (sibling p)).find? fun q => !d.holds q with
  | some q =>
    have hq := List.find?_some hf
    rwa [Bool.not_eq_true'] at hq
  | none =>
    -- every candidate would have a node of its own, and there are more candidates than nodes
    have hall : ∀ n ∈ List.range (d.nodes.size + 1), (sibling p n).place ∈ d.nodes.keys := by
      intro n hn
      have := List.find?_eq_none.mp hf _ (List.mem_map_of_mem hn)
      exact mem_keys_of_holds (by simpa using this)
    have hnodup : ((List.range (d.nodes.size + 1)).map fun n => (sibling p n).place).Nodup :=
      List.nodup_range.map fun _ _ h => place_sibling_inj h
    have hsubset : ((List.range (d.nodes.size + 1)).map fun n => (sibling p n).place) ⊆
        d.nodes.keys := by
      intro place hplace
      obtain ⟨n, hn, rfl⟩ := List.mem_map.mp hplace
      exact hall n hn
    have hlength := (hnodup.subperm hsubset).length_le
    simp only [List.length_map, List.length_range, Table.keys, Table.size] at hlength
    omega

/-- Where the temporary place can be looked for, there is nothing. -/
theorem node?_temporary {t : Path} (ht : t = d.temporary p) (hl : d.locate t = .ok t.place) :
    d.node? t.place = none := by
  have h := not_holds_temporary d p
  rw [← ht] at h
  unfold holds at h
  rw [hl] at h
  exact Option.isSome_eq_false_iff.mp h |> Option.isNone_iff_eq_none.mp

/-! ## Removing -/

theorem locate_eq_ok_place {q : Place} (h : d.locate p = .ok q) : d.locate p = .ok p.place :=
  h.trans (congrArg Except.ok (locate_eq_ok h))

/-- Where nothing is, there is nothing to remove. -/
theorem discard_absent (hl : d.locate p = .ok p.place) (hn : d.node? p.place = none) :
    d.discard p = .ok d := by
  have hremove : d.remove p = .error .notFound := by
    simp only [remove, hl, bind, Except.bind, hn]
  unfold discard
  rw [hremove]

theorem discard_of_locate_error {e : DiskError} (hl : d.locate p = .error e) :
    d.discard p = if e = .notFound then .ok d else .error e := by
  have hremove : d.remove p = .error e := by
    unfold remove
    rw [hl]
    rfl
  unfold discard
  rw [hremove]
  cases e <;> rfl

/-- A file that came where nothing was is removed without a trace. -/
theorem discard_written {content : Bytes} (hw : d.write p content = .ok d')
    (hn : d.node? p.place = none) : ∃ d'', d'.discard p = .ok d'' ∧ ∀ place, Spares place d d'' := by
  obtain ⟨hl, hnot, rfl⟩ := write_eq_ok hw
  have hne := ne_nil_of_not_folder hnot
  have hfile : (Disk.mk (d.nodes.insert p.place (.file content))).node? p.place =
      some (.file content) := by rw [node?_insert hne, if_pos rfl]
  have hlocate : (Disk.mk (d.nodes.insert p.place (.file content))).locate p = .ok p.place :=
    (foldersStay_insert hnot).locate hl
  have hremove : (Disk.mk (d.nodes.insert p.place (.file content))).remove p =
      .ok ⟨(d.nodes.insert p.place (.file content)).erase p.place⟩ := by
    simp only [remove, hlocate, bind, Except.bind, hfile]
    rfl
  refine ⟨⟨(d.nodes.insert p.place (.file content)).erase p.place⟩, ?_, fun place => ?_⟩
  · unfold discard
    rw [hremove]
  · have hnode : ∀ q, (Disk.mk ((d.nodes.insert p.place (.file content)).erase p.place)).node? q =
        d.node? q := by
      intro q
      have herase := node?_erase (d := ⟨d.nodes.insert p.place (.file content)⟩) hne q
      rw [node?_insert hne] at herase
      rw [herase]
      by_cases hq : q = p.place
      · rw [if_pos hq, hq, hn]
      · rw [if_neg hq, if_neg hq]
    exact ⟨fun q hq => (hnode q).trans hq, by unfold fileAt; rw [hnode]⟩

/-- Something other than a folder that is not there keeps a path from being followed. -/
def Blocks (d : Disk) (p : Path) : Prop := ∃ e, e ≠ .notFound ∧ d.locate p = .error e

end Disk

namespace Store

open Disk

variable {target : Path} {bytes : Bytes} {mishap : Option Mishap} {d : Disk}

/-! ## Replacements that fail -/

/-- How a replacement with a name ends: well, or as it was but for folders, with the removal of the
temporary file failing exactly where that cannot be looked for. -/
theorem replaceFile_outcomes {name : String} (hname : target.name? = some name) :
    let made := (prepare target mishap d).2
    let temporary := temporaryOf target mishap d
    (∃ d', replaceFile target bytes mishap d = (.ok (), d') ∧ ¬ made.Blocks temporary) ∨
    (∃ e d', replaceFile target bytes mishap d = (.error (.inl e), d') ∧
      (∀ place, Spares place d d') ∧ ¬ made.Blocks temporary) ∨
    ∃ f, replaceFile target bytes mishap d = (.error (.inr f), made) ∧ made.Blocks temporary := by
  intro made temporary
  have hmade : ∀ place, Spares place d made := fun place => prepare_spares place target mishap d
  have hfree : made.locate temporary = .ok temporary.place → made.node? temporary.place = none :=
    node?_temporary rfl
  have hwritten : ∀ {content : Bytes} {written : Disk}, made.write temporary content = .ok written →
      ¬ made.Blocks temporary := by
    rintro content written hw ⟨e, -, he⟩
    rw [(write_eq_ok hw).1] at he
    cases he
  rw [replaceFile_eq hname]
  rcases attempt_outcomes target bytes mishap d with
    ⟨written, moved, hw, -, heq⟩ | ⟨e, heq⟩ | ⟨e, part, written, hw, heq⟩
  · rw [heq]
    exact Or.inl ⟨moved, rfl, hwritten hw⟩
  · rw [heq]
    dsimp only
    cases hl : made.locate temporary with
    | ok q =>
      have hplace := locate_eq_ok_place hl
      rw [discard_absent hplace (hfree hplace)]
      refine Or.inr (Or.inl ⟨e, made, rfl, hmade, ?_⟩)
      rintro ⟨e', -, he'⟩
      rw [hl] at he'
      cases he'
    | error e' =>
      rw [discard_of_locate_error hl]
      by_cases he' : e' = .notFound
      · rw [if_pos he']
        refine Or.inr (Or.inl ⟨e, made, rfl, hmade, ?_⟩)
        rintro ⟨e'', hne, he''⟩
        rw [hl, he'] at he''
        exact hne (Except.error.inj he'').symm
      · rw [if_neg he']
        exact Or.inr (Or.inr ⟨_, rfl, e', he', hl⟩)
  · rw [heq]
    dsimp only
    obtain ⟨d'', hd, hs⟩ := discard_written hw (hfree (write_eq_ok hw).1)
    rw [hd]
    exact Or.inr (Or.inl ⟨e, d'', rfl, fun place => (hmade place).trans (hs place), hwritten hw⟩)

/-- A replacement that fails leaves every file as it was, and none that is new. -/
theorem replaceFile_spares {e : DiskError ⊕ SystemFailure}
    (h : (replaceFile target bytes mishap d).1 = .error e) (place : Place) :
    Spares place d (replaceFile target bytes mishap d).2 := by
  cases hname : target.name? with
  | none =>
    unfold replaceFile
    rw [hname]
    exact .refl place d
  | some name =>
    rcases replaceFile_outcomes hname with ⟨d', heq, -⟩ | ⟨e, d', heq, hs, -⟩ | ⟨f, heq, -⟩
    · rw [heq] at h
      cases h
    · rw [heq]
      exact hs place
    · rw [heq]
      exact prepare_spares place target mishap d

/-- A replacement leaves more than its own error exactly where the target has no name or the
temporary place cannot be looked for. -/
theorem replaceFile_system_iff :
    (∃ f, (replaceFile target bytes mishap d).1 = .error (.inr f)) ↔
      target.name? = none ∨ (prepare target mishap d).2.Blocks (temporaryOf target mishap d) := by
  cases hname : target.name? with
  | none =>
    unfold replaceFile
    rw [hname]
    exact ⟨fun _ => Or.inl rfl, fun _ => ⟨_, rfl⟩⟩
  | some name =>
    have hsome : ¬ (some name = none) := Option.some_ne_none name
    rw [or_iff_right hsome]
    rcases @replaceFile_outcomes target bytes mishap d name hname with
      ⟨d', heq, hb⟩ | ⟨e, d', heq, -, hb⟩ | ⟨f, heq, hb⟩
    · rw [heq]
      refine iff_of_false ?_ hb
      rintro ⟨f, hf⟩
      cases hf
    · rw [heq]
      refine iff_of_false ?_ hb
      rintro ⟨f, hf⟩
      cases hf
    · rw [heq]
      exact iff_of_true ⟨f, rfl⟩ hb

end Store

end ExactCalc
