/-
  ExactCalc.Proofs.History.Saving — what a store keeps of its entries and variables, and
  what a save leaves in the file (see `ExactCalc.History.Store`).

  Entries are counted as a whole here, whichever session they are in: an entry that is
  appended is one more among them, and sorting sessions loses none.
-/

import ExactCalc.Proofs.Disk.Replacement
import ExactCalc.Proofs.History.RoundTrip
import Mathlib.Data.List.Perm.Basic

namespace ExactCalc

open Text

/-- The entries of all sessions, in their order. -/
def History.entries (h : History) : List Entry := h.sessions.flatMap Session.entries

/-! ## Variables as they are stored -/

@[simp] theorem StoredNumber.toNumber_ofNumber (a : Number) :
    (StoredNumber.ofNumber a).toNumber = a := by
  unfold StoredNumber.ofNumber StoredNumber.toNumber
  rw [Rat.mkRat_self]

theorem Variables.pairs_stored (vars : Variables) :
    vars.stored.pairs = vars.pairs.map fun (name, a) => (.ofString name, .ofNumber a) := by
  apply Table.pairs_ofList
  have hkeys : (vars.pairs.map fun ((name, a) : String × Number) =>
      (Symbols.ofString name, StoredNumber.ofNumber a)).map Prod.fst =
        (vars.pairs.map Prod.fst).map Symbols.ofString := by
    simp [Function.comp_def]
  rw [hkeys]
  exact vars.distinct.map fun s t h => Symbols.ofString_inj.mp h

/-- Each variable is stored under its name. -/
theorem Variables.get?_stored (vars : Variables) (name : String) :
    vars.stored.get? (.ofString name) = (vars.get? name).map .ofNumber := by
  apply Option.ext
  intro a
  rw [Table.get?_eq_some_iff, Variables.pairs_stored, Option.map_eq_some_iff]
  constructor
  · intro h
    obtain ⟨⟨n, b⟩, hm, he⟩ := List.mem_map.mp h
    obtain ⟨hn, rfl⟩ := Prod.mk.inj he
    obtain rfl := Symbols.ofString_inj.mp hn
    exact ⟨b, Table.get?_eq_some_iff.mpr hm, rfl⟩
  · rintro ⟨b, hb, rfl⟩
    exact List.mem_map.mpr ⟨(name, b), Table.get?_eq_some_iff.mp hb, rfl⟩

namespace Store

variable {s s' : Store}

/-! ## Entries -/

theorem perm_addEntry {id : Symbols} (e : Entry) {l : List Session} (h : ∃ a ∈ l, a.id = id) :
    ((addEntry id e l).flatMap Session.entries).Perm (l.flatMap Session.entries ++ [e]) := by
  induction l with
  | nil =>
    obtain ⟨a, ha, -⟩ := h
    cases ha
  | cons b l ih =>
    unfold addEntry
    by_cases hb : b.id = id
    · rw [if_pos hb, List.flatMap_cons, List.flatMap_cons, List.append_assoc, List.append_assoc]
      exact (List.perm_append_comm).append_left b.entries
    · rw [if_neg hb, List.flatMap_cons, List.flatMap_cons, List.append_assoc]
      refine (ih ?_).append_left b.entries
      obtain ⟨a, ha, rfl⟩ := h
      rcases List.mem_cons.mp ha with rfl | ha
      · exact absurd rfl hb
      · exact ⟨a, ha, rfl⟩

theorem perm_enroll (s : Store) (a : Session) :
    (s.enroll a).allEntries.Perm (s.allEntries ++ a.entries) := by
  have h := (List.mergeSort_perm (s.sessions ++ [a]) Session.startsBy).flatMap_right Session.entries
  rw [List.flatMap_append, List.flatMap_singleton] at h
  exact h

/-- An entry that is appended is one more. -/
theorem perm_append (s : Store) (e : Entry) (supply : Supply) :
    (s.append e supply).1.allEntries.Perm (s.allEntries ++ [e]) := by
  unfold append
  split
  · rename_i a ha
    obtain ⟨id, -, hfind⟩ := Option.bind_eq_some_iff.mp ha
    exact perm_addEntry e ⟨a, List.mem_of_find?_eq_some hfind, rfl⟩
  · exact perm_enroll s { (Session.new supply).1 with entries := [e] }

@[simp] theorem append_dirty (s : Store) (e : Entry) (supply : Supply) :
    (s.append e supply).1.dirty = true := by
  unfold append
  split
  · rfl
  · rfl

@[simp] theorem append_path (s : Store) (e : Entry) (supply : Supply) :
    (s.append e supply).1.path = s.path := by
  unfold append
  split
  · rfl
  · rfl

@[simp] theorem append_vars (s : Store) (e : Entry) (supply : Supply) :
    (s.append e supply).1.vars = s.vars := by
  unfold append
  split
  · rfl
  · rfl

/-! ## What is loaded -/

/-- A load changes what the store holds, but not where it saves; and what it holds is not new. -/
theorem loadOrEmpty_eq_ok {d : Disk} {supply : Supply} {e : Option LoadError}
    (hs : (s.loadOrEmpty d supply).1 = .ok (s', e)) :
    ∃ sessions vars size, s' = { s.replaced sessions vars with lastSize := size } := by
  unfold loadOrEmpty at hs
  split at hs
  · rename_i t _ ht
    cases hs
    obtain ⟨h, size, -, hw⟩ := load_eq_ok (congrArg Prod.fst ht)
    obtain ⟨vars, -, rfl⟩ := withHistory_eq_ok hw
    exact ⟨_, vars, size, rfl⟩
  · cases hs
    exact ⟨[], Table.empty, _, rfl⟩
  · cases hs

/-! ## Saving -/

/-- A save writes the history whole, or leaves the file as it was. -/
theorem save_cases (s : Store) (mishap : Option Mishap) (d : Disk) :
    (∃ f, (s.save mishap d).1 = .error f ∧ Disk.Spares s.path.place d (s.save mishap d).2) ∨
    ((s.save mishap d).1 = .ok { s with dirty := false, lastSize := some s.history.encode.length } ∧
      (s.save mishap d).2.read s.path = .ok s.history.encode) := by
  unfold save
  cases hb : s.encoded mishap with
  | error e => exact Or.inl ⟨_, rfl, .refl _ d⟩
  | ok bytes =>
    obtain rfl := encoded_eq_ok hb
    dsimp only
    rcases hr : replaceFile s.path s.history.encode mishap d with ⟨r, d'⟩
    rcases @replaceFile_cases s.path s.history.encode mishap d with ⟨e, he, hs⟩ | ⟨hok, hread⟩
    · rw [hr] at he hs
      cases he
      cases e with
      | inl e => exact Or.inl ⟨_, rfl, hs⟩
      | inr f => exact Or.inl ⟨_, rfl, hs⟩
    · rw [hr] at hok hread
      cases hok
      exact Or.inr ⟨rfl, hread⟩

/-- What memory holds is read from its bytes. -/
theorem Built.reads_history (hb : s.Built) (supply : Supply) :
    ∃ g, History.decode s.history.encode supply = (.ok g, supply) ∧ g.sessions = s.sessions ∧
      (∀ key, g.vars.get? key = s.vars.stored.get? key) ∧
      ∀ name, (g.vars.get? (.ofString name)).map StoredNumber.toNumber = s.vars.get? name := by
  refine ⟨_, History.decode_encode hb.wellFormed supply, rfl, History.get?_inOrder _, fun name => ?_⟩
  rw [History.get?_inOrder]
  show (s.vars.stored.get? (.ofString name)).map _ = _
  rw [Variables.get?_stored, Option.map_map]
  have hid : StoredNumber.toNumber ∘ StoredNumber.ofNumber = id :=
    funext StoredNumber.toNumber_ofNumber
  rw [hid, Option.map_id]
  rfl

/-- The disk after a save is the one after the file was replaced. -/
theorem save_disk {mishap : Option Mishap} {bytes : Bytes} (hb : s.encoded mishap = .ok bytes)
    (d : Disk) : (s.save mishap d).2 = (replaceFile s.path bytes mishap d).2 := by
  unfold save
  rw [hb]
  dsimp only
  rcases replaceFile s.path bytes mishap d with ⟨(e | f) | _, d'⟩
  · rfl
  · rfl
  · rfl

/-- While a store is saved the file is as it was, or it holds the history and the save succeeds. -/
theorem save_moment {mishap : Option Mishap} {bytes : Bytes} {d m : Disk}
    (hb : s.encoded mishap = .ok bytes) (hm : Moment s.path bytes mishap d m) :
    Disk.Spares s.path.place d m ∨
    ((∃ s', (s.save mishap d).1 = .ok s') ∧ m.read s.path = .ok s.history.encode) := by
  obtain rfl := encoded_eq_ok hb
  rcases moment_cases hm with hs | ⟨hok, hread⟩
  · exact Or.inl hs
  · refine Or.inr ⟨?_, hread⟩
    rcases hr : replaceFile s.path s.history.encode mishap d with ⟨r, d'⟩
    rw [hr] at hok
    cases hok
    unfold save
    rw [hb]
    dsimp only
    rw [hr]
    exact ⟨_, rfl⟩

end Store

end ExactCalc
