/-
  ExactCalc.Proofs.History.Found — the history that a store finds
  (`HistoryStore.load_or_empty`; see `ExactCalc.History.Store`).

  A file that is missing, or is not to be loaded, is as good as an empty history
  (`Disk.historyAt`). What is loaded are the sessions of the file and its variables,
  each under its own name: a name that is not valid keeps the file from being loaded, so
  no two stored names are shown alike (`get?_ofStored`).
-/

import ExactCalc.Proofs.Expr.Targets
import ExactCalc.Proofs.History.Loading

namespace ExactCalc

open Text

/-- The history in the file of a path; an empty one if the file is not there or not to be loaded. -/
def Disk.historyAt (d : Disk) (p : Path) (supply : Supply) : History :=
  match d.read p with
  | .error _ => .empty
  | .ok bytes =>
    match (History.decode bytes supply).1 with
    | .error _ => .empty
    | .ok h => if (Variables.ofStored h.vars).isOk then h else .empty

namespace Variables

variable {t : Table Symbols StoredNumber} {vars : Variables}

theorem ofStored_eq_ok (h : ofStored t = .ok vars) :
    vars = Table.ofList (t.pairs.map fun p => (p.1.display, p.2.toNumber)) ∧
      ∀ name ∈ t.keys, checkName name.display = .ok () := by
  obtain ⟨_, hnames, hvars⟩ := bind_eq_ok.mp h
  obtain rfl := Except.ok.inj hvars
  refine ⟨rfl, fun name hname => forM_eq_ok.mp hnames _ (Table.mem_keys_ofList.mpr ?_)⟩
  obtain ⟨p, hp, rfl⟩ := List.mem_map.mp hname
  rw [List.map_map]
  exact List.mem_map_of_mem hp

/-- Stored variables are loaded under their names. -/
theorem get?_ofStored (h : ofStored t = .ok vars) (name : String) :
    vars.get? name = (t.get? (.ofString name)).map StoredNumber.toNumber := by
  obtain ⟨rfl, hnames⟩ := ofStored_eq_ok h
  have hshown : ∀ p ∈ t.pairs, Symbols.ofString p.1.display = p.1 := fun p hp =>
    Symbols.ofString_display
      (not_mem_of_isName (isName_of_checkName (hnames _ (List.mem_map_of_mem hp))))
  have hdistinct : ((t.pairs.map fun p => (p.1.display, p.2.toNumber)).map Prod.fst).Nodup := by
    refine List.Nodup.of_map Symbols.ofString ?_
    have hkeys : (t.pairs.map fun p => Symbols.ofString p.1.display) = t.pairs.map Prod.fst :=
      List.map_congr_left hshown
    rw [List.map_map, List.map_map]
    exact hkeys ▸ t.distinct
  apply Option.ext
  intro a
  rw [Table.get?_eq_some_iff, Table.pairs_ofList hdistinct, Option.map_eq_some_iff]
  constructor
  · intro hmem
    obtain ⟨p, hp, heq⟩ := List.mem_map.mp hmem
    obtain ⟨rfl, rfl⟩ := Prod.mk.inj heq
    refine ⟨p.2, Table.get?_eq_some_iff.mpr ?_, rfl⟩
    rw [hshown p hp]
    exact hp
  · rintro ⟨n, hn, rfl⟩
    refine List.mem_map.mpr ⟨_, Table.get?_eq_some_iff.mp hn, ?_⟩
    rw [Symbols.display_ofString]

end Variables

theorem Disk.wellFormed_historyAt (d : Disk) (p : Path) (supply : Supply) :
    (d.historyAt p supply).WellFormed := by
  unfold historyAt
  split
  · exact Store.wellFormed_empty
  · split
    · exact Store.wellFormed_empty
    · rename_i h hdecode
      split
      · exact History.wellFormed_of_decode (Prod.ext hdecode rfl)
      · exact Store.wellFormed_empty

namespace Store

variable {s s' : Store} {d : Disk} {supply : Supply}

/-- What a load takes is the history that is found. -/
theorem historyAt_of_load (hs : (s.load d supply).1 = .ok s') :
    s'.sessions = (d.historyAt s.path supply).sessions ∧
      Variables.ofStored (d.historyAt s.path supply).vars = .ok s'.vars := by
  obtain ⟨h, size, htells, hload⟩ := load_eq_ok hs
  obtain ⟨vars, hvars, rfl⟩ := withHistory_eq_ok hload
  have hfound : d.historyAt s.path supply = h := by
    unfold Disk.historyAt
    rcases htells with ⟨hread, rfl⟩ | ⟨bytes, hread, hdecode⟩
    · rw [hread]
    · simp only [hread, hdecode, hvars]
      rfl
  rw [hfound]
  exact ⟨rfl, hvars⟩

/-- Where a load fails, an empty history is found. -/
theorem historyAt_of_load_error {f : LoadFailure} (hs : (s.load d supply).1 = .error f) :
    d.historyAt s.path supply = .empty := by
  unfold Disk.historyAt
  cases hread : d.read s.path with
  | error e => rfl
  | ok bytes =>
    dsimp only
    cases hdecode : (History.decode bytes supply).1 with
    | error f => rfl
    | ok h =>
      dsimp only
      have hload : (s.load d supply).1 =
          (s.withHistory h bytes.length).mapError LoadFailure.error := by
        have hcontent : s.content d = .ok (some bytes) := by
          unfold content
          rw [hread]
        have hboth : History.decode bytes supply = (.ok h, (History.decode bytes supply).2) :=
          Prod.ext hdecode rfl
        unfold load
        rw [hcontent]
        dsimp only
        rw [hboth]
      cases hvars : Variables.ofStored h.vars with
      | error cause => rfl
      | ok vars =>
        rw [hload, withHistory, hvars] at hs
        cases hs

/-- So it is where the history cannot be told of. -/
theorem historyAt_of_untold {p : Path} (h : d.Untold p) (supply : Supply) :
    d.historyAt p supply = .empty := by
  obtain ⟨f, hf⟩ : ∃ f, ((new p).load d supply).1 = .error (.system f) := load_system.mpr h
  exact historyAt_of_load_error hf

/-- A store that was loaded, or emptied for it, has the sessions and variables that are found. -/
theorem historyAt_of_loadOrEmpty {reason : Option LoadError}
    (hs : (s.loadOrEmpty d supply).1 = .ok (s', reason)) :
    s'.sessions = (d.historyAt s.path supply).sessions ∧
      Variables.ofStored (d.historyAt s.path supply).vars = .ok s'.vars := by
  rcases s.loadOrEmpty_cases d supply with ⟨-, f, hf⟩ | ⟨-, ⟨t, hload, ht⟩ | ⟨e, hload, he⟩⟩
  · cases hf.symm.trans hs
  · cases ht.symm.trans hs
    exact historyAt_of_load hload
  · cases he.symm.trans hs
    rw [historyAt_of_load_error hload]
    exact ⟨rfl, rfl⟩

end Store

end ExactCalc
