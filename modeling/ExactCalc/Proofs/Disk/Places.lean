/-
  ExactCalc.Proofs.Disk.Places — where paths lead, and disks that agree on a file (see
  `ExactCalc.Disk.Basic`).

  A path that leads anywhere leads to one place, whatever the disk holds; the disk only
  decides whether the folders on the way are there. So a disk that has lost no folder
  and holds the same at that place reads the same (`Spares`, `read_of_spares`).
-/

import ExactCalc.Disk.Basic
import ExactCalc.Proofs.Failure
import ExactCalc.Proofs.Table

namespace ExactCalc

/-- The place that a name leads to. -/
def Disk.next (place : Place) (name : String) : Place :=
  if name = ".." then place.dropLast else place ++ [name]

/-- The place that a path leads to, if it leads anywhere. -/
def Path.place (p : Path) : Place := p.parts.foldl Disk.next []

namespace Disk

variable {d d' : Disk}

/-! ## Following a path -/

theorem child_eq_ok {place q : Place} {name : String} (h : child place name = .ok q) :
    q = next place name := by
  unfold child at h
  unfold next
  split at h
  · rename_i hn
    rw [if_pos hn]
    exact (Except.ok.inj h).symm
  · rename_i hn
    rw [if_neg hn]
    split at h
    · cases h
    · exact (Except.ok.inj h).symm

theorem enter_eq_ok {place q : Place} {name : String} :
    d.enter place name = .ok q ↔ child place name = .ok q ∧ d.node? q = some .folder := by
  unfold enter
  constructor
  · intro h
    obtain ⟨r, hr, h⟩ := bind_eq_ok.mp h
    split at h
    · rename_i hf
      cases h
      exact ⟨hr, hf⟩
    · cases h
    · cases h
  · rintro ⟨hc, hf⟩
    refine bind_eq_ok.mpr ⟨q, hc, ?_⟩
    rw [hf]
    rfl

theorem foldlM_enter : ∀ {names : List String} {place q : Place},
    names.foldlM d.enter place = .ok q → q = names.foldl next place := by
  intro names
  induction names with
  | nil =>
    intro place q h
    exact (Except.ok.inj h).symm
  | cons name names ih =>
    intro place q h
    rw [List.foldlM_cons] at h
    obtain ⟨r, hr, h⟩ := bind_eq_ok.mp h
    rw [List.foldl_cons, ← child_eq_ok (enter_eq_ok.mp hr).1]
    exact ih h

theorem place_of_name {p : Path} {name : String} (h : p.name? = some name) :
    p.place = next (p.parent.parts.foldl next []) name := by
  have hparts : p.parts = p.parts.dropLast ++ [name] :=
    (List.dropLast_append_getLast? name h).symm
  unfold Path.place
  rw [hparts, List.foldl_append]
  rfl

theorem locate_eq_ok {p : Path} {q : Place} (h : d.locate p = .ok q) : q = p.place := by
  obtain ⟨-, -, h⟩ := bind_eq_ok.mp h
  split at h
  · rename_i hn
    cases h
    rw [Path.place, List.getLast?_eq_none_iff.mp hn]
    rfl
  · rename_i name hn
    obtain ⟨r, hr, h⟩ := bind_eq_ok.mp h
    rw [place_of_name hn, child_eq_ok h, foldlM_enter hr]

/-! ## Folders that stay -/

/-- Whatever was a folder still is one. -/
def FoldersStay (d d' : Disk) : Prop := ∀ q, d.node? q = some .folder → d'.node? q = some .folder

theorem FoldersStay.foldlM (hf : d.FoldersStay d') : ∀ {names : List String} {place q : Place},
    names.foldlM d.enter place = .ok q → names.foldlM d'.enter place = .ok q := by
  intro names
  induction names with
  | nil => exact fun h => h
  | cons name names ih =>
    intro place q h
    rw [List.foldlM_cons] at h ⊢
    obtain ⟨r, hr, h⟩ := bind_eq_ok.mp h
    obtain ⟨hc, hfolder⟩ := enter_eq_ok.mp hr
    exact bind_eq_ok.mpr ⟨r, enter_eq_ok.mpr ⟨hc, hf r hfolder⟩, ih h⟩

theorem FoldersStay.locate (hf : d.FoldersStay d') {p : Path} {q : Place}
    (h : d.locate p = .ok q) : d'.locate p = .ok q := by
  obtain ⟨_, hcheck, h⟩ := bind_eq_ok.mp h
  refine bind_eq_ok.mpr ⟨_, hcheck, ?_⟩
  split at h
  · exact h
  · obtain ⟨r, hr, h⟩ := bind_eq_ok.mp h
    exact bind_eq_ok.mpr ⟨r, hf.foldlM hr, h⟩

/-! ## Files at places -/

/-- What the file at a place holds. -/
def fileAt (d : Disk) (place : Place) : Option Bytes :=
  match d.node? place with
  | some (.file content) => some content
  | _ => none

theorem fileAt_eq_some_iff {place : Place} {content : Bytes} :
    d.fileAt place = some content ↔ d.node? place = some (.file content) := by
  unfold fileAt
  split
  · rename_i c hc
    rw [hc]
    simp
  · rename_i hc
    exact ⟨fun h => absurd h (Option.some_ne_none _).symm, fun h => absurd h (hc content)⟩

theorem read_eq_ok {p : Path} {content : Bytes} :
    d.read p = .ok content ↔ d.locate p = .ok p.place ∧ d.fileAt p.place = some content := by
  unfold read
  rw [fileAt_eq_some_iff]
  constructor
  · intro h
    obtain ⟨q, hq, h⟩ := bind_eq_ok.mp h
    rw [← locate_eq_ok hq]
    split at h
    · rename_i c hc
      cases h
      exact ⟨hq, hc⟩
    · cases h
    · cases h
  · rintro ⟨hq, hc⟩
    refine bind_eq_ok.mpr ⟨_, hq, ?_⟩
    rw [hc]
    rfl

/-- A change that loses no folder and leaves the file at a place as it was. -/
structure Spares (place : Place) (d d' : Disk) : Prop where
  folders : d.FoldersStay d'
  file : d'.fileAt place = d.fileAt place

theorem Spares.refl (place : Place) (d : Disk) : Spares place d d := ⟨fun _ h => h, rfl⟩

theorem Spares.trans {place : Place} {d₁ d₂ d₃ : Disk} (h : Spares place d₁ d₂)
    (h' : Spares place d₂ d₃) : Spares place d₁ d₃ :=
  ⟨fun q hq => h'.folders q (h.folders q hq), h'.file.trans h.file⟩

theorem read_of_spares {p : Path} {content : Bytes} (hs : Spares p.place d d')
    (h : d.read p = .ok content) : d'.read p = .ok content := by
  obtain ⟨hl, hc⟩ := read_eq_ok.mp h
  exact read_eq_ok.mpr ⟨hs.folders.locate hl, hs.file.trans hc⟩

/-! ## Nodes that come and go -/

theorem ne_nil_of_not_folder {q : Place} (h : d.node? q ≠ some .folder) : q ≠ [] := by
  rintro rfl
  exact h rfl

theorem node?_insert {q : Place} (h : q ≠ []) (n : Node) (r : Place) :
    (Disk.mk (d.nodes.insert q n)).node? r = if r = q then some n else d.node? r := by
  unfold node?
  rw [Table.get?_insert]
  by_cases hr : r = []
  · have hq : ¬ r = q := fun e => h (e ▸ hr)
    rw [if_pos hr, if_neg hq, if_pos hr]
  · rw [if_neg hr, if_neg hr]

theorem node?_erase {q : Place} (h : q ≠ []) (r : Place) :
    (Disk.mk (d.nodes.erase q)).node? r = if r = q then none else d.node? r := by
  unfold node?
  rw [Table.get?_erase]
  by_cases hr : r = []
  · have hq : ¬ r = q := fun e => h (e ▸ hr)
    rw [if_pos hr, if_neg hq, if_pos hr]
  · rw [if_neg hr, if_neg hr]

theorem foldersStay_insert {q : Place} {n : Node} (h : d.node? q ≠ some .folder) :
    d.FoldersStay ⟨d.nodes.insert q n⟩ := by
  intro r hr
  rw [node?_insert (ne_nil_of_not_folder h), if_neg (fun (e : r = q) => h (e ▸ hr))]
  exact hr

theorem foldersStay_erase {q : Place} (h : d.node? q ≠ some .folder) :
    d.FoldersStay ⟨d.nodes.erase q⟩ := by
  intro r hr
  rw [node?_erase (ne_nil_of_not_folder h), if_neg (fun (e : r = q) => h (e ▸ hr))]
  exact hr

/-- A node that comes in place of anything but a folder spares the other places. -/
theorem spares_insert {q place : Place} {n : Node} (h : d.node? q ≠ some .folder)
    (hne : place ≠ q) : Spares place d ⟨d.nodes.insert q n⟩ := by
  refine ⟨foldersStay_insert h, ?_⟩
  unfold fileAt
  rw [node?_insert (ne_nil_of_not_folder h), if_neg hne]

theorem spares_erase {q place : Place} (h : d.node? q ≠ some .folder) (hne : place ≠ q) :
    Spares place d ⟨d.nodes.erase q⟩ := by
  refine ⟨foldersStay_erase h, ?_⟩
  unfold fileAt
  rw [node?_erase (ne_nil_of_not_folder h), if_neg hne]

/-- A folder that comes where nothing was is no file. -/
theorem spares_insert_folder {q : Place} (h : d.node? q = none) (place : Place) :
    Spares place d ⟨d.nodes.insert q .folder⟩ := by
  have hfolder : d.node? q ≠ some .folder := by
    rw [h]
    exact (Option.some_ne_none _).symm
  by_cases hne : place = q
  · subst hne
    have hq := ne_nil_of_not_folder hfolder
    constructor
    · intro r hr
      rw [node?_insert hq]
      split
      · rfl
      · exact hr
    · unfold fileAt
      rw [node?_insert hq, if_pos rfl, h]
  · exact spares_insert hfolder hne

end Disk

end ExactCalc
