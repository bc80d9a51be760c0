/-
  ExactCalc.Proofs.Disk.Obstacles — what keeps a temporary file from being looked for
  (see `ExactCalc.Disk.Basic`).

  A path is followed name by name. Apart from a folder that is missing, only two things
  stop that: a name or a text that the system takes for no path (`Path.Refused`), and a
  regular file where a folder has to be (`FileOnTheWay`). Once the folder of the target
  has been asked for, no folder that could be made is missing, so these two are exactly
  what blocks the temporary path (`blocks_sibling_iff`).
-/

import ExactCalc.Proofs.Disk.Cleanup

namespace ExactCalc

/-- A name that no folder can hold. -/
def Disk.TooLong (name : String) : Prop := name ≠ ".." ∧ maxNameBytes < name.utf8ByteSize

instance (name : String) : Decidable (Disk.TooLong name) := inferInstanceAs (Decidable (_ ∧ _))

/-- The system takes no such path, whatever is on the disk. -/
def Path.Refused (p : Path) : Prop :=
  (∃ e, Disk.check p = .error e) ∨ ∃ name ∈ p.parts, Disk.TooLong name

namespace Disk

/-- A regular file at the end of some of the names, followed from a place. -/
def FileAlong (d : Disk) (place : Place) (names : List String) : Prop :=
  ∃ first, first <+: names ∧ (d.fileAt (first.foldl next place)).isSome = true

/-- A regular file stands where a path needs a folder. -/
def FileOnTheWay (d : Disk) (p : Path) : Prop := d.FileAlong [] p.parent.parts

variable {d d' : Disk} {p : Path}

/-! ## One name -/

theorem child_of_tooLong {name : String} (h : TooLong name) (place : Place) :
    child place name = .error .nameTooLong := by
  unfold child
  rw [if_neg h.1, if_pos h.2]

theorem child_of_not_tooLong {name : String} (h : ¬ TooLong name) (place : Place) :
    child place name = .ok (next place name) := by
  unfold child next
  by_cases hdots : name = ".."
  · rw [if_pos hdots, if_pos hdots]
  · rw [if_neg hdots, if_neg hdots, if_neg fun hlong => h ⟨hdots, hlong⟩]

theorem fileAt_root (d : Disk) : d.fileAt [] = none := rfl

theorem fileAt_of_folder {place : Place} (h : d.node? place = some .folder) :
    d.fileAt place = none := by
  unfold fileAt
  rw [h]

/-- What keeps a folder from being entered. -/
theorem enter_eq_error {place : Place} {name : String} {e : DiskError}
    (h : d.enter place name = .error e) :
    (TooLong name ∧ e = .nameTooLong) ∨
    ((d.fileAt (next place name)).isSome = true ∧ e = .notAFolder) ∨ e = .notFound := by
  by_cases hlong : TooLong name
  · simp only [enter, child_of_tooLong hlong, bind, Except.bind] at h
    exact Or.inl ⟨hlong, (Except.error.inj h).symm⟩
  · simp only [enter, child_of_not_tooLong hlong, bind, Except.bind] at h
    split at h
    · cases h
    · rename_i content hc
      refine Or.inr (Or.inl ⟨?_, (Except.error.inj h).symm⟩)
      rw [fileAt_eq_some_iff.mpr hc]
      rfl
    · exact Or.inr (Or.inr (Except.error.inj h).symm)

theorem enter_of_file {place : Place} {name : String} (hlong : ¬ TooLong name) {content : Bytes}
    (h : d.node? (next place name) = some (.file content)) :
    d.enter place name = .error .notAFolder := by
  simp only [enter, child_of_not_tooLong hlong, bind, Except.bind, h]

theorem enter_of_folder {place : Place} {name : String} (hlong : ¬ TooLong name)
    (h : d.node? (next place name) = some .folder) : d.enter place name = .ok (next place name) :=
  enter_eq_ok.mpr ⟨child_of_not_tooLong hlong place, h⟩

/-! ## Several names -/

theorem fileAlong_cons {place : Place} {name : String} {names : List String}
    (h : d.fileAt place = none) :
    d.FileAlong place (name :: names) ↔ d.FileAlong (next place name) names := by
  constructor
  · rintro ⟨first, hfirst, hfile⟩
    rcases List.prefix_cons_iff.mp hfirst with rfl | ⟨rest, rfl, hrest⟩
    · rw [List.foldl_nil, h] at hfile
      cases hfile
    · exact ⟨rest, hrest, hfile⟩
  · rintro ⟨rest, hrest, hfile⟩
    exact ⟨name :: rest, List.cons_prefix_cons.mpr ⟨rfl, hrest⟩, hfile⟩

/-- Names that lead to a folder are names of folders. -/
theorem not_fileAlong_of_ok : ∀ {names : List String} {place q : Place},
    d.fileAt place = none → names.foldlM d.enter place = .ok q →
    ¬ d.FileAlong place names ∧ ∀ name ∈ names, ¬ TooLong name := by
  intro names
  induction names with
  | nil =>
    intro place q hplace _
    refine ⟨?_, fun _ h => absurd h List.not_mem_nil⟩
    rintro ⟨first, hfirst, hfile⟩
    rw [List.prefix_nil.mp hfirst, List.foldl_nil, hplace] at hfile
    cases hfile
  | cons name names ih =>
    intro place q hplace h
    rw [List.foldlM_cons] at h
    obtain ⟨r, hr, h⟩ := bind_eq_ok.mp h
    obtain ⟨hchild, hfolder⟩ := enter_eq_ok.mp hr
    have hlong : ¬ TooLong name := by
      intro hlong
      rw [child_of_tooLong hlong] at hchild
      cases hchild
    obtain rfl := child_eq_ok hchild
    obtain ⟨hfile, hnames⟩ := ih (fileAt_of_folder hfolder) h
    refine ⟨fun hf => hfile ((fileAlong_cons hplace).mp hf), ?_⟩
    rw [List.forall_mem_cons]
    exact ⟨hlong, hnames⟩

/-- Names lead nowhere for a missing folder, a name that is too long or a file. -/
theorem fileAlong_of_error : ∀ {names : List String} {place : Place} {e : DiskError},
    names.foldlM d.enter place = .error e → e ≠ .notFound →
    (∃ name ∈ names, TooLong name) ∨ d.FileAlong place names := by
  intro names
  induction names with
  | nil =>
    intro place e h
    cases h
  | cons name names ih =>
    intro place e h hne
    rw [List.foldlM_cons] at h
    cases hr : d.enter place name with
    | error e' =>
      rw [hr] at h
      obtain rfl : e' = e := Except.error.inj h
      rcases enter_eq_error hr with ⟨hlong, -⟩ | ⟨hfile, -⟩ | hmissing
      · exact Or.inl ⟨name, List.mem_cons_self, hlong⟩
      · exact Or.inr ⟨[name], List.cons_prefix_cons.mpr ⟨rfl, List.nil_prefix⟩, hfile⟩
      · exact absurd hmissing hne
    | ok r =>
      rw [hr] at h
      obtain rfl := child_eq_ok (enter_eq_ok.mp hr).1
      rcases ih h hne with ⟨long, hlong, htoo⟩ | ⟨rest, hrest, hfile⟩
      · exact Or.inl ⟨long, List.mem_cons_of_mem _ hlong, htoo⟩
      · exact Or.inr ⟨name :: rest, List.cons_prefix_cons.mpr ⟨rfl, hrest⟩, hfile⟩

/-- After folders have been made, the names lead to the last one, or to what stopped the making. -/
theorem follow_makeFolders : ∀ {names : List String} {d d' : Disk} {place : Place}
    {r : Except DiskError Place}, d.makeFolders place names = (r, d') →
    (∃ q, names.foldlM d'.enter place = .ok q ∧ r = .ok q) ∨
    ∃ e e', e ≠ .notFound ∧ names.foldlM d'.enter place = .error e ∧ r = .error e' := by
  intro names
  induction names with
  | nil =>
    intro d d' place r h
    cases h
    exact Or.inl ⟨place, rfl, rfl⟩
  | cons name names ih =>
    intro d d' place r h
    have hstay := (makeFolders_spares [] (name :: names) d place).folders
    rw [h] at hstay
    unfold makeFolders at h
    rw [List.foldlM_cons]
    by_cases hlong : TooLong name
    · rw [child_of_tooLong hlong] at h
      cases h
      refine Or.inr ⟨.nameTooLong, _, by decide, ?_, rfl⟩
      simp only [enter, child_of_tooLong hlong, bind, Except.bind]
    rw [child_of_not_tooLong hlong] at h
    dsimp only at h
    split at h
    · rename_i hfolder
      rw [enter_of_folder hlong (hstay _ hfolder)]
      exact ih h
    · rename_i content hfile
      cases h
      refine Or.inr ⟨.notAFolder, _, by decide, ?_, rfl⟩
      rw [enter_of_file hlong hfile]
      rfl
    · rename_i hnone
      have hne : next place name ≠ [] :=
        ne_nil_of_not_folder (by rw [hnone]; exact (Option.some_ne_none _).symm)
      have hfolder : d'.node? (next place name) = some .folder := by
        have hspared := makeFolders_spares [] names ⟨d.nodes.insert (next place name) .folder⟩
          (next place name)
        rw [h] at hspared
        refine hspared.folders _ ?_
        rw [node?_insert hne, if_pos rfl]
      rw [enter_of_folder hlong hfolder]
      exact ih h

/-! ## Whole paths -/

theorem utf8ByteSize_intercalate_le (s last : String) (l : List String) :
    (s.intercalate l).utf8ByteSize ≤ (s.intercalate (l ++ [last])).utf8ByteSize := by
  induction l with
  | nil => exact Nat.zero_le _
  | cons a l ih =>
    cases l with
    | nil =>
      rw [List.cons_append, List.nil_append, String.intercalate_cons_cons,
        String.utf8ByteSize_append, String.utf8ByteSize_append]
      exact Nat.le_trans (Nat.le_add_right _ _) (Nat.le_add_right _ _)
    | cons b l =>
      rw [List.cons_append, List.cons_append, String.intercalate_cons_cons,
        String.intercalate_cons_cons, String.utf8ByteSize_append, String.utf8ByteSize_append,
        String.utf8ByteSize_append, String.utf8ByteSize_append]
      exact Nat.add_le_add_left ih _

theorem utf8ByteSize_parent_le {q : Path} {last : String} (h : q.parts = p.parent.parts ++ [last])
    (ha : q.anchor = p.anchor) (hlong : maxPathBytes < p.parent.text.utf8ByteSize) :
    maxPathBytes < q.text.utf8ByteSize := by
  refine Nat.lt_of_lt_of_le hlong ?_
  have hparts : ¬ (q.anchor = .relative ∧ q.parts = []) := by
    rintro ⟨-, he⟩
    rw [h] at he
    exact List.append_ne_nil_of_right_ne_nil _ (List.cons_ne_nil _ _) he
  have hparent : ¬ (p.parent.anchor = .relative ∧ p.parent.parts = []) := by
    intro he
    unfold Path.text at hlong
    rw [if_pos he] at hlong
    revert hlong
    decide
  unfold Path.text
  rw [if_neg hparts, if_neg hparent, h, ha, String.utf8ByteSize_append, String.utf8ByteSize_append]
  exact Nat.add_le_add_left (utf8ByteSize_intercalate_le _ _ _) _

/-- A path that can be asked for has a folder that can. -/
theorem check_parent {q : Path} {last : String} (h : q.parts = p.parent.parts ++ [last])
    (ha : q.anchor = p.anchor) (hq : check q = .ok ()) : check p.parent = .ok () := by
  unfold check at hq ⊢
  split at hq
  · cases hq
  rename_i hzero
  split at hq
  · cases hq
  rename_i hlong
  rw [h, List.any_append, Bool.or_eq_true, not_or] at hzero
  rw [if_neg hzero.1, if_neg fun hp => hlong (utf8ByteSize_parent_le h ha hp)]

theorem blocks_cases (h : d.Blocks p) : p.Refused ∨ d.FileOnTheWay p := by
  obtain ⟨e, hne, he⟩ := h
  unfold locate at he
  cases hc : check p with
  | error e' => exact Or.inl (Or.inl ⟨e', hc⟩)
  | ok _ =>
    simp only [hc, bind, Except.bind] at he
    split at he
    · cases he
    · rename_i name hname
      have hparts : p.parts = p.parent.parts ++ [name] :=
        (List.dropLast_append_getLast? name hname).symm
      cases hf : d.folder p.parent.parts with
      | error e' =>
        rw [hf] at he
        obtain rfl : e' = e := Except.error.inj he
        refine (fileAlong_of_error hf hne).imp_left fun hlong => Or.inr ?_
        obtain ⟨long, hmem, htoo⟩ := hlong
        rw [hparts]
        exact ⟨long, List.mem_append_left _ hmem, htoo⟩
      | ok q =>
        rw [hf] at he
        have hchild : child q name = .error e := he
        refine Or.inl (Or.inr ⟨name, ?_, ?_⟩)
        · rw [hparts]
          exact List.mem_append_right _ List.mem_cons_self
        · apply Decidable.byContradiction
          intro hlong
          rw [child_of_not_tooLong hlong] at hchild
          cases hchild

theorem fileAlong_congr (h : ∀ place, d'.fileAt place = d.fileAt place) (place : Place)
    (names : List String) : d'.FileAlong place names ↔ d.FileAlong place names := by
  simp only [FileAlong, h]

/-! ## Temporary paths -/

theorem parent_sibling (p : Path) (n : Nat) : (sibling p n).parent.parts = p.parent.parts := by
  show (sibling p n).parts.dropLast = p.parent.parts
  rw [parts_sibling, List.dropLast_concat]

theorem name?_sibling (p : Path) (n : Nat) :
    (sibling p n).name? = some (temporaryName p.name n) := by
  unfold Path.name?
  rw [parts_sibling, List.getLast?_concat]

theorem locate_sibling {n : Nat} (hc : check (sibling p n) = .ok ()) :
    d.locate (sibling p n) =
      (d.folder p.parent.parts >>= fun place => child place (temporaryName p.name n)) := by
  unfold locate
  rw [hc, name?_sibling, parent_sibling]
  rfl

theorem check_ne_notFound {e : DiskError} (h : check p = .error e) : e ≠ .notFound := by
  unfold check at h
  split at h
  · cases h
    decide
  · split at h
    · cases h
      decide
    · cases h

/-- Where a file stands in the way of a temporary path, or the system takes no such path, that is
what blocks it once its folder has been asked for; and nothing else does. -/
theorem blocks_sibling_iff (d : Disk) (p : Path) (n : Nat) :
    (d.makeParent p).2.Blocks (sibling p n) ↔ (sibling p n).Refused ∨ d.FileOnTheWay p := by
  have hsame : ∀ place, (d.makeParent p).2.fileAt place = d.fileAt place :=
    fun place => (makeParent_spares place d p).file
  have htransfer : (d.makeParent p).2.FileOnTheWay (sibling p n) ↔ d.FileOnTheWay p := by
    unfold FileOnTheWay
    rw [parent_sibling]
    exact fileAlong_congr hsame [] _
  refine ⟨fun h => (blocks_cases h).imp_right htransfer.mp, fun h => ?_⟩
  cases hc : check (sibling p n) with
  | error e =>
    refine ⟨e, check_ne_notFound hc, ?_⟩
    simp only [locate, hc, bind, Except.bind]
  | ok _ =>
    have hparent : check p.parent = .ok () := check_parent (parts_sibling p n) rfl hc
    have hmake : d.makeParent p = d.makeFolders [] p.parent.parts := by
      unfold makeParent
      rw [hparent]
    rcases follow_makeFolders (Prod.eta (d.makeFolders [] p.parent.parts)).symm with
      ⟨q, hq, -⟩ | ⟨e, -, hne, he, -⟩
    · rw [← hmake] at hq
      obtain ⟨hfile, hshort⟩ := not_fileAlong_of_ok (fileAt_root _) hq
      -- the folder is there, so only the temporary name itself can be at fault
      have hlong : TooLong (temporaryName p.name n) := by
        rcases h with (⟨e, he⟩ | ⟨name, hname, hlong⟩) | h
        · rw [hc] at he
          cases he
        · rw [parts_sibling] at hname
          rcases List.mem_append.mp hname with hname | hname
          · exact absurd hlong (hshort name hname)
          · exact List.mem_singleton.mp hname ▸ hlong
        · exact absurd ((fileAlong_congr hsame [] _).mpr h) hfile
      refine ⟨.nameTooLong, by decide, ?_⟩
      rw [locate_sibling hc]
      exact bind_of_ok hq (child_of_tooLong hlong q)
    · rw [← hmake] at he
      refine ⟨e, hne, ?_⟩
      rw [locate_sibling hc]
      exact bind_of_error he _

end Disk

end ExactCalc
