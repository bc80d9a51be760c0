/-
  ExactCalc.Proofs.Updates — what a table holds after updates, told by the updates
  (`table_after_updates`; `VariableTable.set`, `remove`, `restore`; see
  `ExactCalc.Variables`).

  An update that succeeds decides about some names: it writes a value under them or
  takes them out. The value under a name is the one that the latest of these has
  written. The names stand in the order in which they came in, and a name that is set
  once more does not come in again. Both are of one form: there has been an update of
  one kind, and none of another kind since (`Since`). Whether an update succeeds depends
  on the ones before it, and one that fails counts for nothing.
-/

import ExactCalc.Proofs.Variables

namespace ExactCalc.Variables

/-- An empty table after updates, one after another. -/
def after (us : List Update) : Variables := us.foldl step Table.empty

namespace Update

/-- The update takes place in the table. -/
def Succeeds (vars : Variables) (u : Update) : Prop := (u.result? vars).isSome = true

/-- The update cannot take place: a name is not allowed, or the one to remove is missing. -/
def Refused (vars : Variables) : Update → Prop
  | set name _ => ∃ cause, checkName name = .error cause
  | remove name => name ∉ vars.keys
  | restore source => ∃ name ∈ source.keys, ∃ cause, checkName name = .error cause
  | clear => False

/-- The update writes the value under the name. -/
def Writes (name : String) (value : Number) : Update → Prop
  | set name' value' => name' = name ∧ value' = value
  | restore source => source.get? name = some value
  | remove _ | clear => False

/-- What was under the name before the update does not count any more. -/
def Decides (name : String) : Update → Prop
  | set name' _ | remove name' => name' = name
  | restore _ | clear => True

/-- The name comes into the table, as the one at this place among those that do. -/
def Introduces (vars : Variables) (name : String) (place : Nat) : Update → Prop
  | set name' _ => name' = name ∧ name ∉ vars.keys ∧ place = 0
  | restore source => source.keys[place]? = some name
  | remove _ | clear => False

/-- The name goes out of the table, if only to come in again. -/
def Drops (name : String) : Update → Prop
  | set _ _ => False
  | remove name' => name' = name
  | restore _ | clear => True

end Update

open Update (Succeeds Refused Writes Decides Introduces Drops)

/-- An update of the kind `P` has succeeded, and none of the kind `Q` has since. The kind of an update
may depend on those before it. -/
def Since (P : List Update → Update → Prop) (Q : Update → Prop) (us : List Update) : Prop :=
  ∃ before u rest, us = before ++ u :: rest ∧ u.Succeeds (after before) ∧ P before u ∧
    ∀ mid v more, rest = mid ++ v :: more → v.Succeeds (after (before ++ u :: mid)) → ¬ Q v

/-- The name has come in with the update after so many, at a place among the names that came in with
it, and has not gone out since. -/
def Introduced (us : List Update) (name : String) (number place : Nat) : Prop :=
  Since (fun before u => before.length = number ∧ u.Introduces (after before) name place)
    (Drops name) us

/-! ## One more update -/

variable {vars : Variables} {us : List Update} {u : Update}

theorem after_concat (us : List Update) (u : Update) : after (us ++ [u]) = (after us).step u :=
  List.foldl_concat _ _ _ _

/-- A list with one more element at its end is cut in front of that one, or before. -/
theorem concat_eq_iff {before rest : List Update} {v : Update} :
    us ++ [u] = before ++ v :: rest ↔
      (us = before ∧ u = v ∧ rest = []) ∨ ∃ more, rest = more ++ [u] ∧ us = before ++ v :: more := by
  constructor
  · intro h
    rcases List.eq_nil_or_concat rest with rfl | ⟨more, w, rfl⟩
    · obtain ⟨hus, hlast⟩ := List.append_inj' h rfl
      exact Or.inl ⟨hus, List.singleton_inj.mp hlast, rfl⟩
    · rw [List.concat_eq_append, ← List.cons_append, ← List.append_assoc] at h
      obtain ⟨hus, hlast⟩ := List.append_inj' h rfl
      rw [List.concat_eq_append, List.singleton_inj.mp hlast]
      exact Or.inr ⟨more, rfl, hus⟩
  · rintro (⟨rfl, rfl, rfl⟩ | ⟨more, rfl, rfl⟩)
    · rfl
    · rw [List.append_assoc, List.cons_append]

/-- The last update is of the one kind, or it is not of the other and it was so before. -/
theorem since_concat {P : List Update → Update → Prop} {Q : Update → Prop} :
    Since P Q (us ++ [u]) ↔
      (u.Succeeds (after us) ∧ P us u) ∨ (Since P Q us ∧ ¬ (u.Succeeds (after us) ∧ Q u)) := by
  constructor
  · rintro ⟨before, w, rest, hsplit, hw, hP, hrest⟩
    rcases concat_eq_iff.mp hsplit with ⟨rfl, rfl, -⟩ | ⟨rest, rfl, rfl⟩
    · exact Or.inl ⟨hw, hP⟩
    · refine Or.inr ⟨⟨before, w, rest, rfl, hw, hP, fun mid v more hmid => ?_⟩, fun h => ?_⟩
      · exact hrest mid v (more ++ [u]) (concat_eq_iff.mpr (Or.inr ⟨more, rfl, hmid⟩))
      · exact hrest rest u [] rfl h.1 h.2
  · rintro (⟨hu, hP⟩ | ⟨⟨before, w, rest, rfl, hw, hP, hrest⟩, hnot⟩)
    · refine ⟨us, u, [], rfl, hu, hP, fun mid v more hmid => ?_⟩
      exact absurd hmid.symm (List.append_ne_nil_of_right_ne_nil mid (List.cons_ne_nil v more))
    · refine ⟨before, w, rest ++ [u], concat_eq_iff.mpr (Or.inr ⟨rest, rfl, rfl⟩), hw, hP, ?_⟩
      intro mid v more hmid hv hQ
      rcases concat_eq_iff.mp hmid with ⟨rfl, rfl, -⟩ | ⟨more, -, hmore⟩
      · exact hnot ⟨hv, hQ⟩
      · exact hrest mid v more hmore hv hQ

theorem not_since_nil {P : List Update → Update → Prop} {Q : Update → Prop} : ¬ Since P Q [] := by
  rintro ⟨before, u, rest, h, -⟩
  exact List.append_ne_nil_of_right_ne_nil before (List.cons_ne_nil u rest) h.symm

/-! ## What an update does -/

/-- The table that an update leads to, if it takes place. -/
def Update.applied (vars : Variables) : Update → Variables
  | set name value => vars.insert name value
  | remove name => vars.erase name
  | restore source => source
  | clear => Table.empty

theorem checkName_ok_or_error (name : String) :
    checkName name = .ok () ∨ ∃ cause, checkName name = .error cause := by
  cases checkName name with
  | ok _ => exact Or.inl rfl
  | error cause => exact Or.inr ⟨cause, rfl⟩

/-- An update cannot take place, or it leads to that table. -/
theorem result?_cases (vars : Variables) (u : Update) :
    (u.Refused vars ∧ u.result? vars = none) ∨
      (¬ u.Refused vars ∧ u.result? vars = some (u.applied vars)) := by
  cases u with
  | set name value =>
    rcases checkName_ok_or_error name with h | ⟨cause, h⟩
    · refine Or.inr ⟨fun ⟨cause, hcause⟩ => ?_, ?_⟩
      · cases h.symm.trans hcause
      · show (Variables.set vars name value).toOption = _
        rw [Variables.set, h]
        rfl
    · refine Or.inl ⟨⟨cause, h⟩, ?_⟩
      show (Variables.set vars name value).toOption = _
      rw [Variables.set, h]
      rfl
  | remove name =>
    show (name ∉ vars.keys ∧ vars.remove? name = none) ∨
      (¬ name ∉ vars.keys ∧ vars.remove? name = some (vars.erase name))
    unfold remove?
    by_cases h : name ∈ vars.keys
    · exact Or.inr ⟨fun hn => hn h, if_pos (Table.contains_iff.mpr h)⟩
    · exact Or.inl ⟨h, if_neg fun hc => h (Table.contains_iff.mp hc)⟩
  | restore source =>
    by_cases h : ∀ name ∈ source.keys, checkName name = .ok ()
    · refine Or.inr ⟨fun ⟨name, hname, cause, hcause⟩ => ?_, ?_⟩
      · cases (h name hname).symm.trans hcause
      · show (Variables.restore source).toOption = _
        rw [Variables.restore, forM_eq_ok.mpr h]
        rfl
    · push Not at h
      obtain ⟨name, hname, hbad⟩ := h
      refine Or.inl ⟨⟨name, hname, (checkName_ok_or_error name).resolve_left hbad⟩, ?_⟩
      show (Variables.restore source).toOption = none
      cases hr : Variables.restore source with
      | error cause => rfl
      | ok table =>
        obtain ⟨_, hnames, -⟩ := bind_eq_ok.mp hr
        exact absurd (forM_eq_ok.mp hnames name hname) hbad
  | clear => exact Or.inr ⟨id, rfl⟩

/-- Updates fail where they are refused, and nowhere else. -/
theorem not_succeeds_iff : ¬ u.Succeeds vars ↔ u.Refused vars := by
  unfold Succeeds
  rcases result?_cases vars u with ⟨h, hr⟩ | ⟨h, hr⟩
  · rw [hr]
    exact iff_of_true Bool.false_ne_true h
  · rw [hr]
    exact iff_of_false (fun hn => hn rfl) h

theorem step_of_succeeds (h : u.Succeeds vars) : vars.step u = u.applied vars := by
  rcases result?_cases vars u with ⟨hrefused, -⟩ | ⟨-, hr⟩
  · exact absurd h (not_succeeds_iff.mpr hrefused)
  · rw [step, hr]
    rfl

theorem step_of_not_succeeds (h : ¬ u.Succeeds vars) : vars.step u = vars := by
  rw [step, Option.not_isSome_iff_eq_none.mp h]
  rfl

theorem get?_applied {name : String} {value : Number} :
    (u.applied vars).get? name = some value ↔
      u.Writes name value ∨ (vars.get? name = some value ∧ ¬ u.Decides name) := by
  cases u with
  | set name' value' =>
    show (vars.insert name' value').get? name = _ ↔ (name' = name ∧ value' = value) ∨ _ ∧ ¬ name' = name
    rw [Table.get?_insert]
    by_cases h : name' = name
    · simp [h]
    · simp [h, Ne.symm h]
  | remove name' =>
    show (vars.erase name').get? name = _ ↔ False ∨ _ ∧ ¬ name' = name
    rw [Table.get?_erase]
    by_cases h : name' = name
    · simp [h]
    · simp [h, Ne.symm h]
  | restore source =>
    show source.get? name = _ ↔ source.get? name = _ ∨ _ ∧ ¬ True
    simp
  | clear =>
    show (Table.empty : Variables).get? name = _ ↔ False ∨ _ ∧ ¬ True
    simp [Table.empty, Table.get?]

theorem mem_keys_applied {name : String} : name ∈ (u.applied vars).keys ↔
    (∃ place, u.Introduces vars name place) ∨ (name ∈ vars.keys ∧ ¬ u.Drops name) := by
  cases u with
  | set name' value =>
    show name ∈ (vars.insert name' value).keys ↔
      (∃ place, name' = name ∧ name ∉ vars.keys ∧ place = 0) ∨ name ∈ vars.keys ∧ ¬ False
    rw [Table.mem_keys_insert]
    by_cases h : name ∈ vars.keys
    · simp [h]
    · simp [h, eq_comm]
  | remove name' =>
    show name ∈ (vars.erase name').keys ↔ (∃ _, False) ∨ name ∈ vars.keys ∧ ¬ name' = name
    rw [Table.keys_erase, List.mem_filter, decide_eq_true_eq]
    simp [eq_comm]
  | restore source =>
    show name ∈ source.keys ↔ (∃ place, source.keys[place]? = some name) ∨ _ ∧ ¬ True
    rw [List.mem_iff_getElem?]
    simp
  | clear =>
    show name ∈ (Table.empty : Variables).keys ↔ (∃ _, False) ∨ _ ∧ ¬ True
    simp [Table.empty, Table.keys]

/-! ## Values -/

/-- The value under a name is the one that was written there last. -/
theorem get?_after (us : List Update) (name : String) (value : Number) :
    (after us).get? name = some value ↔ Since (fun _ u => u.Writes name value) (Decides name) us := by
  induction us using List.reverseRecOn with
  | nil =>
    refine iff_of_false (fun h => ?_) not_since_nil
    cases h
  | append_singleton us u ih =>
    rw [after_concat, since_concat, ← ih]
    by_cases h : u.Succeeds (after us)
    · rw [step_of_succeeds h, get?_applied]
      simp [h]
    · rw [step_of_not_succeeds h]
      simp [h]

/-! ## The order of the names -/

theorem introduced_concat {name : String} {number place : Nat} :
    Introduced (us ++ [u]) name number place ↔
      (u.Succeeds (after us) ∧ us.length = number ∧ u.Introduces (after us) name place) ∨
      (Introduced us name number place ∧ ¬ (u.Succeeds (after us) ∧ u.Drops name)) := since_concat

theorem Introduced.lt {name : String} {number place : Nat} (h : Introduced us name number place) :
    number < us.length := by
  obtain ⟨before, u, rest, rfl, -, ⟨rfl, -⟩, -⟩ := h
  rw [List.length_append, List.length_cons]
  omega

/-- The name has come in with an earlier update, or earlier in the same one. -/
def Earlier (us : List Update) (a b : String) : Prop :=
  ∀ number place number' place', Introduced us a number place → Introduced us b number' place' →
    number < number' ∨ (number = number' ∧ place < place')

/-- The names that have come in and not gone out are there, in this order. -/
structure Ordered (us : List Update) : Prop where
  mem : ∀ name, name ∈ (after us).keys ↔ ∃ number place, Introduced us name number place
  earlier : (after us).keys.Pairwise (Earlier us)

theorem ordered_nil : Ordered [] := by
  refine ⟨fun name => iff_of_false List.not_mem_nil ?_, List.Pairwise.nil⟩
  rintro ⟨number, place, h⟩
  exact not_since_nil h

/-- Names that do not come in with an update keep their order. -/
theorem earlier_concat {a b : String} (h : Earlier us a b)
    (ha : ∀ place, ¬ u.Introduces (after us) a place)
    (hb : ∀ place, ¬ u.Introduces (after us) b place) : Earlier (us ++ [u]) a b := by
  intro number place number' place' hfirst hsecond
  rcases introduced_concat.mp hfirst with ⟨-, -, hin⟩ | ⟨hfirst, -⟩
  · exact absurd hin (ha place)
  rcases introduced_concat.mp hsecond with ⟨-, -, hin⟩ | ⟨hsecond, -⟩
  · exact absurd hin (hb place')
  exact h number place number' place' hfirst hsecond

theorem Ordered.mem_concat (h : Ordered us) (hu : u.Succeeds (after us)) (name : String) :
    name ∈ (u.applied (after us)).keys ↔ ∃ number place, Introduced (us ++ [u]) name number place := by
  rw [mem_keys_applied, h.mem]
  constructor
  · rintro (⟨place, hin⟩ | ⟨⟨number, place, hin⟩, hdrop⟩)
    · exact ⟨us.length, place, introduced_concat.mpr (Or.inl ⟨hu, rfl, hin⟩)⟩
    · exact ⟨number, place, introduced_concat.mpr (Or.inr ⟨hin, fun hd => hdrop hd.2⟩)⟩
  · rintro ⟨number, place, hin⟩
    rcases introduced_concat.mp hin with ⟨-, -, hin⟩ | ⟨hin, hdrop⟩
    · exact Or.inl ⟨place, hin⟩
    · exact Or.inr ⟨⟨number, place, hin⟩, fun hd => hdrop ⟨hu, hd⟩⟩

/-- A name that is set is the last one, unless it is there already. -/
theorem Ordered.earlier_set (h : Ordered us) (name : String) (value : Number) :
    ((after us).insert name value).keys.Pairwise (Earlier (us ++ [.set name value])) := by
  rw [Table.keys_insert]
  by_cases hmem : name ∈ (after us).keys
  · have hnone : ∀ key place, ¬ (Update.set name value).Introduces (after us) key place := by
      rintro key place ⟨rfl, hnew, -⟩
      exact hnew hmem
    rw [if_pos hmem]
    exact h.earlier.imp fun hab => earlier_concat hab (hnone _) (hnone _)
  · have hold : ∀ key ∈ (after us).keys, ∀ place,
        ¬ (Update.set name value).Introduces (after us) key place := by
      rintro key hkey place ⟨-, hnew, -⟩
      exact hnew hkey
    rw [if_neg hmem, List.pairwise_append]
    refine ⟨h.earlier.imp_of_mem fun ha hb hab => earlier_concat hab (hold _ ha) (hold _ hb),
      List.pairwise_singleton _ _, ?_⟩
    intro a ha b hb number place number' place' hfirst hsecond
    obtain rfl := List.mem_singleton.mp hb
    rcases introduced_concat.mp hfirst with ⟨-, -, hin⟩ | ⟨hfirst, -⟩
    · exact absurd hin (hold a ha place)
    rcases introduced_concat.mp hsecond with ⟨-, rfl, -⟩ | ⟨hsecond, -⟩
    · exact Or.inl hfirst.lt
    · exact absurd ((h.mem b).mpr ⟨number', place', hsecond⟩) hmem

theorem Ordered.earlier_remove (h : Ordered us) (name : String) :
    ((after us).erase name).keys.Pairwise (Earlier (us ++ [.remove name])) := by
  rw [Table.keys_erase]
  refine (h.earlier.sublist List.filter_sublist).imp fun hab => ?_
  exact earlier_concat hab (fun _ => id) (fun _ => id)

/-- The names of a table that replaces another stand in its order. -/
theorem earlier_restore (us : List Update) {source : Variables}
    (hu : (Update.restore source).Succeeds (after us)) :
    source.keys.Pairwise (Earlier (us ++ [.restore source])) := by
  have hplace : ∀ {i : Nat} (hi : i < source.keys.length) {number place : Nat},
      Introduced (us ++ [.restore source]) source.keys[i] number place →
        number = us.length ∧ place = i := by
    intro i hi number place h
    rcases introduced_concat.mp h with ⟨-, rfl, hin⟩ | ⟨-, hdrop⟩
    · obtain ⟨hlt, heq⟩ := List.getElem?_eq_some_iff.mp hin
      exact ⟨rfl, source.distinct.getElem_inj_iff.mp heq⟩
    · exact absurd ⟨hu, trivial⟩ hdrop
  rw [List.pairwise_iff_getElem]
  intro i j hi hj hij number place number' place' hfirst hsecond
  obtain ⟨rfl, rfl⟩ := hplace hi hfirst
  obtain ⟨rfl, rfl⟩ := hplace hj hsecond
  exact Or.inr ⟨rfl, hij⟩

theorem Ordered.concat (h : Ordered us) (u : Update) : Ordered (us ++ [u]) := by
  by_cases hu : u.Succeeds (after us)
  · have htable : after (us ++ [u]) = u.applied (after us) := by
      rw [after_concat, step_of_succeeds hu]
    refine ⟨fun name => ?_, ?_⟩
    · rw [htable]
      exact h.mem_concat hu name
    · rw [htable]
      cases u with
      | set name value => exact h.earlier_set name value
      | remove name => exact h.earlier_remove name
      | restore source => exact earlier_restore us hu
      | clear => exact List.Pairwise.nil
  · have hsame : ∀ {name number place}, Introduced (us ++ [u]) name number place ↔
        Introduced us name number place := by
      intro name number place
      rw [introduced_concat]
      simp [hu]
    have htable : after (us ++ [u]) = after us := by
      rw [after_concat, step_of_not_succeeds hu]
    refine ⟨fun name => ?_, ?_⟩
    · simp only [htable, hsame]
      exact h.mem name
    · rw [htable]
      refine h.earlier.imp fun hab number place number' place' hfirst hsecond => ?_
      exact hab number place number' place' (hsame.mp hfirst) (hsame.mp hsecond)

theorem ordered (us : List Update) : Ordered us := by
  induction us using List.reverseRecOn with
  | nil => exact ordered_nil
  | append_singleton us u ih => exact ih.concat u

/-- A table after updates, failing ones included. Under a name is the value that an update has written
there, if none has decided about the name since. No name is listed twice; those are listed that hold a
value, which are those that have come in and not gone out since, and in the order in which they came
in. An update fails exactly if a name that it brings is not allowed or the one that it takes out is
missing, and then it leaves the table as it is. -/
theorem table_after_updates (us : List Update) :
    (∀ name value, (after us).get? name = some value ↔
      Since (fun _ u => u.Writes name value) (Decides name) us) ∧
    (after us).keys.Nodup ∧
    (∀ name, name ∈ (after us).keys ↔ ∃ value, (after us).get? name = some value) ∧
    (∀ name, name ∈ (after us).keys ↔ ∃ number place, Introduced us name number place) ∧
    (after us).keys.Pairwise (Earlier us) ∧
    ∀ u : Update, (¬ u.Succeeds (after us) ↔ u.Refused (after us)) ∧
      (u.Refused (after us) → after (us ++ [u]) = after us) := by
  refine ⟨get?_after us, (after us).distinct, fun name => Table.mem_keys_iff, (ordered us).mem,
    (ordered us).earlier, fun u => ⟨not_succeeds_iff, fun hrefused => ?_⟩⟩
  rw [after_concat, step_of_not_succeeds (not_succeeds_iff.mpr hrefused)]

/-- A value in place of another one, a failure, and a name that goes and comes back. -/
example : (after [.set "a" (.exact 1), .set "b" (.exact 2), .set "a" (.exact 3), .set "root" (.exact 4),
    .remove "b", .set "c" (.exact 5), .remove "b", .set "b" (.exact 6)]).pairs =
    [("a", .exact 3), ("c", .exact 5), ("b", .exact 6)] := by decide +kernel

end ExactCalc.Variables
