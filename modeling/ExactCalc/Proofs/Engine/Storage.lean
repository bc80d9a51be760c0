/-
  ExactCalc.Proofs.Engine.Storage — what failures of the storage do to the calls of an
  engine (`CalcEngine._checkpoint`, `save`, `close`; see `ExactCalc.Engine`).

  Where the way to the temporary file is free, every failure of a save is one that a
  user is told of: an input is answered all the same, and a close says what went wrong.
  Where it is obstructed, the removal of the temporary file fails as well as the save,
  and nothing handles that: the reply to an accepted input is lost, though its entry is
  not.
-/

import ExactCalc.Proofs.Engine.Evaluation
import ExactCalc.Proofs.History.SaveFailure

namespace ExactCalc.Engine

open Store (Obstructed)

variable {e : Engine} {w : World} {m : Option Mishap}

/-! ## Saves of an engine -/

theorem close_system {f : SystemFailure} (h : (e.close m w.disk).1 = .error (.system f)) :
    Obstructed e.store.path m w.disk := by
  unfold close at h
  split at h
  · rw [save_eq] at h
    cases hs : (e.store.save m w.disk).1 with
    | ok store =>
      rw [hs] at h
      cases h
    | error g =>
      rw [hs] at h
      cases h
      exact Store.save_system hs
  · cases h

theorem allEntries_afterSave (e : Engine) (m : Option Mishap) (d : Disk) :
    (e.afterSave (e.store.save m d).1).store.allEntries = e.store.allEntries := by
  unfold Store.allEntries
  rw [(afterSave_same e m d).2.1]

/-! ## Inputs -/

section

variable {text : String} {value : Number} {vars : Variables}

theorem evaluate_broken {f : SystemFailure} (h : (e.evaluate text m w).1 = .broken f) :
    Obstructed e.store.path m w.disk := by
  obtain ⟨value, vars, -, hsaved⟩ := explained_of_reply h
  rw [← path_withValue e text value vars w.supply]
  exact Store.save_system hsaved

theorem evaluate_answers (ha : e.accepted? text = some (value, vars))
    (hfree : ¬ Obstructed e.store.path m w.disk) :
    (e.evaluate text m w).1 = .answer (e.answerTo text value w.supply) := by
  rcases reply_of_accepted ha m w with hr | ⟨g, hsaved, -⟩
  · exact hr
  · refine absurd ?_ hfree
    rw [← path_withValue e text value vars w.supply]
    exact Store.save_system hsaved

/-- Whatever the save comes to, the entry stays in memory. -/
theorem perm_evaluate (ha : e.accepted? text = some (value, vars)) :
    (e.evaluate text m w).2.1.store.allEntries.Perm
      (e.store.allEntries ++ [(Entry.ofResult text value w.supply).1]) := by
  have hnext : (e.withValue text value vars w.supply).store.allEntries.Perm
      (e.store.allEntries ++ [(Entry.ofResult text value w.supply).1]) :=
    Store.perm_append { e.store with vars := vars } _ _
  rcases evaluate_of_accepted ha m w with ⟨-, -, he, -⟩ | ⟨-, -, he, -⟩
  · rw [he]
    exact hnext
  · rw [he, allEntries_afterSave]
    exact hnext

/-- And it counts as new unless the save has succeeded. -/
theorem dirty_evaluate (ha : e.accepted? text = some (value, vars))
    (hs : ∀ store, ((e.withValue text value vars w.supply).store.save m w.disk).1 ≠ .ok store) :
    (e.evaluate text m w).2.1.store.dirty = true := by
  rcases evaluate_of_accepted ha m w with ⟨-, -, he, -⟩ | ⟨-, -, he, -⟩
  · rw [he, dirty_withValue]
  · cases hsaved : ((e.withValue text value vars w.supply).store.save m w.disk).1 with
    | ok store => exact absurd hsaved (hs store)
    | error f => rw [he, afterSave_of_error hsaved, dirty_withValue]

end

/-! ## Failures of the storage -/

/-- A save, a close and an input each meet a failure of the system only where the way to the
temporary file is obstructed, and a save does meet one there unless the history is not encoded or
the making of folders is stopped first. Everywhere else an accepted input is answered. Its entry
is kept in any case, and is new unless the save has succeeded. -/
theorem storage_failures (e : Engine) (m : Option Mishap) (w : World) :
    let obstructed := Obstructed e.store.path m w.disk
    (∀ f, (e.store.save m w.disk).1 = .error (.system f) → obstructed) ∧
    ((∀ detail, m ≠ some (.encoding detail)) → (∀ reached, m ≠ some (.making reached)) →
      obstructed → ∃ f, (e.store.save m w.disk).1 = .error (.system f)) ∧
    (∀ f, (e.close m w.disk).1 = .error (.system f) → obstructed) ∧
    ∀ text,
      (∀ f, (e.evaluate text m w).1 = .broken f → obstructed) ∧
      ∀ value vars, e.accepted? text = some (value, vars) →
        (¬ obstructed → (e.evaluate text m w).1 = .answer (e.answerTo text value w.supply)) ∧
        (e.evaluate text m w).2.1.store.allEntries.Perm
          (e.store.allEntries ++ [(Entry.ofResult text value w.supply).1]) ∧
        ((∀ store, ((e.withValue text value vars w.supply).store.save m w.disk).1 ≠ .ok store) →
          (e.evaluate text m w).2.1.store.dirty = true) := by
  intro obstructed
  refine ⟨fun f => Store.save_system, Store.save_of_obstructed, fun f => close_system,
    fun text => ⟨fun f => evaluate_broken, fun value vars ha => ?_⟩⟩
  exact ⟨evaluate_answers ha, perm_evaluate ha, dirty_evaluate ha⟩

/-- A history that cannot be encoded: the input is answered all the same, and its entry is left for
a later save. -/
theorem answer_despite_failed_encoding :
    let settings : Settings := ⟨6, 1, ⟨.root, []⟩, ⟨.relative, ["history.bin"]⟩, by decide⟩
    let m : Option Mishap := some (.encoding "surrogates not allowed")
    ∃ e w, start settings ⟨Disk.empty, .still⟩ = (.ok e, w) ∧
      (∃ a, (e.evaluate "1+1" m w).1 = .answer a) ∧
      (e.evaluate "1+1" m w).2.1.store.allEntries.length = e.store.allEntries.length + 1 ∧
      (e.evaluate "1+1" m w).2.1.store.dirty = true := by
  intro settings m
  let opened := (Store.new settings.historyPath).startSession .still
  let e : Engine := ⟨opened.2.1, settings, 0, none⟩
  let w : World := ⟨Disk.empty, opened.2.2⟩
  have hstart : start settings ⟨Disk.empty, .still⟩ = (.ok e, w) := rfl
  have hfree : ¬ Obstructed e.store.path m w.disk := by
    rintro (hname | ⟨first, hfirst, hfile⟩ | ⟨error, herror⟩ | ⟨name, hname, hlong⟩)
    · cases hname
    · rw [List.prefix_nil.mp hfirst] at hfile
      cases hfile
    · have hcheck : Disk.check (Store.temporaryOf e.store.path m w.disk) = .ok () := by
        decide +kernel
      rw [hcheck] at herror
      cases herror
    · have hshort : ∀ name ∈ (Store.temporaryOf e.store.path m w.disk).parts,
          ¬ Disk.TooLong name := by decide +kernel
      exact hshort name hname hlong
  have haccepted : (e.accepted? "1+1").isSome = true := by decide +kernel
  obtain ⟨⟨value, vars⟩, ha⟩ := Option.isSome_iff_exists.mp haccepted
  obtain ⟨-, -, -, hevaluate⟩ := storage_failures e m w
  obtain ⟨hanswers, hentries, hdirty⟩ := (hevaluate "1+1").2 value vars ha
  refine ⟨e, w, hstart, ⟨_, hanswers hfree⟩, ?_, hdirty fun store hs => ?_⟩
  · rw [hentries.length_eq, List.length_append]
    rfl
  · cases hs

/-- A regular file where the folder of the history has to be: neither a save nor a close says so in
a way that a user is told of, and the answer to a right input is lost. -/
theorem answer_lost_behind_file :
    let settings : Settings := ⟨6, 1, ⟨.root, ["file"]⟩, ⟨.relative, ["history.bin"]⟩, by decide⟩
    let d : Disk := ⟨Table.empty.insert ["file"] (.file [0])⟩
    ∃ e w, start settings ⟨d, .still⟩ = (.ok e, w) ∧ e.store.path.name? = some "history.bin" ∧
      (∃ f, (e.store.save none w.disk).1 = .error (.system f)) ∧
      (e.accepted? "1+1").isSome = true ∧ (∃ f, (e.evaluate "1+1" none w).1 = .broken f) ∧
      ∃ f, ((e.evaluate "1+1" none w).2.1.close none w.disk).1 = .error (.system f) := by
  intro settings d
  let loaded := (Store.new settings.historyPath).emptied.startSession .still
  let e : Engine :=
    ⟨loaded.2.1, settings, 0, some ⟨.unreadable DiskError.notAFolder.message, some "/file/history.bin"⟩⟩
  have hstart : start settings ⟨d, .still⟩ = (.ok e, ⟨d, loaded.2.2⟩) := rfl
  have hobstructed : Obstructed e.store.path none d := Or.inr (Or.inl ⟨["file"], ⟨[], rfl⟩, rfl⟩)
  have hfails : ∀ s : Store, s.path = e.store.path → ∃ f, (s.save none d).1 = .error (.system f) := by
    intro s hs
    apply Store.save_of_obstructed
    · exact fun _ h => by cases h
    · exact fun _ h => by cases h
    · rw [hs]
      exact hobstructed
  have haccepted : (e.accepted? "1+1").isSome = true := by decide +kernel
  refine ⟨e, ⟨d, loaded.2.2⟩, hstart, rfl, hfails e.store rfl, haccepted, ?_⟩
  obtain ⟨⟨value, vars⟩, ha⟩ := Option.isSome_iff_exists.mp haccepted
  obtain ⟨f, hf⟩ := hfails _ (path_withValue e "1+1" value vars loaded.2.2)
  have hdue : (e.withValue "1+1" value vars loaded.2.2).isDue = true := rfl
  rcases evaluate_of_accepted ha none ⟨d, loaded.2.2⟩ with ⟨hnone, -⟩ | ⟨-, hr, hengine, -⟩
  · rw [hdue] at hnone
    cases hnone
  · rw [hr, hengine, afterSave_of_error hf, hf]
    refine ⟨⟨f, rfl⟩, f, ?_⟩
    rw [close, if_pos (dirty_withValue _ _ _ _ _), save_eq, hf]
    rfl

end ExactCalc.Engine
