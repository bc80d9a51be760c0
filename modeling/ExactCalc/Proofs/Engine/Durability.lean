/-
  ExactCalc.Proofs.Engine.Durability — what a run leaves on the disk (`CalcEngine`;
  SPEC §5; see `ExactCalc.Engine`).

  Four things are kept in step with the file: the entries in memory, the variables, the
  flag for entries that came in after the last save, and their count. `Inv` says how; a
  call keeps it by taking an entry and then by saving or not (`inv_taking`,
  `inv_keeping`, `inv_sparing`), and a run keeps it by induction.

  Nobody else touches the file. Whatever goes wrong outside, at any stage of any save,
  is in the calls of the run.
-/

import ExactCalc.Proofs.Engine.Run
import ExactCalc.Proofs.History.RoundTrip
import Mathlib.Data.List.Basic

namespace ExactCalc

/-- The file of a path is as it was, and it can be read if it could. -/
def Disk.SameFile (p : Path) (d d' : Disk) : Prop :=
  d'.fileAt p.place = d.fileAt p.place ∧ ∀ bytes, d.read p = .ok bytes → d'.read p = .ok bytes

theorem Disk.Spares.sameFile {p : Path} {d d' : Disk} (h : Spares p.place d d') :
    SameFile p d d' := ⟨h.file, fun _ hr => read_of_spares h hr⟩

/-- The entries that the file of a path holds; a file that cannot be read holds none. -/
def Disk.entriesAt (d : Disk) (p : Path) (supply : Supply) : List Entry :=
  match d.read p with
  | .error _ => []
  | .ok bytes =>
    match (History.decode bytes supply).1 with
    | .error _ => []
    | .ok h => h.entries

theorem Disk.entriesAt_of_read {d : Disk} {p : Path} {h : History} (hw : h.WellFormed)
    (hr : d.read p = .ok h.encode) (supply : Supply) : d.entriesAt p supply = h.entries := by
  unfold entriesAt
  rw [hr]
  dsimp only
  rw [History.decode_encode hw]
  rfl

namespace Run

/-- What holds of a run of an engine that was opened as `e` on the disk `d`. -/
structure Inv (e : Engine) (d : Disk) (r : Run) : Prop where
  settings : r.engine.settings = e.settings
  path : r.engine.store.path = e.store.path
  built : r.engine.store.Built
  /-- Until a save succeeds the file is as it was found. -/
  found : r.saved = none → Disk.Spares e.store.path.place d r.world.disk
  /-- From then on it holds what the latest save wrote. -/
  kept : ∀ h, r.saved = some h → h.WellFormed ∧ r.world.disk.read e.store.path = .ok h.encode
  /-- Nothing is new after a save. -/
  clean : r.engine.store.dirty = false → r.recorded = [] ∨ r.saved = some r.engine.store.history
  /-- No entry is lost in memory. -/
  entries : r.engine.store.allEntries.Perm (e.store.allEntries ++ r.recorded)
  /-- The count is of the entries at the end, and the latest save wrote those before them. -/
  pending : ∃ earlier rest, r.recorded = earlier ++ rest ∧ rest.length = r.engine.unsaved ∧
    (r.saved = none → earlier = []) ∧
    ∀ h, r.saved = some h → h.entries.Perm (e.store.allEntries ++ earlier)

variable {e : Engine} {d : Disk} {r : Run}

theorem inv_opened {w : World} (hb : e.store.Built) (hu : e.unsaved = 0) :
    Inv e w.disk (opened e w) where
  settings := rfl
  path := rfl
  built := hb
  found _ := .refl _ _
  kept _ h := absurd h (Option.some_ne_none _).symm
  clean _ := Or.inl rfl
  entries := by
    show e.store.allEntries.Perm (e.store.allEntries ++ [])
    rw [List.append_nil]
  pending := ⟨[], [], rfl, hu.symm, fun _ => rfl, fun _ h => absurd h (Option.some_ne_none _).symm⟩

/-! ## Steps -/

/-- An entry that is taken is one more in memory, and one more that is not saved. -/
theorem inv_taking (h : Inv e d r) (c : Call) : Inv e d (r.taking c) := by
  rcases r.engine.taking_cases r.world c with ⟨htaken, htaking⟩ | ⟨entry, vars, supply, hs, htaken, htaking⟩
  · have hsame : r.taking c = r := by
      unfold taking
      rw [htaken, htaking, List.append_nil]
    rw [hsame]
    exact h
  · have hnext : r.taking c =
        { r with
          engine := r.engine.withEntry entry vars supply
          recorded := r.recorded ++ [entry] } := by
      unfold taking
      rw [htaken, htaking]
    rw [hnext]
    obtain ⟨earlier, rest, hrecorded, hlength, hnone, hsome⟩ := h.pending
    refine ⟨h.settings, ?_, ?_, h.found, h.kept, fun hclean => ?_, ?_, ?_⟩
    · exact (Store.append_path _ entry supply).trans h.path
    · exact .append supply (.setVars vars h.built) hs
    · rw [Engine.withEntry, Store.append_dirty] at hclean
      cases hclean
    · have happend := Store.perm_append { r.engine.store with vars := vars } entry supply
      have hbefore : (r.engine.store.allEntries ++ [entry]).Perm
          (e.store.allEntries ++ r.recorded ++ [entry]) := h.entries.append_right [entry]
      rw [List.append_assoc] at hbefore
      exact happend.trans hbefore
    · refine ⟨earlier, rest ++ [entry], ?_, ?_, hnone, hsome⟩
      · show r.recorded ++ [entry] = _
        rw [hrecorded, List.append_assoc]
      · rw [List.length_append, hlength]
        rfl

/-- A call that leaves the file alone keeps what is known of it. -/
theorem inv_sparing (h : Inv e d r) {w : World} {failed : Bool}
    (hw : Disk.Spares e.store.path.place r.world.disk w.disk) :
    Inv e d { r with world := w, failed := failed } where
  settings := h.settings
  path := h.path
  built := h.built
  found hn := (h.found hn).trans hw
  kept g hg := ⟨(h.kept g hg).1, Disk.read_of_spares hw (h.kept g hg).2⟩
  clean := h.clean
  entries := h.entries
  pending := h.pending

/-- A save that succeeds leaves nothing that is not saved. -/
theorem inv_keeping (h : Inv e d r) {w : World} {size : Option Nat}
    (hb : (r.keeping w size).engine.store.Built)
    (hr : w.disk.read r.engine.store.path = .ok r.engine.store.history.encode) :
    Inv e d (r.keeping w size) where
  settings := h.settings
  path := h.path
  built := hb
  found h := absurd h (Option.some_ne_none _)
  kept g hg := by
    cases hg
    rw [← h.path]
    exact ⟨h.built.wellFormed, hr⟩
  clean _ := Or.inr rfl
  entries := h.entries
  pending := by
    refine ⟨r.recorded, [], (List.append_nil _).symm, rfl, fun hn => ?_, fun g hg => ?_⟩
    · cases hn
    · cases hg
      exact h.entries

theorem inv_step (h : Inv e d r) (c : Call) : Inv e d (r.step c) := by
  have ht := inv_taking h c
  rcases r.step_cases c with ⟨w, -, hdisk, hstep⟩ | ⟨w, hspares, hstep⟩ | ⟨w, size, hread, hb, hstep⟩
  · rw [hstep]
    apply inv_sparing ht
    rw [hdisk]
    exact .refl _ _
  · rw [hstep]
    rw [ht.path] at hspares
    exact inv_sparing ht hspares
  · rw [hstep]
    exact inv_keeping ht (hb ht.built) hread

theorem inv_after (h : Inv e d r) (calls : List Call) : Inv e d (r.after calls) := by
  induction calls generalizing r with
  | nil => exact h
  | cons c calls ih => exact ih (inv_step h c)

/-! ## Saves in time -/

/-- While no save fails, fewer entries wait than the interval allows. -/
def Timely (r : Run) : Prop :=
  0 < r.engine.settings.autosaveInterval → r.failed = false →
    r.engine.unsaved < r.engine.settings.autosaveInterval

theorem timely_step (h : r.Timely) (c : Call) : (r.step c).Timely := by
  rcases r.step_cases c with ⟨w, hsaves, -, hstep⟩ | ⟨w, -, hstep⟩ | ⟨w, size, -, -, hstep⟩
  · rw [hstep]
    rcases r.engine.taking_cases r.world c with
      ⟨htaken, htaking⟩ | ⟨entry, vars, supply, -, htaken, htaking⟩
    · unfold Timely taking
      rw [htaking]
      exact h
    · have hdue := Engine.not_due hsaves (by rw [htaken]; exact List.cons_ne_nil _ _)
      intro hpos _
      show (r.engine.taking r.world c).unsaved < (r.engine.taking r.world c).settings.autosaveInterval
      have hne : ((r.engine.taking r.world c).settings.autosaveInterval != 0) = true :=
        bne_iff_ne.mpr (Nat.ne_of_gt hpos)
      rw [Engine.isDue, hne, Bool.true_and, decide_eq_false_iff_not] at hdue
      omega
  · rw [hstep]
    exact fun _ hf => Bool.noConfusion hf
  · rw [hstep]
    exact fun hpos _ => hpos

theorem timely_after (h : r.Timely) (calls : List Call) : (r.after calls).Timely := by
  induction calls generalizing r with
  | nil => exact h
  | cons c calls ih => exact ih (timely_step h c)

/-! ## Files and memory -/

/-- During a call the file is as the call found it, or it holds what the call saves. -/
theorem moment_cases (h : Inv e d r) {c : Call} {m : Disk} (hm : r.Moment c m) :
    Disk.Spares e.store.path.place r.world.disk m ∨
    ∃ g, (r.step c).saved = some g ∧ m.read e.store.path = .ok g.encode := by
  cases hm with
  | found => exact Or.inl (.refl _ _)
  | @saving bytes m hsaves hb hm =>
    have hpath : (r.engine.taking r.world c).store.path = e.store.path := (inv_taking h c).path
    rcases Store.save_moment hb hm with hs | ⟨⟨s', hs'⟩, hread⟩
    · rw [hpath] at hs
      exact Or.inl hs
    · rw [hpath] at hread
      refine Or.inr ⟨_, ?_, hread⟩
      simp only [step, hsaves, hs', Except.isOk, Except.toBool, Bool.true_and, if_true]

/-- What memory holds is read from its bytes. -/
theorem reads_memory (h : Inv e d r) (s : Supply) :
    ∃ g, History.decode r.engine.store.history.encode s = (.ok g, s) ∧
      g.sessions = r.engine.store.sessions ∧
      (∀ key, g.vars.get? key = r.engine.store.vars.stored.get? key) ∧
      ∀ name, (g.vars.get? (.ofString name)).map StoredNumber.toNumber = r.engine.vars.get? name :=
  h.built.reads_history s

theorem diff_beginning (l₁ l₂ : List Entry) : (l₁ ++ l₂).diff l₁ = l₂ := by
  induction l₁ with
  | nil => rfl
  | cons a l₁ ih => rw [List.cons_append, List.diff_cons, List.erase_cons_head, ih]

/-- Entries are missing from the file only if they came in after the latest save. -/
theorem missing_le (h : Inv e d r) (s : Supply) :
    (r.recorded.diff (r.world.disk.entriesAt e.store.path s)).length ≤ r.engine.unsaved := by
  obtain ⟨earlier, rest, hrecorded, hlength, hnone, hsome⟩ := h.pending
  rw [hrecorded, ← hlength]
  cases hs : r.saved with
  | none =>
    rw [hnone hs, List.nil_append]
    exact (List.diff_sublist _ _).length_le
  | some g =>
    obtain ⟨hw, hread⟩ := h.kept g hs
    rw [Disk.entriesAt_of_read hw hread]
    have hperm : g.entries.Perm (earlier ++ e.store.allEntries) :=
      (hsome g hs).trans List.perm_append_comm
    rw [hperm.diff_left, List.diff_append, diff_beginning]
    exact (List.diff_sublist _ _).length_le

/-! ## Durability -/

/-- What a run leaves on the disk. Memory holds the entries it started with and all that were
recorded. Between calls the file is the one that was found, or what the latest save that succeeded
wrote; during a call it is as before, or what that call saves. Unless something is new, the file
reads as memory, or nothing was recorded. And while no save fails, fewer entries are missing from
the file than the interval says. -/
theorem durable {settings : Settings} {w w' : World} (hs : Engine.start settings w = (.ok e, w'))
    (calls : List Call) :
    let r := (opened e w').after calls
    let path := settings.historyPath
    r.engine.store.allEntries.Perm (e.store.allEntries ++ r.recorded) ∧
    ((r.saved = none → w.disk.SameFile path r.world.disk) ∧
      (∀ h, r.saved = some h → r.world.disk.read path = .ok h.encode) ∧
      ∀ c m, r.Moment c m → r.world.disk.SameFile path m ∨
        ∃ h, (r.step c).saved = some h ∧ m.read path = .ok h.encode) ∧
    (r.engine.store.dirty = false → r.recorded = [] ∨
      ∃ bytes, r.world.disk.read path = .ok bytes ∧
        ∀ s, ∃ h, History.decode bytes s = (.ok h, s) ∧ h.sessions = r.engine.store.sessions ∧
          (∀ key, h.vars.get? key = r.engine.store.vars.stored.get? key) ∧
          ∀ name, (h.vars.get? (.ofString name)).map StoredNumber.toNumber =
            r.engine.vars.get? name) ∧
    (0 < settings.autosaveInterval → r.failed = false →
      ∀ s, (r.recorded.diff (r.world.disk.entriesAt path s)).length < settings.autosaveInterval) := by
  obtain ⟨hbuilt, hpath, hsettings, -, hunsaved, hdisk⟩ := Engine.start_eq_ok hs
  intro r path
  have hinv : Inv e w'.disk r := inv_after (inv_opened hbuilt hunsaved) calls
  have htimely : r.Timely := by
    refine timely_after (fun hpos _ => ?_) calls
    show e.unsaved < _
    rw [hunsaved]
    exact hpos
  rw [hdisk] at hinv
  have hp : path = e.store.path := hpath.symm
  refine ⟨hinv.entries, ⟨fun hn => ?_, fun h hh => ?_, fun c m hm => ?_⟩, fun hclean => ?_,
    fun hpos hf s => ?_⟩
  · rw [hp]
    exact (hinv.found hn).sameFile
  · rw [hp]
    exact (hinv.kept h hh).2
  · rw [hp]
    exact (moment_cases hinv hm).imp Disk.Spares.sameFile id
  · apply (hinv.clean hclean).imp id
    intro hsaved
    refine ⟨_, ?_, reads_memory hinv⟩
    rw [hp]
    exact (hinv.kept _ hsaved).2
  · have hle := missing_le hinv s
    rw [← hp] at hle
    unfold Timely at htimely
    rw [hinv.settings, hsettings] at htimely
    have hlt := htimely hpos hf
    omega

/-- Three values with a save after every second one: the first two are in the file. -/
theorem durable_of_three_values :
    let settings : Settings := ⟨6, 2, ⟨.root, ["home"]⟩, ⟨.relative, ["history.bin"]⟩, by decide⟩
    ∃ e w, Engine.start settings ⟨Disk.empty, .still⟩ = (.ok e, w) ∧
      let r := (opened e w).after
        [.evaluate "rate = 2/3" none, .evaluate "rate*3" none, .evaluate "1/7" none]
      r.recorded.length = 3 ∧
        (∃ h, r.saved = some h ∧ r.world.disk.read settings.historyPath = .ok h.encode) ∧
        ∀ s, (r.recorded.diff (r.world.disk.entriesAt settings.historyPath s)).length < 2 := by
  intro settings
  let session := (Store.new settings.historyPath).startSession .still
  have hstart : Engine.start settings ⟨Disk.empty, .still⟩ =
      (.ok ⟨session.2.1, settings, 0, none⟩, ⟨Disk.empty, session.2.2⟩) := rfl
  refine ⟨_, _, hstart, ?_⟩
  intro r
  obtain ⟨-, ⟨-, hkept, -⟩, -, htimely⟩ := durable hstart
    [.evaluate "rate = 2/3" none, .evaluate "rate*3" none, .evaluate "1/7" none]
  have hlength : r.recorded.length = 3 := by decide +kernel
  have hfailed : r.failed = false := by decide +kernel
  have hsaved : r.saved.isSome = true := by decide +kernel
  obtain ⟨h, hh⟩ := Option.isSome_iff_exists.mp hsaved
  exact ⟨hlength, ⟨h, hh, hkept h hh⟩, htimely (by decide) hfailed⟩

end Run

end ExactCalc
