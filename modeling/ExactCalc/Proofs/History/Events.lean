/-
  ExactCalc.Proofs.History.Events — what is left of a store when some of what is done
  with it fails (`HistoryStore.load`, `save`; see `ExactCalc.History.Store`).

  A load or a save that fails leaves the store and every file as they were. The store
  goes on from there: each event but a load that succeeds keeps all that is in memory
  and adds to it (`grows_step`), and so does any sequence of them (`grows_after`); the
  next save that succeeds writes it all, what an earlier one could not write included.
-/

import ExactCalc.Engine
import ExactCalc.Proofs.History.RoundTrip
import ExactCalc.Proofs.History.SaveFailure

namespace ExactCalc

/-- What is done with a store, or around it. -/
inductive Event where
  | load
  | startSession
  | append (entry : Entry)
  /-- The variables are set, removed or replaced. -/
  | setVars (vars : Variables)
  | save (mishap : Option Mishap)
  /-- Others change the disk, or time goes by. -/
  | elsewhere (w : World)

namespace Event

/-- The entries that come with an event. -/
def entries : Event → List Entry
  | append entry => [entry]
  | _ => []

/-- The variables after an event that loads none. -/
def varsAfter (vars : Variables) : Event → Variables
  | setVars vars => vars
  | _ => vars

end Event

namespace Store

/-- An event that fails. -/
def Fails (s : Store) (w : World) : Event → Prop
  | .load => ∃ f, (s.load w.disk w.supply).1 = .error f
  | .save m => ∃ f, (s.save m w.disk).1 = .error f
  | _ => False

/-- The store and the world after an event. -/
def step (s : Store) (w : World) : Event → Store × World
  | .load =>
    ((s.load w.disk w.supply).1.toOption.getD s, { w with supply := (s.load w.disk w.supply).2 })
  | .startSession => ((s.startSession w.supply).2.1, { w with supply := (s.startSession w.supply).2.2 })
  | .append entry => ((s.append entry w.supply).1, { w with supply := (s.append entry w.supply).2 })
  | .setVars vars => ({ s with vars := vars }, w)
  | .save m => ((s.save m w.disk).1.toOption.getD s, { w with disk := (s.save m w.disk).2 })
  | .elsewhere w => (s, w)

def after (s : Store) (w : World) (evs : List Event) : Store × World :=
  evs.foldl (fun p ev => p.1.step p.2 ev) (s, w)

/-- No load among the events succeeds; such a one gives up what is in memory. -/
def Unloaded (s : Store) (w : World) : List Event → Prop
  | [] => True
  | ev :: evs => (ev = .load → s.Fails w ev) ∧ Unloaded (s.step w ev).1 (s.step w ev).2 evs

/-- Later, the second store holds what the first one held, and these entries; the variables are
those. -/
structure Grows (s s' : Store) (entries : List Entry) (vars : Variables) : Prop where
  path : s'.path = s.path
  vars : s'.vars = vars
  entries : s'.allEntries.Perm (s.allEntries ++ entries)
  sessions : ∀ a ∈ s.sessions, ∃ b ∈ s'.sessions,
    b.id = a.id ∧ b.startedAt = a.startedAt ∧ a.entries <+: b.entries

variable {s s' s'' : Store} {w : World} {ev : Event} {entries more : List Entry}
  {vars vars' : Variables}

/-! ## Failures -/

theorem step_of_fails (h : s.Fails w ev) : (s.step w ev).1 = s := by
  cases ev with
  | load =>
    obtain ⟨f, hf⟩ := h
    show (s.load w.disk w.supply).1.toOption.getD s = s
    rw [hf]
    rfl
  | save m =>
    obtain ⟨f, hf⟩ := h
    show (s.save m w.disk).1.toOption.getD s = s
    rw [hf]
    rfl
  | startSession => exact h.elim
  | append entry => exact h.elim
  | setVars vars => exact h.elim
  | elsewhere w => exact h.elim

theorem spares_of_fails (h : s.Fails w ev) (place : Place) :
    Disk.Spares place w.disk (s.step w ev).2.disk := by
  cases ev with
  | load => exact .refl place w.disk
  | save m =>
    obtain ⟨f, hf⟩ := h
    exact save_spares hf place
  | startSession => exact h.elim
  | append entry => exact h.elim
  | setVars vars => exact h.elim
  | elsewhere w => exact h.elim

/-! ## Growth -/

theorem Grows.refl (s : Store) : Grows s s [] s.vars where
  path := rfl
  vars := rfl
  entries := by rw [List.append_nil]
  sessions a ha := ⟨a, ha, rfl, rfl, List.prefix_rfl⟩

theorem Grows.trans (h : Grows s s' entries vars) (h' : Grows s' s'' more vars') :
    Grows s s'' (entries ++ more) vars' where
  path := h'.path.trans h.path
  vars := h'.vars
  entries := by
    rw [← List.append_assoc]
    exact h'.entries.trans (h.entries.append_right more)
  sessions a ha := by
    obtain ⟨b, hb, hid, hstart, hprefix⟩ := h.sessions a ha
    obtain ⟨c, hc, hid', hstart', hprefix'⟩ := h'.sessions b hb
    exact ⟨c, hc, hid'.trans hid, hstart'.trans hstart, hprefix.trans hprefix'⟩

theorem grows_enroll (s : Store) (a : Session) : Grows s (s.enroll a) a.entries s.vars where
  path := rfl
  vars := rfl
  entries := perm_enroll s a
  sessions b hb := by
    refine ⟨b, ?_, rfl, rfl, List.prefix_rfl⟩
    exact Session.mem_sorted.mpr (List.mem_append_left _ hb)

theorem sessions_addEntry (id : Text.Symbols) (e : Entry) (l : List Session) :
    ∀ a ∈ l, ∃ b ∈ addEntry id e l,
      b.id = a.id ∧ b.startedAt = a.startedAt ∧ a.entries <+: b.entries := by
  induction l with
  | nil =>
    intro a ha
    cases ha
  | cons c l ih =>
    intro a ha
    unfold addEntry
    by_cases hc : c.id = id
    · rw [if_pos hc]
      rcases List.mem_cons.mp ha with rfl | ha
      · exact ⟨_, List.mem_cons_self, rfl, rfl, List.prefix_append _ _⟩
      · exact ⟨a, List.mem_cons_of_mem _ ha, rfl, rfl, List.prefix_rfl⟩
    · rw [if_neg hc]
      rcases List.mem_cons.mp ha with rfl | ha
      · exact ⟨a, List.mem_cons_self, rfl, rfl, List.prefix_rfl⟩
      · obtain ⟨b, hb, h⟩ := ih a ha
        exact ⟨b, List.mem_cons_of_mem _ hb, h⟩

theorem grows_append (s : Store) (e : Entry) (supply : Supply) :
    Grows s (s.append e supply).1 [e] s.vars where
  path := append_path s e supply
  vars := by
    unfold append
    split
    · rfl
    · rfl
  entries := perm_append s e supply
  sessions := by
    unfold append
    split
    · exact sessions_addEntry _ e s.sessions
    · exact (grows_enroll s { (Session.new supply).1 with entries := [e] }).sessions

/-- Every event but a load that succeeds keeps what is in memory. -/
theorem grows_step (s : Store) (w : World) (ev : Event) (h : ev = .load → s.Fails w ev) :
    Grows s (s.step w ev).1 ev.entries (ev.varsAfter s.vars) := by
  cases ev with
  | load =>
    rw [step_of_fails (h rfl)]
    exact .refl s
  | startSession => exact grows_enroll s (Session.new w.supply).1
  | append entry => exact grows_append s entry w.supply
  | setVars vars => exact ⟨rfl, rfl, (Grows.refl s).entries, (Grows.refl s).sessions⟩
  | save m =>
    cases hs : (s.save m w.disk).1 with
    | error f =>
      have hfails : s.Fails w (.save m) := ⟨f, hs⟩
      rw [step_of_fails hfails]
      exact .refl s
    | ok s' =>
      have hstep : (s.step w (.save m)).1 = s' := by
        show (s.save m w.disk).1.toOption.getD s = s'
        rw [hs]
        rfl
      rw [hstep, save_eq_ok hs]
      exact ⟨rfl, rfl, (Grows.refl s).entries, (Grows.refl s).sessions⟩
  | elsewhere w => exact .refl s

theorem grows_after (s : Store) (w : World) (evs : List Event) (h : s.Unloaded w evs) :
    Grows s (s.after w evs).1 (evs.flatMap Event.entries)
      (evs.foldl Event.varsAfter s.vars) := by
  induction evs generalizing s w with
  | nil => exact .refl s
  | cons ev evs ih =>
    have hstep := grows_step s w ev h.1
    have hrest := ih (s.step w ev).1 (s.step w ev).2 h.2
    rw [hstep.vars] at hrest
    exact hstep.trans hrest

/-! ## Stores that can be -/

theorem built_step (hb : s.Built) (w : World) (ev : Event) (he : ∀ e ∈ ev.entries, e.Settled) :
    (s.step w ev).1.Built := by
  cases ev with
  | load =>
    show ((s.load w.disk w.supply).1.toOption.getD s).Built
    cases hs : (s.load w.disk w.supply).1 with
    | error f => exact hb
    | ok s' => exact .load hb hs
  | startSession => exact .startSession w.supply hb
  | append entry => exact .append w.supply hb (he entry (List.mem_singleton.mpr rfl))
  | setVars vars => exact .setVars vars hb
  | save m =>
    show ((s.save m w.disk).1.toOption.getD s).Built
    cases hs : (s.save m w.disk).1 with
    | error f => exact hb
    | ok s' => exact .save hb hs
  | elsewhere w => exact hb

theorem built_after (hb : s.Built) (w : World) (evs : List Event)
    (he : ∀ e ∈ evs.flatMap Event.entries, e.Settled) : (s.after w evs).1.Built := by
  induction evs generalizing s w with
  | nil => exact hb
  | cons ev evs ih =>
    rw [List.flatMap_cons, List.forall_mem_append] at he
    exact ih (built_step hb w ev he.1) (s.step w ev).2 he.2

/-! ## All or nothing -/

/-- An event that fails leaves the store and every file as they were, and no file that is new.
Whatever is done with the store after that, short of a load that succeeds: the next save that
succeeds writes what the store held at the failure and everything since, and it is read back from
the file as it is in memory. -/
theorem failed_loses_nothing (h : s.Fails w ev) :
    let next := s.step w ev
    next.1 = s ∧
    (∀ place, next.2.disk.fileAt place = w.disk.fileAt place) ∧
    (∀ bytes, w.disk.read s.path = .ok bytes → next.2.disk.read s.path = .ok bytes) ∧
    ∀ evs m, next.1.Unloaded next.2 evs →
      let later := next.1.after next.2 evs
      Grows s later.1 (evs.flatMap Event.entries) (evs.foldl Event.varsAfter s.vars) ∧
      ∀ s', (later.1.save m later.2.disk).1 = .ok s' →
        (later.1.save m later.2.disk).2.read s.path = .ok later.1.history.encode ∧
        (s.Built → (∀ e ∈ evs.flatMap Event.entries, e.Settled) →
          ∀ supply, ∃ g, History.decode later.1.history.encode supply = (.ok g, supply) ∧
            g.sessions = later.1.sessions ∧
            (∀ key, g.vars.get? key = later.1.vars.stored.get? key) ∧
            ∀ name, (g.vars.get? (.ofString name)).map StoredNumber.toNumber =
              later.1.vars.get? name) := by
  intro next
  have hsame : next.1 = s := step_of_fails h
  refine ⟨hsame, fun place => (spares_of_fails h place).file,
    fun bytes => Disk.read_of_spares (spares_of_fails h s.path.place), fun evs m hu => ?_⟩
  intro later
  have hgrows : Grows next.1 later.1 (evs.flatMap Event.entries)
      (evs.foldl Event.varsAfter next.1.vars) := grows_after next.1 next.2 evs hu
  rw [hsame] at hgrows
  refine ⟨hgrows, fun s' hs => ⟨?_, fun hb he supply => ?_⟩⟩
  · rcases later.1.save_cases m later.2.disk with ⟨f, hf, -⟩ | ⟨-, hread⟩
    · rw [hf] at hs
      cases hs
    · rw [hgrows.path] at hread
      exact hread
  · have hbuilt : later.1.Built := by
      have hnext : next.1.Built := by
        rw [hsame]
        exact hb
      exact built_after hnext next.2 evs he
    exact hbuilt.reads_history supply

/-- A save whose move fails, another entry, and a save that succeeds: both entries are in the
file. -/
theorem both_entries_after_failed_save :
    let entry : String → Entry := fun text => (Entry.ofResult text (.exact 2) .still).1
    let s := ((new ⟨.root, ["history.bin"]⟩).append (entry "1+1") .still).1
    let w : World := ⟨Disk.empty, .still⟩
    let next := s.step w (.save (some .replacing))
    let later := next.1.after next.2 [.append (entry "4/2")]
    s.Fails w (.save (some .replacing)) ∧ next.1 = s ∧
      ∃ bytes g, (later.1.save none later.2.disk).2.read ⟨.root, ["history.bin"]⟩ = .ok bytes ∧
        History.decode bytes .still = (.ok g, .still) ∧ g.entries.length = 2 := by
  intro entry s w next later
  have hfails : s.Fails w (.save (some .replacing)) := by
    have hnot : (s.save (some .replacing) w.disk).1.isOk = false := by decide +kernel
    cases hs : (s.save (some .replacing) w.disk).1 with
    | error f => exact ⟨f, hs⟩
    | ok s' =>
      rw [hs] at hnot
      cases hnot
  have hlater : (later.1.save none later.2.disk).1.isOk = true := by decide +kernel
  obtain ⟨s', hs'⟩ : ∃ s', (later.1.save none later.2.disk).1 = .ok s' := by
    cases hs : (later.1.save none later.2.disk).1 with
    | ok s' => exact ⟨s', rfl⟩
    | error f =>
      rw [hs] at hlater
      cases hlater
  obtain ⟨hsame, -, -, hall⟩ := failed_loses_nothing hfails
  have hunloaded : next.1.Unloaded next.2 [.append (entry "4/2")] :=
    ⟨(fun h => by cases h), trivial⟩
  obtain ⟨hgrows, hsaved⟩ := hall [.append (entry "4/2")] none hunloaded
  obtain ⟨hread, hmemory⟩ := hsaved s' hs'
  have hsettled : ∀ text, (entry text).Settled := fun text => Entry.settled_ofResult text _ .still
  obtain ⟨g, hdecode, hsessions, -⟩ := hmemory (.append .still (.new _) (hsettled _))
    (fun e he => List.mem_singleton.mp he ▸ hsettled _) .still
  refine ⟨hfails, hsame, _, g, hread, hdecode, ?_⟩
  have hfirst : s.allEntries.length = 1 :=
    (perm_append (new ⟨.root, ["history.bin"]⟩) (entry "1+1") .still).length_eq
  have hentries : g.entries = later.1.allEntries := by
    unfold History.entries allEntries
    rw [hsessions]
  rw [hentries, hgrows.entries.length_eq, List.length_append, hfirst]
  rfl

end Store

end ExactCalc
