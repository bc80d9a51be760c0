/-
  ExactCalc.Proofs.Engine.Replay — the history as a complete log (see
  `ExactCalc.Engine`).

  An engine that was opened without a previous history records the inputs that it
  accepts, in order and as they were typed, and what an input comes to depends on the
  variables alone. So the inputs of its entries, given to another such engine, have the
  values that the entries hold and lead to the same table (`log_replays`). The two
  engines may differ in their settings, identifiers and times, in the disks they find
  and in what goes wrong when they save.
-/

import ExactCalc.Proofs.Engine.Effect

namespace ExactCalc.Engine

open Text

variable {e f : Engine}

/-! ## Engines without a previous history -/

/-- Opened, and with nothing loaded. -/
structure Fresh (e : Engine) : Prop where
  opened : ∃ settings w w', start settings w = (.ok e, w')
  noEntries : e.store.allEntries = []
  noVars : e.vars = Table.empty

/-- So is an engine that finds no file. -/
theorem fresh_of_notFound {settings : Settings} {w w' : World} (hs : start settings w = (.ok e, w'))
    (hd : w.disk.read settings.historyPath = .error .notFound) : Fresh e := by
  have hload : (Store.new settings.historyPath).loadOrEmpty w.disk w.supply =
      (.ok (Store.new settings.historyPath, none), w.supply) := by
    have hcontent : (Store.new settings.historyPath).content w.disk = .ok none := by
      unfold Store.content
      rw [show (Store.new settings.historyPath).path = settings.historyPath from rfl, hd]
    unfold Store.loadOrEmpty Store.load
    rw [hcontent]
    rfl
  have hopened := hs
  unfold start at hs
  rw [hload] at hs
  cases hs
  exact ⟨⟨settings, w, _, hopened⟩, (Store.perm_enroll _ _).eq_nil, rfl⟩

/-! ## Entries in one session -/

/-- The current session holds all the entries. -/
def Sole (e : Engine) : Prop :=
  ∃ a, e.store.currentSession? = some a ∧ e.store.allEntries = a.entries

theorem Fresh.sole (h : Fresh e) : Sole e := by
  obtain ⟨settings, w, w', hs⟩ := h.opened
  obtain ⟨a, ha⟩ := Option.isSome_iff_exists.mp (currentSession?_start (congrArg Prod.fst hs))
  obtain ⟨id, -, hfind⟩ := Option.bind_eq_some_iff.mp ha
  refine ⟨a, ha, h.noEntries.trans ?_⟩
  exact (List.flatMap_eq_nil_iff.mp h.noEntries a (List.mem_of_find?_eq_some hfind)).symm

/-- What a call takes is one accepted input, or nothing. -/
theorem taking_eq (e : Engine) (w : World) (c : Call) : e.taking w c = e ∨
    ∃ text value vars, e.accepted? text = some (value, vars) ∧
      e.taking w c = e.withValue text value vars w.supply := by
  cases c with
  | save m => exact Or.inl rfl
  | close m => exact Or.inl rfl
  | evaluate text m =>
    cases ha : e.accepted? text with
    | none => exact Or.inl (by simp only [taking, ha])
    | some r =>
      refine Or.inr ⟨text, r.1, r.2, ha, ?_⟩
      simp only [taking, ha]
      rfl

/-- What a call has taken is there after it, whatever comes of its save. -/
theorem call_same (e : Engine) (w : World) (c : Call) :
    (e.call w c).1.vars = (e.taking w c).vars ∧
    (e.call w c).1.store.allEntries = (e.taking w c).store.allEntries ∧
    (e.call w c).1.store.currentSession? = (e.taking w c).store.currentSession? := by
  unfold Store.allEntries
  rcases e.call_cases w c with ⟨-, hengine, -⟩ | ⟨-, hengine, -⟩
  · rw [hengine]
    exact ⟨rfl, rfl, rfl⟩
  · rw [hengine]
    obtain ⟨hvars, hsessions, hcurrent⟩ := afterSave_same (e.taking w c) c.mishap w.disk
    exact ⟨hvars, by rw [hsessions], hcurrent⟩

theorem vars_withValue (e : Engine) (text : String) (value : Number) (vars : Variables)
    (supply : Supply) : (e.withValue text value vars supply).vars = vars :=
  Store.append_vars _ _ _

/-- A call leaves variables and entries as they are; or it brings the variables after an accepted
input, and the entry of that input after all the others. -/
theorem call_of_sole (h : Sole e) (w : World) (c : Call) :
    Sole (e.call w c).1 ∧
    (((e.call w c).1.vars = e.vars ∧ (e.call w c).1.store.allEntries = e.store.allEntries) ∨
      ∃ text value, e.accepted? text = some (value, (e.call w c).1.vars) ∧
        (e.call w c).1.store.allEntries =
          e.store.allEntries ++ [(Entry.ofResult text value w.supply).1]) := by
  obtain ⟨hvars, hentries, hcurrent⟩ := e.call_same w c
  unfold Sole
  rw [hvars, hentries, hcurrent]
  rcases e.taking_eq w c with htaking | ⟨text, value, vars, ha, htaking⟩
  · rw [htaking]
    exact ⟨h, Or.inl ⟨rfl, rfl⟩⟩
  · obtain ⟨a, hcurrent, hall⟩ := h
    obtain ⟨hnext, hlast⟩ := Store.append_of_all (s := { e.store with vars := vars }) hcurrent hall
      (Entry.ofResult text value w.supply).1 (Entry.ofResult text value w.supply).2
    rw [htaking, vars_withValue]
    exact ⟨⟨_, hnext, hlast⟩, Or.inr ⟨text, value, ha, hall ▸ hlast⟩⟩

/-! ## Inputs one after another -/

/-- An input, the world it finds and what goes wrong outside should it save. -/
structure Trial where
  text : String
  world : World
  mishap : Option Mishap

/-- The replies to inputs, and the engine after them. -/
def replies (e : Engine) : List Trial → List Reply × Engine
  | [] => ([], e)
  | t :: rest =>
    let r := e.evaluate t.text t.mishap t.world
    let more := r.2.1.replies rest
    (r.1 :: more.1, more.2)

theorem replies_concat (e : Engine) (l : List Trial) (t : Trial) :
    let r := (e.replies l).2.evaluate t.text t.mishap t.world
    e.replies (l ++ [t]) = ((e.replies l).1 ++ [r.1], r.2.1) := by
  induction l generalizing e with
  | nil => rfl
  | cons u l ih => simp only [List.cons_append, replies, ih]

/-- The engine after calls, each in the world it finds. -/
def through (e : Engine) (calls : List (World × Call)) : Engine :=
  calls.foldl (fun e c => (e.call c.1 c.2).1) e

/-! ## Replays -/

/-- Whether the reply is lost to a failure of the system. -/
def isLost : Reply → Bool
  | .broken _ => true
  | _ => false

/-- The reply gives what the entry holds: numerator, denominator and flag. -/
def Repeats (entry : Entry) (reply : Reply) : Prop :=
  ∃ a, reply = .answer a ∧ entry.result = some (.ofNumber a.value) ∧ entry.inexact = a.value.inexact

/-- The inputs of the entries come to what the entries hold, and to the same variables, in every
engine without a previous history; but a reply may be lost. -/
def Replays (e : Engine) (texts : List String) : Prop :=
  e.store.allEntries.map Entry.expression = texts.map .ofString ∧
  ∀ f, Fresh f → ∀ trials, trials.map Trial.text = texts →
    (f.replies trials).2.vars = e.vars ∧
    List.Forall₂ (fun entry reply => Repeats entry reply ∨ isLost reply = true)
      e.store.allEntries (f.replies trials).1

theorem accepted?_congr (h : f.vars = e.vars) (text : String) :
    f.accepted? text = e.accepted? text := by
  unfold accepted?
  rw [h]

/-- What is left after an accepted input, and the reply to it, where the variables are the same. -/
theorem evaluate_repeats {text : String} {value : Number} {vars : Variables} (supply : Supply)
    (ha : e.accepted? text = some (value, vars)) (h : f.vars = e.vars) (m : Option Mishap)
    (w : World) :
    (f.evaluate text m w).2.1.vars = vars ∧
    (Repeats (Entry.ofResult text value supply).1 (f.evaluate text m w).1 ∨
      isLost (f.evaluate text m w).1 = true) := by
  rw [← accepted?_congr h] at ha
  constructor
  · rcases evaluate_of_accepted ha m w with ⟨-, -, hengine, -⟩ | ⟨-, -, hengine, -⟩
    · rw [hengine, vars_withValue]
    · rw [hengine, (afterSave_same _ _ _).1, vars_withValue]
  · rcases reply_of_accepted ha m w with hreply | ⟨g, -, hreply⟩
    · exact Or.inl ⟨_, hreply, rfl, rfl⟩
    · exact Or.inr (by rw [hreply]; rfl)

theorem Fresh.replays (h : Fresh e) : Replays e [] := by
  refine ⟨by rw [h.noEntries]; rfl, fun f hf trials htrials => ?_⟩
  rw [List.map_eq_nil_iff.mp htrials, h.noEntries]
  exact ⟨hf.noVars.trans h.noVars.symm, .nil⟩

/-- One call more: the inputs replayed are the same, or there is one more at the end. -/
theorem replays_call {texts : List String} (hsole : Sole e) (h : Replays e texts) (w : World)
    (c : Call) : ∃ texts', Replays (e.call w c).1 texts' := by
  obtain ⟨hsame, hreplay⟩ := h
  rcases (call_of_sole hsole w c).2 with ⟨hvars, hentries⟩ | ⟨text, value, ha, hentries⟩
  · refine ⟨texts, ?_⟩
    unfold Replays
    rw [hvars, hentries]
    exact ⟨hsame, hreplay⟩
  · refine ⟨texts ++ [text], ?_, fun f hf trials htrials => ?_⟩
    · rw [hentries, List.map_append, List.map_append, hsame]
      rfl
    · obtain ⟨earlier, last, rfl, hearlier, hlast⟩ := List.map_eq_append_iff.mp htrials
      obtain ⟨t, rfl, rfl⟩ := List.map_eq_singleton_iff.mp hlast
      obtain ⟨hvars, hreplies⟩ := hreplay f hf earlier hearlier
      obtain ⟨hafter, hreply⟩ := evaluate_repeats w.supply ha hvars t.mishap t.world
      rw [replies_concat, hentries]
      exact ⟨hafter, List.rel_append hreplies (.cons hreply .nil)⟩

theorem replays_through {texts : List String} (hsole : Sole e) (h : Replays e texts)
    (calls : List (World × Call)) : ∃ texts', Replays (e.through calls) texts' := by
  induction calls generalizing e texts with
  | nil => exact ⟨texts, h⟩
  | cons c calls ih =>
    obtain ⟨texts', h'⟩ := replays_call hsole h c.1 c.2
    exact ih (call_of_sole hsole c.1 c.2).1 h'

theorem forall₂_of_not_isLost {entries : List Entry} {replies : List Reply}
    (h : List.Forall₂ (fun entry reply => Repeats entry reply ∨ isLost reply = true) entries replies)
    (hlost : ∀ reply ∈ replies, isLost reply = false) : List.Forall₂ Repeats entries replies := by
  induction h with
  | nil => exact .nil
  | cons hr _ ih =>
    obtain ⟨hreply, hmore⟩ := List.forall_mem_cons.mp hlost
    exact .cons (hr.resolve_right (by rw [hreply]; decide)) (ih hmore)

/-- An engine that was opened without a previous history goes through any calls, each in any world and
with any mishap. Its entries hold the texts of inputs; in another such engine these lead to the same
variables, in the same order. And each is answered with the value that its entry holds, as long as
saves succeed there or fail in a way that a user is told of. -/
theorem log_replays (he : Fresh e) (calls : List (World × Call)) :
    ∃ texts : List String,
      (e.through calls).store.allEntries.map Entry.expression = texts.map .ofString ∧
      ∀ f, Fresh f → ∀ trials, trials.map Trial.text = texts →
        (f.replies trials).2.vars = (e.through calls).vars ∧
        ((∀ reply ∈ (f.replies trials).1, isLost reply = false) →
          List.Forall₂ Repeats (e.through calls).store.allEntries (f.replies trials).1) := by
  obtain ⟨texts, hsame, hreplay⟩ := replays_through he.sole he.replays calls
  refine ⟨texts, hsame, fun f hf trials htrials => ?_⟩
  obtain ⟨hvars, hreplies⟩ := hreplay f hf trials htrials
  exact ⟨hvars, forall₂_of_not_isLost hreplies⟩

/-- Two of four inputs are accepted; they lead an engine that never saves to the same table. -/
theorem log_replays_of_two_rates :
    let settings : Settings := ⟨6, 1, ⟨.root, ["home"]⟩, ⟨.relative, ["history.bin"]⟩, by decide⟩
    let w : World := ⟨Disk.empty, .still⟩
    ∃ e f, Fresh e ∧ Fresh f ∧ e.settings = settings ∧ f.settings.autosaveInterval = 0 ∧
      let after := e.through [(w, .evaluate "rate = 2/3" none), (w, .evaluate "rate +" none),
        (w, .evaluate " " (some .writing)), (w, .evaluate "rate = √rate" (some .writing))]
      let trials : List Trial := [⟨"rate = 2/3", w, none⟩, ⟨"rate = √rate", w, none⟩]
      (f.replies trials).2.vars = after.vars ∧ after.vars.size = 1 ∧
        List.Forall₂ Repeats after.store.allEntries (f.replies trials).1 := by
  intro settings w
  let opened := (Store.new settings.historyPath).startSession .still
  let e : Engine := ⟨opened.2.1, settings, 0, none⟩
  let f : Engine := ⟨opened.2.1, { settings with autosaveInterval := 0 }, 0, none⟩
  have hstart : start settings w = (.ok e, ⟨Disk.empty, opened.2.2⟩) := rfl
  have hstart' : start { settings with autosaveInterval := 0 } w =
      (.ok f, ⟨Disk.empty, opened.2.2⟩) := rfl
  have he : Fresh e := fresh_of_notFound hstart rfl
  have hf : Fresh f := fresh_of_notFound hstart' rfl
  refine ⟨e, f, he, hf, rfl, rfl, ?_⟩
  intro after trials
  obtain ⟨texts, hsame, hreplay⟩ := log_replays he _
  have hentries : after.store.allEntries.map Entry.expression =
      (trials.map Trial.text).map Symbols.ofString := by decide +kernel
  have htexts : trials.map Trial.text = texts :=
    List.map_injective_iff.mpr (fun _ _ => Symbols.ofString_inj.mp) (hentries.symm.trans hsame)
  obtain ⟨hvars, hreplies⟩ := hreplay f hf trials htexts
  have hlost : ∀ reply ∈ (f.replies trials).1, isLost reply = false := by decide +kernel
  exact ⟨hvars, by decide +kernel, hreplies hlost⟩

end ExactCalc.Engine
