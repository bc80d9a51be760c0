/-
  ExactCalc.Proofs.Engine.Presentation — runs that differ in what is shown and in when
  it is saved (`CalcSettings`; see `ExactCalc.Engine`).

  Settings say how many places of a value are shown and how many entries come in between
  two saves. Two engines that open on one file with different ones go through the same
  inputs in step (`InStep`): whatever each of them has saved by then, and even if saves
  fail, they hold the same. As long as no save fails they come to the same values, and
  after the last save so do their files (`inputs_under_other_settings`).
-/

import ExactCalc.Proofs.Engine.Durability
import ExactCalc.Proofs.Engine.Replay

namespace ExactCalc

/-- What a store holds, whatever of it is saved. -/
def Store.memory (s : Store) : Store := { s with dirty := false, lastSize := none }

/-- Replies that are the same but for how a value is shown. -/
inductive Reply.Agrees : Reply → Reply → Prop
  | blank : Agrees .blank .blank
  | rejected (f : Failure) : Agrees (.rejected f) (.rejected f)
  | answer {a b : Answer} : b.expression = a.expression → b.value = a.value →
    b.entryId = a.entryId → Agrees (.answer a) (.answer b)

namespace Store

variable {s s' : Store}

theorem vars_of_memory (h : s'.memory = s.memory) : s'.vars = s.vars := by
  show s'.memory.vars = s.memory.vars
  rw [h]

theorem sessions_of_memory (h : s'.memory = s.memory) : s'.sessions = s.sessions := by
  show s'.memory.sessions = s.memory.sessions
  rw [h]

theorem current_of_memory (h : s'.memory = s.memory) : s'.current = s.current := by
  show s'.memory.current = s.memory.current
  rw [h]

theorem history_of_memory (h : s'.memory = s.memory) : s'.history = s.history := by
  unfold history
  rw [vars_of_memory h, sessions_of_memory h]

/-- What is saved makes no difference to where an entry goes. -/
theorem append_memory (s : Store) (e : Entry) (supply : Supply) :
    (s.append e supply).1.memory = (s.memory.append e supply).1.memory ∧
      (s.append e supply).2 = (s.memory.append e supply).2 := by
  have hcurrent : s.memory.currentSession? = s.currentSession? := rfl
  unfold append
  rw [hcurrent]
  cases s.currentSession? with
  | none => exact ⟨rfl, rfl⟩
  | some a => exact ⟨rfl, rfl⟩

theorem append_congr (h : s'.memory = s.memory) (vars : Variables) (e : Entry) (supply : Supply) :
    ({ s' with vars := vars }.append e supply).1.memory =
        ({ s with vars := vars }.append e supply).1.memory ∧
      ({ s' with vars := vars }.append e supply).2 = ({ s with vars := vars }.append e supply).2 := by
  have hwith : Store.memory { s' with vars := vars } = Store.memory { s with vars := vars } :=
    congrArg (fun t : Store => { t with vars := vars }) h
  obtain ⟨hstore, hsupply⟩ := append_memory { s with vars := vars } e supply
  obtain ⟨hstore', hsupply'⟩ := append_memory { s' with vars := vars } e supply
  rw [hwith] at hstore' hsupply'
  exact ⟨hstore'.trans hstore.symm, hsupply'.trans hsupply.symm⟩

end Store

namespace Engine

/-- A save makes no difference to what is held. -/
theorem memory_call (e : Engine) (w : World) (c : Call) :
    (e.call w c).1.store.memory = (e.taking w c).store.memory := by
  rcases e.call_cases w c with ⟨-, hengine, -⟩ | ⟨-, hengine, -⟩
  · rw [hengine]
  · rw [hengine]
    cases hs : ((e.taking w c).store.save c.mishap w.disk).1 with
    | error f => rfl
    | ok s =>
      rw [Store.save_eq_ok hs]
      rfl

/-- Nor to the identifiers and times that an accepted input takes. -/
theorem supply_of_accepted {e : Engine} {text : String} {value : Number} {vars : Variables}
    (h : e.accepted? text = some (value, vars)) (m : Option Mishap) (w : World) :
    (e.call w (.evaluate text m)).2.supply =
      ({ e.store with vars := vars }.append (Entry.ofResult text value w.supply).1
        (Entry.ofResult text value w.supply).2).2 := by
  show (e.evaluate text m w).2.2.supply = _
  rw [evaluate_of_some h, record_eq]
  split
  · rfl
  · rfl

/-- Settings for the same file make no difference to how an engine opens. -/
theorem start_under {settings settings' : Settings}
    (h : settings'.historyPath = settings.historyPath) (w : World) :
    start settings' w =
      ((start settings w).1.map fun e => { e with settings := settings' }, (start settings w).2) := by
  unfold start
  rw [h]
  rcases (Store.new settings.historyPath).loadOrEmpty w.disk w.supply with ⟨_ | ⟨store, error⟩, supply⟩
  · rfl
  · rfl

end Engine

namespace Run

variable {r r' : Run} {text : String} {m m' : Option Mishap}

/-- The run after inputs, each of which meets the same should it save. -/
def afterInputs (r : Run) (m : Option Mishap) (texts : List String) : Run :=
  r.after (texts.map fun text => .evaluate text m)

/-- Two runs hold the same, have recorded the same, and the same is to come. -/
structure InStep (r r' : Run) : Prop where
  memory : r'.engine.store.memory = r.engine.store.memory
  supply : r'.world.supply = r.world.supply
  recorded : r'.recorded = r.recorded

theorem InStep.vars (h : InStep r r') : r'.engine.vars = r.engine.vars :=
  Store.vars_of_memory h.memory

theorem InStep.sessions (h : InStep r r') :
    r'.engine.store.sessions = r.engine.store.sessions := Store.sessions_of_memory h.memory

/-! ## One input -/

theorem step_of_none (h : r.engine.accepted? text = none) (m : Option Mishap) :
    (r.step (.evaluate text m)).engine = r.engine ∧ (r.step (.evaluate text m)).world = r.world ∧
      (r.step (.evaluate text m)).recorded = r.recorded := by
  have hcall : r.engine.call r.world (.evaluate text m) = (r.engine, r.world) :=
    Engine.evaluate_of_none h m r.world
  have htaken : r.engine.taken r.world (.evaluate text m) = [] := by
    simp only [Engine.taken, h]
  unfold step
  rw [hcall, htaken, List.append_nil]
  exact ⟨rfl, rfl, rfl⟩

/-- Whatever each of them saves, and whatever comes of it. -/
theorem inStep_evaluate (h : InStep r r') (text : String) (m m' : Option Mishap) :
    InStep (r.step (.evaluate text m)) (r'.step (.evaluate text m')) := by
  have haccepted : r'.engine.accepted? text = r.engine.accepted? text :=
    Engine.accepted?_congr h.vars text
  cases ha : r.engine.accepted? text with
  | none =>
    obtain ⟨hengine, hworld, hrecorded⟩ := step_of_none ha m
    obtain ⟨hengine', hworld', hrecorded'⟩ := step_of_none (haccepted.trans ha) m'
    refine ⟨?_, ?_, ?_⟩
    · rw [hengine, hengine']
      exact h.memory
    · rw [hworld, hworld']
      exact h.supply
    · rw [hrecorded, hrecorded']
      exact h.recorded
  | some p =>
    obtain ⟨value, vars⟩ := p
    have ha' := haccepted.trans ha
    have hentry := Store.append_congr h.memory vars
      (Entry.ofResult text value r.world.supply).1 (Entry.ofResult text value r.world.supply).2
    refine ⟨?_, ?_, ?_⟩
    · show (r'.engine.call r'.world _).1.store.memory = (r.engine.call r.world _).1.store.memory
      rw [Engine.memory_call, Engine.memory_call]
      simp only [Engine.taking, ha, ha', h.supply]
      exact hentry.1
    · show (r'.engine.call r'.world _).2.supply = (r.engine.call r.world _).2.supply
      rw [Engine.supply_of_accepted ha, Engine.supply_of_accepted ha', h.supply]
      exact hentry.2
    · show r'.recorded ++ r'.engine.taken r'.world _ = r.recorded ++ r.engine.taken r.world _
      simp only [Engine.taken, ha, ha', h.supply, h.recorded]

theorem inStep_afterInputs (h : InStep r r') (m m' : Option Mishap) (texts : List String) :
    InStep (r.afterInputs m texts) (r'.afterInputs m' texts) := by
  induction texts generalizing r r' with
  | nil => exact h
  | cons text texts ih => exact ih (inStep_evaluate h text m m')

/-! ## Replies -/

/-- A save that a call makes ends well, if none has failed. -/
theorem saved_of_kept {c : Call} (hsaves : r.engine.saves r.world c = true)
    (hf : (r.step c).failed = false) :
    ∃ s, ((r.engine.taking r.world c).store.save c.mishap r.world.disk).1 = .ok s := by
  have hattempt := (Bool.or_eq_false_iff.mp hf).2
  rw [hsaves, Bool.true_and, Bool.not_eq_false'] at hattempt
  exact isOk_iff.mp hattempt

/-- An accepted input is answered if no save fails. -/
theorem reply_of_kept {value : Number} {vars : Variables}
    (ha : r.engine.accepted? text = some (value, vars))
    (hf : (r.step (.evaluate text m)).failed = false) :
    (r.engine.evaluate text m r.world).1 =
      .answer (r.engine.answerTo text value r.world.supply) := by
  rcases Engine.evaluate_of_accepted ha m r.world with ⟨-, hreply, -⟩ | ⟨hdue, hreply, -⟩
  · exact hreply
  · have htaking : r.engine.taking r.world (.evaluate text m) =
        r.engine.withValue text value vars r.world.supply := by
      simp only [Engine.taking, ha]
      rfl
    have hsaves : r.engine.saves r.world (.evaluate text m) = true := by
      show ((r.engine.accepted? text).isSome && (r.engine.taking r.world _).isDue) = true
      rw [htaking, ha, hdue]
      rfl
    obtain ⟨s, hs⟩ := saved_of_kept hsaves hf
    rw [htaking] at hs
    rw [hreply]
    exact Engine.replyAfter_of_told fun f hsaved => by cases hs.symm.trans hsaved

theorem agrees_of_inStep (h : InStep r r') (hf : (r.step (.evaluate text m)).failed = false)
    (hf' : (r'.step (.evaluate text m')).failed = false) :
    Reply.Agrees (r.engine.evaluate text m r.world).1 (r'.engine.evaluate text m' r'.world).1 := by
  rcases r.engine.evaluate_cases text m r.world with
    ⟨hb, hr⟩ | ⟨hb, f, hparse, hr⟩ | ⟨-, value, vars, -, ha⟩
  · rw [hr, Engine.evaluate, if_pos hb]
    exact .blank
  · rw [← h.vars] at hparse
    rw [hr, Engine.evaluate, if_neg (by rw [hb]; decide), hparse]
    exact .rejected f
  · rw [reply_of_kept ha hf, reply_of_kept ((Engine.accepted?_congr h.vars text).trans ha) hf']
    refine .answer rfl rfl ?_
    unfold Engine.answerTo
    rw [h.supply]

/-! ## After the last save -/

/-- Where nothing was recorded, nothing has happened. -/
theorem eq_opened {e : Engine} {w : World} (texts : List String)
    (h : ((opened e w).afterInputs m texts).recorded = []) :
    ((opened e w).afterInputs m texts).engine = e ∧ ((opened e w).afterInputs m texts).world = w := by
  suffices hall : ∀ r : Run, (r.recorded = [] → r.engine = e ∧ r.world = w) →
      (r.afterInputs m texts).recorded = [] →
      (r.afterInputs m texts).engine = e ∧ (r.afterInputs m texts).world = w from
    hall _ (fun _ => ⟨rfl, rfl⟩) h
  clear h
  induction texts with
  | nil => exact fun r hr => hr
  | cons text texts ih =>
    intro r hr
    refine ih (r.step (.evaluate text m)) fun hnone => ?_
    obtain ⟨hbefore, htaken⟩ := List.append_eq_nil_iff.mp hnone
    cases ha : r.engine.accepted? text with
    | none =>
      obtain ⟨hengine, hworld, -⟩ := step_of_none ha m
      rw [hengine, hworld]
      exact hr hbefore
    | some p =>
      simp only [Engine.taken, ha] at htaken
      cases htaken

/-- Nothing is new once an engine is closed. -/
theorem clean_close (hf : (r.step (.close m)).failed = false) :
    (r.step (.close m)).engine.store.dirty = false := by
  rcases r.step_cases (.close m) with ⟨w, hsaves, -, hstep⟩ | ⟨w, -, hstep⟩ | ⟨w, size, -, -, hstep⟩
  · rw [hstep]
    exact hsaves
  · rw [hstep] at hf
    cases hf
  · rw [hstep]
    rfl

/-- A close ends well if it fails to save nothing. -/
theorem close_of_kept (hf : (r.step (.close m)).failed = false) :
    ∃ e, r.engine.close m r.world.disk = (.ok e, (r.step (.close m)).world.disk) := by
  suffices hok : ∃ e, (r.engine.close m r.world.disk).1 = .ok e from
    hok.imp fun e he => Prod.ext he rfl
  unfold Engine.close
  cases hd : r.engine.store.dirty with
  | false => exact ⟨r.engine, rfl⟩
  | true =>
    rw [if_pos rfl, Engine.save_eq]
    obtain ⟨s, hs⟩ := saved_of_kept (c := .close m) hd hf
    change (r.engine.store.save m r.world.disk).1 = .ok s at hs
    rw [hs]
    exact ⟨_, rfl⟩

/-- A closed engine leaves the file as it was found, if it has recorded nothing, or with all that it
holds. -/
theorem file_of_closed {e : Engine} {w : World} (hb : e.store.Built) (hu : e.unsaved = 0)
    (hd : e.store.dirty = false) (texts : List String)
    (hf : (((opened e w).afterInputs m texts).step (.close m')).failed = false) :
    let r := (opened e w).afterInputs m texts
    (r.recorded = [] ∧ (r.step (.close m')).world.disk = w.disk) ∨
    (r.recorded ≠ [] ∧
      (r.step (.close m')).world.disk.read e.store.path = .ok r.engine.store.history.encode) := by
  intro r
  have hinv : Inv e w.disk (r.step (.close m')) := inv_step (inv_after (inv_opened hb hu) _) _
  have hrecorded : (r.step (.close m')).recorded = r.recorded := List.append_nil _
  by_cases hnone : r.recorded = []
  · left
    obtain ⟨hengine, hworld⟩ := eq_opened texts hnone
    refine ⟨hnone, ?_⟩
    show (r.engine.call r.world (.close m')).2.disk = _
    rw [hengine, hworld]
    show (e.goOn w (e.close m' w.disk)).2.disk = _
    unfold Engine.close
    rw [hd]
    rfl
  · right
    have hsaved := (hinv.clean (clean_close hf)).resolve_left (by rw [hrecorded]; exact hnone)
    have hmemory : (r.step (.close m')).engine.store.memory = r.engine.store.memory :=
      Engine.memory_call r.engine r.world (.close m')
    refine ⟨hnone, ?_⟩
    rw [← Store.history_of_memory hmemory]
    exact (hinv.kept _ hsaved).2

/-! ## Other settings -/

/-- Settings with which the history is in the same place, whatever else they say, make no difference
to what is calculated and kept. An engine opens alike; after any inputs it has the same variables and
sessions; the next input comes to the same, but for the places that are shown, if no save has failed;
and an engine that is closed then leaves the same file. -/
theorem inputs_under_other_settings {settings settings' : Settings}
    (hpath : settings'.historyPath = settings.historyPath) (w : World) :
    (∀ f w₁, Engine.start settings w = (.error f, w₁) →
      Engine.start settings' w = (.error f, w₁)) ∧
    ∀ e w₁, Engine.start settings w = (.ok e, w₁) →
      let e' := { e with settings := settings' }
      Engine.start settings' w = (.ok e', w₁) ∧
      ∀ m m' texts,
        let r := (opened e w₁).afterInputs m texts
        let r' := (opened e' w₁).afterInputs m' texts
        r'.engine.vars = r.engine.vars ∧ r'.engine.store.sessions = r.engine.store.sessions ∧
        (∀ text, (r.step (.evaluate text m)).failed = false →
          (r'.step (.evaluate text m')).failed = false →
          Reply.Agrees (r.engine.evaluate text m r.world).1
            (r'.engine.evaluate text m' r'.world).1) ∧
        ((r.step (.close m)).failed = false → (r'.step (.close m')).failed = false →
          (r'.step (.close m')).world.disk.read settings.historyPath =
            (r.step (.close m)).world.disk.read settings.historyPath ∧
          (r.recorded ≠ [] → (r.step (.close m)).world.disk.read settings.historyPath =
            .ok r.engine.store.history.encode)) := by
  have hunder := Engine.start_under hpath w
  refine ⟨fun f w₁ hs => ?_, fun e w₁ hs => ?_⟩
  · rw [hunder, hs]
    rfl
  · intro e'
    obtain ⟨hb, hp, -, hd, hu, -⟩ := Engine.start_eq_ok hs
    refine ⟨by rw [hunder, hs]; rfl, fun m m' texts => ?_⟩
    intro r r'
    have hsame : InStep r r' := by
      have hopened : InStep (opened e w₁) (opened e' w₁) := ⟨rfl, rfl, rfl⟩
      exact inStep_afterInputs hopened m m' texts
    refine ⟨hsame.vars, hsame.sessions, fun text => agrees_of_inStep hsame, fun hf hf' => ?_⟩
    rw [← hp]
    rcases file_of_closed hb hu hd texts hf with ⟨hnone, hdisk⟩ | ⟨hne, hread⟩
    · refine ⟨?_, fun hne => absurd hnone hne⟩
      rcases file_of_closed (e := e') hb hu hd texts hf' with ⟨-, hdisk'⟩ | ⟨hne', -⟩
      · rw [hdisk, hdisk']
      · exact absurd (hsame.recorded.trans hnone) hne'
    · refine ⟨?_, fun _ => hread⟩
      rcases file_of_closed (e := e') hb hu hd texts hf' with ⟨hnone', -⟩ | ⟨-, hread'⟩
      · exact absurd (hsame.recorded.symm.trans hnone') hne
      · rw [hread, ← Store.history_of_memory hsame.memory]
        exact hread'

/-- One engine saves every value, the other one saves at the end only: the file is the same. -/
theorem one_third_under_other_settings :
    let settings : Settings := ⟨2, 1, ⟨.root, ["home"]⟩, ⟨.relative, ["history.bin"]⟩, by decide⟩
    let settings' : Settings := ⟨10, 0, ⟨.root, ["home"]⟩, ⟨.relative, ["history.bin"]⟩, by decide⟩
    let w : World := ⟨Disk.empty, .still⟩
    settings'.historyPath = settings.historyPath ∧
    ∃ e e' w₁, Engine.start settings w = (.ok e, w₁) ∧ Engine.start settings' w = (.ok e', w₁) ∧
      let r := (opened e w₁).afterInputs none ["1/3", "1/"]
      let r' := (opened e' w₁).afterInputs none ["1/3", "1/"]
      r.saved.isSome = true ∧ r'.saved = none ∧
        ∃ bytes, (r.step (.close none)).world.disk.read settings.historyPath = .ok bytes ∧
          (r'.step (.close none)).world.disk.read settings.historyPath = .ok bytes := by
  intro settings settings' w
  let session := (Store.new settings.historyPath).startSession .still
  have hstart : Engine.start settings w = (.ok ⟨session.2.1, settings, 0, none⟩,
      ⟨Disk.empty, session.2.2⟩) := rfl
  have hpath : settings'.historyPath = settings.historyPath := rfl
  obtain ⟨hstart', hall⟩ := (inputs_under_other_settings hpath w).2 _ _ hstart
  refine ⟨hpath, _, _, _, hstart, hstart', ?_⟩
  intro r r'
  obtain ⟨-, -, -, hclosed⟩ := hall none none ["1/3", "1/"]
  have hf : (r.step (.close none)).failed = false := by decide +kernel
  have hf' : (r'.step (.close none)).failed = false := by decide +kernel
  obtain ⟨hsame, hread⟩ := hclosed hf hf'
  have hne : r.recorded ≠ [] := by decide +kernel
  exact ⟨by decide +kernel, by decide +kernel, _, hread hne, hsame.trans (hread hne)⟩

end Run

end ExactCalc
