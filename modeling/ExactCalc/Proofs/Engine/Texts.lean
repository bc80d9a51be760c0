/-
  ExactCalc.Proofs.Engine.Texts — texts one after another (see `ExactCalc.Engine`).

  Apart from any engine, texts are calculated in order, each with the variables that
  those before it have left, up to the first one that is rejected (`Calculated`,
  `Stopped`). An engine that has started its session comes to the same values and
  variables, and every value goes into that session (`fills_of_calculated`): whatever
  the engine shows, when it saves, and what comes of the saves.
-/

import ExactCalc.Proofs.Engine.Effect
import ExactCalc.Proofs.Engine.Presentation
import ExactCalc.Proofs.History.Course
import ExactCalc.Proofs.History.Found

namespace ExactCalc

/-! ## Texts without an engine -/

/-- The variables after a text that has come to a value: a name and an assignment sign at its start
give the value to the name. -/
def Variables.assigned (vars : Variables) (text : String) (value : Number) : Variables :=
  match (Token.scan text.toList).tokens with
  | target :: mark :: _ =>
    if target.kind = .identifier ∧ mark.kind = .assign then vars.insert target.text value else vars
  | _ => vars

namespace Texts

open Engine (isBlank)

/-- The texts are blank or come to values: those that do with their values, and the variables that
they leave. -/
inductive Calculated : Variables → List String → List (String × Number) → Variables → Prop
  | nil {vars : Variables} : Calculated vars [] [] vars
  | blank {vars vars' : Variables} {text : String} {texts : List String}
    {answered : List (String × Number)} : isBlank text = true →
    Calculated vars texts answered vars' → Calculated vars (text :: texts) answered vars'
  | value {vars next vars' : Variables} {text : String} {texts : List String} {value : Number}
    {answered : List (String × Number)} : isBlank text = false →
    (Expr.parse text >>= Expr.evaluate vars) = .ok (value, next) →
    Calculated next texts answered vars' →
    Calculated vars (text :: texts) ((text, value) :: answered) vars'

/-- There are no more texts, or the next one is rejected. -/
inductive Stopped (vars : Variables) : List String → Option Rejection → Prop
  | done : Stopped vars [] none
  | rejected {text : String} {more : List String} {reason : Rejection} : isBlank text = false →
    (Expr.parse text >>= Expr.evaluate vars) = .error (.rejected reason) →
    Stopped vars (text :: more) (some reason)

variable {vars vars' : Variables} {texts : List String} {answered : List (String × Number)}

/-- Texts are calculated up to their end, or up to one that is rejected. -/
theorem exists_calculated (vars : Variables) (texts : List String) :
    ∃ first rest answered vars' reason, texts = first ++ rest ∧
      Calculated vars first answered vars' ∧ Stopped vars' rest reason := by
  induction texts generalizing vars with
  | nil => exact ⟨[], [], [], vars, none, rfl, .nil, .done⟩
  | cons text texts ih =>
    cases hb : isBlank text with
    | true =>
      obtain ⟨first, rest, answered, vars', reason, rfl, hfirst, hrest⟩ := ih vars
      exact ⟨text :: first, rest, answered, vars', reason, rfl, .blank hb hfirst, hrest⟩
    | false =>
      cases hr : Expr.parse text >>= Expr.evaluate vars with
      | error f =>
        obtain ⟨reason, rfl⟩ := Expr.rejected_of_calculated hr
        exact ⟨[], text :: texts, [], vars, some reason, rfl, .nil, .rejected hb hr⟩
      | ok r =>
        obtain ⟨value, next⟩ := r
        obtain ⟨first, rest, answered, vars', reason, rfl, hfirst, hrest⟩ := ih next
        exact ⟨text :: first, rest, (text, value) :: answered, vars', reason, rfl,
          .value hb hr hfirst, hrest⟩

/-- There is a value for each text that is not blank. -/
theorem Calculated.map_fst (h : Calculated vars texts answered vars') :
    answered.map Prod.fst = texts.filter fun text => !isBlank text := by
  induction h with
  | nil => rfl
  | blank hb _ ih =>
    rw [List.filter_cons_of_neg (by rw [hb]; decide)]
    exact ih
  | value hb _ _ ih =>
    rw [List.filter_cons_of_pos (by rw [hb]; decide), List.map_cons, ih]

theorem vars_of_value {text : String} {value : Number} {next : Variables}
    (h : (Expr.parse text >>= Expr.evaluate vars) = .ok (value, next)) :
    next = vars.assigned text value := by
  obtain ⟨ts, n, hscan, -, ⟨hnone, rfl⟩ | ⟨target, mark, rest, rfl, ht, hm, rfl⟩⟩ :=
    Expr.table_of_accepted h
  · unfold Variables.assigned
    rw [hscan]
    dsimp only
    split
    · exact (if_neg hnone).symm
    · rfl
  · unfold Variables.assigned
    rw [hscan]
    exact (if_pos ⟨ht, hm⟩).symm

/-- The variables are those that there were, with the assignments among the texts. -/
theorem Calculated.vars_eq (h : Calculated vars texts answered vars') :
    vars' = answered.foldl (fun vars p => vars.assigned p.1 p.2) vars := by
  induction h with
  | nil => rfl
  | blank _ _ ih => exact ih
  | value _ hr _ ih =>
    rw [List.foldl_cons, ← vars_of_value hr]
    exact ih

end Texts

/-! ## Failures and settings in the course of a run -/

namespace Run

variable {r : Run}

/-- A save that has failed is not forgotten. -/
theorem failed_of_step {c : Call} (h : (r.step c).failed = false) : r.failed = false :=
  (Bool.or_eq_false_iff.mp h).1

theorem failed_of_after {calls : List Call} (h : (r.after calls).failed = false) :
    r.failed = false := by
  induction calls generalizing r with
  | nil => exact h
  | cons c calls ih => exact failed_of_step (ih h)

theorem settings_step (r : Run) (c : Call) : (r.step c).engine.settings = r.engine.settings := by
  have htaking : (r.engine.taking r.world c).settings = r.engine.settings := by
    rcases r.engine.taking_cases r.world c with ⟨-, htaking⟩ | ⟨entry, vars, supply, -, -, htaking⟩
    · rw [htaking]
    · rw [htaking]
      rfl
  show (r.engine.call r.world c).1.settings = _
  rcases r.engine.call_cases r.world c with ⟨-, hengine, -⟩ | ⟨-, hengine, -⟩
  · rw [hengine, htaking]
  · rw [hengine, Engine.settings_afterSave, htaking]

end Run

/-! ## An engine with its session -/

/-- An entry that says what a text has come to. -/
structure Entry.Holds (entry : Entry) (p : String × Number) : Prop where
  expression : entry.expression = .ofString p.1
  result : entry.result = some (.ofNumber p.2)
  noError : entry.error = none
  inexact : entry.inexact = p.2.inexact

theorem Entry.holds_ofResult (text : String) (value : Number) (supply : Supply) :
    (Entry.ofResult text value supply).1.Holds (text, value) := ⟨rfl, rfl, rfl, rfl⟩

/-- The session that an engine starts when it opens. -/
def Engine.firstSession (settings : Settings) (w : World) : Session :=
  (Session.new ((Store.new settings.historyPath).loadOrEmpty w.disk w.supply).2).1

namespace Run

variable {r : Run} {found : List Session} {a : Session} {m : Option Mishap}

/-- All entries go to the session `a`, which is the only one beside those that were found. -/
def Fills (r : Run) (found : List Session) (a : Session) : Prop :=
  Store.Course.Kept ⟨r.engine.store, r.world, found, [a]⟩

/-- An engine has the history that is found, and its session, if no other one has its identifier. -/
theorem fills_opened {settings : Settings} {w w₁ : World} {e : Engine}
    (hs : Engine.start settings w = (.ok e, w₁)) :
    let found := w.disk.historyAt settings.historyPath w.supply
    let a := Engine.firstSession settings w
    Variables.ofStored found.vars = .ok e.vars ∧
      (a.id ∉ found.sessions.map Session.id → (opened e w₁).Fills found.sessions a) := by
  intro found a
  unfold Engine.start at hs
  split at hs
  · cases hs
  · rename_i s reason supply hload
    obtain ⟨hsessions, hvars⟩ : s.sessions = found.sessions ∧
        Variables.ofStored found.vars = .ok s.vars :=
      Store.historyAt_of_loadOrEmpty (congrArg Prod.fst hload)
    cases hs
    refine ⟨hvars, fun hnew => ?_⟩
    have hcurrent := Store.current_of_loadOrEmpty (congrArg Prod.fst hload)
    have hsorted := (Store.wellFormed_loadOrEmpty (congrArg Prod.fst hload)).sorted
    have ha : a = (Session.new supply).1 := by
      show (Session.new ((Store.new settings.historyPath).loadOrEmpty w.disk w.supply).2).1 = _
      rw [hload]
    rw [ha, ← hsessions] at hnew ⊢
    exact Store.Course.kept_enroll (Store.Course.kept_found hsorted hcurrent w) hnew
      (s := s.enroll (Session.new supply).1) rfl rfl _

section

variable {text : String} {value : Number} {vars : Variables}

theorem memory_of_accepted (ha : r.engine.accepted? text = some (value, vars)) (m : Option Mishap) :
    (r.step (.evaluate text m)).engine.store.memory =
      (r.engine.withValue text value vars r.world.supply).store.memory := by
  show (r.engine.call r.world _).1.store.memory = _
  rw [Engine.memory_call]
  simp only [Engine.taking, ha]
  rfl

theorem vars_of_accepted (ha : r.engine.accepted? text = some (value, vars)) (m : Option Mishap) :
    (r.step (.evaluate text m)).engine.vars = vars :=
  (Store.vars_of_memory (memory_of_accepted ha m)).trans
    (Engine.vars_withValue r.engine text value vars r.world.supply)

/-- A value goes to the end of the session, whatever comes of the save. -/
theorem fills_of_accepted (ha : r.engine.accepted? text = some (value, vars)) (hr : r.Fills found a) :
    let entry := (Entry.ofResult text value r.world.supply).1
    let next := r.step (.evaluate text m)
    next.recorded = r.recorded ++ [entry] ∧
      next.Fills found { a with entries := a.entries ++ [entry] } := by
  intro entry next
  let before : Store.Course := ⟨{ r.engine.store with vars := vars },
    { r.world with supply := (Entry.ofResult text value r.world.supply).2 }, found, [a]⟩
  let kept := (before.store.append entry before.world.supply).1
  have hbefore : before.Kept := Store.Course.Kept.of_same (s := before.store) hr rfl rfl _
  have hkept : Store.Course.Kept ⟨kept, r.world, found, [{ a with entries := a.entries ++ [entry] }]⟩ :=
    Store.Course.kept_append hbefore entry r.world fun h => by cases h
  have hmemory : next.engine.store.memory = kept.memory := memory_of_accepted ha m
  constructor
  · show r.recorded ++ r.engine.taken r.world _ = _
    simp only [Engine.taken, ha]
    rfl
  · exact hkept.of_same (Store.sessions_of_memory hmemory) (Store.current_of_memory hmemory) _

end

variable {vars vars' : Variables} {texts : List String} {answered : List (String × Number)}

/-- Texts that are calculated leave their variables. -/
theorem vars_of_calculated (h : Texts.Calculated vars texts answered vars')
    (hvars : r.engine.vars = vars) (m : Option Mishap) :
    (r.afterInputs m texts).engine.vars = vars' := by
  induction h generalizing r with
  | nil => exact hvars
  | blank hb _ ih =>
    obtain ⟨hengine, -⟩ := step_of_none (Engine.accepted?_of_blank r.engine hb) m
    exact ih (by rw [hengine, hvars])
  | value hb hparse _ ih =>
    exact ih (vars_of_accepted (Engine.accepted?_of_value hb (hvars ▸ hparse)) m)

/-- And an entry for each value. -/
theorem fills_of_calculated (h : Texts.Calculated vars texts answered vars')
    (hvars : r.engine.vars = vars) (hr : r.Fills found a) (m : Option Mishap) :
    let after := r.afterInputs m texts
    ∃ entries, after.recorded = r.recorded ++ entries ∧ List.Forall₂ Entry.Holds entries answered ∧
      after.Fills found { a with entries := a.entries ++ entries } := by
  induction h generalizing r a with
  | nil => exact ⟨[], (List.append_nil _).symm, .nil, (List.append_nil a.entries).symm ▸ hr⟩
  | @blank vars vars' text texts answered hb _ ih =>
    obtain ⟨hengine, -, hrecorded⟩ := step_of_none (Engine.accepted?_of_blank r.engine hb) m
    have hstep : (r.step (.evaluate text m)).Fills found a :=
      Store.Course.Kept.of_same hr (by rw [hengine]) (by rw [hengine]) _
    obtain ⟨entries, hentries, hholds, hfills⟩ := ih (by rw [hengine, hvars]) hstep
    rw [hrecorded] at hentries
    exact ⟨entries, hentries, hholds, hfills⟩
  | @value vars next vars' text texts value answered hb hparse _ ih =>
    have hsome := Engine.accepted?_of_value hb (hvars ▸ hparse)
    obtain ⟨hrecorded, hstep⟩ := fills_of_accepted (m := m) hsome hr
    obtain ⟨entries, hentries, hholds, hfills⟩ := ih (vars_of_accepted hsome m) hstep
    refine ⟨(Entry.ofResult text value r.world.supply).1 :: entries, ?_,
      .cons (Entry.holds_ofResult text value _) hholds, ?_⟩
    · rw [List.append_cons, ← hrecorded]
      exact hentries
    · rw [List.append_cons]
      exact hfills

end Run

end ExactCalc
