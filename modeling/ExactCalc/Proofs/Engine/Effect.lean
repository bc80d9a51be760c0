/-
  ExactCalc.Proofs.Engine.Effect — what one input changes (`CalcEngine.evaluate`; see
  `ExactCalc.Engine`).

  A blank or rejected input changes nothing, neither in the engine nor in the world
  around it. An answered one adds one entry at the end of the current session, which an
  engine has from its start on (`Reachable.current`), and changes one variable if it is
  an assignment to a name.
-/

import ExactCalc.Proofs.Engine.Evaluation
import ExactCalc.Proofs.Engine.Opening
import ExactCalc.Proofs.Expr.Rejections
import ExactCalc.Proofs.Expr.Targets
import ExactCalc.Proofs.Number.Decimal
import ExactCalc.Proofs.Table

namespace ExactCalc

namespace Engine

open Grammar (StartsWithTarget)

variable {e : Engine} {text : String}

/-! ## Engines in use -/

/-- What an engine comes to in whatever world its calls take place. -/
inductive Reachable : Engine → Prop
  | start {settings : Settings} {w w' : World} {e : Engine} :
    start settings w = (.ok e, w') → Reachable e
  | call {e : Engine} (w : World) (c : Call) : Reachable e → Reachable (e.call w c).1

theorem currentSession?_taking (h : e.store.currentSession?.isSome = true) (w : World) (c : Call) :
    (e.taking w c).store.currentSession?.isSome = true := by
  rcases e.taking_cases w c with ⟨-, htaking⟩ | ⟨entry, vars, supply, -, -, htaking⟩
  · rw [htaking]
    exact h
  · rw [htaking]
    exact Store.currentSession?_append (s := { e.store with vars := vars }) h entry supply

/-- There is always a session that takes the entries. -/
theorem Reachable.current (h : e.Reachable) : e.store.currentSession?.isSome = true := by
  induction h with
  | start hs =>
    exact currentSession?_start (congrArg Prod.fst hs)
  | @call e w c _ ih =>
    rcases e.call_cases w c with ⟨-, hengine, -⟩ | ⟨-, hengine, -⟩
    · rw [hengine]
      exact currentSession?_taking ih w c
    · rw [hengine, (afterSave_same _ _ _).2.2]
      exact currentSession?_taking ih w c

/-! ## Entries -/

/-- What an entry for a value says. -/
structure Records (entry : Entry) (text : String) (a : Answer) : Prop where
  expression : entry.expression = .ofString text
  result : entry.result = some (.ofNumber a.value)
  noError : entry.error = none
  inexact : entry.inexact = a.value.inexact
  id : entry.id = a.entryId

theorem records_ofResult (e : Engine) (text : String) (value : Number) (supply : Supply) :
    Records (Entry.ofResult text value supply).1 text (e.answerTo text value supply) :=
  ⟨rfl, rfl, rfl, rfl, rfl⟩

/-- An accepted value goes to the end of the current session, whatever comes of the save. -/
theorem sessions_of_accepted {value : Number} {vars : Variables} {s : Session}
    (hs : e.store.currentSession? = some s) (ha : e.accepted? text = some (value, vars))
    (m : Option Mishap) (w : World) :
    (e.evaluate text m w).2.1.vars = vars ∧
    ∃ before after, e.store.sessions = before ++ s :: after ∧
      (e.evaluate text m w).2.1.store.sessions = before ++
        { s with entries := s.entries ++ [(Entry.ofResult text value w.supply).1] } :: after := by
  have hnext : (e.withValue text value vars w.supply).store =
      { e.store with
        vars := vars
        sessions := Store.addEntry s.id (Entry.ofResult text value w.supply).1 e.store.sessions
        dirty := true } := Store.append_current (s := { e.store with vars := vars }) hs _ _
  obtain ⟨id, -, hfind⟩ := Option.bind_eq_some_iff.mp hs
  have hid : s.id = id := by simpa using List.find?_some hfind
  rw [← hid] at hfind
  obtain ⟨before, after, hbefore, hadd⟩ :=
    Store.addEntry_of_find? (e := (Entry.ofResult text value w.supply).1) hfind
  have hsame : (e.evaluate text m w).2.1.vars = (e.withValue text value vars w.supply).store.vars ∧
      (e.evaluate text m w).2.1.store.sessions =
        (e.withValue text value vars w.supply).store.sessions := by
    rcases evaluate_of_accepted ha m w with ⟨-, -, he, -⟩ | ⟨-, -, he, -⟩
    · rw [he]
      exact ⟨rfl, rfl⟩
    · rw [he]
      obtain ⟨hvars, hsessions, -⟩ := afterSave_same (e.withValue text value vars w.supply) m w.disk
      exact ⟨hvars, hsessions⟩
  rw [hnext] at hsame
  exact ⟨hsame.1, before, after, hbefore, hsame.2.trans hadd⟩

/-! ## One input -/

theorem evaluate_of_blank {m : Option Mishap} {w : World} (h : (e.evaluate text m w).1 = .blank) :
    (e.evaluate text m w).2 = (e, w) := (explained_of_reply h).2

theorem evaluate_blank_iff (e : Engine) (text : String) (m : Option Mishap) (w : World) :
    (e.evaluate text m w).1 = .blank ↔ ∃ n, Token.scan text.toList = ⟨[], .finished n⟩ := by
  rw [Token.scan_finished_iff]
  show _ ↔ isBlank text = true
  refine ⟨fun h => (explained_of_reply h).1, fun hb => ?_⟩
  rw [evaluate, if_pos hb]

/-- What is rejected has tokens, so it is not rejected for having none. -/
theorem evaluate_rejected {f : Failure} {m : Option Mishap} {w : World}
    (h : (e.evaluate text m w).1 = .rejected f) :
    (e.evaluate text m w).2 = (e, w) ∧ f.NotEmpty := by
  obtain ⟨hb, hf, hsame⟩ := explained_of_reply h
  refine ⟨hsame, ?_⟩
  rcases bind_eq_error.mp hf with hf | ⟨tree, htree, hf⟩
  · rintro p rfl
    have hblank : isBlank text = true := (Token.scan_finished_iff _).mp (Expr.parse_empty hf)
    rw [hb] at hblank
    cases hblank
  · exact (Expr.failsWith_evaluate htree e.vars f hf).notEmpty

/-- One input changes what it should. The reply is blank just where the text has no tokens; then,
and where the text is rejected, engine and world are as before. An answered text adds one entry, at
the end of the current session, and no variable changes but the name in front of an assignment sign
at the start of the text, in its place or as the last one. -/
theorem evaluate_effect (h : e.Reachable) (text : String) (m : Option Mishap) (w : World) :
    let r := e.evaluate text m w
    (r.1 = .blank ↔ ∃ n, Token.scan text.toList = ⟨[], .finished n⟩) ∧
    (r.1 = .blank → r.2 = (e, w)) ∧
    (∀ f, r.1 = .rejected f → r.2 = (e, w) ∧ ∀ p, f ≠ .rejected (.parse .empty p)) ∧
    ∀ a, r.1 = .answer a →
      a.expression = text ∧ a.value.decimal? e.settings.places = .ok a.display ∧
      (∃ before s after entry, e.store.currentSession? = some s ∧
        e.store.sessions = before ++ s :: after ∧
        r.2.1.store.sessions = before ++ { s with entries := s.entries ++ [entry] } :: after ∧
        Records entry text a) ∧
      ∃ ts n, Token.scan text.toList = ⟨ts, .finished n⟩ ∧
        ((¬ StartsWithTarget ts ∧ r.2.1.vars = e.vars) ∨
          ∃ target mark rest, ts = target :: mark :: rest ∧ target.kind = .identifier ∧
            mark.kind = .assign ∧
            ((∃ before old after, e.vars.pairs = before ++ (target.text, old) :: after ∧
                r.2.1.vars.pairs = before ++ (target.text, a.value) :: after) ∨
              (target.text ∉ e.vars.keys ∧
                r.2.1.vars.pairs = e.vars.pairs ++ [(target.text, a.value)]))) := by
  intro r
  refine ⟨evaluate_blank_iff e text m w, evaluate_of_blank, fun f => evaluate_rejected,
    fun a ha => ?_⟩
  obtain ⟨value, vars, hparse, haccepted, rfl⟩ := explained_of_reply ha
  obtain ⟨s, hs⟩ := Option.isSome_iff_exists.mp h.current
  obtain ⟨hvars, before, after, hbefore, hafter⟩ := sessions_of_accepted hs haccepted m w
  obtain ⟨ts, n, hscan, -, htable⟩ := Expr.table_of_accepted hparse
  refine ⟨rfl, Number.decimal?_eq_ok value e.settings.places_le, ?_, ts, n, hscan, ?_⟩
  · exact ⟨before, s, after, _, hs, hbefore, hafter, records_ofResult e text value w.supply⟩
  · show (_ ∧ r.2.1.vars = e.vars) ∨ _
    rw [hvars]
    refine htable.imp id ?_
    rintro ⟨target, mark, rest, hts, htarget, hmark, rfl⟩
    exact ⟨target, mark, rest, hts, htarget, hmark, e.vars.pairs_insert target.text value⟩

/-- A name that is new comes into an empty table. -/
theorem evaluate_effect_of_rate :
    let settings : Settings := ⟨6, 0, ⟨.root, ["home"]⟩, ⟨.relative, ["history.bin"]⟩, by decide⟩
    ∃ e w a, start settings ⟨Disk.empty, .still⟩ = (.ok e, w) ∧
      (e.evaluate "rate = 2/3" none w).1 = .answer a ∧ a.expression = "rate = 2/3" ∧
      (e.evaluate "rate = 2/3" none w).2.1.vars.pairs = [("rate", a.value)] := by
  intro settings
  let opened := (Store.new settings.historyPath).startSession .still
  let e : Engine := ⟨opened.2.1, settings, 0, none⟩
  let w : World := ⟨Disk.empty, opened.2.2⟩
  have hstart : start settings ⟨Disk.empty, .still⟩ = (.ok e, w) := rfl
  have haccepted : (e.accepted? "rate = 2/3").isSome = true := by decide +kernel
  obtain ⟨⟨value, vars⟩, ha⟩ := Option.isSome_iff_exists.mp haccepted
  have hanswer : (e.evaluate "rate = 2/3" none w).1 =
      .answer (e.answerTo "rate = 2/3" value w.supply) := by
    rcases evaluate_of_accepted ha none w with ⟨-, hr, -⟩ | ⟨hdue, -⟩
    · exact hr
    · cases hdue
  obtain ⟨-, -, -, hchange⟩ := evaluate_effect (.start hstart) "rate = 2/3" none w
  obtain ⟨htext, -, -, ts, n, hscan, hvars⟩ := hchange _ hanswer
  refine ⟨e, w, _, hstart, hanswer, htext, ?_⟩
  have htokens : Token.scan "rate = 2/3".toList = ⟨[⟨.identifier, "rate", 0, 4⟩, ⟨.assign, "=", 5, 6⟩,
      ⟨.number, "2", 7, 8⟩, ⟨.operator, "/", 8, 9⟩, ⟨.number, "3", 9, 10⟩], .finished 10⟩ := by
    decide +kernel
  obtain ⟨rfl, -⟩ := Token.Scan.mk.inj (hscan.symm.trans htokens)
  rcases hvars with ⟨hn, -⟩ | ⟨target, mark, rest, hts, -, -, hvars⟩
  · exact absurd ⟨rfl, rfl⟩ hn
  · cases hts
    rcases hvars with ⟨before, old, after, hpairs, -⟩ | ⟨-, hpairs⟩
    · exact absurd hpairs (List.append_ne_nil_of_right_ne_nil before (List.cons_ne_nil _ _)).symm
    · exact hpairs

end Engine

end ExactCalc
