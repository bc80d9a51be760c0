/-
  ExactCalc.Proofs.Console.Eval — the command that evaluates its arguments (`cmd_eval`;
  see `ExactCalc.Console.Execution`).

  It opens the history, calculates texts up to the first one that is rejected, prints a
  line for each value, and closes the history. What it prints and what it leaves in the
  file are told without the engine, by what the texts come to (`run_eval`).
-/

import ExactCalc.Console.Execution
import ExactCalc.Proofs.Console.Lines
import ExactCalc.Proofs.Engine.Texts

namespace ExactCalc.Console

open Run (opened)
open Texts (Calculated Stopped)

/-- The exit code after texts: whether one of them was rejected. -/
def codeAfter : Option Rejection → Nat
  | none => 0
  | some _ => 2

/-- What is said of the text that was rejected. -/
def complaint : Option Rejection → String
  | none => ""
  | some reason => line (failureText (.rejected reason))

/-- What is printed for values. -/
def printed (settings : Settings) (fraction : Bool) (answered : List (String × Number)) :
    List String :=
  answered.map fun p => valueText settings.places fraction p.2

/-- The later history has one session more, in its place among those that were there, with an entry
for each text that has come to a value. -/
def Gains (found later : History) (a : Session) (answered : List (String × Number)) : Prop :=
  ∃ before after entries, found.sessions = before ++ after ∧
    later.sessions = before ++ { a with entries := entries } :: after ∧
    Session.Placed before a after ∧ List.Forall₂ Entry.Holds entries answered

variable {fraction : Bool} {m : Option Mishap} {r : Run}

/-! ## Evaluating -/

theorem evaluateAll_of_stopped {e : Engine} {rest : List String} {reason : Option Rejection}
    (h : Stopped e.vars rest reason) (w : World) :
    evaluateAll fraction m rest e w = ⟨"", complaint reason, .ok (codeAfter reason), e, w⟩ := by
  cases h with
  | done => rfl
  | @rejected text more reason hb hr =>
    have heval : e.evaluate text m w = (.rejected (.rejected reason), e, w) := by
      rw [Engine.evaluate, if_neg (by rw [hb]; decide), hr]
    unfold evaluateAll
    rw [heval]
    rfl

/-- A text that is blank or answered is followed by the others. -/
theorem evaluateAll_cons {text : String} {reply : Reply}
    (h : (r.engine.evaluate text m r.world).1 = reply) (hr : reply = .blank ∨ ∃ a, reply = .answer a)
    (rest : List String) :
    let next := r.step (.evaluate text m)
    let p := evaluateAll fraction m rest next.engine next.world
    evaluateAll fraction m (text :: rest) r.engine r.world =
      { p with out := replyText fraction reply ++ p.out } := by
  intro next p
  have heval : r.engine.evaluate text m r.world = (reply, next.engine, next.world) := Prod.ext h rfl
  rw [evaluateAll, heval]
  rcases hr with rfl | ⟨a, rfl⟩
  · rfl
  · rfl

/-- Texts that are calculated have their values printed, if no save fails. -/
theorem evaluateAll_of_calculated {vars vars' : Variables} {first : List String}
    {answered : List (String × Number)} (h : Calculated vars first answered vars')
    (hvars : r.engine.vars = vars) (hf : (r.afterInputs m first).failed = false)
    (rest : List String) :
    let after := r.afterInputs m first
    let p := evaluateAll fraction m rest after.engine after.world
    evaluateAll fraction m (first ++ rest) r.engine r.world =
      { p with
        out := String.join ((printed r.engine.settings fraction answered).map line) ++ p.out } := by
  induction h generalizing r with
  | nil => exact congrArg (fun out => Performance.mk out _ _ _ _) String.empty_append.symm
  | @blank vars vars' text texts answered hb _ ih =>
    have hreply : (r.engine.evaluate text m r.world).1 = .blank := by
      rw [Engine.evaluate, if_pos hb]
    obtain ⟨hengine, -, -⟩ := Run.step_of_none (Engine.accepted?_of_blank r.engine hb) m
    have hrest := ih (r := r.step (.evaluate text m)) (by rw [hengine, hvars]) hf
    rw [List.cons_append, evaluateAll_cons hreply (Or.inl rfl), hrest, Run.settings_step]
    exact congrArg (fun out => Performance.mk out _ _ _ _) String.empty_append
  | @value vars next vars' text texts value answered hb hparse _ ih =>
    have hsome := Engine.accepted?_of_value hb (hvars ▸ hparse)
    have hreply := Run.reply_of_kept hsome (Run.failed_of_after hf)
    have hrest := ih (r := r.step (.evaluate text m)) (Run.vars_of_accepted hsome m) hf
    rw [List.cons_append, evaluateAll_cons hreply (Or.inr ⟨_, rfl⟩), hrest, Run.settings_step]
    refine congrArg (fun out => Performance.mk out _ _ _ _) ?_
    show line _ ++ _ = String.join (line _ :: (printed _ _ answered).map line) ++ _
    rw [String.join_cons, String.append_assoc]
    rfl

/-- A command ends as it stands, if its history is closed without a failure. -/
theorem conclude_of_kept (hf : (r.step (.close m)).failed = false) (code : Nat) (out err : String) :
    conclude m ⟨out, err, .ok code, r.engine, r.world⟩ =
      (⟨code, out, err⟩, (r.step (.close m)).world) := by
  obtain ⟨e, hclose⟩ := Run.close_of_kept hf
  unfold conclude
  dsimp only
  rw [hclose]
  rfl

/-! ## What is left in the file -/

/-- What texts leave on the disk when all is saved. Without a value it is as it was found; otherwise
the file holds the history that was found with one session more, and the variables after the
texts. -/
structure Leaves (settings : Settings) (w : World) (answered : List (String × Number))
    (vars : Variables) (d : Disk) : Prop where
  untouched : answered = [] → d = w.disk
  saved : answered ≠ [] → ∃ bytes, d.read settings.historyPath = .ok bytes ∧ ∀ supply,
    ∃ later, History.decode bytes supply = (.ok later, supply) ∧
      Gains (w.disk.historyAt settings.historyPath w.supply) later
        (Engine.firstSession settings w) answered ∧
      ∀ key, later.vars.get? key = vars.stored.get? key

theorem gains_of_fills {found later : History} {a : Session} {entries : List Entry}
    {answered : List (String × Number)} (hw : found.WellFormed)
    (hr : r.Fills found.sessions { a with entries := entries })
    (hholds : List.Forall₂ Entry.Holds entries answered)
    (hlater : later.sessions = r.engine.store.sessions) : Gains found later a answered := by
  obtain ⟨before, after, hfound, hsorted, hplaced⟩ :=
    Session.sorted_concat hw.sorted { a with entries := entries }
  exact ⟨before, after, entries, hfound, hlater.trans (hr.sessions.trans hsorted), hplaced, hholds⟩

section

variable {settings : Settings} {w w₁ : World} {e : Engine} {first rest : List String}
  {answered : List (String × Number)} {vars : Variables} {reason : Option Rejection}

theorem leaves_of_calculated (hs : Engine.start settings w = (.ok e, w₁))
    (hnew : (Engine.firstSession settings w).id ∉
      (w.disk.historyAt settings.historyPath w.supply).sessions.map Session.id)
    (h : Calculated e.vars first answered vars)
    (hf : (((opened e w₁).afterInputs m first).step (.close m)).failed = false) :
    Leaves settings w answered vars
      (((opened e w₁).afterInputs m first).step (.close m)).world.disk := by
  obtain ⟨hb, hp, -, hd, hu, hdisk⟩ := Engine.start_eq_ok hs
  obtain ⟨entries, hrecorded, hholds, hfills⟩ :=
    Run.fills_of_calculated h rfl ((Run.fills_opened hs).2 hnew) m
  have hinv : Run.Inv e w₁.disk ((opened e w₁).afterInputs m first) :=
    Run.inv_after (Run.inv_opened hb hu) _
  have hnone : ((opened e w₁).afterInputs m first).recorded = [] ↔ answered = [] := by
    rw [hrecorded, ← List.length_eq_zero_iff, ← List.length_eq_zero_iff, ← hholds.length_eq]
    exact Iff.rfl
  rcases Run.file_of_closed hb hu hd first hf with ⟨hempty, hsame⟩ | ⟨hne, hread⟩
  · exact ⟨fun _ => hsame.trans hdisk, fun hne => absurd (hnone.mp hempty) hne⟩
  · rw [hp] at hread
    refine ⟨fun hempty => absurd (hnone.mpr hempty) hne, fun _ => ⟨_, hread, fun supply => ?_⟩⟩
    obtain ⟨later, hdecode, hsessions, hstored, -⟩ := Run.reads_memory hinv supply
    refine ⟨later, hdecode, ?_, fun key => ?_⟩
    · exact gains_of_fills (Disk.wellFormed_historyAt _ _ _) hfills hholds hsessions
    · have hvars : ((opened e w₁).afterInputs m first).engine.store.vars = vars :=
        Run.vars_of_calculated h rfl m
      rw [hstored key, hvars]

/-! ## The whole command -/

theorem runCommand_eval (hs : Engine.start settings w = (.ok e, w₁))
    (h : Calculated e.vars first answered vars) (hrest : Stopped vars rest reason)
    (hf : (((opened e w₁).afterInputs m first).step (.close m)).failed = false)
    (input : StandardInput) :
    runCommand (.eval (first ++ rest) fraction) settings input m w =
      (⟨codeAfter reason, String.join ((printed settings fraction answered).map line),
        warning e.loadError ++ complaint reason⟩,
        (((opened e w₁).afterInputs m first).step (.close m)).world) := by
  let after := (opened e w₁).afterInputs m first
  have hvars : after.engine.vars = vars := Run.vars_of_calculated h rfl m
  have hsettings : (opened e w₁).engine.settings = settings := (Engine.start_eq_ok hs).2.2.1
  let out := String.join ((printed settings fraction answered).map line)
  have hall : evaluateAll fraction m (first ++ rest) e w₁ =
      ⟨out, complaint reason, .ok (codeAfter reason), after.engine, after.world⟩ := by
    refine (evaluateAll_of_calculated (r := opened e w₁) h rfl (Run.failed_of_step hf) rest).trans ?_
    rw [evaluateAll_of_stopped (hvars ▸ hrest), hsettings]
    exact congrArg (fun out => Performance.mk out _ _ _ _) String.append_empty
  have hcommand : runCommand (.eval (first ++ rest) fraction) settings input m w =
      conclude m { evaluateAll fraction m (first ++ rest) e w₁ with
        err := warning e.loadError ++ (evaluateAll fraction m (first ++ rest) e w₁).err } := by
    unfold runCommand
    rw [hs]
    rfl
  rw [hcommand, hall]
  exact conclude_of_kept hf _ out _

/-- Where the history cannot be told of, the command does not get so far. -/
theorem runCommand_of_untold (h : w.disk.Untold settings.historyPath) (command : Command)
    (input : StandardInput) (m : Option Mishap) :
    ∃ f : SystemFailure, (runCommand command settings input m w).1 = ⟨1, "", errorLine f.message⟩ ∧
      (runCommand command settings input m w).2.disk = w.disk := by
  obtain ⟨f, hf⟩ := Engine.start_error.mpr h
  have hs : Engine.start settings w = (.error f, (Engine.start settings w).2) := Prod.ext hf rfl
  have hdisk : (Engine.start settings w).2.disk = w.disk := by
    unfold Engine.start
    rcases (Store.new settings.historyPath).loadOrEmpty w.disk w.supply with ⟨_ | _, supply⟩
    · rfl
    · rfl
  refine ⟨f, ?_⟩
  unfold runCommand
  rw [hs]
  exact ⟨rfl, hdisk⟩

/-- The command line `eval` with texts. Where the history cannot be told of, it ends at once. Else it
opens the history that is found, whose variables it starts from. It prints one line for each text
that is not blank, up to the first one that is rejected; it complains about that one, and what comes
after makes no difference. If there was no value, the disk is left alone; otherwise the file holds
what was found, one session more with an entry for each value, and the variables with the assignments
among the texts. All this if the identifier of the session is new and no save fails. -/
theorem run_eval {arguments : List String} {env : Environment} {texts : List String}
    (harguments : Command.ofArguments arguments = .ok (.eval texts fraction))
    (hsettings : settingsOf env = .ok settings) (input : StandardInput) (m : Option Mishap)
    (w : World) :
    let found := w.disk.historyAt settings.historyPath w.supply
    let result := run arguments env input m w
    (w.disk.Untold settings.historyPath →
      ∃ f : SystemFailure, result.1 = ⟨1, "", errorLine f.message⟩ ∧ result.2.disk = w.disk) ∧
    (¬ w.disk.Untold settings.historyPath →
      (Engine.firstSession settings w).id ∉ found.sessions.map Session.id →
      ∃ e w₁, Engine.start settings w = (.ok e, w₁) ∧
        (∀ name, e.vars.get? name = (found.vars.get? (.ofString name)).map StoredNumber.toNumber) ∧
        (∃ first rest answered vars reason, texts = first ++ rest ∧
          Calculated e.vars first answered vars ∧ Stopped vars rest reason) ∧
        ∀ first rest answered vars reason, texts = first ++ rest →
          Calculated e.vars first answered vars → Stopped vars rest reason →
          answered.map Prod.fst = first.filter (fun text => !Engine.isBlank text) ∧
          vars = answered.foldl (fun vars p => vars.assigned p.1 p.2) e.vars ∧
          ((((opened e w₁).afterInputs m first).step (.close m)).failed = false →
            let lines := printed settings fraction answered
            result.1 = ⟨codeAfter reason, String.join (lines.map line),
              warning e.loadError ++ complaint reason⟩ ∧
            linesOf result.1.out.toList = lines.map String.toList ∧
            (∀ text more more', rest = text :: more →
              runCommand (.eval (first ++ text :: more') fraction) settings input m w = result) ∧
            Leaves settings w answered vars result.2.disk)) := by
  intro found result
  have hrun : result = runCommand (.eval texts fraction) settings input m w := by
    simp only [result, run, harguments, hsettings]
  rw [hrun]
  refine ⟨fun htold => runCommand_of_untold htold _ input m, fun htold hnew => ?_⟩
  cases hstart : (Engine.start settings w).1 with
  | error f => exact absurd (Engine.start_error.mp ⟨f, hstart⟩) htold
  | ok e =>
    have hs : Engine.start settings w = (.ok e, (Engine.start settings w).2) := Prod.ext hstart rfl
    refine ⟨e, _, hs, Variables.get?_ofStored (Run.fills_opened hs).1,
      Texts.exists_calculated e.vars texts, ?_⟩
    rintro first rest answered vars reason rfl h hrest
    refine ⟨h.map_fst, h.vars_eq, fun hf => ?_⟩
    intro lines
    rw [runCommand_eval hs h hrest hf input]
    refine ⟨rfl, linesOf_lines fun text htext => ?_, ?_, leaves_of_calculated hs hnew h hf⟩
    · obtain ⟨p, -, rfl⟩ := List.mem_map.mp htext
      exact valueText_one_line _ _ _
    · rintro text more more' rfl
      refine runCommand_eval hs h ?_ hf input
      cases hrest with
      | rejected hb hr => exact .rejected hb hr

end

/-- Where no variable is set, the settings are those by default. -/
theorem settingsOf_of_unset {env : Environment} (h : ∀ key, env.value? key = none) :
    settingsOf env = .ok ⟨Settings.defaultPlaces, Settings.defaultInterval,
      Settings.defaultDataDir env.home, Settings.defaultHistoryFile, by decide⟩ := by
  have hstated : ∀ key, Settings.stated? env key = none := fun key => by
    rw [Settings.stated?, h]
    rfl
  have hlevel : Settings.logLevel env = .ok 30 := by
    rw [Settings.logLevel, h]
    decide +kernel
  have hread : Settings.read env = Settings.checked Settings.defaultPlaces Settings.defaultInterval
      (Settings.defaultDataDir env.home) Settings.defaultHistoryFile := by
    simp only [Settings.read, Settings.integer, Settings.path, hstated]
    rfl
  unfold settingsOf
  rw [hlevel, hread]
  rfl

/-- Of five texts the second one is blank and the fourth one is rejected. -/
theorem run_eval_of_thirds :
    let env : Environment := ⟨fun _ => none, ⟨.root, ["home"]⟩, []⟩
    let w : World := ⟨Disk.empty, .still⟩
    let result := run ["eval", "x = 1/3", " ", "x*3", "1/", "2"] env "" none w
    ∃ settings, settingsOf env = .ok settings ∧
      result.1.code = 2 ∧ linesOf result.1.out.toList = ["0.333333…".toList, "1".toList] ∧
      ∃ bytes later, result.2.disk.read settings.historyPath = .ok bytes ∧
        History.decode bytes .still = (.ok later, .still) ∧
        Gains .empty later (Engine.firstSession settings w)
          [("x = 1/3", .exact (1 / 3)), ("x*3", .exact 1)] ∧
        later.vars.get? (.ofString "x") = some (.ofNumber (.exact (1 / 3))) := by
  intro env w result
  have hresult : run ["eval", "x = 1/3", " ", "x*3", "1/", "2"] env "" none w = result := rfl
  clear_value result
  let settings : Settings := ⟨Settings.defaultPlaces, Settings.defaultInterval,
    Settings.defaultDataDir env.home, Settings.defaultHistoryFile, by decide⟩
  have harguments : Command.ofArguments ["eval", "x = 1/3", " ", "x*3", "1/", "2"] =
      .ok (.eval ["x = 1/3", " ", "x*3", "1/", "2"] false) := by with_unfolding_all rfl
  have hsettings : settingsOf env = .ok settings := settingsOf_of_unset fun _ => rfl
  have hread : w.disk.read settings.historyPath = .error .notFound := rfl
  have htold : ¬ w.disk.Untold settings.historyPath := by
    rintro (h | ⟨bytes, h, -⟩)
    · cases hread.symm.trans h
    · cases hread.symm.trans h
  have hfound : w.disk.historyAt settings.historyPath w.supply = .empty := rfl
  let session := (Store.new settings.historyPath).startSession .still
  have hstart : Engine.start settings w = (.ok ⟨session.2.1, settings, 0, none⟩,
      ⟨Disk.empty, session.2.2⟩) := rfl
  obtain ⟨-, hopens⟩ := run_eval harguments hsettings "" none w
  rw [hresult] at hopens
  obtain ⟨e, w₁, hs, -, -, hall⟩ := hopens htold (by rw [hfound]; exact List.not_mem_nil)
  cases hs.symm.trans hstart
  have hthird : (Expr.parse "x = 1/3" >>= Expr.evaluate Table.empty) =
      .ok (.exact (1 / 3), Table.empty.insert "x" (.exact (1 / 3))) := by decide +kernel
  have hone : (Expr.parse "x*3" >>= Expr.evaluate (Table.empty.insert "x" (.exact (1 / 3)))) =
      .ok (.exact 1, Table.empty.insert "x" (.exact (1 / 3))) := by decide +kernel
  have hrejected : (Expr.parse "1/" >>= Expr.evaluate (Table.empty.insert "x" (.exact (1 / 3)))) =
      .error (.rejected (.parse .operandMissing 2)) := by decide +kernel
  have hcalculated : Calculated Table.empty ["x = 1/3", " ", "x*3"] _ _ :=
    .value (by decide) hthird (.blank (by decide) (.value (by decide) hone .nil))
  have hstopped : Stopped _ ["1/", "2"] _ := .rejected (by decide) hrejected
  obtain ⟨-, -, hkept⟩ := hall _ _ _ _ _ rfl hcalculated hstopped
  obtain ⟨houtcome, hlines, -, hleaves⟩ := hkept (by decide +kernel)
  obtain ⟨bytes, hbytes, hdecode⟩ := hleaves.saved (List.cons_ne_nil _ _)
  obtain ⟨later, hlater, hgains, hvars⟩ := hdecode .still
  rw [hfound] at hgains
  refine ⟨settings, hsettings, ?_, ?_, bytes, later, hbytes, hlater, hgains, ?_⟩
  · rw [houtcome]
    rfl
  · rw [hlines]
    decide +kernel
  · rw [hvars]
    decide +kernel

/-- A session that starts one second after the years that the system can name: nothing is evaluated,
though the file is of no use and the text has a value. -/
theorem eval_fails_on_late_session :
    let text := "\x7b\"sessions\":[\x7b\"session_uuid\":\"s\"," ++
      "\"session_start\":67768036191676800\x7d]\x7d"
    let bytes := History.header 1 ++ Zlib.compress (Bytes.ofText text)
    let env : Environment := ⟨fun _ => none, ⟨.root, []⟩, []⟩
    let d : Disk := ⟨Table.ofList [([".local"], .folder), ([".local", "share"], .folder),
      ([".local", "share", "apecrunch"], .folder),
      ([".local", "share", "apecrunch", "history.bin"], .file bytes)]⟩
    ∃ settings, settingsOf env = .ok settings ∧ d.read settings.historyPath = .ok bytes ∧
      d.historyAt settings.historyPath .still = .empty ∧
      Calculated Table.empty ["1+1"] [("1+1", .exact 2)] Table.empty ∧
      ∃ f : SystemFailure,
        (run ["eval", "1+1"] env "" none ⟨d, .still⟩).1 = ⟨1, "", errorLine f.message⟩ := by
  intro text bytes env d
  let settings : Settings := ⟨Settings.defaultPlaces, Settings.defaultInterval,
    Settings.defaultDataDir env.home, Settings.defaultHistoryFile, by decide⟩
  have hsettings : settingsOf env = .ok settings := settingsOf_of_unset fun _ => rfl
  have harguments : Command.ofArguments ["eval", "1+1"] = .ok (.eval ["1+1"] false) := by
    with_unfolding_all rfl
  have hsum : (Expr.parse "1+1" >>= Expr.evaluate Table.empty) = .ok (.exact 2, Table.empty) := by
    decide +kernel
  have hfile : d.read settings.historyPath = .ok bytes := by
    with_unfolding_all rfl
  have hread : Json.read text.toList = some (.obj [(.ofString "sessions",
      .arr [.obj [(.ofString "session_uuid", .ofString "s"),
        (.ofString "session_start", .int 67768036191676800)]])]) := by
    unfold text
    rw [String.toList_append, String.toList_ofList, String.toList_ofList]
    with_unfolding_all rfl
  have hstart : Migration.StartsUnnamed (.obj [(.ofString "session_uuid", .ofString "s"),
      (.ofString "session_start", .int 67768036191676800)]) :=
    ⟨_, .int 67768036191676800, 67768036191676800, rfl, rfl, rfl, by decide⟩
  have hderails : History.Derails bytes := by
    refine ⟨_, text, _, History.splitHeader_header (by decide) _, History.textOf_compress 1 text,
      hread, [], [], [], _, [], rfl, rfl, rfl, fun y hy => ?_, hstart⟩
    cases hy
  have huntold : d.Untold settings.historyPath := Or.inr ⟨bytes, hfile, hderails⟩
  obtain ⟨f, hf, -⟩ := runCommand_of_untold (w := ⟨d, .still⟩) huntold (.eval ["1+1"] false) "" none
  refine ⟨settings, hsettings, hfile, Store.historyAt_of_untold huntold .still,
    .value (by decide) hsum .nil, f, ?_⟩
  simp only [run, harguments, hsettings]
  exact hf

end ExactCalc.Console
