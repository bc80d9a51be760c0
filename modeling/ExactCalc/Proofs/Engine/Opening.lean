/-
  ExactCalc.Proofs.Engine.Opening — how an engine opens on every history file
  (`CalcEngine.open`; see `ExactCalc.Engine`).

  A file that is missing, unreadable, damaged or of another version makes no difference
  to whether the engine opens; it is there with a session for its entries, and says what
  it has not loaded. What can stop it is named by `Disk.Untold`: a path that cannot be
  asked for, and a file of version 1 with a session whose start is in a year that the
  system cannot name.
-/

import ExactCalc.Proofs.Engine.Run
import ExactCalc.Proofs.History.Loading
import ExactCalc.Proofs.History.Sessions

namespace ExactCalc.Engine

open History (Derails)

variable {settings : Settings} {w : World}

theorem start_eq (settings : Settings) (w : World) :
    (start settings w).1 =
      ((Store.new settings.historyPath).loadOrEmpty w.disk w.supply).1.map fun r =>
        ⟨(r.1.startSession ((Store.new settings.historyPath).loadOrEmpty w.disk w.supply).2).2.1,
          settings, 0, r.2⟩ := by
  unfold start
  rcases (Store.new settings.historyPath).loadOrEmpty w.disk w.supply with ⟨_ | ⟨store, error⟩, supply⟩
  · rfl
  · rfl

theorem start_error :
    (∃ f, (start settings w).1 = .error f) ↔ w.disk.Untold settings.historyPath := by
  rw [start_eq]
  rcases (Store.new settings.historyPath).loadOrEmpty_cases w.disk w.supply with
    ⟨hu, f, hf⟩ | ⟨hu, ⟨s', -, hs⟩ | ⟨e, -, hs⟩⟩
  · rw [hf]
    exact iff_of_true ⟨f, rfl⟩ hu
  · rw [hs]
    refine iff_of_false ?_ hu
    rintro ⟨f, hf⟩
    cases hf
  · rw [hs]
    refine iff_of_false ?_ hu
    rintro ⟨f, hf⟩
    cases hf

theorem currentSession?_start {e : Engine} (h : (start settings w).1 = .ok e) :
    e.store.currentSession?.isSome = true := by
  unfold start at h
  split at h
  · cases h
  · rename_i store _ supply _
    cases h
    exact Store.currentSession?_startSession store supply

/-- Bytes are decoded, or refused as corrupt or of another version, unless their migration derails.
A load that is not to fail ends with the content of the file, or with an empty store in which nothing
is new and with the reason. And so an engine opens with a session for its entries. All this but for
the one failure of the system that a derailed migration is, and for paths that cannot be asked for. -/
theorem opening_outcomes (bytes : Bytes) (supply : Supply) (s : Store) (settings : Settings)
    (w : World) :
    ((∃ h, (History.decode bytes supply).1 = .ok h) ∨
      (∃ cause, (History.decode bytes supply).1 = .error (.error ⟨cause, none⟩) ∧
        (cause.kind = .corrupt ∨ cause.kind = .incompatibleVersion)) ∨
      ((History.decode bytes supply).1 = .error (.system .unnamedYear) ∧ Derails bytes)) ∧
    (Derails bytes → (History.decode bytes supply).1 = .error (.system .unnamedYear)) ∧
    (((∃ f, (s.loadOrEmpty w.disk supply).1 = .error f) ∧ w.disk.Untold s.path) ∨
      (¬ w.disk.Untold s.path ∧ ∃ s' reason, (s.loadOrEmpty w.disk supply).1 = .ok (s', reason) ∧
        (reason = none → s'.dirty = false ∧ ∃ h, Store.Tells w.disk s.path supply h ∧
          s'.sessions = h.sessions ∧ Variables.ofStored h.vars = .ok s'.vars) ∧
        ∀ e, reason = some e → (s.load w.disk supply).1 = .error (.error e) ∧ s'.sessions = [] ∧
          s'.vars.pairs = [] ∧ s'.current = none ∧ s'.dirty = false)) ∧
    ((∃ f, (start settings w).1 = .error f) ↔ w.disk.Untold settings.historyPath) ∧
    ∀ e, (start settings w).1 = .ok e → e.store.currentSession?.isSome = true ∧
      e.store.dirty = false ∧ e.unsaved = 0 := by
  refine ⟨?_, fun h => ?_, ?_, start_error, fun e he => ?_⟩
  · cases hd : (History.decode bytes supply).1 with
    | ok h => exact Or.inl ⟨h, rfl⟩
    | error f =>
      rcases History.decode_error hd with ⟨cause, rfl, hkind⟩ | ⟨rfl, hderails⟩
      · exact Or.inr (Or.inl ⟨cause, rfl, hkind⟩)
      · exact Or.inr (Or.inr ⟨rfl, hderails⟩)
  · rw [History.decode_of_derails h]
  · rcases s.loadOrEmpty_cases w.disk supply with ⟨hu, hf⟩ | ⟨hu, ⟨s', hload, hs⟩ | ⟨e, hload, hs⟩⟩
    · exact Or.inl ⟨hf, hu⟩
    · obtain ⟨h, size, htells, hload⟩ := Store.load_eq_ok hload
      obtain ⟨vars, hvars, rfl⟩ := Store.withHistory_eq_ok hload
      refine Or.inr ⟨hu, _, none, hs, fun _ => ⟨rfl, h, htells, rfl, hvars⟩, fun e he => ?_⟩
      cases he
    · refine Or.inr ⟨hu, s.emptied, some e, hs, fun he => ?_, fun e' he => ?_⟩
      · cases he
      · cases he
        exact ⟨hload, rfl, rfl, rfl, rfl⟩
  · have hstart : start settings w = (.ok e, (start settings w).2) := Prod.ext he rfl
    obtain ⟨-, -, -, hdirty, hunsaved, -⟩ := start_eq_ok hstart
    exact ⟨currentSession?_start he, hdirty, hunsaved⟩

/-- Two bytes are no history: the engine opens all the same, and says so. -/
theorem opens_on_damaged_file :
    let settings : Settings := ⟨6, 1, ⟨.root, []⟩, ⟨.relative, ["history.bin"]⟩, by decide⟩
    let d : Disk := ⟨Table.empty.insert ["history.bin"] (.file [0, 0])⟩
    ∃ e w, start settings ⟨d, .still⟩ = (.ok e, w) ∧ e.loadError.isSome = true ∧
      e.store.currentSession?.isSome = true ∧ e.store.dirty = false := by
  intro settings d
  let s := Store.new settings.historyPath
  let e : Engine := ⟨(s.emptied.startSession .still).2.1, settings, 0,
    some ⟨.tooShort 2, some s.path.text⟩⟩
  have hstart : (start settings ⟨d, .still⟩).1 = .ok e := rfl
  obtain ⟨-, -, -, -, hopened⟩ := opening_outcomes [0, 0] .still s settings ⟨d, .still⟩
  obtain ⟨hcurrent, hdirty, -⟩ := hopened e hstart
  exact ⟨e, _, Prod.ext hstart rfl, rfl, hcurrent, hdirty⟩

/-- A session that starts one second after the years that the system can name: the file is not
refused, and no engine opens on it. -/
theorem start_fails_on_late_session :
    let text := "\x7b\"sessions\":[\x7b\"session_start\":67768036191676800\x7d]\x7d"
    let bytes := History.header 1 ++ Zlib.compress (Bytes.ofText text)
    let settings : Settings := ⟨6, 1, ⟨.root, []⟩, ⟨.relative, ["history.bin"]⟩, by decide⟩
    let d : Disk := ⟨Table.empty.insert ["history.bin"] (.file bytes)⟩
    (History.decode bytes .still).1 = .error (.system .unnamedYear) ∧
      ∃ f, (start settings ⟨d, .still⟩).1 = .error f := by
  intro text bytes settings d
  have hread : Json.read text.toList = some (.obj [(.ofString "sessions",
      .arr [.obj [(.ofString "session_start", .int 67768036191676800)]])]) := by
    unfold text
    with_unfolding_all rfl
  have hstart : Migration.StartsUnnamed (.obj [(.ofString "session_start", .int 67768036191676800)]) :=
    ⟨_, .int 67768036191676800, 67768036191676800, rfl, rfl, rfl, by decide⟩
  have hderails : Derails bytes := by
    refine ⟨_, text, _, History.splitHeader_header (by decide) _, History.textOf_compress 1 text,
      hread, [], [], [], _, [], rfl, rfl, rfl, fun y hy => ?_, hstart⟩
    cases hy
  have hfile : d.read settings.historyPath = .ok bytes := rfl
  exact ⟨History.decode_system.mpr ⟨rfl, hderails⟩,
    start_error.mpr (Or.inr ⟨bytes, hfile, hderails⟩)⟩

end ExactCalc.Engine
