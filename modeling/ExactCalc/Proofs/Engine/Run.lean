/-
  ExactCalc.Proofs.Engine.Run — runs of an opened engine: calls one after another, each
  of which may fail outside (`CalcEngine.evaluate`, `save`, `close`; see
  `ExactCalc.Engine`).

  A call first takes an entry, if it is an accepted input, and then saves, if it comes
  to that (`call_cases`). A run notes beside the engine and the world what the calls
  have recorded, what the latest save that succeeded wrote, and whether a save has
  failed.
-/

import ExactCalc.Engine
import ExactCalc.Proofs.History.Saving

namespace ExactCalc

/-- A call to an opened engine, with what goes wrong outside should it save. -/
inductive Call where
  | evaluate (text : String) (mishap : Option Mishap)
  | save (mishap : Option Mishap)
  | close (mishap : Option Mishap)

def Call.mishap : Call → Option Mishap
  | evaluate _ m => m
  | save m => m
  | close m => m

namespace Engine

/-! ## One call -/

/-- The value of an input and the variables after it, unless it is blank or rejected. -/
def accepted? (e : Engine) (text : String) : Option (Number × Variables) :=
  if isBlank text then none
  else
    match Expr.parse text >>= Expr.evaluate e.vars with
    | .error _ => none
    | .ok r => some r

/-- The engine with an entry for a value, before it saves. -/
def withEntry (e : Engine) (entry : Entry) (vars : Variables) (supply : Supply) : Engine :=
  { e with
    store := ({ e.store with vars := vars }.append entry supply).1
    unsaved := e.unsaved + 1 }

/-- The entries that a call records. -/
def taken (e : Engine) (w : World) : Call → List Entry
  | .evaluate text _ =>
    match e.accepted? text with
    | some (value, _) => [(Entry.ofResult text value w.supply).1]
    | none => []
  | _ => []

/-- The engine with these entries, before the call saves. -/
def taking (e : Engine) (w : World) : Call → Engine
  | .evaluate text _ =>
    match e.accepted? text with
    | some (value, vars) =>
      e.withEntry (Entry.ofResult text value w.supply).1 vars (Entry.ofResult text value w.supply).2
    | none => e
  | _ => e

/-- Whether a call comes to a save: the one that is asked for, the last one or one that is due. -/
def saves (e : Engine) (w : World) : Call → Bool
  | .evaluate text m => (e.accepted? text).isSome && (e.taking w (.evaluate text m)).isDue
  | .save _ => true
  | .close _ => e.store.dirty

/-- After a failed save the engine goes on as it was. -/
def goOn (e : Engine) (w : World) (result : Except SaveFailure Engine × Disk) : Engine × World :=
  (result.1.toOption.getD e, { w with disk := result.2 })

/-- The engine and the world after a call. -/
def call (e : Engine) (w : World) : Call → Engine × World
  | .evaluate text m => (e.evaluate text m w).2
  | .save m => e.goOn w (e.save m w.disk)
  | .close m => e.goOn w (e.close m w.disk)

variable {e : Engine} {w : World} {c : Call}

/-- The engine after a save of its store, or the same one if that failed. -/
def afterSave (e : Engine) : Except SaveFailure Store → Engine
  | .ok store => { e with store := store, unsaved := 0 }
  | .error _ => e

theorem save_eq (e : Engine) (m : Option Mishap) (d : Disk) :
    e.save m d = ((e.store.save m d).1.map fun store => { e with store := store, unsaved := 0 },
      (e.store.save m d).2) := by
  unfold save
  rcases e.store.save m d with ⟨_ | _, d'⟩
  · rfl
  · rfl

theorem goOn_save (e : Engine) (m : Option Mishap) (w : World) :
    (e.goOn w (e.save m w.disk)).1 = e.afterSave (e.store.save m w.disk).1 ∧
      (e.goOn w (e.save m w.disk)).2.disk = (e.store.save m w.disk).2 := by
  rw [save_eq]
  rcases e.store.save m w.disk with ⟨_ | _, d⟩
  · exact ⟨rfl, rfl⟩
  · exact ⟨rfl, rfl⟩

/-- Whatever a checkpoint meets, the engine is as after the save, or as it was if none is due. -/
theorem checkpoint_cases (e : Engine) (m : Option Mishap) (d : Disk) :
    (e.isDue = false ∧ e.checkpoint m d = (.ok e, d)) ∨
    (e.isDue = true ∧ (e.checkpoint m d).2 = (e.store.save m d).2 ∧
      (e.checkpoint m d).1.toOption.getD e = e.afterSave (e.store.save m d).1) := by
  unfold checkpoint
  cases h : e.isDue with
  | false => exact Or.inl ⟨rfl, rfl⟩
  | true =>
    refine Or.inr ⟨rfl, ?_⟩
    rw [if_pos rfl, save_eq]
    rcases e.store.save m d with ⟨(_ | _) | _, d'⟩
    · exact ⟨rfl, rfl⟩
    · exact ⟨rfl, rfl⟩
    · exact ⟨rfl, rfl⟩

theorem record_eq (e : Engine) (text : String) (value : Number) (vars : Variables)
    (m : Option Mishap) (w : World) :
    let entry := Entry.ofResult text value w.supply
    let next := e.withEntry entry.1 vars entry.2
    let supply := ({ e.store with vars := vars }.append entry.1 entry.2).2
    e.record text value vars m w =
      match next.checkpoint m w.disk with
      | (.ok e', d) => (.answer ⟨text, value, e'.format value, entry.1.id⟩, e', ⟨d, supply⟩)
      | (.error f, d) => (.broken f, next, ⟨d, supply⟩) := rfl

/-- A value is recorded, then comes the checkpoint. -/
theorem record_engine (e : Engine) (text : String) (value : Number) (vars : Variables)
    (m : Option Mishap) (w : World) :
    let entry := Entry.ofResult text value w.supply
    let next := e.withEntry entry.1 vars entry.2
    (e.record text value vars m w).2.1 = (next.checkpoint m w.disk).1.toOption.getD next ∧
      (e.record text value vars m w).2.2.disk = (next.checkpoint m w.disk).2 := by
  intro entry next
  rw [record_eq]
  rcases next.checkpoint m w.disk with ⟨_ | _, d⟩
  · exact ⟨rfl, rfl⟩
  · exact ⟨rfl, rfl⟩

theorem evaluate_of_none {text : String} (h : e.accepted? text = none) (m : Option Mishap) (w : World) :
    (e.evaluate text m w).2 = (e, w) := by
  unfold accepted? at h
  unfold evaluate
  by_cases hb : isBlank text = true
  · rw [if_pos hb]
  · rw [if_neg hb] at h ⊢
    split at h
    · rename_i f hf
      rw [hf]
    · cases h

theorem evaluate_of_some {text : String} {value : Number} {vars : Variables}
    (h : e.accepted? text = some (value, vars)) (m : Option Mishap) (w : World) :
    e.evaluate text m w = e.record text value vars m w := by
  unfold accepted? at h
  unfold evaluate
  by_cases hb : isBlank text = true
  · rw [if_pos hb] at h
    cases h
  · rw [if_neg hb] at h ⊢
    split at h
    · cases h
    · rename_i r hr
      cases h
      rw [hr]

/-- A call that comes to a save saves the engine with the entry in it; another call only takes the
entry. -/
theorem call_cases (e : Engine) (w : World) (c : Call) :
    (e.saves w c = false ∧ (e.call w c).1 = e.taking w c ∧ (e.call w c).2.disk = w.disk) ∨
    (e.saves w c = true ∧
      (e.call w c).1 = (e.taking w c).afterSave ((e.taking w c).store.save c.mishap w.disk).1 ∧
      (e.call w c).2.disk = ((e.taking w c).store.save c.mishap w.disk).2) := by
  cases c with
  | evaluate text m =>
    cases ha : e.accepted? text with
    | none =>
      have hcall : e.call w (.evaluate text m) = (e, w) := evaluate_of_none ha m w
      have htaking : e.taking w (.evaluate text m) = e := by simp only [taking, ha]
      have hsaves : e.saves w (.evaluate text m) = false := by simp [saves, ha]
      rw [hcall, htaking]
      exact Or.inl ⟨hsaves, rfl, rfl⟩
    | some r =>
      obtain ⟨value, vars⟩ := r
      have htaking : e.taking w (.evaluate text m) =
          e.withEntry (Entry.ofResult text value w.supply).1 vars
            (Entry.ofResult text value w.supply).2 := by simp only [taking, ha]
      have hsaves : e.saves w (.evaluate text m) = (e.taking w (.evaluate text m)).isDue := by
        simp [saves, ha]
      have hcall : e.call w (.evaluate text m) = (e.record text value vars m w).2 := by
        show (e.evaluate text m w).2 = _
        rw [evaluate_of_some ha]
      obtain ⟨hengine, hdisk⟩ := record_engine e text value vars m w
      rw [← htaking] at hengine hdisk
      rw [hsaves, hcall, hengine, hdisk]
      rcases checkpoint_cases (e.taking w (.evaluate text m)) m w.disk with
        ⟨hdue, heq⟩ | ⟨hdue, hd, he⟩
      · rw [heq]
        exact Or.inl ⟨hdue, rfl, rfl⟩
      · exact Or.inr ⟨hdue, he, hd⟩
  | save m =>
    obtain ⟨hengine, hdisk⟩ := goOn_save e m w
    exact Or.inr ⟨rfl, hengine, hdisk⟩
  | close m =>
    cases hd : e.store.dirty with
    | false =>
      have hcall : e.call w (.close m) = (e, w) := by
        show e.goOn w (e.close m w.disk) = _
        unfold close
        rw [hd]
        rfl
      rw [hcall]
      exact Or.inl ⟨hd, rfl, rfl⟩
    | true =>
      have hcall : e.call w (.close m) = e.goOn w (e.save m w.disk) := by
        show e.goOn w (e.close m w.disk) = _
        unfold close
        rw [if_pos hd]
      obtain ⟨hengine, hdisk⟩ := goOn_save e m w
      rw [hcall]
      exact Or.inr ⟨hd, hengine, hdisk⟩

/-- A call takes no entry, or one. -/
theorem taking_cases (e : Engine) (w : World) (c : Call) :
    (e.taken w c = [] ∧ e.taking w c = e) ∨
    ∃ entry vars supply, entry.Settled ∧ e.taken w c = [entry] ∧
      e.taking w c = e.withEntry entry vars supply := by
  cases c with
  | evaluate text m =>
    cases ha : e.accepted? text with
    | none => exact Or.inl ⟨by simp only [taken, ha], by simp only [taking, ha]⟩
    | some r =>
      have hsettled := Entry.settled_ofResult text r.1 w.supply
      refine Or.inr ⟨_, r.2, (Entry.ofResult text r.1 w.supply).2, hsettled, ?_, ?_⟩
      · simp only [taken, ha]
      · simp only [taking, ha]
  | save m => exact Or.inl ⟨rfl, rfl⟩
  | close m => exact Or.inl ⟨rfl, rfl⟩

/-- An entry that is taken without a save was not due for one. -/
theorem not_due {e : Engine} {w : World} {c : Call} (hs : e.saves w c = false)
    (ht : e.taken w c ≠ []) : (e.taking w c).isDue = false := by
  cases c with
  | evaluate text m =>
    cases ha : e.accepted? text with
    | none => exact absurd (by simp only [taken, ha]) ht
    | some r => simpa [saves, ha] using hs
  | save m => exact absurd rfl ht
  | close m => exact absurd rfl ht

/-- An engine that is opened has a store that can be, for the file of its settings. -/
theorem start_eq_ok {settings : Settings} {w w' : World} (h : start settings w = (.ok e, w')) :
    e.store.Built ∧ e.store.path = settings.historyPath ∧ e.settings = settings ∧
      e.store.dirty = false ∧ e.unsaved = 0 ∧ w'.disk = w.disk := by
  unfold start at h
  split at h
  · cases h
  · rename_i store loadError supply hl
    cases h
    have hload := congrArg Prod.fst hl
    have hbuilt := Store.Built.startSession supply (.loadOrEmpty (.new _) hload)
    obtain ⟨sessions, vars, size, rfl⟩ := Store.loadOrEmpty_eq_ok hload
    exact ⟨hbuilt, rfl, rfl, rfl, rfl, rfl⟩

end Engine

/-! ## Runs -/

structure Run where
  engine : Engine
  world : World
  /-- The entries that the calls have recorded, in their order. -/
  recorded : List Entry
  /-- What the latest save that succeeded wrote. -/
  saved : Option History
  /-- Whether a save has failed. -/
  failed : Bool

namespace Run

/-- An engine that was just opened. -/
def opened (e : Engine) (w : World) : Run := ⟨e, w, [], none, false⟩

/-- The run after one more call. -/
def step (r : Run) (c : Call) : Run :=
  let store := (r.engine.taking r.world c).store
  let attempt := (store.save c.mishap r.world.disk).1
  let next := r.engine.call r.world c
  { engine := next.1
    world := next.2
    recorded := r.recorded ++ r.engine.taken r.world c
    saved := if r.engine.saves r.world c && attempt.isOk then some store.history else r.saved
    failed := r.failed || (r.engine.saves r.world c && !attempt.isOk) }

def after (r : Run) (calls : List Call) : Run := calls.foldl step r

/-- The run with the entry of a call in it, before the call saves. -/
def taking (r : Run) (c : Call) : Run :=
  { r with
    engine := r.engine.taking r.world c
    recorded := r.recorded ++ r.engine.taken r.world c }

/-- The run after a save that has succeeded. -/
def keeping (r : Run) (w : World) (size : Option Nat) : Run :=
  { r with
    engine :=
      { r.engine with
        store := { r.engine.store with dirty := false, lastSize := size }
        unsaved := 0 }
    world := w
    saved := some r.engine.store.history }

/-- A step takes an entry or none, and then saves nothing, fails to save or saves all. -/
theorem step_cases (r : Run) (c : Call) :
    (∃ w, r.engine.saves r.world c = false ∧ w.disk = r.world.disk ∧
      r.step c = { r.taking c with world := w }) ∨
    (∃ w, Disk.Spares (r.taking c).engine.store.path.place r.world.disk w.disk ∧
      r.step c = { r.taking c with world := w, failed := true }) ∨
    ∃ w size, w.disk.read (r.taking c).engine.store.path =
        .ok (r.taking c).engine.store.history.encode ∧
      ((r.taking c).engine.store.Built → ((r.taking c).keeping w size).engine.store.Built) ∧
      r.step c = (r.taking c).keeping w size := by
  rcases r.engine.call_cases r.world c with ⟨hsaves, hengine, hdisk⟩ | ⟨hsaves, hengine, hdisk⟩
  · refine Or.inl ⟨(r.engine.call r.world c).2, hsaves, hdisk, ?_⟩
    simp only [step, taking, hsaves, hengine, Bool.false_and, Bool.or_false, Bool.false_eq_true,
      if_false]
  · rcases (r.taking c).engine.store.save_cases c.mishap r.world.disk with
      ⟨f, hf, hspares⟩ | ⟨hok, hread⟩
    · refine Or.inr (Or.inl ⟨(r.engine.call r.world c).2, ?_, ?_⟩)
      · rw [hdisk]
        exact hspares
      · have hfailed : ((r.engine.taking r.world c).store.save c.mishap r.world.disk).1 =
            .error f := hf
        simp only [step, taking, hsaves, hengine, hfailed, Engine.afterSave, Except.isOk,
          Except.toBool, Bool.true_and, Bool.not_false, Bool.or_true, Bool.false_eq_true, if_false]
    · refine Or.inr (Or.inr ⟨(r.engine.call r.world c).2, _, ?_, fun hb => .save hb hok, ?_⟩)
      · rw [hdisk]
        exact hread
      · have hsaved : ((r.engine.taking r.world c).store.save c.mishap r.world.disk).1 = .ok _ := hok
        simp only [step, keeping, taking, hsaves, hengine, hsaved, Engine.afterSave, Except.isOk,
          Except.toBool, Bool.true_and, Bool.not_true, Bool.or_false, if_true]

/-- Every disk that a call passes through: the one it finds, and those of the save it comes to. -/
inductive Moment (r : Run) (c : Call) : Disk → Prop
  | found : Moment r c r.world.disk
  | saving {bytes : Bytes} {d : Disk} : r.engine.saves r.world c = true →
    (r.engine.taking r.world c).store.encoded c.mishap = .ok bytes →
    Store.Moment (r.engine.taking r.world c).store.path bytes c.mishap r.world.disk d → Moment r c d

end Run

end ExactCalc
