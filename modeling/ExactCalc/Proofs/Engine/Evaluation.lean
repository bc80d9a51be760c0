/-
  ExactCalc.Proofs.Engine.Evaluation — what one input comes to (`CalcEngine.evaluate`;
  see `ExactCalc.Engine`).

  A blank input and a rejected one leave engine and world alone. An accepted one is in
  the store before anything is saved, and from there on only the save can make a
  difference (`evaluate_of_accepted`). Read backwards, this says what stands behind each
  reply (`explained_evaluate`).
-/

import ExactCalc.Proofs.Engine.Run

namespace ExactCalc.Engine

variable {e : Engine} {text : String}

/-- The reply to an accepted input, by what came of the save after it. -/
def replyAfter (a : Answer) : Except SaveFailure Store → Reply
  | .error (.system f) => .broken f
  | _ => .answer a

/-- The answer to an input with that value. -/
def answerTo (e : Engine) (text : String) (value : Number) (supply : Supply) : Answer :=
  ⟨text, value, e.format value, (Entry.ofResult text value supply).1.id⟩

/-- The engine with an entry for that value, before it saves. -/
def withValue (e : Engine) (text : String) (value : Number) (vars : Variables) (supply : Supply) :
    Engine :=
  e.withEntry (Entry.ofResult text value supply).1 vars (Entry.ofResult text value supply).2

theorem dirty_withValue (e : Engine) (text : String) (value : Number) (vars : Variables)
    (supply : Supply) : (e.withValue text value vars supply).store.dirty = true :=
  Store.append_dirty _ _ _

theorem path_withValue (e : Engine) (text : String) (value : Number) (vars : Variables)
    (supply : Supply) : (e.withValue text value vars supply).store.path = e.store.path :=
  Store.append_path _ _ _

/-! ## Before the save -/

theorem accepted?_of_blank (e : Engine) (h : isBlank text = true) : e.accepted? text = none := by
  rw [accepted?, if_pos h]

theorem accepted?_of_value {value : Number} {vars : Variables} (h : isBlank text = false)
    (hr : (Expr.parse text >>= Expr.evaluate e.vars) = .ok (value, vars)) :
    e.accepted? text = some (value, vars) := by
  rw [accepted?, if_neg (by rw [h]; decide), hr]

/-- An input is blank, rejected or accepted; only an accepted one makes a difference. -/
theorem evaluate_cases (e : Engine) (text : String) (m : Option Mishap) (w : World) :
    (isBlank text = true ∧ e.evaluate text m w = (.blank, e, w)) ∨
    (isBlank text = false ∧ ∃ f, (Expr.parse text >>= Expr.evaluate e.vars) = .error f ∧
      e.evaluate text m w = (.rejected f, e, w)) ∨
    (isBlank text = false ∧ ∃ value vars,
      (Expr.parse text >>= Expr.evaluate e.vars) = .ok (value, vars) ∧
      e.accepted? text = some (value, vars)) := by
  cases hb : isBlank text with
  | true => exact Or.inl ⟨rfl, by rw [evaluate, if_pos hb]⟩
  | false =>
    right
    have hne : ¬ isBlank text = true := by rw [hb]; decide
    cases hr : Expr.parse text >>= Expr.evaluate e.vars with
    | error f =>
      refine Or.inl ⟨rfl, f, rfl, ?_⟩
      rw [evaluate, if_neg hne, hr]
    | ok r =>
      exact Or.inr ⟨rfl, r.1, r.2, rfl, accepted?_of_value hb hr⟩

/-! ## The save -/

/-- A checkpoint that is due is the save, less the failures that a user would be told of. -/
theorem checkpoint_of_due (h : e.isDue = true) (m : Option Mishap) (d : Disk) :
    (e.checkpoint m d).2 = (e.store.save m d).2 ∧
    ((∃ f, (e.store.save m d).1 = .error (.system f) ∧ (e.checkpoint m d).1 = .error f) ∨
      ((∀ f, (e.store.save m d).1 ≠ .error (.system f)) ∧
        (e.checkpoint m d).1 = .ok (e.afterSave (e.store.save m d).1))) := by
  unfold checkpoint
  rw [if_pos h, save_eq]
  rcases e.store.save m d with ⟨(error | f) | store, d'⟩
  · refine ⟨rfl, Or.inr ⟨fun f h => ?_, rfl⟩⟩
    cases h
  · exact ⟨rfl, Or.inl ⟨f, rfl, rfl⟩⟩
  · refine ⟨rfl, Or.inr ⟨fun f h => ?_, rfl⟩⟩
    cases h

theorem replyAfter_cases (a : Answer) (saved : Except SaveFailure Store) :
    replyAfter a saved = .answer a ∨ ∃ f, saved = .error (.system f) ∧ replyAfter a saved = .broken f := by
  unfold replyAfter
  split
  · rename_i f
    exact Or.inr ⟨f, rfl, rfl⟩
  · exact Or.inl rfl

theorem replyAfter_of_told {a : Answer} {saved : Except SaveFailure Store}
    (h : ∀ f, saved ≠ .error (.system f)) : replyAfter a saved = .answer a :=
  (replyAfter_cases a saved).resolve_right fun ⟨f, hf, _⟩ => h f hf

/-- A save changes neither the variables nor the sessions, nor which of them is the current one. -/
theorem afterSave_same (e : Engine) (m : Option Mishap) (d : Disk) :
    (e.afterSave (e.store.save m d).1).vars = e.vars ∧
    (e.afterSave (e.store.save m d).1).store.sessions = e.store.sessions ∧
    (e.afterSave (e.store.save m d).1).store.currentSession? = e.store.currentSession? := by
  cases hs : (e.store.save m d).1 with
  | error f => exact ⟨rfl, rfl, rfl⟩
  | ok store =>
    rw [Store.save_eq_ok hs]
    exact ⟨rfl, rfl, rfl⟩

theorem afterSave_of_error {saved : Except SaveFailure Store} {f : SaveFailure}
    (h : saved = .error f) : e.afterSave saved = e := by
  rw [h]
  rfl

theorem settings_afterSave (e : Engine) (saved : Except SaveFailure Store) :
    (e.afterSave saved).settings = e.settings := by
  cases saved with
  | error f => rfl
  | ok store => rfl

section

variable {value : Number} {vars : Variables} {m : Option Mishap} {w : World} {d : Disk}

theorem record_of_checkpoint {next : Engine}
    (h : (e.withValue text value vars w.supply).checkpoint m w.disk = (.ok next, d)) :
    let r := e.record text value vars m w
    r.1 = .answer (next.answerTo text value w.supply) ∧ r.2.1 = next ∧ r.2.2.disk = d := by
  unfold withValue at h
  rw [record_eq, h]
  exact ⟨rfl, rfl, rfl⟩

theorem record_of_broken {f : SystemFailure}
    (h : (e.withValue text value vars w.supply).checkpoint m w.disk = (.error f, d)) :
    let r := e.record text value vars m w
    r.1 = .broken f ∧ r.2.1 = e.withValue text value vars w.supply ∧ r.2.2.disk = d := by
  unfold withValue at h
  rw [record_eq, h]
  exact ⟨rfl, rfl, rfl⟩

theorem answerTo_afterSave (e : Engine) (text : String) (value : Number) (supply : Supply)
    (saved : Except SaveFailure Store) :
    (e.afterSave saved).answerTo text value supply = e.answerTo text value supply := by
  unfold answerTo format
  rw [settings_afterSave]

/-- An accepted input is in the store. If no save is due, that is all; if one is, the engine is as
after that save, and the input is answered unless the save ended in a failure of the system. -/
theorem evaluate_of_accepted (h : e.accepted? text = some (value, vars)) (m : Option Mishap)
    (w : World) :
    let next := e.withValue text value vars w.supply
    let answer := e.answerTo text value w.supply
    let r := e.evaluate text m w
    let saved := next.store.save m w.disk
    (next.isDue = false ∧ r.1 = .answer answer ∧ r.2.1 = next ∧ r.2.2.disk = w.disk) ∨
    (next.isDue = true ∧ r.1 = replyAfter answer saved.1 ∧ r.2.1 = next.afterSave saved.1 ∧
      r.2.2.disk = saved.2) := by
  intro next answer r saved
  have hr : r = e.record text value vars m w := evaluate_of_some h m w
  rw [hr]
  cases hdue : next.isDue with
  | false =>
    left
    have hcheck : next.checkpoint m w.disk = (.ok next, w.disk) := by
      rw [checkpoint, if_neg (by rw [hdue]; decide)]
    exact ⟨rfl, record_of_checkpoint hcheck⟩
  | true =>
    right
    refine ⟨rfl, ?_⟩
    obtain ⟨hdisk, ⟨f, hsaved, hcheck⟩ | ⟨htold, hcheck⟩⟩ := checkpoint_of_due hdue m w.disk
    · obtain ⟨hreply, hnext, hd⟩ := record_of_broken (Prod.ext hcheck hdisk)
      refine ⟨hreply.trans ?_, hnext.trans (afterSave_of_error hsaved).symm, hd⟩
      show Reply.broken f = replyAfter answer (next.store.save m w.disk).1
      rw [hsaved]
      rfl
    · obtain ⟨hreply, hnext, hd⟩ := record_of_checkpoint (Prod.ext hcheck hdisk)
      refine ⟨hreply.trans ?_, hnext, hd⟩
      rw [replyAfter_of_told htold, answerTo_afterSave]
      rfl

end

/-- An accepted input is answered, unless the save after it ends in a failure of the system. -/
theorem reply_of_accepted {value : Number} {vars : Variables}
    (h : e.accepted? text = some (value, vars)) (m : Option Mishap) (w : World) :
    (e.evaluate text m w).1 = .answer (e.answerTo text value w.supply) ∨
    ∃ f, ((e.withValue text value vars w.supply).store.save m w.disk).1 = .error (.system f) ∧
      (e.evaluate text m w).1 = .broken f := by
  rcases evaluate_of_accepted h m w with ⟨-, hr, -⟩ | ⟨-, hr, -⟩
  · exact Or.inl hr
  · rw [hr]
    exact replyAfter_cases _ _

/-! ## Behind the reply -/

/-- What stands behind a reply, and what is left of engine and world if nothing was accepted. -/
def Explained (e : Engine) (text : String) (m : Option Mishap) (w : World) :
    Reply → Engine × World → Prop
  | .blank, after => isBlank text = true ∧ after = (e, w)
  | .rejected f, after =>
    isBlank text = false ∧ (Expr.parse text >>= Expr.evaluate e.vars) = .error f ∧ after = (e, w)
  | .answer a, _ => ∃ value vars,
    (Expr.parse text >>= Expr.evaluate e.vars) = .ok (value, vars) ∧
    e.accepted? text = some (value, vars) ∧ a = e.answerTo text value w.supply
  | .broken f, _ => ∃ value vars, e.accepted? text = some (value, vars) ∧
    ((e.withValue text value vars w.supply).store.save m w.disk).1 = .error (.system f)

theorem explained_evaluate (e : Engine) (text : String) (m : Option Mishap) (w : World) :
    Explained e text m w (e.evaluate text m w).1 (e.evaluate text m w).2 := by
  rcases e.evaluate_cases text m w with ⟨hb, hr⟩ | ⟨hb, f, hf, hr⟩ | ⟨-, value, vars, hparse, ha⟩
  · rw [hr]
    exact ⟨hb, rfl⟩
  · rw [hr]
    exact ⟨hb, hf, rfl⟩
  · rcases reply_of_accepted ha m w with hr | ⟨f, hsaved, hr⟩
    · rw [hr]
      exact ⟨value, vars, hparse, ha, rfl⟩
    · rw [hr]
      exact ⟨value, vars, ha, hsaved⟩

/-- The explanation of the reply that was given. -/
theorem explained_of_reply {m : Option Mishap} {w : World} {reply : Reply}
    (h : (e.evaluate text m w).1 = reply) : Explained e text m w reply (e.evaluate text m w).2 :=
  h ▸ explained_evaluate e text m w

end ExactCalc.Engine
