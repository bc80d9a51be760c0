/-
  ExactCalc.Proofs.History.Built — what a store comes to, whatever is done with it: its
  history is always well-formed (see `ExactCalc.History.Store`).

  Loading gives a well-formed history, since that is read from a file; a session goes to
  the place of its start, and an entry changes no start. The names of variables are
  texts without halves.
-/

import ExactCalc.History.Store
import ExactCalc.Proofs.History.Settled

namespace ExactCalc

open Text

/-- Identifiers that count up, and a clock that stands still. -/
def Supply.still : Supply := ⟨Nat.repr, fun _ => .epoch, 0, 0⟩

/-- An entry for a value has no text but those it is given. -/
theorem Entry.settled_ofResult (expression : String) (value : Number) (supply : Supply) :
    (Entry.ofResult expression value supply).1.Settled :=
  ⟨Symbols.settled_ofString _, Symbols.settled_ofString _, fun _ h => absurd h (Option.some_ne_none _).symm⟩

theorem Session.settled_new (supply : Supply) : (Session.new supply).1.Settled :=
  ⟨Symbols.settled_ofString _, fun _ h => absurd h List.not_mem_nil⟩

theorem Variables.settled_stored (vars : Variables) : ∀ p ∈ vars.stored.pairs, p.1.Settled := by
  intro p hp
  obtain ⟨q, -, rfl⟩ := List.mem_map.mp (Table.mem_of_mem_ofList hp)
  exact Symbols.settled_ofString q.1

namespace Store

/-! ## Entries in a list of sessions -/

theorem starts_addEntry (id : Symbols) (e : Entry) (l : List Session) :
    (addEntry id e l).map Session.startedAt = l.map Session.startedAt := by
  induction l with
  | nil => rfl
  | cons a l ih =>
    unfold addEntry
    split
    · rfl
    · rw [List.map_cons, List.map_cons, ih]

/-- The order of sessions is that of their starts. -/
theorem pairwise_addEntry {id : Symbols} {e : Entry} {l : List Session}
    (h : l.Pairwise fun a b => a.startsBy b = true) :
    (addEntry id e l).Pairwise fun a b => a.startsBy b = true := by
  have key : ∀ l : List Session, (l.Pairwise fun a b => a.startsBy b = true) ↔
      (l.map Session.startedAt).Pairwise fun s t => s.instant ≤ t.instant := by
    intro l
    rw [List.pairwise_map]
    simp only [Session.startsBy, decide_eq_true_eq]
  rw [key, starts_addEntry, ← key]
  exact h

theorem settled_addEntry {id : Symbols} {e : Entry} (he : e.Settled) {l : List Session}
    (h : ∀ s ∈ l, s.Settled) : ∀ s ∈ addEntry id e l, s.Settled := by
  induction l with
  | nil => exact h
  | cons a l ih =>
    have ha := h a List.mem_cons_self
    have hl : ∀ s ∈ l, s.Settled := fun s hs => h s (List.mem_cons_of_mem _ hs)
    intro s hs
    unfold addEntry at hs
    split at hs
    · rcases List.mem_cons.mp hs with rfl | hs
      · refine ⟨ha.id, fun x hx => ?_⟩
        rcases List.mem_append.mp hx with hx | hx
        · exact ha.entries x hx
        · exact List.mem_singleton.mp hx ▸ he
      · exact hl s hs
    · rcases List.mem_cons.mp hs with rfl | hs
      · exact ha
      · exact ih hl s hs

/-! ## Operations -/

/-- A store's history is well-formed when its sessions are. -/
theorem wellFormed_history {s : Store} (hsorted : s.sessions.Pairwise fun a b => a.startsBy b = true)
    (hsettled : ∀ a ∈ s.sessions, a.Settled) : s.history.WellFormed :=
  ⟨hsorted, hsettled, s.vars.settled_stored⟩

theorem wellFormed_empty : History.empty.WellFormed :=
  ⟨.nil, fun _ h => absurd h List.not_mem_nil, fun _ h => absurd h List.not_mem_nil⟩

variable {s s' : Store}

theorem wellFormed_enroll {a : Session} (h : s.history.WellFormed) (ha : a.Settled) :
    (s.enroll a).history.WellFormed := by
  apply wellFormed_history (Session.pairwise_sorted _)
  intro b hb
  rcases List.mem_append.mp (Session.mem_sorted.mp hb) with hb | hb
  · exact h.sessions b hb
  · exact List.mem_singleton.mp hb ▸ ha

theorem wellFormed_append {e : Entry} (h : s.history.WellFormed) (he : e.Settled)
    (supply : Supply) : (s.append e supply).1.history.WellFormed := by
  unfold append
  split
  · exact wellFormed_history (pairwise_addEntry h.sorted) (settled_addEntry he h.sessions)
  · have hnew : Session.Settled { (Session.new supply).1 with entries := [e] } :=
      ⟨(Session.settled_new supply).id, fun x hx => List.mem_singleton.mp hx ▸ he⟩
    have hw := wellFormed_enroll h hnew
    exact wellFormed_history hw.sorted hw.sessions

theorem withHistory_eq_ok {h : History} {size : Option Nat} (hs : s.withHistory h size = .ok s') :
    ∃ vars, Variables.ofStored h.vars = .ok vars ∧
      s' = { s.replaced h.sessions vars with lastSize := size } := by
  unfold withHistory at hs
  split at hs
  · rename_i vars hvars
    exact ⟨vars, hvars, (Except.ok.inj hs).symm⟩
  · cases hs

/-- The history of a file, or the empty one where there is no file. -/
def Tells (d : Disk) (p : Path) (supply : Supply) (h : History) : Prop :=
  (d.read p = .error .notFound ∧ h = .empty) ∨
    ∃ bytes, d.read p = .ok bytes ∧ (History.decode bytes supply).1 = .ok h

theorem wellFormed_of_tells {d : Disk} {p : Path} {supply : Supply} {h : History}
    (ht : Tells d p supply h) : h.WellFormed := by
  rcases ht with ⟨-, rfl⟩ | ⟨bytes, -, hd⟩
  · exact wellFormed_empty
  · exact History.wellFormed_of_decode (Prod.ext hd rfl)

theorem content_eq_ok {d : Disk} {content? : Option Bytes} (hc : s.content d = .ok content?) :
    (d.read s.path = .error .notFound ∧ content? = none) ∨
      ∃ bytes, d.read s.path = .ok bytes ∧ content? = some bytes := by
  unfold content at hc
  split at hc
  · rename_i bytes hread
    exact Or.inr ⟨bytes, hread, (Except.ok.inj hc).symm⟩
  · rename_i hread
    exact Or.inl ⟨hread, (Except.ok.inj hc).symm⟩
  · cases hc
  · cases hc

/-- A load takes the history that the file tells of. -/
theorem load_eq_ok {d : Disk} {supply : Supply} (hs : (s.load d supply).1 = .ok s') :
    ∃ h size, Tells d s.path supply h ∧ s.withHistory h size = .ok s' := by
  have drop : ∀ {x : Except LoadError Store}, x.mapError LoadFailure.error = .ok s' → x = .ok s' := by
    intro x hx
    cases x with
    | ok t =>
      cases hx
      rfl
    | error e => cases hx
  unfold load at hs
  cases hc : s.content d with
  | error f =>
    rw [hc] at hs
    cases hs
  | ok content? =>
    rw [hc] at hs
    rcases content_eq_ok hc with ⟨hread, rfl⟩ | ⟨bytes, hread, rfl⟩
    · exact ⟨_, _, Or.inl ⟨hread, rfl⟩, drop hs⟩
    · dsimp only at hs
      split at hs
      · cases hs
      · rename_i h supply' hd
        exact ⟨h, _, Or.inr ⟨bytes, hread, congrArg Prod.fst hd⟩, drop hs⟩

theorem wellFormed_load {d : Disk} {supply : Supply} (hs : (s.load d supply).1 = .ok s') :
    s'.history.WellFormed := by
  obtain ⟨h, size, ht, hs⟩ := load_eq_ok hs
  obtain ⟨vars, -, rfl⟩ := withHistory_eq_ok hs
  have hw := wellFormed_of_tells ht
  exact wellFormed_history hw.sorted hw.sessions

theorem wellFormed_loadOrEmpty {d : Disk} {supply : Supply} {e : Option LoadError}
    (hs : (s.loadOrEmpty d supply).1 = .ok (s', e)) : s'.history.WellFormed := by
  unfold loadOrEmpty at hs
  split at hs
  · rename_i t _ ht
    cases hs
    exact wellFormed_load (congrArg Prod.fst ht)
  · cases hs
    exact wellFormed_history .nil fun _ h => absurd h List.not_mem_nil
  · cases hs

theorem encoded_eq_ok {mishap : Option Mishap} {bytes : Bytes} (h : s.encoded mishap = .ok bytes) :
    bytes = s.history.encode := by
  unfold encoded at h
  split at h
  · cases h
  · exact (Except.ok.inj h).symm

/-- Saving changes neither sessions nor variables. -/
theorem save_eq_ok {mishap : Option Mishap} {d : Disk} (hs : (s.save mishap d).1 = .ok s') :
    s' = { s with dirty := false, lastSize := some s.history.encode.length } := by
  unfold save at hs
  split at hs
  · cases hs
  · rename_i bytes hb
    obtain rfl := encoded_eq_ok hb
    split at hs
    · exact (Except.ok.inj hs).symm
    · cases hs
    · cases hs

/-! ## Stores that can be -/

/-- What a store can come to. Variables may be set to anything; entries are any without halves
side by side that would be one character. -/
inductive Built : Store → Prop
  | new (path : Path) : Built (new path)
  | load {s s' : Store} {d : Disk} {supply : Supply} :
    Built s → (s.load d supply).1 = .ok s' → Built s'
  | loadOrEmpty {s s' : Store} {d : Disk} {supply : Supply} {e : Option LoadError} :
    Built s → (s.loadOrEmpty d supply).1 = .ok (s', e) → Built s'
  | startSession {s : Store} (supply : Supply) : Built s → Built (s.startSession supply).2.1
  | setVars {s : Store} (vars : Variables) : Built s → Built { s with vars := vars }
  | append {s : Store} {e : Entry} (supply : Supply) :
    Built s → e.Settled → Built (s.append e supply).1
  | save {s s' : Store} {mishap : Option Mishap} {d : Disk} :
    Built s → (s.save mishap d).1 = .ok s' → Built s'

theorem Built.wellFormed (h : s.Built) : s.history.WellFormed := by
  induction h with
  | new path => exact wellFormed_history .nil fun _ h => absurd h List.not_mem_nil
  | load _ hs _ => exact wellFormed_load hs
  | loadOrEmpty _ hs _ => exact wellFormed_loadOrEmpty hs
  | startSession supply _ ih => exact wellFormed_enroll ih (Session.settled_new supply)
  | setVars vars _ ih => exact wellFormed_history ih.sorted ih.sessions
  | append supply _ he ih => exact wellFormed_append ih he supply
  | save _ hs ih =>
    rw [save_eq_ok hs]
    exact wellFormed_history ih.sorted ih.sessions

end Store

end ExactCalc
