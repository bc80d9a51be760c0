/-
  ExactCalc.Proofs.History.Sessions — the session that takes the entries
  (`HistoryStore.append`; see `ExactCalc.History.Store`).

  It is there from the moment a session is started (`currentSession?_startSession`); an
  entry goes to its end and to no other session (`append_current`).
-/

import ExactCalc.Proofs.History.Saving

namespace ExactCalc.Store

open Text

variable {s : Store} {id : Symbols} {a : Session}

/-! ## Entries at the end of a session -/

theorem ids_addEntry (id : Symbols) (e : Entry) (l : List Session) :
    (addEntry id e l).map Session.id = l.map Session.id := by
  induction l with
  | nil => rfl
  | cons a l ih =>
    unfold addEntry
    split
    · rfl
    · rw [List.map_cons, List.map_cons, ih]

/-- An entry goes to the first session of its identifier, and no other one changes. -/
theorem addEntry_of_find? {e : Entry} {l : List Session} (h : l.find? (·.id = id) = some a) :
    ∃ before after, l = before ++ a :: after ∧
      addEntry id e l = before ++ { a with entries := a.entries ++ [e] } :: after := by
  induction l with
  | nil => cases h
  | cons b l ih =>
    by_cases hb : b.id = id
    · rw [List.find?_cons_of_pos (by simpa using hb)] at h
      cases h
      exact ⟨[], l, rfl, by rw [addEntry, if_pos hb]; rfl⟩
    · rw [List.find?_cons_of_neg (by simpa using hb)] at h
      obtain ⟨before, after, rfl, hadd⟩ := ih h
      exact ⟨b :: before, after, rfl, by rw [addEntry, if_neg hb, hadd]; rfl⟩

theorem find?_addEntry {e : Entry} {l : List Session} (h : l.find? (·.id = id) = some a) :
    (addEntry id e l).find? (·.id = id) = some { a with entries := a.entries ++ [e] } := by
  induction l with
  | nil => cases h
  | cons b l ih =>
    unfold addEntry
    by_cases hb : b.id = id
    · rw [List.find?_cons_of_pos (by simpa using hb)] at h
      cases h
      rw [if_pos hb]
      exact List.find?_cons_of_pos (by simpa using hb)
    · rw [List.find?_cons_of_neg (by simpa using hb)] at h
      rw [if_neg hb, List.find?_cons_of_neg (by simpa using hb)]
      exact ih h

/-! ## The current session -/

theorem isSome_find? : (s.find? id).isSome = true ↔ id ∈ s.sessions.map Session.id := by
  simp [find?]

/-- A store has a current session when its last one is still there. -/
theorem isSome_currentSession? :
    s.currentSession?.isSome = true ↔ ∃ id, s.current = some id ∧ id ∈ s.sessions.map Session.id := by
  unfold currentSession?
  cases s.current with
  | none => simp
  | some id => simp [isSome_find?]

/-- No session of a content that is loaded takes entries. -/
theorem current_of_load {s' : Store} {d : Disk} {supply : Supply}
    (hs : (s.load d supply).1 = .ok s') : s'.current = none := by
  obtain ⟨h, size, -, hload⟩ := load_eq_ok hs
  obtain ⟨vars, -, rfl⟩ := withHistory_eq_ok hload
  rfl

theorem current_of_loadOrEmpty {s' : Store} {d : Disk} {supply : Supply} {e : Option LoadError}
    (hs : (s.loadOrEmpty d supply).1 = .ok (s', e)) : s'.current = none := by
  obtain ⟨sessions, vars, size, rfl⟩ := loadOrEmpty_eq_ok hs
  rfl

theorem currentSession?_enroll (s : Store) (a : Session) :
    (s.enroll a).currentSession?.isSome = true := by
  refine isSome_currentSession?.mpr ⟨a.id, rfl, List.mem_map_of_mem ?_⟩
  exact Session.mem_sorted.mpr (List.mem_append_right _ (List.mem_singleton.mpr rfl))

theorem currentSession?_startSession (s : Store) (supply : Supply) :
    (s.startSession supply).2.1.currentSession?.isSome = true := currentSession?_enroll s _

/-- An entry is appended to the current session, and nothing else changes. -/
theorem append_current (h : s.currentSession? = some a) (e : Entry) (supply : Supply) :
    (s.append e supply).1 = { s with sessions := addEntry a.id e s.sessions, dirty := true } := by
  unfold append
  rw [h]

theorem currentSession?_append (h : s.currentSession?.isSome = true) (e : Entry) (supply : Supply) :
    (s.append e supply).1.currentSession?.isSome = true := by
  obtain ⟨a, ha⟩ := Option.isSome_iff_exists.mp h
  rw [append_current ha]
  obtain ⟨id, hid, hmem⟩ := isSome_currentSession?.mp h
  refine isSome_currentSession?.mpr ⟨id, hid, ?_⟩
  show id ∈ (addEntry a.id e s.sessions).map Session.id
  rw [ids_addEntry]
  exact hmem

/-- Where the current session holds all the entries, it goes on to, and the next one comes last. -/
theorem append_of_all (hs : s.currentSession? = some a) (hall : s.allEntries = a.entries) (e : Entry)
    (supply : Supply) :
    (s.append e supply).1.currentSession? = some { a with entries := a.entries ++ [e] } ∧
      (s.append e supply).1.allEntries = a.entries ++ [e] := by
  rw [append_current hs]
  obtain ⟨id, hid, hfind⟩ := Option.bind_eq_some_iff.mp hs
  have ha : a.id = id := by simpa using List.find?_some hfind
  rw [← ha] at hfind
  refine ⟨Option.bind_eq_some_iff.mpr ⟨id, hid, ha ▸ find?_addEntry hfind⟩, ?_⟩
  obtain ⟨before, after, hsplit, hadd⟩ := addEntry_of_find? (e := e) hfind
  unfold allEntries at hall ⊢
  rw [hsplit, List.flatMap_append, List.flatMap_cons] at hall
  dsimp only
  rw [hadd, List.flatMap_append, List.flatMap_cons]
  -- the other sessions have no entries
  have hlength := congrArg List.length hall
  simp only [List.length_append] at hlength
  rw [List.eq_nil_of_length_eq_zero (show (before.flatMap Session.entries).length = 0 by omega),
    List.eq_nil_of_length_eq_zero (show (after.flatMap Session.entries).length = 0 by omega),
    List.nil_append, List.append_nil]

end ExactCalc.Store
