/-
  ExactCalc.Proofs.History.Course — the sessions of a store in the course of its use
  (`HistoryStore.start_session`, `append`; see `ExactCalc.History.Store`).

  A store knows the session that takes the entries by its identifier alone, and every
  start sorts all sessions anew. `Course` notes beside the store where its sessions come
  from: those of the content that was there or was loaded, and those started since.
  Whatever the clock shows, and as long as new identifiers are new, the store holds just
  these, each in its place, and the current session is the one that was started last
  (`kept_after`). Short of a replacement of the whole content, sessions only come in
  between, and entries only at the end of a session (`lasts_after`).
-/

import ExactCalc.Proofs.History.Events
import ExactCalc.Proofs.History.Order
import ExactCalc.Proofs.History.Sessions
import Mathlib.Data.List.Forall2

namespace ExactCalc

/-- The same session later: all its entries are there, in front of those that came in since. -/
def Session.Extends (a b : Session) : Prop :=
  b.id = a.id ∧ b.startedAt = a.startedAt ∧ a.entries <+: b.entries

instance : Std.Refl Session.Extends := ⟨fun _ => ⟨rfl, rfl, List.prefix_rfl⟩⟩

instance : IsTrans Session Session.Extends :=
  ⟨fun _ _ _ h h' => ⟨h'.1.trans h.1, h'.2.1.trans h.2.1, h.2.2.trans h'.2.2⟩⟩

namespace Store

/-- What is done with a store, or with its content as a whole. -/
inductive Deed where
  | event (ev : Event)
  /-- A load that leaves the store empty should it fail. -/
  | loadOrEmpty
  /-- A new store takes the place of this one. -/
  | renew (path : Path)

namespace Deed

/-- The entries that come with a deed. -/
def entries : Deed → List Entry
  | event ev => ev.entries
  | _ => []

/-- Whether a deed replaces all that a store holds. A load that fails does not, unless the store is
emptied for it. -/
def replaces (s : Store) (w : World) : Deed → Bool
  | event .load => (s.load w.disk w.supply).1.isOk
  | event _ => false
  | loadOrEmpty => (s.loadOrEmpty w.disk w.supply).1.isOk
  | renew _ => true

/-- The store and the world after a deed. -/
def outcome (s : Store) (w : World) : Deed → Store × World
  | event ev => s.step w ev
  | loadOrEmpty =>
    (((s.loadOrEmpty w.disk w.supply).1.map Prod.fst).toOption.getD s,
      { w with supply := (s.loadOrEmpty w.disk w.supply).2 })
  | renew path => (Store.new path, w)

/-- What replaces the content is sorted, and none of its sessions is the current one. -/
theorem unstarted_of_replaces {s : Store} {w : World} {d : Deed} (h : d.replaces s w = true) :
    (d.outcome s w).1.sessions.Pairwise (fun a b => a.startsBy b = true) ∧
      (d.outcome s w).1.current = none := by
  cases d with
  | event ev =>
    cases ev with
    | load =>
      obtain ⟨s', hs⟩ := isOk_iff.mp (show (s.load w.disk w.supply).1.isOk = true from h)
      have hstep : (outcome s w (.event .load)).1 = s' := by
        show (s.load w.disk w.supply).1.toOption.getD s = s'
        rw [hs]
        rfl
      rw [hstep]
      exact ⟨(wellFormed_load hs).sorted, current_of_load hs⟩
    | startSession => cases h
    | append e => cases h
    | setVars vars => cases h
    | save m => cases h
    | elsewhere w => cases h
  | loadOrEmpty =>
    obtain ⟨⟨s', e⟩, hs⟩ := isOk_iff.mp (show (s.loadOrEmpty w.disk w.supply).1.isOk = true from h)
    have hstep : (outcome s w .loadOrEmpty).1 = s' := by
      show ((s.loadOrEmpty w.disk w.supply).1.map Prod.fst).toOption.getD s = s'
      rw [hs]
      rfl
    rw [hstep]
    exact ⟨(wellFormed_loadOrEmpty hs).sorted, current_of_loadOrEmpty hs⟩
  | renew path => exact ⟨.nil, rfl⟩

end Deed

/-- A store in use, and where its sessions come from. -/
structure Course where
  store : Store
  world : World
  /-- The sessions of the content that replaced what had been there. -/
  found : List Session
  /-- The sessions that the store has started since, the last one first. -/
  started : List Session

namespace Course

/-- A store of which nothing is loaded. -/
def new (path : Path) (w : World) : Course := ⟨Store.new path, w, [], []⟩

/-- The sessions started, after an entry: it goes to the last one, or to a new one. -/
def noted (e : Entry) (supply : Supply) : List Session → List Session
  | [] => [{ (Session.new supply).1 with entries := [e] }]
  | a :: earlier => { a with entries := a.entries ++ [e] } :: earlier

/-- The sessions started, after a deed that replaces nothing. -/
def startedBy (c : Course) : Deed → List Session
  | .event .startSession => (Session.new c.world.supply).1 :: c.started
  | .event (.append e) => noted e c.world.supply c.started
  | _ => c.started

def step (c : Course) (d : Deed) : Course :=
  let next := d.outcome c.store c.world
  if d.replaces c.store c.world then ⟨next.1, next.2, next.1.sessions, []⟩
  else ⟨next.1, next.2, c.found, c.startedBy d⟩

def after (c : Course) (deeds : List Deed) : Course := deeds.foldl step c

/-- Whether a deed starts a session: an entry does, if none is there to take it. -/
def Starts (c : Course) : Deed → Prop
  | .event .startSession => True
  | .event (.append _) => c.started = []
  | _ => False

/-- Every session that is started has an identifier that no session of the store has. -/
def Fresh (c : Course) : List Deed → Prop
  | [] => True
  | d :: deeds =>
    (c.Starts d → (Session.new c.world.supply).1.id ∉ c.store.sessions.map Session.id) ∧
      (c.step d).Fresh deeds

/-- No deed replaces what the store holds. -/
def Unreplaced (c : Course) : List Deed → Prop
  | [] => True
  | d :: deeds => d.replaces c.store c.world = false ∧ (c.step d).Unreplaced deeds

variable {c : Course} {d : Deed}

theorem step_of_replaces (h : d.replaces c.store c.world = true) :
    c.step d = ⟨(d.outcome c.store c.world).1, (d.outcome c.store c.world).2,
      (d.outcome c.store c.world).1.sessions, []⟩ := by
  unfold step
  dsimp only
  rw [if_pos h]

theorem step_of_not_replaces (h : d.replaces c.store c.world = false) :
    c.step d = ⟨(d.outcome c.store c.world).1, (d.outcome c.store c.world).2, c.found,
      c.startedBy d⟩ := by
  unfold step
  dsimp only
  rw [if_neg (by rw [h]; decide)]

/-- A deed that replaces nothing leaves the sessions alone, or starts one, or brings an entry. -/
theorem step_cases (h : d.replaces c.store c.world = false) :
    (∃ s w, c.step d = ⟨s, w, c.found, c.started⟩ ∧ d.entries = [] ∧
      s.sessions = c.store.sessions ∧ s.current = c.store.current) ∨
    (∃ w, d = .event .startSession ∧
      c.step d = ⟨c.store.enroll (Session.new c.world.supply).1, w, c.found,
        (Session.new c.world.supply).1 :: c.started⟩) ∨
    ∃ e w, d = .event (.append e) ∧
      c.step d = ⟨(c.store.append e c.world.supply).1, w, c.found,
        noted e c.world.supply c.started⟩ := by
  rw [step_of_not_replaces h]
  cases d with
  | event ev =>
    cases ev with
    | load =>
      refine .inl ⟨_, _, rfl, rfl, ?_⟩
      have hfails : c.store.Fails c.world .load :=
        isOk_eq_false_iff.mp (show (c.store.load c.world.disk c.world.supply).1.isOk = false from h)
      have hsame := step_of_fails hfails
      exact ⟨congrArg sessions hsame, congrArg current hsame⟩
    | startSession => exact .inr (.inl ⟨_, rfl, rfl⟩)
    | append e => exact .inr (.inr ⟨e, _, rfl, rfl⟩)
    | setVars vars => exact .inl ⟨_, _, rfl, rfl, rfl, rfl⟩
    | save m =>
      refine .inl ⟨_, _, rfl, rfl, ?_⟩
      show ((c.store.save m c.world.disk).1.toOption.getD c.store).sessions = _ ∧
        ((c.store.save m c.world.disk).1.toOption.getD c.store).current = _
      cases hs : (c.store.save m c.world.disk).1 with
      | error f => exact ⟨rfl, rfl⟩
      | ok s =>
        rw [save_eq_ok hs]
        exact ⟨rfl, rfl⟩
    | elsewhere w => exact .inl ⟨_, _, rfl, rfl, rfl, rfl⟩
  | loadOrEmpty =>
    obtain ⟨f, hf⟩ := isOk_eq_false_iff.mp
      (show (c.store.loadOrEmpty c.world.disk c.world.supply).1.isOk = false from h)
    have hsame : (Deed.outcome c.store c.world .loadOrEmpty).1 = c.store := by
      show ((c.store.loadOrEmpty c.world.disk c.world.supply).1.map Prod.fst).toOption.getD c.store = _
      rw [hf]
      rfl
    exact .inl ⟨_, _, rfl, rfl, congrArg sessions hsame, congrArg current hsame⟩
  | renew path => cases h

/-! ## Where the sessions come from -/

/-- The store holds the sessions that are noted, each in its place, and its current session is the
one started last, which no other one can be taken for. -/
structure Kept (c : Course) : Prop where
  sessions : c.store.sessions = Session.sorted (c.found ++ c.started.reverse)
  current : c.store.current = c.started.head?.map Session.id
  distinct : ∀ a earlier, c.started = a :: earlier → ∀ b ∈ c.found ++ earlier.reverse, b.id ≠ a.id

theorem Kept.pairwise (h : c.Kept) : c.store.sessions.Pairwise fun a b => a.startsBy b = true := by
  rw [h.sessions]
  exact Session.pairwise_sorted _

theorem Kept.mem_sessions (h : c.Kept) {a : Session} :
    a ∈ c.store.sessions ↔ a ∈ c.found ++ c.started.reverse := by
  rw [h.sessions, Session.mem_sorted]

theorem Kept.currentSession? (h : c.Kept) : c.store.currentSession? = c.started.head? := by
  unfold Store.currentSession?
  rw [h.current]
  cases hs : c.started with
  | nil => rfl
  | cons a earlier =>
    show c.store.find? a.id = some a
    have ha : a ∈ c.store.sessions := by
      rw [h.mem_sessions, hs]
      simp
    obtain ⟨b, hb⟩ := Option.isSome_iff_exists.mp (isSome_find?.mpr (List.mem_map_of_mem ha))
    have hid : b.id = a.id := by simpa using List.find?_some hb
    have hmem := h.mem_sessions.mp (List.mem_of_find?_eq_some hb)
    rw [hs, List.reverse_cons, ← List.append_assoc] at hmem
    rcases List.mem_append.mp hmem with hmem | hmem
    · exact absurd hid (h.distinct a earlier hs b hmem)
    · rw [hb, List.mem_singleton.mp hmem]

/-! ## Entries -/

/-- A session with an entry more, if it has the identifier. -/
def takingFor (id : Text.Symbols) (e : Entry) (a : Session) : Session :=
  if a.id = id then { a with entries := a.entries ++ [e] } else a

theorem startedAt_takingFor (id : Text.Symbols) (e : Entry) (a : Session) :
    (takingFor id e a).startedAt = a.startedAt := by
  unfold takingFor
  split
  · rfl
  · rfl

theorem map_takingFor_of_ne {id : Text.Symbols} {l : List Session} (h : ∀ b ∈ l, b.id ≠ id)
    (e : Entry) : l.map (takingFor id e) = l := by
  refine (List.map_congr_left fun b hb => ?_).trans (List.map_id l)
  exact if_neg (h b hb)

/-- Where one session at most has the identifier, an entry is added by changing all of them. -/
theorem addEntry_eq_map {id : Text.Symbols} {e : Entry} {l : List Session}
    (h : (l.filter (·.id = id)).length ≤ 1) : addEntry id e l = l.map (takingFor id e) := by
  induction l with
  | nil => rfl
  | cons a l ih =>
    by_cases ha : a.id = id
    · rw [List.filter_cons_of_pos (by simpa using ha), List.length_cons] at h
      have hnone : l.filter (·.id = id) = [] := List.eq_nil_of_length_eq_zero (by omega)
      have hrest : ∀ b ∈ l, b.id ≠ id := fun b hb => by
        simpa using List.filter_eq_nil_iff.mp hnone b hb
      rw [addEntry, if_pos ha, List.map_cons, takingFor, if_pos ha, map_takingFor_of_ne hrest]
    · rw [List.filter_cons_of_neg (by simpa using ha)] at h
      rw [addEntry, if_neg ha, List.map_cons, takingFor, if_neg ha, ih h]

/-- An entry for the session that was added last goes to its end, wherever that session stands. -/
theorem addEntry_sorted {l : List Session} {a : Session} (h : ∀ b ∈ l, b.id ≠ a.id) (e : Entry) :
    addEntry a.id e (Session.sorted (l ++ [a])) =
      Session.sorted (l ++ [{ a with entries := a.entries ++ [e] }]) := by
  have hnone : l.filter (·.id = a.id) = [] := by
    refine List.filter_eq_nil_iff.mpr fun b hb => ?_
    simpa using h b hb
  have hone : ((Session.sorted (l ++ [a])).filter (·.id = a.id)).length ≤ 1 := by
    have hperm : (Session.sorted (l ++ [a])).Perm (l ++ [a]) := List.mergeSort_perm _ _
    rw [(hperm.filter _).length_eq, List.filter_append, hnone]
    exact List.length_filter_le _ _
  have hlast : takingFor a.id e a = { a with entries := a.entries ++ [e] } := if_pos rfl
  rw [addEntry_eq_map hone, ← Session.sorted_map (startedAt_takingFor a.id e), List.map_append,
    map_takingFor_of_ne h, List.map_singleton, hlast]

/-! ## One deed -/

/-- A store without a current session holds what it found. -/
theorem kept_found {s : Store} (hs : s.sessions.Pairwise fun a b => a.startsBy b = true)
    (hc : s.current = none) (w : World) : Kept ⟨s, w, s.sessions, []⟩ where
  sessions := by
    show _ = Session.sorted (_ ++ [])
    rw [List.append_nil, Session.sorted_of_pairwise hs]
  current := hc
  distinct _ _ h := by cases h

/-- It makes no difference what else a store holds, and in which world. -/
theorem Kept.of_same (h : c.Kept) {s : Store} (hs : s.sessions = c.store.sessions)
    (hc : s.current = c.store.current) (w : World) : Kept ⟨s, w, c.found, c.started⟩ :=
  ⟨hs.trans h.sessions, hc.trans h.current, h.distinct⟩

theorem kept_new (path : Path) (w : World) : (new path w).Kept := kept_found .nil rfl w

theorem kept_replaced (h : d.replaces c.store c.world = true) : (c.step d).Kept := by
  rw [step_of_replaces h]
  obtain ⟨hsorted, hcurrent⟩ := Deed.unstarted_of_replaces h
  exact kept_found hsorted hcurrent _

/-- A new session takes its place, and no other one has its identifier. -/
theorem kept_enroll (h : c.Kept) {a : Session} (hnew : a.id ∉ c.store.sessions.map Session.id)
    {s : Store} (hs : s.sessions = (c.store.enroll a).sessions) (hc : s.current = some a.id)
    (w : World) : Kept ⟨s, w, c.found, a :: c.started⟩ where
  sessions := by
    show s.sessions = _
    rw [hs, List.reverse_cons, ← List.append_assoc, ← Session.sorted_sorted_append, ← h.sessions]
    rfl
  current := hc
  distinct b earlier hb x hx hid := by
    cases hb
    refine hnew (List.mem_map.mpr ⟨x, ?_, hid⟩)
    exact h.mem_sessions.mpr hx

/-- An entry goes to the session started last, and to a new one where there is none. -/
theorem kept_append (h : c.Kept) (e : Entry) (w : World)
    (hnew : c.started = [] → (Session.new c.world.supply).1.id ∉ c.store.sessions.map Session.id) :
    Kept ⟨(c.store.append e c.world.supply).1, w, c.found, noted e c.world.supply c.started⟩ := by
  have hcurrent := h.currentSession?
  cases hs : c.started with
  | nil =>
    have hstore : (c.store.append e c.world.supply).1 =
        { c.store.enroll { (Session.new c.world.supply).1 with entries := [e] } with
          dirty := true } := by
      unfold append
      rw [hcurrent, hs]
      rfl
    have hkept := kept_enroll h (a := { (Session.new c.world.supply).1 with entries := [e] }) (hnew hs)
      (s := (c.store.append e c.world.supply).1) (by rw [hstore]) (by rw [hstore]; rfl) w
    rw [hs] at hkept
    exact hkept
  | cons a earlier =>
    rw [hs] at hcurrent
    have hdistinct := h.distinct a earlier hs
    have hsessions := h.sessions
    rw [hs, List.reverse_cons, ← List.append_assoc] at hsessions
    rw [append_current hcurrent]
    refine ⟨?_, ?_, fun b rest hb => ?_⟩
    · show addEntry a.id e c.store.sessions = Session.sorted (c.found ++ (_ :: earlier).reverse)
      rw [hsessions, addEntry_sorted hdistinct, List.reverse_cons, List.append_assoc]
    · show c.store.current = some a.id
      rw [h.current, hs]
      rfl
    · cases hb
      exact hdistinct

theorem kept_step (h : c.Kept)
    (hnew : c.Starts d → (Session.new c.world.supply).1.id ∉ c.store.sessions.map Session.id) :
    (c.step d).Kept := by
  cases hr : d.replaces c.store c.world with
  | true => exact kept_replaced hr
  | false =>
    rcases step_cases hr with ⟨s, w, hstep, -, hs, hc⟩ | ⟨w, rfl, hstep⟩ | ⟨e, w, rfl, hstep⟩
    · rw [hstep]
      exact h.of_same hs hc w
    · rw [hstep]
      exact kept_enroll h (hnew trivial) rfl rfl w
    · rw [hstep]
      exact kept_append h e w hnew

theorem kept_after (h : c.Kept) {deeds : List Deed} (hf : c.Fresh deeds) : (c.after deeds).Kept := by
  induction deeds generalizing c with
  | nil => exact h
  | cons d deeds ih => exact ih (kept_step h hf.1) hf.2

/-! ## What lasts -/

/-- What was there is there later: the same sessions in the same order, others in between, and every
entry as often as before, in front of those that came in since. -/
structure Lasts (c later : Course) (entries : List Entry) : Prop where
  found : later.found = c.found
  sessions : List.SublistForall₂ Session.Extends c.store.sessions later.store.sessions
  entries : later.store.allEntries.Perm (c.store.allEntries ++ entries)

theorem lasts_of_same {later : Course} (hf : later.found = c.found)
    (hs : later.store.sessions = c.store.sessions) : c.Lasts later [] where
  found := hf
  sessions := by
    rw [hs]
    exact Std.Refl.refl _
  entries := by
    rw [allEntries, hs, List.append_nil]
    exact .rfl

theorem Lasts.trans {c' c'' : Course} {entries more : List Entry} (h : c.Lasts c' entries)
    (h' : c'.Lasts c'' more) : c.Lasts c'' (entries ++ more) where
  found := h'.found.trans h.found
  sessions := IsTrans.trans _ _ _ h.sessions h'.sessions
  entries := by
    rw [← List.append_assoc]
    exact h'.entries.trans (h.entries.append_right more)

theorem extends_addEntry (id : Text.Symbols) (e : Entry) (l : List Session) :
    List.SublistForall₂ Session.Extends l (addEntry id e l) := by
  induction l with
  | nil => exact .nil
  | cons a l ih =>
    unfold addEntry
    split
    · exact .cons ⟨rfl, rfl, List.prefix_append _ _⟩ (Std.Refl.refl l)
    · exact .cons (Std.Refl.refl a) ih

theorem extends_enroll (h : c.Kept) (a : Session) :
    List.SublistForall₂ Session.Extends c.store.sessions (c.store.enroll a).sessions := by
  obtain ⟨before, after, hs, hsorted, -⟩ := Session.sorted_concat h.pairwise a
  refine List.Sublist.sublistForall₂ ?_
  show c.store.sessions.Sublist (Session.sorted (c.store.sessions ++ [a]))
  rw [hsorted, hs]
  exact (List.sublist_cons_self a after).append_left before

theorem extends_append (h : c.Kept) (e : Entry) (supply : Supply) :
    List.SublistForall₂ Session.Extends c.store.sessions (c.store.append e supply).1.sessions := by
  unfold append
  split
  · exact extends_addEntry _ e _
  · exact extends_enroll h _

theorem lasts_step (h : c.Kept) (hr : d.replaces c.store c.world = false) :
    c.Lasts (c.step d) d.entries := by
  rcases step_cases hr with ⟨s, w, hstep, he, hs, -⟩ | ⟨w, rfl, hstep⟩ | ⟨e, w, rfl, hstep⟩
  · rw [hstep, he]
    exact lasts_of_same rfl hs
  · rw [hstep]
    exact ⟨rfl, extends_enroll h _, perm_enroll _ _⟩
  · rw [hstep]
    exact ⟨rfl, extends_append h e _, perm_append _ e _⟩

/-- Short of a replacement, no entry is lost, taken twice or moved. -/
theorem lasts_after (h : c.Kept) {deeds : List Deed} (hf : c.Fresh deeds)
    (hu : c.Unreplaced deeds) : c.Lasts (c.after deeds) (deeds.flatMap Deed.entries) := by
  induction deeds generalizing c with
  | nil => exact lasts_of_same rfl rfl
  | cons d deeds ih => exact (lasts_step h hu.1).trans (ih (kept_step h hf.1) hf.2 hu.2)

/-! ## The whole course -/

theorem counts_eq (s : Store) : s.counts = (s.sessions.length, s.allEntries.length) := by
  unfold counts allEntries
  rw [← List.sum_eq_foldr, List.length_flatMap]

/-- However the clock runs and whatever fails, a store that began empty holds what it found and what
it started in the order of the starts; a new session takes its place among the others, an entry goes
to the end of the session started last, wherever that one stands; and until all is replaced, no entry
is lost, taken twice or moved. -/
theorem sessions_through_course {path : Path} {w : World} {deeds : List Deed}
    (h : (new path w).Fresh deeds) :
    let c := (new path w).after deeds
    let s := c.store
    (s.sessions.Pairwise fun a b => a.startedAt.instant ≤ b.startedAt.instant) ∧
    Session.InOrder (c.found ++ c.started.reverse) s.sessions ∧
    s.currentSession? = c.started.head? ∧
    (∀ supply, ∃ before after, s.sessions = before ++ after ∧
      (s.startSession supply).2.1.sessions = before ++ (s.startSession supply).1 :: after ∧
      Session.Placed before (s.startSession supply).1 after) ∧
    (∀ e supply a earlier, c.started = a :: earlier →
      ∃ before after, s.sessions = before ++ a :: after ∧
        (s.append e supply).1.sessions =
          before ++ { a with entries := a.entries ++ [e] } :: after) ∧
    (∀ e supply, c.started = [] → ∃ before after, s.sessions = before ++ after ∧
      (s.append e supply).1.sessions =
        before ++ { (Session.new supply).1 with entries := [e] } :: after ∧
      Session.Placed before (Session.new supply).1 after) ∧
    s.allEntries = s.sessions.flatMap Session.entries ∧
    s.counts = (s.sessions.length, s.allEntries.length) ∧
    ∀ more, c.Fresh more → c.Unreplaced more →
      c.Lasts (c.after more) (more.flatMap Deed.entries) := by
  intro c s
  have hkept : c.Kept := kept_after (kept_new path w) h
  have hcurrent := hkept.currentSession?
  refine ⟨?_, ?_, hcurrent, fun supply => ?_, fun e supply a earlier hs => ?_, fun e supply hs => ?_,
    rfl, counts_eq s, fun more => lasts_after hkept⟩
  · exact hkept.pairwise.imp Session.startsBy_iff.mp
  · show Session.InOrder _ c.store.sessions
    rw [hkept.sessions]
    exact Session.inOrder_sorted _
  · exact Session.sorted_concat hkept.pairwise (Session.new supply).1
  · rw [hs] at hcurrent
    obtain ⟨id, hid, hfind⟩ := Option.bind_eq_some_iff.mp hcurrent
    have ha : a.id = id := by simpa using List.find?_some hfind
    rw [← ha] at hfind
    rw [append_current hcurrent]
    exact addEntry_of_find? hfind
  · rw [hs] at hcurrent
    have hsessions : (s.append e supply).1.sessions =
        Session.sorted (s.sessions ++ [{ (Session.new supply).1 with entries := [e] }]) := by
      unfold append
      rw [hcurrent]
      rfl
    rw [hsessions]
    exact Session.sorted_concat hkept.pairwise { (Session.new supply).1 with entries := [e] }

/-- The clock goes back an hour between two starts: the second session stands first, and an entry
goes there. -/
theorem entry_goes_to_last_started :
    let w : World := ⟨Disk.empty, Nat.repr,
      fun n => if n = 0 then { Stamp.epoch with hour := 1 } else .epoch, 0, 0⟩
    let start := new ⟨.root, ["history.bin"]⟩ w
    let deeds : List Deed := [.event .startSession, .event .startSession]
    let s := (start.after deeds).store
    let e := (Entry.ofResult "1+1" (.exact 2) .still).1
    start.Fresh deeds ∧ ∃ late early, (start.after deeds).started = [early, late] ∧
      s.sessions = [early, late] ∧
      (s.append e .still).1.sessions = [{ early with entries := [e] }, late] := by
  intro w start deeds s e
  have hfresh : start.Fresh deeds :=
    ⟨fun _ => List.not_mem_nil, fun _ => by decide +kernel, trivial⟩
  obtain ⟨-, hinOrder, -, -, happend, -⟩ := sessions_through_course hfresh
  let late := (Session.new w.supply).1
  let early := (Session.new (Session.new w.supply).2).1
  have hstarted : (start.after deeds).started = [early, late] := rfl
  have hsessions : s.sessions = [early, late] :=
    hinOrder.eq_sorted.trans (Session.sorted_pair (by decide +kernel))
  refine ⟨hfresh, late, early, hstarted, hsessions, ?_⟩
  obtain ⟨before, after, hs, hadd⟩ := happend e .still _ _ hstarted
  have hsplit : [early, late] = before ++ early :: after := hsessions.symm.trans hs
  have hne : late ≠ early := by decide +kernel
  cases before with
  | nil =>
    obtain ⟨-, rfl⟩ := List.cons.inj hsplit
    exact hadd
  | cons b before =>
    obtain ⟨-, hrest⟩ := List.cons.inj hsplit
    have hmem : early ∈ [late] := by
      rw [hrest]
      simp
    exact absurd (List.mem_singleton.mp hmem).symm hne

end Course

end Store

end ExactCalc
