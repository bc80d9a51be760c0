/-
  ExactCalc.Proofs.History.Version1 — what is kept of a history of version 1
  (`_migrate_v1`; see `ExactCalc.History.Migration`).

  `Version1.Content` is what such a history says, apart from how it is written: objects
  may name their members in any order, and others that have no meaning. Each record is
  carried over to the members of one of version 2 (`migration_value` up to
  `migration_session`), and these are read as what was said (`storedNumber_value` up to
  `session_carried`), with nothing supplied. The start of a session goes through a date
  and its text on the way, and is the same second afterwards.
-/

import ExactCalc.Proofs.History.Loading
import ExactCalc.Proofs.History.Migration
import ExactCalc.Proofs.History.Order
import ExactCalc.Proofs.History.RoundTrip
import ExactCalc.Proofs.Table
import ExactCalc.Proofs.Time.Date

namespace ExactCalc

open Text Fields

namespace Version1

/-! ## What is said -/

structure Value where
  numerator : Int
  denominator : Nat
  positive : 0 < denominator

structure Entry where
  id : Symbols
  expression : Symbols
  value : Value

structure Session where
  id : Symbols
  /-- Seconds of UTC. -/
  start : Int
  entries : List Entry

structure Content where
  vars : List (Symbols × Value)
  sessions : List Session

/-! ## How it is written -/

def Value.WrittenIn (v : Value) (members : Members) : Prop :=
  Json.member? members "numerator" = some (.int v.numerator) ∧
    Json.member? members "denominator" = some (.int v.denominator)

def Variable (p : Symbols × Value) (j : Json) : Prop :=
  ∃ members, j = .obj members ∧ Json.member? members "id" = some (.str p.1) ∧ p.2.WrittenIn members

def Entry.WrittenAs (e : Entry) (j : Json) : Prop :=
  ∃ members, j = .obj members ∧ Json.member? members "entry_uuid" = some (.str e.id) ∧
    Json.member? members "expression" = some (.str e.expression) ∧ e.value.WrittenIn members

/-- A list under a key, or none where there is nothing. -/
def Listed {α : Type} (writtenAs : α → Json → Prop) (members : Members) (key : String)
    (l : List α) : Prop :=
  (∃ js, Json.member? members key = some (.arr js) ∧ List.Forall₂ writtenAs l js) ∨
    (Json.member? members key = none ∧ l = [])

def Session.WrittenAs (s : Session) (j : Json) : Prop :=
  ∃ members, j = .obj members ∧ Json.member? members "session_uuid" = some (.str s.id) ∧
    Json.member? members "session_start" = some (.int s.start) ∧
    Listed Entry.WrittenAs members "entries" s.entries

def Content.WrittenIn (c : Content) (members : Members) : Prop :=
  Listed Variable members "variables" c.vars ∧
    Listed Session.WrittenAs members "sessions" c.sessions

/-- The bytes of a file of version 1 with that content. -/
def Content.InFile (c : Content) (bytes : Bytes) : Prop :=
  ∃ block text members, History.splitHeader bytes = .ok (1, block) ∧
    History.textOf 1 block = .ok text ∧ Json.read text.toList = some (.obj members) ∧
    c.WrittenIn members

/-! ## What it is carried over to -/

def Value.stored (v : Value) : StoredNumber := ⟨v.numerator, v.denominator, false, v.positive⟩

def Entry.carried (start : Stamp) (e : Entry) : ExactCalc.Entry :=
  ⟨e.id, start, e.expression, some e.value.stored, none, false⟩

/-- The same session: it starts at the same second, in UTC, and so do its entries. -/
structure Session.Carried (s : Session) (a : ExactCalc.Session) : Prop where
  id : a.id = s.id
  start : a.startedAt.instant = s.start * 1000000
  utc : a.startedAt.offset = 0
  entries : a.entries = s.entries.map (Entry.carried a.startedAt)

/-- The members that are carried over. -/
def Value.members (v : Value) : List (String × Json) :=
  [("numerator", .int v.numerator), ("denominator", .int v.denominator), ("inexact", .bool false)]

def Entry.members (time : Json) (e : Entry) : List (String × Json) :=
  [("entry_id", .str e.id), ("created_at", time), ("expression", .str e.expression),
    ("result", .obj (keyed e.value.members)), ("error", .null), ("inexact", .bool false)]

def Session.members (start : Stamp) (s : Session) : List (String × Json) :=
  let time := Json.ofString (String.ofList start.renderFull)
  [("session_id", .str s.id), ("started_at", time),
    ("entries", .arr (s.entries.map fun e => .obj (keyed (e.members time))))]

/-- A variable as it is carried over. -/
def carriedPair (p : Symbols × Value) : Json × Json := (.str p.1, .obj (keyed p.2.members))

/-! ## Lists -/

theorem listField_of_listed {α : Type} {writtenAs : α → Json → Prop} {members : Members}
    {key : String} {l : List α} (h : Listed writtenAs members key l) :
    ∃ js, Migration.listField members key = .ok js ∧ List.Forall₂ writtenAs l js := by
  unfold Migration.listField
  rcases h with ⟨js, hjs, hl⟩ | ⟨hnone, rfl⟩
  · rw [hjs]
    exact ⟨js, rfl, hl⟩
  · rw [hnone]
    exact ⟨[], rfl, .nil⟩

/-! ## Numbers -/

theorem migration_value {v : Value} {members : Members} (h : v.WrittenIn members) :
    Migration.quotient members = .ok (.obj (keyed v.members)) :=
  bind_of_ok (Migration.field_eq_ok.mpr h.1) (bind_of_ok (Migration.field_eq_ok.mpr h.2) rfl)

theorem storedNumber_value (v : Value) : storedNumber (.obj (keyed v.members)) = .ok v.stored := by
  have hpositive : positive? (.int v.denominator) = some ⟨v.denominator, v.positive⟩ := by
    unfold positive? integer?
    simp only [Int.toNat_natCast, v.positive, dif_pos]
  have hinteger : integer? (.int v.numerator) = some v.numerator := rfl
  have hnum : required (checkedBy integer?) (keyed v.members) "numerator" = .ok v.numerator := by
    simp [required, member?_keyed, Value.members, checkedBy_of_eq hinteger]
  have hden : required (checkedBy positive?) (keyed v.members) "denominator" =
      .ok ⟨v.denominator, v.positive⟩ := by
    simp [required, member?_keyed, Value.members, checkedBy_of_eq hpositive]
  have hflag : Fields.optional (checkedBy truth?) false (keyed v.members) "inexact" = .ok false := by
    simp [Fields.optional, member?_keyed, Value.members]
  have hnone : strangers ["numerator", "denominator", "inexact"] (keyed v.members) = 0 :=
    strangers_keyed (by simp [Value.members])
  unfold storedNumber
  simp only [hnum, hden, hflag, hnone]
  rfl

/-! ## Variables -/

theorem putKey_carriedPair (k : Symbols) (v : Value) (l : List (Symbols × Value)) :
    Migration.putKey (.str k) (.obj (keyed v.members)) (l.map carriedPair) =
      (Table.put k v l).map carriedPair := by
  induction l with
  | nil => rfl
  | cons p l ih =>
    obtain ⟨k', v'⟩ := p
    have hsame : Migration.sameKey (.str k') (.str k) = decide (k' = k) := rfl
    unfold Table.put
    rw [List.map_cons, carriedPair, Migration.putKey, hsame, ih]
    by_cases hk : k' = k
    · rw [if_pos hk, if_pos (by simpa using hk), hk]
      rfl
    · rw [if_neg hk, if_neg (by simpa using hk)]
      rfl

theorem addVariable_carriedPair {p : Symbols × Value} {j : Json} (h : Variable p j)
    (t : Table Symbols Value) :
    Migration.addVariable (t.pairs.map carriedPair) j =
      .ok ((t.insert p.1 p.2).pairs.map carriedPair) := by
  obtain ⟨members, rfl, hid, hvalue⟩ := h
  refine bind_of_ok rfl (bind_of_ok (Migration.field_eq_ok.mpr hid)
    (bind_of_ok (migration_value hvalue) ?_))
  have hkey : Migration.isKey (.str p.1) = true := rfl
  rw [if_pos hkey, putKey_carriedPair]
  rfl

theorem foldlM_addVariable {l : List (Symbols × Value)} {js : List Json}
    (h : List.Forall₂ Variable l js) (t : Table Symbols Value) :
    js.foldlM Migration.addVariable (t.pairs.map carriedPair) =
      .ok ((l.foldl (fun t p => t.insert p.1 p.2) t).pairs.map carriedPair) := by
  induction h generalizing t with
  | nil => rfl
  | @cons p j l js hp _ ih =>
    rw [List.foldlM_cons, List.foldl_cons]
    exact bind_of_ok (addVariable_carriedPair hp t) (ih _)

theorem namedNumbers_carriedPair (l : List (Symbols × Value)) :
    namedNumbers (l.map carriedPair) = .ok (l.map fun p => (p.1, p.2.stored)) := by
  induction l with
  | nil => rfl
  | cons p l ih =>
    rw [List.map_cons, carriedPair]
    unfold namedNumbers
    simp only [namedNumber, checkedBy_text, storedNumber_value, ih, List.map_cons]

theorem numberTable_carriedPair (t : Table Symbols Value) :
    numberTable (t.pairs.map carriedPair) = .ok (t.map Value.stored) := by
  rw [numberTable, namedNumbers_carriedPair]
  have htable : Table.ofList (t.map Value.stored).pairs = t.map Value.stored :=
    Table.ext_pairs (Table.pairs_ofList (t.map Value.stored).distinct)
  exact congrArg Except.ok htable

/-! ## Entries -/

theorem migration_entry {e : Entry} {j : Json} (h : e.WrittenAs j) (time : Json) :
    Migration.entry time j = .ok (.obj (keyed (e.members time))) := by
  obtain ⟨members, rfl, hid, hexpr, hvalue⟩ := h
  exact bind_of_ok rfl (bind_of_ok (Migration.field_eq_ok.mpr hid)
    (bind_of_ok (Migration.field_eq_ok.mpr hexpr) (bind_of_ok (migration_value hvalue) rfl)))

theorem checkedBy_renderFull (t : Stamp) :
    checkedBy time? (Json.ofString (String.ofList t.renderFull)) = .ok t := by
  refine checkedBy_of_eq ?_
  unfold Json.ofString time?
  simp only [Symbols.toString?_ofString, Option.bind_some, String.toList_ofList,
    Stamp.read?_renderFull]
  rfl

theorem entry_carried (e : Entry) (start : Stamp) (s : Supply) :
    Fields.entry (.obj (keyed (e.members (Json.ofString (String.ofList start.renderFull))))) s =
      (.ok (e.carried start), s) := by
  let members := keyed (e.members (Json.ofString (String.ofList start.renderFull)))
  have hid : supplied (checkedBy text?) supplyId members "entry_id" s = (.ok e.id, s) := by
    simp [members, supplied, member?_keyed, Entry.members]
  have htime : supplied (checkedBy time?) Supply.takeReading members "created_at" s =
      (.ok start, s) := by
    simp [members, supplied, member?_keyed, Entry.members, checkedBy_renderFull]
  have hexpr : required (checkedBy text?) members "expression" = .ok e.expression := by
    simp [members, required, member?_keyed, Entry.members]
  have hresult : Fields.optional (nullable storedNumber) none members "result" =
      .ok (some e.value.stored) := by
    simp [members, Fields.optional, member?_keyed, Entry.members, nullable, storedNumber_value,
      Except.map]
  have herror : Fields.optional (nullable (checkedBy text?)) none members "error" = .ok none := by
    simp [members, Fields.optional, member?_keyed, Entry.members, nullable]
  have hflag : Fields.optional (checkedBy truth?) false members "inexact" = .ok false := by
    simp [members, Fields.optional, member?_keyed, Entry.members]
  have hnone : strangers ["entry_id", "created_at", "expression", "result", "error", "inexact"]
      members = 0 := strangers_keyed (by simp [Entry.members])
  show Fields.entry (.obj members) s = _
  unfold Fields.entry
  simp only [hid, htime, hexpr, hresult, herror, hflag, hnone]
  rfl

/-! ## Sessions -/

theorem startOf_inYears {n : Int} (h : Stamp.InYears n) :
    ∃ t, Migration.startOf n = .ok t ∧ t.offset = 0 ∧ t.instant = n * 1000000 := by
  obtain ⟨t, ht, hoffset, hinstant⟩ := Stamp.ofEpoch?_eq_some h
  refine ⟨t, ?_, hoffset, hinstant⟩
  unfold Migration.startOf
  rw [ht]

theorem migration_session {s : Session} {j : Json} (h : s.WrittenAs j) {start : Stamp}
    (hs : Migration.startOf s.start = .ok start) :
    Migration.session j = .ok (.obj (keyed (s.members start))) := by
  obtain ⟨members, rfl, hid, hstart, hentries⟩ := h
  obtain ⟨js, hjs, hall⟩ := listField_of_listed hentries
  let time := Json.ofString (String.ofList start.renderFull)
  have hmapM : js.mapM (Migration.entry time) =
      .ok (s.entries.map fun e => .obj (keyed (e.members time))) := by
    refine mapM_of_forall₂ (List.forall₂_map_right_iff.mpr (hall.flip.imp fun j e he => ?_))
    exact migration_entry he time
  refine bind_of_ok rfl (bind_of_ok (Migration.field_eq_ok.mpr hstart) ?_)
  show (Migration.startOf s.start >>= _) = _
  exact bind_of_ok hs (bind_of_ok hjs (bind_of_ok hmapM
    (bind_of_ok (Migration.field_eq_ok.mpr hid) rfl)))

theorem session_carried (a : Session) (start : Stamp) (s : Supply) :
    Fields.session (.obj (keyed (a.members start))) s =
      (.ok ⟨a.id, start, a.entries.map (Entry.carried start)⟩, s) := by
  let members := keyed (a.members start)
  have hid : supplied (checkedBy text?) supplyId members "session_id" s = (.ok a.id, s) := by
    simp [members, supplied, member?_keyed, Session.members]
  have htime : supplied (checkedBy time?) Supply.takeReading members "started_at" s =
      (.ok start, s) := by
    simp [members, supplied, member?_keyed, Session.members, checkedBy_renderFull]
  have hentries : listed Fields.entry members "entries" s =
      (.ok (a.entries.map (Entry.carried start)), s) := by
    have hitems : items Fields.entry (a.entries.map fun e =>
        .obj (keyed (e.members (Json.ofString (String.ofList start.renderFull))))) s =
          (.ok (a.entries.map (Entry.carried start)), s) := by
      refine items_of_forall₂ (List.forall₂_map_left_iff.mpr (List.forall₂_map_right_iff.mpr ?_))
      exact List.forall₂_same.mpr fun e _ => entry_carried e start s
    simp [members, listed, member?_keyed, Session.members, hitems]
  have hnone : strangers ["session_id", "started_at", "entries"] members = 0 :=
    strangers_keyed (by simp [Session.members])
  show Fields.session (.obj members) s = _
  unfold Fields.session
  simp only [hid, htime, hentries, hnone]

/-- A session of version 1 is carried over to one that reads as the same. -/
theorem exists_carried {a : Session} {j : Json} (h : a.WrittenAs j) (hy : Stamp.InYears a.start) :
    ∃ k b, Migration.session j = .ok k ∧ a.Carried b ∧ ∀ s, Fields.session k s = (.ok b, s) := by
  obtain ⟨start, hstart, hoffset, hinstant⟩ := startOf_inYears hy
  have hcarried : a.Carried ⟨a.id, start, a.entries.map (Entry.carried start)⟩ :=
    ⟨rfl, hinstant, hoffset, rfl⟩
  exact ⟨_, _, migration_session h hstart, hcarried, session_carried a start⟩

theorem exists_carried_sessions {l : List Session} {js : List Json}
    (h : List.Forall₂ Session.WrittenAs l js) (hy : ∀ a ∈ l, Stamp.InYears a.start) :
    ∃ ks bs, js.mapM Migration.session = .ok ks ∧ List.Forall₂ Session.Carried l bs ∧
      ∀ s, items Fields.session ks s = (.ok bs, s) := by
  induction h with
  | nil => exact ⟨[], [], rfl, .nil, fun s => rfl⟩
  | @cons a j l js ha _ ih =>
    obtain ⟨hya, hyl⟩ := List.forall_mem_cons.mp hy
    obtain ⟨k, b, hk, hb, hread⟩ := exists_carried ha hya
    obtain ⟨ks, bs, hks, hbs, hitems⟩ := ih hyl
    refine ⟨k :: ks, b :: bs, ?_, .cons hb hbs, fun s => ?_⟩
    · rw [List.mapM_cons]
      exact bind_of_ok hk (bind_of_ok hks rfl)
    · unfold items
      simp only [hread, hitems]

/-! ## Files -/

/-- A file of version 1 with sessions of the years 1 to 9999 is read, and nothing it says is lost. Its
sessions come in the order of their starts, equal starts in the order of the file, each with its
entries as they were; and of the values of a variable the last one counts. -/
theorem version1_kept {c : Content} {bytes : Bytes} (hfile : c.InFile bytes)
    (hy : ∀ a ∈ c.sessions, Stamp.InYears a.start) (supply : Supply) :
    ∃ h sessions, History.decode bytes supply = (.ok h, supply) ∧
      List.Forall₂ Session.Carried c.sessions sessions ∧
      ExactCalc.Session.InOrder sessions h.sessions ∧
      ∀ name, h.vars.get? name = (c.vars.reverse.lookup name).map Value.stored := by
  obtain ⟨block, text, members, hheader, htext, hjson, hvars, hsessions⟩ := hfile
  obtain ⟨vs, hvs, hvall⟩ := listField_of_listed hvars
  obtain ⟨js, hjs, hsall⟩ := listField_of_listed hsessions
  obtain ⟨ks, sessions, hks, hcarried, hitems⟩ := exists_carried_sessions hsall hy
  let vars := Table.ofList c.vars
  have hmigrated : Migration.fromVersion1 (.obj members) =
      .ok (.migrated (vars.pairs.map carriedPair) ks) :=
    bind_of_ok rfl (bind_of_ok hvs (bind_of_ok (foldlM_addVariable hvall Table.empty)
      (bind_of_ok hjs (bind_of_ok hks rfl))))
  have hpayload : History.payloadOf bytes = .ok (1, .migrated (vars.pairs.map carriedPair) ks) := by
    have hmigrate : migrate 1 (.obj members) = .ok (.migrated (vars.pairs.map carriedPair) ks) := by
      unfold migrate
      rw [if_neg (by decide), if_pos rfl, hmigrated]
    unfold History.payloadOf
    simp only [hheader, htext, hjson]
    rw [if_neg (by decide), if_neg (by decide)]
    exact bind_of_ok hmigrate rfl
  have hread : History.ofPayload (.migrated (vars.pairs.map carriedPair) ks) supply =
      (.ok ⟨vars.map Value.stored, ExactCalc.Session.sorted sessions⟩, supply) := by
    unfold History.ofPayload
    simp only [hitems, numberTable_carriedPair]
    rfl
  refine ⟨⟨vars.map Value.stored, ExactCalc.Session.sorted sessions⟩, sessions, ?_, hcarried,
    ExactCalc.Session.inOrder_sorted sessions, fun name => ?_⟩
  · unfold History.decode
    simp only [hpayload, hread]
  · rw [Table.get?_map, Table.get?_ofList]

set_option maxRecDepth 4000 in
/-- Two sessions the wrong way round, and a variable with two values. -/
theorem version1_kept_of_two_sessions :
    let text := "\x7b\"sessions\":[\x7b\"session_uuid\":\"b\",\"session_start\":5,\"entries\":[" ++
      "\x7b\"entry_uuid\":\"e\",\"expression\":\"3\",\"numerator\":3,\"denominator\":1\x7d]\x7d," ++
      "\x7b\"session_uuid\":\"a\",\"session_start\":-5\x7d],\"variables\":[" ++
      "\x7b\"id\":\"x\",\"numerator\":1,\"denominator\":3\x7d," ++
      "\x7b\"id\":\"x\",\"numerator\":2,\"denominator\":4\x7d]\x7d"
    let bytes := History.header 1 ++ Zlib.compress (Bytes.ofText text)
    let c : Content :=
      ⟨[(.ofString "x", ⟨1, 3, by decide⟩), (.ofString "x", ⟨2, 4, by decide⟩)],
        [⟨.ofString "b", 5, [⟨.ofString "e", .ofString "3", ⟨3, 1, by decide⟩⟩]⟩,
          ⟨.ofString "a", -5, []⟩]⟩
    c.InFile bytes ∧ (∀ a ∈ c.sessions, Stamp.InYears a.start) ∧
      ∃ h, History.decode bytes .still = (.ok h, .still) ∧
        h.sessions.map ExactCalc.Session.id = [.ofString "a", .ofString "b"] ∧
        h.vars.get? (.ofString "x") = some ⟨2, 4, false, by decide⟩ := by
  intro text bytes c
  have hread : Json.read text.toList = some (.obj [
      (.ofString "sessions", .arr [
        .obj [(.ofString "session_uuid", .str (.ofString "b")), (.ofString "session_start", .int 5),
          (.ofString "entries", .arr [.obj [(.ofString "entry_uuid", .str (.ofString "e")),
            (.ofString "expression", .str (.ofString "3")), (.ofString "numerator", .int 3),
            (.ofString "denominator", .int 1)]])],
        .obj [(.ofString "session_uuid", .str (.ofString "a")),
          (.ofString "session_start", .int (-5))]]),
      (.ofString "variables", .arr [
        .obj [(.ofString "id", .str (.ofString "x")), (.ofString "numerator", .int 1),
          (.ofString "denominator", .int 3)],
        .obj [(.ofString "id", .str (.ofString "x")), (.ofString "numerator", .int 2),
          (.ofString "denominator", .int 4)]])]) := by
    unfold text
    repeat rw [String.toList_append]
    repeat rw [String.toList_ofList]
    with_unfolding_all rfl
  have hfile : c.InFile bytes := by
    refine ⟨_, text, _, History.splitHeader_header (by decide) _, History.textOf_compress 1 text,
      hread, .inl ⟨_, rfl, ?_⟩, .inl ⟨_, rfl, ?_⟩⟩
    · exact .cons ⟨_, rfl, rfl, rfl, rfl⟩ (.cons ⟨_, rfl, rfl, rfl, rfl⟩ .nil)
    · refine .cons ⟨_, rfl, rfl, rfl, .inl ⟨_, rfl, ?_⟩⟩ (.cons ⟨_, rfl, rfl, rfl, .inr ⟨rfl, rfl⟩⟩ .nil)
      exact .cons ⟨_, rfl, rfl, rfl, rfl, rfl⟩ .nil
  have hyears : ∀ a ∈ c.sessions, Stamp.InYears a.start := by decide
  obtain ⟨h, sessions, hdecode, hcarried, hinOrder, hvars⟩ := version1_kept hfile hyears .still
  refine ⟨hfile, hyears, h, hdecode, ?_, (hvars _).trans rfl⟩
  obtain ⟨a, l, ha, hl, rfl⟩ := List.forall₂_cons_left_iff.mp hcarried
  obtain ⟨b, l', hb, hl', rfl⟩ := List.forall₂_cons_left_iff.mp hl
  obtain rfl := List.forall₂_nil_left_iff.mp hl'
  have hlt : b.startedAt.instant < a.startedAt.instant := by
    rw [ha.start, hb.start]
    decide
  rw [hinOrder.eq_sorted, ExactCalc.Session.sorted_pair hlt, List.map_cons, List.map_singleton,
    ha.id, hb.id]

end Version1

end ExactCalc
