/-
  ExactCalc.Proofs.History.RoundTrip — a history reads back from its bytes
  (`encode_container`, `decode_container`; see `ExactCalc.History.Container`).

  Each record is read from the members it is written with (`storedNumber_toJson` up to
  `session_toJson`), without taking anything from the supply; the JSON text, its bytes
  and the compressed data come back each by their own round trip. Variables are written
  in the order of their names, so they come back as a map, and a second round trip
  changes nothing.
-/

import ExactCalc.Proofs.Bytes
import ExactCalc.Proofs.History.Built
import ExactCalc.Proofs.Json.RoundTrip
import ExactCalc.Proofs.Number.Digits
import ExactCalc.Proofs.Time.Stamp
import ExactCalc.Proofs.Zlib.Stored

namespace ExactCalc

open Text

/-! ## Members under fixed keys -/

namespace Fields

/-- Members with these keys. -/
def keyed (l : List (String × Json)) : Members := l.map fun p => (.ofString p.1, p.2)

theorem member?_keyed (l : List (String × Json)) (key : String) :
    Json.member? (keyed l) key = (l.find? (·.1 = key)).map Prod.snd := by
  induction l with
  | nil => rfl
  | cons p l ih =>
    unfold Json.member? keyed at ih ⊢
    by_cases h : p.1 = key
    · simp [h]
    · have hne : ¬ Symbols.ofString p.1 = Symbols.ofString key := fun e => h (Symbols.ofString_inj.mp e)
      simp only [List.map_cons, List.find?_cons, h, hne, decide_false]
      exact ih

theorem strangers_keyed {keys : List String} {l : List (String × Json)}
    (h : ∀ p ∈ l, p.1 ∈ keys) : strangers keys (keyed l) = 0 := by
  unfold strangers keyed
  rw [List.countP_eq_zero]
  intro p hp
  obtain ⟨q, hq, rfl⟩ := List.mem_map.mp hp
  have hany : (keys.any fun known => Symbols.ofString known == Symbols.ofString q.1) = true :=
    List.any_eq_true.mpr ⟨q.1, h q hq, beq_self_eq_true _⟩
  show ¬ (!keys.any fun known => Symbols.ofString known == Symbols.ofString q.1) = true
  rw [hany]
  decide

theorem nodup_keyed {l : List (String × Json)} (h : (l.map Prod.fst).Nodup) :
    ((keyed l).map Prod.fst).Nodup := by
  have hmap : (keyed l).map Prod.fst = (l.map Prod.fst).map Symbols.ofString := by
    simp [keyed, Function.comp_def]
  rw [hmap]
  exact h.map fun s t he => Symbols.ofString_inj.mp he

theorem plain_keyed {d : Nat} {l : List (String × Json)} (hn : (l.map Prod.fst).Nodup)
    (h : ∀ p ∈ l, Json.Plain d p.2) : Json.Plain (d + 1) (.obj (keyed l)) := by
  refine .obj (nodup_keyed hn) (fun p hp => ?_) fun p hp => ?_
  · obtain ⟨q, -, rfl⟩ := List.mem_map.mp hp
    exact Symbols.settled_ofString q.1
  · obtain ⟨q, hq, rfl⟩ := List.mem_map.mp hp
    exact h q hq

end Fields

open Fields

/-! ## Numbers and times -/

theorem hex?_hexText (n : Int) : Numeral.hex? (hexText n).toList = some n := by
  have h := Numeral.hex?_of_toDigits (decide (n < 0)) n.natAbs
  simp only [decide_eq_true_eq] at h
  rw [hexText, String.toList_ofList, Digits.inBase_eq (by decide), h]
  unfold Numeral.signed
  simp only [decide_eq_true_eq]
  congr 1
  split <;> omega

theorem integer?_hexText (n : Int) : integer? (.ofString (hexText n)) = some n := by
  simp only [integer?, Json.ofString, Symbols.toString?_ofString, Option.bind_some, hex?_hexText]

theorem positive?_hexText {n : Nat} (h : 0 < n) :
    positive? (.ofString (hexText n)) = some ⟨n, h⟩ := by
  unfold positive?
  rw [integer?_hexText]
  simp only [Int.toNat_natCast, h, dif_pos]

theorem time?_toJson (s : Stamp) : time? s.toJson = some s := by
  unfold Stamp.toJson Json.ofString time?
  simp only [Symbols.toString?_ofString, Option.bind_some, String.toList_ofList, Stamp.read?_render]
  rfl

theorem checkedBy_of_eq {α : Type} {read? : Json → Option α} {j : Json} {a : α}
    (h : read? j = some a) : checkedBy read? j = .ok a := by
  unfold checkedBy
  rw [h]
  rfl

@[simp] theorem checkedBy_text (s : Symbols) : checkedBy text? (.str s) = .ok s := rfl

@[simp] theorem checkedBy_truth (b : Bool) : checkedBy truth? (.bool b) = .ok b := rfl

@[simp] theorem checkedBy_time (s : Stamp) : checkedBy time? s.toJson = .ok s :=
  checkedBy_of_eq (time?_toJson s)

@[simp] theorem checkedBy_integer (n : Int) :
    checkedBy integer? (.ofString (hexText n)) = .ok n := checkedBy_of_eq (integer?_hexText n)

/-- What may be nothing is read as it was written, if nothing else is written as nothing. -/
theorem nullable_nullableJson {α : Type} {read : Json → Checked α} {f : α → Json}
    (hread : ∀ a, read (f a) = .ok a) (hnull : ∀ a, f a ≠ .null) (o : Option α) :
    nullable read (nullableJson f o) = .ok o := by
  cases o with
  | none => rfl
  | some a =>
    unfold nullableJson nullable
    split
    · rename_i h
      exact absurd h (hnull a)
    · rw [hread]
      rfl

/-! ## Records -/

/-- The members of a stored number. -/
def StoredNumber.written (a : StoredNumber) : List (String × Json) :=
  [("denominator", .ofString (hexText a.denominator)), ("inexact", .bool a.inexact),
    ("numerator", .ofString (hexText a.numerator))]

def Entry.written (e : Entry) : List (String × Json) :=
  [("created_at", e.createdAt.toJson), ("entry_id", .str e.id),
    ("error", nullableJson .str e.error), ("expression", .str e.expression),
    ("inexact", .bool e.inexact), ("result", nullableJson StoredNumber.toJson e.result)]

def Session.written (s : Session) : List (String × Json) :=
  [("entries", .arr (s.entries.map Entry.toJson)), ("session_id", .str s.id),
    ("started_at", s.startedAt.toJson)]

theorem storedNumber_toJson (a : StoredNumber) : storedNumber a.toJson = .ok a := by
  have hnum : required (checkedBy integer?) (keyed a.written) "numerator" = .ok a.numerator := by
    simp [required, member?_keyed, StoredNumber.written]
  have hden : required (checkedBy positive?) (keyed a.written) "denominator" =
      .ok ⟨a.denominator, a.positive⟩ := by
    simp [required, member?_keyed, StoredNumber.written,
      checkedBy_of_eq (positive?_hexText a.positive)]
  have hflag : Fields.optional (checkedBy truth?) false (keyed a.written) "inexact" =
      .ok a.inexact := by
    simp [Fields.optional, member?_keyed, StoredNumber.written]
  have hnone : strangers ["numerator", "denominator", "inexact"] (keyed a.written) = 0 :=
    strangers_keyed (by simp [StoredNumber.written])
  show storedNumber (.obj (keyed a.written)) = _
  unfold storedNumber
  simp only [hnum, hden, hflag, hnone]

theorem entry_toJson (e : Entry) (s : Supply) : entry e.toJson s = (.ok e, s) := by
  have hid : supplied (checkedBy text?) supplyId (keyed e.written) "entry_id" s = (.ok e.id, s) := by
    simp [supplied, member?_keyed, Entry.written]
  have htime : supplied (checkedBy time?) Supply.takeReading (keyed e.written) "created_at" s =
      (.ok e.createdAt, s) := by
    simp [supplied, member?_keyed, Entry.written]
  have hexpr : required (checkedBy text?) (keyed e.written) "expression" = .ok e.expression := by
    simp [required, member?_keyed, Entry.written]
  have hresult : Fields.optional (nullable storedNumber) none (keyed e.written) "result" =
      .ok e.result := by
    have hnull : ∀ a : StoredNumber, a.toJson ≠ .null := by
      intro a h
      cases h
    simp [Fields.optional, member?_keyed, Entry.written,
      nullable_nullableJson storedNumber_toJson hnull]
  have herror : Fields.optional (nullable (checkedBy text?)) none (keyed e.written) "error" =
      .ok e.error := by
    have hnull : ∀ s : Symbols, Json.str s ≠ .null := by
      intro s h
      cases h
    simp [Fields.optional, member?_keyed, Entry.written, nullable_nullableJson checkedBy_text hnull]
  have hflag : Fields.optional (checkedBy truth?) false (keyed e.written) "inexact" =
      .ok e.inexact := by
    simp [Fields.optional, member?_keyed, Entry.written]
  have hnone : strangers ["entry_id", "created_at", "expression", "result", "error", "inexact"]
      (keyed e.written) = 0 := strangers_keyed (by simp [Entry.written])
  show entry (.obj (keyed e.written)) s = _
  unfold entry
  simp only [hid, htime, hexpr, hresult, herror, hflag, hnone]

/-- Items that are each read without a supply are read as a list without one. -/
theorem items_of_forall₂ {α : Type} {read : Json → Supply → Checked α × Supply} {s : Supply}
    {l : List Json} {as : List α} (h : List.Forall₂ (fun j a => read j s = (.ok a, s)) l as) :
    items read l s = (.ok as, s) := by
  induction h with
  | nil => rfl
  | cons ha _ ih =>
    unfold items
    simp only [ha, ih]

theorem items_map {α : Type} {read : Json → Supply → Checked α × Supply} {f : α → Json}
    {s : Supply} {l : List α} (h : ∀ a ∈ l, read (f a) s = (.ok a, s)) :
    items read (l.map f) s = (.ok l, s) :=
  items_of_forall₂ (List.forall₂_map_left_iff.mpr (List.forall₂_same.mpr h))

theorem session_toJson (a : Session) (s : Supply) : session a.toJson s = (.ok a, s) := by
  have hid : supplied (checkedBy text?) supplyId (keyed a.written) "session_id" s =
      (.ok a.id, s) := by
    simp [supplied, member?_keyed, Session.written]
  have htime : supplied (checkedBy time?) Supply.takeReading (keyed a.written) "started_at" s =
      (.ok a.startedAt, s) := by
    simp [supplied, member?_keyed, Session.written]
  have hentries : listed entry (keyed a.written) "entries" s = (.ok a.entries, s) := by
    have hitems := @items_map _ entry Entry.toJson s a.entries fun e _ => entry_toJson e s
    simp [listed, member?_keyed, Session.written, hitems]
  have hnone : strangers ["session_id", "started_at", "entries"] (keyed a.written) = 0 :=
    strangers_keyed (by simp [Session.written])
  show session (.obj (keyed a.written)) s = _
  unfold session
  simp only [hid, htime, hentries, hnone]

/-! ## Plain values -/

theorem plain_storedNumber (a : StoredNumber) : Json.Plain 1 a.toJson := by
  refine plain_keyed (l := a.written) (by simp [StoredNumber.written]) ?_
  simp only [StoredNumber.written, List.forall_mem_cons]
  exact ⟨Json.plain_ofString _, .bool _, Json.plain_ofString _, by simp⟩

theorem plain_entry {e : Entry} (h : e.Settled) : Json.Plain 2 e.toJson := by
  refine plain_keyed (l := e.written) (by simp [Entry.written]) ?_
  have herror : Json.Plain 1 (nullableJson .str e.error) := by
    cases he : e.error with
    | none => exact .null
    | some t => exact .str (h.error t he)
  have hresult : Json.Plain 1 (nullableJson StoredNumber.toJson e.result) := by
    cases e.result with
    | none => exact .null
    | some a => exact plain_storedNumber a
  simp only [Entry.written, List.forall_mem_cons]
  exact ⟨Json.plain_ofString _, .str h.id, herror, .str h.expression, .bool _, hresult, by simp⟩

theorem plain_session {s : Session} (h : s.Settled) : Json.Plain 4 s.toJson := by
  refine plain_keyed (l := s.written) (by simp [Session.written]) ?_
  have hentries : Json.Plain 3 (.arr (s.entries.map Entry.toJson)) := by
    apply Json.Plain.arr
    intro v hv
    obtain ⟨e, he, rfl⟩ := List.mem_map.mp hv
    exact plain_entry (h.entries e he)
  simp only [Session.written, List.forall_mem_cons]
  exact ⟨hentries, .str h.id, Json.plain_ofString _, by simp⟩

namespace History

/-! ## Variables in order -/

variable {h h' : History}

theorem perm_sortedVariables (h : History) : h.sortedVariables.Perm h.vars.pairs :=
  List.mergeSort_perm _ _

theorem pairwise_sortedVariables (h : History) :
    h.sortedVariables.Pairwise fun a b => Symbols.le a.1 b.1 = true := by
  unfold sortedVariables
  apply List.pairwise_mergeSort
  · exact fun _ _ _ => Symbols.le_trans
  · exact fun a b => Symbols.le_total a.1 b.1

theorem nodup_sortedVariables (h : History) : (h.sortedVariables.map Prod.fst).Nodup :=
  ((perm_sortedVariables h).map Prod.fst).nodup_iff.mpr h.vars.distinct

/-- The same history with its variables in the order of their names. -/
def inOrder (h : History) : History := ⟨⟨h.sortedVariables, h.nodup_sortedVariables⟩, h.sessions⟩

theorem get?_inOrder (h : History) (name : Symbols) :
    h.inOrder.vars.get? name = h.vars.get? name :=
  Table.get?_eq_of_perm (perm_sortedVariables h) name

/-- Two orders of the same variables are sorted to one. -/
theorem sortedVariables_eq (hn : ∀ p ∈ h.vars.pairs, p.1.Settled)
    (hmap : ∀ name, h.vars.get? name = h'.vars.get? name) :
    h.sortedVariables = h'.sortedVariables := by
  have hperm : h.sortedVariables.Perm h'.sortedVariables :=
    (perm_sortedVariables h).trans ((Table.perm_of_get?_eq hmap).trans (perm_sortedVariables h').symm)
  refine hperm.eq_of_pairwise (fun a b ha hb hab hba => ?_) (pairwise_sortedVariables h)
    (pairwise_sortedVariables h')
  replace hb := hperm.mem_iff.mpr hb
  have settled : ∀ p ∈ h.sortedVariables, p.1.Settled :=
    fun p hp => hn p ((perm_sortedVariables h).mem_iff.mp hp)
  have hkey : a.1 = b.1 :=
    Symbols.le_antisymm (settled a ha).valid (settled b hb).valid hab hba
  exact List.inj_on_of_nodup_map h.nodup_sortedVariables ha hb hkey

/-- The payload depends on the variables as a map only. -/
theorem payload_eq (hn : ∀ p ∈ h.vars.pairs, p.1.Settled) (hs : h.sessions = h'.sessions)
    (hmap : ∀ name, h.vars.get? name = h'.vars.get? name) : h.payload = h'.payload := by
  unfold payload toJson
  rw [sortedVariables_eq hn hmap, hs]

theorem payload_inOrder (hn : ∀ p ∈ h.vars.pairs, p.1.Settled) : h.inOrder.payload = h.payload :=
  (@payload_eq h h.inOrder hn rfl fun name => (get?_inOrder h name).symm).symm

/-! ## Payloads -/

/-- The members of the variables. -/
def variableMembers (h : History) : List (Symbols × Json) :=
  h.sortedVariables.map fun p => (p.1, p.2.toJson)

/-- The members of a history. -/
def written (h : History) : List (String × Json) :=
  [("sessions", .arr (h.sessions.map Session.toJson)), ("variables", .obj h.variableMembers)]

theorem toJson_eq (h : History) : h.toJson = .obj (keyed h.written) := rfl

theorem plain_toJson (hw : h.WellFormed) : Json.Plain 6 h.toJson := by
  have hsessions : Json.Plain 5 (.arr (h.sessions.map Session.toJson)) := by
    apply Json.Plain.arr
    intro v hv
    obtain ⟨s, hs, rfl⟩ := List.mem_map.mp hv
    exact plain_session (hw.sessions s hs)
  have hvars : Json.Plain 2 (.obj h.variableMembers) := by
    refine .obj ?_ (fun p hp => ?_) fun p hp => ?_
    · have hkeys : h.variableMembers.map Prod.fst = h.sortedVariables.map Prod.fst := by
        simp [variableMembers, Function.comp_def]
      rw [hkeys]
      exact h.nodup_sortedVariables
    · obtain ⟨q, hq, rfl⟩ := List.mem_map.mp hp
      exact hw.names q ((perm_sortedVariables h).mem_iff.mp hq)
    · obtain ⟨q, -, rfl⟩ := List.mem_map.mp hp
      exact plain_storedNumber q.2
  rw [toJson_eq]
  refine plain_keyed (by simp [written]) ?_
  simp only [written, List.forall_mem_cons]
  exact ⟨hsessions, hvars.mono (by decide), by simp⟩

theorem namedNumbers_map : ∀ l : List (Symbols × StoredNumber),
    namedNumbers (l.map fun p => (.str p.1, p.2.toJson)) = .ok l := by
  intro l
  induction l with
  | nil => rfl
  | cons p l ih =>
    rw [List.map_cons]
    unfold namedNumbers
    simp [namedNumber, storedNumber_toJson, ih]

theorem variablesField_written (h : History) :
    variablesField (keyed h.written) = .ok h.inOrder.vars := by
  have htable : Table.ofList h.sortedVariables = h.inOrder.vars :=
    Table.ext_pairs (Table.pairs_ofList h.nodup_sortedVariables)
  have hmembers : Json.member? (keyed h.written) "variables" = some (.obj h.variableMembers) := by
    simp only [member?_keyed, written]
    rfl
  have hpairs : h.variableMembers.map (fun p => (Json.str p.1, p.2)) =
      h.sortedVariables.map fun p => (.str p.1, p.2.toJson) := by
    simp [variableMembers, Function.comp_def]
  unfold variablesField
  rw [hmembers]
  show numberTable (h.variableMembers.map fun p => (Json.str p.1, p.2)) = _
  rw [hpairs, numberTable, namedNumbers_map]
  show Except.ok (Table.ofList _) = _
  rw [htable]

theorem ofPayload_toJson (hw : h.WellFormed) (s : Supply) :
    ofPayload (.asFound h.toJson) s = (.ok h.inOrder, s) := by
  have hsessions : listed session (keyed h.written) "sessions" s = (.ok h.sessions, s) := by
    have hitems := @items_map _ session Session.toJson s h.sessions fun a _ => session_toJson a s
    simp [listed, member?_keyed, written, hitems]
  have hnone : strangers ["format_version", "variables", "sessions"] (keyed h.written) = 0 :=
    strangers_keyed (by simp [written])
  rw [toJson_eq]
  unfold ofPayload
  simp only [variablesField_written, hsessions, hnone, ofParts,
    Session.sorted_of_pairwise hw.sorted]
  rfl

/-! ## Files -/

theorem splitHeader_encode (h : History) :
    splitHeader h.encode =
      .ok (formatVersion, Zlib.compress (Bytes.ofText (String.ofList h.payload))) := by
  have hversion := Zlib.fromFour_fourBytes (show formatVersion < 4294967296 by decide)
  simp only [encode, header, Zlib.fourBytes, List.cons_append, List.nil_append, splitHeader,
    hversion]

theorem textOf_compress (version : Nat) (text : String) :
    textOf version (Zlib.compress (Bytes.ofText text)) = .ok text := by
  simp only [textOf, Zlib.decompress_compress, Bytes.text?_ofText]
  rfl

theorem payloadOf_encode (hw : h.WellFormed) :
    payloadOf h.encode = .ok (formatVersion, .asFound h.toJson) := by
  have hread : Json.read h.payload = some h.toJson :=
    Json.read_render ((plain_toJson hw).mono (by decide))
  unfold payloadOf
  simp only [splitHeader_encode, textOf_compress, String.toList_ofList, hread, Nat.lt_irrefl,
    gt_iff_lt, if_false, show ¬ formatVersion < 1 by decide, toJson]
  unfold migrate
  rw [if_pos (by decide)]
  rfl

/-- A well-formed history is read from its bytes, with its variables in order. -/
theorem decode_encode (hw : h.WellFormed) (s : Supply) : decode h.encode s = (.ok h.inOrder, s) := by
  unfold decode
  simp only [payloadOf_encode hw, ofPayload_toJson hw]

/-! ## The round trip -/

/-- The histories there are: a file of either version holds one, or a store has it in memory. -/
inductive Arises : History → Prop
  | decoded {bytes : Bytes} {s s' : Supply} {h : History} :
    decode bytes s = (.ok h, s') → Arises h
  | built {store : Store} : store.Built → Arises store.history

theorem Arises.wellFormed (ha : h.Arises) : h.WellFormed := by
  cases ha with
  | decoded hd => exact wellFormed_of_decode hd
  | built hb => exact hb.wellFormed

/-- Decoding undoes encoding: the same sessions in the same order, and the same variables as a map.
What comes back has the same payload, so that writing it again changes nothing; and the payload
does not depend on the order in which the variables came. -/
theorem codec_round_trip (ha : h.Arises) :
    (∀ s, ∃ h', decode h.encode s = (.ok h', s) ∧ h'.sessions = h.sessions ∧
      (∀ name, h'.vars.get? name = h.vars.get? name) ∧ h'.payload = h.payload) ∧
    ∀ h' : History, h'.sessions = h.sessions → (∀ name, h'.vars.get? name = h.vars.get? name) →
      h'.payload = h.payload := by
  have hw := ha.wellFormed
  constructor
  · intro s
    exact ⟨h.inOrder, decode_encode hw s, rfl, get?_inOrder h, payload_inOrder hw.names⟩
  · intro h' hs hmap
    exact (payload_eq hw.names hs.symm fun name => (hmap name).symm).symm

/-- A store with a variable and an entry, its history read back and written again. -/
theorem codec_round_trip_of_entry :
    let vars : Variables := Table.empty.insert "rate" (.exact (2 / 3))
    let entry := (Entry.ofResult "rate*3" (.exact 2) .still).1
    let store := ({ Store.new ⟨.root, ["history.bin"]⟩ with vars := vars }.append entry .still).1
    ∃ h', decode store.history.encode .still = (.ok h', .still) ∧
      h'.sessions.map Session.entries = [[entry]] ∧
      h'.vars.get? (.ofString "rate") = some (.ofNumber (.exact (2 / 3))) ∧
      h'.payload = store.history.payload := by
  intro vars entry store
  have hb : store.Built :=
    .append .still (.setVars vars (.new _)) (Entry.settled_ofResult _ _ .still)
  have hsessions : store.sessions = [{ (Session.new .still).1 with entries := [entry] }] :=
    List.mergeSort_singleton _
  obtain ⟨h', hd, hs, hv, hp⟩ := (codec_round_trip (.built hb)).1 .still
  refine ⟨h', hd, ?_, ?_, hp⟩
  · rw [hs]
    show store.sessions.map Session.entries = _
    rw [hsessions]
    rfl
  · rw [hv]
    rfl

end History

end ExactCalc
