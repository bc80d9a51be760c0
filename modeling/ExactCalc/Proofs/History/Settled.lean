/-
  ExactCalc.Proofs.History.Settled — histories as they can be: sessions in the order of
  their start, and settled texts throughout (see `ExactCalc.History.Container`).

  Whatever a file holds, of either version, a history that is read from it is of this
  kind: a text of the file is settled as it is read, and each field takes its text from
  there, from a fresh identifier or from a rendered time.
-/

import ExactCalc.History.Container
import ExactCalc.Proofs.Failure
import ExactCalc.Proofs.Json.Settled

namespace ExactCalc

structure Entry.Settled (e : Entry) : Prop where
  id : e.id.Settled
  expression : e.expression.Settled
  error : ∀ t, e.error = some t → t.Settled

structure Session.Settled (s : Session) : Prop where
  id : s.id.Settled
  entries : ∀ e ∈ s.entries, e.Settled

/-- Sorted sessions, settled texts and names. -/
structure History.WellFormed (h : History) : Prop where
  sorted : h.sessions.Pairwise fun a b => a.startsBy b = true
  sessions : ∀ s ∈ h.sessions, s.Settled
  names : ∀ p ∈ h.vars.pairs, p.1.Settled

/-! ## Sessions in order -/

theorem Session.startsBy_trans (a b c : Session) (h : a.startsBy b = true) (h' : b.startsBy c = true) :
    a.startsBy c = true := by
  simp only [startsBy, decide_eq_true_eq] at h h' ⊢
  omega

theorem Session.startsBy_total (a b : Session) : (a.startsBy b || b.startsBy a) = true := by
  simp only [startsBy, Bool.or_eq_true, decide_eq_true_eq]
  omega

theorem Session.pairwise_sorted (l : List Session) :
    (Session.sorted l).Pairwise fun a b => a.startsBy b = true :=
  List.pairwise_mergeSort startsBy_trans startsBy_total l

theorem Session.sorted_of_pairwise {l : List Session}
    (h : l.Pairwise fun a b => a.startsBy b = true) : Session.sorted l = l :=
  List.mergeSort_of_pairwise h

theorem Session.mem_sorted {l : List Session} {s : Session} : s ∈ Session.sorted l ↔ s ∈ l :=
  (List.mergeSort_perm l startsBy).mem_iff

namespace Fields

open Text Json

/-! ## Fields -/

theorem checkedBy_eq_ok {α : Type} {read? : Json → Option α} {j : Json} {a : α}
    (h : checkedBy read? j = .ok a) : read? j = some a := by
  unfold checkedBy Checked.ofOption at h
  split at h
  · rename_i b hb
    rw [hb]
    exact congrArg some (Except.ok.inj h)
  · cases h

theorem settled_of_text? {j : Json} (hj : j.Settled) {s : Symbols} (h : text? j = some s) :
    s.Settled := by
  cases hj with
  | str hs =>
    cases h
    exact hs
  | _ => cases h

section

variable {members : Members} (hm : ∀ p ∈ members, Json.Settled p.2)

include hm

theorem settled_of_required {key : String} {s : Symbols}
    (h : required (checkedBy text?) members key = .ok s) : s.Settled := by
  unfold required at h
  split at h
  · rename_i j hj
    exact settled_of_text? (settled_of_member? hm hj) (checkedBy_eq_ok h)
  · cases h

/-- An identifier comes from the file or is a fresh one. -/
theorem settled_of_supplied {key : String} {supply : Supply} {s : Symbols}
    (h : (supplied (checkedBy text?) supplyId members key supply).1 = .ok s) : s.Settled := by
  unfold supplied at h
  split at h
  · rename_i j hj
    exact settled_of_text? (settled_of_member? hm hj) (checkedBy_eq_ok h)
  · cases h
    exact Symbols.settled_ofString _

theorem settled_of_nullable {key : String} {t : Option Symbols}
    (h : optional (nullable (checkedBy text?)) none members key = .ok t) :
    ∀ s, t = some s → s.Settled := by
  unfold optional at h
  split at h
  · rename_i j hj
    unfold nullable at h
    split at h
    · cases h
      exact nofun
    · intro s hs
      cases hc : checkedBy text? j with
      | ok u =>
        rw [hc] at h
        cases h
        cases hs
        exact settled_of_text? (settled_of_member? hm hj) (checkedBy_eq_ok hc)
      | error n =>
        rw [hc] at h
        cases h
  · cases h
    exact nofun

end

/-! ## Records -/

theorem settled_of_entry {j : Json} (hj : j.Settled) {e : Entry} {s s' : Supply}
    (h : entry j s = (.ok e, s')) : e.Settled := by
  cases hj with
  | obj hk hm =>
    rename_i members
    unfold entry at h
    dsimp only at h
    split at h
    · rename_i id t ex r err i hid ht hex hr herr hi ho
      cases h
      exact ⟨settled_of_supplied hm hid, settled_of_required hm hex, settled_of_nullable hm herr⟩
    · cases h
  | _ => cases h

/-- What holds of every item holds of a list of them. -/
theorem forall_of_items {α : Type} {read : Json → Supply → Checked α × Supply} {P : α → Prop} :
    ∀ {l : List Json} {s s' : Supply} {as : List α}, items read l s = (.ok as, s') →
      (∀ j ∈ l, ∀ {a : α} {s s' : Supply}, read j s = (.ok a, s') → P a) → ∀ a ∈ as, P a := by
  intro l
  induction l with
  | nil =>
    intro s s' as h _ a ha
    cases h
    cases ha
  | cons j rest ih =>
    intro s s' as h hread a ha
    unfold items at h
    dsimp only at h
    split at h
    · rename_i b bs hb hbs
      cases h
      rcases List.mem_cons.mp ha with rfl | ha
      · exact hread j List.mem_cons_self (Prod.ext hb rfl)
      · exact ih (Prod.ext hbs rfl) (fun k hk => hread k (List.mem_cons_of_mem _ hk)) a ha
    · cases h

theorem forall_of_listed {α : Type} {read : Json → Supply → Checked α × Supply} {P : α → Prop}
    {members : Members} (hm : ∀ p ∈ members, Json.Settled p.2) {key : String} {s : Supply}
    {as : List α} (h : (listed read members key s).1 = .ok as)
    (hread : ∀ {j : Json}, j.Settled → ∀ {a : α} {s s' : Supply}, read j s = (.ok a, s') → P a) :
    ∀ a ∈ as, P a := by
  unfold listed at h
  split at h
  · rename_i l hl
    have hitems := settled_of_member? hm hl
    cases hitems with
    | arr hv => exact forall_of_items (Prod.ext h rfl) fun j hj => hread (hv j hj)
  · cases h
  · cases h
    exact fun a ha => absurd ha List.not_mem_nil

theorem settled_of_session {j : Json} (hj : j.Settled) {a : Session} {s s' : Supply}
    (h : session j s = (.ok a, s')) : a.Settled := by
  cases hj with
  | obj hk hm =>
    unfold session at h
    dsimp only at h
    split at h
    · rename_i id t es hid ht hes ho
      cases h
      exact ⟨settled_of_supplied hm hid, forall_of_listed hm hes settled_of_entry⟩
    · cases h
  | _ => cases h

/-- Names of variables are texts of the file. -/
theorem settled_of_namedNumbers : ∀ {pairs : List (Json × Json)}
    {l : List (Symbols × StoredNumber)}, (∀ p ∈ pairs, Json.Settled p.1) →
    namedNumbers pairs = .ok l → ∀ p ∈ l, p.1.Settled := by
  intro pairs
  induction pairs with
  | nil =>
    intro l _ h p hp
    cases h
    cases hp
  | cons q rest ih =>
    intro l hq h p hp
    obtain ⟨k, j⟩ := q
    unfold namedNumbers at h
    dsimp only at h
    split at h
    · rename_i a as ha has
      cases h
      rcases List.mem_cons.mp hp with rfl | hp
      · unfold namedNumber at ha
        dsimp only at ha
        split at ha
        · rename_i name v hname _
          cases ha
          exact settled_of_text? (hq (k, j) List.mem_cons_self) (checkedBy_eq_ok hname)
        · cases ha
      · exact ih (fun r hr => hq r (List.mem_cons_of_mem _ hr)) has p hp
    · cases h

theorem settled_of_numberTable {pairs : List (Json × Json)} (hp : ∀ p ∈ pairs, Json.Settled p.1)
    {t : Table Symbols StoredNumber} (h : numberTable pairs = .ok t) :
    ∀ p ∈ t.pairs, p.1.Settled := by
  unfold numberTable at h
  cases hl : namedNumbers pairs with
  | error n =>
    rw [hl] at h
    cases h
  | ok l =>
    rw [hl] at h
    cases h
    exact fun p hm => settled_of_namedNumbers hp hl p (Table.mem_of_mem_ofList hm)

theorem settled_of_variablesField {members : Members} (hm : ∀ p ∈ members, Json.Settled p.2)
    {t : Table Symbols StoredNumber} (h : variablesField members = .ok t) :
    ∀ p ∈ t.pairs, p.1.Settled := by
  unfold variablesField at h
  split at h
  · rename_i l hl
    cases settled_of_member? hm hl with
    | obj hk _ =>
      refine settled_of_numberTable (fun p hp => ?_) h
      obtain ⟨q, hq, rfl⟩ := List.mem_map.mp hp
      exact .str (hk q hq)
  · cases h
  · cases h
    exact fun p hp => absurd hp List.not_mem_nil

end Fields

namespace Migration

open Text Json

/-! ## Version 1 -/

theorem settled_of_field {members : List (Symbols × Json)} (hm : ∀ p ∈ members, Json.Settled p.2)
    {key : String} {j : Json} (h : field members key = .ok j) : j.Settled := by
  unfold field at h
  split at h
  · rename_i k hk
    cases h
    exact settled_of_member? hm hk
  · cases h

theorem settled_of_membersOf {j : Json} (hj : j.Settled) {members : List (Symbols × Json)}
    (h : membersOf j = .ok members) : ∀ p ∈ members, Json.Settled p.2 := by
  cases hj with
  | obj _ hv =>
    cases h
    exact hv
  | _ => cases h

theorem settled_of_listField {members : List (Symbols × Json)}
    (hm : ∀ p ∈ members, Json.Settled p.2) {key : String} {l : List Json}
    (h : listField members key = .ok l) : ∀ j ∈ l, j.Settled := by
  have hnil : ∀ j ∈ ([] : List Json), j.Settled := fun _ hj => absurd hj List.not_mem_nil
  unfold listField at h
  split at h
  · rename_i j hj
    unfold itemsOf at h
    split at h
    · cases h
      cases settled_of_member? hm hj with
      | arr hv => exact hv
    · cases h
      exact hnil
    · cases h
      exact hnil
    · cases h
  · cases h
    exact hnil

/-- Objects of settled values under fixed keys are settled. -/
theorem settled_object {l : List (String × Json)} (h : ∀ p ∈ l, Json.Settled p.2) :
    Json.Settled (.obj (l.map fun p => (.ofString p.1, p.2))) := by
  refine .obj (fun p hp => ?_) (fun p hp => ?_)
  · obtain ⟨q, -, rfl⟩ := List.mem_map.mp hp
    exact Symbols.settled_ofString q.1
  · obtain ⟨q, hq, rfl⟩ := List.mem_map.mp hp
    exact h q hq

theorem settled_of_quotient {members : List (Symbols × Json)}
    (hm : ∀ p ∈ members, Json.Settled p.2) {j : Json} (h : quotient members = .ok j) :
    j.Settled := by
  obtain ⟨n, hn, h⟩ := bind_eq_ok.mp h
  obtain ⟨d, hd, h⟩ := bind_eq_ok.mp h
  cases h
  refine settled_object (l := [("numerator", n), ("denominator", d), ("inexact", .bool false)]) ?_
  simp only [List.forall_mem_cons]
  exact ⟨settled_of_field hm hn, settled_of_field hm hd, .bool false,
    fun p hp => absurd hp List.not_mem_nil⟩

theorem settled_of_putKey {k v : Json} {pairs : List (Json × Json)} (hk : k.Settled)
    (hp : ∀ p ∈ pairs, Json.Settled p.1) : ∀ p ∈ putKey k v pairs, Json.Settled p.1 := by
  induction pairs with
  | nil =>
    intro p h
    rw [List.mem_singleton.mp h]
    exact hk
  | cons q rest ih =>
    have hrest : ∀ p ∈ rest, Json.Settled p.1 := fun p h => hp p (List.mem_cons_of_mem _ h)
    intro p h
    unfold putKey at h
    split at h
    · rcases List.mem_cons.mp h with rfl | h
      · exact hp q List.mem_cons_self
      · exact hrest p h
    · rcases List.mem_cons.mp h with rfl | h
      · exact hp q List.mem_cons_self
      · exact ih hrest p h

theorem settled_of_addVariable {pairs pairs' : List (Json × Json)} {j : Json}
    (hp : ∀ p ∈ pairs, Json.Settled p.1) (hj : j.Settled) (h : addVariable pairs j = .ok pairs') :
    ∀ p ∈ pairs', Json.Settled p.1 := by
  obtain ⟨members, hm, h⟩ := bind_eq_ok.mp h
  obtain ⟨id, hid, h⟩ := bind_eq_ok.mp h
  obtain ⟨value, -, h⟩ := bind_eq_ok.mp h
  split at h
  · cases h
    exact settled_of_putKey (settled_of_field (settled_of_membersOf hj hm) hid) hp
  · cases h

theorem settled_of_foldlM {l : List Json} : ∀ {pairs pairs' : List (Json × Json)},
    (∀ j ∈ l, j.Settled) → (∀ p ∈ pairs, Json.Settled p.1) →
    l.foldlM addVariable pairs = .ok pairs' → ∀ p ∈ pairs', Json.Settled p.1 := by
  induction l with
  | nil =>
    intro pairs pairs' _ hp h
    cases h
    exact hp
  | cons j l ih =>
    intro pairs pairs' hl hp h
    rw [List.foldlM_cons] at h
    obtain ⟨middle, hmiddle, h⟩ := bind_eq_ok.mp h
    exact ih (fun k hk => hl k (List.mem_cons_of_mem _ hk))
      (settled_of_addVariable hp (hl j List.mem_cons_self) hmiddle) h

theorem settled_of_mapM {f : Json → Step Json} (hf : ∀ {j k : Json}, j.Settled → f j = .ok k →
    k.Settled) : ∀ {l l' : List Json}, (∀ j ∈ l, j.Settled) → l.mapM f = .ok l' →
    ∀ j ∈ l', j.Settled := by
  intro l
  induction l with
  | nil =>
    intro l' _ h
    cases h
    exact fun j hj => absurd hj List.not_mem_nil
  | cons k l ih =>
    intro l' hl h
    rw [List.mapM_cons] at h
    obtain ⟨k', hk, h⟩ := bind_eq_ok.mp h
    obtain ⟨rest, hrest, h⟩ := bind_eq_ok.mp h
    cases h
    intro j hj
    rcases List.mem_cons.mp hj with rfl | hj
    · exact hf (hl k List.mem_cons_self) hk
    · exact ih (fun m hm => hl m (List.mem_cons_of_mem _ hm)) hrest j hj

theorem settled_of_entry {time j k : Json} (ht : time.Settled) (hj : j.Settled)
    (h : entry time j = .ok k) : k.Settled := by
  obtain ⟨members, hm, h⟩ := bind_eq_ok.mp h
  obtain ⟨id, hid, h⟩ := bind_eq_ok.mp h
  obtain ⟨ex, hex, h⟩ := bind_eq_ok.mp h
  obtain ⟨result, hr, h⟩ := bind_eq_ok.mp h
  cases h
  have hmembers := settled_of_membersOf hj hm
  refine settled_object (l := [("entry_id", id), ("created_at", time), ("expression", ex),
    ("result", result), ("error", .null), ("inexact", .bool false)]) ?_
  simp only [List.forall_mem_cons]
  exact ⟨settled_of_field hmembers hid, ht, settled_of_field hmembers hex,
    settled_of_quotient hmembers hr, .null, .bool false, fun p hp => absurd hp List.not_mem_nil⟩

theorem settled_of_session {j k : Json} (hj : j.Settled) (h : session j = .ok k) : k.Settled := by
  obtain ⟨members, hm, h⟩ := bind_eq_ok.mp h
  obtain ⟨start, -, h⟩ := bind_eq_ok.mp h
  have hmembers := settled_of_membersOf hj hm
  split at h
  · obtain ⟨stamp, -, h⟩ := bind_eq_ok.mp h
    obtain ⟨found, hfound, h⟩ := bind_eq_ok.mp h
    obtain ⟨entries, hentries, h⟩ := bind_eq_ok.mp h
    obtain ⟨id, hid, h⟩ := bind_eq_ok.mp h
    cases h
    have htime := settled_ofString (String.ofList stamp.renderFull)
    have hall := settled_of_mapM (settled_of_entry htime) (settled_of_listField hmembers hfound)
      hentries
    refine settled_object (l := [("session_id", id), ("started_at", _), ("entries", .arr entries)]) ?_
    simp only [List.forall_mem_cons]
    exact ⟨settled_of_field hmembers hid, htime, .arr hall, fun p hp => absurd hp List.not_mem_nil⟩
  · cases h

end Migration

/-! ## Payloads -/

/-- All texts of a payload are settled. -/
def Payload.Settled : Payload → Prop
  | .asFound j => j.Settled
  | .migrated vars sessions => (∀ p ∈ vars, Json.Settled p.1) ∧ ∀ j ∈ sessions, j.Settled

theorem settled_of_migrate {version : Int} {j : Json} (hj : j.Settled) {payload : Payload}
    (h : migrate version j = .ok payload) : payload.Settled := by
  unfold migrate at h
  split at h
  · cases h
    exact hj
  split at h
  · split at h
    · rename_i found hfound
      cases h
      obtain ⟨members, hm, hfound⟩ := bind_eq_ok.mp hfound
      obtain ⟨vars, hvars, hfound⟩ := bind_eq_ok.mp hfound
      obtain ⟨pairs, hpairs, hfound⟩ := bind_eq_ok.mp hfound
      obtain ⟨list, hlist, hfound⟩ := bind_eq_ok.mp hfound
      obtain ⟨sessions, hsessions, hfound⟩ := bind_eq_ok.mp hfound
      cases hfound
      have hmembers := Migration.settled_of_membersOf hj hm
      exact ⟨Migration.settled_of_foldlM (Migration.settled_of_listField hmembers hvars)
        (fun p hp => absurd hp List.not_mem_nil) hpairs,
        Migration.settled_of_mapM Migration.settled_of_session
          (Migration.settled_of_listField hmembers hlist) hsessions⟩
    · cases h
    · cases h
  · cases h

namespace History

theorem wellFormed_ofParts {vars : Checked (Table Text.Symbols StoredNumber)}
    {sessions : Checked (List Session)} {others : Nat} {h : History}
    (hp : ofParts vars sessions others = .ok h)
    (hvars : ∀ t, vars = .ok t → ∀ p ∈ t.pairs, p.1.Settled)
    (hsessions : ∀ l, sessions = .ok l → ∀ s ∈ l, s.Settled) : h.WellFormed := by
  unfold ofParts at hp
  split at hp
  · cases hp
    exact ⟨Session.pairwise_sorted _, fun s hs => hsessions _ rfl s (Session.mem_sorted.mp hs),
      hvars _ rfl⟩
  · cases hp

theorem wellFormed_ofPayload {payload : Payload} (hp : payload.Settled) {s s' : Supply} {h : History}
    (hd : ofPayload payload s = (.ok h, s')) : h.WellFormed := by
  unfold ofPayload at hd
  split at hd
  · rename_i pairs list
    dsimp only at hd
    refine wellFormed_ofParts (Prod.mk.inj hd).1 (fun t ht => Fields.settled_of_numberTable hp.1 ht) ?_
    exact fun l hl => Fields.forall_of_items (Prod.ext hl rfl)
      fun j hj => Fields.settled_of_session (hp.2 j hj)
  · rename_i members
    dsimp only at hd
    cases hp with
    | obj hk hv =>
      replace hd := (Prod.mk.inj hd).1
      cases hparts : ofParts (Fields.variablesField members)
          (Fields.listed Fields.session members "sessions" s).1
          (Fields.strangers ["format_version", "variables", "sessions"] members) with
      | error n =>
        rw [hparts] at hd
        cases hd
      | ok g =>
        rw [hparts] at hd
        cases hd
        exact wellFormed_ofParts hparts (fun t ht => Fields.settled_of_variablesField hv ht)
          fun l hl => Fields.forall_of_listed hv hl Fields.settled_of_session
  · cases hd

theorem settled_of_payloadOf {bytes : Bytes} {version : Nat} {payload : Payload}
    (h : payloadOf bytes = .ok (version, payload)) : payload.Settled := by
  unfold payloadOf at h
  dsimp only at h
  split at h
  · cases h
  split at h
  · cases h
  split at h
  · cases h
  split at h
  · cases h
  split at h
  · rename_i members hread
    obtain ⟨p, hp, h⟩ := bind_eq_ok.mp h
    cases h
    exact settled_of_migrate (Json.settled_of_read hread) hp
  · cases h
  · cases h

/-- A history that is read from a file is well-formed. -/
theorem wellFormed_of_decode {bytes : Bytes} {s s' : Supply} {h : History}
    (hd : decode bytes s = (.ok h, s')) : h.WellFormed := by
  unfold decode at hd
  split at hd
  · cases hd
  rename_i version payload hpayload
  split at hd
  · rename_i g t hg
    cases hd
    exact wellFormed_ofPayload (settled_of_payloadOf hpayload) hg
  · cases hd

end History

end ExactCalc
