/-
  ExactCalc.Proofs.History.Migration — which payloads of version 1 the migration derails
  on (`migrate_payload`; see `ExactCalc.History.Migration`).

  The start of a session is a count of seconds. Where the system's clock can count to it
  but cannot name its year, the system refuses in a way of its own, and nothing turns
  that into a failure that a user is told of. No other step of the migration can end so
  (`Named`), which leaves the first session with such a start
  (`fromVersion1_unnamedYear`).
-/

import ExactCalc.History.Migration
import ExactCalc.Proofs.Failure

namespace ExactCalc

/-! ## Years -/

theorem Date.ofDays?_before {days : Int} (h : days < -Date.epochDay) : Date.ofDays? days = none := by
  unfold ofDays?
  exact if_pos (by omega)

/-- A year has at most 366 days, so late days are in late years. -/
theorem Date.le_yearOf (day : Nat) : day ≤ 366 * (yearOf day).1 := by
  unfold yearOf
  dsimp only
  omega

theorem Date.ofDays?_after {days : Int} (h : 366 * 9999 < days) : Date.ofDays? days = none := by
  unfold ofDays?
  dsimp only
  rw [if_neg (by omega), of?, dif_neg]
  rintro ⟨⟨-, hyear⟩, -⟩
  have hday := le_yearOf (days + epochDay).toNat
  omega

namespace Migration

/-- Seconds that the clock counts to, of a year that the system cannot name. -/
def Unnamed (n : Int) : Prop :=
  (-clockBound ≤ n ∧ n < clockBound) ∧ (n < namedYears.1 ∨ namedYears.2 < n)

instance (n : Int) : Decidable (Unnamed n) := inferInstanceAs (Decidable (_ ∧ _))

theorem startOf_unnamedYear {n : Int} : startOf n = .error .unnamedYear ↔ Unnamed n := by
  have hepoch : Unnamed n → Stamp.ofEpoch? n 0 = none := by
    rintro ⟨-, hn⟩
    have hdays : Date.ofDays? (n / 86400) = none := by
      rcases hn with hn | hn
      · exact Date.ofDays?_before (by simp only [namedYears, Date.epochDay] at *; omega)
      · exact Date.ofDays?_after (by simp only [namedYears] at hn; omega)
    rw [Stamp.ofEpoch?, hdays]
    rfl
  constructor
  · intro h
    unfold startOf at h
    split at h
    · cases h
    · split at h
      · cases h
      · split at h
        · rename_i hclock hyear
          exact ⟨by omega, hyear⟩
        · cases h
  · intro h
    rw [startOf, hepoch h]
    dsimp only
    rw [if_neg (by have := h.1; omega), if_pos h.2]

/-! ## Steps that cannot end so -/

/-- No unnamed year stops the step. -/
def Named {α : Type} (x : Step α) : Prop := FailsWith (· ≠ .unnamedYear) x

theorem named_ok {α : Type} (a : α) : Named (.ok a) := failsWith_ok a

theorem named_malformed {α : Type} : Named (.error .malformed : Step α) :=
  failsWith_error (by decide)

theorem Named.ne {α : Type} {x : Step α} (h : Named x) : x ≠ .error .unnamedYear :=
  fun hx => h _ hx rfl

theorem named_itemsOf (j : Json) : Named (itemsOf j) := by
  unfold itemsOf
  split
  · exact named_ok _
  · exact named_ok _
  · exact named_ok _
  · exact named_malformed

theorem named_listField (members : List (Text.Symbols × Json)) (key : String) :
    Named (listField members key) := by
  unfold listField
  split
  · exact named_itemsOf _
  · exact named_ok _

theorem named_membersOf (j : Json) : Named (membersOf j) := by
  unfold membersOf
  split
  · exact named_ok _
  · exact named_malformed

theorem named_field (members : List (Text.Symbols × Json)) (key : String) :
    Named (field members key) := by
  unfold field
  split
  · exact named_ok _
  · exact named_malformed

theorem named_quotient (members : List (Text.Symbols × Json)) : Named (quotient members) :=
  FailsWith.bind (named_field members _) fun _ => FailsWith.bind (named_field members _) fun _ =>
    named_ok _

theorem named_addVariable (pairs : List (Json × Json)) (j : Json) : Named (addVariable pairs j) := by
  refine FailsWith.bind (named_membersOf j) fun members => FailsWith.bind (named_field members _)
    fun id => FailsWith.bind (named_quotient members) fun value => ?_
  split
  · exact named_ok _
  · exact named_malformed

theorem named_entry (time j : Json) : Named (entry time j) :=
  FailsWith.bind (named_membersOf j) fun members => FailsWith.bind (named_field members _) fun _ =>
    FailsWith.bind (named_field members _) fun _ => FailsWith.bind (named_quotient members) fun _ =>
      named_ok _

/-! ## Sessions -/

/-- A session with a start in an unnamed year. -/
def StartsUnnamed (j : Json) : Prop :=
  ∃ members start n, j = .obj members ∧ Json.member? members "session_start" = some start ∧
    seconds? start = some n ∧ Unnamed n

theorem membersOf_eq_ok {j : Json} {members : List (Text.Symbols × Json)} :
    membersOf j = .ok members ↔ j = .obj members := by
  constructor
  · intro h
    unfold membersOf at h
    split at h
    · cases h
      rfl
    · cases h
  · rintro rfl
    rfl

theorem field_eq_ok {members : List (Text.Symbols × Json)} {key : String} {j : Json} :
    field members key = .ok j ↔ Json.member? members key = some j := by
  unfold field
  cases Json.member? members key with
  | none =>
    refine iff_of_false (fun h => ?_) (fun h => ?_)
    · cases h
    · cases h
  | some k => exact ⟨fun h => by cases h; rfl, fun h => by cases h; rfl⟩

/-- The start is looked at before the entries and the identifier. -/
theorem session_unnamedYear {j : Json} : session j = .error .unnamedYear ↔ StartsUnnamed j := by
  have hrest : ∀ members (stamp : Stamp), Named do
      let time := Json.ofString (String.ofList stamp.renderFull)
      let entries ← (← listField members "entries").mapM (entry time)
      let id ← field members "session_uuid"
      return Json.obj [(.ofString "session_id", id), (.ofString "started_at", time),
        (.ofString "entries", .arr entries)] := fun members stamp =>
    FailsWith.bind (named_listField members _) fun _ =>
      FailsWith.bind (failsWith_mapM (named_entry _) _) fun _ =>
        FailsWith.bind (named_field members _) fun _ => named_ok _
  constructor
  · intro h
    rcases bind_eq_error.mp h with h | ⟨members, hm, h⟩
    · exact absurd h (named_membersOf j).ne
    rcases bind_eq_error.mp h with h | ⟨start, hs, h⟩
    · exact absurd h (named_field members _).ne
    cases hn : seconds? start with
    | none =>
      rw [hn] at h
      cases h
    | some n =>
      rw [hn] at h
      rcases bind_eq_error.mp h with h | ⟨stamp, -, h⟩
      · exact ⟨members, start, n, membersOf_eq_ok.mp hm, field_eq_ok.mp hs, hn,
          startOf_unnamedYear.mp h⟩
      · exact absurd h (hrest members stamp).ne
  · rintro ⟨members, start, n, rfl, hs, hn, hu⟩
    refine bind_of_ok rfl (bind_of_ok (field_eq_ok.mpr hs) ?_)
    rw [hn]
    exact bind_of_error (startOf_unnamedYear.mpr hu) _

/-! ## Payloads -/

/-- A payload whose variables, and sessions up to some, are carried over, and then comes a session
with a start in an unnamed year. -/
def Derails (members : List (Text.Symbols × Json)) : Prop :=
  ∃ vars pairs before x after, listField members "variables" = .ok vars ∧
    vars.foldlM addVariable [] = .ok pairs ∧
    listField members "sessions" = .ok (before ++ x :: after) ∧
    (∀ y ∈ before, ∃ k, session y = .ok k) ∧ StartsUnnamed x

theorem fromVersion1_unnamedYear {members : List (Text.Symbols × Json)} :
    fromVersion1 (.obj members) = .error .unnamedYear ↔ Derails members := by
  constructor
  · intro h
    rcases bind_eq_error.mp h with h | ⟨members', hm, h⟩
    · cases h
    cases hm
    rcases bind_eq_error.mp h with h | ⟨vars, hvars, h⟩
    · exact absurd h (named_listField members _).ne
    rcases bind_eq_error.mp h with h | ⟨pairs, hpairs, h⟩
    · exact absurd h (Named.ne (failsWith_foldlM named_addVariable vars []))
    rcases bind_eq_error.mp h with h | ⟨list, hlist, h⟩
    · exact absurd h (named_listField members _).ne
    rcases bind_eq_error.mp h with h | ⟨sessions, -, h⟩
    · obtain ⟨before, x, after, rfl, hbefore, hx⟩ := mapM_eq_error.mp h
      exact ⟨vars, pairs, before, x, after, hvars, hpairs, hlist, hbefore, session_unnamedYear.mp hx⟩
    · cases h
  · rintro ⟨vars, pairs, before, x, after, hvars, hpairs, hlist, hbefore, hx⟩
    refine bind_of_ok rfl (bind_of_ok hvars (bind_of_ok hpairs (bind_of_ok hlist (bind_of_error ?_ _))))
    exact mapM_eq_error.mpr ⟨before, x, after, rfl, hbefore, session_unnamedYear.mpr hx⟩

end Migration

/-- Says that the content is corrupt, or of a version that is not supported. -/
def LoadFailure.Refuses (f : LoadFailure) : Prop :=
  ∃ cause, f = loadFailure cause ∧ (cause.kind = .corrupt ∨ cause.kind = .incompatibleVersion)

/-- A migration that fails refuses the content, unless it is one from version 1 that derails. -/
theorem migrate_error {version : Int} {members : List (Text.Symbols × Json)} {f : LoadFailure}
    (h : migrate version (.obj members) = .error f) :
    f.Refuses ∨ (version = 1 ∧ f = .system .unnamedYear ∧ Migration.Derails members) := by
  unfold migrate at h
  split at h
  · cases h
  split at h
  · rename_i hversion
    split at h
    · cases h
    · cases h
      exact Or.inl ⟨_, rfl, Or.inl rfl⟩
    · rename_i hstep
      cases h
      exact Or.inr ⟨hversion, rfl, Migration.fromVersion1_unnamedYear.mp hstep⟩
  · cases h
    exact Or.inl ⟨_, rfl, Or.inr rfl⟩

theorem migrate_of_derails {members : List (Text.Symbols × Json)} (h : Migration.Derails members) :
    migrate 1 (.obj members) = .error (.system .unnamedYear) := by
  unfold migrate
  rw [if_neg (by decide), if_pos rfl, Migration.fromVersion1_unnamedYear.mpr h]

end ExactCalc
