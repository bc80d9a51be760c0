/-
  ExactCalc.Proofs.History.Loading — how a load can end, for every content of the file
  (`HistoryStore.load`, `decode_container`; see `ExactCalc.History.Store`).

  Bytes that hold no history are refused as corrupt or as of another version, whatever
  stage finds that; the one exception is a migration that derails (`decode_error`). A
  load fails in no other way on a file that can be read, and what cannot be read is told
  of, unless the path itself cannot be asked for (`load_system`).
-/

import ExactCalc.Proofs.History.Migration
import ExactCalc.Proofs.History.RoundTrip

namespace ExactCalc

namespace History

/-- A file of version 1 whose migration derails. -/
def Derails (bytes : Bytes) : Prop :=
  ∃ block text members, splitHeader bytes = .ok (1, block) ∧ textOf 1 block = .ok text ∧
    Json.read text.toList = some (.obj members) ∧ Migration.Derails members

variable {bytes : Bytes} {s : Supply}

/-! ## Decoding -/

theorem splitHeader_header {version : Nat} (h : version < 4294967296) (block : Bytes) :
    splitHeader (header version ++ block) = .ok (version, block) := by
  simp only [header, Zlib.fourBytes, List.cons_append, List.nil_append, splitHeader,
    Zlib.fromFour_fourBytes h]

theorem splitHeader_error {cause : LoadCause} (h : splitHeader bytes = .error cause) :
    cause.kind = .corrupt := by
  unfold splitHeader at h
  split at h
  · cases h
  · cases h
    rfl

theorem textOf_error {version : Nat} {block : Bytes} {cause : LoadCause}
    (h : textOf version block = .error cause) : cause.kind = .corrupt := by
  unfold textOf at h
  split at h
  · cases h
    rfl
  · split at h
    · cases h
    · cases h
      rfl

/-- Of the stages on the way to a payload, only the migration can end in another way. -/
theorem payloadOf_error {f : LoadFailure} (h : payloadOf bytes = .error f) :
    f.Refuses ∨ (f = .system .unnamedYear ∧ Derails bytes) := by
  unfold payloadOf at h
  split at h
  · rename_i cause hsplit
    cases h
    exact Or.inl ⟨cause, rfl, Or.inl (splitHeader_error hsplit)⟩
  rename_i version block hsplit
  split at h
  · cases h
    exact Or.inl ⟨_, rfl, Or.inr rfl⟩
  split at h
  · cases h
    exact Or.inl ⟨_, rfl, Or.inr rfl⟩
  split at h
  · rename_i cause htext
    cases h
    exact Or.inl ⟨cause, rfl, Or.inl (textOf_error htext)⟩
  rename_i text htext
  split at h
  · rename_i members hread
    rcases bind_eq_error.mp h with h | ⟨payload, -, h⟩
    · rcases migrate_error h with hrefuses | ⟨hversion, rfl, hderails⟩
      · exact Or.inl hrefuses
      · obtain rfl : version = 1 := Int.ofNat_inj.mp hversion
        exact Or.inr ⟨rfl, block, text, members, hsplit, htext, hread, hderails⟩
    · cases h
  · cases h
    exact Or.inl ⟨_, rfl, Or.inl rfl⟩
  · cases h
    exact Or.inl ⟨_, rfl, Or.inl rfl⟩

theorem payloadOf_of_derails (h : Derails bytes) :
    payloadOf bytes = .error (.system .unnamedYear) := by
  obtain ⟨block, text, members, hsplit, htext, hread, hderails⟩ := h
  unfold payloadOf
  simp only [hsplit, htext, hread]
  rw [if_neg (by decide), if_neg (by decide)]
  exact bind_of_error (migrate_of_derails hderails) _

/-- Bytes that are not decoded are refused, unless their migration derails. -/
theorem decode_error {f : LoadFailure} (h : (decode bytes s).1 = .error f) :
    f.Refuses ∨ (f = .system .unnamedYear ∧ Derails bytes) := by
  unfold decode at h
  split at h
  · rename_i g hpayload
    cases h
    exact payloadOf_error hpayload
  · split at h
    · cases h
    · cases h
      exact Or.inl ⟨_, rfl, Or.inl rfl⟩

theorem decode_of_derails (h : Derails bytes) (s : Supply) :
    decode bytes s = (.error (.system .unnamedYear), s) := by
  unfold decode
  rw [payloadOf_of_derails h]

theorem decode_system {f : SystemFailure} :
    (decode bytes s).1 = .error (.system f) ↔ f = .unnamedYear ∧ Derails bytes := by
  constructor
  · intro h
    rcases decode_error h with ⟨cause, hcause, -⟩ | ⟨hf, hderails⟩
    · cases hcause
    · cases hf
      exact ⟨rfl, hderails⟩
  · rintro ⟨rfl, h⟩
    rw [decode_of_derails h]

end History

/-! ## Loading -/

/-- Where a history file cannot be taken for one that is merely missing, unreadable or of no use:
the path cannot be asked for, or the file's migration derails. -/
def Disk.Untold (d : Disk) (p : Path) : Prop :=
  d.read p = .error .embeddedZero ∨ ∃ bytes, d.read p = .ok bytes ∧ History.Derails bytes

namespace Store

variable {s : Store} {d : Disk} {supply : Supply}

theorem mapError_ne_system {x : Except LoadError Store} {f : SystemFailure} :
    x.mapError LoadFailure.error ≠ .error (.system f) := by
  intro h
  cases x with
  | ok t => cases h
  | error e => cases h

/-- A load ends in a failure of the system exactly there. -/
theorem load_system : (∃ f, (s.load d supply).1 = .error (.system f)) ↔ d.Untold s.path := by
  unfold load content Disk.Untold
  cases hr : d.read s.path with
  | error e =>
    have hok : ¬ ∃ bytes, Except.error e = .ok bytes ∧ History.Derails bytes := by
      rintro ⟨bytes, h, -⟩
      cases h
    by_cases he : e = .embeddedZero
    · rw [he]
      exact iff_of_true ⟨_, rfl⟩ (Or.inl rfl)
    · refine iff_of_false ?_ (fun h => h.elim (fun h => he (Except.error.inj h)) hok)
      rintro ⟨f, hf⟩
      cases e with
      | embeddedZero => exact he rfl
      | notFound =>
        change (s.withHistory .empty none).mapError LoadFailure.error = _ at hf
        exact mapError_ne_system hf
      | inputOutput => cases hf
      | alreadyThere => cases hf
      | notAFolder => cases hf
      | isAFolder => cases hf
      | nameTooLong => cases hf
  | ok bytes =>
    have hiff : ((.ok bytes : Except DiskError Bytes) = .error .embeddedZero ∨
        ∃ b, (.ok bytes : Except DiskError Bytes) = .ok b ∧ History.Derails b) ↔
          History.Derails bytes := by
      constructor
      · rintro (h | ⟨b, h, hderails⟩)
        · cases h
        · cases h
          exact hderails
      · exact fun h => Or.inr ⟨bytes, rfl, h⟩
    rw [hiff]
    dsimp only
    by_cases hderails : History.Derails bytes
    · rw [History.decode_of_derails hderails]
      exact iff_of_true ⟨_, rfl⟩ hderails
    · refine iff_of_false ?_ hderails
      rintro ⟨f, hf⟩
      split at hf
      · rename_i g _ hg
        rcases History.decode_error (congrArg Prod.fst hg) with ⟨cause, rfl, -⟩ | ⟨-, h⟩
        · cases hf
        · exact hderails h
      · exact mapError_ne_system hf

/-- A store comes out of a load that is not to fail with the content of the file, or emptied and
with the reason; either way nothing in it is new. -/
theorem loadOrEmpty_cases (s : Store) (d : Disk) (supply : Supply) :
    (d.Untold s.path ∧ ∃ f, (s.loadOrEmpty d supply).1 = .error f) ∨
    (¬ d.Untold s.path ∧
      ((∃ s', (s.load d supply).1 = .ok s' ∧ (s.loadOrEmpty d supply).1 = .ok (s', none)) ∨
        ∃ e, (s.load d supply).1 = .error (.error e) ∧
          (s.loadOrEmpty d supply).1 = .ok (s.emptied, some e))) := by
  rw [← @load_system s d supply]
  unfold loadOrEmpty
  rcases s.load d supply with ⟨(e | f) | s', supply'⟩
  · refine Or.inr ⟨?_, Or.inr ⟨e, rfl, rfl⟩⟩
    rintro ⟨f, hf⟩
    cases hf
  · exact Or.inl ⟨⟨f, rfl⟩, f, rfl⟩
  · refine Or.inr ⟨?_, Or.inl ⟨s', rfl, rfl⟩⟩
    rintro ⟨f, hf⟩
    cases hf

end Store

end ExactCalc
