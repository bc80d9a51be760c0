/-
  ExactCalc.Proofs.History.Order — the order in which sessions stand
  (`HistoryContainer.sort_sessions`; see `ExactCalc.History.Basic`).

  It is that of their starts, and sessions that start together stand as they came. These
  two say all (`eq_of_startingAt`), so it makes no difference whether what was there had
  been sorted before (`sorted_sorted_append`), and a session that is added stands behind
  all that do not start after it (`sorted_concat`).
-/

import ExactCalc.Proofs.History.Settled

namespace ExactCalc.Session

variable {l l' : List Session} {a : Session}

/-- The sessions that start at an instant. -/
def startingAt (t : Int) (l : List Session) : List Session := l.filter (·.startedAt.instant = t)

/-- The second list holds the sessions of the first one in the order of their starts, and equal
starts in the order of the first one. -/
structure InOrder (l l' : List Session) : Prop where
  pairwise : l'.Pairwise fun a b => a.startsBy b = true
  stable : ∀ t, startingAt t l' = startingAt t l

/-- What stands before a session and what stands after it: equal starts are before. -/
def Placed (before : List Session) (a : Session) (after : List Session) : Prop :=
  (∀ b ∈ before, b.startedAt.instant ≤ a.startedAt.instant) ∧
    ∀ b ∈ after, a.startedAt.instant < b.startedAt.instant

theorem startsBy_iff {a b : Session} :
    a.startsBy b = true ↔ a.startedAt.instant ≤ b.startedAt.instant := decide_eq_true_iff

theorem startingAt_append (t : Int) (l l' : List Session) :
    startingAt t (l ++ l') = startingAt t l ++ startingAt t l' := List.filter_append _ _

theorem startingAt_cons (t : Int) (a : Session) (l : List Session) :
    startingAt t (a :: l) =
      if a.startedAt.instant = t then a :: startingAt t l else startingAt t l := by
  by_cases h : a.startedAt.instant = t
  · rw [if_pos h]
    exact List.filter_cons_of_pos (by simpa using h)
  · rw [if_neg h]
    exact List.filter_cons_of_neg (by simpa using h)

theorem mem_startingAt {t : Int} : a ∈ startingAt t l ↔ a ∈ l ∧ a.startedAt.instant = t := by
  simp [startingAt]

/-! ## Sorting -/

/-- Sessions that start together are sorted as they stand, and so sorting leaves them. -/
theorem inOrder_sorted (l : List Session) : InOrder l (sorted l) where
  pairwise := pairwise_sorted l
  stable t := by
    have htogether : (startingAt t l).Pairwise fun a b => a.startsBy b = true := by
      refine List.pairwise_of_forall_mem_list fun a ha b hb => startsBy_iff.mpr ?_
      exact Int.le_of_eq ((mem_startingAt.mp ha).2.trans (mem_startingAt.mp hb).2.symm)
    have hsub : (startingAt t l).Sublist (sorted l) :=
      List.sublist_mergeSort startsBy_trans startsBy_total htogether List.filter_sublist
    have hfiltered := hsub.filter (·.startedAt.instant = t)
    rw [startingAt, List.filter_filter] at hfiltered
    simp only [Bool.and_self] at hfiltered
    have hlength := ((List.mergeSort_perm l startsBy).filter (·.startedAt.instant = t)).length_eq
    exact (hfiltered.eq_of_length hlength.symm).symm

theorem mem_of_startingAt (heq : ∀ t, startingAt t l = startingAt t l') (ha : a ∈ l) : a ∈ l' := by
  have hmem : a ∈ startingAt a.startedAt.instant l := mem_startingAt.mpr ⟨ha, rfl⟩
  rw [heq] at hmem
  exact (mem_startingAt.mp hmem).1

/-- The first session of a sorted list starts no later than any of them. -/
theorem head_le {b : Session} (h : (b :: l).Pairwise fun a b => a.startsBy b = true)
    (ha : a ∈ b :: l) : b.startedAt.instant ≤ a.startedAt.instant := by
  rcases List.mem_cons.mp ha with rfl | ha
  · exact Int.le_refl _
  · exact startsBy_iff.mp ((List.pairwise_cons.mp h).1 a ha)

/-- Two sorted lists with the same sessions at every instant are one. -/
theorem eq_of_startingAt (h : l.Pairwise fun a b => a.startsBy b = true)
    (h' : l'.Pairwise fun a b => a.startsBy b = true)
    (heq : ∀ t, startingAt t l = startingAt t l') : l = l' := by
  induction l generalizing l' with
  | nil =>
    refine (List.eq_nil_iff_forall_not_mem.mpr fun b hb => ?_).symm
    exact absurd (mem_of_startingAt (fun t => (heq t).symm) hb) List.not_mem_nil
  | cons a l ih =>
    cases l' with
    | nil => exact absurd (mem_of_startingAt heq List.mem_cons_self) List.not_mem_nil
    | cons b l' =>
      -- each head is among the sessions of the other list, so neither starts before the other
      have hba := head_le h' (mem_of_startingAt heq List.mem_cons_self)
      have hab := head_le h (mem_of_startingAt (fun t => (heq t).symm) List.mem_cons_self)
      have htogether : a.startedAt.instant = b.startedAt.instant := Int.le_antisymm hab hba
      have hheads := heq a.startedAt.instant
      rw [startingAt_cons, startingAt_cons, if_pos rfl, if_pos htogether.symm] at hheads
      obtain ⟨rfl, -⟩ := List.cons.inj hheads
      congr 1
      refine ih h.of_cons h'.of_cons fun t => ?_
      have ht := heq t
      rw [startingAt_cons, startingAt_cons] at ht
      by_cases hat : a.startedAt.instant = t
      · rw [if_pos hat, if_pos hat] at ht
        exact (List.cons.inj ht).2
      · rw [if_neg hat, if_neg hat] at ht
        exact ht

theorem InOrder.eq_sorted (h : InOrder l l') : l' = sorted l :=
  eq_of_startingAt h.pairwise (pairwise_sorted l) fun t =>
    (h.stable t).trans ((inOrder_sorted l).stable t).symm

/-- What was sorted before goes to the same places. -/
theorem sorted_sorted_append (l l' : List Session) : sorted (sorted l ++ l') = sorted (l ++ l') := by
  apply InOrder.eq_sorted
  refine ⟨pairwise_sorted _, fun t => ?_⟩
  rw [(inOrder_sorted _).stable, startingAt_append, startingAt_append, (inOrder_sorted l).stable]

/-- A change that moves no start moves no session. -/
theorem sorted_map {f : Session → Session} (hf : ∀ a, (f a).startedAt = a.startedAt)
    (l : List Session) : sorted (l.map f) = (sorted l).map f := by
  refine (List.map_mergeSort fun a _ b _ => ?_).symm
  unfold startsBy
  rw [hf, hf]

/-- Two sessions that came the wrong way round. -/
theorem sorted_pair {a b : Session} (h : b.startedAt.instant < a.startedAt.instant) :
    sorted [a, b] = [b, a] := by
  refine (InOrder.eq_sorted ⟨?_, fun t => ?_⟩).symm
  · exact List.pairwise_pair.mpr (startsBy_iff.mpr (Int.le_of_lt h))
  · simp only [startingAt_cons]
    by_cases hb : b.startedAt.instant = t
    · have ha : ¬ a.startedAt.instant = t := by omega
      rw [if_pos hb, if_neg ha, if_neg ha, if_pos hb]
    · rw [if_neg hb, if_neg hb]

/-! ## One more session -/

/-- A sorted list has a place for a session: behind all that do not start after it. -/
theorem exists_place (h : l.Pairwise fun a b => a.startsBy b = true) (a : Session) :
    ∃ before after, l = before ++ after ∧ Placed before a after := by
  induction l with
  | nil => exact ⟨[], [], rfl, by simp [Placed]⟩
  | cons c l ih =>
    obtain ⟨hc, hl⟩ := List.pairwise_cons.mp h
    by_cases hle : c.startedAt.instant ≤ a.startedAt.instant
    · obtain ⟨before, after, rfl, hbefore, hafter⟩ := ih hl
      exact ⟨c :: before, after, rfl, List.forall_mem_cons.mpr ⟨hle, hbefore⟩, hafter⟩
    · refine ⟨[], c :: l, rfl, fun b hb => absurd hb List.not_mem_nil, ?_⟩
      refine List.forall_mem_cons.mpr ⟨by omega, fun b hb => ?_⟩
      have := startsBy_iff.mp (hc b hb)
      omega

/-- A session that is added takes that place, and the others stand as they did. -/
theorem sorted_concat (h : l.Pairwise fun a b => a.startsBy b = true) (a : Session) :
    ∃ before after, l = before ++ after ∧ sorted (l ++ [a]) = before ++ a :: after ∧
      Placed before a after := by
  obtain ⟨before, after, rfl, hbefore, hafter⟩ := exists_place h a
  refine ⟨before, after, rfl, ?_, hbefore, hafter⟩
  obtain ⟨hb, ha, hba⟩ := List.pairwise_append.mp h
  refine (InOrder.eq_sorted ⟨?_, fun t => ?_⟩).symm
  · refine List.pairwise_append.mpr
      ⟨hb, List.pairwise_cons.mpr ⟨fun c hc => ?_, ha⟩, fun b hb c hc => ?_⟩
    · exact startsBy_iff.mpr (Int.le_of_lt (hafter c hc))
    · rcases List.mem_cons.mp hc with rfl | hc
      · exact startsBy_iff.mpr (hbefore b hb)
      · exact hba b hb c hc
  · simp only [startingAt_append, startingAt_cons]
    by_cases hat : a.startedAt.instant = t
    · have hnone : startingAt t after = [] := by
        refine List.filter_eq_nil_iff.mpr fun c hc => ?_
        have := hafter c hc
        simp only [decide_eq_true_eq]
        omega
      rw [if_pos hat, if_pos hat, hnone, List.append_nil]
      rfl
    · rw [if_neg hat, if_neg hat]
      exact (List.append_nil _).symm

end ExactCalc.Session
