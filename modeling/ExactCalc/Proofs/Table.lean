/-
  ExactCalc.Proofs.Table — tables as maps (see `ExactCalc.Table`): what a key gives
  after an update, and tables with the same pairs in another order.
-/

import ExactCalc.Table
import Mathlib.Data.List.Induction
import Mathlib.Data.List.Nodup

namespace ExactCalc.Table

theorem ext_pairs {κ ν : Type} {t t' : Table κ ν} (h : t.pairs = t'.pairs) : t = t' := by
  cases t
  cases t'
  cases h
  rfl

variable {κ ν : Type} [DecidableEq κ]

/-! ## Pairs in order -/

theorem put_of_not_mem {k : κ} {v : ν} : ∀ {l : List (κ × ν)}, k ∉ l.map Prod.fst →
    put k v l = l ++ [(k, v)] := by
  intro l
  induction l with
  | nil => intro _; rfl
  | cons p l ih =>
    intro h
    rw [List.map_cons, List.mem_cons, not_or] at h
    rw [put, if_neg (Ne.symm h.1), ih h.2, List.cons_append]

/-- Pairs with distinct keys make a table of just these pairs. -/
theorem pairs_ofList {l : List (κ × ν)} (h : (l.map Prod.fst).Nodup) : (ofList l).pairs = l := by
  have onto : ∀ (l : List (κ × ν)) (t : Table κ ν), ((t.pairs ++ l).map Prod.fst).Nodup →
      (l.foldl (fun t p => t.insert p.1 p.2) t).pairs = t.pairs ++ l := by
    intro l
    induction l with
    | nil => intro t _; exact (List.append_nil _).symm
    | cons p l ih =>
      intro t h
      have hp : p.1 ∉ t.pairs.map Prod.fst := by
        rw [List.map_append, List.nodup_append] at h
        exact fun hm => h.2.2 p.1 hm p.1 (List.mem_map_of_mem List.mem_cons_self) rfl
      have hins : (t.insert p.1 p.2).pairs = t.pairs ++ [p] := put_of_not_mem hp
      rw [List.foldl_cons, ih, hins, List.append_assoc, List.singleton_append]
      rwa [hins, List.append_assoc, List.singleton_append]
  exact onto l empty h

theorem mem_of_mem_put {k : κ} {v : ν} {p : κ × ν} {l : List (κ × ν)} (h : p ∈ put k v l) :
    p = (k, v) ∨ p ∈ l := by
  induction l with
  | nil => exact Or.inl (List.mem_singleton.mp h)
  | cons q l ih =>
    rw [put] at h
    split at h
    · exact (List.mem_cons.mp h).imp id (List.mem_cons_of_mem _)
    · rcases List.mem_cons.mp h with rfl | h
      · exact Or.inr List.mem_cons_self
      · exact (ih h).imp id (List.mem_cons_of_mem _)

/-- A table holds no pairs but those it is made of. -/
theorem mem_of_mem_ofList {p : κ × ν} {l : List (κ × ν)} (h : p ∈ (ofList l).pairs) : p ∈ l := by
  have onto : ∀ (l : List (κ × ν)) (t : Table κ ν),
      p ∈ (l.foldl (fun t p => t.insert p.1 p.2) t).pairs → p ∈ t.pairs ∨ p ∈ l := by
    intro l
    induction l with
    | nil => exact fun t h => Or.inl h
    | cons q l ih =>
      intro t h
      rcases ih _ h with h | h
      · rcases mem_of_mem_put h with rfl | h
        · exact Or.inr List.mem_cons_self
        · exact Or.inl h
      · exact Or.inr (List.mem_cons_of_mem _ h)
  exact (onto l empty h).resolve_left List.not_mem_nil

theorem mem_keys_insert {t : Table κ ν} {k key : κ} {v : ν} :
    key ∈ (t.insert k v).keys ↔ key = k ∨ key ∈ t.keys := by
  show key ∈ (put k v t.pairs).map Prod.fst ↔ _
  rw [keys_put]
  split
  · rename_i hmem
    refine ⟨Or.inr, fun h => h.elim (fun hk => ?_) id⟩
    rw [hk]
    exact hmem
  · rw [List.mem_append, List.mem_singleton, or_comm]
    exact Iff.rfl

theorem mem_of_mem_erase {t : Table κ ν} {k key : κ} (h : key ∈ (t.erase k).keys) :
    key ∈ t.keys := by
  obtain ⟨p, hp, rfl⟩ := List.mem_map.mp h
  exact List.mem_map_of_mem (List.mem_filter.mp hp).1

theorem mem_keys_ofList {k : κ} {l : List (κ × ν)} : k ∈ (ofList l).keys ↔ k ∈ l.map Prod.fst := by
  induction l using List.reverseRecOn with
  | nil => exact Iff.rfl
  | append_singleton l p ih =>
    have hlast : ofList (l ++ [p]) = (ofList l).insert p.1 p.2 := List.foldl_concat _ _ _ _
    rw [hlast, mem_keys_insert, ih, List.map_append, List.mem_append, or_comm]
    exact or_congr Iff.rfl List.mem_singleton.symm

theorem contains_iff {t : Table κ ν} {k : κ} : t.contains k = true ↔ k ∈ t.keys := by
  unfold contains keys
  rw [List.any_eq_true, List.mem_map]
  simp only [decide_eq_true_eq]

theorem keys_insert (t : Table κ ν) (k : κ) (v : ν) :
    (t.insert k v).keys = if k ∈ t.keys then t.keys else t.keys ++ [k] := keys_put k v t.pairs

theorem keys_erase (t : Table κ ν) (k : κ) :
    (t.erase k).keys = t.keys.filter fun key => decide (key ≠ k) := by
  show (t.pairs.filter _).map Prod.fst = (t.pairs.map Prod.fst).filter _
  rw [List.filter_map]
  rfl

/-! ## Maps -/

theorem get?_eq_some_iff {t : Table κ ν} {k : κ} {v : ν} : t.get? k = some v ↔ (k, v) ∈ t.pairs := by
  have h : ∀ l : List (κ × ν), (l.map Prod.fst).Nodup →
      ((l.find? (·.1 = k)).map Prod.snd = some v ↔ (k, v) ∈ l) := by
    intro l
    induction l with
    | nil => intro _; simp
    | cons p l ih =>
      intro hn
      rw [List.map_cons, List.nodup_cons] at hn
      by_cases hp : p.1 = k
      · rw [List.find?_cons_of_pos (by simpa using hp), Option.map_some, Option.some_inj,
          List.mem_cons]
        constructor
        · rintro rfl
          exact Or.inl (by rw [← hp])
        · rintro (rfl | hm)
          · rfl
          · exact absurd (List.mem_map_of_mem hm) (hp ▸ hn.1)
      · rw [List.find?_cons_of_neg (by simpa using hp), ih hn.2, List.mem_cons]
        refine ⟨Or.inr, fun hm => hm.resolve_left ?_⟩
        rintro rfl
        exact hp rfl
  exact h t.pairs t.distinct

theorem mem_keys_iff {t : Table κ ν} {k : κ} : k ∈ t.keys ↔ ∃ v, t.get? k = some v := by
  constructor
  · intro h
    obtain ⟨⟨key, v⟩, hp, rfl⟩ := List.mem_map.mp h
    exact ⟨v, get?_eq_some_iff.mpr hp⟩
  · rintro ⟨v, hv⟩
    exact List.mem_map_of_mem (get?_eq_some_iff.mp hv)

/-- Tables that agree as maps have the same pairs. -/
theorem perm_of_get?_eq {t t' : Table κ ν} (h : ∀ k, t.get? k = t'.get? k) :
    t.pairs.Perm t'.pairs := by
  have nodup : ∀ t : Table κ ν, t.pairs.Nodup := fun t => List.Nodup.of_map Prod.fst t.distinct
  apply (List.perm_ext_iff_of_nodup (nodup t) (nodup t')).mpr
  intro p
  rw [← get?_eq_some_iff, ← get?_eq_some_iff, h]

theorem get?_eq_of_perm {t t' : Table κ ν} (h : t.pairs.Perm t'.pairs) (k : κ) :
    t.get? k = t'.get? k := by
  apply Option.ext
  intro v
  rw [get?_eq_some_iff, get?_eq_some_iff, h.mem_iff]

/-! ## Updates -/

theorem get?_insert (t : Table κ ν) (k : κ) (v : ν) (key : κ) :
    (t.insert k v).get? key = if key = k then some v else t.get? key := by
  show ((put k v t.pairs).find? (·.1 = key)).map Prod.snd = _
  unfold get?
  generalize t.pairs = l
  induction l with
  | nil =>
    by_cases h : key = k
    · simp [put, h]
    · simp [put, h, Ne.symm h]
  | cons p l ih =>
    obtain ⟨k', v'⟩ := p
    unfold put
    by_cases hk : k' = k
    · subst hk
      by_cases h : key = k'
      · simp [h]
      · simp [h, Ne.symm h]
    · rw [if_neg hk]
      by_cases h : k' = key
      · subst h
        simp [hk]
      · simp only [List.find?_cons, h, decide_false]
        exact ih

/-- A pair takes the place of the one with its key, and comes last where there is none. -/
theorem pairs_insert (t : Table κ ν) (k : κ) (v : ν) :
    (∃ before old after, t.pairs = before ++ (k, old) :: after ∧
      (t.insert k v).pairs = before ++ (k, v) :: after) ∨
    (k ∉ t.keys ∧ (t.insert k v).pairs = t.pairs ++ [(k, v)]) := by
  show (∃ before old after, t.pairs = before ++ (k, old) :: after ∧
    put k v t.pairs = before ++ (k, v) :: after) ∨
    (k ∉ t.pairs.map Prod.fst ∧ put k v t.pairs = t.pairs ++ [(k, v)])
  generalize t.pairs = l
  induction l with
  | nil => exact Or.inr ⟨List.not_mem_nil, rfl⟩
  | cons p l ih =>
    obtain ⟨k', v'⟩ := p
    by_cases hk : k' = k
    · subst hk
      exact Or.inl ⟨[], v', l, rfl, by rw [put, if_pos rfl]; rfl⟩
    · rw [put, if_neg hk]
      rcases ih with ⟨before, old, after, rfl, hput⟩ | ⟨hmem, hput⟩
      · exact Or.inl ⟨(k', v') :: before, old, after, rfl, by rw [hput]; rfl⟩
      · refine Or.inr ⟨?_, by rw [hput]; rfl⟩
        rw [List.map_cons, List.mem_cons, not_or]
        exact ⟨Ne.symm hk, hmem⟩

theorem get?_erase (t : Table κ ν) (k key : κ) :
    (t.erase k).get? key = if key = k then none else t.get? key := by
  show ((t.pairs.filter (·.1 ≠ k)).find? (·.1 = key)).map Prod.snd = _
  rw [List.find?_filter]
  by_cases h : key = k
  · subst h
    simp
  · rw [if_neg h, get?]
    congr 2
    funext p
    by_cases hp : p.1 = key
    · simp [hp, h]
    · simp [hp]

theorem get?_map {μ : Type} (f : ν → μ) (t : Table κ ν) (key : κ) :
    (t.map f).get? key = (t.get? key).map f := by
  unfold get? map
  simp [List.find?_map, Function.comp_def]

/-- Of the values under a key the last one counts. -/
theorem get?_ofList [BEq κ] [LawfulBEq κ] (l : List (κ × ν)) (key : κ) :
    (ofList l).get? key = l.reverse.lookup key := by
  induction l using List.reverseRecOn with
  | nil => rfl
  | append_singleton l p ih =>
    have hlast : ofList (l ++ [p]) = (ofList l).insert p.1 p.2 := List.foldl_concat _ _ _ _
    rw [hlast, get?_insert, List.reverse_concat, List.lookup_cons, ih]
    by_cases h : key = p.1
    · rw [if_pos h, h, beq_self_eq_true]
    · rw [if_neg h, beq_eq_false_iff_ne.mpr h]

end ExactCalc.Table
