/-
  ExactCalc.Table — tables that keep their keys in the order in which these came.

  Putting a present key replaces its value and keeps its place; a new key goes to the
  end. No key stands twice.
-/

namespace ExactCalc

structure Table (κ ν : Type) where
  pairs : List (κ × ν)
  distinct : (pairs.map Prod.fst).Nodup
  deriving DecidableEq

namespace Table

variable {κ ν : Type} [DecidableEq κ]

/-- The pairs with `v` under `k`. -/
def put (k : κ) (v : ν) : List (κ × ν) → List (κ × ν)
  | [] => [(k, v)]
  | (k', v') :: rest => if k' = k then (k, v) :: rest else (k', v') :: put k v rest

theorem keys_put (k : κ) (v : ν) (l : List (κ × ν)) :
    (put k v l).map Prod.fst =
      if k ∈ l.map Prod.fst then l.map Prod.fst else l.map Prod.fst ++ [k] := by
  induction l with
  | nil => simp [put]
  | cons p rest ih =>
    obtain ⟨k', v'⟩ := p
    by_cases h : k' = k
    · simp [put, h]
    · by_cases hm : k ∈ rest.map Prod.fst
      · simp only [put, if_neg h, List.map_cons, ih, List.mem_cons, hm, or_true, if_true]
      · have : ¬ (k = k' ∨ k ∈ rest.map Prod.fst) := by
          rintro (e | e)
          · exact h e.symm
          · exact hm e
        simp only [put, if_neg h, List.map_cons, ih, if_neg hm, List.mem_cons, if_neg this,
          List.cons_append]

theorem distinct_put (k : κ) (v : ν) {l : List (κ × ν)} (h : (l.map Prod.fst).Nodup) :
    ((put k v l).map Prod.fst).Nodup := by
  rw [keys_put]
  split
  · exact h
  · next hk =>
    refine List.nodup_append.2 ⟨h, by simp, fun a ha b hb e => hk ?_⟩
    rw [List.mem_singleton] at hb
    exact hb ▸ e ▸ ha

def empty : Table κ ν := ⟨[], by simp⟩

instance : Inhabited (Table κ ν) := ⟨empty⟩

def keys (t : Table κ ν) : List κ := t.pairs.map Prod.fst

def size (t : Table κ ν) : Nat := t.pairs.length

def get? (t : Table κ ν) (k : κ) : Option ν := (t.pairs.find? (·.1 = k)).map Prod.snd

def contains (t : Table κ ν) (k : κ) : Bool := t.pairs.any (·.1 = k)

def insert (t : Table κ ν) (k : κ) (v : ν) : Table κ ν :=
  ⟨put k v t.pairs, distinct_put k v t.distinct⟩

def erase (t : Table κ ν) (k : κ) : Table κ ν :=
  ⟨t.pairs.filter (·.1 ≠ k), t.distinct.sublist (List.filter_sublist.map Prod.fst)⟩

/-- Later values win; each key keeps the place where it came first. -/
def ofList (l : List (κ × ν)) : Table κ ν := l.foldl (fun t p => t.insert p.1 p.2) empty

/-- The same keys with other values. -/
def map {μ : Type} (f : ν → μ) (t : Table κ ν) : Table κ μ :=
  ⟨t.pairs.map fun p => (p.1, f p.2), by
    have : (t.pairs.map fun p => (p.1, f p.2)).map Prod.fst = t.pairs.map Prod.fst := by
      simp [Function.comp_def]
    rw [this]
    exact t.distinct⟩

end Table

end ExactCalc
