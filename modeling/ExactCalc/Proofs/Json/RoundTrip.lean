/-
  ExactCalc.Proofs.Json.RoundTrip — JSON without numbers reads back as it was written
  (see `ExactCalc.Json.Reader`).

  By induction on how deep a value nests: its text, in front of any other, is read to
  the value and leaves the other text. The reader's bound is the length of the whole
  text, and each array or object has fewer parts than its text has characters.
-/

import ExactCalc.Proofs.Json.Strings
import ExactCalc.Proofs.Table

namespace ExactCalc.Json

open Text

/-- A value without numbers that nests at most so deep, with settled texts and distinct keys. -/
inductive Plain : Nat → Json → Prop
  | null {d : Nat} : Plain d .null
  | bool {d : Nat} (b : Bool) : Plain d (.bool b)
  | str {d : Nat} {s : Symbols} : s.Settled → Plain d (.str s)
  | arr {d : Nat} {l : List Json} : (∀ v ∈ l, Plain d v) → Plain (d + 1) (.arr l)
  | obj {d : Nat} {l : List (Symbols × Json)} : (l.map Prod.fst).Nodup →
    (∀ p ∈ l, p.1.Settled) → (∀ p ∈ l, Plain d p.2) → Plain (d + 1) (.obj l)

theorem Plain.mono {d d' : Nat} {j : Json} (h : Plain d j) (hd : d ≤ d') : Plain d' j := by
  induction h generalizing d' with
  | null => exact .null
  | bool b => exact .bool b
  | str hs => exact .str hs
  | arr _ ih =>
    obtain ⟨d', rfl⟩ : ∃ e, d' = e + 1 := ⟨d' - 1, by omega⟩
    exact .arr fun v hv => ih v hv (by omega)
  | obj hk hs _ ih =>
    obtain ⟨d', rfl⟩ : ∃ e, d' = e + 1 := ⟨d' - 1, by omega⟩
    exact .obj hk hs fun p hp => ih p hp (by omega)

theorem plain_ofString {d : Nat} (s : String) : Plain d (.ofString s) :=
  .str (Symbols.settled_ofString s)

/-! ## Texts -/

mutual

theorem length_le_renderOnto (after : List Char) :
    ∀ j : Json, after.length ≤ (renderOnto after j).length
  | null => by simp only [renderOnto, List.length_append]; omega
  | bool true => by simp only [renderOnto, List.length_append]; omega
  | bool false => by simp only [renderOnto, List.length_append]; omega
  | int n => by simp only [renderOnto, List.length_append]; omega
  | real x => by simp only [renderOnto, List.length_append]; omega
  | str s => by simp only [renderOnto, List.length_append]; omega
  | arr [] => by simp only [renderOnto, List.length_cons]; omega
  | arr (v :: rest) => by
    have hv := length_le_renderOnto (renderItems after rest) v
    have hr := length_lt_renderItems after rest
    simp only [renderOnto, List.length_cons]
    omega
  | obj [] => by simp only [renderOnto, List.length_cons]; omega
  | obj ((k, v) :: rest) => by
    have hv := length_le_renderOnto (renderMembers after rest) v
    have hr := length_lt_renderMembers after rest
    simp only [renderOnto, List.length_cons, List.length_append]
    omega

/-- Each item and the closing bracket take a character. -/
theorem length_lt_renderItems (after : List Char) : ∀ l : List Json,
    after.length + l.length < (renderItems after l).length
  | [] => by simp [renderItems]
  | v :: rest => by
    have hv := length_le_renderOnto (renderItems after rest) v
    have hr := length_lt_renderItems after rest
    simp only [renderItems, List.length_cons]
    omega

theorem length_lt_renderMembers (after : List Char) : ∀ l : List (Symbols × Json),
    after.length + l.length < (renderMembers after l).length
  | [] => by simp [renderMembers]
  | (k, v) :: rest => by
    have hv := length_le_renderOnto (renderMembers after rest) v
    have hr := length_lt_renderMembers after rest
    simp only [renderMembers, List.length_cons, List.length_append]
    omega

end

theorem skip_cons {c : Char} (h : isSpace c = false) (cs : List Char) : skip (c :: cs) = c :: cs := by
  simp [skip, h]

/-- The text of a plain value starts with neither a space nor a closing bracket or brace. -/
theorem Plain.head {d : Nat} {j : Json} (h : Plain d j) (after : List Char) :
    ∃ c rest, renderOnto after j = c :: rest ∧ isSpace c = false ∧ c ≠ ']' ∧ c ≠ '}' := by
  cases h with
  | null => exact ⟨'n', _, rfl, by decide, by decide, by decide⟩
  | bool b =>
    cases b
    · exact ⟨'f', _, rfl, by decide, by decide, by decide⟩
    · exact ⟨'t', _, rfl, by decide, by decide, by decide⟩
  | str _ => exact ⟨'"', _, rfl, by decide, by decide, by decide⟩
  | @arr _ l _ =>
    cases l with
    | nil => exact ⟨'[', _, rfl, by decide, by decide, by decide⟩
    | cons v l => exact ⟨'[', _, rfl, by decide, by decide, by decide⟩
  | @obj _ l _ _ _ =>
    cases l with
    | nil => exact ⟨'{', _, rfl, by decide, by decide, by decide⟩
    | cons p l => exact ⟨'{', _, rfl, by decide, by decide, by decide⟩

theorem Plain.skip_renderOnto {d : Nat} {j : Json} (h : Plain d j) (after : List Char) :
    skip (renderOnto after j) = renderOnto after j := by
  obtain ⟨c, rest, htext, hspace, -⟩ := h.head after
  rw [htext, skip_cons hspace]

/-! ## Arrays and objects -/

section

variable {d bound : Nat} {read : List Char → Reading} {after : List Char}

/-- A reader of values that nest at most so deep. -/
def Reads (d bound : Nat) (read : List Char → Reading) : Prop :=
  ∀ {j : Json} {after : List Char}, Plain d j → (renderOnto after j).length ≤ bound →
    read (renderOnto after j) = some (j, after)

theorem items_renderItems (hread : Reads d bound read) : ∀ {rest : List Json} {b : Nat}
    (seen : List Json) {v : Json}, Plain d v → (∀ w ∈ rest, Plain d w) → rest.length < b →
    (renderOnto (renderItems after rest) v).length ≤ bound →
    items read b seen (renderOnto (renderItems after rest) v) =
      some (.arr (seen.reverse ++ v :: rest), after) := by
  intro rest
  induction rest with
  | nil =>
    intro b seen v hv _ hb hlen
    obtain ⟨b, rfl⟩ : ∃ n, b = n + 1 := ⟨b - 1, by omega⟩
    rw [items, hread hv hlen]
    simp only [bind, Option.bind, renderItems, skip_cons (show isSpace ']' = false by decide)]
    rw [List.reverse_cons]
  | cons w rest ih =>
    intro b seen v hv hrest hb hlen
    obtain ⟨b, rfl⟩ : ∃ n, b = n + 1 := ⟨b - 1, by omega⟩
    have hw := hrest w List.mem_cons_self
    have hshorter : (renderOnto (renderItems after rest) w).length ≤ bound :=
      Nat.le_trans (Nat.le_succ _)
        (Nat.le_trans (length_le_renderOnto (renderItems after (w :: rest)) v) hlen)
    have hnext := ih (b := b) (v :: seen) hw (fun u hu => hrest u (List.mem_cons_of_mem _ hu))
      (by rw [List.length_cons] at hb; omega) hshorter
    rw [items, hread hv hlen]
    simp only [bind, Option.bind, renderItems, skip_cons (show isSpace ',' = false by decide),
      hw.skip_renderOnto, hnext]
    rw [List.reverse_cons, List.append_assoc, List.singleton_append]

theorem members_renderMembers (hread : Reads d bound read) :
    ∀ {rest : List (Symbols × Json)} {b : Nat} (seen : List (Symbols × Json)) {k : Symbols} {v : Json},
      k.Settled → Plain d v → (∀ p ∈ rest, p.1.Settled) → (∀ p ∈ rest, Plain d p.2) →
      ((seen.reverse ++ (k, v) :: rest).map Prod.fst).Nodup → rest.length < b →
      (renderOnto (renderMembers after rest) v).length ≤ bound →
      members read b seen (renderString k ++ ':' :: renderOnto (renderMembers after rest) v) =
        some (.obj (seen.reverse ++ (k, v) :: rest), after) := by
  intro rest
  induction rest with
  | nil =>
    intro b seen k v hk hv _ _ hnodup hb hlen
    obtain ⟨b, rfl⟩ : ∃ n, b = n + 1 := ⟨b - 1, by omega⟩
    have htext : renderString k ++ ':' :: renderOnto (renderMembers after []) v =
        '"' :: (k.flatMap escaped ++ '"' :: ':' :: renderOnto (renderMembers after []) v) := by
      simp [renderString]
    rw [htext]
    simp only [members, string_renderString hk, bind, Option.bind,
      skip_cons (show isSpace ':' = false by decide), hv.skip_renderOnto, hread hv hlen]
    simp only [renderMembers, skip_cons (show isSpace '}' = false by decide)]
    rw [List.reverse_cons, Table.pairs_ofList hnodup]
  | cons p rest ih =>
    obtain ⟨k', v'⟩ := p
    intro b seen k v hk hv hks hvs hnodup hb hlen
    obtain ⟨b, rfl⟩ : ∃ n, b = n + 1 := ⟨b - 1, by omega⟩
    have hv' := hvs (k', v') List.mem_cons_self
    have hshorter : (renderOnto (renderMembers after rest) v').length ≤ bound := by
      have hle : (renderMembers after ((k', v') :: rest)).length ≤ bound :=
        Nat.le_trans (length_le_renderOnto _ v) hlen
      simp only [renderMembers, List.length_cons, List.length_append] at hle
      omega
    have hsplit : (((k, v) :: seen).reverse ++ (k', v') :: rest) =
        seen.reverse ++ (k, v) :: (k', v') :: rest := by
      rw [List.reverse_cons, List.append_assoc, List.singleton_append]
    have hnext := ih (b := b) ((k, v) :: seen) (hks (k', v') List.mem_cons_self) hv'
      (fun q hq => hks q (List.mem_cons_of_mem _ hq)) (fun q hq => hvs q (List.mem_cons_of_mem _ hq))
      (by rw [hsplit]; exact hnodup) (by rw [List.length_cons] at hb; omega) hshorter
    have htext : renderString k ++ ':' :: renderOnto (renderMembers after ((k', v') :: rest)) v =
        '"' :: (k.flatMap escaped ++ '"' :: ':' ::
          renderOnto (renderMembers after ((k', v') :: rest)) v) := by
      simp [renderString]
    have hquote : skip (renderString k' ++ ':' :: renderOnto (renderMembers after rest) v') =
        renderString k' ++ ':' :: renderOnto (renderMembers after rest) v' :=
      skip_cons (c := '"') (by decide) _
    rw [htext]
    simp only [members, string_renderString hk, bind, Option.bind,
      skip_cons (show isSpace ':' = false by decide), hv.skip_renderOnto, hread hv hlen]
    simp only [renderMembers, skip_cons (show isSpace ',' = false by decide), hquote, hnext]
    rw [hsplit]

end

/-! ## Values -/

section

variable {bound : Nat} {inner : List Char → Reading}

theorem valueWith_string {s : Symbols} (h : s.Settled) (after : List Char) :
    valueWith bound inner (renderOnto after (.str s)) = some (.str s, after) := by
  have htext : renderOnto after (.str s) = '"' :: (s.flatMap escaped ++ '"' :: after) := by
    simp [renderOnto, renderString]
  rw [htext]
  simp only [valueWith, string_renderString h, Option.map_some]

theorem valueWith_array {d : Nat} (hin : Reads d bound inner) {l : List Json} {after : List Char}
    (h : ∀ v ∈ l, Plain d v) (hlen : (renderOnto after (.arr l)).length ≤ bound) :
    valueWith bound inner (renderOnto after (.arr l)) = some (.arr l, after) := by
  cases l with
  | nil => rfl
  | cons v rest =>
    have hv := h v List.mem_cons_self
    obtain ⟨c, text, htext, -, hne, -⟩ := hv.head (renderItems after rest)
    rw [renderOnto, List.length_cons] at hlen
    have hcount := length_lt_renderItems after rest
    have hle := length_le_renderOnto (renderItems after rest) v
    have hitems : items inner bound [] (renderOnto (renderItems after rest) v) =
        some (.arr (v :: rest), after) :=
      items_renderItems hin [] hv (fun w hw => h w (List.mem_cons_of_mem _ hw)) (by omega) (by omega)
    rw [renderOnto]
    simp only [valueWith, hv.skip_renderOnto]
    split
    · rename_i heq
      rw [htext] at heq
      exact absurd (List.cons.inj heq).1 hne
    · exact hitems

theorem valueWith_object {d : Nat} (hin : Reads d bound inner) {l : List (Symbols × Json)}
    {after : List Char} (hn : (l.map Prod.fst).Nodup) (hk : ∀ p ∈ l, p.1.Settled)
    (h : ∀ p ∈ l, Plain d p.2) (hlen : (renderOnto after (.obj l)).length ≤ bound) :
    valueWith bound inner (renderOnto after (.obj l)) = some (.obj l, after) := by
  cases l with
  | nil => rfl
  | cons p rest =>
    obtain ⟨k, v⟩ := p
    rw [renderOnto, List.length_cons, List.length_append, List.length_cons] at hlen
    have hcount := length_lt_renderMembers after rest
    have hle := length_le_renderOnto (renderMembers after rest) v
    have hmembers : members inner bound []
        (renderString k ++ ':' :: renderOnto (renderMembers after rest) v) =
        some (.obj ((k, v) :: rest), after) :=
      members_renderMembers hin [] (hk (k, v) List.mem_cons_self) (h (k, v) List.mem_cons_self)
        (fun q hq => hk q (List.mem_cons_of_mem _ hq)) (fun q hq => h q (List.mem_cons_of_mem _ hq))
        hn (by omega) (by omega)
    have hskip : skip (renderString k ++ ':' :: renderOnto (renderMembers after rest) v) =
        renderString k ++ ':' :: renderOnto (renderMembers after rest) v :=
      skip_cons (c := '"') (by decide) _
    rw [renderOnto]
    simp only [valueWith, hskip]
    split
    · rename_i heq
      exact absurd (List.cons.inj heq).1 (by decide)
    · exact hmembers

theorem reads_valueWith {d : Nat} (hin : Reads d bound inner) :
    Reads (d + 1) bound (valueWith bound inner) := by
  intro j after h hlen
  cases h with
  | null => rfl
  | bool b => cases b <;> rfl
  | str hs => exact valueWith_string hs after
  | arr hv => exact valueWith_array hin hv hlen
  | obj hn hk hv => exact valueWith_object hin hn hk hv hlen

end

theorem reads_value (bound : Nat) : ∀ d, Reads d bound (value bound d) := by
  intro d
  induction d with
  | zero =>
    intro j after h hlen
    cases h with
    | null => rfl
    | bool b => cases b <;> rfl
    | str hs =>
      have h := @valueWith_string bound (fun _ => none) _ hs after
      exact h
  | succ d ih => exact reads_valueWith ih

/-- The text of a plain value that does not nest too deep reads back as the value. -/
theorem read_render {j : Json} (h : Plain maxDepth j) : read j.render = some j := by
  have hvalue := reads_value j.render.length maxDepth h (Nat.le_refl _)
  unfold read render at *
  rw [h.skip_renderOnto, hvalue]
  rfl

end ExactCalc.Json
