/-
  ExactCalc.Proofs.Variables — what the names in a table are worth in an input
  (`held_name_read`; see `ExactCalc.Variables`).

  Updates and loads check every name that comes in, so a table that they lead to holds
  valid ones (`Held.valid`). A valid name is a single word to the scanner, and such an
  input has the value under that word. But a valid name may end in a line break, which
  no word does: what is stored under it is not read back (`held_name_lost`).
-/

import ExactCalc.Proofs.History.Found
import ExactCalc.Proofs.Scan

namespace ExactCalc.Variables

/-! ## Updates -/

/-- What can be done to a table. -/
inductive Update where
  | set (name : String) (value : Number)
  | remove (name : String)
  | restore (source : Variables)
  | clear

/-- The table after an update that succeeds. -/
def Update.result? (vars : Variables) : Update → Option Variables
  | set name value => (Variables.set vars name value).toOption
  | remove name => vars.remove? name
  | restore source => (Variables.restore source).toOption
  | clear => some Table.empty

/-- The table after an update; one that fails leaves it as it is. -/
def step (vars : Variables) (u : Update) : Variables := (u.result? vars).getD vars

/-- The tables that updates lead to, from an empty one or from what a store has loaded. -/
inductive Held : Variables → Prop
  | empty : Held Table.empty
  | loaded {s s' : Store} {d : Disk} {supply : Supply} :
    (s.load d supply).1 = .ok s' → Held s'.vars
  | loadedOrEmptied {s s' : Store} {d : Disk} {supply : Supply} {reason : Option LoadError} :
    (s.loadOrEmpty d supply).1 = .ok (s', reason) → Held s'.vars
  | step {vars : Variables} (u : Update) : Held vars → Held (vars.step u)

/-! ## Valid tables -/

def Valid (vars : Variables) : Prop := ∀ name ∈ vars.keys, checkName name = .ok ()

theorem valid_empty : Valid Table.empty := fun _ h => absurd h List.not_mem_nil

theorem valid_of_restore {source vars : Variables} (h : restore source = .ok vars) : vars.Valid := by
  obtain ⟨_, hnames, hvars⟩ := bind_eq_ok.mp h
  cases hvars
  exact forM_eq_ok.mp hnames

theorem Valid.result? {vars vars' : Variables} {u : Update} (h : vars.Valid)
    (hu : u.result? vars = some vars') : vars'.Valid := by
  cases u with
  | set name value =>
    obtain ⟨_, hname, hvars⟩ := bind_eq_ok.mp (toOption_eq_some hu)
    cases hvars
    intro name' hmem
    rcases Table.mem_keys_insert.mp hmem with rfl | hmem
    · exact hname
    · exact h name' hmem
  | remove name =>
    obtain ⟨-, hvars⟩ := Option.ite_none_right_eq_some.mp hu
    cases hvars
    exact fun name' hmem => h name' (Table.mem_of_mem_erase hmem)
  | restore source => exact valid_of_restore (toOption_eq_some hu)
  | clear =>
    cases hu
    exact valid_empty

theorem Valid.step {vars : Variables} (h : vars.Valid) (u : Update) : (vars.step u).Valid := by
  unfold Variables.step
  cases hu : u.result? vars with
  | none => exact h
  | some vars' => exact h.result? hu

theorem Held.valid {vars : Variables} (h : Held vars) : vars.Valid := by
  induction h with
  | empty => exact valid_empty
  | loaded hload => exact valid_of_restore (Store.historyAt_of_load hload).2
  | loadedOrEmptied hload => exact valid_of_restore (Store.historyAt_of_loadOrEmpty hload).2
  | step u _ ih => exact ih.step u

/-! ## Names and words -/

theorem not_mem_reserved_of_checkName {name : String} (h : checkName name = .ok ()) :
    name ∉ reserved := by
  intro hmem
  unfold checkName at h
  rw [if_pos (List.contains_iff_mem.mpr hmem)] at h
  cases h

open Token (IsLexeme)

/-- A valid name is a word, or a word and a line break. -/
theorem exists_word {name : String} (h : checkName name = .ok ()) :
    ∃ word : String, IsLexeme .identifier word.toList ∧ (name = word ∨ name = word ++ "\n") := by
  obtain ⟨c, tail, hcs, hc, htail⟩ := exists_of_isName (isName_of_checkName h)
  have hword : IsLexeme .identifier (c :: tail.takeWhile Token.isNameChar) :=
    .name (Bool.or_eq_true_iff.mpr (Or.inl hc)) fun d hd => List.mem_takeWhile_imp hd
  have hsplit : name.toList =
      (c :: tail.takeWhile Token.isNameChar) ++ tail.dropWhile Token.isNameChar := by
    rw [hcs, List.cons_append, List.takeWhile_append_dropWhile]
  refine ⟨String.ofList (c :: tail.takeWhile Token.isNameChar), by rwa [String.toList_ofList], ?_⟩
  rcases htail with htail | htail
  · left
    rw [htail, List.append_nil] at hsplit
    exact String.toList_inj.mp (by rw [hsplit, String.toList_ofList])
  · right
    rw [htail] at hsplit
    refine String.toList_inj.mp ?_
    rw [hsplit, String.toList_append, String.toList_ofList]
    rfl

/-- Either way it is scanned as the word. -/
theorem scan_of_word {name word : String} (hword : IsLexeme .identifier word.toList)
    (hname : name = word ∨ name = word ++ "\n") : Token.scan name.toList =
      ⟨[⟨.identifier, word, 0, word.length⟩], .finished name.length⟩ := by
  have hscans := Token.scans_of_isLexeme hword 0
  rw [String.ofList_toList, Nat.zero_add, String.length_toList] at hscans
  rcases hname with rfl | rfl
  · rw [Token.scan_of_scans hscans, String.length_toList]
  · rw [String.toList_append, String.length_append, ← String.length_toList (s := word)]
    exact Token.scan_of_scans_blank hscans (by decide)

open ExactCalc.Expr ExactCalc.Grammar

/-- An input of one word that is not reserved stands for the variable. -/
theorem parse_of_word {text word : String} {stop n : Nat}
    (hscan : Token.scan text.toList = ⟨[⟨.identifier, word, 0, stop⟩], .finished n⟩)
    (hword : word ∉ reserved) : parse text = .ok (.var word) := by
  have hroot : ¬ IsRootWord ⟨.identifier, word, 0, stop⟩ := by
    rintro ⟨-, rfl | rfl⟩
    · exact hword List.mem_cons_self
    · exact hword (List.mem_cons_of_mem _ List.mem_cons_self)
  refine (parse_iff_derives hscan).mpr
    ⟨.sum (.of (.of (.plain ⟨[], nofun⟩ (.name _ rfl hroot)) .none) .none), rfl, rfl, ?_, ?_⟩
  · exact ⟨Nat.zero_le _, Nat.le_add_left 1 99⟩
  · intro t ht hk
    rw [List.mem_singleton.mp ht] at hk
    cases hk

/-- A reserved word asks for an operand, and a line break is none. -/
theorem parse_of_reserved {word : String} (hword : word ∈ reserved) :
    parse (word ++ "\n") = .error (.rejected (.parse .operandMissing (word ++ "\n").length)) := by
  rcases List.mem_cons.mp hword with rfl | hword
  · decide +kernel
  · rw [List.mem_singleton.mp hword]
    decide +kernel

/-- In a table that updates and loads lead to, each name is scanned as a single word, which is the name
but for a line break at its end. Where there is none, the word is not reserved, and the name as an
input has the value that is stored under it. Where there is one, the input stands for the word, or is
rejected if that is reserved. -/
theorem held_name_read {vars : Variables} (h : Held vars) {name : String} {v : Number}
    (hv : vars.get? name = some v) :
    ∃ word : String, (name = word ∨ name = word ++ "\n") ∧
      Token.scan name.toList = ⟨[⟨.identifier, word, 0, word.length⟩], .finished name.length⟩ ∧
      (name = word → word ∉ reserved ∧ (parse name >>= evaluate vars) = .ok (v, vars)) ∧
      (name = word ++ "\n" →
        (word ∉ reserved ∧ parse name = .ok (.var word)) ∨
        (word ∈ reserved ∧ parse name = .error (.rejected (.parse .operandMissing name.length)))) := by
  have hmem : name ∈ vars.keys := List.mem_map_of_mem (Table.get?_eq_some_iff.mp hv)
  have hvalid := h.valid name hmem
  obtain ⟨word, hlexeme, hname⟩ := exists_word hvalid
  have hscan := scan_of_word hlexeme hname
  refine ⟨word, hname, hscan, ?_, ?_⟩
  · rintro rfl
    have hfree := not_mem_reserved_of_checkName hvalid
    refine ⟨hfree, ?_⟩
    have hvalue : (Expr.var name).value vars = .ok v := by
      unfold Expr.value
      rw [hv]
    exact bind_of_ok (parse_of_word hscan hfree) (bind_of_ok hvalue rfl)
  · rintro rfl
    by_cases hword : word ∈ reserved
    · exact Or.inr ⟨hword, parse_of_reserved hword⟩
    · exact Or.inl ⟨hword, parse_of_word hscan hword⟩

/-- A name is set, the next update fails, and the name is read back. -/
theorem held_name_read_of_half :
    let vars : Variables := (step Table.empty (.set "h" (.exact (1 / 2)))).step (.set "root" (.exact 1))
    Held vars ∧ vars.get? "h" = some (.exact (1 / 2)) ∧
      (parse "h" >>= evaluate vars) = .ok (.exact (1 / 2), vars) := by
  intro vars
  have hheld : Held vars := .step _ (.step _ .empty)
  have hv : vars.get? "h" = some (.exact (1 / 2)) := by decide +kernel
  have hone : Token.scan "h".toList = ⟨[⟨.identifier, "h", 0, 1⟩], .finished 1⟩ := by decide +kernel
  obtain ⟨word, -, hscan, hread, -⟩ := held_name_read hheld hv
  have htexts := congrArg (fun s => s.tokens.map Token.text) (hone.symm.trans hscan)
  exact ⟨hheld, hv, (hread (List.singleton_inj.mp htexts)).2⟩

/-- What is stored under a name with a line break at its end is not found under it: the name is scanned
as another one. -/
theorem held_name_lost :
    let vars : Variables := step Table.empty (.set "x\n" (.exact 5))
    Held vars ∧ vars.get? "x\n" = some (.exact 5) ∧
      Token.scan "x\n".toList = ⟨[⟨.identifier, "x", 0, 1⟩], .finished 2⟩ ∧
      (parse "x\n" >>= evaluate vars) =
        .error (.rejected (.eval (.undefinedVariable "x") none)) :=
  ⟨.step _ .empty, by decide +kernel, by decide +kernel, by decide +kernel⟩

end ExactCalc.Variables
