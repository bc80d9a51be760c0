/-
  ExactCalc.Proofs.Scan — what a scan finds in a text (`scan_lossless`; see
  `ExactCalc.Token`).

  `IsLexeme` says what the lexemes of each kind are, and `Longest` which of them a scan
  takes. `Reaches` walks over a text from the left: white space is skipped, and
  otherwise the longest lexeme taken. A scan is this walk as far as it goes
  (`scan_eq_iff`): to the end of the text, or to a character at which neither can be
  done. So nothing but white space gets lost, and the tokens come out again when their
  texts are put side by side with single spaces between them (`scan_spaced`).
-/

import ExactCalc.Proofs.Expr.Lexemes

namespace ExactCalc.Token

/-! ## Lexemes -/

/-- The lexemes of each kind. -/
inductive IsLexeme : Kind → List Char → Prop
  | whole {digits : List Char} : digits ≠ [] → (∀ c ∈ digits, c.isDigit = true) →
    IsLexeme .number digits
  | decimal {digits places : List Char} : (∀ c ∈ digits, c.isDigit = true) →
    (∀ c ∈ places, c.isDigit = true) → digits ≠ [] ∨ places ≠ [] →
    IsLexeme .number (digits ++ '.' :: places)
  | name {c : Char} {tail : List Char} : isLetter c = true → (∀ d ∈ tail, isNameChar d = true) →
    IsLexeme .identifier (c :: tail)
  | operator {c : Char} : isOperator c = true → IsLexeme .operator [c]
  | openParen : IsLexeme .openParen ['(']
  | closeParen : IsLexeme .closeParen [')']
  | assign : IsLexeme .assign ['=']

/-- The longest lexeme of a kind at the head of a text. -/
structure Longest (kind : Kind) (l cs : List Char) : Prop where
  lexeme : IsLexeme kind l
  head : l <+: cs
  longest : ∀ l', IsLexeme kind l' → l' <+: cs → l'.length ≤ l.length

/-- No lexeme of any kind stands at the head of the text. -/
def StartsNone (cs : List Char) : Prop := ∀ kind l, IsLexeme kind l → ¬ l <+: cs

theorem isLexeme_number_iff {cs : List Char} :
    IsLexeme .number cs ↔ Number.isLexeme cs = true := by
  rw [Number.isLexeme_iff]
  constructor
  · intro h
    cases h with
    | whole hne hd => exact Or.inl ⟨hne, hd⟩
    | decimal hd hp hne => exact Or.inr ⟨_, _, rfl, hd, hp, hne⟩
  · rintro (⟨hne, hd⟩ | ⟨digits, places, rfl, hd, hp, hne⟩)
    · exact .whole hne hd
    · exact .decimal hd hp hne

/-- The kind of the lexemes that start with the character. -/
def kindOf? (c : Char) : Option Kind :=
  if c.isDigit || c == '.' then some .number
  else if isLetter c then some .identifier
  else if isOperator c then some .operator
  else if c == '(' then some .openParen
  else if c == ')' then some .closeParen
  else if c == '=' then some .assign
  else none

theorem kindOf?_of_isLetter {c : Char} (h : isLetter c = true) : kindOf? c = some .identifier := by
  have hpoint : (c == '.') = false := by
    refine beq_eq_false_iff_ne.mpr ?_
    rintro rfl
    revert h
    decide
  unfold kindOf?
  rw [not_isDigit_of_isLetter h, hpoint, h]
  rfl

theorem kindOf?_of_isOperator {c : Char} (h : isOperator c = true) :
    kindOf? c = some .operator := by
  rcases isOperator_cases h with rfl | rfl | rfl | rfl | rfl | rfl <;> rfl

/-- The first character of a lexeme tells its kind. -/
theorem IsLexeme.exists_cons {kind : Kind} {l : List Char} (h : IsLexeme kind l) :
    ∃ c tail, l = c :: tail ∧ kindOf? c = some kind := by
  have digit : ∀ {c : Char}, c.isDigit = true → kindOf? c = some .number := by
    intro c hc
    unfold kindOf?
    rw [hc]
    rfl
  cases h with
  | whole hne hd =>
    obtain ⟨c, tail, rfl⟩ := List.exists_cons_of_ne_nil hne
    exact ⟨c, tail, rfl, digit (hd c List.mem_cons_self)⟩
  | @decimal digits places hd _ _ =>
    cases digits with
    | nil => exact ⟨'.', places, rfl, rfl⟩
    | cons c digits => exact ⟨c, _, rfl, digit (hd c List.mem_cons_self)⟩
  | name hc _ => exact ⟨_, _, rfl, kindOf?_of_isLetter hc⟩
  | operator hc => exact ⟨_, _, rfl, kindOf?_of_isOperator hc⟩
  | openParen => exact ⟨_, _, rfl, rfl⟩
  | closeParen => exact ⟨_, _, rfl, rfl⟩
  | assign => exact ⟨_, _, rfl, rfl⟩

theorem IsLexeme.ne_nil {kind : Kind} {l : List Char} (h : IsLexeme kind l) : l ≠ [] := by
  obtain ⟨c, tail, rfl, -⟩ := h.exists_cons
  exact List.cons_ne_nil c tail

theorem IsLexeme.ne_finish {kind : Kind} {l : List Char} (h : IsLexeme kind l) :
    kind ≠ .finish := by
  cases h <;> decide

/-- Lexemes at the head of one text are of one kind. -/
theorem IsLexeme.kind_unique {kind kind' : Kind} {l l' cs : List Char} (h : IsLexeme kind l)
    (h' : IsLexeme kind' l') (hl : l <+: cs) (hl' : l' <+: cs) : kind = kind' := by
  obtain ⟨c, tail, rfl, hc⟩ := h.exists_cons
  obtain ⟨c', tail', rfl, hc'⟩ := h'.exists_cons
  obtain ⟨rest, rfl⟩ := hl
  obtain rfl : c' = c := (List.cons_prefix_cons.mp hl').1
  exact Option.some.inj (hc.symm.trans hc')

/-! ## The lexeme that is taken -/

theorem numberLexeme_prefix (cs : List Char) : numberLexeme cs <+: cs := by
  have hsplit : cs.takeWhile Char.isDigit ++ cs.dropWhile Char.isDigit = cs :=
    List.takeWhile_append_dropWhile
  unfold numberLexeme
  dsimp only
  split
  · rename_i rest hd
    split
    · exact List.nil_prefix
    · rw [hd] at hsplit
      conv => rhs; rw [← hsplit]
      exact (List.prefix_append_right_inj _).mpr
        (List.cons_prefix_cons.mpr ⟨rfl, List.takeWhile_prefix _⟩)
  · exact List.takeWhile_prefix _

/-- No number at the head of a text is longer than the one that is taken. -/
theorem length_le_numberLexeme {l cs : List Char} (h : IsLexeme .number l) (hl : l <+: cs) :
    l.length ≤ (numberLexeme cs).length := by
  obtain ⟨rest, rfl⟩ := hl
  cases h with
  | whole hne hd =>
    have hwhole : (l ++ rest).takeWhile Char.isDigit = l ++ rest.takeWhile Char.isDigit :=
      List.takeWhile_append_of_pos hd
    have hlong : l.length ≤ ((l ++ rest).takeWhile Char.isDigit).length := by
      rw [hwhole, List.length_append]
      exact Nat.le_add_right _ _
    have hfull : ((l ++ rest).takeWhile Char.isDigit).isEmpty = false := by
      rw [hwhole, List.isEmpty_eq_false_iff]
      exact fun hnil => hne (List.append_eq_nil_iff.mp hnil).1
    unfold numberLexeme
    dsimp only
    split
    · rw [hfull, Bool.false_and, if_neg (by decide), List.length_append]
      exact Nat.le_add_right_of_le hlong
    · exact hlong
  | @decimal digits places hd hp hne =>
    have hpoint : ∀ c ∈ ('.' :: (places ++ rest)).head?, c.isDigit = false := by
      rintro c ⟨⟩
      decide
    have hmore : (places ++ rest).takeWhile Char.isDigit = places ++ rest.takeWhile Char.isDigit :=
      List.takeWhile_append_of_pos hp
    unfold numberLexeme
    rw [List.append_assoc, List.cons_append, takeWhile_append_of_not hd hpoint,
      dropWhile_append_of_not hd hpoint]
    show _ ≤ (if digits.isEmpty && ((places ++ rest).takeWhile Char.isDigit).isEmpty then []
      else digits ++ '.' :: (places ++ rest).takeWhile Char.isDigit).length
    rw [hmore, if_neg]
    · simp only [List.length_append, List.length_cons]
      omega
    · rw [Bool.and_eq_true, List.isEmpty_iff, List.isEmpty_iff, List.append_eq_nil_iff]
      exact fun hnil => hne.elim (fun h => h hnil.1) fun h => h hnil.2.1

/-- A lexeme of one character is the longest, if all of its kind are. -/
theorem longest_single {kind : Kind} {c : Char} {rest : List Char} (h : IsLexeme kind [c])
    (hone : ∀ l, IsLexeme kind l → l.length = 1) : Longest kind [c] (c :: rest) :=
  ⟨h, ⟨rest, rfl⟩, fun l hl _ => (hone l hl).le⟩

/-- What is taken is the longest lexeme of its kind. -/
theorem longest_of_lexeme? {kind : Kind} {l cs : List Char} (h : lexeme? cs = some (kind, l)) :
    Longest kind l cs := by
  cases cs with
  | nil => cases h
  | cons c rest =>
    unfold lexeme? at h
    dsimp only at h
    split at h
    · rename_i hn
      cases h
      have hne : numberLexeme (c :: rest) ≠ [] := by simpa using hn
      exact ⟨isLexeme_number_iff.mpr (isLexeme_numberLexeme hne), numberLexeme_prefix _,
        fun l hl => length_le_numberLexeme hl⟩
    split at h
    · rename_i hc
      cases h
      refine ⟨.name hc fun d hd => List.mem_takeWhile_imp hd,
        List.cons_prefix_cons.mpr ⟨rfl, List.takeWhile_prefix _⟩, fun l hl hhead => ?_⟩
      cases hl with
      | name _ htail =>
        obtain ⟨more, rfl⟩ := (List.cons_prefix_cons.mp hhead).2
        rw [List.takeWhile_append_of_pos htail, List.length_cons, List.length_cons,
          List.length_append]
        exact Nat.succ_le_succ (Nat.le_add_right _ _)
    split at h
    · rename_i hc
      cases h
      exact longest_single (.operator hc) fun l hl => by cases hl; rfl
    split at h
    · rename_i hc
      cases h
      obtain rfl := beq_iff_eq.mp hc
      exact longest_single .openParen fun l hl => by cases hl; rfl
    split at h
    · rename_i hc
      cases h
      obtain rfl := beq_iff_eq.mp hc
      exact longest_single .closeParen fun l hl => by cases hl; rfl
    split at h
    · rename_i hc
      cases h
      obtain rfl := beq_iff_eq.mp hc
      exact longest_single .assign fun l hl => by cases hl; rfl
    · cases h

theorem lexeme?_of_number {l cs : List Char} (h : IsLexeme .number l) (hl : l <+: cs) :
    lexeme? cs = some (.number, numberLexeme cs) := by
  have hlong : 0 < (numberLexeme cs).length :=
    (List.length_pos_iff.mpr h.ne_nil).trans_le (length_le_numberLexeme h hl)
  have hne : (!(numberLexeme cs).isEmpty) = true := by
    simpa using List.length_pos_iff.mp hlong
  cases cs with
  | nil => cases hlong
  | cons c rest => exact if_pos hne

/-- Where no lexeme is taken, none starts. -/
theorem startsNone_of_lexeme? {cs : List Char} (h : lexeme? cs = none) : StartsNone cs := by
  intro kind l hl hhead
  have number : ∀ l', IsLexeme .number l' → ¬ l' <+: cs := by
    intro l' hl' hhead'
    cases h.symm.trans (lexeme?_of_number hl' hhead')
  obtain ⟨rest, rfl⟩ := hhead
  cases hl with
  | whole hne hd => exact number _ (.whole hne hd) ⟨rest, rfl⟩
  | decimal hd hp hne => exact number _ (.decimal hd hp hne) ⟨rest, rfl⟩
  | name hc _ => cases h.symm.trans (lexeme?_of_isLetter hc _)
  | operator hc => cases h.symm.trans (lexeme?_of_isOperator hc _)
  | openParen => cases h
  | closeParen => cases h
  | assign => cases h

theorem lexeme?_eq_none_iff {cs : List Char} : lexeme? cs = none ↔ StartsNone cs := by
  refine ⟨startsNone_of_lexeme?, fun h => ?_⟩
  cases hl : lexeme? cs with
  | none => rfl
  | some lexeme =>
    have hlongest : Longest lexeme.1 lexeme.2 cs := longest_of_lexeme? hl
    exact absurd hlongest.head (h _ _ hlongest.lexeme)

theorem lexeme?_eq_some_iff {kind : Kind} {l cs : List Char} :
    lexeme? cs = some (kind, l) ↔ Longest kind l cs := by
  refine ⟨longest_of_lexeme?, fun h => ?_⟩
  cases htaken : lexeme? cs with
  | none => exact absurd h.head (startsNone_of_lexeme? htaken _ _ h.lexeme)
  | some taken =>
    obtain ⟨kind', l'⟩ := taken
    have h' := longest_of_lexeme? htaken
    obtain rfl := h.lexeme.kind_unique h'.lexeme h.head h'.head
    have hlength : l.length = l'.length :=
      Nat.le_antisymm (h'.longest l h.lexeme h.head) (h.longest l' h'.lexeme h'.head)
    rw [(List.prefix_of_prefix_length_le h.head h'.head hlength.le).eq_of_length hlength]

theorem not_isBlank_of_kindOf? {c : Char} {kind : Kind} (h : kindOf? c = some kind) :
    ¬ Text.isBlank c = true := by
  unfold kindOf? at h
  split at h
  · rename_i hc
    rcases Bool.or_eq_true_iff.mp hc with hc | hc
    · exact not_isBlank_of_isNameChar (isNameChar_of_isDigit hc)
    · rw [beq_iff_eq.mp hc]
      decide
  split at h
  · rename_i hc
    exact not_isBlank_of_isNameChar (isNameChar_of_isLetter hc)
  split at h
  · rename_i hc
    exact not_isBlank_of_isOperator hc
  split at h
  · rename_i hc
    rw [beq_iff_eq.mp hc]
    decide
  split at h
  · rename_i hc
    rw [beq_iff_eq.mp hc]
    decide
  split at h
  · rename_i hc
    rw [beq_iff_eq.mp hc]
    decide
  · cases h

/-! ## The walk of a scan -/

/-- A walk over the text from the left comes to the position and has taken these tokens. -/
inductive Reaches (text : List Char) : List Token → Nat → Prop
  | start : Reaches text [] 0
  | blank {ts : List Token} {p : Nat} {c : Char} {rest : List Char} : Reaches text ts p →
    text.drop p = c :: rest → Text.isBlank c = true → Reaches text ts (p + 1)
  | lexeme {ts : List Token} {p : Nat} {kind : Kind} {l : List Char} : Reaches text ts p →
    Longest kind l (text.drop p) →
    Reaches text (ts ++ [⟨kind, String.ofList l, p, p + l.length⟩]) (p + l.length)

/-- The walk cannot go on from the position, where that character stands. -/
def StuckAt (text : List Char) (p : Nat) (c : Char) : Prop :=
  ∃ rest, text.drop p = c :: rest ∧ ¬ Text.isBlank c = true ∧ StartsNone (c :: rest)

/-- Where a scan ended, a walk over the text ended. -/
def EndsAt (text : List Char) (s : Scan) : Prop :=
  match s.ending with
  | .finished n => n = text.length ∧ Reaches text s.tokens n
  | .stuck error => Reaches text s.tokens error.position ∧ StuckAt text error.position error.character

/-- Where the scan has come when it ends. -/
def Ending.position : Ending → Nat
  | .finished n => n
  | .stuck error => error.position

variable {text : List Char} {ts : List Token} {p : Nat}

theorem Longest.exists_cons {kind : Kind} {l cs : List Char} (h : Longest kind l cs) :
    ∃ c rest, cs = c :: rest ∧ ¬ Text.isBlank c = true := by
  obtain ⟨c, tail, rfl, hc⟩ := h.lexeme.exists_cons
  obtain ⟨rest, rfl⟩ := h.head
  exact ⟨c, _, rfl, not_isBlank_of_kindOf? hc⟩

/-- A scan goes on where a walk has come. -/
theorem scan_of_reaches (h : Reaches text ts p) : scan text = scanFrom ts.reverse p (text.drop p) := by
  induction h with
  | start => rfl
  | blank _ hd hb ih =>
    rw [ih, hd, scanFrom_blank hb, ← List.drop_drop, hd]
    rfl
  | lexeme _ hl ih =>
    obtain ⟨c, rest, hd, hb⟩ := hl.exists_cons
    rw [hd] at hl
    rw [ih, hd, scanFrom_lexeme hb (lexeme?_eq_some_iff.mpr hl), List.reverse_append, ← hd,
      List.drop_drop]
    rfl

theorem Reaches.le_length (h : Reaches text ts p) : p ≤ text.length := by
  induction h with
  | start => exact Nat.zero_le _
  | blank _ hd _ _ =>
    have := congrArg List.length hd
    rw [List.length_drop, List.length_cons] at this
    omega
  | lexeme _ hl ih =>
    have := hl.head.length_le
    rw [List.length_drop] at this
    omega

theorem endsAt_scanFrom (seen : List Token) (p : Nat) (cs : List Char) (hcs : cs = text.drop p)
    (h : Reaches text seen.reverse p) : EndsAt text (scanFrom seen p cs) := by
  induction seen, p, cs using scanFrom.induct with
  | case1 seen p =>
    rw [scanFrom_nil]
    exact ⟨Nat.le_antisymm h.le_length (List.drop_eq_nil_iff.mp hcs.symm), h⟩
  | case2 seen p c rest hb ih =>
    rw [scanFrom_blank hb]
    refine ih ?_ (h.blank hcs.symm hb)
    rw [← List.drop_drop, ← hcs]
    rfl
  | case3 seen p c rest hb hl =>
    rw [scanFrom_stuck hb hl]
    exact ⟨h, rest, hcs.symm, hb, startsNone_of_lexeme? hl⟩
  | case4 seen p c rest hb kind l hl ih =>
    rw [scanFrom_lexeme hb hl]
    refine ih ?_ ?_
    · rw [hcs, List.drop_drop]
    · rw [List.reverse_cons]
      exact h.lexeme (hcs ▸ longest_of_lexeme? hl)

theorem endsAt_scan (text : List Char) : EndsAt text (scan text) :=
  endsAt_scanFrom [] 0 text rfl .start

theorem EndsAt.reaches {s : Scan} (h : EndsAt text s) : Reaches text s.tokens s.ending.position := by
  obtain ⟨ts, n | error⟩ := s
  · exact h.2
  · exact h.1

/-- A scan ends exactly where a walk over the text does. -/
theorem scan_eq_iff {s : Scan} : scan text = s ↔ EndsAt text s := by
  constructor
  · rintro rfl
    exact endsAt_scan text
  · intro h
    obtain ⟨ts, n | ⟨c, p⟩⟩ := s
    · obtain ⟨rfl, h⟩ := h
      rw [scan_of_reaches h, List.drop_length, scanFrom_nil, List.reverse_reverse]
    · obtain ⟨h, rest, hd, hb, hnone⟩ := h
      have hd : text.drop p = c :: rest := hd
      rw [scan_of_reaches h, hd, scanFrom_stuck hb (lexeme?_eq_none_iff.mpr hnone),
        List.reverse_reverse]

/-- The walk comes to the start of each token with those before it. -/
theorem Reaches.before {t : Token} {before after : List Token} (h : Reaches text ts p)
    (hts : ts = before ++ t :: after) : Reaches text before t.start := by
  induction h generalizing after with
  | start => exact absurd hts (List.append_ne_nil_of_right_ne_nil _ (List.cons_ne_nil t after)).symm
  | blank _ _ _ ih => exact ih hts
  | @lexeme ts p kind l hreaches _ ih =>
    rcases List.eq_nil_or_concat after with rfl | ⟨after, u, rfl⟩
    · obtain ⟨rfl, ht⟩ := List.append_inj' hts rfl
      cases ht
      exact hreaches
    · rw [List.concat_eq_append, ← List.cons_append, ← List.append_assoc] at hts
      exact ih (List.append_inj' hts rfl).1

theorem Longest.take {kind : Kind} {l cs : List Char} (h : Longest kind l cs) {n : Nat}
    (hn : l.length ≤ n) : Longest kind l (cs.take n) :=
  ⟨h.lexeme, List.prefix_take_iff.mpr ⟨h.head, hn⟩,
    fun l' hl' hhead => h.longest l' hl' (hhead.trans (List.take_prefix n cs))⟩

/-- The walk does not depend on the text behind the position. -/
theorem Reaches.take (h : Reaches text ts p) {n : Nat} (hn : p ≤ n) :
    Reaches (text.take n) ts p := by
  induction h with
  | start => exact .start
  | @blank ts p c rest _ hd hb ih =>
    have hcut : (text.take n).drop p = c :: rest.take (n - (p + 1)) := by
      rw [List.drop_take, hd, show n - p = n - (p + 1) + 1 by omega, List.take_succ_cons]
    exact (ih (Nat.le_of_succ_le hn)).blank hcut hb
  | @lexeme ts p kind l _ hl ih =>
    refine (ih (Nat.le_of_add_right_le hn)).lexeme ?_
    rw [List.drop_take]
    exact hl.take (Nat.le_sub_of_add_le' hn)

/-- Cut where a token starts, a text has the tokens before it. -/
theorem scan_take {t : Token} {before after : List Token}
    (h : (scan text).tokens = before ++ t :: after) :
    scan (text.take t.start) = ⟨before, .finished t.start⟩ := by
  have hbefore := (endsAt_scan text).reaches.before h
  refine scan_eq_iff.mpr ⟨?_, hbefore.take (Nat.le_refl _)⟩
  rw [List.length_take, Nat.min_eq_left hbefore.le_length]

/-! ## Nothing is lost -/

theorem Reaches.stop_le (h : Reaches text ts p) : ∀ t ∈ ts, t.stop ≤ p := by
  induction h with
  | start => exact fun _ ht => absurd ht List.not_mem_nil
  | blank _ _ _ ih => exact fun t ht => Nat.le_succ_of_le (ih t ht)
  | lexeme _ _ ih =>
    intro t ht
    rcases List.mem_append.mp ht with ht | ht
    · exact Nat.le_add_right_of_le (ih t ht)
    · rw [List.mem_singleton.mp ht]

/-- Up to where the walk has come, every character belongs to a token or is white space. -/
theorem Reaches.covers (h : Reaches text ts p) {i : Nat} {c : Char} (hc : text[i]? = some c)
    (hi : i < p) : (∃ t ∈ ts, t.start ≤ i ∧ i < t.stop) ∨ Text.isBlank c = true := by
  induction h with
  | start => cases hi
  | @blank ts p b rest _ hd hb ih =>
    by_cases hp : i = p
    · have hhead : text[p]? = some b := by
        rw [← List.head?_drop, hd]
        rfl
      rw [hp, hhead] at hc
      exact Or.inr (Option.some.inj hc ▸ hb)
    · exact ih (by omega)
  | @lexeme ts p kind l _ _ ih =>
    by_cases hp : i < p
    · refine (ih hp).imp (fun ⟨t, ht, hspan⟩ => ?_) id
      exact ⟨t, List.mem_append_left _ ht, hspan⟩
    · exact Or.inl ⟨_, List.mem_append_right _ (List.mem_singleton_self _), Nat.not_lt.mp hp, hi⟩

/-- What stands between start and end of a token is its text. -/
theorem Stands.slice {t : Token} (h : Stands text t) :
    t.stop ≤ text.length ∧ t.text.toList = (text.drop t.start).take (t.stop - t.start) := by
  have hhead := (longest_of_lexeme? h.lexeme).head
  have hlength := hhead.length_le
  obtain ⟨c, rest, -, hlt⟩ := h.exists_cons
  have hstop := h.stop
  rw [List.length_drop] at hlength
  refine ⟨by omega, ?_⟩
  rw [hstop, Nat.add_sub_cancel_left]
  exact List.prefix_iff_eq_take.mp hhead

/-- The tokens as they are handed out; the finish comes last, if the scan comes to the end. -/
def Scan.yielded (s : Scan) : List Token :=
  match s.ending with
  | .finished n => s.tokens ++ [finish n]
  | .stuck _ => s.tokens

theorem apart_yielded (text : List Char) :
    (scan text).yielded.Pairwise fun t u => t.stop ≤ u.start := by
  have hapart := (laid_scan text).apart
  have hbefore := (endsAt_scan text).reaches.stop_le
  unfold Scan.yielded
  generalize scan text = s at *
  obtain ⟨ts, n | error⟩ := s
  · refine List.pairwise_append.mpr ⟨hapart, List.pairwise_singleton _ _, fun t ht u hu => ?_⟩
    rw [List.mem_singleton.mp hu]
    exact hbefore t ht
  · exact hapart

/-! ## Tokens with single spaces between them -/

/-- The texts of the tokens, joined by single spaces. -/
def spaced (ts : List Token) : String := " ".intercalate (ts.map Token.text)

/-- Kinds and texts, without the places. -/
def labels (ts : List Token) : List (Kind × String) := ts.map fun t => (t.kind, t.text)

theorem spaced_cons_cons (t u : Token) (ts : List Token) :
    (spaced (t :: u :: ts)).toList = t.text.toList ++ (' ' :: (spaced (u :: ts)).toList) := by
  have h : spaced (t :: u :: ts) = t.text ++ " " ++ spaced (u :: ts) :=
    String.intercalate_cons_cons
  rw [h, String.toList_append, String.toList_append, List.append_assoc]
  rfl

theorem spaced_singleton (t : Token) : spaced [t] = t.text := String.intercalate_singleton

/-- A lexeme is scanned as a token of its kind, in front of what does not go on with it. -/
theorem scans_of_isLexeme {kind : Kind} {l : List Char} (h : IsLexeme kind l) (start : Nat) :
    Scans Apart l start [⟨kind, String.ofList l, start, start + l.length⟩] := by
  have symbol : ∀ c, ¬ Text.isBlank c = true → (∀ rest, lexeme? (c :: rest) = some (kind, [c])) →
      Scans Apart [c] start [⟨kind, String.ofList [c], start, start + [c].length⟩] :=
    fun c hb hl seen rest _ => scans_symbol hb hl start seen rest trivial
  have number : ∀ l, IsLexeme .number l →
      Scans Apart l start [⟨.number, String.ofList l, start, start + l.length⟩] :=
    fun l hl => scans_number (isLexeme_number_iff.mp hl) start
  cases h with
  | whole hne hd => exact number _ (.whole hne hd)
  | decimal hd hp hne => exact number _ (.decimal hd hp hne)
  | name hc htail => exact scans_name hc htail start
  | operator hc => exact symbol _ (not_isBlank_of_isOperator hc) (lexeme?_of_isOperator hc)
  | openParen => exact symbol '(' (by decide) fun _ => rfl
  | closeParen => exact symbol ')' (by decide) fun _ => rfl
  | assign => exact symbol '=' (by decide) fun _ => rfl

theorem exists_respaced {ts : List Token} (h : ∀ t ∈ ts, IsLexeme t.kind t.text.toList)
    (start : Nat) : ∃ ts', Scans Apart (spaced ts).toList start ts' ∧ labels ts' = labels ts := by
  induction ts generalizing start with
  | nil => exact ⟨[], fun _ _ _ => rfl, rfl⟩
  | cons t ts ih =>
    obtain ⟨ht, hts⟩ := List.forall_mem_cons.mp h
    have hfirst := scans_of_isLexeme ht start
    rw [String.ofList_toList] at hfirst
    cases ts with
    | nil =>
      rw [spaced_singleton]
      exact ⟨_, hfirst, rfl⟩
    | cons u ts =>
      have hspace := scans_blank (by decide : Text.isBlank ' ' = true) (start + t.text.toList.length)
      obtain ⟨ts', hrest, hlabels⟩ := ih hts (start + t.text.toList.length + 1)
      rw [spaced_cons_cons]
      refine ⟨_, hfirst.append (hspace.append hrest fun _ _ => trivial) fun rest _ =>
        apart_cons (by decide) (by decide) _, ?_⟩
      exact congrArg ((t.kind, t.text) :: ·) hlabels

theorem spaced_concat_finish {ts : List Token} (hne : ts ≠ []) (n : Nat) :
    spaced (ts ++ [finish n]) = spaced ts ++ " " := by
  induction ts with
  | nil => exact absurd rfl hne
  | cons t ts ih =>
    cases ts with
    | nil =>
      show " ".intercalate [t.text, ""] = " ".intercalate [t.text] ++ " "
      rw [String.intercalate_cons_cons, String.intercalate_singleton, String.intercalate_singleton,
        String.append_empty]
    | cons u ts =>
      refine String.toList_inj.mp ?_
      have ih := congrArg String.toList (ih (List.cons_ne_nil u ts))
      rw [List.cons_append, List.cons_append, spaced_cons_cons, ← List.cons_append, ih,
        String.toList_append, String.toList_append, spaced_cons_cons, List.append_assoc,
        List.cons_append]

/-- With single spaces between them, lexemes are scanned as the same tokens; so they are with a space
behind the last one. -/
theorem scan_spaced {ts : List Token} (h : ∀ t ∈ ts, IsLexeme t.kind t.text.toList) (n : Nat) :
    ∃ ts' m m', labels ts' = labels ts ∧ scan (spaced ts).toList = ⟨ts', .finished m⟩ ∧
      scan (spaced (ts ++ [finish n])).toList = ⟨ts', .finished m'⟩ := by
  obtain ⟨ts', hscans, hlabels⟩ := exists_respaced h 0
  refine ⟨ts', (spaced ts).toList.length, ?_⟩
  by_cases hne : ts = []
  · subst hne
    obtain rfl := List.map_eq_nil_iff.mp hlabels
    have hempty : spaced ([] ++ [finish n]) = "" := String.intercalate_singleton
    rw [hempty]
    exact ⟨0, rfl, scan_of_scans hscans, scanFrom_nil [] 0⟩
  · rw [spaced_concat_finish hne, String.toList_append]
    exact ⟨_, hlabels, scan_of_scans hscans, scan_of_scans_blank hscans (by decide)⟩

theorem labels_yielded {ts ts' : List Token} (h : labels ts' = labels ts) (m n : Nat) :
    labels (ts' ++ [finish m]) = labels (ts ++ [finish n]) := by
  unfold labels at h ⊢
  rw [List.map_append, h, List.map_append]
  rfl

/-- The tokens of a scan stand in the text one after another, each is the longest lexeme of its kind
where it starts, and only white space is between them. The scan comes to the end of the text, and hands
out one finish there and nowhere else, exactly if the walk over longest lexemes does; it is stuck at a
character exactly if that walk is, and then hands out the tokens before it. Joined by single spaces the
tokens of a text that is scanned to its end are the same again. -/
theorem scan_lossless (text : List Char) :
    let s := scan text
    (s.yielded.Pairwise fun t u => t.stop ≤ u.start) ∧
    (∀ t ∈ s.tokens, t.kind ≠ .finish ∧ t.start < t.stop ∧ t.stop ≤ text.length ∧
      t.text.toList = (text.drop t.start).take (t.stop - t.start) ∧
      Longest t.kind t.text.toList (text.drop t.start)) ∧
    (∀ i c, text[i]? = some c → i < s.ending.position →
      (∃ t ∈ s.tokens, t.start ≤ i ∧ i < t.stop) ∨ Text.isBlank c = true) ∧
    (∀ ts n, s = ⟨ts, .finished n⟩ ↔ n = text.length ∧ Reaches text ts n) ∧
    (∀ ts c p, s = ⟨ts, .stuck ⟨c, p⟩⟩ ↔ Reaches text ts p ∧ StuckAt text p c) ∧
    (∀ error, s.ending = .stuck error → s.yielded = s.tokens) ∧
    ∀ n, s.ending = .finished n → s.yielded = s.tokens ++ [finish text.length] ∧
      labels (scan (spaced s.tokens).toList).yielded = labels s.yielded ∧
      labels (scan (spaced s.yielded).toList).yielded = labels s.yielded := by
  intro s
  have htokens : ∀ t ∈ s.tokens, Stands text t := (laid_scan text).stands
  have hlongest : ∀ t ∈ s.tokens, Longest t.kind t.text.toList (text.drop t.start) :=
    fun t ht => longest_of_lexeme? (htokens t ht).lexeme
  have hends : EndsAt text s := endsAt_scan text
  refine ⟨apart_yielded text, fun t ht => ?_, fun i c => hends.reaches.covers,
    fun ts n => scan_eq_iff, fun ts c p => scan_eq_iff, fun error h => ?_, fun n h => ?_⟩
  · obtain ⟨_, _, -, hlt⟩ := (htokens t ht).exists_cons
    obtain ⟨hstop, hslice⟩ := (htokens t ht).slice
    exact ⟨(hlongest t ht).lexeme.ne_finish, hlt, hstop, hslice, hlongest t ht⟩
  · unfold Scan.yielded
    rw [h]
  · have hn : n = text.length := by
      unfold EndsAt at hends
      rw [h] at hends
      exact hends.1
    have hyielded : s.yielded = s.tokens ++ [finish n] := by
      unfold Scan.yielded
      rw [h]
    obtain ⟨ts, m, m', hlabels, hscan, hscan'⟩ :=
      scan_spaced (fun t ht => (hlongest t ht).lexeme) n
    rw [hyielded, hscan, hscan', hn]
    exact ⟨rfl, labels_yielded hlabels m _, labels_yielded hlabels m' _⟩

/-- A point belongs to the number before it if it can, and to the one behind it otherwise. -/
theorem scan_lossless_of_points :
    let text := "1..2 #".toList
    let s := scan text
    let t : Token := ⟨.number, "1.", 0, 2⟩
    t ∈ s.tokens ∧ Longest .number "1.".toList text ∧
      (∃ ts, s = ⟨ts, .stuck ⟨'#', 5⟩⟩ ∧ Reaches text ts 5 ∧ StuckAt text 5 '#' ∧ s.yielded = ts) ∧
      (scan "1..2".toList).ending = .finished 4 ∧
      labels (scan "1. .2".toList).yielded = labels (scan "1..2".toList).yielded := by
  intro text s t
  have ht : t ∈ s.tokens := by decide +kernel
  have hstuck : s = ⟨s.tokens, .stuck ⟨'#', 5⟩⟩ := by decide +kernel
  have hfinished : (scan "1..2".toList).ending = .finished 4 := by decide +kernel
  have hspaced : spaced (scan "1..2".toList).tokens = "1. .2" := by decide +kernel
  obtain ⟨-, htokens, -, -, hstuckIff, hyielded, -⟩ := scan_lossless text
  obtain ⟨-, -, -, -, -, -, hagain⟩ := scan_lossless "1..2".toList
  obtain ⟨-, -, -, -, hlongest⟩ := htokens t ht
  obtain ⟨hreaches, hat⟩ := (hstuckIff s.tokens '#' 5).mp hstuck
  obtain ⟨-, hlabels, -⟩ := hagain 4 hfinished
  rw [hspaced] at hlabels
  exact ⟨ht, hlongest, ⟨s.tokens, hstuck, hreaches, hat, hyielded _ (congrArg Scan.ending hstuck)⟩,
    hfinished, hlabels⟩

end ExactCalc.Token
