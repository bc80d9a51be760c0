/-
  ExactCalc.Proofs.Number.Conversion — numerals that are converted in pieces are plain
  decimal numerals, however long they are (`conversion_in_pieces`; see
  `ExactCalc.Number.Digits`).

  What is plain is said without pieces. The value of digits is the sum of what each of
  them counts in its place (`placeValue`), and a number has one numeral only, as no zero
  stands in front of other digits (`isPlain_iff`). The pieces show in what converts a
  single one of them. `ofDigitsBy` and `ofIntBy` leave that open, and are `ofDigits` and
  `ofInt` where every piece is converted (`ofDigitsBy_readPiece`, `ofIntBy_toDigits`).
  It is never asked for more than a thousand digits (`ofDigitsBy_congr`,
  `ofIntBy_congr`), so it may as well refuse them.
-/

import ExactCalc.Proofs.Number.Truncation

namespace ExactCalc.Digits

/-! ## Plain numerals -/

/-- What digits are worth: each counts its value times the power of ten of its place. -/
def placeValue : List Char → Nat
  | [] => 0
  | c :: rest => (c.toNat - 48) * 10 ^ rest.length + placeValue rest

/-- The decimal numeral of a natural number, without a zero in front of other digits. -/
structure IsPlain (n : Nat) (ds : List Char) : Prop where
  ne_nil : ds ≠ []
  digits : ∀ c ∈ ds, c.isDigit = true
  leading : ds.head? = some '0' → ds = ['0']
  value : placeValue ds = n

/-- Reading from the left gives the digits what they are worth in their places. -/
theorem ofDigitChars_eq_placeValue (cs : List Char) : Nat.ofDigitChars 10 cs 0 = placeValue cs := by
  induction cs with
  | nil => rfl
  | cons c rest ih =>
    rw [Nat.ofDigitChars_cons, Nat.ofDigitChars_eq_ofDigitChars_zero, ih, Nat.mul_zero, Nat.zero_add,
      Nat.mul_comm, placeValue]
    rfl

/-- Zeros in front are worth nothing. -/
theorem placeValue_zeros (k : Nat) (cs : List Char) :
    placeValue (List.replicate k '0' ++ cs) = placeValue cs := by
  induction k with
  | zero => rfl
  | succ k ih =>
    rw [List.replicate_succ, List.cons_append, placeValue, ih]
    exact Nat.add_eq_right.mpr (Nat.zero_mul _)

theorem isDigit_of_mem_zeros {k : Nat} {c : Char} (h : c ∈ List.replicate k '0') : c.isDigit = true := by
  rw [List.eq_of_mem_replicate h]
  rfl

variable {n : Nat} {ds : List Char}

theorem isPlain_ofNat (n : Nat) : IsPlain n (ofNat n) where
  ne_nil := ofNat_ne_nil n
  digits := fun _ => isDigit_of_mem_ofNat
  leading := by
    rw [ofNat_eq]
    intro hzero
    rw [Text.head?_toDigits hzero, Nat.toDigits_zero]
  value := by rw [← ofDigitChars_eq_placeValue, ofDigitChars_ofNat]

theorem isPlain_iff : IsPlain n ds ↔ ds = ofNat n := by
  constructor
  · intro h
    rw [ofNat_eq, ← h.value, ← ofDigitChars_eq_placeValue,
      Text.toDigits_ofDigitChars h.ne_nil h.digits h.leading]
  · rintro rfl
    exact isPlain_ofNat n

/-! ## Whatever converts a piece -/

section

variable {m : Type → Type} [Monad m]

/-- The number that decimal digits denote, where `read` reads a single piece. -/
def ofDigitsBy (read : List Char → m Int) (cs : List Char) : m Int :=
  (pieces (pieceSize - 1) cs).foldlM (fun value piece => do
    let n ← read piece
    return value * (Nat.pow 10 piece.length : Nat) + n) 0

/-- The numerals of pieces put together, all but the first one filled up with zeros. -/
def joined : List (List Char) → List Char
  | [] => []
  | head :: tail => head ++ tail.flatMap fun ds => List.replicate (pieceSize - ds.length) '0' ++ ds

/-- The decimal numeral of an integer, where `write` writes a single piece. -/
def ofIntBy (write : Nat → m (List Char)) (i : Int) : m (List Char) := do
  let written ← (groups (Nat.pow 10 pieceSize - 2) i.natAbs).reverse.mapM write
  return if i < 0 then '-' :: joined written else joined written

theorem foldlM_congr {α β : Type} {f g : β → α → m β} {xs : List α}
    (h : ∀ a ∈ xs, ∀ b, f b a = g b a) (b : β) : xs.foldlM f b = xs.foldlM g b := by
  induction xs generalizing b with
  | nil => rfl
  | cons a rest ih =>
    have hrest : rest.foldlM f = rest.foldlM g := funext (ih fun x hx => h x (List.mem_cons_of_mem _ hx))
    rw [List.foldlM_cons, List.foldlM_cons, h a List.mem_cons_self, hrest]

/-- No text makes the reader read more than a piece at once. -/
theorem ofDigitsBy_congr {read read' : List Char → m Int}
    (h : ∀ piece, piece.length ≤ pieceSize → read piece = read' piece) (cs : List Char) :
    ofDigitsBy read cs = ofDigitsBy read' cs := by
  unfold ofDigitsBy
  refine foldlM_congr (fun piece hpiece value => ?_) 0
  rw [h piece (length_le_of_mem_pieces hpiece)]

/-- A digit is smaller than the base. -/
theorem lt_of_mem_groups {size d : Nat} (h : d ∈ groups size n) : d < size + 2 := by
  induction n using groups.induct size with
  | case1 n hn =>
    rw [groups, if_pos hn] at h
    rw [List.mem_singleton.mp h]
    exact hn
  | case2 n hn ih =>
    rw [groups, if_neg hn] at h
    rcases List.mem_cons.mp h with rfl | h
    · exact Nat.mod_lt _ (by omega)
    · exact ih h

/-- The pieces of a number have no more digits than a piece may have. -/
theorem length_toDigits_of_mem_groups {base d : Nat} (hb : 1 < base)
    (h : d ∈ groups (Nat.pow base pieceSize - 2) n) : (Nat.toDigits base d).length ≤ pieceSize := by
  have hlt := lt_of_mem_groups h
  rw [groupBase hb] at hlt
  exact (Nat.length_toDigits_le_iff hb (by decide)).mpr hlt

variable [LawfulMonad m]

theorem mapM_congr {α β : Type} {f g : α → m β} {xs : List α} (h : ∀ a ∈ xs, f a = g a) :
    xs.mapM f = xs.mapM g := by
  induction xs with
  | nil => rfl
  | cons a rest ih =>
    rw [List.mapM_cons, List.mapM_cons, h a List.mem_cons_self,
      ih fun x hx => h x (List.mem_cons_of_mem _ hx)]

/-- No number makes the writer write more than a piece at once. -/
theorem ofIntBy_congr {write write' : Nat → m (List Char)}
    (h : ∀ n, (Nat.toDigits 10 n).length ≤ pieceSize → write n = write' n) (i : Int) :
    ofIntBy write i = ofIntBy write' i := by
  unfold ofIntBy
  rw [mapM_congr fun d hd => h d (length_toDigits_of_mem_groups (by decide) (List.mem_reverse.mp hd))]

/-- Where the pieces are written as they are, so is the whole. -/
theorem ofIntBy_toDigits (i : Int) :
    ofIntBy (fun n => (pure (Nat.toDigits 10 n) : m (List Char))) i = pure (ofInt i) := by
  have hjoined : joined ((groups (Nat.pow 10 pieceSize - 2) i.natAbs).reverse.map (Nat.toDigits 10)) =
      ofNat i.natAbs := by
    unfold ofNat inBase
    cases (groups (Nat.pow 10 pieceSize - 2) i.natAbs).reverse with
    | nil => rfl
    | cons head tail =>
      rw [List.map_cons, joined, List.flatMap_map]
      -- what is left is how `padded` is defined
      rfl
  unfold ofIntBy ofInt
  rw [List.mapM_pure, pure_bind, hjoined]

end

/-! ## Pieces that are refused -/

/-- Converts what has up to `limit` digits, and refuses all else. -/
def upTo {α β : Type} (limit : Nat) (size : α → Nat) (convert : α → Except Fault β) (a : α) :
    Except Fault β :=
  if size a ≤ limit then convert a else .error .numeralTooLong

/-- The number of a single piece. -/
def readPiece (piece : List Char) : Except Fault Int :=
  match Text.Numeral.decimal? piece with
  | some n => .ok n
  | none => .error (.malformedNumeral piece)

def readUpTo (limit : Nat) : List Char → Except Fault Int := upTo limit List.length readPiece

def writeUpTo (limit : Nat) : Nat → Except Fault (List Char) :=
  upTo limit (fun n => (Nat.toDigits 10 n).length) fun n => .ok (Nat.toDigits 10 n)

theorem ofDigitsBy_readPiece (cs : List Char) : ofDigitsBy readPiece cs = ofDigits cs := by
  unfold ofDigitsBy ofDigits
  refine foldlM_congr (fun piece _ value => ?_) 0
  unfold addPiece readPiece
  cases Text.Numeral.decimal? piece <;> rfl

variable {limit : Nat}

theorem ofDigitsBy_readUpTo (hl : pieceSize ≤ limit) (cs : List Char) :
    ofDigitsBy (readUpTo limit) cs = ofDigits cs := by
  rw [← ofDigitsBy_readPiece]
  exact ofDigitsBy_congr (fun piece hpiece => if_pos (hpiece.trans hl)) cs

theorem ofIntBy_writeUpTo (hl : pieceSize ≤ limit) (i : Int) :
    ofIntBy (writeUpTo limit) i = .ok (ofInt i) := by
  have hwrite : ofIntBy (writeUpTo limit) i = ofIntBy (fun n => .ok (Nat.toDigits 10 n)) i :=
    ofIntBy_congr (fun n hn => if_pos (hn.trans hl)) i
  exact hwrite.trans (ofIntBy_toDigits i)

/-! ## Both directions -/

theorem ofDigits_ofInt {i : Int} (h : 0 ≤ i) : ofDigits (ofInt i) = .ok i := by
  unfold ofInt
  rw [if_neg (Int.not_lt.mpr h), ofDigits_of_digits fun c hc => isDigit_of_mem_ofNat hc,
    ofDigitChars_ofNat, Int.natAbs_of_nonneg h]

/-- The numeral of an integer is the plain one, behind a minus sign if it is negative, and no other text
is. Digits, whether zeros stand in front or there are none at all, are read as what they are worth in
their places, so that natural numbers are read back from their numerals. All this is so even where a
piece of more than a thousand digits would be refused, in reading as in writing. -/
theorem conversion_in_pieces (i : Int) {s : List Char} (hs : ∀ c ∈ s, c.isDigit = true) :
    (∀ cs, cs = ofInt i ↔
      ∃ ds, IsPlain i.natAbs ds ∧ cs = if i < 0 then '-' :: ds else ds) ∧
    ofDigits s = .ok (placeValue s) ∧
    (0 ≤ i → ofDigits (ofInt i) = .ok i) ∧
    ∀ limit ≥ 1000, ofIntBy (writeUpTo limit) i = .ok (ofInt i) ∧
      ∀ text, ofDigitsBy (readUpTo limit) text = ofDigits text := by
  refine ⟨fun cs => ?_, ?_, ofDigits_ofInt, fun limit hl =>
    ⟨ofIntBy_writeUpTo hl i, ofDigitsBy_readUpTo hl⟩⟩
  · simp only [isPlain_iff, exists_eq_left]
    exact Iff.rfl
  · rw [ofDigits_of_digits hs, ofDigitChars_eq_placeValue]

/-- A piece of zeros in the middle of a number, and one in front of a number. -/
theorem conversion_in_pieces_of_zeros :
    ofInt (-(10 ^ 2000 + 5)) = '-' :: '1' :: (List.replicate 1999 '0' ++ ['5']) ∧
    ofDigits (List.replicate 1000 '0' ++ ['1', '2']) = .ok 12 ∧
    ofIntBy (writeUpTo 1000) (-(10 ^ 2000 + 5)) = .ok (ofInt (-(10 ^ 2000 + 5))) ∧
    ofDigitsBy (readUpTo 1000) (List.replicate 1000 '0' ++ ['1', '2']) = .ok 12 := by
  have hdigits : ∀ c ∈ List.replicate 1000 '0' ++ ['1', '2'], c.isDigit = true :=
    List.forall_mem_append.mpr ⟨fun _ => isDigit_of_mem_zeros,
      List.forall_mem_cons.mpr ⟨by decide, List.forall_mem_singleton.mpr (by decide)⟩⟩
  obtain ⟨hplain, hread, -, hlimit⟩ := conversion_in_pieces (-(10 ^ 2000 + 5)) hdigits
  obtain ⟨hwrite, hrefused⟩ := hlimit 1000 (Nat.le_refl 1000)
  rw [placeValue_zeros] at hread
  have hnegative : (-(10 ^ 2000 + 5) : Int) < 0 := by decide +kernel
  have hnumeral : IsPlain (-(10 ^ 2000 + 5) : Int).natAbs ('1' :: (List.replicate 1999 '0' ++ ['5'])) :=
    { ne_nil := List.cons_ne_nil _ _
      digits := List.forall_mem_cons.mpr ⟨by decide,
        List.forall_mem_append.mpr ⟨fun _ => isDigit_of_mem_zeros,
          List.forall_mem_singleton.mpr (by decide)⟩⟩
      leading := fun h => absurd (Option.some.inj h) (by decide)
      value := by
        rw [placeValue, placeValue_zeros, List.length_append, List.length_replicate]
        decide +kernel }
  exact ⟨((hplain _).mpr ⟨_, hnumeral, (if_pos hnegative).symm⟩).symm, hread, hwrite,
    (hrefused _).trans hread⟩

end ExactCalc.Digits
