/-
  ExactCalc.Pieces — a list cut into pieces of one length, the last one perhaps shorter.
-/

namespace ExactCalc

/-- Pieces of `size + 1` elements from the left; the last one holds what is left over. -/
def pieces {α : Type} (size : Nat) (xs : List α) : List (List α) :=
  match xs with
  | [] => []
  | x :: rest => (x :: rest.take size) :: pieces size (rest.drop size)
termination_by xs.length
decreasing_by simp only [List.length_drop, List.length_cons]; omega

variable {α : Type} {size : Nat}

theorem flatten_pieces (size : Nat) (xs : List α) : (pieces size xs).flatten = xs := by
  induction xs using pieces.induct size with
  | case1 => simp [pieces]
  | case2 x rest ih =>
    rw [pieces, List.flatten_cons, ih, List.cons_append, List.take_append_drop]

theorem length_le_of_mem_pieces {xs piece : List α} (h : piece ∈ pieces size xs) :
    piece.length ≤ size + 1 := by
  induction xs using pieces.induct size with
  | case1 => simp [pieces] at h
  | case2 x rest ih =>
    rw [pieces] at h
    rcases List.mem_cons.mp h with rfl | h
    · rw [List.length_cons, List.length_take]
      omega
    · exact ih h

/-- A list that is not too long is one piece. -/
theorem pieces_of_le {xs : List α} (hne : xs ≠ []) (hle : xs.length ≤ size + 1) :
    pieces size xs = [xs] := by
  cases xs with
  | nil => exact absurd rfl hne
  | cons x rest =>
    have hrest : rest.length ≤ size := Nat.le_of_succ_le_succ hle
    rw [pieces, List.take_of_length_le hrest, List.drop_of_length_le hrest, pieces]

/-- A whole piece in front is cut off first. -/
theorem pieces_append {xs : List α} (h : xs.length = size + 1) (rest : List α) :
    pieces size (xs ++ rest) = xs :: pieces size rest := by
  cases xs with
  | nil => cases h
  | cons x front =>
    have hfront : front.length = size := Nat.succ.inj h
    rw [List.cons_append, pieces, List.take_left' hfront, List.drop_left' hfront]

end ExactCalc
