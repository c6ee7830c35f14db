/-
# Theory.Splice — pieces of lists, read and written in place

`slice` is the piece of a list between two positions, `splice` the list with another piece
at a position.  Pieces that meet make one piece (`slice_append`).  What is written is read
back (`slice_splice_self`), and what is in front of it stays (`slice_splice_before`).  A
piece that is written short comes to the same exactly if its rest was there before
(`splice_take_iff`).
-/
import Mathlib.Data.List.Basic

namespace UdpStuff.Theory

set_option autoImplicit false

universe u

variable {α : Type u}

/-- The elements from the first position to the one before the second. -/
def slice (xs : List α) (first stop : Nat) : List α := (xs.drop first).take (stop - first)

/-- The list with the piece in place of as many elements. -/
def splice (xs : List α) (pos : Nat) (piece : List α) : List α :=
  xs.take pos ++ (piece ++ xs.drop (pos + piece.length))

theorem length_slice {xs : List α} {first stop : Nat} (inside : stop ≤ xs.length) :
    (slice xs first stop).length = stop - first := by
  rw [slice, List.length_take, List.length_drop]
  omega

@[simp] theorem slice_self (xs : List α) (pos : Nat) : slice xs pos pos = [] := by
  rw [slice, Nat.sub_self, List.take_zero]

/-- Pieces that meet. -/
theorem slice_append (xs : List α) {first middle stop : Nat} (le : first ≤ middle)
    (le' : middle ≤ stop) : slice xs first middle ++ slice xs middle stop = slice xs first stop := by
  have split : stop - first = (middle - first) + (stop - middle) := by omega
  have rest : xs.drop middle = (xs.drop first).drop (middle - first) := by
    rw [List.drop_drop]
    congr 1
    omega
  rw [slice, slice, slice, split, List.take_add, rest]

theorem length_splice {xs piece : List α} {pos : Nat} (inside : pos + piece.length ≤ xs.length) :
    (splice xs pos piece).length = xs.length := by
  simp only [splice, List.length_append, List.length_take, List.length_drop]
  omega

/-- What is written is read back. -/
theorem slice_splice_self {xs : List α} {pos : Nat} (inside : pos ≤ xs.length) (piece : List α) :
    slice (splice xs pos piece) pos (pos + piece.length) = piece := by
  have front : (xs.take pos).length = pos := by
    rw [List.length_take]
    omega
  rw [slice, splice, Nat.add_sub_cancel_left, List.drop_left' front, List.take_left]

/-- What is in front of the place stays. -/
theorem slice_splice_before (xs piece : List α) {first stop pos : Nat} (before : stop ≤ pos)
    (inside : pos ≤ xs.length) : slice (splice xs pos piece) first stop = slice xs first stop := by
  have front : (splice xs pos piece).take stop = xs.take stop := by
    rw [splice, List.take_append_of_le_length (by rw [List.length_take]; omega), List.take_take,
      Nat.min_eq_left before]
  have cut (ys : List α) : slice ys first stop = (ys.take stop).drop first := by
    rw [slice, List.drop_take]
  rw [cut, cut, front]

/-- A piece that is not written to its end. -/
theorem splice_take_iff {xs piece : List α} {pos n : Nat} (fits : n ≤ piece.length) :
    splice xs pos (piece.take n) = splice xs pos piece ↔
      piece.drop n = slice xs (pos + n) (pos + piece.length) := by
  have short : (piece.take n).length = n := by
    rw [List.length_take]
    omega
  have rest : xs.drop (pos + n) =
      slice xs (pos + n) (pos + piece.length) ++ xs.drop (pos + piece.length) := by
    have cut := List.take_append_drop (piece.length - n) (xs.drop (pos + n))
    have stop : pos + n + (piece.length - n) = pos + piece.length := by omega
    have size : pos + piece.length - (pos + n) = piece.length - n := by omega
    rw [List.drop_drop, stop] at cut
    rw [slice, size, cut]
  have whole : piece.take n ++ piece.drop n = piece := List.take_append_drop n piece
  constructor
  · intro same
    rw [splice, splice, short, List.append_cancel_left_eq, rest, ← List.append_assoc,
      List.append_cancel_right_eq] at same
    exact (List.append_cancel_left (whole.trans same.symm))
  · intro there
    rw [splice, splice, short, rest, ← there, ← List.append_assoc (piece.take n), whole]

end UdpStuff.Theory
