/-
# Theory.RingPositions — positions on a ring of `size` cells

A step goes to the next cell and from the last one to the first; `k` steps from
`start` lead to `(start + k) % size` (`iterate_ringNext`).  A ring that is kept by
its first position and the one behind its last holds `ringLength` cells, fewer than
`size`: that many steps lead from the one to the other and no fewer
(`ring_reaches`, `ring_before`).
-/
import Mathlib.Logic.Function.Iterate

namespace UdpStuff.Theory

set_option autoImplicit false

def ringNext (size pos : Nat) : Nat := if pos + 1 < size then pos + 1 else 0

def ringPrev (size pos : Nat) : Nat := if pos = 0 then size - 1 else pos - 1

/-- The number of cells from `start` to the one before `stop`. -/
def ringLength (size start stop : Nat) : Nat :=
  if start ≤ stop then stop - start else size + stop - start

variable {size start stop pos : Nat}

theorem ringNext_eq_mod (inside : pos < size) : ringNext size pos = (pos + 1) % size := by
  unfold ringNext
  split
  case isTrue below => exact (Nat.mod_eq_of_lt below).symm
  case isFalse last =>
    have whole : pos + 1 = size := by omega
    rw [whole, Nat.mod_self]

theorem ringPrev_ringNext (inside : pos < size) : ringPrev size (ringNext size pos) = pos := by
  unfold ringPrev ringNext
  split <;> split <;> omega

theorem iterate_ringNext (inside : start < size) (k : Nat) :
    (ringNext size)^[k] start = (start + k) % size := by
  induction k with
  | zero => exact (Nat.mod_eq_of_lt inside).symm
  | succ k ih =>
      have within : (start + k) % size < size := Nat.mod_lt _ (by omega)
      rw [Function.iterate_succ_apply', ih, ringNext_eq_mod within, Nat.mod_add_mod]
      rfl

theorem ringLength_lt (inside : start < size) (inside' : stop < size) :
    ringLength size start stop < size := by
  unfold ringLength
  split <;> omega

theorem ringLength_eq_zero (inside : start < size) :
    ringLength size start stop = 0 ↔ start = stop := by
  unfold ringLength
  split <;> omega

/-- The cells that are behind the wrap point are at the front of the array. -/
theorem ring_position (inside : start < size) {k : Nat} (turn : k < size) :
    (start + k) % size = if start + k < size then start + k else start + k - size := by
  split
  case isTrue below => exact Nat.mod_eq_of_lt below
  case isFalse beyond =>
    rw [Nat.mod_eq_sub_mod (by omega), Nat.mod_eq_of_lt (by omega)]

theorem ring_reaches (inside : start < size) (inside' : stop < size) :
    (start + ringLength size start stop) % size = stop := by
  rw [ring_position inside (ringLength_lt inside inside')]
  unfold ringLength
  split <;> split <;> omega

theorem ring_before (inside : start < size) (inside' : stop < size) {k : Nat}
    (before : k < ringLength size start stop) : (start + k) % size ≠ stop := by
  have turn := ringLength_lt inside inside'
  rw [ring_position inside (by omega)]
  unfold ringLength at before
  split <;> split at before <;> omega

end UdpStuff.Theory
