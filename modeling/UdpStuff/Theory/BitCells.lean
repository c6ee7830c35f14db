/-
# Theory.BitCells — the bits of a row of cells

Cells of `W` bits stand in a row, the lowest bit of each first.  `cellBit` finds a
bit by its position, and is all that two rows have to agree on; `cellsBits` lists
them.  What appending and overwriting a cell do is said bit by bit.
-/
import UdpStuff.Theory.BitCode
import Mathlib.Data.List.GetD

namespace UdpStuff.Theory

set_option autoImplicit false

/-! ## Bits of a number, by position -/

theorem getElem?_bitsOf (n v i : Nat) :
    (bitsOf n v)[i]? = if i < n then some (v.testBit i) else none := by
  induction n generalizing v i with
  | zero => rfl
  | succ n ih =>
      cases i with
      | zero =>
          rw [bitsOf, List.getElem?_cons_zero, if_pos (Nat.succ_pos n), Nat.testBit_zero]
          rfl
      | succ i =>
          rw [bitsOf, List.getElem?_cons_succ, ih, Nat.testBit_add_one]
          simp only [Nat.succ_lt_succ_iff]

theorem testBit_eq_false_of_le {v n i : Nat} (small : v < 2 ^ n) (above : n ≤ i) :
    v.testBit i = false :=
  Nat.testBit_lt_two_pow (Nat.lt_of_lt_of_le small (Nat.pow_le_pow_right (by decide) above))

/-! ## Cells -/

/-- Bit `p` of the row; past its end there are only zeros. -/
def cellBit (W : Nat) (cells : List Nat) (p : Nat) : Bool := (cells.getD (p / W) 0).testBit (p % W)

/-- The bits of the row in order. -/
def cellsBits (W : Nat) (cells : List Nat) : List Bool := cells.flatMap (bitsOf W)

variable {W : Nat} {cells : List Nat}

@[simp] theorem length_cellsBits : (cellsBits W cells).length = W * cells.length := by
  induction cells with
  | nil => rfl
  | cons c rest ih =>
      rw [cellsBits, List.flatMap_cons, List.length_append, length_bitsOf, ← cellsBits, ih,
        List.length_cons, Nat.mul_succ, Nat.add_comm]

theorem cellBit_beyond {p : Nat} (beyond : W * cells.length ≤ p) (base : 0 < W) :
    cellBit W cells p = false := by
  have past : cells.length ≤ p / W := by
    rw [Nat.le_div_iff_mul_le base, Nat.mul_comm]
    exact beyond
  rw [cellBit, List.getD_eq_default _ _ past, Nat.zero_testBit]

/-- A position, as a cell and a place in it. -/
theorem cellBit_at (base : 0 < W) {i j : Nat} (inside : j < W) :
    cellBit W cells (W * i + j) = (cells.getD i 0).testBit j := by
  rw [cellBit, Nat.mul_add_div base, Nat.div_eq_of_lt inside, Nat.add_zero, Nat.mul_add_mod,
    Nat.mod_eq_of_lt inside]

theorem getElem?_cellsBits (base : 0 < W) (p : Nat) :
    (cellsBits W cells)[p]? = if p < W * cells.length then some (cellBit W cells p) else none := by
  induction cells generalizing p with
  | nil => rfl
  | cons c rest ih =>
      rw [cellsBits, List.flatMap_cons, ← cellsBits, List.length_cons, Nat.mul_succ]
      by_cases first : p < W
      · rw [List.getElem?_append_left (by rwa [length_bitsOf]), getElem?_bitsOf, if_pos first,
          if_pos (by omega), cellBit, Nat.div_eq_of_lt first, Nat.mod_eq_of_lt first,
          List.getD_cons_zero]
      · obtain ⟨q, rfl⟩ : ∃ q, p = W + q := ⟨p - W, by omega⟩
        have step : cellBit W (c :: rest) (W + q) = cellBit W rest q := by
          rw [cellBit, cellBit, Nat.add_div_left _ base, Nat.add_mod_left, List.getD_cons_succ]
        rw [List.getElem?_append_right (by rw [length_bitsOf]; omega), length_bitsOf,
          Nat.add_sub_cancel_left, ih, step]
        by_cases inside : q < W * rest.length
        · rw [if_pos inside, if_pos (by omega)]
        · rw [if_neg inside, if_neg (by omega)]

/-- One more cell at the end. -/
theorem cellBit_push (base : 0 < W) (c p : Nat) :
    cellBit W (cells ++ [c]) p =
      if p < W * cells.length then cellBit W cells p
      else p < W * (cells.length + 1) && c.testBit (p - W * cells.length) := by
  by_cases front : p < W * cells.length
  · have inside : p / W < cells.length := by rwa [Nat.div_lt_iff_lt_mul base, Nat.mul_comm]
    rw [if_pos front, cellBit, cellBit, List.getD_append _ _ _ _ inside]
  · rw [if_neg front]
    obtain ⟨q, rfl⟩ : ∃ q, p = W * cells.length + q := ⟨p - W * cells.length, by omega⟩
    rw [Nat.add_sub_cancel_left]
    by_cases last : q < W
    · rw [cellBit_at base last, List.getD_append_right _ _ _ _ (le_refl _), Nat.sub_self,
        List.getD_cons_zero, Nat.mul_succ, decide_eq_true (by omega), Bool.true_and]
    · rw [cellBit_beyond (by rw [List.length_append, List.length_singleton, Nat.mul_succ]; omega) base,
        Nat.mul_succ, decide_eq_false (by omega), Bool.false_and]

/-- The same, from a position inside the cell. -/
theorem cellBit_of_between (base : 0 < W) {i p : Nat} (start : W * i ≤ p) (stop : p < W * i + W) :
    cellBit W cells p = (cells.getD i 0).testBit (p - W * i) := by
  have place : W * i + (p - W * i) = p := by omega
  have bit := @cellBit_at W cells base i (p - W * i) (by omega)
  rwa [place] at bit

/-- One cell is overwritten. -/
theorem cellBit_set (base : 0 < W) {i : Nat} (inside : i < cells.length) (c p : Nat) :
    cellBit W (cells.set i c) p =
      if W * i ≤ p ∧ p < W * i + W then c.testBit (p - W * i) else cellBit W cells p := by
  by_cases here : W * i ≤ p ∧ p < W * i + W
  · rw [if_pos here, cellBit_of_between base here.1 here.2, List.getD_eq_getElem?_getD,
      List.getElem?_set_self inside, Option.getD_some]
  · have other : i ≠ p / W := by
      rintro rfl
      exact here ⟨Nat.mul_div_le p W, Nat.lt_mul_div_succ p base⟩
    rw [if_neg here, cellBit, List.getD_eq_getElem?_getD, List.getElem?_set_ne other, cellBit,
      List.getD_eq_getElem?_getD]

/-- Rows of small cells are equal if their bits are. -/
theorem cells_ext (base : 0 < W) {left right : List Nat} (size : left.length = right.length)
    (smallLeft : ∀ c ∈ left, c < 2 ^ W) (smallRight : ∀ c ∈ right, c < 2 ^ W)
    (same : ∀ p, p < W * left.length → cellBit W left p = cellBit W right p) : left = right := by
  refine List.ext_getElem size fun i inLeft inRight => ?_
  apply Nat.eq_of_testBit_eq
  intro j
  by_cases low : j < W
  · have room : W * i + j < W * left.length := by
      have next := Nat.mul_le_mul_left W inLeft
      rw [Nat.mul_succ] at next
      omega
    have bit := same _ room
    rwa [cellBit_at base low, cellBit_at base low, List.getD_eq_getElem _ _ inLeft,
      List.getD_eq_getElem _ _ inRight] at bit
  · rw [testBit_eq_false_of_le (smallLeft _ (List.getElem_mem _)) (Nat.le_of_not_lt low),
      testBit_eq_false_of_le (smallRight _ (List.getElem_mem _)) (Nat.le_of_not_lt low)]

end UdpStuff.Theory
