/-
# Theory.BitPieces — numbers cut into bit fields, and put together from either end

`cutBits` cuts a number into pieces of given widths, low bits first.  `joinLowFirst`
is its inverse (`joinLowFirst_cutBits`); `joinHighFirst` puts the same pieces together
with the first piece highest.  The pieces see only the bits they cover
(`cutBits_add`).
-/
import Mathlib.Data.Nat.Digits.Defs
import Mathlib.Data.List.GetD
import Mathlib.Tactic.Ring

namespace UdpStuff.Theory

set_option autoImplicit false

/-- Disjoint bits: or is addition. -/
theorem or_shiftLeft {x k : Nat} (low : x < 2 ^ k) (y : Nat) : x ||| y <<< k = x + 2 ^ k * y := by
  rw [Nat.or_comm, Nat.shiftLeft_eq, Nat.mul_comm, ← Nat.two_pow_add_eq_or_of_lt low, Nat.add_comm]

/-- What is left of a field behind its first `b` bits. -/
theorem shiftRight_lt {v b n : Nat} (small : v < 2 ^ n) (inside : b ≤ n) : v >>> b < 2 ^ (n - b) := by
  rw [Nat.shiftRight_eq_div_pow, Nat.div_lt_iff_lt_mul (Nat.two_pow_pos _), ← pow_add,
    Nat.sub_add_cancel inside]
  exact small

/-- The digits of a number in base `b` are where division finds them. -/
theorem ofDigits_div_mod {b : Nat} (base : 1 < b) {digits : List Nat}
    (small : ∀ d ∈ digits, d < b) (i : Nat) :
    Nat.ofDigits b digits / b ^ i % b = digits.getD i 0 := by
  induction digits generalizing i with
  | nil => simp
  | cons d rest ih =>
      have first : d < b := small d List.mem_cons_self
      have others : ∀ d ∈ rest, d < b := fun d member => small d (List.mem_cons_of_mem _ member)
      rw [Nat.ofDigits_cons]
      cases i with
      | zero =>
          rw [pow_zero, Nat.div_one, List.getD_cons_zero, Nat.add_mul_mod_self_left,
            Nat.mod_eq_of_lt first]
      | succ i =>
          rw [List.getD_cons_succ, ← ih others i, pow_succ', ← Nat.div_div_eq_div_mul,
            Nat.add_mul_div_left _ _ (by omega), Nat.div_eq_of_lt first, Nat.zero_add]

/-! ## Pieces -/

/-- The pieces of a number, each with its width, low bits first. -/
def cutBits : List Nat → Nat → List (Nat × Nat)
  | [], _ => []
  | w :: ws, v => (w, v % 2 ^ w) :: cutBits ws (v / 2 ^ w)

def joinLowFirst : List (Nat × Nat) → Nat
  | [] => 0
  | (w, p) :: rest => p + 2 ^ w * joinLowFirst rest

/-- The pieces after `acc`, each below everything before it. -/
def joinHighFirst : Nat → List (Nat × Nat) → Nat
  | acc, [] => acc
  | acc, (w, p) :: rest => joinHighFirst (acc * 2 ^ w + p) rest

theorem joinLowFirst_cutBits (ws : List Nat) (v : Nat) :
    joinLowFirst (cutBits ws v) = v % 2 ^ ws.sum := by
  induction ws generalizing v with
  | nil => simp [cutBits, joinLowFirst, Nat.mod_one]
  | cons w ws ih =>
      rw [cutBits, joinLowFirst, ih, List.sum_cons, pow_add, Nat.mod_mul]

/-- Bits above the widths are not part of any piece. -/
theorem cutBits_add {ws : List Nat} {n : Nat} (sum : ws.sum = n) (v high : Nat) :
    cutBits ws (v + 2 ^ n * high) = cutBits ws v := by
  induction ws generalizing v n with
  | nil => rfl
  | cons w ws ih =>
      have split : 2 ^ n * high = 2 ^ w * (2 ^ ws.sum * high) := by
        rw [← sum, List.sum_cons, pow_add, mul_assoc]
      rw [cutBits, cutBits, split, Nat.add_mul_mod_self_left,
        Nat.add_mul_div_left _ _ (Nat.two_pow_pos w), ih rfl]

theorem joinHighFirst_lt (ws : List Nat) {acc k : Nat} (bound : acc < 2 ^ k) (v : Nat) :
    joinHighFirst acc (cutBits ws v) < 2 ^ (k + ws.sum) := by
  induction ws generalizing acc k v with
  | nil => exact bound
  | cons w ws ih =>
      have piece : v % 2 ^ w < 2 ^ w := Nat.mod_lt _ (Nat.two_pow_pos w)
      have next : acc * 2 ^ w + v % 2 ^ w < 2 ^ (k + w) := by
        have room : (acc + 1) * 2 ^ w ≤ 2 ^ k * 2 ^ w := Nat.mul_le_mul_right _ bound
        rw [pow_add]
        rw [Nat.succ_mul] at room
        omega
      rw [cutBits, joinHighFirst, List.sum_cons, ← Nat.add_assoc]
      exact ih next _

/-! ## Fields cut at boundaries -/

/-- The widths of a field of `n` bits that starts on a boundary; `n` is positive. -/
def alignedWidths (W n : Nat) : List Nat :=
  List.replicate ((n - 1) / W) W ++ [(n - 1) % W + 1]

/-- The widths of a field of `n` bits with `room` bits before the next boundary. -/
def pieceWidths (W room n : Nat) : List Nat :=
  if n ≤ room then [n] else room :: alignedWidths W (n - room)

/-- The last of these widths. -/
def lastWidth (W room n : Nat) : Nat :=
  if n ≤ room then n else (n - room - 1) % W + 1

theorem alignedWidths_short {W n : Nat} (pos : 0 < n) (short : n ≤ W) :
    alignedWidths W n = [n] := by
  rw [alignedWidths, Nat.div_eq_of_lt (by omega), Nat.mod_eq_of_lt (by omega), List.replicate_zero,
    List.nil_append, Nat.sub_add_cancel pos]

theorem alignedWidths_long {W n : Nat} (base : 0 < W) (long : W < n) :
    alignedWidths W n = W :: alignedWidths W (n - W) := by
  have split : n - 1 = (n - W - 1) + W := by omega
  rw [alignedWidths, alignedWidths, split, Nat.add_div_right _ base, Nat.add_mod_right,
    List.replicate_succ, List.cons_append]

theorem sum_alignedWidths {W n : Nat} (pos : 0 < n) : (alignedWidths W n).sum = n := by
  rw [alignedWidths, List.sum_append, List.sum_replicate_nat, List.sum_singleton, Nat.mul_comm]
  have := Nat.div_add_mod (n - 1) W
  omega

theorem sum_pieceWidths (W room n : Nat) : (pieceWidths W room n).sum = n := by
  rw [pieceWidths]
  by_cases fits : n ≤ room
  · rw [if_pos fits, List.sum_singleton]
  · rw [if_neg fits, List.sum_cons, sum_alignedWidths (by omega)]
    omega

/-- From a boundary it makes no difference whether the room there is counted. -/
theorem pieceWidths_aligned {W n : Nat} (base : 0 < W) (pos : 0 < n) :
    pieceWidths W W n = alignedWidths W n := by
  rw [pieceWidths]
  by_cases short : n ≤ W
  · rw [if_pos short, alignedWidths_short pos short]
  · rw [if_neg short, ← alignedWidths_long base (Nat.lt_of_not_le short)]

theorem lastWidth_aligned {W n : Nat} (pos : 0 < n) : lastWidth W W n = (n - 1) % W + 1 := by
  rw [lastWidth]
  by_cases short : n ≤ W
  · rw [if_pos short, Nat.mod_eq_of_lt (by omega), Nat.sub_add_cancel pos]
  · have split : n - 1 = (n - W - 1) + W := by omega
    rw [if_neg short, split, Nat.add_mod_right]

end UdpStuff.Theory
