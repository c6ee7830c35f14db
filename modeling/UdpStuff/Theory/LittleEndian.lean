/-
# Theory.LittleEndian — fixed-width numbers as bytes, least significant first

`leBytes k n` is the low `k` bytes of `n` and `ofLeBytes` the number some bytes
spell.  They are inverse below `256 ^ k` (`ofLeBytes_leBytes`, `leBytes_ofLeBytes`).
-/
import Mathlib.Data.BitVec

namespace UdpStuff.Theory

set_option autoImplicit false

/-- The low `k` bytes of a number. -/
def leBytes : Nat → Nat → List UInt8
  | 0, _ => []
  | k + 1, n => UInt8.ofNat n :: leBytes k (n / 256)

/-- The number that bytes spell. -/
def ofLeBytes : List UInt8 → Nat
  | [] => 0
  | b :: bs => b.toNat + 256 * ofLeBytes bs

@[simp] theorem length_leBytes (k n : Nat) : (leBytes k n).length = k := by
  induction k generalizing n with
  | zero => rfl
  | succ k ih => rw [leBytes, List.length_cons, ih]

theorem ofLeBytes_leBytes_mod (k n : Nat) : ofLeBytes (leBytes k n) = n % 256 ^ k := by
  induction k generalizing n with
  | zero => simp [leBytes, ofLeBytes, Nat.mod_one]
  | succ k ih =>
      have low : (UInt8.ofNat n).toNat = n % 256 := UInt8.toNat_ofNat'
      rw [leBytes, ofLeBytes, ih, low, Nat.pow_succ', Nat.mod_mul]

theorem ofLeBytes_leBytes {k n : Nat} (fits : n < 256 ^ k) : ofLeBytes (leBytes k n) = n := by
  rw [ofLeBytes_leBytes_mod, Nat.mod_eq_of_lt fits]

/-- Equal bytes are equal numbers as far as the bytes reach. -/
theorem leBytes_inj {k n m : Nat} : leBytes k n = leBytes k m ↔ n % 256 ^ k = m % 256 ^ k := by
  constructor
  · intro same
    rw [← ofLeBytes_leBytes_mod, same, ofLeBytes_leBytes_mod]
  · intro same
    induction k generalizing n m with
    | zero => rfl
    | succ k ih =>
        rw [Nat.pow_succ', Nat.mod_mul, Nat.mod_mul] at same
        have low : UInt8.ofNat n = UInt8.ofNat m := by
          apply UInt8.toNat_inj.mp
          rw [UInt8.toNat_ofNat', UInt8.toNat_ofNat']
          omega
        have high : n / 256 % 256 ^ k = m / 256 % 256 ^ k := by omega
        rw [leBytes, leBytes, low, ih high]

theorem take_leBytes (k b n : Nat) : (leBytes k n).take b = leBytes (min b k) n := by
  induction k generalizing b n with
  | zero => simp [leBytes]
  | succ k ih =>
      cases b with
      | zero => simp [leBytes]
      | succ b => rw [leBytes, List.take_succ_cons, ih, Nat.succ_min_succ, leBytes]

theorem ofLeBytes_lt (bs : List UInt8) : ofLeBytes bs < 256 ^ bs.length := by
  induction bs with
  | nil => exact Nat.one_pos
  | cons b bs ih =>
      have low := b.toNat_lt
      rw [ofLeBytes, List.length_cons, Nat.pow_succ]
      omega

theorem leBytes_ofLeBytes (bs : List UInt8) : leBytes bs.length (ofLeBytes bs) = bs := by
  induction bs with
  | nil => rfl
  | cons b bs ih =>
      have low := b.toNat_lt
      have byte : UInt8.ofNat (b.toNat + 256 * ofLeBytes bs) = b := by
        apply UInt8.toNat_inj.mp
        rw [UInt8.toNat_ofNat']
        omega
      have rest : (b.toNat + 256 * ofLeBytes bs) / 256 = ofLeBytes bs := by omega
      rw [ofLeBytes, List.length_cons, leBytes, byte, rest, ih]

end UdpStuff.Theory
