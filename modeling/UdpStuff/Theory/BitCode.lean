/-
# Theory.BitCode — numbers and bytes as bits, least significant first

`bitsOf n v` are the low `n` bits of `v`, and `takeNumber` and `takeBytes` read them
back from the front of a bit list.  A read gives a result exactly where the bits of
that result stand (`takeNumber_iff`, `takeBytes_iff`).
-/
import Mathlib.Data.BitVec

namespace UdpStuff.Theory

set_option autoImplicit false

/-- The low `n` bits of a number. -/
def bitsOf : Nat → Nat → List Bool
  | 0, _ => []
  | n + 1, v => (v % 2 == 1) :: bitsOf n (v / 2)

def numberOf : List Bool → Nat
  | [] => 0
  | b :: bs => b.toNat + 2 * numberOf bs

@[simp] theorem length_bitsOf (n v : Nat) : (bitsOf n v).length = n := by
  induction n generalizing v with
  | zero => rfl
  | succ n ih => rw [bitsOf, List.length_cons, ih]

theorem numberOf_bitsOf {n v : Nat} (fits : v < 2 ^ n) : numberOf (bitsOf n v) = v := by
  induction n generalizing v with
  | zero =>
      have zero : v = 0 := by simpa using fits
      rw [zero]
      rfl
  | succ n ih =>
      have low : (v % 2 == 1).toNat = v % 2 := by
        rcases Nat.mod_two_eq_zero_or_one v with even | odd
        · rw [even]; rfl
        · rw [odd]; rfl
      rw [bitsOf, numberOf, ih (by rw [Nat.pow_succ] at fits; omega), low]
      exact Nat.mod_add_div v 2

theorem bitsOf_numberOf (bits : List Bool) : bitsOf bits.length (numberOf bits) = bits := by
  induction bits with
  | nil => rfl
  | cons b bs ih =>
      have low : ((b.toNat + 2 * numberOf bs) % 2 == 1) = b := by
        rw [Nat.add_mul_mod_self_left]
        cases b <;> rfl
      have high : (b.toNat + 2 * numberOf bs) / 2 = numberOf bs := by
        have := b.toNat_lt
        omega
      rw [List.length_cons, numberOf, bitsOf, low, high, ih]

theorem numberOf_lt (bits : List Bool) : numberOf bits < 2 ^ bits.length := by
  induction bits with
  | nil => exact Nat.one_pos
  | cons b bs ih =>
      have := b.toNat_lt
      rw [numberOf, List.length_cons, Nat.pow_succ]
      omega

/-- A prefix and what follows it. -/
theorem append_prefix_iff {α : Type} {xs ys zs : List α} :
    xs ++ ys <+: zs ↔ xs <+: zs ∧ ys <+: zs.drop xs.length := by
  constructor
  · rintro ⟨rest, rfl⟩
    rw [List.append_assoc, List.drop_left]
    exact ⟨List.prefix_append _ _, List.prefix_append _ _⟩
  · rintro ⟨⟨rest, rfl⟩, later⟩
    rw [List.drop_left] at later
    exact (List.prefix_append_right_inj xs).mpr later

/-- The number in the first `n` bits, if there are as many. -/
def takeNumber (n : Nat) (bits : List Bool) : Option Nat :=
  if bits.length < n then none else some (numberOf (bits.take n))

theorem takeNumber_iff {n v : Nat} {bits : List Bool} :
    takeNumber n bits = some v ↔ v < 2 ^ n ∧ bitsOf n v <+: bits := by
  rw [takeNumber]
  constructor
  · intro taken
    split at taken
    · cases taken
    · cases taken
      have length : (bits.take n).length = n := by
        rw [List.length_take]
        omega
      have bound := numberOf_lt (bits.take n)
      have same := bitsOf_numberOf (bits.take n)
      rw [length] at bound same
      exact ⟨bound, by rw [same]; exact List.take_prefix n bits⟩
  · rintro ⟨fits, rest, rfl⟩
    have front : (bitsOf n v ++ rest).take n = bitsOf n v := List.take_left' (length_bitsOf n v)
    rw [if_neg (by rw [List.length_append, length_bitsOf]; omega), front, numberOf_bitsOf fits]

/-- The bits of bytes. -/
def bitsOfBytes (bytes : List UInt8) : List Bool := bytes.flatMap fun c => bitsOf 8 c.toNat

/-- The first `k` bytes. -/
def takeBytes : Nat → List Bool → Option (List UInt8)
  | 0, _ => some []
  | k + 1, bits =>
    match takeNumber 8 bits with
    | none => none
    | some c => (takeBytes k (bits.drop 8)).map (UInt8.ofNat c :: ·)

theorem takeBytes_iff {k : Nat} {bytes : List UInt8} {bits : List Bool} :
    takeBytes k bits = some bytes ↔ bytes.length = k ∧ bitsOfBytes bytes <+: bits := by
  induction k generalizing bytes bits with
  | zero =>
      rw [takeBytes]
      constructor
      · intro none
        cases none
        exact ⟨rfl, List.nil_prefix⟩
      · rintro ⟨length, -⟩
        rw [List.eq_nil_of_length_eq_zero length]
  | succ k ih =>
      rw [takeBytes]
      constructor
      · intro taken
        cases first : takeNumber 8 bits with
        | none => rw [first] at taken; cases taken
        | some c =>
            rw [first] at taken
            obtain ⟨later, rest, rfl⟩ := Option.map_eq_some_iff.mp taken
            obtain ⟨length, front⟩ := ih.mp rest
            obtain ⟨fits, here⟩ := takeNumber_iff.mp first
            have byte : (UInt8.ofNat c).toNat = c := UInt8.toNat_ofNat_of_lt' fits
            refine ⟨by rw [List.length_cons, length], ?_⟩
            rw [bitsOfBytes, List.flatMap_cons, byte, append_prefix_iff, length_bitsOf]
            exact ⟨here, front⟩
      · rintro ⟨length, front⟩
        cases bytes with
        | nil => cases length
        | cons c later =>
            rw [bitsOfBytes, List.flatMap_cons, append_prefix_iff, length_bitsOf] at front
            have first := takeNumber_iff.mpr ⟨c.toNat_lt, front.1⟩
            have rest := ih.mpr ⟨Nat.succ.inj length, front.2⟩
            rw [first]
            dsimp only
            rw [rest, Option.map_some, UInt8.ofNat_toNat]

theorem length_bitsOfBytes (bytes : List UInt8) : (bitsOfBytes bytes).length = 8 * bytes.length := by
  induction bytes with
  | nil => rfl
  | cons c later ih =>
      rw [bitsOfBytes, List.flatMap_cons, List.length_append, length_bitsOf, ← bitsOfBytes, ih,
        List.length_cons]
      omega

end UdpStuff.Theory
