/-
# Proto.Primitives — the functions the generated code calls for leaves

Most of them are not in the repository.  `Primitives` takes them as given: a read
returns an atom exactly where its written bits stand, and moves by as many.  A read
is given the bits the reader has left; without a result it has run out of them.

`bitPrimitives` are such functions: numbers low bit first, integers in two's
complement, and strings behind their size.
-/
import UdpStuff.Theory.BitCode
import UdpStuff.Proto.Descr

namespace UdpStuff.Proto

set_option autoImplicit false

open UdpStuff.Theory

/-- The write and the read primitive of each leaf, exact inverses of each other, and
how `!=` compares a value with its default. -/
structure Primitives where
  write : Leaf → Atom → List Bool
  read : Leaf → List Bool → Option (Atom × Nat)
  differs : Value → Value → Bool
  read_iff : ∀ (leaf : Leaf) (bits : List Bool) (a : Atom) (k : Nat),
    read leaf bits = some (a, k) ↔
      leaf.Fits a ∧ k = (write leaf a).length ∧ write leaf a <+: bits
  length_uint : ∀ bits n : Nat, (write (.uint bits) (.number n)).length = bits

namespace Primitives

variable (prim : Primitives)

theorem read_write {leaf : Leaf} {a : Atom} (fits : leaf.Fits a) (rest : List Bool) :
    prim.read leaf (prim.write leaf a ++ rest) = some (a, (prim.write leaf a).length) :=
  (prim.read_iff leaf _ a _).mpr ⟨fits, rfl, List.prefix_append _ _⟩

/-- What a number's primitive reads is a number of its width. -/
theorem read_uint {bits k : Nat} {left : List Bool} {a : Atom}
    (read : prim.read (.uint bits) left = some (a, k)) :
    ∃ n, a = .number n ∧ n < 2 ^ bits ∧ k = bits ∧
      prim.write (.uint bits) (.number n) <+: left := by
  obtain ⟨fits, length, front⟩ := (prim.read_iff _ _ _ _).mp read
  cases a with
  | number n => exact ⟨n, rfl, fits, by rw [length, prim.length_uint], front⟩
  | bool b => exact fits.elim
  | int z => exact fits.elim
  | string s => exact fits.elim

/-- A number of its width that stands in front is read. -/
theorem read_front {bits n : Nat} {left : List Bool} (bound : n < 2 ^ bits)
    (front : prim.write (.uint bits) (.number n) <+: left) :
    prim.read (.uint bits) left = some (.number n, bits) :=
  (prim.read_iff _ _ _ _).mpr ⟨bound, (prim.length_uint bits n).symm, front⟩

end Primitives

/-! ## Bits, two's complement and sized strings -/

/-- The number below `2 ^ bits` that an integer is modulo that power. -/
def unsigned (bits : Nat) (z : Int) : Nat := (z % (2 ^ bits : Nat)).toNat

def signed (bits u : Nat) : Int := if 2 * u < 2 ^ bits then u else u - (2 ^ bits : Nat)

theorem unsigned_lt (bits : Nat) (z : Int) : unsigned bits z < 2 ^ bits := by
  have pos := Nat.two_pow_pos bits
  have bound := Int.emod_lt_of_pos z (Int.natCast_pos.mpr pos)
  have least := Int.emod_nonneg z (Int.natCast_ne_zero.mpr (Nat.pos_iff_ne_zero.mp pos))
  rw [unsigned]
  omega

theorem signed_unsigned {bits : Nat} {z : Int} (fits : (Leaf.int bits).Fits (.int z)) :
    signed bits (unsigned bits z) = z := by
  obtain ⟨least, most⟩ := fits
  have cast : (2 ^ bits : Int) = (2 ^ bits : Nat) := by norm_cast
  rw [cast] at least most
  rw [signed, unsigned]
  obtain ⟨P, power⟩ : ∃ P, 2 ^ bits = P := ⟨_, rfl⟩
  rw [power] at least most ⊢
  rcases Int.lt_or_le z 0 with negative | positive
  · have value : z % (P : Int) = z + P := by
      rw [← Int.add_emod_right, Int.emod_eq_of_lt (by omega) (by omega)]
    rw [value, if_neg (by omega)]
    omega
  · have value : z % (P : Int) = z := Int.emod_eq_of_lt positive (by omega)
    rw [value, if_pos (by omega)]
    omega

theorem fits_signed {bits u : Nat} (bound : u < 2 ^ bits) :
    (Leaf.int bits).Fits (.int (signed bits u)) ∧ unsigned bits (signed bits u) = u := by
  have cast : (2 ^ bits : Int) = (2 ^ bits : Nat) := by norm_cast
  rw [Leaf.Fits, cast, signed, unsigned]
  obtain ⟨P, power⟩ : ∃ P, 2 ^ bits = P := ⟨_, rfl⟩
  rw [power] at bound ⊢
  by_cases low : 2 * u < P
  · rw [if_pos low, Int.emod_eq_of_lt (by omega) (by omega)]
    omega
  · rw [if_neg low, ← Int.add_emod_right, Int.emod_eq_of_lt (by omega) (by omega)]
    omega

def writeBits : Leaf → Atom → List Bool
  | .bool, .bool b => [b]
  | .uint bits, .number n => bitsOf bits n
  | .float bits, .number n => bitsOf bits n
  | .enum bits, .number n => bitsOf bits n
  | .int bits, .int z => bitsOf bits (unsigned bits z)
  | .string sizeBits, .string s => bitsOf sizeBits s.length ++ bitsOfBytes s
  | _, _ => []

def readBits : Leaf → List Bool → Option (Atom × Nat)
  | .bool, [] => none
  | .bool, b :: _ => some (.bool b, 1)
  | .uint bits, left => (takeNumber bits left).map fun n => (.number n, bits)
  | .float bits, left => (takeNumber bits left).map fun n => (.number n, bits)
  | .enum bits, left => (takeNumber bits left).map fun n => (.number n, bits)
  | .int bits, left => (takeNumber bits left).map fun u => (.int (signed bits u), bits)
  | .string sizeBits, left =>
    match takeNumber sizeBits left with
    | none => none
    | some k =>
      (takeBytes k (left.drop sizeBits)).map fun s => (.string s, sizeBits + 8 * k)

/-- Atoms made of a number in their width are read exactly where they are written. -/
theorem readMade_iff {bits k : Nat} {left : List Bool} {a : Atom} {leaf : Leaf}
    {make : Nat → Atom}
    (written : ∀ u, u < 2 ^ bits → leaf.Fits (make u) ∧ writeBits leaf (make u) = bitsOf bits u)
    (made : ∀ a, leaf.Fits a → ∃ u, u < 2 ^ bits ∧ a = make u) :
    (takeNumber bits left).map (fun u => (make u, bits)) = some (a, k) ↔
      leaf.Fits a ∧ k = (writeBits leaf a).length ∧ writeBits leaf a <+: left := by
  constructor
  · intro read
    obtain ⟨u, taken, same⟩ := Option.map_eq_some_iff.mp read
    obtain ⟨bound, front⟩ := takeNumber_iff.mp taken
    obtain ⟨fits, bitsAre⟩ := written u bound
    cases same
    rw [bitsAre]
    exact ⟨fits, (length_bitsOf bits u).symm, front⟩
  · rintro ⟨fits, rfl, front⟩
    obtain ⟨u, bound, rfl⟩ := made a fits
    obtain ⟨-, bitsAre⟩ := written u bound
    rw [bitsAre] at front ⊢
    rw [takeNumber_iff.mpr ⟨bound, front⟩, Option.map_some, length_bitsOf]

theorem readString_iff {sizeBits k : Nat} {left : List Bool} {a : Atom} :
    readBits (.string sizeBits) left = some (a, k) ↔
      (Leaf.string sizeBits).Fits a ∧ k = (writeBits (.string sizeBits) a).length ∧
        writeBits (.string sizeBits) a <+: left := by
  rw [readBits]
  constructor
  · intro read
    cases size : takeNumber sizeBits left with
    | none => rw [size] at read; cases read
    | some n =>
        rw [size] at read
        obtain ⟨s, bytes, same⟩ := Option.map_eq_some_iff.mp read
        obtain ⟨bound, front⟩ := takeNumber_iff.mp size
        obtain ⟨length, rest⟩ := takeBytes_iff.mp bytes
        cases same
        rw [writeBits, length, append_prefix_iff, length_bitsOf, List.length_append,
          length_bitsOf, length_bitsOfBytes, length]
        exact ⟨by rw [Leaf.Fits, length]; exact bound, rfl, front, rest⟩
  · rintro ⟨fits, rfl, front⟩
    cases a with
    | string s =>
        rw [writeBits, append_prefix_iff, length_bitsOf] at front
        have size := takeNumber_iff.mpr ⟨fits, front.1⟩
        have bytes := takeBytes_iff.mpr ⟨rfl, front.2⟩
        rw [size]
        dsimp only
        rw [bytes, Option.map_some, writeBits, List.length_append, length_bitsOf,
          length_bitsOfBytes]
    | bool b => exact fits.elim
    | number n => exact fits.elim
    | int z => exact fits.elim

theorem readBits_iff (leaf : Leaf) (left : List Bool) (a : Atom) (k : Nat) :
    readBits leaf left = some (a, k) ↔
      leaf.Fits a ∧ k = (writeBits leaf a).length ∧ writeBits leaf a <+: left := by
  have numbers {leaf : Leaf} {bits : Nat} (fits : ∀ n, leaf.Fits (.number n) ↔ n < 2 ^ bits)
      (others : ∀ a, leaf.Fits a → ∃ n, a = .number n) (a : Atom) (fit : leaf.Fits a) :
      ∃ u, u < 2 ^ bits ∧ a = .number u := by
    obtain ⟨n, rfl⟩ := others a fit
    exact ⟨n, (fits n).mp fit, rfl⟩
  cases leaf with
  | bool =>
      constructor
      · intro read
        cases left with
        | nil => cases read
        | cons b rest => cases read; exact ⟨trivial, rfl, List.prefix_append [b] rest⟩
      · rintro ⟨fits, rfl, rest, rfl⟩
        cases a with
        | bool b => rfl
        | number n => exact fits.elim
        | int z => exact fits.elim
        | string s => exact fits.elim
  | uint bits =>
      refine readMade_iff (fun u bound => ⟨bound, rfl⟩) (numbers (fun n => Iff.rfl) ?_)
      intro a fits
      cases a with
      | number n => exact ⟨n, rfl⟩
      | _ => exact fits.elim
  | float bits =>
      refine readMade_iff (fun u bound => ⟨bound, rfl⟩) (numbers (fun n => Iff.rfl) ?_)
      intro a fits
      cases a with
      | number n => exact ⟨n, rfl⟩
      | _ => exact fits.elim
  | enum bits =>
      refine readMade_iff (fun u bound => ⟨bound, rfl⟩) (numbers (fun n => Iff.rfl) ?_)
      intro a fits
      cases a with
      | number n => exact ⟨n, rfl⟩
      | _ => exact fits.elim
  | int bits =>
      have written (u : Nat) (bound : u < 2 ^ bits) :
          (Leaf.int bits).Fits (.int (signed bits u)) ∧
            writeBits (.int bits) (.int (signed bits u)) = bitsOf bits u := by
        obtain ⟨fits, back⟩ := fits_signed bound
        exact ⟨fits, by rw [writeBits, back]⟩
      refine readMade_iff written ?_
      intro a fits
      cases a with
      | int z => exact ⟨unsigned bits z, unsigned_lt bits z, by rw [signed_unsigned fits]⟩
      | _ => exact fits.elim
  | string sizeBits => exact readString_iff

/-- The primitives on bits; a value differs from a default as `differs` says. -/
def bitPrimitives (differs : Value → Value → Bool) : Primitives where
  write := writeBits
  read := readBits
  differs := differs
  read_iff := readBits_iff
  length_uint := length_bitsOf

end UdpStuff.Proto
