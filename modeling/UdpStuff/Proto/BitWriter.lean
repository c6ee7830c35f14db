/-
# Proto.BitWriter — bit fields packed into elements

`BitBufferWriter` of `bit_writer.h` collects bits in one pending element, low bits
first, and stores it when a field crosses its end.  Values are `uint64_t`.

What a writer holds is one number: the stored elements as digits and the pending
bits above them (`Stands`).  Writing a field adds it above all bits written before
(`Stands.writeUint`), for elements narrower than the value type.
-/
import UdpStuff.Theory.BitPieces

namespace UdpStuff.Proto

set_option autoImplicit false

open UdpStuff.Theory

/-- The element types a bit buffer is instantiated with. -/
inductive ElemType where
  | uint8
  | uint16
  | uint32
  | uint64
deriving DecidableEq

/-- `elem_bit_size` -/
def ElemType.bits : ElemType → Nat
  | .uint8 => 8
  | .uint16 => 16
  | .uint32 => 32
  | .uint64 => 64

theorem ElemType.bits_pos (Tn : ElemType) : 0 < Tn.bits := by
  cases Tn <;> decide

theorem ElemType.base (Tn : ElemType) : 1 < 2 ^ Tn.bits :=
  Nat.one_lt_two_pow (Nat.pos_iff_ne_zero.mp Tn.bits_pos)

structure BitBufferWriter where
  out : List Nat := []
  outV : Nat := 0
  bitsOut : Nat := 0
deriving DecidableEq

namespace BitBufferWriter

variable (Tn : ElemType)

def getBitPos (w : BitBufferWriter) : Nat := w.out.length * Tn.bits + w.bitsOut

/-- The elements after the first crossed boundary: the `while` loop and what
follows it. -/
def writeWhole (v n : Nat) (out : List Nat) : BitBufferWriter :=
  if Tn.bits < n then writeWhole (v >>> Tn.bits) (n - Tn.bits) (out ++ [v % 2 ^ Tn.bits])
  else ⟨out, v % 2 ^ Tn.bits, n⟩
termination_by n
decreasing_by
  have := Tn.bits_pos
  omega

/-- `write_uint`.  The shifted value loses its bits above 64 before those above the
element; only the latter show. -/
def writeUint (w : BitBufferWriter) (v n : Nat) : BitBufferWriter :=
  if n ≤ Tn.bits - w.bitsOut then
    { w with
      outV := (w.outV ||| v <<< w.bitsOut) % 2 ^ Tn.bits
      bitsOut := w.bitsOut + n }
  else
    let b := Tn.bits - w.bitsOut
    writeWhole Tn (v >>> b) (n - b)
      (w.out ++ [(w.outV ||| v <<< w.bitsOut) % 2 ^ Tn.bits])

/-- `pick_data`: the caller gets the vector of the writer left behind. -/
def pickData (w : BitBufferWriter) : BitBufferWriter :=
  if w.bitsOut ≠ 0 then { w with out := w.out ++ [w.outV], bitsOut := 0 } else w

/-! ## A writer as one number -/

/-- The writer holds the low `P` bits of `S`. -/
structure Stands (w : BitBufferWriter) (S P : Nat) : Prop where
  elements : ∀ d ∈ w.out, d < 2 ^ Tn.bits
  pending : w.outV < 2 ^ w.bitsOut
  within : w.bitsOut ≤ Tn.bits
  value : S = Nat.ofDigits (2 ^ Tn.bits) w.out + 2 ^ (Tn.bits * w.out.length) * w.outV
  position : P = Tn.bits * w.out.length + w.bitsOut

variable {Tn}

theorem stands_fresh : Stands Tn {} 0 0 where
  elements d member := by cases member
  pending := by decide
  within := Nat.zero_le _
  value := by simp
  position := by simp

theorem Stands.lt {w : BitBufferWriter} {S P : Nat} (stands : Stands Tn w S P) : S < 2 ^ P := by
  have low := Nat.ofDigits_lt_base_pow_length Tn.base stands.elements
  rw [← pow_mul] at low
  have room : 2 ^ (Tn.bits * w.out.length) * (w.outV + 1) ≤
      2 ^ (Tn.bits * w.out.length) * 2 ^ w.bitsOut := Nat.mul_le_mul_left _ stands.pending
  rw [stands.value, stands.position, pow_add]
  rw [Nat.mul_succ] at room
  omega

theorem Stands.getBitPos {w : BitBufferWriter} {S P : Nat} (stands : Stands Tn w S P) :
    w.getBitPos Tn = P := by
  rw [stands.position, BitBufferWriter.getBitPos, Nat.mul_comm]

/-- Storing one more element. -/
theorem ofDigits_push (out : List Nat) (d : Nat) :
    Nat.ofDigits (2 ^ Tn.bits) (out ++ [d]) =
      Nat.ofDigits (2 ^ Tn.bits) out + 2 ^ (Tn.bits * out.length) * d := by
  rw [Nat.ofDigits_append, Nat.ofDigits_singleton, ← pow_mul]

theorem elements_push {out : List Nat} (elements : ∀ d ∈ out, d < 2 ^ Tn.bits) {d : Nat}
    (small : d < 2 ^ Tn.bits) : ∀ e ∈ out ++ [d], e < 2 ^ Tn.bits := by
  intro e member
  rcases List.mem_append.mp member with old | new
  · exact elements e old
  · rw [List.mem_singleton.mp new]
    exact small

theorem stands_writeWhole {v n : Nat} (small : v < 2 ^ n) {out : List Nat}
    (elements : ∀ d ∈ out, d < 2 ^ Tn.bits) :
    Stands Tn (writeWhole Tn v n out)
      (Nat.ofDigits (2 ^ Tn.bits) out + 2 ^ (Tn.bits * out.length) * v)
      (Tn.bits * out.length + n) := by
  induction n using Nat.strongRecOn generalizing v out with
  | ind n ih =>
      have base := Tn.bits_pos
      rw [writeWhole]
      by_cases long : Tn.bits < n
      · have piece : v % 2 ^ Tn.bits < 2 ^ Tn.bits := Nat.mod_lt _ (Nat.two_pow_pos _)
        have rest : v >>> Tn.bits < 2 ^ (n - Tn.bits) := shiftRight_lt small (Nat.le_of_lt long)
        have stands := ih (n - Tn.bits) (by omega) rest (elements_push elements piece)
        rw [if_pos long]
        convert stands using 1
        · rw [ofDigits_push, List.length_append, List.length_singleton, Nat.mul_succ, pow_add,
            Nat.shiftRight_eq_div_pow]
          have split := Nat.mod_add_div v (2 ^ Tn.bits)
          calc Nat.ofDigits (2 ^ Tn.bits) out + 2 ^ (Tn.bits * out.length) * v
              = Nat.ofDigits (2 ^ Tn.bits) out + 2 ^ (Tn.bits * out.length) *
                  (v % 2 ^ Tn.bits + 2 ^ Tn.bits * (v / 2 ^ Tn.bits)) := by rw [split]
            _ = _ := by ring
        · rw [List.length_append, List.length_singleton, Nat.mul_succ]
          omega
      · have whole : v % 2 ^ Tn.bits = v :=
          Nat.mod_eq_of_lt (Nat.lt_of_lt_of_le small (Nat.pow_le_pow_right (by decide) (by omega)))
        rw [if_neg long, whole]
        exact ⟨elements, small, Nat.le_of_not_lt long, rfl, rfl⟩

/-- **A field is added above all bits written before it.** -/
theorem Stands.writeUint {w : BitBufferWriter} {S P : Nat} (stands : Stands Tn w S P)
    {v n : Nat} (small : v < 2 ^ n) :
    Stands Tn (w.writeUint Tn v n) (S + 2 ^ P * v) (P + n) := by
  have within := stands.within
  have joined : w.outV ||| v <<< w.bitsOut = w.outV + 2 ^ w.bitsOut * v :=
    or_shiftLeft stands.pending v
  rw [BitBufferWriter.writeUint]
  by_cases fits : n ≤ Tn.bits - w.bitsOut
  · have pending : w.outV + 2 ^ w.bitsOut * v < 2 ^ (w.bitsOut + n) := by
      have room : 2 ^ w.bitsOut * (v + 1) ≤ 2 ^ w.bitsOut * 2 ^ n := Nat.mul_le_mul_left _ small
      have old := stands.pending
      rw [pow_add]
      rw [Nat.mul_succ] at room
      omega
    have element : (w.outV + 2 ^ w.bitsOut * v) % 2 ^ Tn.bits = w.outV + 2 ^ w.bitsOut * v :=
      Nat.mod_eq_of_lt
        (Nat.lt_of_lt_of_le pending (Nat.pow_le_pow_right (by decide) (by omega)))
    rw [if_pos fits, joined, element]
    refine ⟨stands.elements, pending, by dsimp only; omega, ?_, ?_⟩
    · rw [stands.value, stands.position, pow_add]
      ring
    · rw [stands.position]
      dsimp only
      omega
  · obtain ⟨b, room⟩ : ∃ b, Tn.bits - w.bitsOut = b := ⟨_, rfl⟩
    have width : Tn.bits = w.bitsOut + b := by omega
    have element : (w.outV + 2 ^ w.bitsOut * v) % 2 ^ Tn.bits =
        w.outV + 2 ^ w.bitsOut * (v % 2 ^ b) := by
      have low : (w.outV + 2 ^ w.bitsOut * v) % 2 ^ w.bitsOut = w.outV := by
        rw [Nat.add_mul_mod_self_left, Nat.mod_eq_of_lt stands.pending]
      have high : (w.outV + 2 ^ w.bitsOut * v) / 2 ^ w.bitsOut = v := by
        rw [Nat.add_mul_div_left _ _ (Nat.two_pow_pos _), Nat.div_eq_of_lt stands.pending,
          Nat.zero_add]
      rw [width, pow_add, Nat.mod_mul, low, high]
    have rest : v >>> b < 2 ^ (n - b) := shiftRight_lt small (by omega)
    rw [if_neg fits]
    dsimp only
    rw [room, joined]
    have piece : (w.outV + 2 ^ w.bitsOut * v) % 2 ^ Tn.bits < 2 ^ Tn.bits :=
      Nat.mod_lt _ (Nat.two_pow_pos _)
    have whole := stands_writeWhole rest (elements_push stands.elements piece)
    convert whole using 1
    · rw [ofDigits_push, element, stands.value, stands.position, List.length_append,
        List.length_singleton, Nat.shiftRight_eq_div_pow, Nat.mul_succ, pow_add, pow_add]
      have split := Nat.mod_add_div v (2 ^ b)
      have full : 2 ^ Tn.bits = 2 ^ w.bitsOut * 2 ^ b := by rw [width, pow_add]
      obtain ⟨low, lowBits⟩ : ∃ low, v % 2 ^ b = low := ⟨_, rfl⟩
      obtain ⟨high, highBits⟩ : ∃ high, v / 2 ^ b = high := ⟨_, rfl⟩
      rw [lowBits, highBits] at split ⊢
      rw [full, ← split]
      ring
    · rw [stands.position, List.length_append, List.length_singleton, Nat.mul_succ]
      omega

/-- The picked elements are the digits of the number. -/
theorem Stands.pickData {w : BitBufferWriter} {S P : Nat} (stands : Stands Tn w S P) (i : Nat) :
    (w.pickData).out.getD i 0 = S / 2 ^ (Tn.bits * i) % 2 ^ Tn.bits := by
  have last : w.outV < 2 ^ Tn.bits :=
    Nat.lt_of_lt_of_le stands.pending (Nat.pow_le_pow_right (by decide) stands.within)
  rw [stands.value, BitBufferWriter.pickData, pow_mul 2 Tn.bits i]
  by_cases empty : w.bitsOut = 0
  · have none : w.outV = 0 := by
      have pending := stands.pending
      rw [empty] at pending
      omega
    rw [if_neg (not_not.mpr empty), none, Nat.mul_zero, Nat.add_zero,
      ofDigits_div_mod Tn.base stands.elements]
  · rw [if_pos empty, ← ofDigits_push]
    exact (ofDigits_div_mod Tn.base (elements_push stands.elements last) i).symm

end BitBufferWriter

end UdpStuff.Proto
