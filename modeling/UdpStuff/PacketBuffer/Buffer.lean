/-
# PacketBuffer.Buffer — a ring of packets

`PacketBuffer` of `packet_buffer.h`: an array of `size` packets, of which those from
`start` to the one before `endPos` are in use, the first with the number `seq_start`.
Positions are 32-bit numbers; on the states that the ring can be in (`InRing`) they
are those of `Theory.RingPositions`.

An access outside of an array ends a function with an error.
-/
import UdpStuff.Theory.RingPositions
import Mathlib.Data.BitVec

namespace UdpStuff

open Theory

set_option autoImplicit false

/-- `size` is the length of the array at `packets`, which is empty for `NULL`. -/
structure PacketBuffer (α : Type) (w : Nat) where
  size : BitVec 32
  packets : Vector α size.toNat
  start : BitVec 32 := 0
  endPos : BitVec 32 := 0
  seqStart : BitVec w := 0

namespace PacketBuffer

variable {α : Type} {w : Nat}

/-- An access outside of an array. -/
inductive OutOfRange where
  | read (i : BitVec 32)
  | write (i : BitVec 32)
deriving DecidableEq

/-- `PacketBuffer(size)`, where `fresh` is what `new` makes. -/
def make (fresh : α) (size : BitVec 32) : PacketBuffer α w :=
  ⟨size, .replicate size.toNat fresh, 0, 0, 0⟩

def length (b : PacketBuffer α w) : BitVec 32 :=
  if b.start ≤ b.endPos then b.endPos - b.start else b.size + b.endPos - b.start

def nextPos (b : PacketBuffer α w) (pos : BitVec 32) : BitVec 32 :=
  let pos := pos + 1
  if pos < b.size then pos else 0

def prevPos (b : PacketBuffer α w) (pos : BitVec 32) : BitVec 32 :=
  if pos ≠ 0 then pos - 1 else b.size - 1

def clear (_b : PacketBuffer α w) : PacketBuffer α w := ⟨0, #v[], 0, 0, 0⟩

/-! ## The states of a ring -/

/-- Both positions are in the array. -/
structure InRing (b : PacketBuffer α w) : Prop where
  start_lt : b.start < b.size
  endPos_lt : b.endPos < b.size

variable {b : PacketBuffer α w} {pos : BitVec 32}

theorem toNat_nextPos (inside : pos < b.size) :
    (b.nextPos pos).toNat = ringNext b.size.toNat pos.toNat := by
  have inside : pos.toNat < b.size.toNat := inside
  have size := b.size.isLt
  have one : (1 : BitVec 32).toNat = 1 := rfl
  have next : (pos + 1).toNat = pos.toNat + 1 := by
    rw [BitVec.toNat_add, one, Nat.mod_eq_of_lt (by omega)]
  unfold nextPos ringNext
  rw [← next]
  by_cases below : pos + 1 < b.size
  · rw [if_pos below, if_pos (BitVec.lt_def.mp below)]
  · rw [if_neg below, if_neg (mt BitVec.lt_def.mpr below)]
    rfl

theorem toNat_prevPos (inside : pos < b.size) :
    (b.prevPos pos).toNat = ringPrev b.size.toNat pos.toNat := by
  have inside : pos.toNat < b.size.toNat := inside
  have size := b.size.isLt
  have one : (1 : BitVec 32).toNat = 1 := rfl
  unfold prevPos ringPrev
  by_cases first : pos = 0
  · rw [if_neg (not_not.mpr first), if_pos (by rw [first]; rfl), BitVec.toNat_sub, one]
    omega
  · have positive : pos.toNat ≠ 0 := fun zero => first (BitVec.eq_of_toNat_eq zero)
    rw [if_pos first, if_neg positive, BitVec.toNat_sub, one]
    omega

theorem nextPos_lt (inside : pos < b.size) : b.nextPos pos < b.size := by
  have within : ringNext b.size.toNat pos.toNat < b.size.toNat := by
    rw [ringNext_eq_mod inside]
    exact Nat.mod_lt _ (lt_of_le_of_lt (Nat.zero_le _) inside)
  rw [BitVec.lt_def, toNat_nextPos inside]
  exact within

/-- The two steps undo each other. -/
theorem prevPos_nextPos (inside : pos < b.size) : b.prevPos (b.nextPos pos) = pos := by
  apply BitVec.eq_of_toNat_eq
  rw [toNat_prevPos (nextPos_lt inside), toNat_nextPos inside, ringPrev_ringNext inside]

theorem toNat_iterate_nextPos (inside : pos < b.size) (k : Nat) :
    ((b.nextPos)^[k] pos).toNat = (pos.toNat + k) % b.size.toNat ∧
      (b.nextPos)^[k] pos < b.size := by
  induction k with
  | zero => exact ⟨(Nat.mod_eq_of_lt inside).symm, inside⟩
  | succ k ih =>
      obtain ⟨steps, within⟩ := ih
      rw [Function.iterate_succ_apply']
      refine ⟨?_, nextPos_lt within⟩
      rw [toNat_nextPos within, steps, ← iterate_ringNext inside, ← iterate_ringNext inside,
        Function.iterate_succ_apply']

theorem toNat_length (ring : b.InRing) :
    b.length.toNat = ringLength b.size.toNat b.start.toNat b.endPos.toNat := by
  have start_lt : b.start.toNat < b.size.toNat := ring.start_lt
  have endPos_lt : b.endPos.toNat < b.size.toNat := ring.endPos_lt
  have size := b.size.isLt
  unfold length ringLength
  by_cases linear : b.start ≤ b.endPos
  · rw [if_pos linear, if_pos (BitVec.le_def.mp linear), BitVec.toNat_sub]
    have := BitVec.le_def.mp linear
    omega
  · rw [if_neg linear, if_neg (mt BitVec.le_def.mpr linear), BitVec.toNat_sub, BitVec.toNat_add]
    have := mt BitVec.le_def.mpr linear
    omega

theorem length_lt (ring : b.InRing) : b.length.toNat < b.size.toNat := by
  rw [toNat_length ring]
  exact ringLength_lt ring.start_lt ring.endPos_lt

/-- From the first position the length of the ring leads to its end, and nothing less. -/
theorem iterate_nextPos_length (ring : b.InRing) :
    (b.nextPos)^[b.length.toNat] b.start = b.endPos ∧
      ∀ k < b.length.toNat, (b.nextPos)^[k] b.start ≠ b.endPos := by
  rw [toNat_length ring]
  constructor
  · apply BitVec.eq_of_toNat_eq
    rw [(toNat_iterate_nextPos ring.start_lt _).1, ring_reaches ring.start_lt ring.endPos_lt]
  · intro k before same
    have there := (toNat_iterate_nextPos ring.start_lt k).1
    rw [same] at there
    exact ring_before ring.start_lt ring.endPos_lt before there.symm

end PacketBuffer

end UdpStuff
