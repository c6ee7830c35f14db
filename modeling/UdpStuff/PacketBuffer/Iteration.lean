/-
# PacketBuffer.Iteration — the loops over a ring

A loop `for (auto pos : iter)` takes `begin()` and `end()` once, and goes on as long as
`operator!=` of the iterator says that it is not at the end.  That operator of
`IndexIter` compares the end that the iterator keeps, and never the position: it is
`end()` itself that it is compared with, so no loop makes a turn (`visits_iff`).

`ring_iteration_iff`: the loops visit what they are for exactly in the empty ring.  The
first position of a `seq_range` is not taken round the ring either
(`seqRange_posIdx_iff`).
-/
import UdpStuff.PacketBuffer.Buffer

namespace UdpStuff.PacketBuffer

open Theory

set_option autoImplicit false

variable {α : Type} {w : Nat}

/-! ## The iterator -/

structure IndexIter (α : Type) (w : Nat) where
  buf : PacketBuffer α w
  posIdx : BitVec 32
  endIdx : BitVec 32

namespace IndexIter

/-- `begin()` -/
def begin (it : IndexIter α w) : IndexIter α w := it

/-- `end()` -/
def endPos (it : IndexIter α w) : BitVec 32 := it.endIdx

/-- `operator!=` -/
def ne (it : IndexIter α w) (endIdxCmp : BitVec 32) : Bool := it.endIdx != endIdxCmp

/-- `operator++` -/
def incr (it : IndexIter α w) : IndexIter α w := { it with posIdx := it.buf.nextPos it.posIdx }

/-- The positions at the turns of a loop, given up when its tests are used up. -/
def rangeForLoop (stop : BitVec 32) : Nat → IndexIter α w → Option (List (BitVec 32))
  | 0, _ => none
  | tests + 1, it =>
    if it.ne stop then (rangeForLoop stop tests it.incr).map (it.posIdx :: ·) else some []

/-- A loop over the iterator ends, and makes its turns at these positions. -/
def Visits (it : IndexIter α w) (positions : List (BitVec 32)) : Prop :=
  ∃ tests, rangeForLoop it.endPos tests it.begin = some positions

/-- There is no first turn. -/
theorem visits_iff {it : IndexIter α w} {positions : List (BitVec 32)} :
    it.Visits positions ↔ positions = [] := by
  have stopped : it.ne it.endPos = false := bne_self_eq_false it.endIdx
  have loop : ∀ tests, rangeForLoop it.endPos (tests + 1) it = some [] := by
    intro tests
    rw [rangeForLoop, stopped]
    rfl
  constructor
  · rintro ⟨tests, visited⟩
    cases tests with
    | zero => cases visited
    | succ tests =>
        have same : some [] = some positions := (loop tests).symm.trans visited
        exact (Option.some.inj same).symm
  · rintro rfl
    exact ⟨1, loop 0⟩

end IndexIter

def iter (b : PacketBuffer α w) : IndexIter α w := ⟨b, b.start, b.endPos⟩

def seqRange (b : PacketBuffer α w) (seq1 seq2 : BitVec 32) : IndexIter α w :=
  let pos1 := seq1 + (b.start - b.seqStart.setWidth 32)
  let pos2 := seq2 + (b.start - b.seqStart.setWidth 32)
  ⟨b, pos1, b.nextPos pos2⟩

/-! ## What they are for -/

/-- How far the packet `seq` is from the first one. -/
def distance (b : PacketBuffer α w) (seq : BitVec 32) : Nat :=
  (seq - b.seqStart.setWidth 32).toNat

/-- Where the packet `seq` is in the array. -/
def positionOf (b : PacketBuffer α w) (seq : BitVec 32) : BitVec 32 :=
  (b.nextPos)^[b.distance seq] b.start

/-- The positions in use, from the first on. -/
def positions (b : PacketBuffer α w) : List (BitVec 32) :=
  (List.range b.length.toNat).map fun k => (b.nextPos)^[k] b.start

/-- Those of the packets from `seq1` to `seq2`. -/
def seqPositions (b : PacketBuffer α w) (seq1 seq2 : BitVec 32) : List (BitVec 32) :=
  (List.range (seq2.toNat + 1 - seq1.toNat)).map fun i => b.positionOf (seq1 + BitVec.ofNat 32 i)

/-- A loop over `iter()` visits the positions in use, and one over `seq_range` those of
its packets, for all that are stored. -/
structure RingIteration (b : PacketBuffer α w) : Prop where
  iter : b.iter.Visits b.positions
  seqRange : ∀ seq1 seq2, seq1 ≤ seq2 → b.distance seq1 < b.length.toNat →
    b.distance seq2 < b.length.toNat → (b.seqRange seq1 seq2).Visits (b.seqPositions seq1 seq2)

variable {b : PacketBuffer α w}

/-- The first position of a range is that of its first packet if this is not behind the
wrap point, and outside of the ring if it is. -/
theorem seqRange_posIdx_iff (ring : b.InRing) {seq1 seq2 : BitVec 32}
    (stored : b.distance seq1 < b.length.toNat) :
    (b.seqRange seq1 seq2).posIdx = b.positionOf seq1 ↔
      b.start.toNat + b.distance seq1 < b.size.toNat := by
  have start_lt : b.start.toNat < b.size.toNat := ring.start_lt
  have size := b.size.isLt
  have turn : b.distance seq1 < b.size.toNat := stored.trans (length_lt ring)
  have first : (b.seqRange seq1 seq2).posIdx.toNat =
      (b.start.toNat + b.distance seq1) % 2 ^ 32 := by
    have moved : (b.seqRange seq1 seq2).posIdx = b.start + (seq1 - b.seqStart.setWidth 32) := by
      show seq1 + (b.start - b.seqStart.setWidth 32) = _
      rw [BitVec.sub_eq_add_neg, BitVec.sub_eq_add_neg, ← BitVec.add_assoc,
        BitVec.add_comm seq1 b.start, BitVec.add_assoc]
    rw [moved, BitVec.toNat_add]
    rfl
  rw [← BitVec.toNat_inj, first, positionOf, (toNat_iterate_nextPos ring.start_lt _).1,
    ring_position start_lt turn]
  split <;> omega

theorem positions_eq_nil (ring : b.InRing) : b.positions = [] ↔ b.start = b.endPos := by
  rw [positions, List.map_eq_nil_iff, List.range_eq_nil, toNat_length ring,
    ringLength_eq_zero (BitVec.lt_def.mp ring.start_lt), BitVec.toNat_inj]

/-- A range has a packet, and its loop no turn. -/
theorem seqRange_misses {seq1 seq2 : BitVec 32} (ordered : seq1 ≤ seq2) :
    ¬ (b.seqRange seq1 seq2).Visits (b.seqPositions seq1 seq2) := by
  have ordered : seq1.toNat ≤ seq2.toNat := ordered
  rw [IndexIter.visits_iff, seqPositions, List.map_eq_nil_iff, List.range_eq_nil]
  omega

/-- **Loops over a ring are right exactly if it is empty**, and no loop over packets
ever is. -/
theorem ring_iteration_iff (b : PacketBuffer α w) (ring : b.InRing) :
    (RingIteration b ↔ b.start = b.endPos) ∧
      ∀ seq1 seq2, seq1 ≤ seq2 → ¬ (b.seqRange seq1 seq2).Visits (b.seqPositions seq1 seq2) := by
  refine ⟨?_, fun seq1 seq2 ordered => seqRange_misses ordered⟩
  rw [← positions_eq_nil ring]
  constructor
  · intro right
    exact IndexIter.visits_iff.mp right.iter
  · intro empty
    refine ⟨IndexIter.visits_iff.mpr empty, fun seq1 seq2 _ stored _ => ?_⟩
    have none_stored : b.length.toNat = 0 := by
      rwa [positions, List.map_eq_nil_iff, List.range_eq_nil] at empty
    omega

theorem ring_iteration_new : RingIteration (make 0 4 : PacketBuffer Nat 32) :=
  (ring_iteration_iff (make 0 4) ⟨by decide, by decide⟩).1.mpr rfl

/-- One packet is stored, and a loop does not see it. -/
theorem ring_iteration_refuted :
    ¬ ∀ b : PacketBuffer Nat 32, b.InRing → RingIteration b := by
  intro all
  have right := all ⟨4, #v[7, 0, 0, 0], 0, 1, 7⟩ ⟨by decide, by decide⟩
  exact absurd (IndexIter.visits_iff.mp right.iter) (by decide)

end UdpStuff.PacketBuffer
