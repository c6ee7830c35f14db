/-
# PacketQueue.SequenceLoc — `packet_loc` and `push_buffer` cut alike

`push_buffer` numbers the packets of a buffer from the number after the last one on.  A
`PacketSequence` of the buffer's size that starts with that number says of every number
which part of the buffer it stands for.

The two agree on all 65536 numbers (`LocatesAll`): the packet that is stored under a number
that `packet_loc` knows is that part of the buffer, and under the others nothing is stored.
So a receiver that copies each packet to where `packet_loc` says has the buffer, in whatever
order they come and however often (`sequence_assembles`).
-/
import UdpStuff.PacketBuffer.PacketSequence
import UdpStuff.PacketQueue.Reassembly

namespace UdpStuff.PacketQueue

open Theory PacketSendQueue

set_option autoImplicit false

/-- The sequence of a buffer that is pushed next, at some address. -/
def sequenceOf (q : PacketSendQueue) (size : Nat) (block : BitVec 64) : PacketSequence 16 :=
  ⟨q.endSeq + 1, BitVec.ofNat 64 size, q.mtu.setWidth 64, block⟩

/-- A packet is copied to where `packet_loc` says. -/
def place (s : PacketSequence 16) (mem : Mem) (arrival : Seq × PacketDescr) :
    Except PacketSequence.Error Mem :=
  (s.packetLoc arrival.1).map fun loc => memcpy mem (loc.data - s.data).toNat arrival.2.data

/-- What `packet_loc` says of every number, and what is stored under it. -/
def LocatesAll (s : PacketSequence 16) (data : List UInt8) (q q' : PacketSendQueue) : Prop :=
  ∀ i : Seq, match s.packetLoc i with
    | .ok loc => ∃ p, q'.packets[i]? = some p ∧ p.data = s.contents data loc
    | .error _ => q'.packets[i]? = q.packets[i]?

variable {q : PacketSendQueue} {data : List UInt8}

theorem mtu_sequenceOf (q : PacketSendQueue) (size : Nat) (block : BitVec 64) :
    (sequenceOf q size block).mtu.toNat = q.mtu.toNat := by
  have narrow := q.mtu.isLt
  rw [sequenceOf, BitVec.toNat_setWidth, Nat.mod_eq_of_lt (by omega)]

theorem dataSize_sequenceOf (q : PacketSendQueue) {size : Nat} (fits : size < 2 ^ 32)
    (block : BitVec 64) : (sequenceOf q size block).dataSize.toNat = size := by
  rw [sequenceOf, BitVec.toNat_ofNat, Nat.mod_eq_of_lt (by omega)]

/-- `packet_loc`, `k` numbers after the next one, told by the pieces of the buffer. -/
theorem packetLoc_sequenceOf (fits : data.length < 2 ^ 32) (positive : 0 < q.mtu.toNat)
    (block : BitVec 64) {k : Nat} (short : k < 2 ^ 16) :
    (sequenceOf q data.length block).packetLoc (q.endSeq + 1 + BitVec.ofNat 16 k) =
      if k < (chunks q.mtu.toNat data).length then .ok ((sequenceOf q data.length block).slice k)
      else .error (.outOfRange "Invalid packet location") := by
  have mtu := mtu_sequenceOf q data.length block
  have size := dataSize_sequenceOf q fits block
  have narrow := q.mtu.isLt
  have known : k < (chunks q.mtu.toNat data).length ↔ ¬data.length ≤ k * q.mtu.toNat := by
    rw [length_chunks positive, ← not_le, ← Nat.ceilDiv_eq_add_pred_div,
      ceilDiv_le_iff_le_mul positive, Nat.mul_comm]
  have loc := PacketSequence.packetLoc_next (s := sequenceOf q data.length block) (by decide)
    (by rw [mtu]; omega) short
  rw [size, mtu] at loc
  rw [show q.endSeq + 1 = (sequenceOf q data.length block).seqStart from rfl, loc]
  by_cases outside : data.length ≤ k * q.mtu.toNat
  · rw [if_pos outside, if_neg (fun inside => known.mp inside outside)]
  · rw [if_neg outside, if_pos (known.mpr outside)]

theorem contents_sequenceOf (fits : data.length < 2 ^ 32) (positive : 0 < q.mtu.toNat)
    (block : BitVec 64) {k : Nat} (below : k < (chunks q.mtu.toNat data).length) :
    (sequenceOf q data.length block).contents data ((sequenceOf q data.length block).slice k) =
      (chunks q.mtu.toNat data)[k] := by
  have mtu := mtu_sequenceOf q data.length block
  have whole : data.length = (sequenceOf q data.length block).dataSize.toNat :=
    (dataSize_sequenceOf q fits block).symm
  have shown := PacketSequence.contents_slice (mtu.symm ▸ positive) whole (k := k)
    (mtu.symm ▸ below)
  rw [shown]
  simp only [mtu]

/-- **The two agree on every number.** -/
theorem locatesAll (fits : data.length < 2 ^ 32) (positive : 0 < q.mtu.toNat)
    (few : packetCount q.mtu data.length ≤ 2 ^ 16)
    (free : ∀ k < packetCount q.mtu data.length,
      q.packets[q.endSeq + 1 + BitVec.ofNat 16 k]? = none) (block : BitVec 64) :
    LocatesAll (sequenceOf q data.length block) data q (q.pushAll (bufferPackets q.mtu data)) := by
  have count := bufferPackets_length positive data
  have pieces : (chunks q.mtu.toNat data).length = (bufferPackets q.mtu data).length :=
    (List.length_map _).symm
  intro i
  have number := add_distance (q.endSeq + 1) i
  have loc := packetLoc_sequenceOf fits positive block (i - (q.endSeq + 1)).isLt
  rw [number] at loc
  rw [loc]
  by_cases below : (i - (q.endSeq + 1)).toNat < (chunks q.mtu.toNat data).length
  · have inside := pieces ▸ below
    have stored := pushAll_packets (count.symm ▸ few) (count.symm ▸ free) inside
    rw [number] at stored
    rw [if_pos below]
    refine ⟨_, stored, ?_⟩
    rw [contents_sequenceOf fits positive block below]
    simp only [bufferPackets, List.getElem_map]
    exact wholePacket_of_mem_chunks positive (List.getElem_mem below)
  · rw [if_neg below]
    apply pushAll_frame
    rintro k inside rfl
    rw [distance_add _ (inside.trans_le (count.symm ▸ few)), pieces] at below
    exact below inside

/-! ## Copying packets to their places -/

/-- The place of a number in the buffer. -/
def pieceAt (s : PacketSequence 16) (i : Seq) : Nat × Nat :=
  match s.packetLoc i with
  | .ok loc => ((loc.data - s.data).toNat, loc.size.toNat)
  | .error _ => (0, 0)

/-- Known packets are copied like the pieces of the buffer that they are. -/
theorem place_all {s : PacketSequence 16} {arrivals : List (Seq × PacketDescr)}
    (known : ∀ a ∈ arrivals, ∃ loc, s.packetLoc a.1 = .ok loc ∧ a.2.data = s.contents data loc)
    (mem : Mem) : arrivals.foldlM (place s) mem =
      .ok (putPieces mem data (arrivals.map fun a => pieceAt s a.1)) := by
  induction arrivals generalizing mem with
  | nil => rfl
  | cons a arrivals ih =>
      obtain ⟨loc, located, bytes⟩ := known a List.mem_cons_self
      have one : place s mem a =
          .ok (memcpy mem (pieceAt s a.1).1 ((data.drop (pieceAt s a.1).1).take (pieceAt s a.1).2)) := by
        rw [place, pieceAt, located, bytes]
        rfl
      rw [List.foldlM_cons, one]
      exact ih (fun b member => known b (List.mem_cons_of_mem _ member)) _

/-- Every position of the buffer is in the piece of some number. -/
theorem covered (fits : data.length < 2 ^ 32) (positive : 0 < q.mtu.toNat)
    (few : packetCount q.mtu data.length ≤ 2 ^ 16) (block : BitVec 64) {x : Nat}
    (inside : x < data.length) :
    ∃ i loc, (sequenceOf q data.length block).packetLoc i = .ok loc ∧
      (pieceAt (sequenceOf q data.length block) i).1 ≤ x ∧
      x < (pieceAt (sequenceOf q data.length block) i).1 +
        (pieceAt (sequenceOf q data.length block) i).2 := by
  have mtu := mtu_sequenceOf q data.length block
  have size := dataSize_sequenceOf q fits block
  have quotient := Nat.div_add_mod x q.mtu.toNat
  have rest := Nat.mod_lt x positive
  have start : x / q.mtu.toNat * q.mtu.toNat ≤ x := Nat.div_mul_le_self _ _
  have below : x / q.mtu.toNat < (chunks q.mtu.toNat data).length := by
    rw [length_chunks positive, ← Nat.ceilDiv_eq_add_pred_div, ← not_le,
      ceilDiv_le_iff_le_mul positive, Nat.mul_comm, not_le]
    exact start.trans_lt inside
  have short : x / q.mtu.toNat < 2 ^ 16 := by
    rw [length_chunks positive] at below
    exact below.trans_le few
  have loc := packetLoc_sequenceOf fits positive block short
  rw [if_pos below] at loc
  refine ⟨_, _, loc, ?_⟩
  rw [pieceAt, loc]
  dsimp only
  rw [PacketSequence.data_slice (by rw [mtu, size]; omega), PacketSequence.size_slice, mtu, size]
  rw [Nat.mul_comm] at quotient
  omega

/-- **A buffer is put together at its places.**  `push_buffer` cuts a buffer into at most 65536
packets under free numbers, and `packet_loc` knows exactly these; when each of them has come,
in any order and however often, and was copied to where `packet_loc` says, the buffer is there
and nothing behind it has changed. -/
theorem sequence_assembles (fits : data.length < 2 ^ 32) (positive : 0 < q.mtu.toNat)
    (few : packetCount q.mtu data.length ≤ 2 ^ 16)
    (free : ∀ k < packetCount q.mtu data.length,
      q.packets[q.endSeq + 1 + BitVec.ofNat 16 k]? = none) (address : BitVec 64) :
    ∃ q', q.pushBuffer data (BitVec.ofNat 32 data.length) = some q' ∧
      let s := sequenceOf q data.length address
      LocatesAll s data q q' ∧
      ∀ (arrivals : List (Seq × PacketDescr)) (mem : Mem),
        (∀ a ∈ arrivals, (∃ loc, s.packetLoc a.1 = .ok loc) ∧ q'.packets[a.1]? = some a.2) →
        (∀ i loc, s.packetLoc i = .ok loc → ∃ p, (i, p) ∈ arrivals) →
        ∃ mem', arrivals.foldlM (place s) mem = .ok mem' ∧ block mem' 0 data.length = data ∧
          ∀ x, data.length ≤ x → mem' x = mem x := by
  have agree := locatesAll fits positive few free address
  refine ⟨_, pushBuffer_eq fits positive, agree, fun arrivals mem known complete => ?_⟩
  have located : ∀ a ∈ arrivals, ∃ loc, (sequenceOf q data.length address).packetLoc a.1 = .ok loc ∧
      a.2.data = (sequenceOf q data.length address).contents data loc := by
    intro a member
    obtain ⟨⟨loc, there⟩, stored⟩ := known a member
    have same := agree a.1
    rw [there] at same
    obtain ⟨p, stored', bytes⟩ := same
    rw [stored, Option.some.injEq] at stored'
    exact ⟨loc, there, stored' ▸ bytes⟩
  refine ⟨_, place_all located mem, ?_, fun x outside => ?_⟩
  · apply block_eq
    intro x inside
    obtain ⟨i, loc, there, from_, to_⟩ := covered (q := q) fits positive few address inside
    obtain ⟨p, member⟩ := complete i loc there
    rw [Nat.zero_add, putPieces_apply, if_pos, List.getD_eq_getElem _ _ inside]
    exact ⟨inside, _, List.mem_map_of_mem member, from_, to_⟩
  · rw [putPieces_apply, if_neg]
    rintro ⟨inside, -⟩
    exact absurd outside (not_le.mpr inside)

/-- Numbers that wrap, the packets from the last to the first, one of them twice. -/
theorem sequence_assembles_wrapping :
    let s := sequenceOf wrappingQueue wrappingBuffer.length 0x1000
    ∃ q', wrappingQueue.pushBuffer wrappingBuffer (BitVec.ofNat 32 wrappingBuffer.length) =
        some q' ∧ LocatesAll s wrappingBuffer wrappingQueue q' ∧
      ∀ mem, ∃ mem', [((1 : Seq), PacketDescr.make 2 [5, 6]), (0, .make 2 [3, 4]),
          (1, .make 2 [5, 6]), (65535, .make 2 [1, 2])].foldlM (place s) mem = .ok mem' ∧
        block mem' 0 wrappingBuffer.length = wrappingBuffer := by
  have fits : wrappingBuffer.length < 2 ^ 32 := by decide
  obtain ⟨q', pushed, agree, assembles⟩ := sequence_assembles (q := wrappingQueue) fits
    (by decide) (by decide) (by simp [wrappingQueue]) 0x1000
  refine ⟨q', pushed, agree, fun mem => ?_⟩
  have stored (i : Seq) (p : PacketDescr) (given : (wrappingQueue.pushBuffer wrappingBuffer
      (BitVec.ofNat 32 wrappingBuffer.length)).map (fun q => q.packets[i]?) = some (some p)) :
      q'.packets[i]? = some p := by
    rw [pushed] at given
    exact Option.some.inj given
  have placed := assembles [((1 : Seq), PacketDescr.make 2 [5, 6]), (0, .make 2 [3, 4]),
    (1, .make 2 [5, 6]), (65535, .make 2 [1, 2])] mem
  obtain ⟨mem', ran, whole, -⟩ := placed
    (by
      intro a member
      simp only [List.mem_cons, List.not_mem_nil, or_false] at member
      rcases member with rfl | rfl | rfl | rfl
      all_goals exact ⟨⟨_, rfl⟩, stored _ _ (by decide)⟩)
    (by
      intro i loc there
      have number := add_distance (65535 : Seq) i
      have known := packetLoc_sequenceOf (q := wrappingQueue) fits (by decide) 0x1000
        (i - (65535 : Seq)).isLt
      rw [show wrappingQueue.endSeq + 1 = (65535 : Seq) from rfl, number, there,
        show (chunks wrappingQueue.mtu.toNat wrappingBuffer).length = 3 from
          length_chunks (by decide) _] at known
      have below : (i - (65535 : Seq)).toNat < 3 := by
        by_contra outside
        rw [if_neg outside] at known
        cases known
      generalize (i - (65535 : Seq)).toNat = k at number below
      subst number
      interval_cases k
      · exact ⟨.make 2 [1, 2], by decide⟩
      · exact ⟨.make 2 [3, 4], by decide⟩
      · exact ⟨.make 2 [5, 6], by decide⟩)
  exact ⟨mem', ran, whole⟩

end UdpStuff.PacketQueue
