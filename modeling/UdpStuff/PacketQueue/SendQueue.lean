/-
# PacketQueue.SendQueue — packets numbered for sending

`PacketSendQueue` of `packet_queue.h`.  Every operation that stores a packet
takes the next number first (`++end_seq`) and then calls `emplace`, which does
nothing when the number is in use.  `push_buffer` cuts a buffer into packets of
at most `mtu` bytes; with `mtu = 0` its loop makes no progress, so `pushBuffer`
returns `none` exactly when the loop does not end.

Whether `emplace` has already moved the payload out of its argument when it finds
the number in use is left open by the library; `steals` says which.

* `pushBuffer_eq`: the loop pushes the pieces of the buffer, one by one;
* `pushAll_packets`: the numbers they are stored under.
-/
import UdpStuff.PacketQueue.RecvQueue
import UdpStuff.Theory.Chunks

namespace UdpStuff.PacketQueue

open Theory
open Std (ExtTreeMap)

set_option autoImplicit false

/-- `PacketDescr(size, data)`: a copy of the first `size` bytes at `data`. -/
def PacketDescr.make (size : BitVec 32) (data : List UInt8) : PacketDescr :=
  ⟨data.take size.toNat, by
    rw [List.length_take]
    exact lt_of_le_of_lt (Nat.min_le_left _ _) size.isLt⟩

structure PacketSendQueue where
  mtu : BitVec 32 := 1024
  startSeq : Seq := 1
  endSeq : Seq := 0
  packets : ExtTreeMap Seq PacketDescr := ∅

namespace PacketSendQueue

def packetsCount (q : PacketSendQueue) : Nat := q.packets.size

/-- One turn of the `clear_range` loop. -/
def clearAt (q : PacketSendQueue) (i : Seq) : PacketSendQueue :=
  { q with packets := q.packets.erase i }

def clearRange (q : PacketSendQueue) (start stop : Seq) : PacketSendQueue :=
  (wrapRange start stop).foldl clearAt q

/-- `packets.emplace(++end_seq, …)` -/
def emplaceNext (q : PacketSendQueue) (p : PacketDescr) : PacketSendQueue :=
  { q with endSeq := q.endSeq + 1, packets := q.packets.insertIfNew (q.endSeq + 1) p }

def pushPacket (q : PacketSendQueue) (size : BitVec 32) (data : List UInt8) : PacketSendQueue :=
  q.emplaceNext (PacketDescr.make size data)

/-- Retransmission: the payload of `seq` under a new number. -/
def movePacketUp (steals : Bool) (q : PacketSendQueue) (seq : Seq) : PacketSendQueue :=
  let newSeq := q.endSeq + 1
  { q with
    endSeq := newSeq
    packets :=
      match q.packets[seq]? with
      | none => q.packets
      | some p =>
          if q.packets.contains newSeq then
            if steals then q.packets.insert seq .movedFrom else q.packets
          else (q.packets.insert seq .movedFrom).insert newSeq p }

def pushBufferLoop (data : List UInt8) (size : BitVec 32) :
    Nat → PacketSendQueue → BitVec 32 → Option PacketSendQueue
  | 0, _, _ => none
  | fuel + 1, q, offset =>
      if offset < size then
        let rest := size - offset
        let packetSize := if rest > q.mtu then q.mtu else rest
        pushBufferLoop data size fuel (q.pushPacket packetSize (data.drop offset.toNat))
          (offset + packetSize)
      else some q

/-- A turn that advances moves `offset` by at least one, so `size + 1` turns are
enough whenever the loop ends. -/
def pushBuffer (q : PacketSendQueue) (data : List UInt8) (size : BitVec 32) :
    Option PacketSendQueue :=
  pushBufferLoop data size (size.toNat + 1) q 0

@[simp] theorem emplaceNext_mtu (q : PacketSendQueue) (p : PacketDescr) :
    (q.emplaceNext p).mtu = q.mtu := rfl

@[simp] theorem emplaceNext_endSeq (q : PacketSendQueue) (p : PacketDescr) :
    (q.emplaceNext p).endSeq = q.endSeq + 1 := rfl

theorem emplaceNext_packets (q : PacketSendQueue) (p : PacketDescr) (i : Seq) :
    (q.emplaceNext p).packets[i]? =
      if i = q.endSeq + 1 then some (q.packets[q.endSeq + 1]?.getD p) else q.packets[i]? :=
  OrderedMap.getElem?_emplace q.packets (q.endSeq + 1) i p

/-! ## A buffer is a list of pieces -/

/-- Store a list of packets under consecutive new numbers. -/
def pushAll (q : PacketSendQueue) (ps : List PacketDescr) : PacketSendQueue :=
  ps.foldl emplaceNext q

/-- A whole byte string as a packet. -/
def wholePacket (bytes : List UInt8) : PacketDescr :=
  .make (BitVec.ofNat 32 bytes.length) bytes

theorem wholePacket_data {bytes : List UInt8} (fits : bytes.length < 2 ^ 32) :
    (wholePacket bytes).data = bytes := by
  simp only [wholePacket, PacketDescr.make, BitVec.toNat_ofNat, Nat.mod_eq_of_lt fits]
  exact List.take_length

/-- The packets `push_buffer` makes of a buffer. -/
def bufferPackets (mtu : BitVec 32) (data : List UInt8) : List PacketDescr :=
  (chunks mtu.toNat data).map wholePacket

theorem make_eq_wholePacket (size : BitVec 32) (data : List UInt8) :
    PacketDescr.make size data = wholePacket (data.take size.toNat) := by
  have short : (data.take size.toNat).length < 2 ^ 32 :=
    lt_of_le_of_lt (by rw [List.length_take]; exact Nat.min_le_left _ _) size.isLt
  have same := wholePacket_data short
  cases h : wholePacket (data.take size.toNat) with
  | mk bytes bound =>
      rw [h] at same
      subst same
      rfl

/-- One turn of the loop takes the next piece of what is left. -/
theorem pushBufferLoop_turn {data : List UInt8} {size offset : BitVec 32} (mtu : BitVec 32)
    (whole : data.length = size.toNat) (more : offset < size) :
    let packetSize := if size - offset > mtu then mtu else size - offset
    packetSize.toNat = min mtu.toNat (size.toNat - offset.toNat) ∧
      PacketDescr.make packetSize (data.drop offset.toNat) =
        wholePacket ((data.drop offset.toNat).take mtu.toNat) := by
  intro packetSize
  have before : offset.toNat < size.toNat := by simpa [BitVec.lt_def] using more
  have rest : (size - offset).toNat = size.toNat - offset.toNat :=
    BitVec.toNat_sub_of_le (BitVec.le_def.mpr before.le)
  have taken : packetSize.toNat = min mtu.toNat (size.toNat - offset.toNat) := by
    simp only [packetSize, gt_iff_lt, BitVec.lt_def, rest]
    split
    · omega
    · rw [rest]
      omega
  refine ⟨taken, ?_⟩
  rw [make_eq_wholePacket]
  congr 1
  rw [List.take_eq_take_iff, List.length_drop, taken, whole]
  omega

theorem pushBufferLoop_eq {data : List UInt8} {size : BitVec 32}
    (whole : data.length = size.toNat) {fuel : Nat} {q : PacketSendQueue} {offset : BitVec 32}
    (positive : 0 < q.mtu.toNat) (inside : offset.toNat ≤ size.toNat)
    (enough : size.toNat < fuel + offset.toNat) :
    pushBufferLoop data size fuel q offset =
      some (q.pushAll (bufferPackets q.mtu (data.drop offset.toNat))) := by
  induction fuel generalizing q offset with
  | zero => omega
  | succ fuel ih =>
      rw [pushBufferLoop]
      by_cases more : offset < size
      · have before : offset.toNat < size.toNat := by simpa [BitVec.lt_def] using more
        obtain ⟨taken, packet⟩ := pushBufferLoop_turn q.mtu whole more
        have bound := size.isLt
        have next : (offset + if size - offset > q.mtu then q.mtu else size - offset).toNat =
            offset.toNat + min q.mtu.toNat (size.toNat - offset.toNat) := by
          rw [BitVec.toNat_add, taken, Nat.mod_eq_of_lt (by omega)]
        have nonempty : data.drop offset.toNat ≠ [] := by
          intro empty
          have := congrArg List.length empty
          simp only [List.length_drop, List.length_nil] at this
          omega
        have cut : (data.drop offset.toNat).drop q.mtu.toNat =
            data.drop (offset.toNat + min q.mtu.toNat (size.toNat - offset.toNat)) := by
          rw [List.drop_drop]
          rcases Nat.le_total q.mtu.toNat (size.toNat - offset.toNat) with fits | short
          · rw [Nat.min_eq_left fits]
          · rw [Nat.min_eq_right short, List.drop_eq_nil_of_le (by omega),
              List.drop_eq_nil_of_le (by omega)]
        simp only [if_pos more]
        rw [ih (by exact positive) (by rw [next]; omega) (by rw [next]; omega), next]
        simp only [pushPacket, packet, emplaceNext_mtu, bufferPackets]
        rw [chunks_cons positive nonempty, cut]
        rfl
      · have past : data.drop offset.toNat = [] :=
          List.drop_eq_nil_of_le (by rw [BitVec.lt_def] at more; omega)
        simp [more, past, bufferPackets, pushAll]

/-- **The loop ends and pushes the pieces of the buffer**, for a positive `mtu`. -/
theorem pushBuffer_eq {q : PacketSendQueue} {data : List UInt8} (fits : data.length < 2 ^ 32)
    (positive : 0 < q.mtu.toNat) :
    q.pushBuffer data (BitVec.ofNat 32 data.length) =
      some (q.pushAll (bufferPackets q.mtu data)) := by
  have whole : data.length = (BitVec.ofNat 32 data.length).toNat := by
    rw [BitVec.toNat_ofNat, Nat.mod_eq_of_lt fits]
  rw [pushBuffer, pushBufferLoop_eq whole positive (Nat.zero_le _) (by simp)]
  rfl

/-! ## Consecutive numbers -/

theorem pushAll_cons (q : PacketSendQueue) (p : PacketDescr) (ps : List PacketDescr) :
    q.pushAll (p :: ps) = (q.emplaceNext p).pushAll ps := rfl

@[simp] theorem pushAll_mtu (q : PacketSendQueue) (ps : List PacketDescr) :
    (q.pushAll ps).mtu = q.mtu := by
  induction ps generalizing q with
  | nil => rfl
  | cons p ps ih => rw [pushAll_cons, ih, emplaceNext_mtu]

theorem pushAll_endSeq (q : PacketSendQueue) (ps : List PacketDescr) :
    (q.pushAll ps).endSeq = q.endSeq + BitVec.ofNat 16 ps.length := by
  induction ps generalizing q with
  | nil => simp [pushAll]
  | cons p ps ih =>
      rw [pushAll_cons, ih, emplaceNext_endSeq, List.length_cons, add_ofNat_succ]

/-- Numbers outside the assigned range keep what they had. -/
theorem pushAll_frame {q : PacketSendQueue} {ps : List PacketDescr} {i : Seq}
    (outside : ∀ k < ps.length, i ≠ q.endSeq + 1 + BitVec.ofNat 16 k) :
    (q.pushAll ps).packets[i]? = q.packets[i]? := by
  induction ps generalizing q with
  | nil => rfl
  | cons p ps ih =>
      rw [pushAll_cons, ih, emplaceNext_packets, if_neg]
      · simpa using outside 0 (by simp)
      · intro k below
        have := outside (k + 1) (by simpa using below)
        rwa [add_ofNat_succ] at this

/-- The numbers behind the next one keep what they had. -/
theorem emplaceNext_later (q : PacketSendQueue) (p : PacketDescr) {k : Nat}
    (short : k + 1 < 2 ^ 16) :
    (q.emplaceNext p).packets[(q.emplaceNext p).endSeq + 1 + BitVec.ofNat 16 k]? =
      q.packets[q.endSeq + 1 + BitVec.ofNat 16 (k + 1)]? := by
  rw [emplaceNext_endSeq, ← add_ofNat_succ, emplaceNext_packets, if_neg (add_ofNat_succ_ne short)]

/-- The `k`-th packet of at most 65536 gets the `k`-th new number, unless it is in use. -/
theorem pushAll_stored {q : PacketSendQueue} {ps : List PacketDescr} (short : ps.length ≤ 2 ^ 16)
    {k : Nat} (below : k < ps.length) :
    (q.pushAll ps).packets[q.endSeq + 1 + BitVec.ofNat 16 k]? =
      some (q.packets[q.endSeq + 1 + BitVec.ofNat 16 k]?.getD ps[k]) := by
  induction ps generalizing q k with
  | nil => simp at below
  | cons p ps ih =>
      have length : ps.length + 1 ≤ 2 ^ 16 := by simpa using short
      rw [pushAll_cons]
      cases k with
      | zero =>
          rw [add_ofNat_zero, pushAll_frame]
          · rw [emplaceNext_packets, if_pos rfl]
            rfl
          · intro j inside same
            rw [emplaceNext_endSeq, ← add_ofNat_succ] at same
            exact add_ofNat_succ_ne (by omega) same.symm
      | succ k =>
          have inner : k < ps.length := by simpa using below
          have stored := ih (by omega) inner (q := q.emplaceNext p)
          rw [emplaceNext_later q p (by omega), emplaceNext_endSeq, ← add_ofNat_succ] at stored
          exact stored

/-- Under free numbers all packets are stored. -/
theorem pushAll_packets {q : PacketSendQueue} {ps : List PacketDescr}
    (short : ps.length ≤ 2 ^ 16)
    (free : ∀ k < ps.length, q.packets[q.endSeq + 1 + BitVec.ofNat 16 k]? = none)
    {k : Nat} (below : k < ps.length) :
    (q.pushAll ps).packets[q.endSeq + 1 + BitVec.ofNat 16 k]? = some ps[k] := by
  rw [pushAll_stored short below, free k below, Option.getD_none]

end PacketSendQueue

end UdpStuff.PacketQueue
