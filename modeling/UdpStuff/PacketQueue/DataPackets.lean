/-
# PacketQueue.DataPackets — whether the pieces of a buffer are data

A packet is data if its size is even.  `push_buffer` cuts off `mtu` bytes at a time, so
that an odd `mtu` makes control packets of an even buffer, and with `mtu = 0` it never
ends.  A piece whose number is in use is dropped, whatever its size.

`data_stays_data_iff`: everything queued is data, and nothing of it is lost, exactly if
the pieces that find their numbers free are even; with all numbers free that is an even
`mtu`, or a buffer of one piece.
-/
import UdpStuff.PacketQueue.Reassembly

namespace UdpStuff.PacketQueue

open Theory
open Std (ExtTreeMap)

set_option autoImplicit false

/-! ## What a new packet adds -/

theorem dataPacketsSize_emplace {packets : ExtTreeMap Seq PacketDescr} {seq : Seq}
    (free : packets[seq]? = none) (p : PacketDescr) :
    dataPacketsSize (packets.insertIfNew seq p) =
      dataPacketsSize packets + if p.isData then p.size else 0 := by
  have add (size : BitVec 32) (p : PacketDescr) :
      (if p.isData then size + p.size else size) = size + if p.isData then p.size else 0 := by
    split
    · rfl
    · exact (BitVec.add_zero size).symm
  simp only [dataPacketsSize, add]
  apply OrderedMap.foldl_emplace
  · intro size k p k' p'
    rw [BitVec.add_assoc, BitVec.add_assoc, BitVec.add_comm (if p.isData then p.size else 0)]
  · exact free

namespace PacketSendQueue

/-- Packets under free numbers add their data. -/
theorem dataPacketsSize_pushAll {q : PacketSendQueue} {ps : List PacketDescr}
    (short : ps.length ≤ 2 ^ 16)
    (free : ∀ k < ps.length, q.packets[q.endSeq + 1 + BitVec.ofNat 16 k]? = none) :
    dataPacketsSize (q.pushAll ps).packets =
      dataPacketsSize q.packets + BitVec.ofNat 32 (PacketRecvQueue.dataBytes ps).length := by
  induction ps generalizing q with
  | nil => exact (BitVec.add_zero _).symm
  | cons p ps ih =>
      have length : ps.length + 1 ≤ 2 ^ 16 := by simpa using short
      have first := free 0 (by simp)
      rw [add_ofNat_zero] at first
      have others (k : Nat) (below : k < ps.length) :
          (q.emplaceNext p).packets[(q.emplaceNext p).endSeq + 1 + BitVec.ofNat 16 k]? = none := by
        rw [emplaceNext_later q p (by omega)]
        exact free (k + 1) (by simpa using below)
      rw [pushAll_cons, ih (by omega) others, emplaceNext, dataPacketsSize_emplace first,
        PacketRecvQueue.dataBytes_cons, BitVec.add_assoc, List.length_append, BitVec.ofNat_add]
      congr 2
      split
      · rfl
      · rfl

/-- A buffer that makes no progress keeps the loop going. -/
theorem pushBufferLoop_stuck {data : List UInt8} {size offset : BitVec 32} (more : offset < size)
    {q : PacketSendQueue} (zero : q.mtu = 0) (fuel : Nat) :
    pushBufferLoop data size fuel q offset = none := by
  induction fuel generalizing q with
  | zero => rfl
  | succ fuel ih =>
      have before : offset.toNat < size.toNat := by simpa [BitVec.lt_def] using more
      have rest : size - offset > q.mtu := by
        rw [gt_iff_lt, BitVec.lt_def, zero, BitVec.toNat_sub_of_le (BitVec.le_def.mpr before.le)]
        exact Nat.sub_pos_of_lt before
      have still : offset + q.mtu = offset := by
        rw [zero]
        exact BitVec.add_zero offset
      rw [pushBufferLoop, if_pos more]
      dsimp only
      rw [if_pos rest, still]
      exact ih zero

/-- More turns return the same. -/
theorem pushBufferLoop_mono {data : List UInt8} {size : BitVec 32} {fuel more : Nat}
    (le : fuel ≤ more) {q q' : PacketSendQueue} {offset : BitVec 32}
    (returns : pushBufferLoop data size fuel q offset = some q') :
    pushBufferLoop data size more q offset = some q' := by
  induction fuel generalizing more q offset with
  | zero => cases returns
  | succ fuel ih =>
      obtain ⟨k, rfl⟩ := Nat.exists_eq_add_of_le le
      rw [Nat.add_right_comm]
      rw [pushBufferLoop] at returns ⊢
      by_cases inside : offset < size
      · rw [if_pos inside] at returns ⊢
        exact ih (Nat.le_add_right fuel k) returns
      · rw [if_neg inside] at returns ⊢
        exact returns

/-! ## The pieces -/

/-- The size of the `k`-th piece. -/
def pieceSize (mtu : BitVec 32) (size k : Nat) : Nat := min mtu.toNat (size - k * mtu.toNat)

theorem data_bufferPackets {mtu : BitVec 32} (positive : 0 < mtu.toNat) (buffer : List UInt8)
    {k : Nat} (below : k < (bufferPackets mtu buffer).length) :
    (bufferPackets mtu buffer)[k].data.length = pieceSize mtu buffer.length k := by
  have inside : k < (chunks mtu.toNat buffer).length := by
    rwa [bufferPackets, List.length_map] at below
  have piece : (bufferPackets mtu buffer)[k].data = (chunks mtu.toNat buffer)[k] := by
    simp only [bufferPackets, List.getElem_map]
    exact wholePacket_of_mem_chunks positive (List.getElem_mem inside)
  rw [piece, getElem_chunks positive, List.length_take, List.length_drop, pieceSize]

theorem isData_bufferPackets {mtu : BitVec 32} (positive : 0 < mtu.toNat) (buffer : List UInt8)
    {k : Nat} (below : k < (bufferPackets mtu buffer).length) :
    (bufferPackets mtu buffer)[k].isData = true ↔ pieceSize mtu buffer.length k % 2 = 0 := by
  rw [PacketDescr.isData_iff, data_bufferPackets positive buffer below]

/-- All pieces of an even buffer are even exactly if `mtu` is even or there is only one. -/
theorem pieces_even_iff {mtu : BitVec 32} (positive : 0 < mtu.toNat) {size : Nat}
    (even : size % 2 = 0) :
    (∀ k < packetCount mtu size, pieceSize mtu size k % 2 = 0) ↔
      size ≤ mtu.toNat ∨ mtu.toNat % 2 = 0 := by
  constructor
  · intro all
    by_contra neither
    obtain ⟨long, odd⟩ := not_or.mp neither
    have several : 0 < packetCount mtu size := by
      rw [packetCount, Nat.div_pos_iff]
      omega
    have first := all 0 several
    rw [pieceSize, Nat.zero_mul] at first
    omega
  · rintro (one | evenMtu) k below
    · have whole : packetCount mtu size ≤ 1 := by
        rw [packetCount, Nat.div_le_iff_le_mul_add_pred positive]
        omega
      have first : k = 0 := by omega
      rw [pieceSize, first, Nat.zero_mul]
      omega
    · have step : k * mtu.toNat % 2 = 0 := by
        rw [Nat.mul_mod, evenMtu, Nat.mul_zero, Nat.zero_mod]
      rw [pieceSize]
      omega

/-! ## The call -/

/-- The call ends, what it queues is data, and under free numbers all of the buffer is. -/
def KeepsData (q : PacketSendQueue) (buffer : List UInt8) : Prop :=
  ∃ fuel q', pushBufferLoop buffer (BitVec.ofNat 32 buffer.length) fuel q 0 = some q' ∧
    (∀ (i : Seq) p, q.packets[i]? = none → q'.packets[i]? = some p → p.isData = true) ∧
    ((∀ i ∈ assignedRange q buffer.length, q.packets[i]? = none) →
      dataPacketsSize q'.packets = dataPacketsSize q.packets + BitVec.ofNat 32 buffer.length)

/-- There is progress, and the pieces that find their numbers free are even. -/
def EvenPieces (q : PacketSendQueue) (size : Nat) : Prop :=
  (size = 0 ∨ 0 < q.mtu.toNat) ∧ ∀ k < packetCount q.mtu size,
    q.packets[q.endSeq + 1 + BitVec.ofNat 16 k]? = none → pieceSize q.mtu size k % 2 = 0

theorem assigned_iff {q : PacketSendQueue} {size : Nat} (few : packetCount q.mtu size ≤ 65535)
    (i : Seq) : i ∈ assignedRange q size ↔
      ∃ k < packetCount q.mtu size, i = q.endSeq + 1 + BitVec.ofNat 16 k := by
  rw [assignedRange, wrapRange_ofNat _ (by omega), List.mem_map]
  simp only [List.mem_range, eq_comm]

theorem all_free_iff {q : PacketSendQueue} {size : Nat} (few : packetCount q.mtu size ≤ 65535) :
    (∀ i ∈ assignedRange q size, q.packets[i]? = none) ↔
      ∀ k < packetCount q.mtu size, q.packets[q.endSeq + 1 + BitVec.ofNat 16 k]? = none := by
  constructor
  · exact fun free k below => free _ ((assigned_iff few _).mpr ⟨k, below, rfl⟩)
  · intro free i member
    obtain ⟨k, below, rfl⟩ := (assigned_iff few i).mp member
    exact free k below

/-- With progress the call ends, and in one way only. -/
theorem pushBufferLoop_returns_iff {q : PacketSendQueue} {buffer : List UInt8}
    (fits : buffer.length < 2 ^ 32) (positive : 0 < q.mtu.toNat) (q' : PacketSendQueue) :
    (∃ fuel, pushBufferLoop buffer (BitVec.ofNat 32 buffer.length) fuel q 0 = some q') ↔
      q' = q.pushAll (bufferPackets q.mtu buffer) := by
  have ends := pushBuffer_eq fits positive
  rw [pushBuffer] at ends
  constructor
  · rintro ⟨fuel, returns⟩
    have there := pushBufferLoop_mono (Nat.le_max_right fuel _) ends
    exact Option.some.inj
      ((pushBufferLoop_mono (Nat.le_max_left fuel _) returns).symm.trans there)
  · rintro rfl
    exact ⟨_, ends⟩

/-- What the queue has afterwards and did not have before are pieces under free numbers. -/
theorem queued_iff {q : PacketSendQueue} {ps : List PacketDescr} (short : ps.length ≤ 2 ^ 16)
    (i : Seq) (p : PacketDescr) :
    (q.packets[i]? = none ∧ (q.pushAll ps).packets[i]? = some p) ↔
      ∃ (k : Nat) (below : k < ps.length), i = q.endSeq + 1 + BitVec.ofNat 16 k ∧
        q.packets[i]? = none ∧ ps[k] = p := by
  constructor
  · rintro ⟨free, queued⟩
    by_cases assigned : ∃ k < ps.length, i = q.endSeq + 1 + BitVec.ofNat 16 k
    · obtain ⟨k, below, rfl⟩ := assigned
      rw [pushAll_stored short below, free] at queued
      exact ⟨k, below, rfl, free, Option.some.inj queued⟩
    · rw [pushAll_frame fun k below same => assigned ⟨k, below, same⟩, free] at queued
      cases queued
  · rintro ⟨k, below, rfl, free, rfl⟩
    exact ⟨free, by rw [pushAll_stored short below, free, Option.getD_none]⟩

theorem keepsData_iff {q : PacketSendQueue} {buffer : List UInt8} (fits : buffer.length < 2 ^ 32)
    (few : packetCount q.mtu buffer.length ≤ 65535) :
    KeepsData q buffer ↔ EvenPieces q buffer.length := by
  rcases Nat.eq_zero_or_pos q.mtu.toNat with zero | positive
  · -- without progress there must be nothing to do
    have none : packetCount q.mtu buffer.length = 0 := by
      rw [packetCount, zero, Nat.div_zero]
    constructor
    · rintro ⟨fuel, q', returns, -⟩
      refine ⟨.inl ?_, fun k below => absurd below (by omega)⟩
      by_contra some
      have more : (0 : BitVec 32) < BitVec.ofNat 32 buffer.length := by
        rw [BitVec.lt_def, BitVec.toNat_ofNat, Nat.mod_eq_of_lt fits]
        exact Nat.pos_of_ne_zero some
      rw [pushBufferLoop_stuck more (BitVec.eq_of_toNat_eq zero)] at returns
      cases returns
    · rintro ⟨empty | positive, -⟩
      · rw [KeepsData, empty]
        refine ⟨1, q, rfl, fun i p free queued => ?_, fun _ => (BitVec.add_zero _).symm⟩
        rw [free] at queued
        cases queued
      · omega
  · have count : (bufferPackets q.mtu buffer).length = packetCount q.mtu buffer.length :=
      bufferPackets_length positive buffer
    have short : (bufferPackets q.mtu buffer).length ≤ 2 ^ 16 := by omega
    have returns := pushBufferLoop_returns_iff fits positive
    constructor
    · rintro ⟨fuel, q', ends, data, -⟩
      obtain rfl := (returns q').mp ⟨fuel, ends⟩
      refine ⟨.inr positive, fun k below free => ?_⟩
      have inside : k < (bufferPackets q.mtu buffer).length := count.symm ▸ below
      have queued := (queued_iff short _ _).mpr ⟨k, inside, rfl, free, rfl⟩
      exact (isData_bufferPackets positive buffer inside).mp (data _ _ queued.1 queued.2)
    · rintro ⟨-, even⟩
      obtain ⟨fuel, ends⟩ := (returns _).mpr rfl
      refine ⟨fuel, _, ends, fun i p free queued => ?_, fun free => ?_⟩
      · obtain ⟨k, inside, rfl, -, rfl⟩ := (queued_iff short i p).mp ⟨free, queued⟩
        exact (isData_bufferPackets positive buffer inside).mpr (even k (count ▸ inside) free)
      · rw [all_free_iff few] at free
        have allData (p : PacketDescr) (member : p ∈ bufferPackets q.mtu buffer) :
            p.isData = true := by
          obtain ⟨k, inside, rfl⟩ := List.getElem_of_mem member
          have below : k < packetCount q.mtu buffer.length := count ▸ inside
          exact (isData_bufferPackets positive buffer inside).mpr (even k below (free k below))
        rw [dataPacketsSize_pushAll short (fun k inside => free k (count ▸ inside)),
          dataBytes_bufferPackets positive allData]

/-- **Data stays data** exactly if there is progress and the pieces that find their numbers free
are even; with all numbers free, if the buffer is one piece or `mtu` is even and not zero. -/
theorem data_stays_data_iff {q : PacketSendQueue} {buffer : List UInt8}
    (fits : buffer.length < 2 ^ 32) (even : buffer.length % 2 = 0)
    (few : packetCount q.mtu buffer.length ≤ 65535) :
    (KeepsData q buffer ↔ EvenPieces q buffer.length) ∧
      ((∀ i ∈ assignedRange q buffer.length, q.packets[i]? = none) →
        (KeepsData q buffer ↔ buffer.length ≤ q.mtu.toNat ∨
          0 < q.mtu.toNat ∧ q.mtu.toNat % 2 = 0)) := by
  refine ⟨keepsData_iff fits few, fun free => ?_⟩
  rw [all_free_iff few] at free
  rw [keepsData_iff fits few, EvenPieces]
  rcases Nat.eq_zero_or_pos q.mtu.toNat with zero | positive
  · have none : packetCount q.mtu buffer.length = 0 := by
      rw [packetCount, zero, Nat.div_zero]
    constructor
    · rintro ⟨empty | positive, -⟩
      · exact .inl (by omega)
      · omega
    · intro one
      exact ⟨.inl (by omega), fun k below => absurd below (by omega)⟩
  · have pieces := pieces_even_iff positive even
    constructor
    · rintro ⟨-, all⟩
      rcases pieces.mp fun k below => all k below (free k below) with one | evenMtu
      · exact .inl one
      · exact .inr ⟨positive, evenMtu⟩
    · intro right
      exact ⟨.inr positive, fun k below _ =>
        pieces.mpr (right.imp_right And.right) k below⟩

/-- The default `mtu`, and four bytes. -/
theorem data_stays_data_default :
    (KeepsData {} [1, 2, 3, 4] ↔ EvenPieces {} 4) ∧
      ((∀ i ∈ assignedRange {} 4, ({} : PacketSendQueue).packets[i]? = none) →
        (KeepsData {} [1, 2, 3, 4] ↔ 4 ≤ (1024 : BitVec 32).toNat ∨
          0 < (1024 : BitVec 32).toNat ∧ (1024 : BitVec 32).toNat % 2 = 0)) :=
  @data_stays_data_iff {} [1, 2, 3, 4] (by decide) (by decide) (by decide)

/-- **Refuted**: with an `mtu` of 3, four bytes become two control packets. -/
theorem data_stays_data_refuted : ¬ ∀ (q : PacketSendQueue) (buffer : List UInt8),
    buffer.length < 2 ^ 32 → buffer.length % 2 = 0 →
    packetCount q.mtu buffer.length ≤ 65535 → KeepsData q buffer := by
  intro always
  have even := (@keepsData_iff { mtu := 3 } [1, 2, 3, 4] (by decide) (by decide)).mp
    (always { mtu := 3 } [1, 2, 3, 4] (by decide) (by decide) (by decide))
  exact absurd (even.2 0 (by decide) (by simp)) (by decide)

end PacketSendQueue

end UdpStuff.PacketQueue
