/-
# PacketQueue.Reassembly — what one queue splits, the other puts together

`push_buffer` numbers the pieces of a buffer; the receive queue gets packets in
any order, some twice, mixed with packets of other numbers.  `emplace` keeps the
first packet of a number (`receive_packets`), every copy of a queued packet is
that packet, so the range loops see exactly the pieces (`receive_present`), and
since `mtu` and the size are even every piece counts as data.

`reassembly` is the whole way: split, deliver, read back.
-/
import UdpStuff.PacketQueue.SendQueue

namespace UdpStuff.PacketQueue

open Theory

set_option autoImplicit false

namespace PacketRecvQueue

/-- Packets given to `push_packet` one after the other. -/
def receive (q : PacketRecvQueue) (deliveries : List (Seq × PacketDescr)) : PacketRecvQueue :=
  deliveries.foldl (fun q d => q.pushPacket d.1 d.2) q

@[simp] theorem receive_seqMapping (q : PacketRecvQueue) (deliveries : List (Seq × PacketDescr)) :
    (q.receive deliveries).seqMapping = q.seqMapping := by
  induction deliveries generalizing q with
  | nil => rfl
  | cons d rest ih => exact (ih (q.pushPacket d.1 d.2)).trans rfl

/-- The first packet delivered for a free number is the one stored. -/
theorem receive_packets (q : PacketRecvQueue) (deliveries : List (Seq × PacketDescr)) (i : Seq) :
    (q.receive deliveries).packets[i]? =
      (q.packets[i]?).or ((deliveries.find? fun d => d.1 = i).map Prod.snd) := by
  induction deliveries generalizing q with
  | nil => simp [receive]
  | cons d rest ih =>
      have step := ih (q.pushPacket d.1 d.2)
      rw [pushPacket_packets] at step
      rw [show q.receive (d :: rest) = (q.pushPacket d.1 d.2).receive rest from rfl, step]
      by_cases same : d.1 = i
      · subst same
        cases q.packets[d.1]? <;> simp
      · have other : ¬ i = d.1 := fun h => same h.symm
        simp [same, other]

/-- Every copy delivered for `i` being `p`, and one delivered, `i` is present. -/
theorem receive_genuine {q : PacketRecvQueue} {deliveries : List (Seq × PacketDescr)} {i : Seq}
    {p : PacketDescr} (absent : q.packets[i]? = none) (delivered : (i, p) ∈ deliveries)
    (genuine : ∀ d ∈ deliveries, d.1 = i → d.2 = p) :
    (q.receive deliveries).packets[i]? = some p := by
  rw [receive_packets, absent, Option.none_or]
  cases found : deliveries.find? fun d => d.1 = i with
  | none =>
      rw [List.find?_eq_none] at found
      have := found _ delivered
      simp at this
  | some d =>
      have number : d.1 = i := by simpa using List.find?_some found
      have packet : d.2 = p := genuine d (List.mem_of_find?_eq_some found) number
      rw [Option.map_some, packet]

end PacketRecvQueue

open PacketRecvQueue PacketSendQueue

/-! ## The pieces of an even buffer -/

/-- The number of packets `push_buffer` makes of `size` bytes. -/
def packetCount (mtu : BitVec 32) (size : Nat) : Nat := (size + mtu.toNat - 1) / mtu.toNat

/-- The numbers `push_buffer` assigns to them. -/
def assignedRange (q : PacketSendQueue) (size : Nat) : List Seq :=
  wrapRange (q.endSeq + 1) (q.endSeq + 1 + BitVec.ofNat 16 (packetCount q.mtu size))

theorem bufferPackets_length {mtu : BitVec 32} (positive : 0 < mtu.toNat) (data : List UInt8) :
    (bufferPackets mtu data).length = packetCount mtu data.length := by
  rw [bufferPackets, List.length_map, length_chunks positive, packetCount]

theorem wholePacket_of_mem_chunks {mtu : BitVec 32} (positive : 0 < mtu.toNat)
    {data piece : List UInt8} (member : piece ∈ chunks mtu.toNat data) :
    (wholePacket piece).data = piece :=
  wholePacket_data (lt_of_le_of_lt (length_le_of_mem_chunks positive member).1 mtu.isLt)

/-- With an even `mtu` and an even size every packet is a data packet. -/
theorem bufferPackets_isData {mtu : BitVec 32} (positive : 0 < mtu.toNat)
    (evenMtu : mtu.toNat % 2 = 0) {data : List UInt8} (evenSize : data.length % 2 = 0)
    {p : PacketDescr} (member : p ∈ bufferPackets mtu data) : p.isData = true := by
  obtain ⟨piece, inside, rfl⟩ := List.mem_map.mp member
  rw [PacketDescr.isData_iff, wholePacket_of_mem_chunks positive inside]
  exact Nat.mod_eq_zero_of_dvd (dvd_of_mem_chunks positive (Nat.dvd_of_mod_eq_zero evenMtu)
    (Nat.dvd_of_mod_eq_zero evenSize) inside)

/-- If all of them are data, their data, put together, is the buffer. -/
theorem dataBytes_bufferPackets {mtu : BitVec 32} (positive : 0 < mtu.toNat) {data : List UInt8}
    (allData : ∀ p ∈ bufferPackets mtu data, p.isData = true) :
    dataBytes (bufferPackets mtu data) = data := by
  have pieces : (chunks mtu.toNat data).flatMap (fun c => (wholePacket c).data) =
      (chunks mtu.toNat data).flatMap id :=
    List.flatMap_congr fun c inside => wholePacket_of_mem_chunks positive inside
  rw [dataBytes, List.filter_eq_self.mpr allData, bufferPackets, List.flatMap_map, pieces,
    List.flatMap_id, flatten_chunks positive]

theorem bufferPackets_dataBytes {mtu : BitVec 32} (positive : 0 < mtu.toNat)
    (evenMtu : mtu.toNat % 2 = 0) {data : List UInt8} (evenSize : data.length % 2 = 0) :
    dataBytes (bufferPackets mtu data) = data :=
  dataBytes_bufferPackets positive fun _ member =>
    bufferPackets_isData positive evenMtu evenSize member

/-- After the deliveries the range loops find the packets in order. -/
theorem receive_present {rq : PacketRecvQueue} {deliveries : List (Seq × PacketDescr)}
    (start : Seq) {ps : List PacketDescr} (short : ps.length < 2 ^ 16)
    (unmapped : rq.seqMapping = ∅)
    (absent : ∀ k < ps.length, rq.packets[start + BitVec.ofNat 16 k]? = none)
    (delivered : ∀ (k : Nat) (below : k < ps.length),
      (start + BitVec.ofNat 16 k, ps[k]) ∈ deliveries)
    (genuine : ∀ (k : Nat) (below : k < ps.length), ∀ d ∈ deliveries,
      d.1 = start + BitVec.ofNat 16 k → d.2 = ps[k]) :
    List.Forall₂ (fun i p => (rq.receive deliveries).lookup i = some (some p))
      (wrapRange start (start + BitVec.ofNat 16 ps.length)) ps := by
  rw [wrapRange_ofNat start short, List.forall₂_iff_get]
  refine ⟨by simp, fun k below inside => ?_⟩
  have stored := receive_genuine (absent k inside) (delivered k inside) (genuine k inside)
  rw [lookup_of_unmapped (by simp [unmapped])]
  simpa using stored

/-- The range loops over present packets: nothing is missing, and what is counted and
copied is their data. -/
theorem readers_present {q : PacketRecvQueue} {start stop : Seq} {ps : List PacketDescr}
    (present : List.Forall₂ (fun i p => q.lookup i = some (some p)) (wrapRange start stop) ps)
    (fits : (dataBytes ps).length < 2 ^ 32) :
    (∀ missing, q.findMissingPackets start stop missing = some missing) ∧
    q.computeRangeSize start stop = some (BitVec.ofNat 32 (dataBytes ps).length) ∧
    ∀ mem, q.copyData mem start stop =
      some ⟨memcpy mem 0 (dataBytes ps), BitVec.ofNat 32 (dataBytes ps).length, none⟩ := by
  have start0 : (0 : BitVec 32) + BitVec.ofNat 32 (dataBytes ps).length =
      BitVec.ofNat 32 (dataBytes ps).length := BitVec.zero_add _
  refine ⟨fun missing => ?_, ?_, fun mem => ?_⟩
  · apply findMissingPacketsLoop_present
    intro i member
    obtain ⟨k, below, rfl⟩ := List.getElem_of_mem member
    exact ⟨_, present.get below (present.length_eq ▸ below)⟩
  · rw [computeRangeSize, computeRangeSizeLoop_present present, start0]
  · rw [copyData, copyDataLoop_present present mem 0 (by simpa using fits), start0]
    rfl

/-- The numbers after the last one, and what they get when packets are put under them. -/
theorem pushAll_assigned (sq : PacketSendQueue) {ps : List PacketDescr} (short : ps.length < 2 ^ 16)
    (free : ∀ k < ps.length, sq.packets[sq.endSeq + 1 + BitVec.ofNat 16 k]? = none) :
    (sq.pushAll ps).endSeq + 1 = sq.endSeq + 1 + BitVec.ofNat 16 ps.length ∧
    ∀ (k : Nat) (below : k < ps.length),
      (sq.pushAll ps).packets[sq.endSeq + 1 + BitVec.ofNat 16 k]? = some ps[k] := by
  constructor
  · rw [pushAll_endSeq, BitVec.add_assoc, BitVec.add_comm (BitVec.ofNat 16 _), ← BitVec.add_assoc]
  · intro k below
    exact pushAll_packets (by omega) free below

/-! ## Split, deliver, read back -/

/-- **Reassembly.**  An even buffer split by an even `mtu` into at most 65535
packets under free numbers, wrapping or not, is read back whole from a receive
queue that got each of the packets at least once, in any order and among any
packets of other numbers. -/
theorem reassembly {sq : PacketSendQueue} {rq : PacketRecvQueue} {buffer : List UInt8}
    (fits : buffer.length < 2 ^ 32) (evenSize : buffer.length % 2 = 0)
    (positive : 0 < sq.mtu.toNat) (evenMtu : sq.mtu.toNat % 2 = 0)
    (few : packetCount sq.mtu buffer.length ≤ 65535)
    (free : ∀ i ∈ assignedRange sq buffer.length, sq.packets[i]? = none)
    (absent : ∀ i ∈ assignedRange sq buffer.length, rq.packets[i]? = none)
    (unmapped : rq.seqMapping = ∅) :
    ∃ sq', sq.pushBuffer buffer (BitVec.ofNat 32 buffer.length) = some sq' ∧
      wrapRange (sq.endSeq + 1) (sq'.endSeq + 1) = assignedRange sq buffer.length ∧
      ∀ deliveries : List (Seq × PacketDescr),
        (∀ i ∈ assignedRange sq buffer.length, ∃ p,
          sq'.packets[i]? = some p ∧ (i, p) ∈ deliveries) →
        (∀ d ∈ deliveries, d.1 ∈ assignedRange sq buffer.length →
          sq'.packets[d.1]? = some d.2) →
        (∀ missing, (rq.receive deliveries).findMissingPackets (sq.endSeq + 1) (sq'.endSeq + 1)
          missing = some missing) ∧
        (rq.receive deliveries).computeRangeSize (sq.endSeq + 1) (sq'.endSeq + 1) =
          some (BitVec.ofNat 32 buffer.length) ∧
        ∀ mem, (rq.receive deliveries).copyData mem (sq.endSeq + 1) (sq'.endSeq + 1) =
          some ⟨memcpy mem 0 buffer, BitVec.ofNat 32 buffer.length, none⟩ := by
  let ps := bufferPackets sq.mtu buffer
  have count : ps.length = packetCount sq.mtu buffer.length := bufferPackets_length positive buffer
  have short : ps.length < 2 ^ 16 := by omega
  have whole : dataBytes ps = buffer := bufferPackets_dataBytes positive evenMtu evenSize
  have range : assignedRange sq buffer.length =
      wrapRange (sq.endSeq + 1) (sq.endSeq + 1 + BitVec.ofNat 16 ps.length) := by
    rw [assignedRange, count]
  have assigned : ∀ k < ps.length,
      sq.endSeq + 1 + BitVec.ofNat 16 k ∈ assignedRange sq buffer.length := by
    intro k below
    rw [range, wrapRange_ofNat _ short]
    exact List.mem_map_of_mem (List.mem_range.mpr below)
  obtain ⟨last, stored⟩ := pushAll_assigned sq short fun k below => free _ (assigned k below)
  refine ⟨sq.pushAll ps, pushBuffer_eq fits positive, by rw [last, range], ?_⟩
  intro deliveries delivered genuine
  have arrives (k : Nat) (below : k < ps.length) :
      (sq.endSeq + 1 + BitVec.ofNat 16 k, ps[k]) ∈ deliveries := by
    obtain ⟨p, queued, given⟩ := delivered _ (assigned k below)
    rw [stored k below, Option.some.injEq] at queued
    exact queued ▸ given
  have unforged (k : Nat) (below : k < ps.length) (d : Seq × PacketDescr) (member : d ∈ deliveries)
      (number : d.1 = sq.endSeq + 1 + BitVec.ofNat 16 k) : d.2 = ps[k] := by
    have queued := genuine d member (number ▸ assigned k below)
    rw [number, stored k below, Option.some.injEq] at queued
    exact queued.symm
  have present := receive_present (sq.endSeq + 1) short unmapped
    (fun k below => absent _ (assigned k below)) arrives unforged
  have readers := readers_present present (whole.symm ▸ fits)
  rwa [← last, whole] at readers

/-! ## A buffer whose numbers wrap -/

/-- The last two numbers are taken next. -/
def wrappingQueue : PacketSendQueue := { mtu := 2, endSeq := 65534 }

def wrappingBuffer : List UInt8 := [1, 2, 3, 4, 5, 6]

/-- Its three packets out of order, one of them twice, and one of another number. -/
def wrappingDeliveries : List (Seq × PacketDescr) :=
  [(1, .make 2 [5, 6]), (7, .make 1 [9]), (65535, .make 2 [1, 2]), (1, .make 2 [5, 6]),
    (0, .make 2 [3, 4])]

theorem reassembly_wrapping :
    ∃ sq', wrappingQueue.pushBuffer wrappingBuffer (BitVec.ofNat 32 wrappingBuffer.length) =
        some sq' ∧
      ∀ mem, (PacketRecvQueue.receive {} wrappingDeliveries).copyData mem
          (wrappingQueue.endSeq + 1) (sq'.endSeq + 1) =
        some ⟨memcpy mem 0 wrappingBuffer, BitVec.ofNat 32 wrappingBuffer.length, none⟩ := by
  let pushed := wrappingQueue.pushBuffer wrappingBuffer (BitVec.ofNat 32 wrappingBuffer.length)
  have range : assignedRange wrappingQueue wrappingBuffer.length = [65535, 0, 1] := by decide
  have first : pushed.map (fun q => q.packets[(65535 : Seq)]?) = some (some (.make 2 [1, 2])) := by
    decide
  have second : pushed.map (fun q => q.packets[(0 : Seq)]?) = some (some (.make 2 [3, 4])) := by
    decide
  have third : pushed.map (fun q => q.packets[(1 : Seq)]?) = some (some (.make 2 [5, 6])) := by
    decide
  obtain ⟨sq', queued, -, read⟩ := @reassembly wrappingQueue {} wrappingBuffer (by decide)
    (by decide) (by decide) (by decide) (by decide) (by simp [wrappingQueue]) (by simp) rfl
  simp only [pushed, queued, Option.map_some, Option.some.injEq] at first second third
  rw [range] at read
  refine ⟨sq', queued, (read wrappingDeliveries ?_ ?_).2.2⟩
  · intro i member
    simp only [List.mem_cons, List.not_mem_nil, or_false] at member
    rcases member with rfl | rfl | rfl
    · exact ⟨_, first, by decide⟩
    · exact ⟨_, second, by decide⟩
    · exact ⟨_, third, by decide⟩
  · intro d delivered member
    simp only [wrappingDeliveries, List.mem_cons, List.not_mem_nil, or_false] at delivered
    rcases delivered with rfl | rfl | rfl | rfl | rfl
    · exact third
    · exact absurd member (by decide)
    · exact first
    · exact third
    · exact second

end UdpStuff.PacketQueue
