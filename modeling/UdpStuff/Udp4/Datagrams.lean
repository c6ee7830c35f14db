/-
# Udp4.Datagrams — the datagrams of a connection

A datagram is a two-byte number in the machine's own order, and the payload.
`recv_packet` takes the two bytes off the length as an unsigned number, after it has
asked for one byte only: of a datagram of one byte it stores a packet of 2^32 - 1 bytes,
under whatever number the byte and the old contents of the buffer behind it make.

`datagrams_iff`: what was sent is received as it was; and what is stored fits in what was
received, exactly if that is not one byte, or its number is in use.
-/
import UdpStuff.Theory.ByteOrder
import UdpStuff.Udp4.Connection

namespace UdpStuff.Udp4

open Theory PacketQueue ByteOrder

set_option autoImplicit false

namespace UDP4Connection

/-! ## Machines of either order -/

/-- `*(uint16_t*)packet_buf` -/
def loadId (order : ByteOrder) (packetBuf : Mem) : Seq := order.load 16 (block packetBuf 0 2)

/-- `recv_packet` -/
def recvPacketOn (order : ByteOrder) (c : UDP4Connection) (packetBuf : Mem) (bufSize : BitVec 32)
    (call : RecvFrom) : UDP4Connection × Mem × Outcome Bool :=
  match call with
  | .failed => (c, packetBuf, .error "recvfrom() failed")
  | .received sender datagram =>
    let bytes := datagram.take bufSize.toNat
    let packetBuf := memcpy packetBuf 0 bytes
    let c := { c with siPeer := sender }
    if 0 < bytes.length then
      let size := BitVec.ofNat 32 bytes.length - 2
      let packet := PacketDescr.make size (block packetBuf 2 size.toNat)
      let recvQueue := c.recvQueue.pushPacket (loadId order packetBuf) packet
      ({ c with recvQueue }, packetBuf, .ok true)
    else (c, packetBuf, .ok false)

/-- `send_packet` -/
def sendPacketOn (order : ByteOrder) (c : UDP4Connection) (packetBuf : Mem) (id : Seq)
    (data : List UInt8) (fails : Bool) : SendTo × Mem × Outcome Unit :=
  let packetBuf := memcpy (memcpy packetBuf 0 (order.store id)) 2 data
  (⟨block packetBuf 0 (data.length + 2), c.siPeer⟩, packetBuf,
    if fails then .error "sendto() failed" else .ok ())

theorem loadId_little (packetBuf : Mem) : loadId .little packetBuf = readId packetBuf := by
  have bytes : block packetBuf 0 2 = [packetBuf 0, packetBuf 1] := rfl
  rw [loadId, bytes]
  rfl

theorem store_little (id : Seq) : store .little id = idBytes id := rfl

/-- On a little-endian machine these are the functions as they are there. -/
theorem recvPacketOn_little (c : UDP4Connection) (packetBuf : Mem) (bufSize : BitVec 32)
    (call : RecvFrom) :
    c.recvPacketOn .little packetBuf bufSize call = c.recvPacket packetBuf bufSize.toNat call := by
  cases call with
  | failed => rfl
  | received sender datagram => simp only [recvPacketOn, recvPacket, loadId_little]

theorem sendPacketOn_little (c : UDP4Connection) (packetBuf : Mem) (id : Seq)
    (data : List UInt8) (fails : Bool) :
    c.sendPacketOn .little packetBuf id data fails = c.sendPacket packetBuf id data fails := rfl

/-! ## What is stored -/

variable {order : ByteOrder} {c : UDP4Connection} {packetBuf : Mem} {bufSize : BitVec 32}
  {sender : SockaddrIn} {datagram : List UInt8}

/-- The connection after a datagram. -/
def after (order : ByteOrder) (c : UDP4Connection) (packetBuf : Mem) (bufSize : BitVec 32)
    (sender : SockaddrIn) (datagram : List UInt8) : UDP4Connection :=
  (c.recvPacketOn order packetBuf bufSize (.received sender datagram)).1

/-- The number that a datagram is taken to have. -/
def receivedId (order : ByteOrder) (packetBuf : Mem) (bufSize : BitVec 32)
    (datagram : List UInt8) : Seq :=
  loadId order (memcpy packetBuf 0 (datagram.take bufSize.toNat))

/-- The packet that is made of it. -/
def receivedPacket (packetBuf : Mem) (bufSize : BitVec 32) (datagram : List UInt8) : PacketDescr :=
  let bytes := datagram.take bufSize.toNat
  let size := BitVec.ofNat 32 bytes.length - 2
  PacketDescr.make size (block (memcpy packetBuf 0 bytes) 2 size.toNat)

theorem after_none (none : (datagram.take bufSize.toNat).length = 0) :
    (after order c packetBuf bufSize sender datagram).recvQueue = c.recvQueue := by
  rw [after, recvPacketOn]
  simp [none]

/-- One byte is enough for a packet to be pushed. -/
theorem after_some (some : 0 < (datagram.take bufSize.toNat).length) :
    (after order c packetBuf bufSize sender datagram).recvQueue =
      c.recvQueue.pushPacket (receivedId order packetBuf bufSize datagram)
        (receivedPacket packetBuf bufSize datagram) := by
  rw [after, recvPacketOn]
  dsimp only
  rw [if_pos some]
  rfl

theorem length_received_lt (bufSize : BitVec 32) (datagram : List UInt8) :
    (datagram.take bufSize.toNat).length < 2 ^ 32 := by
  rw [List.length_take]
  exact (Nat.min_le_left _ _).trans_lt bufSize.isLt

theorem data_receivedPacket_block (packetBuf : Mem) (bufSize : BitVec 32) (datagram : List UInt8) :
    (receivedPacket packetBuf bufSize datagram).data =
      block (memcpy packetBuf 0 (datagram.take bufSize.toNat)) 2
        (BitVec.ofNat 32 (datagram.take bufSize.toNat).length - 2).toNat :=
  List.take_of_length_le (length_block _ _ _).le

/-- A datagram with a number has its payload behind it. -/
theorem data_receivedPacket (two : 2 ≤ (datagram.take bufSize.toNat).length) :
    (receivedPacket packetBuf bufSize datagram).data = (datagram.take bufSize.toNat).drop 2 := by
  have fits := length_received_lt bufSize datagram
  have size : (BitVec.ofNat 32 (datagram.take bufSize.toNat).length - 2).toNat =
      (datagram.take bufSize.toNat).length - 2 := by
    rw [BitVec.toNat_sub_of_le, BitVec.toNat_ofNat, Nat.mod_eq_of_lt fits]
    · rfl
    · rw [BitVec.le_def, BitVec.toNat_ofNat, Nat.mod_eq_of_lt fits]
      exact two
  have payload := @block_memcpy packetBuf 0 (datagram.take bufSize.toNat) 2
    ((datagram.take bufSize.toNat).length - 2) (by omega)
  rw [Nat.zero_add] at payload
  rw [data_receivedPacket_block, size, payload]
  exact List.take_of_length_le (by rw [List.length_drop])

/-- The length of one byte without its number wraps. -/
theorem length_receivedPacket_one (one : (datagram.take bufSize.toNat).length = 1) :
    (receivedPacket packetBuf bufSize datagram).data.length = 2 ^ 32 - 1 := by
  have wrapped : (BitVec.ofNat 32 1 - 2).toNat = 2 ^ 32 - 1 := by decide
  rw [data_receivedPacket_block, one, wrapped, length_block]

/-! ## Sent and received -/

theorem bytes_sendPacketOn (order : ByteOrder) (c : UDP4Connection) (packetBuf : Mem) (id : Seq)
    (data : List UInt8) (fails : Bool) :
    (c.sendPacketOn order packetBuf id data fails).1.bytes = order.store id ++ data := by
  have length : (order.store id).length = 2 := length_store order id
  have joined := memcpy_append packetBuf 0 (order.store id) data
  rw [length, Nat.zero_add] at joined
  have whole : data.length + 2 = (order.store id ++ data).length := by
    rw [List.length_append, length, Nat.add_comm]
  have copied := @block_memcpy packetBuf 0 (order.store id ++ data) 0 (data.length + 2)
    (by rw [whole, Nat.zero_add])
  rw [sendPacketOn]
  dsimp only
  rw [joined, copied, List.drop_zero, whole, List.take_length]

/-- A datagram is stored under its number with its payload. -/
theorem after_sent (id : Seq) (data : List UInt8) (room : data.length + 2 ≤ bufSize.toNat)
    (free : c.recvQueue.packets[id]? = none) :
    ∃ p, (after order c packetBuf bufSize sender (order.store id ++ data)).recvQueue.packets[id]? =
      some p ∧ p.data = data := by
  have length : (order.store id).length = 2 := length_store order id
  have whole : (order.store id ++ data).take bufSize.toNat = order.store id ++ data := by
    apply List.take_of_length_le
    rw [List.length_append, length]
    omega
  have two : 2 ≤ ((order.store id ++ data).take bufSize.toNat).length := by
    rw [whole, List.length_append, length]
    omega
  have number : receivedId order packetBuf bufSize (order.store id ++ data) = id := by
    have front := @block_memcpy packetBuf 0 (order.store id ++ data) 0 2
      (by rw [List.length_append, length]; omega)
    rw [receivedId, loadId, whole, front, List.drop_zero, List.take_append_of_le_length length.ge,
      ← length, List.take_length]
    exact load_store rfl order id
  refine ⟨receivedPacket packetBuf bufSize (order.store id ++ data), ?_, ?_⟩
  · rw [after_some (by omega), number, PacketRecvQueue.pushPacket_packets, if_pos rfl, free,
      Option.getD_none]
  · rw [data_receivedPacket two, whole, ← length, List.drop_left]

/-! ## Any datagram -/

/-- What is stored is no longer than what was received, and of less than two bytes nothing is. -/
def StoresWhatCame (order : ByteOrder) (c : UDP4Connection) (packetBuf : Mem)
    (bufSize : BitVec 32) (sender : SockaddrIn) (datagram : List UInt8) : Prop :=
  let c' := after order c packetBuf bufSize sender datagram
  (∀ (i : Seq) p, c.recvQueue.packets[i]? = none → c'.recvQueue.packets[i]? = some p →
    p.data.length ≤ (datagram.take bufSize.toNat).length) ∧
  (datagram.length < 2 → ∀ i : Seq, c'.recvQueue.packets[i]? = c.recvQueue.packets[i]?)

theorem storesWhatCame_iff (order : ByteOrder) (c : UDP4Connection) (packetBuf : Mem)
    (bufSize : BitVec 32) (sender : SockaddrIn) (datagram : List UInt8) :
    StoresWhatCame order c packetBuf bufSize sender datagram ↔
      ((datagram.take bufSize.toNat).length = 1 →
        c.recvQueue.packets[receivedId order packetBuf bufSize datagram]? ≠ none) := by
  have pushed (some : 0 < (datagram.take bufSize.toNat).length) (i : Seq) :
      (after order c packetBuf bufSize sender datagram).recvQueue.packets[i]? =
        if i = receivedId order packetBuf bufSize datagram then
          .some (c.recvQueue.packets[receivedId order packetBuf bufSize datagram]?.getD
            (receivedPacket packetBuf bufSize datagram))
        else c.recvQueue.packets[i]? := by
    rw [after_some some]
    exact PacketRecvQueue.pushPacket_packets _ _ i _
  constructor
  · rintro ⟨fits, -⟩ one free
    have stored := pushed (by omega) (receivedId order packetBuf bufSize datagram)
    rw [if_pos rfl, free, Option.getD_none] at stored
    have small := fits _ _ free stored
    rw [length_receivedPacket_one one, one] at small
    omega
  · intro used
    rcases Nat.lt_trichotomy (datagram.take bufSize.toNat).length 1 with none | one | two
    · have same := @after_none order c packetBuf bufSize sender datagram (by omega)
      refine ⟨fun i p free stored => ?_, fun _ i => ?_⟩
      · rw [same, free] at stored
        cases stored
      · rw [same]
    · -- the number is in use, so that nothing changes
      obtain ⟨p, there⟩ := Option.ne_none_iff_exists'.mp (used one)
      have same (i : Seq) :
          (after order c packetBuf bufSize sender datagram).recvQueue.packets[i]? =
            c.recvQueue.packets[i]? := by
        rw [pushed (by omega), there, Option.getD_some]
        split
        case isTrue here => rw [here, there]
        case isFalse => rfl
      refine ⟨fun i p free stored => ?_, fun _ => same⟩
      rw [same, free] at stored
      cases stored
    · refine ⟨fun i p free stored => ?_, fun short => ?_⟩
      · rw [pushed (by omega)] at stored
        split at stored
        case isTrue here =>
          rw [← here, free, Option.getD_none] at stored
          cases stored
          rw [data_receivedPacket two, List.length_drop]
          exact Nat.sub_le _ _
        case isFalse =>
          rw [free] at stored
          cases stored
      · rw [List.length_take] at two
        omega

/-- **Datagrams**: a payload that was sent is stored under its number, whatever it is, and what
is stored of any datagram fits in it, exactly unless one byte comes under a free number. -/
theorem datagrams_iff (order : ByteOrder) :
    (∀ (sender receiver : UDP4Connection) (sendBuf recvBuf : Mem) (bufSize : BitVec 32)
      (addr : SockaddrIn) (id : Seq) (data : List UInt8) (fails : Bool),
      data.length + 2 ≤ bufSize.toNat → receiver.recvQueue.packets[id]? = none →
      ∃ p, (after order receiver recvBuf bufSize addr
          (sender.sendPacketOn order sendBuf id data fails).1.bytes).recvQueue.packets[id]? =
        some p ∧ p.data = data) ∧
    ∀ (c : UDP4Connection) (packetBuf : Mem) (bufSize : BitVec 32) (sender : SockaddrIn)
      (datagram : List UInt8), StoresWhatCame order c packetBuf bufSize sender datagram ↔
        ((datagram.take bufSize.toNat).length = 1 →
          c.recvQueue.packets[receivedId order packetBuf bufSize datagram]? ≠ none) := by
  refine ⟨?_, storesWhatCame_iff order⟩
  intro sender receiver sendBuf recvBuf bufSize addr id data fails room free
  rw [bytes_sendPacketOn]
  exact after_sent id data room free

/-- **Refuted**: of a datagram of one byte, a packet of 2^32 - 1 bytes is stored. -/
theorem datagrams_refuted : ¬ ∀ (order : ByteOrder) (c : UDP4Connection) (packetBuf : Mem)
    (bufSize : BitVec 32) (sender : SockaddrIn) (datagram : List UInt8),
    StoresWhatCame order c packetBuf bufSize sender datagram := by
  intro always
  have used := (storesWhatCame_iff .little { siPeer := ⟨2, 7, 9⟩ } (fun _ => 0) 1500 ⟨2, 7, 9⟩
    [1]).mp (always .little { siPeer := ⟨2, 7, 9⟩ } (fun _ => 0) 1500 ⟨2, 7, 9⟩ [1])
  exact used (by decide) (by simp)

end UDP4Connection

end UdpStuff.Udp4
