/-
# Udp4.DatagramLink — a link over the datagrams of two connections

The packets of a `PacketSendQueue` go through `send_packet` of one `UDP4Connection`, as
datagrams of their number and their bytes; what the network delivers goes through
`recv_packet` of another, on a machine of the same byte order, into its receive queue.  The
buffers that the two calls are given keep what was in them before.

`Carries` relates such a pair to the link whose packets the datagrams are.  Every step of
the link is one of the pair (`Carries.step`), as long as the packets fit in the buffer that
is received into.  So what is possible on the stream of `Theory.NumberedStream` is possible
between two connections, and the receiver then answers as the stream (`connections_carry`).
-/
import UdpStuff.PacketQueue.Link
import UdpStuff.Udp4.Datagrams

namespace UdpStuff.Udp4

open Theory PacketQueue ByteOrder UDP4Connection PacketSendQueue

set_option autoImplicit false

structure DatagramLink where
  sendQueue : PacketSendQueue
  sender : UDP4Connection
  receiver : UDP4Connection
  sendBuf : Mem
  recvBuf : Mem
  network : List (List UInt8) := []

namespace DatagramLink

variable (order : ByteOrder) (bufSize : BitVec 32)

/-- `transmit` sends a stored packet with `send_packet`, `deliver` is a `recv_packet` that gets
a datagram of the network. -/
def step (d : DatagramLink) : LinkOp Seq → Option DatagramLink
  | .pushPacket size data => some { d with sendQueue := d.sendQueue.pushPacket size data }
  | .pushBuffer data _ =>
      (d.sendQueue.pushBuffer data (BitVec.ofNat 32 data.length)).map fun sendQueue =>
        { d with sendQueue }
  | .clearRange start stop => some { d with sendQueue := d.sendQueue.clearRange start stop }
  | .transmit seq =>
      d.sendQueue.packets[seq]?.map fun p =>
        let sent := d.sender.sendPacketOn order d.sendBuf seq p.data false
        { d with sendBuf := sent.2.1, network := d.network ++ [sent.1.bytes] }
  | .deliver k =>
      d.network[k]?.map fun datagram =>
        let got := d.receiver.recvPacketOn order d.recvBuf bufSize
          (.received d.receiver.siPeer datagram)
        { d with receiver := got.1, recvBuf := got.2.1 }
  | .moveSeq newSeq =>
      some { d with receiver := { d.receiver with recvQueue := d.receiver.recvQueue.moveSeq newSeq } }

/-- A packet that fits in the receiver's buffer behind its number. -/
def Fits (p : PacketDescr) : Prop := p.data.length + 2 ≤ bufSize.toNat

/-- Only packets that fit are pushed. -/
def Small (mtu : BitVec 32) {N : Type} : LinkOp N → Prop
  | .pushPacket size data => (data.take size.toNat).length + 2 ≤ bufSize.toNat
  | .pushBuffer _ _ => mtu.toNat + 2 ≤ bufSize.toNat
  | _ => True

/-- The datagrams are the packets of the link, and fit. -/
structure Carries (mtu : BitVec 32) (d : DatagramLink) (l : Link) : Prop where
  sendQueue : d.sendQueue = l.sendQueue
  mtu : l.sendQueue.mtu = mtu
  recvQueue : d.receiver.recvQueue = l.recvQueue
  network : d.network = l.flight.map fun copy => order.store copy.1 ++ copy.2.data
  queued : ∀ (i : Seq) p, l.sendQueue.packets[i]? = some p → Fits bufSize p
  flying : ∀ copy ∈ l.flight, Fits bufSize copy.2

variable {order : ByteOrder} {bufSize mtu : BitVec 32}

/-- The datagram of a packet that fits is that packet again. -/
theorem recvQueue_after (c : UDP4Connection) (packetBuf : Mem) (sender : SockaddrIn) (id : Seq)
    {p : PacketDescr} (fits : Fits bufSize p) :
    (after order c packetBuf bufSize sender (order.store id ++ p.data)).recvQueue =
      c.recvQueue.pushPacket id p := by
  have length : (order.store id).length = 2 := length_store order id
  have total : (order.store id ++ p.data).length = p.data.length + 2 := by
    rw [List.length_append, length, Nat.add_comm]
  have whole : (order.store id ++ p.data).take bufSize.toNat = order.store id ++ p.data :=
    List.take_of_length_le (total.trans_le fits)
  have two : 2 ≤ ((order.store id ++ p.data).take bufSize.toNat).length := by
    rw [whole, total]
    exact Nat.le_add_left _ _
  have number : receivedId order packetBuf bufSize (order.store id ++ p.data) = id := by
    have front := @block_memcpy packetBuf 0 (order.store id ++ p.data) 0 2 (by omega)
    rw [receivedId, loadId, whole, front, List.drop_zero, List.take_append_of_le_length length.ge,
      ← length, List.take_length]
    exact load_store rfl order id
  have packet : receivedPacket packetBuf bufSize (order.store id ++ p.data) = p := by
    have payload : (receivedPacket packetBuf bufSize _).data = _ := data_receivedPacket two
    rw [whole, ← length, List.drop_left] at payload
    exact (PacketDescr.mk.injEq ..).mpr payload
  rw [after_some (by omega), number, packet]

/-! ## What is pushed fits -/

/-- What fits still fits when a packet that does is stored. -/
theorem fits_emplaceNext {q : PacketSendQueue} {p : PacketDescr} (fits : Fits bufSize p)
    (queued : ∀ (i : Seq) p, q.packets[i]? = some p → Fits bufSize p) (i : Seq) (p' : PacketDescr)
    (stored : (q.emplaceNext p).packets[i]? = some p') : Fits bufSize p' := by
  rw [emplaceNext_packets] at stored
  split at stored
  · cases used : q.packets[q.endSeq + 1]? with
    | none =>
        rw [used] at stored
        cases stored
        exact fits
    | some p'' =>
        rw [used] at stored
        cases stored
        exact queued _ _ used
  · exact queued i p' stored

theorem fits_pushAll {q : PacketSendQueue} {ps : List PacketDescr}
    (fits : ∀ p ∈ ps, Fits bufSize p)
    (queued : ∀ (i : Seq) p, q.packets[i]? = some p → Fits bufSize p) :
    ∀ (i : Seq) p, (q.pushAll ps).packets[i]? = some p → Fits bufSize p := by
  induction ps generalizing q with
  | nil => exact queued
  | cons p ps ih =>
      apply ih (fun p' member => fits p' (List.mem_cons_of_mem _ member))
      exact fits_emplaceNext (fits p List.mem_cons_self) queued

theorem fits_bufferPackets (positive : 0 < mtu.toNat) (room : mtu.toNat + 2 ≤ bufSize.toNat)
    (data : List UInt8) : ∀ p ∈ bufferPackets mtu data, Fits bufSize p := by
  intro p member
  obtain ⟨piece, inside, rfl⟩ := List.mem_map.mp member
  have short := (length_le_of_mem_chunks positive inside).1
  rw [Fits, wholePacket_of_mem_chunks positive inside]
  omega

/-! ## Steps and runs -/

/-- **What is possible on the link is possible between the connections.** -/
theorem Carries.step {d : DatagramLink} {l l' : Link} {op : LinkOp Seq} (positive : 0 < mtu.toNat)
    (small : Small bufSize mtu op) (carries : Carries order bufSize mtu d l)
    (stepped : l.step op = some l') :
    ∃ d', d.step order bufSize op = some d' ∧ Carries order bufSize mtu d' l' := by
  obtain ⟨sendQueue, sameMtu, recvQueue, network, queued, flying⟩ := carries
  cases op with
  | pushPacket size data =>
      cases stepped
      refine ⟨_, rfl, ?_, sameMtu, recvQueue, network, ?_, flying⟩
      · rw [sendQueue]
      · exact fits_emplaceNext small queued
  | pushBuffer data fits =>
      have pushed := pushBuffer_eq (q := l.sendQueue) fits (sameMtu.symm ▸ positive)
      rw [Link.step, pushed] at stepped
      cases stepped
      refine ⟨{ d with sendQueue := l.sendQueue.pushAll (bufferPackets l.sendQueue.mtu data) }, ?_,
        rfl, ?_, recvQueue, network, ?_, flying⟩
      · rw [DatagramLink.step, sendQueue, pushed]
        rfl
      · rw [pushAll_mtu, sameMtu]
      · rw [sameMtu]
        exact fits_pushAll (fits_bufferPackets positive small data) queued
  | clearRange start stop =>
      cases stepped
      refine ⟨_, rfl, ?_, ?_, recvQueue, network, ?_, flying⟩
      · rw [sendQueue]
      · rw [clearRange_mtu, sameMtu]
      · intro i p stored
        rw [clearRange_packets] at stored
        split at stored
        · cases stored
        · exact queued i p stored
  | transmit seq =>
      obtain ⟨p, stored, rfl⟩ := Option.map_eq_some_iff.mp stepped
      let sent := d.sender.sendPacketOn order d.sendBuf seq p.data false
      refine ⟨{ d with sendBuf := sent.2.1, network := d.network ++ [sent.1.bytes] }, ?_, sendQueue,
        sameMtu, recvQueue, ?_, queued, ?_⟩
      · rw [DatagramLink.step, sendQueue, stored]
        rfl
      · show d.network ++ [sent.1.bytes] = _
        rw [bytes_sendPacketOn, network, List.map_append]
        rfl
      · intro copy member
        rcases List.mem_append.mp member with before | new
        · exact flying copy before
        · rw [List.mem_singleton.mp new]
          exact queued seq p stored
  | deliver k =>
      obtain ⟨copy, copied, rfl⟩ := Option.map_eq_some_iff.mp stepped
      have datagram : d.network[k]? = some (order.store copy.1 ++ copy.2.data) := by
        rw [network, List.getElem?_map, copied]
        rfl
      have fits := flying copy (List.mem_of_getElem? copied)
      let got := d.receiver.recvPacketOn order d.recvBuf bufSize
        (.received d.receiver.siPeer (order.store copy.1 ++ copy.2.data))
      refine ⟨{ d with receiver := got.1, recvBuf := got.2.1 }, ?_, sendQueue, sameMtu, ?_, network,
        queued, flying⟩
      · rw [DatagramLink.step, datagram]
        rfl
      · show (after order d.receiver d.recvBuf bufSize d.receiver.siPeer
          (order.store copy.1 ++ copy.2.data)).recvQueue = _
        rw [recvQueue_after _ _ _ _ fits, recvQueue]
  | moveSeq newSeq =>
      cases stepped
      refine ⟨_, rfl, sendQueue, sameMtu, ?_, network, queued, flying⟩
      rw [recvQueue]

/-- Two connections that know each other, and whatever is in their buffers. -/
def fresh (mtu : BitVec 32) (here there : SockaddrIn) (sendBuf recvBuf : Mem) : DatagramLink where
  sendQueue := { mtu }
  sender := .make there []
  receiver := .make here []
  sendBuf := sendBuf
  recvBuf := recvBuf

theorem carries_fresh (mtu : BitVec 32) (here there : SockaddrIn) (sendBuf recvBuf : Mem) :
    Carries order bufSize mtu (fresh mtu here there sendBuf recvBuf) (.fresh mtu) := by
  refine ⟨rfl, rfl, rfl, rfl, fun i p stored => ?_, fun copy member => absurd member List.not_mem_nil⟩
  simp [Link.fresh] at stored

/-- **Two connections carry the stream.**  Whatever is possible on the stream, with packets that
fit, is possible between two connections whose buffers hold anything, on machines of either byte
order, and the range loops of the receiver then answer of every range in the window as the
stream does. -/
theorem connections_carry (positive : 0 < mtu.toNat) {ops : List (LinkOp Nat)}
    (small : ∀ op ∈ ops, Small bufSize mtu op) {s : NumberedStream PacketDescr}
    (ran : run (NumberedStream.step (2 ^ 16)) {} (ops.map (LinkOp.meaning mtu)) = some s)
    (here there : SockaddrIn) (sendBuf recvBuf : Mem) :
    ∃ d, run (step order bufSize) (fresh mtu here there sendBuf recvBuf) (ops.map LinkOp.cut) =
        some d ∧
      ∀ a b, s.start ≤ a → a ≤ b → b < s.start + 2 ^ 16 →
        Link.Answers d.receiver.recvQueue s a b := by
  obtain ⟨l, ranLink, simulates⟩ := (Link.Simulates.fresh mtu).run positive ran
  have one (l : Link) (d : DatagramLink) (op : LinkOp Nat) (l' : Link)
      (fits : Small bufSize mtu op) (carries : Carries order bufSize mtu d l)
      (stepped : l.step op.cut = some l') :
      ∃ d', d.step order bufSize op.cut = some d' ∧ Carries order bufSize mtu d' l' :=
    carries.step positive (by cases op <;> exact fits) stepped
  obtain ⟨d, ranDatagrams, carries⟩ := run_simulates _ one small
    (carries_fresh mtu here there sendBuf recvBuf) ranLink
  refine ⟨d, ranDatagrams, fun a b above le below => ?_⟩
  rw [carries.recvQueue]
  exact simulates.answers above le below

theorem connections_carry_overtaking :
    ∃ d, run (step .big 1500) (fresh 2 ⟨2, 7, 9⟩ ⟨2, 8, 9⟩ (fun _ => 3) (fun _ => 5))
        (Link.overtaking.map LinkOp.cut) = some d ∧
      Link.Answers d.receiver.recvQueue Link.overtaken 1 3 := by
  have positive : 0 < (2 : BitVec 32).toNat := by decide
  have small : ∀ op ∈ Link.overtaking, Small 1500 2 op := by simp [Link.overtaking, Small]
  obtain ⟨d, ran, answers⟩ := connections_carry positive small Link.run_overtaking
    ⟨2, 7, 9⟩ ⟨2, 8, 9⟩ (fun _ => 3) (fun _ => 5)
  exact ⟨d, ran, answers 1 3 (by decide) (by decide) (by decide)⟩

end DatagramLink

end UdpStuff.Udp4
