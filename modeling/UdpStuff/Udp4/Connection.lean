/-
# Udp4.Connection — one peer over one datagram socket

`UDP4Connection` of `udp4_conn.h`.  `recvfrom` is given the address that the
connection sends to as the place for the sender's, so that every datagram it
returns, even an empty one, makes its sender the peer.

`fixed_peer_iff`: a run keeps to the peer it was constructed for exactly when no
datagram in it comes from anywhere else.
-/
import UdpStuff.PacketQueue.SendQueue
import UdpStuff.Udp4.SendPacketQueue

namespace UdpStuff.Udp4

open Theory PacketQueue

set_option autoImplicit false

/-- What `recvfrom` does: it fails, or takes a datagram, whose bytes beyond the buffer
are lost. -/
inductive RecvFrom where
  | failed
  | received (sender : SockaddrIn) (datagram : List UInt8)

/-- How a call ends: with a result, or with an exception. -/
abbrev Outcome (α : Type) := Except String α

structure UDP4Connection where
  recvQueue : PacketRecvQueue := {}
  sendQueue : PacketSendQueue := {}
  siPeer : SockaddrIn

namespace UDP4Connection

def setupFromInitPacket (c : UDP4Connection) (_initPacket : List UInt8) : UDP4Connection := c

/-- The constructor. -/
def make (siPeer : SockaddrIn) (initPacket : List UInt8) : UDP4Connection :=
  setupFromInitPacket { siPeer } initPacket

/-- The 16-bit number at the front of a buffer. -/
def readId (packetBuf : Mem) : Seq :=
  BitVec.ofNat 16 ((packetBuf 0).toNat + 256 * (packetBuf 1).toNat)

def idBytes (id : Seq) : List UInt8 := [UInt8.ofNat id.toNat, UInt8.ofNat (id.toNat / 256)]

/-- `recv_packet`: the connection and the buffer after it, and how it ended. -/
def recvPacket (c : UDP4Connection) (packetBuf : Mem) (bufSize : Nat) (call : RecvFrom) :
    UDP4Connection × Mem × Outcome Bool :=
  match call with
  | .failed => (c, packetBuf, .error "recvfrom() failed")
  | .received sender datagram =>
    let bytes := datagram.take bufSize
    let packetBuf := memcpy packetBuf 0 bytes
    let c := { c with siPeer := sender }
    if 0 < bytes.length then
      let size := BitVec.ofNat 32 bytes.length - 2
      let packet := PacketDescr.make size (block packetBuf 2 size.toNat)
      let recvQueue := c.recvQueue.pushPacket (readId packetBuf) packet
      ({ c with recvQueue }, packetBuf, .ok true)
    else (c, packetBuf, .ok false)

/-- What `sendto` was called with. -/
structure SendTo where
  bytes : List UInt8
  addr : SockaddrIn
deriving DecidableEq

/-- `send_packet`: the call it makes, the buffer after it, and how it ended, if the call
fails or not. -/
def sendPacket (c : UDP4Connection) (packetBuf : Mem) (id : Seq) (data : List UInt8)
    (fails : Bool) : SendTo × Mem × Outcome Unit :=
  let packetBuf := memcpy (memcpy packetBuf 0 (idBytes id)) 2 data
  (⟨block packetBuf 0 (data.length + 2), c.siPeer⟩, packetBuf,
    if fails then .error "sendto() failed" else .ok ())

theorem siPeer_make (siPeer : SockaddrIn) (initPacket : List UInt8) :
    (make siPeer initPacket).siPeer = siPeer := rfl

/-- A datagram makes its sender the peer. -/
theorem siPeer_recvPacket (c : UDP4Connection) (packetBuf : Mem) (bufSize : Nat)
    (sender : SockaddrIn) (datagram : List UInt8) :
    (c.recvPacket packetBuf bufSize (.received sender datagram)).1.siPeer = sender := by
  unfold recvPacket
  dsimp only
  split <;> rfl

@[simp] theorem addr_sendPacket (c : UDP4Connection) (packetBuf : Mem) (id : Seq)
    (data : List UInt8) (fails : Bool) :
    (c.sendPacket packetBuf id data fails).1.addr = c.siPeer := rfl

end UDP4Connection

/-! ## Runs -/

/-- One call, with what the socket does in it. -/
inductive ConnOp where
  | recvPacket (packetBuf : Mem) (bufSize : Nat) (call : RecvFrom)
  | sendPacket (packetBuf : Mem) (id : Seq) (data : List UInt8) (fails : Bool)

namespace ConnOp

/-- The connection after a call. -/
def run (c : UDP4Connection) : ConnOp → UDP4Connection
  | .recvPacket packetBuf bufSize call => (c.recvPacket packetBuf bufSize call).1
  | .sendPacket _ _ _ _ => c

/-- A packet is sent to `p`; a datagram of another sender changes neither the peer nor
the receive queue. -/
def KeepsTo (p : SockaddrIn) (c : UDP4Connection) : ConnOp → Prop
  | .recvPacket _ _ .failed => True
  | .recvPacket packetBuf bufSize (.received sender datagram) =>
      let c' := (c.recvPacket packetBuf bufSize (.received sender datagram)).1
      sender ≠ p → c'.siPeer = c.siPeer ∧ c'.recvQueue = c.recvQueue
  | .sendPacket packetBuf id data fails => (c.sendPacket packetBuf id data fails).1.addr = p

/-- Every call of the run keeps to `p`. -/
def FixedPeer (p : SockaddrIn) (c : UDP4Connection) : List ConnOp → Prop
  | [] => True
  | op :: rest => op.KeepsTo p c ∧ FixedPeer p (op.run c) rest

/-- All datagrams of the run come from `p`. -/
def OnlyFrom (p : SockaddrIn) (ops : List ConnOp) : Prop :=
  ∀ packetBuf bufSize sender datagram,
    .recvPacket packetBuf bufSize (.received sender datagram) ∈ ops → sender = p

theorem onlyFrom_cons {p : SockaddrIn} {op : ConnOp} {rest : List ConnOp} :
    OnlyFrom p (op :: rest) ↔ OnlyFrom p [op] ∧ OnlyFrom p rest := by
  constructor
  · intro all
    refine ⟨fun b n sender d member => ?_, fun b n sender d member => ?_⟩
    · exact all b n sender d (List.mem_cons.mpr (.inl (List.mem_singleton.mp member)))
    · exact all b n sender d (List.mem_cons_of_mem _ member)
  · rintro ⟨first, others⟩ b n sender d member
    rcases List.mem_cons.mp member with same | later
    · exact first b n sender d (List.mem_singleton.mpr same)
    · exact others b n sender d later

theorem onlyFrom_received {p : SockaddrIn} {packetBuf : Mem} {bufSize : Nat}
    {sender : SockaddrIn} {datagram : List UInt8} :
    OnlyFrom p [.recvPacket packetBuf bufSize (.received sender datagram)] ↔ sender = p := by
  constructor
  · intro all
    exact all _ _ _ _ List.mem_cons_self
  · rintro rfl b n other d member
    cases List.mem_singleton.mp member
    rfl

/-- The peer after a call in which nobody but the peer is heard. -/
theorem siPeer_run {p : SockaddrIn} {c : UDP4Connection} (peer : c.siPeer = p) {op : ConnOp}
    (only : OnlyFrom p [op]) : (op.run c).siPeer = p := by
  match op with
  | .sendPacket _ _ _ _ => exact peer
  | .recvPacket _ _ .failed => exact peer
  | .recvPacket packetBuf bufSize (.received sender datagram) =>
      have same : sender = p := onlyFrom_received.mp only
      exact (c.siPeer_recvPacket packetBuf bufSize sender datagram).trans same

/-- One call keeps to the peer exactly if it hears of nobody else. -/
theorem keepsTo_iff {p : SockaddrIn} {c : UDP4Connection} (peer : c.siPeer = p) (op : ConnOp) :
    op.KeepsTo p c ↔ OnlyFrom p [op] := by
  match op with
  | .sendPacket _ _ _ _ =>
      refine ⟨fun _ _ _ _ _ member => ?_, fun _ => peer⟩
      cases List.mem_singleton.mp member
  | .recvPacket _ _ .failed =>
      refine ⟨fun _ _ _ _ _ member => ?_, fun _ => trivial⟩
      cases List.mem_singleton.mp member
  | .recvPacket packetBuf bufSize (.received sender datagram) =>
      rw [onlyFrom_received]
      constructor
      · intro kept
        -- a foreign datagram would have moved the peer away from `p`
        by_contra foreign
        have stays := (kept foreign).1
        rw [UDP4Connection.siPeer_recvPacket, peer] at stays
        exact foreign stays
      · intro same foreign
        exact absurd same foreign

/-- As long as `p` is the peer, the run keeps to it exactly if it hears of nobody else. -/
theorem fixedPeer_of_peer {p : SockaddrIn} {c : UDP4Connection} (peer : c.siPeer = p)
    (ops : List ConnOp) : FixedPeer p c ops ↔ OnlyFrom p ops := by
  induction ops generalizing c with
  | nil => exact ⟨fun _ _ _ _ _ member => absurd member List.not_mem_nil, fun _ => trivial⟩
  | cons op rest ih =>
      rw [onlyFrom_cons, FixedPeer, keepsTo_iff peer]
      apply and_congr_right
      intro only
      exact ih (siPeer_run peer only)

/-- **A connection keeps to its peer exactly when no datagram of another sender is
received.** -/
theorem fixed_peer_iff (p : SockaddrIn) (initPacket : List UInt8) (ops : List ConnOp) :
    FixedPeer p (.make p initPacket) ops ↔ OnlyFrom p ops :=
  fixedPeer_of_peer (UDP4Connection.siPeer_make p initPacket) ops

/-- **Refuted**: an empty datagram from elsewhere redirects what is sent next. -/
theorem fixed_peer_refuted :
    ¬ ∀ (p : SockaddrIn) (initPacket : List UInt8) (ops : List ConnOp),
      FixedPeer p (.make p initPacket) ops := by
  intro always
  obtain ⟨-, redirected, -⟩ := always ⟨2, 7, 9⟩ []
    [.recvPacket (fun _ => 0) 1500 (.received ⟨2, 66, 66⟩ []),
      .sendPacket (fun _ => 0) 1 [1, 2] false]
  simp [KeepsTo, run, UDP4Connection.siPeer_recvPacket] at redirected

end ConnOp

end UdpStuff.Udp4
