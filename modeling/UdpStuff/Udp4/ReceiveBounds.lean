/-
# Udp4.ReceiveBounds — what a call is given of a received message

`recv_all` compares the length of a message with the sum of two lengths that the
message itself names, in arithmetic modulo 2^64.  The two sides are equal exactly if
the IP header and the UDP length make up the message (`lengths_eq_iff`): a UDP length
below the eight bytes of its own header passes as well, and the payload is then almost
2^64 bytes.

`receive_bounds_iff`: in a run of `recv_all` every call is given bytes of its own
message exactly if no such length comes with a message that is for a connection.
-/
import UdpStuff.Udp4.Driver

namespace UdpStuff.Udp4

open Theory ByteOrder

set_option autoImplicit false

namespace Received

variable (order : ByteOrder) (msg : Received)

/-- Where `recv_all` takes the UDP header to be. -/
def udphAt : Nat := (Iphdr.deref order msg.buf 0).ihl.toNat * 4

/-- The length in it. -/
def udpLen : Nat := (order.htons (Udphdr.deref order msg.buf (msg.udphAt order)).len).toNat

/-- The address that the connection is looked up under. -/
def peer : Addr :=
  let iph := Iphdr.deref order msg.buf 0
  let udph := Udphdr.deref order msg.buf (msg.udphAt order)
  { srcIp := iph.daddr, dstIp := iph.saddr, srcPort := udph.dest, dstPort := udph.source }

theorem udphAt_le : msg.udphAt order ≤ 60 := by
  have := (Iphdr.deref order msg.buf 0).ihl.isLt
  unfold udphAt
  omega

/-- The only guard, without the wrapping. -/
theorem lengths_eq_iff :
    msg.msgLen.setWidth 64 = BitVec.ofNat 64 (msg.udphAt order + 8) +
        ((order.htons (Udphdr.deref order msg.buf (msg.udphAt order)).len).setWidth 64 - 8) ↔
      msg.msgLen.toNat = msg.udphAt order + msg.udpLen order := by
  have header := msg.udphAt_le order
  have received := msg.msgLen.isLt
  have len := (order.htons (Udphdr.deref order msg.buf (msg.udphAt order)).len).isLt
  have eight : (8 : BitVec 64).toNat = 8 := rfl
  rw [← BitVec.toNat_inj, BitVec.toNat_add, BitVec.toNat_sub, BitVec.toNat_setWidth,
    BitVec.toNat_setWidth, BitVec.toNat_ofNat, eight]
  unfold udpLen
  omega

end Received

namespace Udp4Driver

variable {κ : Type} (order : ByteOrder) (react : Call κ → Udp4Driver κ → Udp4Driver κ)

/-! ## One message -/

/-- The call that a message makes. -/
def callOf (msg : Received) (conn : κ) : Call κ :=
  let iph := Iphdr.deref order msg.buf 0
  let len := (Udphdr.deref order msg.buf (msg.udphAt order)).len
  let dataLen := (order.htons len).setWidth 64 - 8
  { conn
    method := if iph.fragOff &&& 0x080 = 0 then .processData else .processControl
    id := order.htons iph.id
    data := block msg.buf (msg.udphAt order + 8) dataLen.toNat
    dataLen }

theorem mem_recvOne {driver : Udp4Driver κ} {msg : Received} {call : Call κ} :
    call ∈ (driver.recvOne order react msg).2 ↔
      msg.msgLen.toNat = msg.udphAt order + msg.udpLen order ∧
        ∃ conn, driver.connMap (msg.peer order) = some conn ∧ call = callOf order msg conn := by
  rw [← Received.lengths_eq_iff]
  unfold recvOne
  dsimp only
  split
  case isTrue differ =>
    constructor
    · exact fun member => absurd member List.not_mem_nil
    · exact fun same => absurd same.1 differ
  case isFalse same =>
    split
    case h_1 absent =>
      have unknown : driver.connMap (msg.peer order) = none := absent
      rw [unknown]
      constructor
      · exact fun member => absurd member List.not_mem_nil
      · rintro ⟨-, conn, found, -⟩
        cases found
    case h_2 conn found =>
      have known : driver.connMap (msg.peer order) = some conn := found
      rw [known, List.mem_singleton]
      constructor
      · exact fun called => ⟨not_not.mp same, conn, rfl, called⟩
      · rintro ⟨-, conn', found', called⟩
        obtain rfl := Option.some.inj found'
        exact called

/-- A payload is as long as its header says, modulo 2^64. -/
theorem toNat_dataLen (msg : Received) (conn : κ) :
    (callOf order msg conn).dataLen.toNat =
      if 8 ≤ msg.udpLen order then msg.udpLen order - 8 else 2 ^ 64 + msg.udpLen order - 8 := by
  have len := (order.htons (Udphdr.deref order msg.buf (msg.udphAt order)).len).isLt
  have eight : (8 : BitVec 64).toNat = 8 := rfl
  show ((order.htons (Udphdr.deref order msg.buf (msg.udphAt order)).len).setWidth 64 - 8).toNat = _
  rw [BitVec.toNat_sub, BitVec.toNat_setWidth, eight]
  unfold Received.udpLen
  split <;> omega

/-- Every call is given the UDP header and the payload inside of the bytes received. -/
def CallsInside (driver : Udp4Driver κ) (msg : Received) : Prop :=
  ∀ call ∈ (driver.recvOne order react msg).2,
    let dataAt := msg.udphAt order + 8
    dataAt ≤ msg.msgLen.toNat ∧ dataAt + call.dataLen.toNat ≤ msg.msgLen.toNat

/-- A message for a connection names a length that its own header fits in. -/
def HonestLength (driver : Udp4Driver κ) (msg : Received) : Prop :=
  msg.msgLen.toNat = msg.udphAt order + msg.udpLen order →
    (driver.connMap (msg.peer order)).isSome → 8 ≤ msg.udpLen order

theorem callsInside_iff {driver : Udp4Driver κ} {msg : Received} :
    driver.CallsInside order react msg ↔ driver.HonestLength order msg := by
  constructor
  · intro inside lengths known
    obtain ⟨conn, found⟩ := Option.isSome_iff_exists.mp known
    have header := (inside _ ((mem_recvOne order react).mpr ⟨lengths, conn, found, rfl⟩)).1
    omega
  · intro honest call member
    obtain ⟨lengths, conn, found, rfl⟩ := (mem_recvOne order react).mp member
    have eight := honest lengths (Option.isSome_of_eq_some found)
    rw [toNat_dataLen, if_pos eight]
    show msg.udphAt order + 8 ≤ _ ∧ msg.udphAt order + 8 + _ ≤ _
    omega

/-! ## Runs -/

/-- Something holds at every message of `recv_all`, of the driver as it is then. -/
def EachStep (P : Udp4Driver κ → Received → Prop) (driver : Udp4Driver κ)
    (messages : List Received) : Prop :=
  ∀ before msg after, messages = before ++ msg :: after →
    P (driver.recvAll order react before).1 msg

/-- The calls of a run are those at its messages. -/
theorem mem_recvAll {driver : Udp4Driver κ} {messages : List Received} {call : Call κ} :
    call ∈ (driver.recvAll order react messages).2 ↔
      ∃ before msg after, messages = before ++ msg :: after ∧
        call ∈ ((driver.recvAll order react before).1.recvOne order react msg).2 := by
  constructor
  · intro member
    induction messages generalizing driver with
    | nil => exact absurd member List.not_mem_nil
    | cons msg messages ih =>
        rcases List.mem_append.mp member with here | later
        · exact ⟨[], msg, messages, rfl, here⟩
        · obtain ⟨before, msg', after, rfl, there⟩ := ih later
          exact ⟨msg :: before, msg', after, rfl, there⟩
  · rintro ⟨before, msg, after, rfl, member⟩
    rw [recvAll_append]
    exact List.mem_append_right _ (List.mem_append_left _ member)

/-- **Calls are given bytes of their message exactly if lengths are honest**: at every
message of a run, whatever the connections do to the driver meanwhile. -/
theorem receive_bounds_iff (driver : Udp4Driver κ) (messages : List Received) :
    driver.EachStep order react (CallsInside order react) messages ↔
      driver.EachStep order react (HonestLength order) messages := by
  unfold EachStep
  simp only [callsInside_iff]

/-- 27 bytes received: the UDP length 7 is the one they add up to. -/
theorem receive_bounds_refuted :
    ¬ ∀ (driver : Udp4Driver Nat) (messages : List Received),
      (∀ msg ∈ messages, msg.msgLen.toNat ≤ 1500) →
        driver.EachStep .little (fun _ d => d) (CallsInside .little fun _ d => d) messages := by
  intro all
  let buf : Mem := addressOf
    [0x45, 0, 0, 27, 0, 1, 0, 0, 128, 17, 0, 0, 127, 0, 0, 1, 127, 0, 0, 1, 0, 12, 0, 15, 0, 7, 0]
  let addr : Addr := ⟨0x0100007f, 0x0100007f, 0x0f00, 0x0c00⟩
  let driver : Udp4Driver Nat := (⟨fun _ => none, {}⟩ : Udp4Driver Nat).attach addr 2
  have inside := all driver [⟨buf, 27⟩] (by decide) [] ⟨buf, 27⟩ [] rfl
  have honest := (callsInside_iff .little fun _ d => d).mp inside
  exact absurd (honest (by decide) (by decide)) (by decide)

end Udp4Driver

end UdpStuff.Udp4
