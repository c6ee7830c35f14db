/-
# Udp4.SendPacketQueue — what reaches the kernel over many sends

`SendPacketQueue` of `udp4.h` keeps the bytes of all packets in one vector and
finds each packet by the running sum of the lengths before it.  `send` rebuilds
the message headers from the lengths and calls `sendmmsg` until every message is
accepted; then `clear` empties the descriptors.  It does not empty the bytes:
`packet_buffers.empty()` only asks whether they are empty.

A run is followed with its history: the bytes of completed cycles and the packets
of the current one.  The queue always holds both one after the other
(`Holds`), so the next send reads its packets from the front of the old bytes.
`sends_exact_iff`: every send hands over exactly its packets when, and only when,
their joined bytes are a prefix of all bytes pushed so far.
-/
import UdpStuff.Udp4.ChainedBuffer

namespace UdpStuff.Udp4

set_option autoImplicit false

/-- `struct sockaddr_in` -/
structure SockaddrIn where
  sinFamily : BitVec 16
  sinPort : BitVec 16
  sinAddr : BitVec 32
deriving DecidableEq

/-- `SendPacketQueue::PacketDescr` -/
structure MsgDescr where
  len : Nat
  dstAddr : SockaddrIn

/-- One `mmsghdr` with its single `iovec`: a block of the byte vector and a
destination. -/
structure Mmsghdr where
  iovBase : Nat
  iovLen : Nat
  msgName : SockaddrIn

/-- What the kernel takes from one message. -/
structure Datagram where
  bytes : List UInt8
  addr : SockaddrIn
deriving DecidableEq

/-- The return of one `sendmmsg` call: an error, or how many messages it took. -/
inductive SendResult where
  | failed
  | accepted (l : Nat)

/-- How `send` ends for the results it got: it returned, `scall` threw, or it is
still calling. -/
inductive SendStatus where
  | returned
  | threw
  | calling
deriving DecidableEq

structure SendPacketQueue where
  msgDescr : List MsgDescr := []
  packetBuffers : List UInt8 := []

namespace SendPacketQueue

def push (q : SendPacketQueue) (packet : ChainedBuffer) (dstAddr : SockaddrIn) :
    SendPacketQueue :=
  let oldSize := q.packetBuffers.length
  let packetBuffers := packet.vectorInsert q.packetBuffers
  let newSize := packetBuffers.length
  { packetBuffers := packetBuffers
    msgDescr := q.msgDescr ++ [⟨newSize - oldSize, dstAddr⟩] }

/-- `clear`: the call on the bytes is the query `empty()`. -/
def clear (q : SendPacketQueue) : SendPacketQueue := { q with msgDescr := [] }

/-- The loop that fills in the headers; `data` runs over the byte vector. -/
def fillMessages : Nat → List MsgDescr → List Mmsghdr
  | _, [] => []
  | data, d :: rest => ⟨data, d.len, d.dstAddr⟩ :: fillMessages (data + d.len) rest

def datagram (packetBuffers : List UInt8) (m : Mmsghdr) : Datagram :=
  ⟨(packetBuffers.drop m.iovBase).take m.iovLen, m.msgName⟩

/-- The `do … while (sent < n)` loop on the results of its calls: the messages the
kernel took, in order, and how the loop stands. -/
def sendLoop {α : Type} (messages : List α) : Nat → List SendResult → List α × SendStatus
  | _, [] => ([], .calling)
  | _, .failed :: _ => ([], .threw)
  | sent, .accepted l :: results =>
      let taken := (messages.drop sent).take l
      if sent + l < messages.length then
        let later := sendLoop messages (sent + l) results
        (taken ++ later.1, later.2)
      else (taken, .returned)

/-- `send`: the queue after it, what the kernel took, and how it ended. -/
def send (q : SendPacketQueue) (results : List SendResult) :
    SendPacketQueue × List Datagram × SendStatus :=
  let messages := (fillMessages 0 q.msgDescr).map (datagram q.packetBuffers)
  let sent := sendLoop messages 0 results
  match sent.2 with
  | .returned => (q.clear, sent)
  | _ => (q, sent)

/-! ## The calls of one send -/

/-- How many of `remaining` messages the calls take. -/
def acceptedOf : Nat → List SendResult → Nat
  | _, [] => 0
  | _, .failed :: _ => 0
  | remaining, .accepted l :: results =>
      if l < remaining then l + acceptedOf (remaining - l) results else remaining

/-- How a loop over `remaining` messages stands after these calls. -/
def statusOf : Nat → List SendResult → SendStatus
  | _, [] => .calling
  | _, .failed :: _ => .threw
  | remaining, .accepted l :: results =>
      if l < remaining then statusOf (remaining - l) results else .returned

theorem acceptedOf_le (remaining : Nat) (results : List SendResult) :
    acceptedOf remaining results ≤ remaining := by
  induction results generalizing remaining with
  | nil => exact Nat.zero_le _
  | cons result rest ih =>
      cases result with
      | failed => exact Nat.zero_le _
      | accepted l =>
          have later := ih (remaining - l)
          unfold acceptedOf
          split <;> omega

theorem acceptedOf_returned {remaining : Nat} {results : List SendResult}
    (returned : statusOf remaining results = .returned) :
    acceptedOf remaining results = remaining := by
  induction results generalizing remaining with
  | nil => cases returned
  | cons result rest ih =>
      cases result with
      | failed => cases returned
      | accepted l =>
          unfold statusOf at returned
          unfold acceptedOf
          split at returned
          case isTrue more => rw [if_pos more, ih returned, Nat.add_sub_cancel' more.le]
          case isFalse all => rw [if_neg all]

/-- The loop takes a block of the messages, from where it stands. -/
theorem sendLoop_eq {α : Type} {messages : List α} {sent : Nat} (results : List SendResult)
    (inside : sent ≤ messages.length) :
    sendLoop messages sent results =
      ((messages.drop sent).take (acceptedOf (messages.length - sent) results),
        statusOf (messages.length - sent) results) := by
  induction results generalizing sent with
  | nil => simp [sendLoop, acceptedOf, statusOf]
  | cons result rest ih =>
      cases result with
      | failed => simp [sendLoop, acceptedOf, statusOf]
      | accepted l =>
          unfold sendLoop acceptedOf statusOf
          by_cases more : sent + l < messages.length
          · have remaining : messages.length - (sent + l) = messages.length - sent - l := by omega
            simp only [if_pos more, if_pos (show l < messages.length - sent by omega),
              ih more.le, remaining, List.take_add, List.drop_drop]
          · have block : (messages.drop sent).length ≤ l := by
              rw [List.length_drop]
              omega
            have all : (messages.drop sent).take (messages.length - sent) = messages.drop sent := by
              rw [← List.length_drop, List.take_length]
            simp only [if_neg more, if_neg (show ¬ l < messages.length - sent by omega),
              List.take_of_length_le block, all]

theorem length_fillMessages (data : Nat) (descrs : List MsgDescr) :
    (fillMessages data descrs).length = descrs.length := by
  induction descrs generalizing data with
  | nil => rfl
  | cons d rest ih => rw [fillMessages, List.length_cons, ih, List.length_cons]

/-- Results that take `remaining` messages in positive batches. -/
def PositiveBatches : Nat → List SendResult → Prop
  | _, [] => False
  | _, .failed :: _ => False
  | remaining, [.accepted l] => l = remaining
  | remaining, .accepted l :: results =>
      0 < l ∧ l < remaining ∧ PositiveBatches (remaining - l) results

theorem statusOf_batches {remaining : Nat} {results : List SendResult}
    (batches : PositiveBatches remaining results) : statusOf remaining results = .returned := by
  induction results generalizing remaining with
  | nil => exact batches.elim
  | cons result rest ih =>
      cases result with
      | failed => exact batches.elim
      | accepted l =>
          cases rest with
          | nil =>
              have all : l = remaining := batches
              rw [statusOf, if_neg (by omega)]
          | cons next rest =>
              obtain ⟨-, below, later⟩ := batches
              rw [statusOf, if_pos below, ih later]

/-- A send in positive batches takes all messages and clears the queue. -/
theorem send_batches {q : SendPacketQueue} {results : List SendResult}
    (batches : PositiveBatches q.msgDescr.length results) :
    q.send results =
      (q.clear, (fillMessages 0 q.msgDescr).map (datagram q.packetBuffers), .returned) := by
  have returned := statusOf_batches batches
  unfold send
  dsimp only
  rw [sendLoop_eq results (Nat.zero_le _), List.length_map, length_fillMessages, Nat.sub_zero,
    returned, acceptedOf_returned returned, List.drop_zero, List.take_of_length_le]
  rw [List.length_map, length_fillMessages]

/-! ## Packets at running offsets -/

/-- The descriptors of a list of packets. -/
def descrs (packets : List Datagram) : List MsgDescr :=
  packets.map fun p => ⟨p.bytes.length, p.addr⟩

/-- The joined bytes of a list of packets. -/
def joined (packets : List Datagram) : List UInt8 := packets.flatMap Datagram.bytes

theorem joined_append (xs ys : List Datagram) : joined (xs ++ ys) = joined xs ++ joined ys :=
  List.flatMap_append

/-- The messages read back the packets exactly when the joined packets are what
the bytes at the running offset begin with. -/
theorem fillMessages_eq_iff (buffers : List UInt8) (packets : List Datagram) (data : Nat)
    (room : data + (joined packets).length ≤ buffers.length) :
    (fillMessages data (descrs packets)).map (datagram buffers) = packets ↔
      joined packets <+: buffers.drop data := by
  induction packets generalizing data with
  | nil => simp [descrs, fillMessages, joined]
  | cons p rest ih =>
      have split : joined (p :: rest) = p.bytes ++ joined rest := rfl
      rw [split, List.length_append] at room
      have later := ih (data + p.bytes.length) (by omega)
      rw [← List.drop_drop] at later
      have cut : ((buffers.drop data).take p.bytes.length).length = p.bytes.length := by
        rw [List.length_take, List.length_drop]
        omega
      simp only [descrs, List.map_cons, fillMessages, List.cons.injEq] at later ⊢
      rw [later, split]
      constructor
      · rintro ⟨first, suffix⟩
        have bytes : (buffers.drop data).take p.bytes.length = p.bytes :=
          congrArg Datagram.bytes first
        conv_rhs => rw [← List.take_append_drop p.bytes.length (buffers.drop data), bytes]
        exact (List.prefix_append_right_inj _).mpr suffix
      · intro whole
        have bytes : (buffers.drop data).take p.bytes.length = p.bytes := by
          obtain ⟨t, eq⟩ := whole
          rw [← eq, List.append_assoc, List.take_left]
        refine ⟨by rw [datagram, bytes], ?_⟩
        conv_rhs at whole => rw [← List.take_append_drop p.bytes.length (buffers.drop data), bytes]
        exact (List.prefix_append_right_inj _).mp whole

end SendPacketQueue

open SendPacketQueue

/-! ## Runs -/

/-- One operation of the queue's user; a `send` with the results of its calls. -/
inductive SendOp where
  | push (packet : ChainedBuffer) (dstAddr : SockaddrIn)
  | send (results : List SendResult)

namespace SendOp

/-- Every send of the run gets its messages taken in positive batches; `waiting`
packets were pushed since the last one. -/
def Batched : Nat → List SendOp → Prop
  | _, [] => True
  | waiting, .push _ _ :: rest => Batched (waiting + 1) rest
  | waiting, .send results :: rest => PositiveBatches waiting results ∧ Batched 0 rest

/-- Every send returns and hands the kernel exactly the packets pushed since the
previous one, in order, with their bytes and destinations. -/
def SendsExactly (q : SendPacketQueue) (waiting : List Datagram) : List SendOp → Prop
  | [] => True
  | .push packet dstAddr :: rest =>
      SendsExactly (q.push packet dstAddr) (waiting ++ [⟨packet.bytes, dstAddr⟩]) rest
  | .send results :: rest =>
      (q.send results).2 = (waiting, .returned) ∧ SendsExactly (q.send results).1 [] rest

/-- At every send the joined packets of the cycle are a prefix of everything pushed
so far, `past` being the bytes of the cycles before. -/
def RepeatsPast (past : List UInt8) (waiting : List Datagram) : List SendOp → Prop
  | [] => True
  | .push packet dstAddr :: rest =>
      RepeatsPast past (waiting ++ [⟨packet.bytes, dstAddr⟩]) rest
  | .send _ :: rest =>
      joined waiting <+: past ++ joined waiting ∧ RepeatsPast (past ++ joined waiting) [] rest

/-- The queue holds the bytes of all cycles and the descriptors of the current one. -/
structure Holds (q : SendPacketQueue) (past : List UInt8) (waiting : List Datagram) : Prop where
  bytes : q.packetBuffers = past ++ joined waiting
  descr : q.msgDescr = descrs waiting

theorem holds_fresh : Holds {} [] [] := ⟨rfl, rfl⟩

theorem Holds.push {q : SendPacketQueue} {past : List UInt8} {waiting : List Datagram}
    (h : Holds q past waiting) (packet : ChainedBuffer) (dstAddr : SockaddrIn) :
    Holds (q.push packet dstAddr) past (waiting ++ [⟨packet.bytes, dstAddr⟩]) where
  bytes := by
    have one : joined [⟨packet.bytes, dstAddr⟩] = packet.bytes := by simp [joined]
    rw [SendPacketQueue.push, packet.vectorInsert_eq, h.bytes, joined_append, one,
      List.append_assoc]
  descr := by
    have len : (packet.vectorInsert q.packetBuffers).length - q.packetBuffers.length =
        packet.bytes.length := by
      rw [packet.vectorInsert_eq, List.length_append]
      omega
    simp only [SendPacketQueue.push, len, h.descr, descrs, List.map_append, List.map_cons,
      List.map_nil]

/-- One send: what it hands over, and the state it leaves. -/
theorem Holds.send {q : SendPacketQueue} {past : List UInt8} {waiting : List Datagram}
    (h : Holds q past waiting) {results : List SendResult}
    (batches : PositiveBatches waiting.length results) :
    ((q.send results).2 = (waiting, .returned) ↔ joined waiting <+: past ++ joined waiting) ∧
      Holds (q.send results).1 (past ++ joined waiting) [] := by
  have count : q.msgDescr.length = waiting.length := by rw [h.descr, descrs, List.length_map]
  have outcome := q.send_batches (count.symm ▸ batches)
  have exact := fillMessages_eq_iff q.packetBuffers waiting 0
    (by rw [h.bytes, List.length_append]; omega)
  rw [List.drop_zero, ← h.descr, h.bytes] at exact
  constructor
  · rw [outcome, Prod.mk.injEq, and_iff_left rfl, h.bytes]
    exact exact
  · rw [outcome]
    exact ⟨by rw [clear, h.bytes]; simp [joined], rfl⟩

theorem sendsExactly_iff {q : SendPacketQueue} {past : List UInt8} {waiting : List Datagram}
    (h : Holds q past waiting) {ops : List SendOp} (batched : Batched waiting.length ops) :
    SendsExactly q waiting ops ↔ RepeatsPast past waiting ops := by
  induction ops generalizing q past waiting with
  | nil => exact Iff.rfl
  | cons op rest ih =>
      cases op with
      | push packet dstAddr =>
          exact ih (h.push packet dstAddr) (by rw [List.length_append]; exact batched)
      | send results =>
          obtain ⟨batches, later⟩ := batched
          obtain ⟨now, next⟩ := h.send batches
          rw [SendsExactly, RepeatsPast, now]
          exact and_congr_right fun _ => ih next later

/-- **Every send of a run from a fresh queue hands over exactly its packets if and
only if, at every send, their joined bytes are a prefix of all bytes pushed so
far** — so in the first cycle always, and later only by repetition. -/
theorem sends_exact_iff {ops : List SendOp} (batched : Batched 0 ops) :
    SendsExactly {} [] ops ↔ RepeatsPast [] [] ops :=
  sendsExactly_iff holds_fresh batched

/-- Two packets in one cycle, taken one at a time. -/
theorem sends_exact_first_cycle :
    SendsExactly {} [] [.push (.arrayInitBuffer [1, 2]) ⟨2, 7, 9⟩,
      .push (.structBuffer [3] (.arrayInitBuffer [4])) ⟨2, 8, 9⟩,
      .send [.accepted 1, .accepted 1]] :=
  have batched : Batched 0 [.push (.arrayInitBuffer [1, 2]) ⟨2, 7, 9⟩,
      .push (.structBuffer [3] (.arrayInitBuffer [4])) ⟨2, 8, 9⟩,
      .send [.accepted 1, .accepted 1]] := ⟨⟨by decide, by decide, rfl⟩, trivial⟩
  (sends_exact_iff batched).mpr ⟨List.prefix_rfl, trivial⟩

/-- **Refuted**: the second cycle sends the bytes of the first. -/
theorem sends_exact_refuted :
    ¬ ∀ ops : List SendOp, Batched 0 ops → SendsExactly {} [] ops := by
  intro always
  have second := (always [.push (.arrayInitBuffer [1]) ⟨2, 7, 9⟩, .send [.accepted 1],
    .push (.arrayInitBuffer [2]) ⟨2, 7, 9⟩, .send [.accepted 1]] ⟨rfl, rfl, trivial⟩).2.1
  revert second
  decide

end SendOp

end UdpStuff.Udp4
