/-
# Udp4.Driver — the raw UDP header, built and parsed

`Udp4Driver` of `udp4.h`.  `send_packet` puts an IP and a UDP header in front of
the payload; `recv_all` reads both back from each buffer, compares the lengths and
looks the connection up under the swapped addresses.  The kind of a packet is one
bit of `frag_off`, in the machine's own byte order on both sides.

The kernel and the routers fill in the total length, the time to live and the
header checksum; `Arrives` asks nothing about these.
-/
import UdpStuff.Theory.ByteOrder
import UdpStuff.Theory.Memory
import UdpStuff.Udp4.SendPacketQueue

namespace UdpStuff.Udp4

open Theory ByteOrder

set_option autoImplicit false

abbrev PacketId := BitVec 16

/-- `struct iphdr` -/
structure Iphdr where
  ihl : BitVec 4
  version : BitVec 4
  tos : BitVec 8 := 0
  totLen : BitVec 16 := 0
  id : BitVec 16
  fragOff : BitVec 16
  ttl : BitVec 8
  protocol : BitVec 8
  check : BitVec 16 := 0
  saddr : BitVec 32
  daddr : BitVec 32

/-- `struct udphdr` -/
structure Udphdr where
  source : BitVec 16
  dest : BitVec 16
  len : BitVec 16
  check : BitVec 16 := 0

/-- `version` is the high half of the first byte in either byte order. -/
def Iphdr.toBytes (order : ByteOrder) (iph : Iphdr) : List UInt8 :=
  order.store (iph.version ++ iph.ihl : BitVec 8) ++ order.store iph.tos ++
    order.store iph.totLen ++ order.store iph.id ++ order.store iph.fragOff ++
    order.store iph.ttl ++ order.store iph.protocol ++ order.store iph.check ++
    order.store iph.saddr ++ order.store iph.daddr

def Udphdr.toBytes (order : ByteOrder) (udph : Udphdr) : List UInt8 :=
  order.store udph.source ++ order.store udph.dest ++ order.store udph.len ++
    order.store udph.check

/-- The header a pointer into memory points to. -/
def Iphdr.deref (order : ByteOrder) (buf : Mem) (iph : Nat) : Iphdr where
  ihl := (order.load 8 (block buf iph 1)).extractLsb' 0 4
  version := (order.load 8 (block buf iph 1)).extractLsb' 4 4
  tos := order.load 8 (block buf (iph + 1) 1)
  totLen := order.load 16 (block buf (iph + 2) 2)
  id := order.load 16 (block buf (iph + 4) 2)
  fragOff := order.load 16 (block buf (iph + 6) 2)
  ttl := order.load 8 (block buf (iph + 8) 1)
  protocol := order.load 8 (block buf (iph + 9) 1)
  check := order.load 16 (block buf (iph + 10) 2)
  saddr := order.load 32 (block buf (iph + 12) 4)
  daddr := order.load 32 (block buf (iph + 16) 4)

def Udphdr.deref (order : ByteOrder) (buf : Mem) (udph : Nat) : Udphdr where
  source := order.load 16 (block buf udph 2)
  dest := order.load 16 (block buf (udph + 2) 2)
  len := order.load 16 (block buf (udph + 4) 2)
  check := order.load 16 (block buf (udph + 6) 2)

/-! ## The checksum -/

namespace ChecksumCalculator

/-- `add`: the loop adds one 16-bit word before it looks at the length. -/
def add (order : ByteOrder) (sum : BitVec 32) (data : Mem) (l : Nat) : BitVec 32 :=
  let words := max 1 (l / 2)
  let sum := (List.range words).foldl
    (fun sum i => sum + (order.load 16 (block data (2 * i) 2)).setWidth 32) sum
  if l % 2 = 1 then sum + (order.load 8 (block data (2 * words) 1)).setWidth 32 else sum

/-- One step of the loop in `finish`. -/
theorem toNat_fold (sum : BitVec 32) :
    ((sum >>> 16) + (sum &&& 0xffff)).toNat = sum.toNat / 65536 + sum.toNat % 65536 := by
  have low : sum.toNat &&& 0xffff = sum.toNat % 65536 := Nat.and_two_pow_sub_one_eq_mod _ 16
  have high : sum.toNat >>> 16 = sum.toNat / 65536 := Nat.shiftRight_eq_div_pow _ 16
  have fits := sum.isLt
  rw [BitVec.toNat_add, BitVec.toNat_ushiftRight, BitVec.toNat_and,
    show (0xffff : BitVec 32).toNat = 0xffff from rfl, low, high, Nat.mod_eq_of_lt (by omega)]

theorem fold_lt {sum : BitVec 32} (long : sum > 0xffff) :
    ((sum >>> 16) + (sum &&& 0xffff)).toNat < sum.toNat := by
  have long : 0xffff < sum.toNat := long
  rw [toNat_fold]
  omega

def finish (sum : BitVec 32) : BitVec 16 :=
  if sum > 0xffff then finish ((sum >>> 16) + (sum &&& 0xffff)) else ~~~ (sum.setWidth 16)
termination_by sum.toNat
decreasing_by
  rename_i long
  exact fold_lt long

end ChecksumCalculator

/-! ## The driver -/

/-- `Udp4Driver::Addr` -/
structure Addr where
  srcIp : BitVec 32
  dstIp : BitVec 32
  srcPort : BitVec 16
  dstPort : BitVec 16
deriving DecidableEq

/-- Source and destination swapped. -/
def Addr.mirrored (addr : Addr) : Addr := ⟨addr.dstIp, addr.srcIp, addr.dstPort, addr.srcPort⟩

/-- The member function of `Connection` that a packet is handed to. -/
inductive Method where
  | processData
  | processControl
deriving DecidableEq

/-- A call of a connection `conn`. -/
structure Call (κ : Type) where
  conn : κ
  method : Method
  id : PacketId
  data : List UInt8
  dataLen : BitVec 64

/-- A message that `recvmmsg` filled in: its buffer, of which the first `msgLen` bytes
are new. -/
structure Received where
  buf : Mem
  msgLen : BitVec 32

structure Udp4Driver (κ : Type) where
  connMap : Addr → Option κ
  sendQueue : SendPacketQueue

def IPPROTO_UDP : BitVec 8 := 17

def AF_INET : BitVec 16 := 2

/-- The IP header of a packet. -/
def ipHeader (order : ByteOrder) (addr : Addr) (id : PacketId) (isControl : Bool) : Iphdr where
  ihl := 5
  version := 4
  id := order.htons id
  fragOff := (BitVec.ofBool isControl).setWidth 16 <<< 7
  ttl := 128
  protocol := IPPROTO_UDP
  saddr := addr.srcIp
  daddr := addr.dstIp

/-- The UDP header of a packet with `l` bytes, before its checksum. -/
def udpHeader (order : ByteOrder) (addr : Addr) (l : Nat) : Udphdr where
  source := addr.srcPort
  dest := addr.dstPort
  len := order.htons (BitVec.ofNat 16 (8 + l))

/-- The bytes of a variable, where a pointer to it points. -/
def addressOf (bytes : List UInt8) : Mem := fun i => bytes.getD i 0

def udpChecksum (order : ByteOrder) (iph : Iphdr) (udph : Udphdr) (data : Mem) (l : Nat) :
    BitVec 16 :=
  let add := ChecksumCalculator.add order
  let tmpProto := order.htons (iph.protocol.setWidth 16)
  let sum := add 0 (addressOf (order.store iph.saddr)) 4
  let sum := add sum (addressOf (order.store iph.daddr)) 4
  let sum := add sum (addressOf (order.store tmpProto)) 2
  let sum := add sum (addressOf (order.store udph.len)) 2
  let sum := add sum (addressOf (udph.toBytes order)) 8
  let sum := add sum data l
  ChecksumCalculator.finish sum

/-- The chain that `send_packet` pushes. -/
def packet (order : ByteOrder) (addr : Addr) (id : PacketId) (data : Mem) (l : Nat)
    (isControl : Bool) : ChainedBuffer :=
  let iph := ipHeader order addr id isControl
  let udph := udpHeader order addr l
  let udph := { udph with check := udpChecksum order iph udph data l }
  .structBuffer (iph.toBytes order ++ udph.toBytes order) (.arrayInitBuffer (block data 0 l))

namespace Udp4Driver

variable {κ : Type}

def sendPacket (order : ByteOrder) (driver : Udp4Driver κ) (addr : Addr) (id : PacketId)
    (data : Mem) (l : Nat) (isControl : Bool) : Udp4Driver κ :=
  let dstAddr := ⟨AF_INET, addr.dstPort, addr.dstIp⟩
  { driver with
    sendQueue := driver.sendQueue.push (packet order addr id data l isControl) dstAddr }

def pushData (order : ByteOrder) (driver : Udp4Driver κ) (addr : Addr) (id : PacketId)
    (data : Mem) (l : Nat) : Udp4Driver κ :=
  driver.sendPacket order addr id data l false

def pushControl (order : ByteOrder) (driver : Udp4Driver κ) (addr : Addr) (id : PacketId)
    (data : Mem) (l : Nat) : Udp4Driver κ :=
  driver.sendPacket order addr id data l true

def detach (driver : Udp4Driver κ) (addr : Addr) : Udp4Driver κ :=
  { driver with connMap := fun a => if a = addr then none else driver.connMap a }

/-- `insert` keeps an entry that is there. -/
def attach (driver : Udp4Driver κ) (addr : Addr) (conn : κ) : Udp4Driver κ :=
  { driver with
    connMap := fun a => if a = addr then (driver.connMap a).or (some conn) else driver.connMap a }

/-- The loop body of `recv_all`; `react` is what the code of the connection does with the
driver in the call. -/
def recvOne (order : ByteOrder) (react : Call κ → Udp4Driver κ → Udp4Driver κ)
    (driver : Udp4Driver κ) (msg : Received) : Udp4Driver κ × List (Call κ) :=
  let iph := Iphdr.deref order msg.buf 0
  let udphAt := iph.ihl.toNat * 4
  let udph := Udphdr.deref order msg.buf udphAt
  let dataAt := udphAt + 8
  let dataLen := (order.htons udph.len).setWidth 64 - 8
  if msg.msgLen.setWidth 64 ≠ BitVec.ofNat 64 dataAt + dataLen then (driver, [])
  else
    let addr : Addr :=
      { srcIp := iph.daddr, dstIp := iph.saddr, srcPort := udph.dest, dstPort := udph.source }
    match driver.connMap addr with
    | none => (driver, [])
    | some conn =>
      let method := if iph.fragOff &&& 0x080 = 0 then .processData else .processControl
      let call : Call κ :=
        { conn, method, id := order.htons iph.id
          data := block msg.buf dataAt dataLen.toNat, dataLen }
      (react call driver, [call])

/-- `recv_all` on the messages that were received. -/
def recvAll (order : ByteOrder) (react : Call κ → Udp4Driver κ → Udp4Driver κ) :
    Udp4Driver κ → List Received → Udp4Driver κ × List (Call κ)
  | driver, [] => (driver, [])
  | driver, msg :: messages =>
    let one := driver.recvOne order react msg
    let later := recvAll order react one.1 messages
    (later.1, one.2 ++ later.2)

end Udp4Driver

/-! ## From one machine to the other -/

/-- The bytes that are filled in on the way. -/
def rewritten : List Nat := [2, 3, 8, 10, 11]

/-- A packet arrives: as long as it was, and with its bytes. -/
structure Arrives (bytes : List UInt8) (msg : Received) : Prop where
  length : msg.msgLen.toNat = bytes.length
  bytes : ∀ i (inside : i < bytes.length), i ∉ rewritten → msg.buf i = bytes[i]

theorem Arrives.block {bytes : List UInt8} {msg : Received} (arrives : Arrives bytes msg)
    (offset size : Nat) (inside : offset + size ≤ bytes.length)
    (kept : ∀ i ∈ rewritten, i < offset ∨ offset + size ≤ i) :
    block msg.buf offset size = (bytes.drop offset).take size := by
  have length : ((bytes.drop offset).take size).length = size := by
    rw [List.length_take, List.length_drop]
    omega
  conv_lhs => rw [← length]
  apply block_eq
  intro i lt
  rw [length] at lt
  have same := arrives.bytes (offset + i) (by omega) (fun member => by
    have := kept _ member
    omega)
  simpa using same

section Layout

variable (order : ByteOrder) (iph : Iphdr) (udph : Udphdr) (payload : List UInt8)

/-- The bytes of a packet with these headers. -/
def wire : List UInt8 := iph.toBytes order ++ udph.toBytes order ++ payload

theorem length_wire : (wire order iph udph payload).length = 28 + payload.length := by
  simp [wire, Iphdr.toBytes, Udphdr.toBytes]
  omega

variable {order iph udph payload} {msg : Received}
  (arrives : Arrives (wire order iph udph payload) msg)

include arrives

/-- A word of the headers that nobody fills in is loaded as it was stored. -/
theorem load_wire {w : Nat} (whole : w % 8 = 0) (offset : Nat) {v : BitVec w}
    (inside : offset + w / 8 ≤ 28) (kept : ∀ i ∈ rewritten, i < offset ∨ offset + w / 8 ≤ i)
    (stored : ((wire order iph udph payload).drop offset).take (w / 8) = order.store v) :
    order.load w (block msg.buf offset (w / 8)) = v := by
  have room : offset + w / 8 ≤ (wire order iph udph payload).length := by
    rw [length_wire]
    omega
  rw [arrives.block offset (w / 8) room kept, stored, load_store whole]

/-- What a receiver reads of the IP header. -/
theorem deref_iphdr :
    (Iphdr.deref order msg.buf 0).ihl = iph.ihl ∧ (Iphdr.deref order msg.buf 0).id = iph.id ∧
      (Iphdr.deref order msg.buf 0).fragOff = iph.fragOff ∧
      (Iphdr.deref order msg.buf 0).saddr = iph.saddr ∧
      (Iphdr.deref order msg.buf 0).daddr = iph.daddr := by
  have first : order.load 8 (block msg.buf 0 1) = (iph.version ++ iph.ihl : BitVec 8) :=
    load_wire arrives rfl 0 (by decide) (by decide) (by cases order <;> rfl)
  refine ⟨?_, ?_, ?_, ?_, ?_⟩
  · show (order.load 8 (block msg.buf 0 1)).extractLsb' 0 4 = iph.ihl
    rw [first]
    exact BitVec.extractLsb'_append_eq_right
  · exact load_wire arrives rfl 4 (by decide) (by decide) (by cases order <;> rfl)
  · exact load_wire arrives rfl 6 (by decide) (by decide) (by cases order <;> rfl)
  · exact load_wire arrives rfl 12 (by decide) (by decide) (by cases order <;> rfl)
  · exact load_wire arrives rfl 16 (by decide) (by decide) (by cases order <;> rfl)

theorem deref_udphdr : Udphdr.deref order msg.buf 20 = udph := by
  have source : order.load 16 (block msg.buf 20 2) = udph.source :=
    load_wire arrives rfl 20 (by decide) (by decide) (by cases order <;> rfl)
  have dest : order.load 16 (block msg.buf 22 2) = udph.dest :=
    load_wire arrives rfl 22 (by decide) (by decide) (by cases order <;> rfl)
  have len : order.load 16 (block msg.buf 24 2) = udph.len :=
    load_wire arrives rfl 24 (by decide) (by decide) (by cases order <;> rfl)
  have check : order.load 16 (block msg.buf 26 2) = udph.check :=
    load_wire arrives rfl 26 (by decide) (by decide) (by cases order <;> rfl)
  simp only [Udphdr.deref, source, dest, len, check]

theorem block_payload : block msg.buf 28 payload.length = payload := by
  have behind : (wire order iph udph payload).drop 28 = payload := by cases order <;> rfl
  have front : ∀ i ∈ rewritten, i < 28 := by decide
  rw [arrives.block 28 payload.length (length_wire order iph udph payload).ge
    (fun i member => .inl (front i member)), behind, List.take_length]

end Layout

/-! ## The round trip -/

theorem bytes_packet (order : ByteOrder) (addr : Addr) (id : PacketId) (data : Mem) (l : Nat)
    (isControl : Bool) :
    (packet order addr id data l isControl).bytes =
      wire order (ipHeader order addr id isControl)
        { udpHeader order addr l with
          check := udpChecksum order (ipHeader order addr id isControl) (udpHeader order addr l)
            data l }
        (block data 0 l) := rfl

/-- What `send_packet` appends to the bytes of the queue. -/
theorem packetBuffers_sendPacket {κ : Type} (order : ByteOrder) (driver : Udp4Driver κ)
    (addr : Addr) (id : PacketId) (data : Mem) (l : Nat) (isControl : Bool) :
    (driver.sendPacket order addr id data l isControl).sendQueue.packetBuffers =
      driver.sendQueue.packetBuffers ++ (packet order addr id data l isControl).bytes :=
  (packet order addr id data l isControl).vectorInsert_eq _

namespace Udp4Driver

variable {κ : Type} (order : ByteOrder) (react : Call κ → Udp4Driver κ → Udp4Driver κ)

theorem recvAll_append (driver : Udp4Driver κ) (xs ys : List Received) :
    driver.recvAll order react (xs ++ ys) =
      let first := driver.recvAll order react xs
      let later := first.1.recvAll order react ys
      (later.1, first.2 ++ later.2) := by
  induction xs generalizing driver with
  | nil => rfl
  | cons msg rest ih =>
      simp only [List.cons_append, recvAll, ih, List.append_assoc]

/-- The call that a packet is for. -/
def expectedCall (id : PacketId) (data : Mem) (l : Nat) (isControl : Bool) (conn : κ) : Call κ where
  conn
  method := if isControl then .processControl else .processData
  id
  data := block data 0 l
  dataLen := BitVec.ofNat 64 l

/-- One packet makes one call, of the connection under the mirrored address. -/
theorem recvOne_packet {addr : Addr} {id : PacketId} {data : Mem} {l : Nat} {isControl : Bool}
    (fits : 28 + l ≤ 1500) (driver : Udp4Driver κ) {msg : Received}
    (arrives : Arrives (packet order addr id data l isControl).bytes msg) :
    driver.recvOne order react msg =
      match driver.connMap addr.mirrored with
      | none => (driver, [])
      | some conn =>
        let call := expectedCall id data l isControl conn
        (react call driver, [call]) := by
  rw [bytes_packet] at arrives
  obtain ⟨ihl, gotId, fragOff, saddr, daddr⟩ := deref_iphdr arrives
  have udph := deref_udphdr arrives
  have payload := block_payload arrives
  have length := arrives.length
  rw [length_block] at payload
  rw [length_wire, length_block] at length
  have dataLen : (order.htons (udpHeader order addr l).len).setWidth 64 - 8 = BitVec.ofNat 64 l := by
    rw [udpHeader, htons_htons]
    apply BitVec.eq_of_toNat_eq
    simp
    omega
  have udphAt : (Iphdr.deref order msg.buf 0).ihl.toNat * 4 = 20 := by
    rw [ihl]
    rfl
  have lengths : msg.msgLen.setWidth 64 = BitVec.ofNat 64 (20 + 8) + BitVec.ofNat 64 l := by
    apply BitVec.eq_of_toNat_eq
    simp
    omega
  have kind : (if (ipHeader order addr id isControl).fragOff &&& 0x080 = 0 then Method.processData
      else Method.processControl) =
        if isControl then Method.processControl else Method.processData := by
    cases isControl <;> simp [ipHeader]
  have size : (BitVec.ofNat 64 l).toNat = l := by
    simp
    omega
  unfold recvOne
  simp only [udphAt, udph, dataLen, lengths, ne_eq, not_true_eq_false, if_false, gotId, fragOff,
    saddr, daddr, kind, size]
  simp only [ipHeader, udpHeader, htons_htons, Nat.reduceAdd, payload]
  rfl

/-- **A packet that arrives makes exactly one call**, of the connection that the driver
has under the mirrored address at that time, with the kind, the id, the payload and the
length it was pushed with; without such a connection it makes none.  The other messages
received with it, before and after, are handled as without it. -/
theorem header_round_trip {κ' : Type} (sender : Udp4Driver κ') (addr : Addr) (id : PacketId)
    (data : Mem) (l : Nat) (isControl : Bool) (fits : 28 + l ≤ 1500) (receiver : Udp4Driver κ)
    (before after : List Received) (msg : Received)
    (arrives : Arrives
      ((sender.sendPacket order addr id data l isControl).sendQueue.packetBuffers.drop
        sender.sendQueue.packetBuffers.length) msg) :
    let met := receiver.recvAll order react before
    let calls := (receiver.recvAll order react (before ++ msg :: after)).2
    (∀ conn, met.1.connMap addr.mirrored = some conn →
      let call := expectedCall id data l isControl conn
      calls = met.2 ++ call :: ((react call met.1).recvAll order react after).2) ∧
    (met.1.connMap addr.mirrored = none →
      calls = met.2 ++ (met.1.recvAll order react after).2) := by
  rw [packetBuffers_sendPacket, List.drop_left] at arrives
  intro met calls
  have one := recvOne_packet order react fits met.1 arrives
  have all : calls = met.2 ++ ((met.1.recvOne order react msg).2 ++
      ((met.1.recvOne order react msg).1.recvAll order react after).2) := by
    simp only [calls, recvAll_append, recvAll, met]
  constructor
  · intro conn found
    rw [all, one, found]
    rfl
  · intro absent
    rw [all, one, absent]
    rfl

/-- Nothing happens to the bytes on a wire of one machine. -/
theorem arrives_addressOf {bytes : List UInt8} (short : bytes.length < 2 ^ 32) :
    Arrives bytes ⟨addressOf bytes, BitVec.ofNat 32 bytes.length⟩ where
  length := by
    rw [BitVec.toNat_ofNat, Nat.mod_eq_of_lt short]
  bytes i inside _ := by
    simp [addressOf, inside]

/-- Four bytes of control from port 12 to port 15, on a little-endian machine. -/
theorem header_round_trip_control :
    let addr : Addr := ⟨0x6801a8c0, 0x6801a8c0, 0x0c00, 0x0f00⟩
    let driver : Udp4Driver Nat := (⟨fun _ => none, {}⟩ : Udp4Driver Nat).attach addr.mirrored 2
    let bytes := (packet .little addr 1 (fun _ => 97) 4 true).bytes
    (driver.recvAll .little (fun _ d => d) [⟨addressOf bytes, BitVec.ofNat 32 bytes.length⟩]).2 =
      [⟨2, .processControl, 1, [97, 97, 97, 97], 4⟩] := by
  intro addr driver bytes
  have arrives : Arrives bytes ⟨addressOf bytes, BitVec.ofNat 32 bytes.length⟩ :=
    arrives_addressOf (show 32 < 2 ^ 32 by decide)
  exact (header_round_trip .little (fun _ d => d) (⟨fun _ => none, {}⟩ : Udp4Driver Nat) addr 1
    (fun _ => 97) 4 true (by decide) driver [] [] _ arrives).1 2 rfl

end Udp4Driver

end UdpStuff.Udp4
