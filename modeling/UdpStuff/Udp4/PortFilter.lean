/-
# Udp4.PortFilter — the socket filter and the receiver

`filter_udp_port` compares the half word at byte 22 of a packet with a range of ports:
`port_start` is subtracted, and what wraps is larger than any range
(`accepts_range_iff`).  `recv_all` reads the port behind the header that the packet
names, which is at byte 22 if the header has no options.

`filter_agrees_iff`: the two agree exactly on the packets whose two numbers are on the
same side of the range, and on a packet for every range exactly if they are equal.
-/
import UdpStuff.Theory.Bpf
import UdpStuff.Udp4.ReceiveBounds

namespace UdpStuff.Udp4

open Theory ByteOrder

set_option autoImplicit false

/-! ## The filter -/

/-- `sizeof(iphdr) + FIELD_POS(udphdr, dest)` -/
def destPos : BitVec 32 := 20 + 2

def BPF_ACCEPT : BitVec 32 := -1

def BPF_DROP : BitVec 32 := 0

/-- `filter_udp_port` for one port. -/
def filterUdpPort (port : BitVec 16) : List Bpf.SockFilter :=
  [.stmt .ldh destPos,
    .jump .jeq (port.setWidth 32) 1 0,
    .stmt .ret BPF_DROP,
    .stmt .ret BPF_ACCEPT]

/-- `filter_udp_port` for a range. -/
def filterUdpPortRange (portStart portEnd : BitVec 16) : List Bpf.SockFilter :=
  let portRangeLen : BitVec 32 := portEnd.setWidth 32 - portStart.setWidth 32
  [.stmt .ldh destPos,
    .stmt .sub (portStart.setWidth 32),
    .jump .jgt portRangeLen 0 1,
    .stmt .ret BPF_DROP,
    .stmt .ret BPF_ACCEPT]

/-- The half word of a packet at byte 22. -/
def filteredPort (packet : List UInt8) : BitVec 16 := load .big 16 ((packet.drop 22).take 2)

section Accepts

variable {packet : List UInt8} (long : 24 ≤ packet.length)

include long

theorem run_load (code : List Bpf.SockFilter) :
    Bpf.run packet (.stmt .ldh destPos :: code) 0 =
      Bpf.run packet code ((filteredPort packet).setWidth 32) := Bpf.run_ldh long

theorem accepts_port_iff {port : BitVec 16} :
    Bpf.Accepts packet (filterUdpPort port) ↔ filteredPort packet = port := by
  have same : (filteredPort packet).setWidth 32 = port.setWidth 32 ↔
      filteredPort packet = port := by
    have fits := (filteredPort packet).isLt
    have fits' := port.isLt
    rw [← BitVec.toNat_inj, ← BitVec.toNat_inj, BitVec.toNat_setWidth, BitVec.toNat_setWidth]
    omega
  apply Bpf.accepts_iff (show BPF_ACCEPT ≠ 0 by decide)
  rw [filterUdpPort, run_load long, Bpf.run_jeq]
  by_cases equal : filteredPort packet = port
  · rw [if_pos equal, if_pos (same.mpr equal)]
    exact Bpf.run_ret
  · rw [if_neg equal, if_neg (mt same.mp equal)]
    exact Bpf.run_ret

/-- The difference wraps around exactly below the range. -/
theorem accepts_range_iff {portStart portEnd : BitVec 16} (order : portStart ≤ portEnd) :
    Bpf.Accepts packet (filterUdpPortRange portStart portEnd) ↔
      portStart ≤ filteredPort packet ∧ filteredPort packet ≤ portEnd := by
  have beyond : (filteredPort packet).setWidth 32 - portStart.setWidth 32 >
      portEnd.setWidth 32 - (portStart.setWidth 32 : BitVec 32) ↔
        ¬ (portStart ≤ filteredPort packet ∧ filteredPort packet ≤ portEnd) := by
    have fits := (filteredPort packet).isLt
    have fits' := portEnd.isLt
    have order : portStart.toNat ≤ portEnd.toNat := order
    rw [gt_iff_lt, BitVec.lt_def, BitVec.le_def, BitVec.le_def, BitVec.toNat_sub, BitVec.toNat_sub,
      BitVec.toNat_setWidth, BitVec.toNat_setWidth, BitVec.toNat_setWidth]
    omega
  apply Bpf.accepts_iff (show BPF_ACCEPT ≠ 0 by decide)
  rw [filterUdpPortRange, run_load long, Bpf.run_sub, Bpf.run_jgt]
  by_cases inRange : portStart ≤ filteredPort packet ∧ filteredPort packet ≤ portEnd
  · rw [if_pos inRange, if_neg (fun above => beyond.mp above inRange)]
    exact Bpf.run_ret
  · rw [if_neg inRange, if_pos (beyond.mpr inRange)]
    exact Bpf.run_ret

end Accepts

/-! ## The receiver -/

/-- What `recvmmsg` fills in: a packet, cut to the size of the buffer, in front of what
the buffer held. -/
def received (stale : Mem) (packet : List UInt8) : Received :=
  let bytes := packet.take 1500
  ⟨memcpy stale 0 bytes, BitVec.ofNat 32 bytes.length⟩

/-- The port that `recv_all` reads. -/
def destPort (order : ByteOrder) (msg : Received) : BitVec 16 :=
  order.htons (msg.peer order).srcPort

/-- A packet with a header of 5 to 15 words and a UDP header behind it. -/
structure IsUdp (order : ByteOrder) (stale : Mem) (packet : List UInt8) : Prop where
  ihl : 5 * 4 ≤ (received stale packet).udphAt order
  header : (received stale packet).udphAt order + 8 ≤ packet.length

variable {order : ByteOrder} {stale : Mem} {packet : List UInt8}

theorem htons_load (bs : List UInt8) (length : bs.length = 2) :
    order.htons (order.load 16 bs) = load .big 16 bs := by
  have loaded : order.load 16 bs = order.htons (load .big 16 bs) := by
    rw [htons, store_load rfl .big length]
  rw [loaded, htons_htons]

/-- Two bytes behind the begin of the UDP header. -/
theorem destPort_received (udp : IsUdp order stale packet) :
    destPort order (received stale packet) =
      load .big 16 ((packet.drop ((received stale packet).udphAt order + 2)).take 2) := by
  have header := udp.header
  have near := (received stale packet).udphAt_le order
  have inside : (received stale packet).udphAt order + 2 + 2 ≤ (packet.take 1500).length := by
    rw [List.length_take]
    omega
  have bytes : block (received stale packet).buf ((received stale packet).udphAt order + 2) 2 =
      (packet.drop ((received stale packet).udphAt order + 2)).take 2 := by
    have filled := block_memcpy stale 0 inside
    rw [Nat.zero_add, List.drop_take, List.take_take, Nat.min_eq_left (by omega)] at filled
    exact filled
  show order.htons (order.load 16 (block _ _ 2)) = _
  rw [htons_load _ (length_block _ _ _), bytes]

/-- The filter takes the packet if and only if `recv_all` reads a port of the range. -/
def FilterAgrees (order : ByteOrder) (stale : Mem) (packet : List UInt8)
    (portStart portEnd : BitVec 16) : Prop :=
  let port := destPort order (received stale packet)
  Bpf.Accepts packet (filterUdpPortRange portStart portEnd) ↔ portStart ≤ port ∧ port ≤ portEnd

theorem IsUdp.long (udp : IsUdp order stale packet) : 24 ≤ packet.length := by
  have ihl := udp.ihl
  have header := udp.header
  omega

theorem filterAgrees_iff_sides (udp : IsUdp order stale packet) {portStart portEnd : BitVec 16}
    (ordered : portStart ≤ portEnd) :
    FilterAgrees order stale packet portStart portEnd ↔
      (portStart ≤ filteredPort packet ∧ filteredPort packet ≤ portEnd ↔
        portStart ≤ destPort order (received stale packet) ∧
          destPort order (received stale packet) ≤ portEnd) := by
  unfold FilterAgrees
  rw [accepts_range_iff udp.long ordered]

/-- The range of the one port that the filter sees tells the two apart. -/
theorem filterAgrees_all_iff (udp : IsUdp order stale packet) :
    (∀ portStart portEnd, portStart ≤ portEnd →
        FilterAgrees order stale packet portStart portEnd) ↔
      filteredPort packet = destPort order (received stale packet) := by
  constructor
  · intro agrees
    have le : filteredPort packet ≤ filteredPort packet := BitVec.le_refl _
    have sides := (filterAgrees_iff_sides udp le).mp (agrees _ _ le)
    obtain ⟨above, below⟩ := sides.mp ⟨le, le⟩
    exact BitVec.le_antisymm above below
  · intro equal portStart portEnd ordered
    rw [filterAgrees_iff_sides udp ordered, equal]

/-- **Filter and receiver agree exactly if both ports are inside of the range, or both
outside.**  A packet is treated alike for every range exactly if the two are equal, as
they are without options. -/
theorem filter_agrees_iff (order : ByteOrder) (stale : Mem) (packet : List UInt8)
    (udp : IsUdp order stale packet) :
    let port := destPort order (received stale packet)
    (∀ portStart portEnd, portStart ≤ portEnd →
      (FilterAgrees order stale packet portStart portEnd ↔
        (portStart ≤ filteredPort packet ∧ filteredPort packet ≤ portEnd ↔
          portStart ≤ port ∧ port ≤ portEnd))) ∧
    ((∀ portStart portEnd, portStart ≤ portEnd →
        FilterAgrees order stale packet portStart portEnd) ↔ filteredPort packet = port) ∧
    ((received stale packet).udphAt order = 20 → filteredPort packet = port) := by
  refine ⟨fun _ _ ordered => filterAgrees_iff_sides udp ordered, filterAgrees_all_iff udp, ?_⟩
  intro plain
  rw [destPort_received udp, plain]
  rfl

/-- Four bytes for port 15, behind a header of five words. -/
theorem filter_agrees_plain :
    let packet : List UInt8 := [0x45, 0, 0, 32, 0, 1, 0, 0, 128, 17, 0, 0, 127, 0, 0, 1,
      127, 0, 0, 1, 0, 12, 0, 15, 0, 12, 0, 0, 112, 105, 110, 103]
    FilterAgrees .little (fun _ => 0) packet 10 50 := by
  intro packet
  have udp : IsUdp .little (fun _ => 0) packet := ⟨by decide, by decide⟩
  obtain ⟨-, all, equal⟩ := filter_agrees_iff .little (fun _ => 0) packet udp
  exact all.mpr (equal (by decide)) 10 50 (by decide)

/-- Options of four bytes: the filter drops a packet for port 15. -/
theorem filter_agrees_refuted :
    ¬ ∀ (stale : Mem) (packet : List UInt8), IsUdp .little stale packet →
      ∀ portStart portEnd, portStart ≤ portEnd →
        FilterAgrees .little stale packet portStart portEnd := by
  intro all
  let packet : List UInt8 := [0x46, 0, 0, 36, 0, 1, 0, 0, 128, 17, 0, 0, 127, 0, 0, 1,
    127, 0, 0, 1, 1, 1, 1, 0, 0, 12, 0, 15, 0, 12, 0, 0, 112, 105, 110, 103]
  have udp : IsUdp .little (fun _ => 0) packet := ⟨by decide, by decide⟩
  have sides := (filterAgrees_iff_sides udp (by decide)).mp (all _ packet udp 10 50 (by decide))
  exact absurd (sides.mpr (by decide)) (by decide)

end UdpStuff.Udp4
