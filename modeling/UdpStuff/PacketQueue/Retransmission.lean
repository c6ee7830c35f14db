/-
# PacketQueue.Retransmission — packets under new numbers

`move_packet_up` sends a packet on under the next number; `resolve_seq` follows
`seq_mapping` from an old number to the one that took its place, and the range loops go on
with that.  `told` is what such a mapping has to hold for a run of the sender: a packet
that was there goes on under the number that was taken for it.

A number is to be moved once only, since what it leaves behind is an empty packet
(`MovesOnce`).  Then every number resolves to the one that holds its packet now, over any
chain of retransmissions (`Current.run`), and a buffer is read back under the numbers that
it was pushed with (`retransmission_read_back`).
-/
import UdpStuff.PacketQueue.Reassembly
import UdpStuff.PacketQueue.Resolve
import UdpStuff.PacketQueue.SendRuns

namespace UdpStuff.PacketQueue

open Theory Theory.Links PacketSendQueue PacketRecvQueue SendCall Relation
open Std (ExtTreeMap)

set_option autoImplicit false

/-! ## What the receiver is told -/

abbrev SeqMapping := ExtTreeMap Seq Seq

/-- What a call adds to the mapping. -/
def SendCall.tells (q : PacketSendQueue) (m : SeqMapping) : SendCall → SeqMapping
  | .movePacketUp seq => if q.packets[seq]? = none then m else m.insert seq (q.endSeq + 1)
  | _ => m

/-- The mapping after the calls of a run. -/
def told (steals : Bool) : PacketSendQueue → SeqMapping → List SendCall → SeqMapping
  | _, m, [] => m
  | q, m, c :: rest => told steals (c.run steals q) (c.tells q m) rest

/-- No number is moved that was moved before, and none is cleared. -/
def MovesOnce (steals : Bool) : PacketSendQueue → SeqMapping → List SendCall → Prop
  | _, _, [] => True
  | q, m, c :: rest =>
      (match c with
        | .pushPacket _ => True
        | .movePacketUp seq => m[seq]? = none
        | .clearRange _ _ => False) ∧
      MovesOnce steals (c.run steals q) (c.tells q m) rest

/-- The number that took the place of a number. -/
def successor (m : SeqMapping) (seq : Seq) : Option Seq := m[seq]?

/-- Every packet that there was is under the number that its own leads to. -/
structure Current (start : PacketSendQueue) (q : PacketSendQueue) (m : SeqMapping) : Prop where
  numbered : Numbered q
  below : ∀ i j : Seq, m[i]? = some j → i.toNat ≤ q.endSeq.toNat
  held : ∀ (i : Seq) p, start.packets[i]? = some p → ∃ j,
    ReflTransGen (Link (successor m)) i j ∧ m[j]? = none ∧ q.packets[j]? = some p

namespace Current

variable {start q : PacketSendQueue} {m : SeqMapping}

theorem refl (numbered : Numbered q) : Current q q ∅ where
  numbered := numbered
  below := by simp
  held := fun i p stored => ⟨i, .refl, by simp, stored⟩

theorem unmapped_succ (current : Current start q m) (left : q.endSeq ≠ 65535) :
    m[q.endSeq + 1]? = none := by
  by_contra mapped
  obtain ⟨j, linked⟩ := Option.ne_none_iff_exists'.mp mapped
  have below := current.below _ j linked
  have next := succ_toNat left
  omega

theorem pushPacket (current : Current start q m) (left : q.endSeq ≠ 65535) (p : PacketDescr)
    (numbered : Numbered (q.emplaceNext p)) : Current start (q.emplaceNext p) m := by
  have next := succ_toNat left
  refine ⟨numbered, fun i j linked => ?_, fun i p' stored => ?_⟩
  · have below := current.below i j linked
    show i.toNat ≤ (q.endSeq + 1).toNat
    omega
  · obtain ⟨j, reached, last, there⟩ := current.held i p' stored
    refine ⟨j, reached, last, ?_⟩
    rw [emplaceNext_packets, if_neg, there]
    rintro rfl
    rw [next_free current.numbered left] at there
    cases there

theorem movePacketUp (current : Current start q m) (left : q.endSeq ≠ 65535) {steals : Bool}
    {seq : Seq} {moved : PacketDescr} (present : q.packets[seq]? = some moved)
    (once : m[seq]? = none) (numbered : Numbered (q.movePacketUp steals seq)) :
    Current start (q.movePacketUp steals seq) (m.insert seq (q.endSeq + 1)) := by
  have next := succ_toNat left
  have free := next_free current.numbered left
  have inUse := (current.numbered seq (by rw [present]; exact Option.some_ne_none _)).2
  have distinct : q.endSeq + 1 ≠ seq := by
    rintro same
    rw [← same] at inUse
    omega
  have keeps (i : Seq) (other : i ≠ seq) :
      successor (m.insert seq (q.endSeq + 1)) i = successor m i := by
    rw [successor, OrderedMap.getElem?_insert, if_neg other, successor]
  refine ⟨numbered, fun i j linked => ?_, fun i p stored => ?_⟩
  · rw [movePacketUp_endSeq, next]
    by_cases here : i = seq
    · rw [here]
      omega
    · rw [OrderedMap.getElem?_insert, if_neg here] at linked
      have below := current.below i j linked
      omega
  · obtain ⟨j, reached, last, there⟩ := current.held i p stored
    have reached' := reaches_update once keeps reached
    by_cases here : j = seq
    · -- the packet itself is moved
      subst here
      have link : Link (successor (m.insert j (q.endSeq + 1))) j (q.endSeq + 1) := by
        rw [Link, successor, OrderedMap.getElem?_insert, if_pos rfl]
      refine ⟨q.endSeq + 1, reached'.tail link, ?_, ?_⟩
      · rw [OrderedMap.getElem?_insert, if_neg distinct]
        exact current.unmapped_succ left
      · rw [movePacketUp_packets present free, if_pos rfl, ← present, there]
    · refine ⟨j, reached', ?_, ?_⟩
      · rw [OrderedMap.getElem?_insert, if_neg here, last]
      · rw [movePacketUp_packets present free, if_neg, if_neg here, there]
        rintro rfl
        rw [free] at there
        cases there

/-- A retransmission of a missing packet takes a number, and that is all. -/
theorem movePacketUp_missing (current : Current start q m) (left : q.endSeq ≠ 65535)
    {steals : Bool} {seq : Seq} (missing : q.packets[seq]? = none)
    (numbered : Numbered (q.movePacketUp steals seq)) :
    Current start (q.movePacketUp steals seq) m := by
  have next := succ_toNat left
  refine ⟨numbered, fun i j linked => ?_, ?_⟩
  · have below := current.below i j linked
    rw [movePacketUp_endSeq, next]
    omega
  · rw [PacketSendQueue.movePacketUp_missing missing]
    exact current.held

/-- **Over any run**, every packet stays under the number that its own leads to. -/
theorem run {steals : Bool} {calls : List SendCall} (current : Current start q m)
    (left : q.endSeq.toNat + numbersTaken calls ≤ 65535) (once : MovesOnce steals q m calls) :
    Current start (runAll steals q calls) (told steals q m calls) := by
  induction calls generalizing q m with
  | nil => exact current
  | cons c rest ih =>
      have split : numbersTaken (c :: rest) = numbersTaken [c] + numbersTaken rest :=
        numbersTaken_append [c] rest
      have one : q.endSeq.toNat + numbersTaken [c] ≤ 65535 := by omega
      have next := run_endSeq steals one
      have numbered := run_numbered steals current.numbered one
      refine ih ?_ (by rw [next]; omega) once.2
      cases c with
      | pushPacket payload =>
          have more : q.endSeq ≠ 65535 := fun last => by simp [last, numbersTaken] at one
          rw [SendCall.run, pushPacket_payload] at numbered ⊢
          exact current.pushPacket more payload numbered
      | movePacketUp seq =>
          have more : q.endSeq ≠ 65535 := fun last => by simp [last, numbersTaken] at one
          rw [tells]
          cases present : q.packets[seq]? with
          | none =>
              rw [if_pos rfl]
              exact current.movePacketUp_missing more present numbered
          | some moved =>
              rw [if_neg (Option.some_ne_none _)]
              exact current.movePacketUp more present once.1 numbered
      | clearRange start stop => exact absurd once.1 id

end Current

/-! ## Reading under the old numbers -/

/-- `resolve_seq` finds the number that a number leads to. -/
theorem PacketRecvQueue.resolveSeq_of_reaches {q : PacketRecvQueue} {i j : Seq}
    (reached : ReflTransGen (Link q.redirect) i j) (last : q.seqMapping[j]? = none) :
    q.resolveSeq i = some j := by
  obtain ⟨fuel, returns⟩ := follow_of_reaches reached last
  obtain ⟨found, resolved⟩ := resolveSeq_of_ends (ends_of_follow returns)
  have same := resolved
  rw [resolveSeq, resolveFrom_eq] at same
  rw [resolved, follow_unique returns same]

theorem numbersTaken_pushes (ps : List PacketDescr) :
    numbersTaken (ps.map .pushPacket) = ps.length := by
  induction ps with
  | nil => rfl
  | cons p ps ih => rw [List.map_cons, numbersTaken, ih, List.length_cons]

/-- **A buffer is read back under the numbers it was pushed with**, after any pushes and
retransmissions that move no number twice: the mapping that they make leads each number to where
its packet is now, and when the packets there have arrived the range loops give the buffer. -/
theorem retransmission_read_back {steals : Bool} {q : PacketSendQueue} (numbered : Numbered q)
    {data : List UInt8} (fits : data.length < 2 ^ 32) (evenSize : data.length % 2 = 0)
    (positive : 0 < q.mtu.toNat) (evenMtu : q.mtu.toNat % 2 = 0) {calls : List SendCall}
    (few : q.endSeq.toNat + packetCount q.mtu data.length + numbersTaken calls ≤ 65535)
    (once : MovesOnce steals (q.pushAll (bufferPackets q.mtu data)) ∅ calls) :
    ∃ q₁, q.pushBuffer data (BitVec.ofNat 32 data.length) = some q₁ ∧
      let start := q.endSeq + 1
      let stop := q.endSeq + 1 + BitVec.ofNat 16 (packetCount q.mtu data.length)
      ∀ rq : PacketRecvQueue, rq.seqMapping = told steals q₁ ∅ calls →
        (∀ i ∈ wrapRange start stop, ∀ j, rq.resolveSeq i = some j →
          rq.packets[j]? = (runAll steals q₁ calls).packets[j]?) →
        (∀ missing, rq.findMissingPackets start stop missing = some missing) ∧
        rq.computeRangeSize start stop = some (BitVec.ofNat 32 data.length) ∧
        ∀ mem, rq.copyData mem start stop =
          some ⟨memcpy mem 0 data, BitVec.ofNat 32 data.length, none⟩ := by
  have count := bufferPackets_length positive data
  have short : (bufferPackets q.mtu data).length < 2 ^ 16 := by omega
  have calls₁ := SendStep.pushAll_eq_runAll steals q (bufferPackets q.mtu data)
  have taken := (numbersTaken_pushes (bufferPackets q.mtu data)).trans count
  have left : q.endSeq.toNat + numbersTaken ((bufferPackets q.mtu data).map .pushPacket) ≤
      65535 := by
    rw [taken]
    omega
  obtain ⟨numbered₁, last₁⟩ := runAll_numbered steals numbered left
  rw [← calls₁] at numbered₁ last₁
  have free (k : Nat) (below : k < (bufferPackets q.mtu data).length) :
      q.packets[q.endSeq + 1 + BitVec.ofNat 16 k]? = none := by
    by_contra used
    have inUse := (numbered _ used).2
    rw [BitVec.add_assoc, BitVec.toNat_add, BitVec.toNat_add, BitVec.toNat_ofNat] at inUse
    rw [Nat.mod_eq_of_lt (by simp; omega)] at inUse
    simp at inUse
    omega
  refine ⟨_, pushBuffer_eq fits positive, ?_⟩
  intro start stop rq mapping arrived
  have current := (Current.refl numbered₁).run (by rw [last₁, taken]; omega) once
  have present : List.Forall₂ (fun i p => rq.lookup i = some (some p)) (wrapRange start stop)
      (bufferPackets q.mtu data) := by
    have range : wrapRange start stop = (List.range (bufferPackets q.mtu data).length).map
        fun k => q.endSeq + 1 + BitVec.ofNat 16 k := by
      rw [← wrapRange_ofNat _ short, count]
    rw [List.forall₂_iff_get]
    refine ⟨by rw [range, List.length_map, List.length_range], fun k below inside => ?_⟩
    have member : (wrapRange start stop).get ⟨k, below⟩ ∈ wrapRange start stop :=
      List.get_mem _ _
    have number : (wrapRange start stop).get ⟨k, below⟩ =
        q.endSeq + 1 + BitVec.ofNat 16 k := by
      simp only [List.get_eq_getElem, range, List.getElem_map, List.getElem_range]
    obtain ⟨j, reached, unlinked, held⟩ :=
      current.held _ _ (pushAll_packets short.le free inside)
    rw [← mapping] at unlinked
    have resolved : rq.resolveSeq ((wrapRange start stop).get ⟨k, below⟩) = some j := by
      rw [number]
      apply resolveSeq_of_reaches _ unlinked
      have same : rq.redirect = successor (told steals (q.pushAll (bufferPackets q.mtu data)) ∅
          calls) := by
        rw [← mapping]
        rfl
      rw [same]
      exact reached
    rw [lookup, resolved, Option.map_some, arrived _ member j resolved, held]
    rfl
  have whole := bufferPackets_dataBytes positive evenMtu evenSize
  have readers := readers_present present (whole.symm ▸ fits)
  rwa [whole] at readers

/-- The first of two packets is sent on as the third, and that as the fifth. -/
def movedTwice : List SendCall :=
  [.movePacketUp 1, .pushPacket (.make 1 [9]), .movePacketUp 3]

theorem retransmission_read_back_twice :
    ∃ q₁, PacketSendQueue.pushBuffer { mtu := 2 } [1, 2, 3, 4] 4 = some q₁ ∧
      let rq : PacketRecvQueue := {
        seqMapping := told false q₁ ∅ movedTwice
        packets := (runAll false q₁ movedTwice).packets }
      rq.resolveSeq 1 = some 5 ∧
        ∀ mem, rq.copyData mem 1 3 = some ⟨memcpy mem 0 [1, 2, 3, 4], 4, none⟩ := by
  have pieces : bufferPackets 2 [1, 2, 3, 4] = [.make 2 [1, 2], .make 2 [3, 4]] := by
    simp [bufferPackets, chunks, wholePacket, PacketDescr.make]
  have numbered : Numbered { mtu := 2 } := numbered_fresh
  have once : MovesOnce false (PacketSendQueue.pushAll { mtu := 2 }
      (bufferPackets 2 [1, 2, 3, 4])) ∅ movedTwice := by
    rw [pieces]
    exact ⟨by decide, trivial, by decide, trivial⟩
  have fits : [(1 : UInt8), 2, 3, 4].length < 2 ^ 32 := by decide
  obtain ⟨q₁, pushed, read⟩ := retransmission_read_back numbered fits (by decide) (by decide)
    (by decide) (by decide) once
  refine ⟨q₁, pushed, ?_, (read _ rfl fun _ _ _ _ => rfl).2.2⟩
  have same : q₁ = PacketSendQueue.pushAll { mtu := 2 } [.make 2 [1, 2], .make 2 [3, 4]] := by
    have eq := pushBuffer_eq (q := { mtu := 2 }) fits (by decide)
    rw [pieces] at eq
    exact Option.some.inj (pushed.symm.trans eq)
  rw [same]
  apply resolveSeq_of_reaches
  · have first : Link (successor (told false (PacketSendQueue.pushAll { mtu := 2 }
        [.make 2 [1, 2], .make 2 [3, 4]]) ∅ movedTwice)) 1 3 := by
      rw [Link, successor]
      decide
    have second : Link (successor (told false (PacketSendQueue.pushAll { mtu := 2 }
        [.make 2 [1, 2], .make 2 [3, 4]]) ∅ movedTwice)) 3 5 := by
      rw [Link, successor]
      decide
    exact .head first (.single second)
  · decide

end UdpStuff.PacketQueue
