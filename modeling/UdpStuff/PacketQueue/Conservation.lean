/-
# PacketQueue.Conservation — where each payload is

The abstract queue is a `Ledger`: the payloads pushed and not yet cleared, each
under the one number it was last sent with.  A retransmission renumbers its entry.
`Conserves q l` says the queue stores exactly the ledger.

The code moves the payload out of the old entry and leaves the entry: from then on
there is one entry more than payloads (`movePacketUp_breaks`).  Every other
operation keeps the ledger (`run_conserves`).  So a run of at most 65535 numbers
conserves its payloads exactly when no retransmission finds its packet
(`conservation_iff`).
-/
import UdpStuff.PacketQueue.SendRuns

namespace UdpStuff.PacketQueue

open Theory
open Std (ExtTreeMap)

set_option autoImplicit false

/-- Payloads pushed and not cleared, each with the number it is sent under. -/
structure Ledger where
  lastSeq : Seq := 0
  live : List (Seq × PacketDescr) := []

namespace Ledger

/-- What a call means for the payloads. -/
def call (l : Ledger) : SendCall → Ledger
  | .pushPacket payload => ⟨l.lastSeq + 1, l.live ++ [(l.lastSeq + 1, payload)]⟩
  | .movePacketUp seq =>
      ⟨l.lastSeq + 1, l.live.map fun e => if e.1 = seq then (l.lastSeq + 1, e.2) else e⟩
  | .clearRange start stop => { l with live := l.live.filter fun e => e.1 ∉ wrapRange start stop }

def callAll (l : Ledger) (calls : List SendCall) : Ledger := calls.foldl call l

end Ledger

/-- The queue stores exactly the ledger: every live payload under its number and no
two under one, nothing else, and as many entries as payloads. -/
structure Conserves (q : PacketSendQueue) (l : Ledger) : Prop where
  lastSeq : q.endSeq = l.lastSeq
  numbers : (l.live.map Prod.fst).Nodup
  stored : ∀ e ∈ l.live, q.packets[e.1]? = some e.2
  carried : ∀ (i : Seq) (p : PacketDescr), q.packets[i]? = some p → (i, p) ∈ l.live
  count : q.packetsCount = l.live.length

/-- The call retransmits nothing: its packet is not in the queue. -/
def SendCall.NothingToMove (q : PacketSendQueue) : SendCall → Prop
  | .movePacketUp seq => q.packets[seq]? = none
  | _ => True

open PacketSendQueue SendCall

namespace Conserves

/-- The count follows from the entries. -/
theorem of_holds {q : PacketSendQueue} {l : Ledger} (lastSeq : q.endSeq = l.lastSeq)
    (numbers : (l.live.map Prod.fst).Nodup)
    (holds : ∀ (i : Seq) (p : PacketDescr), q.packets[i]? = some p ↔ (i, p) ∈ l.live) :
    Conserves q l where
  lastSeq := lastSeq
  numbers := numbers
  stored := fun e live => (holds e.1 e.2).mpr live
  carried := fun i p stored => (holds i p).mp stored
  count := OrderedMap.size_eq_length numbers holds

theorem fresh : Conserves {} {} := by
  refine of_holds rfl List.nodup_nil fun i p => ?_
  simp

theorem holds {q : PacketSendQueue} {l : Ledger} (c : Conserves q l) (i : Seq)
    (p : PacketDescr) : q.packets[i]? = some p ↔ (i, p) ∈ l.live :=
  ⟨c.carried i p, c.stored (i, p)⟩

theorem absent {q : PacketSendQueue} {l : Ledger} (c : Conserves q l) {i : Seq}
    (free : q.packets[i]? = none) : i ∉ l.live.map Prod.fst := by
  intro member
  obtain ⟨e, live, rfl⟩ := List.mem_map.mp member
  rw [c.stored e live] at free
  cases free

/-- A push adds one payload under the next number. -/
theorem pushPacket {q : PacketSendQueue} {l : Ledger} (c : Conserves q l)
    (free : q.packets[q.endSeq + 1]? = none) (p : PacketDescr) :
    Conserves (q.emplaceNext p) (l.call (.pushPacket p)) := by
  have new := c.absent free
  rw [c.lastSeq] at new
  refine of_holds (congrArg (· + 1) c.lastSeq) ?_ fun i found => ?_
  · simp only [Ledger.call, List.map_append, List.map_cons, List.map_nil]
    exact c.numbers.append (List.nodup_singleton _) (List.disjoint_singleton.mpr new)
  · rw [emplaceNext_packets, free, Option.getD_none, Ledger.call, List.mem_append,
      List.mem_singleton, ← c.lastSeq]
    by_cases next : i = q.endSeq + 1
    · have unused : (i, found) ∉ l.live := by
        rw [← c.holds, next, free]
        simp
      simp only [next, if_pos, Option.some.injEq, Prod.mk.injEq, true_and]
      rw [next] at unused
      simp only [unused, false_or, eq_comm]
    · rw [if_neg next, c.holds]
      simp only [Prod.mk.injEq, next, false_and, or_false]

/-- A retransmission that finds nothing only takes a number. -/
theorem movePacketUp_missing {q : PacketSendQueue} {l : Ledger} (c : Conserves q l) {seq : Seq}
    (missing : q.packets[seq]? = none) (steals : Bool) :
    Conserves (q.movePacketUp steals seq) (l.call (.movePacketUp seq)) := by
  have other : ∀ e ∈ l.live, e.1 ≠ seq := fun e live same =>
    c.absent missing (same ▸ List.mem_map_of_mem live)
  have unmoved : (l.live.map fun e => if e.1 = seq then (l.lastSeq + 1, e.2) else e) = l.live := by
    conv_rhs => rw [← List.map_id l.live]
    exact List.map_congr_left fun e live => if_neg (other e live)
  rw [PacketSendQueue.movePacketUp_missing missing]
  refine of_holds (congrArg (· + 1) c.lastSeq) ?_ fun i found => ?_
  · rw [Ledger.call, unmoved]
    exact c.numbers
  · rw [Ledger.call, unmoved]
    exact c.holds i found

theorem clearRange {q : PacketSendQueue} {l : Ledger} (c : Conserves q l) (start stop : Seq) :
    Conserves (q.clearRange start stop) (l.call (.clearRange start stop)) := by
  refine of_holds ((clearRange_endSeq q start stop).trans c.lastSeq) ?_ fun i found => ?_
  · exact List.Nodup.sublist (List.filter_sublist.map Prod.fst) c.numbers
  · rw [clearRange_packets, Ledger.call, List.mem_filter]
    by_cases cleared : i ∈ wrapRange start stop
    · simp [cleared]
    · simp [cleared, c.holds]

/-- **A retransmission that finds its packet leaves the old entry behind**: one
entry more, the payloads unchanged. -/
theorem movePacketUp_breaks {q : PacketSendQueue} {l : Ledger} (c : Conserves q l) {seq : Seq}
    (present : q.packets[seq]? ≠ none) (free : q.packets[q.endSeq + 1]? = none) (steals : Bool) :
    ¬ Conserves (q.movePacketUp steals seq) (l.call (.movePacketUp seq)) := by
  intro after
  obtain ⟨p, stored⟩ := Option.ne_none_iff_exists'.mp present
  have entries := after.count
  have before := c.count
  have distinct : seq ≠ q.endSeq + 1 := by
    rintro rfl
    exact present free
  have size : ((q.packets.insert seq .movedFrom).insert (q.endSeq + 1) p).size =
      q.packets.size + 1 := by
    have old : q.packets.contains seq = true := by
      rw [ExtTreeMap.contains_eq_isSome_getElem?, stored]
      rfl
    have new : (q.packets.insert seq .movedFrom).contains (q.endSeq + 1) = false := by
      rw [ExtTreeMap.contains_eq_isSome_getElem?, ExtTreeMap.getElem?_insert, if_neg, free]
      · rfl
      · rwa [Std.LawfulEqCmp.compare_eq_iff_eq]
    rw [ExtTreeMap.size_insert, new, ExtTreeMap.size_insert, old]
    rfl
  rw [packetsCount, PacketSendQueue.movePacketUp_present stored free, size, Ledger.call,
    List.length_map] at entries
  rw [packetsCount] at before
  omega

/-- A call that moves nothing keeps the ledger, while numbers are left. -/
theorem run {q : PacketSendQueue} {l : Ledger} (c : Conserves q l) (numbered : Numbered q)
    (steals : Bool) {call : SendCall} (left : q.endSeq.toNat + numbersTaken [call] ≤ 65535)
    (quiet : call.NothingToMove q) : Conserves (call.run steals q) (l.call call) := by
  cases call with
  | pushPacket payload =>
      have more : q.endSeq ≠ 65535 := fun last => by simp [last, numbersTaken] at left
      rw [SendCall.run, pushPacket_payload]
      exact c.pushPacket (next_free numbered more) payload
  | movePacketUp seq => exact c.movePacketUp_missing quiet steals
  | clearRange start stop => exact c.clearRange start stop

theorem runAll {q : PacketSendQueue} {l : Ledger} (c : Conserves q l) (numbered : Numbered q)
    (steals : Bool) {calls : List SendCall} (left : q.endSeq.toNat + numbersTaken calls ≤ 65535)
    (quiet : Throughout steals NothingToMove q calls) :
    Conserves (SendCall.runAll steals q calls) (l.callAll calls) := by
  induction calls generalizing q l with
  | nil => exact c
  | cons call rest ih =>
      have split : numbersTaken (call :: rest) = numbersTaken [call] + numbersTaken rest :=
        numbersTaken_append [call] rest
      have one : q.endSeq.toNat + numbersTaken [call] ≤ 65535 := by omega
      have next := run_endSeq steals one
      exact ih (c.run numbered steals one quiet.1) (run_numbered steals numbered one)
        (by rw [next]; omega) quiet.2

end Conserves

theorem throughout_pushes (steals : Bool) (q : PacketSendQueue) (ps : List PacketDescr) :
    Throughout steals NothingToMove q (ps.map .pushPacket) := by
  induction ps generalizing q with
  | nil => trivial
  | cons p rest ih => exact ⟨trivial, ih _⟩

/-- The first retransmission that finds its packet shows in the state after it. -/
theorem quiet_of_conserves (steals : Bool) {q : PacketSendQueue} (l : Ledger)
    (numbered : Numbered q) {steps : List SendStep}
    (left : q.endSeq.toNat + numbersTaken (SendStep.freshCalls steps) ≤ 65535)
    (conserved : ∀ pre, pre <+: steps →
      Conserves (SendCall.runAll steals q (SendStep.freshCalls pre))
        (l.callAll (SendStep.freshCalls pre))) :
    Throughout steals NothingToMove q (SendStep.freshCalls steps) := by
  induction steps generalizing q l with
  | nil => trivial
  | cons step rest ih =>
      have now : Conserves q l := conserved [] List.nil_prefix
      have calls : SendStep.freshCalls (step :: rest) =
          step.calls 1024 ++ SendStep.freshCalls rest := rfl
      rw [calls, numbersTaken_append] at left
      rw [calls, throughout_append]
      constructor
      · cases step with
        | pushBuffer buffer => exact throughout_pushes steals q _
        | call c =>
            refine ⟨?_, trivial⟩
            cases c with
            | pushPacket payload => trivial
            | clearRange start stop => trivial
            | movePacketUp seq =>
                by_contra present
                have more : q.endSeq ≠ 65535 := by
                  intro last
                  simp [last, SendStep.calls, numbersTaken] at left
                exact now.movePacketUp_breaks present (next_free numbered more) steals
                  (conserved [.call (.movePacketUp seq)] (by simp))
      · have first : q.endSeq.toNat + numbersTaken (step.calls 1024) ≤ 65535 := by omega
        obtain ⟨after, total⟩ := runAll_numbered steals numbered first
        refine ih (l.callAll (step.calls 1024)) after (by rw [total]; omega) fun pre inside => ?_
        have := conserved (step :: pre) (List.cons_prefix_cons.mpr ⟨rfl, inside⟩)
        rwa [show SendStep.freshCalls (step :: pre) =
          step.calls 1024 ++ SendStep.freshCalls pre from rfl, runAll_append,
          Ledger.callAll, List.foldl_append] at this

/-- **Payloads are conserved in every state a run from a fresh queue reaches exactly
when none of its retransmissions finds its packet**, for runs that take at most
65535 numbers. -/
theorem conservation_iff (steals : Bool) {steps : List SendStep}
    (few : numbersTaken (SendStep.freshCalls steps) ≤ 65535) :
    (∀ pre, pre <+: steps → ∃ q, SendStep.runAll steals {} pre = some q ∧
        Conserves q (Ledger.callAll {} (SendStep.freshCalls pre))) ↔
      Throughout steals NothingToMove {} (SendStep.freshCalls steps) := by
  constructor
  · intro conserved
    refine quiet_of_conserves steals {} numbered_fresh (by simpa using few) fun pre inside => ?_
    obtain ⟨q, reached, c⟩ := conserved pre inside
    rw [SendStep.runAll_fresh, Option.some.injEq] at reached
    exact reached ▸ c
  · rintro quiet pre ⟨suf, rfl⟩
    refine ⟨_, SendStep.runAll_fresh steals pre, ?_⟩
    have split : SendStep.freshCalls (pre ++ suf) =
        SendStep.freshCalls pre ++ SendStep.freshCalls suf := List.flatMap_append
    rw [split, throughout_append] at quiet
    rw [split, numbersTaken_append] at few
    refine Conserves.fresh.runAll numbered_fresh steals ?_ quiet.1
    simp only [BitVec.ofNat_eq_ofNat, BitVec.toNat_ofNat]
    omega

/-- A run that conserves: two payloads, a retransmission of a number not there, and
the first payload cleared. -/
theorem conservation_without_moves : ∃ q,
    SendStep.runAll false {} [.call (.pushPacket (.make 2 [1, 2])),
      .pushBuffer (.make 2 [3, 4]), .call (.movePacketUp 9), .call (.clearRange 1 2)] = some q ∧
    Conserves q ⟨3, [(2, .make 2 [3, 4])]⟩ := by
  let steps : List SendStep := [.call (.pushPacket (.make 2 [1, 2])),
    .pushBuffer (.make 2 [3, 4]), .call (.movePacketUp 9), .call (.clearRange 1 2)]
  have pieces : bufferPackets 1024 [3, 4] = [.make 2 [3, 4]] := by
    rw [bufferPackets, chunks_cons (by decide) (by decide)]
    simp [wholePacket, PacketDescr.make]
  have calls : SendStep.freshCalls steps = [.pushPacket (.make 2 [1, 2]),
      .pushPacket (.make 2 [3, 4]), .movePacketUp 9, .clearRange 1 2] := by
    simp only [steps, SendStep.freshCalls, SendStep.calls, List.flatMap_cons, List.flatMap_nil]
    rw [show (PacketDescr.make 2 [3, 4]).data = [3, 4] from rfl, pieces]
    rfl
  have few : numbersTaken (SendStep.freshCalls steps) ≤ 65535 := by
    rw [calls]
    decide
  have ledger : Ledger.callAll {} (SendStep.freshCalls steps) = ⟨3, [(2, .make 2 [3, 4])]⟩ := by
    rw [calls]
    rfl
  have quiet : Throughout false NothingToMove {} (SendStep.freshCalls steps) := by
    rw [calls]
    exact ⟨trivial, trivial, by rw [NothingToMove]; decide, trivial, trivial⟩
  exact ledger ▸ (conservation_iff false few).mpr quiet steps List.prefix_rfl

/-- **Refuted**: a payload retransmitted once leaves two entries. -/
theorem conservation_refuted :
    ¬ ∀ (steals : Bool) (steps : List SendStep),
      numbersTaken (SendStep.freshCalls steps) ≤ 65535 →
      ∀ pre, pre <+: steps → ∃ q, SendStep.runAll steals {} pre = some q ∧
        Conserves q (Ledger.callAll {} (SendStep.freshCalls pre)) := by
  intro always
  obtain ⟨q, reached, conserved⟩ := always false
    [.call (.pushPacket (.make 2 [1, 2])), .call (.movePacketUp 1)] (by decide) _ List.prefix_rfl
  have count := conserved.count
  rw [SendStep.runAll_fresh, Option.some.injEq] at reached
  rw [← reached] at count
  revert count
  decide

end UdpStuff.PacketQueue
