/-
# PacketQueue.Window — moving the receive window

`move_seq` clears the numbers from the window's start up to the new one, which may lie
beyond 65535, and starts the window there.

`window_move`: the loop ends, exactly the entries of the numbers in between are gone from
both maps, and moving twice is moving once as long as it is less than a full turn.
-/
import UdpStuff.PacketQueue.StaleData

namespace UdpStuff.PacketQueue

open Theory
open Std (ExtTreeMap)

set_option autoImplicit false

namespace PacketRecvQueue

/-- `clear_range` as a loop, given up after `fuel` tests. -/
def clearRangeFor (fuel : Nat) (q : PacketRecvQueue) (start stop : Seq) : Option PacketRecvQueue :=
  forLoop clearAt stop fuel start q

def moveSeqFor (fuel : Nat) (q : PacketRecvQueue) (newSeq : Seq) : Option PacketRecvQueue :=
  (q.clearRangeFor fuel q.startSeq newSeq).map fun q => { q with startSeq := newSeq }

/-- One test for every number is enough. -/
theorem moveSeqFor_eq {fuel : Nat} (enough : 2 ^ 16 ≤ fuel) (q : PacketRecvQueue) (newSeq : Seq) :
    q.moveSeqFor fuel newSeq = some (q.moveSeq newSeq) := by
  have short : (newSeq - q.startSeq).toNat < fuel := (newSeq - q.startSeq).isLt.trans_le enough
  rw [moveSeqFor, clearRangeFor, forLoop_eq clearAt short, Option.map_some]
  rfl

theorem moveSeq_seqMapping (q : PacketRecvQueue) (newSeq i : Seq) :
    (q.moveSeq newSeq).seqMapping[i]? =
      if i ∈ wrapRange q.startSeq newSeq then none else q.seqMapping[i]? :=
  clearRange_seqMapping q q.startSeq newSeq i

theorem clearRange_endSeq (q : PacketRecvQueue) (start stop : Seq) :
    (q.clearRange start stop).endSeq = q.endSeq := by
  rw [clearRange]
  induction wrapRange start stop generalizing q with
  | nil => rfl
  | cons i rest ih => exact (ih (q.clearAt i)).trans rfl

/-- Queues are the same if they hold the same under every number. -/
theorem ext_of_entries {q r : PacketRecvQueue} (start : q.startSeq = r.startSeq)
    (stop : q.endSeq = r.endSeq) (packets : ∀ i : Seq, q.packets[i]? = r.packets[i]?)
    (mapping : ∀ i : Seq, q.seqMapping[i]? = r.seqMapping[i]?) : q = r := by
  cases q
  cases r
  have samePackets := ExtTreeMap.ext_getElem? packets
  have sameMapping := ExtTreeMap.ext_getElem? mapping
  dsimp only at start stop samePackets sameMapping
  rw [start, stop, samePackets, sameMapping]

/-- What is cleared in two parts is cleared once. -/
theorem cleared_twice {β : Type} {all first later : Prop} [Decidable all] [Decidable first]
    [Decidable later] (cut : all ↔ first ∨ later) (entry : Option β) :
    (if later then none else if first then none else entry) = if all then none else entry := by
  by_cases cleared : first
  · rw [if_pos cleared, if_pos (cut.mpr (.inl cleared)), ite_self]
  · rw [if_neg cleared]
    exact if_congr ⟨fun here => cut.mpr (.inr here), fun here => (cut.mp here).resolve_left cleared⟩
      rfl rfl

/-- Two moves, of less than a full turn together, are one. -/
theorem moveSeq_moveSeq (q : PacketRecvQueue) {a b : Nat} (short : a + b < 2 ^ 16) :
    (q.moveSeq (q.startSeq + BitVec.ofNat 16 a)).moveSeq (q.startSeq + BitVec.ofNat 16 (a + b)) =
      q.moveSeq (q.startSeq + BitVec.ofNat 16 (a + b)) := by
  have cut := mem_wrapRange_append q.startSeq short
  have start : (q.moveSeq (q.startSeq + BitVec.ofNat 16 a)).startSeq =
      q.startSeq + BitVec.ofNat 16 a := rfl
  refine ext_of_entries rfl ?_ (fun i => ?_) fun i => ?_
  · simp only [moveSeq, clearRange_endSeq]
  · rw [moveSeq_packets, moveSeq_packets, moveSeq_packets, start]
    exact cleared_twice (cut i) _
  · rw [moveSeq_seqMapping, moveSeq_seqMapping, moveSeq_seqMapping, start]
    exact cleared_twice (cut i) _

/-- **Moving the window**: the loop ends, and exactly the entries of the numbers that the
window leaves behind are gone; moves add up below a full turn. -/
theorem window_move (q : PacketRecvQueue) :
    (∀ newSeq : Seq, (∃ fuel, q.moveSeqFor fuel newSeq = some (q.moveSeq newSeq)) ∧
      (q.moveSeq newSeq).startSeq = newSeq ∧ (q.moveSeq newSeq).endSeq = q.endSeq ∧
      (∀ k : Seq, (q.moveSeq newSeq).packets[k]? =
        if (k - q.startSeq).toNat < (newSeq - q.startSeq).toNat then none else q.packets[k]?) ∧
      ∀ k : Seq, (q.moveSeq newSeq).seqMapping[k]? =
        if (k - q.startSeq).toNat < (newSeq - q.startSeq).toNat then none
        else q.seqMapping[k]?) ∧
    ∀ a b : Nat, a + b < 2 ^ 16 →
      (q.moveSeq (q.startSeq + BitVec.ofNat 16 a)).moveSeq
          (q.startSeq + BitVec.ofNat 16 (a + b)) =
        q.moveSeq (q.startSeq + BitVec.ofNat 16 (a + b)) := by
  refine ⟨fun newSeq => ⟨⟨2 ^ 16, moveSeqFor_eq le_rfl q newSeq⟩, rfl, clearRange_endSeq q _ _,
    fun k => ?_, fun k => ?_⟩, fun a b short => moveSeq_moveSeq q short⟩
  · simp only [moveSeq_packets, mem_wrapRange]
  · simp only [moveSeq_seqMapping, mem_wrapRange]

end PacketRecvQueue

end UdpStuff.PacketQueue
