/-
# PacketQueue.StaleData — late duplicates and the next round of numbers

`move_seq` clears the numbers the window leaves behind; `push_packet` stores
whatever comes, also a late duplicate of a number already passed.  Nothing clears
that number before the window passes it again, one round of 65536 later, and the
new packet of that round finds it taken.

`run_packets` is the whole story of one number: between two passes of the window
the first packet pushed under it stays.  So after a pass the new packet is the
one read back exactly when no late duplicate came first, or the first one has the
same bytes (`newPacket_read_iff`); `noStaleData_refuted` is a run where it is not.
-/
import UdpStuff.PacketQueue.Reassembly

namespace UdpStuff.PacketQueue

open Theory
open Std (ExtTreeMap)

set_option autoImplicit false

/-- One call on a receive queue. -/
inductive RecvStep where
  | push (seq : Seq) (packet : PacketDescr)
  | move (newSeq : Seq)

namespace RecvStep

def run (q : PacketRecvQueue) : RecvStep → PacketRecvQueue
  | .push seq packet => q.pushPacket seq packet
  | .move newSeq => q.moveSeq newSeq

def runAll (q : PacketRecvQueue) (steps : List RecvStep) : PacketRecvQueue := steps.foldl run q

/-- No `move_seq` of the steps, from a window starting at `start`, passes `s`. -/
def Unpassed (s : Seq) : Seq → List RecvStep → Prop
  | _, [] => True
  | start, .push _ _ :: rest => Unpassed s start rest
  | start, .move newSeq :: rest => s ∉ wrapRange start newSeq ∧ Unpassed s newSeq rest

/-- The first packet the steps push under `s`. -/
def firstPush (s : Seq) : List RecvStep → Option PacketDescr
  | [] => none
  | .push seq packet :: rest => if seq = s then some packet else firstPush s rest
  | .move _ :: rest => firstPush s rest

end RecvStep

namespace PacketRecvQueue

theorem clearRange_packets (q : PacketRecvQueue) (start stop i : Seq) :
    (q.clearRange start stop).packets[i]? =
      if i ∈ wrapRange start stop then none else q.packets[i]? :=
  OrderedMap.getElem?_foldl_erase packets (fun _ _ => rfl) q _ i

theorem clearRange_seqMapping (q : PacketRecvQueue) (start stop i : Seq) :
    (q.clearRange start stop).seqMapping[i]? =
      if i ∈ wrapRange start stop then none else q.seqMapping[i]? :=
  OrderedMap.getElem?_foldl_erase seqMapping (fun _ _ => rfl) q _ i

theorem moveSeq_packets (q : PacketRecvQueue) (newSeq i : Seq) :
    (q.moveSeq newSeq).packets[i]? =
      if i ∈ wrapRange q.startSeq newSeq then none else q.packets[i]? :=
  clearRange_packets q q.startSeq newSeq i

end PacketRecvQueue

namespace RecvStep

open PacketRecvQueue

/-! ## One number between two passes -/

theorem run_unmapped {q : PacketRecvQueue} (unmapped : q.seqMapping = ∅) (step : RecvStep) :
    (step.run q).seqMapping = ∅ := by
  cases step with
  | push seq packet => exact unmapped
  | move newSeq =>
      ext i : 1
      have := clearRange_seqMapping q q.startSeq newSeq i
      simpa [run, moveSeq, unmapped] using this

theorem runAll_unmapped {q : PacketRecvQueue} (unmapped : q.seqMapping = ∅)
    (steps : List RecvStep) : (runAll q steps).seqMapping = ∅ := by
  induction steps generalizing q with
  | nil => exact unmapped
  | cons step rest ih => exact ih (run_unmapped unmapped step)

/-- While the window does not pass `s`, the first packet under `s` stays. -/
theorem runAll_packets {q : PacketRecvQueue} {s : Seq} {steps : List RecvStep}
    (unpassed : Unpassed s q.startSeq steps) :
    (runAll q steps).packets[s]? = (q.packets[s]?).or (firstPush s steps) := by
  induction steps generalizing q with
  | nil => simp [runAll, firstPush]
  | cons step rest ih =>
      rw [show runAll q (step :: rest) = runAll (step.run q) rest from rfl]
      cases step with
      | push seq packet =>
          have later : Unpassed s (q.pushPacket seq packet).startSeq rest := unpassed
          rw [run, ih later, pushPacket_packets, firstPush]
          by_cases same : seq = s
          · subst same
            cases q.packets[seq]? <;> simp
          · have other : ¬ s = seq := fun h => same h.symm
            simp [same, other]
      | move newSeq =>
          obtain ⟨outside, later⟩ := unpassed
          have moved : Unpassed s (q.moveSeq newSeq).startSeq rest := later
          rw [run, ih moved, moveSeq_packets, if_neg outside, firstPush]

theorem firstPush_append (s : Seq) (xs ys : List RecvStep) :
    firstPush s (xs ++ ys) = (firstPush s xs).or (firstPush s ys) := by
  induction xs with
  | nil => simp [firstPush]
  | cons step rest ih =>
      cases step with
      | push seq packet =>
          rw [List.cons_append, firstPush, firstPush]
          split
          · rfl
          · exact ih
      | move newSeq => exact ih

/-! ## The next round -/

/-- A run in which the window passes `s`, and later, before it passes `s` again,
the new packet numbered `s` is pushed. -/
structure Round where
  before : List RecvStep
  passTo : Seq
  s : Seq
  between : List RecvStep
  packet : PacketDescr
  after : List RecvStep
  passed : s ∈ wrapRange (runAll {} before).startSeq passTo
  unpassed : Unpassed s passTo (between ++ .push s packet :: after)

namespace Round

/-- The queue in which the range loops read `s`. -/
def final (r : Round) : PacketRecvQueue :=
  runAll {} (r.before ++ .move r.passTo :: (r.between ++ .push r.s r.packet :: r.after))

/-- `copy_data` and `compute_range_size` use the new packet for `s`: its size is
what they count and, for a data packet, its bytes are what they copy. -/
def ReadsNewPacket (r : Round) : Prop := r.final.lookup r.s = some (some r.packet)

theorem final_packets (r : Round) :
    r.final.packets[r.s]? = some ((firstPush r.s r.between).getD r.packet) := by
  let passedQueue := (runAll {} r.before).moveSeq r.passTo
  have cleared : passedQueue.packets[r.s]? = none := by
    rw [moveSeq_packets, if_pos r.passed]
  have whole : r.final = runAll passedQueue (r.between ++ .push r.s r.packet :: r.after) := by
    rw [final, runAll, List.foldl_append]
    rfl
  have start : passedQueue.startSeq = r.passTo := rfl
  rw [whole, runAll_packets (by rw [start]; exact r.unpassed), cleared, firstPush_append,
    firstPush, if_pos rfl]
  cases firstPush r.s r.between <;> rfl

theorem lookup_final (r : Round) :
    r.final.lookup r.s = some (some ((firstPush r.s r.between).getD r.packet)) := by
  have unmapped : r.final.seqMapping[r.s]? = none := by
    rw [final, runAll_unmapped rfl]
    simp
  rw [lookup_of_unmapped unmapped, final_packets]

/-- **The new packet is read exactly when no late duplicate of `s` took its place**:
between the pass and its arrival nothing was pushed under `s`, or the first thing
pushed has the very same bytes. -/
theorem newPacket_read_iff (r : Round) :
    r.ReadsNewPacket ↔ ∀ late, firstPush r.s r.between = some late → late = r.packet := by
  rw [ReadsNewPacket, lookup_final, Option.some.injEq, Option.some.injEq]
  cases firstPush r.s r.between with
  | none => simp
  | some late => simp

/-- What the two readers make of `s` then. -/
theorem readers_of_readsNewPacket {r : Round} (reads : r.ReadsNewPacket) (rest : List Seq)
    (size : BitVec 32) (mem : Mem) (offset : BitVec 32) :
    r.final.computeRangeSizeLoop (r.s :: rest) size =
        r.final.computeRangeSizeLoop rest
          (if r.packet.isData then size + r.packet.size else size) ∧
      r.final.copyDataLoop (r.s :: rest) mem offset =
        if r.packet.isData then
          r.final.copyDataLoop rest (memcpy mem offset.toNat r.packet.data)
            (offset + r.packet.size)
        else r.final.copyDataLoop rest mem offset :=
  ⟨computeRangeSizeLoop_cons reads rest size, copyDataLoop_cons reads rest mem offset⟩

/-- Packet 1 arrives, the window passes it, a late duplicate of it arrives, the
window comes round to 1 and the new packet 1 arrives. -/
def lateDuplicate : Round where
  before := [.push 1 (.make 2 [10, 10])]
  passTo := 2
  s := 1
  between := [.push 1 (.make 2 [10, 10]), .move 1]
  packet := .make 2 [77, 77]
  after := []
  passed := by decide
  unpassed := ⟨by rw [mem_wrapRange]; decide, trivial⟩

/-- **Refuted**: the late duplicate of the old round is what is read. -/
theorem noStaleData_refuted : ¬ ∀ r : Round, r.ReadsNewPacket := by
  intro always
  have read : lateDuplicate.final.lookup 1 = some (some (.make 2 [77, 77])) := always lateDuplicate
  have stale : lateDuplicate.final.lookup 1 = some (some (.make 2 [10, 10])) :=
    lookup_final lateDuplicate
  rw [read] at stale
  revert stale
  decide

end Round

end RecvStep

end UdpStuff.PacketQueue
