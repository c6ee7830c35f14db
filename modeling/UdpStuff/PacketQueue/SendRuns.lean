/-
# PacketQueue.SendRuns — the numbers a send queue hands out

A run of a `PacketSendQueue` is a list of calls; a `push_buffer` is the
`push_packet` calls it makes (`SendStep.run_eq`).  Each push and each
`move_packet_up` takes the number after `end_seq`.

`end_seq` counts from 0, and 0 itself is reserved (`// seq 0 is omited`).  The
number is taken before anything is checked, so a retransmission of a missing
packet wastes it, and after 65535 it is 0.  `numbers_sound_iff`: every number
taken is non-zero, was free and gets its packet exactly when no call is made at
`end_seq = 65535` and every retransmission finds its packet.
-/
import UdpStuff.PacketQueue.SendQueue

namespace UdpStuff.PacketQueue

open Theory
open Std (ExtTreeMap)

set_option autoImplicit false

/-- One call that takes at most one number. -/
inductive SendCall where
  | pushPacket (payload : PacketDescr)
  | movePacketUp (seq : Seq)
  | clearRange (start stop : Seq)

/-- One operation of the queue's user. -/
inductive SendStep where
  | call (c : SendCall)
  | pushBuffer (buffer : PacketDescr)

namespace PacketSendQueue

theorem make_size_data (p : PacketDescr) : PacketDescr.make p.size p.data = p := by
  cases p with
  | mk data bound =>
      simp only [PacketDescr.make, PacketDescr.size_toNat, List.take_length]

theorem pushPacket_payload (q : PacketSendQueue) (p : PacketDescr) :
    q.pushPacket p.size p.data = q.emplaceNext p := by
  rw [pushPacket, make_size_data]

@[simp] theorem clearRange_mtu (q : PacketSendQueue) (start stop : Seq) :
    (q.clearRange start stop).mtu = q.mtu := by
  unfold clearRange
  induction wrapRange start stop generalizing q with
  | nil => rfl
  | cons i rest ih => exact (ih (q.clearAt i)).trans rfl

@[simp] theorem clearRange_endSeq (q : PacketSendQueue) (start stop : Seq) :
    (q.clearRange start stop).endSeq = q.endSeq := by
  unfold clearRange
  induction wrapRange start stop generalizing q with
  | nil => rfl
  | cons i rest ih => exact (ih (q.clearAt i)).trans rfl

theorem clearRange_packets (q : PacketSendQueue) (start stop i : Seq) :
    (q.clearRange start stop).packets[i]? =
      if i ∈ wrapRange start stop then none else q.packets[i]? :=
  OrderedMap.getElem?_foldl_erase packets (fun _ _ => rfl) q _ i

/-! ## Retransmission -/

@[simp] theorem movePacketUp_endSeq (steals : Bool) (q : PacketSendQueue) (seq : Seq) :
    (q.movePacketUp steals seq).endSeq = q.endSeq + 1 := rfl

@[simp] theorem movePacketUp_mtu (steals : Bool) (q : PacketSendQueue) (seq : Seq) :
    (q.movePacketUp steals seq).mtu = q.mtu := rfl

/-- A retransmission of a missing number only takes a number. -/
theorem movePacketUp_missing {q : PacketSendQueue} {seq : Seq} (missing : q.packets[seq]? = none)
    (steals : Bool) : q.movePacketUp steals seq = { q with endSeq := q.endSeq + 1 } := by
  simp only [movePacketUp, missing]

/-- A retransmission of a present one, to a free number: the payload goes there and
the moved-from object stays under the old number. -/
theorem movePacketUp_present {q : PacketSendQueue} {seq : Seq} {p : PacketDescr}
    (present : q.packets[seq]? = some p) (free : q.packets[q.endSeq + 1]? = none)
    (steals : Bool) :
    q.movePacketUp steals seq =
      { q with
        endSeq := q.endSeq + 1
        packets := (q.packets.insert seq .movedFrom).insert (q.endSeq + 1) p } := by
  have absent : q.packets.contains (q.endSeq + 1) = false := by
    rw [ExtTreeMap.contains_eq_isSome_getElem?, free]
    rfl
  simp only [movePacketUp, present, absent, Bool.false_eq_true, if_false]

theorem movePacketUp_packets {q : PacketSendQueue} {seq : Seq} {p : PacketDescr}
    (present : q.packets[seq]? = some p) (free : q.packets[q.endSeq + 1]? = none)
    (steals : Bool) (i : Seq) :
    (q.movePacketUp steals seq).packets[i]? =
      if i = q.endSeq + 1 then some p
      else if i = seq then some .movedFrom else q.packets[i]? := by
  rw [movePacketUp_present present free]
  dsimp only
  rw [OrderedMap.getElem?_insert, OrderedMap.getElem?_insert]

end PacketSendQueue

open PacketSendQueue

namespace SendCall

def run (steals : Bool) (q : PacketSendQueue) : SendCall → PacketSendQueue
  | .pushPacket payload => q.pushPacket payload.size payload.data
  | .movePacketUp seq => q.movePacketUp steals seq
  | .clearRange start stop => q.clearRange start stop

def runAll (steals : Bool) (q : PacketSendQueue) (calls : List SendCall) : PacketSendQueue :=
  calls.foldl (run steals) q

/-- The call takes a number and stores exactly one packet under it: the number is
not 0, was not in use, and holds the pushed or the retransmitted payload. -/
def Sound (steals : Bool) (q : PacketSendQueue) (c : SendCall) : Prop :=
  let new := q.endSeq + 1
  match c with
  | .pushPacket payload =>
      new ≠ 0 ∧ q.packets[new]? = none ∧ (c.run steals q).packets[new]? = some payload
  | .movePacketUp seq =>
      new ≠ 0 ∧ q.packets[new]? = none ∧
        ∃ p, q.packets[seq]? = some p ∧ (c.run steals q).packets[new]? = some p
  | .clearRange _ _ => True

/-- The condition on the state before the call: a number is left, and a packet to
retransmit is there. -/
def Admissible (q : PacketSendQueue) : SendCall → Prop
  | .pushPacket _ => q.endSeq ≠ 65535
  | .movePacketUp seq => q.endSeq ≠ 65535 ∧ q.packets[seq]? ≠ none
  | .clearRange _ _ => True

/-- How many numbers the calls take. -/
def numbersTaken : List SendCall → Nat
  | [] => 0
  | .pushPacket _ :: rest => numbersTaken rest + 1
  | .movePacketUp _ :: rest => numbersTaken rest + 1
  | .clearRange _ _ :: rest => numbersTaken rest

/-- A property of the state and the next call, at every call of a run. -/
def Throughout (steals : Bool) (P : PacketSendQueue → SendCall → Prop) :
    PacketSendQueue → List SendCall → Prop
  | _, [] => True
  | q, c :: rest => P q c ∧ Throughout steals P (c.run steals q) rest

@[simp] theorem run_mtu (steals : Bool) (q : PacketSendQueue) (c : SendCall) :
    (c.run steals q).mtu = q.mtu := by
  cases c with
  | pushPacket payload => rfl
  | movePacketUp seq => exact movePacketUp_mtu steals q seq
  | clearRange start stop => exact clearRange_mtu q start stop

@[simp] theorem runAll_mtu (steals : Bool) (q : PacketSendQueue) (calls : List SendCall) :
    (runAll steals q calls).mtu = q.mtu := by
  induction calls generalizing q with
  | nil => rfl
  | cons c rest ih => exact (ih (c.run steals q)).trans (run_mtu steals q c)

theorem runAll_append (steals : Bool) (q : PacketSendQueue) (xs ys : List SendCall) :
    runAll steals q (xs ++ ys) = runAll steals (runAll steals q xs) ys :=
  List.foldl_append

theorem throughout_append {steals : Bool} {P : PacketSendQueue → SendCall → Prop}
    {q : PacketSendQueue} {xs ys : List SendCall} :
    Throughout steals P q (xs ++ ys) ↔
      Throughout steals P q xs ∧ Throughout steals P (runAll steals q xs) ys := by
  induction xs generalizing q with
  | nil => simp [Throughout, runAll]
  | cons c rest ih =>
      rw [List.cons_append, Throughout, Throughout, ih, and_assoc]
      rfl

/-! ## The numbers in use -/

/-- Every number in use was handed out: it is one of `1, …, end_seq`. -/
def Numbered (q : PacketSendQueue) : Prop :=
  ∀ i : Seq, q.packets[i]? ≠ none → 1 ≤ i.toNat ∧ i.toNat ≤ q.endSeq.toNat

theorem numbered_fresh : Numbered {} := by
  intro i used
  simp at used

theorem succ_toNat {q : PacketSendQueue} (left : q.endSeq ≠ 65535) :
    (q.endSeq + 1).toNat = q.endSeq.toNat + 1 := by
  have : q.endSeq.toNat ≠ 65535 := fun h => left (BitVec.eq_of_toNat_eq h)
  have := q.endSeq.isLt
  rw [BitVec.toNat_add, Nat.mod_eq_of_lt (by simp; omega)]
  rfl

theorem succ_ne_zero_iff {q : PacketSendQueue} : q.endSeq + 1 ≠ 0 ↔ q.endSeq ≠ 65535 := by
  constructor
  · intro nonzero last
    rw [last] at nonzero
    exact nonzero rfl
  · intro left zero
    have := succ_toNat left
    rw [zero] at this
    simp at this

/-- While numbers are left the next one is free. -/
theorem next_free {q : PacketSendQueue} (numbered : Numbered q) (left : q.endSeq ≠ 65535) :
    q.packets[q.endSeq + 1]? = none := by
  by_contra used
  have := numbered _ used
  have := succ_toNat left
  omega

theorem run_endSeq (steals : Bool) {q : PacketSendQueue} {c : SendCall}
    (left : q.endSeq.toNat + numbersTaken [c] ≤ 65535) :
    (c.run steals q).endSeq.toNat = q.endSeq.toNat + numbersTaken [c] := by
  cases c with
  | pushPacket payload =>
      simp only [numbersTaken] at left
      exact succ_toNat fun last => by simp [last] at left
  | movePacketUp seq =>
      simp only [numbersTaken] at left
      exact succ_toNat fun last => by simp [last] at left
  | clearRange start stop => exact congrArg BitVec.toNat (clearRange_endSeq q start stop)

/-- A call that finds a number left keeps the numbers in use below `end_seq`. -/
theorem run_numbered (steals : Bool) {q : PacketSendQueue} (numbered : Numbered q) {c : SendCall}
    (left : q.endSeq.toNat + numbersTaken [c] ≤ 65535) : Numbered (c.run steals q) := by
  intro i used
  have taken := run_endSeq steals left
  rw [taken]
  cases c with
  | pushPacket payload =>
      have more : q.endSeq ≠ 65535 := fun last => by simp [last, numbersTaken] at left
      have next := succ_toNat more
      rw [run, pushPacket_payload, emplaceNext_packets] at used
      simp only [numbersTaken]
      by_cases new : i = q.endSeq + 1
      · rw [new, next]
        omega
      · rw [if_neg new] at used
        have := numbered i used
        omega
  | movePacketUp seq =>
      have more : q.endSeq ≠ 65535 := fun last => by simp [last, numbersTaken] at left
      have next := succ_toNat more
      simp only [numbersTaken]
      cases present : q.packets[seq]? with
      | none =>
          rw [run, movePacketUp_missing present] at used
          have := numbered i used
          omega
      | some p =>
          have old := numbered seq (by simp [present])
          rw [run, movePacketUp_packets present (next_free numbered more)] at used
          by_cases new : i = q.endSeq + 1
          · rw [new, next]
            omega
          · by_cases same : i = seq
            · rw [same]
              omega
            · rw [if_neg new, if_neg same] at used
              have := numbered i used
              omega
  | clearRange start stop =>
      rw [run, clearRange_packets] at used
      by_cases cleared : i ∈ wrapRange start stop
      · simp [cleared] at used
      · rw [if_neg cleared] at used
        exact numbered i used

/-- An admissible call finds a number left. -/
theorem Admissible.left_over {q : PacketSendQueue} {c : SendCall} (fits : c.Admissible q) :
    q.endSeq.toNat + numbersTaken [c] ≤ 65535 := by
  have below := q.endSeq.isLt
  cases c with
  | pushPacket payload =>
      have := succ_toNat fits
      have := (q.endSeq + 1).isLt
      simp only [numbersTaken]
      omega
  | movePacketUp seq =>
      have := succ_toNat fits.1
      have := (q.endSeq + 1).isLt
      simp only [numbersTaken]
      omega
  | clearRange start stop =>
      simp only [numbersTaken]
      omega

theorem numbersTaken_append (xs ys : List SendCall) :
    numbersTaken (xs ++ ys) = numbersTaken xs + numbersTaken ys := by
  induction xs with
  | nil => simp [numbersTaken]
  | cons c rest ih => cases c <;> simp only [List.cons_append, numbersTaken, ih] <;> omega

/-- A run that takes no more numbers than are left keeps them below `end_seq`. -/
theorem runAll_numbered (steals : Bool) {q : PacketSendQueue} (numbered : Numbered q)
    {calls : List SendCall} (left : q.endSeq.toNat + numbersTaken calls ≤ 65535) :
    Numbered (runAll steals q calls) ∧
      (runAll steals q calls).endSeq.toNat = q.endSeq.toNat + numbersTaken calls := by
  induction calls generalizing q with
  | nil => exact ⟨numbered, rfl⟩
  | cons c rest ih =>
      have split : numbersTaken (c :: rest) = numbersTaken [c] + numbersTaken rest :=
        numbersTaken_append [c] rest
      rw [split] at left ⊢
      have first : q.endSeq.toNat + numbersTaken [c] ≤ 65535 := by omega
      have one := run_endSeq steals first
      obtain ⟨after, total⟩ := ih (run_numbered steals numbered first) (by rw [one]; omega)
      exact ⟨after, by rw [← Nat.add_assoc, ← one]; exact total⟩

/-- One call takes its number soundly exactly when it is admissible. -/
theorem sound_iff {steals : Bool} {q : PacketSendQueue} (numbered : Numbered q) (c : SendCall) :
    c.Sound steals q ↔ c.Admissible q := by
  constructor
  · intro sound
    cases c with
    | pushPacket payload => exact succ_ne_zero_iff.mp sound.1
    | movePacketUp seq =>
        obtain ⟨nonzero, -, p, stored, -⟩ := sound
        exact ⟨succ_ne_zero_iff.mp nonzero, by simp [stored]⟩
    | clearRange start stop => trivial
  · intro fits
    cases c with
    | pushPacket payload =>
        have free := next_free numbered fits
        refine ⟨succ_ne_zero_iff.mpr fits, free, ?_⟩
        rw [run, pushPacket_payload, emplaceNext_packets, if_pos rfl, free, Option.getD_none]
    | movePacketUp seq =>
        obtain ⟨left, present⟩ := fits
        obtain ⟨p, stored⟩ := Option.ne_none_iff_exists'.mp present
        have free := next_free numbered left
        refine ⟨succ_ne_zero_iff.mpr left, free, p, stored, ?_⟩
        rw [run, movePacketUp_packets stored free, if_pos rfl]
    | clearRange start stop => trivial

theorem throughout_sound_iff {steals : Bool} {q : PacketSendQueue} (numbered : Numbered q)
    (calls : List SendCall) :
    Throughout steals (Sound steals) q calls ↔ Throughout steals Admissible q calls := by
  induction calls generalizing q with
  | nil => exact Iff.rfl
  | cons c rest ih =>
      rw [Throughout, Throughout, sound_iff numbered c]
      exact and_congr_right fun fits => ih (run_numbered steals numbered fits.left_over)

end SendCall

/-! ## Runs of the queue's operations -/

namespace SendStep

def run (steals : Bool) (q : PacketSendQueue) : SendStep → Option PacketSendQueue
  | .call c => some (c.run steals q)
  | .pushBuffer buffer => q.pushBuffer buffer.data buffer.size

def runAll (steals : Bool) (q : PacketSendQueue) (steps : List SendStep) :
    Option PacketSendQueue :=
  steps.foldlM (run steals) q

/-- The calls an operation makes. -/
def calls (mtu : BitVec 32) : SendStep → List SendCall
  | .call c => [c]
  | .pushBuffer buffer => (bufferPackets mtu buffer.data).map .pushPacket

theorem pushAll_eq_runAll (steals : Bool) (q : PacketSendQueue) (ps : List PacketDescr) :
    q.pushAll ps = SendCall.runAll steals q (ps.map .pushPacket) := by
  induction ps generalizing q with
  | nil => rfl
  | cons p rest ih =>
      rw [pushAll_cons, ih, ← pushPacket_payload]
      rfl

/-- An operation returns and is the calls it makes. -/
theorem run_eq (steals : Bool) {q : PacketSendQueue} (positive : 0 < q.mtu.toNat)
    (step : SendStep) :
    step.run steals q = some (SendCall.runAll steals q (step.calls q.mtu)) := by
  cases step with
  | call c => rfl
  | pushBuffer buffer =>
      have pushed := pushBuffer_eq buffer.size_lt positive
      rw [run, PacketDescr.size, pushed, calls, pushAll_eq_runAll steals]

theorem runAll_eq (steals : Bool) {q : PacketSendQueue} (positive : 0 < q.mtu.toNat)
    (steps : List SendStep) :
    runAll steals q steps = some (SendCall.runAll steals q (steps.flatMap (calls q.mtu))) := by
  induction steps generalizing q with
  | nil => rfl
  | cons step rest ih =>
      have kept : (SendCall.runAll steals q (step.calls q.mtu)).mtu = q.mtu := by simp
      have later := ih (kept.symm ▸ positive)
      rw [kept] at later
      rw [runAll, List.foldlM_cons, run_eq steals positive step]
      rw [List.flatMap_cons, SendCall.runAll_append]
      exact later

/-- The calls of a run from a fresh queue, whose `mtu` is 1024. -/
def freshCalls (steps : List SendStep) : List SendCall := steps.flatMap (calls 1024)

theorem runAll_fresh (steals : Bool) (steps : List SendStep) :
    runAll steals {} steps = some (SendCall.runAll steals {} (freshCalls steps)) :=
  runAll_eq steals (by decide) steps

/-- **Every number taken in a run from a fresh queue is non-zero, was free and
holds its packet exactly when every call of the run is admissible**: no number is
taken after 65535, and every packet to retransmit is there. -/
theorem numbers_sound_iff (steals : Bool) (steps : List SendStep) :
    runAll steals {} steps = some (SendCall.runAll steals {} (freshCalls steps)) ∧
      (SendCall.Throughout steals (SendCall.Sound steals) {} (freshCalls steps) ↔
        SendCall.Throughout steals SendCall.Admissible {} (freshCalls steps)) :=
  ⟨runAll_fresh steals steps, SendCall.throughout_sound_iff SendCall.numbered_fresh _⟩

/-- **Refuted**: retransmitting a number that is not there takes a number and
stores nothing under it. -/
theorem numbers_sound_refuted :
    ¬ ∀ (steals : Bool) (steps : List SendStep),
      SendCall.Throughout steals (SendCall.Sound steals) {} (freshCalls steps) := by
  intro always
  obtain ⟨⟨-, -, p, present, -⟩, -⟩ := always false [.call (.movePacketUp 5)]
  simp at present

end SendStep

end UdpStuff.PacketQueue
