/-
# Theory.NumberedStream — a stream of packets under numbers that never wrap

What a pair of packet queues is for, without a bound on the numbers: the packets are
numbered from 1 in the order in which they are pushed.  The sender keeps a packet until it
is cleared; while it is kept it may be given to a network, which delivers what it was given
in any order, any number of times or never.  The receiver reads in a window, which only
moves on.

A step is possible where it leaves sender and receiver a full `turn` of numbers or less to
tell apart: the sender keeps at most a turn of packets, and what is delivered is of the
turn that begins with the receiver's window.

* `packet_push`: a number keeps its packet for good;
* `Sound`, `run_sound`: what is in the network or has arrived was pushed.
-/
import Mathlib.Data.Finset.Basic
import UdpStuff.Theory.Runs

namespace UdpStuff.Theory

set_option autoImplicit false

universe u

structure NumberedStream (α : Type u) where
  pushed : List α := []
  /-- The first number that the sender has not cleared. -/
  first : Nat := 1
  /-- The numbers of the copies that the network was given. -/
  flight : List Nat := []
  arrived : Finset Nat := ∅
  /-- The front of the receiver's window. -/
  start : Nat := 1

namespace NumberedStream

variable {α : Type u}

inductive Op (α : Type u) where
  | push (packets : List α)
  | clear (start stop : Nat)
  | transmit (n : Nat)
  /-- The `k`-th of the copies given to the network so far. -/
  | deliver (k : Nat)
  | move (n : Nat)

/-- The number that the next packet gets. -/
def next (s : NumberedStream α) : Nat := s.pushed.length + 1

def packet (s : NumberedStream α) : Nat → Option α
  | 0 => none
  | n + 1 => s.pushed[n]?

/-- What the sender holds under a number. -/
def kept (s : NumberedStream α) (n : Nat) : Option α := if s.first ≤ n then s.packet n else none

/-- What the receiver got under a number. -/
def received (s : NumberedStream α) (n : Nat) : Option α :=
  if n ∈ s.arrived then s.packet n else none

/-- The packets numbered from `a` to before `b`. -/
def between (s : NumberedStream α) (a b : Nat) : List α := (s.pushed.drop (a - 1)).take (b - a)

/-- Those of these numbers that have not arrived. -/
def missing (s : NumberedStream α) (a b : Nat) : List Nat :=
  (List.range' a (b - a)).filter (· ∉ s.arrived)

def push (s : NumberedStream α) (packets : List α) : NumberedStream α :=
  { s with pushed := s.pushed ++ packets }

def step (turn : Nat) (s : NumberedStream α) : Op α → Option (NumberedStream α)
  | .push packets =>
      if s.next + packets.length ≤ s.first + turn then some (s.push packets) else none
  | .clear start stop =>
      if start = s.first ∧ s.first ≤ stop ∧ stop ≤ s.next ∧ stop < s.first + turn then
        some { s with first := stop }
      else none
  | .transmit n =>
      if s.first ≤ n ∧ n < s.next then some { s with flight := s.flight ++ [n] } else none
  | .deliver k =>
      match s.flight[k]? with
      | none => none
      | some n =>
          if s.start ≤ n ∧ n < s.start + turn then
            some { s with arrived := insert n s.arrived }
          else none
  | .move n => if s.start ≤ n ∧ n < s.start + turn then some { s with start := n } else none

/-! ## Numbers and packets -/

theorem packet_lt {s : NumberedStream α} {n : Nat} (positive : 0 < n) (below : n < s.next) :
    ∃ p, s.packet n = some p := by
  cases n with
  | zero => exact absurd positive (Nat.lt_irrefl 0)
  | succ n =>
      have inside : n < s.pushed.length := by simpa [next] using below
      exact ⟨s.pushed[n], List.getElem?_eq_getElem inside⟩

theorem packet_ge {s : NumberedStream α} {n : Nat} (behind : s.next ≤ n) : s.packet n = none := by
  cases n with
  | zero => rfl
  | succ n =>
      apply List.getElem?_eq_none
      simpa [next] using behind

theorem next_push (s : NumberedStream α) (packets : List α) :
    (s.push packets).next = s.next + packets.length := by
  simp only [next, push, List.length_append]
  omega

/-- A number that has a packet keeps it. -/
theorem packet_push {s : NumberedStream α} (packets : List α) {n : Nat} (below : n < s.next) :
    (s.push packets).packet n = s.packet n := by
  cases n with
  | zero => rfl
  | succ n =>
      have inside : n < s.pushed.length := by simpa [next] using below
      exact List.getElem?_append_left inside

/-- One packet more, under the next number. -/
theorem packet_push_one (s : NumberedStream α) (p : α) (n : Nat) :
    (s.push [p]).packet n = if n = s.next then some p else s.packet n := by
  rcases Nat.lt_trichotomy n s.next with old | rfl | later
  · rw [if_neg old.ne, packet_push [p] old]
  · simp [packet, push, next]
  · have behind : (s.push [p]).next ≤ n := by
      rw [next_push]
      exact later
    rw [if_neg later.ne', packet_ge behind, packet_ge later.le]

theorem getElem?_between {s : NumberedStream α} {a b k : Nat} (positive : 0 < a)
    (inside : k < b - a) : (s.between a b)[k]? = s.packet (a + k) := by
  obtain ⟨a, rfl⟩ := Nat.exists_eq_add_of_lt positive
  rw [between, List.getElem?_take_of_lt inside, List.getElem?_drop]
  show _ = s.packet (0 + a + 1 + k)
  rw [show 0 + a + 1 + k = (a + k) + 1 by omega]
  show s.pushed[_]? = s.pushed[a + k]?
  congr 1
  omega

theorem length_between {s : NumberedStream α} {a b : Nat} (positive : 0 < a) (le : b ≤ s.next) :
    (s.between a b).length = b - a := by
  simp only [between, List.length_take, List.length_drop, next] at le ⊢
  omega

theorem missing_eq_nil_iff {s : NumberedStream α} {a b : Nat} :
    s.missing a b = [] ↔ ∀ n, a ≤ n → n < b → n ∈ s.arrived := by
  simp only [missing, List.filter_eq_nil_iff, List.mem_range'_1, decide_eq_true_eq, not_not]
  constructor
  · intro all n above below
    exact all n (by omega)
  · intro all n inside
    exact all n (by omega) (by omega)

/-! ## What every run keeps -/

/-- Only packets that were pushed are in the network or arrive. -/
structure Sound (s : NumberedStream α) : Prop where
  first_pos : 0 < s.first
  first_le : s.first ≤ s.next
  start_pos : 0 < s.start
  flight_lt : ∀ n ∈ s.flight, 0 < n ∧ n < s.next
  arrived_lt : ∀ n ∈ s.arrived, 0 < n ∧ n < s.next

theorem sound_start : ({} : NumberedStream α).Sound :=
  ⟨Nat.one_pos, Nat.le_refl 1, Nat.one_pos, fun _ member => absurd member List.not_mem_nil,
    fun _ member => absurd member (Finset.notMem_empty _)⟩

theorem Sound.push {s : NumberedStream α} (sound : s.Sound) (packets : List α) :
    (s.push packets).Sound := by
  have further (n : Nat) (known : 0 < n ∧ n < s.next) : 0 < n ∧ n < (s.push packets).next := by
    rw [next_push]
    omega
  refine ⟨sound.first_pos, ?_, sound.start_pos, fun n member => further n (sound.flight_lt n member),
    fun n member => further n (sound.arrived_lt n member)⟩
  rw [next_push]
  exact Nat.le_add_right_of_le sound.first_le

/-- What has arrived is what it was. -/
theorem Sound.received_push {s : NumberedStream α} (sound : s.Sound) (packets : List α) (n : Nat) :
    (s.push packets).received n = s.received n := by
  show (if n ∈ s.arrived then _ else _) = if n ∈ s.arrived then _ else _
  split
  · rename_i member
    exact packet_push packets (sound.arrived_lt n member).2
  · rfl

theorem Sound.step {turn : Nat} {s s' : NumberedStream α} (sound : s.Sound) {op : Op α}
    (stepped : s.step turn op = some s') : s'.Sound := by
  cases op with
  | push packets =>
      obtain ⟨-, rfl⟩ := possible_iff.mp stepped
      exact sound.push packets
  | clear start stop =>
      obtain ⟨⟨-, le, known, -⟩, rfl⟩ := possible_iff.mp stepped
      exact ⟨lt_of_lt_of_le sound.first_pos le, known, sound.start_pos, sound.flight_lt,
        sound.arrived_lt⟩
  | transmit n =>
      obtain ⟨⟨le, lt⟩, rfl⟩ := possible_iff.mp stepped
      refine ⟨sound.first_pos, sound.first_le, sound.start_pos, fun m member => ?_,
        sound.arrived_lt⟩
      rcases List.mem_append.mp member with old | new
      · exact sound.flight_lt m old
      · cases List.mem_singleton.mp new
        exact ⟨lt_of_lt_of_le sound.first_pos le, lt⟩
  | deliver k =>
      simp only [NumberedStream.step] at stepped
      split at stepped
      · cases stepped
      · rename_i n copy
        obtain ⟨-, rfl⟩ := possible_iff.mp stepped
        refine ⟨sound.first_pos, sound.first_le, sound.start_pos, sound.flight_lt,
          fun m member => ?_⟩
        rcases Finset.mem_insert.mp member with rfl | old
        · exact sound.flight_lt m (List.mem_of_getElem? copy)
        · exact sound.arrived_lt m old
  | move n =>
      obtain ⟨⟨le, -⟩, rfl⟩ := possible_iff.mp stepped
      exact ⟨sound.first_pos, sound.first_le, lt_of_lt_of_le sound.start_pos le, sound.flight_lt,
        sound.arrived_lt⟩

/-- What has not arrived is what nothing was received of. -/
theorem Sound.received_eq_none_iff {s : NumberedStream α} (sound : s.Sound) {n : Nat} :
    s.received n = none ↔ n ∉ s.arrived := by
  by_cases member : n ∈ s.arrived
  · obtain ⟨positive, below⟩ := sound.arrived_lt n member
    obtain ⟨p, packet⟩ := packet_lt positive below
    simp [received, member, packet]
  · simp [received, member]

/-- Without a missing number the packets of a range are all there. -/
theorem Sound.le_next {s : NumberedStream α} (sound : s.Sound) {a b : Nat}
    (whole : s.missing a b = []) (lt : a < b) : b ≤ s.next := by
  have last := missing_eq_nil_iff.mp whole (b - 1) (by omega) (by omega)
  have := (sound.arrived_lt _ last).2
  omega

theorem run_sound {turn : Nat} {s s' : NumberedStream α} (sound : s.Sound) {ops : List (Op α)}
    (ran : run (step turn) s ops = some s') : s'.Sound :=
  run_inv Sound (fun _ _ _ sound stepped => sound.step stepped) sound ran

end NumberedStream

end UdpStuff.Theory
