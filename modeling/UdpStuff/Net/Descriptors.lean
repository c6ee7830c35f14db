/-
# Net.Descriptors — which descriptors are left open

The socket of an attempt is in a `SocketGuard`, which closes it however the attempt is left.
What `accept4` opens is in a plain field: it is returned if the address and the port are
those punched for, and if they are not, the error leaves it behind.

* `attempt_accounted`: what each end of an attempt has opened and closed;
* `settled_iff_no_stranger`: a run leaves nothing open but the descriptor it returns, whatever
  the system calls return, if and only if the attempt that ends it has not accepted anybody
  else.
-/
import UdpStuff.Theory.Ledger
import UdpStuff.Net.Attempts

namespace UdpStuff.Net

set_option autoImplicit false

open UdpStuff.Theory

/-! ## The ledger of a run -/

/-- What a call opens or closes. -/
def SysCall.entry : SysCall → Option (Entry Descriptor)
  | .socket opened => opened.map .opened
  | .accept _ opened => opened.map .opened
  | .close fd => some (.closed fd)
  | .bind _ _ | .setTimeout _ | .listen _ _ | .connect _ _ => none

def ledger (calls : List SysCall) : List (Entry Descriptor) := calls.filterMap SysCall.entry

def Run.ledger (run : Run) : List (Entry Descriptor) :=
  (run.attempts.map UdpStuff.Net.ledger).flatten

/-- The descriptor that is the caller's from now on. -/
def Exit.kept : Exit → Option Descriptor
  | .returned fd => fd
  | .raised _ => none

def Descriptor.attempt : Descriptor → Nat
  | .socket k => k
  | .accepted k => k

/-! ## One attempt -/

/-- The attempt has a socket, bound and with a timeout. -/
structure Outcomes.Bound (o : Outcomes) : Prop where
  socket : 0 ≤ o.socket
  bind : 0 ≤ o.bind
  setsockopt : 0 ≤ o.setsockopt

/-- The attempt times out or fails to connect, and the next one follows. -/
structure Outcomes.Passes (o : Outcomes) (listens : Bool) : Prop where
  bound : o.Bound
  listen : listens = true → 0 ≤ o.listen
  fails : o.toAnswer.Fails listens

/-- The attempt accepts a connection from another address or port. -/
structure Outcomes.AcceptsStranger (o : Outcomes) (settings : HolePunchSettings)
    (listens : Bool) : Prop where
  bound : o.Bound
  listen : 0 ≤ o.listen
  strange : o.toAnswer.Strange settings listens

/-- What the `k`th attempt has opened and closed where it ends as it does. -/
inductive Accounted (settings : HolePunchSettings) (listens : Bool) (k : Nat) (o : Outcomes) :
    List (Entry Descriptor) → Option Exit → Prop where
  | unopened (e : ConnectionError) : Accounted settings listens k o [] (some (.raised e))
  | failed (e : ConnectionError) :
      Accounted settings listens k o [.opened (.socket k), .closed (.socket k)] (some (.raised e))
  | passed (passes : o.Passes listens) :
      Accounted settings listens k o [.opened (.socket k), .closed (.socket k)] none
  | connected :
      Accounted settings listens k o [.opened (.socket k)] (some (.returned (some (.socket k))))
  | accepted :
      Accounted settings listens k o
        [.opened (.socket k), .opened (.accepted k), .closed (.socket k)]
        (some (.returned (some (.accepted k))))
  | refused (stranger : o.AcceptsStranger settings listens) (e : ConnectionError) :
      Accounted settings listens k o
        [.opened (.socket k), .opened (.accepted k), .closed (.socket k)] (some (.raised e))

section Attempt

variable {settings : HolePunchSettings} {listens : Bool} {k : Nat} {o : Outcomes}

/-- A stranger's descriptor is opened and not closed. -/
theorem attempt_stranger (stranger : o.AcceptsStranger settings listens) :
    ∃ e, ledger (attempt settings listens k o).1 =
        [.opened (.socket k), .opened (.accepted k), .closed (.socket k)] ∧
      (attempt settings listens k o).2 = some (.raised e) := by
  obtain ⟨⟨socket, bind, setsockopt⟩, listened, role, accepted, differs⟩ := stranger
  obtain ⟨e, body⟩ := @acceptPeer_strange settings k o (.socket k) listened accepted differs
  rw [attempt_bound socket bind setsockopt ((if_pos role).trans body)]
  exact ⟨e, rfl, rfl⟩

theorem attempt_passes (passes : o.Passes listens) :
    ledger (attempt settings listens k o).1 = [.opened (.socket k), .closed (.socket k)] ∧
      (attempt settings listens k o).2 = none := by
  obtain ⟨⟨socket, bind, setsockopt⟩, listened, fails⟩ := passes
  rw [Answer.Fails] at fails
  by_cases role : listens = true
  · rw [if_pos role] at fails
    have body := @acceptPeer_fails settings k o (.socket k) (listened role) fails
    rw [attempt_bound socket bind setsockopt ((if_pos role).trans body)]
    exact ⟨rfl, rfl⟩
  · rw [if_neg role] at fails
    have body := @connectPeer_fails settings o (.socket k) fails
    rw [attempt_bound socket bind setsockopt ((if_neg role).trans body)]
    exact ⟨rfl, rfl⟩

/-- Every end of an attempt is one of these. -/
theorem attempt_accounted (settings : HolePunchSettings) (listens : Bool) (k : Nat)
    (o : Outcomes) :
    Accounted settings listens k o (ledger (attempt settings listens k o).1)
      (attempt settings listens k o).2 := by
  by_cases socket : o.socket < 0
  · rw [attempt, if_pos socket]
    exact .unopened _
  by_cases bind : o.bind < 0
  · rw [attempt, if_neg socket, attemptBody]
    dsimp only
    rw [if_pos bind]
    exact .failed _
  by_cases setsockopt : o.setsockopt < 0
  · rw [attempt, if_neg socket, attemptBody]
    dsimp only
    rw [if_neg bind, if_pos setsockopt]
    exact .failed _
  have bound : o.Bound := ⟨Int.not_lt.mp socket, Int.not_lt.mp bind, Int.not_lt.mp setsockopt⟩
  have whole {body : Body} := @attempt_bound settings listens k o bound.socket bound.bind
    bound.setsockopt body
  by_cases role : listens = true
  · by_cases listened : o.listen < 0
    · have body : acceptPeer settings k o (.socket k) =
          ⟨[.listen (.socket k) 1], some (.raised (.call "listening" o.listen)),
            ⟨some (.socket k)⟩⟩ := by
        rw [acceptPeer, if_pos listened]
      rw [whole ((if_pos role).trans body)]
      exact .failed _
    · rcases o.toAnswer.fails_or settings listens with fails | succeeds | strange
      · have passes : o.Passes listens := ⟨bound, fun _ => Int.not_lt.mp listened, fails⟩
        obtain ⟨log, exit⟩ := @attempt_passes settings listens k o passes
        rw [log, exit]
        exact .passed passes
      · rw [Answer.Succeeds, if_pos role] at succeeds
        have body := @acceptPeer_known settings k o (.socket k) (Int.not_lt.mp listened)
          succeeds.1 succeeds.2
        rw [whole ((if_pos role).trans body)]
        exact .accepted
      · have stranger : o.AcceptsStranger settings listens :=
          ⟨bound, Int.not_lt.mp listened, strange⟩
        obtain ⟨e, log, exit⟩ := @attempt_stranger settings listens k o stranger
        rw [log, exit]
        exact .refused stranger e
  · by_cases connected : o.connect = 0
    · rw [whole ((if_neg role).trans (connectPeer_succeeds connected))]
      exact .connected
    · have fails : o.toAnswer.Fails listens := by
        rw [Answer.Fails, if_neg role]
        exact connected
      have passes : o.Passes listens := ⟨bound, fun listening => absurd listening role, fails⟩
      obtain ⟨log, exit⟩ := @attempt_passes settings listens k o passes
      rw [log, exit]
      exact .passed passes

theorem passes_of_none (goes : (attempt settings listens k o).2 = none) : o.Passes listens := by
  have accounted := attempt_accounted settings listens k o
  rw [goes] at accounted
  generalize ledger (attempt settings listens k o).1 = log at accounted
  cases accounted with
  | passed passes => exact passes

/-- An attempt that ends the function without a stranger leaves open what it returns. -/
theorem attempt_replays {exit : Exit} (ends : (attempt settings listens k o).2 = some exit)
    (known : ¬ o.AcceptsStranger settings listens) :
    replay (ledger (attempt settings listens k o).1) [] = some exit.kept.toList := by
  have accounted := attempt_accounted settings listens k o
  rw [ends] at accounted
  generalize ledger (attempt settings listens k o).1 = log at accounted
  cases accounted with
  | unopened e => rfl
  | failed e => simp [replay, Exit.kept]
  | connected => simp [replay, Exit.kept]
  | accepted => simp [replay, Exit.kept]
  | refused stranger e => exact absurd stranger known

/-- The names an attempt opens are its own, and opened once. -/
theorem count_attempt (settings : HolePunchSettings) (listens : Bool) (k : Nat) (o : Outcomes)
    (d : Descriptor) :
    (ledger (attempt settings listens k o).1).count (.opened d) ≤
      if d.attempt = k then 1 else 0 := by
  have accounted := attempt_accounted settings listens k o
  generalize ledger (attempt settings listens k o).1 = log at accounted
  generalize (attempt settings listens k o).2 = exit at accounted
  by_cases own : d.attempt = k
  · subst own
    cases d with
    | socket j => cases accounted <;> simp [Descriptor.attempt]
    | accepted j => cases accounted <;> simp [Descriptor.attempt]
  · have socket : Descriptor.socket k ≠ d := by
      rintro rfl
      exact own rfl
    have accept : Descriptor.accepted k ≠ d := by
      rintro rfl
      exact own rfl
    cases accounted <;> simp [socket, accept]

end Attempt

/-! ## Whole runs -/

section Run

variable {settings : HolePunchSettings} {outcomes : Nat → Outcomes} {more last : Nat} {run : Run}

/-- The ledgers of the first attempts, one after the other. -/
def ledgerUpTo (settings : HolePunchSettings) (outcomes : Nat → Outcomes) (n : Nat) :
    List (Entry Descriptor) :=
  ((List.range n).map fun j => ledger (attemptAt settings outcomes j).1).flatten

theorem ledgerUpTo_succ (settings : HolePunchSettings) (outcomes : Nat → Outcomes) (n : Nat) :
    ledgerUpTo settings outcomes (n + 1) =
      ledgerUpTo settings outcomes n ++ ledger (attemptAt settings outcomes n).1 := by
  rw [ledgerUpTo, List.range_succ, List.map_append, List.flatten_append, List.map_singleton,
    List.flatten_singleton, ledgerUpTo]

/-- No two openings of a run have one name. -/
theorem count_ledgerUpTo (settings : HolePunchSettings) (outcomes : Nat → Outcomes) (n : Nat)
    (d : Descriptor) :
    (ledgerUpTo settings outcomes n).count (.opened d) ≤ if d.attempt < n then 1 else 0 := by
  induction n with
  | zero => exact Nat.zero_le _
  | succ n ih =>
      have one := count_attempt settings (settings.listens n) n (outcomes n) d
      rw [ledgerUpTo_succ, List.count_append, attemptAt]
      split at ih <;> split at one <;> split <;> omega

/-- Attempts that fail leave nothing open. -/
theorem replay_failed {n : Nat} (failed : ∀ j < n, (attemptAt settings outcomes j).2 = none) :
    replay (ledgerUpTo settings outcomes n) [] = some [] := by
  refine replay_flatten fun log member => ?_
  obtain ⟨j, there, rfl⟩ := List.mem_map.mp member
  have passes := passes_of_none (failed j (List.mem_range.mp there))
  rw [attemptAt, (attempt_passes passes).1]
  simp [replay]

theorem Punching.ledger (punching : Punching settings outcomes 0 more last run) :
    run.ledger = ledgerUpTo settings outcomes (last + 1) := by
  rw [Run.ledger, punching.attempts, List.map_map, ledgerUpTo]
  simp only [Function.comp_def, Nat.zero_add]

/-- What a run leaves open, its last attempt does. -/
theorem Punching.replay (punching : Punching settings outcomes 0 more last run) :
    Theory.replay run.ledger [] =
      Theory.replay (UdpStuff.Net.ledger (attemptAt settings outcomes last).1) [] := by
  have failed : ∀ j < last, (attemptAt settings outcomes j).2 = none := by
    intro j before
    have fails := punching.failed j before
    rwa [Nat.zero_add] at fails
  rw [punching.ledger, ledgerUpTo_succ, replay_append_closed (replay_failed failed)]

/-- No attempt that a run comes to accepts a connection from another address or port. -/
def NoStranger (settings : HolePunchSettings) (outcomes : Nat → Outcomes) : Prop :=
  ∀ k ≤ (settings.connectCount - 1).toNat,
    (∀ j < k, (outcomes j).Passes (settings.listens j)) →
      ¬ (outcomes k).AcceptsStranger settings (settings.listens k)

end Run

/-- **Every descriptor opened is closed once, but for the one returned, if and only if no
stranger connects.** -/
theorem settled_iff_no_stranger (settings : HolePunchSettings) (outcomes : Nat → Outcomes) :
    Settled (tcpv4HolePunch settings outcomes).ledger (tcpv4HolePunch settings outcomes).exit.kept ↔
      NoStranger settings outcomes := by
  obtain ⟨last, punching⟩ := tcpv4HolePunch_run settings outcomes
  have once : ∀ d, (tcpv4HolePunch settings outcomes).ledger.count (.opened d) ≤ 1 := by
    intro d
    have most := count_ledgerUpTo settings outcomes (last + 1) d
    rw [punching.ledger]
    split at most <;> omega
  rw [settled_iff once, punching.replay]
  constructor
  · intro settled k within passed stranger
    obtain ⟨e, log, raised⟩ := @attempt_stranger settings _ k _ stranger
    obtain ⟨rfl, exit⟩ := punching.at_first within
      (fun j before => (attempt_passes (passed j before)).2) raised
    rw [attemptAt, log, exit] at settled
    simp [replay, Exit.kept] at settled
  · intro known
    have passed : ∀ j < last, (outcomes j).Passes (settings.listens j) := by
      intro j before
      have fails := punching.failed j before
      rw [Nat.zero_add] at fails
      exact passes_of_none fails
    have ended := punching.ended
    rw [Nat.zero_add] at ended
    rcases ended with ends | ⟨fails, -, exit⟩
    · exact attempt_replays ends (known last punching.within passed)
    · rw [attemptAt, (attempt_passes (passes_of_none fails)).1, exit]
      simp [replay, Exit.kept]

/-- **Refuted** by a connection from another port. -/
theorem settled_refuted :
    ¬ ∀ (settings : HolePunchSettings) (outcomes : Nat → Outcomes),
      Settled (tcpv4HolePunch settings outcomes).ledger
        (tcpv4HolePunch settings outcomes).exit.kept := by
  intro always
  have settled := (always ⟨7000, 0, 7001, 0x0100007f, true, 1⟩
    fun _ => ⟨⟨5, ⟨7002, 0x0100007f⟩, -1⟩, 4, 0, 0, 0⟩).replays
  revert settled
  rw [tcpv4HolePunch, punchFrom]
  decide

end UdpStuff.Net
