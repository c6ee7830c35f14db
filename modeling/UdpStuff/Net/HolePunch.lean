/-
# Net.HolePunch — punching through by listening and connecting in turn

`tcpv4_hole_punch` of `tcpv4.cc` makes one attempt after the other, each with a socket of
its own, until one succeeds or `connect_count` is counted down to zero.  What the system
calls return is given from outside, one `Outcomes` for each attempt; the calls made are
recorded, grouped by attempt.  Timeouts and sleeping are left out: how long an attempt waits
changes nothing but what its calls return.

`punchFrom_run`: a run is its attempts up to the first that ends the call, or all of them.
-/
import Mathlib.Tactic.Common

namespace UdpStuff.Net

set_option autoImplicit false

/-! ## Sockets -/

/-- `sockaddr_in`, its numbers in network byte order as the code passes them. -/
structure SockAddr where
  port : UInt16
  addr : UInt32
deriving DecidableEq

/-- A descriptor by the call that opened it: `socket` or `accept4` of an attempt. -/
inductive Descriptor where
  | socket (attempt : Nat)
  | accepted (attempt : Nat)
deriving DecidableEq

/-- A call to the system, with the descriptor it opened where it opens one. -/
inductive SysCall where
  | socket (opened : Option Descriptor)
  | bind (fd : Descriptor) (addr : SockAddr)
  | setTimeout (fd : Descriptor)
  | listen (fd : Descriptor) (backlog : Nat)
  | accept (fd : Descriptor) (opened : Option Descriptor)
  | connect (fd : Descriptor) (addr : SockAddr)
  | close (fd : Descriptor)
deriving DecidableEq

/-- `ConnectionError`: a call that failed, by its description and what it returned, or a text. -/
inductive ConnectionError where
  | call (descr : String) (ret : Int)
  | text (descr : String)
deriving DecidableEq

/-- `SocketGuard`; no descriptor is the −1 it starts with. -/
structure SocketGuard where
  fd : Option Descriptor
deriving DecidableEq

namespace SocketGuard

def clear (guard : SocketGuard) : List SysCall × SocketGuard :=
  match guard.fd with
  | some fd => ([.close fd], ⟨none⟩)
  | none => ([], guard)

def handle (guard : SocketGuard) : Option Descriptor × SocketGuard := (guard.fd, ⟨none⟩)

/-- `~SocketGuard` -/
def destruct (guard : SocketGuard) : List SysCall := guard.clear.1

end SocketGuard

/-! ## The function -/

/-- `TCPv4HolePunchSettings` but for its times. -/
structure HolePunchSettings where
  srcPort : UInt16
  srcAddr : UInt32
  dstPort : UInt16
  dstAddr : UInt32
  listenFirst : Bool
  connectCount : UInt32
deriving DecidableEq

def HolePunchSettings.dst (settings : HolePunchSettings) : SockAddr :=
  ⟨settings.dstPort, settings.dstAddr⟩

/-- What `accept4` and `connect` return in an attempt, and the address `accept4` fills in. -/
structure Answer where
  accept : Int
  peer : SockAddr
  connect : Int

/-- What the calls of an attempt return, each where it is made. -/
structure Outcomes extends Answer where
  socket : Int
  bind : Int
  setsockopt : Int
  listen : Int

/-- How `tcpv4_hole_punch` ends. -/
inductive Exit where
  | returned (fd : Option Descriptor)
  | raised (e : ConnectionError)
deriving DecidableEq

def inaddrAny : UInt32 := 0

/-- `settings.src_addr || INADDR_ANY`, which is a truth value. -/
def bindAddr (settings : HolePunchSettings) : UInt32 :=
  if settings.srcAddr ≠ 0 ∨ inaddrAny ≠ 0 then 1 else 0

/-- The body of the loop where it is left or comes to its end, before the guard goes. -/
structure Body where
  calls : List SysCall
  exit : Option Exit
  mainFd : SocketGuard

/-- The listening branch: `tcpv4_listen` and `tcpv4_accept_unsafe`. -/
def acceptPeer (settings : HolePunchSettings) (k : Nat) (o : Outcomes) (mainFd : Descriptor) :
    Body :=
  if o.listen < 0 then
    ⟨[.listen mainFd 1], some (.raised (.call "listening" o.listen)), ⟨some mainFd⟩⟩
  else if o.accept ≥ 0 then
    let calls := [.listen mainFd 1, .accept mainFd (some (.accepted k))]
    if o.peer.addr ≠ settings.dstAddr then
      ⟨calls, some (.raised (.text "Incorrent peer ip")), ⟨some mainFd⟩⟩
    else if o.peer.port ≠ settings.dstPort then
      ⟨calls, some (.raised (.text "Incorrent peer port")), ⟨some mainFd⟩⟩
    else ⟨calls, some (.returned (some (.accepted k))), ⟨some mainFd⟩⟩
  else ⟨[.listen mainFd 1, .accept mainFd none], none, ⟨some mainFd⟩⟩

/-- The connecting branch: `tcpv4_connect_unsafe`. -/
def connectPeer (settings : HolePunchSettings) (o : Outcomes) (mainFd : Descriptor) : Body :=
  let guard : SocketGuard := ⟨some mainFd⟩
  let calls := [.connect mainFd ⟨settings.dstPort, settings.dstAddr⟩]
  if o.connect = 0 then ⟨calls, some (.returned guard.handle.1), guard.handle.2⟩
  else ⟨calls, none, guard⟩

/-- The body of the loop once it has its socket: bind, set the timeout, and one of the two
branches. -/
def attemptBody (settings : HolePunchSettings) (listen : Bool) (k : Nat) (o : Outcomes)
    (mainFd : Descriptor) : Body :=
  let bound := SysCall.bind mainFd ⟨settings.srcPort, bindAddr settings⟩
  if o.bind < 0 then
    ⟨[bound], some (.raised (.call "binding port" o.bind)), ⟨some mainFd⟩⟩
  else if o.setsockopt < 0 then
    ⟨[bound, .setTimeout mainFd], some (.raised (.call "setting timeout" o.setsockopt)),
      ⟨some mainFd⟩⟩
  else
    let body := if listen then acceptPeer settings k o mainFd else connectPeer settings o mainFd
    { body with calls := bound :: .setTimeout mainFd :: body.calls }

/-- One attempt, the `k`th: the calls it makes and how it ends the function, if it does. -/
def attempt (settings : HolePunchSettings) (listen : Bool) (k : Nat) (o : Outcomes) :
    List SysCall × Option Exit :=
  if o.socket < 0 then ([.socket none], some (.raised (.call "creating socket" o.socket)))
  else
    let body := attemptBody settings listen k o (.socket k)
    (.socket (some (.socket k)) :: (body.calls ++ body.mainFd.destruct), body.exit)

section Attempt

variable {settings : HolePunchSettings} {listen : Bool} {k : Nat} {o : Outcomes} {fd : Descriptor}

/-- An attempt whose socket is bound goes on to its branch, and closes what the guard holds. -/
theorem attempt_bound (socket : 0 ≤ o.socket) (bind : 0 ≤ o.bind)
    (setsockopt : 0 ≤ o.setsockopt) {body : Body}
    (branch : (if listen then acceptPeer settings k o (.socket k)
      else connectPeer settings o (.socket k)) = body) :
    attempt settings listen k o =
      (.socket (some (.socket k)) ::
        .bind (.socket k) ⟨settings.srcPort, bindAddr settings⟩ :: .setTimeout (.socket k) ::
          (body.calls ++ body.mainFd.destruct), body.exit) := by
  rw [attempt, if_neg (Int.not_lt.mpr socket), attemptBody]
  dsimp only
  rw [if_neg (Int.not_lt.mpr bind), if_neg (Int.not_lt.mpr setsockopt), branch]
  rfl

theorem acceptPeer_fails (listened : 0 ≤ o.listen) (fails : o.accept < 0) :
    acceptPeer settings k o fd = ⟨[.listen fd 1, .accept fd none], none, ⟨some fd⟩⟩ := by
  rw [acceptPeer, if_neg (Int.not_lt.mpr listened), if_neg (Int.not_le.mpr fails)]

theorem acceptPeer_known (listened : 0 ≤ o.listen) (accepted : 0 ≤ o.accept)
    (known : o.peer = settings.dst) :
    acceptPeer settings k o fd =
      ⟨[.listen fd 1, .accept fd (some (.accepted k))], some (.returned (some (.accepted k))),
        ⟨some fd⟩⟩ := by
  rw [acceptPeer, if_neg (Int.not_lt.mpr listened), if_pos accepted, known]
  simp [HolePunchSettings.dst]

/-- A stranger raises, with the listening socket in the guard and his in a plain field. -/
theorem acceptPeer_strange (listened : 0 ≤ o.listen) (accepted : 0 ≤ o.accept)
    (strange : o.peer ≠ settings.dst) :
    ∃ e, acceptPeer settings k o fd =
      ⟨[.listen fd 1, .accept fd (some (.accepted k))], some (.raised e), ⟨some fd⟩⟩ := by
  rw [acceptPeer, if_neg (Int.not_lt.mpr listened), if_pos accepted]
  dsimp only
  by_cases addr : o.peer.addr = settings.dstAddr
  · have port : o.peer.port ≠ settings.dstPort := by
      intro port
      refine strange ?_
      rw [HolePunchSettings.dst, ← addr, ← port]
    exact ⟨_, by rw [if_neg (not_not.mpr addr), if_pos port]⟩
  · exact ⟨_, by rw [if_pos addr]⟩

theorem connectPeer_fails (fails : o.connect ≠ 0) :
    connectPeer settings o fd = ⟨[.connect fd settings.dst], none, ⟨some fd⟩⟩ := by
  rw [connectPeer, HolePunchSettings.dst]
  exact if_neg fails

theorem connectPeer_succeeds (succeeds : o.connect = 0) :
    connectPeer settings o fd =
      ⟨[.connect fd settings.dst], some (.returned (some fd)), ⟨none⟩⟩ := by
  rw [connectPeer, HolePunchSettings.dst]
  exact if_pos succeeds

end Attempt

/-- A run: the calls of its attempts, and how it ended. -/
structure Run where
  attempts : List (List SysCall)
  exit : Exit
deriving DecidableEq

theorem toNat_pred {tries : UInt32} (more : tries ≠ 0) :
    (tries - 1).toNat + 1 = tries.toNat := by
  have pos : 1 ≤ tries.toNat := by
    rcases Nat.eq_zero_or_pos tries.toNat with zero | pos
    · exact absurd (UInt32.toNat_inj.mp zero) more
    · exact pos
  have one : (1 : UInt32) ≤ tries := UInt32.le_iff_toNat_le.mpr pos
  rw [UInt32.toNat_sub_of_le _ _ one, UInt32.toNat_one]
  exact Nat.sub_add_cancel pos

/-- Zero is where counting down ends, so before it there is less to count. -/
theorem tries_lt {tries : UInt32} (more : tries - 1 ≠ 0) :
    (tries - 1 - 1).toNat < (tries - 1).toNat := by
  have := toNat_pred more
  omega

/-- The loop from the `k`th attempt on, with `connect_tries` and `listen` as they are then. -/
def punchFrom (settings : HolePunchSettings) (outcomes : Nat → Outcomes) (k : Nat)
    (listen : Bool) (connectTries : UInt32) : Run :=
  match attempt settings listen k (outcomes k) with
  | (calls, some exit) => ⟨[calls], exit⟩
  | (calls, none) =>
    if connectTries - 1 ≠ 0 then
      let later := punchFrom settings outcomes (k + 1) (!listen) (connectTries - 1)
      ⟨calls :: later.attempts, later.exit⟩
    else ⟨[calls], .raised (.text "TCPv4 hole punching failed")⟩
termination_by (connectTries - 1).toNat
decreasing_by exact tries_lt ‹_›

def tcpv4HolePunch (settings : HolePunchSettings) (outcomes : Nat → Outcomes) : Run :=
  punchFrom settings outcomes 0 settings.listenFirst settings.connectCount

/-! ## Runs -/

/-- Whether the `k`th attempt listens. -/
def HolePunchSettings.listens (settings : HolePunchSettings) (k : Nat) : Bool :=
  settings.listenFirst != (k % 2 == 1)

theorem listens_succ (settings : HolePunchSettings) (k : Nat) :
    settings.listens (k + 1) = !settings.listens k := by
  rcases Nat.mod_two_eq_zero_or_one k with even | odd
  · have next : (k + 1) % 2 = 1 := by omega
    simp [HolePunchSettings.listens, even, next]
  · have next : (k + 1) % 2 = 0 := by omega
    simp [HolePunchSettings.listens, odd, next]

/-- The `k`th attempt as a run comes to it. -/
def attemptAt (settings : HolePunchSettings) (outcomes : Nat → Outcomes) (k : Nat) :
    List SysCall × Option Exit :=
  attempt settings (settings.listens k) k (outcomes k)

/-- A run from the `k`th attempt on with up to `more` after it: `last` of them fail, and the
next ends it or is the last there is. -/
structure Punching (settings : HolePunchSettings) (outcomes : Nat → Outcomes) (k more last : Nat)
    (run : Run) : Prop where
  within : last ≤ more
  attempts : run.attempts =
    (List.range (last + 1)).map fun j => (attemptAt settings outcomes (k + j)).1
  failed : ∀ j < last, (attemptAt settings outcomes (k + j)).2 = none
  ended : (attemptAt settings outcomes (k + last)).2 = some run.exit ∨
    (attemptAt settings outcomes (k + last)).2 = none ∧ last = more ∧
      run.exit = .raised (.text "TCPv4 hole punching failed")

namespace Punching

variable {settings : HolePunchSettings} {outcomes : Nat → Outcomes} {more last : Nat} {run : Run}

theorem length (punching : Punching settings outcomes 0 more last run) :
    run.attempts.length = last + 1 := by
  rw [punching.attempts, List.length_map, List.length_range]

theorem getElem? (punching : Punching settings outcomes 0 more last run) {k : Nat}
    {calls : List SysCall} (here : run.attempts[k]? = some calls) :
    calls = (attemptAt settings outcomes k).1 := by
  rw [punching.attempts, List.getElem?_map] at here
  obtain ⟨j, there, rfl⟩ := Option.map_eq_some_iff.mp here
  obtain ⟨within, same⟩ := List.getElem?_eq_some_iff.mp there
  rw [List.getElem_range] at same
  rw [same, Nat.zero_add]

/-- The first attempt that does not fail ends the run. -/
theorem at_first (punching : Punching settings outcomes 0 more last run) {k : Nat}
    (within : k ≤ more) (before : ∀ j < k, (attemptAt settings outcomes j).2 = none) {exit : Exit}
    (ends : (attemptAt settings outcomes k).2 = some exit) : last = k ∧ run.exit = exit := by
  have failed := punching.failed
  have ended := punching.ended
  rw [Nat.zero_add] at ended
  rcases Nat.lt_trichotomy last k with early | rfl | late
  · rw [before last early] at ended
    rcases ended with found | ⟨-, all, -⟩
    · cases found
    · omega
  · rw [ends] at ended
    rcases ended with found | ⟨fails, -, -⟩
    · exact ⟨rfl, (Option.some.inj found).symm⟩
    · cases fails
  · have fails := failed k late
    rw [Nat.zero_add, ends] at fails
    cases fails

/-- If none ends it, all there are have been made. -/
theorem exhausts (punching : Punching settings outcomes 0 more last run)
    (fails : ∀ j ≤ more, (attemptAt settings outcomes j).2 = none) :
    last = more ∧ run.exit = .raised (.text "TCPv4 hole punching failed") := by
  have ended := punching.ended
  rw [Nat.zero_add, fails last punching.within] at ended
  rcases ended with found | ⟨-, all, exit⟩
  · cases found
  · exact ⟨all, exit⟩

end Punching

/-- Whatever the counter starts from, the loop runs until an attempt ends it or it is down. -/
theorem punchFrom_run (settings : HolePunchSettings) (outcomes : Nat → Outcomes) (k : Nat)
    (tries : UInt32) : ∃ last, Punching settings outcomes k (tries - 1).toNat last
      (punchFrom settings outcomes k (settings.listens k) tries) := by
  obtain ⟨more, count⟩ : ∃ more, (tries - 1).toNat = more := ⟨_, rfl⟩
  induction more using Nat.strongRecOn generalizing k tries with
  | _ more ih =>
      rw [count, punchFrom]
      obtain ⟨calls, exit, this⟩ : ∃ calls exit, attemptAt settings outcomes k = (calls, exit) :=
        ⟨_, _, rfl⟩
      have here := this
      rw [attemptAt] at here
      rw [here]
      cases exit with
      | some exit =>
          exact ⟨0, Nat.zero_le _, by simp [this], fun j less => absurd less (Nat.not_lt_zero j),
            .inl (by rw [Nat.add_zero, this])⟩
      | none =>
          dsimp only
          by_cases again : tries - 1 ≠ 0
          · have less := tries_lt again
            rw [count] at less
            obtain ⟨last, within, attempts, failed, ended⟩ := ih _ less (k + 1) (tries - 1) rfl
            rw [listens_succ] at attempts ended
            rw [if_pos again]
            refine ⟨last + 1, by omega, ?_, ?_, ?_⟩
            · rw [List.range_succ_eq_map, List.map_cons, List.map_map]
              dsimp only [Nat.add_zero]
              rw [this, attempts]
              refine congrArg _ (List.map_congr_left fun j _ => ?_)
              rw [Function.comp_apply, Nat.succ_eq_add_one, Nat.add_right_comm, Nat.add_assoc]
            · intro j before
              cases j with
              | zero => rw [Nat.add_zero, this]
              | succ j =>
                  rw [Nat.add_comm j 1, ← Nat.add_assoc]
                  exact failed j (by omega)
            · rw [Nat.add_comm last 1, ← Nat.add_assoc]
              rcases ended with ends | ⟨fails, all, exit⟩
              · exact .inl ends
              · refine .inr ⟨fails, ?_, exit⟩
                rw [all, Nat.add_comm, toNat_pred again, count]
          · rw [not_not] at again
            rw [if_neg (not_not.mpr again)]
            have zero : more = 0 := by
              rw [← count, again]
              rfl
            exact ⟨0, Nat.zero_le _, by simp [this], fun j less => absurd less (Nat.not_lt_zero j),
              .inr ⟨by rw [Nat.add_zero, this], zero.symm, rfl⟩⟩

theorem tcpv4HolePunch_run (settings : HolePunchSettings) (outcomes : Nat → Outcomes) :
    ∃ last, Punching settings outcomes 0 (settings.connectCount - 1).toNat last
      (tcpv4HolePunch settings outcomes) := by
  have start : settings.listens 0 = settings.listenFirst := by
    simp [HolePunchSettings.listens]
  obtain ⟨last, punching⟩ := punchFrom_run settings outcomes 0 settings.connectCount
  rw [start] at punching
  exact ⟨last, punching⟩

end UdpStuff.Net
