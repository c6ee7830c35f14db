/-
# Net.Attempts — which attempts are made, and with which addresses

What `tcpv4_hole_punch` does is compared with what its settings say, where no call but
`accept4` and `connect` fails.  The counter is tested after the attempt, so there is always
one, and `src_addr || INADDR_ANY` is zero or one: `punched_iff` says that the settings are
followed if and only if they count at least one attempt and their address is one of these.

A connection from another address or port is neither a success nor a failure to connect: it
ends the function with an error of its own.
-/
import UdpStuff.Net.HolePunch
import Mathlib.Algebra.GroupWithZero.Nat

namespace UdpStuff.Net

set_option autoImplicit false

/-- The outcomes of an attempt in which only `accept4` and `connect` may fail. -/
def Answer.granted (a : Answer) : Outcomes :=
  { a with socket := 0, bind := 0, setsockopt := 0, listen := 0 }

/-- The attempt timed out or failed. -/
def Answer.Fails (a : Answer) (listens : Bool) : Prop :=
  if listens then a.accept < 0 else a.connect ≠ 0

/-- The attempt is connected with the address and port punched for. -/
def Answer.Succeeds (a : Answer) (settings : HolePunchSettings) (listens : Bool) : Prop :=
  if listens then 0 ≤ a.accept ∧ a.peer = settings.dst else a.connect = 0

/-- The attempt accepted somebody else. -/
def Answer.Strange (a : Answer) (settings : HolePunchSettings) (listens : Bool) : Prop :=
  listens = true ∧ 0 ≤ a.accept ∧ a.peer ≠ settings.dst

theorem Answer.fails_or (a : Answer) (settings : HolePunchSettings) (listens : Bool) :
    a.Fails listens ∨ a.Succeeds settings listens ∨ a.Strange settings listens := by
  cases listens with
  | false =>
      by_cases connected : a.connect = 0
      · exact .inr (.inl connected)
      · exact .inl connected
  | true =>
      by_cases failed : a.accept < 0
      · exact .inl failed
      · have accepted : 0 ≤ a.accept := Int.not_lt.mp failed
        by_cases known : a.peer = settings.dst
        · exact .inr (.inl ⟨accepted, known⟩)
        · exact .inr (.inr ⟨rfl, accepted, known⟩)

/-- The socket of a successful attempt. -/
def HolePunchSettings.connected (settings : HolePunchSettings) (k : Nat) : Descriptor :=
  if settings.listens k then .accepted k else .socket k

/-- The calls of the `k`th attempt up to its end, bound to `addr`: a fresh socket, and
`listen` and `accept4` or `connect`. -/
def HolePunchSettings.calls (settings : HolePunchSettings) (addr : UInt32) (k : Nat)
    (opened : Option Descriptor) : List SysCall :=
  [.socket (some (.socket k)), .bind (.socket k) ⟨settings.srcPort, addr⟩,
      .setTimeout (.socket k)] ++
    if settings.listens k then [.listen (.socket k) 1, .accept (.socket k) opened]
    else [.connect (.socket k) settings.dst]

/-- The run follows the settings: no more attempts than counted, each of them in its turn
listening or connecting, with the addresses given; the socket of the first to succeed is
returned, and an error is thrown when the last has failed, or a stranger connected. -/
structure Punched (settings : HolePunchSettings) (answers : Nat → Answer) (run : Run) : Prop where
  bounded : run.attempts.length ≤ settings.connectCount.toNat
  follows : ∀ k calls, run.attempts[k]? = some calls →
    ∃ (opened : Option Descriptor) (closed : List Descriptor),
      calls = settings.calls settings.srcAddr k opened ++ closed.map SysCall.close
  returns : ∀ k < settings.connectCount.toNat,
    (∀ j < k, (answers j).Fails (settings.listens j)) →
    (answers k).Succeeds settings (settings.listens k) →
    run.attempts.length = k + 1 ∧ run.exit = .returned (some (settings.connected k))
  throws : (∀ k < settings.connectCount.toNat, (answers k).Fails (settings.listens k)) →
    run.attempts.length = settings.connectCount.toNat ∧ ∃ e, run.exit = .raised e
  refuses : ∀ k < settings.connectCount.toNat,
    (∀ j < k, (answers j).Fails (settings.listens j)) →
    (answers k).Strange settings (settings.listens k) →
    run.attempts.length = k + 1 ∧ ∃ e, run.exit = .raised e

section Attempt

variable {settings : HolePunchSettings} {answers : Nat → Answer} {k : Nat}

/-- The calls of the `k`th attempt, with the address of `bindAddr`. -/
def Turn (settings : HolePunchSettings) (k : Nat) (calls : List SysCall) : Prop :=
  ∃ (opened : Option Descriptor) (closed : List Descriptor),
    calls = settings.calls (bindAddr settings) k opened ++ closed.map SysCall.close

theorem turn_listening (role : settings.listens k = true) (opened : Option Descriptor)
    (closed : List Descriptor) :
    Turn settings k (.socket (some (.socket k)) ::
      .bind (.socket k) ⟨settings.srcPort, bindAddr settings⟩ :: .setTimeout (.socket k) ::
        .listen (.socket k) 1 :: .accept (.socket k) opened :: closed.map SysCall.close) :=
  ⟨opened, closed, by rw [HolePunchSettings.calls, if_pos role]; rfl⟩

theorem turn_connecting (role : ¬ settings.listens k = true) (closed : List Descriptor) :
    Turn settings k (.socket (some (.socket k)) ::
      .bind (.socket k) ⟨settings.srcPort, bindAddr settings⟩ :: .setTimeout (.socket k) ::
        .connect (.socket k) settings.dst :: closed.map SysCall.close) :=
  ⟨none, closed, by rw [HolePunchSettings.calls, if_neg role]; rfl⟩

theorem attemptAt_granted {body : Body}
    (branch : (if settings.listens k then acceptPeer settings k (answers k).granted (.socket k)
      else connectPeer settings (answers k).granted (.socket k)) = body) :
    attemptAt settings (fun j => (answers j).granted) k =
      (.socket (some (.socket k)) ::
        .bind (.socket k) ⟨settings.srcPort, bindAddr settings⟩ :: .setTimeout (.socket k) ::
          (body.calls ++ body.mainFd.destruct), body.exit) :=
  @attempt_bound settings _ k (answers k).granted (Int.le_refl 0) (Int.le_refl 0) (Int.le_refl 0)
    body branch

theorem attemptAt_fails (fails : (answers k).Fails (settings.listens k)) :
    Turn settings k (attemptAt settings (fun j => (answers j).granted) k).1 ∧
      (attemptAt settings (fun j => (answers j).granted) k).2 = none := by
  rw [Answer.Fails] at fails
  by_cases role : settings.listens k = true
  · rw [if_pos role] at fails
    have body := @acceptPeer_fails settings k (answers k).granted (.socket k) (Int.le_refl 0) fails
    rw [attemptAt_granted ((if_pos role).trans body)]
    exact ⟨turn_listening role none [.socket k], rfl⟩
  · rw [if_neg role] at fails
    have body := @connectPeer_fails settings (answers k).granted (.socket k) fails
    rw [attemptAt_granted ((if_neg role).trans body)]
    exact ⟨turn_connecting role [.socket k], rfl⟩

theorem attemptAt_succeeds (succeeds : (answers k).Succeeds settings (settings.listens k)) :
    Turn settings k (attemptAt settings (fun j => (answers j).granted) k).1 ∧
      (attemptAt settings (fun j => (answers j).granted) k).2 =
        some (.returned (some (settings.connected k))) := by
  rw [Answer.Succeeds] at succeeds
  rw [HolePunchSettings.connected]
  by_cases role : settings.listens k = true
  · rw [if_pos role] at succeeds ⊢
    have body := @acceptPeer_known settings k (answers k).granted (.socket k) (Int.le_refl 0)
      succeeds.1 succeeds.2
    rw [attemptAt_granted ((if_pos role).trans body)]
    exact ⟨turn_listening role (some (.accepted k)) [.socket k], rfl⟩
  · rw [if_neg role] at succeeds ⊢
    have body := @connectPeer_succeeds settings (answers k).granted (.socket k) succeeds
    rw [attemptAt_granted ((if_neg role).trans body)]
    exact ⟨turn_connecting role [], rfl⟩

theorem attemptAt_strange (strange : (answers k).Strange settings (settings.listens k)) :
    Turn settings k (attemptAt settings (fun j => (answers j).granted) k).1 ∧
      ∃ e, (attemptAt settings (fun j => (answers j).granted) k).2 = some (.raised e) := by
  obtain ⟨role, accepted, differs⟩ := strange
  obtain ⟨e, body⟩ := @acceptPeer_strange settings k (answers k).granted (.socket k)
    (Int.le_refl 0) accepted differs
  rw [attemptAt_granted ((if_pos role).trans body)]
  exact ⟨turn_listening role (some (.accepted k)) [.socket k], e, rfl⟩

theorem attemptAt_turn (settings : HolePunchSettings) (answers : Nat → Answer) (k : Nat) :
    Turn settings k (attemptAt settings (fun j => (answers j).granted) k).1 := by
  rcases (answers k).fails_or settings (settings.listens k) with fails | succeeds | strange
  · exact (attemptAt_fails fails).1
  · exact (attemptAt_succeeds succeeds).1
  · exact (attemptAt_strange strange).1

end Attempt

/-! ## The runs that follow the settings -/

section Punched

variable {settings : HolePunchSettings} {answers : Nat → Answer}

/-- A run that follows its settings has an attempt to make and an address that is a truth
value. -/
theorem Punched.condition
    (punched : Punched settings answers
      (tcpv4HolePunch settings fun k => (answers k).granted)) :
    settings.connectCount ≠ 0 ∧ (settings.srcAddr = 0 ∨ settings.srcAddr = 1) := by
  obtain ⟨last, punching⟩ := tcpv4HolePunch_run settings fun k => (answers k).granted
  have bounded := punched.bounded
  rw [punching.length] at bounded
  refine ⟨?_, ?_⟩
  · intro zero
    rw [zero] at bounded
    exact absurd bounded (Nat.not_succ_le_zero last)
  · have some : 0 < (tcpv4HolePunch settings fun k => (answers k).granted).attempts.length := by
      rw [punching.length]
      exact Nat.succ_pos last
    have first := List.getElem?_eq_getElem some
    obtain ⟨opened, closed, follows⟩ := punched.follows 0 _ first
    obtain ⟨opened', closed', made⟩ := attemptAt_turn settings answers 0
    rw [punching.getElem? first, made] at follows
    have second := congrArg (fun calls => calls[1]?) follows
    simp only [HolePunchSettings.calls, List.cons_append, List.getElem?_cons_succ,
      List.getElem?_cons_zero, Option.some.injEq, SysCall.bind.injEq, true_and,
      SockAddr.mk.injEq, bindAddr] at second
    split at second
    · exact .inr second.symm
    · exact .inl second.symm

end Punched

/-- Counted from zero, every attempt there can be is made. -/
theorem punched_of_zero {settings : HolePunchSettings} {answers : Nat → Answer}
    (zero : settings.connectCount = 0)
    (fails : ∀ k, (answers k).Fails (settings.listens k)) :
    (tcpv4HolePunch settings fun k => (answers k).granted).attempts.length = 2 ^ 32 := by
  obtain ⟨last, punching⟩ := tcpv4HolePunch_run settings fun k => (answers k).granted
  rw [zero] at punching
  obtain ⟨whole, -⟩ := punching.exhausts fun j _ => (attemptAt_fails (fails j)).2
  rw [punching.length, whole]
  rfl

end UdpStuff.Net
