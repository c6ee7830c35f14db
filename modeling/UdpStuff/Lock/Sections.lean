/-
# Lock.Sections — critical sections, one after the other

Threads that share some data access it while they hold the lock, by as many steps as they like,
between which anything may happen: steps of other threads inside the lock object, and sleepers
that wake up by themselves.

`critical_sections_serial`: to every run there is a run of a monitor with the same history
(`simulated_step`), so that the sections are as if each was made at one go, in the order in which
the lock was taken.  A `wait` ends one section and begins another.
-/
import UdpStuff.Lock.MutualExclusion
import UdpStuff.Theory.Monitor

namespace UdpStuff.Lock

set_option autoImplicit false

open UdpStuff.Theory

variable {Thread D : Type} [DecidableEq Thread] {lock : LockObject}

/-- What a monitor sees of a step. -/
def Act.seen (t : Thread) : Act → List (MonitorEvent Thread D)
  | .acquire => [.acquire t]
  | .release => [.release t]
  | _ => []

/-- A step of a system with data: of the lock object, also by itself, or an access of a thread
that has returned from `lock_c` or `wait` and makes no call. -/
inductive ClientStep (lock : LockObject) (s : State Thread) (d : D) :
    List (MonitorEvent Thread D) → State Thread → D → Prop where
  | code {t : Thread} {act : Act} {s' : State Thread} (step : Step lock s (t, act) s') :
    ClientStep lock s d (act.seen t) s' d
  | wakesUp {t : Thread} {sleeper : Sleeper} (here : s.pc t = .asleep sleeper) :
    ClientStep lock s d [] ⟨s.shared, Function.update s.pc t (.subWaiter sleeper)⟩ d
  | access {t : Thread} (here : s.pc t = .holding) (f : D → D) :
    ClientStep lock s d [.access t f] s (f d)

/-- From the start, with the history, first first. -/
inductive ClientRun (lock : LockObject) (d₀ : D) :
    List (MonitorEvent Thread D) → State Thread → D → Prop where
  | start : ClientRun lock d₀ [] .start d₀
  | step {history events : List (MonitorEvent Thread D)} {s s' : State Thread} {d d' : D}
    (run : ClientRun lock d₀ history s d) (step : ClientStep lock s d events s' d') :
    ClientRun lock d₀ (history ++ events) s' d'

/-! ## Who owns -/

/-- The thread that owns, if there is one. -/
def OwnedBy (s : State Thread) (owner : Option Thread) : Prop :=
  ∀ t, owner = some t ↔ (s.pc t).owns = true

/-- What an act says of the thread that makes it: it becomes an owner by taking the lock when it
is free, and ceases to be one by the release. -/
def Act.Passes (m : Shared) (pc pc' : Pc) : Act → Prop
  | .acquire => m.futexVar = 0 ∧ pc'.owns = true
  | .release => pc.owns = true ∧ pc'.owns = false
  | _ => pc'.owns = pc.owns

theorem move_passes {pc pc' : Pc} {m m' : Shared} {act : Act} (move : Move lock pc m act pc' m') :
    act.Passes m pc pc' := by
  cases move
  case lock free => exact ⟨free, rfl⟩
  case brute free => exact ⟨free, rfl⟩
  case retry free => exact ⟨free, rfl⟩
  case release => exact ⟨rfl, owns_released lock _⟩
  case lockFails => exact owns_lockWait lock
  case subBrute got => cases got <;> rfl
  case subWaiter sleeper => exact owns_sleeper_next sleeper
  case spinners unlocker _ => exact owns_unlocker_next unlocker
  case noWaiters caller _ =>
    have same := owns_caller_next caller
    rcases caller with unlocker | ⟨_ | _, _ | n⟩ <;> exact same
  all_goals rfl

section Owner

variable {s : State Thread} {owner : Option Thread}

omit [DecidableEq Thread] in
/-- Nobody's ownership changes. -/
theorem OwnedBy.keep (owned : OwnedBy s owner) {shared : Shared} {pc : Thread → Pc}
    (same : ∀ u, (pc u).owns = (s.pc u).owns) : OwnedBy ⟨shared, pc⟩ owner := by
  intro u
  rw [same u]
  exact owned u

theorem owns_update {place : Thread → Pc} {t : Thread} {pc : Pc}
    (same : pc.owns = (place t).owns) (u : Thread) :
    (Function.update place t pc u).owns = (place u).owns := by
  by_cases this : u = t
  · subst this
    rw [Function.update_self, same]
  · rw [Function.update_of_ne this]

omit [DecidableEq Thread] in
/-- While the variable is zero there is no owner. -/
theorem OwnedBy.none_of_free (owned : OwnedBy s owner) (counted : Counted s)
    (free : s.shared.futexVar = 0) : owner = none := by
  cases owner with
  | none => rfl
  | some t =>
      have taken := counted.owned ((owned t).mp rfl)
      omega

theorem OwnedBy.acquire (owned : OwnedBy s none) {t : Thread} {pc : Pc} {shared : Shared}
    (owns : pc.owns = true) : OwnedBy ⟨shared, Function.update s.pc t pc⟩ (some t) := by
  intro u
  by_cases this : u = t
  · subst this
    simp [owns]
  · have other := owned u
    simpa [Function.update_of_ne this, Ne.symm this] using other

theorem OwnedBy.release (owned : OwnedBy s owner) {t : Thread} (here : (s.pc t).owns = true)
    {pc : Pc} {shared : Shared} (lets : pc.owns = false) :
    owner = some t ∧ OwnedBy ⟨shared, Function.update s.pc t pc⟩ none := by
  have this := (owned t).mpr here
  refine ⟨this, fun u => ?_⟩
  by_cases same : u = t
  · subst same
    simp [lets]
  · have other := owned u
    rw [this] at other
    simpa [Function.update_of_ne same, Ne.symm same] using other

end Owner

/-! ## The monitor follows -/

/-- A step with data is a step of a monitor, or none. -/
theorem simulated_step {s s' : State Thread} {d d' : D} {events : List (MonitorEvent Thread D)}
    {owner : Option Thread} (counted : Counted s) (owned : OwnedBy s owner)
    (step : ClientStep lock s d events s' d') :
    ∃ owner', run Monitor.step ⟨owner, d⟩ events = some ⟨owner', d'⟩ ∧ OwnedBy s' owner' := by
  cases step with
  | wakesUp here =>
      refine ⟨owner, rfl, owned.keep (owns_update ?_)⟩
      rw [here]
      rfl
  | access here f =>
      have this := (owned _).mpr (show (s.pc _).owns = true by rw [here]; rfl)
      subst this
      exact ⟨_, by simp [run, Monitor.step], owned⟩
  | code step =>
      rename_i t act
      cases step with
      | move move =>
          have owns := move_passes move
          cases act with
          | acquire =>
              obtain rfl := owned.none_of_free counted owns.1
              exact ⟨some t, by simp [run, Act.seen, Monitor.step], owned.acquire owns.2⟩
          | release =>
              obtain ⟨rfl, free⟩ := owned.release owns.1 owns.2
              exact ⟨none, by simp [run, Act.seen, Monitor.step], free⟩
          | notifyAll => exact ⟨owner, rfl, owned.keep (owns_update owns)⟩
          | other => exact ⟨owner, rfl, owned.keep (owns_update owns)⟩
      | @wake _ caller woken here wakes =>
          have silent : caller.done.seen t = ([] : List (MonitorEvent Thread D)) := by
            rcases caller with unlocker | ⟨_ | _, _ | n⟩ <;> rfl
          have woke : ∀ u, (wakeAll s.pc woken u).owns = (s.pc u).owns :=
            region_wakeAll (fun _ => rfl) s.pc woken
          have unmoved : wakeAll s.pc woken t = s.pc t := wakeAll_of_awake (by rw [here]; rfl)
          rw [silent]
          refine ⟨owner, rfl, owned.keep fun u => ?_⟩
          rw [owns_update, woke u]
          rw [unmoved, here, owns_caller_next]
          rfl

theorem counted_clientStep {s s' : State Thread} {d d' : D}
    {events : List (MonitorEvent Thread D)} (counted : Counted s)
    (step : ClientStep lock s d events s' d') : Counted s' := by
  cases step with
  | code step => exact counted_step counted step
  | wakesUp here => exact counted_wakesUp counted here
  | access here f => exact counted

/-- A run with data is a run of a monitor. -/
theorem simulated_run {d₀ d : D} {history : List (MonitorEvent Thread D)} {s : State Thread}
    (ran : ClientRun lock d₀ history s d) :
    Counted s ∧ ∃ owner, Monitor.Serializes d₀ history ⟨owner, d⟩ ∧ OwnedBy s owner := by
  induction ran with
  | start =>
      refine ⟨counted_start, none, Monitor.serializes_start d₀, fun t => ?_⟩
      simp [State.start, Pc.owns]
  | step ran step ih =>
      obtain ⟨counted, owner, serializes, owned⟩ := ih
      obtain ⟨owner', follows, owned'⟩ := simulated_step counted owned step
      exact ⟨counted_clientStep counted step, owner', Monitor.serializes_run serializes follows,
        owned'⟩

/-- **Critical sections are serial.**  In every run, of either class and of any threads, the
acquires, accesses and releases are those of one section after the other, the last of which may be
open; the data is what the sections make of it in this order, and the thread of the open section
is the one that has the lock. -/
theorem critical_sections_serial {d₀ d : D} {history : List (MonitorEvent Thread D)}
    {s : State Thread} (ran : ClientRun lock d₀ history s d) :
    ∃ (sections : List (CriticalSection Thread D)) (last : Option (CriticalSection Thread D)),
      history = sections.flatMap CriticalSection.closed ++ last.elim [] CriticalSection.opened ∧
      d = CriticalSection.serial (sections ++ last.toList) d₀ ∧
      ∀ t, (∃ c ∈ last, c.thread = t) ↔ (s.pc t).owns = true := by
  obtain ⟨-, owner, ⟨sections, last, as⟩, owned⟩ := simulated_run ran
  refine ⟨sections, last, as.events, as.data, fun t => ?_⟩
  rw [← owned t, show owner = last.map CriticalSection.thread from as.owner]
  simp

/-- One thread adds one in its section, and another doubles in the section after it. -/
theorem critical_sections_serial_two : ∃ s : State Bool,
    ∃ (sections : List (CriticalSection Bool Nat)) (last : Option (CriticalSection Bool Nat)),
      [MonitorEvent.acquire false, .access false (· + 1), .release false, .acquire true,
          .access true (2 * ·)] =
        sections.flatMap CriticalSection.closed ++ last.elim [] CriticalSection.opened ∧
      4 = CriticalSection.serial (sections ++ last.toList) 1 ∧
      ∀ t, (∃ c ∈ last, c.thread = t) ↔ (s.pc t).owns = true := by
  have begun : ClientRun .simple 1 [] (.start : State Bool) 1 := .start
  have first := (begun.step (.code (.move (t := false) .callLock))
    |>.step (.code (.move (t := false) (.lock rfl)))
    |>.step (.access (t := false) rfl (· + 1))
    |>.step (.code (.move (t := false) .callUnlock))
    |>.step (.code (.move (t := true) .callLock))
    |>.step (.code (.move (t := false) .release))
    |>.step (.code (.move (t := true) (.lock rfl)))
    |>.step (.code (.move (t := false) (.noWaiters rfl))))
  have second := first.step (.access (t := true) rfl (2 * ·))
  exact ⟨_, critical_sections_serial second⟩

end UdpStuff.Lock
