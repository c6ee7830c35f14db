/-
# Lock.MutualExclusion — one holder, whatever wakes the sleepers

`FUTEX_WAIT` may return without a `FUTEX_WAKE`: on a signal, or for no reason at all.
`SpuriousStep` has such returns besides the steps of the code, and `Reached` are the
states that any number of threads come to by any of them.  What the variables count
(`Counted`) is kept by a return too, so there is one owner and the counters say how
many threads are inside `futex_wait` and `__brute_lock_wait` (`reached_exclusive`).
-/
import UdpStuff.Lock.Wakeups
import Mathlib.Logic.Relation

namespace UdpStuff.Lock

set_option autoImplicit false

open UdpStuff.Theory

variable {Thread : Type} [DecidableEq Thread] {lock : LockObject}

/-- A step of the code, or a sleeper that wakes up by itself. -/
inductive SpuriousStep (lock : LockObject) (s : State Thread) : State Thread → Prop where
  | step {event : Thread × Act} {s' : State Thread} (step : Step lock s event s') :
    SpuriousStep lock s s'
  | wakesUp {t : Thread} {sleeper : Sleeper} (here : s.pc t = .asleep sleeper) :
    SpuriousStep lock s ⟨s.shared, Function.update s.pc t (.subWaiter sleeper)⟩

/-- Any interleaving of any threads, from the start. -/
def Reached (lock : LockObject) (s : State Thread) : Prop :=
  Relation.ReflTransGen (SpuriousStep lock) .start s

/-- Every run of the code is one of these. -/
theorem Run.reached {allowed : State Thread → Thread × Act → Prop} {done : List (Thread × Act)}
    {s : State Thread} (run : Run lock allowed done s) : Reached lock s :=
  run.induct_inv (P := fun _ s => Reached lock s) .refl
    fun _ _ _ _ reached _ step => reached.tail (.step step)

/-- One thread at most is past the return of `lock_c` or `wait` and before its next `wait`
or `unlock_c`, and each counter is the number of threads in its region. -/
structure Exclusive (s : State Thread) : Prop where
  one : ∀ t u, (s.pc t).owns = true → (s.pc u).owns = true → t = u
  waiters : Counts Pc.inFutexWait s.pc s.shared.numFutexWaiters
  spinners : Counts Pc.spins s.pc s.shared.numBruteWaiters
  waitersNonneg : 0 ≤ s.shared.numFutexWaiters
  spinnersNonneg : 0 ≤ s.shared.numBruteWaiters

omit [DecidableEq Thread] in
theorem Counted.exclusive {s : State Thread} (counted : Counted s) : Exclusive s where
  one _ _ first second := counted.owners.unique (counted.owned first).le first second
  waiters := counted.waiters
  spinners := counted.spinners
  waitersNonneg := counted.waiters.nonneg
  spinnersNonneg := counted.spinners.nonneg

/-- A sleeper that wakes up stays in every region it is in. -/
theorem counted_wakesUp {s : State Thread} {t : Thread} {sleeper : Sleeper} (counted : Counted s)
    (here : s.pc t = .asleep sleeper) :
    Counted ⟨s.shared, Function.update s.pc t (.subWaiter sleeper)⟩ where
  binary := counted.binary
  owners := counted.owners.update (by rw [here]; rfl)
  waiters := counted.waiters.update (by rw [here]; rfl)
  spinners := counted.spinners.update (by rw [here]; rfl)

theorem counted_spuriousStep {s s' : State Thread} (counted : Counted s)
    (step : SpuriousStep lock s s') : Counted s' := by
  cases step with
  | step step => exact counted_step counted step
  | wakesUp here => exact counted_wakesUp counted here

theorem counted_reached {s : State Thread} (reached : Reached lock s) : Counted s := by
  induction reached with
  | refl => exact counted_start
  | tail _ step ih => exact counted_spuriousStep ih step

/-- **Mutual exclusion with condition waits**, for either class. -/
theorem reached_exclusive {s : State Thread} (reached : Reached lock s) : Exclusive s :=
  (counted_reached reached).exclusive

/-- A waiter wakes up by itself while another thread has the lock. -/
theorem reached_exclusive_woken : ∃ s : State Bool, s.pc false = .tryLock ∧
    s.pc true = .holding ∧ Exclusive s := by
  have begun : Run .simple Always [] (.start : State Bool) := .start
  have waiting := (begun.step trivial (.move (t := false) .callLock)
    |>.step trivial (.move (t := false) (.lock rfl))
    |>.step trivial (.move (t := false) .callWait)
    |>.step trivial (.move (t := false) .release)
    |>.step trivial (.move (t := false) (.noWaiters rfl))
    |>.step trivial (.move (t := false) .addWaiter)
    |>.step trivial (.move (t := false) (.sleep rfl)))
  have woken := (waiting.reached.tail (.wakesUp (t := false) rfl)
    |>.tail (.step (.move (t := true) .callLock))
    |>.tail (.step (.move (t := true) (.lock rfl)))
    |>.tail (.step (.move (t := false) .subWaiter)))
  exact ⟨_, rfl, rfl, reached_exclusive woken⟩

end UdpStuff.Lock
