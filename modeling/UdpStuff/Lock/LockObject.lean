/-
# Lock.LockObject — the two lock objects, step by step

`LockObjectSimple` and `LockObjectBrute` for any number of threads.  A thread stands
before an atomic step of the code (`Pc`), and `Move` lists the steps: reads and writes
of the futex variable and of the two counters, and `FUTEX_WAIT`, which compares and
sleeps at once.  `FUTEX_WAKE` also moves sleepers (`Step.wake`).

The two differ in what follows a try that failed, and a release.  The counters do not
overflow: there are fewer threads than an `int` counts.  `FUTEX_WAKE` with `INT_MAX`
wakes all sleepers.  The assertion at the start of `wait` and `yield` do nothing here.

`Run` keeps what was done, last first, for the properties that speak of the past.
-/
import Mathlib.Data.Finset.Card
import Mathlib.Logic.Function.Basic

namespace UdpStuff.Lock

set_option autoImplicit false

/-! ## The code -/

/-- The class, with `BRUTE_WAIT_LIMIT` and `BRUTE_WAITERS_COUNT`. -/
inductive LockObject where
  | simple
  | brute (waitLimit waitersCount : Int)

/-- Where `futex_wait` is called. -/
inductive Sleeper where
  | lockWait
  | wait
deriving DecidableEq

/-- The value that the variable is compared with. -/
def Sleeper.startVal : Sleeper → Int
  | .lockWait => 1
  | .wait => 0

/-- Where `unlock_c` is called: by the user or in `wait`. -/
inductive Unlocker where
  | user
  | wait
deriving DecidableEq

/-- Where `notify` is called: in `unlock_c`, or by the user, who holds the lock or not. -/
inductive Caller where
  | unlock (unlocker : Unlocker)
  | user (held : Bool) (n : Option Nat)
deriving DecidableEq

/-- How many are to be woken; `none` is `INT_MAX`. -/
def Caller.n : Caller → Option Nat
  | .unlock _ => some 1
  | .user _ n => n

/-- The caller holds the lock. -/
def Caller.held : Caller → Bool
  | .unlock _ => false
  | .user held _ => held

/-- What a thread does next. -/
inductive Pc where
  /-- No operation; the lock is not held. -/
  | outside
  | holding
  /-- `atomic_try_lock` in `lock_c`. -/
  | tryLock
  /-- The comparison of `num_brute_waiters` in `__lock_wait`. -/
  | readBrute
  | addBrute
  /-- `atomic_try_lock` in `__brute_lock_wait`. -/
  | tryBrute (limit : Int)
  | subBrute (got : Bool)
  | addWaiter (sleeper : Sleeper)
  | futexWait (sleeper : Sleeper)
  | asleep (sleeper : Sleeper)
  | subWaiter (sleeper : Sleeper)
  /-- `atomic_try_lock` in the loop of `__lock_wait`. -/
  | retry
  | release (unlocker : Unlocker)
  /-- The test of `num_brute_waiters` in `unlock_c`. -/
  | readSpinners (unlocker : Unlocker)
  /-- The test of `num_futex_waiters` in `notify`. -/
  | readWaiters (caller : Caller)
  | futexWake (caller : Caller)
deriving DecidableEq

/-- What follows `futex_wait`: the loop of `__lock_wait`, or the `lock_c` of `wait`. -/
def Sleeper.next : Sleeper → Pc
  | .lockWait => .retry
  | .wait => .tryLock

/-- What follows `unlock_c`. -/
def Unlocker.next : Unlocker → Pc
  | .user => .outside
  | .wait => .addWaiter .wait

/-- What follows `notify`. -/
def Caller.next : Caller → Pc
  | .unlock unlocker => unlocker.next
  | .user true _ => .holding
  | .user false _ => .outside

/-- `__lock_wait` -/
def LockObject.lockWait : LockObject → Pc
  | .simple => .addWaiter .lockWait
  | .brute _ _ => .readBrute

/-- `unlock_c` behind the release. -/
def LockObject.released : LockObject → Unlocker → Pc
  | .simple, unlocker => .readWaiters (.unlock unlocker)
  | .brute _ _, unlocker => .readSpinners unlocker

/-- What of a step is remembered. -/
inductive Act where
  | acquire
  | release
  /-- The end of a `notifyAll` of the holder. -/
  | notifyAll
  | other
deriving DecidableEq

/-- `notify` has read the counter as zero, or has woken. -/
def Caller.done : Caller → Act
  | .user true none => .notifyAll
  | _ => .other

/-- The variables of the object. -/
structure Shared where
  futexVar : Int := 0
  numFutexWaiters : Int := 0
  numBruteWaiters : Int := 0
deriving DecidableEq

/-! ## Steps -/

/-- The steps of one thread. -/
inductive Move (lock : LockObject) : Pc → Shared → Act → Pc → Shared → Prop where
  | callLock {m} : Move lock .outside m .other .tryLock m
  | callUnlock {m} : Move lock .holding m .other (.release .user) m
  | callWait {m} : Move lock .holding m .other (.release .wait) m
  | callNotify {m n} : Move lock .holding m .other (.readWaiters (.user true n)) m
  | callNotifyOutside {m n} : Move lock .outside m .other (.readWaiters (.user false n)) m
  | lock {m} (free : m.futexVar = 0) :
    Move lock .tryLock m .acquire .holding { m with futexVar := 1 }
  | lockFails {m} (taken : m.futexVar ≠ 0) :
    Move lock .tryLock m .other lock.lockWait { m with futexVar := 1 }
  | spin {m limit count} (brute : lock = .brute limit count) (few : m.numBruteWaiters < count) :
    Move lock .readBrute m .other .addBrute m
  | noSpin {m limit count} (brute : lock = .brute limit count)
    (many : count ≤ m.numBruteWaiters) :
    Move lock .readBrute m .other (.addWaiter .lockWait) m
  | addBrute {m limit count} (brute : lock = .brute limit count) :
    Move lock .addBrute m .other (.tryBrute limit)
      { m with numBruteWaiters := m.numBruteWaiters + 1 }
  | brute {m limit} (free : m.futexVar = 0) :
    Move lock (.tryBrute limit) m .acquire (.subBrute true) { m with futexVar := 1 }
  | bruteAgain {m limit} (taken : m.futexVar ≠ 0) (left : limit - 1 ≠ 0) :
    Move lock (.tryBrute limit) m .other (.tryBrute (limit - 1)) { m with futexVar := 1 }
  | bruteEnds {m limit} (taken : m.futexVar ≠ 0) (last : limit - 1 = 0) :
    Move lock (.tryBrute limit) m .other (.subBrute false) { m with futexVar := 1 }
  | subBrute {m got} :
    Move lock (.subBrute got) m .other (if got then .holding else .addWaiter .lockWait)
      { m with numBruteWaiters := m.numBruteWaiters - 1 }
  | addWaiter {m sleeper} :
    Move lock (.addWaiter sleeper) m .other (.futexWait sleeper)
      { m with numFutexWaiters := m.numFutexWaiters + 1 }
  | sleep {m sleeper} (same : m.futexVar = sleeper.startVal) :
    Move lock (.futexWait sleeper) m .other (.asleep sleeper) m
  | noSleep {m sleeper} (differs : m.futexVar ≠ sleeper.startVal) :
    Move lock (.futexWait sleeper) m .other (.subWaiter sleeper) m
  | subWaiter {m sleeper} :
    Move lock (.subWaiter sleeper) m .other sleeper.next
      { m with numFutexWaiters := m.numFutexWaiters - 1 }
  | retry {m} (free : m.futexVar = 0) :
    Move lock .retry m .acquire .holding { m with futexVar := 1 }
  | retryFails {m} (taken : m.futexVar ≠ 0) :
    Move lock .retry m .other (.addWaiter .lockWait) { m with futexVar := 1 }
  | release {m unlocker} :
    Move lock (.release unlocker) m .release (lock.released unlocker) { m with futexVar := 0 }
  | spinners {m unlocker} (some : m.numBruteWaiters ≠ 0) :
    Move lock (.readSpinners unlocker) m .other unlocker.next m
  | noSpinners {m unlocker} (none : m.numBruteWaiters = 0) :
    Move lock (.readSpinners unlocker) m .other (.readWaiters (.unlock unlocker)) m
  | waiters {m caller} (some : m.numFutexWaiters ≠ 0) :
    Move lock (.readWaiters caller) m .other (.futexWake caller) m
  | noWaiters {m caller} (none : m.numFutexWaiters = 0) :
    Move lock (.readWaiters caller) m caller.done caller.next m

variable {Thread : Type}

structure State (Thread : Type) where
  shared : Shared
  pc : Thread → Pc

/-- No thread has begun. -/
def State.start : State Thread := ⟨{}, fun _ => .outside⟩

/-- `FUTEX_WAKE(n)` wakes `n` of the sleepers, or all if they are fewer. -/
structure Wakes (pc : Thread → Pc) (n : Option Nat) (woken : Finset Thread) : Prop where
  sleepers : ∀ u ∈ woken, ∃ sleeper, pc u = .asleep sleeper
  count : n = some woken.card ∨
    (∀ k, n = some k → woken.card ≤ k) ∧
      ∀ u sleeper, pc u = .asleep sleeper → u ∈ woken

/-- A thread that is woken goes on behind `FUTEX_WAIT`. -/
def Pc.wakeUp : Pc → Pc
  | .asleep sleeper => .subWaiter sleeper
  | pc => pc

variable [DecidableEq Thread]

def wakeAll (pc : Thread → Pc) (woken : Finset Thread) (u : Thread) : Pc :=
  if u ∈ woken then (pc u).wakeUp else pc u

inductive Step (lock : LockObject) (s : State Thread) :
    Thread × Act → State Thread → Prop where
  | move {t : Thread} {act : Act} {pc : Pc} {shared : Shared}
    (move : Move lock (s.pc t) s.shared act pc shared) :
    Step lock s (t, act) ⟨shared, Function.update s.pc t pc⟩
  | wake {t : Thread} {caller : Caller} {woken : Finset Thread}
    (here : s.pc t = .futexWake caller) (wakes : Wakes s.pc caller.n woken) :
    Step lock s (t, caller.done) ⟨s.shared, Function.update (wakeAll s.pc woken) t caller.next⟩

/-- From the start, by allowed steps; what was done is kept, last first. -/
inductive Run (lock : LockObject) (allowed : State Thread → Thread × Act → Prop) :
    List (Thread × Act) → State Thread → Prop where
  | start : Run lock allowed [] .start
  | step {done : List (Thread × Act)} {s s' : State Thread} {event : Thread × Act}
    (run : Run lock allowed done s) (may : allowed s event) (step : Step lock s event s') :
    Run lock allowed (event :: done) s'

/-- Any step. -/
def Always (_ : State Thread) (_ : Thread × Act) : Prop := True

/-- What holds at the start and is kept by every allowed step holds of every run. -/
theorem Run.induct_inv {lock : LockObject} {allowed : State Thread → Thread × Act → Prop}
    {P : List (Thread × Act) → State Thread → Prop} (start : P [] .start)
    (keep : ∀ done s event s', P done s → allowed s event → Step lock s event s' →
      P (event :: done) s')
    {done : List (Thread × Act)} {s : State Thread} (run : Run lock allowed done s) :
    P done s := by
  induction run with
  | start => exact start
  | step run may step ih => exact keep _ _ _ _ ih may step

end UdpStuff.Lock
