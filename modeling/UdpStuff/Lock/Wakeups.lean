/-
# Lock.Wakeups — no locker is forgotten

The three variables of a lock object count threads: the owners of the lock, the
threads between the two additions of `futex_wait`, and those that spin (`Counted`).

An unlock may leave a waiting locker asleep, but then another thread is awake that
will try to take the lock, or will wake one (`Awake`).  Whoever does not wake has
seen a spinner, which is such a thread; and who wakes anyone makes one of him.
-/
import UdpStuff.Lock.LockObject
import UdpStuff.Theory.ThreadCounter

namespace UdpStuff.Lock

set_option autoImplicit false

open UdpStuff.Theory

/-! ## Regions of the code -/

/-- Between the try that took the lock and the release. -/
def Pc.owns : Pc → Bool
  | .holding | .release _ => true
  | .subBrute got => got
  | .readWaiters caller | .futexWake caller => caller.held
  | _ => false

/-- Counted in `num_futex_waiters`. -/
def Pc.inFutexWait : Pc → Bool
  | .futexWait _ | .asleep _ | .subWaiter _ => true
  | _ => false

/-- Counted in `num_brute_waiters`. -/
def Pc.spins : Pc → Bool
  | .tryBrute _ | .subBrute _ => true
  | _ => false

def Sleeper.locks : Sleeper → Bool
  | .lockWait => true
  | .wait => false

def Caller.unlocks : Caller → Bool
  | .unlock _ => true
  | .user _ _ => false

/-- Awake and going to try the lock or, after a release, still to look for sleepers. -/
def Pc.active : Pc → Bool
  | .tryLock | .readBrute | .addBrute | .tryBrute _ | .subWaiter _ | .retry => true
  | .subBrute got => !got
  | .addWaiter sleeper | .futexWait sleeper => sleeper.locks
  | .readSpinners _ => true
  | .readWaiters caller | .futexWake caller => caller.unlocks
  | _ => false

variable {Thread : Type} [DecidableEq Thread] {lock : LockObject}

/-! ## What the variables count -/

structure Counted (s : State Thread) : Prop where
  binary : s.shared.futexVar = 0 ∨ s.shared.futexVar = 1
  owners : Counts Pc.owns s.pc s.shared.futexVar
  waiters : Counts Pc.inFutexWait s.pc s.shared.numFutexWaiters
  spinners : Counts Pc.spins s.pc s.shared.numBruteWaiters

/-! The places that depend on the class or on the caller. -/

theorem owns_lockWait (lock : LockObject) : lock.lockWait.owns = false := by
  cases lock <;> rfl

theorem owns_released (lock : LockObject) (unlocker : Unlocker) :
    (lock.released unlocker).owns = false := by
  cases lock <;> rfl

theorem owns_sleeper_next (sleeper : Sleeper) : sleeper.next.owns = false := by
  cases sleeper <;> rfl

theorem owns_unlocker_next (unlocker : Unlocker) : unlocker.next.owns = false := by
  cases unlocker <;> rfl

theorem owns_caller_next (caller : Caller) : caller.next.owns = caller.held := by
  rcases caller with unlocker | ⟨held, n⟩
  · exact owns_unlocker_next unlocker
  · cases held <;> rfl

theorem inFutexWait_lockWait (lock : LockObject) : lock.lockWait.inFutexWait = false := by
  cases lock <;> rfl

theorem inFutexWait_released (lock : LockObject) (unlocker : Unlocker) :
    (lock.released unlocker).inFutexWait = false := by
  cases lock <;> rfl

theorem inFutexWait_sleeper_next (sleeper : Sleeper) :
    sleeper.next.inFutexWait = false := by
  cases sleeper <;> rfl

theorem inFutexWait_unlocker_next (unlocker : Unlocker) :
    unlocker.next.inFutexWait = false := by
  cases unlocker <;> rfl

theorem inFutexWait_caller_next (caller : Caller) : caller.next.inFutexWait = false := by
  rcases caller with unlocker | ⟨held, n⟩
  · exact inFutexWait_unlocker_next unlocker
  · cases held <;> rfl

theorem spins_lockWait (lock : LockObject) : lock.lockWait.spins = false := by
  cases lock <;> rfl

theorem spins_released (lock : LockObject) (unlocker : Unlocker) :
    (lock.released unlocker).spins = false := by
  cases lock <;> rfl

theorem spins_sleeper_next (sleeper : Sleeper) : sleeper.next.spins = false := by
  cases sleeper <;> rfl

theorem spins_unlocker_next (unlocker : Unlocker) : unlocker.next.spins = false := by
  cases unlocker <;> rfl

theorem spins_caller_next (caller : Caller) : caller.next.spins = false := by
  rcases caller with unlocker | ⟨held, n⟩
  · exact spins_unlocker_next unlocker
  · cases held <;> rfl

variable {pc pc' : Pc} {m m' : Shared} {act : Act}

theorem move_binary (move : Move lock pc m act pc' m')
    (binary : m.futexVar = 0 ∨ m.futexVar = 1) : m'.futexVar = 0 ∨ m'.futexVar = 1 := by
  cases move <;> simp_all

/-- The variable changes as the thread becomes an owner or ceases to be one. -/
theorem move_owners (move : Move lock pc m act pc' m')
    (binary : m.futexVar = 0 ∨ m.futexVar = 1) (owned : pc.owns = true → m.futexVar = 1) :
    m'.futexVar + pc.owns.toInt = m.futexVar + pc'.owns.toInt := by
  cases move
  case release => rw [owns_released, owned rfl]; rfl
  case lockFails taken => rw [owns_lockWait, binary.resolve_left taken]; rfl
  case subWaiter => rw [owns_sleeper_next]; rfl
  case spinners => rw [owns_unlocker_next]; rfl
  case noWaiters => rw [owns_caller_next]; rfl
  case subBrute got => cases got <;> simp [Pc.owns]
  all_goals simp_all [Pc.owns, Caller.held]

theorem move_waiters (move : Move lock pc m act pc' m') :
    m'.numFutexWaiters + pc.inFutexWait.toInt = m.numFutexWaiters + pc'.inFutexWait.toInt := by
  cases move
  case release => rw [inFutexWait_released]; rfl
  case lockFails => rw [inFutexWait_lockWait]; rfl
  case subWaiter => rw [inFutexWait_sleeper_next]; simp [Pc.inFutexWait]
  case spinners => rw [inFutexWait_unlocker_next]; rfl
  case noWaiters => rw [inFutexWait_caller_next]; rfl
  case subBrute got => cases got <;> simp [Pc.inFutexWait]
  all_goals simp [Pc.inFutexWait]

theorem move_spinners (move : Move lock pc m act pc' m') :
    m'.numBruteWaiters + pc.spins.toInt = m.numBruteWaiters + pc'.spins.toInt := by
  cases move
  case release => rw [spins_released]; rfl
  case lockFails => rw [spins_lockWait]; rfl
  case subWaiter => rw [spins_sleeper_next]; rfl
  case spinners => rw [spins_unlocker_next]; rfl
  case noWaiters => rw [spins_caller_next]; rfl
  case subBrute got => cases got <;> simp [Pc.spins]
  all_goals simp [Pc.spins]

/-- Waking moves no thread out of a region. -/
theorem region_wakeAll {region : Pc → Bool}
    (same : ∀ sleeper, region (.subWaiter sleeper) = region (.asleep sleeper))
    (place : Thread → Pc) (woken : Finset Thread) (u : Thread) :
    region (wakeAll place woken u) = region (place u) := by
  unfold wakeAll
  split
  case isTrue =>
    cases place u with
    | asleep sleeper => exact same sleeper
    | _ => rfl
  case isFalse => rfl

theorem wakeAll_of_awake {place : Thread → Pc} {woken : Finset Thread} {u : Thread}
    (awake : (place u).wakeUp = place u) : wakeAll place woken u = place u := by
  unfold wakeAll
  rw [awake, ite_self]

omit [DecidableEq Thread] in
theorem counted_start : Counted (State.start : State Thread) where
  binary := .inl rfl
  owners := .nothing fun _ => rfl
  waiters := .nothing fun _ => rfl
  spinners := .nothing fun _ => rfl

omit [DecidableEq Thread] in
/-- An owner has set the variable. -/
theorem Counted.owned {s : State Thread} (counted : Counted s) {t : Thread}
    (owns : (s.pc t).owns = true) : s.shared.futexVar = 1 := by
  have positive := counted.owners.pos owns
  rcases counted.binary with zero | one
  · omega
  · exact one

theorem counted_step {s s' : State Thread} {event : Thread × Act} (counted : Counted s)
    (step : Step lock s event s') : Counted s' := by
  cases step with
  | move move =>
      exact {
        binary := move_binary move counted.binary
        owners := counted.owners.update (move_owners move counted.binary counted.owned)
        waiters := counted.waiters.update (move_waiters move)
        spinners := counted.spinners.update (move_spinners move) }
  | @wake t caller woken here wakes =>
      have owners := counted.owners.congr (region_wakeAll (fun _ => rfl) s.pc woken)
      have waiters := counted.waiters.congr (region_wakeAll (fun _ => rfl) s.pc woken)
      have spinners := counted.spinners.congr (region_wakeAll (fun _ => rfl) s.pc woken)
      have unmoved : wakeAll s.pc woken t = s.pc t := wakeAll_of_awake (by rw [here]; rfl)
      refine ⟨counted.binary, owners.update ?_, waiters.update ?_, spinners.update ?_⟩
      · rw [unmoved, here, owns_caller_next]
        rfl
      · rw [unmoved, here, inFutexWait_caller_next]
        rfl
      · rw [unmoved, here, spins_caller_next]
        rfl

theorem counted_run {allowed : State Thread → Thread × Act → Prop}
    {done : List (Thread × Act)} {s : State Thread} (run : Run lock allowed done s) :
    Counted s :=
  run.induct_inv (P := fun _ s => Counted s) counted_start
    fun _ _ _ _ counted _ step => counted_step counted step

/-- **Mutual exclusion**: there are never two owners. -/
theorem mutual_exclusion {allowed : State Thread → Thread × Act → Prop}
    {done : List (Thread × Act)} {s : State Thread} (run : Run lock allowed done s)
    {t u : Thread} (first : (s.pc t).owns = true) (second : (s.pc u).owns = true) : t = u := by
  have counted := counted_run run
  exact counted.owners.unique (counted.owned first).le first second

/-! ## Someone is awake -/

/-- While the lock is free and a locker asleep, some thread is active. -/
def Awake (s : State Thread) : Prop :=
  s.shared.futexVar = 0 → ∀ t, s.pc t = .asleep .lockWait → ∃ u, (s.pc u).active = true

theorem active_lockWait (lock : LockObject) : lock.lockWait.active = true := by
  cases lock <;> rfl

theorem active_released (lock : LockObject) (unlocker : Unlocker) :
    (lock.released unlocker).active = true := by
  cases lock <;> rfl

theorem active_sleeper_next (sleeper : Sleeper) : sleeper.next.active = true := by
  cases sleeper <;> rfl

/-- An active thread stays so, or has taken the lock, or has seen a spinner, or no sleeper. -/
theorem move_active (move : Move lock pc m act pc' m') (active : pc.active = true) :
    pc'.active = true ∨ m'.futexVar ≠ 0 ∨ (m.numBruteWaiters ≠ 0 ∧ pc.spins = false) ∨
      m.numFutexWaiters = 0 := by
  cases move
  case spinners some => exact .inr (.inr (.inl ⟨some, rfl⟩))
  case noWaiters none => exact .inr (.inr (.inr none))
  case subWaiter sleeper => exact .inl (active_sleeper_next sleeper)
  case lockFails => exact .inl (active_lockWait lock)
  case release unlocker => exact .inl (active_released lock unlocker)
  case subBrute got =>
    cases got with
    | false => exact .inl rfl
    | true => cases active
  case sleep sleeper same =>
    cases sleeper with
    | lockWait => exact .inr (.inl (by rw [same]; decide))
    | wait => cases active
  all_goals simp_all [Pc.active, Sleeper.locks, Caller.unlocks]

/-- A locker falls asleep only while the lock is taken. -/
theorem move_asleep (move : Move lock pc m act pc' m') (asleep : pc' = .asleep .lockWait) :
    m'.futexVar = 1 := by
  have inside : pc'.inFutexWait = true := by rw [asleep]; rfl
  cases move
  case sleep sleeper same =>
    cases asleep
    exact same
  case release => rw [inFutexWait_released] at inside; cases inside
  case lockFails => rfl
  case subWaiter => rw [inFutexWait_sleeper_next] at inside; cases inside
  case spinners => rw [inFutexWait_unlocker_next] at inside; cases inside
  case noWaiters => rw [inFutexWait_caller_next] at inside; cases inside
  case subBrute got => cases got <;> cases asleep
  all_goals cases asleep

/-- Who frees the lock is active after it. -/
theorem move_frees (move : Move lock pc m act pc' m') (taken : m.futexVar ≠ 0)
    (free : m'.futexVar = 0) : pc'.active = true := by
  cases move
  case release unlocker => exact active_released lock unlocker
  all_goals simp_all

/-- A spinner that has not taken the lock is active. -/
theorem active_of_spins (spins : pc.spins = true) (waits : pc.owns = false) :
    pc.active = true := by
  cases pc with
  | tryBrute limit => rfl
  | subBrute got =>
      cases got with
      | false => rfl
      | true => cases waits
  | _ => cases spins

theorem active_wakeUp (active : pc.active = true) : pc.wakeUp.active = true := by
  cases pc with
  | asleep sleeper => rfl
  | _ => exact active

/-- Kept by the step of one thread. -/
theorem awake_move {s : State Thread} {t : Thread} {shared : Shared} (counted : Counted s)
    (awake : Awake s) (move : Move lock (s.pc t) s.shared act pc shared) :
    Awake ⟨shared, Function.update s.pc t pc⟩ := by
  intro free locker sleeps
  dsimp only at free sleeps ⊢
  have others {u : Thread} (other : u ≠ t) (active : (s.pc u).active = true) :
      ∃ u, (Function.update s.pc t pc u).active = true :=
    ⟨u, by rw [Function.update_of_ne other]; exact active⟩
  have self (active : pc.active = true) : ∃ u, (Function.update s.pc t pc u).active = true :=
    ⟨t, by rw [Function.update_self]; exact active⟩
  by_cases mine : locker = t
  · subst mine
    rw [Function.update_self] at sleeps
    rw [move_asleep move sleeps] at free
    cases free
  · rw [Function.update_of_ne mine] at sleeps
    by_cases before : s.shared.futexVar = 0
    · obtain ⟨u, active⟩ := awake before locker sleeps
      by_cases this : u = t
      · subst this
        rcases move_active move active with still | taken | ⟨spinning, away⟩ | none
        · exact self still
        · exact absurd free taken
        · -- the unlock wakes no one, for a spinner
          obtain ⟨v, spins⟩ := counted.spinners.exists_of_ne spinning
          have other : v ≠ u := by
            rintro rfl
            rw [away] at spins
            cases spins
          have waits : (s.pc v).owns = false := by
            apply Bool.eq_false_of_not_eq_true
            intro owns
            have := counted.owned owns
            omega
          exact others other (active_of_spins spins waits)
        · -- the locker is counted
          have some := counted.waiters.pos (t := locker) (by rw [sleeps]; rfl)
          omega
      · exact others this active
    · exact self (move_frees move before free)

/-- Kept by a wake: what is woken is active. -/
theorem awake_wake {s : State Thread} {t : Thread} {caller : Caller} {woken : Finset Thread}
    (awake : Awake s) (here : s.pc t = .futexWake caller)
    (wakes : Wakes s.pc caller.n woken) :
    Awake ⟨s.shared, Function.update (wakeAll s.pc woken) t caller.next⟩ := by
  intro free locker sleeps
  dsimp only at free sleeps ⊢
  have other : locker ≠ t := by
    rintro rfl
    rw [Function.update_self] at sleeps
    have inside := inFutexWait_caller_next caller
    rw [sleeps] at inside
    cases inside
  rw [Function.update_of_ne other, wakeAll] at sleeps
  have left : locker ∉ woken := by
    intro member
    obtain ⟨sleeper, asleep⟩ := wakes.sleepers locker member
    rw [if_pos member, asleep] at sleeps
    cases sleeps
  rw [if_neg left] at sleeps
  obtain ⟨u, active⟩ := awake free locker sleeps
  by_cases this : u = t
  · -- the unlock wakes someone, though not this locker
    subst this
    rw [here] at active
    have one : caller.n = some 1 := by
      cases caller with
      | unlock unlocker => rfl
      | user held n => cases active
    rcases wakes.count with count | ⟨-, all⟩
    · have card : woken.card = 1 := Option.some.inj (count.symm.trans one)
      obtain ⟨v, member⟩ := Finset.card_pos.mp (by omega : 0 < woken.card)
      obtain ⟨sleeper, asleep⟩ := wakes.sleepers v member
      have other : v ≠ u := by
        rintro rfl
        rw [here] at asleep
        cases asleep
      refine ⟨v, ?_⟩
      rw [Function.update_of_ne other, wakeAll, if_pos member, asleep]
      rfl
    · exact absurd (all locker _ sleeps) left
  · refine ⟨u, ?_⟩
    rw [Function.update_of_ne this, wakeAll]
    split
    case isTrue => exact active_wakeUp active
    case isFalse => exact active

theorem awake_step {s s' : State Thread} {event : Thread × Act} (counted : Counted s)
    (awake : Awake s) (step : Step lock s event s') : Awake s' := by
  cases step with
  | move move => exact awake_move counted awake move
  | wake here wakes => exact awake_wake awake here wakes

theorem awake_run {allowed : State Thread → Thread × Act → Prop}
    {done : List (Thread × Act)} {s : State Thread} (run : Run lock allowed done s) :
    Counted s ∧ Awake s :=
  run.induct_inv (P := fun _ s => Counted s ∧ Awake s)
    ⟨counted_start, fun _ _ asleep => by cases asleep⟩
    fun _ _ _ _ both _ step => ⟨counted_step both.1 step, awake_step both.1 both.2 step⟩

/-- The lock is free and a locker asleep, and nobody is there to take the one or wake the
other. -/
def LostWakeup (s : State Thread) : Prop :=
  s.shared.futexVar = 0 ∧ ∃ t, s.pc t = .asleep .lockWait ∧
    ∀ u, u ≠ t → (∃ sleeper, s.pc u = .asleep sleeper) ∨ s.pc u = .outside

/-- **No wake-up is lost between lockers**, of either class. -/
theorem no_lost_wakeup {done : List (Thread × Act)} {s : State Thread}
    (run : Run lock Always done s) : ¬ LostWakeup s := by
  rintro ⟨free, t, asleep, others⟩
  obtain ⟨u, active⟩ := (awake_run run).2 free t asleep
  by_cases this : u = t
  · rw [this, asleep] at active
    cases active
  · rcases others u this with ⟨sleeper, sleeps⟩ | outside
    · rw [sleeps] at active
      cases active
    · rw [outside] at active
      cases active

/-- A lock that is free while a locker sleeps: its owner has just released it. -/
theorem no_lost_wakeup_contended : ∃ s : State Bool, s.shared.futexVar = 0 ∧
    s.pc true = .asleep .lockWait ∧ ¬ LostWakeup s := by
  have begun : Run .simple Always [] (.start : State Bool) := .start
  have run := (begun.step trivial (.move (t := false) .callLock)
    |>.step trivial (.move (t := false) (.lock rfl))
    |>.step trivial (.move (t := true) .callLock)
    |>.step trivial (.move (t := true) (.lockFails (by decide)))
    |>.step trivial (.move (t := true) .addWaiter)
    |>.step trivial (.move (t := true) (.sleep rfl))
    |>.step trivial (.move (t := false) .callUnlock)
    |>.step trivial (.move (t := false) .release))
  exact ⟨_, rfl, rfl, no_lost_wakeup run⟩

end UdpStuff.Lock
