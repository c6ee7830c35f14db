/-
# Lock.Notifications — notifications between the release and the sleep of `wait`

A `notifyAll` wakes who is asleep.  A thread in `wait` that has released the lock and
is not asleep yet (`Pc.inWindow`) is not woken by it, and nothing tells it afterwards:
the variable it is about to compare is zero again.  So a notification can be lost
(`no_lost_notification_refuted`), and it is not if no `notifyAll` ends while a thread
is there (`no_lost_notification`).
-/
import UdpStuff.Lock.Wakeups

namespace UdpStuff.Lock

set_option autoImplicit false

/-! ## The window -/

def Unlocker.waits : Unlocker → Bool
  | .user => false
  | .wait => true

def Caller.waits : Caller → Bool
  | .unlock unlocker => unlocker.waits
  | .user _ _ => false

/-- In `wait`, after the release and before `FUTEX_WAIT`. -/
def Pc.inWindow : Pc → Bool
  | .readSpinners unlocker => unlocker.waits
  | .readWaiters caller | .futexWake caller => caller.waits
  | .addWaiter sleeper | .futexWait sleeper => !sleeper.locks
  | _ => false

/-- In the window or asleep behind it. -/
def Pc.waits : Pc → Bool
  | .asleep sleeper => !sleeper.locks
  | pc => pc.inWindow

variable {Thread : Type} [DecidableEq Thread] {lock : LockObject}

/-- What was done since the thread released the lock, last first. -/
def sinceRelease (t : Thread) (done : List (Thread × Act)) : List (Thread × Act) :=
  done.takeWhile fun event => event ≠ (t, .release)

/-- A thread sleeps in `wait` and all others have finished, though since its release one of
them took the lock, notified all and unlocked. -/
def LostNotification (done : List (Thread × Act)) (s : State Thread) : Prop :=
  ∃ a, s.pc a = .asleep .wait ∧
    (∃ b, b ≠ a ∧
      [(b, Act.release), (b, Act.notifyAll), (b, Act.acquire)].Sublist (sinceRelease a done)) ∧
    ∀ u, u ≠ a → s.pc u = .outside

/-- A `notifyAll` of the holder ends only while no thread is in the window. -/
def NotifiesOutsideWindow (s : State Thread) (event : Thread × Act) : Prop :=
  event.2 = .notifyAll → ∀ a, (s.pc a).inWindow = false

/-! ## What a notification finds -/

variable {pc pc' : Pc} {m m' : Shared} {act : Act}

/-- A thread comes to wait by its release. -/
theorem move_waits (move : Move lock pc m act pc' m') (waits : pc'.waits = true) :
    pc.waits = true ∨ act = .release := by
  cases move
  case release => exact .inr rfl
  case lockFails => cases lock <;> cases waits
  case subBrute got => cases got <;> cases waits
  case subWaiter sleeper => cases sleeper <;> cases waits
  case spinners unlocker some =>
    cases unlocker with
    | user => cases waits
    | wait => exact .inl rfl
  case noWaiters caller none =>
    rcases caller with ⟨_ | _⟩ | ⟨_ | _, n⟩
    · cases waits
    · exact .inl rfl
    · cases waits
    · cases waits
  all_goals first | exact .inl waits | cases waits

/-- A `notifyAll` that wakes no one has read the counter as zero. -/
theorem move_notifyAll (move : Move lock pc m act pc' m') (all : act = .notifyAll) :
    m.numFutexWaiters = 0 ∧ pc' = .holding := by
  cases move
  case noWaiters caller none =>
    rcases caller with unlocker | ⟨_ | _, _ | n⟩
    · cases all
    · cases all
    · cases all
    · exact ⟨none, rfl⟩
    · cases all
  all_goals cases all

theorem done_notifyAll {caller : Caller} (all : caller.done = .notifyAll) :
    caller = .user true none := by
  rcases caller with unlocker | ⟨_ | _, _ | n⟩
  · cases all
  · cases all
  · cases all
  · rfl
  · cases all

/-- Behind a `notifyAll` outside the window, no thread waits. -/
theorem nobody_waits {s s' : State Thread} {event : Thread × Act} (counted : Counted s)
    (outside : ∀ a, (s.pc a).inWindow = false) (step : Step lock s event s')
    (all : event.2 = .notifyAll) (a : Thread) : (s'.pc a).waits = false := by
  cases step with
  | @move t act pc shared move =>
      obtain ⟨none, holding⟩ := move_notifyAll move all
      subst holding
      by_cases this : a = t
      · subst this
        dsimp only
        rw [Function.update_self]
        rfl
      · dsimp only
        rw [Function.update_of_ne this]
        have away := outside a
        cases place : s.pc a with
        | asleep sleeper =>
            -- who sleeps is counted
            have some := counted.waiters.pos (t := a) (by rw [place]; rfl)
            omega
        | _ =>
            rw [place] at away
            exact away
  | @wake t caller woken here wakes =>
      have user := done_notifyAll all
      subst user
      have everyone : ∀ u sleeper, s.pc u = .asleep sleeper → u ∈ woken := by
        rcases wakes.count with count | ⟨-, everyone⟩
        · cases count
        · exact everyone
      by_cases this : a = t
      · subst this
        dsimp only
        rw [Function.update_self]
        rfl
      · dsimp only
        rw [Function.update_of_ne this]
        have away := outside a
        cases place : s.pc a with
        | asleep sleeper =>
            rw [wakeAll, if_pos (everyone a sleeper place), place]
            rfl
        | _ =>
            rw [wakeAll_of_awake (by rw [place]; rfl), place]
            rw [place] at away
            exact away

/-- A thread that waits after a step waited before it, or has just released. -/
theorem step_waits {s s' : State Thread} {event : Thread × Act} (step : Step lock s event s')
    {a : Thread} (waits : (s'.pc a).waits = true) :
    (s.pc a).waits = true ∨ event = (a, .release) := by
  cases step with
  | @move t act pc shared move =>
      dsimp only at waits
      by_cases this : a = t
      · subst this
        rw [Function.update_self] at waits
        exact (move_waits move waits).imp_right fun released => by rw [released]
      · rw [Function.update_of_ne this] at waits
        exact .inl waits
  | @wake t caller woken here wakes =>
      dsimp only at waits
      by_cases this : a = t
      · subst this
        rw [Function.update_self] at waits
        rw [here]
        rcases caller with ⟨_ | _⟩ | ⟨_ | _, n⟩
        · cases waits
        · exact .inl rfl
        · cases waits
        · cases waits
      · rw [Function.update_of_ne this, wakeAll] at waits
        split at waits
        case isTrue =>
          left
          cases place : s.pc a with
          | asleep sleeper =>
              rw [place] at waits
              cases waits
          | _ =>
              rw [place] at waits
              exact waits
        case isFalse => exact .inl waits

/-! ## Runs -/

/-- Since its release, a thread that waits has been told nothing. -/
def NothingMissed (done : List (Thread × Act)) (s : State Thread) : Prop :=
  ∀ a, (s.pc a).waits = true → ∀ b, (b, Act.notifyAll) ∉ sinceRelease a done

theorem nothingMissed_step {done : List (Thread × Act)} {s s' : State Thread}
    {event : Thread × Act} (counted : Counted s) (missed : NothingMissed done s)
    (may : NotifiesOutsideWindow s event) (step : Step lock s event s') :
    NothingMissed (event :: done) s' := by
  intro a waits b told
  by_cases all : event.2 = .notifyAll
  · have none := nobody_waits counted (may all) step all a
    rw [none] at waits
    cases waits
  · by_cases own : event = (a, .release)
    · rw [sinceRelease, List.takeWhile_cons_of_neg (by simpa using own)] at told
      cases told
    · have before := (step_waits step waits).resolve_right own
      rw [sinceRelease, List.takeWhile_cons_of_pos (by simpa using own)] at told
      rcases List.mem_cons.mp told with now | earlier
      · exact all (by rw [← now])
      · exact missed a before b earlier

theorem nothingMissed_run {done : List (Thread × Act)} {s : State Thread}
    (run : Run lock NotifiesOutsideWindow done s) : Counted s ∧ NothingMissed done s :=
  run.induct_inv (P := fun done s => Counted s ∧ NothingMissed done s)
    ⟨counted_start, fun _ _ _ => List.not_mem_nil⟩
    fun _ _ _ _ both may step =>
      ⟨counted_step both.1 step, nothingMissed_step both.1 both.2 may step⟩

/-- **No notification is lost, of either class, where no `notifyAll` ends while a thread is
between its release in `wait` and its sleep.** -/
theorem no_lost_notification {done : List (Thread × Act)} {s : State Thread}
    (run : Run lock NotifiesOutsideWindow done s) : ¬ LostNotification done s := by
  rintro ⟨a, asleep, ⟨b, -, told⟩, -⟩
  have missed := (nothingMissed_run run).2 a (by rw [asleep]; rfl) b
  exact missed (told.subset (by simp))

/-- A thread sleeps, and is woken by one that notifies all and unlocks. -/
theorem no_lost_notification_woken : ∃ (done : List (Bool × Act)) (s : State Bool),
    (true, Act.notifyAll) ∈ done ∧ s.pc false = .subWaiter .wait ∧
      ¬ LostNotification done s := by
  have begun : Run .simple NotifiesOutsideWindow [] (.start : State Bool) := .start
  have quiet {act : Act} (other : act ≠ .notifyAll) (t : Bool) (s : State Bool) :
      NotifiesOutsideWindow s (t, act) := fun all => absurd all other
  have asleep := (begun.step (quiet (by decide) _ _) (.move (t := false) .callLock)
    |>.step (quiet (by decide) _ _) (.move (t := false) (.lock rfl))
    |>.step (quiet (by decide) _ _) (.move (t := false) .callWait)
    |>.step (quiet (by decide) _ _) (.move (t := false) .release)
    |>.step (quiet (by decide) _ _) (.move (t := false) (.noWaiters rfl))
    |>.step (quiet (by decide) _ _) (.move (t := false) .addWaiter)
    |>.step (quiet (by decide) _ _) (.move (t := false) (.sleep rfl)))
  have notifying := (asleep.step (quiet (by decide) _ _) (.move (t := true) .callLock)
    |>.step (quiet (by decide) _ _) (.move (t := true) (.lock rfl))
    |>.step (quiet (by decide) _ _) (.move (t := true) (.callNotify (n := none)))
    |>.step (quiet (by decide) _ _) (.move (t := true) (.waiters (by decide))))
  have run := notifying.step (fun _ a => by cases a <;> rfl)
    (@Step.wake _ _ _ _ true (.user true none) {false} rfl
      ⟨fun u member => ⟨.wait, by rw [Finset.mem_singleton.mp member]; rfl⟩,
        .inr ⟨fun _ all => (nomatch all), fun
          | false, _, _ => Finset.mem_singleton_self false
          | true, _, place => by cases place⟩⟩)
  exact ⟨_, _, List.mem_cons_self, rfl, no_lost_notification run⟩

/-- **Refuted** as it stands, for either class with any limits: a whole lock, `notifyAll` and
unlock fit between the release in `wait` and the sleep. -/
theorem no_lost_notification_refuted :
    ¬ ∃ lock : LockObject, ∀ (done : List (Bool × Act)) (s : State Bool),
      Run lock Always done s → ¬ LostNotification done s := by
  rintro ⟨lock, never⟩
  have begun : Run lock Always [] (.start : State Bool) := .start
  have waiting := (begun.step trivial (.move (t := false) .callLock)
    |>.step trivial (.move (t := false) (.lock rfl))
    |>.step trivial (.move (t := false) .callWait)
    |>.step trivial (.move (t := false) .release))
  cases lock with
  | simple =>
      have run := (waiting.step trivial (.move (t := false) (.noWaiters rfl))
        |>.step trivial (.move (t := true) .callLock)
        |>.step trivial (.move (t := true) (.lock rfl))
        |>.step trivial (.move (t := true) (.callNotify (n := none)))
        |>.step trivial (.move (t := true) (.noWaiters rfl))
        |>.step trivial (.move (t := true) .callUnlock)
        |>.step trivial (.move (t := true) .release)
        |>.step trivial (.move (t := true) (.noWaiters rfl))
        |>.step trivial (.move (t := false) .addWaiter)
        |>.step trivial (.move (t := false) (.sleep rfl)))
      refine never _ _ run ⟨false, rfl, ⟨true, by decide, by decide⟩, fun u other => ?_⟩
      cases u with
      | false => exact absurd rfl other
      | true => rfl
  | brute limit count =>
      have run := (waiting.step trivial (.move (t := false) (.noSpinners rfl))
        |>.step trivial (.move (t := false) (.noWaiters rfl))
        |>.step trivial (.move (t := true) .callLock)
        |>.step trivial (.move (t := true) (.lock rfl))
        |>.step trivial (.move (t := true) (.callNotify (n := none)))
        |>.step trivial (.move (t := true) (.noWaiters rfl))
        |>.step trivial (.move (t := true) .callUnlock)
        |>.step trivial (.move (t := true) .release)
        |>.step trivial (.move (t := true) (.noSpinners rfl))
        |>.step trivial (.move (t := true) (.noWaiters rfl))
        |>.step trivial (.move (t := false) .addWaiter)
        |>.step trivial (.move (t := false) (.sleep rfl)))
      refine never _ _ run ⟨false, rfl, ⟨true, by decide, by decide⟩, fun u other => ?_⟩
      cases u with
      | false => exact absurd rfl other
      | true => rfl

end UdpStuff.Lock
