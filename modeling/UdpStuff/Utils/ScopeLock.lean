/-
# Utils.ScopeLock — locks that are unlocked when a guard goes

`ScopeLockMovable` and `ScopeLockArgMovable` lock when they are constructed and unlock when
they are assigned to or destroyed; a guard that was moved from keeps `NULL`, and the second
class its argument.  `l->m` of the guard that is moved from is read as `l.m`.

Every lock that was not unlocked is in exactly one guard, for either class (`Matched`,
kept by every step).  The destructor of `ScopeLockMovable` asks whether there is a lock to
unlock; that of `ScopeLockArgMovable` does not, and unlocks through `NULL` where the guard
was moved from.  `unlock_once_iff`: that is exactly when it goes wrong.
-/
import Mathlib.Data.List.Count
import UdpStuff.Theory.Holders
import UdpStuff.Theory.Runs

namespace UdpStuff.Utils

open Theory

set_option autoImplicit false

/-- A call of a lock; the last has no lock to go to. -/
inductive LockCall (X : Type) where
  | lock (x : X)
  | unlock (x : X)
  | unlockNull
deriving DecidableEq

/-- Guards, and the calls they made. -/
structure Scopes (V A X : Type) where
  vars : Vars V A
  calls : List (LockCall X)

/-- What a program does with guards of a scope. -/
inductive ScopeOp (V X : Type) where
  | construct (guard : V) (x : X)
  | moveConstruct (guard other : V)
  | moveAssign (guard other : V)
  | destroy (guard : V)

namespace Scopes

variable {V A X : Type} [DecidableEq V]

/-- No guard yet. -/
def start (empty : A) : Scopes V A X := ⟨⟨∅, fun _ => empty⟩, []⟩

def write (s : Scopes V A X) (guard : V) (a : A) : Scopes V A X :=
  { s with vars := s.vars.set guard a }

def call (s : Scopes V A X) (c : LockCall X) : Scopes V A X := { s with calls := s.calls ++ [c] }

end Scopes

/-! ## The classes -/

section Classes

variable {V M Arg : Type} [DecidableEq V]

namespace ScopeLockMovable

/-- The member `m`. -/
abbrev State (V M : Type) := Scopes V (Option M) M

variable (s : State V M)

def clear (guard : V) : State V M :=
  match s.vars.val guard with
  | some m => s.call (.unlock m)
  | none => s

def construct (guard : V) (m : M) : State V M :=
  Scopes.call { s with vars := s.vars.add guard (some m) } (.lock m)

def moveConstruct (guard l : V) : State V M :=
  let s := { s with vars := s.vars.add guard (s.vars.val l) }
  s.write l none

def moveAssign (guard l : V) : State V M :=
  let s := clear s guard
  let s := s.write guard (s.vars.val l)
  s.write l none

def destroy (guard : V) : State V M :=
  let s := clear s guard
  { s with vars := s.vars.remove guard }

def step : ScopeOp V M → Option (State V M)
  | .construct guard m => if guard ∉ s.vars.live then some (construct s guard m) else none
  | .moveConstruct guard l =>
    if guard ∉ s.vars.live ∧ l ∈ s.vars.live then some (moveConstruct s guard l) else none
  | .moveAssign guard l =>
    if guard ∈ s.vars.live ∧ l ∈ s.vars.live ∧ guard ≠ l then some (moveAssign s guard l) else none
  | .destroy guard => if guard ∈ s.vars.live then some (destroy s guard) else none

end ScopeLockMovable

namespace ScopeLockArgMovable

/-- The members `m` and `arg`. -/
abbrev State (V M Arg : Type) := Scopes V (Option M × Arg) (M × Arg)

variable (s : State V M Arg)

def clear (guard : V) : State V M Arg :=
  match s.vars.val guard with
  | (some m, arg) => s.call (.unlock (m, arg))
  | (none, _) => s

def construct (guard : V) (x : M × Arg) : State V M Arg :=
  Scopes.call { s with vars := s.vars.add guard (some x.1, x.2) } (.lock x)

def moveConstruct (guard l : V) : State V M Arg :=
  let s := { s with vars := s.vars.add guard (s.vars.val l) }
  s.write l (none, (s.vars.val l).2)

def moveAssign (guard l : V) : State V M Arg :=
  let s := clear s guard
  let s := s.write guard (s.vars.val l)
  s.write l (none, (s.vars.val l).2)

/-- `m` is not compared with `NULL`. -/
def destroy (guard : V) : State V M Arg :=
  let s := match s.vars.val guard with
    | (some m, arg) => s.call (.unlock (m, arg))
    | (none, _) => s.call .unlockNull
  { s with vars := s.vars.remove guard }

def step : ScopeOp V (M × Arg) → Option (State V M Arg)
  | .construct guard x => if guard ∉ s.vars.live then some (construct s guard x) else none
  | .moveConstruct guard l =>
    if guard ∉ s.vars.live ∧ l ∈ s.vars.live then some (moveConstruct s guard l) else none
  | .moveAssign guard l =>
    if guard ∈ s.vars.live ∧ l ∈ s.vars.live ∧ guard ≠ l then some (moveAssign s guard l) else none
  | .destroy guard => if guard ∈ s.vars.live then some (destroy s guard) else none

/-- The lock of a guard, and the argument it was locked with. -/
def locked (a : Option M × Arg) : Option (M × Arg) := a.1.map (·, a.2)

/-- A guard that is destroyed was not moved from, or was assigned to again. -/
def HasLock (s : State V M Arg) (op : ScopeOp V (M × Arg)) : Prop :=
  ∀ guard, op = .destroy guard → (s.vars.val guard).1 ≠ none

end ScopeLockArgMovable

end Classes

/-! ## What is conserved -/

section Conserved

variable {V A X : Type} [DecidableEq X]

/-- Each lock is unlocked or in one guard. -/
def Matched (names : A → Option X) (s : Scopes V A X) : Prop :=
  ∀ x, s.calls.count (.lock x) = s.calls.count (.unlock x) + Vars.holders names s.vars x

/-- What the calls come to: none through `NULL`, no lock unlocked more often than locked, and
none less often once no guard is left. -/
structure UnlockedOnce (names : A → Option X) (s : Scopes V A X) : Prop where
  notNull : .unlockNull ∉ s.calls
  notMore : ∀ x, s.calls.count (.unlock x) ≤ s.calls.count (.lock x)
  once : s.vars.live = ∅ → ∀ x, s.calls.count (.lock x) = s.calls.count (.unlock x)

variable {names : A → Option X} {s : Scopes V A X}

theorem Matched.unlockedOnce_iff (matched : Matched names s) :
    UnlockedOnce names s ↔ .unlockNull ∉ s.calls := by
  refine ⟨fun once => once.notNull, fun notNull => ⟨notNull, fun x => ?_, fun dead x => ?_⟩⟩
  · have := matched x
    omega
  · have := matched x
    rwa [Vars.holders_of_none_live dead, Nat.add_zero] at this

/-- A call of `lock_c` by a guard that comes to hold the lock. -/
theorem Matched.lock (matched : Matched names s) {vars : Vars V A} {x : X}
    (taken : ∀ y, Vars.holders names vars y =
      Vars.holders names s.vars y + Vars.worth (some x) y) :
    Matched names ⟨vars, s.calls ++ [.lock x]⟩ := by
  intro y
  have before := matched y
  have now := taken y
  by_cases same : x = y
  · subst same
    rw [Vars.worth_self] at now
    simp
    omega
  · rw [Vars.worth_of_ne same] at now
    simp [same]
    omega

/-- A call of `unlock_c` by a guard that gives the lock up. -/
theorem Matched.unlock (matched : Matched names s) {vars : Vars V A} {x : X}
    (given : ∀ y, Vars.holders names vars y + Vars.worth (some x) y =
      Vars.holders names s.vars y) :
    Matched names ⟨vars, s.calls ++ [.unlock x]⟩ := by
  intro y
  have before := matched y
  have now := given y
  by_cases same : x = y
  · subst same
    rw [Vars.worth_self] at now
    simp
    omega
  · rw [Vars.worth_of_ne same] at now
    simp [same]
    omega

/-- No guard takes or gives a lock. -/
theorem Matched.keep (matched : Matched names s) {vars : Vars V A} {calls : List (LockCall X)}
    (locks : ∀ y, calls.count (.lock y) = s.calls.count (.lock y))
    (unlocks : ∀ y, calls.count (.unlock y) = s.calls.count (.unlock y))
    (same : ∀ y, Vars.holders names vars y = Vars.holders names s.vars y) :
    Matched names ⟨vars, calls⟩ := by
  intro y
  rw [same y]
  exact (locks y).trans ((matched y).trans (by rw [unlocks y]))

end Conserved

namespace ScopeLockMovable

variable {V M : Type} [DecidableEq V] [DecidableEq M] {s s' : State V M} {guard l : V}

omit [DecidableEq V] in
/-- `clear` gives up what the guard holds; the member still says so. -/
theorem matched_clear (guard : V) (matched : Matched id s) {vars : Vars V (Option M)}
    (given : ∀ y, Vars.holders id vars y + Vars.worth (s.vars.val guard) y =
      Vars.holders id s.vars y) : Matched id ⟨vars, (clear s guard).calls⟩ := by
  unfold clear
  split
  case h_1 m named =>
    apply matched.unlock
    rwa [named] at given
  case h_2 named =>
    apply matched.keep (fun _ => rfl) (fun _ => rfl)
    rwa [named] at given

omit [DecidableEq V] [DecidableEq M] in
theorem vars_clear : (clear s guard).vars = s.vars := by
  unfold clear
  split <;> rfl

theorem matched_moveAssign (matched : Matched id s) (alive : guard ∈ s.vars.live)
    (alive' : l ∈ s.vars.live) : Matched id (moveAssign s guard l) := by
  have moved := Vars.holders_move id s.vars alive alive' (a := none) rfl
  have vars : (moveAssign s guard l).vars = (s.vars.set guard (s.vars.val l)).set l none := by
    show ((clear s guard).vars.set guard ((clear s guard).vars.val l)).set l none = _
    rw [vars_clear]
  have := matched_clear guard matched moved
  rw [← vars] at this
  exact this

theorem matched_destroy (matched : Matched id s) (alive : guard ∈ s.vars.live) :
    Matched id (destroy s guard) := by
  have removed := Vars.holders_remove id s.vars alive
  have vars : (destroy s guard).vars = s.vars.remove guard := by
    show (clear s guard).vars.remove guard = _
    rw [vars_clear]
  have := matched_clear guard matched removed
  rw [← vars] at this
  exact this

theorem matched_step {op : ScopeOp V M} (matched : Matched id s) (stepped : step s op = some s') :
    Matched id s' := by
  cases op with
  | construct guard m =>
      obtain ⟨new, rfl⟩ := possible_iff.mp stepped
      exact matched.lock fun y => Vars.holders_add id s.vars new (some m) y
  | moveConstruct guard l =>
      obtain ⟨⟨new, alive⟩, rfl⟩ := possible_iff.mp stepped
      apply matched.keep (fun _ => rfl) (fun _ => rfl)
      exact Vars.holders_addMove id s.vars new alive rfl
  | moveAssign guard l =>
      obtain ⟨⟨alive, alive', -⟩, rfl⟩ := possible_iff.mp stepped
      exact matched_moveAssign matched alive alive'
  | destroy guard =>
      obtain ⟨alive, rfl⟩ := possible_iff.mp stepped
      exact matched_destroy matched alive

omit [DecidableEq V] [DecidableEq M] in
theorem notNull_clear (guard : V) (notNull : .unlockNull ∉ s.calls) : .unlockNull ∉ (clear s guard).calls := by
  unfold clear
  split
  case h_1 m named => simpa [Scopes.call] using notNull
  case h_2 named => exact notNull

omit [DecidableEq M] in
/-- No call of this class goes through `NULL`. -/
theorem notNull_step {op : ScopeOp V M} (notNull : .unlockNull ∉ s.calls)
    (stepped : step s op = some s') : .unlockNull ∉ s'.calls := by
  cases op with
  | construct guard m =>
      obtain ⟨new, rfl⟩ := possible_iff.mp stepped
      show .unlockNull ∉ s.calls ++ [.lock m]
      simpa using notNull
  | moveConstruct guard l =>
      obtain ⟨new, rfl⟩ := possible_iff.mp stepped
      exact notNull
  | moveAssign guard l =>
      obtain ⟨alive, rfl⟩ := possible_iff.mp stepped
      exact notNull_clear guard notNull
  | destroy guard =>
      obtain ⟨alive, rfl⟩ := possible_iff.mp stepped
      exact notNull_clear guard notNull

theorem run_unlockedOnce {ops : List (ScopeOp V M)} (ran : run step (.start none) ops = some s) :
    UnlockedOnce id s := by
  have kept := run_inv (fun s : State V M => Matched id s ∧ .unlockNull ∉ s.calls)
    (fun s op s' inv stepped => ⟨matched_step inv.1 stepped, notNull_step inv.2 stepped⟩)
    ⟨fun x => rfl, List.not_mem_nil⟩ ran
  exact kept.1.unlockedOnce_iff.mpr kept.2

end ScopeLockMovable

namespace ScopeLockArgMovable

variable {V M Arg : Type} [DecidableEq V] [DecidableEq M] [DecidableEq Arg] {s s' : State V M Arg}
  {guard l : V}

omit [DecidableEq V] in
theorem matched_clear (guard : V) (matched : Matched locked s) {vars : Vars V (Option M × Arg)}
    (given : ∀ y, Vars.holders locked vars y + Vars.worth (locked (s.vars.val guard)) y =
      Vars.holders locked s.vars y) : Matched locked ⟨vars, (clear s guard).calls⟩ := by
  unfold clear
  split
  case h_1 m arg named =>
    apply matched.unlock
    rwa [named] at given
  case h_2 arg named =>
    apply matched.keep (fun _ => rfl) (fun _ => rfl)
    rwa [named] at given

omit [DecidableEq V] [DecidableEq M] [DecidableEq Arg] in
theorem vars_clear : (clear s guard).vars = s.vars := by
  unfold clear
  split <;> rfl

theorem matched_moveAssign (matched : Matched locked s) (alive : guard ∈ s.vars.live)
    (alive' : l ∈ s.vars.live) (other : l ≠ guard) : Matched locked (moveAssign s guard l) := by
  have moved := Vars.holders_move locked s.vars alive alive' (a := (none, (s.vars.val l).2)) rfl
  have vars : (moveAssign s guard l).vars =
      (s.vars.set guard (s.vars.val l)).set l (none, (s.vars.val l).2) := by
    show ((clear s guard).vars.set guard ((clear s guard).vars.val l)).set l
      (none, (((clear s guard).vars.set guard ((clear s guard).vars.val l)).val l).2) = _
    rw [vars_clear, Vars.val_set_of_ne _ _ other]
  have := matched_clear guard matched moved
  rw [← vars] at this
  exact this

/-- The destructor gives up what the guard holds, and calls through `NULL` if it holds
nothing. -/
theorem matched_destroy (matched : Matched locked s) (alive : guard ∈ s.vars.live) :
    Matched locked (destroy s guard) := by
  have removed := Vars.holders_remove locked s.vars alive
  unfold destroy
  split
  case h_1 m arg named =>
    apply matched.unlock
    rwa [named] at removed
  case h_2 arg named =>
    rw [named] at removed
    exact matched.keep (fun y => by simp [Scopes.call]) (fun y => by simp [Scopes.call]) removed

theorem matched_step {op : ScopeOp V (M × Arg)} (matched : Matched locked s)
    (stepped : step s op = some s') : Matched locked s' := by
  cases op with
  | construct guard x =>
      obtain ⟨new, rfl⟩ := possible_iff.mp stepped
      exact matched.lock fun y => Vars.holders_add locked s.vars new (some x.1, x.2) y
  | moveConstruct guard l =>
      obtain ⟨⟨new, alive⟩, rfl⟩ := possible_iff.mp stepped
      apply matched.keep (fun _ => rfl) (fun _ => rfl)
      exact Vars.holders_addMove locked s.vars new alive rfl
  | moveAssign guard l =>
      obtain ⟨⟨alive, alive', other⟩, rfl⟩ := possible_iff.mp stepped
      exact matched_moveAssign matched alive alive' other.symm
  | destroy guard =>
      obtain ⟨alive, rfl⟩ := possible_iff.mp stepped
      exact matched_destroy matched alive

omit [DecidableEq M] [DecidableEq Arg] in
/-- A step calls through `NULL` exactly if it destroys a guard without a lock. -/
theorem notNull_step_iff {op : ScopeOp V (M × Arg)} (stepped : step s op = some s') :
    .unlockNull ∉ s'.calls ↔ .unlockNull ∉ s.calls ∧ HasLock s op := by
  cases op with
  | construct guard x =>
      obtain ⟨new, rfl⟩ := possible_iff.mp stepped
      simp [construct, Scopes.call, HasLock]
  | moveConstruct guard l =>
      obtain ⟨new, rfl⟩ := possible_iff.mp stepped
      simp [moveConstruct, Scopes.write, HasLock]
  | moveAssign guard l =>
      obtain ⟨alive, rfl⟩ := possible_iff.mp stepped
      have calls : .unlockNull ∉ (moveAssign s guard l).calls ↔ .unlockNull ∉ s.calls := by
        show .unlockNull ∉ (clear s guard).calls ↔ _
        unfold clear
        split <;> simp [Scopes.call]
      simp [calls, HasLock]
  | destroy guard =>
      obtain ⟨alive, rfl⟩ := possible_iff.mp stepped
      have hasLock : HasLock s (.destroy guard : ScopeOp V (M × Arg)) ↔
          (s.vars.val guard).1 ≠ none := by
        simp [HasLock]
      rw [hasLock]
      unfold destroy
      split
      case h_1 m arg named => simp [Scopes.call, named]
      case h_2 arg named => simp [Scopes.call, named]

omit [DecidableEq M] [DecidableEq Arg] in
theorem notNull_run_iff {ops : List (ScopeOp V (M × Arg))} (ran : run step s ops = some s') :
    .unlockNull ∉ s'.calls ↔ .unlockNull ∉ s.calls ∧ AlongRun step HasLock s ops := by
  induction ops generalizing s with
  | nil =>
      cases ran
      simp [AlongRun]
  | cons op ops ih =>
      rw [run, List.foldlM_cons] at ran
      obtain ⟨between, first, later⟩ := Option.bind_eq_some_iff.mp ran
      have along : AlongRun step HasLock s (op :: ops) ↔
          HasLock s op ∧ AlongRun step HasLock between ops := by
        rw [AlongRun]
        refine and_congr_right fun _ => ⟨fun all => all between first, fun rest s'' stepped => ?_⟩
        rw [first, Option.some.injEq] at stepped
        exact stepped ▸ rest
      rw [ih later, notNull_step_iff first, along, and_assoc]

theorem run_unlockedOnce_iff {empty : Option M × Arg} {ops : List (ScopeOp V (M × Arg))}
    (ran : run step (.start empty) ops = some s) :
    UnlockedOnce locked s ↔ AlongRun step HasLock (.start empty) ops := by
  have matched := run_inv (fun s : State V M Arg => Matched locked s)
    (fun s op s' inv stepped => matched_step inv stepped) (fun x => rfl) ran
  rw [matched.unlockedOnce_iff, notNull_run_iff ran]
  exact and_iff_right List.not_mem_nil

end ScopeLockArgMovable

/-- **Every lock is unlocked once**: always by `ScopeLockMovable`, and by
`ScopeLockArgMovable` exactly in the runs that destroy no guard that was moved from. -/
theorem unlock_once_iff {V M Arg : Type} [DecidableEq V] [DecidableEq M] [DecidableEq Arg]
    (empty : Option M × Arg) :
    (∀ (ops : List (ScopeOp V M)) (s : ScopeLockMovable.State V M),
      run ScopeLockMovable.step (.start none) ops = some s → UnlockedOnce id s) ∧
    (∀ (ops : List (ScopeOp V (M × Arg))) (s : ScopeLockArgMovable.State V M Arg),
      run ScopeLockArgMovable.step (.start empty) ops = some s →
        (UnlockedOnce ScopeLockArgMovable.locked s ↔
          AlongRun ScopeLockArgMovable.step ScopeLockArgMovable.HasLock (.start empty) ops)) :=
  ⟨fun _ _ ran => ScopeLockMovable.run_unlockedOnce ran,
    fun _ _ ran => ScopeLockArgMovable.run_unlockedOnce_iff ran⟩

/-- One lock goes through three guards. -/
def handedOn : List (ScopeOp Nat Char) :=
  [.construct 0 'm', .moveConstruct 1 0, .construct 2 'n', .moveAssign 2 1, .destroy 0, .destroy 1,
    .destroy 2]

/-- A lock with an argument that stays where it is. -/
def keptThere : List (ScopeOp Nat (Char × Nat)) := [.construct 0 ('m', 5), .destroy 0]

theorem unlock_once_moves :
    (∃ s, run ScopeLockMovable.step (.start none) handedOn = some s ∧ s.vars.live = ∅ ∧
      s.calls = [.lock 'm', .lock 'n', .unlock 'n', .unlock 'm'] ∧ UnlockedOnce id s) ∧
    (∃ s, run ScopeLockArgMovable.step (.start (none, 0)) keptThere = some s ∧ s.vars.live = ∅ ∧
      s.calls = [.lock ('m', 5), .unlock ('m', 5)] ∧
        UnlockedOnce ScopeLockArgMovable.locked s) := by
  have movable := (unlock_once_iff (V := Nat) (M := Char) (none, 0)).1 handedOn _ rfl
  have arg := (unlock_once_iff (V := Nat) (M := Char) (none, 0)).2 keptThere _ rfl
  refine ⟨⟨_, rfl, by decide, rfl, movable⟩, ⟨_, rfl, by decide, rfl, arg.mpr ?_⟩⟩
  simp [keptThere, AlongRun, ScopeLockArgMovable.HasLock, ScopeLockArgMovable.step,
    ScopeLockArgMovable.construct, Scopes.call, Scopes.start]

/-- **Refuted**: a guard is moved from, and unlocks through `NULL` when it goes. -/
theorem unlock_once_refuted :
    ¬ ((∀ (ops : List (ScopeOp Nat Char)) (s : ScopeLockMovable.State Nat Char),
        run ScopeLockMovable.step (.start none) ops = some s → UnlockedOnce id s) ∧
      (∀ (ops : List (ScopeOp Nat (Char × Nat))) (s : ScopeLockArgMovable.State Nat Char Nat),
        run ScopeLockArgMovable.step (.start (none, 0)) ops = some s →
          UnlockedOnce ScopeLockArgMovable.locked s)) := by
  rintro ⟨-, arg⟩
  have once := arg [.construct 0 ('m', 5), .moveConstruct 1 0, .destroy 1, .destroy 0] _ rfl
  exact absurd once.notNull (by decide)

end UdpStuff.Utils
