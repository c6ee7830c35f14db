/-
# Utils.Guards — resources that are released once

`SocketGuard` and `GuardPointer` own a raw resource: a descriptor, or a pointer and the
function that frees it.  The steps are what a program can do with guards: construct, move,
take the resource out with `handle`, `clear` (`SocketGuard` only) and destroy.  The two
classes release and take over in a different order when they are assigned to; a guard may
be moved into itself.

`accounted` is conserved: a resource that was given to a constructor is held by a guard,
released, or handed out, and each time it was given it is so once
(`SocketGuard.step_accounted`, `GuardPointer.step_accounted`).  `release_once` follows for
the runs that give each resource to one constructor only.
-/
import Mathlib.Data.List.Count
import UdpStuff.Theory.Holders
import UdpStuff.Theory.Runs

namespace UdpStuff.Utils

open Theory

set_option autoImplicit false

/-- Guards, the resources that were released, and those that `handle` gave away. -/
structure Guards (V A R : Type) where
  vars : Vars V A
  released : List R
  handed : List R

/-- What a program does with guards; a guard that is constructed is a new one. -/
inductive GuardOp (V A : Type) where
  | default (x : V)
  | construct (x : V) (a : A)
  | moveConstruct (x other : V)
  | moveAssign (x other : V)
  | handle (x : V)
  | clear (x : V)
  | destroy (x : V)

namespace Guards

variable {V A R : Type} [DecidableEq V]

/-- No guard yet. -/
def start (empty : A) : Guards V A R := ⟨⟨∅, fun _ => empty⟩, [], []⟩

/-- The member is written. -/
def write (s : Guards V A R) (x : V) (a : A) : Guards V A R := { s with vars := s.vars.set x a }

def release (s : Guards V A R) (r : Option R) : Guards V A R :=
  { s with released := s.released ++ r.toList }

def handOut (s : Guards V A R) (r : Option R) : Guards V A R :=
  { s with handed := s.handed ++ r.toList }

end Guards

/-! ## The classes -/

section Classes

variable {V R : Type} [DecidableEq V]

namespace SocketGuard

/-- A descriptor that is not negative is open. -/
def resource (fd : Int) : Option Int := if fd ≥ 0 then some fd else none

variable (s : Guards V Int Int)

def clear (x : V) : Guards V Int Int :=
  if s.vars.val x ≥ 0 then (s.release (some (s.vars.val x))).write x (-1) else s

/-- `handle`, and what it returns. -/
def handle (x : V) : Int × Guards V Int Int := (s.vars.val x, s.write x (-1))

def moveConstruct (x other : V) : Guards V Int Int :=
  let s := { s with vars := s.vars.add x (-1) }
  let r := handle s other
  r.2.write x r.1

def moveAssign (x other : V) : Guards V Int Int :=
  let s := clear s x
  let r := handle s other
  r.2.write x r.1

def destroy (x : V) : Guards V Int Int :=
  let s := clear s x
  { s with vars := s.vars.remove x }

def step : GuardOp V Int → Option (Guards V Int Int)
  | .default x => if x ∉ s.vars.live then some { s with vars := s.vars.add x (-1) } else none
  | .construct x fd => if x ∉ s.vars.live then some { s with vars := s.vars.add x fd } else none
  | .moveConstruct x other =>
    if x ∉ s.vars.live ∧ other ∈ s.vars.live then some (moveConstruct s x other) else none
  | .moveAssign x other =>
    if x ∈ s.vars.live ∧ other ∈ s.vars.live then some (moveAssign s x other) else none
  | .handle x =>
    if x ∈ s.vars.live then some ((handle s x).2.handOut (resource (handle s x).1)) else none
  | .clear x => if x ∈ s.vars.live then some (clear s x) else none
  | .destroy x => if x ∈ s.vars.live then some (destroy s x) else none

end SocketGuard

namespace GuardPointer

/-- `free_func`, unless the pointer is `NULL`. -/
def free (s : Guards V (Option R) R) (x : V) : Guards V (Option R) R := s.release (s.vars.val x)

variable (s : Guards V (Option R) R)

def handle (x : V) : Option R × Guards V (Option R) R := (s.vars.val x, s.write x none)

def moveConstruct (x other : V) : Guards V (Option R) R :=
  let s := { s with vars := s.vars.add x none }
  let s := s.write x (s.vars.val other)
  s.write other none

/-- The pointer that was freed stays in the guard until that of the other is there. -/
def moveAssign (x other : V) : Guards V (Option R) R :=
  let s := free s x
  let s := s.write x (s.vars.val other)
  s.write other none

def destroy (x : V) : Guards V (Option R) R :=
  let s := free s x
  { s with vars := s.vars.remove x }

/-- There is no `clear`. -/
def step : GuardOp V (Option R) → Option (Guards V (Option R) R)
  | .default x => if x ∉ s.vars.live then some { s with vars := s.vars.add x none } else none
  | .construct x ptr => if x ∉ s.vars.live then some { s with vars := s.vars.add x ptr } else none
  | .moveConstruct x other =>
    if x ∉ s.vars.live ∧ other ∈ s.vars.live then some (moveConstruct s x other) else none
  | .moveAssign x other =>
    if x ∈ s.vars.live ∧ other ∈ s.vars.live then some (moveAssign s x other) else none
  | .handle x => if x ∈ s.vars.live then some ((handle s x).2.handOut (handle s x).1) else none
  | .clear _ => none
  | .destroy x => if x ∈ s.vars.live then some (destroy s x) else none

end GuardPointer

end Classes

/-! ## What is conserved -/

namespace Guards

variable {V A R : Type} [DecidableEq V] [DecidableEq R] (names : A → Option R)

/-- How often a resource is held, was released, or was handed out. -/
def accounted (s : Guards V A R) (r : R) : Nat :=
  Vars.holders names s.vars r + s.released.count r + s.handed.count r

theorem accounted_write (s : Guards V A R) {x : V} (alive : x ∈ s.vars.live) (a : A) (r : R) :
    (s.write x a).accounted names r + Vars.worth (names (s.vars.val x)) r =
      s.accounted names r + Vars.worth (names a) r := by
  have held := Vars.holders_set names s.vars alive a r
  show Vars.holders names (s.vars.set x a) r + s.released.count r + s.handed.count r + _ =
    Vars.holders names s.vars r + s.released.count r + s.handed.count r + _
  omega

theorem accounted_add (s : Guards V A R) {x : V} (new : x ∉ s.vars.live) (a : A) (r : R) :
    accounted names { s with vars := s.vars.add x a } r =
      s.accounted names r + Vars.worth (names a) r := by
  have held := Vars.holders_add names s.vars new a r
  show Vars.holders names (s.vars.add x a) r + s.released.count r + s.handed.count r =
    Vars.holders names s.vars r + s.released.count r + s.handed.count r + _
  omega

theorem accounted_remove (s : Guards V A R) {x : V} (alive : x ∈ s.vars.live) (r : R) :
    accounted names { s with vars := s.vars.remove x } r + Vars.worth (names (s.vars.val x)) r =
      s.accounted names r := by
  have held := Vars.holders_remove names s.vars alive r
  show Vars.holders names (s.vars.remove x) r + s.released.count r + s.handed.count r + _ =
    Vars.holders names s.vars r + s.released.count r + s.handed.count r
  omega

omit [DecidableEq V] in
theorem accounted_release (s : Guards V A R) (named : Option R) (r : R) :
    (s.release named).accounted names r = s.accounted names r + Vars.worth named r := by
  have count : (s.released ++ named.toList).count r = s.released.count r + Vars.worth named r := by
    rw [List.count_append, Vars.worth_eq_count]
  show Vars.holders names s.vars r + (s.released ++ named.toList).count r + s.handed.count r =
    Vars.holders names s.vars r + s.released.count r + s.handed.count r + _
  omega

omit [DecidableEq V] in
theorem accounted_handOut (s : Guards V A R) (named : Option R) (r : R) :
    (s.handOut named).accounted names r = s.accounted names r + Vars.worth named r := by
  have count : (s.handed ++ named.toList).count r = s.handed.count r + Vars.worth named r := by
    rw [List.count_append, Vars.worth_eq_count]
  show Vars.holders names s.vars r + s.released.count r + (s.handed ++ named.toList).count r =
    Vars.holders names s.vars r + s.released.count r + s.handed.count r + _
  omega

end Guards

namespace GuardOp

variable {V A R : Type} (names : A → Option R)

/-- The resource that a constructor is given. -/
def given : GuardOp V A → Option R
  | .construct _ a => names a
  | _ => none

/-- All of them. -/
def givenBy (ops : List (GuardOp V A)) : List R := ops.filterMap (given names)

theorem count_givenBy [DecidableEq R] (ops : List (GuardOp V A)) (r : R) :
    (givenBy names ops).count r = (ops.map fun op => Vars.worth (op.given names) r).sum := by
  induction ops with
  | nil => rfl
  | cons op ops ih =>
      have head := Vars.worth_eq_count (op.given names) r
      rw [List.map_cons, List.sum_cons, ← ih, ← head, ← List.count_append]
      rw [givenBy, List.filterMap_cons]
      cases op.given names <;> rfl

end GuardOp

namespace SocketGuard

variable {V : Type} [DecidableEq V] {s s' : Guards V Int Int} {x other : V}

theorem live_clear : (clear s x).vars.live = s.vars.live := by
  unfold clear
  split <;> rfl

/-- After `clear` the guard is empty. -/
theorem resource_clear : resource ((clear s x).vars.val x) = none := by
  unfold clear
  split
  case isTrue open_ =>
    show resource ((s.vars.set x (-1)).val x) = none
    rw [Vars.val_set_self]
    rfl
  case isFalse closed => rw [resource, if_neg closed]

theorem accounted_clear (alive : x ∈ s.vars.live) (r : Int) :
    (clear s x).accounted resource r = s.accounted resource r := by
  unfold clear
  split
  case isTrue open_ =>
    have released := s.accounted_release resource (some (s.vars.val x)) r
    have written := (s.release (some (s.vars.val x))).accounted_write resource (x := x) alive (-1) r
    have named : resource (s.vars.val x) = some (s.vars.val x) := if_pos open_
    have emptied : Vars.worth (resource (-1)) r = 0 := rfl
    change _ + Vars.worth (resource (s.vars.val x)) r = _ at written
    rw [named] at written
    omega
  case isFalse => rfl

/-- What `handle` takes out is in no guard any more. -/
theorem accounted_handle (alive : x ∈ s.vars.live) (r : Int) :
    (handle s x).2.accounted resource r + Vars.worth (resource (handle s x).1) r =
      s.accounted resource r :=
  s.accounted_write resource alive (-1) r

/-- A guard without a resource takes over that of another, which may be itself. -/
theorem accounted_takeOver (alive : x ∈ s.vars.live) (alive' : other ∈ s.vars.live)
    (free : resource (s.vars.val x) = none) (r : Int) :
    ((handle s other).2.write x (handle s other).1).accounted resource r =
      s.accounted resource r := by
  have taken := accounted_handle alive' r
  have written := (handle s other).2.accounted_write resource (x := x) alive (handle s other).1 r
  have still : resource ((handle s other).2.vars.val x) = none := by
    show resource ((s.vars.set other (-1)).val x) = none
    by_cases same : x = other
    · rw [same, Vars.val_set_self]
      rfl
    · rw [Vars.val_set_of_ne _ _ same, free]
  rw [still, Vars.worth_none] at written
  omega

theorem accounted_moveConstruct (new : x ∉ s.vars.live) (alive : other ∈ s.vars.live) (r : Int) :
    (moveConstruct s x other).accounted resource r = s.accounted resource r := by
  have added := s.accounted_add resource new (-1) r
  have emptied : Vars.worth (resource (-1)) r = 0 := rfl
  have free : resource ((s.vars.add x (-1)).val x) = none := by
    rw [Vars.val_add_self]
    rfl
  have taken := accounted_takeOver (s := { s with vars := s.vars.add x (-1) })
    (Finset.mem_insert_self x s.vars.live) (Finset.mem_insert_of_mem alive) free r
  show ((handle { s with vars := s.vars.add x (-1) } other).2.write x _).accounted resource r = _
  omega

theorem accounted_moveAssign (alive : x ∈ s.vars.live) (alive' : other ∈ s.vars.live) (r : Int) :
    (moveAssign s x other).accounted resource r = s.accounted resource r := by
  have cleared := accounted_clear alive r
  rw [← live_clear (x := x)] at alive alive'
  have taken := accounted_takeOver alive alive' resource_clear r
  show ((handle (clear s x) other).2.write x (handle (clear s x) other).1).accounted _ r = _
  omega

theorem accounted_destroy (alive : x ∈ s.vars.live) (r : Int) :
    (destroy s x).accounted resource r = s.accounted resource r := by
  have cleared := accounted_clear alive r
  rw [← live_clear (x := x)] at alive
  have removed := (clear s x).accounted_remove resource alive r
  rw [resource_clear, Vars.worth_none] at removed
  exact removed.trans cleared

/-- **What a step gives is accounted for, and nothing else changes the account.** -/
theorem step_accounted {op : GuardOp V Int} (stepped : step s op = some s') (r : Int) :
    s'.accounted resource r = s.accounted resource r + Vars.worth (op.given resource) r := by
  cases op with
  | default x =>
      obtain ⟨new, rfl⟩ := possible_iff.mp stepped
      exact s.accounted_add resource new (-1) r
  | construct x fd =>
      obtain ⟨new, rfl⟩ := possible_iff.mp stepped
      exact s.accounted_add resource new fd r
  | moveConstruct x other =>
      obtain ⟨⟨new, alive⟩, rfl⟩ := possible_iff.mp stepped
      exact accounted_moveConstruct new alive r
  | moveAssign x other =>
      obtain ⟨⟨alive, alive'⟩, rfl⟩ := possible_iff.mp stepped
      exact accounted_moveAssign alive alive' r
  | handle x =>
      obtain ⟨alive, rfl⟩ := possible_iff.mp stepped
      rw [Guards.accounted_handOut]
      exact accounted_handle alive r
  | clear x =>
      obtain ⟨alive, rfl⟩ := possible_iff.mp stepped
      exact accounted_clear alive r
  | destroy x =>
      obtain ⟨alive, rfl⟩ := possible_iff.mp stepped
      exact accounted_destroy alive r

end SocketGuard

namespace GuardPointer

variable {V R : Type} [DecidableEq V] [DecidableEq R] {s s' : Guards V (Option R) R} {x other : V}

theorem accounted_handle (alive : x ∈ s.vars.live) (r : R) :
    (handle s x).2.accounted id r + Vars.worth (handle s x).1 r = s.accounted id r :=
  s.accounted_write id alive none r

/-- The pointer of the other guard is written over that of the guard, and `NULL` over it. -/
theorem accounted_takeOver (alive : x ∈ s.vars.live) (alive' : other ∈ s.vars.live) (r : R) :
    ((s.write x (s.vars.val other)).write other none).accounted id r +
      Vars.worth (s.vars.val x) r = s.accounted id r := by
  have moved := Vars.holders_move id s.vars alive alive' (a := none) rfl r
  change Vars.holders id ((s.vars.set x (s.vars.val other)).set other none) r +
    Vars.worth (s.vars.val x) r = Vars.holders id s.vars r at moved
  show Vars.holders id ((s.vars.set x (s.vars.val other)).set other none) r +
    s.released.count r + s.handed.count r + _ =
      Vars.holders id s.vars r + s.released.count r + s.handed.count r
  omega

theorem accounted_moveConstruct (new : x ∉ s.vars.live) (alive : other ∈ s.vars.live) (r : R) :
    (moveConstruct s x other).accounted id r = s.accounted id r := by
  have added := s.accounted_add id new none r
  have taken := accounted_takeOver (s := { s with vars := s.vars.add x none })
    (Finset.mem_insert_self x s.vars.live) (Finset.mem_insert_of_mem alive) r
  have fresh : (s.vars.add x none).val x = none := Vars.val_add_self _ _ _
  dsimp only at taken
  rw [fresh, Vars.worth_none] at taken
  exact taken.trans added

theorem accounted_moveAssign (alive : x ∈ s.vars.live) (alive' : other ∈ s.vars.live) (r : R) :
    (moveAssign s x other).accounted id r = s.accounted id r := by
  have freed := s.accounted_release id (s.vars.val x) r
  have taken := accounted_takeOver (s := free s x) alive alive' r
  change (moveAssign s x other).accounted id r + Vars.worth (s.vars.val x) r =
    (s.release (s.vars.val x)).accounted id r at taken
  omega

theorem accounted_destroy (alive : x ∈ s.vars.live) (r : R) :
    (destroy s x).accounted id r = s.accounted id r := by
  have freed := s.accounted_release id (s.vars.val x) r
  have removed := (free s x).accounted_remove id alive r
  change (destroy s x).accounted id r + Vars.worth (s.vars.val x) r =
    (s.release (s.vars.val x)).accounted id r at removed
  omega

theorem step_accounted {op : GuardOp V (Option R)} (stepped : step s op = some s') (r : R) :
    s'.accounted id r = s.accounted id r + Vars.worth (op.given id) r := by
  cases op with
  | default x =>
      obtain ⟨new, rfl⟩ := possible_iff.mp stepped
      exact s.accounted_add id new none r
  | construct x ptr =>
      obtain ⟨new, rfl⟩ := possible_iff.mp stepped
      exact s.accounted_add id new ptr r
  | moveConstruct x other =>
      obtain ⟨⟨new, alive⟩, rfl⟩ := possible_iff.mp stepped
      exact accounted_moveConstruct new alive r
  | moveAssign x other =>
      obtain ⟨⟨alive, alive'⟩, rfl⟩ := possible_iff.mp stepped
      exact accounted_moveAssign alive alive' r
  | handle x =>
      obtain ⟨alive, rfl⟩ := possible_iff.mp stepped
      rw [Guards.accounted_handOut]
      exact accounted_handle alive r
  | clear x => cases stepped
  | destroy x =>
      obtain ⟨alive, rfl⟩ := possible_iff.mp stepped
      exact accounted_destroy alive r

end GuardPointer

/-! ## Over a run -/

/-- What becomes of the resources that were given to constructors. -/
structure ReleasedOnce {V A R : Type} [DecidableEq R] (names : A → Option R) (given : List R)
    (s : Guards V A R) : Prop where
  atMostOnce : ∀ r, s.released.count r ≤ 1
  notHanded : ∀ r ∈ s.handed, r ∉ s.released
  oneHolder : ∀ r, ∀ x ∈ s.vars.live, ∀ y ∈ s.vars.live, names (s.vars.val x) = some r →
    names (s.vars.val y) = some r → x = y
  kept : ∀ r ∈ given, r ∉ s.handed →
    s.released.count r = 1 ∨ ∃ x ∈ s.vars.live, names (s.vars.val x) = some r
  exactlyOnce : s.vars.live = ∅ → ∀ r ∈ given, r ∉ s.handed → s.released.count r = 1

/-- Where every resource is accounted for as often as it was given, and given once. -/
theorem Guards.releasedOnce {V A R : Type} [DecidableEq V] [DecidableEq R] {names : A → Option R}
    {given : List R} {s : Guards V A R} (once : given.Nodup)
    (conserved : ∀ r, s.accounted names r = given.count r) : ReleasedOnce names given s := by
  have most (r : R) : Vars.holders names s.vars r + s.released.count r + s.handed.count r ≤ 1 := by
    have account : Vars.holders names s.vars r + s.released.count r + s.handed.count r =
      given.count r := conserved r
    have single := List.nodup_iff_count_le_one.mp once r
    omega
  have kept : ∀ r ∈ given, r ∉ s.handed →
      s.released.count r = 1 ∨ Vars.holders names s.vars r ≠ 0 := by
    intro r member notHanded
    have account : Vars.holders names s.vars r + s.released.count r + s.handed.count r =
      given.count r := conserved r
    rw [List.count_eq_one_of_mem once member, List.count_eq_zero_of_not_mem notHanded] at account
    omega
  refine ⟨fun r => ?_, fun r handed released => ?_, fun r x alive y alive' named named' => ?_,
    fun r member notHanded => ?_, fun dead r member notHanded => ?_⟩
  · have := most r
    omega
  · have one := List.one_le_count_iff.mpr handed
    have two := List.one_le_count_iff.mpr released
    have := most r
    omega
  · have := most r
    exact Vars.eq_of_holders_le (by omega) alive alive' named named'
  · apply (kept r member notHanded).imp_right
    intro some
    obtain ⟨x, member⟩ := Finset.card_ne_zero.mp some
    rw [Finset.mem_filter] at member
    exact ⟨x, member⟩
  · apply (kept r member notHanded).resolve_right
    exact not_not_intro (Vars.holders_of_none_live dead r)

theorem SocketGuard.run_releasedOnce {V : Type} [DecidableEq V] {ops : List (GuardOp V Int)}
    {s : Guards V Int Int} (once : (GuardOp.givenBy resource ops).Nodup)
    (ran : run step (.start (-1)) ops = some s) :
    ReleasedOnce resource (GuardOp.givenBy resource ops) s := by
  apply Guards.releasedOnce once
  intro r
  have account := run_count (fun s : Guards V Int Int => s.accounted resource r)
    (fun _ _ _ stepped => step_accounted stepped r) ran
  rw [account, ← GuardOp.count_givenBy]
  exact Nat.zero_add _

theorem GuardPointer.run_releasedOnce {V R : Type} [DecidableEq V] [DecidableEq R]
    {ops : List (GuardOp V (Option R))} {s : Guards V (Option R) R}
    (once : (GuardOp.givenBy id ops).Nodup) (ran : run step (.start none) ops = some s) :
    ReleasedOnce id (GuardOp.givenBy id ops) s := by
  apply Guards.releasedOnce once
  intro r
  have account := run_count (fun s : Guards V (Option R) R => s.accounted id r)
    (fun _ _ _ stepped => step_accounted stepped r) ran
  rw [account, ← GuardOp.count_givenBy]
  exact Nat.zero_add _

/-- **Every resource is released once, or handed out**, by either class, in whatever order
the guards are moved. -/
theorem release_once {V R : Type} [DecidableEq V] [DecidableEq R] :
    (∀ (ops : List (GuardOp V Int)) (s : Guards V Int Int),
      (GuardOp.givenBy SocketGuard.resource ops).Nodup →
      run SocketGuard.step (.start (-1)) ops = some s →
      ReleasedOnce SocketGuard.resource (GuardOp.givenBy SocketGuard.resource ops) s) ∧
    (∀ (ops : List (GuardOp V (Option R))) (s : Guards V (Option R) R),
      (GuardOp.givenBy id ops).Nodup → run GuardPointer.step (.start none) ops = some s →
      ReleasedOnce id (GuardOp.givenBy id ops) s) :=
  ⟨fun _ _ once ran => SocketGuard.run_releasedOnce once ran,
    fun _ _ once ran => GuardPointer.run_releasedOnce once ran⟩

/-- A descriptor is moved on and into itself, which closes it; another one is taken out. -/
def descriptorMoves : List (GuardOp Nat Int) :=
  [.construct 0 5, .construct 1 6, .default 2, .moveAssign 2 0, .moveAssign 2 2, .handle 1,
    .moveConstruct 3 1, .destroy 0, .destroy 1, .destroy 2, .destroy 3]

/-- The same with pointers. -/
def pointerMoves : List (GuardOp Nat (Option Nat)) :=
  [.construct 0 (some 5), .construct 1 (some 6), .default 2, .moveAssign 2 0, .moveAssign 2 2,
    .handle 1, .moveConstruct 3 1, .destroy 0, .destroy 1, .destroy 2, .destroy 3]

theorem release_once_moves :
    (∃ s, run SocketGuard.step (.start (-1)) descriptorMoves = some s ∧
      s.released = [5] ∧ s.handed = [6] ∧ ReleasedOnce SocketGuard.resource [5, 6] s) ∧
    (∃ s, run GuardPointer.step (.start none) pointerMoves = some s ∧
      s.released = [5] ∧ s.handed = [6] ∧ ReleasedOnce id [5, 6] s) :=
  ⟨⟨_, rfl, rfl, rfl, (release_once (R := Nat)).1 descriptorMoves _ (by decide) rfl⟩,
    ⟨_, rfl, rfl, rfl, (release_once (R := Nat)).2 pointerMoves _ (by decide) rfl⟩⟩

end UdpStuff.Utils
