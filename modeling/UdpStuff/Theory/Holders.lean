/-
# Theory.Holders — how many variables hold a thing

Variables come to life, are written and die; each has a value, and a value may name a
thing.  `holders` counts the living variables that name it.  Each of the three changes
moves the count by what the variable named before and names after (`holders_add`,
`holders_set`, `holders_remove`), so what is conserved over a run is a matter of
adding up.
-/
import Mathlib.Data.Finset.Card
import Mathlib.Logic.Function.Basic

namespace UdpStuff.Theory

set_option autoImplicit false

universe u v w

/-! ## Variables -/

/-- The variables that are alive, and what is in them. -/
structure Vars (V : Type u) (A : Type v) where
  live : Finset V
  val : V → A

namespace Vars

variable {V : Type u} {A : Type v} {R : Type w} [DecidableEq V]

def add (vars : Vars V A) (x : V) (a : A) : Vars V A :=
  ⟨insert x vars.live, Function.update vars.val x a⟩

def set (vars : Vars V A) (x : V) (a : A) : Vars V A :=
  { vars with val := Function.update vars.val x a }

def remove (vars : Vars V A) (x : V) : Vars V A := { vars with live := vars.live.erase x }

@[simp] theorem live_add (vars : Vars V A) (x : V) (a : A) :
    (vars.add x a).live = insert x vars.live := rfl

@[simp] theorem live_set (vars : Vars V A) (x : V) (a : A) : (vars.set x a).live = vars.live := rfl

@[simp] theorem live_remove (vars : Vars V A) (x : V) :
    (vars.remove x).live = vars.live.erase x := rfl

@[simp] theorem val_add_self (vars : Vars V A) (x : V) (a : A) : (vars.add x a).val x = a :=
  Function.update_self _ _ _

@[simp] theorem val_set_self (vars : Vars V A) (x : V) (a : A) : (vars.set x a).val x = a :=
  Function.update_self _ _ _

@[simp] theorem val_add_of_ne (vars : Vars V A) {x y : V} (a : A) (other : y ≠ x) :
    (vars.add x a).val y = vars.val y := Function.update_of_ne other _ _

@[simp] theorem val_set_of_ne (vars : Vars V A) {x y : V} (a : A) (other : y ≠ x) :
    (vars.set x a).val y = vars.val y := Function.update_of_ne other _ _

@[simp] theorem val_remove (vars : Vars V A) (x : V) : (vars.remove x).val = vars.val := rfl

/-! ## Things -/

variable [DecidableEq R] (names : A → Option R)

/-- One for the thing that is named, nothing for any other. -/
def worth (named : Option R) (r : R) : Nat := if named = some r then 1 else 0

@[simp] theorem worth_none (r : R) : worth none r = 0 := rfl

@[simp] theorem worth_self (r : R) : worth (some r) r = 1 := if_pos rfl

theorem worth_of_ne {r r' : R} (other : r' ≠ r) : worth (some r') r = 0 :=
  if_neg fun same => other (Option.some.inj same)

theorem worth_eq_count (named : Option R) (r : R) : named.toList.count r = worth named r := by
  cases named with
  | none => rfl
  | some r' =>
      by_cases same : r' = r
      · subst same
        simp
      · simp [worth_of_ne same, same]

def holders (vars : Vars V A) (r : R) : Nat :=
  (vars.live.filter fun x => names (vars.val x) = some r).card

variable {names}

omit [DecidableEq V] in
theorem holders_of_none_live {vars : Vars V A} (dead : vars.live = ∅) (r : R) :
    holders names vars r = 0 := by
  rw [holders, dead]
  rfl

omit [DecidableEq V] in
theorem holders_pos {vars : Vars V A} {x : V} (alive : x ∈ vars.live) {r : R}
    (named : names (vars.val x) = some r) : 0 < holders names vars r :=
  Finset.card_pos.mpr ⟨x, Finset.mem_filter.mpr ⟨alive, named⟩⟩

omit [DecidableEq V] in
/-- A thing with one holder at most is in one variable at most. -/
theorem eq_of_holders_le {vars : Vars V A} {r : R} (most : holders names vars r ≤ 1) {x y : V}
    (alive : x ∈ vars.live) (alive' : y ∈ vars.live) (named : names (vars.val x) = some r)
    (named' : names (vars.val y) = some r) : x = y :=
  Finset.card_le_one.mp most x (Finset.mem_filter.mpr ⟨alive, named⟩) y
    (Finset.mem_filter.mpr ⟨alive', named'⟩)

variable (names)

/-- The holders besides one variable do not depend on that variable. -/
theorem holders_remove (vars : Vars V A) {x : V} (alive : x ∈ vars.live) (r : R) :
    holders names (vars.remove x) r + worth (names (vars.val x)) r = holders names vars r := by
  have erased : holders names (vars.remove x) r =
      ((vars.live.filter fun y => names (vars.val y) = some r).erase x).card := by
    rw [← Finset.filter_erase]
    rfl
  rw [erased, holders, worth]
  split
  case isTrue named =>
    have member : x ∈ vars.live.filter fun y => names (vars.val y) = some r :=
      Finset.mem_filter.mpr ⟨alive, named⟩
    exact Finset.card_erase_add_one member
  case isFalse other =>
    have outside : x ∉ vars.live.filter fun y => names (vars.val y) = some r :=
      fun member => other (Finset.mem_filter.mp member).2
    rw [Finset.erase_eq_of_notMem outside, Nat.add_zero]

theorem holders_add (vars : Vars V A) {x : V} (new : x ∉ vars.live) (a : A) (r : R) :
    holders names (vars.add x a) r = holders names vars r + worth (names a) r := by
  have born : x ∈ (vars.add x a).live := Finset.mem_insert_self _ _
  have removed := holders_remove names (vars.add x a) born r
  have others : holders names ((vars.add x a).remove x) r = holders names vars r := by
    unfold holders
    congr 1
    rw [live_remove, live_add, Finset.erase_insert new]
    apply Finset.filter_congr
    intro y alive
    have other : y ≠ x := fun same => new (same ▸ alive)
    rw [val_remove, val_add_of_ne _ _ other]
  rw [val_add_self, others] at removed
  exact removed.symm

theorem holders_set (vars : Vars V A) {x : V} (alive : x ∈ vars.live) (a : A) (r : R) :
    holders names (vars.set x a) r + worth (names (vars.val x)) r =
      holders names vars r + worth (names a) r := by
  have before := holders_remove names vars alive r
  have after := holders_remove names (vars.set x a) (x := x) alive r
  have others : holders names ((vars.set x a).remove x) r = holders names (vars.remove x) r := by
    unfold holders
    congr 1
    apply Finset.filter_congr
    intro y member
    rw [val_remove, val_remove, val_set_of_ne _ _ (Finset.ne_of_mem_erase member)]
  rw [val_set_self, others] at after
  omega

/-- A value that is moved into a variable takes the place of the one there; the variable
it comes from, which may be the same, is left with nothing. -/
theorem holders_move (vars : Vars V A) {x other : V} (alive : x ∈ vars.live)
    (alive' : other ∈ vars.live) {a : A} (nothing : names a = none) (r : R) :
    holders names ((vars.set x (vars.val other)).set other a) r + worth (names (vars.val x)) r =
      holders names vars r := by
  have written := holders_set names vars alive (vars.val other) r
  have emptied := holders_set names (vars.set x (vars.val other)) (x := other) alive' a r
  have still : (vars.set x (vars.val other)).val other = vars.val other := by
    by_cases same : other = x
    · rw [same, val_set_self]
    · exact val_set_of_ne _ _ same
  rw [still, nothing, worth_none] at emptied
  omega

/-- So is a value that is moved into a new variable. -/
theorem holders_addMove (vars : Vars V A) {x other : V} (new : x ∉ vars.live)
    (alive' : other ∈ vars.live) {a : A} (nothing : names a = none) (r : R) :
    holders names ((vars.add x (vars.val other)).set other a) r = holders names vars r := by
  have added := holders_add names vars new (vars.val other) r
  have alive : other ∈ (vars.add x (vars.val other)).live := Finset.mem_insert_of_mem alive'
  have emptied := holders_set names (vars.add x (vars.val other)) alive a r
  have other_ : other ≠ x := fun same => new (same ▸ alive')
  rw [val_add_of_ne _ _ other_, nothing, worth_none] at emptied
  omega

end Vars

end UdpStuff.Theory
