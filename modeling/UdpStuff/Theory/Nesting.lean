/-
# Theory.Nesting — brackets in a text

A scan counts the brackets that are open and stops at one that closes none.  A text that takes
every depth from `m` above it to `n` above it does so behind and before any others (`Shifts`);
a balanced one is a text from nothing to nothing.
-/
import Mathlib.Data.List.Basic

namespace UdpStuff.Theory

set_option autoImplicit false

universe u

variable {α : Type u}

/-- The depth behind one letter, if it closes no bracket that is not open. -/
def turn : Option Bool → Nat → Option Nat
  | none, depth => some depth
  | some true, depth => some (depth + 1)
  | some false, 0 => none
  | some false, depth + 1 => some depth

/-- The depth behind a text; `kind` says what opens a bracket and what closes one. -/
def scan (kind : α → Option Bool) (depth : Nat) (text : List α) : Option Nat :=
  text.foldlM (fun d a => turn (kind a) d) depth

variable {kind : α → Option Bool}

theorem scan_append (depth : Nat) (text later : List α) :
    scan kind depth (text ++ later) = (scan kind depth text).bind fun d => scan kind d later :=
  List.foldlM_append

theorem scan_cons (depth : Nat) (a : α) (rest : List α) :
    scan kind depth (a :: rest) = (turn (kind a) depth).bind fun d => scan kind d rest :=
  List.foldlM_cons

/-- From `m` to `n` above any depth. -/
def Shifts (kind : α → Option Bool) (text : List α) (m n : Nat) : Prop :=
  ∀ depth, scan kind (depth + m) text = some (depth + n)

/-- Every bracket that is opened is closed, and no other. -/
def Balanced (kind : α → Option Bool) (text : List α) : Prop := Shifts kind text 0 0

namespace Shifts

variable {text later : List α} {m n k : Nat}

theorem nil : Shifts kind [] m m := fun _ => rfl

theorem append (first : Shifts kind text m n) (second : Shifts kind later n k) :
    Shifts kind (text ++ later) m k := by
  intro depth
  rw [scan_append, first depth, Option.bind_some, second depth]

theorem above (shifts : Shifts kind text m n) (j : Nat) : Shifts kind text (m + j) (n + j) := by
  intro depth
  have deeper := shifts (depth + j)
  rwa [Nat.add_right_comm, Nat.add_right_comm depth j n, Nat.add_assoc, Nat.add_assoc] at deeper

/-- A text without brackets. -/
theorem plain (no : ∀ a ∈ text, kind a = none) : Shifts kind text m m := by
  intro depth
  induction text with
  | nil => rfl
  | cons a rest ih =>
      rw [scan_cons, no a List.mem_cons_self]
      exact ih fun b there => no b (List.mem_cons_of_mem a there)

theorem opens {a : α} (opening : kind a = some true) : Shifts kind [a] m (m + 1) := by
  intro depth
  rw [scan_cons, opening]
  rfl

theorem closes {a : α} (closing : kind a = some false) : Shifts kind [a] (m + 1) m := by
  intro depth
  rw [scan_cons, closing]
  rfl

/-- Texts that change nothing, one after the other. -/
theorem flatMap {β : Type*} {items : List β} {text : β → List α}
    (each : ∀ item ∈ items, Shifts kind (text item) m m) :
    Shifts kind (items.flatMap text) m m := by
  induction items with
  | nil => exact nil
  | cons item rest ih =>
      rw [List.flatMap_cons]
      apply append (each item List.mem_cons_self)
      exact ih fun other there => each other (List.mem_cons_of_mem item there)

end Shifts

/-- A balanced text leaves every depth as it was. -/
theorem Balanced.scan {text : List α} (balanced : Balanced kind text) (depth : Nat) :
    scan kind depth text = some depth := balanced depth

end UdpStuff.Theory
