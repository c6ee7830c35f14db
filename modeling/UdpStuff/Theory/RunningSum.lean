/-
# Theory.RunningSum — blocks chained by addition

`chain` adds each block to what was added up before and sends the sums through a
bijection.  `unchain` takes them back and subtracts the block it made last, where
it would have to subtract the sum before.  The two agree while the sums are zero:
`unchain_chain_iff` says for which blocks, in any commutative group.
-/
import Mathlib.Algebra.BigOperators.Group.List.Basic
import Mathlib.Logic.Equiv.Defs

namespace UdpStuff.Theory

set_option autoImplicit false

universe u v

variable {B : Type u} {C : Type v} [AddCommGroup B]

/-- The sums sent through `e`, and the last sum. -/
def chain (e : B → C) : B → List B → List C × B
  | f, [] => ([], f)
  | f, p :: ps =>
    let later := chain e (f + p) ps
    (e (f + p) :: later.1, later.2)

/-- The differences to the block made last, and the last of them. -/
def unchain (d : C → B) : B → List C → List B × B
  | g, [] => ([], g)
  | g, c :: cs =>
    let later := unchain d (d c - g) cs
    ((d c - g) :: later.1, later.2)

@[simp] theorem length_chain (e : B → C) (f : B) (ps : List B) :
    (chain e f ps).1.length = ps.length := by
  induction ps generalizing f with
  | nil => rfl
  | cons p ps ih => rw [chain, List.length_cons, ih, List.length_cons]

@[simp] theorem length_unchain (d : C → B) (g : B) (cs : List C) :
    (unchain d g cs).1.length = cs.length := by
  induction cs generalizing g with
  | nil => rfl
  | cons c cs ih => rw [unchain, List.length_cons, ih, List.length_cons]

theorem chain_last (e : B → C) (f : B) (ps : List B) : (chain e f ps).2 = f + ps.sum := by
  induction ps generalizing f with
  | nil => simp [chain]
  | cons p ps ih => rw [chain, ih, List.sum_cons, add_assoc]

theorem unchain_last (d : C → B) (g : B) (cs : List C) :
    (unchain d g cs).2 = (unchain d g cs).1.getLastD g := by
  induction cs generalizing g with
  | nil => rfl
  | cons c cs ih => rw [unchain, ih, List.getLastD_cons]

/-- What comes later goes on from the sum. -/
theorem chain_append (e : B → C) (f : B) (ps qs : List B) :
    chain e f (ps ++ qs) =
      ((chain e f ps).1 ++ (chain e (chain e f ps).2 qs).1, (chain e (chain e f ps).2 qs).2) := by
  induction ps generalizing f with
  | nil => rfl
  | cons p ps ih => simp only [List.cons_append, chain, ih]

theorem chain_concat (e : B → C) (f : B) (ps : List B) (p : B) :
    (chain e f (ps ++ [p])).1 = (chain e f ps).1 ++ [e (f + (ps ++ [p]).sum)] := by
  rw [chain_append, chain_last, List.sum_append, List.sum_singleton, ← add_assoc]
  rfl

theorem unchain_append (d : C → B) (g : B) (cs cs' : List C) :
    unchain d g (cs ++ cs') = ((unchain d g cs).1 ++ (unchain d (unchain d g cs).2 cs').1,
      (unchain d (unchain d g cs).2 cs').2) := by
  induction cs generalizing g with
  | nil => rfl
  | cons c cs ih => simp only [List.cons_append, unchain, ih]

theorem unchain_concat (d : C → B) (g : B) (cs : List C) (c : C) :
    unchain d g (cs ++ [c]) =
      ((unchain d g cs).1 ++ [d c - (unchain d g cs).2], d c - (unchain d g cs).2) :=
  unchain_append d g cs [c]

/-- The sum before every block but the last is zero. -/
def ZeroBefore (f : B) (ps : List B) : Prop := ∀ i, i + 1 < ps.length → f + (ps.take i).sum = 0

theorem zeroBefore_cons (f p q : B) (ps : List B) :
    ZeroBefore f (p :: q :: ps) ↔ f = 0 ∧ ZeroBefore (f + p) (q :: ps) := by
  constructor
  · intro zero
    refine ⟨by simpa using zero 0 (by simp), fun i inside => ?_⟩
    simpa [add_assoc] using zero (i + 1) (by simpa using inside)
  · rintro ⟨first, later⟩ i inside
    cases i with
    | zero => simpa using first
    | succ i => simpa [add_assoc] using later i (by simpa using inside)

theorem unchain_chain_cons (e : B ≃ C) (g f p : B) (ps : List B) :
    (unchain e.symm g (chain e f (p :: ps)).1).1 =
      (f + p - g) :: (unchain e.symm (f + p - g) (chain e (f + p) ps).1).1 := by
  rw [chain, unchain, e.symm_apply_apply]

/-- **The blocks come back exactly if the sum before each but the last is zero.** -/
theorem unchain_chain_iff (e : B ≃ C) (f : B) (ps : List B) :
    (unchain e.symm f (chain e f ps).1).1 = ps ↔ ZeroBefore f ps := by
  induction ps generalizing f with
  | nil => exact iff_of_true rfl fun i inside => by simp at inside
  | cons p ps ih =>
      rw [unchain_chain_cons, add_sub_cancel_left, List.cons_eq_cons, and_iff_right rfl]
      cases ps with
      | nil => exact iff_of_true rfl fun i inside => by simp at inside
      | cons q ps =>
          rw [zeroBefore_cons, ← ih (f + p)]
          constructor
          · intro back
            -- the second block comes back only from a zero sum before the first
            rw [unchain_chain_cons, List.cons_eq_cons] at back
            have second : f + p + q - p = q := back.1
            have zero : f = 0 := by
              rw [add_right_comm, add_sub_cancel_right] at second
              exact add_eq_right.mp second
            refine ⟨zero, ?_⟩
            rw [zero, zero_add, unchain_chain_cons, add_sub_cancel_left, List.cons_eq_cons,
              and_iff_right rfl]
            rw [zero, zero_add, add_sub_cancel_left] at back
            exact back.2
          · rintro ⟨zero, back⟩
            rw [zero, zero_add] at back ⊢
            exact back

end UdpStuff.Theory
