/-
# Theory.Runs — runs of steps that may not be possible

A step has no result where it is not possible, and neither has a run that comes to it.
`run_inv` and `run_inv_of` are the induction rules for what steps keep, always or under a
condition on each step (`AlongRun`); `run_count` adds up what they add to a count.
`run_simulates` carries a simulation of steps over to runs.
-/
import Mathlib.Algebra.GroupWithZero.Nat
import Mathlib.Tactic.Common

namespace UdpStuff.Theory

set_option autoImplicit false

universe u v

theorem possible_iff {S : Type u} {p : Prop} [Decidable p] {s s' : S} :
    (if p then some s else none) = some s' ↔ p ∧ s = s' := by
  rw [Option.ite_none_right_eq_some, Option.some.injEq]

variable {S : Type u} {O : Type v} (step : S → O → Option S)

/-- One step after the other, as long as they are possible. -/
def run (s : S) (ops : List O) : Option S := ops.foldlM step s

/-- **What every possible step keeps, every run keeps.** -/
theorem run_inv {step : S → O → Option S} (Inv : S → Prop)
    (kept : ∀ s op s', Inv s → step s op = some s' → Inv s') {s s' : S} {ops : List O}
    (start : Inv s) (ran : run step s ops = some s') : Inv s' := by
  induction ops generalizing s with
  | nil =>
      cases ran
      exact start
  | cons op ops ih =>
      rw [run, List.foldlM_cons] at ran
      obtain ⟨between, first, later⟩ := Option.bind_eq_some_iff.mp ran
      exact ih (kept s op between start first) later

/-- What each step adds to a count, a run adds altogether. -/
theorem run_count {step : S → O → Option S} (count : S → Nat) {adds : O → Nat}
    (one : ∀ s op s', step s op = some s' → count s' = count s + adds op) {s s' : S} {ops : List O}
    (ran : run step s ops = some s') : count s' = count s + (ops.map adds).sum := by
  induction ops generalizing s with
  | nil =>
      cases ran
      rfl
  | cons op ops ih =>
      rw [run, List.foldlM_cons] at ran
      obtain ⟨between, first, later⟩ := Option.bind_eq_some_iff.mp ran
      rw [ih later, one s op between first, List.map_cons, List.sum_cons, Nat.add_assoc]

/-- **Simulation.**  Each operation means a step here and a step there; if a step here, from
related states, has its step there to related states again, then so has a run. -/
theorem run_simulates {T : Type v} {A B C : Type v} {step : S → A → Option S}
    {step' : T → B → Option T} {here : C → A} {there : C → B} {cond : C → Prop} (R : S → T → Prop)
    (one : ∀ s t op s', cond op → R s t → step s (here op) = some s' →
      ∃ t', step' t (there op) = some t' ∧ R s' t')
    {s s' : S} {t : T} {ops : List C} (met : ∀ op ∈ ops, cond op) (related : R s t)
    (ran : run step s (ops.map here) = some s') :
    ∃ t', run step' t (ops.map there) = some t' ∧ R s' t' := by
  induction ops generalizing s t with
  | nil =>
      cases ran
      exact ⟨t, rfl, related⟩
  | cons op ops ih =>
      rw [List.map_cons, run, List.foldlM_cons] at ran
      obtain ⟨between, first, later⟩ := Option.bind_eq_some_iff.mp ran
      obtain ⟨between', first', related'⟩ :=
        one s t op between (met op List.mem_cons_self) related first
      obtain ⟨t', later', final⟩ :=
        ih (fun op member => met op (List.mem_cons_of_mem _ member)) related' later
      refine ⟨t', ?_, final⟩
      rw [List.map_cons, run, List.foldlM_cons]
      exact Option.bind_eq_some_iff.mpr ⟨between', first', later'⟩

/-- A condition on every step of a run. -/
def AlongRun (cond : S → O → Prop) : S → List O → Prop
  | _, [] => True
  | s, op :: ops => cond s op ∧ ∀ s', step s op = some s' → AlongRun cond s' ops

instance decidableAlongRun {cond : S → O → Prop} [∀ s op, Decidable (cond s op)] :
    (s : S) → (ops : List O) → Decidable (AlongRun step cond s ops)
  | _, [] => .isTrue trivial
  | s, op :: ops =>
    have : ∀ s', Decidable (AlongRun step cond s' ops) := fun s' => decidableAlongRun s' ops
    inferInstanceAs (Decidable (cond s op ∧ ∀ s' ∈ step s op, AlongRun step cond s' ops))

/-- **What every step that meets the condition keeps, every run of such steps keeps.** -/
theorem run_inv_of {step : S → O → Option S} {cond : S → O → Prop} (Inv : S → Prop)
    (kept : ∀ s op s', Inv s → cond s op → step s op = some s' → Inv s') {s s' : S} {ops : List O}
    (start : Inv s) (met : AlongRun step cond s ops) (ran : run step s ops = some s') : Inv s' := by
  induction ops generalizing s with
  | nil =>
      cases ran
      exact start
  | cons op ops ih =>
      rw [run, List.foldlM_cons] at ran
      obtain ⟨between, first, later⟩ := Option.bind_eq_some_iff.mp ran
      exact ih (kept s op between start met.1 first) (met.2 between first) later

/-- Along a run only the steps that are possible matter. -/
theorem alongRun_congr {step : S → O → Option S} {cond cond' : S → O → Prop}
    (same : ∀ s op s', step s op = some s' → (cond s op ↔ cond' s op)) {s s' : S} {ops : List O}
    (ran : run step s ops = some s') : AlongRun step cond s ops ↔ AlongRun step cond' s ops := by
  induction ops generalizing s with
  | nil => rfl
  | cons op ops ih =>
      rw [run, List.foldlM_cons] at ran
      obtain ⟨between, first, later⟩ := Option.bind_eq_some_iff.mp ran
      rw [AlongRun, AlongRun, same s op between first]
      refine and_congr_right fun _ => forall_congr' fun s'' => forall_congr' fun stepped => ?_
      rw [first, Option.some.injEq] at stepped
      exact ih (stepped ▸ later)

end UdpStuff.Theory
