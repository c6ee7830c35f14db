/-
# Theory.Scopes — code that may be left by an exception

A piece of code does operations, one after the other, and returns a value or raises an
exception.  A scope ends with an operation of its own, however it is left: `scope` does it
always, `unlessReturned` only for an exception, and `catching` goes on after one.

`Meets` says of the code what it makes of a machine on which its operations are steps that
may not be possible: from every state of the precondition they are, and the state they lead
to and the result meet the postcondition.  There is one rule for each way code is put
together.
-/
import UdpStuff.Theory.Runs

namespace UdpStuff.Theory

set_option autoImplicit false

universe u v w x y

/-- The operations that were done, and what came out of it. -/
structure Code (Op : Type u) (E : Type v) (α : Type w) where
  ops : List Op
  result : Except E α

namespace Code

variable {Op : Type u} {E : Type v} {α β : Type w}

instance instMonad : Monad (Code Op E) where
  pure a := ⟨[], .ok a⟩
  bind c f :=
    match c.result with
    | .ok a => ⟨c.ops ++ (f a).ops, (f a).result⟩
    | .error e => ⟨c.ops, .error e⟩

def act (op : Op) : Code Op E PUnit := ⟨[op], .ok ⟨⟩⟩

def raise (e : E) : Code Op E α := ⟨[], .error e⟩

/-- The body of a scope, between what is done at its start and at its end. -/
def scope (enter leave : Op) (body : Code Op E α) : Code Op E α :=
  ⟨enter :: (body.ops ++ [leave]), body.result⟩

/-- What is done at the end, of a body that has made what it is done to. -/
def ensuring (leave : Op) (body : Code Op E α) : Code Op E α :=
  ⟨body.ops ++ [leave], body.result⟩

/-- What is done at the start is undone for an exception only. -/
def unlessReturned (enter leave : Op) (body : Code Op E α) : Code Op E α :=
  match body.result with
  | .ok a => ⟨enter :: body.ops, .ok a⟩
  | .error e => ⟨enter :: (body.ops ++ [leave]), .error e⟩

/-- `catch (...)` -/
def catching {E' : Type x} (body : Code Op E α) (handler : E → Code Op E' α) : Code Op E' α :=
  match body.result with
  | .ok a => ⟨body.ops, .ok a⟩
  | .error e => ⟨body.ops ++ (handler e).ops, (handler e).result⟩

/-- What returns, returned all along. -/
theorem bind_ok {c : Code Op E α} {f : α → Code Op E β} {b : β}
    (returned : (c >>= f).result = .ok b) : ∃ a, c.result = .ok a ∧ (f a).result = .ok b := by
  obtain ⟨ops, result⟩ := c
  cases result with
  | error e => cases returned
  | ok a => exact ⟨a, rfl, returned⟩

/-! ## When code returns -/

/-- The code returns `v` under a condition, and raises otherwise. -/
structure Returns (c : Code Op E α) (p : Prop) (v : α) : Prop where
  value : p → c.result = .ok v
  raises : ¬ p → ∃ e, c.result = .error e

theorem Returns.pure (v : α) : Returns (Pure.pure v : Code Op E α) True v :=
  ⟨fun _ => rfl, fun never => absurd trivial never⟩

theorem Returns.act (op : Op) : Returns (Code.act op : Code Op E PUnit) True ⟨⟩ :=
  ⟨fun _ => rfl, fun never => absurd trivial never⟩

theorem Returns.raise (e : E) (v : α) : Returns (Code.raise e : Code Op E α) False v :=
  ⟨fun never => never.elim, fun _ => ⟨e, rfl⟩⟩

theorem Returns.bind {c : Code Op E α} {f : α → Code Op E β} {p q : Prop} {v : α} {w : β}
    (first : Returns c p v) (goesOn : Returns (f v) q w) : Returns (c >>= f) (p ∧ q) w where
  value := by
    rintro ⟨before, behind⟩
    have result := first.value before
    obtain ⟨ops, r⟩ := c
    cases result
    exact goesOn.value behind
  raises failed := by
    by_cases before : p
    · have result := first.value before
      obtain ⟨ops, r⟩ := c
      cases result
      exact goesOn.raises fun behind => failed ⟨before, behind⟩
    · obtain ⟨e, result⟩ := first.raises before
      obtain ⟨ops, r⟩ := c
      cases result
      exact ⟨e, rfl⟩

theorem Returns.scope {c : Code Op E α} {enter leave : Op} {p : Prop} {v : α}
    (returns : Returns c p v) : Returns (c.scope enter leave) p v := ⟨returns.value, returns.raises⟩

theorem Returns.ensuring {c : Code Op E α} {leave : Op} {p : Prop} {v : α}
    (returns : Returns c p v) : Returns (c.ensuring leave) p v := ⟨returns.value, returns.raises⟩

theorem Returns.unlessReturned {c : Code Op E α} {enter leave : Op} {p : Prop} {v : α}
    (returns : Returns c p v) : Returns (c.unlessReturned enter leave) p v where
  value here := by
    rw [Code.unlessReturned, returns.value here]
  raises failed := by
    obtain ⟨e, result⟩ := returns.raises failed
    rw [Code.unlessReturned, result]
    exact ⟨e, rfl⟩

theorem Returns.congr {c : Code Op E α} {p q : Prop} {v : α} (returns : Returns c p v)
    (same : p ↔ q) : Returns c q v :=
  ⟨fun here => returns.value (same.mpr here), fun failed => returns.raises (mt same.mp failed)⟩

/-- `catch (...)` with a value of its own. -/
theorem result_catching {E' : Type x} {c : Code Op E α} {p : Prop} [Decidable p] {v w : α}
    (returns : Returns c p v) :
    (c.catching fun _ => (Pure.pure w : Code Op E' α)).result = .ok (if p then v else w) := by
  by_cases here : p
  · rw [Code.catching, returns.value here, if_pos here]
  · obtain ⟨e, result⟩ := returns.raises here
    rw [Code.catching, result, if_neg here]
    rfl

/-! ## What code makes of a machine -/

variable {S : Type y} (step : S → Op → Option S)

/-- All operations are possible, and lead to the postcondition. -/
def Meets (P : S → Prop) (c : Code Op E α) (Q : Except E α → S → Prop) : Prop :=
  ∀ s, P s → ∃ s', run step s c.ops = some s' ∧ Q c.result s'

/-- A single operation. -/
def Steps (P : S → Prop) (op : Op) (Q : S → Prop) : Prop :=
  ∀ s, P s → ∃ s', step s op = some s' ∧ Q s'

variable {step} {P P' : S → Prop} {Q Q' : Except E α → S → Prop} {c body : Code Op E α}

theorem run_append {s : S} {ops later : List Op} :
    run step s (ops ++ later) = (run step s ops).bind fun between => run step between later :=
  List.foldlM_append

theorem run_cons {s : S} {op : Op} {later : List Op} :
    run step s (op :: later) = (step s op).bind fun between => run step between later :=
  List.foldlM_cons

theorem run_singleton {s : S} {op : Op} : run step s [op] = step s op := by
  rw [run_cons]
  exact Option.bind_fun_some _

theorem Meets.mono (meets : Meets step P c Q) (before : ∀ s, P' s → P s)
    (after : ∀ r s, Q r s → Q' r s) : Meets step P' c Q' := by
  intro s pre
  obtain ⟨s', ran, post⟩ := meets s (before s pre)
  exact ⟨s', ran, after _ _ post⟩

theorem Meets.pure (a : α) (done : ∀ s, P s → Q (.ok a) s) :
    Meets step P (Pure.pure a : Code Op E α) Q :=
  fun s pre => ⟨s, rfl, done s pre⟩

theorem Meets.raise (e : E) (left : ∀ s, P s → Q (.error e) s) :
    Meets step P (Code.raise e : Code Op E α) Q :=
  fun s pre => ⟨s, rfl, left s pre⟩

theorem Meets.act {op : Op} {Q : Except E PUnit → S → Prop}
    (steps : Steps step P op (Q (.ok ⟨⟩))) : Meets step P (Code.act op : Code Op E PUnit) Q := by
  intro s pre
  obtain ⟨s', stepped, post⟩ := steps s pre
  exact ⟨s', run_singleton.trans stepped, post⟩

theorem Meets.bind {f : α → Code Op E β} {M : Except E α → S → Prop}
    {Q : Except E β → S → Prop} (first : Meets step P c M)
    (goesOn : ∀ a, Meets step (M (.ok a)) (f a) Q)
    (stops : ∀ e s, M (.error e) s → Q (.error e) s) : Meets step P (c >>= f) Q := by
  intro s pre
  obtain ⟨between, ran, middle⟩ := first s pre
  show ∃ s', run step s (match c.result with | .ok a => _ | .error e => _ : Code Op E β).ops =
    some s' ∧ _
  obtain ⟨ops, result⟩ := c
  cases result with
  | ok a =>
      obtain ⟨s', later, post⟩ := goesOn a between middle
      refine ⟨s', ?_, post⟩
      rw [run_append, ran]
      exact later
  | error e => exact ⟨between, ran, stops e between middle⟩

theorem Meets.scope {enter leave : Op} {M : Except E α → S → Prop}
    (enters : Steps step P enter P') (inside : Meets step P' body M)
    (leaves : ∀ r, Steps step (M r) leave (Q r)) : Meets step P (body.scope enter leave) Q := by
  intro s pre
  obtain ⟨first, entered, start⟩ := enters s pre
  obtain ⟨last, ran, done⟩ := inside first start
  obtain ⟨s', left, post⟩ := leaves _ last done
  refine ⟨s', ?_, post⟩
  rw [Code.scope, run_cons, entered, Option.bind_some, run_append, ran, Option.bind_some,
    run_singleton, left]

theorem Meets.ensuring {leave : Op} {M : Except E α → S → Prop} (inside : Meets step P body M)
    (leaves : ∀ r, Steps step (M r) leave (Q r)) : Meets step P (body.ensuring leave) Q := by
  intro s pre
  obtain ⟨last, ran, done⟩ := inside s pre
  obtain ⟨s', left, post⟩ := leaves _ last done
  refine ⟨s', ?_, post⟩
  rw [Code.ensuring, run_append, ran, Option.bind_some, run_singleton, left]

theorem Meets.unlessReturned {enter leave : Op} {M : Except E α → S → Prop}
    (enters : Steps step P enter P') (inside : Meets step P' body M)
    (returned : ∀ a s, M (.ok a) s → Q (.ok a) s)
    (leaves : ∀ e, Steps step (M (.error e)) leave (Q (.error e))) :
    Meets step P (body.unlessReturned enter leave) Q := by
  intro s pre
  obtain ⟨first, entered, start⟩ := enters s pre
  obtain ⟨last, ran, done⟩ := inside first start
  obtain ⟨ops, result⟩ := body
  cases result with
  | ok a =>
      refine ⟨last, ?_, returned a last done⟩
      show run step s (enter :: ops) = some last
      rw [run_cons, entered, Option.bind_some, ran]
  | error e =>
      obtain ⟨s', left, post⟩ := leaves e last done
      refine ⟨s', ?_, post⟩
      show run step s (enter :: (ops ++ [leave])) = some s'
      rw [run_cons, entered, Option.bind_some, run_append, ran, Option.bind_some, run_singleton,
        left]

theorem Meets.catching {E' : Type x} {handler : E → Code Op E' α} {M : Except E α → S → Prop}
    {Q : Except E' α → S → Prop} (inside : Meets step P body M)
    (returned : ∀ a s, M (.ok a) s → Q (.ok a) s)
    (handled : ∀ e, Meets step (M (.error e)) (handler e) Q) :
    Meets step P (body.catching handler) Q := by
  intro s pre
  obtain ⟨last, ran, done⟩ := inside s pre
  obtain ⟨ops, result⟩ := body
  cases result with
  | ok a => exact ⟨last, ran, returned a last done⟩
  | error e =>
      obtain ⟨s', later, post⟩ := handled e last done
      refine ⟨s', ?_, post⟩
      show run step s (ops ++ (handler e).ops) = some s'
      rw [run_append, ran, Option.bind_some, later]

end Code

end UdpStuff.Theory
