/-
# Theory.Slots — a place that is taken and given up

Some of the events of a history put something into a place, unless something is there, and some
clear it.  `holder` is what the place has in the end.  `holder_eq_some` and `holder_eq_none` say
so by the history alone: it has what was put there when it was free, if it has not been cleared
since.
-/
import Mathlib.Data.List.Basic
import Mathlib.Data.List.Induction
import Mathlib.Tactic.Common

namespace UdpStuff.Theory

set_option autoImplicit false

universe u v

inductive SlotOp (κ : Type v) where
  | put (x : κ)
  | clear

variable {ε : Type u} {κ : Type v}

/-- What is there stays. -/
def SlotOp.apply (held : Option κ) : SlotOp κ → Option κ
  | .put x => held.or (some x)
  | .clear => none

namespace Slots

variable (view : ε → Option (SlotOp κ))

/-- What the place has after some events. -/
def holder (past : List ε) : Option κ := (past.filterMap view).foldl SlotOp.apply none

/-- Whatever was put there has been cleared since. -/
def Free (past : List ε) : Prop :=
  ∀ before e after x, past = before ++ e :: after → view e = some (.put x) →
    ∃ f ∈ after, view f = some .clear

/-- It was put there when the place was free, which has not been cleared since. -/
def Held (past : List ε) (x : κ) : Prop :=
  ∃ before e after, past = before ++ e :: after ∧ view e = some (.put x) ∧ Free view before ∧
    ∀ f ∈ after, view f ≠ some .clear

/-- Where an event is in a history that is one event longer. -/
theorem concat_split {past before after : List ε} {e f : ε} :
    past ++ [e] = before ++ f :: after ↔
      after = [] ∧ before = past ∧ f = e ∨
        ∃ later, after = later ++ [e] ∧ past = before ++ f :: later := by
  rcases List.eq_nil_or_concat' after with rfl | ⟨later, last, rfl⟩
  · rw [List.append_singleton_inj]
    constructor
    · rintro ⟨rfl, rfl⟩
      exact .inl ⟨rfl, rfl, rfl⟩
    · rintro (⟨-, rfl, rfl⟩ | ⟨later, none, -⟩)
      · exact ⟨rfl, rfl⟩
      · exact absurd none.symm (List.append_ne_nil_of_right_ne_nil _ (List.cons_ne_nil _ _))
  · rw [← List.cons_append, ← List.append_assoc, List.append_singleton_inj]
    constructor
    · rintro ⟨same, rfl⟩
      exact .inr ⟨later, rfl, same⟩
    · rintro (⟨none, -, -⟩ | ⟨later', same, split⟩)
      · exact absurd none (List.append_ne_nil_of_right_ne_nil _ (List.cons_ne_nil _ _))
      · obtain ⟨rfl, rfl⟩ := List.append_singleton_inj.mp same
        exact ⟨split, rfl⟩

theorem free_concat (past : List ε) (e : ε) :
    Free view (past ++ [e]) ↔
      view e = some .clear ∨ Free view past ∧ ∀ x, view e ≠ some (.put x) := by
  constructor
  · intro free
    by_cases cleared : view e = some .clear
    · exact .inl cleared
    refine .inr ⟨?_, ?_⟩
    · intro before f after x split puts
      obtain ⟨g, member, clears⟩ := free before f (after ++ [e]) x
        (concat_split.mpr (.inr ⟨after, rfl, split⟩)) puts
      rcases List.mem_append.mp member with there | last
      · exact ⟨g, there, clears⟩
      · rw [List.mem_singleton.mp last] at clears
        exact absurd clears cleared
    · intro x puts
      obtain ⟨g, member, -⟩ := free past e [] x rfl puts
      exact absurd member List.not_mem_nil
  · intro last before f after x split puts
    rcases concat_split.mp split with ⟨-, -, rfl⟩ | ⟨later, rfl, earlier⟩
    · rcases last with cleared | ⟨-, never⟩
      · rw [cleared] at puts
        cases puts
      · exact absurd puts (never x)
    · rcases last with cleared | ⟨free, -⟩
      · exact ⟨e, List.mem_append_right later (List.mem_singleton_self e), cleared⟩
      · obtain ⟨g, member, clears⟩ := free before f later x earlier puts
        exact ⟨g, List.mem_append_left [e] member, clears⟩

theorem held_concat (past : List ε) (e : ε) (x : κ) :
    Held view (past ++ [e]) x ↔
      Held view past x ∧ view e ≠ some .clear ∨ Free view past ∧ view e = some (.put x) := by
  constructor
  · rintro ⟨before, f, after, split, puts, free, kept⟩
    rcases concat_split.mp split with ⟨rfl, rfl, rfl⟩ | ⟨later, rfl, earlier⟩
    · exact .inr ⟨free, puts⟩
    · refine .inl ⟨⟨before, f, later, earlier, puts, free, fun g member => ?_⟩, ?_⟩
      · exact kept g (List.mem_append_left [e] member)
      · exact kept e (List.mem_append_right later (List.mem_singleton_self e))
  · rintro (⟨⟨before, f, after, split, puts, free, kept⟩, stays⟩ | ⟨free, puts⟩)
    · refine ⟨before, f, after ++ [e], ?_, puts, free, fun g member => ?_⟩
      · exact concat_split.mpr (.inr ⟨after, rfl, split⟩)
      · rcases List.mem_append.mp member with there | last
        · exact kept g there
        · rwa [List.mem_singleton.mp last]
    · exact ⟨past, e, [], rfl, puts, free, fun g member => absurd member List.not_mem_nil⟩

theorem holder_concat (past : List ε) (e : ε) :
    holder view (past ++ [e]) =
      match view e with
      | none => holder view past
      | some op => op.apply (holder view past) := by
  rw [holder, List.filterMap_append, List.foldl_append]
  cases seen : view e <;> simp [holder, seen]

/-- **The place has what was put there when it was free**, unless it has been cleared since. -/
theorem holder_eq (past : List ε) :
    (holder view past = none ↔ Free view past) ∧
      ∀ x, holder view past = some x ↔ Held view past x := by
  induction past using List.reverseRecOn with
  | nil =>
      refine ⟨iff_of_true rfl ?_, fun x => iff_of_false (by simp [holder]) ?_⟩
      · intro before e after x split
        exact absurd split.symm (List.append_ne_nil_of_right_ne_nil _ (List.cons_ne_nil _ _))
      · rintro ⟨before, e, after, split, -⟩
        exact absurd split.symm (List.append_ne_nil_of_right_ne_nil _ (List.cons_ne_nil _ _))
  | append_singleton past e ih =>
      obtain ⟨free, held⟩ := ih
      simp only [free_concat, held_concat, holder_concat, ← free, ← held]
      cases seen : view e with
      | none => simp
      | some op =>
          cases op with
          | clear => simp [SlotOp.apply]
          | put y =>
              simp only [SlotOp.apply, Option.or_eq_none_iff, Option.or_eq_some_iff]
              simp

theorem holder_eq_none {past : List ε} : holder view past = none ↔ Free view past :=
  (holder_eq view past).1

theorem holder_eq_some {past : List ε} {x : κ} : holder view past = some x ↔ Held view past x :=
  (holder_eq view past).2 x

end Slots

end UdpStuff.Theory
