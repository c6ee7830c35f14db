/-
# Proto.DuplicateNames — what `validate_duplicates` raises for

The walk skips whatever has a name that it has seen.  It has compared the two by then,
so what is skipped equals what was walked through, down to the last child, and nothing
below it is missed.  What it complains about, on the other hand, is two objects that
it has come to from the heads.

`validate_duplicates_exact`: a clash of names below the heads is what it raises for,
and all that it raises for.
-/
import UdpStuff.Proto.RenderAll

namespace UdpStuff.Proto.RenderAll

set_option autoImplicit false

open UdpStuff.Theory UdpStuff.Theory.References

variable {Data : Type}

/-- Two objects have one name and differ. -/
def Clashing (o other : DescrObj Data) : Prop := getName o = getName other ∧ o ≠ other

/-- Two objects that can be reached from the heads clash. -/
def NameClash (startObjs : List (DescrObj Data)) : Prop :=
  ∃ o other, Reachable startObjs o ∧ Reachable startObjs other ∧ Clashing o other

/-- Where everything has been found under different names, nothing clashes. -/
theorem Reached.no_clash {startObjs reached : List (DescrObj Data)}
    (all : (descrs Data).Reached startObjs reached) : ¬ NameClash startObjs := by
  rintro ⟨o, other, first, second, same, differ⟩
  exact differ (all.eq_of_key ((all.mem_iff o).mpr first) ((all.mem_iff other).mpr second) same)

section Comparison

variable [DecidableEq Data]

/-- The walk ends, and names two objects of the heads if it does not pass. -/
theorem validateLoop_error {startObjs : List (DescrObj Data)}
    (objsStack objsByName : List (DescrObj Data))
    (state : (descrs Data).Collecting startObjs objsStack objsByName)
    {d : DifferentByName Data} (raised : validateLoop objsStack objsByName = .error d) :
    Reachable startObjs d.o ∧ Reachable startObjs d.other ∧ Clashing d.o d.other ∧
      d.name = getName d.o := by
  induction objsStack, objsByName using validateLoop.induct with
  | case1 objsByName =>
      rw [validateLoop] at raised
      cases raised
  | case2 o objsStack objsByName other found differs =>
      rw [validateLoop, found] at raised
      dsimp only at raised
      rw [if_pos differs] at raised
      cases raised
      have here := state.sound o (.inr List.mem_cons_self)
      have there := state.sound other (.inl (List.mem_of_find?_eq_some found))
      exact ⟨here, there, differ_of_found found differs, rfl⟩
  | case3 o objsStack objsByName other found same ih =>
      rw [validateLoop, found] at raised
      simp only [same, if_false] at raised
      exact ih (state.skip (mem_of_found_same found same)) raised
  | case4 o objsStack objsByName missing ih =>
      rw [validateLoop, missing] at raised
      exact ih (state.expand (new_of_not_found missing) (List.reverse_perm _)) raised

/-- Without a clash the check passes. -/
theorem validateDuplicates_of_no_clash {startObjs : List (DescrObj Data)}
    (none : ¬ NameClash startObjs) : validateDuplicates startObjs = .ok () := by
  cases outcome : validateDuplicates startObjs with
  | ok => rfl
  | error d =>
      obtain ⟨here, there, clashing, -⟩ := validateLoop_error _ _ (.start (List.reverse_perm _))
        outcome
      exact absurd ⟨d.o, d.other, here, there, clashing⟩ none

/-- **Exact detection**: a clash below the heads is found and named, and without one the check
passes. -/
theorem validate_duplicates_exact (startObjs : List (DescrObj Data)) :
    (NameClash startObjs → ∃ d, validateDuplicates startObjs = .error d ∧
      Reachable startObjs d.o ∧ Reachable startObjs d.other ∧ Clashing d.o d.other ∧
      d.name = getName d.o) ∧
    (¬ NameClash startObjs → validateDuplicates startObjs = .ok ()) := by
  refine ⟨fun clash => ?_, validateDuplicates_of_no_clash⟩
  cases outcome : validateDuplicates startObjs with
  | ok =>
      obtain ⟨reached, all⟩ := validateDuplicates_ok outcome
      exact absurd clash (Reached.no_clash all)
  | error d => exact ⟨d, rfl, validateLoop_error _ _ (.start (List.reverse_perm _)) outcome⟩

end Comparison

end UdpStuff.Proto.RenderAll
