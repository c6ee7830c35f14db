/-
# Theory.CountedOrder — objects ordered by counted references

A stack of objects, each with a key and with smaller objects below it.  One pass
collects what can be reached (`Collecting`), one counts how often each key is taken
off the stack (`Counting`), and one takes the count down and places an object when it
reaches zero (`Placing`).  Each has a lemma for an object that is passed over and one
for an object whose children are pushed, in any order.

If no two objects of one key can be reached, the last pass places every object once,
after all objects that have it as a child (`Placing.finish`).
-/
import Mathlib.Data.List.Count
import Mathlib.Data.List.Perm.Basic
import Mathlib.Data.List.Nodup
import Mathlib.Data.Finset.Max
import Mathlib.Logic.Function.Basic

namespace UdpStuff.Theory

set_option autoImplicit false

/-- Objects with keys and, below each, smaller ones. -/
structure References (α κ : Type) where
  key : α → κ
  children : α → List α
  size : α → Nat
  smaller : ∀ o, ∀ c ∈ children o, size c < size o

namespace References

variable {α κ : Type} (refs : References α κ)

/-- The heads and everything below them. -/
inductive Reachable (heads : List α) : α → Prop where
  | head {o : α} (member : o ∈ heads) : Reachable heads o
  | child {p c : α} (parent : Reachable heads p) (member : c ∈ refs.children p) :
    Reachable heads c

/-- A list of all that can be reached, with each key once. -/
structure Reached (heads reached : List α) : Prop where
  mem_iff : ∀ o, o ∈ reached ↔ refs.Reachable heads o
  keys : (reached.map refs.key).Nodup

/-- Objects found and a stack of objects to look at. -/
structure Collecting (heads stack found : List α) : Prop where
  sound : ∀ o, o ∈ found ∨ o ∈ stack → refs.Reachable heads o
  tops : ∀ o ∈ heads, o ∈ found ∨ o ∈ stack
  below : ∀ p ∈ found, ∀ c ∈ refs.children p, c ∈ found ∨ c ∈ stack
  keys : (found.map refs.key).Nodup

variable {refs}

namespace Reached

variable {heads reached : List α}

/-- Of one key there is one object. -/
theorem eq_of_key (all : refs.Reached heads reached) {o c : α} (first : o ∈ reached)
    (second : c ∈ reached) (same : refs.key o = refs.key c) : o = c :=
  List.inj_on_of_nodup_map all.keys first second same

theorem nodup (all : refs.Reached heads reached) : reached.Nodup := all.keys.of_map _

theorem child (all : refs.Reached heads reached) {p c : α} (parent : p ∈ reached)
    (member : c ∈ refs.children p) : c ∈ reached :=
  (all.mem_iff c).mpr (.child ((all.mem_iff p).mp parent) member)

end Reached

/-! ## Collecting -/

namespace Collecting

variable {heads stack found : List α} {o : α}

theorem start {stack : List α} (same : stack.Perm heads) : refs.Collecting heads stack [] where
  sound _ member := .head (same.mem_iff.mp (member.resolve_left List.not_mem_nil))
  tops _ member := .inr (same.mem_iff.mpr member)
  below _ none := absurd none List.not_mem_nil
  keys := List.nodup_nil

/-- An object found before. -/
theorem skip (state : refs.Collecting heads (o :: stack) found) (again : o ∈ found) :
    refs.Collecting heads stack found := by
  have later {c : α} (there : c ∈ found ∨ c ∈ o :: stack) : c ∈ found ∨ c ∈ stack := by
    rcases there with old | top
    · exact .inl old
    · rcases List.mem_cons.mp top with rfl | rest
      · exact .inl again
      · exact .inr rest
  exact {
    sound := fun c there => state.sound c (there.imp_right (List.mem_cons_of_mem o))
    tops := fun c member => later (state.tops c member)
    below := fun p parent c member => later (state.below p parent c member)
    keys := state.keys }

/-- A new object, whose children are pushed. -/
theorem expand (state : refs.Collecting heads (o :: stack) found)
    (new : refs.key o ∉ found.map refs.key) {pushed : List α}
    (same : pushed.Perm (refs.children o)) :
    refs.Collecting heads (pushed ++ stack) (o :: found) := by
  have here : refs.Reachable heads o := state.sound o (.inr List.mem_cons_self)
  have later {c : α} (there : c ∈ found ∨ c ∈ o :: stack) :
      c ∈ o :: found ∨ c ∈ pushed ++ stack := by
    rcases there with old | top
    · exact .inl (List.mem_cons_of_mem o old)
    · rcases List.mem_cons.mp top with rfl | rest
      · exact .inl List.mem_cons_self
      · exact .inr (List.mem_append_right pushed rest)
  refine ⟨fun c there => ?_, fun c member => later (state.tops c member),
    fun p parent c member => ?_, ?_⟩
  · rcases there with old | pending
    · rcases List.mem_cons.mp old with rfl | old
      · exact here
      · exact state.sound c (.inl old)
    · rcases List.mem_append.mp pending with child | rest
      · exact .child here (same.mem_iff.mp child)
      · exact state.sound c (.inr (List.mem_cons_of_mem o rest))
  · rcases List.mem_cons.mp parent with rfl | parent
    · exact .inr (List.mem_append_left stack (same.mem_iff.mpr member))
    · exact later (state.below p parent c member)
  · exact List.nodup_cons.mpr ⟨new, state.keys⟩

/-- With the stack empty, all is found. -/
theorem finish (state : refs.Collecting heads [] found) : refs.Reached heads found where
  mem_iff o := by
    refine ⟨fun member => state.sound o (.inl member), fun reachable => ?_⟩
    induction reachable with
    | head member => exact (state.tops _ member).resolve_right List.not_mem_nil
    | child parent member ih => exact (state.below _ ih _ member).resolve_right List.not_mem_nil
  keys := state.keys

/-- What is found of a list of all that can be reached is what has its key. -/
theorem mem_of_key {reached : List α} (all : refs.Reached heads reached)
    (state : refs.Collecting heads (o :: stack) found) (seen : refs.key o ∈ found.map refs.key) :
    o ∈ found := by
  obtain ⟨c, old, same⟩ := List.mem_map.mp seen
  have first := (all.mem_iff c).mpr (state.sound c (.inl old))
  have second := (all.mem_iff o).mpr (state.sound o (.inr List.mem_cons_self))
  rw [← all.eq_of_key first second same]
  exact old

end Collecting

/-! ## Counting -/

variable [DecidableEq κ]

/-- How often a key stands in a list. -/
def occurrences (refs : References α κ) (k : κ) (objs : List α) : Nat :=
  (objs.map refs.key).count k

theorem occurrences_append (k : κ) (objs later : List α) :
    refs.occurrences k (objs ++ later) = refs.occurrences k objs + refs.occurrences k later := by
  simp [occurrences]

theorem occurrences_cons (k : κ) (o : α) (objs : List α) :
    refs.occurrences k (o :: objs) =
      refs.occurrences k objs + if refs.key o = k then 1 else 0 := by
  simp [occurrences, List.count_cons]

theorem occurrences_perm {objs others : List α} (same : objs.Perm others) (k : κ) :
    refs.occurrences k objs = refs.occurrences k others :=
  (same.map refs.key).count_eq k

theorem occurrences_pos {o : α} {objs : List α} (member : o ∈ objs) :
    0 < refs.occurrences (refs.key o) objs :=
  List.count_pos_iff.mpr (List.mem_map_of_mem member)

theorem update_succ_apply (count : κ → Nat) (j k : κ) :
    Function.update count j (count j + 1) k = count k + if j = k then 1 else 0 := by
  by_cases same : j = k
  · rw [← same, Function.update_self, if_pos rfl]
  · rw [Function.update_of_ne (Ne.symm same), if_neg same, Nat.add_zero]

theorem update_pred_apply (count : κ → Nat) (j k : κ) :
    Function.update count j (count j - 1) k = count k - if j = k then 1 else 0 := by
  by_cases same : j = k
  · rw [← same, Function.update_self, if_pos rfl]
  · rw [Function.update_of_ne (Ne.symm same), if_neg same, Nat.sub_zero]

/-- What is taken off the stack so often was a head or a child of something found. -/
structure Counting (refs : References α κ) (heads stack found : List α)
    (count : κ → Nat) : Prop extends refs.Collecting heads stack found where
  taken : ∀ k, count k + refs.occurrences k stack =
    refs.occurrences k heads + refs.occurrences k (found.flatMap refs.children)

namespace Counting

variable {heads stack found : List α} {o : α} {count : κ → Nat}

theorem start {stack : List α} (same : stack.Perm heads) :
    refs.Counting heads stack [] (fun _ => 0) where
  toCollecting := .start same
  taken k := by
    rw [occurrences_perm same]
    simp [occurrences]

theorem skip (state : refs.Counting heads (o :: stack) found count) (again : o ∈ found) :
    refs.Counting heads stack found
      (Function.update count (refs.key o) (count (refs.key o) + 1)) where
  toCollecting := state.toCollecting.skip again
  taken k := by
    have before := state.taken k
    rw [occurrences_cons] at before
    rw [update_succ_apply]
    omega

theorem expand (state : refs.Counting heads (o :: stack) found count)
    (new : refs.key o ∉ found.map refs.key) {pushed : List α}
    (same : pushed.Perm (refs.children o)) :
    refs.Counting heads (pushed ++ stack) (o :: found)
      (Function.update count (refs.key o) (count (refs.key o) + 1)) where
  toCollecting := state.toCollecting.expand new same
  taken k := by
    have before := state.taken k
    rw [occurrences_cons] at before
    rw [update_succ_apply, occurrences_append, occurrences_perm same, List.flatMap_cons,
      occurrences_append]
    omega

/-- In the end the count is of heads and of children of all that can be reached. -/
theorem finish (state : refs.Counting heads [] found count) {reached : List α}
    (all : refs.Reached heads reached) (k : κ) :
    count k = refs.occurrences k heads + refs.occurrences k (reached.flatMap refs.children) := by
  have seen := state.toCollecting.finish
  have same : found.Perm reached := by
    rw [List.perm_ext_iff_of_nodup seen.nodup all.nodup]
    exact fun o => (seen.mem_iff o).trans (all.mem_iff o).symm
  rw [← occurrences_perm (same.flatMap_right refs.children)]
  exact state.taken k

end Counting

/-! ## Placing -/

/-- Of what can be reached, some is placed in order and the rest waits; a key's count is
what is still to be taken off the stack of it. -/
structure Placing (refs : References α κ) (reached stack order waiting : List α)
    (count : κ → Nat) : Prop where
  split : (order ++ waiting).Perm reached
  stacked : ∀ o ∈ stack, o ∈ reached
  left : ∀ k, count k =
    refs.occurrences k stack + refs.occurrences k (waiting.flatMap refs.children)
  placed : ∀ o ∈ order, count (refs.key o) = 0
  unplaced : ∀ o ∈ waiting, 0 < count (refs.key o)
  parents : ∀ before o after, order = before ++ o :: after →
    ∀ p ∈ reached, o ∈ refs.children p → p ∈ before

namespace Placing

variable {heads reached stack order waiting : List α} {o : α} {count : κ → Nat}

theorem start {stack : List α} (all : refs.Reached heads reached) (same : stack.Perm heads)
    (total : ∀ k, count k =
      refs.occurrences k heads + refs.occurrences k (reached.flatMap refs.children)) :
    refs.Placing reached stack [] reached count where
  split := .refl _
  stacked o member := (all.mem_iff o).mpr (.head (same.mem_iff.mp member))
  left k := by rw [total, occurrences_perm same]
  placed o none := absurd none List.not_mem_nil
  unplaced o member := by
    rw [total]
    cases (all.mem_iff o).mp member with
    | head member =>
        have := @occurrences_pos _ _ refs _ _ _ member
        omega
    | child parent member =>
        have below := List.mem_flatMap.mpr ⟨_, (all.mem_iff _).mpr parent, member⟩
        have := @occurrences_pos _ _ refs _ _ _ below
        omega
  parents before o after empty := by simp at empty

/-- What lies on the stack is not placed yet. -/
theorem waits (state : refs.Placing reached (o :: stack) order waiting count) : o ∈ waiting := by
  have inside := state.split.mem_iff.mpr (state.stacked o List.mem_cons_self)
  rcases List.mem_append.mp inside with old | new
  · have none := state.placed o old
    have some := state.left (refs.key o)
    rw [occurrences_cons, if_pos rfl] at some
    omega
  · exact new

/-- A key that is still to be taken off again. -/
theorem pass (state : refs.Placing reached (o :: stack) order waiting count)
    (more : count (refs.key o) - 1 ≠ 0) :
    refs.Placing reached stack order waiting
      (Function.update count (refs.key o) (count (refs.key o) - 1)) where
  split := state.split
  stacked c member := state.stacked c (List.mem_cons_of_mem o member)
  left k := by
    have before := state.left k
    rw [occurrences_cons] at before
    rw [update_pred_apply]
    omega
  placed c member := by
    have none := state.placed c member
    have other : refs.key c ≠ refs.key o := by
      intro same
      rw [same] at none
      omega
    rw [Function.update_of_ne other]
    exact none
  unplaced c member := by
    by_cases same : refs.key c = refs.key o
    · rw [same, Function.update_self]
      omega
    · rw [Function.update_of_ne same]
      exact state.unplaced c member
  parents := state.parents

/-- The last of a key: the object is placed and its children are pushed. -/
theorem place (all : refs.Reached heads reached)
    (state : refs.Placing reached (o :: stack) order waiting count)
    (last : count (refs.key o) - 1 = 0) {pushed : List α}
    (same : pushed.Perm (refs.children o)) :
    ∃ waiting', refs.Placing reached (pushed ++ stack) (order ++ [o]) waiting'
      (Function.update count (refs.key o) (count (refs.key o) - 1)) := by
  have here := state.stacked o List.mem_cons_self
  obtain ⟨front, back, rfl⟩ := List.append_of_mem state.waits
  have others : (front ++ o :: back).Perm (o :: (front ++ back)) := List.perm_middle
  have split : ((order ++ [o]) ++ (front ++ back)).Perm reached := by
    rw [List.append_assoc]
    exact (others.symm.append_left order).trans state.split
  have distinct := split.nodup_iff.mpr all.nodup
  have inside {c : α} (member : c ∈ (order ++ [o]) ++ (front ++ back)) : c ∈ reached :=
    split.mem_iff.mp member
  have one := state.left (refs.key o)
  rw [occurrences_cons, if_pos rfl] at one
  refine ⟨front ++ back, split, fun c member => ?_, fun k => ?_, fun c member => ?_,
    fun c member => ?_, fun before c after order' p parent child => ?_⟩
  · rcases List.mem_append.mp member with child | rest
    · exact all.child here (same.mem_iff.mp child)
    · exact state.stacked c (List.mem_cons_of_mem o rest)
  · have before := state.left k
    rw [occurrences_cons, occurrences_perm (others.flatMap_right refs.children),
      List.flatMap_cons, occurrences_append] at before
    rw [update_pred_apply, occurrences_append, occurrences_perm same]
    omega
  · rcases List.mem_append.mp member with old | new
    · by_cases this : refs.key c = refs.key o
      · rw [this, Function.update_self, last]
      · rw [Function.update_of_ne this]
        exact state.placed c old
    · rw [List.mem_singleton.mp new, Function.update_self, last]
  · have other : refs.key c ≠ refs.key o := by
      intro this
      have equal := all.eq_of_key (inside (List.mem_append_right _ member)) here this
      subst equal
      exact List.disjoint_of_nodup_append distinct
        (List.mem_append_right order List.mem_cons_self) member
    rw [Function.update_of_ne other]
    exact state.unplaced c (others.mem_iff.mpr (List.mem_cons_of_mem o member))
  · rcases List.eq_nil_or_concat after with rfl | ⟨after, z, rfl⟩
    · obtain ⟨rfl, equal⟩ := List.append_inj' order' rfl
      cases equal
      have there := state.split.mem_iff.mpr parent
      rcases List.mem_append.mp there with old | waiting
      · exact old
      · have below := List.mem_flatMap.mpr ⟨p, waiting, child⟩
        have := @occurrences_pos _ _ refs _ _ _ below
        omega
    · have order'' : order ++ [o] = (before ++ c :: after) ++ [z] := by simpa using order'
      obtain ⟨shorter, -⟩ := List.append_inj' order'' rfl
      exact state.parents before c after shorter p parent child

/-- With the stack empty, nothing waits: what waits would be below something larger that
waits, and that has an end. -/
theorem finish (all : refs.Reached heads reached)
    (state : refs.Placing reached [] order waiting count) : waiting = [] := by
  classical
  by_contra some
  obtain ⟨w, here, most⟩ := waiting.toFinset.exists_max_image refs.size
    (List.toFinset_nonempty_iff waiting |>.mpr some)
  have here := List.mem_toFinset.mp here
  have more := state.unplaced w here
  have none : refs.occurrences (refs.key w) [] = 0 := rfl
  rw [state.left, none, Nat.zero_add] at more
  obtain ⟨c, below, same⟩ := List.mem_map.mp (List.count_pos_iff.mp more)
  obtain ⟨p, parent, child⟩ := List.mem_flatMap.mp below
  have inside {o : α} (member : o ∈ waiting) : o ∈ reached :=
    state.split.mem_iff.mp (List.mem_append_right order member)
  have equal := all.eq_of_key (all.child (inside parent) child) (inside here) same
  have larger := refs.smaller p c child
  have largest := most p (List.mem_toFinset.mpr parent)
  rw [equal] at larger
  omega

/-- Read backwards, all that can be reached stands in order, once. -/
theorem perm (all : refs.Reached heads reached)
    (state : refs.Placing reached [] order waiting count) : order.reverse.Perm reached := by
  have split := state.split
  rw [state.finish all, List.append_nil] at split
  exact (List.reverse_perm order).trans split

/-- Read backwards, everything stands after its children. -/
theorem childrenFirst (all : refs.Reached heads reached)
    (state : refs.Placing reached [] order waiting count) {before after : List α} {p c : α}
    (here : order.reverse = before ++ p :: after) (child : c ∈ refs.children p) :
    c ∈ before := by
  have same := state.perm all
  rw [here] at same
  have distinct := same.nodup_iff.mpr all.nodup
  have parent : p ∈ reached := same.mem_iff.mp (by simp)
  rcases List.mem_append.mp (same.mem_iff.mpr (all.child parent child)) with there | there
  · exact there
  · rcases List.mem_cons.mp there with rfl | later
    · exact absurd (refs.smaller c c child) (Nat.lt_irrefl _)
    · obtain ⟨front, back, rfl⟩ := List.append_of_mem later
      have turned : order = back.reverse ++ c :: (before ++ p :: front).reverse := by
        rw [← List.reverse_reverse order, here]
        simp
      have again := state.parents _ _ _ turned p parent child
      simp only [List.nodup_append, List.nodup_cons] at distinct
      have twice : p ∉ front ++ c :: back := distinct.2.1.1
      exact absurd (List.mem_append_right front (List.mem_cons_of_mem c (List.mem_reverse.mp again)))
        twice

end Placing

end References

end UdpStuff.Theory
