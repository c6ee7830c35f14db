/-
# Theory.Nearest — the nearest elements of a list

`Nearest dist limit all taken`: `taken` are `limit` elements of `all`, or all of them, no
element twice and nearest first, and none that is left out is nearer than one taken.

* `nearest_of_perm`: elements taken in order, each before all that are as near or farther;
* `Nearest.far`: further elements that are not needed, as enough others are as near;
* `Nearest.enough`: an element that is left out was not needed.
-/
import Mathlib.Data.List.Perm.Subperm
import Mathlib.Data.List.Nodup

namespace UdpStuff.Theory

set_option autoImplicit false

universe u

variable {α : Type u}

structure Nearest (dist : α → Nat) (limit : Nat) (all taken : List α) : Prop where
  length : taken.length = min limit all.length
  nodup : taken.Nodup
  members : ∀ a ∈ taken, a ∈ all
  order : taken.Pairwise fun a b => dist a ≤ dist b
  left : ∀ a ∈ all, a ∉ taken → ∀ t ∈ taken, dist t ≤ dist a

/-- The elements as near as a distance. -/
def within (dist : α → Nat) (d : Nat) (all : List α) : List α := all.filter fun a => dist a ≤ d

variable {dist : α → Nat} {limit : Nat} {all near taken rest : List α}

theorem length_le_of_subset (nodup : near.Nodup) (subset : ∀ a ∈ near, a ∈ all) :
    near.length ≤ all.length :=
  (List.subperm_of_subset nodup subset).length_le

/-- Elements taken in order, each before all that are as near or farther. -/
theorem nearest_of_perm (perm : (taken ++ rest).Perm all) (nodup : all.Nodup)
    (order : taken.Pairwise fun a b => dist a ≤ dist b)
    (before : ∀ t ∈ taken, ∀ r ∈ rest, dist t ≤ dist r) (most : taken.length ≤ limit)
    (full : limit ≤ taken.length ∨ rest = []) : Nearest dist limit all taken := by
  have parts := perm.nodup_iff.mpr nodup
  have length := perm.length_eq
  rw [List.length_append] at length
  refine ⟨?_, (List.nodup_append.mp parts).1, ?_, order, ?_⟩
  · rcases full with enough | rfl
    · omega
    · rw [List.length_nil] at length
      omega
  · intro a member
    exact perm.mem_iff.mp (List.mem_append_left rest member)
  · intro a member out t inside
    rcases List.mem_append.mp (perm.mem_iff.mpr member) with there | there
    · exact absurd there out
    · exact before t inside a there

/-- Elements for each of which enough others are as near do not change the nearest ones. -/
theorem Nearest.far (nearest : Nearest dist limit near taken) (nodup : near.Nodup)
    (few : limit ≤ near.length) {far : List α} (perm : (far ++ near).Perm all)
    (needless : ∀ f ∈ far, limit ≤ (within dist (dist f) near).length) :
    Nearest dist limit all taken := by
  have length := nearest.length
  rw [Nat.min_eq_left few] at length
  have total := perm.length_eq
  rw [List.length_append] at total
  refine ⟨by omega, nearest.nodup, ?_, nearest.order, ?_⟩
  · intro a member
    exact perm.mem_iff.mp (List.mem_append_right far (nearest.members a member))
  · intro a member out t inside
    rcases List.mem_append.mp (perm.mem_iff.mpr member) with there | there
    · by_contra nearer
      -- all that are as near as `a` were taken, and `t` as well
      have subset : ∀ x ∈ t :: within dist (dist a) near, x ∈ taken := by
        intro x close
        rcases List.mem_cons.mp close with rfl | close
        · exact inside
        · obtain ⟨here, close⟩ := List.mem_filter.mp close
          have close : dist x ≤ dist a := of_decide_eq_true close
          by_contra missed
          have := nearest.left x here missed t inside
          omega
      have distinct : (t :: within dist (dist a) near).Nodup := by
        refine List.nodup_cons.mpr ⟨fun close => ?_, nodup.filter _⟩
        have close : dist t ≤ dist a := of_decide_eq_true (List.mem_filter.mp close).2
        omega
      have := length_le_of_subset distinct subset
      have := needless a there
      rw [List.length_cons] at *
      omega
    · exact nearest.left a there out t inside

/-- Where an element is left out, enough of the others are as near. -/
theorem Nearest.enough {f : α} (nearest : Nearest dist limit all taken)
    (perm : (f :: near).Perm all) (out : f ∉ taken) :
    limit ≤ (within dist (dist f) near).length := by
  have member : f ∈ all := perm.mem_iff.mp List.mem_cons_self
  have others : ∀ a ∈ taken, a ∈ near := by
    intro a inside
    rcases List.mem_cons.mp (perm.mem_iff.mpr (nearest.members a inside)) with rfl | there
    · exact absurd inside out
    · exact there
  have close : ∀ a ∈ taken, a ∈ within dist (dist f) near := by
    intro a inside
    exact List.mem_filter.mpr
      ⟨others a inside, decide_eq_true (nearest.left f member out a inside)⟩
  have length := nearest.length
  have total := perm.length_eq
  have := length_le_of_subset nearest.nodup others
  have := length_le_of_subset nearest.nodup close
  rw [List.length_cons] at total
  omega

end UdpStuff.Theory
