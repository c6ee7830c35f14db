/-
# Theory.Links — following links through a map

`next` links a value to at most one other.  `follow` looks a value up, goes on with what
it is linked to, and returns the first value without a link; it gives up when its
lookups are used up, so that for no number of lookups it returns exactly where the links
have no end.

* `exists_follow_iff`: the links from a value have an end if and only if none of the
  values that they lead to leads back to itself;
* `follow_of_ends`: then one lookup for each of these values is enough, and one more;
* `acyclic_iff`: from every value they have an end if and only if there is no cycle;
* `follow_of_reaches`: a value without a link that they lead to is the one that is found,
  and it still leads on when such a value gets a link (`reaches_update`).
-/
import Mathlib.Data.Finset.Card
import Mathlib.Logic.Relation

namespace UdpStuff.Theory.Links

open Relation

set_option autoImplicit false

universe u

variable {α : Type u} (next : α → Option α)

def Link (a b : α) : Prop := next a = some b

/-- Nothing that `a` leads to leads back to itself. -/
def Ends (a : α) : Prop := ∀ b, ReflTransGen (Link next) a b → ¬ TransGen (Link next) b b

/-- Nothing leads back to itself. -/
def Acyclic : Prop := ∀ a, ¬ TransGen (Link next) a a

/-- The end of the links from a value, found by at most `fuel` lookups. -/
def follow : Nat → α → Option α
  | 0, _ => none
  | fuel + 1, a =>
      match next a with
      | some b => follow fuel b
      | none => some a

variable {next}

theorem follow_linked {a b : α} (link : Link next a b) (fuel : Nat) :
    follow next (fuel + 1) a = follow next fuel b := by
  rw [Link] at link
  rw [follow, link]

theorem follow_unlinked {a : α} (unlinked : next a = none) (fuel : Nat) :
    follow next (fuel + 1) a = some a := by
  rw [follow, unlinked]

/-- More lookups return the same. -/
theorem follow_mono {fuel more : Nat} (le : fuel ≤ more) {a c : α}
    (returns : follow next fuel a = some c) : follow next more a = some c := by
  induction fuel generalizing more a with
  | zero => cases returns
  | succ fuel ih =>
      obtain ⟨k, rfl⟩ := Nat.exists_eq_add_of_le le
      rw [Nat.add_right_comm]
      cases linked : next a with
      | none =>
          rw [follow_unlinked linked] at returns ⊢
          exact returns
      | some b =>
          rw [follow_linked linked] at returns ⊢
          exact ih (Nat.le_add_right fuel k) returns

/-! ## Ends and cycles -/

theorem Ends.linked {a b : α} (ends : Ends next a) (link : Link next a b) : Ends next b :=
  fun c reached => ends c (.head link reached)

/-- What a linked value leads to does not come back to the value. -/
theorem Ends.not_back {a b : α} (ends : Ends next a) (link : Link next a b) :
    ¬ ReflTransGen (Link next) b a :=
  fun back => ends a .refl (.head' link back)

/-- A value whose link has an end has one. -/
theorem ends_of_linked {a b : α} (link : Link next a b) (ends : Ends next b) : Ends next a := by
  have only {c : α} (other : Link next a c) : c = b := Option.some.inj (other.symm.trans link)
  intro c reached cycle
  rcases reached.cases_head with rfl | ⟨d, first, later⟩
  · -- the cycle through `a` goes through `b`
    obtain ⟨d, first, back⟩ := TransGen.head'_iff.mp cycle
    rw [only first] at back
    exact ends a back cycle
  · rw [only first] at later
    exact ends c later cycle

theorem ends_of_unlinked {a : α} (unlinked : next a = none) : Ends next a := by
  have none {c : α} (link : Link next a c) : False := by
    rw [Link, unlinked] at link
    cases link
  intro c reached cycle
  rcases reached.cases_head with rfl | ⟨d, first, -⟩
  · obtain ⟨d, first, -⟩ := TransGen.head'_iff.mp cycle
    exact none first
  · exact none first

theorem ends_of_follow {fuel : Nat} {a c : α} (returns : follow next fuel a = some c) :
    Ends next a := by
  induction fuel generalizing a with
  | zero => cases returns
  | succ fuel ih =>
      cases linked : next a with
      | none => exact ends_of_unlinked linked
      | some b =>
          rw [follow_linked linked] at returns
          exact ends_of_linked linked (ih returns)

/-- **Enough lookups**: one for each value that `a` leads to, and one more. -/
theorem follow_of_ends [DecidableEq α] {a : α} (ends : Ends next a) {s : Finset α}
    (all : ∀ b, ReflTransGen (Link next) a b → b ∈ s) :
    ∃ c, follow next (s.card + 1) a = some c := by
  induction count : s.card generalizing a s with
  | zero =>
      have member := all a .refl
      rw [Finset.card_eq_zero.mp count] at member
      exact absurd member (Finset.notMem_empty a)
  | succ n ih =>
      cases linked : next a with
      | none => exact ⟨a, follow_unlinked linked _⟩
      | some b =>
          have others (c : α) (reached : ReflTransGen (Link next) b c) : c ∈ s.erase a := by
            refine Finset.mem_erase.mpr ⟨?_, all c (.head linked reached)⟩
            rintro rfl
            exact ends.not_back linked reached
          have fewer : (s.erase a).card = n := by
            rw [Finset.card_erase_of_mem (all a .refl), count, Nat.add_sub_cancel]
          obtain ⟨c, returns⟩ := ih (ends.linked linked) others fewer
          exact ⟨c, by rw [follow_linked linked, returns]⟩

/-- **The links from a value have an end** if and only if they do not lead into a cycle. -/
theorem exists_follow_iff [DecidableEq α] {s : Finset α} (all : ∀ b, b ∈ s) (a : α) :
    (∃ fuel c, follow next fuel a = some c) ↔ Ends next a := by
  constructor
  · rintro ⟨fuel, c, returns⟩
    exact ends_of_follow returns
  · intro ends
    exact ⟨s.card + 1, follow_of_ends ends fun b _ => all b⟩

theorem acyclic_iff : Acyclic next ↔ ∀ a, Ends next a :=
  ⟨fun acyclic _ b _ => acyclic b, fun ends a => ends a a .refl⟩

/-! ## What is found -/

/-- Whatever the number of lookups, the same is found. -/
theorem follow_unique {fuel more : Nat} {a c d : α} (returns : follow next fuel a = some c)
    (returns' : follow next more a = some d) : c = d := by
  rcases Nat.le_total fuel more with le | le
  · exact Option.some.inj ((follow_mono le returns).symm.trans returns')
  · exact Option.some.inj (returns.symm.trans (follow_mono le returns'))

/-- The links lead to it, and it has none. -/
theorem follow_of_reaches {a c : α} (reached : ReflTransGen (Link next) a c)
    (unlinked : next c = none) : ∃ fuel, follow next fuel a = some c := by
  induction reached using ReflTransGen.head_induction_on with
  | refl => exact ⟨1, follow_unlinked unlinked 0⟩
  | head link _ ih =>
      obtain ⟨fuel, returns⟩ := ih
      exact ⟨fuel + 1, by rw [follow_linked link, returns]⟩

/-- A new link from a value that has none takes no way away. -/
theorem reaches_update {next' : α → Option α} {last : α} (unlinked : next last = none)
    (others : ∀ a, a ≠ last → next' a = next a) {a c : α}
    (reached : ReflTransGen (Link next) a c) : ReflTransGen (Link next') a c := by
  refine ReflTransGen.mono (fun b d link => ?_) a c reached
  have other : b ≠ last := by
    rintro rfl
    rw [Link, unlinked] at link
    cases link
  rw [Link, others b other]
  exact link

end UdpStuff.Theory.Links
