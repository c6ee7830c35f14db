/-
# Theory.ThreadCounter — variables that count threads

Threads stand at places and `Counts` says that a number is how many of them stand in
a region.  It is kept where a thread moves and the number with it (`Counts.update`).
The threads may be of any type; only finitely many stand in a region that is counted.
-/
import Mathlib.Data.Finset.Card
import Mathlib.Logic.Function.Basic

namespace UdpStuff.Theory

set_option autoImplicit false

variable {Thread Place : Type} [DecidableEq Thread] {region : Place → Bool}
  {place place' : Thread → Place} {n : Int}

/-- So many threads stand in the region. -/
def Counts (region : Place → Bool) (place : Thread → Place) (n : Int) : Prop :=
  ∃ threads : Finset Thread, (∀ t, t ∈ threads ↔ region (place t) = true) ∧ n = threads.card

namespace Counts

omit [DecidableEq Thread] in
theorem nothing (outside : ∀ t, region (place t) = false) : Counts region place 0 :=
  ⟨∅, fun t => by simp [outside t], rfl⟩

omit [DecidableEq Thread] in
/-- No thread enters or leaves the region. -/
theorem congr (counts : Counts region place n)
    (same : ∀ t, region (place' t) = region (place t)) : Counts region place' n := by
  obtain ⟨threads, inside, rfl⟩ := counts
  exact ⟨threads, fun t => by rw [same, inside], rfl⟩

/-- One thread moves, and the number with it. -/
theorem update (counts : Counts region place n) {t : Thread} {p : Place} {n' : Int}
    (moved : n' + (region (place t)).toInt = n + (region p).toInt) :
    Counts region (Function.update place t p) n' := by
  obtain ⟨threads, inside, rfl⟩ := counts
  have others {u : Thread} (other : u ≠ t) :
      region (Function.update place t p u) = region (place u) := by
    rw [Function.update_of_ne other]
  cases before : region (place t) <;> cases after : region p
  · refine ⟨threads, fun u => ?_, by simpa [before, after] using moved⟩
    by_cases this : u = t
    · subst this
      simp [inside, before, after]
    · rw [others this, inside]
  · have fresh : t ∉ threads := by simp [inside, before]
    refine ⟨insert t threads, fun u => ?_, ?_⟩
    · by_cases this : u = t
      · subst this
        simp [after]
      · rw [others this, Finset.mem_insert, inside]
        simp [this]
    · rw [Finset.card_insert_of_notMem fresh]
      simpa [before, after] using moved
  · have there : t ∈ threads := by simp [inside, before]
    refine ⟨threads.erase t, fun u => ?_, ?_⟩
    · by_cases this : u = t
      · subst this
        simp [after]
      · rw [others this, Finset.mem_erase, inside]
        simp [this]
    · have size := Finset.card_erase_add_one there
      simp [before, after] at moved
      omega
  · refine ⟨threads, fun u => ?_, by simpa [before, after] using moved⟩
    by_cases this : u = t
    · subst this
      simp [inside, before, after]
    · rw [others this, inside]

omit [DecidableEq Thread] in
theorem nonneg (counts : Counts region place n) : 0 ≤ n := by
  obtain ⟨threads, -, rfl⟩ := counts
  exact Int.natCast_nonneg _

omit [DecidableEq Thread] in
theorem pos (counts : Counts region place n) {t : Thread} (inside : region (place t) = true) :
    0 < n := by
  obtain ⟨threads, members, rfl⟩ := counts
  exact Int.natCast_pos.mpr (Finset.card_pos.mpr ⟨t, (members t).mpr inside⟩)

omit [DecidableEq Thread] in
theorem exists_of_ne (counts : Counts region place n) (some : n ≠ 0) :
    ∃ t, region (place t) = true := by
  obtain ⟨threads, members, rfl⟩ := counts
  have nonempty : threads.Nonempty := by
    rw [Finset.nonempty_iff_ne_empty]
    rintro rfl
    exact some rfl
  exact nonempty.imp fun t => (members t).mp

omit [DecidableEq Thread] in
/-- Of one counted thread there is no other. -/
theorem unique (counts : Counts region place n) (most : n ≤ 1) {t u : Thread}
    (first : region (place t) = true) (second : region (place u) = true) : t = u := by
  obtain ⟨threads, members, rfl⟩ := counts
  exact Finset.card_le_one.mp (Int.ofNat_le.mp most) t ((members t).mpr first) u
    ((members u).mpr second)

end Counts

end UdpStuff.Theory
