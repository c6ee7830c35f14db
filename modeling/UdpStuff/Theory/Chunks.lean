/-
# Theory.Chunks — a list cut into consecutive pieces

`chunks n xs` cuts `xs` into pieces of length `n`, the last one shorter when the
length is no multiple of `n`.  The pieces joined are the list again
(`flatten_chunks`), there are as many as the length needs (`length_chunks`), and
a common divisor of `n` and the length divides every piece (`dvd_of_mem_chunks`).
-/
import Mathlib.Data.BitVec
import Mathlib.Tactic.Ring

namespace UdpStuff.Theory

set_option autoImplicit false

universe u

variable {α : Type u}

def chunks (n : Nat) (xs : List α) : List (List α) :=
  if xs = [] ∨ n = 0 then [] else xs.take n :: chunks n (xs.drop n)
termination_by xs.length
decreasing_by
  rename_i h
  have := List.length_pos_of_ne_nil fun e => h (Or.inl e)
  simp only [List.length_drop]
  omega

@[simp] theorem chunks_nil (n : Nat) : chunks n ([] : List α) = [] := by
  rw [chunks, if_pos (Or.inl rfl)]

theorem chunks_cons {n : Nat} (positive : 0 < n) {xs : List α} (nonempty : xs ≠ []) :
    chunks n xs = xs.take n :: chunks n (xs.drop n) := by
  rw [chunks, if_neg]
  rintro (empty | zero)
  · exact nonempty empty
  · omega

/-- Induction along the cuts. -/
theorem chunks_induction {n : Nat} (positive : 0 < n) {motive : List α → Prop}
    (nil : motive [])
    (cons : ∀ xs : List α, xs ≠ [] → motive (xs.drop n) → motive xs) (xs : List α) :
    motive xs := by
  induction len : xs.length using Nat.strongRecOn generalizing xs with
  | ind k ih =>
      by_cases empty : xs = []
      · exact empty ▸ nil
      · have := List.length_pos_of_ne_nil empty
        exact cons xs empty (ih (xs.drop n).length (by simp only [List.length_drop]; omega) _ rfl)

theorem flatten_chunks {n : Nat} (positive : 0 < n) (xs : List α) : (chunks n xs).flatten = xs := by
  induction xs using chunks_induction positive with
  | nil => simp
  | cons xs nonempty ih => rw [chunks_cons positive nonempty, List.flatten_cons, ih,
      List.take_append_drop]

theorem length_chunks {n : Nat} (positive : 0 < n) (xs : List α) :
    (chunks n xs).length = (xs.length + n - 1) / n := by
  induction xs using chunks_induction positive with
  | nil =>
      rw [chunks_nil, List.length_nil, List.length_nil, Nat.zero_add]
      exact (Nat.div_eq_of_lt (by omega)).symm
  | cons xs nonempty ih =>
      have := List.length_pos_of_ne_nil nonempty
      rw [chunks_cons positive nonempty, List.length_cons, ih, List.length_drop]
      by_cases long : n ≤ xs.length
      · have step : xs.length + n - 1 = xs.length - n + n - 1 + n := by omega
        rw [step, Nat.add_div_right _ positive]
      · have last : xs.length - n + n - 1 = n - 1 := by omega
        rw [last, Nat.div_eq_of_lt (by omega)]
        exact (Nat.div_eq_of_lt_le (by omega) (by omega)).symm

/-- The `k`-th piece. -/
theorem getElem_chunks {n : Nat} (positive : 0 < n) (xs : List α) {k : Nat}
    (below : k < (chunks n xs).length) : (chunks n xs)[k] = (xs.drop (k * n)).take n := by
  induction xs using chunks_induction positive generalizing k with
  | nil => simp at below
  | cons xs nonempty ih =>
      have cut := chunks_cons positive nonempty
      simp only [cut] at below ⊢
      cases k with
      | zero => simp
      | succ k =>
          rw [List.getElem_cons_succ, ih, List.drop_drop, Nat.succ_mul, Nat.add_comm n]

/-- Every piece is one of the cuts. -/
theorem eq_of_mem_chunks {n : Nat} (positive : 0 < n) {xs piece : List α}
    (member : piece ∈ chunks n xs) : ∃ k, piece = (xs.drop (k * n)).take n := by
  obtain ⟨k, below, rfl⟩ := List.getElem_of_mem member
  exact ⟨k, getElem_chunks positive xs below⟩

theorem length_le_of_mem_chunks {n : Nat} (positive : 0 < n) {xs piece : List α}
    (member : piece ∈ chunks n xs) : piece.length ≤ n ∧ piece.length ≤ xs.length := by
  obtain ⟨k, rfl⟩ := eq_of_mem_chunks positive member
  rw [List.length_take, List.length_drop]
  omega

theorem dvd_of_mem_chunks {n d : Nat} (positive : 0 < n) (step : d ∣ n) {xs piece : List α}
    (whole : d ∣ xs.length) (member : piece ∈ chunks n xs) : d ∣ piece.length := by
  obtain ⟨k, rfl⟩ := eq_of_mem_chunks positive member
  have left : d ∣ xs.length - k * n := Nat.dvd_sub whole (step.mul_left k)
  rw [List.length_take, List.length_drop]
  rcases Nat.le_total n (xs.length - k * n) with full | last
  · rwa [Nat.min_eq_left full]
  · rwa [Nat.min_eq_right last]

end UdpStuff.Theory
