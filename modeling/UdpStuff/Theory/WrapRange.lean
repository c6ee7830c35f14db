/-
# Theory.WrapRange — the counting loop over numbers that wrap

A loop `for (i = start; i != stop; i++)` over `w`-bit unsigned numbers visits
`start`, `start + 1`, … modulo `2^w` and stops at the first `stop`: the half-open
circular range.  `wrapRange start stop` is the list of the numbers it visits;
`wrapRange_cons` is the loop itself, one test and one increment.

* `mem_wrapRange`: a number is visited exactly when its distance from `start` is
  below the distance of `stop`;
* `wrapRange_ofNat`: the range that ends `n` steps after its start, for `n` below
  one full turn;
* `forLoop_eq`: the loop ends within a full turn, and does its body for these numbers.
-/
import Mathlib.Data.BitVec
import Mathlib.Data.Nat.ModEq

namespace UdpStuff.Theory

set_option autoImplicit false

variable {w : Nat}

/-- The numbers visited by `for (i = start; i != stop; i++)`, in order. -/
def wrapRange (start stop : BitVec w) : List (BitVec w) :=
  (List.range (stop - start).toNat).map fun k => start + BitVec.ofNat w k

@[simp] theorem wrapRange_self (start : BitVec w) : wrapRange start start = [] := by
  simp [wrapRange]

/-- `k` increments away from `start` is at distance `k`, below a full turn. -/
theorem distance_add (start : BitVec w) {k : Nat} (short : k < 2 ^ w) :
    (start + BitVec.ofNat w k - start).toNat = k := by
  rw [BitVec.add_comm, BitVec.add_sub_cancel, BitVec.toNat_ofNat, Nat.mod_eq_of_lt short]

theorem add_distance (start i : BitVec w) : start + BitVec.ofNat w (i - start).toNat = i := by
  rw [BitVec.ofNat_toNat, BitVec.setWidth_eq, BitVec.add_comm, BitVec.sub_add_cancel]

/-- `k + 1` increments are one and then `k`. -/
theorem add_ofNat_succ (x : BitVec w) (k : Nat) :
    x + BitVec.ofNat w (k + 1) = x + 1 + BitVec.ofNat w k := by
  rw [BitVec.ofNat_add, BitVec.add_comm (BitVec.ofNat w k), ← BitVec.add_assoc]
  rfl

theorem add_ofNat_zero (x : BitVec w) : x + BitVec.ofNat w 0 = x := by
  simp

/-- The distance to `stop` drops by one at each increment. -/
theorem toNat_sub_succ {start stop : BitVec w} (ne : start ≠ stop) :
    (stop - start).toNat = (stop - (start + 1)).toNat + 1 := by
  have positive : 0 < (stop - start).toNat := by
    rw [Nat.pos_iff_ne_zero]
    intro zero
    apply ne
    have := add_distance start stop
    rw [zero] at this
    simpa using this
  obtain ⟨n, hn⟩ : ∃ n, (stop - start).toNat = n + 1 := ⟨_, (Nat.succ_pred positive.ne').symm⟩
  have short : n + 1 < 2 ^ w := hn ▸ (stop - start).isLt
  have next : stop = start + 1 + BitVec.ofNat w n := by
    rw [← add_distance start stop, hn, add_ofNat_succ]
  rw [hn, next, distance_add (start + 1) (by omega)]

/-- One turn of the loop. -/
theorem wrapRange_cons {start stop : BitVec w} (ne : start ≠ stop) :
    wrapRange start stop = start :: wrapRange (start + 1) stop := by
  unfold wrapRange
  rw [toNat_sub_succ ne, List.range_succ_eq_map, List.map_cons, List.map_map]
  congr 1
  · simp
  · apply List.map_congr_left
    intro k _
    apply BitVec.eq_of_toNat_eq
    simp [Nat.add_assoc, Nat.add_comm 1 k]

theorem mem_wrapRange {start stop i : BitVec w} :
    i ∈ wrapRange start stop ↔ (i - start).toNat < (stop - start).toNat := by
  simp only [wrapRange, List.mem_map, List.mem_range]
  constructor
  · rintro ⟨k, below, rfl⟩
    rwa [distance_add start (lt_trans below (stop - start).isLt)]
  · intro below
    exact ⟨(i - start).toNat, below, add_distance start i⟩

/-- Distances from one start tell numbers less than a full turn away apart. -/
theorem add_ofNat_inj {start : BitVec w} {a b : Nat} (ha : a < 2 ^ w) (hb : b < 2 ^ w)
    (same : start + BitVec.ofNat w a = start + BitVec.ofNat w b) : a = b := by
  rw [← distance_add start ha, same, distance_add start hb]

/-- Less than a full turn does not lead back. -/
theorem add_ofNat_succ_ne {x : BitVec w} {k : Nat} (short : k + 1 < 2 ^ w) :
    x + BitVec.ofNat w (k + 1) ≠ x := by
  intro same
  have turned : k + 1 = 0 :=
    add_ofNat_inj short (Nat.zero_lt_of_lt short) (same.trans (add_ofNat_zero x).symm)
  omega

/-- The range that ends `n` steps after its start. -/
theorem wrapRange_ofNat (start : BitVec w) {n : Nat} (short : n < 2 ^ w) :
    wrapRange start (start + BitVec.ofNat w n) =
      (List.range n).map fun k => start + BitVec.ofNat w k := by
  rw [wrapRange, distance_add start short]

/-- Later numbers are farther from the start. -/
theorem wrapRange_pairwise (start stop : BitVec w) :
    (wrapRange start stop).Pairwise fun i j => (i - start).toNat < (j - start).toNat := by
  rw [wrapRange, List.pairwise_map]
  refine List.pairwise_lt_range.imp_of_mem fun {a b} _ inside before => ?_
  have short : b < 2 ^ w := lt_trans (List.mem_range.mp inside) (stop - start).isLt
  rwa [distance_add start (before.trans short), distance_add start short]

/-- A range cut in two. -/
theorem mem_wrapRange_append (start : BitVec w) {a b : Nat} (short : a + b < 2 ^ w) (i : BitVec w) :
    i ∈ wrapRange start (start + BitVec.ofNat w (a + b)) ↔
      i ∈ wrapRange start (start + BitVec.ofNat w a) ∨
        i ∈ wrapRange (start + BitVec.ofNat w a) (start + BitVec.ofNat w (a + b)) := by
  have cut : start + BitVec.ofNat w (a + b) = start + BitVec.ofNat w a + BitVec.ofNat w b := by
    rw [BitVec.ofNat_add, BitVec.add_assoc]
  rw [cut, wrapRange_ofNat _ (by omega : b < 2 ^ w), wrapRange_ofNat _ (by omega : a < 2 ^ w),
    ← cut, wrapRange_ofNat _ short, List.range_add, List.map_append, List.mem_append, List.map_map]
  simp only [Function.comp_def, BitVec.ofNat_add, BitVec.add_assoc]

variable {σ : Type}

/-- `for (i = start; i != stop; i++)`, given up when its tests are used up. -/
def forLoop (body : σ → BitVec w → σ) (stop : BitVec w) : Nat → BitVec w → σ → Option σ
  | 0, _, _ => none
  | fuel + 1, i, s => if i ≠ stop then forLoop body stop fuel (i + 1) (body s i) else some s

/-- **The loop ends**: it meets `stop` within one full turn. -/
theorem forLoop_eq (body : σ → BitVec w → σ) {stop : BitVec w} {fuel : Nat} {i : BitVec w}
    (enough : (stop - i).toNat < fuel) (s : σ) :
    forLoop body stop fuel i s = some ((wrapRange i stop).foldl body s) := by
  induction fuel generalizing i s with
  | zero => omega
  | succ fuel ih =>
      rw [forLoop]
      by_cases stopped : i = stop
      · subst stopped
        simp
      · have nearer := toNat_sub_succ stopped
        rw [if_pos stopped, wrapRange_cons stopped, List.foldl_cons, ih (by omega)]

end UdpStuff.Theory
