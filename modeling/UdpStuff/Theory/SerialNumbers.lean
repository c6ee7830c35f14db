/-
# Theory.SerialNumbers — numbers that grow for ever, cut to `w` bits

A counter of `w` bits names only the last `w` bits of the number that it stands for.
Inside a window of `2^w` numbers that is enough: the cut numbers of a window are all
different (`cut_inj`), and each number of `w` bits is the cut of one of them.

A table under cut numbers therefore says something about a window only.  `Windowed` is
what it says: under the cut of each number of the window stands what is held under the
number itself, and nothing is held behind the window.  The two things that are done to
such a table keep it so: something is put under a number of the window (`Windowed.put`),
and the window moves on, clearing the numbers that it leaves (`Windowed.advance`), whose
cuts are the ones that the new numbers of the window have.

* `wrapRange_cut`: the counting loop from one cut number to another;
* `mem_wrapRange_cut`: which cut numbers of a window it meets.
-/
import UdpStuff.Theory.WrapRange

namespace UdpStuff.Theory

set_option autoImplicit false

universe u

variable {w : Nat}

/-! ## A window of numbers -/

/-- The numbers of a window are told apart by their last `w` bits. -/
theorem cut_inj {lo a b : Nat} (ha : lo ≤ a) (hb : lo ≤ b) (la : a < lo + 2 ^ w)
    (lb : b < lo + 2 ^ w) (same : BitVec.ofNat w a = BitVec.ofNat w b) : a = b := by
  have modular : a ≡ b [MOD 2 ^ w] := by
    have := congrArg BitVec.toNat same
    rwa [BitVec.toNat_ofNat, BitVec.toNat_ofNat] at this
  obtain ⟨i, rfl⟩ := Nat.exists_eq_add_of_le ha
  obtain ⟨j, rfl⟩ := Nat.exists_eq_add_of_le hb
  have offsets : i ≡ j [MOD 2 ^ w] := Nat.ModEq.add_left_cancel' lo modular
  rw [Nat.ModEq.eq_of_lt_of_lt offsets (by omega) (by omega)]

theorem cut_add_turn (n : Nat) : BitVec.ofNat w (n + 2 ^ w) = BitVec.ofNat w n := by
  apply BitVec.eq_of_toNat_eq
  simp

/-- A step of the counter. -/
theorem cut_succ (n : Nat) : BitVec.ofNat w n + 1 = BitVec.ofNat w (n + 1) := by
  rw [BitVec.ofNat_add]
  rfl

/-- The loop from one cut number to another, less than a full turn on. -/
theorem wrapRange_cut {a b : Nat} (le : a ≤ b) (short : b < a + 2 ^ w) :
    wrapRange (BitVec.ofNat w a) (BitVec.ofNat w b) =
      (List.range' a (b - a)).map (BitVec.ofNat w) := by
  obtain ⟨n, rfl⟩ := Nat.exists_eq_add_of_le le
  have few : n < 2 ^ w := by omega
  rw [BitVec.ofNat_add, wrapRange_ofNat _ few, Nat.add_sub_cancel_left, List.range'_eq_map_range,
    List.map_map]
  apply List.map_congr_left
  intro k _
  show _ = BitVec.ofNat w (a + k)
  rw [BitVec.ofNat_add]

/-- The loop from the front of a window meets the numbers before its end. -/
theorem mem_wrapRange_cut {lo stop n : Nat} (le : lo ≤ stop) (short : stop < lo + 2 ^ w)
    (above : lo ≤ n) (below : n < lo + 2 ^ w) :
    BitVec.ofNat w n ∈ wrapRange (BitVec.ofNat w lo) (BitVec.ofNat w stop) ↔ n < stop := by
  rw [wrapRange_cut le short, List.mem_map]
  constructor
  · rintro ⟨m, inside, same⟩
    rw [List.mem_range'_1] at inside
    rw [← cut_inj (by omega) above (by omega) below same]
    omega
  · intro before
    exact ⟨n, List.mem_range'_1.mpr (by omega), rfl⟩

/-! ## A table under cut numbers -/

variable {α : Type u}

/-- The table holds under the cut of each number of the window from `lo` what is `held`
under that number, and nothing is held behind the window. -/
structure Windowed (table : BitVec w → Option α) (lo : Nat) (held : Nat → Option α) : Prop where
  inside : ∀ n, lo ≤ n → n < lo + 2 ^ w → table (BitVec.ofNat w n) = held n
  behind : ∀ n, lo + 2 ^ w ≤ n → held n = none

namespace Windowed

variable {table table' : BitVec w → Option α} {lo : Nat} {held held' : Nat → Option α}

/-- Something is put under a number of the window. -/
theorem put (windowed : Windowed table lo held) {n : Nat} (above : lo ≤ n)
    (below : n < lo + 2 ^ w) {v : α}
    (new : ∀ i, table' i = if i = BitVec.ofNat w n then some v else table i)
    (now : ∀ m, held' m = if m = n then some v else held m) : Windowed table' lo held' := by
  refine ⟨fun m first last => ?_, fun m later => ?_⟩
  · rw [new, now]
    by_cases same : m = n
    · rw [if_pos same, if_pos (by rw [same])]
    · rw [if_neg same, if_neg fun cut => same (cut_inj first above last below cut)]
      exact windowed.inside m first last
  · rw [now, if_neg (by omega)]
    exact windowed.behind m later

/-- The window moves on by less than a full turn, and what it leaves is cleared. -/
theorem advance (windowed : Windowed table lo held) {lo' : Nat} (on : lo ≤ lo')
    (short : lo' < lo + 2 ^ w)
    (cleared : ∀ i, table' i =
      if i ∈ wrapRange (BitVec.ofNat w lo) (BitVec.ofNat w lo') then none else table i) :
    Windowed table' lo' held := by
  refine ⟨fun n first last => ?_, fun n later => windowed.behind n (by omega)⟩
  rw [cleared]
  by_cases old : n < lo + 2 ^ w
  · have kept : BitVec.ofNat w n ∉ wrapRange (BitVec.ofNat w lo) (BitVec.ofNat w lo') := by
      rw [mem_wrapRange_cut on short (by omega) old]
      omega
    rw [if_neg kept]
    exact windowed.inside n (by omega) old
  · -- a number that comes into the window has the cut of one that leaves it
    obtain ⟨m, rfl⟩ := Nat.exists_eq_add_of_le (show 2 ^ w ≤ n by omega)
    have left : BitVec.ofNat w (2 ^ w + m) ∈
        wrapRange (BitVec.ofNat w lo) (BitVec.ofNat w lo') := by
      rw [Nat.add_comm, cut_add_turn, mem_wrapRange_cut on short (by omega) (by omega)]
      omega
    rw [if_pos left, windowed.behind _ (by omega)]

/-- Only the numbers of the window and those behind it matter. -/
theorem congr (windowed : Windowed table lo held) (same : ∀ n, lo ≤ n → held' n = held n) :
    Windowed table lo held' := by
  refine ⟨fun n first last => ?_, fun n later => ?_⟩
  · rw [same n first]
    exact windowed.inside n first last
  · rw [same n (le_trans (Nat.le_add_right _ _) later)]
    exact windowed.behind n later

end Windowed

end UdpStuff.Theory
