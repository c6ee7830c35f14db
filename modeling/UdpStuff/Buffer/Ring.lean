/-
# Buffer.Ring — the input side of a ring of two blocks

`DoubleBlockProcBuf` keeps elements from `b` to `e` around an array of two blocks; the
indices are equal when there is none.  `InBufWrapper` is the side that writes: `left` says
how many elements may come, `shift` and `finish` take them in.

One slot has to stay free, or a full ring looks like an empty one.  `left` keeps it free
where the reader is ahead of the writer; where it is not, a write may go to the end of the
array, and the writer from there to the start.  `in_buf_grows_iff`: the elements are lost
exactly if the reader is there.
-/
import Mathlib.Tactic.Common

namespace UdpStuff.Buffer

set_option autoImplicit false

/-- The indices of `DoubleBlockProcBuf`, whose array has two blocks. -/
structure DoubleBlockProcBuf (blockSize : Nat) where
  b : Int
  procE : Int
  e : Int
deriving DecidableEq

namespace DoubleBlockProcBuf

variable {blockSize : Nat}

/-- `constexpr static int size` -/
def size (_ : DoubleBlockProcBuf blockSize) : Int := blockSize * 2

def clear : DoubleBlockProcBuf blockSize := ⟨0, 0, 0⟩

variable (q : DoubleBlockProcBuf blockSize)

/-- The reader and the writer are inside the array. -/
structure Inside : Prop where
  readerNonneg : 0 ≤ q.b
  reader : q.b < q.size
  writerNonneg : 0 ≤ q.e
  writer : q.e < q.size

/-- The number of elements from the reader to the writer. -/
def stored : Int := (q.e - q.b) % q.size

theorem stored_eq {q : DoubleBlockProcBuf blockSize} (inside : q.Inside) :
    q.stored = if q.b ≤ q.e then q.e - q.b else q.e - q.b + q.size := by
  obtain ⟨readerNonneg, reader, writerNonneg, writer⟩ := inside
  unfold stored
  split
  case isTrue ahead => exact Int.emod_eq_of_lt (by omega) (by omega)
  case isFalse behind =>
    rw [← Int.add_emod_right (q.e - q.b) q.size]
    exact Int.emod_eq_of_lt (by omega) (by omega)

end DoubleBlockProcBuf

namespace InBufWrapper

variable {blockSize : Nat} (q : DoubleBlockProcBuf blockSize)

/-- The index that is written next. -/
def start : Int := q.e

def left : Int := if q.b ≤ q.e then q.size - q.e else q.b - q.e - 1

def finish : DoubleBlockProcBuf blockSize :=
  if q.b ≤ q.e then { q with e := 0 } else { q with e := q.b - 1 }

def shift (s : Int) : DoubleBlockProcBuf blockSize :=
  let q := { q with e := q.e + s }
  if q.e ≥ q.size then { q with e := 0 } else q

/-- The indices stay inside, `s` more elements are stored, and a ring with elements does not
look empty. -/
structure Grows (q' : DoubleBlockProcBuf blockSize) (s : Int) : Prop where
  inside : q'.Inside
  stored : q'.stored = q.stored + s
  nonempty : q.stored ≠ 0 → q'.stored ≠ 0

variable {q}

/-- The ring grows if it stores more. -/
theorem grows_iff {q' : DoubleBlockProcBuf blockSize} {s : Int} (before : q.Inside)
    (after : q'.Inside) (nonneg : 0 ≤ s) : Grows q q' s ↔ q'.stored = q.stored + s := by
  refine ⟨fun grows => grows.stored, fun more => ⟨after, more, fun some => ?_⟩⟩
  have count : 0 ≤ q.stored := by
    obtain ⟨readerNonneg, reader, writerNonneg, writer⟩ := before
    exact Int.emod_nonneg _ (by omega)
  omega

theorem inside_shift (inside : q.Inside) {s : Int} (nonneg : 0 ≤ s) : (shift q s).Inside := by
  obtain ⟨readerNonneg, reader, writerNonneg, writer⟩ := inside
  unfold shift
  dsimp only
  split
  case isTrue wraps =>
    exact ⟨readerNonneg, reader, Int.le_refl 0, Int.lt_of_le_of_lt writerNonneg writer⟩
  case isFalse fits =>
    refine ⟨readerNonneg, reader, ?_, Int.not_le.mp fits⟩
    show 0 ≤ q.e + s
    omega

/-- `finish` is the `shift` of all that is left. -/
theorem finish_eq (inside : q.Inside) : finish q = shift q (left q) := by
  obtain ⟨readerNonneg, reader, writerNonneg, writer⟩ := inside
  unfold finish shift left
  dsimp only
  split
  case isTrue ahead =>
    have whole : q.e + (q.size - q.e) = q.size := by omega
    rw [whole]
    exact (if_pos (Int.le_refl q.size)).symm
  case isFalse behind =>
    have whole : q.e + (q.b - q.e - 1) = q.b - 1 := by omega
    have fits : ¬ q.size ≤ q.b - 1 := by omega
    rw [whole]
    exact (if_neg fits).symm

/-- What a write of `s` elements comes to. -/
theorem stored_shift (inside : q.Inside) {s : Int} (nonneg : 0 ≤ s) (fits : s ≤ left q) :
    (shift q s).stored =
      if q.b = 0 ∧ q.e + s = q.size then 0 else q.stored + s := by
  have after := inside_shift inside nonneg
  rw [DoubleBlockProcBuf.stored_eq after, DoubleBlockProcBuf.stored_eq inside]
  obtain ⟨readerNonneg, reader, writerNonneg, writer⟩ := inside
  have same : (shift q s).b = q.b := by
    unfold shift
    dsimp only
    split <;> rfl
  have size : (shift q s).size = q.size := rfl
  have moved : (shift q s).e = if q.e + s ≥ q.size then 0 else q.e + s := by
    show (if q.e + s ≥ q.size then _ else _ : DoubleBlockProcBuf blockSize).e = _
    split <;> rfl
  unfold left at fits
  rw [same, size, moved]
  split at fits
  case isTrue ahead =>
    by_cases wraps : q.e + s ≥ q.size
    · -- the end of the array is reached, and the reader is at its start or further on
      rw [if_pos wraps, if_pos ahead]
      split <;> split <;> omega
    · have short : ¬ (q.b = 0 ∧ q.e + s = q.size) := by omega
      have further : q.b ≤ q.e + s := by omega
      rw [if_neg wraps, if_pos ahead, if_neg short, if_pos further]
      omega
  case isFalse behind =>
    have short : ¬ q.e + s ≥ q.size := by omega
    have later : ¬ (q.b = 0 ∧ q.e + s = q.size) := by omega
    have still : ¬ q.b ≤ q.e + s := by omega
    rw [if_neg short, if_neg behind, if_neg later, if_neg still]
    omega

theorem shift_grows_iff (inside : q.Inside) {s : Int} (nonneg : 0 ≤ s) (fits : s ≤ left q) :
    Grows q (shift q s) s ↔ ¬ (q.b = 0 ∧ q.e + s = q.size) := by
  rw [grows_iff inside (inside_shift inside nonneg) nonneg, stored_shift inside nonneg fits]
  split
  case isTrue lost =>
    have count : 0 ≤ q.stored := Int.emod_nonneg _ (by have := inside.reader; omega)
    have writer := inside.writer
    refine ⟨fun none => ?_, fun free => absurd lost free⟩
    omega
  case isFalse free => exact iff_of_true rfl free

/-- **A write is taken in exactly if it does not meet the reader at the start of the array.** -/
theorem in_buf_grows_iff (q : DoubleBlockProcBuf blockSize) (inside : q.Inside) (s : Int)
    (nonneg : 0 ≤ s) (fits : s ≤ left q) :
    (Grows q (shift q s) s ↔ ¬ (q.b = 0 ∧ q.e + s = q.size)) ∧
      (Grows q (finish q) (left q) ↔ q.b ≠ 0) := by
  refine ⟨shift_grows_iff inside nonneg fits, ?_⟩
  have all : 0 ≤ left q := Int.le_trans nonneg fits
  rw [finish_eq inside, shift_grows_iff inside all (Int.le_refl _), not_and']
  unfold left
  constructor
  · intro free first
    have ahead : q.b ≤ q.e := first ▸ inside.writerNonneg
    rw [if_pos ahead] at free
    exact free (by omega) first
  · intro behind whole
    exact behind

/-- The reader at the second of four slots, the writer goes on to the first. -/
theorem in_buf_grows_wraps : Grows (⟨1, 1, 2⟩ : DoubleBlockProcBuf 2) (shift ⟨1, 1, 2⟩ 2) 2 ∧
    Grows (⟨1, 1, 2⟩ : DoubleBlockProcBuf 2) (finish ⟨1, 1, 2⟩) 2 := by
  have inside : (⟨1, 1, 2⟩ : DoubleBlockProcBuf 2).Inside := by
    constructor <;> decide
  have grows := in_buf_grows_iff _ inside 2 (by decide) (by decide)
  exact ⟨grows.1.mpr (by decide), grows.2.mpr (by decide)⟩

/-- **Refuted**: four elements in a cleared ring of four slots, and it is empty. -/
theorem in_buf_grows_refuted :
    ¬ ∀ (blockSize : Nat) (q : DoubleBlockProcBuf blockSize), q.Inside → ∀ s, 0 ≤ s → s ≤ left q →
      Grows q (shift q s) s ∧ Grows q (finish q) (left q) := by
  intro always
  have inside : (.clear : DoubleBlockProcBuf 2).Inside := by
    constructor <;> decide
  have grows := (always 2 .clear inside 4 (by decide) (by decide)).1
  exact absurd grows.stored (by decide)

end InBufWrapper

end UdpStuff.Buffer
