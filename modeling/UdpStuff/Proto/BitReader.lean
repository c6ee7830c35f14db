/-
# Proto.BitReader — bit fields read out of elements

`BitBufferReader` of `bit_reader.h` keeps what is left of the current element.  A
field inside it is masked out, with a mask of one bit more than the field has; a
field that crosses its end is put together with the pieces of later elements below
the earlier ones.  A shift by the width of its operand or more is undefined.

On a buffer that holds the bits of one number, a reader at any position stands
exactly where it should (`ReadsAt`), and `readBits_eq` says what it returns there:
the pieces of the field joined high first, and the bit after the field.
-/
import UdpStuff.Proto.BitWriter

namespace UdpStuff.Proto

set_option autoImplicit false

open UdpStuff.Theory

inductive ReadError where
  | bitStreamFinished
  | undefinedShift
deriving DecidableEq

/-- A reader; `buf` is the memory of the elements. -/
structure BitBufferReader where
  buf : Nat → Nat
  itemsRead : Nat := 0
  bitSize : Nat := 0
  curItem : Nat := 0
  curItemBits : Nat := 0

/-- The width an element has after integer promotion. -/
def ElemType.promoted (Tn : ElemType) : Nat := max 32 Tn.bits

namespace BitBufferReader

variable (Tn : ElemType)

/-- The two-argument constructor. -/
def make (buf : Nat → Nat) (bitSize : Nat) : BitBufferReader :=
  if 0 < bitSize then
    { buf, bitSize, itemsRead := 1, curItem := buf 0
      curItemBits := if bitSize > Tn.bits then Tn.bits else bitSize }
  else { buf, bitSize }

def readItem (r : BitBufferReader) : Except ReadError BitBufferReader :=
  let bitsRead := r.itemsRead * Tn.bits
  if r.bitSize ≤ bitsRead then .error .bitStreamFinished
  else .ok { r with
    curItem := r.buf r.itemsRead
    itemsRead := r.itemsRead + 1
    curItemBits := if bitsRead + Tn.bits ≤ r.bitSize then Tn.bits else r.bitSize - bitsRead }

/-- The low bits of the current item, under the mask `(Tn(1) << (n+1)) - 1`.  That
shift is the first of those by `n` that leaves its operand. -/
def takeLow (n : Nat) (r : BitBufferReader) : Except ReadError (Nat × BitBufferReader) :=
  if n + 1 < Tn.promoted then
    .ok (r.curItem &&& (2 ^ (n + 1) - 1),
      { r with curItem := r.curItem >>> n, curItemBits := r.curItemBits - n })
  else .error .undefinedShift

theorem readItem_ok {r next : BitBufferReader} (read : r.readItem Tn = .ok next) :
    r.itemsRead * Tn.bits < r.bitSize ∧ next.bitSize = r.bitSize ∧
      next.itemsRead = r.itemsRead + 1 := by
  rw [readItem] at read
  split at read
  · cases read
  · cases read
    exact ⟨by omega, rfl, rfl⟩

/-- The loop over the later pieces of a field, and its last piece; `acc` is the
`uint64_t` read so far. -/
def readPieces (acc n : Nat) (r : BitBufferReader) : Except ReadError (Nat × BitBufferReader) :=
  if r.curItemBits < n then
    if 64 ≤ r.curItemBits then .error .undefinedShift
    else
      match item : r.readItem Tn with
      | .error e => .error e
      | .ok next =>
        readPieces ((acc <<< r.curItemBits) % 2 ^ 64 ||| r.curItem) (n - r.curItemBits) next
  else
    match r.takeLow Tn n with
    | .error e => .error e
    | .ok (low, next) => .ok ((acc <<< n) % 2 ^ 64 ||| low, next)
termination_by r.bitSize - r.itemsRead * Tn.bits
decreasing_by
  obtain ⟨more, size, items⟩ := readItem_ok Tn item
  have := Tn.bits_pos
  rw [size, items, Nat.succ_mul]
  omega

/-- `read_bits` for a `uint64_t`. -/
def readBits (n : Nat) (r : BitBufferReader) : Except ReadError (Nat × BitBufferReader) :=
  if n ≤ r.curItemBits then r.takeLow Tn n
  else
    match r.readItem Tn with
    | .error e => .error e
    | .ok next => readPieces Tn r.curItem (n - r.curItemBits) next

def readUint (bitLength : Nat) (r : BitBufferReader) : Except ReadError (Nat × BitBufferReader) :=
  r.readBits Tn bitLength

/-! ## Reading the bits of one number -/

/-- The reader stands at bit `s` of the `P` bits of `S`. -/
structure ReadsAt (S P s : Nat) (r : BitBufferReader) : Prop where
  small : S < 2 ^ P
  buf : ∀ i, r.buf i = S / 2 ^ (Tn.bits * i) % 2 ^ Tn.bits
  bitSize : r.bitSize = P
  loaded : s + r.curItemBits = min P (Tn.bits * r.itemsRead)
  near : Tn.bits * r.itemsRead ≤ s + Tn.bits
  item : r.curItem = S / 2 ^ s % 2 ^ r.curItemBits

variable {Tn}

/-- Past its end a number has no bits. -/
theorem div_mod_beyond {S P : Nat} (small : S < 2 ^ P) {s k m : Nat} (inside : s + m = P)
    (more : m ≤ k) : S / 2 ^ s % 2 ^ k = S / 2 ^ s % 2 ^ m := by
  have bound : S / 2 ^ s < 2 ^ m := by
    rw [Nat.div_lt_iff_lt_mul (Nat.two_pow_pos _), ← pow_add, Nat.add_comm, inside]
    exact small
  rw [Nat.mod_eq_of_lt bound,
    Nat.mod_eq_of_lt (Nat.lt_of_lt_of_le bound (Nat.pow_le_pow_right (by decide) more))]

theorem readsAt_make {S P : Nat} (small : S < 2 ^ P) {buf : Nat → Nat}
    (elements : ∀ i, buf i = S / 2 ^ (Tn.bits * i) % 2 ^ Tn.bits) :
    ReadsAt Tn S P 0 (make Tn buf P) := by
  have base := Tn.bits_pos
  rw [make]
  by_cases some : 0 < P
  · rw [if_pos some]
    refine ⟨small, elements, rfl, ?_, ?_, ?_⟩
    · dsimp only
      split <;> omega
    · dsimp only
      omega
    · dsimp only
      have first := elements 0
      rw [Nat.mul_zero] at first
      rw [first]
      split
      case isTrue => rfl
      case isFalse short => exact div_mod_beyond small (Nat.zero_add P) (by omega)
  · rw [if_neg some]
    exact ⟨small, elements, rfl, by dsimp only; omega, by dsimp only; omega, by simp [Nat.mod_one]⟩

/-- The next element is loaded where the current one ends. -/
theorem ReadsAt.readItem {S P s : Nat} {r : BitBufferReader} (reads : ReadsAt Tn S P s r)
    (more : s + r.curItemBits < P) :
    ∃ next, r.readItem Tn = .ok next ∧ ReadsAt Tn S P (s + r.curItemBits) next ∧
      next.curItemBits = min Tn.bits (P - (s + r.curItemBits)) ∧
      s + r.curItemBits = Tn.bits * r.itemsRead := by
  have loaded := reads.loaded
  have size := reads.bitSize
  have comm := Nat.mul_comm r.itemsRead Tn.bits
  have boundary : s + r.curItemBits = Tn.bits * r.itemsRead := by omega
  have bits : (if r.itemsRead * Tn.bits + Tn.bits ≤ r.bitSize then Tn.bits
      else r.bitSize - r.itemsRead * Tn.bits) = min Tn.bits (P - (s + r.curItemBits)) := by
    split <;> omega
  rw [BitBufferReader.readItem]
  rw [if_neg (by omega), bits]
  refine ⟨_, rfl, ⟨reads.small, reads.buf, size, ?_, ?_, ?_⟩, rfl, boundary⟩
  · dsimp only
    rw [Nat.mul_succ]
    omega
  · dsimp only
    rw [Nat.mul_succ]
    omega
  · dsimp only
    rw [reads.buf, ← boundary]
    rcases Nat.le_total Tn.bits (P - (s + r.curItemBits)) with full | short
    · rw [Nat.min_eq_left full]
    · rw [Nat.min_eq_right short]
      exact div_mod_beyond reads.small (by omega) short

/-- The bit after a field, where the element goes on after it. -/
def strayBit (Tn : ElemType) (S s : Nat) : Nat := if s % Tn.bits = 0 then 0 else S / 2 ^ s % 2

theorem ReadsAt.takeLow {S P s n : Nat} {r : BitBufferReader} (reads : ReadsAt Tn S P s r)
    (pos : 0 < n) (inside : n ≤ r.curItemBits) :
    if n + 1 < Tn.promoted then
      ∃ next, r.takeLow Tn n =
          .ok (S / 2 ^ s % 2 ^ n ||| strayBit Tn S (s + n) <<< n, next) ∧
        ReadsAt Tn S P (s + n) next
    else r.takeLow Tn n = .error .undefinedShift := by
  rw [BitBufferReader.takeLow]
  by_cases defined : n + 1 < Tn.promoted
  · have loaded := reads.loaded
    have near := reads.near
    have value : r.curItem &&& (2 ^ (n + 1) - 1) =
        S / 2 ^ s % 2 ^ n ||| strayBit Tn S (s + n) <<< n := by
      rw [or_shiftLeft (Nat.mod_lt _ (Nat.two_pow_pos _)), Nat.and_two_pow_sub_one_eq_mod,
        reads.item]
      rcases Nat.lt_or_eq_of_le inside with before | whole
      · have off : (s + n) % Tn.bits ≠ 0 := by
          intro aligned
          obtain ⟨k, multiple⟩ := Nat.dvd_of_mod_eq_zero aligned
          have below : k < r.itemsRead := by
            apply Nat.lt_of_mul_lt_mul_left (a := Tn.bits)
            omega
          have next := Nat.mul_le_mul_left Tn.bits below
          rw [Nat.mul_succ] at next
          omega
        rw [strayBit, if_neg off, Nat.mod_mod_of_dvd _ (Nat.pow_dvd_pow 2 before), Nat.mod_pow_succ,
          Nat.div_div_eq_div_mul, ← pow_add]
      · have none : strayBit Tn S (s + n) = 0 := by
          rw [strayBit]
          by_cases aligned : (s + n) % Tn.bits = 0
          · rw [if_pos aligned]
          · have final : s + n = P := by
              by_contra other
              apply aligned
              rw [show s + n = Tn.bits * r.itemsRead by omega, Nat.mul_mod_right]
            rw [if_neg aligned, final, Nat.div_eq_of_lt reads.small]
        rw [none, Nat.mul_zero, Nat.add_zero, whole]
        exact Nat.mod_eq_of_lt (Nat.lt_of_lt_of_le (Nat.mod_lt _ (Nat.two_pow_pos _))
          (Nat.pow_le_pow_right (by decide) (Nat.le_succ _)))
    rw [if_pos defined, if_pos defined, value]
    refine ⟨_, rfl, reads.small, reads.buf, reads.bitSize, ?_, ?_, ?_⟩
    · dsimp only
      omega
    · dsimp only
      omega
    · dsimp only
      have split : r.curItemBits = n + (r.curItemBits - n) := by omega
      rw [Nat.shiftRight_eq_div_pow, reads.item]
      conv => lhs; rw [split, pow_add, Nat.mod_mul_right_div_self, Nat.div_div_eq_div_mul, ← pow_add]
  · rw [if_neg defined, if_neg defined]

theorem ElemType.bits_le {Tn : ElemType} (narrow : Tn ≠ .uint64) : Tn.bits ≤ 32 := by
  cases Tn with
  | uint64 => exact absurd rfl narrow
  | _ => decide

theorem readPieces_long {acc n : Nat} {r next : BitBufferReader} (long : r.curItemBits < n)
    (bits : r.curItemBits < 64) (item : r.readItem Tn = .ok next) :
    r.readPieces Tn acc n =
      next.readPieces Tn ((acc <<< r.curItemBits) % 2 ^ 64 ||| r.curItem) (n - r.curItemBits) := by
  rw [BitBufferReader.readPieces, if_pos long, if_neg (Nat.not_le.mpr bits)]
  split
  case h_1 failed => rw [item] at failed; cases failed
  case h_2 other => rw [item] at other; cases other; rfl

/-- One more piece below what was read so far. -/
theorem acc_push {acc k w : Nat} (small : acc < 2 ^ k) (room : k + w ≤ 64) {p : Nat}
    (piece : p < 2 ^ w) : (acc <<< w) % 2 ^ 64 ||| p = acc * 2 ^ w + p := by
  have shifted : acc * 2 ^ w < 2 ^ 64 := by
    apply Nat.lt_of_lt_of_le (Nat.mul_lt_mul_of_pos_right small (Nat.two_pow_pos w))
    rw [← pow_add]
    exact Nat.pow_le_pow_right (by decide) room
  have value : acc <<< w = acc * 2 ^ w := Nat.shiftLeft_eq acc w
  rw [value, Nat.mod_eq_of_lt shifted, ← value, Nat.or_comm, or_shiftLeft piece, value,
    Nat.add_comm, Nat.mul_comm]

/-- The loop joins the pieces high first, and lets the bit after the field in. -/
theorem ReadsAt.readPieces {S P s n acc k : Nat} {r : BitBufferReader}
    (narrow : Tn ≠ .uint64) (reads : ReadsAt Tn S P s r)
    (fresh : r.curItemBits = min Tn.bits (P - s)) (pos : 0 < n) (inside : s + n ≤ P)
    (small : acc < 2 ^ k) (room : k + n ≤ 64) :
    if (n - 1) % Tn.bits + 1 + 1 < Tn.promoted then
      ∃ next, r.readPieces Tn acc n =
          .ok (joinHighFirst acc (cutBits (alignedWidths Tn.bits n) (S / 2 ^ s)) |||
            strayBit Tn S (s + n) <<< ((n - 1) % Tn.bits + 1), next) ∧
        ReadsAt Tn S P (s + n) next
    else r.readPieces Tn acc n = .error .undefinedShift := by
  have base := Tn.bits_pos
  have width := ElemType.bits_le narrow
  induction n using Nat.strongRecOn generalizing s acc k r with
  | ind n ih =>
      by_cases long : r.curItemBits < n
      · -- the element is used up whole, and the field goes on
        have full : r.curItemBits = Tn.bits := by omega
        obtain ⟨next, item, reads', fresh', -⟩ := reads.readItem (by omega)
        have piece : S / 2 ^ s % 2 ^ Tn.bits < 2 ^ Tn.bits := Nat.mod_lt _ (Nat.two_pow_pos _)
        have acc' : (acc <<< r.curItemBits) % 2 ^ 64 ||| r.curItem =
            acc * 2 ^ Tn.bits + S / 2 ^ s % 2 ^ Tn.bits := by
          rw [reads.item, full]
          exact acc_push small (by omega) piece
        have small' : acc * 2 ^ Tn.bits + S / 2 ^ s % 2 ^ Tn.bits < 2 ^ (k + Tn.bits) := by
          have bound := joinHighFirst_lt [Tn.bits] small (S / 2 ^ s)
          rwa [List.sum_singleton] at bound
        rw [full] at reads' fresh'
        have later := ih (n - Tn.bits) (by omega) reads' fresh' (by omega) (by omega) small'
          (by omega)
        have last : (n - Tn.bits - 1) % Tn.bits = (n - 1) % Tn.bits := by
          have split : n - 1 = (n - Tn.bits - 1) + Tn.bits := by omega
          rw [split, Nat.add_mod_right]
        have pieces : alignedWidths Tn.bits n = Tn.bits :: alignedWidths Tn.bits (n - Tn.bits) :=
          alignedWidths_long base (by omega)
        have position : s + Tn.bits + (n - Tn.bits) = s + n := by omega
        rw [readPieces_long long (by omega) item, acc', full, pieces, cutBits, joinHighFirst]
        rw [last, position] at later
        rw [Nat.div_div_eq_div_mul, ← pow_add]
        exact later
      · have short : n ≤ Tn.bits := by omega
        have last : (n - 1) % Tn.bits + 1 = n := by
          rw [Nat.mod_eq_of_lt (by omega)]
          omega
        have low := reads.takeLow pos (Nat.le_of_not_lt long)
        rw [BitBufferReader.readPieces, if_neg long, last, alignedWidths_short pos short]
        by_cases defined : n + 1 < Tn.promoted
        · rw [if_pos defined] at low
          obtain ⟨next, taken, reads'⟩ := low
          rw [if_pos defined]
          refine ⟨next, ?_, reads'⟩
          rw [taken]
          dsimp only
          rw [← Nat.or_assoc, acc_push small room (Nat.mod_lt _ (Nat.two_pow_pos _))]
          rfl
        · rw [if_neg defined] at low
          rw [if_neg defined, low]

/-- The pending bits of an element end at its boundary at the latest. -/
theorem to_boundary {base s pending items : Nat} (positive : 0 < base)
    (loaded : s + pending ≤ base * items) (near : base * items ≤ s + base) :
    pending ≤ base - s % base := by
  have offset := Nat.mod_lt s positive
  have split := Nat.div_add_mod s base
  have whole : items < s / base + 2 := by
    apply Nat.lt_of_mul_lt_mul_left (a := base)
    rw [Nat.mul_add]
    omega
  have bound := Nat.mul_le_mul_left base (Nat.le_of_lt_succ whole)
  rw [Nat.mul_succ] at bound
  omega

/-- Fewer pending bits than up to the next boundary: there are none, and `s` is one. -/
theorem at_boundary {base s pending items : Nat} (boundary : s + pending = base * items)
    (part : pending < base - s % base) : pending = 0 ∧ s % base = 0 := by
  have split := Nat.div_add_mod s base
  have whole : items < s / base + 1 := by
    apply Nat.lt_of_mul_lt_mul_left (a := base)
    rw [Nat.mul_succ]
    omega
  have bound := Nat.mul_le_mul_left base (Nat.le_of_lt_succ whole)
  exact ⟨by omega, by omega⟩

/-- **What a read returns**: the pieces of the field joined high first, with the bit
after the field let in at the width of the last piece. -/
theorem ReadsAt.readUint {S P s n : Nat} {r : BitBufferReader} (narrow : Tn ≠ .uint64)
    (reads : ReadsAt Tn S P s r) (pos : 0 < n) (fits : n ≤ 64) (inside : s + n ≤ P) :
    if lastWidth Tn.bits (Tn.bits - s % Tn.bits) n + 1 < Tn.promoted then
      ∃ next, r.readUint Tn n =
          .ok (joinHighFirst 0
              (cutBits (pieceWidths Tn.bits (Tn.bits - s % Tn.bits) n) (S / 2 ^ s)) |||
            strayBit Tn S (s + n) <<< lastWidth Tn.bits (Tn.bits - s % Tn.bits) n, next) ∧
        ReadsAt Tn S P (s + n) next
    else r.readUint Tn n = .error .undefinedShift := by
  have base := Tn.bits_pos
  have width := ElemType.bits_le narrow
  have loaded := reads.loaded
  have near := reads.near
  have room := to_boundary base (by omega : s + r.curItemBits ≤ Tn.bits * r.itemsRead) near
  rw [BitBufferReader.readUint, readBits]
  by_cases one : n ≤ r.curItemBits
  · have low := reads.takeLow pos one
    have whole : pieceWidths Tn.bits (Tn.bits - s % Tn.bits) n = [n] := by
      rw [pieceWidths, if_pos (Nat.le_trans one room)]
    have last : lastWidth Tn.bits (Tn.bits - s % Tn.bits) n = n := by
      rw [lastWidth, if_pos (Nat.le_trans one room)]
    rw [if_pos one, whole, last, cutBits, joinHighFirst, cutBits, joinHighFirst, Nat.zero_mul,
      Nat.zero_add]
    exact low
  · obtain ⟨next, item, reads', fresh, boundary⟩ := reads.readItem (by omega)
    have small : r.curItem < 2 ^ r.curItemBits := by
      rw [reads.item]
      exact Nat.mod_lt _ (Nat.two_pow_pos _)
    have later := reads'.readPieces narrow fresh (by omega : 0 < n - r.curItemBits) (by omega)
      small (by omega)
    have position : s + r.curItemBits + (n - r.curItemBits) = s + n := by omega
    rw [position] at later
    rw [if_neg one, item]
    dsimp only
    rcases Nat.eq_or_lt_of_le room with whole | part
    · -- the rest of the element is the first piece
      have beyond : ¬ n ≤ Tn.bits - s % Tn.bits := by omega
      have value : r.curItem = 0 * 2 ^ r.curItemBits + S / 2 ^ s % 2 ^ r.curItemBits := by
        rw [reads.item, Nat.zero_mul, Nat.zero_add]
      rw [pieceWidths, lastWidth, if_neg beyond, if_neg beyond, cutBits, joinHighFirst, ← whole,
        Nat.div_div_eq_div_mul, ← pow_add, ← value]
      exact later
    · -- the element before the boundary is used up
      obtain ⟨none, aligned⟩ := at_boundary boundary part
      have zero : r.curItem = 0 := by
        rw [none] at small
        omega
      rw [aligned, Nat.sub_zero, pieceWidths_aligned base pos, lastWidth_aligned pos]
      rw [none, zero, Nat.add_zero, Nat.sub_zero] at later
      rw [none, zero, Nat.sub_zero]
      exact later

end BitBufferReader

end UdpStuff.Proto
