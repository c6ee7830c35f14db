/-
# PacketBuffer.Resize — a ring moved to another array

The constructor that `resize` uses moves the packets to the front of a new array, in
one loop if they are in one piece and in two if they wrap around.  The second of the two
goes up to the first position in use, and not only to the end of the ring: it writes as
many cells as the old array had.

`resize_iff`: the ring is kept exactly if it is in one piece, or the new array is not
smaller than the old one.
-/
import UdpStuff.PacketBuffer.Buffer

namespace UdpStuff.PacketBuffer

open Theory

set_option autoImplicit false

variable {α : Type} {w : Nat}

/-! ## Moving -/

/-- `packets[dst] = std::move(old_packets[src])` -/
def moveOne {m n : Nat} (old : Vector α m) (src : BitVec 32) (packets : Vector α n)
    (dst : BitVec 32) : Except OutOfRange (Vector α n) :=
  match old[src.toNat]? with
  | none => .error (.read src)
  | some x =>
    if inside : dst.toNat < n then .ok (packets.set dst.toNat x inside) else .error (.write dst)

/-- `for (i = 0; i < count; i++) packets[dst + i] = std::move(old_packets[src + i])` -/
def moveLoop {m n : Nat} (old : Vector α m) (src : BitVec 32) (packets : Vector α n)
    (dst : BitVec 32) (count : Nat) : Except OutOfRange (Vector α n) :=
  (List.range count).foldlM
    (fun packets i => moveOne old (src + BitVec.ofNat 32 i) packets (dst + BitVec.ofNat 32 i))
    packets

/-- The loops of the constructor. -/
def movePackets (fresh : α) (old : PacketBuffer α w) (newSize : BitVec 32) :
    Except OutOfRange (Vector α newSize.toNat) :=
  let packets := Vector.replicate newSize.toNat fresh
  if old.start ≤ old.endPos then moveLoop old.packets old.start packets 0 old.length.toNat
  else
    let startSize := old.size - old.start
    moveLoop old.packets old.start packets 0 startSize.toNat >>= fun packets =>
      moveLoop old.packets 0 packets startSize old.start.toNat

/-- `PacketBuffer(std::move(old), new_size)`: the new buffer, and what is left of the old
one. -/
def makeMoved (fresh : α) (old : PacketBuffer α w) (newSize : BitVec 32) :
    Except OutOfRange (PacketBuffer α w × PacketBuffer α w) := do
  let packets ← movePackets fresh old newSize
  return (⟨newSize, packets, 0, old.length, old.seqStart⟩, old.clear)

/-- `operator=`: both buffers are swapped, and `m` cleared. -/
def assign (b m : PacketBuffer α w) : PacketBuffer α w × PacketBuffer α w := (m, b.clear)

def resize (fresh : α) (b : PacketBuffer α w) (newSize : BitVec 32) :
    Except OutOfRange (PacketBuffer α w) := do
  let (moved, b) ← makeMoved fresh b newSize
  return (b.assign moved).1

/-! ## The loop -/

section Loop

variable {m n : Nat} {old : Vector α m} {packets : Vector α n}

theorem moveOne_ok {src dst : BitVec 32} (read : src.toNat < m) (write : dst.toNat < n) :
    moveOne old src packets dst = .ok (packets.set dst.toNat old[src.toNat] write) := by
  unfold moveOne
  rw [Vector.getElem?_eq_getElem read]
  exact dif_pos write

theorem moveOne_write {src dst : BitVec 32} (read : src.toNat < m) (write : n ≤ dst.toNat) :
    moveOne old src packets dst = .error (.write dst) := by
  unfold moveOne
  rw [Vector.getElem?_eq_getElem read]
  exact dif_neg (Nat.not_lt.mpr write)

/-- An index of the loop. -/
theorem toNat_index {base : BitVec 32} {i : Nat} (fits : base.toNat + i < 2 ^ 32) :
    (base + BitVec.ofNat 32 i).toNat = base.toNat + i := by
  rw [BitVec.toNat_add, BitVec.toNat_ofNat]
  omega

theorem moveLoop_succ (old : Vector α m) (src : BitVec 32) (packets : Vector α n) (dst : BitVec 32)
    (k : Nat) :
    moveLoop old src packets dst (k + 1) = moveLoop old src packets dst k >>= fun packets =>
      moveOne old (src + BitVec.ofNat 32 k) packets (dst + BitVec.ofNat 32 k) := by
  rw [moveLoop, List.range_succ, List.foldlM_append]
  simp only [List.foldlM_cons, List.foldlM_nil, bind_pure]
  rfl

variable {src dst : BitVec 32} {count : Nat}

/-- The cells that are written hold what was read, the others what they held. -/
theorem moveLoop_ok (reads : src.toNat + count ≤ m) (writes : dst.toNat + count ≤ n)
    (small : m < 2 ^ 32) (small' : n < 2 ^ 32) :
    ∃ moved, moveLoop old src packets dst count = .ok moved ∧
      ∀ j, moved[j]? =
        if dst.toNat ≤ j ∧ j < dst.toNat + count then old[src.toNat + (j - dst.toNat)]?
        else packets[j]? := by
  induction count with
  | zero =>
      refine ⟨packets, rfl, fun j => ?_⟩
      rw [if_neg (by omega)]
  | succ k ih =>
      obtain ⟨moved, before, cells⟩ := ih (by omega) (by omega)
      have read := @toNat_index src k (by omega)
      have write := @toNat_index dst k (by omega)
      have inside : (dst + BitVec.ofNat 32 k).toNat < n := by omega
      refine ⟨_, by rw [moveLoop_succ, before]; exact moveOne_ok (by omega) inside, fun j => ?_⟩
      rw [Vector.getElem?_set, write, cells j]
      by_cases last : dst.toNat + k = j
      · have there : src.toNat + (j - dst.toNat) = src.toNat + k := by omega
        rw [if_pos last, if_pos (by omega), there, Vector.getElem?_eq_getElem (by omega)]
        simp only [read]
      · rw [if_neg last]
        by_cases earlier : dst.toNat ≤ j ∧ j < dst.toNat + k
        · rw [if_pos earlier, if_pos (by omega)]
        · rw [if_neg earlier, if_neg (by omega)]

/-- A loop that writes too far ends with the first cell behind the array. -/
theorem moveLoop_write (reads : src.toNat + count ≤ m) (writes : n < dst.toNat + count)
    (begins : dst.toNat ≤ n) (small : m < 2 ^ 32) (small' : n < 2 ^ 32) :
    moveLoop old src packets dst count = .error (.write (BitVec.ofNat 32 n)) := by
  induction count with
  | zero => omega
  | succ k ih =>
      rw [moveLoop_succ]
      by_cases last : dst.toNat + k = n
      · obtain ⟨moved, before, -⟩ :=
          @moveLoop_ok _ _ _ old packets src dst k (by omega) (by omega) small small'
        have read := @toNat_index src k (by omega)
        have write := @toNat_index dst k (by omega)
        have behind : dst + BitVec.ofNat 32 k = BitVec.ofNat 32 n := by
          apply BitVec.eq_of_toNat_eq
          rw [write, last, BitVec.toNat_ofNat, Nat.mod_eq_of_lt small']
        rw [before, ← behind]
        exact moveOne_write (by omega) (by omega)
      · rw [ih (by omega) (by omega)]
        rfl

end Loop

/-! ## The new array -/

variable (fresh : α) {b : PacketBuffer α w} {newSize : BitVec 32}

/-- The ring is kept by `resize`: no access is outside of an array, and the packets stand
in their order at the front of the new one. -/
def ResizeKeeps (b : PacketBuffer α w) (newSize : BitVec 32) : Prop :=
  ∃ resized, b.resize fresh newSize = .ok resized ∧ resized.size = newSize ∧
    resized.start = 0 ∧ resized.endPos = b.length ∧ resized.seqStart = b.seqStart ∧
    ∀ k < b.length.toNat,
      resized.packets[k]? = b.packets[((b.nextPos)^[k] b.start).toNat]?

theorem resize_ok {packets : Vector α newSize.toNat}
    (filled : movePackets fresh b newSize = .ok packets) :
    b.resize fresh newSize = .ok ⟨newSize, packets, 0, b.length, b.seqStart⟩ := by
  rw [resize, makeMoved, filled]
  rfl

theorem resize_error {e : OutOfRange} (failed : movePackets fresh b newSize = .error e) :
    b.resize fresh newSize = .error e := by
  rw [resize, makeMoved, failed]
  rfl

/-- It is enough to look at the cells. -/
theorem resizeKeeps_of_cells (ring : b.InRing) {packets : Vector α newSize.toNat}
    (filled : movePackets fresh b newSize = .ok packets)
    (cells : ∀ k < b.length.toNat, packets[k]? =
      b.packets[if b.start.toNat + k < b.size.toNat then b.start.toNat + k
        else b.start.toNat + k - b.size.toNat]?) :
    ResizeKeeps fresh b newSize := by
  refine ⟨_, resize_ok fresh filled, rfl, rfl, rfl, rfl, fun k inside => ?_⟩
  have turn : k < b.size.toNat := inside.trans (length_lt ring)
  rw [(toNat_iterate_nextPos ring.start_lt k).1,
    ring_position (BitVec.lt_def.mp ring.start_lt) turn]
  exact cells k inside

/-- In one piece. -/
theorem resizeKeeps_linear (ring : b.InRing) (linear : b.start ≤ b.endPos)
    (room : b.length < newSize) : ResizeKeeps fresh b newSize := by
  have start_lt : b.start.toNat < b.size.toNat := ring.start_lt
  have endPos_lt : b.endPos.toNat < b.size.toNat := ring.endPos_lt
  have room : b.length.toNat < newSize.toNat := room
  have length := toNat_length ring
  rw [ringLength, if_pos (BitVec.le_def.mp linear)] at length
  have le : b.start.toNat ≤ b.endPos.toNat := linear
  have zero : (0 : BitVec 32).toNat = 0 := rfl
  obtain ⟨packets, filled, cells⟩ := @moveLoop_ok _ _ _ b.packets
    (Vector.replicate newSize.toNat fresh) b.start 0 b.length.toNat (by omega) (by omega)
    b.size.isLt newSize.isLt
  refine resizeKeeps_of_cells fresh ring ((if_pos linear).trans filled) fun k inside => ?_
  rw [cells k, zero, if_pos (by omega), if_pos (by omega)]
  rfl

/-- In two pieces, the first of which ends with the old array. -/
theorem resizeKeeps_wrapped_iff (ring : b.InRing) (wrapped : ¬ b.start ≤ b.endPos)
    (room : b.length < newSize) : ResizeKeeps fresh b newSize ↔ b.size ≤ newSize := by
  have start_lt : b.start.toNat < b.size.toNat := ring.start_lt
  have room : b.length.toNat < newSize.toNat := room
  have length := toNat_length ring
  have gt : ¬ b.start.toNat ≤ b.endPos.toNat := wrapped
  rw [ringLength, if_neg gt] at length
  have zero : (0 : BitVec 32).toNat = 0 := rfl
  have startSize : (b.size - b.start).toNat = b.size.toNat - b.start.toNat := by
    have := b.size.isLt
    rw [BitVec.toNat_sub]
    omega
  obtain ⟨packets, first, cells⟩ := @moveLoop_ok _ _ _ b.packets
    (Vector.replicate newSize.toNat fresh) b.start 0 (b.size - b.start).toNat (by omega) (by omega)
    b.size.isLt newSize.isLt
  have both : movePackets fresh b newSize =
      moveLoop b.packets 0 packets (b.size - b.start) b.start.toNat := by
    rw [movePackets, if_neg wrapped]
    dsimp only
    rw [first]
    rfl
  constructor
  · rintro ⟨resized, done, -⟩
    by_contra small
    have small : ¬ b.size.toNat ≤ newSize.toNat := small
    have failed := @moveLoop_write _ _ _ b.packets packets 0 (b.size - b.start) b.start.toNat
      (by omega) (by omega) (by omega) b.size.isLt newSize.isLt
    rw [resize_error fresh (both.trans failed)] at done
    cases done
  · intro large
    have large : b.size.toNat ≤ newSize.toNat := large
    obtain ⟨packets', second, cells'⟩ := @moveLoop_ok _ _ _ b.packets packets 0
      (b.size - b.start) b.start.toNat (by omega) (by omega) b.size.isLt newSize.isLt
    refine resizeKeeps_of_cells fresh ring (both.trans second) fun k inside => ?_
    rw [cells' k, startSize, zero]
    by_cases before : b.start.toNat + k < b.size.toNat
    · rw [if_neg (by omega), cells k, zero, if_pos (by omega), if_pos before]
      rfl
    · have position : 0 + (k - (b.size.toNat - b.start.toNat)) =
          b.start.toNat + k - b.size.toNat := by omega
      rw [if_pos (by omega), if_neg before, position]

/-- **The ring is kept exactly if it is in one piece or the array does not shrink.** -/
theorem resize_iff (b : PacketBuffer α w) (newSize : BitVec 32) (ring : b.InRing)
    (room : b.length < newSize) :
    ResizeKeeps fresh b newSize ↔ b.start ≤ b.endPos ∨ b.size ≤ newSize := by
  by_cases linear : b.start ≤ b.endPos
  · exact iff_of_true (resizeKeeps_linear fresh ring linear room) (.inl linear)
  · rw [resizeKeeps_wrapped_iff fresh ring linear room, or_iff_right linear]

/-- The packets 7 and 8 of four cells, in the last and the first one. -/
def wrappedTwo : PacketBuffer Nat 32 := ⟨4, #v[8, 0, 0, 7], 3, 1, 7⟩

theorem resize_doubled : ResizeKeeps 0 wrappedTwo 8 :=
  (resize_iff 0 wrappedTwo 8 ⟨by decide, by decide⟩ (by decide)).mpr (.inr (by decide))

/-- Three cells are enough for two packets; a fourth one is written. -/
theorem resize_refuted :
    ¬ ∀ (b : PacketBuffer Nat 32) (newSize : BitVec 32), b.InRing → b.length < newSize →
      ResizeKeeps 0 b newSize := by
  intro all
  have kept := all wrappedTwo 3 ⟨by decide, by decide⟩ (by decide)
  have large := (resizeKeeps_wrapped_iff 0 ⟨by decide, by decide⟩ (by decide) (by decide)).mp kept
  exact absurd large (by decide)

end UdpStuff.PacketBuffer
