/-
# PacketBuffer.PacketSequence — a buffer cut into numbered packets

`PacketSequence` of `packet_sequence.h`: a buffer of `data_size` bytes, of which the
packet with the number `seq_start + k` has those from `k * mtu` on, `mtu` of them or what
is left.  Numbers are those of a `w`-bit type and wrap; positions are 64-bit.

* `packetLoc_next`: what `packet_loc` returns, or that it throws, `k` numbers after the first;
* `contents_slice`: the bytes of the `k`-th packet are the `k`-th of the `chunks` of the buffer;
* `packetLoc_tiles`: the packets are consecutive pieces that cover the buffer, and there
  are `packets_count` of them.
-/
import UdpStuff.Theory.Chunks
import UdpStuff.Theory.WrapRange
import Mathlib.Algebra.Order.Floor.Div

namespace UdpStuff

open Theory

set_option autoImplicit false

/-- `data` is the address of the buffer, 0 for `NULL`. -/
structure PacketSequence (w : Nat) where
  seqStart : BitVec w := 0
  dataSize : BitVec 64 := 0
  mtu : BitVec 64 := 0
  data : BitVec 64 := 0

namespace PacketSequence

variable {w : Nat}

inductive Error where
  | badAlloc
  | outOfRange (what : String)
deriving DecidableEq

/-- What `packet_loc` returns: an address and a length. -/
structure Slice where
  data : BitVec 64
  size : BitVec 64
deriving DecidableEq

/-- `PacketSequence(seq_start, data_size, mtu)`, where `block` is what `malloc` returns. -/
def make (seqStart : BitVec w) (dataSize mtu block : BitVec 64) :
    Except Error (PacketSequence w) :=
  if block = 0 then .error .badAlloc else .ok ⟨seqStart, dataSize, mtu, block⟩

def packetStartPos (s : PacketSequence w) (packetSeq : BitVec w) : BitVec 64 :=
  let packetNum := packetSeq - s.seqStart
  packetNum.setWidth 64 * s.mtu

/-- `none` for the division by zero. -/
def packetsCount (s : PacketSequence w) : Option (BitVec 64) :=
  if s.mtu = 0 then none
  else
    let cnt := s.dataSize / s.mtu
    if s.dataSize % s.mtu ≠ 0 then some (cnt + 1) else some cnt

def packetLoc (s : PacketSequence w) (packetSeq : BitVec w) : Except Error Slice :=
  let startPos := s.packetStartPos packetSeq
  if startPos ≥ s.dataSize then .error (.outOfRange "Invalid packet location")
  else
    let size := if s.mtu < s.dataSize - startPos then s.mtu else s.dataSize - startPos
    .ok ⟨s.data + startPos, size⟩

/-- The cleared sequence, and the block that is freed. -/
def clear (s : PacketSequence w) : PacketSequence w × Option (BitVec 64) :=
  (⟨0, 0, 0, 0⟩, if s.data ≠ 0 then some s.data else none)

/-- The positions of a slice in the buffer. -/
def positions (s : PacketSequence w) (r : Slice) : List Nat :=
  List.range' (r.data - s.data).toNat r.size.toNat

/-- The part of the contents of the buffer that a slice shows. -/
def contents {α : Type} (s : PacketSequence w) (bytes : List α) (r : Slice) : List α :=
  (bytes.drop (r.data - s.data).toNat).take r.size.toNat

/-- The `k`-th slice, if there is one. -/
def slice (s : PacketSequence w) (k : Nat) : Slice :=
  let startPos := k * s.mtu.toNat
  ⟨s.data + BitVec.ofNat 64 startPos,
    BitVec.ofNat 64 (min (s.dataSize.toNat - startPos) s.mtu.toNat)⟩

variable {s : PacketSequence w}

/-- The number `k` steps after the first starts at `k * mtu`, however the numbers wrap. -/
theorem toNat_packetStartPos (narrow : w ≤ 32) (wide : s.mtu.toNat * 2 ^ w ≤ 2 ^ 64) {k : Nat}
    (short : k < 2 ^ w) :
    (s.packetStartPos (s.seqStart + BitVec.ofNat w k)).toNat = k * s.mtu.toNat := by
  have number : (s.seqStart + BitVec.ofNat w k - s.seqStart).toNat = k := distance_add _ short
  have word : k < 2 ^ 64 :=
    short.trans_le (Nat.pow_le_pow_right (by decide) (narrow.trans (by decide)))
  have inside : k * s.mtu.toNat < 2 ^ 64 := by
    by_cases zero : s.mtu.toNat = 0
    · rw [zero]
      exact Nat.two_pow_pos 64
    · calc k * s.mtu.toNat < 2 ^ w * s.mtu.toNat :=
            Nat.mul_lt_mul_of_pos_right short (Nat.pos_of_ne_zero zero)
        _ ≤ 2 ^ 64 := by rw [Nat.mul_comm]; exact wide
  rw [packetStartPos, BitVec.toNat_mul, BitVec.toNat_setWidth, number, Nat.mod_eq_of_lt word,
    Nat.mod_eq_of_lt inside]

/-- The count is the quotient rounded up. -/
theorem packetsCount_eq (positive : 1 ≤ s.mtu.toNat) :
    ∃ count, s.packetsCount = some count ∧ count.toNat = s.dataSize.toNat ⌈/⌉ s.mtu.toNat := by
  have nonzero : s.mtu ≠ 0 := by
    rintro zero
    rw [zero] at positive
    exact absurd positive (by decide)
  have quotient := Nat.div_add_mod s.dataSize.toNat s.mtu.toNat
  have rest := Nat.mod_lt s.dataSize.toNat positive
  have size := s.dataSize.isLt
  rw [packetsCount, if_neg nonzero, Nat.ceilDiv_eq_add_pred_div]
  by_cases whole : s.dataSize % s.mtu = 0
  · have even : s.dataSize.toNat % s.mtu.toNat = 0 := by
      rw [← BitVec.toNat_umod, whole]
      rfl
    refine ⟨_, if_neg (not_not.mpr whole), ?_⟩
    rw [BitVec.toNat_udiv]
    exact (Nat.div_eq_of_lt_le (by rw [Nat.mul_comm]; omega)
      (by rw [Nat.succ_mul, Nat.mul_comm]; omega)).symm
  · have uneven : s.dataSize.toNat % s.mtu.toNat ≠ 0 := by
      intro even
      apply whole
      apply BitVec.eq_of_toNat_eq
      rw [BitVec.toNat_umod, even]
      rfl
    have below : s.dataSize.toNat / s.mtu.toNat + 1 < 2 ^ 64 := by
      by_contra large
      have : s.dataSize.toNat / s.mtu.toNat * 1 ≤ s.dataSize.toNat / s.mtu.toNat * s.mtu.toNat :=
        Nat.mul_le_mul_left _ positive
      rw [Nat.mul_comm (s.dataSize.toNat / s.mtu.toNat) s.mtu.toNat] at this
      omega
    refine ⟨_, if_pos whole, ?_⟩
    rw [BitVec.toNat_add, BitVec.toNat_udiv]
    have one : (1 : BitVec 64).toNat = 1 := rfl
    rw [one, Nat.mod_eq_of_lt below]
    exact (Nat.div_eq_of_lt_le (by rw [Nat.succ_mul, Nat.mul_comm]; omega)
      (by rw [Nat.succ_mul, Nat.succ_mul, Nat.mul_comm]; omega)).symm

/-- **`packet_loc`, `k` numbers after the first.** -/
theorem packetLoc_next (narrow : w ≤ 32) (wide : s.mtu.toNat * 2 ^ w ≤ 2 ^ 64) {k : Nat}
    (short : k < 2 ^ w) :
    s.packetLoc (s.seqStart + BitVec.ofNat w k) =
      if s.dataSize.toNat ≤ k * s.mtu.toNat then .error (.outOfRange "Invalid packet location")
      else .ok (s.slice k) := by
  have start := toNat_packetStartPos narrow wide short
  rw [packetLoc]
  dsimp only
  by_cases outside : s.dataSize.toNat ≤ k * s.mtu.toNat
  · rw [if_pos outside, if_pos (BitVec.le_def.mpr (by rw [start]; exact outside))]
  · have before : ¬s.packetStartPos (s.seqStart + BitVec.ofNat w k) ≥ s.dataSize := by
      intro le
      have := BitVec.le_def.mp le
      rw [start] at this
      exact outside this
    have position : s.packetStartPos (s.seqStart + BitVec.ofNat w k) =
        BitVec.ofNat 64 (k * s.mtu.toNat) := by
      rw [← start, BitVec.ofNat_toNat, BitVec.setWidth_eq]
    have left : (s.dataSize - s.packetStartPos (s.seqStart + BitVec.ofNat w k)).toNat =
        s.dataSize.toNat - k * s.mtu.toNat := by
      rw [BitVec.toNat_sub_of_le (BitVec.le_def.mpr (by rw [start]; omega)), start]
    rw [if_neg outside, if_neg before, slice]
    congr 2
    · rw [position]
    · apply BitVec.eq_of_toNat_eq
      rw [BitVec.toNat_ofNat, Nat.mod_eq_of_lt (lt_of_le_of_lt (Nat.min_le_right _ _) s.mtu.isLt)]
      by_cases more : s.mtu < s.dataSize - s.packetStartPos (s.seqStart + BitVec.ofNat w k)
      · have more' := BitVec.lt_def.mp more
        rw [if_pos more, Nat.min_eq_right (by omega)]
      · have last : s.dataSize.toNat - k * s.mtu.toNat ≤ s.mtu.toNat := by
          have := mt BitVec.lt_def.mpr more
          omega
        rw [if_neg more, left, Nat.min_eq_left last]

/-! ## The slices -/

theorem data_slice {k : Nat} (inside : k * s.mtu.toNat < s.dataSize.toNat) :
    ((s.slice k).data - s.data).toNat = k * s.mtu.toNat := by
  rw [slice, BitVec.add_comm, BitVec.add_sub_cancel, BitVec.toNat_ofNat,
    Nat.mod_eq_of_lt (inside.trans s.dataSize.isLt)]

theorem size_slice (k : Nat) :
    (s.slice k).size.toNat = min (s.dataSize.toNat - k * s.mtu.toNat) s.mtu.toNat := by
  rw [slice, BitVec.toNat_ofNat, Nat.mod_eq_of_lt]
  exact lt_of_le_of_lt (Nat.min_le_right _ _) s.mtu.isLt

variable {α : Type}

/-- The `k`-th slice shows the `k`-th piece of the buffer. -/
theorem contents_slice (positive : 1 ≤ s.mtu.toNat) {bytes : List α}
    (whole : bytes.length = s.dataSize.toNat) {k : Nat}
    (below : k < (chunks s.mtu.toNat bytes).length) :
    s.contents bytes (s.slice k) = (chunks s.mtu.toNat bytes)[k] := by
  have count := length_chunks positive bytes
  have inside : k * s.mtu.toNat < s.dataSize.toNat := by
    have few : ¬s.dataSize.toNat ⌈/⌉ s.mtu.toNat ≤ k := by
      rw [Nat.ceilDiv_eq_add_pred_div, ← whole, ← count]
      exact not_le.mpr below
    rw [ceilDiv_le_iff_le_mul positive, Nat.mul_comm] at few
    exact not_le.mp few
  rw [contents, data_slice inside, size_slice, getElem_chunks positive]
  have rest : (bytes.drop (k * s.mtu.toNat)).length = s.dataSize.toNat - k * s.mtu.toNat := by
    rw [List.length_drop, whole]
  rw [Nat.min_comm, ← rest]
  exact List.take_eq_take_min.symm

theorem positions_slice {k : Nat} (inside : k * s.mtu.toNat < s.dataSize.toNat) :
    s.positions (s.slice k) = s.contents (List.range s.dataSize.toNat) (s.slice k) := by
  have start := data_slice inside
  have size := size_slice (s := s) k
  rw [positions, contents, List.range_eq_range', List.drop_range',
    List.take_range'_of_length_ge (by omega)]
  congr 1
  omega

/-- **The packets tile the buffer.**  `packet_loc` throws exactly from `packets_count` on;
below, what it returns are pieces of at most `mtu` bytes, none of them empty, each
starting where the one before ends, and the positions in them are those of the buffer. -/
theorem packetLoc_tiles (narrow : w ≤ 32) (s : PacketSequence w) (positive : 1 ≤ s.mtu.toNat)
    (few : s.dataSize.toNat ⌈/⌉ s.mtu.toNat ≤ 2 ^ w) (wide : s.mtu.toNat * 2 ^ w ≤ 2 ^ 64) :
    ∃ count, s.packetsCount = some count ∧ count.toNat ≤ 2 ^ w ∧
      (∀ k < 2 ^ w, s.packetLoc (s.seqStart + BitVec.ofNat w k) =
        .error (.outOfRange "Invalid packet location") ↔ count.toNat ≤ k) ∧
      ∃ slices : List Slice, slices.length = count.toNat ∧
        (∀ k (below : k < slices.length),
          s.packetLoc (s.seqStart + BitVec.ofNat w k) = .ok slices[k] ∧
          0 < slices[k].size.toNat ∧ slices[k].size.toNat ≤ s.mtu.toNat) ∧
        (∀ k (below : k + 1 < slices.length), (slices[k + 1].data - s.data).toNat =
          (slices[k].data - s.data).toNat + slices[k].size.toNat) ∧
        slices.flatMap s.positions = List.range s.dataSize.toNat := by
  obtain ⟨count, returned, rounded⟩ := packetsCount_eq positive
  have count_le (k : Nat) : count.toNat ≤ k ↔ s.dataSize.toNat ≤ k * s.mtu.toNat := by
    rw [rounded, ceilDiv_le_iff_le_mul positive, Nat.mul_comm]
  have inside {k : Nat} (below : k < count.toNat) : k * s.mtu.toNat < s.dataSize.toNat :=
    not_le.mp ((count_le k).not.mp (not_le.mpr below))
  refine ⟨count, returned, rounded ▸ few, ?_, (List.range count.toNat).map s.slice, ?_, ?_, ?_, ?_⟩
  · intro k short
    rw [packetLoc_next narrow wide short, count_le]
    split
    · simp [*]
    · simp [*]
  · rw [List.length_map, List.length_range]
  · intro k below
    rw [List.length_map, List.length_range] at below
    have within := inside below
    have short : k < 2 ^ w := below.trans_le (rounded ▸ few)
    rw [List.getElem_map, List.getElem_range, packetLoc_next narrow wide short,
      if_neg (not_le.mpr within), size_slice]
    refine ⟨rfl, ?_, Nat.min_le_right _ _⟩
    omega
  · intro k below
    rw [List.length_map, List.length_range] at below
    have next := inside below
    have within := inside (Nat.lt_of_succ_lt below)
    simp only [List.getElem_map, List.getElem_range]
    rw [data_slice next, data_slice within, size_slice]
    rw [Nat.succ_mul] at next ⊢
    omega
  · have pieces : ((List.range count.toNat).map s.slice).map s.positions =
        chunks s.mtu.toNat (List.range s.dataSize.toNat) := by
      have many : (chunks s.mtu.toNat (List.range s.dataSize.toNat)).length = count.toNat := by
        rw [length_chunks positive, List.length_range, rounded, Nat.ceilDiv_eq_add_pred_div]
      apply List.ext_getElem
      · rw [List.length_map, List.length_map, List.length_range, many]
      · intro k below there
        rw [List.getElem_map, List.getElem_map, List.getElem_range,
          positions_slice (inside (many ▸ there)), contents_slice positive (List.length_range)]
    rw [List.flatMap_def, pieces, flatten_chunks positive]

/-- Numbers that wrap: packets 254, 255 and 0 of ten bytes. -/
theorem packetLoc_tiles_wraps :
    let s : PacketSequence 8 := ⟨254, 10, 4, 0x1000⟩
    s.packetsCount = some 3 ∧
      (∀ k < 256, s.packetLoc (254 + BitVec.ofNat 8 k) =
        .error (.outOfRange "Invalid packet location") ↔ 3 ≤ k) ∧
      ∃ slices : List Slice, slices.length = 3 ∧
        (∃ r, slices[2]? = some r ∧ s.packetLoc 0 = .ok r) ∧
        slices.flatMap s.positions = List.range 10 := by
  intro s
  obtain ⟨count, returned, -, throws, slices, length, located, -, cover⟩ :=
    packetLoc_tiles (by decide) s (by decide) (by decide) (by decide)
  have three : s.packetsCount = some 3 := by decide
  obtain rfl : 3 = count := Option.some.inj (three.symm.trans returned)
  have last : 2 < slices.length := length ▸ (by decide)
  have third : s.seqStart + BitVec.ofNat 8 2 = 0 := by decide
  have there := (located 2 last).1
  rw [third] at there
  exact ⟨three, throws, slices, length, ⟨slices[2], List.getElem?_eq_getElem last, there⟩, cover⟩

end PacketSequence

end UdpStuff
