/-
# Proto.StreamReader — the reader of the generated code

`StreamReader` is a `BitBufferReader` seen as a position in bit memory, so that only
what `read_fragment` computes from elements and bits left of an element remains of
it (`readFragment`).  The fragment starts at the end of the current element and as
many bits later as are left of that element, as the class's own does
(`Views.readFragment`).
-/
import UdpStuff.Proto.BitReader

namespace UdpStuff.Proto

set_option autoImplicit false

/-- A reader: elements of `elemBits` bits from bit `base` of the memory on, `bitSize`
bits of them, and `pos` of those read. -/
structure StreamReader where
  elemBits : Nat
  mem : Nat → Bool
  base : Nat
  bitSize : Nat
  pos : Nat

namespace StreamReader

/-- The bits not read yet. -/
def left (r : StreamReader) : List Bool :=
  (List.range (r.bitSize - r.pos)).map fun i => r.mem (r.base + r.pos + i)

def advance (r : StreamReader) (k : Nat) : StreamReader := { r with pos := r.pos + k }

/-- The elements loaded: the first one at once, then up to the position. -/
def itemsRead (r : StreamReader) : Nat :=
  if r.bitSize = 0 then 0 else max 1 ((r.pos + r.elemBits - 1) / r.elemBits)

/-- What is left of the current element, or of the stream if that ends in it. -/
def curItemBits (r : StreamReader) : Nat := min r.bitSize (r.itemsRead * r.elemBits) - r.pos

/-- `read_fragment`: `BitBufferReader(buf + items_read, bit_size, cur_item_bits)`. -/
def readFragment (r : StreamReader) (length : Nat) : StreamReader where
  elemBits := r.elemBits
  mem := r.mem
  base := r.base + r.itemsRead * r.elemBits
  bitSize := length + r.curItemBits
  pos := r.curItemBits

/-- `read_field_flag`, a one-bit presence flag. -/
def readFieldFlag (r : StreamReader) : Option (Bool × StreamReader) :=
  match r.left with
  | [] => none
  | flag :: _ => some (flag, r.advance 1)

@[simp] theorem length_left (r : StreamReader) : r.left.length = r.bitSize - r.pos := by
  rw [left, List.length_map, List.length_range]

theorem left_advance (r : StreamReader) (k : Nat) : (r.advance k).left = r.left.drop k := by
  apply List.ext_getElem
  · simp only [length_left, advance, List.length_drop]
    omega
  · intro i first second
    simp only [left, advance, List.getElem_map, List.getElem_range, List.getElem_drop]
    congr 1
    omega

theorem advance_advance (r : StreamReader) (j k : Nat) :
    (r.advance j).advance k = r.advance (j + k) := by
  rw [advance, advance, advance, Nat.add_assoc]

@[simp] theorem pos_advance (r : StreamReader) (k : Nat) : (r.advance k).pos = r.pos + k := rfl

/-- A fragment has exactly the bits asked for. -/
theorem length_left_readFragment (r : StreamReader) (length : Nat) :
    (r.readFragment length).left.length = length := by
  rw [length_left, readFragment, Nat.add_sub_cancel]

theorem curItemBits_readFragment (r : StreamReader) (length : Nat) :
    (r.readFragment length).curItemBits =
      min (length + r.curItemBits) ((r.readFragment length).itemsRead * r.elemBits) -
        r.curItemBits := rfl

/-- A reader of the memory from its first bit on. -/
def start (elemBits : Nat) (mem : Nat → Bool) (bitSize : Nat) : StreamReader :=
  { elemBits, mem, base := 0, bitSize, pos := 0 }

theorem exists_left (elemBits : Nat) (bits : List Bool) :
    ∃ mem : Nat → Bool, (start elemBits mem bits.length).left = bits := by
  refine ⟨fun i => bits.getD i false, List.ext_getElem ?_ fun i first second => ?_⟩
  · rw [length_left, start, Nat.sub_zero]
  · simp only [left, start, List.getElem_map, List.getElem_range, Nat.zero_add]
    exact List.getD_eq_getElem bits false second

/-- What follows a prefix that was read. -/
theorem left_of_append {r : StreamReader} {bits rest : List Bool} (here : r.left = bits ++ rest) :
    (r.advance bits.length).left = rest := by
  rw [left_advance, here, List.drop_left]

/-- At the end of an element, as many have been loaded as are read. -/
theorem itemsRead_aligned {r : StreamReader} (aligned : r.pos % r.elemBits = 0)
    (later : 0 < r.pos) (some : 0 < r.bitSize) : r.itemsRead * r.elemBits = r.pos := by
  obtain ⟨k, multiple⟩ := Nat.dvd_of_mod_eq_zero aligned
  have base : 0 < r.elemBits := by
    apply Nat.pos_of_ne_zero
    rintro none
    rw [none, Nat.zero_mul] at multiple
    omega
  have least : 0 < k := by
    apply Nat.pos_of_ne_zero
    rintro rfl
    omega
  have items : (r.pos + r.elemBits - 1) / r.elemBits = k := by
    rw [multiple, Nat.add_sub_assoc base, Nat.mul_add_div base, Nat.div_eq_of_lt (by omega),
      Nat.add_zero]
  rw [itemsRead, if_neg (Nat.pos_iff_ne_zero.mp some), items, Nat.max_eq_right least, multiple,
    Nat.mul_comm]

/-- From the end of an element, a fragment has the bits that come next. -/
theorem left_readFragment {r : StreamReader} (aligned : r.pos % r.elemBits = 0)
    {content : List Bool} (later : 0 < content.length → 0 < r.pos)
    (here : content <+: r.left) : (r.readFragment content.length).left = content := by
  obtain ⟨rest, here⟩ := here
  have size := congrArg List.length here
  rw [List.length_append, length_left] at size
  rcases Nat.eq_zero_or_pos content.length with none | least
  · rw [List.eq_nil_of_length_eq_zero none]
    exact List.eq_nil_of_length_eq_zero (length_left_readFragment r 0)
  · have items := itemsRead_aligned aligned (later least) (by omega)
    have current : r.curItemBits = 0 := by
      rw [curItemBits, items]
      omega
    have front : content = r.left.take content.length := by rw [← here, List.take_left]
    conv => rhs; rw [front]
    rw [readFragment, current, items]
    apply List.ext_getElem
    · simp only [length_left, List.length_take]
      omega
    · intro i first second
      simp only [left, List.getElem_map, List.getElem_range, List.getElem_take]
      rfl

end StreamReader

/-! ## The class -/

namespace BitBufferReader

variable (Tn : ElemType)

/-- The three-argument constructor. -/
def makeShifted (buf : Nat → Nat) (bitSize bitShift : Nat) : BitBufferReader :=
  let bitSize := bitSize + bitShift
  if 0 < bitSize then
    { buf, bitSize, itemsRead := 1, curItem := buf 0 >>> bitShift
      curItemBits := (if bitSize > Tn.bits then Tn.bits else bitSize) - bitShift }
  else { buf, bitSize }

def readFragment (bitSize : Nat) (r : BitBufferReader) : BitBufferReader :=
  makeShifted Tn (fun i => r.buf (r.itemsRead + i)) bitSize r.curItemBits

end BitBufferReader

/-- The class's reader stands where the stream reader does. -/
structure Views (Tn : ElemType) (b : BitBufferReader) (r : StreamReader) : Prop where
  elemBits : r.elemBits = Tn.bits
  buf : ∀ i j, j < Tn.bits → (b.buf i).testBit j = r.mem (r.base + i * Tn.bits + j)
  bitSize : b.bitSize = r.bitSize
  itemsRead : b.itemsRead = r.itemsRead
  curItemBits : b.curItemBits = r.curItemBits
  curItem : ∀ j, j < b.curItemBits → b.curItem.testBit j = r.mem (r.base + r.pos + j)

namespace Views

variable {Tn : ElemType} {b : BitBufferReader} {r : StreamReader}

/-- In the first element, a reader has loaded it. -/
theorem itemsRead_first (first : r.pos ≤ r.elemBits) (some : 0 < r.bitSize) :
    r.itemsRead = 1 := by
  have most : (r.pos + r.elemBits - 1) / r.elemBits ≤ 1 := by
    rcases Nat.eq_zero_or_pos r.elemBits with none | base
    · rw [none, Nat.div_zero]
      exact Nat.zero_le 1
    · apply Nat.le_of_lt_succ
      rw [Nat.div_lt_iff_lt_mul base]
      omega
  rw [StreamReader.itemsRead, if_neg (Nat.pos_iff_ne_zero.mp some)]
  omega

theorem make {buf : Nat → Nat} {mem : Nat → Bool} {bitSize : Nat}
    (bits : ∀ i j, j < Tn.bits → (buf i).testBit j = mem (i * Tn.bits + j)) :
    Views Tn (.make Tn buf bitSize) (.start Tn.bits mem bitSize) := by
  rw [BitBufferReader.make]
  by_cases some : 0 < bitSize
  · have items : (StreamReader.start Tn.bits mem bitSize).itemsRead = 1 :=
      itemsRead_first (Nat.zero_le _) some
    have current : (if bitSize > Tn.bits then Tn.bits else bitSize) =
        (StreamReader.start Tn.bits mem bitSize).curItemBits := by
      rw [StreamReader.curItemBits, items, StreamReader.start]
      dsimp only
      split <;> omega
    rw [if_pos some]
    refine ⟨rfl, fun i j inside => ?_, rfl, items.symm, current, fun j inside => ?_⟩
    · rw [bits i j inside, StreamReader.start, Nat.zero_add]
    · have inside : j < Tn.bits := by
        dsimp only at inside
        split at inside <;> omega
      rw [bits 0 j inside, Nat.zero_mul]
      rfl
  · have none : bitSize = 0 := Nat.eq_zero_of_not_pos some
    rw [if_neg some, none]
    refine ⟨rfl, fun i j inside => ?_, rfl, rfl, rfl, fun j inside => ?_⟩
    · rw [bits i j inside, StreamReader.start, Nat.zero_add]
    · exact absurd inside (Nat.not_lt_zero j)

/-- **The fragments of both start at the same bit.** -/
theorem readFragment (views : Views Tn b r) (near : b.curItemBits ≤ Tn.bits) (length : Nat) :
    Views Tn (b.readFragment Tn length) (r.readFragment length) := by
  have shift : r.curItemBits ≤ r.elemBits := by rw [views.elemBits, ← views.curItemBits]; exact near
  have elements (i j : Nat) (inside : j < Tn.bits) :
      (b.buf (b.itemsRead + i)).testBit j =
        r.mem (r.base + r.itemsRead * r.elemBits + i * Tn.bits + j) := by
    rw [views.buf _ _ inside, views.itemsRead, views.elemBits, Nat.add_mul, ← Nat.add_assoc r.base]
  rw [BitBufferReader.readFragment, BitBufferReader.makeShifted, views.curItemBits]
  by_cases some : 0 < length + r.curItemBits
  · have items : (r.readFragment length).itemsRead = 1 := itemsRead_first shift some
    have current : (if length + r.curItemBits > Tn.bits then Tn.bits
        else length + r.curItemBits) - r.curItemBits = (r.readFragment length).curItemBits := by
      rw [StreamReader.curItemBits_readFragment, items, views.elemBits]
      split <;> omega
    rw [if_pos some]
    refine ⟨views.elemBits, elements, rfl, items.symm, current, fun j inside => ?_⟩
    have inside : r.curItemBits + j < Tn.bits := by
      dsimp only at inside
      split at inside <;> omega
    rw [Nat.testBit_shiftRight]
    rw [elements 0 _ inside, Nat.zero_mul, Nat.add_zero, ← Nat.add_assoc]
    rfl
  · have none : length + r.curItemBits = 0 := Nat.eq_zero_of_not_pos some
    have items : (r.readFragment length).itemsRead = 0 := by
      rw [StreamReader.itemsRead, StreamReader.readFragment, if_pos none]
    rw [if_neg some]
    refine ⟨views.elemBits, elements, rfl, items.symm, ?_, fun j inside => ?_⟩
    · rw [StreamReader.curItemBits_readFragment, items]
      dsimp only
      omega
    · exact absurd inside (Nat.not_lt_zero j)

end Views

end UdpStuff.Proto
