/-
# Proto.WriterBits — what each bit of a writer comes from

A writer's stored elements and its pending one are a row of cells (`cells`), and its
stream is what of them is written.  One call of `write_uint` sets bits of its value
from the position on, up to the end of the element that is pending after it
(`writeUint_bit`): also bits of the value above the width, which later fields are
joined to.  So after any calls a bit is set if one of them set it (`writeUints_bit`).

Values that fit give their low bits one after another (`writer_layout`); of two
lists that differ in one value only, `oversized_iff` says where else the streams do.
-/
import UdpStuff.Proto.BitWriter
import UdpStuff.Theory.BitCells

namespace UdpStuff.Proto

set_option autoImplicit false

open UdpStuff.Theory

namespace BitBufferWriter

variable (Tn : ElemType)

/-- Calls of `write_uint`, each a value and a width. -/
def writeUints (w : BitBufferWriter) (calls : List (Nat × Nat)) : BitBufferWriter :=
  calls.foldl (fun w c => w.writeUint Tn c.1 c.2) w

/-- The stored elements and the pending one. -/
def cells (w : BitBufferWriter) : List Nat := w.out ++ [w.outV]

/-- The stored elements followed by the pending bits. -/
def stream (w : BitBufferWriter) : List Bool :=
  cellsBits Tn.bits w.out ++ bitsOf w.bitsOut w.outV

/-- A bit of the cells, written or not. -/
def bit (w : BitBufferWriter) (p : Nat) : Bool := cellBit Tn.bits w.cells p

/-- What holds of every writer. -/
structure Formed (w : BitBufferWriter) : Prop where
  elements : ∀ d ∈ w.out, d < 2 ^ Tn.bits
  pending : w.outV < 2 ^ Tn.bits
  within : w.bitsOut ≤ Tn.bits
  begun : w.bitsOut = 0 → w.out = []

/-- Where the pending element ends, after `P` bits. -/
def pendingEnd (P : Nat) : Nat := Tn.bits * max 1 ((P + Tn.bits - 1) / Tn.bits)

variable {Tn}

theorem formed_fresh : Formed Tn {} where
  elements d member := by cases member
  pending := Nat.two_pow_pos _
  within := Nat.zero_le _
  begun _ := rfl

variable (Tn) in
theorem getBitPos_start : ({} : BitBufferWriter).getBitPos Tn = 0 := Nat.zero_mul _

theorem Formed.pendingEnd {w : BitBufferWriter} (formed : Formed Tn w) :
    Tn.bits * (w.out.length + 1) = pendingEnd Tn (w.getBitPos Tn) := by
  have base := Tn.bits_pos
  rw [BitBufferWriter.pendingEnd, getBitPos]
  rcases Nat.eq_zero_or_pos w.bitsOut with none | some
  · rw [formed.begun none, none, List.length_nil, Nat.zero_mul, Nat.add_zero,
      Nat.div_eq_of_lt (by omega)]
    rfl
  · have within := formed.within
    have split : w.out.length * Tn.bits + w.bitsOut + Tn.bits - 1 =
        Tn.bits * (w.out.length + 1) + (w.bitsOut - 1) := by
      rw [Nat.mul_succ, Nat.mul_comm]
      omega
    rw [split, Nat.mul_add_div base, Nat.div_eq_of_lt (by omega), Nat.add_zero,
      Nat.max_eq_right (Nat.succ_le_succ (Nat.zero_le _))]

theorem Formed.getBitPos_le {w : BitBufferWriter} (formed : Formed Tn w) :
    w.getBitPos Tn ≤ Tn.bits * (w.out.length + 1) := by
  have within := formed.within
  rw [getBitPos, Nat.mul_succ, Nat.mul_comm]
  omega

/-! ## One call -/

theorem length_writeWhole (v n : Nat) (out : List Nat) :
    (writeWhole Tn v n out).getBitPos Tn = out.length * Tn.bits + n ∧
      out.length ≤ (writeWhole Tn v n out).out.length := by
  induction n using Nat.strongRecOn generalizing v out with
  | ind n ih =>
      have base := Tn.bits_pos
      rw [writeWhole]
      by_cases long : Tn.bits < n
      · obtain ⟨position, longer⟩ := ih (n - Tn.bits) (by omega) (v >>> Tn.bits)
          (out ++ [v % 2 ^ Tn.bits])
        rw [List.length_append, List.length_singleton] at position longer
        rw [if_pos long, position, Nat.succ_mul]
        exact ⟨by omega, by omega⟩
      · rw [if_neg long]
        exact ⟨rfl, le_refl _⟩

theorem formed_writeWhole {v n : Nat} (some : 0 < n) {out : List Nat}
    (elements : ∀ d ∈ out, d < 2 ^ Tn.bits) : Formed Tn (writeWhole Tn v n out) := by
  induction n using Nat.strongRecOn generalizing v out with
  | ind n ih =>
      have base := Tn.bits_pos
      rw [writeWhole]
      by_cases long : Tn.bits < n
      · rw [if_pos long]
        exact ih (n - Tn.bits) (by omega) (by omega)
          (elements_push elements (Nat.mod_lt _ (Nat.two_pow_pos _)))
      · rw [if_neg long]
        exact ⟨elements, Nat.mod_lt _ (Nat.two_pow_pos _), Nat.le_of_not_lt long,
          fun none => absurd none (Nat.pos_iff_ne_zero.mp some)⟩

/-- The bits of the value follow the elements stored so far. -/
theorem writeWhole_bit (v n : Nat) (out : List Nat) (p : Nat) :
    (writeWhole Tn v n out).bit Tn p =
      if p < Tn.bits * out.length then cellBit Tn.bits out p
      else p < Tn.bits * ((writeWhole Tn v n out).out.length + 1) &&
        v.testBit (p - Tn.bits * out.length) := by
  induction n using Nat.strongRecOn generalizing v out with
  | ind n ih =>
      have base := Tn.bits_pos
      by_cases long : Tn.bits < n
      · have later := ih (n - Tn.bits) (by omega) (v >>> Tn.bits) (out ++ [v % 2 ^ Tn.bits])
        have longer := (@length_writeWhole Tn (v >>> Tn.bits) (n - Tn.bits)
          (out ++ [v % 2 ^ Tn.bits])).2
        rw [writeWhole, if_pos long, later]
        rw [List.length_append, List.length_singleton] at longer ⊢
        rw [cellBit_push base]
        by_cases stored : p < Tn.bits * out.length
        · rw [if_pos stored, if_pos stored, if_pos (by rw [Nat.mul_succ]; omega)]
        · rw [if_neg stored, if_neg stored]
          by_cases here : p < Tn.bits * (out.length + 1)
          · have room := Nat.mul_le_mul_left Tn.bits longer
            have low : p - Tn.bits * out.length < Tn.bits := by
              rw [Nat.mul_succ] at here
              omega
            rw [if_pos here, Nat.testBit_mod_two_pow, decide_eq_true here, decide_eq_true low,
              decide_eq_true (by rw [Nat.mul_succ]; omega), Bool.true_and, Bool.true_and]
          · rw [if_neg here, Nat.testBit_shiftRight]
            congr 2
            rw [Nat.mul_succ] at here ⊢
            omega
      · rw [writeWhole, if_neg long, bit, cells, cellBit_push base]
        by_cases stored : p < Tn.bits * out.length
        · rw [if_pos stored, if_pos stored]
        · rw [if_neg stored, if_neg stored, Nat.testBit_mod_two_pow]
          dsimp only
          by_cases here : p < Tn.bits * (out.length + 1)
          · have low : p - Tn.bits * out.length < Tn.bits := by
              rw [Nat.mul_succ] at here
              omega
            rw [decide_eq_true low, Bool.true_and]
          · rw [decide_eq_false here, Bool.false_and, Bool.false_and]

theorem Formed.writeUint {w : BitBufferWriter} (formed : Formed Tn w) (v n : Nat) :
    Formed Tn (w.writeUint Tn v n) := by
  have within := formed.within
  have small (x : Nat) : x % 2 ^ Tn.bits < 2 ^ Tn.bits := Nat.mod_lt _ (Nat.two_pow_pos _)
  rw [BitBufferWriter.writeUint]
  by_cases fits : n ≤ Tn.bits - w.bitsOut
  · rw [if_pos fits]
    refine ⟨formed.elements, small _, by dsimp only; omega, fun none => ?_⟩
    exact formed.begun (by dsimp only at none; omega)
  · rw [if_neg fits]
    exact formed_writeWhole (by omega) (elements_push formed.elements (small _))

theorem getBitPos_writeUint {w : BitBufferWriter} (formed : Formed Tn w) (v n : Nat) :
    (w.writeUint Tn v n).getBitPos Tn = w.getBitPos Tn + n := by
  have within := formed.within
  rw [BitBufferWriter.writeUint]
  by_cases fits : n ≤ Tn.bits - w.bitsOut
  · rw [if_pos fits, getBitPos, getBitPos, Nat.add_assoc]
  · rw [if_neg fits]
    dsimp only
    rw [(length_writeWhole _ _ _).1, List.length_append, List.length_singleton, getBitPos,
      Nat.succ_mul]
    omega

/-- The pending element with a value joined to it, one bit. -/
theorem cellBit_joined (w : BitBufferWriter) (v p : Nat) :
    cellBit Tn.bits (w.out ++ [(w.outV ||| v <<< w.bitsOut) % 2 ^ Tn.bits]) p =
      (w.bit Tn p || (w.getBitPos Tn ≤ p && p < Tn.bits * (w.out.length + 1) &&
        v.testBit (p - w.getBitPos Tn))) := by
  have base := Tn.bits_pos
  have comm := Nat.mul_comm w.out.length Tn.bits
  rw [bit, cells, cellBit_push base, cellBit_push base, getBitPos]
  by_cases stored : p < Tn.bits * w.out.length
  · rw [if_pos stored, if_pos stored, decide_eq_false (by omega), Bool.false_and, Bool.false_and,
      Bool.or_false]
  · rw [if_neg stored, if_neg stored]
    by_cases here : p < Tn.bits * (w.out.length + 1)
    · obtain ⟨j, rfl⟩ : ∃ j, p = Tn.bits * w.out.length + j :=
        ⟨p - Tn.bits * w.out.length, by omega⟩
      have low : j < Tn.bits := by
        rw [Nat.mul_succ] at here
        omega
      have after : (w.out.length * Tn.bits + w.bitsOut ≤ Tn.bits * w.out.length + j) =
          (w.bitsOut ≤ j) := propext ⟨by omega, by omega⟩
      have distance : Tn.bits * w.out.length + j - (w.out.length * Tn.bits + w.bitsOut) =
          j - w.bitsOut := by omega
      rw [Nat.add_sub_cancel_left, decide_eq_true here, Bool.true_and, Bool.true_and, Bool.and_true,
        Nat.testBit_mod_two_pow, decide_eq_true low, Bool.true_and, Nat.testBit_or,
        Nat.testBit_shiftLeft, distance]
      simp only [after, ge_iff_le]
    · rw [decide_eq_false here, Bool.false_and, Bool.false_and, Bool.and_false, Bool.false_and,
        Bool.or_false]

/-- **One call** sets bits of its value from the position on, to the end of the element
that is pending after it. -/
theorem writeUint_bit {w : BitBufferWriter} (formed : Formed Tn w) (v n p : Nat) :
    (w.writeUint Tn v n).bit Tn p = (w.bit Tn p || (w.getBitPos Tn ≤ p &&
      p < pendingEnd Tn (w.getBitPos Tn + n) && v.testBit (p - w.getBitPos Tn))) := by
  have base := Tn.bits_pos
  have within := formed.within
  rw [← getBitPos_writeUint formed v n, ← (formed.writeUint v n).pendingEnd,
    BitBufferWriter.writeUint]
  by_cases fits : n ≤ Tn.bits - w.bitsOut
  · rw [if_pos fits]
    exact cellBit_joined w v p
  · rw [if_neg fits]
    dsimp only
    obtain ⟨out, stored⟩ : ∃ out, w.out ++ [(w.outV ||| v <<< w.bitsOut) % 2 ^ Tn.bits] = out :=
      ⟨_, rfl⟩
    have size : out.length = w.out.length + 1 := by
      rw [← stored, List.length_append, List.length_singleton]
    have longer := (@length_writeWhole Tn (v >>> (Tn.bits - w.bitsOut))
      (n - (Tn.bits - w.bitsOut)) out).2
    rw [stored, writeWhole_bit]
    by_cases here : p < Tn.bits * out.length
    · have room := Nat.mul_le_mul_left Tn.bits (Nat.le_succ_of_le longer)
      rw [if_pos here, ← stored, cellBit_joined, stored, ← size, decide_eq_true here,
        decide_eq_true (Nat.lt_of_lt_of_le here room)]
    · have past : w.bit Tn p = false := by
        refine cellBit_beyond ?_ base
        rw [cells, List.length_append, List.length_singleton, ← size]
        omega
      have position : w.getBitPos Tn + (Tn.bits - w.bitsOut) = Tn.bits * out.length := by
        rw [getBitPos, size, Nat.mul_succ, Nat.mul_comm]
        omega
      have distance : Tn.bits - w.bitsOut + (p - Tn.bits * out.length) =
          p - w.getBitPos Tn := by omega
      rw [if_neg here, past, Bool.false_or, decide_eq_true (by omega : w.getBitPos Tn ≤ p),
        Bool.true_and, Nat.testBit_shiftRight, distance]

/-! ## Any calls -/

variable (Tn) in
/-- Some call sets bit `p`, if the first one starts at bit `P`: it starts there or before,
and the element that is pending after it goes as far. -/
def sets (P : Nat) : List (Nat × Nat) → Nat → Bool
  | [], _ => false
  | (v, n) :: rest, p =>
    (P ≤ p && p < pendingEnd Tn (P + n) && v.testBit (p - P)) || sets (P + n) rest p

/-- The number of bits that calls write. -/
def widths (calls : List (Nat × Nat)) : Nat := (calls.map Prod.snd).sum

theorem Formed.writeUints {w : BitBufferWriter} (formed : Formed Tn w)
    (calls : List (Nat × Nat)) : Formed Tn (w.writeUints Tn calls) := by
  induction calls generalizing w with
  | nil => exact formed
  | cons c rest ih => exact ih (formed.writeUint c.1 c.2)

theorem getBitPos_writeUints {w : BitBufferWriter} (formed : Formed Tn w)
    (calls : List (Nat × Nat)) :
    (w.writeUints Tn calls).getBitPos Tn = w.getBitPos Tn + widths calls := by
  induction calls generalizing w with
  | nil => rfl
  | cons c rest ih =>
      have later := ih (formed.writeUint c.1 c.2)
      rw [getBitPos_writeUint formed, Nat.add_assoc] at later
      rw [widths, List.map_cons, List.sum_cons]
      exact later

theorem writeUints_bit {w : BitBufferWriter} (formed : Formed Tn w) (calls : List (Nat × Nat))
    (p : Nat) : (w.writeUints Tn calls).bit Tn p =
      (w.bit Tn p || sets Tn (w.getBitPos Tn) calls p) := by
  induction calls generalizing w with
  | nil => rw [sets, Bool.or_false]; rfl
  | cons c rest ih =>
      have later := ih (formed.writeUint c.1 c.2)
      rw [writeUint_bit formed, getBitPos_writeUint formed, Bool.or_assoc] at later
      exact later

theorem bit_fresh (p : Nat) : ({} : BitBufferWriter).bit Tn p = false := by
  rw [bit, cellBit, cells]
  cases p / Tn.bits <;> exact Nat.zero_testBit _

/-- The bits of a writer that was fresh are those that a call set. -/
theorem writeUints_fresh_bit (calls : List (Nat × Nat)) (p : Nat) :
    (writeUints Tn {} calls).bit Tn p = sets Tn 0 calls p := by
  rw [writeUints_bit formed_fresh, bit_fresh, Bool.false_or, getBitPos_start]

theorem getBitPos_fresh (calls : List (Nat × Nat)) :
    (writeUints Tn {} calls).getBitPos Tn = widths calls := by
  rw [getBitPos_writeUints formed_fresh, getBitPos_start, Nat.zero_add]

/-- The stream is the bits before the position. -/
theorem getElem?_stream {w : BitBufferWriter} (within : w.bitsOut ≤ Tn.bits) (p : Nat) :
    (w.stream Tn)[p]? = if p < w.getBitPos Tn then some (w.bit Tn p) else none := by
  have base := Tn.bits_pos
  have comm := Nat.mul_comm w.out.length Tn.bits
  rw [stream, getBitPos, bit, cells, cellBit_push base]
  by_cases stored : p < Tn.bits * w.out.length
  · rw [List.getElem?_append_left (by rwa [length_cellsBits]), getElem?_cellsBits base,
      if_pos stored, if_pos stored, if_pos (by omega)]
  · rw [List.getElem?_append_right (by rw [length_cellsBits]; omega), length_cellsBits,
      getElem?_bitsOf, if_neg stored]
    by_cases written : p < w.out.length * Tn.bits + w.bitsOut
    · rw [if_pos (by omega), if_pos written,
        decide_eq_true (by rw [Nat.mul_succ]; omega), Bool.true_and]
    · rw [if_neg (by omega), if_neg written]

/-! ## Values that fit -/

theorem sets_before {P : Nat} (calls : List (Nat × Nat)) {p : Nat} (before : p < P) :
    sets Tn P calls p = false := by
  induction calls generalizing P with
  | nil => rfl
  | cons c rest ih =>
      rw [sets, decide_eq_false (by omega), Bool.false_and, Bool.false_and, Bool.false_or]
      exact ih (by omega)

theorem le_pendingEnd (P : Nat) : P ≤ pendingEnd Tn P := by
  have base := Tn.bits_pos
  have split := Nat.div_add_mod (P + Tn.bits - 1) Tn.bits
  have rest := Nat.mod_lt (P + Tn.bits - 1) base
  have more := Nat.mul_le_mul_left Tn.bits (Nat.le_max_right 1 ((P + Tn.bits - 1) / Tn.bits))
  rw [pendingEnd]
  omega

/-- The low bits of each value, in order. -/
def fieldBits (calls : List (Nat × Nat)) : List Bool := calls.flatMap fun c => bitsOf c.2 c.1

@[simp] theorem length_fieldBits (calls : List (Nat × Nat)) :
    (fieldBits calls).length = widths calls := by
  induction calls with
  | nil => rfl
  | cons c rest ih =>
      rw [fieldBits, List.flatMap_cons, List.length_append, length_bitsOf, ← fieldBits, ih, widths,
        widths, List.map_cons, List.sum_cons]

theorem sets_of_fits {calls : List (Nat × Nat)} (fits : ∀ c ∈ calls, c.1 < 2 ^ c.2) (P i : Nat) :
    sets Tn P calls (P + i) = (fieldBits calls)[i]?.getD false := by
  induction calls generalizing P i with
  | nil => rfl
  | cons c rest ih =>
      obtain ⟨v, n⟩ := c
      have small : v < 2 ^ n := fits (v, n) List.mem_cons_self
      have others := ih (fun c member => fits c (List.mem_cons_of_mem _ member)) (P + n)
      rw [fieldBits, List.flatMap_cons, ← fieldBits, sets, Nat.add_sub_cancel_left,
        decide_eq_true (Nat.le_add_right P i), Bool.true_and]
      by_cases inside : i < n
      · have reach := @le_pendingEnd Tn (P + n)
        rw [List.getElem?_append_left (by rwa [length_bitsOf]), getElem?_bitsOf, if_pos inside,
          decide_eq_true (by omega), sets_before rest (by omega)]
        simp
      · obtain ⟨j, rfl⟩ : ∃ j, i = n + j := ⟨i - n, by omega⟩
        rw [testBit_eq_false_of_le small (Nat.le_add_right n j), Bool.and_false, Bool.false_or,
          ← Nat.add_assoc, others, List.getElem?_append_right (by rw [length_bitsOf]; omega),
          length_bitsOf, Nat.add_sub_cancel_left]

/-- The bits of a writer that was fresh, when the values fit. -/
theorem fresh_bit_of_fits {calls : List (Nat × Nat)} (fits : ∀ c ∈ calls, c.1 < 2 ^ c.2) (p : Nat) :
    (writeUints Tn {} calls).bit Tn p = (fieldBits calls)[p]?.getD false := by
  have bits := @sets_of_fits Tn calls fits 0 p
  rwa [Nat.zero_add, ← writeUints_fresh_bit] at bits

/-- The picked elements are all cells, if anything was written. -/
theorem Formed.pickData {w : BitBufferWriter} (formed : Formed Tn w) :
    (w.pickData).out.length = (w.getBitPos Tn + Tn.bits - 1) / Tn.bits ∧
      (w.getBitPos Tn = 0 ∨ (w.pickData).out = w.cells) := by
  have base := Tn.bits_pos
  have whole := formed.pendingEnd
  rw [BitBufferWriter.pendingEnd] at whole
  have count := Nat.eq_of_mul_eq_mul_left base whole
  rw [BitBufferWriter.pickData]
  by_cases none : w.bitsOut = 0
  · rw [if_neg (not_not.mpr none), getBitPos, formed.begun none, none, List.length_nil,
      Nat.zero_mul, Nat.add_zero, Nat.div_eq_of_lt (by omega)]
    exact ⟨rfl, .inl rfl⟩
  · rw [if_pos none]
    refine ⟨?_, .inr rfl⟩
    have some : 1 ≤ (w.getBitPos Tn + Tn.bits - 1) / Tn.bits := by
      rw [Nat.le_div_iff_mul_le base, getBitPos]
      omega
    rw [List.length_append, List.length_singleton, count, Nat.max_eq_right some]

/-- The cells of a writer that was fresh, when the values fit. -/
theorem cellsBits_of_fits {calls : List (Nat × Nat)} (fits : ∀ c ∈ calls, c.1 < 2 ^ c.2) :
    cellsBits Tn.bits (writeUints Tn {} calls).cells = fieldBits calls ++
      List.replicate (Tn.bits * (writeUints Tn {} calls).cells.length - widths calls) false := by
  have base := Tn.bits_pos
  have room := (@formed_fresh Tn).writeUints calls |>.getBitPos_le
  rw [getBitPos_fresh] at room
  refine List.ext_getElem? fun p => ?_
  have value : cellBit Tn.bits (writeUints Tn {} calls).cells p =
      (fieldBits calls)[p]?.getD false := fresh_bit_of_fits fits p
  rw [getElem?_cellsBits base, value]
  obtain ⟨size, total⟩ : ∃ size, Tn.bits * (writeUints Tn {} calls).cells.length = size := ⟨_, rfl⟩
  have enough : widths calls ≤ size := by
    rw [← total, cells, List.length_append, List.length_singleton]
    exact room
  rw [total]
  by_cases written : p < widths calls
  · rw [List.getElem?_append_left (by rwa [length_fieldBits]), if_pos (by omega),
      List.getElem?_eq_getElem (by rwa [length_fieldBits]), Option.getD_some]
  · rw [List.getElem?_append_right (by rw [length_fieldBits]; omega), length_fieldBits,
      List.getElem?_replicate, List.getElem?_eq_none (by rw [length_fieldBits]; omega)]
    by_cases inside : p < size
    · rw [if_pos inside, if_pos (by omega), Option.getD_none]
    · rw [if_neg inside, if_neg (by omega)]

/-- **Layout**: after each call the position is the number of bits written, and the data
are as few elements as hold them: the low bits of the values in order, and zeros. -/
theorem writer_layout (calls : List (Nat × Nat)) (fits : ∀ c ∈ calls, c.2 ≤ 64 ∧ c.1 < 2 ^ c.2) :
    (∀ k, (writeUints .uint8 {} (calls.take k)).getBitPos .uint8 = widths (calls.take k)) ∧
      ∃ data, (writeUints .uint8 {} calls).pickData.out = data ∧ (∀ d ∈ data, d < 2 ^ 8) ∧
        data.length = (widths calls + 7) / 8 ∧
        cellsBits 8 data =
          fieldBits calls ++ List.replicate (8 * data.length - widths calls) false := by
  have formed := (@formed_fresh .uint8).writeUints calls
  obtain ⟨size, data⟩ := formed.pickData
  rw [getBitPos_fresh] at size data
  refine ⟨fun k => getBitPos_fresh _, _, rfl, ?_, size, ?_⟩
  · rw [BitBufferWriter.pickData]
    split
    · exact elements_push formed.elements formed.pending
    · exact formed.elements
  · rcases data with none | all
    · rw [none] at size
      have empty : (writeUints .uint8 {} calls).pickData.out = [] :=
        List.eq_nil_of_length_eq_zero size
      have fields : fieldBits calls = [] :=
        List.eq_nil_of_length_eq_zero (by rw [length_fieldBits, none])
      rw [empty, fields, none]
      rfl
    · rw [all]
      exact @cellsBits_of_fits .uint8 calls fun c member => (fits c member).2

/-- A field of no bits, one inside an element and one across two. -/
theorem writer_layout_three : ∃ data,
    (writeUints .uint8 {} [(0, 0), (5, 3), (500, 9)]).pickData.out = data ∧ data.length = 2 ∧
      cellsBits 8 data = fieldBits [(0, 0), (5, 3), (500, 9)] ++ List.replicate 4 false := by
  obtain ⟨-, data, picked, -, size, bits⟩ := writer_layout [(0, 0), (5, 3), (500, 9)] (by decide)
  have two : data.length = 2 := size
  rw [two] at bits
  exact ⟨data, picked, two, bits⟩

/-! ## Values that do not -/

theorem widths_append (front rest : List (Nat × Nat)) :
    widths (front ++ rest) = widths front + widths rest := by
  rw [widths, List.map_append, List.sum_append, widths, widths]

theorem sets_append (P : Nat) (front rest : List (Nat × Nat)) (p : Nat) :
    sets Tn P (front ++ rest) p = (sets Tn P front p || sets Tn (P + widths front) rest p) := by
  induction front generalizing P with
  | nil => rw [sets, Bool.false_or]; rfl
  | cons c front ih =>
      rw [List.cons_append, sets, ih, sets, Bool.or_assoc, widths, widths, List.map_cons,
        List.sum_cons, Nat.add_assoc]

/-- The bits of the value at one index that go beyond its width, where they can be seen. -/
def Harmless (before : List (Nat × Nat)) (v v' n : Nat) (after : List (Nat × Nat)) : Prop :=
  ∀ i, n ≤ i → widths before + i < pendingEnd .uint8 (widths before + n) →
    widths before + i < widths before + n + widths after →
    v.testBit i = v'.testBit i ∨ sets .uint8 0 before (widths before + i) = true ∨
      sets .uint8 (widths before + n) after (widths before + i) = true

/-- **What an oversized value damages**: outside its field the streams agree if and only if
the values agree above their width as far as the element goes in which the field ends, but
for bits that another call sets. -/
theorem oversized_iff (before after : List (Nat × Nat)) (v v' n : Nat) :
    (∀ p, p < widths before ∨ widths before + n ≤ p →
      ((writeUints .uint8 {} (before ++ (v, n) :: after)).stream .uint8)[p]? =
        ((writeUints .uint8 {} (before ++ (v', n) :: after)).stream .uint8)[p]?) ↔
      Harmless before v v' n after := by
  have streamed (x p : Nat) :
      ((writeUints .uint8 {} (before ++ (x, n) :: after)).stream .uint8)[p]? =
        if p < widths before + n + widths after then
          some (sets .uint8 0 before p || (widths before ≤ p &&
            p < pendingEnd .uint8 (widths before + n) && x.testBit (p - widths before)) ||
            sets .uint8 (widths before + n) after p)
        else none := by
    have formed := (@formed_fresh .uint8).writeUints (before ++ (x, n) :: after)
    have total : widths (before ++ (x, n) :: after) = widths before + n + widths after := by
      rw [widths_append, Nat.add_assoc]
      rfl
    rw [getElem?_stream formed.within, writeUints_fresh_bit, getBitPos_fresh, sets_append, Nat.zero_add,
      sets, total, Bool.or_assoc]
  constructor
  · intro same i above inside written
    have bits := same (widths before + i) (.inr (by omega))
    rw [streamed, streamed, if_pos written, if_pos written, Nat.add_sub_cancel_left,
      decide_eq_true (Nat.le_add_right _ i), decide_eq_true inside, Bool.true_and, Bool.true_and,
      Option.some.injEq] at bits
    cases earlier : sets .uint8 0 before (widths before + i) with
    | true => exact .inr (.inl rfl)
    | false =>
        cases later : sets .uint8 (widths before + n) after (widths before + i) with
        | true => exact .inr (.inr rfl)
        | false =>
            rw [earlier, later, Bool.false_or, Bool.false_or, Bool.or_false, Bool.or_false] at bits
            exact .inl bits
  · intro harmless p outside
    rw [streamed, streamed]
    by_cases written : p < widths before + n + widths after
    · rw [if_pos written, if_pos written, Option.some.injEq]
      by_cases inside : widths before ≤ p ∧ p < pendingEnd .uint8 (widths before + n)
      · obtain ⟨i, rfl⟩ : ∃ i, p = widths before + i := ⟨p - widths before, by omega⟩
        rw [Nat.add_sub_cancel_left, decide_eq_true inside.1, decide_eq_true inside.2,
          Bool.true_and, Bool.true_and, Bool.true_and]
        rcases harmless i (by omega) inside.2 written with same | earlier | later
        · rw [same]
        · simp only [earlier, Bool.true_or]
        · simp only [later, Bool.or_true]
      · rw [← Bool.decide_and, decide_eq_false inside, Bool.false_and, Bool.false_and]
    · rw [if_neg written, if_neg written]

/-- **Refuted**: of a three that is one bit wide, the second bit goes into the next field. -/
theorem oversized_refuted :
    ¬ ∀ (before after : List (Nat × Nat)) (v v' n : Nat), v < 2 ^ 64 → v' < 2 ^ 64 → n ≤ 64 →
      (∀ c ∈ before ++ after, c.1 < 2 ^ 64 ∧ c.2 ≤ 64) →
      ∀ p, p < widths before ∨ widths before + n ≤ p →
        ((writeUints .uint8 {} (before ++ (v, n) :: after)).stream .uint8)[p]? =
          ((writeUints .uint8 {} (before ++ (v', n) :: after)).stream .uint8)[p]? := by
  intro always
  have same := always [] [(0, 1)] 3 0 1 (by decide) (by decide) (by decide) (by decide) 1
    (.inr (by decide))
  revert same
  decide

end BitBufferWriter

end UdpStuff.Proto
