/-
# Proto.BitStream — fields written and read back

A list of fields goes through a fresh writer, `pick_data`, and a reader over the
elements for the number of bits written.  The two agree on every position; they do
not agree on the values.

`round_trip_iff`: exactly those lists come back whose fields all read the same
backwards, as it were: the pieces the element boundaries cut a field into, joined
with the first one highest, and with the lowest bit of the next field let in where
that field starts in the same element.  With elements of 32 bits no last piece may
be wider than 30 bits, either: the mask's shift leaves its operand there.
-/
import UdpStuff.Proto.BitReader

namespace UdpStuff.Proto

set_option autoImplicit false

open UdpStuff.Theory

/-- A value and the width it is written with. -/
structure BitField where
  v : Nat
  n : Nat
  pos : 1 ≤ n
  width : n ≤ 64
  fits : v < 2 ^ n

namespace BitField

variable (Tn : ElemType)

/-! ## The run -/

/-- The fields written in order. -/
def writeAll (w : BitBufferWriter) (fields : List BitField) : BitBufferWriter :=
  fields.foldl (fun w f => w.writeUint Tn f.v f.n) w

/-- Reads of the given widths, in order. -/
def readAll : List Nat → BitBufferReader → Except ReadError (List Nat)
  | [], _ => .ok []
  | n :: rest, r =>
    match r.readUint Tn n with
    | .error e => .error e
    | .ok (v, next) =>
      match readAll rest next with
      | .error e => .error e
      | .ok vs => .ok (v :: vs)

/-- The total number of bits of fields. -/
def bitsOf (fields : List BitField) : Nat := (fields.map n).sum

/-- Write the fields, take the data, and read the widths back. -/
def roundTrip (fields : List BitField) : Except ReadError (List Nat) :=
  let data := (writeAll Tn {} fields).pickData.out
  readAll Tn (fields.map n) (BitBufferReader.make Tn (fun i => data.getD i 0) (bitsOf fields))

/-! ## When a field comes back -/

/-- The lowest bit of the field that follows at bit `s`, where that is inside an
element. -/
def nextBit (s : Nat) : List BitField → Nat
  | [] => 0
  | f :: _ => if s % Tn.bits = 0 then 0 else f.v % 2

/-- The field at bit `s`, joined from its pieces with the first one highest and the
next field's bit let in. -/
def regrouped (s : Nat) (f : BitField) (rest : List BitField) : Nat :=
  let room := Tn.bits - s % Tn.bits
  joinHighFirst 0 (cutBits (pieceWidths Tn.bits room f.n) f.v) |||
    nextBit Tn (s + f.n) rest <<< lastWidth Tn.bits room f.n

/-- From bit `s` on, every field is its own regrouping, and no last piece makes the
mask's shift undefined. -/
def ComesBack : Nat → List BitField → Prop
  | _, [] => True
  | s, f :: rest =>
      lastWidth Tn.bits (Tn.bits - s % Tn.bits) f.n + 1 < Tn.promoted ∧
        regrouped Tn s f rest = f.v ∧ ComesBack (s + f.n) rest

/-- Joined with the first piece lowest, the pieces are the field. -/
theorem pieces_low_first (room : Nat) (f : BitField) :
    joinLowFirst (cutBits (pieceWidths Tn.bits room f.n) f.v) = f.v := by
  rw [joinLowFirst_cutBits, sum_pieceWidths, Nat.mod_eq_of_lt f.fits]

/-- A field inside one element comes back if and only if the bit after it is clear. -/
theorem regrouped_inside {s : Nat} {f : BitField} (inside : f.n ≤ Tn.bits - s % Tn.bits)
    (rest : List BitField) : regrouped Tn s f rest = f.v ↔ nextBit Tn (s + f.n) rest = 0 := by
  have value : regrouped Tn s f rest = f.v + 2 ^ f.n * nextBit Tn (s + f.n) rest := by
    rw [regrouped, pieceWidths, lastWidth, if_pos inside, if_pos inside, cutBits, joinHighFirst,
      Nat.mod_eq_of_lt f.fits, Nat.zero_mul, Nat.zero_add]
    exact or_shiftLeft f.fits _
  have positive := Nat.two_pow_pos f.n
  rw [value]
  constructor
  · intro same
    rcases Nat.mul_eq_zero.mp (Nat.add_eq_left.mp same) with zero | clear
    · omega
    · exact clear
  · intro clear
    rw [clear, Nat.mul_zero, Nat.add_zero]

/-! ## The fields as one number -/

/-- The number whose bits are those of the fields. -/
def numberOf : List BitField → Nat
  | [] => 0
  | f :: rest => f.v + 2 ^ f.n * numberOf rest

variable {Tn}

theorem stands_writeAll {w : BitBufferWriter} {S P : Nat} (stands : w.Stands Tn S P)
    (fields : List BitField) :
    (writeAll Tn w fields).Stands Tn (S + 2 ^ P * numberOf fields) (P + bitsOf fields) := by
  induction fields generalizing w S P with
  | nil => simpa [writeAll, numberOf, bitsOf] using stands
  | cons f rest ih =>
      have written := ih (stands.writeUint f.fits)
      have number : S + 2 ^ P * numberOf (f :: rest) =
          S + 2 ^ P * f.v + 2 ^ (P + f.n) * numberOf rest := by
        rw [numberOf, pow_add]
        ring
      rw [number, bitsOf, List.map_cons, List.sum_cons, ← Nat.add_assoc]
      exact written

theorem numberOf_mod_two (rest : List BitField) :
    numberOf rest % 2 = match rest with
      | [] => 0
      | f :: _ => f.v % 2 := by
  cases rest with
  | nil => rfl
  | cons f rest =>
      obtain ⟨m, succ⟩ : ∃ m, f.n = m + 1 := ⟨f.n - 1, by have := f.pos; omega⟩
      rw [numberOf, succ, pow_succ', Nat.mul_assoc, Nat.add_mul_mod_self_left]

/-- Reading widths over the fields' bits from bit `s` on returns the fields if and
only if each comes back. -/
theorem readAll_iff (narrow : Tn ≠ .uint64) {S P s : Nat} {r : BitBufferReader}
    (reads : r.ReadsAt Tn S P s) {fields : List BitField} (here : S / 2 ^ s = numberOf fields)
    (ends : s + bitsOf fields = P) :
    readAll Tn (fields.map n) r = .ok (fields.map v) ↔ ComesBack Tn s fields := by
  induction fields generalizing s r with
  | nil => exact ⟨fun _ => trivial, fun _ => rfl⟩
  | cons f rest ih =>
      rw [bitsOf, List.map_cons, List.sum_cons] at ends
      have read := reads.readUint narrow f.pos f.width (by omega)
      have there : S / 2 ^ (s + f.n) = numberOf rest := by
        rw [pow_add, ← Nat.div_div_eq_div_mul, here, numberOf,
          Nat.add_mul_div_left _ _ (Nat.two_pow_pos _), Nat.div_eq_of_lt f.fits, Nat.zero_add]
      have stray : BitBufferReader.strayBit Tn S (s + f.n) = nextBit Tn (s + f.n) rest := by
        rw [BitBufferReader.strayBit, there, numberOf_mod_two]
        cases rest with
        | nil => exact ite_self 0
        | cons g rest => rfl
      have pieces : cutBits (pieceWidths Tn.bits (Tn.bits - s % Tn.bits) f.n) (S / 2 ^ s) =
          cutBits (pieceWidths Tn.bits (Tn.bits - s % Tn.bits) f.n) f.v := by
        rw [here, numberOf]
        exact cutBits_add (sum_pieceWidths _ _ _) _ _
      rw [pieces, stray] at read
      rw [ComesBack, List.map_cons, List.map_cons, readAll]
      by_cases defined : lastWidth Tn.bits (Tn.bits - s % Tn.bits) f.n + 1 < Tn.promoted
      · rw [if_pos defined] at read
        obtain ⟨next, result, reads'⟩ := read
        have later := ih reads' there (by rw [bitsOf]; omega)
        rw [result]
        dsimp only
        rw [← later]
        constructor
        · intro returned
          cases others : readAll Tn (rest.map n) next with
          | error e => rw [others] at returned; cases returned
          | ok vs =>
              rw [others] at returned
              injection returned with values
              injection values with value values
              exact ⟨defined, value, by rw [values]⟩
        · rintro ⟨-, value, others⟩
          rw [others]
          exact congrArg (fun v => Except.ok (v :: List.map BitField.v rest)) value
      · rw [if_neg defined] at read
        rw [read]
        constructor
        · intro returned
          cases returned
        · intro comes
          exact absurd comes.1 defined

/-- **Fields written and read back return exactly if and only if each is its own
regrouping.** -/
theorem round_trip_iff (narrow : Tn ≠ .uint64) (fields : List BitField) :
    roundTrip Tn fields = .ok (fields.map v) ↔ ComesBack Tn 0 fields := by
  have stands := stands_writeAll (@BitBufferWriter.stands_fresh Tn) fields
  rw [pow_zero, Nat.one_mul, Nat.zero_add, Nat.zero_add] at stands
  have reads := BitBufferReader.readsAt_make stands.lt stands.pickData
  exact readAll_iff narrow reads (by rw [pow_zero, Nat.div_one]) (Nat.zero_add _)

/-- Two fields of one byte: the second starts with a zero bit. -/
theorem round_trip_even :
    roundTrip .uint8 [⟨5, 3, by decide, by decide, by decide⟩,
      ⟨2, 5, by decide, by decide, by decide⟩] = .ok [5, 2] :=
  (round_trip_iff (by decide) _).mpr ⟨by decide, by decide, by decide, by decide, trivial⟩

/-- **Refuted**: a one-bit field followed by a set bit comes back as three. -/
theorem round_trip_refuted :
    ¬ ∀ (Tn : ElemType), Tn ≠ .uint64 → ∀ fields : List BitField,
      roundTrip Tn fields = .ok (fields.map v) := by
  intro always
  have back := always .uint8 (by decide) [⟨1, 1, by decide, by decide, by decide⟩,
    ⟨1, 1, by decide, by decide, by decide⟩]
  have three : roundTrip .uint8 [⟨1, 1, by decide, by decide, by decide⟩,
    ⟨1, 1, by decide, by decide, by decide⟩] = .ok [3, 1] := by rfl
  rw [three] at back
  cases back

end BitField

end UdpStuff.Proto
