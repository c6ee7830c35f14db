/-
# Proto.IntWriter — the bit writer with an `int` for a value

`write_uint(v, n)` and `write_uint_at(bit_pos, v, n)` take the value first.  A call that
has the width first makes `v` an `int`, and its count whatever the number is: also
negative, after the conversion to `int`.  A shift of an `int` by 32 or more, or by less
than 0, is undefined.  A left shift is otherwise that of its bits.

Where the writer gets to depends on the counts alone (`Cursor`): `writeUint_cursor` and
`writeUintAt_cursor` say which calls are defined and what they do to the position.
-/
import UdpStuff.Proto.WriteAt

namespace UdpStuff.Proto

set_option autoImplicit false

open BitBufferWriter

/-- The conversion to `int`. -/
def toInt (z : Int) : Int := z.bmod (2 ^ 32)

/-- `v << k` of an `int` -/
def shlInt (v k : Int) : Except WriteError Int :=
  if 0 ≤ k ∧ k < 32 then .ok (toInt (v * 2 ^ k.toNat)) else .error .undefinedShift

/-- `v >> k` of an `int` -/
def shrInt (v k : Int) : Except WriteError Int :=
  if 0 ≤ k ∧ k < 32 then .ok (v >>> k.toNat) else .error .undefinedShift

/-- The bits of an `int` in as many. -/
def lowBits (bits : Nat) (z : Int) : Nat := (z % (2 ^ bits : Nat)).toNat

/-- `Tn(1) << n`, after promotion, for any `int`. -/
def oneShiftedInt (Tn : ElemType) (n : Int) : Except WriteError Nat :=
  if 0 ≤ n then oneShifted Tn n.toNat else .error .undefinedShift

/-- A `BitBufferWriter`, whose pending bits can be fewer than none. -/
structure IntWriter where
  out : List Nat := []
  outV : Nat := 0
  bitsOut : Int := 0

namespace IntWriter

variable (Tn : ElemType)

/-- `get_bit_pos`, as a `size_t` that does not wrap. -/
def getBitPos (w : IntWriter) : Int := Tn.bits * w.out.length + w.bitsOut

/-- The `while` loop of `write_uint`, and what follows it. -/
def writeWhole (v n : Int) (out : List Nat) : Except WriteError IntWriter :=
  if Tn.bits < n then do
    let rest ← shrInt v Tn.bits
    writeWhole rest (n - Tn.bits) (out ++ [lowBits Tn.bits v])
  else .ok ⟨out, lowBits Tn.bits v, n⟩
termination_by n.toNat
decreasing_by
  have := Tn.bits_pos
  omega

/-- `write_uint<int>` -/
def writeUint (w : IntWriter) (v n : Int) : Except WriteError IntWriter :=
  if n ≤ Tn.bits - w.bitsOut then do
    let shifted ← shlInt v w.bitsOut
    return { w with outV := w.outV ||| lowBits Tn.bits shifted, bitsOut := w.bitsOut + n }
  else do
    let b := Tn.bits - w.bitsOut
    let shifted ← shlInt v w.bitsOut
    let rest ← shrInt v b
    writeWhole Tn rest (n - b) (w.out ++ [w.outV ||| lowBits Tn.bits shifted])

/-- The elements behind the first one of `write_uint_at`. -/
def writeAtWhole (v : Int) (n itemPos : Nat) (out : List Nat) : Except WriteError (List Nat) :=
  if Tn.bits < n then do
    let out ← set Tn out itemPos (lowBits Tn.bits v)
    let rest ← shrInt v Tn.bits
    writeAtWhole rest (n - Tn.bits) (itemPos + 1) out
  else do
    let one ← oneShifted Tn n
    let old ← get out itemPos
    set Tn out itemPos (old &&& complement Tn (one - 1) ||| lowBits Tn.promoted v)
termination_by n
decreasing_by
  have := Tn.bits_pos
  omega

/-- `write_uint_at<int>`.  A `bit_pos` below zero is a `size_t` behind every element. -/
def writeUintAt (order : ArgOrder) (w : IntWriter) (bitPos v n : Int) :
    Except WriteError IntWriter :=
  if bitPos < 0 then .error .outOfRange
  else
    let itemPos := bitPos.toNat / Tn.bits
    let bits := bitPos.toNat % Tn.bits
    if n < Tn.bits - bits then do
      let one ← oneShiftedInt Tn n
      let old ← get w.out itemPos
      let shifted ← shlInt v bits
      let out ← set Tn w.out itemPos
        (old &&& ((complement Tn (one - 1)) <<< bits) % 2 ^ Tn.promoted |||
          lowBits Tn.promoted shifted)
      return { w with out }
    else do
      let b : Int := Tn.bits - bits
      -- `set(item_pos++, get(item_pos) ...)`
      let old ← get w.out (order.source itemPos)
      let shifted ← shlInt v bits
      let out ← set Tn w.out itemPos
        (old &&& complement Tn (((2 ^ Tn.bits - 1) <<< bits) % 2 ^ Tn.promoted) |||
          lowBits Tn.promoted shifted)
      let rest ← shrInt v b
      let out ← writeAtWhole Tn rest (n - b).toNat (itemPos + 1) out
      return { w with out }

end IntWriter

/-! ## Positions -/

/-- The number of elements stored, and the count of pending bits. -/
structure Cursor where
  stored : Nat := 0
  bits : Int := 0

def IntWriter.cursor (w : IntWriter) : Cursor := ⟨w.out.length, w.bitsOut⟩

namespace Cursor

variable (Tn : ElemType)

def pos (c : Cursor) : Int := Tn.bits * c.stored + c.bits

/-- The count of an `int` shift. -/
def Shifts (k : Int) : Prop := 0 ≤ k ∧ k < 32

instance (k : Int) : Decidable (Shifts k) := inferInstanceAs (Decidable (_ ∧ _))

/-- Elements stored one after another, as far as shifts are defined. -/
def whole (n : Int) (stored : Nat) : Option Cursor :=
  if Tn.bits < n then
    if Shifts Tn.bits then whole (n - Tn.bits) (stored + 1) else none
  else some ⟨stored, n⟩
termination_by n.toNat
decreasing_by
  have := Tn.bits_pos
  omega

/-- `write_uint` of a count. -/
def put (c : Cursor) (n : Int) : Option Cursor :=
  if Shifts c.bits then
    if n ≤ Tn.bits - c.bits then some { c with bits := c.bits + n }
    else if Shifts (Tn.bits - c.bits) then whole Tn (n - (Tn.bits - c.bits)) (c.stored + 1)
    else none
  else none

/-- The elements behind the first one of `write_uint_at` are stored, and the shifts defined. -/
def patchesWhole (stored n itemPos : Nat) : Bool :=
  if Tn.bits < n then
    itemPos < stored && Shifts Tn.bits && patchesWhole stored (n - Tn.bits) (itemPos + 1)
  else n < Tn.promoted && itemPos < stored
termination_by n
decreasing_by
  have := Tn.bits_pos
  omega

/-- `write_uint_at` is defined, with so many elements stored. -/
def patches (order : ArgOrder) (stored : Nat) (bitPos n : Int) : Bool :=
  if bitPos < 0 then false
  else
    let itemPos := bitPos.toNat / Tn.bits
    let bits := bitPos.toNat % Tn.bits
    if n < Tn.bits - bits then
      0 ≤ n && n.toNat < Tn.promoted && itemPos < stored && Shifts bits
    else
      order.source itemPos < stored && Shifts bits && itemPos < stored &&
        Shifts (Tn.bits - bits) &&
        patchesWhole Tn stored (n - (Tn.bits - bits)).toNat (itemPos + 1)

variable {Tn}

theorem whole_pos {n : Int} {stored : Nat} {c : Cursor} (there : whole Tn n stored = some c) :
    c.pos Tn = Tn.bits * stored + n := by
  fun_induction whole Tn n stored with
  | case1 n stored long shifts ih =>
      rw [ih there, Nat.cast_succ, Int.mul_add]
      omega
  | case2 n stored long undefined => cases there
  | case3 n stored short =>
      cases there
      rfl

/-- A call that is defined goes on by its count. -/
theorem put_pos {c next : Cursor} {n : Int} (there : c.put Tn n = some next) :
    next.pos Tn = c.pos Tn + n := by
  rw [put] at there
  split at there
  · split at there
    · cases there
      simp only [pos]
      omega
    · split at there
      · rw [whole_pos there, Nat.cast_succ, Int.mul_add, pos]
        omega
      · cases there
  · cases there

/-- Pending bits as a writer of elements leaves them. -/
def Pending (Tn : ElemType) (c : Cursor) : Prop := 0 ≤ c.bits ∧ c.bits ≤ Tn.bits

theorem whole_defined (narrow : Tn.bits < 32) {n : Int} (positive : 0 ≤ n) (stored : Nat) :
    ∃ c, whole Tn n stored = some c ∧ c.Pending Tn := by
  fun_induction whole Tn n stored with
  | case1 n stored long shifts ih => exact ih (by omega)
  | case2 n stored long undefined => exact absurd ⟨by omega, by omega⟩ undefined
  | case3 n stored short => exact ⟨_, rfl, positive, Int.not_lt.mp short⟩

/-- Elements narrower than an `int` take every count that is not negative. -/
theorem put_defined (narrow : Tn.bits < 32) {c : Cursor} (pending : c.Pending Tn) {n : Int}
    (positive : 0 ≤ n) : ∃ next, c.put Tn n = some next ∧ next.Pending Tn := by
  obtain ⟨low, high⟩ := pending
  have shifts : Shifts c.bits := ⟨low, by omega⟩
  have rest : Shifts (Tn.bits - c.bits) := ⟨by omega, by omega⟩
  rw [put, if_pos shifts]
  by_cases fits : n ≤ Tn.bits - c.bits
  · rw [if_pos fits]
    exact ⟨_, rfl, Int.add_nonneg low positive, by dsimp only; omega⟩
  · rw [if_neg fits, if_pos rest]
    exact whole_defined narrow (by omega) _

end Cursor

namespace IntWriter

variable {Tn : ElemType}

/-- Where a call gets to, if it is defined. -/
def reached {ε : Type} : Except ε IntWriter → Option Cursor
  | .ok w => some w.cursor
  | .error _ => none

theorem shlInt_ok (v : Int) {k : Int} (shifts : Cursor.Shifts k) :
    shlInt v k = .ok (toInt (v * 2 ^ k.toNat)) := if_pos shifts

theorem shlInt_error (v : Int) {k : Int} (undefined : ¬ Cursor.Shifts k) :
    shlInt v k = .error .undefinedShift := if_neg undefined

theorem shrInt_ok (v : Int) {k : Int} (shifts : Cursor.Shifts k) :
    shrInt v k = .ok (v >>> k.toNat) := if_pos shifts

theorem shrInt_error (v : Int) {k : Int} (undefined : ¬ Cursor.Shifts k) :
    shrInt v k = .error .undefinedShift := if_neg undefined

theorem writeWhole_cursor (v n : Int) (out : List Nat) :
    reached (writeWhole Tn v n out) = Cursor.whole Tn n out.length := by
  have base := Tn.bits_pos
  induction k : n.toNat using Nat.strongRecOn generalizing v n out with
  | ind k ih =>
      rw [writeWhole, Cursor.whole]
      by_cases long : (Tn.bits : Int) < n
      · rw [if_pos long, if_pos long]
        by_cases shifts : Cursor.Shifts Tn.bits
        · have later := ih (n - Tn.bits).toNat (by omega) (v >>> (Tn.bits : Int).toNat)
            (n - Tn.bits) (out ++ [lowBits Tn.bits v]) rfl
          rw [shrInt_ok v shifts, ok_bind, if_pos shifts, later, List.length_append,
            List.length_singleton]
        · rw [shrInt_error v shifts, error_bind, if_neg shifts]
          rfl
      · rw [if_neg long, if_neg long]
        rfl

/-- **`write_uint`** gets to where its count says, or is not defined. -/
theorem writeUint_cursor (w : IntWriter) (v n : Int) :
    reached (w.writeUint Tn v n) = w.cursor.put Tn n := by
  have bits : w.cursor.bits = w.bitsOut := rfl
  rw [writeUint, Cursor.put, bits]
  by_cases shifts : Cursor.Shifts w.bitsOut
  · rw [shlInt_ok v shifts, if_pos shifts]
    by_cases fits : n ≤ Tn.bits - w.bitsOut
    · rw [if_pos fits, if_pos fits]
      rfl
    · rw [if_neg fits, if_neg fits]
      dsimp only
      rw [ok_bind]
      by_cases rest : Cursor.Shifts (Tn.bits - w.bitsOut)
      · rw [shrInt_ok v rest, if_pos rest, ok_bind, writeWhole_cursor, List.length_append,
          List.length_singleton]
        rfl
      · rw [shrInt_error v rest, if_neg rest]
        rfl
  · rw [shlInt_error v shifts, if_neg shifts]
    split <;> rfl

/-- The elements of a patch, or none if they are not all stored and shifted. -/
def stores (result : Except WriteError (List Nat)) : Option Nat :=
  match result with
  | .ok out => some out.length
  | .error _ => none

theorem writeAtWhole_stores (v : Int) (n itemPos : Nat) (out : List Nat) :
    stores (writeAtWhole Tn v n itemPos out) =
      if Cursor.patchesWhole Tn out.length n itemPos then some out.length else none := by
  have base := Tn.bits_pos
  induction n using Nat.strongRecOn generalizing v itemPos out with
  | ind n ih =>
      rw [writeAtWhole, Cursor.patchesWhole]
      by_cases long : Tn.bits < n
      · rw [if_pos long, if_pos long]
        by_cases stored : itemPos < out.length
        · rw [set_ok stored, ok_bind]
          by_cases shifts : Cursor.Shifts Tn.bits
          · rw [shrInt_ok v shifts, ok_bind, ih (n - Tn.bits) (by omega)]
            simp [stored, shifts]
          · rw [shrInt_error v shifts, error_bind]
            simp [stores, shifts]
        · rw [set_error stored, error_bind]
          simp [stores, stored]
      · rw [if_neg long, if_neg long]
        by_cases mask : n < Tn.promoted
        · rw [oneShifted, if_pos mask, ok_bind]
          by_cases stored : itemPos < out.length
          · rw [get_ok stored, ok_bind, set_ok stored]
            simp [stores, mask, stored]
          · rw [get_error stored, error_bind]
            simp [stores, stored]
        · rw [oneShifted, if_neg mask, error_bind]
          simp [stores, mask]

theorem reached_patch (w : IntWriter) {result : Except WriteError (List Nat)} {good : Bool}
    (patched : stores result = if good then some w.out.length else none) :
    reached (result >>= fun out => pure { w with out }) =
      if good then some w.cursor else none := by
  cases result with
  | ok out =>
      cases good with
      | true =>
          have size : out.length = w.out.length := Option.some.inj patched
          simp [reached, cursor, pure, Except.pure, size]
      | false => cases patched
  | error e =>
      cases good with
      | true => cases patched
      | false => rfl

/-- **`write_uint_at`** leaves the position as it is, or is not defined. -/
theorem writeUintAt_cursor (order : ArgOrder) (w : IntWriter) (bitPos v n : Int) :
    reached (w.writeUintAt Tn order bitPos v n) =
      if Cursor.patches Tn order w.out.length bitPos n then some w.cursor else none := by
  rw [writeUintAt, Cursor.patches]
  by_cases below : bitPos < 0
  · rw [if_pos below, if_pos below]
    rfl
  · rw [if_neg below, if_neg below]
    obtain ⟨itemPos, item⟩ : ∃ i, bitPos.toNat / Tn.bits = i := ⟨_, rfl⟩
    obtain ⟨bits, offset⟩ : ∃ b, bitPos.toNat % Tn.bits = b := ⟨_, rfl⟩
    simp only [item, offset]
    by_cases inside : n < Tn.bits - bits
    · rw [if_pos inside, if_pos inside, oneShiftedInt]
      by_cases positive : 0 ≤ n
      · rw [if_pos positive, oneShifted]
        by_cases mask : n.toNat < Tn.promoted
        · rw [if_pos mask, ok_bind]
          by_cases stored : itemPos < w.out.length
          · rw [get_ok stored, ok_bind]
            by_cases shifts : Cursor.Shifts bits
            · rw [shlInt_ok v shifts, ok_bind, set_ok stored]
              simp [reached, cursor, positive, mask, stored, shifts]
            · rw [shlInt_error v shifts]
              simp [reached, shifts]
          · rw [get_error stored]
            simp [reached, stored]
        · rw [if_neg mask]
          simp [reached, mask]
      · rw [if_neg positive]
        simp [reached, positive]
    · rw [if_neg inside, if_neg inside]
      by_cases source : order.source itemPos < w.out.length
      · rw [get_ok source, ok_bind]
        by_cases shifts : Cursor.Shifts bits
        · rw [shlInt_ok v shifts, ok_bind]
          by_cases stored : itemPos < w.out.length
          · rw [set_ok stored, ok_bind]
            by_cases rest : Cursor.Shifts (Tn.bits - bits)
            · rw [shrInt_ok v rest, ok_bind]
              have whole := @writeAtWhole_stores Tn (v >>> (Tn.bits - bits : Int).toNat)
                (n - (Tn.bits - bits)).toNat (itemPos + 1)
              refine (reached_patch w ((whole _).trans (by rw [List.length_set]))).trans ?_
              simp [source, shifts, stored, rest]
            · rw [shrInt_error v rest]
              simp [reached, rest]
          · rw [set_error stored]
            simp [reached, stored]
        · rw [shlInt_error v shifts]
          simp [reached, shifts]
      · rw [get_error source]
        simp [reached, source]

end IntWriter

end UdpStuff.Proto
