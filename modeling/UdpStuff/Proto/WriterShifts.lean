/-
# Proto.WriterShifts — shifts the writer must not do, and bits it leaves behind

A shift of a `uint64_t` by 64 or more is undefined.  `writeUintChecked` is
`write_uint` with every shift checked: a pending element of 64 bits may be full, and
then the next call, of any width, shifts by 64 (`shifts_defined_iff`).

`pick_data` sets `bits_out` back and not `out_v`.  A writer used again joins its
first fields to what the last element of the earlier message was (`reuse_iff`).
-/
import UdpStuff.Proto.WriterBits

namespace UdpStuff.Proto

set_option autoImplicit false

open UdpStuff.Theory

inductive WriteError where
  | undefinedShift
  | outOfRange
deriving DecidableEq

/-- `v << k` of a `uint64_t` -/
def shl (v k : Nat) : Except WriteError Nat :=
  if k < 64 then .ok ((v <<< k) % 2 ^ 64) else .error .undefinedShift

/-- `v >> k` of a `uint64_t` -/
def shr (v k : Nat) : Except WriteError Nat :=
  if k < 64 then .ok (v >>> k) else .error .undefinedShift

theorem ElemType.bits_le_64 (Tn : ElemType) : Tn.bits ≤ 64 := by
  cases Tn <;> decide

theorem ElemType.bits_eq_64 {Tn : ElemType} : Tn.bits = 64 ↔ Tn = .uint64 := by
  cases Tn <;> decide

namespace BitBufferWriter

variable (Tn : ElemType)

/-! ## The checked writer -/

/-- `writeWhole` with its shifts checked. -/
def writeWholeChecked (v n : Nat) (out : List Nat) : Except WriteError BitBufferWriter :=
  if Tn.bits < n then
    match shr v Tn.bits with
    | .error e => .error e
    | .ok rest => writeWholeChecked rest (n - Tn.bits) (out ++ [v % 2 ^ Tn.bits])
  else .ok ⟨out, v % 2 ^ Tn.bits, n⟩
termination_by n
decreasing_by
  have := Tn.bits_pos
  omega

/-- `write_uint` with its shifts checked. -/
def writeUintChecked (w : BitBufferWriter) (v n : Nat) : Except WriteError BitBufferWriter :=
  if n ≤ Tn.bits - w.bitsOut then
    match shl v w.bitsOut with
    | .error e => .error e
    | .ok shifted =>
      .ok { w with
        outV := (w.outV ||| shifted) % 2 ^ Tn.bits
        bitsOut := w.bitsOut + n }
  else
    let b := Tn.bits - w.bitsOut
    match shl v w.bitsOut with
    | .error e => .error e
    | .ok shifted =>
      match shr v b with
      | .error e => .error e
      | .ok rest =>
        writeWholeChecked Tn rest (n - b) (w.out ++ [(w.outV ||| shifted) % 2 ^ Tn.bits])

def writeUintsChecked (w : BitBufferWriter) : List (Nat × Nat) → Except WriteError BitBufferWriter
  | [] => .ok w
  | (v, n) :: rest =>
    match w.writeUintChecked Tn v n with
    | .error e => .error e
    | .ok next => next.writeUintsChecked rest

variable {Tn}

theorem writeWholeChecked_eq {n : Nat} (defined : Tn.bits < 64 ∨ n ≤ Tn.bits) (v : Nat)
    (out : List Nat) : writeWholeChecked Tn v n out = .ok (writeWhole Tn v n out) := by
  induction n using Nat.strongRecOn generalizing v out with
  | ind n ih =>
      have base := Tn.bits_pos
      rw [writeWholeChecked, writeWhole]
      by_cases long : Tn.bits < n
      · have narrow : Tn.bits < 64 := defined.resolve_right (Nat.not_le.mpr long)
        rw [if_pos long, if_pos long, shr, if_pos narrow]
        exact ih (n - Tn.bits) (by omega) (.inl narrow) _ _
      · rw [if_neg long, if_neg long]

/-- The bits that a shift of a `uint64_t` loses are not joined. -/
theorem joined_mod (w : BitBufferWriter) (v : Nat) :
    (w.outV ||| (v <<< w.bitsOut) % 2 ^ 64) % 2 ^ Tn.bits =
      (w.outV ||| v <<< w.bitsOut) % 2 ^ Tn.bits := by
  have wide := Tn.bits_le_64
  apply Nat.eq_of_testBit_eq
  intro j
  rw [Nat.testBit_mod_two_pow, Nat.testBit_mod_two_pow, Nat.testBit_or, Nat.testBit_or,
    Nat.testBit_mod_two_pow]
  by_cases low : j < Tn.bits
  · rw [decide_eq_true (Nat.lt_of_lt_of_le low wide), Bool.true_and]
  · rw [decide_eq_false low, Bool.false_and, Bool.false_and]

/-- A call does what `write_uint` does, but shifts by 64 when 64 bits are pending. -/
theorem writeUintChecked_eq {w : BitBufferWriter} (formed : Formed Tn w) {n : Nat}
    (width : n ≤ 64) (v : Nat) :
    w.writeUintChecked Tn v n =
      if w.bitsOut < 64 then .ok (w.writeUint Tn v n) else .error .undefinedShift := by
  have within := formed.within
  have wide := Tn.bits_le_64
  rw [writeUintChecked, writeUint, shl]
  by_cases room : w.bitsOut < 64
  · rw [if_pos room, if_pos room]
    by_cases fits : n ≤ Tn.bits - w.bitsOut
    · rw [if_pos fits, if_pos fits]
      dsimp only
      rw [joined_mod]
    · have defined : Tn.bits - w.bitsOut < 64 := by omega
      rw [if_neg fits, if_neg fits]
      dsimp only
      rw [shr, if_pos defined]
      dsimp only
      rw [joined_mod, writeWholeChecked_eq]
      omega
  · rw [if_neg room, if_neg room]
    exact ite_self _

/-- 64 bits are pending in an element of as many. -/
def Full (Tn : ElemType) (P : Nat) : Prop := Tn = .uint64 ∧ 0 < P ∧ P % 64 = 0

theorem Formed.full_iff {w : BitBufferWriter} (formed : Formed Tn w) :
    Full Tn (w.getBitPos Tn) ↔ ¬ w.bitsOut < 64 := by
  have within := formed.within
  have wide := Tn.bits_le_64
  rw [getBitPos]
  constructor
  · rintro ⟨rfl, some, multiple⟩ room
    have none : w.bitsOut = 0 := by
      rw [ElemType.bits] at multiple
      omega
    rw [formed.begun none, none] at some
    exact absurd some (by decide)
  · intro full
    have type : Tn = .uint64 := ElemType.bits_eq_64.mp (by omega)
    have bits : Tn.bits = 64 := ElemType.bits_eq_64.mpr type
    refine ⟨type, by omega, ?_⟩
    rw [bits] at within ⊢
    omega

/-- No call finds 64 bits pending. -/
def Defined (Tn : ElemType) (P : Nat) (calls : List (Nat × Nat)) : Prop :=
  ∀ before c after, calls = before ++ c :: after → ¬ Full Tn (P + widths before)

theorem defined_cons {P v n : Nat} {rest : List (Nat × Nat)} :
    Defined Tn P ((v, n) :: rest) ↔ ¬ Full Tn P ∧ Defined Tn (P + n) rest := by
  have step (before : List (Nat × Nat)) :
      P + widths ((v, n) :: before) = P + n + widths before := by
    rw [widths, List.map_cons, List.sum_cons, ← Nat.add_assoc, ← widths]
  constructor
  · intro defined
    refine ⟨defined [] (v, n) rest rfl, ?_⟩
    rintro before c after rfl
    rw [← step]
    exact defined ((v, n) :: before) c after rfl
  · rintro ⟨first, later⟩ before c after split
    cases before with
    | nil => exact first
    | cons d before =>
        cases split
        rw [step]
        exact later before c after rfl

/-- Checked calls do what the calls do, or one of them is not defined. -/
theorem writeUintsChecked_iff {w : BitBufferWriter} (formed : Formed Tn w)
    {calls : List (Nat × Nat)} (narrow : ∀ c ∈ calls, c.2 ≤ 64) {w' : BitBufferWriter} :
    w.writeUintsChecked Tn calls = .ok w' ↔
      Defined Tn (w.getBitPos Tn) calls ∧ w' = w.writeUints Tn calls := by
  induction calls generalizing w with
  | nil =>
      constructor
      · intro done
        cases done
        refine ⟨?_, rfl⟩
        intro before c after split
        cases before <;> cases split
      · rintro ⟨-, rfl⟩
        rfl
  | cons c rest ih =>
      obtain ⟨v, n⟩ := c
      have later := ih (formed.writeUint v n) fun c member => narrow c (List.mem_cons_of_mem _ member)
      rw [writeUintsChecked, writeUintChecked_eq formed (narrow (v, n) List.mem_cons_self),
        defined_cons, formed.full_iff, not_not]
      by_cases room : w.bitsOut < 64
      · rw [if_pos room]
        dsimp only
        rw [later, getBitPos_writeUint formed]
        exact ⟨fun ⟨defined, same⟩ => ⟨⟨room, defined⟩, same⟩, fun ⟨⟨_, defined⟩, same⟩ =>
          ⟨defined, same⟩⟩
      · rw [if_neg room]
        constructor
        · intro failed
          cases failed
        · rintro ⟨⟨some, -⟩, -⟩
          exact absurd some room

/-- **Every shift is defined** if and only if elements are narrower than 64 bits or no call
is made when a positive multiple of 64 bits is written. -/
theorem shifts_defined_iff (Tn : ElemType) {calls : List (Nat × Nat)}
    (fits : ∀ c ∈ calls, c.2 ≤ 64 ∧ c.1 < 2 ^ c.2) :
    (∃ w, writeUintsChecked Tn {} calls = .ok w) ↔
      (Tn = .uint64 → ∀ before c after, calls = before ++ c :: after →
        ¬ (0 < widths before ∧ widths before % 64 = 0)) := by
  have checked (w : BitBufferWriter) : writeUintsChecked Tn {} calls = .ok w ↔
      Defined Tn 0 calls ∧ w = writeUints Tn {} calls := by
    rw [writeUintsChecked_iff formed_fresh fun c member => (fits c member).1, getBitPos_start]
  constructor
  · rintro ⟨w, done⟩ type before c after split full
    have defined := ((checked w).mp done).1 before c after split
    rw [Nat.zero_add] at defined
    exact defined ⟨type, full⟩
  · intro spared
    refine ⟨_, (checked _).mpr ⟨?_, rfl⟩⟩
    rintro before c after split ⟨type, full⟩
    rw [Nat.zero_add] at full
    exact spared type before c after split full

/-- Two halves of an element of 64 bits. -/
theorem shifts_defined_halves :
    ∃ w, writeUintsChecked .uint64 {} [(7, 32), (9, 32)] = .ok w := by
  refine (shifts_defined_iff .uint64 (by decide)).mpr fun _ before c after split => ?_
  rcases before with _ | ⟨first, _ | ⟨second, before⟩⟩
  · decide
  · cases split
    decide
  · simp at split

/-- **Refuted**: after 64 bits any call, even of no bits, shifts by 64. -/
theorem shifts_defined_refuted :
    ¬ ∀ (Tn : ElemType) (calls : List (Nat × Nat)), (∀ c ∈ calls, c.2 ≤ 64 ∧ c.1 < 2 ^ c.2) →
      ∃ w, writeUintsChecked Tn {} calls = .ok w := by
  intro always
  obtain ⟨w, done⟩ := always .uint64 [(1, 64), (0, 0)] (by decide)
  cases done

/-! ## The writer used again -/

/-- The writer behind a `pick_data` whose vector was moved out. -/
def moved (w : BitBufferWriter) : BitBufferWriter := { w.pickData with out := [] }

variable (Tn) in
/-- The elements that a writer picks after these calls. -/
def message (w : BitBufferWriter) (calls : List (Nat × Nat)) : Except WriteError (List Nat) :=
  match w.writeUintsChecked Tn calls with
  | .error e => .error e
  | .ok w => .ok w.pickData.out

variable (Tn) in
/-- The same for the second message of a writer. -/
def messageAfter (first second : List (Nat × Nat)) : Except WriteError (List Nat) :=
  match writeUintsChecked Tn {} first with
  | .error e => .error e
  | .ok w => w.moved.message Tn second

theorem message_iff {w : BitBufferWriter} (formed : Formed Tn w) {calls : List (Nat × Nat)}
    (narrow : ∀ c ∈ calls, c.2 ≤ 64) {data : List Nat} :
    w.message Tn calls = .ok data ↔ Defined Tn (w.getBitPos Tn) calls ∧
      data = (w.writeUints Tn calls).pickData.out := by
  have checked (w' : BitBufferWriter) := @writeUintsChecked_iff Tn w formed calls narrow w'
  rw [message]
  cases done : w.writeUintsChecked Tn calls with
  | error e =>
      constructor
      · intro failed
        cases failed
      · rintro ⟨defined, -⟩
        rw [(checked _).mpr ⟨defined, rfl⟩] at done
        cases done
  | ok next =>
      obtain ⟨defined, rfl⟩ := (checked next).mp done
      dsimp only
      rw [Except.ok.injEq, eq_comm]
      exact ⟨fun same => ⟨defined, same⟩, fun ⟨_, same⟩ => same⟩

theorem pickData_outV (w : BitBufferWriter) : w.pickData.outV = w.outV := by
  rw [pickData]
  split <;> rfl

theorem pickData_bitsOut (w : BitBufferWriter) : w.pickData.bitsOut = 0 := by
  rw [pickData]
  split
  case isTrue => rfl
  case isFalse none => exact not_not.mp none

theorem Formed.moved {w : BitBufferWriter} (formed : Formed Tn w) : Formed Tn w.moved where
  elements d member := by cases member
  pending := by
    rw [BitBufferWriter.moved, pickData_outV]
    exact formed.pending
  within := by
    rw [BitBufferWriter.moved, pickData_bitsOut]
    exact Nat.zero_le _
  begun _ := rfl

theorem getBitPos_moved (w : BitBufferWriter) : w.moved.getBitPos Tn = 0 := by
  rw [getBitPos, moved, pickData_bitsOut, List.length_nil, Nat.zero_mul]

/-- What is left in the pending element is the last element of the message. -/
theorem moved_bit {calls : List (Nat × Nat)} (fits : ∀ c ∈ calls, c.1 < 2 ^ c.2) (p : Nat) :
    (writeUints Tn {} calls).moved.bit Tn p = (p < Tn.bits &&
      (fieldBits calls)[Tn.bits * ((widths calls - 1) / Tn.bits) + p]?.getD false) := by
  have base := Tn.bits_pos
  have formed := (@formed_fresh Tn).writeUints calls
  obtain ⟨w, written⟩ : ∃ w, writeUints Tn {} calls = w := ⟨_, rfl⟩
  have bits (q : Nat) : w.bit Tn q = (fieldBits calls)[q]?.getD false := by
    rw [← written]
    exact fresh_bit_of_fits fits q
  have position : w.getBitPos Tn = widths calls := by rw [← written, getBitPos_fresh]
  rw [written] at formed ⊢
  have stored : w.out.length = (widths calls - 1) / Tn.bits := by
    rw [← position, getBitPos]
    rcases Nat.eq_zero_or_pos w.bitsOut with none | some
    · rw [formed.begun none, none, List.length_nil, Nat.zero_mul, Nat.zero_div]
    · have within := formed.within
      rw [Nat.add_sub_assoc some, Nat.mul_comm, Nat.mul_add_div base, Nat.div_eq_of_lt (by omega),
        Nat.add_zero]
  have push := @cellBit_push Tn.bits [] base w.outV p
  rw [List.nil_append, List.length_nil, Nat.mul_zero, if_neg (Nat.not_lt_zero p), Nat.zero_add,
    Nat.mul_one, Nat.sub_zero] at push
  have same : w.moved.bit Tn p = cellBit Tn.bits [w.outV] p := by
    rw [bit, cells, moved, pickData_outV, List.nil_append]
  rw [same, push]
  by_cases low : p < Tn.bits
  · rw [decide_eq_true low, Bool.true_and, Bool.true_and, ← stored, ← bits, bit, cells,
      cellBit_at base low, List.getD_append_right _ _ _ _ (le_refl _), Nat.sub_self,
      List.getD_cons_zero]
  · rw [decide_eq_false low, Bool.false_and, Bool.false_and]

/-- Every bit left of the first message is one of the second's first element. -/
def Hidden (Tn : ElemType) (first second : List (Nat × Nat)) : Prop :=
  ∀ p, p < Tn.bits →
    (fieldBits first)[Tn.bits * ((widths first - 1) / Tn.bits) + p]? = some true →
      (fieldBits second)[p]? = some true

/-- Writers at one position have the same cells if and only if they have the same bits. -/
theorem Formed.cells_eq_iff {w w' : BitBufferWriter} (formed : Formed Tn w)
    (formed' : Formed Tn w') (position : w.getBitPos Tn = w'.getBitPos Tn) :
    w.cells = w'.cells ↔ ∀ p, w.bit Tn p = w'.bit Tn p := by
  have base := Tn.bits_pos
  have ends := formed.pendingEnd
  rw [position, ← formed'.pendingEnd] at ends
  have size : w.cells.length = w'.cells.length := by
    rw [cells, cells, List.length_append, List.length_append]
    exact Nat.eq_of_mul_eq_mul_left base ends
  constructor
  · intro same p
    rw [bit, bit, same]
  · intro same
    exact cells_ext base size (elements_push formed.elements formed.pending)
      (elements_push formed'.elements formed'.pending) fun p _ => same p

theorem hidden_iff {first second : List (Nat × Nat)} (fitsFirst : ∀ c ∈ first, c.1 < 2 ^ c.2)
    (fitsSecond : ∀ c ∈ second, c.1 < 2 ^ c.2) :
    Hidden Tn first second ↔ ∀ p, ((writeUints Tn {} first).moved.bit Tn p ||
      sets Tn 0 second p) = sets Tn 0 second p := by
  have bits (p : Nat) : sets Tn 0 second p = (fieldBits second)[p]?.getD false := by
    rw [← writeUints_fresh_bit]
    exact fresh_bit_of_fits fitsSecond p
  have set (x : Option Bool) : x.getD false = true ↔ x = some true := by
    cases x <;> simp
  constructor
  · intro hidden p
    rw [moved_bit fitsFirst, bits]
    by_cases low : p < Tn.bits
    · rw [decide_eq_true low, Bool.true_and]
      cases left : (fieldBits first)[Tn.bits * ((widths first - 1) / Tn.bits) + p]?.getD false with
      | false => rfl
      | true => rw [hidden p low ((set _).mp left), Option.getD_some, Bool.true_or]
    · rw [decide_eq_false low, Bool.false_and, Bool.false_or]
  · intro same p low left
    have here := same p
    rw [moved_bit fitsFirst, bits, decide_eq_true low, (set _).mpr left, Bool.true_and,
      Bool.true_or] at here
    exact (set _).mp here.symm

/-- The elements of a second message, when no shift stops the writer. -/
theorem moved_data_iff {first second : List (Nat × Nat)} (fitsFirst : ∀ c ∈ first, c.1 < 2 ^ c.2)
    (fitsSecond : ∀ c ∈ second, 1 ≤ c.2 ∧ c.1 < 2 ^ c.2) :
    ((writeUints Tn {} first).moved.writeUints Tn second).pickData.out =
        (writeUints Tn {} second).pickData.out ↔ second = [] ∨ Hidden Tn first second := by
  cases second with
  | nil =>
      refine ⟨fun _ => .inl rfl, fun _ => ?_⟩
      have none : (writeUints Tn {} first).moved.bitsOut = 0 := pickData_bitsOut _
      have same : (writeUints Tn {} first).moved.writeUints Tn [] =
          (writeUints Tn {} first).moved := rfl
      rw [same, pickData, none]
      rfl
  | cons c rest =>
      have after := ((@formed_fresh Tn).writeUints first).moved.writeUints (c :: rest)
      have alone := (@formed_fresh Tn).writeUints (c :: rest)
      have position := getBitPos_writeUints ((@formed_fresh Tn).writeUints first).moved (c :: rest)
      rw [getBitPos_moved, Nat.zero_add] at position
      have some : widths (c :: rest) ≠ 0 := by
        have := (fitsSecond c List.mem_cons_self).1
        rw [widths, List.map_cons, List.sum_cons]
        omega
      rw [after.pickData.2.resolve_left (by rwa [position]),
        alone.pickData.2.resolve_left (by rwa [getBitPos_fresh]),
        after.cells_eq_iff alone (by rw [position, getBitPos_fresh]),
        hidden_iff fitsFirst fun c member => (fitsSecond c member).2]
      simp only [writeUints_bit ((@formed_fresh Tn).writeUints first).moved, writeUints_fresh_bit,
        getBitPos_moved, reduceCtorEq, false_or]

/-- **A writer used again gives the same elements** if and only if no call of either message
is undefined, and the second is empty or hides what is left of the first. -/
theorem reuse_iff (Tn : ElemType) {first second : List (Nat × Nat)}
    (fitsFirst : ∀ c ∈ first, 1 ≤ c.2 ∧ c.2 ≤ 64 ∧ c.1 < 2 ^ c.2)
    (fitsSecond : ∀ c ∈ second, 1 ≤ c.2 ∧ c.2 ≤ 64 ∧ c.1 < 2 ^ c.2) :
    (∃ data, messageAfter Tn first second = .ok data ∧ message Tn {} second = .ok data) ↔
      Defined Tn 0 first ∧ Defined Tn 0 second ∧ (second = [] ∨ Hidden Tn first second) := by
  have widthsFirst : ∀ c ∈ first, c.2 ≤ 64 := fun c member => (fitsFirst c member).2.1
  have widthsSecond : ∀ c ∈ second, c.2 ≤ 64 := fun c member => (fitsSecond c member).2.1
  have hidden := @moved_data_iff Tn first second (fun c member => (fitsFirst c member).2.2)
    fun c member => ⟨(fitsSecond c member).1, (fitsSecond c member).2.2⟩
  have alone (data : List Nat) := @message_iff Tn {} formed_fresh second widthsSecond data
  have after (data : List Nat) := @message_iff Tn _ ((@formed_fresh Tn).writeUints first).moved
    second widthsSecond data
  have checked (w : BitBufferWriter) :=
    @writeUintsChecked_iff Tn {} formed_fresh first widthsFirst w
  rw [getBitPos_start] at checked
  simp only [getBitPos_start, getBitPos_moved] at alone after
  rw [← hidden]
  constructor
  · rintro ⟨data, again, once⟩
    obtain ⟨defined, same⟩ := (alone data).mp once
    rw [messageAfter] at again
    cases written : writeUintsChecked Tn {} first with
    | error e => rw [written] at again; cases again
    | ok w =>
        rw [written] at again
        obtain ⟨definedFirst, rfl⟩ := (checked w).mp written
        obtain ⟨-, other⟩ := (after data).mp again
        exact ⟨definedFirst, defined, other.symm.trans same⟩
  · rintro ⟨definedFirst, defined, same⟩
    refine ⟨_, ?_, (alone _).mpr ⟨defined, rfl⟩⟩
    rw [messageAfter, (checked _).mpr ⟨definedFirst, rfl⟩]
    exact (after _).mpr ⟨defined, same.symm⟩

/-- A message that ends with a set bit, and one that begins with it. -/
theorem reuse_hidden : ∃ data, messageAfter .uint8 [(1, 1)] [(5, 3)] = .ok data ∧
    message .uint8 {} [(5, 3)] = .ok data := by
  have narrow (calls : List (Nat × Nat)) : Defined .uint8 0 calls :=
    fun _ _ _ _ full => by cases full.1
  refine (reuse_iff .uint8 (by decide) (by decide)).mpr ⟨narrow _, narrow _, .inr ?_⟩
  rw [Hidden]
  decide

/-- **Refuted**: what is left of the first message stands in the second. -/
theorem reuse_refuted :
    ¬ ∀ (Tn : ElemType) (first second : List (Nat × Nat)),
      (∀ c ∈ first, 1 ≤ c.2 ∧ c.2 ≤ 64 ∧ c.1 < 2 ^ c.2) →
      (∀ c ∈ second, 1 ≤ c.2 ∧ c.2 ≤ 64 ∧ c.1 < 2 ^ c.2) →
      ∃ data, messageAfter Tn first second = .ok data ∧ message Tn {} second = .ok data := by
  intro always
  obtain ⟨data, again, once⟩ := always .uint8 [(1, 1)] [(0, 1)] (by decide) (by decide)
  cases again
  cases once

end BitBufferWriter

end UdpStuff.Proto
