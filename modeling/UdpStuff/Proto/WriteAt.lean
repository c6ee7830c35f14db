/-
# Proto.WriteAt — a field written over

`write_uint_at` overwrites bits of elements that are stored.  What it clears first
is given by masks: inside one element the complement is taken before the shift, so
the bits below the field are cleared with it; and in the first element of several
the index is advanced in one argument while it is read in the other.  The pending
element is never looked at, though the last field may end in it.

`write_at_iff` says when nothing of this shows.
-/
import UdpStuff.Proto.WriterShifts
import UdpStuff.Proto.BitReader

namespace UdpStuff.Proto

set_option autoImplicit false

open UdpStuff.Theory

/-- How the arguments of a call are evaluated, which the language leaves open. -/
inductive ArgOrder where
  | leftToRight
  | rightToLeft
deriving DecidableEq

/-- The value of `item_pos` in the second argument, where `item_pos++` is the first. -/
def ArgOrder.source : ArgOrder → Nat → Nat
  | .leftToRight, itemPos => itemPos + 1
  | .rightToLeft, itemPos => itemPos

namespace BitBufferWriter

variable (Tn : ElemType)

/-- `out[pos]` -/
def get (out : List Nat) (pos : Nat) : Except WriteError Nat :=
  if pos < out.length then .ok (out.getD pos 0) else .error .outOfRange

/-- `out[pos] = v` -/
def set (out : List Nat) (pos v : Nat) : Except WriteError (List Nat) :=
  if pos < out.length then .ok (out.set pos (v % 2 ^ Tn.bits)) else .error .outOfRange

/-- `Tn(1) << n`, after promotion. -/
def oneShifted (n : Nat) : Except WriteError Nat :=
  if n < Tn.promoted then .ok (2 ^ n) else .error .undefinedShift

/-- `~m`, after promotion. -/
def complement (m : Nat) : Nat := m ^^^ (2 ^ Tn.promoted - 1)

/-- The elements behind the first one of `write_uint_at`. -/
def writeAtWhole (v n itemPos : Nat) (out : List Nat) : Except WriteError (List Nat) :=
  if Tn.bits < n then do
    let out ← set Tn out itemPos v
    let rest ← shr v Tn.bits
    writeAtWhole rest (n - Tn.bits) (itemPos + 1) out
  else do
    let one ← oneShifted Tn n
    let old ← get out itemPos
    set Tn out itemPos (old &&& complement Tn (one - 1) ||| v)
termination_by n
decreasing_by
  have := Tn.bits_pos
  omega

/-- `write_uint_at` for a `uint64_t`.  A shift of a negative `int` is that of its bits. -/
def writeUintAt (order : ArgOrder) (w : BitBufferWriter) (bitPos v n : Nat) :
    Except WriteError BitBufferWriter :=
  let itemPos := bitPos / Tn.bits
  let bits := bitPos % Tn.bits
  if n < Tn.bits - bits then do
    let one ← oneShifted Tn n
    let old ← get w.out itemPos
    let shifted ← shl v bits
    -- `~` binds stronger than `<<`, and `<<` than `&`
    let out ← set Tn w.out itemPos
      (old &&& ((complement Tn (one - 1)) <<< bits) % 2 ^ Tn.promoted ||| shifted)
    return { w with out }
  else do
    let b := Tn.bits - bits
    -- `set(item_pos++, get(item_pos) ...)`
    let old ← get w.out (order.source itemPos)
    let shifted ← shl v bits
    let out ← set Tn w.out itemPos
      (old &&& complement Tn (((2 ^ Tn.bits - 1) <<< bits) % 2 ^ Tn.promoted) ||| shifted)
    let rest ← shr v b
    let out ← writeAtWhole Tn rest (n - b) (itemPos + 1) out
    return { w with out }

/-- The bits from `p` on are those of the value, and all others are as before. -/
def Patched (order : ArgOrder) (w : BitBufferWriter) (p v n : Nat) : Prop :=
  ∃ w', w.writeUintAt Tn order p v n = .ok w' ∧
    w'.stream Tn = (w.stream Tn).take p ++ bitsOf n v ++ (w.stream Tn).drop (p + n)

/-- Inside one stored element nothing is set below the field.  Across elements the last one
that is looked at is stored, the bits below the field are those of the element that is read
for them, and no mask is shifted by its width. -/
def Patchable (order : ArgOrder) (w : BitBufferWriter) (p n : Nat) : Prop :=
  let i := p / Tn.bits
  let bits := p % Tn.bits
  let rest := n - (Tn.bits - bits)
  if n < Tn.bits - bits then i < w.out.length ∧ w.out.getD i 0 % 2 ^ bits = 0
  else
    i + 1 + (rest - 1) / Tn.bits < w.out.length ∧
      (order = .rightToLeft ∨ w.out.getD (i + 1) 0 % 2 ^ bits = w.out.getD i 0 % 2 ^ bits) ∧
      (Tn = .uint32 → rest = 0 ∨ rest % 32 ≠ 0) ∧ (Tn = .uint64 → bits ≠ 0 ∧ rest < 64)

variable {Tn}

/-! ## The masks, bit by bit -/

theorem bits_le_promoted (Tn : ElemType) : Tn.bits ≤ Tn.promoted := Nat.le_max_right 32 Tn.bits

theorem testBit_complement {j : Nat} (low : j < Tn.bits) (m : Nat) :
    (complement Tn m).testBit j = !m.testBit j := by
  rw [complement, Nat.testBit_xor, Nat.testBit_two_pow_sub_one,
    decide_eq_true (Nat.lt_of_lt_of_le low (bits_le_promoted Tn)), Bool.xor_true]

/-- A field of `n` bits at the start of an element. -/
theorem testBit_lastMask {v n j : Nat} (small : v < 2 ^ n) (low : j < Tn.bits) (old : Nat) :
    ((old &&& complement Tn (2 ^ n - 1) ||| v) % 2 ^ Tn.bits).testBit j =
      if j < n then v.testBit j else old.testBit j := by
  rw [Nat.testBit_mod_two_pow, decide_eq_true low, Bool.true_and, Nat.testBit_or, Nat.testBit_and,
    testBit_complement low, Nat.testBit_two_pow_sub_one]
  by_cases field : j < n
  · rw [if_pos field, decide_eq_true field, Bool.not_true, Bool.and_false, Bool.false_or]
  · rw [if_neg field, decide_eq_false field, Bool.not_false, Bool.and_true,
      testBit_eq_false_of_le small (Nat.le_of_not_lt field), Bool.or_false]

/-- From bit `bits` of an element to its end; the bits below are kept. -/
theorem testBit_firstMask {bits j : Nat} (low : j < Tn.bits) (old v : Nat) :
    ((old &&& complement Tn (((2 ^ Tn.bits - 1) <<< bits) % 2 ^ Tn.promoted) |||
        (v <<< bits) % 2 ^ 64) % 2 ^ Tn.bits).testBit j =
      if j < bits then old.testBit j else v.testBit (j - bits) := by
  have wide := Nat.lt_of_lt_of_le low Tn.bits_le_64
  rw [Nat.testBit_mod_two_pow, decide_eq_true low, Bool.true_and, Nat.testBit_or, Nat.testBit_and,
    testBit_complement low, Nat.testBit_mod_two_pow, Nat.testBit_mod_two_pow, decide_eq_true wide,
    decide_eq_true (Nat.lt_of_lt_of_le low (bits_le_promoted Tn)), Bool.true_and, Bool.true_and,
    Nat.testBit_shiftLeft, Nat.testBit_shiftLeft, Nat.testBit_two_pow_sub_one]
  by_cases below : j < bits
  · rw [if_pos below, decide_eq_false (Nat.not_le.mpr below), Bool.false_and, Bool.false_and,
      Bool.not_false, Bool.and_true, Bool.or_false]
  · rw [if_neg below, decide_eq_true (Nat.le_of_not_lt below), decide_eq_true (by omega),
      Bool.true_and, Bool.true_and, Bool.not_true, Bool.and_false, Bool.false_or]

/-- A field inside an element; the bits below it are cleared. -/
theorem testBit_insideMask {v n bits j : Nat} (small : v < 2 ^ n) (low : j < Tn.bits) (old : Nat) :
    ((old &&& ((complement Tn (2 ^ n - 1)) <<< bits) % 2 ^ Tn.promoted |||
        (v <<< bits) % 2 ^ 64) % 2 ^ Tn.bits).testBit j =
      if j < bits then false
      else if j < bits + n then v.testBit (j - bits) else old.testBit j := by
  have wide := Nat.lt_of_lt_of_le low Tn.bits_le_64
  have distance : j - bits < Tn.bits := by omega
  rw [Nat.testBit_mod_two_pow, decide_eq_true low, Bool.true_and, Nat.testBit_or, Nat.testBit_and,
    Nat.testBit_mod_two_pow, Nat.testBit_mod_two_pow, decide_eq_true wide,
    decide_eq_true (Nat.lt_of_lt_of_le low (bits_le_promoted Tn)), Bool.true_and, Bool.true_and,
    Nat.testBit_shiftLeft, Nat.testBit_shiftLeft, testBit_complement distance,
    Nat.testBit_two_pow_sub_one]
  by_cases below : j < bits
  · rw [if_pos below, decide_eq_false (Nat.not_le.mpr below), Bool.false_and, Bool.false_and,
      Bool.and_false, Bool.or_false]
  · rw [if_neg below, decide_eq_true (Nat.le_of_not_lt below), Bool.true_and, Bool.true_and]
    by_cases field : j < bits + n
    · rw [if_pos field, decide_eq_true (by omega), Bool.not_true, Bool.and_false, Bool.false_or]
    · rw [if_neg field, decide_eq_false (by omega), Bool.not_false, Bool.and_true,
        testBit_eq_false_of_le small (by omega), Bool.or_false]

/-! ## Stored elements -/

@[simp] theorem ok_bind {α β : Type} (a : α) (f : α → Except WriteError β) :
    (Except.ok a >>= f) = f a := rfl

@[simp] theorem error_bind {α β : Type} (e : WriteError) (f : α → Except WriteError β) :
    ((Except.error e : Except WriteError α) >>= f) = .error e := rfl

theorem set_ok {out : List Nat} {i : Nat} (stored : i < out.length) (v : Nat) :
    set Tn out i v = .ok (out.set i (v % 2 ^ Tn.bits)) := if_pos stored

theorem set_error {out : List Nat} {i : Nat} (beyond : ¬ i < out.length) (v : Nat) :
    set Tn out i v = .error .outOfRange := if_neg beyond

theorem get_ok {out : List Nat} {i : Nat} (stored : i < out.length) :
    get out i = .ok (out.getD i 0) := if_pos stored

theorem get_error {out : List Nat} {i : Nat} (beyond : ¬ i < out.length) :
    get out i = .error .outOfRange := if_neg beyond

/-- All elements from the `i`-th that `n` bits reach are stored, and the mask of the last
one is defined. -/
def WholeStored (Tn : ElemType) (n i : Nat) (out : List Nat) : Prop :=
  i + (n - 1) / Tn.bits < out.length ∧ (Tn = .uint32 → n = 0 ∨ n % 32 ≠ 0) ∧
    (Tn = .uint64 → n < 64)

theorem wholeStored_short {n i : Nat} (short : n ≤ Tn.bits) (out : List Nat) :
    WholeStored Tn n i out ↔ i < out.length ∧ n < Tn.promoted := by
  have base := Tn.bits_pos
  rw [WholeStored, Nat.div_eq_of_lt (by omega), Nat.add_zero]
  refine and_congr_right fun _ => ?_
  cases Tn <;> simp [ElemType.bits, ElemType.promoted] at short ⊢ <;> omega

theorem wholeStored_long {n i : Nat} (long : Tn.bits < n) (out : List Nat) :
    WholeStored Tn n i out ↔ Tn.bits < 64 ∧ WholeStored Tn (n - Tn.bits) (i + 1) out := by
  have base := Tn.bits_pos
  have count : i + (n - 1) / Tn.bits = i + 1 + (n - Tn.bits - 1) / Tn.bits := by
    have split : n - 1 = (n - Tn.bits - 1) + Tn.bits := by omega
    rw [split, Nat.add_div_right _ base]
    omega
  rw [WholeStored, WholeStored, count]
  cases Tn <;> simp [ElemType.bits] at long ⊢ <;> omega

/-- A whole element is overwritten. -/
theorem cellBit_set_whole {out : List Nat} {i : Nat} (stored : i < out.length) (v q : Nat) :
    cellBit Tn.bits (out.set i (v % 2 ^ Tn.bits)) q =
      if Tn.bits * i ≤ q ∧ q < Tn.bits * i + Tn.bits then v.testBit (q - Tn.bits * i)
      else cellBit Tn.bits out q := by
  rw [cellBit_set Tn.bits_pos stored]
  by_cases here : Tn.bits * i ≤ q ∧ q < Tn.bits * i + Tn.bits
  · rw [if_pos here, if_pos here, Nat.testBit_mod_two_pow, decide_eq_true (by omega),
      Bool.true_and]
  · rw [if_neg here, if_neg here]

/-- **The elements behind the first one** take the field's bits and nothing else. -/
theorem writeAtWhole_ok {v n i : Nat} (small : v < 2 ^ n) {out : List Nat}
    (stored : WholeStored Tn n i out) :
    ∃ out', writeAtWhole Tn v n i out = .ok out' ∧ out'.length = out.length ∧
      ∀ q, cellBit Tn.bits out' q =
        if Tn.bits * i ≤ q ∧ q < Tn.bits * i + n then v.testBit (q - Tn.bits * i)
        else cellBit Tn.bits out q := by
  induction n using Nat.strongRecOn generalizing v i out with
  | ind n ih =>
      have base := Tn.bits_pos
      rw [writeAtWhole]
      by_cases long : Tn.bits < n
      · obtain ⟨narrow, others⟩ := (wholeStored_long long out).mp stored
        have here : i < out.length := Nat.lt_of_le_of_lt (Nat.le_add_right _ _) stored.1
        have rest : v >>> Tn.bits < 2 ^ (n - Tn.bits) := shiftRight_lt small (Nat.le_of_lt long)
        have left : WholeStored Tn (n - Tn.bits) (i + 1) (out.set i (v % 2 ^ Tn.bits)) := by
          rw [WholeStored, List.length_set]
          exact others
        obtain ⟨out', written, size, bits⟩ := ih (n - Tn.bits) (by omega) rest left
        rw [if_pos long, set_ok here, ok_bind, shr, if_pos narrow, ok_bind]
        refine ⟨out', written, by rw [size, List.length_set], fun q => ?_⟩
        rw [bits, cellBit_set_whole here, Nat.mul_succ]
        by_cases after : Tn.bits * i + Tn.bits ≤ q
        · have distance : Tn.bits + (q - (Tn.bits * i + Tn.bits)) = q - Tn.bits * i := by omega
          rw [Nat.testBit_shiftRight, distance]
          by_cases field : q < Tn.bits * i + n
          · rw [if_pos ⟨after, by omega⟩, if_pos ⟨by omega, field⟩]
          · rw [if_neg (by omega), if_neg (by omega), if_neg (by omega)]
        · rw [if_neg (by omega)]
          by_cases inside : Tn.bits * i ≤ q
          · rw [if_pos ⟨inside, by omega⟩, if_pos ⟨inside, by omega⟩]
          · rw [if_neg (by omega), if_neg (by omega)]
      · obtain ⟨here, defined⟩ := (wholeStored_short (Nat.le_of_not_lt long) out).mp stored
        rw [if_neg long, oneShifted, if_pos defined, ok_bind, get_ok here, ok_bind, set_ok here]
        refine ⟨_, rfl, List.length_set, fun q => ?_⟩
        rw [cellBit_set base here]
        by_cases place : Tn.bits * i ≤ q ∧ q < Tn.bits * i + Tn.bits
        · obtain ⟨start, stop⟩ := place
          rw [if_pos ⟨start, stop⟩, testBit_lastMask small (by omega)]
          by_cases field : q < Tn.bits * i + n
          · rw [if_pos (by omega), if_pos ⟨start, field⟩]
          · rw [if_neg (by omega), if_neg (by omega), cellBit_of_between base start stop]
        · rw [if_neg place, if_neg (by omega)]

theorem writeAtWhole_error {v n i : Nat} {out : List Nat} (missing : ¬ WholeStored Tn n i out) :
    ∃ e, writeAtWhole Tn v n i out = .error e := by
  induction n using Nat.strongRecOn generalizing v i out with
  | ind n ih =>
      have base := Tn.bits_pos
      rw [writeAtWhole]
      by_cases long : Tn.bits < n
      · rw [if_pos long]
        by_cases here : i < out.length
        · rw [set_ok here, ok_bind, shr]
          by_cases narrow : Tn.bits < 64
          · rw [if_pos narrow, ok_bind]
            refine ih (n - Tn.bits) (by omega) fun left => missing ?_
            rw [WholeStored, List.length_set] at left
            exact (wholeStored_long long out).mpr ⟨narrow, left⟩
          · rw [if_neg narrow, error_bind]
            exact ⟨_, rfl⟩
        · rw [set_error here, error_bind]
          exact ⟨_, rfl⟩
      · rw [if_neg long, oneShifted]
        rw [wholeStored_short (Nat.le_of_not_lt long)] at missing
        by_cases defined : n < Tn.promoted
        · have beyond : ¬ i < out.length := fun here => missing ⟨here, defined⟩
          rw [if_pos defined, ok_bind, get_error beyond, error_bind]
          exact ⟨_, rfl⟩
        · rw [if_neg defined, error_bind]
          exact ⟨_, rfl⟩

/-! ## The stream -/

theorem bit_out {w : BitBufferWriter} {out' : List Nat} (size : out'.length = w.out.length)
    (q : Nat) : ({ w with out := out' } : BitBufferWriter).bit Tn q =
      if q < Tn.bits * w.out.length then cellBit Tn.bits out' q else w.bit Tn q := by
  have base := Tn.bits_pos
  rw [bit, cells, cellBit_push base, bit, cells, cellBit_push base, size]
  by_cases stored : q < Tn.bits * w.out.length
  · rw [if_pos stored, if_pos stored]
  · rw [if_neg stored, if_neg stored, if_neg stored]

theorem bit_stored {w : BitBufferWriter} {q : Nat} (stored : q < Tn.bits * w.out.length) :
    w.bit Tn q = cellBit Tn.bits w.out q := by
  have base := Tn.bits_pos
  rw [bit, cells, cellBit_push base, if_pos stored]

/-- A stream is patched if and only if its bits are. -/
theorem stream_patched_iff {w w' : BitBufferWriter} (within : w.bitsOut ≤ Tn.bits)
    (within' : w'.bitsOut ≤ Tn.bits) (position : w'.getBitPos Tn = w.getBitPos Tn) {p n : Nat}
    (inside : p + n ≤ w.getBitPos Tn) (v : Nat) :
    w'.stream Tn = (w.stream Tn).take p ++ bitsOf n v ++ (w.stream Tn).drop (p + n) ↔
      ∀ q, q < w.getBitPos Tn → w'.bit Tn q =
        if p ≤ q ∧ q < p + n then v.testBit (q - p) else w.bit Tn q := by
  have size : (w.stream Tn).length = w.getBitPos Tn := by
    rw [stream, List.length_append, length_cellsBits, length_bitsOf, getBitPos, Nat.mul_comm]
  have front : ((w.stream Tn).take p).length = p := by
    rw [List.length_take, size]
    omega
  have patch (q : Nat) :
      ((w.stream Tn).take p ++ bitsOf n v ++ (w.stream Tn).drop (p + n))[q]? =
        if q < w.getBitPos Tn then
          some (if p ≤ q ∧ q < p + n then v.testBit (q - p) else w.bit Tn q)
        else none := by
    rw [List.append_assoc]
    by_cases before : q < p
    · rw [List.getElem?_append_left (by rwa [front]), List.getElem?_take_of_lt before,
        getElem?_stream within, if_pos (by omega), if_pos (by omega), if_neg (by omega)]
    · rw [List.getElem?_append_right (by rw [front]; omega), front]
      by_cases field : q < p + n
      · rw [List.getElem?_append_left (by rw [length_bitsOf]; omega), getElem?_bitsOf,
          if_pos (by omega), if_pos (by omega), if_pos (by omega)]
      · have place : p + n + (q - p - n) = q := by omega
        rw [List.getElem?_append_right (by rw [length_bitsOf]; omega), length_bitsOf,
          List.getElem?_drop, place, getElem?_stream within]
        by_cases written : q < w.getBitPos Tn
        · rw [if_pos written, if_pos written, if_neg (by omega)]
        · rw [if_neg written, if_neg written]
  rw [List.ext_getElem?_iff]
  refine forall_congr' fun q => ?_
  rw [getElem?_stream within', position, patch]
  by_cases written : q < w.getBitPos Tn
  · rw [if_pos written, if_pos written, Option.some.injEq]
    exact ⟨fun same _ => same, fun same => same written⟩
  · rw [if_neg written, if_neg written]
    exact ⟨fun _ inside => absurd inside written, fun _ => rfl⟩

theorem mod_two_pow_eq_iff (x y k : Nat) :
    x % 2 ^ k = y % 2 ^ k ↔ ∀ j, j < k → x.testBit j = y.testBit j := by
  constructor
  · intro same j low
    have bits := congrArg (fun z => Nat.testBit z j) same
    simpa only [Nat.testBit_mod_two_pow, decide_eq_true low, Bool.true_and] using bits
  · intro same
    apply Nat.eq_of_testBit_eq
    intro j
    rw [Nat.testBit_mod_two_pow, Nat.testBit_mod_two_pow]
    by_cases low : j < k
    · rw [same j low]
    · rw [decide_eq_false low, Bool.false_and, Bool.false_and]

/-! ## The two paths -/

/-- The field is written, and `low` gives the bits below it in its first element. -/
def Wrote (Tn : ElemType) (out out' : List Nat) (p v n : Nat) (low : Nat → Bool) : Prop :=
  out'.length = out.length ∧ ∀ q, cellBit Tn.bits out' q =
    if Tn.bits * (p / Tn.bits) ≤ q ∧ q < p then low (q - Tn.bits * (p / Tn.bits))
    else if p ≤ q ∧ q < p + n then v.testBit (q - p) else cellBit Tn.bits out q

/-- The stream is patched if and only if the bits below the field are what they were. -/
theorem Formed.patched_iff_of_wrote {order : ArgOrder} {w : BitBufferWriter} (formed : Formed Tn w)
    {p v n : Nat} {out' : List Nat} {low : Nat → Bool}
    (done : w.writeUintAt Tn order p v n = .ok { w with out := out' })
    (wrote : Wrote Tn w.out out' p v n low) (stored : p + n ≤ Tn.bits * w.out.length) :
    Patched Tn order w p v n ↔
      ∀ j, j < p % Tn.bits → low j = (w.out.getD (p / Tn.bits) 0).testBit j := by
  have base := Tn.bits_pos
  have split := Nat.div_add_mod p Tn.bits
  have offset := Nat.mod_lt p base
  obtain ⟨size, bits⟩ := wrote
  have position : ({ w with out := out' } : BitBufferWriter).getBitPos Tn = w.getBitPos Tn := by
    rw [getBitPos, getBitPos, size]
  have inside : p + n ≤ w.getBitPos Tn := by
    rw [getBitPos, Nat.mul_comm]
    omega
  have streams := @stream_patched_iff Tn w { w with out := out' } formed.within formed.within
    position p n inside v
  have same : Patched Tn order w p v n ↔ ∀ q, q < w.getBitPos Tn →
      ({ w with out := out' } : BitBufferWriter).bit Tn q =
        if p ≤ q ∧ q < p + n then v.testBit (q - p) else w.bit Tn q := by
    rw [← streams, Patched, done]
    constructor
    · rintro ⟨w', same, patched⟩
      cases same
      exact patched
    · intro patched
      exact ⟨_, rfl, patched⟩
  rw [same]
  constructor
  · intro patched j below
    have here := patched (Tn.bits * (p / Tn.bits) + j) (by omega)
    rw [bit_out size, if_pos (by omega), bits, if_pos (by omega), if_neg (by omega),
      bit_stored (by omega), Nat.add_sub_cancel_left, cellBit_at base (by omega)] at here
    exact here
  · intro kept q written
    rw [bit_out size]
    by_cases front : q < Tn.bits * w.out.length
    · rw [if_pos front, bits, bit_stored front]
      by_cases below : Tn.bits * (p / Tn.bits) ≤ q ∧ q < p
      · obtain ⟨j, rfl⟩ : ∃ j, q = Tn.bits * (p / Tn.bits) + j :=
          ⟨q - Tn.bits * (p / Tn.bits), by omega⟩
        rw [if_pos below, if_neg (by omega), Nat.add_sub_cancel_left, kept j (by omega),
          cellBit_at base (by omega)]
      · rw [if_neg below]
    · rw [if_neg front, if_neg (by omega)]

/-- Inside one element, zeros are written below the field. -/
theorem writeAt_inside {order : ArgOrder} {w : BitBufferWriter} {p v n : Nat} (small : v < 2 ^ n)
    (short : n < Tn.bits - p % Tn.bits) (stored : p / Tn.bits < w.out.length) :
    ∃ out', w.writeUintAt Tn order p v n = .ok { w with out := out' } ∧
      Wrote Tn w.out out' p v n fun _ => false := by
  have base := Tn.bits_pos
  have split := Nat.div_add_mod p Tn.bits
  have offset := Nat.mod_lt p base
  have wide := Tn.bits_le_64
  have promoted := bits_le_promoted Tn
  rw [writeUintAt]
  dsimp only
  rw [if_pos short, oneShifted, if_pos (by omega), ok_bind, get_ok stored, ok_bind, shl,
    if_pos (by omega), ok_bind, set_ok stored, ok_bind]
  refine ⟨_, rfl, List.length_set, fun q => ?_⟩
  rw [cellBit_set base stored]
  by_cases here : Tn.bits * (p / Tn.bits) ≤ q ∧ q < Tn.bits * (p / Tn.bits) + Tn.bits
  · obtain ⟨start, stop⟩ := here
    rw [if_pos ⟨start, stop⟩, testBit_insideMask small (by omega)]
    by_cases below : q < p
    · rw [if_pos (by omega), if_pos ⟨start, below⟩]
    · rw [if_neg (by omega)]
      by_cases field : q < p + n
      · have distance : q - Tn.bits * (p / Tn.bits) - p % Tn.bits = q - p := by omega
        rw [if_pos (by omega), if_neg (by omega), if_pos (by omega), distance]
      · rw [if_neg (by omega), if_neg (by omega), if_neg (by omega),
          cellBit_of_between base start stop]
  · rw [if_neg here, if_neg (by omega), if_neg (by omega)]

/-- The first element of a field that goes on behind it. -/
theorem cellBit_firstMask {out : List Nat} {i : Nat} (stored : i < out.length) (old v bits q : Nat) :
    cellBit Tn.bits (out.set i ((old &&& complement Tn
      (((2 ^ Tn.bits - 1) <<< bits) % 2 ^ Tn.promoted) ||| (v <<< bits) % 2 ^ 64) %
        2 ^ Tn.bits)) q =
      if Tn.bits * i ≤ q ∧ q < Tn.bits * i + Tn.bits then
        if q - Tn.bits * i < bits then old.testBit (q - Tn.bits * i)
        else v.testBit (q - Tn.bits * i - bits)
      else cellBit Tn.bits out q := by
  rw [cellBit_set Tn.bits_pos stored]
  by_cases here : Tn.bits * i ≤ q ∧ q < Tn.bits * i + Tn.bits
  · rw [if_pos here, if_pos here, testBit_firstMask (by omega)]
  · rw [if_neg here, if_neg here]

/-- Across elements, the bits below the field are those of the element that was read. -/
theorem writeAt_across {order : ArgOrder} {w : BitBufferWriter} {p v n : Nat} (small : v < 2 ^ n)
    (long : ¬ n < Tn.bits - p % Tn.bits) (shift : Tn.bits - p % Tn.bits < 64)
    (stored : WholeStored Tn (n - (Tn.bits - p % Tn.bits)) (p / Tn.bits + 1) w.out) :
    ∃ out', w.writeUintAt Tn order p v n = .ok { w with out := out' } ∧
      Wrote Tn w.out out' p v n
        fun j => (w.out.getD (order.source (p / Tn.bits)) 0).testBit j := by
  have base := Tn.bits_pos
  have split := Nat.div_add_mod p Tn.bits
  have offset := Nat.mod_lt p base
  have wide := Tn.bits_le_64
  have next : p / Tn.bits + 1 < w.out.length :=
    Nat.lt_of_le_of_lt (Nat.le_add_right _ _) stored.1
  have source : order.source (p / Tn.bits) < w.out.length := by
    cases order
    · exact next
    · exact Nat.lt_of_succ_lt next
  have here : p / Tn.bits < w.out.length := Nat.lt_of_succ_lt next
  obtain ⟨b, room⟩ : ∃ b, Tn.bits - p % Tn.bits = b := ⟨_, rfl⟩
  rw [room] at long shift stored
  have rest : v >>> b < 2 ^ (n - b) := shiftRight_lt small (Nat.le_of_not_lt long)
  rw [writeUintAt]
  dsimp only
  rw [room, if_neg long, get_ok source, ok_bind, shl, if_pos (by omega), ok_bind, set_ok here,
    ok_bind, shr, if_pos shift, ok_bind]
  obtain ⟨old, read⟩ : ∃ old, w.out.getD (order.source (p / Tn.bits)) 0 = old := ⟨_, rfl⟩
  rw [read]
  obtain ⟨out', written, size, bits⟩ := @writeAtWhole_ok Tn _ _ _ rest
    (w.out.set (p / Tn.bits) ((old &&& complement Tn
      (((2 ^ Tn.bits - 1) <<< (p % Tn.bits)) % 2 ^ Tn.promoted) |||
        (v <<< (p % Tn.bits)) % 2 ^ 64) % 2 ^ Tn.bits))
    (by rw [WholeStored, List.length_set]; exact stored)
  rw [written, ok_bind]
  refine ⟨_, rfl, by rw [size, List.length_set], fun q => ?_⟩
  rw [bits, cellBit_firstMask here, Nat.mul_succ]
  by_cases after : Tn.bits * (p / Tn.bits) + Tn.bits ≤ q
  · -- behind the first element
    have distance : b + (q - (Tn.bits * (p / Tn.bits) + Tn.bits)) = q - p := by omega
    rw [Nat.testBit_shiftRight, distance]
    by_cases field : q < p + n
    · rw [if_pos (by omega), if_neg (by omega), if_pos (by omega)]
    · rw [if_neg (by omega), if_neg (by omega), if_neg (by omega), if_neg (by omega)]
  · rw [if_neg (by omega)]
    by_cases inside : Tn.bits * (p / Tn.bits) ≤ q
    · rw [if_pos (by omega)]
      by_cases below : q < p
      · rw [if_pos (by omega), if_pos ⟨inside, below⟩]
      · have distance : q - Tn.bits * (p / Tn.bits) - p % Tn.bits = q - p := by omega
        rw [if_neg (by omega), if_neg (by omega), if_pos (by omega), distance]
    · rw [if_neg (by omega), if_neg (by omega), if_neg (by omega)]

theorem writeAt_across_error {order : ArgOrder} {w : BitBufferWriter} {p v n : Nat}
    (long : ¬ n < Tn.bits - p % Tn.bits) (missing : Tn.bits - p % Tn.bits < 64 →
      ¬ WholeStored Tn (n - (Tn.bits - p % Tn.bits)) (p / Tn.bits + 1) w.out) :
    ∃ e, w.writeUintAt Tn order p v n = .error e := by
  have wide := Tn.bits_le_64
  have offset := Nat.mod_lt p Tn.bits_pos
  rw [writeUintAt]
  dsimp only
  rw [if_neg long]
  by_cases source : order.source (p / Tn.bits) < w.out.length
  · rw [get_ok source, ok_bind, shl, if_pos (by omega), ok_bind]
    by_cases here : p / Tn.bits < w.out.length
    · rw [set_ok here, ok_bind, shr]
      by_cases shift : Tn.bits - p % Tn.bits < 64
      · obtain ⟨e, failed⟩ := @writeAtWhole_error Tn (v >>> (Tn.bits - p % Tn.bits))
          (n - (Tn.bits - p % Tn.bits)) (p / Tn.bits + 1)
          (w.out.set (p / Tn.bits) ((w.out.getD (order.source (p / Tn.bits)) 0 &&& complement Tn
            (((2 ^ Tn.bits - 1) <<< (p % Tn.bits)) % 2 ^ Tn.promoted) |||
              (v <<< (p % Tn.bits)) % 2 ^ 64) % 2 ^ Tn.bits))
          (by rw [WholeStored, List.length_set]; exact missing shift)
        rw [if_pos shift, ok_bind, failed, error_bind]
        exact ⟨e, rfl⟩
      · rw [if_neg shift, error_bind]
        exact ⟨_, rfl⟩
    · rw [set_error here, error_bind]
      exact ⟨_, rfl⟩
  · rw [get_error source, error_bind]
    exact ⟨_, rfl⟩

/-! ## When it patches -/

/-- The whole field is stored. -/
theorem WholeStored.stored {p n : Nat} {out : List Nat} (long : ¬ n < Tn.bits - p % Tn.bits)
    (stored : WholeStored Tn (n - (Tn.bits - p % Tn.bits)) (p / Tn.bits + 1) out) :
    p + n ≤ Tn.bits * out.length := by
  have base := Tn.bits_pos
  have split := Nat.div_add_mod p Tn.bits
  have offset := Nat.mod_lt p base
  obtain ⟨rest, left⟩ : ∃ rest, n - (Tn.bits - p % Tn.bits) = rest := ⟨_, rfl⟩
  have last := stored.1
  rw [left] at last
  have most := Nat.mul_le_mul_left Tn.bits last
  rw [Nat.mul_succ, Nat.mul_add, Nat.mul_succ] at most
  have part := Nat.div_add_mod (rest - 1) Tn.bits
  have small := Nat.mod_lt (rest - 1) base
  omega

theorem room_lt_64_iff (Tn : ElemType) (p : Nat) :
    Tn.bits - p % Tn.bits < 64 ↔ (Tn = .uint64 → p % Tn.bits ≠ 0) := by
  have offset := Nat.mod_lt p Tn.bits_pos
  constructor
  · rintro shift rfl none
    rw [none] at shift
    exact absurd shift (by decide)
  · intro wide
    have most := Tn.bits_le_64
    by_cases type : Tn = .uint64
    · have some := wide type
      omega
    · have narrow : Tn.bits ≠ 64 := mt ElemType.bits_eq_64.mp type
      omega

/-- Patchable across elements: the later ones are stored, and the bits below the field are
read where they stand. -/
theorem patchable_across {order : ArgOrder} {w : BitBufferWriter} {p n : Nat}
    (long : ¬ n < Tn.bits - p % Tn.bits) : Patchable Tn order w p n ↔
      (Tn.bits - p % Tn.bits < 64 ∧
        WholeStored Tn (n - (Tn.bits - p % Tn.bits)) (p / Tn.bits + 1) w.out) ∧
      w.out.getD (order.source (p / Tn.bits)) 0 % 2 ^ (p % Tn.bits) =
        w.out.getD (p / Tn.bits) 0 % 2 ^ (p % Tn.bits) := by
  have read : w.out.getD (order.source (p / Tn.bits)) 0 % 2 ^ (p % Tn.bits) =
        w.out.getD (p / Tn.bits) 0 % 2 ^ (p % Tn.bits) ↔ order = .rightToLeft ∨
      w.out.getD (p / Tn.bits + 1) 0 % 2 ^ (p % Tn.bits) =
        w.out.getD (p / Tn.bits) 0 % 2 ^ (p % Tn.bits) := by
    cases order <;> simp [ArgOrder.source]
  rw [Patchable, read, room_lt_64_iff, WholeStored, if_neg long]
  constructor
  · rintro ⟨last, order, mask, shift⟩
    exact ⟨⟨fun type => (shift type).1, last, mask, fun type => (shift type).2⟩, order⟩
  · rintro ⟨⟨first, last, mask, rest⟩, order⟩
    exact ⟨last, order, mask, fun type => ⟨first type, rest type⟩⟩

/-- **A field is patched** if and only if it is patchable. -/
theorem Formed.patched_iff {order : ArgOrder} {w : BitBufferWriter} (formed : Formed Tn w)
    {p v n : Nat} (small : v < 2 ^ n) :
    Patched Tn order w p v n ↔ Patchable Tn order w p n := by
  have base := Tn.bits_pos
  have split := Nat.div_add_mod p Tn.bits
  have offset := Nat.mod_lt p base
  have refused {e : WriteError} (failed : w.writeUintAt Tn order p v n = .error e) :
      ¬ Patched Tn order w p v n := by
    rintro ⟨w', done, -⟩
    rw [failed] at done
    cases done
  by_cases short : n < Tn.bits - p % Tn.bits
  · rw [Patchable, if_pos short]
    by_cases stored : p / Tn.bits < w.out.length
    · obtain ⟨out', done, wrote⟩ := @writeAt_inside Tn order w p v n small short stored
      have room : p + n ≤ Tn.bits * w.out.length := by
        have most := Nat.mul_le_mul_left Tn.bits stored
        rw [Nat.mul_succ] at most
        omega
      have clear := mod_two_pow_eq_iff 0 (w.out.getD (p / Tn.bits) 0) (p % Tn.bits)
      rw [Nat.zero_mod] at clear
      rw [formed.patched_iff_of_wrote done wrote room, eq_comm (b := 0), clear]
      simp only [Nat.zero_testBit, stored, true_and]
    · have wide := bits_le_promoted Tn
      have failed : w.writeUintAt Tn order p v n = .error .outOfRange := by
        rw [writeUintAt]
        dsimp only
        rw [if_pos short, oneShifted, if_pos (by omega), ok_bind, get_error stored, error_bind]
      exact iff_of_false (refused failed) fun patchable => stored patchable.1
  · rw [patchable_across short]
    by_cases defined : Tn.bits - p % Tn.bits < 64 ∧
        WholeStored Tn (n - (Tn.bits - p % Tn.bits)) (p / Tn.bits + 1) w.out
    · obtain ⟨out', done, wrote⟩ := @writeAt_across Tn order w p v n small short defined.1 defined.2
      rw [formed.patched_iff_of_wrote done wrote (defined.2.stored short), mod_two_pow_eq_iff]
      exact ⟨fun same => ⟨defined, same⟩, fun both => both.2⟩
    · obtain ⟨e, failed⟩ := @writeAt_across_error Tn order w p v n short
        fun shift stored => defined ⟨shift, stored⟩
      exact iff_of_false (refused failed) fun patchable => defined patchable.1

/-- **`write_uint_at` patches the stream** of a writer, after any calls, if and only if the
field is patchable. -/
theorem write_at_iff (Tn : ElemType) (order : ArgOrder) (calls : List (Nat × Nat)) {p v n : Nat}
    (small : v < 2 ^ n) : Patched Tn order (writeUints Tn {} calls) p v n ↔
      Patchable Tn order (writeUints Tn {} calls) p n :=
  (formed_fresh.writeUints calls).patched_iff small

/-- A stored byte and a pending bit. -/
theorem writeUints_byte {v : Nat} (small : v < 2 ^ ElemType.uint8.bits) :
    writeUints .uint8 {} [(v, 8), (1, 1)] = ⟨[v], 1, 1⟩ := by
  have first : ({} : BitBufferWriter).writeUint .uint8 v 8 = ⟨[], v, 8⟩ := by
    rw [writeUint, if_pos (by decide), Nat.zero_or, Nat.shiftLeft_zero, Nat.mod_eq_of_lt small]
  have joined : (v ||| 1 <<< ElemType.uint8.bits) % 2 ^ ElemType.uint8.bits = v := by
    rw [or_shiftLeft small, Nat.mul_one, Nat.add_mod_right]
    exact Nat.mod_eq_of_lt small
  have second : (⟨[], v, 8⟩ : BitBufferWriter).writeUint .uint8 1 1 = ⟨[v], 1, 1⟩ := by
    have full : ¬ 1 ≤ ElemType.uint8.bits - 8 := by decide
    have last : writeWhole .uint8 1 1 [v] = ⟨[v], 1, 1⟩ := by
      rw [writeWhole, if_neg (by decide)]
      rfl
    rw [writeUint, if_neg full]
    exact (congrArg (fun d => writeWhole .uint8 1 1 [d]) joined).trans last
  rw [writeUints, List.foldl_cons, first, List.foldl_cons, second, List.foldl_nil]

/-- Four bits at the start of a stored byte. -/
theorem write_at_nibble :
    Patched .uint8 .rightToLeft (writeUints .uint8 {} [(171, 8), (1, 1)]) 0 5 4 := by
  refine (write_at_iff .uint8 .rightToLeft _ (by decide)).mpr ?_
  rw [@writeUints_byte 171 (by decide), Patchable, if_pos (by decide)]
  decide

/-- **Refuted**: a field of two bits clears the four set bits below it. -/
theorem write_at_refuted :
    ¬ ∀ (Tn : ElemType) (order : ArgOrder) (calls : List (Nat × Nat)) (p v n : Nat),
      p + n ≤ (writeUints Tn {} calls).getBitPos Tn → v < 2 ^ n → v < 2 ^ 64 →
        Patched Tn order (writeUints Tn {} calls) p v n := by
  intro always
  have patched := always .uint8 .rightToLeft [(15, 8), (1, 1)] 4 0 2
    (by rw [getBitPos_fresh]; decide) (by decide) (by decide)
  rw [(formed_fresh.writeUints _).patched_iff (by decide), @writeUints_byte 15 (by decide),
    Patchable, if_pos (by decide)] at patched
  exact absurd patched.2 (by decide)

end BitBufferWriter

end UdpStuff.Proto
