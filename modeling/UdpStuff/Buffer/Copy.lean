/-
# Buffer.Copy — `buf_cp` from one buffer to another

A buffer is memory whose end is fixed and the number of elements that are left before the
end.  `PtrBuf` and `StaticBuf` differ in one sign: `shift` takes elements off the first, and
gives elements back to the second.  `memcpy` counts bytes where `left` counts elements, so the
size of an element is a parameter, `sizeofT`.

`buf_cp_copies_iff` says when a call does what it is for: the side that has more left is not a
`StaticBuf`, or nothing is copied, and the bytes that `memcpy` leaves out were there before.
`Transfer` goes on with new buffers on either side; what was written is what was read as
long as every call is such (`Even.step`).
-/
import UdpStuff.Theory.Runs
import UdpStuff.Theory.Splice

namespace UdpStuff.Buffer

open Theory

set_option autoImplicit false

/-! ## The two classes -/

/-- `buf_e` is the element behind the last one of `buf`. -/
structure PtrBuf where
  buf : List UInt8
  bufE : Int
  l : Int
deriving DecidableEq

namespace PtrBuf

def make (buf : List UInt8) (l : Int) : PtrBuf := ⟨buf, l, l⟩

variable (b : PtrBuf)

def shift (v : Int) : PtrBuf := { b with l := b.l - v }

def left : Int := b.l

def start : Int := b.bufE - b.l

def finish : PtrBuf := { b with l := 0 }

end PtrBuf

/-- The array is the buffer's own. -/
structure StaticBuf where
  size : Nat
  buf : List UInt8
  l : Int
deriving DecidableEq

namespace StaticBuf

variable (b : StaticBuf)

def bufE : Int := b.size

def shift (v : Int) : StaticBuf := { b with l := b.l + v }

def left : Int := b.l

def start : Int := b.bufE - b.l

def finish : StaticBuf := { b with l := 0 }

end StaticBuf

/-- What `buf_cp` is called for. -/
inductive Buf where
  | ptr (b : PtrBuf)
  | static (b : StaticBuf)
deriving DecidableEq

namespace Buf

def shift : Buf → Int → Buf
  | .ptr b, v => .ptr (b.shift v)
  | .static b, v => .static (b.shift v)

def left : Buf → Int
  | .ptr b => b.left
  | .static b => b.left

def start : Buf → Int
  | .ptr b => b.start
  | .static b => b.start

def stop : Buf → Int
  | .ptr b => b.bufE
  | .static b => b.bufE

def finish : Buf → Buf
  | .ptr b => .ptr b.finish
  | .static b => .static b.finish

/-- The memory, from the first element to the last. -/
def bytes : Buf → List UInt8
  | .ptr b => b.buf
  | .static b => b.buf

def setBytes : Buf → List UInt8 → Buf
  | .ptr b, buf => .ptr { b with buf := buf }
  | .static b, buf => .static { b with buf := buf }

end Buf

section Code

variable (sizeofT : Nat)

/-- Where `start` points to, in bytes. -/
def Buf.at (b : Buf) : Nat := sizeofT * b.start.toNat

/-- `memcpy` of a number of bytes to the start of a buffer from the start of another. -/
def memcpy (out in_ : Buf) (n : Int) : Buf :=
  out.setBytes (splice out.bytes (out.at sizeofT)
    (slice in_.bytes (in_.at sizeofT) (in_.at sizeofT + n.toNat)))

/-- `buf_cp`, and both buffers after it. -/
def bufCp (in_ out : Buf) : Buf × Buf :=
  if in_.left < out.left then
    let out := memcpy sizeofT out in_ in_.left
    (in_.finish, out.shift in_.left)
  else
    let out' := memcpy sizeofT out in_ out.left
    (in_.shift out.left, out'.finish)

/-- Elements are left up to the end of the memory. -/
def Buf.Valid (b : Buf) : Prop :=
  0 ≤ b.left ∧ b.left ≤ b.stop ∧ (b.bytes.length : Int) = sizeofT * b.stop

instance (b : Buf) : Decidable (b.Valid sizeofT) := inferInstanceAs (Decidable (_ ∧ _ ∧ _))

/-- The number of elements that a call is to copy. -/
def count (in_ out : Buf) : Int := min in_.left out.left

/-- The first of the elements that are left, in bytes. -/
def Buf.firsts (b : Buf) (m : Int) : List UInt8 :=
  slice b.bytes (b.at sizeofT) (b.at sizeofT + sizeofT * m.toNat)

/-- The first `count` elements are copied to the start of `out`, and both sides go on by as
many; nothing else changes. -/
structure Copied (in_ out : Buf) (after : Buf × Buf) : Prop where
  inLeft : after.1.left = in_.left - count in_ out
  outLeft : after.2.left = out.left - count in_ out
  inStart : after.1.start = in_.start + count in_ out
  outStart : after.2.start = out.start + count in_ out
  inBytes : after.1.bytes = in_.bytes
  outBytes : after.2.bytes =
    splice out.bytes (out.at sizeofT) (in_.firsts sizeofT (count in_ out))

def Buf.isPtr : Buf → Bool
  | .ptr _ => true
  | .static _ => false

/-- The side that is shifted, the one with more left, takes the elements off. -/
def Advances (in_ out : Buf) : Prop :=
  count in_ out = 0 ∨ (if in_.left < out.left then out else in_).isPtr

/-- The bytes of the elements behind as many bytes as there are elements were there before. -/
def Reaches (in_ out : Buf) : Prop :=
  (in_.firsts sizeofT (count in_ out)).drop (count in_ out).toNat =
    (out.firsts sizeofT (count in_ out)).drop (count in_ out).toNat

instance (in_ out : Buf) : Decidable (Advances in_ out) := inferInstanceAs (Decidable (_ ∨ _))

instance (in_ out : Buf) : Decidable (Reaches sizeofT in_ out) :=
  inferInstanceAs (Decidable (_ = _))

end Code

/-! ## One call -/

namespace Buf

@[simp] theorem stop_shift (b : Buf) (v : Int) : (b.shift v).stop = b.stop := by cases b <;> rfl

@[simp] theorem stop_finish (b : Buf) : b.finish.stop = b.stop := by cases b <;> rfl

@[simp] theorem stop_setBytes (b : Buf) (buf : List UInt8) : (b.setBytes buf).stop = b.stop := by
  cases b <;> rfl

@[simp] theorem left_finish (b : Buf) : b.finish.left = 0 := by cases b <;> rfl

@[simp] theorem bytes_shift (b : Buf) (v : Int) : (b.shift v).bytes = b.bytes := by
  cases b <;> rfl

@[simp] theorem bytes_finish (b : Buf) : b.finish.bytes = b.bytes := by cases b <;> rfl

@[simp] theorem bytes_setBytes (b : Buf) (buf : List UInt8) : (b.setBytes buf).bytes = buf := by
  cases b <;> rfl

theorem left_shift_setBytes (b : Buf) (buf : List UInt8) (v : Int) :
    ((b.setBytes buf).shift v).left = (b.shift v).left := by
  cases b <;> rfl

theorem start_eq (b : Buf) : b.start = b.stop - b.left := by cases b <;> rfl

/-- A shift takes elements off a `PtrBuf` only. -/
theorem left_shift_iff (b : Buf) (v : Int) :
    (b.shift v).left = b.left - v ↔ v = 0 ∨ b.isPtr := by
  cases b with
  | ptr b => exact iff_of_true rfl (.inr rfl)
  | static b =>
      have signs : b.l + v = b.l - v ↔ v = 0 := by omega
      show b.l + v = b.l - v ↔ v = 0 ∨ false = true
      simpa using signs

end Buf

section OneCall

variable {sizeofT : Nat} {in_ out : Buf}

/-- The memory reaches behind the elements that are left. -/
theorem Buf.Valid.room {b : Buf} (valid : b.Valid sizeofT) {m : Int} (most : m ≤ b.left) : b.at sizeofT + sizeofT * m.toNat ≤ b.bytes.length := by
  obtain ⟨leftNonneg, leftLe, length⟩ := valid
  have start : 0 ≤ b.start := by
    rw [b.start_eq]
    omega
  have elements : b.start.toNat + m.toNat ≤ b.stop.toNat := by
    have := b.start_eq
    omega
  have scaled : sizeofT * (b.start.toNat + m.toNat) ≤ sizeofT * b.stop.toNat :=
    Nat.mul_le_mul_left _ elements
  have whole : b.bytes.length = sizeofT * b.stop.toNat := by
    have stop : (b.stop.toNat : Int) = b.stop := Int.toNat_of_nonneg (by omega)
    rw [← stop] at length
    exact_mod_cast length
  rw [whole, Buf.at, ← Nat.mul_add]
  exact scaled

theorem count_nonneg (valid : in_.Valid sizeofT) (valid' : out.Valid sizeofT) :
    0 ≤ count in_ out := by
  have := valid.1
  have := valid'.1
  unfold count
  omega

/-- The bytes that `memcpy` writes are all that are to be written. -/
theorem memcpy_iff (pos : 0 < sizeofT) (valid : in_.Valid sizeofT) (out : Buf) :
    (memcpy sizeofT out in_ (count in_ out)).bytes =
        splice out.bytes (out.at sizeofT) (in_.firsts sizeofT (count in_ out)) ↔
      Reaches sizeofT in_ out := by
  have room : in_.at sizeofT + sizeofT * (count in_ out).toNat ≤ in_.bytes.length :=
    valid.room (Int.min_le_left in_.left out.left)
  unfold memcpy Reaches
  generalize (count in_ out) = m at *
  have more : m.toNat ≤ sizeofT * m.toNat := Nat.le_mul_of_pos_left _ pos
  have length : (in_.firsts sizeofT m).length = sizeofT * m.toNat := by
    rw [Buf.firsts, length_slice room, Nat.add_sub_cancel_left]
  have cut : slice in_.bytes (in_.at sizeofT) (in_.at sizeofT + m.toNat) =
      (in_.firsts sizeofT m).take m.toNat := by
    rw [Buf.firsts, slice, slice, Nat.add_sub_cancel_left, Nat.add_sub_cancel_left, List.take_take,
      Nat.min_eq_left more]
  have rest : slice out.bytes (out.at sizeofT + m.toNat)
      (out.at sizeofT + sizeofT * m.toNat) = (out.firsts sizeofT m).drop m.toNat := by
    rw [Buf.firsts, slice, slice, List.drop_take, List.drop_drop]
    congr 1
    omega
  rw [Buf.bytes_setBytes, cut, splice_take_iff (by rw [length]; exact more), length, rest]

/-- With the number of elements right on both sides, their starts are. -/
theorem copied_iff {after : Buf × Buf} (stop : after.1.stop = in_.stop)
    (stop' : after.2.stop = out.stop) (same : after.1.bytes = in_.bytes) :
    Copied sizeofT in_ out after ↔ after.1.left = in_.left - count in_ out ∧
      after.2.left = out.left - count in_ out ∧ after.2.bytes =
        splice out.bytes (out.at sizeofT) (in_.firsts sizeofT (count in_ out)) := by
  constructor
  · intro copied
    exact ⟨copied.inLeft, copied.outLeft, copied.outBytes⟩
  · rintro ⟨inLeft, outLeft, outBytes⟩
    refine ⟨inLeft, outLeft, ?_, ?_, same, outBytes⟩
    · rw [Buf.start_eq, Buf.start_eq, stop, inLeft]
      omega
    · rw [Buf.start_eq, Buf.start_eq, stop', outLeft]
      omega

/-- A call copies what it is to copy exactly if the shifted side advances and `memcpy` reaches
far enough. -/
theorem copied_bufCp_iff (pos : 0 < sizeofT) (valid : in_.Valid sizeofT) :
    Copied sizeofT in_ out (bufCp sizeofT in_ out) ↔
      Advances in_ out ∧ Reaches sizeofT in_ out := by
  have reached := memcpy_iff pos valid out
  unfold bufCp Advances
  dsimp only
  by_cases less : in_.left < out.left
  · have m : count in_ out = in_.left := Int.min_eq_left (Int.le_of_lt less)
    have none : in_.left - in_.left = 0 := Int.sub_self _
    rw [m] at reached ⊢
    rw [if_pos less, if_pos less, copied_iff (by simp) (by simp [memcpy]) (by simp), m, ← reached,
      ← out.left_shift_iff]
    simp [memcpy, Buf.left_shift_setBytes]
  · have m : count in_ out = out.left := Int.min_eq_right (Int.not_lt.mp less)
    rw [m] at reached ⊢
    rw [if_neg less, if_neg less, copied_iff (by simp) (by simp [memcpy]) (by simp), m, ← reached,
      ← in_.left_shift_iff]
    simp [memcpy]

/-- It does for elements of one byte. -/
theorem reaches_byte (valid : in_.Valid 1) (valid' : out.Valid 1) : Reaches 1 in_ out := by
  have room := valid.room (Int.min_le_left in_.left out.left)
  have room' := valid'.room (Int.min_le_right in_.left out.left)
  have short {b : Buf} (room : b.at 1 + 1 * (count in_ out).toNat ≤ b.bytes.length) :
      (b.firsts 1 (count in_ out)).drop (count in_ out).toNat = [] := by
    apply List.drop_eq_nil_of_le
    rw [Buf.firsts, length_slice room]
    omega
  rw [Reaches, short room, short room']

end OneCall

/-! ## Any number of calls -/

/-- A source and a destination, where they began, and what was read and written before. -/
structure Transfer where
  in_ : Buf
  inFrom : Int
  read : List UInt8
  out : Buf
  outFrom : Int
  written : List UInt8

/-- Another source, another destination, or a call of `buf_cp`. -/
inductive Call where
  | refill (b : Buf)
  | drain (b : Buf)
  | copy
deriving DecidableEq

namespace Transfer

def start (in_ out : Buf) : Transfer := ⟨in_, in_.start, [], out, out.start, []⟩

variable (sizeofT : Nat) (t : Transfer)

/-- What the sources gave, up to where the last of them is. -/
def allRead : List UInt8 :=
  t.read ++ slice t.in_.bytes (sizeofT * t.inFrom.toNat) (t.in_.at sizeofT)

/-- What is in the destinations, up to where the last of them is. -/
def allWritten : List UInt8 :=
  t.written ++ slice t.out.bytes (sizeofT * t.outFrom.toNat) (t.out.at sizeofT)

def step : Call → Option Transfer
  | .refill b =>
    if b.Valid sizeofT then
      some { t with in_ := b, inFrom := b.start, read := t.allRead sizeofT }
    else none
  | .drain b =>
    if b.Valid sizeofT then
      some { t with out := b, outFrom := b.start, written := t.allWritten sizeofT }
    else none
  | .copy =>
    let after := bufCp sizeofT t.in_ t.out
    some { t with in_ := after.1, out := after.2 }

/-- A call that does what it is for. -/
def Whole (call : Call) : Prop :=
  call = .copy → Advances t.in_ t.out ∧ Reaches sizeofT t.in_ t.out

instance (call : Call) : Decidable (t.Whole sizeofT call) :=
  inferInstanceAs (Decidable (_ → _))

/-- As much was written as was read, and nothing else. -/
structure Even : Prop where
  inValid : t.in_.Valid sizeofT
  outValid : t.out.Valid sizeofT
  inFrom : 0 ≤ t.inFrom ∧ t.inFrom ≤ t.in_.start
  outFrom : 0 ≤ t.outFrom ∧ t.outFrom ≤ t.out.start
  same : t.allRead sizeofT = t.allWritten sizeofT

end Transfer

section Runs

variable {sizeofT : Nat}

theorem Buf.Valid.start_nonneg {b : Buf} (valid : b.Valid sizeofT) : 0 ≤ b.start := by
  have := valid.1
  have := valid.2.1
  rw [b.start_eq]
  omega

variable (sizeofT) in
/-- Positions in bytes follow those in elements. -/
theorem Buf.at_add {b b' : Buf} {m : Int} (start : 0 ≤ b.start) (nonneg : 0 ≤ m)
    (moved : b'.start = b.start + m) : b'.at sizeofT = b.at sizeofT + sizeofT * m.toNat := by
  rw [Buf.at, Buf.at, moved, Int.toNat_add start nonneg, Nat.mul_add]

/-- A buffer that took elements off is one. -/
theorem Buf.Valid.advance {b b' : Buf} (valid : b.Valid sizeofT) {m : Int} (nonneg : 0 ≤ m)
    (most : m ≤ b.left) (left : b'.left = b.left - m) (start : b'.start = b.start + m)
    (length : b'.bytes.length = b.bytes.length) : b'.Valid sizeofT := by
  have stop : b'.stop = b.stop := by
    have := b.start_eq
    have := b'.start_eq
    omega
  refine ⟨by omega, ?_, ?_⟩
  · have := valid.2.1
    omega
  · rw [length, stop]
    exact valid.2.2

/-- What a whole call reads it writes. -/
theorem Transfer.Even.copied {t : Transfer} (even : t.Even sizeofT) {after : Buf × Buf}
    (copied : Copied sizeofT t.in_ t.out after) :
    Transfer.Even sizeofT { t with in_ := after.1, out := after.2 } := by
  obtain ⟨inValid, outValid, inFrom, outFrom, same⟩ := even
  obtain ⟨inLeft, outLeft, inStart, outStart, inBytes, outBytes⟩ := copied
  have nonneg : 0 ≤ count t.in_ t.out := count_nonneg inValid outValid
  have most : count t.in_ t.out ≤ t.in_.left := Int.min_le_left _ _
  have most' : count t.in_ t.out ≤ t.out.left := Int.min_le_right _ _
  generalize count t.in_ t.out = m at *
  have inRoom := inValid.room most
  have outRoom := outValid.room most'
  have inAt := Buf.at_add sizeofT inValid.start_nonneg nonneg inStart
  have outAt := Buf.at_add sizeofT outValid.start_nonneg nonneg outStart
  have length : (t.in_.firsts sizeofT m).length = sizeofT * m.toNat := by
    rw [Buf.firsts, length_slice inRoom, Nat.add_sub_cancel_left]
  have inLe : sizeofT * t.inFrom.toNat ≤ t.in_.at sizeofT :=
    Nat.mul_le_mul_left _ (Int.toNat_le_toNat inFrom.2)
  have outLe : sizeofT * t.outFrom.toNat ≤ t.out.at sizeofT :=
    Nat.mul_le_mul_left _ (Int.toNat_le_toNat outFrom.2)
  have outLength : after.2.bytes.length = t.out.bytes.length := by
    rw [outBytes, length_splice (by rw [length]; exact outRoom)]
  refine ⟨inValid.advance nonneg most inLeft inStart (by rw [inBytes]),
    outValid.advance nonneg most' outLeft outStart outLength, ⟨inFrom.1, ?_⟩, ⟨outFrom.1, ?_⟩, ?_⟩
  · show t.inFrom ≤ after.1.start
    omega
  · show t.outFrom ≤ after.2.start
    omega
  · have reads : slice after.1.bytes (sizeofT * t.inFrom.toNat) (after.1.at sizeofT) =
        slice t.in_.bytes (sizeofT * t.inFrom.toNat) (t.in_.at sizeofT) ++
          t.in_.firsts sizeofT m := by
      rw [inBytes, inAt, ← slice_append _ inLe (Nat.le_add_right _ _), Buf.firsts]
    have writes : slice after.2.bytes (sizeofT * t.outFrom.toNat) (after.2.at sizeofT) =
        slice t.out.bytes (sizeofT * t.outFrom.toNat) (t.out.at sizeofT) ++
          t.in_.firsts sizeofT m := by
      have inside : t.out.at sizeofT ≤ t.out.bytes.length := by omega
      have back := slice_splice_self inside (t.in_.firsts sizeofT m)
      rw [length] at back
      rw [outBytes, outAt, ← slice_append _ outLe (Nat.le_add_right _ _), back,
        slice_splice_before _ _ (Nat.le_refl _) inside]
    show t.read ++ slice after.1.bytes _ _ = t.written ++ slice after.2.bytes _ _
    rw [reads, writes, ← List.append_assoc, ← List.append_assoc]
    exact congrArg (· ++ _) same

theorem Transfer.Even.step {t t' : Transfer} (pos : 0 < sizeofT) (even : t.Even sizeofT)
    {call : Call} (whole : t.Whole sizeofT call) (stepped : t.step sizeofT call = some t') :
    t'.Even sizeofT := by
  cases call with
  | refill b =>
      obtain ⟨valid, rfl⟩ := possible_iff.mp stepped
      refine ⟨valid, even.outValid, ⟨valid.start_nonneg, Int.le_refl _⟩, even.outFrom, ?_⟩
      show t.allRead sizeofT ++ slice b.bytes (b.at sizeofT) (b.at sizeofT) = t.allWritten sizeofT
      rw [slice_self, List.append_nil, even.same]
  | drain b =>
      obtain ⟨valid, rfl⟩ := possible_iff.mp stepped
      refine ⟨even.inValid, valid, even.inFrom, ⟨valid.start_nonneg, Int.le_refl _⟩, ?_⟩
      show t.allRead sizeofT = t.allWritten sizeofT ++ slice b.bytes (b.at sizeofT) (b.at sizeofT)
      rw [slice_self, List.append_nil, even.same]
  | copy =>
      obtain rfl := Option.some.inj stepped
      exact even.copied ((copied_bufCp_iff pos even.inValid).mpr (whole rfl))

theorem Transfer.even_start {in_ out : Buf} (valid : in_.Valid sizeofT)
    (valid' : out.Valid sizeofT) : (Transfer.start in_ out).Even sizeofT := by
  refine ⟨valid, valid', ⟨valid.start_nonneg, Int.le_refl _⟩, ⟨valid'.start_nonneg, Int.le_refl _⟩,
    ?_⟩
  show [] ++ slice in_.bytes (in_.at sizeofT) (in_.at sizeofT) =
    [] ++ slice out.bytes (out.at sizeofT) (out.at sizeofT)
  rw [slice_self, slice_self]

/-- **A call copies what it says exactly if the shifted side is no `StaticBuf` and `memcpy`
reaches far enough**, and calls that do lose and repeat nothing. -/
theorem buf_cp_copies_iff (sizeofT : Nat) (pos : 0 < sizeofT) (in_ out : Buf)
    (valid : in_.Valid sizeofT) (valid' : out.Valid sizeofT) :
    (Copied sizeofT in_ out (bufCp sizeofT in_ out) ↔
      Advances in_ out ∧ Reaches sizeofT in_ out) ∧
    ∀ (calls : List Call) (t : Transfer),
      run (Transfer.step sizeofT) (.start in_ out) calls = some t →
      AlongRun (Transfer.step sizeofT) (Transfer.Whole sizeofT) (.start in_ out) calls →
        t.allRead sizeofT = t.allWritten sizeofT := by
  refine ⟨copied_bufCp_iff pos valid, fun calls t ran whole => ?_⟩
  have even := run_inv_of (Transfer.Even sizeofT)
    (fun t call t' even whole stepped => even.step pos whole stepped)
    (Transfer.even_start valid valid') whole ran
  exact even.same

/-- Three bytes through a buffer of two. -/
theorem buf_cp_copies_bytes : ∃ t,
    run (Transfer.step 1) (.start (.ptr (.make [1, 2, 3] 3)) (.ptr (.make [0, 0] 2)))
      [.copy, .drain (.ptr (.make [0, 0] 2)), .copy] = some t ∧
      t.allWritten 1 = [1, 2, 3] ∧ t.allRead 1 = t.allWritten 1 := by
  have runs := (buf_cp_copies_iff 1 (by decide) (.ptr (.make [1, 2, 3] 3))
    (.ptr (.make [0, 0] 2)) (by decide) (by decide)).2
      [.copy, .drain (.ptr (.make [0, 0] 2)), .copy] _ rfl
  exact ⟨_, rfl, by decide, runs (by decide)⟩

/-- **Refuted**: of a `StaticBuf` of two bytes three are left after one was written. -/
theorem buf_cp_copies_refuted :
    ¬ ∀ (sizeofT : Nat) (in_ out : Buf), 0 < sizeofT → in_.Valid sizeofT → out.Valid sizeofT →
      Copied sizeofT in_ out (bufCp sizeofT in_ out) := by
  intro always
  have copied := always 1 (.ptr (.make [1] 1)) (.static ⟨2, [0, 0], 2⟩) (by decide) (by decide)
    (by decide)
  exact absurd copied.outLeft (by decide)

end Runs

end UdpStuff.Buffer
