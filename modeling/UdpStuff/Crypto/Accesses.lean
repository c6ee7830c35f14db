/-
# Crypto.Accesses — what is loaded and stored, and where

`encryptChecked` and `decryptChecked` are the two functions with every load and every store
compared with the size of the message, and every sum and difference of sizes with what a
`std::size_t` holds.  The first that does not fit is the result.

The last block reaches back before the tail, so there has to be a block.
`accesses_inside_iff`: nothing is out of place exactly for the empty message and those of
sixteen bytes or more; then the checks change nothing.
-/
import UdpStuff.Crypto.Calls

namespace UdpStuff.Crypto

set_option autoImplicit false

/-- An access to bytes that are not of the message, or a size that wraps. -/
inductive Fault where
  | outside (pos len : Nat)
  | wraps
deriving DecidableEq

namespace Fault

/-- A load or a store of `len` bytes at a distance from `in` or `out`. -/
def access (size pos len : Nat) : Except Fault Unit :=
  if pos + len ≤ size then .ok () else .error (.outside pos len)

def add (a b : Nat) : Except Fault Nat := if a + b < 2 ^ 64 then .ok (a + b) else .error .wraps

def sub (a b : Nat) : Except Fault Nat := if b ≤ a then .ok (a - b) else .error .wraps

theorem access_eq {size pos len : Nat} (inside : pos + len ≤ size) :
    access size pos len = .ok () := if_pos inside

theorem add_eq {a b : Nat} (fits : a + b < 2 ^ 64) : add a b = .ok (a + b) := if_pos fits

theorem sub_eq {a b : Nat} (le : b ≤ a) : sub a b = .ok (a - b) := if_pos le

theorem sub_wraps {a b : Nat} (less : a < b) : sub a b = .error .wraps :=
  if_neg (Nat.not_le.mpr less)

theorem ok_bind {α β : Type} (a : α) (f : α → Except Fault β) : (.ok a >>= f) = f a := rfl

theorem error_bind {α β : Type} (fault : Fault) (f : α → Except Fault β) :
    (.error fault >>= f) = .error fault := rfl

end Fault

namespace Buffers

open Fault

section Code

variable (aesEcbEncrypt aesEcbDecrypt : Block → Block)

/-- The loop of `encrypt` in a message of `size` bytes. -/
def encryptLoopChecked (size : Nat) : Nat → Nat → Buffers → Block → Except Fault (Buffers × Block)
  | 0, _, bufs, feedbackBuf => .ok (bufs, feedbackBuf)
  | n + 1, i, bufs, feedbackBuf => do
    access size i blockSize
    let feedbackBuf := mmAddEpi64 feedbackBuf (mmLoadu bufs.input i)
    access size i blockSize
    let bufs := bufs.setOutput (mmStoreu bufs.output i (aesEcbEncrypt feedbackBuf))
    let i ← add i blockSize
    encryptLoopChecked size n i bufs feedbackBuf

def encryptChecked (bufs : Buffers) (feedback : Block) : Except Fault (Buffers × Block) := do
  let tailSize := bufs.size % blockSize
  let size ← sub bufs.size tailSize
  let whole ← encryptLoopChecked aesEcbEncrypt bufs.size (size / blockSize) 0 bufs feedback
  if tailSize ≠ 0 then
    let stop ← add size tailSize
    let b1 ← sub stop blockSize
    let b2 := size
    access bufs.size b2 tailSize
    access bufs.size b2 tailSize
    access bufs.size b1 blockSize
    access bufs.size b1 blockSize
    .ok (encryptTail aesEcbEncrypt size tailSize whole.1 whole.2)
  else .ok whole

def decryptLoopChecked (size : Nat) : Nat → Nat → Buffers → Block → Except Fault (Buffers × Block)
  | 0, _, bufs, feedbackBuf => .ok (bufs, feedbackBuf)
  | n + 1, i, bufs, feedbackBuf => do
    access size i blockSize
    let feedbackBuf := mmSubEpi64 (aesEcbDecrypt (mmLoadu bufs.input i)) feedbackBuf
    access size i blockSize
    let bufs := bufs.setOutput (mmStoreu bufs.output i feedbackBuf)
    let i ← add i blockSize
    decryptLoopChecked size n i bufs feedbackBuf

def decryptChecked (bufs : Buffers) (feedback : Block) : Except Fault (Buffers × Block) := do
  let tailSize ←
    if bufs.size % blockSize ≠ 0 then add blockSize (bufs.size % blockSize) else .ok 0
  let size ← sub bufs.size tailSize
  let whole ← decryptLoopChecked aesEcbDecrypt bufs.size (size / blockSize) 0 bufs feedback
  if tailSize ≠ 0 then
    let b1 := size
    let stop ← add size tailSize
    let b2 ← sub stop blockSize
    let b3 ← add size blockSize
    let rest ← sub tailSize blockSize
    access bufs.size b2 blockSize
    access bufs.size b2 blockSize
    access bufs.size b1 blockSize
    access bufs.size b1 blockSize
    access bufs.size b3 rest
    access bufs.size b3 rest
    .ok (decryptTail aesEcbDecrypt size tailSize whole.1 whole.2)
  else .ok whole

end Code

/-- The loop stays inside as long as its blocks do. -/
theorem encryptLoopChecked_eq (e : Block → Block) {size : Nat} (isSize : size < 2 ^ 64) (n i : Nat)
    (inside : i + blockSize * n ≤ size) (bufs : Buffers) (f : Block) :
    encryptLoopChecked e size n i bufs f = .ok (encryptLoop e n i bufs f) := by
  induction n generalizing i bufs f with
  | zero => rfl
  | succ n ih =>
      rw [Nat.mul_succ] at inside
      rw [encryptLoopChecked, access_eq (by omega), ok_bind, ok_bind, add_eq (by omega), ok_bind,
        ih _ (by omega), encryptLoop]

theorem decryptLoopChecked_eq (d : Block → Block) {size : Nat} (isSize : size < 2 ^ 64) (n i : Nat)
    (inside : i + blockSize * n ≤ size) (bufs : Buffers) (g : Block) :
    decryptLoopChecked d size n i bufs g = .ok (decryptLoop d n i bufs g) := by
  induction n generalizing i bufs g with
  | zero => rfl
  | succ n ih =>
      rw [Nat.mul_succ] at inside
      rw [decryptLoopChecked, access_eq (by omega), ok_bind, ok_bind, add_eq (by omega), ok_bind,
        ih _ (by omega), decryptLoop]

theorem encryptChecked_eq (e : Block → Block) {bufs : Buffers} (isSize : bufs.size < 2 ^ 64)
    (enough : bufs.size = 0 ∨ 16 ≤ bufs.size) (f : Block) :
    encryptChecked e bufs f = .ok (encrypt e bufs f) := by
  unfold encryptChecked encrypt
  dsimp only
  generalize bufs.size = total at *
  have loop := encryptLoopChecked_eq e isSize ((total - total % blockSize) / blockSize) 0
    (by rw [blockSize]; omega) bufs f
  have whole : total % blockSize ≤ total := Nat.mod_le _ _
  rw [sub_eq whole, ok_bind, loop, ok_bind]
  by_cases tail : total % blockSize ≠ 0
  · have reaches : blockSize ≤ total - total % blockSize + total % blockSize := by
      rw [blockSize] at tail ⊢
      omega
    rw [if_pos tail, if_pos tail, add_eq (by omega), ok_bind, sub_eq reaches, ok_bind,
      access_eq (by omega), ok_bind, ok_bind, access_eq (by omega), ok_bind, ok_bind]
  · rw [if_neg tail, if_neg tail]

theorem encryptChecked_wraps (e : Block → Block) {bufs : Buffers} (some : 0 < bufs.size)
    (short : bufs.size < 16) (f : Block) : encryptChecked e bufs f = .error .wraps := by
  unfold encryptChecked
  dsimp only
  generalize bufs.size = total at *
  have tail : total % blockSize = total := Nat.mod_eq_of_lt short
  have fits : 0 + total < 2 ^ 64 := by omega
  have reaches : 0 + total < blockSize := by rwa [Nat.zero_add]
  rw [tail, sub_eq (Nat.le_refl _), ok_bind, Nat.sub_self, Nat.zero_div, encryptLoopChecked,
    ok_bind, if_pos (Nat.ne_of_gt some), add_eq fits, ok_bind, sub_wraps reaches, error_bind]

theorem decryptChecked_eq (d : Block → Block) {bufs : Buffers} (isSize : bufs.size < 2 ^ 64)
    (enough : bufs.size = 0 ∨ 16 ≤ bufs.size) (g : Block) :
    decryptChecked d bufs g = .ok (decrypt d bufs g) := by
  unfold decryptChecked decrypt
  dsimp only
  generalize bufs.size = total at *
  by_cases tail : total % blockSize ≠ 0
  · have reaches : blockSize + total % blockSize ≤ total := by
      rw [blockSize] at tail ⊢
      omega
    have small : blockSize + total % blockSize < 2 ^ 64 := by omega
    have some : blockSize + total % blockSize ≠ 0 := by
      rw [blockSize]
      omega
    have loop := decryptLoopChecked_eq d isSize
      ((total - (blockSize + total % blockSize)) / blockSize) 0
      (by rw [blockSize] at *; omega) bufs g
    rw [if_pos tail, if_pos tail, add_eq small, ok_bind, sub_eq reaches, ok_bind, loop, ok_bind,
      if_pos some, if_pos some, add_eq (by omega), ok_bind, sub_eq (by omega), ok_bind,
      add_eq (by omega), ok_bind, sub_eq (by omega), ok_bind, access_eq (by omega), ok_bind,
      ok_bind, access_eq (by omega), ok_bind, ok_bind, access_eq (by omega), ok_bind, ok_bind]
  · have loop := decryptLoopChecked_eq d isSize (total / blockSize) 0
      (by rw [blockSize]; omega) bufs g
    rw [if_neg tail, if_neg tail, ok_bind, sub_eq (Nat.zero_le _), ok_bind, Nat.sub_zero, loop,
      ok_bind, if_neg (by decide), if_neg (by decide)]

theorem decryptChecked_wraps (d : Block → Block) {bufs : Buffers} (some : 0 < bufs.size)
    (short : bufs.size < 16) (g : Block) : decryptChecked d bufs g = .error .wraps := by
  unfold decryptChecked
  dsimp only
  generalize bufs.size = total at *
  have tail : total % blockSize = total := Nat.mod_eq_of_lt short
  have less : total < blockSize + total := Nat.lt_add_of_pos_left (by decide)
  have small : blockSize + total < 2 ^ 64 := by
    rw [blockSize]
    omega
  rw [tail, if_pos (Nat.ne_of_gt some), add_eq small, ok_bind, sub_wraps less, error_bind]

/-- **Every access is inside exactly if there is a block, or nothing at all.** -/
theorem accesses_inside_iff (e : Block ≃ Block) (feedback : Block) (bufs : Buffers)
    (isSize : bufs.size < 2 ^ 64) :
    (encryptChecked e bufs feedback = .ok (encrypt e bufs feedback) ↔
      bufs.size = 0 ∨ 16 ≤ bufs.size) ∧
    (decryptChecked e.symm bufs feedback = .ok (decrypt e.symm bufs feedback) ↔
      bufs.size = 0 ∨ 16 ≤ bufs.size) := by
  have short (not : ¬ (bufs.size = 0 ∨ 16 ≤ bufs.size)) : 0 < bufs.size ∧ bufs.size < 16 := by
    omega
  refine ⟨⟨fun inside => ?_, fun enough => encryptChecked_eq e isSize enough feedback⟩,
    ⟨fun inside => ?_, fun enough => decryptChecked_eq e.symm isSize enough feedback⟩⟩
  · by_contra not
    rw [encryptChecked_wraps e (short not).1 (short not).2] at inside
    cases inside
  · by_contra not
    rw [decryptChecked_wraps e.symm (short not).1 (short not).2] at inside
    cases inside

/-- A block and five bytes. -/
theorem accesses_inside_tail :
    encryptChecked (Equiv.refl Block) (.inPlace (List.replicate 21 0)) 0 =
        .ok (encrypt (Equiv.refl Block) (.inPlace (List.replicate 21 0)) 0) ∧
      decryptChecked (Equiv.refl Block).symm (.inPlace (List.replicate 21 0)) 0 =
        .ok (decrypt (Equiv.refl Block).symm (.inPlace (List.replicate 21 0)) 0) := by
  have inside := accesses_inside_iff (Equiv.refl Block) 0 (.inPlace (List.replicate 21 0))
    (by decide)
  exact ⟨inside.1.mpr (by decide), inside.2.mpr (by decide)⟩

/-- **Refuted**: five bytes and no block. -/
theorem accesses_inside_refuted :
    ¬ ∀ (e : Block ≃ Block) (feedback : Block) (bufs : Buffers), bufs.size < 2 ^ 64 →
      encryptChecked e bufs feedback = .ok (encrypt e bufs feedback) ∧
        decryptChecked e.symm bufs feedback = .ok (decrypt e.symm bufs feedback) := by
  intro always
  have inside := (always (Equiv.refl Block) 0 (.inPlace (List.replicate 5 0)) (by decide)).1
  rw [encryptChecked_wraps _ (by decide) (by decide)] at inside
  cases inside

end Buffers

end UdpStuff.Crypto
