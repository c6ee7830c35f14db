/-
# Crypto.Calls — one buffer or two

`encrypt` and `decrypt` of `block.h` are given `out` and `in`, which may be one buffer or
two that do not overlap.  `Buffers` is what is behind the two pointers.  The loops load
from `in` and store to `out`; the last block and its tail are loaded from `in` and stored
there as well.

In place these are the functions of `Crypto.Block` (`encrypt_inPlace`, `decrypt_inPlace`).
On whole blocks the two ways to call come to the same (`encrypt_blocks`, `decrypt_blocks`).
-/
import UdpStuff.Crypto.Block

namespace UdpStuff.Crypto

open Theory

set_option autoImplicit false

/-- What `in` and `out` point to. -/
inductive Buffers where
  | inPlace (buf : List UInt8)
  | apart (inBuf outBuf : List UInt8)
deriving DecidableEq

namespace Buffers

def input : Buffers → List UInt8
  | .inPlace buf => buf
  | .apart inBuf _ => inBuf

def output : Buffers → List UInt8
  | .inPlace buf => buf
  | .apart _ outBuf => outBuf

def setInput : Buffers → List UInt8 → Buffers
  | .inPlace _, buf => .inPlace buf
  | .apart _ outBuf, buf => .apart buf outBuf

def setOutput : Buffers → List UInt8 → Buffers
  | .inPlace _, buf => .inPlace buf
  | .apart inBuf _, buf => .apart inBuf buf

/-- The size that a call is given: both buffers are that long. -/
def size (bufs : Buffers) : Nat := bufs.input.length

def Fits (bufs : Buffers) : Prop := bufs.output.length = bufs.input.length

instance (bufs : Buffers) : Decidable bufs.Fits := inferInstanceAs (Decidable (_ = _))

section Code

variable (aesEcbEncrypt aesEcbDecrypt : Block → Block)

/-- The loop of `encrypt`, `n` blocks from `i` on. -/
def encryptLoop : Nat → Nat → Buffers → Block → Buffers × Block
  | 0, _, bufs, feedbackBuf => (bufs, feedbackBuf)
  | n + 1, i, bufs, feedbackBuf =>
    let feedbackBuf := mmAddEpi64 feedbackBuf (mmLoadu bufs.input i)
    let bufs := bufs.setOutput (mmStoreu bufs.output i (aesEcbEncrypt feedbackBuf))
    encryptLoop n (i + blockSize) bufs feedbackBuf

/-- The tail and the last block, which are on the side of `in`. -/
def encryptTail (size tailSize : Nat) (bufs : Buffers) (feedbackBuf : Block) : Buffers × Block :=
  let b1 := size + tailSize - blockSize
  let b2 := size
  let feedbackBuf := mmAddEpi64 feedbackBuf (memcpyFrom mmSetzero bufs.input b2 tailSize)
  let bufs := bufs.setInput (memcpyTo bufs.input b2 (feedbackBuf.bytes.take tailSize))
  (bufs.setInput (mmStoreu bufs.input b1 (aesEcbEncrypt (mmLoadu bufs.input b1))), feedbackBuf)

/-- The buffers and the feedback after `encrypt`. -/
def encrypt (bufs : Buffers) (feedback : Block) : Buffers × Block :=
  let tailSize := bufs.size % blockSize
  let size := bufs.size - tailSize
  let whole := encryptLoop aesEcbEncrypt (size / blockSize) 0 bufs feedback
  if tailSize ≠ 0 then encryptTail aesEcbEncrypt size tailSize whole.1 whole.2 else whole

/-- The loop of `decrypt`. -/
def decryptLoop : Nat → Nat → Buffers → Block → Buffers × Block
  | 0, _, bufs, feedbackBuf => (bufs, feedbackBuf)
  | n + 1, i, bufs, feedbackBuf =>
    let feedbackBuf := mmSubEpi64 (aesEcbDecrypt (mmLoadu bufs.input i)) feedbackBuf
    let bufs := bufs.setOutput (mmStoreu bufs.output i feedbackBuf)
    decryptLoop n (i + blockSize) bufs feedbackBuf

def decryptTail (size tailSize : Nat) (bufs : Buffers) (feedbackBuf : Block) : Buffers × Block :=
  let b1 := size
  let b2 := size + tailSize - blockSize
  let b3 := size + blockSize
  let bufs := bufs.setInput (mmStoreu bufs.input b2 (aesEcbDecrypt (mmLoadu bufs.input b2)))
  let feedbackBuf := mmSubEpi64 (aesEcbDecrypt (mmLoadu bufs.input b1)) feedbackBuf
  let bufs := bufs.setInput (mmStoreu bufs.input b1 feedbackBuf)
  let feedbackBuf :=
    mmSubEpi64 (memcpyFrom mmSetzero bufs.input b3 (tailSize - blockSize)) feedbackBuf
  let bufs := bufs.setInput
    (memcpyTo bufs.input b3 (feedbackBuf.bytes.take (tailSize - blockSize)))
  (bufs, feedbackBuf)

/-- The buffers and the feedback after `decrypt`. -/
def decrypt (bufs : Buffers) (feedback : Block) : Buffers × Block :=
  let tailSize := if bufs.size % blockSize ≠ 0 then blockSize + bufs.size % blockSize else 0
  let size := bufs.size - tailSize
  let whole := decryptLoop aesEcbDecrypt (size / blockSize) 0 bufs feedback
  if tailSize ≠ 0 then decryptTail aesEcbDecrypt size tailSize whole.1 whole.2 else whole

end Code

/-! ## One buffer -/

theorem encryptLoop_inPlace (e : Block → Block) (n i : Nat) (buf : List UInt8) (f : Block) :
    encryptLoop e n i (.inPlace buf) f =
      (.inPlace (AES256SUM128Crypt.encryptLoop e n i buf f).1,
        (AES256SUM128Crypt.encryptLoop e n i buf f).2) := by
  induction n generalizing i buf f with
  | zero => rfl
  | succ n ih =>
      rw [encryptLoop, AES256SUM128Crypt.encryptLoop]
      exact ih _ _ _

theorem encrypt_inPlace (e : Block → Block) (buf : List UInt8) (f : Block) :
    encrypt e (.inPlace buf) f =
      (.inPlace (AES256SUM128Crypt.encrypt e f buf).1, (AES256SUM128Crypt.encrypt e f buf).2) := by
  have size : (Buffers.inPlace buf).size = buf.length := rfl
  unfold encrypt AES256SUM128Crypt.encrypt
  dsimp only
  rw [encryptLoop_inPlace, size]
  by_cases tail : buf.length % blockSize ≠ 0
  · rw [if_pos tail, if_pos tail]
    rfl
  · rw [if_neg tail, if_neg tail]

theorem decryptLoop_inPlace (d : Block → Block) (n i : Nat) (buf : List UInt8) (g : Block) :
    decryptLoop d n i (.inPlace buf) g =
      (.inPlace (AES256SUM128Crypt.decryptLoop d n i buf g).1,
        (AES256SUM128Crypt.decryptLoop d n i buf g).2) := by
  induction n generalizing i buf g with
  | zero => rfl
  | succ n ih =>
      rw [decryptLoop, AES256SUM128Crypt.decryptLoop]
      exact ih _ _ _

theorem decrypt_inPlace (d : Block → Block) (buf : List UInt8) (g : Block) :
    decrypt d (.inPlace buf) g =
      (.inPlace (AES256SUM128Crypt.decrypt d g buf).1, (AES256SUM128Crypt.decrypt d g buf).2) := by
  have size : (Buffers.inPlace buf).size = buf.length := rfl
  unfold decrypt AES256SUM128Crypt.decrypt
  dsimp only
  rw [decryptLoop_inPlace, size]
  generalize (if buf.length % blockSize ≠ 0 then blockSize + buf.length % blockSize else 0) =
    tailSize
  by_cases tail : tailSize ≠ 0
  · rw [if_pos tail, if_pos tail]
    rfl
  · rw [if_neg tail, if_neg tail]

/-! ## Two buffers -/

/-- The next sixteen bytes of `out`, which are overwritten. -/
theorem exists_first_block {old : List UInt8} {n : Nat} (length : old.length = 16 * (n + 1)) :
    ∃ first later, old = first ++ later ∧ first.length = 16 ∧ later.length = 16 * n := by
  refine ⟨old.take 16, old.drop 16, (List.take_append_drop 16 old).symm, ?_, ?_⟩
  · rw [List.length_take, length]
    omega
  · rw [List.length_drop, length]
    omega

theorem mmStoreu_over {pre first : List UInt8} (later : List UInt8) {pos : Nat}
    (here : pos = pre.length) (length : first.length = 16) (p : Block) (post : List UInt8) :
    mmStoreu (pre ++ (first ++ later ++ post)) pos p = pre ++ p.bytes ++ (later ++ post) := by
  rw [List.append_assoc, mmStoreu_at _ here length, List.append_assoc]

theorem encryptLoop_apart (e : Block → Block) (ps : List Block)
    (pre post pre' old post' : List UInt8) {pos : Nat} (here : pos = pre.length)
    (here' : pos = pre'.length) (length : old.length = 16 * ps.length) (f : Block) :
    encryptLoop e ps.length pos (.apart (pre ++ (bytesOf ps ++ post)) (pre' ++ (old ++ post'))) f =
      (.apart (pre ++ (bytesOf ps ++ post)) (pre' ++ (bytesOf (chain e f ps).1 ++ post')),
        (chain e f ps).2) := by
  induction ps generalizing pre pre' old pos f with
  | nil =>
      obtain rfl := List.eq_nil_of_length_eq_zero length
      rfl
  | cons p ps ih =>
      obtain ⟨first, later, rfl, firstLength, laterLength⟩ := exists_first_block length
      have sum : mmAddEpi64 f p = f + p := rfl
      have turn := ih (pre ++ p.bytes) _ later (after_block here p)
        (after_block here' (e (f + p))) laterLength (f + p)
      have input : pre ++ (bytesOf (p :: ps) ++ post) = pre ++ p.bytes ++ (bytesOf ps ++ post) := by
        simp [bytesOf_cons]
      rw [List.length_cons, encryptLoop]
      simp only [Buffers.input, Buffers.output, Buffers.setOutput]
      rw [mmLoadu_block _ here, sum, mmStoreu_over later here' firstLength, input, turn, chain]
      simp [bytesOf_cons]

theorem decryptLoop_apart (d : Block → Block) (cs : List Block)
    (pre post pre' old post' : List UInt8) {pos : Nat} (here : pos = pre.length)
    (here' : pos = pre'.length) (length : old.length = 16 * cs.length) (g : Block) :
    decryptLoop d cs.length pos (.apart (pre ++ (bytesOf cs ++ post)) (pre' ++ (old ++ post'))) g =
      (.apart (pre ++ (bytesOf cs ++ post)) (pre' ++ (bytesOf (unchain d g cs).1 ++ post')),
        (unchain d g cs).2) := by
  induction cs generalizing pre pre' old pos g with
  | nil =>
      obtain rfl := List.eq_nil_of_length_eq_zero length
      rfl
  | cons c cs ih =>
      obtain ⟨first, later, rfl, firstLength, laterLength⟩ := exists_first_block length
      have difference : mmSubEpi64 (d c) g = d c - g := rfl
      have turn := ih (pre ++ c.bytes) _ later (after_block here c)
        (after_block here' (d c - g)) laterLength (d c - g)
      have input : pre ++ (bytesOf (c :: cs) ++ post) = pre ++ c.bytes ++ (bytesOf cs ++ post) := by
        simp [bytesOf_cons]
      rw [List.length_cons, decryptLoop]
      simp only [Buffers.input, Buffers.output, Buffers.setOutput]
      rw [mmLoadu_block _ here, difference, mmStoreu_over later here' firstLength, input, turn,
        unchain]
      simp [bytesOf_cons]

/-! ## Whole blocks -/

/-- A message of whole blocks, called either way: the blocks are chained into the output. -/
theorem encrypt_blocks (e : Block → Block) {bufs : Buffers} (fits : bufs.Fits) (f : Block)
    {ps : List Block} (blocks : bufs.input = bytesOf ps) :
    encrypt e bufs f = (bufs.setOutput (bytesOf (chain e f ps).1), (chain e f ps).2) := by
  cases bufs with
  | inPlace buf =>
      obtain rfl : buf = bytesOf ps := blocks
      rw [encrypt_inPlace, AES256SUM128Crypt.encrypt_whole]
      rfl
  | apart inBuf outBuf =>
      obtain rfl : inBuf = bytesOf ps := blocks
      have length : outBuf.length = 16 * ps.length := Eq.trans fits (length_bytesOf ps)
      have loop := encryptLoop_apart e ps [] [] [] outBuf [] rfl rfl length f
      obtain ⟨tail, size, count⟩ := AES256SUM128Crypt.sizes ps [] (by decide)
      simp only [List.append_nil, List.nil_append, List.length_nil, Nat.sub_zero] at loop tail size
      have sizeIs : (Buffers.apart (bytesOf ps) outBuf).size = (bytesOf ps).length := rfl
      unfold encrypt
      dsimp only
      rw [sizeIs, tail, if_neg (by decide), Nat.sub_zero, size, count, loop]
      rfl

theorem decrypt_blocks (d : Block → Block) {bufs : Buffers} (fits : bufs.Fits) (g : Block)
    {cs : List Block} (blocks : bufs.input = bytesOf cs) :
    decrypt d bufs g = (bufs.setOutput (bytesOf (unchain d g cs).1), (unchain d g cs).2) := by
  cases bufs with
  | inPlace buf =>
      obtain rfl : buf = bytesOf cs := blocks
      rw [decrypt_inPlace, AES256SUM128Crypt.decrypt_whole]
      rfl
  | apart inBuf outBuf =>
      obtain rfl : inBuf = bytesOf cs := blocks
      have length : outBuf.length = 16 * cs.length := Eq.trans fits (length_bytesOf cs)
      have loop := decryptLoop_apart d cs [] [] [] outBuf [] rfl rfl length g
      obtain ⟨tail, size, count⟩ := AES256SUM128Crypt.sizes cs [] (by decide)
      simp only [List.append_nil, List.nil_append, List.length_nil, Nat.sub_zero] at loop tail size
      have sizeIs : (Buffers.apart (bytesOf cs) outBuf).size = (bytesOf cs).length := rfl
      unfold decrypt
      dsimp only
      rw [sizeIs, tail, if_neg (by decide), if_neg (by decide), Nat.sub_zero, size, count, loop]
      rfl

end Buffers

end UdpStuff.Crypto
