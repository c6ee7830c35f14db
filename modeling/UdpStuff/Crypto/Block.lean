/-
# Crypto.Block — the chained block mode, in place

`AES256SUM128Crypt` of `block.h` on a buffer that is both input and output.  A block
is a vector of two 64-bit lanes.  `encrypt` adds each block to the sum of those
before it and encrypts the sum; a tail is added to the sum and encrypted together
with the end of the last whole block, which it overlaps.  `decrypt` undoes the
stores in the opposite order, but it keeps the block it made as its feedback where
the encryptor keeps the sum.

`AES_ECB_encrypt` and `AES_ECB_decrypt` under the loaded key are parameters.
-/
import UdpStuff.Theory.ByteOrder
import UdpStuff.Theory.RunningSum
import Mathlib.Data.BitVec
import Mathlib.Algebra.Group.Prod
import Mathlib.Tactic.Abel

namespace UdpStuff.Crypto

open Theory

set_option autoImplicit false

/-- `__m128i` as its 64-bit lanes, the low one first. -/
abbrev Block := BitVec 64 × BitVec 64

def blockSize : Nat := 128 / 8

def mmAddEpi64 (a b : Block) : Block := (a.1 + b.1, a.2 + b.2)

def mmSubEpi64 (a b : Block) : Block := (a.1 - b.1, a.2 - b.2)

def mmSetzero : Block := (0, 0)

namespace Block

def bytes (b : Block) : List UInt8 := ByteOrder.little.store b.1 ++ ByteOrder.little.store b.2

def ofBytes (bs : List UInt8) : Block :=
  (ByteOrder.little.load 64 (bs.take 8), ByteOrder.little.load 64 (bs.drop 8))

end Block

/-- `memcpy` to a place inside the buffer. -/
def memcpyTo (buf : List UInt8) (pos : Nat) (bytes : List UInt8) : List UInt8 :=
  buf.take pos ++ bytes ++ buf.drop (pos + bytes.length)

/-- `memcpy` of `n` bytes from a place in the buffer over the front of a block. -/
def memcpyFrom (tmp : Block) (buf : List UInt8) (pos n : Nat) : Block :=
  .ofBytes ((buf.drop pos).take n ++ tmp.bytes.drop n)

/-- `_mm_loadu_si128` -/
def mmLoadu (buf : List UInt8) (pos : Nat) : Block := .ofBytes ((buf.drop pos).take blockSize)

/-- `_mm_storeu_si128` -/
def mmStoreu (buf : List UInt8) (pos : Nat) (tmp : Block) : List UInt8 :=
  memcpyTo buf pos tmp.bytes

namespace AES256SUM128Crypt

section Code

variable (aesEcbEncrypt aesEcbDecrypt : Block → Block)

/-- The loop of `encrypt`, `n` blocks from `i` on. -/
def encryptLoop : Nat → Nat → List UInt8 → Block → List UInt8 × Block
  | 0, _, buf, feedbackBuf => (buf, feedbackBuf)
  | n + 1, i, buf, feedbackBuf =>
    let feedbackBuf := mmAddEpi64 feedbackBuf (mmLoadu buf i)
    encryptLoop n (i + blockSize) (mmStoreu buf i (aesEcbEncrypt feedbackBuf)) feedbackBuf

/-- The buffer and the feedback after `encrypt`. -/
def encrypt (feedback : Block) (buf : List UInt8) : List UInt8 × Block :=
  let tailSize := buf.length % blockSize
  let size := buf.length - tailSize
  let whole := encryptLoop aesEcbEncrypt (size / blockSize) 0 buf feedback
  if tailSize ≠ 0 then
    let b1 := size + tailSize - blockSize
    let b2 := size
    let buf := whole.1
    let feedbackBuf := mmAddEpi64 whole.2 (memcpyFrom mmSetzero buf b2 tailSize)
    let buf := memcpyTo buf b2 (feedbackBuf.bytes.take tailSize)
    (mmStoreu buf b1 (aesEcbEncrypt (mmLoadu buf b1)), feedbackBuf)
  else whole

/-- The loop of `decrypt`. -/
def decryptLoop : Nat → Nat → List UInt8 → Block → List UInt8 × Block
  | 0, _, buf, feedbackBuf => (buf, feedbackBuf)
  | n + 1, i, buf, feedbackBuf =>
    let feedbackBuf := mmSubEpi64 (aesEcbDecrypt (mmLoadu buf i)) feedbackBuf
    decryptLoop n (i + blockSize) (mmStoreu buf i feedbackBuf) feedbackBuf

/-- The buffer and the feedback after `decrypt`. -/
def decrypt (feedback : Block) (buf : List UInt8) : List UInt8 × Block :=
  let tailSize := if buf.length % blockSize ≠ 0 then blockSize + buf.length % blockSize else 0
  let size := buf.length - tailSize
  let whole := decryptLoop aesEcbDecrypt (size / blockSize) 0 buf feedback
  if tailSize ≠ 0 then
    let b1 := size
    let b2 := size + tailSize - blockSize
    let b3 := size + blockSize
    let buf := whole.1
    let buf := mmStoreu buf b2 (aesEcbDecrypt (mmLoadu buf b2))
    let feedbackBuf := mmSubEpi64 (aesEcbDecrypt (mmLoadu buf b1)) whole.2
    let buf := mmStoreu buf b1 feedbackBuf
    let feedbackBuf :=
      mmSubEpi64 (memcpyFrom mmSetzero buf b3 (tailSize - blockSize)) feedbackBuf
    (memcpyTo buf b3 (feedbackBuf.bytes.take (tailSize - blockSize)), feedbackBuf)
  else whole

def getChecksum (feedback : Block) : List UInt8 := (aesEcbDecrypt feedback).bytes

end Code

/-- The whole blocks of a message. -/
def wholeBlocks (msg : List UInt8) : List Block :=
  (List.range (msg.length / blockSize)).map fun i => mmLoadu msg (i * blockSize)

/-- Decrypting with the same feedback what was encrypted in place restores the message,
the feedback and the checksum. -/
def RoundTrips (e : Block ≃ Block) (feedback : Block) (msg : List UInt8) : Prop :=
  let sent := encrypt e feedback msg
  let received := decrypt e.symm feedback sent.1
  received.1 = msg ∧ received.2 = sent.2 ∧
    getChecksum e.symm received.2 = getChecksum e.symm sent.2

/-- The feedback and the blocks before add up to zero before every whole block but the
last; before the last they do so too, if there is no tail; with a tail they are what
twice the last block lacks to zero, and that block is zero where the tail covers it. -/
def Unchained (feedback : Block) (ps : List Block) (tailSize : Nat) : Prop :=
  ZeroBefore feedback ps ∧
    if tailSize = 0 then feedback + ps.dropLast.sum = 0
    else feedback + ps.dropLast.sum + (ps.getLastD 0 + ps.getLastD 0) = 0 ∧
      ∀ b ∈ (ps.getLastD 0).bytes.take tailSize, b = 0

end AES256SUM128Crypt

/-! ## Blocks and bytes -/

namespace Block

@[simp] theorem length_bytes (b : Block) : b.bytes.length = 16 := by
  simp [bytes]

@[simp] theorem ofBytes_bytes (b : Block) : ofBytes b.bytes = b := by
  have length : (ByteOrder.little.store b.1).length = 8 := ByteOrder.length_store _ _
  rw [ofBytes, bytes, List.take_left' length, List.drop_left' length,
    ByteOrder.load_store rfl, ByteOrder.load_store rfl]

theorem bytes_ofBytes {bs : List UInt8} (length : bs.length = 16) : (ofBytes bs).bytes = bs := by
  rw [bytes, ofBytes, ByteOrder.store_load rfl _ (by rw [List.length_take]; omega),
    ByteOrder.store_load rfl _ (by rw [List.length_drop]; omega), List.take_append_drop]

end Block

/-- The bytes of a list of blocks. -/
def bytesOf (ps : List Block) : List UInt8 := ps.flatMap Block.bytes

@[simp] theorem length_bytesOf (ps : List Block) : (bytesOf ps).length = 16 * ps.length := by
  induction ps with
  | nil => rfl
  | cons p ps ih =>
      rw [bytesOf, List.flatMap_cons, List.length_append, Block.length_bytes, ← bytesOf, ih,
        List.length_cons]
      omega

theorem bytesOf_cons (p : Block) (ps : List Block) : bytesOf (p :: ps) = p.bytes ++ bytesOf ps := rfl

theorem bytesOf_append (ps qs : List Block) : bytesOf (ps ++ qs) = bytesOf ps ++ bytesOf qs :=
  List.flatMap_append

theorem bytesOf_singleton (p : Block) : bytesOf [p] = p.bytes := by
  simp [bytesOf]

section Places

variable {pre x : List UInt8} (post : List UInt8) {pos : Nat}

theorem mmLoadu_at (here : pos = pre.length) (length : x.length = 16) :
    mmLoadu (pre ++ (x ++ post)) pos = .ofBytes x := by
  have length : x.length = blockSize := length
  rw [mmLoadu, here, List.drop_left, List.take_left' length]

theorem memcpyTo_at (here : pos = pre.length) {bytes : List UInt8} (length : bytes.length = x.length) :
    memcpyTo (pre ++ (x ++ post)) pos bytes = pre ++ (bytes ++ post) := by
  rw [memcpyTo, here, List.take_left, length, ← List.append_assoc pre, ← List.length_append,
    List.drop_left, List.append_assoc]

theorem mmStoreu_at (here : pos = pre.length) (length : x.length = 16) (tmp : Block) :
    mmStoreu (pre ++ (x ++ post)) pos tmp = pre ++ (tmp.bytes ++ post) :=
  memcpyTo_at _ here (by rw [Block.length_bytes, length])

theorem mmLoadu_block (here : pos = pre.length) (p : Block) (ps : List Block) :
    mmLoadu (pre ++ (bytesOf (p :: ps) ++ post)) pos = p := by
  rw [bytesOf_cons, List.append_assoc, mmLoadu_at _ here p.length_bytes, p.ofBytes_bytes]

/-- Where the place after a block is. -/
theorem after_block (here : pos = pre.length) (p : Block) :
    pos + blockSize = (pre ++ p.bytes).length := by
  rw [List.length_append, Block.length_bytes, here, blockSize]

end Places

theorem wholeBlocks_eq (ps : List Block) (tail : List UInt8) (short : tail.length < 16) :
    AES256SUM128Crypt.wholeBlocks (bytesOf ps ++ tail) = ps := by
  have count : (bytesOf ps ++ tail).length / blockSize = ps.length := by
    rw [List.length_append, length_bytesOf, blockSize]
    omega
  apply List.ext_getElem
  · rw [AES256SUM128Crypt.wholeBlocks, List.length_map, List.length_range, count]
  · intro i inside inside'
    obtain ⟨front, back, split, length⟩ : ∃ front back, ps = front ++ ps[i] :: back ∧
        front.length = i :=
      ⟨ps.take i, ps.drop (i + 1), by simp, by rw [List.length_take]; omega⟩
    have bytes : bytesOf ps ++ tail = bytesOf front ++ (ps[i].bytes ++ (bytesOf back ++ tail)) := by
      conv_lhs => rw [split]
      rw [bytesOf_append, bytesOf_cons]
      simp
    simp only [AES256SUM128Crypt.wholeBlocks, List.getElem_map, List.getElem_range]
    rw [bytes, mmLoadu_at _ _ (Block.length_bytes _), Block.ofBytes_bytes]
    rw [length_bytesOf, length, blockSize, Nat.mul_comm]

/-- A message is its whole blocks and a tail. -/
theorem exists_blocks (msg : List UInt8) :
    ∃ ps tail, msg = bytesOf ps ++ tail ∧ tail.length < 16 := by
  induction len : msg.length using Nat.strongRecOn generalizing msg with
  | ind n ih =>
      by_cases short : msg.length < 16
      · exact ⟨[], msg, rfl, short⟩
      · have less : (msg.drop 16).length < n := by
          rw [List.length_drop]
          omega
        obtain ⟨ps, tail, rest, small⟩ := ih _ less (msg.drop 16) rfl
        have length : (msg.take 16).length = 16 := by
          rw [List.length_take]
          omega
        refine ⟨.ofBytes (msg.take 16) :: ps, tail, ?_, small⟩
        rw [bytesOf_cons, Block.bytes_ofBytes length, List.append_assoc, ← rest,
          List.take_append_drop]

namespace AES256SUM128Crypt

/-! ## The loops -/

theorem encryptLoop_eq (e : Block → Block) (ps : List Block) (pre post : List UInt8) {pos : Nat}
    (here : pos = pre.length) (f : Block) :
    encryptLoop e ps.length pos (pre ++ (bytesOf ps ++ post)) f =
      (pre ++ (bytesOf (chain e f ps).1 ++ post), (chain e f ps).2) := by
  induction ps generalizing pre pos f with
  | nil => rfl
  | cons p ps ih =>
      have sum : mmAddEpi64 f p = f + p := rfl
      have turn := ih _ (after_block here (e (f + p))) (f + p)
      rw [List.length_cons, encryptLoop, mmLoadu_block _ here, sum, bytesOf_cons, List.append_assoc,
        mmStoreu_at _ here p.length_bytes]
      rw [← List.append_assoc, turn, chain]
      simp [bytesOf_cons]

theorem decryptLoop_eq (d : Block → Block) (cs : List Block) (pre post : List UInt8) {pos : Nat}
    (here : pos = pre.length) (g : Block) :
    decryptLoop d cs.length pos (pre ++ (bytesOf cs ++ post)) g =
      (pre ++ (bytesOf (unchain d g cs).1 ++ post), (unchain d g cs).2) := by
  induction cs generalizing pre pos g with
  | nil => rfl
  | cons c cs ih =>
      have difference : mmSubEpi64 (d c) g = d c - g := rfl
      have turn := ih _ (after_block here (d c - g)) (d c - g)
      rw [List.length_cons, decryptLoop, mmLoadu_block _ here, difference, bytesOf_cons,
        List.append_assoc, mmStoreu_at _ here c.length_bytes]
      rw [← List.append_assoc, turn, unchain]
      simp [bytesOf_cons]

/-! ## What the two directions do -/

/-- The tail of a message, filled up with zeros. -/
def padded (tail : List UInt8) : Block := .ofBytes (tail ++ List.replicate (16 - tail.length) 0)

theorem length_take_bytes (c : Block) {t : Nat} (short : t < 16) : (c.bytes.take t).length = t := by
  rw [List.length_take, Block.length_bytes]
  omega

/-- The end of one block and the front of another make a block. -/
theorem length_stolen (c sum : Block) {t : Nat} (short : t < 16) :
    (c.bytes.drop t ++ sum.bytes.take t).length = 16 := by
  rw [List.length_append, length_take_bytes sum short, List.length_drop, Block.length_bytes]
  omega

/-- A block that was cut, in front of anything. -/
theorem bytes_cut (c : Block) (t : Nat) (rest : List UInt8) :
    c.bytes.take t ++ (c.bytes.drop t ++ rest) = c.bytes ++ rest := by
  rw [← List.append_assoc, List.take_append_drop]

theorem memcpyFrom_at {pre tail : List UInt8} {pos : Nat} (here : pos = pre.length) :
    memcpyFrom mmSetzero (pre ++ tail) pos tail.length = padded tail := by
  have zeros : mmSetzero.bytes = List.replicate 16 0 := rfl
  rw [memcpyFrom, here, List.drop_left, List.take_length, zeros, List.drop_replicate, padded]

/-- The sizes of a message of whole blocks and a tail. -/
theorem sizes (ps : List Block) (tail : List UInt8) (short : tail.length < 16) :
    (bytesOf ps ++ tail).length % blockSize = tail.length ∧
      (bytesOf ps ++ tail).length - tail.length = 16 * ps.length ∧
      16 * ps.length / blockSize = ps.length := by
  rw [List.length_append, length_bytesOf, blockSize]
  omega

/-- The sizes of whole blocks, the front of one more and the block that overlaps it. -/
theorem stolen_sizes (cs : List Block) (c x : Block) {t : Nat} (some : 0 < t) (short : t < 16) :
    (if (bytesOf cs ++ (c.bytes.take t ++ x.bytes)).length % blockSize ≠ 0
      then blockSize + (bytesOf cs ++ (c.bytes.take t ++ x.bytes)).length % blockSize
      else 0) = blockSize + t ∧
    (bytesOf cs ++ (c.bytes.take t ++ x.bytes)).length - (blockSize + t) = 16 * cs.length ∧
      16 * cs.length / blockSize = cs.length := by
  have length : (bytesOf cs ++ (c.bytes.take t ++ x.bytes)).length = 16 * cs.length + (t + 16) := by
    rw [List.length_append, length_bytesOf, List.length_append, length_take_bytes c short,
      Block.length_bytes]
  have rest : (bytesOf cs ++ (c.bytes.take t ++ x.bytes)).length % blockSize = t := by
    rw [length, blockSize]
    omega
  refine ⟨?_, ?_, ?_⟩
  · rw [rest, if_pos (by omega)]
  · rw [length, blockSize]
    omega
  · rw [blockSize]
    omega

theorem encrypt_whole (e : Block → Block) (f : Block) (ps : List Block) :
    encrypt e f (bytesOf ps) = (bytesOf (chain e f ps).1, (chain e f ps).2) := by
  have loop := encryptLoop_eq e ps [] [] rfl f
  obtain ⟨tail, size, count⟩ := sizes ps [] (by decide)
  simp only [List.append_nil, List.nil_append, List.length_nil, Nat.sub_zero] at loop tail size
  unfold encrypt
  rw [tail]
  simp only [Nat.sub_zero, ne_eq, not_true_eq_false, if_false]
  rw [size, count, loop]

theorem decrypt_whole (d : Block → Block) (g : Block) (cs : List Block) :
    decrypt d g (bytesOf cs) = (bytesOf (unchain d g cs).1, (unchain d g cs).2) := by
  have loop := decryptLoop_eq d cs [] [] rfl g
  obtain ⟨tail, size, count⟩ := sizes cs [] (by decide)
  simp only [List.append_nil, List.nil_append, List.length_nil, Nat.sub_zero] at loop tail size
  unfold decrypt
  rw [tail]
  simp only [Nat.sub_zero, ne_eq, not_true_eq_false, if_false]
  rw [size, count, loop]

/-- The tail of a block is stored behind blocks, and the sixteen bytes that end with it are
encrypted where they are. -/
theorem tail_stored (e : Block → Block) (cs : List Block) (c sum : Block) {tail : List UInt8}
    (short : tail.length < 16) {b2 : Nat} (front : b2 = (bytesOf (cs ++ [c])).length) :
    let buf := memcpyTo (bytesOf (cs ++ [c]) ++ tail) b2 (sum.bytes.take tail.length)
    mmStoreu buf (b2 + tail.length - blockSize) (e (mmLoadu buf (b2 + tail.length - blockSize))) =
      bytesOf cs ++ (c.bytes.take tail.length ++
        (e (.ofBytes (c.bytes.drop tail.length ++ sum.bytes.take tail.length))).bytes) := by
  intro buf
  have sumTail := length_take_bytes sum short
  have overlap := length_stolen c sum short
  have middle : b2 + tail.length - blockSize = (bytesOf cs ++ c.bytes.take tail.length).length := by
    rw [front, List.length_append, length_bytesOf, length_bytesOf, length_take_bytes c short,
      List.length_append, List.length_singleton, blockSize]
    omega
  -- the buffer after the tail of the sum is stored, cut where the overlapping block begins
  have regrouped : bytesOf (cs ++ [c]) ++ (sum.bytes.take tail.length ++ []) =
      (bytesOf cs ++ c.bytes.take tail.length) ++
        ((c.bytes.drop tail.length ++ sum.bytes.take tail.length) ++ []) := by
    simp only [bytesOf_append, bytesOf_singleton, List.append_nil, List.append_assoc, bytes_cut]
  have stored : memcpyTo (bytesOf (cs ++ [c]) ++ (tail ++ [])) b2 (sum.bytes.take tail.length) =
      bytesOf (cs ++ [c]) ++ (sum.bytes.take tail.length ++ []) := memcpyTo_at _ front sumTail
  rw [List.append_nil, regrouped] at stored
  show mmStoreu (memcpyTo _ _ _) _ (e (mmLoadu (memcpyTo _ _ _) _)) = _
  rw [stored, mmLoadu_at _ middle overlap, mmStoreu_at _ middle overlap]
  simp

/-- The last whole block and the tail behind it: the tail of the sum is encrypted together
with the end of the block. -/
theorem encrypt_tail (e : Block → Block) (f : Block) (ps : List Block) {cs : List Block} {c : Block}
    {tail : List UInt8} (some : 0 < tail.length) (short : tail.length < 16)
    (chained : (chain e f ps).1 = cs ++ [c]) :
    let sum := (chain e f ps).2 + padded tail
    encrypt e f (bytesOf ps ++ tail) =
      (bytesOf cs ++ (c.bytes.take tail.length ++
        (e (.ofBytes (c.bytes.drop tail.length ++ sum.bytes.take tail.length))).bytes), sum) := by
  intro sum
  have loop := encryptLoop_eq e ps [] tail rfl f
  obtain ⟨tailSize, size, count⟩ := sizes ps tail short
  have sumIs : mmAddEpi64 (chain e f ps).2 (padded tail) = sum := rfl
  have front : 16 * ps.length = (bytesOf (cs ++ [c])).length := by
    rw [← chained, length_bytesOf, length_chain]
  have stored := tail_stored e cs c sum short front
  simp only [List.nil_append, List.length_nil] at loop
  unfold encrypt
  dsimp only
  rw [tailSize, size, count, loop, chained, if_pos (by omega)]
  rw [memcpyFrom_at front, sumIs]
  exact congrArg (·, sum) stored

/-- The way back: the overlapping block is opened first, then the block it reaches into,
then the tail. -/
theorem decrypt_tail (d : Block → Block) (g : Block) (cs : List Block) {c x : Block}
    {tail : List UInt8} (some : 0 < tail.length) (short : tail.length < 16)
    (opened : (d x).bytes = c.bytes.drop tail.length ++ tail) :
    let restored := unchain d g (cs ++ [c])
    let last := padded tail - restored.2
    decrypt d g (bytesOf cs ++ (c.bytes.take tail.length ++ x.bytes)) =
      (bytesOf restored.1 ++ last.bytes.take tail.length, last) := by
  intro restored last
  let before := unchain d g cs
  have loop := decryptLoop_eq d cs [] (c.bytes.take tail.length ++ x.bytes) rfl g
  simp only [List.nil_append, List.length_nil] at loop
  have cut := length_take_bytes c short
  obtain ⟨tailSize, size, count⟩ := stolen_sizes cs c x some short
  have start : 16 * cs.length = (bytesOf before.1).length := by
    rw [length_bytesOf, length_unchain]
  have middle : 16 * cs.length + (blockSize + tail.length) - blockSize =
      (bytesOf before.1 ++ c.bytes.take tail.length).length := by
    rw [List.length_append, cut, ← start]
    omega
  -- the buffer after the overlapping block is opened
  have regrouped : (bytesOf before.1 ++ c.bytes.take tail.length) ++ ((d x).bytes ++ []) =
      bytesOf before.1 ++ (c.bytes ++ tail) := by
    rw [opened]
    simp only [List.append_nil, List.append_assoc, bytes_cut]
  have restoredIs : restored = (before.1 ++ [d c - before.2], d c - before.2) :=
    unchain_concat d g cs c
  have behind : 16 * cs.length + blockSize = (bytesOf restored.1).length := by
    rw [restoredIs, length_bytesOf, List.length_append, List.length_singleton, length_unchain,
      blockSize]
    omega
  have stored : bytesOf before.1 ++ ((d c - before.2).bytes ++ tail) =
      bytesOf restored.1 ++ (tail ++ []) := by
    rw [restoredIs, bytesOf_append, bytesOf_singleton]
    simp
  have difference : mmSubEpi64 (d c) before.2 = d c - before.2 := rfl
  have lastIs : mmSubEpi64 (padded tail) (d c - before.2) = last := by
    show padded tail - (d c - before.2) = padded tail - restored.2
    rw [restoredIs]
  have lastLength := length_take_bytes last short
  unfold decrypt
  dsimp only
  rw [tailSize, size, count, loop, if_pos (by rw [blockSize]; omega)]
  have opening := mmLoadu_at [] middle x.length_bytes
  have storing := mmStoreu_at [] middle x.length_bytes (d x)
  rw [regrouped] at storing
  simp only [List.append_nil, List.append_assoc] at opening storing
  rw [opening, x.ofBytes_bytes, storing, mmLoadu_at _ start c.length_bytes, c.ofBytes_bytes,
    difference, mmStoreu_at _ start c.length_bytes, stored, Nat.add_sub_cancel_left, List.append_nil,
    memcpyFrom_at behind, lastIs]
  have writing := memcpyTo_at [] behind lastLength
  simp only [List.append_nil] at writing
  rw [writing]

/-! ## The bytes under a tail -/

/-- Blocks agree in their first `t` bytes when their lanes do modulo the bytes they have
there. -/
theorem take_bytes_eq_iff (t : Nat) (x y : Block) :
    x.bytes.take t = y.bytes.take t ↔
      x.1.setWidth (8 * min t 8) = y.1.setWidth (8 * min t 8) ∧
        x.2.setWidth (8 * min (t - 8) 8) = y.2.setWidth (8 * min (t - 8) 8) := by
  have lane (b : Nat) (v w : BitVec 64) :
      leBytes (min b 8) v.toNat = leBytes (min b 8) w.toNat ↔
        v.setWidth (8 * min b 8) = w.setWidth (8 * min b 8) := by
    rw [leBytes_inj, ← BitVec.toNat_inj, BitVec.toNat_setWidth, BitVec.toNat_setWidth,
      Nat.pow_mul]
  have bytes (z : Block) : z.bytes.take t =
      leBytes (min t 8) z.1.toNat ++ leBytes (min (t - 8) 8) z.2.toNat := by
    show (leBytes 8 z.1.toNat ++ leBytes 8 z.2.toNat).take t = _
    rw [List.take_append, take_leBytes, length_leBytes, take_leBytes]
  rw [bytes, bytes, ← lane, ← lane]
  constructor
  · intro same
    exact List.append_inj same (by rw [length_leBytes, length_leBytes])
  · rintro ⟨low, high⟩
    rw [low, high]

/-- So they do when their difference is zero there. -/
theorem take_bytes_sub (t : Nat) (x y : Block) :
    x.bytes.take t = y.bytes.take t ↔ (x - y).bytes.take t = (0 : Block).bytes.take t := by
  have lane {w : Nat} (le : w ≤ 64) (v u : BitVec 64) :
      v.setWidth w = u.setWidth w ↔ (v - u).setWidth w = (0 : BitVec 64).setWidth w := by
    have sum : v.setWidth w = (v - u).setWidth w + u.setWidth w := by
      rw [← BitVec.setWidth_add _ _ le, sub_add_cancel]
    have none : (0 : BitVec 64).setWidth w = 0 := by simp
    rw [sum, add_eq_right, none]
  rw [take_bytes_eq_iff, take_bytes_eq_iff]
  exact and_congr (lane (by omega) x.1 y.1) (lane (by omega) x.2 y.2)

theorem take_zero_iff (t : Nat) (x : Block) :
    x.bytes.take t = (0 : Block).bytes.take t ↔ ∀ b ∈ x.bytes.take t, b = 0 := by
  have zeros : (0 : Block).bytes.take t = List.replicate (x.bytes.take t).length 0 := by
    have whole : (0 : Block).bytes = List.replicate 16 0 := rfl
    rw [List.length_take, x.length_bytes, whole, List.take_replicate]
  rw [zeros, List.eq_replicate_iff, and_iff_right rfl]

theorem take_padded {tail : List UInt8} (short : tail.length < 16) :
    (padded tail).bytes.take tail.length = tail := by
  rw [padded, Block.bytes_ofBytes (by rw [List.length_append, List.length_replicate]; omega),
    List.take_left]

/-- A tail comes back, and with it the sum, exactly if the feedback is zero under it and
what the sum was without it. -/
theorem tail_restored_iff {tail : List UInt8} (short : tail.length < 16) (f g : Block) :
    let sum := f + padded tail
    let last := padded (sum.bytes.take tail.length) - g
    last.bytes.take tail.length = tail ∧ last = sum ↔
      f + g = 0 ∧ ∀ b ∈ g.bytes.take tail.length, b = 0 := by
  intro sum last
  have fits := take_padded short
  have difference : sum - padded tail = f := add_sub_cancel_right _ _
  -- the tail of the sum is the tail itself when the feedback is zero there
  have covered : sum.bytes.take tail.length = tail ↔
      f.bytes.take tail.length = (0 : Block).bytes.take tail.length := by
    rw [← difference, ← take_bytes_sub, fits]
  have opposite (x y : Block) (zero : x + y = 0) :
      x.bytes.take tail.length = (0 : Block).bytes.take tail.length →
        y.bytes.take tail.length = (0 : Block).bytes.take tail.length := by
    intro under
    have negated : y = 0 - x := by
      rw [zero_sub]
      exact eq_neg_of_add_eq_zero_right zero
    rw [negated, ← take_bytes_sub, under]
  rw [← take_zero_iff]
  constructor
  · rintro ⟨back, same⟩
    have under : sum.bytes.take tail.length = tail := by rw [← same]; exact back
    have zero : f + g = 0 := by
      have lastIs : padded tail - g = f + padded tail := by
        show padded tail - g = sum
        rw [← same]
        show padded tail - g = padded (sum.bytes.take tail.length) - g
        rw [under]
      calc f + g = (f + padded tail) - (padded tail - g) := by abel
        _ = 0 := by rw [lastIs, sub_self]
    exact ⟨zero, opposite f g zero (covered.mp under)⟩
  · rintro ⟨zero, under⟩
    have back : sum.bytes.take tail.length = tail :=
      covered.mpr (opposite g f ((add_comm g f).trans zero) under)
    have same : last = sum := by
      show padded (sum.bytes.take tail.length) - g = f + padded tail
      rw [back, eq_neg_of_add_eq_zero_left zero]
      abel
    exact ⟨by rw [same, back], same⟩

/-! ## The round trip -/

theorem bytesOf_inj {xs ys : List Block} : bytesOf xs = bytesOf ys ↔ xs = ys := by
  refine ⟨fun same => ?_, fun same => by rw [same]⟩
  have first := wholeBlocks_eq xs [] (by decide)
  rw [same, wholeBlocks_eq ys [] (by decide)] at first
  exact first.symm

theorem roundTrips_iff (e : Block ≃ Block) (f : Block) (msg : List UInt8) :
    RoundTrips e f msg ↔
      decrypt e.symm f (encrypt e f msg).1 = (msg, (encrypt e f msg).2) := by
  unfold RoundTrips
  dsimp only
  constructor
  · rintro ⟨message, feedback, -⟩
    exact Prod.ext message feedback
  · intro same
    rw [same]
    exact ⟨rfl, rfl, rfl⟩

/-- Blocks come back with the sum exactly if all sums before a block are zero. -/
theorem whole_restored_iff (e : Block ≃ Block) (f : Block) (init : List Block) (p : Block) :
    RoundTrips e f (bytesOf (init ++ [p])) ↔
      ZeroBefore f (init ++ [p]) ∧ f + init.sum = 0 := by
  rw [roundTrips_iff, encrypt_whole]
  rw [decrypt_whole, Prod.mk.injEq, bytesOf_inj, unchain_chain_iff]
  apply and_congr_right
  intro zero
  have back := (unchain_chain_iff e f (init ++ [p])).mpr zero
  rw [unchain_last, back, chain_last, List.getLastD_concat, List.sum_append, List.sum_singleton,
    ← add_assoc]
  exact right_eq_add

/-- With a tail behind them: the last block stands in for the sum there. -/
theorem tail_round_trip_iff (e : Block ≃ Block) (f : Block) (init : List Block) (p : Block)
    {tail : List UInt8} (some : 0 < tail.length) (short : tail.length < 16) :
    RoundTrips e f (bytesOf (init ++ [p]) ++ tail) ↔
      ZeroBefore f (init ++ [p]) ∧ f + init.sum + (p + p) = 0 ∧
        ∀ b ∈ p.bytes.take tail.length, b = 0 := by
  obtain ⟨cs, c, chained⟩ : ∃ cs c, (chain e f (init ++ [p])).1 = cs ++ [c] := by
    rcases List.eq_nil_or_concat' (chain e f (init ++ [p])).1 with none | found
    · have length := congrArg List.length none
      rw [length_chain, List.length_append] at length
      cases length
    · exact found
  have encrypted := encrypt_tail e f (init ++ [p]) some short chained
  dsimp only at encrypted
  rw [chain_last, List.sum_append, List.sum_singleton, ← add_assoc] at encrypted
  have restored := tail_restored_iff short (f + init.sum + p) p
  dsimp only at restored
  rw [add_assoc (f + init.sum) p p] at restored
  generalize f + init.sum + p + padded tail = sum at encrypted restored
  have sumTail := length_take_bytes sum short
  have overlap := length_stolen c sum short
  have opened := Block.bytes_ofBytes overlap
  have decrypted := @decrypt_tail e.symm f cs c
    (e (.ofBytes (c.bytes.drop tail.length ++ sum.bytes.take tail.length)))
    (sum.bytes.take tail.length) (by omega) (by omega)
    (by rw [e.symm_apply_apply, opened, sumTail])
  dsimp only at decrypted
  rw [sumTail, ← chained] at decrypted
  have lengths : (bytesOf (unchain e.symm f (chain e f (init ++ [p])).1).1).length =
      (bytesOf (init ++ [p])).length := by
    rw [length_bytesOf, length_bytesOf, length_unchain, length_chain]
  rw [roundTrips_iff, encrypted]
  rw [decrypted, Prod.mk.injEq, ← restored]
  constructor
  · rintro ⟨message, feedback⟩
    obtain ⟨blocks, rest⟩ := List.append_inj message lengths
    have back := bytesOf_inj.mp blocks
    have last : (unchain e.symm f (chain e f (init ++ [p])).1).2 = p := by
      rw [unchain_last, back, List.getLastD_concat]
    rw [last] at rest feedback
    exact ⟨(unchain_chain_iff e f _).mp back, rest, feedback⟩
  · rintro ⟨zero, rest, feedback⟩
    have back := (unchain_chain_iff e f (init ++ [p])).mpr zero
    have last : (unchain e.symm f (chain e f (init ++ [p])).1).2 = p := by
      rw [unchain_last, back, List.getLastD_concat]
    rw [last, back, rest]
    exact ⟨rfl, feedback⟩

/-- **A message comes back exactly if the chaining does not show**: the decryptor's feedback,
the block it made last, is the encryptor's sum. -/
theorem crypt_round_trip_iff (e : Block ≃ Block) (feedback : Block) {msg : List UInt8}
    (long : 16 ≤ msg.length) :
    RoundTrips e feedback msg ↔
      Unchained feedback (wholeBlocks msg) (msg.length % blockSize) := by
  obtain ⟨ps, tail, rfl, short⟩ := exists_blocks msg
  have nonempty : ps ≠ [] := by
    rintro rfl
    simp [bytesOf] at long
    omega
  obtain ⟨init, p, rfl⟩ := (List.eq_nil_or_concat' ps).resolve_left nonempty
  rw [wholeBlocks_eq _ tail short, (sizes _ tail short).1, Unchained, List.dropLast_concat,
    List.getLastD_concat]
  rcases Nat.eq_zero_or_pos tail.length with none | some
  · rw [if_pos none, List.eq_nil_of_length_eq_zero none, List.append_nil]
    exact whole_restored_iff e feedback init p
  · rw [if_neg (Nat.pos_iff_ne_zero.mp some)]
    exact tail_round_trip_iff e feedback init p some short

/-- A zero block, then a block of ones, and nothing before. -/
theorem crypt_round_trip_zero :
    RoundTrips (Equiv.addRight (1, 2)) 0 (List.replicate 16 0 ++ List.replicate 16 1) := by
  refine (crypt_round_trip_iff (Equiv.addRight (1, 2)) 0 (by decide)).mpr ⟨?_, by decide⟩
  intro i inside
  have first : i = 0 := Nat.lt_one_iff.mp (Nat.lt_of_succ_lt_succ inside)
  rw [first]
  decide

/-- **Refuted**: of three blocks of ones the third does not come back. -/
theorem crypt_round_trip_refuted :
    ¬ ∀ (e : Block ≃ Block) (feedback : Block) (msg : List UInt8), 16 ≤ msg.length →
      RoundTrips e feedback msg := by
  intro always
  have third := (always (Equiv.refl Block) 0 (List.replicate 48 1) (by decide)).1
  revert third
  decide

end AES256SUM128Crypt

end UdpStuff.Crypto
