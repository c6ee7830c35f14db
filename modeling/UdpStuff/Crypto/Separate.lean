/-
# Crypto.Separate — encrypting from one buffer to another

Whole blocks go from `in` to `out`.  The tail does not: the last block and the bytes of the
tail are added, encrypted and stored in `in`, and the tail of `out` is never written.

`separate_iff`: a call with two buffers leaves `in` alone and gives what the call in place
gives exactly for the sizes of whole blocks.  For one message it may do so by chance, when
the bytes that are stored in the wrong buffer are there already and those that are missing
in the other are so too (`TailThere`).
-/
import UdpStuff.Crypto.Streaming

namespace UdpStuff.Crypto

open Theory

set_option autoImplicit false

namespace AES256SUM128Crypt

/-- `in` stays as it is, and all of `out` is what the call in place makes. -/
def SeparateRight (e : Block → Block) (feedback : Block) (inBuf outBuf : List UInt8) : Prop :=
  (Buffers.encrypt e (.apart inBuf outBuf) feedback).1 =
    .apart inBuf (encrypt e feedback inBuf).1

/-- The sixteen bytes at the end of `in` are what they are overwritten with, and those at the
end of `out` what should be written there. -/
def TailThere (e : Block → Block) (feedback : Block) (inBuf outBuf : List UInt8) : Prop :=
  let t := inBuf.length % blockSize
  let ps := wholeBlocks inBuf
  let tail := inBuf.drop (inBuf.length - t)
  let outTail := outBuf.drop (outBuf.length - t)
  let p := ps.getLastD 0
  let c := e (feedback + ps.sum)
  let sum := feedback + ps.sum + padded tail
  (e (.ofBytes (p.bytes.drop t ++ sum.bytes.take t))).bytes = p.bytes.drop t ++ tail ∧
    (e (.ofBytes (c.bytes.drop t ++ sum.bytes.take t))).bytes = c.bytes.drop t ++ outTail

theorem separate_whole (e : Block → Block) (f : Block) {ps : List Block} {outBuf : List UInt8}
    (fits : outBuf.length = (bytesOf ps).length) : SeparateRight e f (bytesOf ps) outBuf := by
  have fits : (Buffers.apart (bytesOf ps) outBuf).Fits := fits
  have called := Buffers.encrypt_blocks e fits f rfl
  rw [SeparateRight, called, encrypt_whole]
  rfl

/-- What a call with two buffers makes of a tail: the blocks before it are in `out`, and the
end of the last block with the tail is encrypted in `in`. -/
theorem encrypt_apart_tail (e : Block → Block) (f : Block) (init : List Block) (p : Block)
    {tail old : List UInt8} (outTail : List UInt8) (some : 0 < tail.length)
    (short : tail.length < 16) (length : old.length = 16 * (init ++ [p]).length) :
    let sum := f + (init ++ [p]).sum + padded tail
    (Buffers.encrypt e (.apart (bytesOf (init ++ [p]) ++ tail) (old ++ outTail)) f).1 =
      .apart (bytesOf init ++ (p.bytes.take tail.length ++
          (e (.ofBytes (p.bytes.drop tail.length ++ sum.bytes.take tail.length))).bytes))
        (bytesOf (chain e f (init ++ [p])).1 ++ outTail) := by
  intro sum
  have loop := Buffers.encryptLoop_apart e (init ++ [p]) [] tail [] old outTail rfl rfl length f
  obtain ⟨tailSize, size, count⟩ := sizes (init ++ [p]) tail short
  simp only [List.nil_append, List.length_nil] at loop
  have sizeIs : (Buffers.apart (bytesOf (init ++ [p]) ++ tail) (old ++ outTail)).size =
    (bytesOf (init ++ [p]) ++ tail).length := rfl
  have front : 16 * (init ++ [p]).length = (bytesOf (init ++ [p])).length :=
    (length_bytesOf _).symm
  have sumIs : mmAddEpi64 (chain e f (init ++ [p])).2 (padded tail) = sum := by
    rw [chain_last]
    rfl
  have stored := tail_stored e init p sum short front
  unfold Buffers.encrypt
  dsimp only
  rw [sizeIs, tailSize, size, count, loop, if_pos (by omega)]
  simp only [Buffers.encryptTail, Buffers.input, Buffers.setInput]
  rw [memcpyFrom_at front, sumIs]
  exact congrArg (Buffers.apart · _) stored

theorem separate_tail_iff (e : Block → Block) (f : Block) (init : List Block) (p : Block)
    {tail old : List UInt8} (outTail : List UInt8) (some : 0 < tail.length) (short : tail.length < 16)
    (length : old.length = 16 * (init ++ [p]).length) :
    let c := e (f + (init ++ [p]).sum)
    let sum := f + (init ++ [p]).sum + padded tail
    SeparateRight e f (bytesOf (init ++ [p]) ++ tail) (old ++ outTail) ↔
      (e (.ofBytes (p.bytes.drop tail.length ++ sum.bytes.take tail.length))).bytes =
          p.bytes.drop tail.length ++ tail ∧
        (e (.ofBytes (c.bytes.drop tail.length ++ sum.bytes.take tail.length))).bytes =
          c.bytes.drop tail.length ++ outTail := by
  intro c sum
  have apart := encrypt_apart_tail e f init p outTail some short length
  have inPlace := encrypt_tail e f (init ++ [p]) some short (chain_concat e f init p)
  dsimp only at apart inPlace
  rw [chain_last] at inPlace
  -- both sides, cut in the middle of their last block
  have before : bytesOf (init ++ [p]) ++ tail =
      bytesOf init ++ (p.bytes.take tail.length ++ (p.bytes.drop tail.length ++ tail)) := by
    rw [bytes_cut, bytesOf_append, bytesOf_singleton, List.append_assoc]
  have after : bytesOf ((chain e f init).1 ++ [c]) ++ outTail =
      bytesOf (chain e f init).1 ++
        (c.bytes.take tail.length ++ (c.bytes.drop tail.length ++ outTail)) := by
    rw [bytes_cut, bytesOf_append, bytesOf_singleton, List.append_assoc]
  rw [SeparateRight, apart, inPlace, chain_concat, after, before, Buffers.apart.injEq,
    List.append_cancel_left_eq, List.append_cancel_left_eq, List.append_cancel_left_eq,
    List.append_cancel_left_eq]
  exact and_congr_right fun _ => eq_comm

/-- For one message. -/
theorem separateRight_iff (e : Block → Block) (f : Block) {inBuf outBuf : List UInt8}
    (long : 16 ≤ inBuf.length) (fits : outBuf.length = inBuf.length) :
    SeparateRight e f inBuf outBuf ↔
      inBuf.length % blockSize = 0 ∨ TailThere e f inBuf outBuf := by
  obtain ⟨ps, tail, rfl, short⟩ := exists_blocks inBuf
  have tailSize := (sizes ps tail short).1
  have total : (bytesOf ps ++ tail).length = 16 * ps.length + tail.length := by
    rw [List.length_append, length_bytesOf]
  rcases Nat.eq_zero_or_pos tail.length with none | some
  · obtain rfl := List.eq_nil_of_length_eq_zero none
    rw [List.append_nil] at fits tailSize ⊢
    exact iff_of_true (separate_whole e f fits) (.inl tailSize)
  · have nonempty : ps ≠ [] := by
      rintro rfl
      rw [total] at long
      simp at long
      omega
    obtain ⟨init, p, rfl⟩ := (List.eq_nil_or_concat' ps).resolve_left nonempty
    obtain ⟨old, outTail, rfl, oldLength⟩ : ∃ old outTail, outBuf = old ++ outTail ∧
        old.length = 16 * (init ++ [p]).length := by
      refine ⟨outBuf.take (16 * (init ++ [p]).length), _, (List.take_append_drop _ _).symm, ?_⟩
      rw [List.length_take]
      omega
    have rest : outTail.length = tail.length := by
      rw [total, List.length_append] at fits
      omega
    have inTail : (bytesOf (init ++ [p]) ++ tail).length - tail.length =
        (bytesOf (init ++ [p])).length := by
      rw [List.length_append]
      omega
    have outFront : (old ++ outTail).length - tail.length = old.length := by
      rw [List.length_append]
      omega
    have cut := separate_tail_iff e f init p outTail some short oldLength
    unfold TailThere
    dsimp only at cut ⊢
    rw [tailSize, wholeBlocks_eq _ _ short, List.getLastD_concat, inTail, outFront, List.drop_left,
      List.drop_left, cut]
    exact (or_iff_right (Nat.ne_of_gt some)).symm

theorem zero_bytes : (0 : Block).bytes = List.replicate 16 0 := rfl

theorem bytesOf_zeros (k : Nat) :
    bytesOf (List.replicate k 0) = List.replicate (16 * k) 0 := by
  induction k with
  | zero => rfl
  | succ k ih =>
      rw [List.replicate_succ, bytesOf_cons, ih, zero_bytes, List.replicate_append_replicate]
      congr 1
      omega

/-- Zeros that are not encrypted at all, over ones: the tail of `out` is still ones. -/
theorem not_separate_zeros {n : Nat} (long : 16 ≤ n) (tail : n % blockSize ≠ 0) :
    ¬ SeparateRight id 0 (List.replicate n 0) (List.replicate n 1) := by
  obtain ⟨k, t, size, some, short⟩ : ∃ k t, n = 16 * (k + 1) + t ∧ 0 < t ∧ t < 16 := by
    rw [blockSize] at tail
    exact ⟨n / 16 - 1, n % 16, by omega, by omega, by omega⟩
  have zeros : (List.replicate k (0 : Block) ++ [0]) = List.replicate (k + 1) 0 :=
    List.replicate_succ'.symm
  have input : List.replicate n (0 : UInt8) =
      bytesOf (List.replicate k 0 ++ [0]) ++ List.replicate t 0 := by
    rw [zeros, bytesOf_zeros, List.replicate_append_replicate, size]
  have output : List.replicate n (1 : UInt8) =
      List.replicate (16 * (k + 1)) 1 ++ List.replicate t 1 := by
    rw [List.replicate_append_replicate, size]
  have nothing : (0 : Block) + (List.replicate k (0 : Block) ++ [0]).sum = 0 := by
    rw [zeros]
    simp
  have padding : padded (List.replicate t 0) = 0 := by
    have filled : List.replicate t (0 : UInt8) ++ List.replicate (16 - t) 0 =
        List.replicate 16 0 := by
      rw [List.replicate_append_replicate]
      congr 1
      omega
    rw [padded, List.length_replicate, filled]
    rfl
  have cut := @separate_tail_iff id 0 (List.replicate k 0) 0 (List.replicate t 0)
    (List.replicate (16 * (k + 1)) 1) (List.replicate t 1) (by simpa using some)
    (by simpa using short) (by simp)
  dsimp only at cut
  rw [nothing, padding, add_zero] at cut
  rw [input, output, cut]
  rintro ⟨-, out⟩
  -- a one on the right, and nothing but zeros on the left
  have one : (1 : UInt8) ∈ (id (0 : Block)).bytes.drop (List.replicate t (0 : UInt8)).length ++
      List.replicate t 1 :=
    List.mem_append_right _ (List.mem_replicate.mpr ⟨Nat.ne_of_gt some, rfl⟩)
  rw [← out] at one
  have zero : ∀ b ∈ (0 : Block).bytes, b = 0 := by
    rw [zero_bytes]
    exact fun b inside => List.eq_of_mem_replicate inside
  have length : ((0 : Block).bytes.drop (List.replicate t (0 : UInt8)).length ++
      (0 : Block).bytes.take (List.replicate t (0 : UInt8)).length).length = 16 :=
    length_stolen 0 0 (by simpa using short)
  simp only [id] at one
  rw [Block.bytes_ofBytes length] at one
  rcases List.mem_append.mp one with dropped | taken
  · exact absurd (zero 1 (List.mem_of_mem_drop dropped)) (by decide)
  · exact absurd (zero 1 (List.mem_of_mem_take taken)) (by decide)

/-- **Two buffers give what one gives exactly if there is no tail**: for one message but for
what is there by chance, and for all messages of a size without exception. -/
theorem separate_iff (e : Block ≃ Block) (feedback : Block) {inBuf outBuf : List UInt8}
    (long : 16 ≤ inBuf.length) (fits : outBuf.length = inBuf.length) :
    (SeparateRight e feedback inBuf outBuf ↔
      inBuf.length % blockSize = 0 ∨ TailThere e feedback inBuf outBuf) ∧
    ((∀ (e' : Block ≃ Block) (feedback' : Block) (inBuf' outBuf' : List UInt8),
      inBuf'.length = inBuf.length → outBuf'.length = inBuf.length →
        SeparateRight e' feedback' inBuf' outBuf') ↔ inBuf.length % blockSize = 0) := by
  refine ⟨separateRight_iff e feedback long fits, ?_, ?_⟩
  · intro always
    by_contra tail
    exact not_separate_zeros long tail
      (always (Equiv.refl Block) 0 _ _ List.length_replicate List.length_replicate)
  · intro whole e' feedback' inBuf' outBuf' length length'
    apply (separateRight_iff e' feedback' (by omega) (length'.trans length.symm)).mpr
    exact .inl (by rw [length, whole])

/-- Two blocks from one buffer to another. -/
theorem separate_two : SeparateRight (Equiv.addRight (1, 2)) 0 (List.replicate 32 7)
    (List.replicate 32 0) :=
  (separate_iff _ _ (by decide) (by decide)).1.mpr (.inl (by decide))

/-- **Refuted**: seventeen zeros over ones. -/
theorem separate_refuted :
    ¬ ∀ (e : Block ≃ Block) (feedback : Block) (inBuf outBuf : List UInt8), 16 ≤ inBuf.length →
      outBuf.length = inBuf.length → SeparateRight e feedback inBuf outBuf := by
  intro always
  exact not_separate_zeros (n := 17) (by decide) (by decide)
    (always (Equiv.refl Block) 0 _ _ (by decide) (by decide))

end AES256SUM128Crypt

end UdpStuff.Crypto
