/-
# Crypto.Streaming — a message in pieces

What a call leaves in `feedback` is all that the next one needs: the sum of the blocks so
far when encrypting, the block made last when decrypting.  `streaming`: pieces of whole
blocks, each in place or from one buffer to another, come to what one call comes to.
-/
import UdpStuff.Crypto.Calls

namespace UdpStuff.Crypto

open Theory

set_option autoImplicit false

namespace Buffers

/-- One call after the other, each with the feedback of the one before: the bytes that come
out, and the feedback in the end. -/
def encryptPieces (e : Block → Block) : Block → List Buffers → List UInt8 × Block
  | f, [] => ([], f)
  | f, bufs :: rest =>
    let first := encrypt e bufs f
    let later := encryptPieces e first.2 rest
    (first.1.output ++ later.1, later.2)

def decryptPieces (d : Block → Block) : Block → List Buffers → List UInt8 × Block
  | g, [] => ([], g)
  | g, bufs :: rest =>
    let first := decrypt d bufs g
    let later := decryptPieces d first.2 rest
    (first.1.output ++ later.1, later.2)

/-- Both buffers hold whole blocks. -/
structure Whole (bufs : Buffers) : Prop where
  fits : bufs.Fits
  blocks : bufs.size % blockSize = 0

@[simp] theorem output_setOutput (bufs : Buffers) (buf : List UInt8) :
    (bufs.setOutput buf).output = buf := by
  cases bufs <;> rfl

theorem Whole.exists_blocks {bufs : Buffers} (whole : bufs.Whole) :
    ∃ ps, bufs.input = bytesOf ps := by
  obtain ⟨ps, tail, split, short⟩ := Crypto.exists_blocks bufs.input
  have sizes := (AES256SUM128Crypt.sizes ps tail short).1
  have none : tail.length = 0 := by
    have blocks : bufs.input.length % blockSize = 0 := whole.blocks
    rwa [split, sizes] at blocks
  rw [List.eq_nil_of_length_eq_zero none, List.append_nil] at split
  exact ⟨ps, split⟩

/-- What a call on whole blocks makes of them. -/
theorem Whole.encrypt_output {bufs : Buffers} (whole : bufs.Whole) (e : Block → Block) (f : Block)
    {ps : List Block} (blocks : bufs.input = bytesOf ps) :
    ((encrypt e bufs f).1.output, (encrypt e bufs f).2) =
      (bytesOf (chain e f ps).1, (chain e f ps).2) := by
  rw [encrypt_blocks e whole.fits f blocks, output_setOutput]

theorem Whole.decrypt_output {bufs : Buffers} (whole : bufs.Whole) (d : Block → Block) (g : Block)
    {cs : List Block} (blocks : bufs.input = bytesOf cs) :
    ((decrypt d bufs g).1.output, (decrypt d bufs g).2) =
      (bytesOf (unchain d g cs).1, (unchain d g cs).2) := by
  rw [decrypt_blocks d whole.fits g blocks, output_setOutput]

/-- The pieces hold the blocks of the message, one piece after the other. -/
theorem encryptPieces_eq (e : Block → Block) (f : Block) {pieces : List Buffers}
    (cut : ∀ bufs ∈ pieces, bufs.Whole) :
    ∃ ps, (pieces.map input).flatten = bytesOf ps ∧
      encryptPieces e f pieces = (bytesOf (chain e f ps).1, (chain e f ps).2) := by
  induction pieces generalizing f with
  | nil => exact ⟨[], rfl, rfl⟩
  | cons bufs rest ih =>
      have whole := cut bufs List.mem_cons_self
      obtain ⟨ps, blocks⟩ := whole.exists_blocks
      obtain ⟨first, feedback⟩ := Prod.mk.inj (whole.encrypt_output e f blocks)
      obtain ⟨qs, later, pieces⟩ := ih (chain e f ps).2
        fun other member => cut other (List.mem_cons_of_mem _ member)
      refine ⟨ps ++ qs, ?_, ?_⟩
      · rw [List.map_cons, List.flatten_cons, blocks, later, bytesOf_append]
      · rw [encryptPieces]
        rw [feedback, pieces, first, chain_append, bytesOf_append]

theorem decryptPieces_eq (d : Block → Block) (g : Block) {pieces : List Buffers}
    (cut : ∀ bufs ∈ pieces, bufs.Whole) :
    ∃ cs, (pieces.map input).flatten = bytesOf cs ∧
      decryptPieces d g pieces = (bytesOf (unchain d g cs).1, (unchain d g cs).2) := by
  induction pieces generalizing g with
  | nil => exact ⟨[], rfl, rfl⟩
  | cons bufs rest ih =>
      have whole := cut bufs List.mem_cons_self
      obtain ⟨cs, blocks⟩ := whole.exists_blocks
      obtain ⟨first, feedback⟩ := Prod.mk.inj (whole.decrypt_output d g blocks)
      obtain ⟨cs', later, pieces⟩ := ih (unchain d g cs).2
        fun other member => cut other (List.mem_cons_of_mem _ member)
      refine ⟨cs ++ cs', ?_, ?_⟩
      · rw [List.map_cons, List.flatten_cons, blocks, later, bytesOf_append]
      · rw [decryptPieces]
        rw [feedback, pieces, first, unchain_append, bytesOf_append]

/-- **A message may be cut anywhere between blocks**, encrypting and decrypting. -/
theorem streaming (e : Block ≃ Block) (feedback : Block) {pieces : List Buffers}
    (cut : ∀ bufs ∈ pieces, bufs.Whole) {message : Buffers} (fits : message.Fits)
    (together : message.input = (pieces.map input).flatten) :
    encryptPieces e feedback pieces =
        ((encrypt e message feedback).1.output, (encrypt e message feedback).2) ∧
      decryptPieces e.symm feedback pieces =
        ((decrypt e.symm message feedback).1.output, (decrypt e.symm message feedback).2) := by
  constructor
  · obtain ⟨ps, blocks, sent⟩ := encryptPieces_eq e feedback cut
    rw [sent, encrypt_blocks e fits feedback (together.trans blocks), output_setOutput]
  · obtain ⟨cs, blocks, received⟩ := decryptPieces_eq e.symm feedback cut
    rw [received, decrypt_blocks e.symm fits feedback (together.trans blocks), output_setOutput]

/-- Three blocks: one in place, and two from one buffer to another. -/
theorem streaming_three :
    let pieces : List Buffers :=
      [.inPlace (List.replicate 16 1), .apart (List.replicate 32 2) (List.replicate 32 0)]
    let message : Buffers := .inPlace (List.replicate 16 1 ++ List.replicate 32 2)
    encryptPieces (Equiv.addRight (1, 2)) (5, 6) pieces =
        ((encrypt (Equiv.addRight (1, 2)) message (5, 6)).1.output,
          (encrypt (Equiv.addRight (1, 2)) message (5, 6)).2) ∧
      decryptPieces (Equiv.addRight (1, 2)).symm (5, 6) pieces =
        ((decrypt (Equiv.addRight (1, 2)).symm message (5, 6)).1.output,
          (decrypt (Equiv.addRight (1, 2)).symm message (5, 6)).2) := by
  intro pieces message
  apply streaming
  · intro bufs member
    rcases List.mem_cons.mp member with rfl | member
    · exact ⟨by decide, by decide⟩
    · obtain rfl := List.mem_singleton.mp member
      exact ⟨by decide, by decide⟩
  · decide
  · decide

end Buffers

end UdpStuff.Crypto
