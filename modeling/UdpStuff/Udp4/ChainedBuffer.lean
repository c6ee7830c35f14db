/-
# Udp4.ChainedBuffer — a packet as a chain of byte blocks

`chained_buffer.h`: each link appends its own bytes to the vector and then hands
the vector to its parent.  A link is its bytes and the rest of the chain; what a
chain inserts is its blocks in order (`vectorInsert_eq`).
-/
import Mathlib.Data.BitVec

namespace UdpStuff.Udp4

set_option autoImplicit false

/-- The links of `chained_buffer.h`, each with the bytes it contributes. -/
inductive ChainedBuffer where
  | structBuffer (structBytes : List UInt8) (parent : ChainedBuffer)
  | structInitBuffer (structBytes : List UInt8)
  | vectorChainedBuffer (vv : List UInt8) (parent : ChainedBuffer)
  | arrayChainedBuffer (buf : List UInt8) (parent : ChainedBuffer)
  | arrayInitBuffer (buf : List UInt8)

namespace ChainedBuffer

def vectorInsert : ChainedBuffer → List UInt8 → List UInt8
  | .structBuffer structBytes parent, v => vectorInsert parent (v ++ structBytes)
  | .structInitBuffer structBytes, v => v ++ structBytes
  | .vectorChainedBuffer vv parent, v => vectorInsert parent (v ++ vv)
  | .arrayChainedBuffer buf parent, v => vectorInsert parent (v ++ buf)
  | .arrayInitBuffer buf, v => v ++ buf

/-- The packet a chain stands for. -/
def bytes (b : ChainedBuffer) : List UInt8 := b.vectorInsert []

theorem vectorInsert_eq (b : ChainedBuffer) (v : List UInt8) : b.vectorInsert v = v ++ b.bytes := by
  unfold bytes
  induction b generalizing v with
  | structBuffer structBytes parent ih =>
      rw [vectorInsert, vectorInsert, ih (v ++ structBytes), ih ([] ++ structBytes)]
      simp
  | structInitBuffer structBytes => simp [vectorInsert]
  | vectorChainedBuffer vv parent ih =>
      rw [vectorInsert, vectorInsert, ih (v ++ vv), ih ([] ++ vv)]
      simp
  | arrayChainedBuffer buf parent ih =>
      rw [vectorInsert, vectorInsert, ih (v ++ buf), ih ([] ++ buf)]
      simp
  | arrayInitBuffer buf => simp [vectorInsert]

end ChainedBuffer

end UdpStuff.Udp4
