/-
# Conn.Handler — dispatch to the globally registered handlers

`global_handle_data` of `handler.cc` looks the message type up, refuses data above
the handler's maximum, and calls it.  A call is recorded with everything the
handler is given and the type it was found under.
-/
import UdpStuff.Crypto.Ssl

namespace UdpStuff.Conn

set_option autoImplicit false

open UdpStuff.Crypto

/-- `PeerId512_t`: the 64 bytes of a SHA-512. -/
abbrev PeerId512 := BitVec 512

/-- `GlobalChannelHandler`; function and argument are the pointers registered. -/
structure GlobalChannelHandler where
  maxDataSize : UInt32
  onData : Nat
  arg : Nat
deriving DecidableEq

/-- One call of a handler's `on_data`. -/
structure HandlerCall where
  type : UInt32
  onData : Nat
  arg : Nat
  srcId : PeerId512
  data : List UInt8
  size : UInt32
deriving DecidableEq

/-- `global_channel_handlers` -/
abbrev GlobalChannelHandlers := UInt32 → Option GlobalChannelHandler

/-- `global_handle_data`: no call where it returns `false`. -/
def globalHandleData (handlers : GlobalChannelHandlers) (srcId : PeerId512) (type : UInt32)
    (data : List UInt8) (size : UInt32) : Except Failure (Option HandlerCall) :=
  match handlers type with
  | none => .ok none
  | some handler =>
    if size > handler.maxDataSize then
      .error (.protocolError
        ("Data size " ++ toString size ++ " exceeds maximum " ++ toString handler.maxDataSize))
    else .ok (some ⟨type, handler.onData, handler.arg, srcId, data, size⟩)

theorem globalHandleData_accepted {handlers : GlobalChannelHandlers} {type : UInt32}
    {handler : GlobalChannelHandler} {size : UInt32} (registered : handlers type = some handler)
    (fits : size ≤ handler.maxDataSize) (srcId : PeerId512) (data : List UInt8) :
    globalHandleData handlers srcId type data size =
      .ok (some ⟨type, handler.onData, handler.arg, srcId, data, size⟩) := by
  rw [globalHandleData, registered]
  exact if_neg (UInt32.not_lt.mpr fits)

end UdpStuff.Conn
