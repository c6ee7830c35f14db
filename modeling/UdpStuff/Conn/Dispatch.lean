/-
# Conn.Dispatch — which handler a received message is given to

A connection has handlers of its own for the channels open on it, and
`PeerConnection::handle_data` looks a message up among them.  `peer_handle_thread` does
not call it: it asks `global_handle_data` alone.

* `dispatched_iff`: a turn of the thread dispatches its message if and only if no channel
  is open for its type, or neither the channel's handler nor a global one takes it;
* `dispatched_channels_first`: a turn that asks the connection first always does;
* `peerHandleThread_dispatches`: over a whole run of messages that meet the condition,
  the calls made are those of the messages received, one each and in order.
-/
import UdpStuff.Conn.Peers
import UdpStuff.Conn.ChannelHandler

namespace UdpStuff.Conn

set_option autoImplicit false

open UdpStuff.Theory UdpStuff.Crypto

/-- `PeerConnection`, with what its thread runs with. -/
structure PeerConnection extends Receiver where
  openChannelHandlers : UInt32 → Option PeerChannelHandler

/-- One call of a channel handler's `on_data`, and the type it was found under. -/
structure ChannelCall where
  type : UInt32
  onData : Nat
  arg : Nat
  data : List UInt8
  size : UInt32
deriving DecidableEq

/-- `PeerConnection::handle_data`: no call where it returns `false`. -/
def PeerConnection.handleData (con : PeerConnection) (type : UInt32) (data : List UInt8)
    (size : UInt32) : Except Failure (Option ChannelCall) :=
  match con.openChannelHandlers type with
  | none => .ok none
  | some handler =>
    if size > handler.maxDataSize then
      .error (.protocolError
        ("Data size " ++ toString size ++ " exceeds maximum " ++ toString handler.maxDataSize))
    else .ok (some ⟨type, handler.onData, handler.arg, data, size⟩)

/-- A call of either kind of handler. -/
inductive Delivery where
  | global (call : HandlerCall)
  | channel (call : ChannelCall)
deriving DecidableEq

/-! ## What is to be called -/

/-- The call a message is for: of the channel open for its type, or else of the global
handler of its type, where that takes its size. -/
def PeerConnection.addressee (con : PeerConnection) (header : MessageHeader)
    (data : List UInt8) : Option Delivery :=
  match con.openChannelHandlers header.type with
  | some handler =>
    if header.size ≤ handler.maxDataSize then
      some (.channel ⟨header.type, handler.onData, handler.arg, data, header.size⟩)
    else none
  | none =>
    match con.handlers header.type with
    | some handler =>
      if header.size ≤ handler.maxDataSize then
        some (.global
          ⟨header.type, handler.onData, handler.arg, con.peerId, data, header.size⟩)
      else none
    | none => none

/-- How a turn deals with a message: the calls it makes, or what it throws instead. -/
def Dispatches (calls : List Delivery) (thrown : Option Failure) (expected : Option Delivery) :
    Prop :=
  match expected with
  | some call => calls = [call] ∧ thrown = none
  | none => calls = [] ∧ ∃ descr, thrown = some (.protocolError descr)

def Turn.calls : Turn → List Delivery
  | .handled call _ => [.global call]
  | .waiting _ _ => []
  | .raised _ => []

def Turn.thrown : Turn → Option Failure
  | .handled _ _ => none
  | .waiting _ _ => none
  | .raised e => some e

/-- A block of `size` bytes as `malloc` gave it. -/
def blockData (size : UInt32) (block : Nat → UInt8) : List UInt8 :=
  (List.range size.toNat).map block

/-- No global handler takes the message. -/
def PeerConnection.Unhandled (con : PeerConnection) (header : MessageHeader) : Prop :=
  ∀ handler, con.handlers header.type = some handler → handler.maxDataSize < header.size

/-- The open channels play no part: none is open for the type, or nobody takes the message. -/
def PeerConnection.Overlookable (con : PeerConnection) (header : MessageHeader) : Prop :=
  ∀ handler, con.openChannelHandlers header.type = some handler →
    handler.maxDataSize < header.size ∧ con.Unhandled header

section Received

variable {con : PeerConnection} {i : Nat} {ssl rest : ReadEnd} {buf : List UInt8}
  {block : Nat → UInt8}

/-- The turn of a received message is `global_handle_data`. -/
theorem peerHandleTurn_received (read : sslReadAllData 8 ssl = .returned buf rest)
    (allocated : con.malloc i (MessageHeader.ofBytes buf).size = some block) :
    peerHandleTurn con.toReceiver i ssl =
      match globalHandleData con.handlers con.peerId (MessageHeader.ofBytes buf).type
          (blockData (MessageHeader.ofBytes buf).size block) (MessageHeader.ofBytes buf).size with
      | .error e => .raised e
      | .ok none => .raised (.protocolError "No handler for data")
      | .ok (some call) => .handled call rest := by
  rw [peerHandleTurn, read]
  dsimp only
  rw [allocated]
  rfl

/-- Where nothing is allocated there is no message yet, and no call. -/
theorem peerHandleTurn_unallocated (read : sslReadAllData 8 ssl = .returned buf rest)
    (refused : con.malloc i (MessageHeader.ofBytes buf).size = none) :
    peerHandleTurn con.toReceiver i ssl =
      .raised (.runtimeError "Failed to allocate memory for data") := by
  rw [peerHandleTurn, read]
  dsimp only
  rw [refused]

/-- The global handler that takes a message is called once. -/
theorem peerHandleTurn_taken (read : sslReadAllData 8 ssl = .returned buf rest)
    (allocated : con.malloc i (MessageHeader.ofBytes buf).size = some block)
    {handler : GlobalChannelHandler}
    (registered : con.handlers (MessageHeader.ofBytes buf).type = some handler)
    (fits : (MessageHeader.ofBytes buf).size ≤ handler.maxDataSize) :
    peerHandleTurn con.toReceiver i ssl =
      .handled ⟨(MessageHeader.ofBytes buf).type, handler.onData, handler.arg, con.peerId,
        blockData (MessageHeader.ofBytes buf).size block, (MessageHeader.ofBytes buf).size⟩
        rest := by
  rw [peerHandleTurn_received read allocated, globalHandleData_accepted registered fits]

/-- A message that no global handler takes is refused. -/
theorem peerHandleTurn_unhandled (read : sslReadAllData 8 ssl = .returned buf rest)
    (allocated : con.malloc i (MessageHeader.ofBytes buf).size = some block)
    (unhandled : con.Unhandled (MessageHeader.ofBytes buf)) :
    ∃ descr, peerHandleTurn con.toReceiver i ssl = .raised (.protocolError descr) := by
  rw [peerHandleTurn_received read allocated, globalHandleData]
  cases registered : con.handlers (MessageHeader.ofBytes buf).type with
  | none => exact ⟨_, rfl⟩
  | some handler =>
      dsimp only
      rw [if_pos (unhandled handler registered)]
      exact ⟨_, rfl⟩

theorem unhandled_or_taken (con : PeerConnection) (header : MessageHeader) :
    con.Unhandled header ∨
      ∃ handler, con.handlers header.type = some handler ∧ header.size ≤ handler.maxDataSize := by
  by_cases taken : ∃ handler, con.handlers header.type = some handler ∧
      header.size ≤ handler.maxDataSize
  · exact .inr taken
  · refine .inl fun handler registered => ?_
    by_contra large
    exact taken ⟨handler, registered, UInt32.not_lt.mp large⟩

/-- A turn dispatches a message that the open channels play no part in. -/
theorem turn_dispatches (read : sslReadAllData 8 ssl = .returned buf rest)
    (allocated : con.malloc i (MessageHeader.ofBytes buf).size = some block)
    (overlookable : con.Overlookable (MessageHeader.ofBytes buf)) :
    Dispatches (peerHandleTurn con.toReceiver i ssl).calls
      (peerHandleTurn con.toReceiver i ssl).thrown
      (con.addressee (MessageHeader.ofBytes buf)
        (blockData (MessageHeader.ofBytes buf).size block)) := by
  rw [PeerConnection.addressee]
  cases opened : con.openChannelHandlers (MessageHeader.ofBytes buf).type with
  | some handler =>
      obtain ⟨large, unhandled⟩ := overlookable handler opened
      obtain ⟨descr, turn⟩ := peerHandleTurn_unhandled read allocated unhandled
      dsimp only
      rw [turn, if_neg (UInt32.not_le.mpr large)]
      exact ⟨rfl, descr, rfl⟩
  | none =>
      rcases unhandled_or_taken con (MessageHeader.ofBytes buf) with
        unhandled | ⟨handler, registered, fits⟩
      · obtain ⟨descr, turn⟩ := peerHandleTurn_unhandled read allocated unhandled
        rw [turn]
        cases registered : con.handlers (MessageHeader.ofBytes buf).type with
        | none => exact ⟨rfl, descr, rfl⟩
        | some handler =>
            dsimp only
            rw [if_neg (UInt32.not_le.mpr (unhandled handler registered))]
            exact ⟨rfl, descr, rfl⟩
      · rw [peerHandleTurn_taken read allocated registered fits, registered]
        dsimp only
        rw [if_pos fits]
        exact ⟨rfl, rfl⟩

/-- No turn calls a channel. -/
theorem not_dispatches_channel (turn : Turn) (call : ChannelCall) :
    ¬ Dispatches turn.calls turn.thrown (some (.channel call)) := by
  rintro ⟨called, -⟩
  cases turn with
  | handled call rest => cases called
  | waiting buf unread => cases called
  | raised e => cases called

/-- A message for an open channel, or one too large for it that a global handler takes, is
not dispatched. -/
theorem overlookable_of_dispatches (read : sslReadAllData 8 ssl = .returned buf rest)
    (allocated : con.malloc i (MessageHeader.ofBytes buf).size = some block)
    (dispatches : Dispatches (peerHandleTurn con.toReceiver i ssl).calls
      (peerHandleTurn con.toReceiver i ssl).thrown
      (con.addressee (MessageHeader.ofBytes buf)
        (blockData (MessageHeader.ofBytes buf).size block))) :
    con.Overlookable (MessageHeader.ofBytes buf) := by
  intro handler opened
  rw [PeerConnection.addressee, opened] at dispatches
  dsimp only at dispatches
  by_cases fits : (MessageHeader.ofBytes buf).size ≤ handler.maxDataSize
  · rw [if_pos fits] at dispatches
    exact absurd dispatches (not_dispatches_channel _ _)
  · rw [if_neg fits] at dispatches
    refine ⟨UInt32.not_le.mp fits, ?_⟩
    rcases unhandled_or_taken con (MessageHeader.ofBytes buf) with
      unhandled | ⟨global, registered, small⟩
    · exact unhandled
    · rw [peerHandleTurn_taken read allocated registered small] at dispatches
      cases dispatches.1

/-- **A turn dispatches the message it received if and only if the open channels play no
part in it.** -/
theorem dispatched_iff (read : sslReadAllData 8 ssl = .returned buf rest)
    (allocated : con.malloc i (MessageHeader.ofBytes buf).size = some block) :
    Dispatches (peerHandleTurn con.toReceiver i ssl).calls
        (peerHandleTurn con.toReceiver i ssl).thrown
        (con.addressee (MessageHeader.ofBytes buf)
          (blockData (MessageHeader.ofBytes buf).size block)) ↔
      con.Overlookable (MessageHeader.ofBytes buf) :=
  ⟨overlookable_of_dispatches read allocated, turn_dispatches read allocated⟩

end Received

/-- A channel open for type 5 beside the global handler of type 65536. -/
def channelConnection : PeerConnection where
  toReceiver := zeroReceiver
  openChannelHandlers type :=
    if type = 5 then some { maxDataSize := 10, onData := 1, arg := 2 } else none

/-- One byte for the global handler. -/
theorem dispatched_global :
    Dispatches (peerHandleTurn zeroReceiver 0 ⟨[1, 0, 0, 0, 0, 0, 1, 0], [8]⟩).calls
      (peerHandleTurn zeroReceiver 0 ⟨[1, 0, 0, 0, 0, 0, 1, 0], [8]⟩).thrown
      (channelConnection.addressee ⟨1, 65536⟩ [0]) := by
  have closed : channelConnection.Overlookable ⟨1, 65536⟩ := by
    intro handler opened
    cases opened
  exact (@dispatched_iff channelConnection 0 ⟨[1, 0, 0, 0, 0, 0, 1, 0], [8]⟩ ⟨[], []⟩
    [1, 0, 0, 0, 0, 0, 1, 0] (fun _ => 0) rfl rfl).mpr closed

/-- **Refuted**: one byte for the open channel. -/
theorem dispatched_refuted :
    ¬ ∀ (con : PeerConnection) (i : Nat) (ssl rest : ReadEnd) (buf : List UInt8)
        (block : Nat → UInt8), sslReadAllData 8 ssl = .returned buf rest →
        con.malloc i (MessageHeader.ofBytes buf).size = some block →
        Dispatches (peerHandleTurn con.toReceiver i ssl).calls
          (peerHandleTurn con.toReceiver i ssl).thrown
          (con.addressee (MessageHeader.ofBytes buf)
            (blockData (MessageHeader.ofBytes buf).size block)) := by
  intro always
  have dispatched := always channelConnection 0 ⟨[1, 0, 0, 0, 5, 0, 0, 0], [8]⟩ ⟨[], []⟩
    [1, 0, 0, 0, 5, 0, 0, 0] (fun _ => 0) rfl rfl
  exact not_dispatches_channel _ _ dispatched

/-! ## Asking the connection first -/

/-- `handle_data` before `global_handle_data`, with the throw of the thread after both: the
calls made and what is thrown. -/
def channelsFirst (con : PeerConnection) (header : MessageHeader) (data : List UInt8) :
    List Delivery × Option Failure :=
  match con.handleData header.type data header.size with
  | .error e => ([], some e)
  | .ok (some call) => ([.channel call], none)
  | .ok none =>
    match globalHandleData con.handlers con.peerId header.type data header.size with
    | .error e => ([], some e)
    | .ok none => ([], some (.protocolError "No handler for data"))
    | .ok (some call) => ([.global call], none)

/-- **With the connection asked first every message is dispatched.** -/
theorem dispatched_channels_first (con : PeerConnection) (header : MessageHeader)
    (data : List UInt8) :
    Dispatches (channelsFirst con header data).1 (channelsFirst con header data).2
      (con.addressee header data) := by
  rw [channelsFirst, PeerConnection.handleData, PeerConnection.addressee]
  cases opened : con.openChannelHandlers header.type with
  | some handler =>
      dsimp only
      by_cases fits : header.size ≤ handler.maxDataSize
      · rw [if_neg (UInt32.not_lt.mpr fits), if_pos fits]
        exact ⟨rfl, rfl⟩
      · rw [if_pos (UInt32.not_le.mp fits), if_neg fits]
        exact ⟨rfl, _, rfl⟩
  | none =>
      dsimp only
      rw [globalHandleData]
      cases registered : con.handlers header.type with
      | none => exact ⟨rfl, _, rfl⟩
      | some handler =>
          dsimp only
          by_cases fits : header.size ≤ handler.maxDataSize
          · rw [if_neg (UInt32.not_lt.mpr fits), if_pos fits]
            exact ⟨rfl, rfl⟩
          · rw [if_pos (UInt32.not_le.mp fits), if_neg fits]
            exact ⟨rfl, _, rfl⟩

/-! ## Runs of the thread -/

/-- The messages a thread receives from its `i`th turn on, with what was allocated for them. -/
inductive Receives (con : PeerConnection) :
    Nat → ReadEnd → List (MessageHeader × List UInt8) → Prop where
  | idle {i : Nat} {ssl : ReadEnd}
      (nothing : ∀ buf rest, sslReadAllData 8 ssl = .returned buf rest →
        con.malloc i (MessageHeader.ofBytes buf).size = none) : Receives con i ssl []
  | refused {i : Nat} {ssl rest : ReadEnd} {buf : List UInt8} {block : Nat → UInt8} {e : Failure}
      (read : sslReadAllData 8 ssl = .returned buf rest)
      (allocated : con.malloc i (MessageHeader.ofBytes buf).size = some block)
      (turn : peerHandleTurn con.toReceiver i ssl = .raised e) :
      Receives con i ssl
        [(MessageHeader.ofBytes buf, blockData (MessageHeader.ofBytes buf).size block)]
  | handled {i : Nat} {ssl rest : ReadEnd} {buf : List UInt8} {block : Nat → UInt8}
      {call : HandlerCall} {later : List (MessageHeader × List UInt8)}
      (read : sslReadAllData 8 ssl = .returned buf rest)
      (allocated : con.malloc i (MessageHeader.ofBytes buf).size = some block)
      (turn : peerHandleTurn con.toReceiver i ssl = .handled call rest)
      (more : Receives con (i + 1) rest later) :
      Receives con i ssl
        ((MessageHeader.ofBytes buf, blockData (MessageHeader.ofBytes buf).size block) :: later)

/-- A received message is handled or refused, and what follows it is left. -/
theorem peerHandleTurn_ends {con : PeerConnection} {i : Nat} {ssl rest : ReadEnd}
    {buf : List UInt8} {block : Nat → UInt8} (read : sslReadAllData 8 ssl = .returned buf rest)
    (allocated : con.malloc i (MessageHeader.ofBytes buf).size = some block) :
    (∃ call, peerHandleTurn con.toReceiver i ssl = .handled call rest) ∨
      ∃ e, peerHandleTurn con.toReceiver i ssl = .raised e := by
  rcases unhandled_or_taken con (MessageHeader.ofBytes buf) with refused | ⟨handler, there, fits⟩
  · obtain ⟨descr, turn⟩ := peerHandleTurn_unhandled read allocated refused
    exact .inr ⟨_, turn⟩
  · exact .inl ⟨_, peerHandleTurn_taken read allocated there fits⟩

/-- Every thread receives some messages. -/
theorem exists_receives (con : PeerConnection) (i : Nat) (ssl : ReadEnd) :
    ∃ messages, Receives con i ssl messages := by
  obtain ⟨n, calls⟩ : ∃ n, ssl.returns.length = n := ⟨_, rfl⟩
  induction n using Nat.strong_induction_on generalizing i ssl with
  | _ n ih =>
      by_cases nothing : ∀ buf rest, sslReadAllData 8 ssl = .returned buf rest →
          con.malloc i (MessageHeader.ofBytes buf).size = none
      · exact ⟨[], .idle nothing⟩
      · push Not at nothing
        obtain ⟨buf, rest, read, allocates⟩ := nothing
        obtain ⟨block, allocated⟩ := Option.ne_none_iff_exists'.mp allocates
        rcases peerHandleTurn_ends read allocated with ⟨call, turn⟩ | ⟨e, turn⟩
        · have fewer := peerHandleTurn_uses turn
          obtain ⟨later, more⟩ := ih rest.returns.length (by omega) (i + 1) rest rfl
          exact ⟨_, .handled read allocated turn more⟩
        · exact ⟨_, .refused read allocated turn⟩

/-- **Over a whole run** of messages that the open channels play no part in, the calls are
those the messages are for, one each and in order, and a message that is for nobody ends the
run with an error. -/
theorem peerHandleThread_dispatches {con : PeerConnection} {i : Nat} {ssl : ReadEnd}
    {messages : List (MessageHeader × List UInt8)} (receives : Receives con i ssl messages)
    (overlookable : ∀ m ∈ messages, con.Overlookable m.1) :
    (peerHandleThread con.toReceiver i ssl).1.map (fun h => Delivery.global h.call) =
        messages.filterMap (fun m => con.addressee m.1 m.2) ∧
      ∀ m ∈ messages, con.addressee m.1 m.2 = none →
        ∃ descr, (peerHandleThread con.toReceiver i ssl).2 = .raised (.protocolError descr) := by
  induction receives with
  | @idle i ssl nothing =>
      refine ⟨?_, fun m member => by cases member⟩
      cases turn : peerHandleTurn con.toReceiver i ssl with
      | handled call rest =>
          rw [peerHandleTurn] at turn
          cases read : sslReadAllData 8 ssl with
          | returned buf next =>
              rw [read] at turn
              dsimp only at turn
              rw [nothing buf next read] at turn
              cases turn
          | waiting buf unread => rw [read] at turn; cases turn
          | raised e => rw [read] at turn; cases turn
      | waiting buf unread => rw [peerHandleThread_waiting turn]; rfl
      | raised e => rw [peerHandleThread_raised turn]; rfl
  | @refused i ssl rest buf block e read allocated turn =>
      have dispatched := turn_dispatches read allocated (overlookable _ List.mem_cons_self)
      rw [turn] at dispatched
      rw [peerHandleThread_raised turn]
      cases expected : con.addressee (MessageHeader.ofBytes buf)
          (blockData (MessageHeader.ofBytes buf).size block) with
      | some call =>
          rw [expected] at dispatched
          cases dispatched.1
      | none =>
          rw [expected] at dispatched
          obtain ⟨-, descr, thrown⟩ := dispatched
          cases thrown
          exact ⟨by simp [expected], fun m _ _ => ⟨descr, rfl⟩⟩
  | @handled i ssl rest buf block call later read allocated turn more ih =>
      have dispatched := turn_dispatches read allocated (overlookable _ List.mem_cons_self)
      obtain ⟨calls, ends⟩ := ih fun m member => overlookable m (List.mem_cons_of_mem _ member)
      rw [turn] at dispatched
      rw [peerHandleThread_handled turn]
      cases expected : con.addressee (MessageHeader.ofBytes buf)
          (blockData (MessageHeader.ofBytes buf).size block) with
      | none =>
          rw [expected] at dispatched
          cases dispatched.1
      | some given =>
          rw [expected] at dispatched
          obtain ⟨called, -⟩ := dispatched
          injection called with same
          refine ⟨?_, ?_⟩
          · rw [List.map_cons, List.filterMap_cons, expected, calls]
            exact congrArg (· :: _) same
          · intro m member for_nobody
            rcases List.mem_cons.mp member with rfl | after
            · rw [expected] at for_nobody
              cases for_nobody
            · exact ends m after for_nobody

end UdpStuff.Conn
