/-
# Conn.Peers — message framing between two peers

`send_data_to_peer` of `peers.cc` writes a header and then the payload.
`peer_handle_thread` reads a header, allocates a block of the announced size, and
hands the block to the handler as it came from `malloc`: nothing reads the payload
into it.  The payload stays in the stream, where the next header is looked for.

`framing_iff`: a receiver calls the handlers with exactly the messages sent, at the
message boundaries, when and only when every payload is empty.  One direction is
the run over empty messages; the other counts bytes, since every call of a handler
takes one header's worth and nothing else (`thread_counts`).
-/
import UdpStuff.Theory.LittleEndian
import UdpStuff.Conn.Handler

namespace UdpStuff.Conn

set_option autoImplicit false

open UdpStuff.Theory UdpStuff.Crypto

/-! ## Headers and messages -/

/-- `MessageHeader_t` -/
structure MessageHeader where
  size : UInt32
  type : UInt32
deriving DecidableEq

/-- The header as it lies in memory. -/
def MessageHeader.toBytes (header : MessageHeader) : List UInt8 :=
  leBytes 4 header.size.toNat ++ leBytes 4 header.type.toNat

def MessageHeader.ofBytes (buf : List UInt8) : MessageHeader :=
  ⟨UInt32.ofNat (ofLeBytes (buf.take 4)), UInt32.ofNat (ofLeBytes (buf.drop 4))⟩

@[simp] theorem MessageHeader.length_toBytes (header : MessageHeader) :
    header.toBytes.length = 8 := by
  rw [toBytes, List.length_append, length_leBytes, length_leBytes]

theorem MessageHeader.ofBytes_toBytes (header : MessageHeader) :
    ofBytes header.toBytes = header := by
  have size := @ofLeBytes_leBytes 4 _ header.size.toNat_lt
  have type := @ofLeBytes_leBytes 4 _ header.type.toNat_lt
  have four := length_leBytes 4 header.size.toNat
  rw [ofBytes, toBytes, List.take_left' four, List.drop_left' four, size, type,
    UInt32.ofNat_toNat, UInt32.ofNat_toNat]

/-- A message as `send_data_to_peer` takes it; its size is a `uint32_t`. -/
structure Message where
  type : UInt32
  data : List UInt8
  sized : data.length < 2 ^ 32

namespace Message

def size (m : Message) : UInt32 := UInt32.ofNat m.data.length

def header (m : Message) : MessageHeader := ⟨m.size, m.type⟩

def frame (m : Message) : List UInt8 := m.header.toBytes ++ m.data

end Message

/-- The bytes of messages, one after the other. -/
def framesOf (messages : List Message) : List UInt8 := messages.flatMap Message.frame

theorem length_framesOf_cons (m : Message) (rest : List Message) :
    (framesOf (m :: rest)).length = 8 + (m.data.length + (framesOf rest).length) := by
  rw [framesOf, List.flatMap_cons, List.length_append, Message.frame, List.length_append,
    MessageHeader.length_toBytes, framesOf, Nat.add_assoc]

/-- Frames of no more than a header each carry no payload. -/
theorem empty_of_length {messages : List Message}
    (length : (framesOf messages).length ≤ 8 * messages.length) : ∀ m ∈ messages, m.data = [] := by
  have least : ∀ messages : List Message, 8 * messages.length ≤ (framesOf messages).length := by
    intro messages
    induction messages with
    | nil => exact Nat.zero_le _
    | cons m rest ih =>
        rw [length_framesOf_cons, List.length_cons]
        omega
  induction messages with
  | nil => intro m member; cases member
  | cons m rest ih =>
      have others := least rest
      rw [length_framesOf_cons, List.length_cons] at length
      intro m' member
      rcases List.mem_cons.mp member with first | later
      · rw [first]
        exact List.eq_nil_of_length_eq_zero (by omega)
      · exact ih (by omega) m' later

/-! ## Sending -/

/-- `connected_peers`: the connections by peer, each with its end of the stream. -/
abbrev ConnectedPeers := PeerId512 → Option WriteEnd

/-- How a send ends: with the peers after it, still waiting in a write, or raising. -/
inductive SendOutcome where
  | returned (peers : ConnectedPeers)
  | waiting
  | raised (e : Failure)

def sendDataToPeer (connectedPeers : ConnectedPeers) (peerId : PeerId512) (m : Message) :
    SendOutcome :=
  match connectedPeers peerId with
  | none => .raised (.runtimeError "Peer not connected")
  | some con =>
    match sslWriteAllData m.header.toBytes con with
    | .waiting => .waiting
    | .raised e => .raised e
    | .returned con =>
      match sslWriteAllData m.data con with
      | .waiting => .waiting
      | .raised e => .raised e
      | .returned con =>
        .returned (fun id => if id = peerId then some con else connectedPeers id)

/-- The messages sent one after the other. -/
def sendAll (connectedPeers : ConnectedPeers) (peerId : PeerId512) :
    List Message → SendOutcome
  | [] => .returned connectedPeers
  | m :: rest =>
    match sendDataToPeer connectedPeers peerId m with
    | .returned peers => sendAll peers peerId rest
    | other => other

theorem sendDataToPeer_sent {connectedPeers peers : ConnectedPeers} {peerId : PeerId512}
    {m : Message} {con : WriteEnd} (connected : connectedPeers peerId = some con)
    (result : sendDataToPeer connectedPeers peerId m = .returned peers) :
    ∃ rest, peers peerId = some rest ∧ rest.sent = con.sent ++ m.frame := by
  rw [sendDataToPeer, connected] at result
  dsimp only at result
  cases headerWrite : sslWriteAllData m.header.toBytes con with
  | waiting => rw [headerWrite] at result; cases result
  | raised e => rw [headerWrite] at result; cases result
  | returned written =>
      rw [headerWrite] at result
      dsimp only at result
      cases dataWrite : sslWriteAllData m.data written with
      | waiting => rw [dataWrite] at result; cases result
      | raised e => rw [dataWrite] at result; cases result
      | returned rest =>
          rw [dataWrite] at result
          injection result with peers
          subst peers
          refine ⟨rest, if_pos rfl, ?_⟩
          rw [sslWriteAllData_sent dataWrite, sslWriteAllData_sent headerWrite,
            List.append_assoc, Message.frame]

theorem sendAll_sent {connectedPeers peers : ConnectedPeers} {peerId : PeerId512}
    {messages : List Message} {con : WriteEnd} (connected : connectedPeers peerId = some con)
    (result : sendAll connectedPeers peerId messages = .returned peers) :
    ∃ rest, peers peerId = some rest ∧ rest.sent = con.sent ++ framesOf messages := by
  induction messages generalizing connectedPeers con with
  | nil =>
      injection result with same
      subst same
      exact ⟨con, connected, (List.append_nil _).symm⟩
  | cons m rest ih =>
      rw [sendAll] at result
      cases sent : sendDataToPeer connectedPeers peerId m with
      | waiting => rw [sent] at result; cases result
      | raised e => rw [sent] at result; cases result
      | returned next =>
          rw [sent] at result
          obtain ⟨con', connected', one⟩ := sendDataToPeer_sent connected sent
          obtain ⟨last, there, all⟩ := ih connected' result
          refine ⟨last, there, ?_⟩
          rw [all, one, List.append_assoc, framesOf, framesOf, List.flatMap_cons]

/-- Messages that fit an `int`, on a connection whose calls all move something and
suffice for every byte: all are sent. -/
theorem sendAll_returns {connectedPeers : ConnectedPeers} {peerId : PeerId512}
    {messages : List Message} {con : WriteEnd} (connected : connectedPeers peerId = some con)
    (small : ∀ m ∈ messages, m.data.length < 2 ^ 31)
    (positive : ∀ written ∈ con.returns, 0 < written)
    (enough : (framesOf messages).length ≤ con.returns.length) :
    ∃ peers, sendAll connectedPeers peerId messages = .returned peers := by
  induction messages generalizing connectedPeers con with
  | nil => exact ⟨connectedPeers, rfl⟩
  | cons m rest ih =>
      rw [length_framesOf_cons] at enough
      have eight := m.header.length_toBytes
      rw [← eight] at enough
      obtain ⟨written, headerWrite, positive', enough'⟩ :=
        sslWriteAllData_returns con (by omega) positive enough
      obtain ⟨last, dataWrite, positive'', enough''⟩ :=
        sslWriteAllData_returns written (small m List.mem_cons_self) positive' enough'
      have one : sendDataToPeer connectedPeers peerId m =
          .returned (fun id => if id = peerId then some last else connectedPeers id) := by
        rw [sendDataToPeer, connected]
        dsimp only
        rw [headerWrite]
        dsimp only
        rw [dataWrite]
      rw [sendAll, one]
      exact ih (if_pos rfl) (fun m' member => small m' (List.mem_cons_of_mem _ member))
        positive'' enough''

/-! ## The receiving thread -/

/-- What the receiving side runs with: the handlers, its peer, and what the calls of
`malloc` give: nothing, or a block with the bytes that happen to be in it. -/
structure Receiver where
  handlers : GlobalChannelHandlers
  peerId : PeerId512
  malloc : Nat → UInt32 → Option (Nat → UInt8)

/-- One turn of the loop: a handler was called, or the thread stays in it. -/
inductive Turn where
  | handled (call : HandlerCall) (rest : ReadEnd)
  | waiting (buf unread : List UInt8)
  | raised (e : Failure)

/-- The body of the loop of `peer_handle_thread`, for the `i`th allocation. -/
def peerHandleTurn (receiver : Receiver) (i : Nat) (ssl : ReadEnd) : Turn :=
  match sslReadAllData 8 ssl with
  | .waiting buf unread => .waiting buf unread
  | .raised e => .raised e
  | .returned buf rest =>
    let header := MessageHeader.ofBytes buf
    match receiver.malloc i header.size with
    | none => .raised (.runtimeError "Failed to allocate memory for data")
    | some block =>
      let data := (List.range header.size.toNat).map block
      match globalHandleData receiver.handlers receiver.peerId header.type data header.size with
      | .error e => .raised e
      | .ok none => .raised (.protocolError "No handler for data")
      | .ok (some call) => .handled call rest

theorem peerHandleTurn_uses {receiver : Receiver} {i : Nat} {ssl rest : ReadEnd}
    {call : HandlerCall} (turn : peerHandleTurn receiver i ssl = .handled call rest) :
    rest.returns.length < ssl.returns.length := by
  rw [peerHandleTurn] at turn
  cases read : sslReadAllData 8 ssl with
  | waiting buf unread => rw [read] at turn; cases turn
  | raised e => rw [read] at turn; cases turn
  | returned buf next =>
      have uses := (sslReadLoop_uses read).2 (by decide)
      rw [read] at turn
      dsimp only at turn
      split at turn
      · cases turn
      · split at turn
        · cases turn
        · cases turn
        · injection turn with _ same
          rwa [← same]

/-- How a thread stands when it makes no further turn. -/
inductive Standing where
  | waiting (buf unread : List UInt8)
  | raised (e : Failure)
deriving DecidableEq

/-- A handler's call and what was left of the stream when it was made. -/
structure Handled where
  call : HandlerCall
  unread : List UInt8
deriving DecidableEq

/-- `peer_handle_thread` from its `i`th turn on: the calls it makes, in order, and
how it stands when the connection gives no more. -/
def peerHandleThread (receiver : Receiver) (i : Nat) (ssl : ReadEnd) : List Handled × Standing :=
  match turn : peerHandleTurn receiver i ssl with
  | .waiting buf unread => ([], .waiting buf unread)
  | .raised e => ([], .raised e)
  | .handled call rest =>
    let later := peerHandleThread receiver (i + 1) rest
    (⟨call, rest.stream⟩ :: later.1, later.2)
termination_by ssl.returns.length
decreasing_by exact peerHandleTurn_uses turn

/-- The calls that messages stand for, each made when the messages after it are what
is left of the stream. -/
def expectedCalls (receiver : Receiver) : List Message → List Handled
  | [] => []
  | m :: rest =>
    match receiver.handlers m.type with
    | none => expectedCalls receiver rest
    | some handler =>
      ⟨⟨m.type, handler.onData, handler.arg, receiver.peerId, m.data, m.size⟩, framesOf rest⟩ ::
        expectedCalls receiver rest

/-- Some handler is registered for the message's type and takes its size. -/
def Receiver.Accepts (receiver : Receiver) (m : Message) : Prop :=
  ∃ handler, receiver.handlers m.type = some handler ∧ m.size ≤ handler.maxDataSize

theorem length_expectedCalls {receiver : Receiver} {messages : List Message}
    (accepts : ∀ m ∈ messages, receiver.Accepts m) :
    (expectedCalls receiver messages).length = messages.length := by
  induction messages with
  | nil => rfl
  | cons m rest ih =>
      obtain ⟨handler, registered, -⟩ := accepts m List.mem_cons_self
      rw [expectedCalls, registered]
      dsimp only
      rw [List.length_cons, ih fun m' member => accepts m' (List.mem_cons_of_mem _ member),
        List.length_cons]

/-! ## Runs of the thread -/

theorem peerHandleThread_handled {receiver : Receiver} {i : Nat} {ssl rest : ReadEnd}
    {call : HandlerCall} (turn : peerHandleTurn receiver i ssl = .handled call rest) :
    peerHandleThread receiver i ssl =
      (⟨call, rest.stream⟩ :: (peerHandleThread receiver (i + 1) rest).1,
        (peerHandleThread receiver (i + 1) rest).2) := by
  rw [peerHandleThread]
  split
  case h_1 other => rw [turn] at other; cases other
  case h_2 other => rw [turn] at other; cases other
  case h_3 other => rw [turn] at other; cases other; rfl

theorem peerHandleThread_waiting {receiver : Receiver} {i : Nat} {ssl : ReadEnd}
    {buf unread : List UInt8} (turn : peerHandleTurn receiver i ssl = .waiting buf unread) :
    peerHandleThread receiver i ssl = ([], .waiting buf unread) := by
  rw [peerHandleThread]
  split
  case h_1 other => rw [turn] at other; cases other; rfl
  case h_2 other => rw [turn] at other; cases other
  case h_3 other => rw [turn] at other; cases other

theorem peerHandleThread_raised {receiver : Receiver} {i : Nat} {ssl : ReadEnd} {e : Failure}
    (turn : peerHandleTurn receiver i ssl = .raised e) :
    peerHandleThread receiver i ssl = ([], .raised e) := by
  rw [peerHandleThread]
  split
  case h_1 other => rw [turn] at other; cases other
  case h_2 other => rw [turn] at other; cases other; rfl
  case h_3 other => rw [turn] at other; cases other

/-- A turn on an answered connection takes one header, or waits for the rest of one
with everything read. -/
theorem peerHandleTurn_takes (receiver : Receiver) (i : Nat) {ssl : ReadEnd}
    (answered : ssl.Answered) :
    match peerHandleTurn receiver i ssl with
    | .handled _ rest => ssl.stream.length = 8 + rest.stream.length ∧ rest.Answered
    | .waiting buf unread => buf = ssl.stream ∧ unread = []
    | .raised _ => True := by
  rcases Nat.lt_or_ge ssl.stream.length 8 with short | there
  · rw [peerHandleTurn, sslReadAllData_short answered (by decide) short]
    exact ⟨rfl, rfl⟩
  · obtain ⟨rest, read, left, answered'⟩ := sslReadAllData_all answered (by decide) there
    have taken : ssl.stream.length = 8 + rest.stream.length := by
      rw [left, List.length_drop]
      omega
    rw [peerHandleTurn, read]
    dsimp only
    split
    case h_1 call next result =>
      split at result
      · cases result
      · split at result
        · cases result
        · cases result
        · injection result with _ same
          subst same
          exact ⟨taken, answered'⟩
    case h_2 buf unread result =>
      split at result
      · cases result
      · split at result
        · cases result
        · cases result
        · cases result
    case h_3 => trivial

/-- Every call of a handler has used up one header of the stream, and nothing else. -/
theorem thread_counts {receiver : Receiver} {i : Nat} {ssl : ReadEnd} (answered : ssl.Answered)
    {handled : List Handled} {buf unread : List UInt8}
    (run : peerHandleThread receiver i ssl = (handled, .waiting buf unread)) :
    ssl.stream.length = 8 * handled.length + buf.length := by
  have takes := peerHandleTurn_takes receiver i answered
  induction handled generalizing i ssl with
  | nil =>
      cases turn : peerHandleTurn receiver i ssl with
      | handled call rest => rw [peerHandleThread_handled turn] at run; cases run
      | raised e => rw [peerHandleThread_raised turn] at run; cases run
      | waiting buf' unread' =>
          rw [peerHandleThread_waiting turn] at run
          rw [turn] at takes
          cases run
          rw [takes.1]
          simp
  | cons first later ih =>
      cases turn : peerHandleTurn receiver i ssl with
      | raised e => rw [peerHandleThread_raised turn] at run; cases run
      | waiting buf' unread' => rw [peerHandleThread_waiting turn] at run; cases run
      | handled call rest =>
          rw [peerHandleThread_handled turn] at run
          rw [turn] at takes
          injection run with calls standing
          injection calls with _ calls
          have others := ih takes.2 (Prod.ext calls standing) (peerHandleTurn_takes receiver (i + 1) takes.2)
          rw [takes.1, others, List.length_cons]
          omega

/-- An empty message at the front of the stream is handled. -/
theorem peerHandleTurn_empty {receiver : Receiver} {i : Nat} {ssl : ReadEnd}
    (answered : ssl.Answered) {m : Message} {rest : List UInt8}
    (front : ssl.stream = m.frame ++ rest) (empty : m.data = [])
    (allocates : ∀ i size, (receiver.malloc i size).isSome)
    {handler : GlobalChannelHandler} (registered : receiver.handlers m.type = some handler)
    (fits : m.size ≤ handler.maxDataSize) :
    ∃ next, peerHandleTurn receiver i ssl = .handled
        ⟨m.type, handler.onData, handler.arg, receiver.peerId, m.data, m.size⟩ next ∧
      next.stream = rest ∧ next.Answered := by
  have frame : m.frame = m.header.toBytes := by rw [Message.frame, empty, List.append_nil]
  have eight := m.header.length_toBytes
  have there : 8 ≤ ssl.stream.length := by
    rw [front, frame, List.length_append, eight]
    omega
  obtain ⟨next, read, left, answered'⟩ := sslReadAllData_all answered (by decide) there
  rw [front, frame, List.take_left' eight] at read
  rw [front, frame, List.drop_left' eight] at left
  obtain ⟨block, allocated⟩ := Option.isSome_iff_exists.mp (allocates i m.size)
  have nothing : (List.range m.size.toNat).map block = m.data := by
    rw [Message.size, empty]
    rfl
  refine ⟨next, ?_, left, answered'⟩
  rw [peerHandleTurn, read]
  dsimp only
  rw [MessageHeader.ofBytes_toBytes]
  simp only [Message.header]
  rw [allocated]
  dsimp only
  rw [nothing, globalHandleData_accepted registered fits]

theorem thread_empties {receiver : Receiver} {messages : List Message} {i : Nat} {ssl : ReadEnd}
    (answered : ssl.Answered) (stream : ssl.stream = framesOf messages)
    (allocates : ∀ i size, (receiver.malloc i size).isSome)
    (accepts : ∀ m ∈ messages, receiver.Accepts m) (empties : ∀ m ∈ messages, m.data = []) :
    peerHandleThread receiver i ssl = (expectedCalls receiver messages, .waiting [] []) := by
  induction messages generalizing i ssl with
  | nil =>
      have waits : sslReadAllData 8 ssl = .waiting ssl.stream [] :=
        sslReadAllData_short answered (by decide) (by rw [stream]; decide)
      have turn : peerHandleTurn receiver i ssl = .waiting [] [] := by
        rw [peerHandleTurn, waits, stream]
        rfl
      exact peerHandleThread_waiting turn
  | cons m rest ih =>
      obtain ⟨handler, registered, fits⟩ := accepts m List.mem_cons_self
      rw [framesOf, List.flatMap_cons] at stream
      obtain ⟨next, turn, left, answered'⟩ := peerHandleTurn_empty (i := i) answered stream
        (empties m List.mem_cons_self) allocates registered fits
      have others := ih (i := i + 1) answered' left
        (fun m' member => accepts m' (List.mem_cons_of_mem _ member))
        (fun m' member => empties m' (List.mem_cons_of_mem _ member))
      rw [peerHandleThread_handled turn, others, expectedCalls, registered, left]
      rfl

/-! ## A whole connection -/

/-- Messages sent on one connection reach the handlers: every send returns, and the
thread at the other end, reading what was sent, makes exactly the expected calls and
then waits with nothing read and nothing unread. -/
def Delivered (connectedPeers : ConnectedPeers) (dst : PeerId512) (receiver : Receiver)
    (reads : List Int) (messages : List Message) : Prop :=
  ∃ peers con, sendAll connectedPeers dst messages = .returned peers ∧ peers dst = some con ∧
    peerHandleThread receiver 0 ⟨con.sent, reads⟩ =
      (expectedCalls receiver messages, .waiting [] [])

/-- A fresh connection on which every call moves something, and the receiving side's
allocations succeed: the calls suffice for the bytes of the messages. -/
structure Reliable (connectedPeers : ConnectedPeers) (dst : PeerId512) (receiver : Receiver)
    (reads : List Int) (messages : List Message) : Prop where
  connected : ∃ writes, connectedPeers dst = some ⟨[], writes⟩ ∧
    (∀ written ∈ writes, 0 < written) ∧ (framesOf messages).length ≤ writes.length
  answered : ReadEnd.Answered ⟨framesOf messages, reads⟩
  allocates : ∀ i size, (receiver.malloc i size).isSome

/-- Delivered messages are nothing but headers: each of them cost the receiver one
header's worth of the stream. -/
theorem Delivered.counts {connectedPeers : ConnectedPeers} {dst : PeerId512}
    {receiver : Receiver} {reads : List Int} {messages : List Message}
    (reliable : Reliable connectedPeers dst receiver reads messages)
    (accepts : ∀ m ∈ messages, receiver.Accepts m)
    (delivered : Delivered connectedPeers dst receiver reads messages) :
    (framesOf messages).length = 8 * messages.length := by
  obtain ⟨writes, connected, -, -⟩ := reliable.connected
  obtain ⟨peers, con, sent, there, run⟩ := delivered
  obtain ⟨con', there', stream⟩ := sendAll_sent connected sent
  have same : con' = con := Option.some.inj (there'.symm.trans there)
  rw [same, List.nil_append] at stream
  rw [stream] at run
  have counted := thread_counts reliable.answered run
  rwa [length_expectedCalls accepts] at counted

/-- **The receiver calls the handlers with exactly the messages sent, on their
boundaries, if and only if every payload is empty.** -/
theorem framing_iff {connectedPeers : ConnectedPeers} {dst : PeerId512} {receiver : Receiver}
    {reads : List Int} {messages : List Message}
    (reliable : Reliable connectedPeers dst receiver reads messages)
    (accepts : ∀ m ∈ messages, receiver.Accepts m) :
    Delivered connectedPeers dst receiver reads messages ↔ ∀ m ∈ messages, m.data = [] := by
  constructor
  · intro delivered
    exact empty_of_length (Nat.le_of_eq (delivered.counts reliable accepts))
  · intro empties
    obtain ⟨writes, connected, positive, enough⟩ := reliable.connected
    obtain ⟨peers, sent⟩ := sendAll_returns connected
      (fun m member => by rw [empties m member]; decide) positive enough
    obtain ⟨con, there, stream⟩ := sendAll_sent connected sent
    rw [List.nil_append] at stream
    refine ⟨peers, con, sent, there, ?_⟩
    rw [stream]
    exact thread_empties reliable.answered rfl reliable.allocates accepts empties

/-- One handler, and blocks full of zeros. -/
def zeroReceiver : Receiver where
  handlers type := if type = 65536 then some ⟨100, 7, 8⟩ else none
  peerId := 3
  malloc _ _ := some fun _ => 0

def emptyMessage : Message := ⟨65536, [], by decide⟩

def byteMessage : Message := ⟨65536, [42], by decide⟩

/-- Two empty messages, written in pieces of five and three and read byte by byte. -/
theorem framing_empty_messages :
    Delivered (fun _ => some ⟨[], List.replicate 16 5⟩) 3 zeroReceiver (List.replicate 16 1)
      [emptyMessage, emptyMessage] := by
  have reliable : Reliable (fun _ => some ⟨[], List.replicate 16 5⟩) 3 zeroReceiver
      (List.replicate 16 1) [emptyMessage, emptyMessage] :=
    ⟨⟨_, rfl, by decide, by decide⟩, ⟨by decide, by decide⟩, fun _ _ => rfl⟩
  have accepts : ∀ m ∈ [emptyMessage, emptyMessage], zeroReceiver.Accepts m := by
    intro m member
    have same : m = emptyMessage := by simpa using member
    rw [same]
    exact ⟨⟨100, 7, 8⟩, by decide, by decide⟩
  refine (framing_iff reliable accepts).mpr ?_
  intro m member
  have same : m = emptyMessage := by simpa using member
  rw [same]
  rfl

/-- **Refuted**: one byte of payload stays in the stream. -/
theorem framing_refuted :
    ¬ ∀ (connectedPeers : ConnectedPeers) (dst : PeerId512) (receiver : Receiver)
        (reads : List Int) (messages : List Message),
      Reliable connectedPeers dst receiver reads messages →
      (∀ m ∈ messages, receiver.Accepts m) →
      Delivered connectedPeers dst receiver reads messages := by
  intro always
  have reliable : Reliable (fun _ => some ⟨[], List.replicate 9 9⟩) 3 zeroReceiver
      (List.replicate 9 9) [byteMessage] :=
    ⟨⟨_, rfl, by decide, by decide⟩, ⟨by decide, by decide⟩, fun _ _ => rfl⟩
  have accepts : ∀ m ∈ [byteMessage], zeroReceiver.Accepts m := by
    intro m member
    have same : m = byteMessage := by simpa using member
    rw [same]
    exact ⟨⟨100, 7, 8⟩, by decide, by decide⟩
  have counted := (always _ _ _ _ _ reliable accepts).counts reliable accepts
  revert counted
  decide

end UdpStuff.Conn
