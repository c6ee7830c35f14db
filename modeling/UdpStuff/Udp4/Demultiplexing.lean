/-
# Udp4.Demultiplexing — who a received packet goes to

`attach` and `detach` of `udp4.h` put a connection under an address and take it away, and
`recv_all` looks one up for each message.  The connections are called in the middle of this, and
may attach and detach in turn.

`Accounts` says which events a run comes with: the changes from outside, and for each message
with the right lengths a call, with the changes that its connection makes there, or none.
`packets_demultiplexed`: every run comes with such events, and each call is of the connection
that was attached under the address when it was free, and has not been detached since.
-/
import UdpStuff.Theory.Slots
import UdpStuff.Udp4.Driver

namespace UdpStuff.Udp4

set_option autoImplicit false

open Theory Theory.Slots

/-! ## What a message says -/

/-- What `recv_all` reads of a message: the key it looks for, and the arguments of the call. -/
structure Incoming where
  addr : Addr
  method : Method
  id : PacketId
  data : List UInt8
  dataLen : BitVec 64

def Incoming.call {κ : Type} (incoming : Incoming) (conn : κ) : Call κ :=
  ⟨conn, incoming.method, incoming.id, incoming.data, incoming.dataLen⟩

/-- The message, if its lengths agree. -/
def Received.parse (order : ByteOrder) (msg : Received) : Option Incoming :=
  let iph := Iphdr.deref order msg.buf 0
  let udphAt := iph.ihl.toNat * 4
  let udph := Udphdr.deref order msg.buf udphAt
  let dataAt := udphAt + 8
  let dataLen := (order.htons udph.len).setWidth 64 - 8
  if msg.msgLen.setWidth 64 ≠ BitVec.ofNat 64 dataAt + dataLen then none
  else some
    { addr := { srcIp := iph.daddr, dstIp := iph.saddr, srcPort := udph.dest, dstPort := udph.source }
      method := if iph.fragOff &&& 0x080 = 0 then .processData else .processControl
      id := order.htons iph.id
      data := block msg.buf dataAt dataLen.toNat
      dataLen }

/-- The packet that a push has made, as its receiver should read it. -/
def Incoming.ofPacket (addr : Addr) (id : PacketId) (data : Mem) (l : Nat) (isControl : Bool) :
    Incoming where
  addr := addr.mirrored
  method := if isControl then .processControl else .processData
  id
  data := block data 0 l
  dataLen := BitVec.ofNat 64 l

namespace Udp4Driver

section Parsed

variable {κ : Type} (order : ByteOrder) (react : Call κ → Udp4Driver κ → Udp4Driver κ)

/-- The loop body, after its reading. -/
theorem recvOne_parse (driver : Udp4Driver κ) (msg : Received) :
    driver.recvOne order react msg =
      match msg.parse order with
      | none => (driver, [])
      | some incoming =>
        match driver.connMap incoming.addr with
        | none => (driver, [])
        | some conn => (react (incoming.call conn) driver, [incoming.call conn]) := by
  rw [recvOne, Received.parse]
  split <;> rfl

end Parsed

end Udp4Driver

/-- A packet that arrives says what was pushed. -/
theorem parse_packet {order : ByteOrder} {addr : Addr} {id : PacketId} {data : Mem} {l : Nat}
    {isControl : Bool} (fits : 28 + l ≤ 1500) {msg : Received}
    (arrives : Arrives (packet order addr id data l isControl).bytes msg) :
    msg.parse order = some (.ofPacket addr id data l isControl) := by
  -- a driver that has each address as the connection under it
  have one := Udp4Driver.recvOne_packet order (fun _ d => d) fits ⟨fun a => some a, {}⟩ arrives
  rw [Udp4Driver.recvOne_parse] at one
  cases said : msg.parse order with
  | none =>
      rw [said] at one
      cases congrArg Prod.snd one
  | some incoming =>
      rw [said] at one
      have called : incoming.call incoming.addr =
          Udp4Driver.expectedCall id data l isControl addr.mirrored :=
        List.head_eq_of_cons_eq (congrArg Prod.snd one)
      obtain ⟨addr', method, id', data', dataLen⟩ := incoming
      cases called
      rfl

/-! ## Runs of a driver -/

/-- A change of the map of connections. -/
inductive MapOp (κ : Type) where
  | attach (addr : Addr) (conn : κ)
  | detach (addr : Addr)

/-- What happens to a driver: changes from outside, pushes and `send_all`, which leave the map
alone, and turns of the loop of `recv_all`.  `meanwhile` is what a connection changes when it is
called. -/
inductive DriverOp (κ : Type) where
  | change (op : MapOp κ)
  | send (f : SendPacketQueue → SendPacketQueue)
  | receive (msg : Received) (meanwhile : List (MapOp κ))

/-- What has happened, as far as the map is concerned. -/
inductive Event (κ : Type) where
  | changed (op : MapOp κ)
  | called (incoming : Incoming) (conn : κ)
  | unclaimed (incoming : Incoming)

section Runs

variable {κ : Type}

def MapOp.apply (driver : Udp4Driver κ) : MapOp κ → Udp4Driver κ
  | .attach addr conn => driver.attach addr conn
  | .detach addr => driver.detach addr

namespace Udp4Driver

variable (order : ByteOrder)

def step (driver : Udp4Driver κ) : DriverOp κ → Udp4Driver κ × List (Call κ)
  | .change op => (op.apply driver, [])
  | .send f => ({ driver with sendQueue := f driver.sendQueue }, [])
  | .receive msg meanwhile =>
    driver.recvOne order (fun _ driver => meanwhile.foldl MapOp.apply driver) msg

/-- The driver after a run, and all calls. -/
def run : Udp4Driver κ → List (DriverOp κ) → Udp4Driver κ × List (Call κ)
  | driver, [] => (driver, [])
  | driver, op :: ops =>
    let one := driver.step order op
    let later := run one.1 ops
    (later.1, one.2 ++ later.2)

def fresh : Udp4Driver κ := ⟨fun _ => none, {}⟩

/-- `recv_all` is such a run, whatever the connections change. -/
theorem recvAll_run (changes : Call κ → Udp4Driver κ → List (MapOp κ)) (driver : Udp4Driver κ)
    (messages : List Received) :
    ∃ ops, List.Forall₂ (fun msg op => ∃ meanwhile, op = .receive msg meanwhile) messages ops ∧
      driver.run order ops = driver.recvAll order
        (fun call driver => (changes call driver).foldl MapOp.apply driver) messages := by
  induction messages generalizing driver with
  | nil => exact ⟨[], .nil, rfl⟩
  | cons msg messages ih =>
      have one : ∃ meanwhile, driver.step order (.receive msg meanwhile) = driver.recvOne order
          (fun call driver => (changes call driver).foldl MapOp.apply driver) msg := by
        simp only [step, recvOne_parse]
        split
        · exact ⟨[], rfl⟩
        · split
          · exact ⟨[], rfl⟩
          · exact ⟨_, rfl⟩
      obtain ⟨meanwhile, same⟩ := one
      obtain ⟨ops, receives, later⟩ := ih (driver.step order (.receive msg meanwhile)).1
      refine ⟨.receive msg meanwhile :: ops, .cons ⟨meanwhile, rfl⟩ receives, ?_⟩
      rw [run, recvAll, later, same]

end Udp4Driver

/-- The events that an operation may come with. -/
inductive Turn (order : ByteOrder) : DriverOp κ → List (Event κ) → Prop where
  | change (op : MapOp κ) : Turn order (.change op) [.changed op]
  | send (f : SendPacketQueue → SendPacketQueue) : Turn order (.send f) []
  | wrong {msg : Received} (meanwhile : List (MapOp κ)) (said : msg.parse order = none) :
      Turn order (.receive msg meanwhile) []
  | unclaimed {msg : Received} {incoming : Incoming} (meanwhile : List (MapOp κ))
      (said : msg.parse order = some incoming) :
      Turn order (.receive msg meanwhile) [.unclaimed incoming]
  | called {msg : Received} {incoming : Incoming} (meanwhile : List (MapOp κ)) (conn : κ)
      (said : msg.parse order = some incoming) :
      Turn order (.receive msg meanwhile) (.called incoming conn :: meanwhile.map .changed)

/-- The events of all operations, one after the other. -/
def Accounts (order : ByteOrder) (ops : List (DriverOp κ)) (history : List (Event κ)) : Prop :=
  ∃ turns, List.Forall₂ (Turn order) ops turns ∧ history = turns.flatten

def Event.call : Event κ → Option (Call κ)
  | .called incoming conn => some (incoming.call conn)
  | _ => none

/-- What an event does to the place of an address. -/
def Event.place (addr : Addr) : Event κ → Option (SlotOp κ)
  | .changed (.attach a conn) => if a = addr then some (.put conn) else none
  | .changed (.detach a) => if a = addr then some .clear else none
  | _ => none

/-- A call is of the connection that has the address, and there is one otherwise. -/
def Event.Justified (past : List (Event κ)) : Event κ → Prop
  | .changed _ => True
  | .called incoming conn => Held (Event.place incoming.addr) past conn
  | .unclaimed incoming => Free (@Event.place κ incoming.addr) past

/-- Every event is justified by those before it. -/
def Explained (past : List (Event κ)) : List (Event κ) → Prop
  | [] => True
  | e :: events => e.Justified past ∧ Explained (past ++ [e]) events

theorem explained_append (past events later : List (Event κ)) :
    Explained past (events ++ later) ↔ Explained past events ∧ Explained (past ++ events) later := by
  induction events generalizing past with
  | nil => simp [Explained]
  | cons e events ih => simp [Explained, ih, and_assoc]

theorem Explained.justified {past events : List (Event κ)} (explained : Explained past events)
    {before : List (Event κ)} {e : Event κ} {after : List (Event κ)}
    (split : events = before ++ e :: after) : e.Justified (past ++ before) := by
  rw [split, explained_append] at explained
  exact explained.2.1

theorem explained_changes (past : List (Event κ)) (ops : List (MapOp κ)) :
    Explained past (ops.map Event.changed) := by
  induction ops generalizing past with
  | nil => trivial
  | cons op ops ih => exact ⟨trivial, ih _⟩

/-- The map has what its history says. -/
def Tracks (driver : Udp4Driver κ) (past : List (Event κ)) : Prop :=
  ∀ addr, driver.connMap addr = holder (Event.place addr) past

theorem tracks_fresh : Tracks (Udp4Driver.fresh : Udp4Driver κ) [] := fun _ => rfl

namespace Tracks

variable {driver : Udp4Driver κ} {past : List (Event κ)} (tracks : Tracks driver past)

include tracks

theorem skip {e : Event κ} (stays : ∀ addr, e.place addr = none) : Tracks driver (past ++ [e]) := by
  intro addr
  rw [holder_concat, stays addr]
  exact tracks addr

theorem change (op : MapOp κ) : Tracks (op.apply driver) (past ++ [.changed op]) := by
  intro addr
  rw [holder_concat, ← tracks addr]
  cases op with
  | attach a conn =>
      by_cases same : addr = a
      · simp [MapOp.apply, Udp4Driver.attach, Event.place, SlotOp.apply, same]
      · simp [MapOp.apply, Udp4Driver.attach, Event.place, same, Ne.symm same]
  | detach a =>
      by_cases same : addr = a
      · simp [MapOp.apply, Udp4Driver.detach, Event.place, SlotOp.apply, same]
      · simp [MapOp.apply, Udp4Driver.detach, Event.place, same, Ne.symm same]

theorem changes (ops : List (MapOp κ)) :
    Tracks (ops.foldl MapOp.apply driver) (past ++ ops.map Event.changed) := by
  induction ops generalizing driver past with
  | nil => simpa using tracks
  | cons op ops ih => simpa using ih (tracks.change op)

/-- One operation, with its events. -/
theorem step (order : ByteOrder) (op : DriverOp κ) :
    ∃ events, Turn order op events ∧ events.filterMap Event.call = (driver.step order op).2 ∧
      Explained past events ∧ Tracks (driver.step order op).1 (past ++ events) := by
  cases op with
  | change op => exact ⟨_, .change op, rfl, ⟨trivial, trivial⟩, tracks.change op⟩
  | send f => exact ⟨[], .send f, rfl, trivial, by rw [List.append_nil]; exact tracks⟩
  | receive msg meanwhile =>
      rw [Udp4Driver.step, Udp4Driver.recvOne_parse]
      cases said : msg.parse order with
      | none => exact ⟨[], .wrong meanwhile said, rfl, trivial, by simpa using tracks⟩
      | some incoming =>
          dsimp only
          cases found : driver.connMap incoming.addr with
          | none =>
              have free := tracks incoming.addr
              rw [found] at free
              exact ⟨_, .unclaimed meanwhile said, rfl,
                ⟨(holder_eq_none _).mp free.symm, trivial⟩, tracks.skip fun _ => rfl⟩
          | some conn =>
              have held := tracks incoming.addr
              rw [found] at held
              refine ⟨_, .called meanwhile conn said, ?_, ⟨(holder_eq_some _).mp held.symm,
                explained_changes _ meanwhile⟩, ?_⟩
              · have changes : (meanwhile.map Event.changed).filterMap Event.call = [] := by
                  simp [List.filterMap_map, Function.comp_def, Event.call]
                rw [List.filterMap_cons, changes]
                rfl
              · have called := (tracks.skip (e := .called incoming conn) fun _ => rfl).changes
                  meanwhile
                rwa [List.append_assoc] at called

theorem run (order : ByteOrder) (ops : List (DriverOp κ)) :
    ∃ history, Accounts order ops history ∧
      history.filterMap Event.call = (driver.run order ops).2 ∧
      Explained past history ∧ Tracks (driver.run order ops).1 (past ++ history) := by
  induction ops generalizing driver past with
  | nil => exact ⟨[], ⟨[], .nil, rfl⟩, rfl, trivial, by rw [List.append_nil]; exact tracks⟩
  | cons op ops ih =>
      obtain ⟨events, turn, calls, explained, between⟩ := tracks.step order op
      obtain ⟨later, ⟨turns, all, rfl⟩, calls', explained', final⟩ := ih between
      refine ⟨events ++ turns.flatten, ⟨events :: turns, .cons turn all, rfl⟩, ?_, ?_, ?_⟩
      · rw [List.filterMap_append, calls, calls']
        rfl
      · exact (explained_append past events _).mpr ⟨explained, explained'⟩
      · rwa [← List.append_assoc]

end Tracks

/-- **Packets are demultiplexed.**  A packet that arrives is read as it was pushed, under the
mirrored address.  Every run of a driver comes with a history of its operations that has exactly
the calls made, in order; each call is of the connection that was attached under the address of
the message when the address was free and has not been detached since, and a message for which
nothing is called has a free address.  In the end the map has what the history says. -/
theorem packets_demultiplexed (order : ByteOrder) (ops : List (DriverOp κ)) :
    (∀ addr id data l isControl msg, 28 + l ≤ 1500 →
      Arrives (packet order addr id data l isControl).bytes msg →
      msg.parse order = some (.ofPacket addr id data l isControl)) ∧
    ∃ history, Accounts order ops history ∧
      history.filterMap Event.call = (Udp4Driver.fresh.run order ops).2 ∧
      (∀ before e after, history = before ++ e :: after → e.Justified before) ∧
      ∀ addr conn, (Udp4Driver.fresh.run order ops).1.connMap addr = some conn ↔
        Held (Event.place addr) history conn := by
  obtain ⟨history, accounts, calls, explained, tracks⟩ := tracks_fresh.run order ops
  refine ⟨fun _ _ _ _ _ _ fits arrives => parse_packet fits arrives, history, accounts, calls,
    fun before e after split => explained.justified split, fun addr conn => ?_⟩
  rw [tracks addr]
  exact holder_eq_some _

/-- A connection that is called hands its address on to another one. -/
theorem run_handover {order : ByteOrder} {msg : Received} {incoming : Incoming}
    (said : msg.parse order = some incoming) :
    let addr := incoming.addr
    (Udp4Driver.fresh.run order [.change (.attach addr 2),
      .receive msg [.attach addr 3, .detach addr, .attach addr 4], .receive msg [],
      .change (.detach addr), .receive msg []]).2 = [incoming.call 2, incoming.call 4] := by
  simp [Udp4Driver.run, Udp4Driver.step, Udp4Driver.recvOne_parse, said, MapOp.apply,
    Udp4Driver.attach, Udp4Driver.detach, Udp4Driver.fresh]

theorem packets_demultiplexed_handover :
    let addr : Addr := ⟨0x6801a8c0, 0x6801a8c0, 0x0c00, 0x0f00⟩
    let bytes := (packet .little addr 1 (fun _ => 97) 4 true).bytes
    let msg : Received := ⟨addressOf bytes, BitVec.ofNat 32 bytes.length⟩
    let incoming := Incoming.ofPacket addr 1 (fun _ => 97) 4 true
    msg.parse .little = some incoming ∧
      (Udp4Driver.fresh.run .little [.change (.attach incoming.addr 2),
        .receive msg [.attach incoming.addr 3, .detach incoming.addr, .attach incoming.addr 4],
        .receive msg [], .change (.detach incoming.addr), .receive msg []]).2 =
          [incoming.call 2, incoming.call 4] := by
  intro addr bytes msg incoming
  have arrives : Arrives bytes msg := Udp4Driver.arrives_addressOf (show 32 < 2 ^ 32 by decide)
  have said := (packets_demultiplexed (κ := Nat) .little []).1 addr 1 (fun _ => 97) 4 true msg
    (by decide) arrives
  exact ⟨said, run_handover said⟩

end Runs

end UdpStuff.Udp4
