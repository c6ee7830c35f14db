/-
# Udp4.Configured — addresses from config texts

`Addr::load` reads the two addresses and the two ports of a `Udp4Driver` from a config, and
turns the ports into network order.  What it has read when a value is missing or is not an
address stays in the object.

The addresses of a text come out as the bytes that go on the wire, on a machine of either
byte order (`load_written`).  So two drivers whose texts name the two ends the other way
round meet: what is pushed at the address of one text arrives as calls of the connection
under that of the other (`configured_drivers_meet`).
-/
import UdpStuff.Config.Numbers
import UdpStuff.Udp4.Driver

namespace UdpStuff.Udp4

open Theory ByteOrder Config

set_option autoImplicit false

/-- The characters of a name. -/
def word (s : String) : Word :=
  (s.toList.map fun c => UInt8.ofNat c.toNat).filterMap fun c =>
    if nonzero : c ≠ 0 then some ⟨c, nonzero⟩ else none

/-! ## `Addr::load` -/

/-- `get<uint32_t>` -/
def get32 (order : ByteOrder) (fuel : Nat) (v name : List UInt8) :
    Option (Except GetError (BitVec 32)) :=
  (get fuel v name).map fun
    | .error what => .error (.outOfRange what)
    | .ok str => cvtVal32 order str

/-- `get<uint16_t>` -/
def get16 (garbage : BitVec 16) (fuel : Nat) (v name : List UInt8) :
    Option (Except GetError (BitVec 16)) :=
  (get fuel v name).map fun
    | .error what => .error (.outOfRange what)
    | .ok str => .ok (cvtVal16 garbage str)

/-- `CONFIGURE`: an assignment, and what follows it, or an exception. -/
def configure {α : Type} (got : Option (Except GetError α)) (assign : α → Addr → Addr)
    (next : Addr → Option (Addr × Option GetError)) (addr : Addr) :
    Option (Addr × Option GetError) :=
  match got with
  | none => none
  | some (.error e) => some (addr, some e)
  | some (.ok value) => next (assign value addr)

/-- The object after `load`, and what was thrown; `garbage` is what is in a variable that
nothing is extracted to. -/
def Addr.load (order : ByteOrder) (garbage : Word → BitVec 16) (fuel : Nat) (v : List UInt8)
    (addr : Addr) : Option (Addr × Option GetError) :=
  configure (get32 order fuel v (word "src_ip").bytes) (fun value a => { a with srcIp := value })
    (configure (get32 order fuel v (word "dst_ip").bytes) (fun value a => { a with dstIp := value })
      (configure (get16 (garbage (word "src_port")) fuel v (word "src_port").bytes)
        (fun value a => { a with srcPort := value })
        (configure (get16 (garbage (word "dst_port")) fuel v (word "dst_port").bytes)
          (fun value a => { a with dstPort := value })
          (fun a => some ({ a with
            srcPort := order.htons a.srcPort, dstPort := order.htons a.dstPort }, none))))) addr

/-! ## Texts -/

/-- One end of a connection. -/
structure Endpoint where
  ip : UInt8 × UInt8 × UInt8 × UInt8
  port : BitVec 16

def Endpoint.octets (e : Endpoint) : List UInt8 := [e.ip.1, e.ip.2.1, e.ip.2.2.1, e.ip.2.2.2]

/-- The address of an end as a value. -/
def Endpoint.address (e : Endpoint) : Word :=
  word "ipv4:" ++ dotted e.ip.1 e.ip.2.1 e.ip.2.2.1 e.ip.2.2.2

/-- The options of an address. -/
def addrForest (here there : Endpoint) : List Opt :=
  [.single (word "src_ip") (some here.address), .single (word "dst_ip") (some there.address),
    .single (word "src_port") (some (numeral 10 here.port.toNat)),
    .single (word "dst_port") (some (numeral 10 there.port.toNat))]

/-- The address that the options say. -/
def addrOf (order : ByteOrder) (here there : Endpoint) : Addr where
  srcIp := order.load 32 here.octets
  dstIp := order.load 32 there.octets
  srcPort := order.htons here.port
  dstPort := order.htons there.port

theorem mirrored_addrOf (order : ByteOrder) (here there : Endpoint) :
    (addrOf order here there).mirrored = addrOf order there here := rfl

theorem noQuote_numeral (base n : Nat) : NoQuote (numeral base n) := by
  intro c member
  obtain ⟨d, rfl⟩ := mem_numeral member
  rw [kindOf_digitChar]
  decide

theorem noQuote_append {v w : Word} (first : NoQuote v) (second : NoQuote w) :
    NoQuote (v ++ w) := by
  intro c member
  rcases List.mem_append.mp member with before | behind
  · exact first c before
  · exact second c behind

theorem noQuote_dotted (a b c d : UInt8) : NoQuote (dotted a b c d) := by
  have behind {w : Word} (free : NoQuote w) : NoQuote (dot :: w) :=
    noQuote_append (v := [dot]) (by decide) free
  exact noQuote_append (noQuote_numeral _ _) (behind (noQuote_append (noQuote_numeral _ _)
    (behind (noQuote_append (noQuote_numeral _ _) (behind (noQuote_numeral _ _))))))

theorem noQuotes_addrForest (here there : Endpoint) : NoQuotes (addrForest here there) := by
  have single {name value : Word} (first : NoQuote name) (second : NoQuote value) :
      (Opt.single name (some value)).NoQuotes :=
    ⟨first, fun w same => Option.some.inj same ▸ second⟩
  refine ⟨single (by decide) ?_, single (by decide) ?_, single (by decide) (noQuote_numeral _ _),
    single (by decide) (noQuote_numeral _ _), trivial⟩
  · exact noQuote_append (by decide) (noQuote_dotted _ _ _ _)
  · exact noQuote_append (by decide) (noQuote_dotted _ _ _ _)

/-! ## Records that are short -/

theorem length_numeral {n : Nat} (small : n < 10 ^ 5) : (numeral 10 n).length ≤ 5 := by
  rw [numeral, List.length_map]
  split
  · decide
  · rw [List.length_reverse]
    exact (Nat.digits_length_le_iff (by decide) n).mpr small

theorem length_dotted (a b c d : UInt8) : (dotted a b c d).length ≤ 23 := by
  have octet (x : UInt8) : (numeral 10 x.toNat).length ≤ 5 :=
    length_numeral (x.toNat_lt.trans (by decide))
  have := octet a
  have := octet b
  have := octet c
  have := octet d
  simp only [dotted, List.length_append, List.length_cons]
  omega

theorem shortRecords_addrForest (here there : Endpoint) :
    ShortRecords (addrForest here there) := by
  have small {name value : Word} (names : name.length ≤ 8) (values : value.length ≤ 40) :
      (Opt.single name (some value)).encode.length < 2 ^ 32 := by
    rw [Opt.encode_eq, length_record]
    simp only [Opt.name, Opt.behindName, Word.bytes, List.length_append, List.length_cons,
      List.length_map, List.length_nil]
    omega
  have address (e : Endpoint) : e.address.length ≤ 40 := by
    have dots := length_dotted e.ip.1 e.ip.2.1 e.ip.2.2.1 e.ip.2.2.2
    have front : (word "ipv4:").length = 5 := by decide
    rw [Endpoint.address, List.length_append, front]
    omega
  have port (e : Endpoint) : (numeral 10 e.port.toNat).length ≤ 40 :=
    (length_numeral (e.port.isLt.trans (by decide))).trans (by decide)
  intro o member
  simp only [addrForest, List.mem_cons, List.not_mem_nil, or_false] at member
  rcases member with rfl | rfl | rfl | rfl
  · exact small (by decide) (address here)
  · exact small (by decide) (address there)
  · exact small (by decide) (port here)
  · exact small (by decide) (port there)

/-! ## Loading -/

theorem cvtVal32_address (order : ByteOrder) (e : Endpoint) :
    cvtVal32 order e.address.bytes = .ok (order.load 32 e.octets) := by
  have front : (word "ipv4:").bytes = [105, 112, 118, 52, 58] := by decide
  have bytes : e.address.bytes =
      105 :: 112 :: 118 :: 52 :: 58 :: (dotted e.ip.1 e.ip.2.1 e.ip.2.2.1 e.ip.2.2.2).bytes := by
    rw [Endpoint.address, Word.bytes, List.map_append]
    exact congrArg (· ++ _) front
  rw [cvtVal32, bytes, if_neg (by simp), if_pos (by simp)]
  show str2ipv4 order (dotted _ _ _ _).bytes = _
  rw [str2ipv4, inetPton_dotted]
  rfl

theorem cvtVal16_port (garbage : BitVec 16) (e : Endpoint) :
    cvtVal16 garbage (numeral 10 e.port.toNat).bytes = e.port := by
  rw [cvtVal16, extract_numeral e.port.isLt, Option.getD_some, BitVec.ofNat_toNat,
    BitVec.setWidth_eq]

/-- A name whose first value in the forest is not empty. -/
theorem get_of_looksUp {forest : List Opt} {v : List UInt8} (looks : LooksUp forest v)
    {name value : Word} (first : firstValue forest name = some value) :
    ∃ bound, ∀ fuel, bound ≤ fuel → get fuel v name.bytes = some (.ok value.bytes) := by
  obtain ⟨bound, all⟩ := looks name
  refine ⟨bound, fun fuel enough => ?_⟩
  have found := all fuel enough
  rw [first] at found
  exact found.1

theorem nonEmpty_of_ne_nil {w : Word} (some' : w ≠ []) : nonEmpty (some w) = some w := by
  cases w with
  | nil => exact absurd rfl some'
  | cons c rest => rfl

/-- **The addresses of a text are loaded as they are written**, whatever the object held. -/
theorem load_written (order : ByteOrder) {bare : Word → Bool} (style : Style bare)
    (here there : Endpoint) :
    parseConfig (write bare (addrForest here there)) = some (.ok (encode (addrForest here there))) ∧
      ∃ bound, ∀ fuel, bound ≤ fuel → ∀ garbage addr,
        Addr.load order garbage fuel (encode (addrForest here there)) addr =
          some (addrOf order here there, none) := by
  obtain ⟨parsed, looks⟩ := write_parse style (noQuotes_addrForest here there)
  have looks := looks (shortRecords_addrForest here there)
  have address (e : Endpoint) : e.address ≠ [] := List.append_ne_nil_of_left_ne_nil (by decide) _
  have first : firstValue (addrForest here there) (word "src_ip") = some here.address :=
    nonEmpty_of_ne_nil (address here)
  have second : firstValue (addrForest here there) (word "dst_ip") = some there.address :=
    nonEmpty_of_ne_nil (address there)
  have third : firstValue (addrForest here there) (word "src_port") =
      some (numeral 10 here.port.toNat) := nonEmpty_of_ne_nil (numeral_ne_nil _ _)
  have fourth : firstValue (addrForest here there) (word "dst_port") =
      some (numeral 10 there.port.toNat) := nonEmpty_of_ne_nil (numeral_ne_nil _ _)
  obtain ⟨b₁, srcIp⟩ := get_of_looksUp looks first
  obtain ⟨b₂, dstIp⟩ := get_of_looksUp looks second
  obtain ⟨b₃, srcPort⟩ := get_of_looksUp looks third
  obtain ⟨b₄, dstPort⟩ := get_of_looksUp looks fourth
  refine ⟨parsed, max (max b₁ b₂) (max b₃ b₄), fun fuel enough garbage addr => ?_⟩
  rw [Addr.load, get32, srcIp fuel (by omega), get32, dstIp fuel (by omega), get16,
    srcPort fuel (by omega), get16, dstPort fuel (by omega)]
  simp only [Option.map_some, cvtVal32_address, cvtVal16_port, configure]
  rfl

/-! ## Two drivers -/

/-- What is pushed at an address. -/
structure Pushed where
  id : PacketId
  data : Mem
  l : Nat
  isControl : Bool

/-- The bytes of a packet that is pushed. -/
def Pushed.bytes (order : ByteOrder) (addr : Addr) (p : Pushed) : List UInt8 :=
  (packet order addr p.id p.data p.l p.isControl).bytes

theorem addresses_on_wire (order : ByteOrder) (here there : Endpoint) (p : Pushed) :
    ((p.bytes order (addrOf order here there)).drop 12).take 12 =
      here.octets ++ there.octets ++ store .big here.port ++ store .big there.port := by
  have port (e : Endpoint) : order.store (order.htons e.port) = store .big e.port :=
    store_load rfl order (length_store .big e.port)
  have ip (e : Endpoint) : order.store (order.load 32 e.octets) = e.octets :=
    store_load rfl order rfl
  have headers : ((p.bytes order (addrOf order here there)).drop 12).take 12 =
      order.store (addrOf order here there).srcIp ++ order.store (addrOf order here there).dstIp ++
        order.store (addrOf order here there).srcPort ++
          order.store (addrOf order here there).dstPort := by
    cases order <;> rfl
  rw [headers, addrOf, ip, ip, port, port]

/-- Packets that arrive one after the other make one call each. -/
theorem recvAll_packets {κ : Type} (order : ByteOrder) {react : Call κ → Udp4Driver κ → Udp4Driver κ}
    {addr : Addr} (keeps : ∀ call d, (react call d).connMap addr.mirrored = d.connMap addr.mirrored)
    {conn : κ} {sent : List Pushed} {msgs : List Received} (fit : ∀ p ∈ sent, 28 + p.l ≤ 1500)
    (arrive : List.Forall₂ (fun p msg => Arrives (p.bytes order addr) msg) sent msgs)
    {driver : Udp4Driver κ} (attached : driver.connMap addr.mirrored = some conn) :
    (driver.recvAll order react msgs).2 =
      sent.map fun p => Udp4Driver.expectedCall p.id p.data p.l p.isControl conn := by
  induction arrive generalizing driver with
  | nil => rfl
  | @cons p msg sent msgs arrives _ ih =>
      have one := Udp4Driver.recvOne_packet order react (fit p List.mem_cons_self) driver arrives
      rw [attached] at one
      dsimp only at one
      rw [Udp4Driver.recvAll, one, List.map_cons]
      exact congrArg (List.cons _) (ih (fun p member => fit p (List.mem_cons_of_mem _ member))
        ((keeps _ _).trans attached))

/-- **Two drivers meet** whose texts name the same two ends the other way round.  Both texts are
parsed, and their addresses loaded; what is pushed at the one has the addresses and ports of the
texts in its headers, in network order, and the packets that arrive are calls of the connection
that is attached under the other, of their kind and with their numbers and payloads, one each. -/
theorem configured_drivers_meet (order : ByteOrder) {bare : Word → Bool} (style : Style bare)
    (here there : Endpoint) :
    ∃ v₁ v₂ bound, parseConfig (write bare (addrForest here there)) = some (.ok v₁) ∧
      parseConfig (write bare (addrForest there here)) = some (.ok v₂) ∧
      ∀ fuel, bound ≤ fuel → ∀ garbage start, ∃ a₁ a₂,
        Addr.load order garbage fuel v₁ start = some (a₁, none) ∧
        Addr.load order garbage fuel v₂ start = some (a₂, none) ∧
        (∀ p : Pushed, ((p.bytes order a₁).drop 12).take 12 =
          here.octets ++ there.octets ++ store .big here.port ++ store .big there.port) ∧
        ∀ (κ : Type) (receiver : Udp4Driver κ) (conn : κ)
          (react : Call κ → Udp4Driver κ → Udp4Driver κ), receiver.connMap a₂ = none →
          (∀ call d, (react call d).connMap a₂ = d.connMap a₂) →
          ∀ (sent : List Pushed) (msgs : List Received), (∀ p ∈ sent, 28 + p.l ≤ 1500) →
            List.Forall₂ (fun p msg => Arrives (p.bytes order a₁) msg) sent msgs →
            ((receiver.attach a₂ conn).recvAll order react msgs).2 =
              sent.map fun p => Udp4Driver.expectedCall p.id p.data p.l p.isControl conn := by
  obtain ⟨parsed₁, b₁, loads₁⟩ := load_written order style here there
  obtain ⟨parsed₂, b₂, loads₂⟩ := load_written order style there here
  refine ⟨_, _, max b₁ b₂, parsed₁, parsed₂, fun fuel enough garbage start => ?_⟩
  refine ⟨_, _, loads₁ fuel (by omega) garbage start, loads₂ fuel (by omega) garbage start,
    addresses_on_wire order here there, ?_⟩
  intro κ receiver conn react free keeps sent msgs fit arrive
  have attached : (receiver.attach (addrOf order there here) conn).connMap
      (addrOf order here there).mirrored = some conn := by
    rw [mirrored_addrOf, Udp4Driver.attach]
    dsimp only
    rw [if_pos rfl, free]
    rfl
  exact recvAll_packets order keeps fit arrive attached

/-- A control packet between ports 12 and 15 of one machine. -/
theorem configured_drivers_meet_control :
    let bare : Word → Bool := fun w => decide (Plain w)
    let here : Endpoint := ⟨(192, 168, 1, 104), 12⟩
    let there : Endpoint := ⟨(192, 168, 1, 104), 15⟩
    let p : Pushed := ⟨1, fun _ => 97, 4, true⟩
    ∃ v₁ v₂ bound, parseConfig (write bare (addrForest here there)) = some (.ok v₁) ∧
      parseConfig (write bare (addrForest there here)) = some (.ok v₂) ∧
      ∀ fuel, bound ≤ fuel → ∃ a₁ a₂,
        Addr.load .little (fun _ => 0) fuel v₁ ⟨0, 0, 0, 0⟩ = some (a₁, none) ∧
        Addr.load .little (fun _ => 0) fuel v₂ ⟨0, 0, 0, 0⟩ = some (a₂, none) ∧
        (((⟨fun _ => none, {}⟩ : Udp4Driver Nat).attach a₂ 2).recvAll .little (fun _ d => d)
          [⟨addressOf (p.bytes .little a₁), 32⟩]).2 =
            [⟨2, .processControl, 1, [97, 97, 97, 97], 4⟩] := by
  intro bare here there p
  have plain (w : Word) (here : bare w = true) : Plain w := of_decide_eq_true here
  obtain ⟨v₁, v₂, bound, parsed₁, parsed₂, loads⟩ := configured_drivers_meet .little plain here
    there
  refine ⟨v₁, v₂, bound, parsed₁, parsed₂, fun fuel enough => ?_⟩
  obtain ⟨a₁, a₂, loaded₁, loaded₂, -, meet⟩ := loads fuel enough (fun _ => 0) ⟨0, 0, 0, 0⟩
  refine ⟨a₁, a₂, loaded₁, loaded₂, ?_⟩
  have arrives : Arrives (p.bytes .little a₁) ⟨addressOf (p.bytes .little a₁), 32⟩ :=
    Udp4Driver.arrives_addressOf (show 32 < 2 ^ 32 by decide)
  exact meet Nat ⟨fun _ => none, {}⟩ 2 (fun _ d => d) rfl (fun _ _ => rfl) [p] _
    (fun q member => List.mem_singleton.mp member ▸ by decide) (.cons arrives .nil)

end UdpStuff.Udp4
