/-
# Udp4.Checksum — the checksum of a packet that is sent

`ChecksumCalculator` adds the words of six pieces up and folds the carries in at the
end; the rule it follows wants the one's complement sum of one header after the other
with the payload behind them, in the words of the network.  `Sums` is what one `add`
keeps and the next one takes on.

The loop of `add` reads a word before it compares, so two bytes of a payload that has
none or one.  `udp_checksum_iff`: the field is right and nothing outside of the payload
is read exactly from two bytes on.
-/
import UdpStuff.Theory.OnesComplement
import UdpStuff.Udp4.Driver

namespace UdpStuff.Udp4

open Theory ByteOrder

set_option autoImplicit false

namespace ChecksumCalculator

/-! ## The bytes that are read -/

/-- The bytes of its data that `add` reads. -/
def reads (l : Nat) : List Nat :=
  let words := max 1 (l / 2)
  List.range (2 * words) ++ if l % 2 = 1 then [2 * words] else []

theorem word_mem_reads {l i : Nat} (word : i < max 1 (l / 2)) :
    2 * i ∈ reads l ∧ 2 * i + 1 ∈ reads l := by
  constructor <;> exact List.mem_append_left _ (List.mem_range.mpr (by omega))

/-- No other byte matters to the sum. -/
theorem add_congr {order : ByteOrder} {sum : BitVec 32} {data data' : Mem} {l : Nat}
    (same : ∀ i ∈ reads l, data i = data' i) : add order sum data l = add order sum data' l := by
  have word : ∀ i ∈ List.range (max 1 (l / 2)), block data (2 * i) 2 = block data' (2 * i) 2 := by
    intro i member
    obtain ⟨first, second⟩ := word_mem_reads (List.mem_range.mp member)
    show [data (2 * i), data (2 * i + 1)] = [data' (2 * i), data' (2 * i + 1)]
    rw [same _ first, same _ second]
  have loop : (List.range (max 1 (l / 2))).foldl
        (fun sum i => sum + (order.load 16 (block data (2 * i) 2)).setWidth 32) sum =
      (List.range (max 1 (l / 2))).foldl
        (fun sum i => sum + (order.load 16 (block data' (2 * i) 2)).setWidth 32) sum :=
    List.foldl_ext _ _ _ fun sum i here => by rw [word i here]
  simp only [add]
  rw [loop]
  split
  case isTrue odd =>
    have last : 2 * max 1 (l / 2) ∈ reads l := by
      simp [reads, odd]
    have byte : block data (2 * max 1 (l / 2)) 1 = block data' (2 * max 1 (l / 2)) 1 := by
      show [data (2 * max 1 (l / 2))] = [data' (2 * max 1 (l / 2))]
      rw [same _ last]
    rw [byte]
  case isFalse => rfl

/-- What is read is inside of the data exactly if there is a whole word. -/
theorem reads_inside_iff {l : Nat} : (∀ i ∈ reads l, i < l) ↔ 2 ≤ l := by
  constructor
  · intro inside
    have := inside _ (word_mem_reads (i := 0) (by omega)).2
    omega
  · intro two i member
    rcases List.mem_append.mp member with word | last
    · have := List.mem_range.mp word
      omega
    · split at last
      case isTrue odd =>
        have := List.mem_singleton.mp last
        omega
      case isFalse => exact absurd last List.not_mem_nil

/-- Of a shorter payload the sum is that of bytes behind it. -/
theorem add_outside (order : ByteOrder) (sum : BitVec 32) {l : Nat} (short : l < 2) :
    ∃ data data' : Mem, (∀ i < l, data i = data' i) ∧
      add order sum data l ≠ add order sum data' l := by
  refine ⟨fun _ => 0, fun i => if i = 1 then 1 else 0, ?_, ?_⟩
  · intro i inside
    have first : i ≠ 1 := by omega
    exact (if_neg first).symm
  · -- the word differs in its second byte, and the odd byte is the third
    have word : sum + (order.load 16 [0, 0]).setWidth 32 ≠
        sum + (order.load 16 [0, 1]).setWidth 32 := by
      intro same
      have words := (BitVec.add_right_inj sum).mp same
      cases order <;> exact absurd words (by decide)
    have lengths : l = 0 ∨ l = 1 := by omega
    rcases lengths with rfl | rfl
    · exact word
    · intro same
      exact word ((BitVec.add_left_inj _).mp same)

/-! ## The sum -/

/-- `sum` has taken in the words of some bytes. -/
def Sums (sum : BitVec 32) (bytes : List UInt8) : Prop :=
  sum.toNat = (words .little bytes).sum % 2 ^ 32

theorem toNat_foldl_add {α : Type} {w : Nat} (f : α → BitVec w) (xs : List α) (s : BitVec w) :
    (xs.foldl (fun s x => s + f x) s).toNat =
      (s.toNat + (xs.map fun x => (f x).toNat).sum) % 2 ^ w := by
  induction xs generalizing s with
  | nil => exact (Nat.mod_eq_of_lt s.isLt).symm
  | cons x xs ih =>
      rw [List.foldl_cons, ih, List.map_cons, List.sum_cons, BitVec.toNat_add, Nat.mod_add_mod,
        Nat.add_assoc]

/-- What one `add` adds. -/
theorem toNat_add_little (sum : BitVec 32) (data : Mem) {l : Nat} (two : 2 ≤ l) :
    (add .little sum data l).toNat =
      (sum.toNat + (words .little (block data 0 l)).sum) % 2 ^ 32 := by
  have whole : max 1 (l / 2) = l / 2 := by omega
  have loop := toNat_foldl_add
    (fun i => (load .little 16 (block data (2 * i) 2)).setWidth 32) (List.range (l / 2)) sum
  have widen : ∀ v : BitVec 16, (v.setWidth 32).toNat = v.toNat := fun v => by
    rw [BitVec.toNat_setWidth, Nat.mod_eq_of_lt (by have := v.isLt; omega)]
  simp only [widen, ← words_block] at loop
  unfold add
  rw [whole]
  split
  case isTrue odd =>
    have last : words .little (block data (0 + 2 * (l / 2)) 1) = [(data (2 * (l / 2))).toNat] := by
      rw [Nat.zero_add]
      rfl
    have byte : ((load .little 8 (block data (2 * (l / 2)) 1)).setWidth 32).toNat =
        (data (2 * (l / 2))).toNat := by
      have fits := (data (2 * (l / 2))).toNat_lt
      rw [BitVec.toNat_setWidth]
      show ((data (2 * (l / 2))).toNat + 256 * 0) % 2 ^ 8 % 2 ^ 32 = _
      omega
    have even : (block data 0 (2 * (l / 2))).length % 2 = 0 := by
      rw [length_block]
      omega
    have bytes : block data 0 l = block data 0 (2 * (l / 2)) ++ block data (0 + 2 * (l / 2)) 1 := by
      rw [← block_append]
      congr 1
      omega
    rw [BitVec.toNat_add, loop, bytes, words_append .little even, last, List.sum_append,
      List.sum_singleton, Nat.mod_add_mod, byte, Nat.add_assoc]
  case isFalse even =>
    have bytes : 2 * (l / 2) = l := by omega
    rw [loop, bytes]

theorem Sums.add {sum : BitVec 32} {bytes : List UInt8} (sums : Sums sum bytes)
    (even : bytes.length % 2 = 0) (data : Mem) {l : Nat} (two : 2 ≤ l) :
    Sums (add .little sum data l) (bytes ++ block data 0 l) := by
  rw [Sums, toNat_add_little sum data two, sums, words_append .little even, List.sum_append,
    Nat.mod_add_mod]

theorem block_addressOf {bytes : List UInt8} {n : Nat} (length : bytes.length = n) :
    block (addressOf bytes) 0 n = bytes := by
  rw [← length]
  refine block_eq fun i inside => ?_
  simp [addressOf, inside]

/-- A variable of `send_packet` is taken in. -/
theorem Sums.piece {sum : BitVec 32} {bytes : List UInt8} (sums : Sums sum bytes)
    (even : bytes.length % 2 = 0) {piece : List UInt8} {n : Nat} (length : piece.length = n)
    (two : 2 ≤ n) :
    Sums (ChecksumCalculator.add .little sum (addressOf piece) n) (bytes ++ piece) := by
  have := sums.add even (addressOf piece) two
  rwa [block_addressOf length] at this

/-- The complement of what the words that were added come to. -/
theorem finish_spec (sum : BitVec 32) :
    ∃ r, IsSum 65535 sum.toNat r ∧ (finish sum).toNat = 65535 - r := by
  induction sum using finish.induct with
  | case1 sum long ih =>
      obtain ⟨r, isSum, complement⟩ := ih
      refine ⟨r, ?_, ?_⟩
      · rw [toNat_fold] at isSum
        exact isSum.of_fold
      · rw [finish, if_pos long]
        exact complement
  | case2 sum short =>
      have fits : sum.toNat ≤ 65535 := Nat.not_lt.mp short
      refine ⟨sum.toNat, .self fits, ?_⟩
      rw [finish, if_neg short, BitVec.toNat_not, BitVec.toNat_setWidth,
        Nat.mod_eq_of_lt (by omega)]

end ChecksumCalculator

/-! ## The packet -/

/-- The checksum of a UDP packet: the complement of the one's complement sum over the pseudo
header, the UDP header with a zero check field and the payload.  What an address holds are
the bytes of the network. -/
def checksumRule (addr : Addr) (payload : List UInt8) : Nat :=
  let len : BitVec 16 := BitVec.ofNat 16 (8 + payload.length)
  let pseudoHeader :=
    store .little addr.srcIp ++ store .little addr.dstIp ++ [0, 17] ++ store .big len
  let header := store .little addr.srcPort ++ store .little addr.dstPort ++ store .big len ++ [0, 0]
  65535 - onesSum 65535 (words .big (pseudoHeader ++ header ++ payload))

section Field

variable (addr : Addr) (id : PacketId) (isControl : Bool) (data : Mem) (l : Nat)

/-- The bytes that the sum is made of. -/
def summed : List UInt8 :=
  let udph := udpHeader .little addr l
  let tmpProto := htons .little (IPPROTO_UDP.setWidth 16)
  store .little addr.srcIp ++ store .little addr.dstIp ++ store .little tmpProto ++
    store .little udph.len ++ udph.toBytes .little ++ block data 0 l

theorem length_summed : (summed addr data l).length = 20 + l := by
  simp [summed, Udphdr.toBytes]
  omega

/-- They are those of the rule. -/
theorem checksumRule_eq : checksumRule addr (block data 0 l) =
    65535 - onesSum 65535 (words .big (summed addr data l)) := by
  have len : store .little (htons .little (BitVec.ofNat 16 (8 + l))) =
      store .big (BitVec.ofNat 16 (8 + l)) := store_load rfl .little (length_store .big _)
  have proto : store .little (htons .little (IPPROTO_UDP.setWidth 16)) = [0, 17] := by decide
  have check : store .little (0 : BitVec 16) = [0, 0] := by decide
  simp only [checksumRule, summed, udpHeader, Udphdr.toBytes, length_block, len, proto, check,
    List.append_assoc]

variable {l}

/-- The pieces of `send_packet`, one after the other. -/
theorem sums_summed (two : 2 ≤ l) : ∃ sum : BitVec 32,
    ChecksumCalculator.Sums sum (summed addr data l) ∧
      udpChecksum .little (ipHeader .little addr id isControl) (udpHeader .little addr l) data l =
        ChecksumCalculator.finish sum := by
  have start : ChecksumCalculator.Sums 0 [] := rfl
  have saddr := start.piece rfl (length_store .little addr.srcIp) (by decide)
  have daddr := saddr.piece (by simp) (length_store .little addr.dstIp) (by decide)
  have proto := daddr.piece (by simp)
    (length_store .little (htons .little (IPPROTO_UDP.setWidth 16))) (by decide)
  have len := proto.piece (by simp) (length_store .little (udpHeader .little addr l).len)
    (by decide)
  have header : ((udpHeader .little addr l).toBytes .little).length = 8 := by
    simp [Udphdr.toBytes]
  have udph := len.piece (by simp) header (by decide)
  have payload := udph.add (by simp [header]) data two
  exact ⟨_, payload, rfl⟩

/-- From two bytes on the sum is that of the rule, before the network turns it round. -/
theorem htons_udpChecksum (two : 2 ≤ l) (fits : 8 + l ≤ 65535) :
    (htons .little (udpChecksum .little (ipHeader .little addr id isControl)
      (udpHeader .little addr l) data l)).toNat = checksumRule addr (block data 0 l) := by
  obtain ⟨sum, sums, checksum⟩ := sums_summed addr id isControl data two
  obtain ⟨r, isSum, complement⟩ := ChecksumCalculator.finish_spec sum
  have small : (words .little (summed addr data l)).sum < 2 ^ 32 := by
    have le := sum_le (@words_le .little (summed addr data l))
    rw [length_words, length_summed] at le
    omega
  rw [sums, Nat.mod_eq_of_lt small] at isSum
  have le := isSum.le
  rw [checksum, toNat_htons_little, complement, checksumRule_eq, onesSum_words_big isSum]
  omega

end Field

/-! ## What is sent -/

/-- The field of the packet that is pushed is the checksum, and of the data only the
payload was read. -/
def ChecksumRight {κ : Type} (driver : Udp4Driver κ) (addr : Addr) (id : PacketId) (data : Mem)
    (l : Nat) (isControl : Bool) : Prop :=
  let sent := (driver.sendPacket .little addr id data l isControl).sendQueue.packetBuffers.drop
    driver.sendQueue.packetBuffers.length
  let check : BitVec 16 := load .big 16 ((sent.drop 26).take 2)
  check.toNat = checksumRule addr (block data 0 l) ∧ ∀ i ∈ ChecksumCalculator.reads l, i < l

/-- **The checksum is right exactly for payloads of two bytes or more.** -/
theorem udp_checksum_iff {κ : Type} (driver : Udp4Driver κ) (addr : Addr) (id : PacketId)
    (data : Mem) (l : Nat) (isControl : Bool) (fits : 8 + l ≤ 65535) :
    ChecksumRight driver addr id data l isControl ↔ 2 ≤ l := by
  constructor
  · intro right
    exact ChecksumCalculator.reads_inside_iff.mp right.2
  · intro two
    refine ⟨?_, ChecksumCalculator.reads_inside_iff.mpr two⟩
    rw [packetBuffers_sendPacket, List.drop_left]
    exact htons_udpChecksum addr id isControl data two fits

/-- The four letters of a greeting, to the port 15 of the own machine. -/
theorem udp_checksum_greeting :
    ChecksumRight (⟨fun _ => none, {}⟩ : Udp4Driver Nat) ⟨0x0100007f, 0x0100007f, 0x0c00, 0x0f00⟩ 1
      (fun i => [0x70, 0x69, 0x6e, 0x67].getD i 0) 4 false :=
  (udp_checksum_iff _ _ _ _ 4 _ (by decide)).mpr (by decide)

/-- An acknowledgement without a payload: two bytes that are not its own are summed. -/
theorem udp_checksum_refuted :
    ¬ ∀ (driver : Udp4Driver Nat) (addr : Addr) (id : PacketId) (data : Mem) (l : Nat)
      (isControl : Bool), 8 + l ≤ 65535 → ChecksumRight driver addr id data l isControl := by
  intro all
  have right := all ⟨fun _ => none, {}⟩ ⟨0x0100007f, 0x0100007f, 0x0c00, 0x0f00⟩ 1
    (fun _ => 97) 0 true (by decide)
  exact absurd (right.2 1 (by decide)) (by decide)

end UdpStuff.Udp4
