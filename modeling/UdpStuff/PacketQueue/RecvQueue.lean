/-
# PacketQueue.RecvQueue — received packets by sequence number

`PacketRecvQueue` of `packet_queue.h`: packets stored under 16-bit sequence
numbers, a table that redirects one number to another, and the loops that read a
range of numbers back.  A `std::map` is an extensional tree map; `emplace` keeps
the entry that is already there.

`resolve_seq` follows the redirections until a number has none, so it need not
end: the reading functions return `none` exactly when they do not return.  A
chain of redirections visits each of the 65536 numbers at most once before it
repeats, which is the bound `resolveSeq` uses.

* `lookup_pushPacket`: what a range loop finds under a number after a push;
* `findMissingPackets_present`, `computeRangeSize_present`, `copyData_present`:
  the three loops over a range whose packets are all there.
-/
import UdpStuff.Theory.Memory
import UdpStuff.Theory.OrderedMap
import UdpStuff.Theory.WrapRange

namespace UdpStuff.PacketQueue

open Theory
open Std (ExtTreeMap)

set_option autoImplicit false

abbrev Seq := BitVec 16

instance transOrd_seq : Std.TransOrd Seq := inferInstanceAs (Std.TransOrd (BitVec 16))

/-- A packet's payload: `size` bytes at `data`, or `NULL` when `size` is 0. -/
structure PacketDescr where
  data : List UInt8
  size_lt : data.length < 2 ^ 32
deriving DecidableEq

namespace PacketDescr

def size (p : PacketDescr) : BitVec 32 := BitVec.ofNat 32 p.data.length

def isData (p : PacketDescr) : Bool := p.size &&& 1 == 0

theorem length_nil_lt : ([] : List UInt8).length < 2 ^ 32 := by decide

/-- What the move constructor leaves in the moved-from object. -/
def movedFrom : PacketDescr := ⟨[], length_nil_lt⟩

@[simp] theorem size_toNat (p : PacketDescr) : p.size.toNat = p.data.length := by
  rw [size, BitVec.toNat_ofNat, Nat.mod_eq_of_lt p.size_lt]

theorem isData_iff (p : PacketDescr) : p.isData = true ↔ p.data.length % 2 = 0 := by
  rw [isData, beq_iff_eq, ← BitVec.toNat_inj, BitVec.toNat_and, size_toNat]
  exact iff_of_eq (congrArg (· = 0) (Nat.and_one_is_mod _))

end PacketDescr

/-- `for (auto &p : packets) size += p.second.size;` -/
def packetsSize (packets : ExtTreeMap Seq PacketDescr) : BitVec 32 :=
  packets.foldl (fun size _ p => size + p.size) 0

/-- The same sum over the packets that carry data. -/
def dataPacketsSize (packets : ExtTreeMap Seq PacketDescr) : BitVec 32 :=
  packets.foldl (fun size _ p => if p.isData then size + p.size else size) 0

structure PacketRecvQueue where
  startSeq : Seq := 1
  endSeq : Seq := 0
  packets : ExtTreeMap Seq PacketDescr := ∅
  seqMapping : ExtTreeMap Seq Seq := ∅

/-- What `copy_data` leaves behind: the destination, the final offset, and the
message of the exception when it throws. -/
structure CopyResult where
  mem : Mem
  offset : BitVec 32
  error : Option String

namespace PacketRecvQueue

def packetsCount (q : PacketRecvQueue) : Nat := q.packets.size

/-- The chain of redirections from `seq`, followed for at most `fuel` lookups. -/
def resolveFrom (q : PacketRecvQueue) : Nat → Seq → Option Seq
  | 0, _ => none
  | fuel + 1, seq =>
      match q.seqMapping[seq]? with
      | some next => resolveFrom q fuel next
      | none => some seq

def resolveSeq (q : PacketRecvQueue) (seq : Seq) : Option Seq := q.resolveFrom (2 ^ 16 + 1) seq

/-- One turn of the `clear_range` loop. -/
def clearAt (q : PacketRecvQueue) (i : Seq) : PacketRecvQueue :=
  { q with packets := q.packets.erase i, seqMapping := q.seqMapping.erase i }

def clearRange (q : PacketRecvQueue) (start stop : Seq) : PacketRecvQueue :=
  (wrapRange start stop).foldl clearAt q

def moveSeq (q : PacketRecvQueue) (newSeq : Seq) : PacketRecvQueue :=
  { q.clearRange q.startSeq newSeq with startSeq := newSeq }

def computeRangeSizeLoop (q : PacketRecvQueue) : List Seq → BitVec 32 → Option (BitVec 32)
  | [], size => some size
  | i :: rest, size =>
      match q.resolveSeq i with
      | none => none
      | some seq =>
          match q.packets[seq]? with
          | some p => computeRangeSizeLoop q rest (if p.isData then size + p.size else size)
          | none => some (-1)

def computeRangeSize (q : PacketRecvQueue) (start stop : Seq) : Option (BitVec 32) :=
  q.computeRangeSizeLoop (wrapRange start stop) 0

def findMissingPacketsLoop (q : PacketRecvQueue) : List Seq → List Seq → Option (List Seq)
  | [], missing => some missing
  | i :: rest, missing =>
      match q.resolveSeq i with
      | none => none
      | some seq =>
          match q.packets[seq]? with
          | some _ => findMissingPacketsLoop q rest missing
          | none => findMissingPacketsLoop q rest (missing ++ [i])

def findMissingPackets (q : PacketRecvQueue) (start stop : Seq) (missing : List Seq) :
    Option (List Seq) :=
  q.findMissingPacketsLoop (wrapRange start stop) missing

def pushPacket (q : PacketRecvQueue) (seq : Seq) (packet : PacketDescr) : PacketRecvQueue :=
  { q with packets := q.packets.insertIfNew seq packet }

def copyDataLoop (q : PacketRecvQueue) : List Seq → Mem → BitVec 32 → Option CopyResult
  | [], mem, offset => some ⟨mem, offset, none⟩
  | i :: rest, mem, offset =>
      match q.resolveSeq i with
      | none => none
      | some seq =>
          match q.packets[seq]? with
          | some p =>
              if p.isData then
                copyDataLoop q rest (memcpy mem offset.toNat p.data) (offset + p.size)
              else copyDataLoop q rest mem offset
          | none => some ⟨mem, offset, some "Packet not found"⟩

def copyData (q : PacketRecvQueue) (mem : Mem) (start stop : Seq) : Option CopyResult :=
  q.copyDataLoop (wrapRange start stop) mem 0

/-! ## What the range loops look up -/

/-- The packet the range loops use for number `i`: `none` when resolving `i` does
not end, `some none` when its packet is absent. -/
def lookup (q : PacketRecvQueue) (i : Seq) : Option (Option PacketDescr) :=
  (q.resolveSeq i).map fun seq => q.packets[seq]?

theorem resolveSeq_of_unmapped {q : PacketRecvQueue} {seq : Seq}
    (unmapped : q.seqMapping[seq]? = none) : q.resolveSeq seq = some seq := by
  simp [resolveSeq, resolveFrom, unmapped]

theorem lookup_of_unmapped {q : PacketRecvQueue} {i : Seq}
    (unmapped : q.seqMapping[i]? = none) : q.lookup i = some q.packets[i]? := by
  simp [lookup, resolveSeq_of_unmapped unmapped]

theorem lookup_eq_some {q : PacketRecvQueue} {i : Seq} {found : Option PacketDescr}
    (looked : q.lookup i = some found) :
    ∃ seq, q.resolveSeq i = some seq ∧ q.packets[seq]? = found := by
  simpa [lookup] using looked

@[simp] theorem pushPacket_seqMapping (q : PacketRecvQueue) (seq : Seq) (p : PacketDescr) :
    (q.pushPacket seq p).seqMapping = q.seqMapping := rfl

@[simp] theorem pushPacket_startSeq (q : PacketRecvQueue) (seq : Seq) (p : PacketDescr) :
    (q.pushPacket seq p).startSeq = q.startSeq := rfl

theorem pushPacket_packets (q : PacketRecvQueue) (seq i : Seq) (p : PacketDescr) :
    (q.pushPacket seq p).packets[i]? =
      if i = seq then some (q.packets[seq]?.getD p) else q.packets[i]? :=
  OrderedMap.getElem?_emplace q.packets seq i p

/-! ## Ranges whose packets are all present -/

theorem findMissingPacketsLoop_present {q : PacketRecvQueue} {range : List Seq}
    (present : ∀ i ∈ range, ∃ p, q.lookup i = some (some p)) (missing : List Seq) :
    q.findMissingPacketsLoop range missing = some missing := by
  induction range with
  | nil => rfl
  | cons i rest ih =>
      obtain ⟨p, looked⟩ := present i (by simp)
      obtain ⟨seq, resolved, stored⟩ := lookup_eq_some looked
      simp only [findMissingPacketsLoop, resolved, stored]
      exact ih fun j hj => present j (by simp [hj])

/-- The bytes of the data packets of a list, in order. -/
def dataBytes (ps : List PacketDescr) : List UInt8 :=
  (ps.filter PacketDescr.isData).flatMap PacketDescr.data

theorem dataBytes_cons (p : PacketDescr) (ps : List PacketDescr) :
    dataBytes (p :: ps) = (if p.isData then p.data else []) ++ dataBytes ps := by
  by_cases h : p.isData <;> simp [dataBytes, h]

/-- The loops use for `i` the packet `lookup` finds. -/
theorem computeRangeSizeLoop_cons {q : PacketRecvQueue} {i : Seq} {p : PacketDescr}
    (looked : q.lookup i = some (some p)) (rest : List Seq) (size : BitVec 32) :
    q.computeRangeSizeLoop (i :: rest) size =
      q.computeRangeSizeLoop rest (if p.isData then size + p.size else size) := by
  obtain ⟨seq, resolved, stored⟩ := lookup_eq_some looked
  simp only [computeRangeSizeLoop, resolved, stored]

theorem copyDataLoop_cons {q : PacketRecvQueue} {i : Seq} {p : PacketDescr}
    (looked : q.lookup i = some (some p)) (rest : List Seq) (mem : Mem) (offset : BitVec 32) :
    q.copyDataLoop (i :: rest) mem offset =
      if p.isData then q.copyDataLoop rest (memcpy mem offset.toNat p.data) (offset + p.size)
      else q.copyDataLoop rest mem offset := by
  obtain ⟨seq, resolved, stored⟩ := lookup_eq_some looked
  simp only [copyDataLoop, resolved, stored]

theorem computeRangeSizeLoop_present {q : PacketRecvQueue} {range : List Seq}
    {ps : List PacketDescr}
    (present : List.Forall₂ (fun i p => q.lookup i = some (some p)) range ps) (size : BitVec 32) :
    q.computeRangeSizeLoop range size = some (size + BitVec.ofNat 32 (dataBytes ps).length) := by
  induction present generalizing size with
  | nil => simp [computeRangeSizeLoop, dataBytes]
  | @cons i p rest ps looked _ ih =>
      rw [computeRangeSizeLoop_cons looked, ih, dataBytes_cons]
      split
      · rw [List.length_append, BitVec.ofNat_add, ← BitVec.add_assoc]
        rfl
      · simp

/-- Copying a range whose data fits 32 bits writes that data in one block. -/
theorem copyDataLoop_present {q : PacketRecvQueue} {range : List Seq} {ps : List PacketDescr}
    (present : List.Forall₂ (fun i p => q.lookup i = some (some p)) range ps)
    (mem : Mem) (offset : BitVec 32) (fits : offset.toNat + (dataBytes ps).length < 2 ^ 32) :
    q.copyDataLoop range mem offset =
      some ⟨memcpy mem offset.toNat (dataBytes ps),
        offset + BitVec.ofNat 32 (dataBytes ps).length, none⟩ := by
  induction present generalizing mem offset with
  | nil => simp [copyDataLoop, dataBytes]
  | @cons i p rest ps looked _ ih =>
      rw [copyDataLoop_cons looked]
      rw [dataBytes_cons] at fits ⊢
      by_cases data : p.isData = true
      · rw [if_pos data, List.length_append] at fits
        rw [if_pos data, if_pos data]
        have next : (offset + p.size).toNat = offset.toNat + p.data.length := by
          rw [BitVec.toNat_add, p.size_toNat, Nat.mod_eq_of_lt (by omega)]
        rw [ih _ _ (by omega), next, memcpy_append, List.length_append, BitVec.ofNat_add,
          ← BitVec.add_assoc]
        rfl
      · rw [if_neg data] at fits
        rw [if_neg data, if_neg data]
        exact ih _ _ fits

end PacketRecvQueue

end UdpStuff.PacketQueue
