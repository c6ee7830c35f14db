/-
# Tracker.Stores — the stores of the tracker, and the flush of removed peers

The four stores of `tracker.cc`: the ids to remove, the peers by id, the ids by IPv4
address, and the forwards by id, several for one.  `flush_removed_peers` erases the ids from
the peers and the forwards, builds the index again from the entries whose peer is left, and
clears the ids.

`flush_consistent`: afterwards no store has a removed id, the index refers to peers that are
there, everything else stands as it was, and a second flush changes nothing.
-/
import UdpStuff.Theory.OrderedMap
import UdpStuff.Theory.Unordered
import UdpStuff.Conn.Handler

namespace UdpStuff.Tracker

open Theory Conn
open Std (ExtTreeMap)

set_option autoImplicit false

instance transOrd_ipv4 : Std.TransOrd (BitVec 32) := inferInstance

inductive PeerConnectionType where
  | TCPv4SSL
  | UDPv4
  | TCPv6SSL
  | UDPv6
deriving DecidableEq

/-- The `ipv4` of the union, its only member. -/
structure PeerAddressData where
  ip : BitVec 32
  port : BitVec 16
deriving DecidableEq

structure TrackerPeerInfo where
  peerId : PeerId512
  type : PeerConnectionType
  address : PeerAddressData
  description : List UInt8
deriving DecidableEq

structure ConnForwardInfo where
  peerId : PeerId512
  addressType : PeerConnectionType
  startAddress : PeerAddressData
  endAddress : PeerAddressData
  description : List UInt8
deriving DecidableEq

structure TrackerStores where
  removedPeers : UnorderedSet PeerId512
  trackerPeerInfo : UnorderedMap PeerId512 TrackerPeerInfo
  ipv4PeerIdx : ExtTreeMap (BitVec 32) PeerId512
  connForwardInfo : UnorderedMultimap PeerId512 ConnForwardInfo

namespace TrackerStores

variable {s : TrackerStores}

/-- The body of the first loop. -/
def erasePeer (s : TrackerStores) (id : PeerId512) : TrackerStores :=
  { s with
    trackerPeerInfo := s.trackerPeerInfo.erase id
    connForwardInfo := s.connForwardInfo.erase id }

/-- `IPv4_peer_idx_new`, built by the second loop. -/
def rebuiltIdx (s : TrackerStores) : ExtTreeMap (BitVec 32) PeerId512 :=
  s.ipv4PeerIdx.toList.foldl
    (fun new entry =>
      if s.trackerPeerInfo.find entry.2 ≠ none then new.insert entry.1 entry.2 else new) ∅

def flushRemovedPeers (s : TrackerStores) : TrackerStores :=
  let erased := s.removedPeers.elems.foldl erasePeer s
  { erased with ipv4PeerIdx := erased.rebuiltIdx, removedPeers := erased.removedPeers.clear }

/-! ## The loops -/

/-- Erasing ids changes the entries of these ids only. -/
theorem foldl_erasePeer (s : TrackerStores) (ids : List PeerId512) :
    (ids.foldl erasePeer s).removedPeers = s.removedPeers ∧
      (ids.foldl erasePeer s).ipv4PeerIdx = s.ipv4PeerIdx ∧
      ∀ a, (ids.foldl erasePeer s).trackerPeerInfo.find a =
          (if a ∈ ids then none else s.trackerPeerInfo.find a) ∧
        (ids.foldl erasePeer s).connForwardInfo.equalRange a =
          if a ∈ ids then [] else s.connForwardInfo.equalRange a := by
  induction ids generalizing s with
  | nil => exact ⟨rfl, rfl, fun a => ⟨by simp, by simp⟩⟩
  | cons id rest ih =>
      obtain ⟨removed, idx, entries⟩ := ih (s.erasePeer id)
      refine ⟨removed, idx, fun a => ?_⟩
      obtain ⟨peers, forwards⟩ := entries a
      rw [List.foldl_cons, peers, forwards, erasePeer, UnorderedMap.find_erase,
        UnorderedMultimap.equalRange_erase]
      constructor
      · by_cases same : a = id <;> by_cases later : a ∈ rest <;> simp [same, later]
      · by_cases same : a = id <;> by_cases later : a ∈ rest <;> simp [same, later]

/-- The rebuilt index has the entries whose peer is there. -/
theorem getElem?_rebuiltIdx (s : TrackerStores) (ip : BitVec 32) (id : PeerId512) :
    s.rebuiltIdx[ip]? = some id ↔
      s.ipv4PeerIdx[ip]? = some id ∧ s.trackerPeerInfo.find id ≠ none :=
  OrderedMap.getElem?_rebuild (fun e : BitVec 32 × PeerId512 => s.trackerPeerInfo.find e.2 ≠ none)
    s.ipv4PeerIdx ip id

/-- An index that refers to peers that are there is rebuilt as it is. -/
theorem rebuiltIdx_eq_self
    (registered : ∀ (ip : BitVec 32) (id : PeerId512), s.ipv4PeerIdx[ip]? = some id →
      s.trackerPeerInfo.find id ≠ none) :
    s.rebuiltIdx = s.ipv4PeerIdx := by
  apply ExtTreeMap.ext_getElem?
  intro ip
  apply Option.ext
  intro id
  rw [getElem?_rebuiltIdx]
  exact ⟨fun both => both.1, fun there => ⟨there, registered ip id there⟩⟩

/-! ## The flush -/

/-- What a flush has done. -/
structure Flushed (s t : TrackerStores) : Prop where
  gone : ∀ id ∈ s.removedPeers.elems, t.trackerPeerInfo.find id = none ∧
    t.connForwardInfo.equalRange id = [] ∧ ∀ ip : BitVec 32, t.ipv4PeerIdx[ip]? ≠ some id
  registered : ∀ (ip : BitVec 32) (id : PeerId512), t.ipv4PeerIdx[ip]? = some id →
    t.trackerPeerInfo.find id ≠ none
  cleared : t.removedPeers.elems = []
  others : ∀ id ∉ s.removedPeers.elems,
    t.trackerPeerInfo.find id = s.trackerPeerInfo.find id ∧
      t.connForwardInfo.equalRange id = s.connForwardInfo.equalRange id
  kept : ∀ (ip : BitVec 32) (id : PeerId512), t.ipv4PeerIdx[ip]? = some id ↔
    s.ipv4PeerIdx[ip]? = some id ∧ t.trackerPeerInfo.find id ≠ none

theorem flushed (s : TrackerStores) : Flushed s s.flushRemovedPeers := by
  obtain ⟨-, idx, entries⟩ := foldl_erasePeer s s.removedPeers.elems
  have kept (ip : BitVec 32) (id : PeerId512) :
      s.flushRemovedPeers.ipv4PeerIdx[ip]? = some id ↔
        s.ipv4PeerIdx[ip]? = some id ∧ s.flushRemovedPeers.trackerPeerInfo.find id ≠ none := by
    rw [← idx]
    exact getElem?_rebuiltIdx _ ip id
  refine ⟨?_, ?_, rfl, ?_, kept⟩
  · intro id removed
    obtain ⟨peers, forwards⟩ := entries id
    rw [if_pos removed] at peers forwards
    exact ⟨peers, forwards, fun ip there => ((kept ip id).mp there).2 peers⟩
  · intro ip id there
    exact ((kept ip id).mp there).2
  · intro id other
    obtain ⟨peers, forwards⟩ := entries id
    rw [if_neg other] at peers forwards
    exact ⟨peers, forwards⟩

/-- With nothing to remove and an index of peers that are there, a flush does nothing. -/
theorem flush_eq_self (empty : s.removedPeers.elems = [])
    (registered : ∀ (ip : BitVec 32) (id : PeerId512), s.ipv4PeerIdx[ip]? = some id →
      s.trackerPeerInfo.find id ≠ none) :
    s.flushRemovedPeers = s := by
  have same : s.removedPeers.clear = s.removedPeers := by
    obtain ⟨⟨elems, nodup⟩, _, _, _⟩ := s
    cases empty
    rfl
  rw [flushRemovedPeers, empty]
  dsimp only [List.foldl_nil]
  rw [rebuiltIdx_eq_self registered, same]

/-- **The flush makes the four stores consistent**, and leaves the rest alone. -/
theorem flush_consistent (s : TrackerStores) :
    Flushed s s.flushRemovedPeers ∧ s.flushRemovedPeers.flushRemovedPeers = s.flushRemovedPeers :=
  ⟨flushed s, flush_eq_self (flushed s).cleared (flushed s).registered⟩

end TrackerStores

end UdpStuff.Tracker
