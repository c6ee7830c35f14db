/-
# Tracker.Search — searches with a limit

`find_peers` and `find_forwards` of `tracker.cc` push a match and look at the limit after
that.  The first match is pushed even if the limit is zero, and in `find_forwards` the
`break` leaves the forwards of one id only, so that each further id with a match adds one
above the limit.

* `collect_eq`: what one loop pushes;
* `find_limits_iff`: exactly when the two searches return as many matches as the limit
  allows, none of them twice.
-/
import UdpStuff.Tracker.Stores

namespace UdpStuff.Tracker

open Theory Conn

set_option autoImplicit false

section Collect

variable {α : Type}

/-- `push_back`, then `break` at the limit. -/
def collect (contains : α → Bool) (limit : Nat) : List α → List α → List α
  | [], result => result
  | entry :: rest, result =>
    if contains entry then
      if (result ++ [entry]).length ≥ limit then result ++ [entry]
      else collect contains limit rest (result ++ [entry])
    else collect contains limit rest result

/-- The loop pushes the matches up to the limit, and the first one in any case. -/
theorem collect_eq (contains : α → Bool) (limit : Nat) (entries result : List α) :
    collect contains limit entries result =
      result ++ (entries.filter contains).take (max (limit - result.length) 1) := by
  induction entries generalizing result with
  | nil => simp [collect]
  | cons entry rest ih =>
      rw [collect]
      by_cases found : contains entry
      · rw [if_pos found, List.filter_cons_of_pos found]
        by_cases full : (result ++ [entry]).length ≥ limit
        · have one : max (limit - result.length) 1 = 1 := by
            rw [List.length_append, List.length_singleton] at full
            omega
          rw [if_pos full, one, List.take_succ_cons, List.take_zero]
        · rw [List.length_append, List.length_singleton] at full
          have more : max (limit - result.length) 1 =
              max (limit - (result ++ [entry]).length) 1 + 1 := by
            rw [List.length_append, List.length_singleton]
            omega
          rw [if_neg (by rwa [List.length_append, List.length_singleton]), ih, more,
            List.take_succ_cons, List.append_assoc]
          rfl
      · rw [if_neg found, List.filter_cons_of_neg found]
        exact ih result

end Collect

/-- As many of the matches as the limit allows, none of them twice. -/
structure UpTo {α : Type} (limit : Nat) (found result : List α) : Prop where
  length : result.length = min limit found.length
  matching : result.Sublist found

/-- `description.find(search_str) != std::string::npos` -/
def describes (searchStr description : List UInt8) : Bool := searchStr <:+: description

namespace TrackerStores

variable {s : TrackerStores}

def findPeers (s : TrackerStores) (searchStr : List UInt8) (limit : Nat) : List TrackerPeerInfo :=
  collect (fun info => describes searchStr info.description) limit
    (s.trackerPeerInfo.entries.map Prod.snd) []

def findForwards (s : TrackerStores) (peerIds : UnorderedSet PeerId512) (searchStr : List UInt8)
    (limit : Nat) : List ConnForwardInfo :=
  peerIds.elems.foldl
    (fun result id =>
      collect (fun info => describes searchStr info.description) limit
        (s.connForwardInfo.equalRange id) result) []

/-- The peers whose description has the string, in the order of the store. -/
def peerMatches (s : TrackerStores) (searchStr : List UInt8) : List TrackerPeerInfo :=
  (s.trackerPeerInfo.entries.map Prod.snd).filter fun info => describes searchStr info.description

/-- The forwards of one id whose description has the string. -/
def forwardMatches (s : TrackerStores) (searchStr : List UInt8) (id : PeerId512) :
    List ConnForwardInfo :=
  (s.connForwardInfo.equalRange id).filter fun info => describes searchStr info.description

/-- No id has a match once those before it have as many as the limit. -/
def WithinLimit (s : TrackerStores) (ids : List PeerId512) (searchStr : List UInt8) (limit : Nat) :
    Prop :=
  ∀ before id after, ids = before ++ id :: after →
    limit ≤ (before.flatMap (s.forwardMatches searchStr)).length →
    s.forwardMatches searchStr id = []

theorem findPeers_iff (s : TrackerStores) (searchStr : List UInt8) (limit : Nat) :
    UpTo limit (s.peerMatches searchStr) (s.findPeers searchStr limit) ↔
      1 ≤ limit ∨ s.peerMatches searchStr = [] := by
  have returned : s.findPeers searchStr limit =
      (s.peerMatches searchStr).take (max limit 1) := by
    rw [findPeers, collect_eq, List.nil_append, List.length_nil, Nat.sub_zero, peerMatches]
  rw [returned]
  constructor
  · intro upTo
    have length := upTo.length
    rw [List.length_take] at length
    rcases Nat.eq_zero_or_pos limit with zero | positive
    · right
      apply List.eq_nil_of_length_eq_zero
      omega
    · exact .inl positive
  · intro within
    refine ⟨?_, List.take_sublist _ _⟩
    rw [List.length_take]
    rcases within with positive | none
    · rw [Nat.max_eq_left positive]
    · rw [none, List.length_nil, Nat.min_zero, Nat.min_zero]

/-! ## Forwards, id by id -/

section Forwards

variable (s : TrackerStores) (searchStr : List UInt8) (limit : Nat)

/-- `find_forwards`, for ids in the order in which they are gone through. -/
def forwardsOver (ids : List PeerId512) : List ConnForwardInfo :=
  ids.foldl
    (fun result id =>
      collect (fun info => describes searchStr info.description) limit
        (s.connForwardInfo.equalRange id) result) []

/-- One id more adds its matches up to what is left of the limit, or one of them. -/
theorem forwardsOver_concat (ids : List PeerId512) (id : PeerId512) :
    s.forwardsOver searchStr limit (ids ++ [id]) = s.forwardsOver searchStr limit ids ++
      (s.forwardMatches searchStr id).take
        (max (limit - (s.forwardsOver searchStr limit ids).length) 1) := by
  rw [forwardsOver, List.foldl_append, List.foldl_cons, List.foldl_nil, collect_eq]
  rfl

theorem forwardsOver_sublist (ids : List PeerId512) :
    (s.forwardsOver searchStr limit ids).Sublist (ids.flatMap (s.forwardMatches searchStr)) := by
  induction ids using List.reverseRecOn with
  | nil => exact List.Sublist.refl _
  | append_singleton ids id ih =>
      rw [forwardsOver_concat, List.flatMap_append, List.flatMap_singleton]
      exact ih.append (List.take_sublist _ _)

/-- Never fewer than the limit allows. -/
theorem forwardsOver_least (ids : List PeerId512) :
    min limit (ids.flatMap (s.forwardMatches searchStr)).length ≤
      (s.forwardsOver searchStr limit ids).length := by
  induction ids using List.reverseRecOn with
  | nil => exact Nat.min_le_right _ _
  | append_singleton ids id ih =>
      rw [forwardsOver_concat, List.flatMap_append, List.flatMap_singleton, List.length_append,
        List.length_append, List.length_take]
      omega

theorem withinLimit_concat (ids : List PeerId512) (id : PeerId512) :
    s.WithinLimit (ids ++ [id]) searchStr limit ↔
      s.WithinLimit ids searchStr limit ∧
        (limit ≤ (ids.flatMap (s.forwardMatches searchStr)).length →
          s.forwardMatches searchStr id = []) := by
  constructor
  · intro within
    refine ⟨fun before id' after same => ?_, within ids id [] rfl⟩
    exact within before id' (after ++ [id]) (by rw [same, List.append_assoc, List.cons_append])
  · rintro ⟨within, last⟩ before id' after same
    rcases List.eq_nil_or_concat after with rfl | ⟨after, last', rfl⟩
    · obtain ⟨rfl, single⟩ := List.append_inj' same rfl
      cases single
      exact last
    · rw [List.concat_eq_append, ← List.cons_append, ← List.append_assoc] at same
      exact within before id' after (List.append_inj' same rfl).1

/-- Exactly as many as the limit allows. -/
theorem length_forwardsOver_iff (ids : List PeerId512) :
    (s.forwardsOver searchStr limit ids).length =
        min limit (ids.flatMap (s.forwardMatches searchStr)).length ↔
      s.WithinLimit ids searchStr limit := by
  induction ids using List.reverseRecOn with
  | nil =>
      refine ⟨fun _ before id after same => ?_, fun _ => (Nat.min_zero limit).symm⟩
      simp at same
  | append_singleton ids id ih =>
      have least := forwardsOver_least s searchStr limit ids
      have most := (forwardsOver_sublist s searchStr limit ids).length_le
      rw [withinLimit_concat, ← ih, ← List.length_eq_zero_iff, forwardsOver_concat,
        List.flatMap_append, List.flatMap_singleton, List.length_append, List.length_append,
        List.length_take]
      constructor
      · intro exact_
        exact ⟨by omega, fun full => by omega⟩
      · rintro ⟨exact_, last⟩
        by_cases full : limit ≤ (ids.flatMap (s.forwardMatches searchStr)).length
        · rw [last full]
          omega
        · omega

end Forwards

theorem findForwards_iff (s : TrackerStores) (peerIds : UnorderedSet PeerId512)
    (searchStr : List UInt8) (limit : Nat) :
    UpTo limit (peerIds.elems.flatMap (s.forwardMatches searchStr))
        (s.findForwards peerIds searchStr limit) ↔
      s.WithinLimit peerIds.elems searchStr limit := by
  rw [← length_forwardsOver_iff]
  exact ⟨fun upTo => upTo.length, fun length => ⟨length, forwardsOver_sublist _ _ _ _⟩⟩

/-- **When the searches keep their limit**: `find_peers` if the limit is positive or nothing
matches, `find_forwards` if no id has a match once the ones before it have enough. -/
theorem find_limits_iff (s : TrackerStores) (peerIds : UnorderedSet PeerId512)
    (searchStr : List UInt8) (limit : Nat) :
    (UpTo limit (s.peerMatches searchStr) (s.findPeers searchStr limit) ↔
        1 ≤ limit ∨ s.peerMatches searchStr = []) ∧
      (UpTo limit (peerIds.elems.flatMap (s.forwardMatches searchStr))
          (s.findForwards peerIds searchStr limit) ↔
        s.WithinLimit peerIds.elems searchStr limit) :=
  ⟨findPeers_iff s searchStr limit, findForwards_iff s peerIds searchStr limit⟩

theorem exists_ne (w : Nat) : ∃ a b : BitVec (w + 1), a ≠ b := by
  refine ⟨0#(w + 1), BitVec.allOnes (w + 1), fun same => ?_⟩
  have zero : (0#(w + 1)).msb = false := BitVec.msb_zero
  rw [same, BitVec.msb_allOnes (Nat.succ_pos w)] at zero
  cases zero

theorem two_ids : ∃ a b : PeerId512, a ≠ b := exists_ne 511

/-- A peer and a forward without descriptions. -/
def plainPeer (peerId : PeerId512) : TrackerPeerInfo := ⟨peerId, .UDPv4, ⟨0, 0⟩, []⟩

def plainForward (peerId : PeerId512) : ConnForwardInfo :=
  ⟨peerId, .UDPv4, ⟨0, 0⟩, ⟨0, 0⟩, []⟩

/-- **Refuted**: with the limit zero the only peer is found, and with the limit one a forward
of each of two ids. -/
theorem find_limits_refuted :
    (¬ ∀ (s : TrackerStores) (searchStr : List UInt8) (limit : Nat),
      UpTo limit (s.peerMatches searchStr) (s.findPeers searchStr limit)) ∧
    ¬ ∀ (s : TrackerStores) (peerIds : UnorderedSet PeerId512) (searchStr : List UInt8)
      (limit : Nat), UpTo limit (peerIds.elems.flatMap (s.forwardMatches searchStr))
        (s.findForwards peerIds searchStr limit) := by
  obtain ⟨a, b, differ⟩ := two_ids
  let s : TrackerStores :=
    { removedPeers := ⟨[], List.nodup_nil⟩
      trackerPeerInfo := ⟨[(a, plainPeer a)], List.nodup_singleton _⟩
      ipv4PeerIdx := ∅
      connForwardInfo := ⟨[(a, plainForward a), (b, plainForward b)]⟩ }
  constructor
  · intro always
    rcases (findPeers_iff s [] 0).mp (always s [] 0) with positive | none
    · exact absurd positive (by decide)
    · cases none
  · intro always
    have distinct : [a, b].Nodup := by simp [differ]
    have within := (findForwards_iff s ⟨[a, b], distinct⟩ [] 1).mp (always s _ [] 1)
    have first : s.forwardMatches [] a = [plainForward a] := by
      simp [s, forwardMatches, UnorderedMultimap.equalRange, differ.symm, describes]
    have second : s.forwardMatches [] b = [plainForward b] := by
      simp [s, forwardMatches, UnorderedMultimap.equalRange, differ, describes]
    have none := within [a] b [] rfl (by simp [first])
    rw [second] at none
    cases none

end TrackerStores

end UdpStuff.Tracker
