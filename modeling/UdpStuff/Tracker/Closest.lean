/-
# Tracker.Closest — the peers closest to an address

`find_ipv4_closest_peers` of `tracker.cc` goes through the index of IPv4 addresses with two
iterators.  `it_prev` starts at the first address that is not below `ip` and not at the last
one that is, is read before it is moved back, and is never read at the first entry; where all
addresses are below `ip` it starts at the end and is read there.  Differences are unsigned.

The results carry the entries they were taken from.  `Steps` says of a property of the two
iterators and the entries taken that both kinds of steps keep it, and `closestEntries_run` that
the whole function does.
-/
import UdpStuff.Tracker.Stores

namespace UdpStuff.Tracker

open Theory Conn
open Std (ExtTreeMap)

set_option autoImplicit false

/-- An entry of the index. -/
abbrev Entry := BitVec 32 × PeerId512

/-- The absolute difference of the addresses. -/
def distance (ip : BitVec 32) (e : Entry) : Nat := ((ip.toNat : Int) - e.1.toNat).natAbs

namespace TrackerStores

/-- The body of the branches: the peer is pushed if it is registered. -/
def visit (s : TrackerStores) (result : List (Entry × TrackerPeerInfo)) (e : Entry) :
    List (Entry × TrackerPeerInfo) :=
  match s.trackerPeerInfo.find e.2 with
  | none => result
  | some info => result ++ [(e, info)]

section Loops

variable (s : TrackerStores) (ip : BitVec 32) (limit : Nat) (idx : List Entry)

/-- The first loop.  `prev` is the position of `it_prev`, zero being `begin()`, and `next` the
entries from `it_next` on; `none` is a read at the end. -/
def mergeLoop (prev : Nat) (next : List Entry) (result : List (Entry × TrackerPeerInfo)) :
    Option (Nat × List Entry × List (Entry × TrackerPeerInfo)) :=
  match prev, next with
  | prev + 1, e :: rest =>
    if result.length < limit then
      match idx[prev + 1]? with
      | none => none
      | some p =>
        if ip - p.1 < e.1 - ip then mergeLoop prev (e :: rest) (s.visit result p)
        else mergeLoop (prev + 1) rest (s.visit result e)
    else some (prev + 1, e :: rest, result)
  | prev, next => some (prev, next, result)
termination_by prev + next.length

/-- The second loop. -/
def prevLoop : Nat → List (Entry × TrackerPeerInfo) → Option (List (Entry × TrackerPeerInfo))
  | 0, result => some result
  | prev + 1, result =>
    if result.length < limit then
      match idx[prev + 1]? with
      | none => none
      | some p => prevLoop prev (s.visit result p)
    else some result

/-- The third loop. -/
def nextLoop : List Entry → List (Entry × TrackerPeerInfo) → List (Entry × TrackerPeerInfo)
  | [], result => result
  | e :: rest, result =>
    if result.length < limit then nextLoop rest (s.visit result e) else result

end Loops

/-- The position of the first entry that is not below `ip`. -/
def lowerBound (ip : BitVec 32) (idx : List Entry) : Nat :=
  (idx.takeWhile fun e => e.1 < ip).length

/-- The position of the first entry above `ip`. -/
def upperBound (ip : BitVec 32) (idx : List Entry) : Nat :=
  (idx.takeWhile fun e => e.1 ≤ ip).length

/-- The results, each with its entry. -/
def closestEntries (s : TrackerStores) (ip : BitVec 32) (limit : Nat) :
    Option (List (Entry × TrackerPeerInfo)) :=
  let idx := s.ipv4PeerIdx.toList
  match s.mergeLoop ip limit idx (lowerBound ip idx) (idx.drop (upperBound ip idx)) [] with
  | none => none
  | some (prev, next, result) =>
    match s.prevLoop limit idx prev result with
    | none => none
    | some result => some (s.nextLoop limit next result)

def findIpv4ClosestPeers (s : TrackerStores) (ip : BitVec 32) (limit : Nat) :
    Option (List TrackerPeerInfo) :=
  (s.closestEntries ip limit).map fun taken => taken.map Prod.snd

/-! ## Runs -/

/-- Both kinds of steps keep a property of the iterators and the entries taken. -/
structure Steps (ip : BitVec 32) (limit : Nat) (idx : List Entry)
    (I : Nat → List Entry → List Entry → Prop) : Prop where
  prev : ∀ p next taken e, I (p + 1) next taken → taken.length < limit →
    idx[p + 1]? = some e → (∀ n ∈ next.head?, ip - e.1 < n.1 - ip) → I p next (taken ++ [e])
  next : ∀ p e next taken, I p (e :: next) taken → taken.length < limit →
    (∀ e', p ≠ 0 → idx[p]? = some e' → ¬ ip - e'.1 < e.1 - ip) → I p next (taken ++ [e])

section Run

variable {s : TrackerStores} {ip : BitVec 32} {limit : Nat} {idx : List Entry}
  {I : Nat → List Entry → List Entry → Prop}

/-- Every result is the peer of its entry. -/
def Genuine (s : TrackerStores) (result : List (Entry × TrackerPeerInfo)) : Prop :=
  ∀ r ∈ result, s.trackerPeerInfo.find r.1.2 = some r.2

/-- A registered peer is pushed. -/
theorem visit_registered {result : List (Entry × TrackerPeerInfo)} {e : Entry}
    (genuine : s.Genuine result) (registered : s.trackerPeerInfo.find e.2 ≠ none) :
    s.Genuine (s.visit result e) ∧
      (s.visit result e).map Prod.fst = result.map Prod.fst ++ [e] := by
  obtain ⟨info, found⟩ := Option.ne_none_iff_exists'.mp registered
  have pushed : s.visit result e = result ++ [(e, info)] := by rw [visit, found]
  rw [pushed]
  constructor
  · intro r member
    rcases List.mem_append.mp member with old | new
    · exact genuine r old
    · rw [List.mem_singleton.mp new]
      exact found
  · rw [List.map_append, List.map_singleton]

/-- The iterators, the entries taken and the results at one time. -/
structure At (s : TrackerStores) (idx : List Entry) (I : Nat → List Entry → List Entry → Prop)
    (prev : Nat) (next : List Entry) (result : List (Entry × TrackerPeerInfo)) : Prop where
  holds : I prev next (result.map Prod.fst)
  genuine : s.Genuine result
  inside : prev < idx.length ∨ prev = 0
  members : ∀ e ∈ next, e ∈ idx

variable (registered : ∀ e ∈ idx, s.trackerPeerInfo.find e.2 ≠ none)
  (steps : Steps ip limit idx I)

include registered steps

theorem At.visitPrev {prev : Nat} {next : List Entry} {result : List (Entry × TrackerPeerInfo)}
    (now : At s idx I (prev + 1) next result) (more : result.length < limit) {e : Entry}
    (here : idx[prev + 1]? = some e) (nearer : ∀ n ∈ next.head?, ip - e.1 < n.1 - ip) :
    At s idx I prev next (s.visit result e) := by
  have pushed := visit_registered now.genuine (registered e (List.mem_of_getElem? here))
  refine ⟨?_, pushed.1, ?_, now.members⟩
  · rw [pushed.2]
    exact steps.prev prev next _ e now.holds (by rwa [List.length_map]) here nearer
  · have := now.inside
    omega

theorem At.visitNext {prev : Nat} {e : Entry} {next : List Entry}
    {result : List (Entry × TrackerPeerInfo)} (now : At s idx I prev (e :: next) result)
    (more : result.length < limit)
    (nearer : ∀ e', prev ≠ 0 → idx[prev]? = some e' → ¬ ip - e'.1 < e.1 - ip) :
    At s idx I prev next (s.visit result e) := by
  have pushed := visit_registered now.genuine (registered e (now.members e List.mem_cons_self))
  refine ⟨?_, pushed.1, now.inside, fun e' later => now.members e' (List.mem_cons_of_mem e later)⟩
  rw [pushed.2]
  exact steps.next prev e next _ now.holds (by rwa [List.length_map]) nearer

theorem At.mergeLoop {prev : Nat} {next : List Entry} {result : List (Entry × TrackerPeerInfo)}
    (now : At s idx I prev next result) :
    ∃ prev' next' result', s.mergeLoop ip limit idx prev next result =
        some (prev', next', result') ∧ At s idx I prev' next' result' ∧
      (limit ≤ result'.length ∨ prev' = 0 ∨ next' = []) := by
  induction measure : prev + next.length using Nat.strongRecOn generalizing prev next result with
  | ind k ih =>
      cases prev with
      | zero =>
          refine ⟨0, next, result, ?_, now, .inr (.inl rfl)⟩
          rw [TrackerStores.mergeLoop]
          rintro _ _ _ ⟨⟩
      | succ prev =>
          cases next with
          | nil =>
              refine ⟨prev + 1, [], result, ?_, now, .inr (.inr rfl)⟩
              rw [TrackerStores.mergeLoop]
              rintro _ _ _ _ ⟨⟩
          | cons e rest =>
              rw [List.length_cons] at measure
              rw [TrackerStores.mergeLoop]
              by_cases more : result.length < limit
              · have within : prev + 1 < idx.length := by
                  have := now.inside
                  omega
                have here : idx[prev + 1]? = some idx[prev + 1] := List.getElem?_eq_getElem within
                rw [if_pos more, here]
                dsimp only
                by_cases nearer : ip - idx[prev + 1].1 < e.1 - ip
                · rw [if_pos nearer]
                  refine ih (prev + (rest.length + 1)) (by omega)
                    (now.visitPrev registered steps more here ?_) rfl
                  intro n first
                  cases first
                  exact nearer
                · rw [if_neg nearer]
                  refine ih (prev + 1 + rest.length) (by omega)
                    (now.visitNext registered steps more ?_) rfl
                  intro e' _ there
                  rw [here] at there
                  cases there
                  exact nearer
              · rw [if_neg more]
                exact ⟨prev + 1, e :: rest, result, rfl, now, .inl (Nat.not_lt.mp more)⟩

theorem At.prevLoop {prev : Nat} {next : List Entry} {result : List (Entry × TrackerPeerInfo)}
    (now : At s idx I prev next result)
    (stopped : limit ≤ result.length ∨ prev = 0 ∨ next = []) :
    ∃ prev' result', s.prevLoop limit idx prev result = some result' ∧
      At s idx I prev' next result' ∧ (limit ≤ result'.length ∨ prev' = 0) := by
  induction prev generalizing result with
  | zero => exact ⟨0, result, rfl, now, .inr rfl⟩
  | succ prev ih =>
      rw [TrackerStores.prevLoop]
      by_cases more : result.length < limit
      · have within : prev + 1 < idx.length := by
          have := now.inside
          omega
        have here : idx[prev + 1]? = some idx[prev + 1] := List.getElem?_eq_getElem within
        obtain rfl : next = [] := by
          rcases stopped with full | zero | done
          · omega
          · cases zero
          · exact done
        rw [if_pos more, here]
        exact ih (now.visitPrev registered steps more here fun n first => by cases first)
          (.inr (.inr rfl))
      · rw [if_neg more]
        exact ⟨prev + 1, result, rfl, now, .inl (Nat.not_lt.mp more)⟩

theorem At.nextLoop {prev : Nat} {next : List Entry} {result : List (Entry × TrackerPeerInfo)}
    (now : At s idx I prev next result) (stopped : limit ≤ result.length ∨ prev = 0) :
    ∃ next', At s idx I prev next' (s.nextLoop limit next result) ∧
      (limit ≤ (s.nextLoop limit next result).length ∨ prev = 0 ∧ next' = []) := by
  induction next generalizing result with
  | nil => exact ⟨[], now, stopped.imp_right fun zero => ⟨zero, rfl⟩⟩
  | cons e rest ih =>
      rw [TrackerStores.nextLoop]
      by_cases more : result.length < limit
      · have zero : prev = 0 := by omega
        rw [if_pos more]
        exact ih (now.visitNext registered steps more fun _ nonzero => absurd zero nonzero)
          (.inr zero)
      · rw [if_neg more]
        exact ⟨e :: rest, now, .inl (Nat.not_lt.mp more)⟩

/-- **A property that both kinds of steps keep holds at the end**, where the limit is reached
or both iterators are. -/
theorem closestEntries_run (whole : idx = s.ipv4PeerIdx.toList)
    (start : I (lowerBound ip idx) (idx.drop (upperBound ip idx)) [])
    (inside : lowerBound ip idx < idx.length ∨ lowerBound ip idx = 0) :
    ∃ taken prev next, s.closestEntries ip limit = some taken ∧ s.Genuine taken ∧
      I prev next (taken.map Prod.fst) ∧ (limit ≤ taken.length ∨ prev = 0 ∧ next = []) := by
  have now : At s idx I (lowerBound ip idx) (idx.drop (upperBound ip idx)) [] :=
    ⟨start, fun r member => (by cases member), inside, fun e member => List.mem_of_mem_drop member⟩
  obtain ⟨prev, next, merged, first, now, stopped⟩ := now.mergeLoop registered steps
  obtain ⟨prev', low, second, now, stopped⟩ := now.prevLoop registered steps stopped
  obtain ⟨next', now, stopped⟩ := now.nextLoop registered steps stopped
  refine ⟨s.nextLoop limit next low, prev', next', ?_, now.genuine, now.holds, stopped⟩
  rw [closestEntries, ← whole, first]
  dsimp only
  rw [second]

end Run

/-- Nothing is returned for the limit zero. -/
theorem closestEntries_zero (s : TrackerStores) (ip : BitVec 32) :
    s.closestEntries ip 0 = some [] := by
  have merged (prev : Nat) (next : List Entry) (idx : List Entry) :
      s.mergeLoop ip 0 idx prev next [] = some (prev, next, []) := by
    unfold mergeLoop
    split
    · rw [if_neg (Nat.not_lt_zero _)]
    · rfl
  have second (prev : Nat) (idx : List Entry) : s.prevLoop 0 idx prev [] = some [] := by
    cases prev with
    | zero => rfl
    | succ prev => exact if_neg (Nat.not_lt_zero _)
  have third (next : List Entry) : s.nextLoop 0 next [] = [] := by
    cases next with
    | nil => rfl
    | cons e rest => exact if_neg (Nat.not_lt_zero _)
  rw [closestEntries, merged]
  dsimp only
  rw [second]
  dsimp only
  rw [third]

/-- Where all addresses are below `ip`, the entry behind the last one is read. -/
theorem closestEntries_end {s : TrackerStores} {ip : BitVec 32} {limit : Nat}
    (some_ : s.ipv4PeerIdx.toList ≠ []) (below : ∀ e ∈ s.ipv4PeerIdx.toList, e.1 < ip)
    (positive : 0 < limit) : s.closestEntries ip limit = none := by
  have length := List.length_pos_of_ne_nil some_
  have lower : lowerBound ip s.ipv4PeerIdx.toList = s.ipv4PeerIdx.toList.length := by
    rw [lowerBound, List.takeWhile_eq_self_iff.mpr]
    intro e member
    exact decide_eq_true (below e member)
  have upper : upperBound ip s.ipv4PeerIdx.toList = s.ipv4PeerIdx.toList.length := by
    rw [upperBound, List.takeWhile_eq_self_iff.mpr]
    intro e member
    exact decide_eq_true (BitVec.le_of_lt (below e member))
  obtain ⟨last, succ⟩ : ∃ last, s.ipv4PeerIdx.toList.length = last + 1 :=
    ⟨_, (Nat.succ_pred length.ne').symm⟩
  have beyond : s.ipv4PeerIdx.toList[last + 1]? = none := List.getElem?_eq_none succ.le
  rw [closestEntries, lower, upper, List.drop_length, succ, mergeLoop]
  · dsimp only
    rw [prevLoop, if_pos (by exact positive), beyond]
  · rintro _ _ _ _ ⟨⟩

end TrackerStores

end UdpStuff.Tracker
