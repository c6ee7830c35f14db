/-
# Tracker.ClosestExact — when the closest peers are found

Around an address the ordered index falls into the entries below it, the entry of it if there
is one, and the entries above it (`split_at`).  The two iterators of `find_ipv4_closest_peers`
leave something out: with `ip` indexed they never come to the lowest entry, and without it the
lower one comes to the entries below only by way of the one above, which the other one has
taken.

`closest_iff`: with every indexed peer registered, the function returns the closest ones
exactly if the entries it passes over are not needed (`Needless`).
-/
import UdpStuff.Theory.Nearest
import UdpStuff.Tracker.Closest

namespace UdpStuff.Tracker

open Theory Conn
open Std (ExtTreeMap)

set_option autoImplicit false

namespace TrackerStores

/-! ## The index around an address -/

/-- The results are the closest entries' peers. -/
def Closest (s : TrackerStores) (ip : BitVec 32) (limit : Nat) : Prop :=
  ∃ taken, s.closestEntries ip limit = some taken ∧
    s.findIpv4ClosestPeers ip limit = some (taken.map Prod.snd) ∧ s.Genuine taken ∧
    Nearest (distance ip) limit s.ipv4PeerIdx.toList (taken.map Prod.fst)

/-- The entries that are passed over are not needed: none are, or if `ip` is indexed there are
enough others as near as the lowest entry, and if it is not, enough above it that are as near
as the last one below. -/
def Needless (ip : BitVec 32) (limit : Nat) (idx : List Entry) : Prop :=
  limit = 0 ∨ (∀ e ∈ idx, ip < e.1) ∨
    (∃ lowest rest, idx = lowest :: rest ∧ (∃ e ∈ idx, e.1 = ip) ∧
      limit ≤ (within (distance ip) (distance ip lowest) rest).length) ∨
    ∃ last ∈ idx, last.1 < ip ∧ (∀ e ∈ idx, e.1 < ip → e.1 ≤ last.1) ∧ (∀ e ∈ idx, e.1 ≠ ip) ∧
      limit ≤ (within (distance ip) (distance ip last) (idx.filter fun e => ip < e.1)).length

/-- The entries are ordered by their addresses. -/
abbrev Ordered (idx : List Entry) : Prop := idx.Pairwise fun a b => a.1 < b.1

theorem ordered_toList (s : TrackerStores) : Ordered s.ipv4PeerIdx.toList := by
  refine ExtTreeMap.ordered_keys_toList.imp fun {a b} before => ?_
  simpa [compare] using before

section Around

variable {ip : BitVec 32} {limit : Nat} {idx lows ups : List Entry} {here : Entry}

theorem Ordered.nodup (ordered : Ordered idx) : idx.Nodup := by
  refine ordered.imp fun {a b} before same => ?_
  rw [same] at before
  exact BitVec.lt_irrefl _ before

theorem distance_below {e : Entry} (le : e.1 ≤ ip) : distance ip e = ip.toNat - e.1.toNat := by
  have := BitVec.le_def.mp le
  rw [distance]
  omega

theorem distance_above {e : Entry} (lt : ip < e.1) : distance ip e = e.1.toNat - ip.toNat := by
  have := BitVec.lt_def.mp lt
  rw [distance]
  omega

/-- The comparison of the loop is that of the distances. -/
theorem sub_lt_sub_iff {e n : Entry} (le : e.1 ≤ ip) (lt : ip < n.1) :
    ip - e.1 < n.1 - ip ↔ distance ip e < distance ip n := by
  rw [BitVec.lt_def, BitVec.toNat_sub_of_le le, BitVec.toNat_sub_of_le (BitVec.le_of_lt lt),
    distance_below le, distance_above lt]

/-- The entries below an address, and those from it on. -/
theorem split_at (ordered : Ordered idx) (ip : BitVec 32) :
    ∃ lows rest, idx = lows ++ rest ∧ (∀ e ∈ lows, e.1 < ip) ∧
      ((∀ e ∈ rest, ip < e.1) ∨
        ∃ here ups, rest = here :: ups ∧ here.1 = ip ∧ ∀ e ∈ ups, ip < e.1) := by
  induction idx with
  | nil =>
      exact ⟨[], [], rfl, fun _ member => (by cases member),
        .inl fun _ member => (by cases member)⟩
  | cons e rest ih =>
      obtain ⟨first, ordered⟩ := List.pairwise_cons.mp ordered
      rcases Nat.lt_trichotomy e.1.toNat ip.toNat with below | same | above
      · obtain ⟨lows, ups, rfl, belows, aboves⟩ := ih ordered
        refine ⟨e :: lows, ups, rfl, ?_, aboves⟩
        intro e' member
        rcases List.mem_cons.mp member with rfl | later
        · exact BitVec.lt_def.mpr below
        · exact belows e' later
      · have same : e.1 = ip := BitVec.eq_of_toNat_eq same
        refine ⟨[], e :: rest, rfl, fun _ member => (by cases member),
          .inr ⟨e, rest, rfl, same, ?_⟩⟩
        intro e' later
        exact same ▸ first e' later
      · refine ⟨[], e :: rest, rfl, fun _ member => (by cases member), .inl ?_⟩
        intro e' member
        have above : ip < e.1 := BitVec.lt_def.mpr above
        rcases List.mem_cons.mp member with rfl | later
        · exact above
        · exact BitVec.lt_trans above (first e' later)

/-- Both iterators where `ip` is not indexed. -/
theorem bounds_absent (belows : ∀ e ∈ lows, e.1 < ip) (aboves : ∀ e ∈ ups, ip < e.1) :
    lowerBound ip (lows ++ ups) = lows.length ∧ upperBound ip (lows ++ ups) = lows.length := by
  have none {p : Entry → Bool} (fails : ∀ e ∈ ups, p e = false) : ups.takeWhile p = [] := by
    cases ups with
    | nil => rfl
    | cons e rest => rw [List.takeWhile_cons, fails e List.mem_cons_self, if_neg Bool.false_ne_true]
  constructor
  · rw [lowerBound, List.takeWhile_append_of_pos fun e member => decide_eq_true (belows e member),
      none, List.append_nil]
    intro e member
    exact decide_eq_false (BitVec.not_lt.mpr (BitVec.le_of_lt (aboves e member)))
  · rw [upperBound, List.takeWhile_append_of_pos fun e member =>
      decide_eq_true (BitVec.le_of_lt (belows e member)), none, List.append_nil]
    intro e member
    exact decide_eq_false (BitVec.not_le.mpr (aboves e member))

/-- Both iterators where it is. -/
theorem bounds_here (belows : ∀ e ∈ lows, e.1 < ip) (same : here.1 = ip)
    (aboves : ∀ e ∈ ups, ip < e.1) :
    lowerBound ip (lows ++ here :: ups) = lows.length ∧
      upperBound ip (lows ++ here :: ups) = lows.length + 1 := by
  constructor
  · rw [lowerBound, List.takeWhile_append_of_pos fun e member => decide_eq_true (belows e member),
      List.takeWhile_cons, if_neg, List.append_nil]
    rw [same]
    simp [BitVec.lt_irrefl]
  · have moved : lows ++ here :: ups = (lows ++ [here]) ++ ups := by simp
    have upto : ∀ e ∈ lows ++ [here], decide (e.1 ≤ ip) = true := by
      intro e member
      rcases List.mem_append.mp member with low | last
      · exact decide_eq_true (BitVec.le_of_lt (belows e low))
      · rw [List.mem_singleton.mp last, same]
        exact decide_eq_true (BitVec.le_refl ip)
    have none : ups.takeWhile (fun e => decide (e.1 ≤ ip)) = [] := by
      cases ups with
      | nil => rfl
      | cons e rest =>
          rw [List.takeWhile_cons, if_neg]
          exact of_decide_eq_false (by simpa using aboves e List.mem_cons_self)
    rw [upperBound, moved, List.takeWhile_append_of_pos upto, none, List.append_nil,
      List.length_append, List.length_singleton]

theorem within_le_length (d : Nat) (all : List Entry) :
    (within (distance ip) d all).length ≤ all.length := List.length_filter_le _ _

/-- In order, the entries as near as a distance come first. -/
theorem distance_getElem_le {d k : Nat}
    (ordered : ups.Pairwise fun a b => distance ip a ≤ distance ip b)
    (few : k < (within (distance ip) d ups).length) {n : Entry} (there : ups[k]? = some n) :
    distance ip n ≤ d := by
  by_contra farther
  obtain ⟨below, here⟩ := List.getElem?_eq_some_iff.mp there
  have cut : ups.drop k = n :: ups.drop (k + 1) := by
    rw [← here]
    exact List.drop_eq_getElem_cons below
  have none : within (distance ip) d (ups.drop k) = [] := by
    rw [within, List.filter_eq_nil_iff]
    intro e member
    have parts := ordered.sublist (List.drop_sublist k ups)
    rw [cut] at parts member
    have := (List.pairwise_cons.mp parts).1
    rcases List.mem_cons.mp member with rfl | later
    · simpa using Nat.lt_of_not_le farther
    · have := this e later
      simp only [decide_eq_true_eq]
      omega
  have all := congrArg List.length (congrArg (within (distance ip) d) (List.take_append_drop k ups))
  have split : within (distance ip) d (ups.take k ++ ups.drop k) =
      within (distance ip) d (ups.take k) ++ within (distance ip) d (ups.drop k) :=
    List.filter_append ..
  rw [split, none, List.append_nil] at all
  have := @within_le_length ip d (ups.take k)
  have := List.length_take_le k ups
  omega

theorem ordered_above (ordered : Ordered ups) (aboves : ∀ e ∈ ups, ip < e.1) :
    ups.Pairwise fun a b => distance ip a ≤ distance ip b := by
  refine ordered.imp_of_mem fun {a b} first second before => ?_
  have := BitVec.lt_def.mp before
  rw [distance_above (aboves a first), distance_above (aboves b second)]
  omega

end Around

/-! ## With `ip` in the index -/

section Here

variable {s : TrackerStores} {ip : BitVec 32} {limit : Nat} {lows ups : List Entry} {here : Entry}

/-- The entries that `it_prev` still comes to. -/
def ahead (idx : List Entry) (p : Nat) : List Entry := (idx.take (p + 1)).drop 1

theorem ahead_succ {idx : List Entry} {p : Nat} {e : Entry} (there : idx[p + 1]? = some e) :
    ahead idx (p + 1) = ahead idx p ++ [e] := by
  have below := (List.getElem?_eq_some_iff.mp there).1
  rw [ahead, List.take_add_one, there, Option.toList_some, List.drop_append_of_le_length, ahead]
  rw [List.length_take]
  omega

/-- The entries taken, in order, and those to come, none of them nearer. -/
structure Merging (ip : BitVec 32) (limit : Nat) (idx ups : List Entry) (last : Nat) (p : Nat)
    (next taken : List Entry) : Prop where
  perm : (taken ++ (ahead idx p ++ next)).Perm idx.tail
  order : taken.Pairwise fun a b => distance ip a ≤ distance ip b
  before : ∀ t ∈ taken, ∀ r ∈ ahead idx p ++ next, distance ip t ≤ distance ip r
  most : taken.length ≤ limit
  above : next <:+ ups
  low : p ≤ last

/-- One more entry that none to come is nearer than. -/
theorem order_concat {taken rest waiting : List Entry} {e : Entry}
    (toCome : (e :: rest).Perm waiting)
    (order : taken.Pairwise fun a b => distance ip a ≤ distance ip b)
    (before : ∀ t ∈ taken, ∀ r ∈ waiting, distance ip t ≤ distance ip r)
    (nearest : ∀ r ∈ rest, distance ip e ≤ distance ip r) :
    (taken ++ [e] ++ rest).Perm (taken ++ waiting) ∧
      ((taken ++ [e]).Pairwise fun a b => distance ip a ≤ distance ip b) ∧
      ∀ t ∈ taken ++ [e], ∀ r ∈ rest, distance ip t ≤ distance ip r := by
  refine ⟨?_, ?_, ?_⟩
  · rw [List.append_assoc, List.singleton_append]
    exact toCome.append_left taken
  · refine List.pairwise_append.mpr ⟨order, List.pairwise_singleton _ _, fun t member r last => ?_⟩
    rw [List.mem_singleton.mp last]
    exact before t member e (toCome.subset List.mem_cons_self)
  · intro t member r later
    rcases List.mem_append.mp member with old | new
    · exact before t old r (toCome.subset (List.mem_cons_of_mem e later))
    · rw [List.mem_singleton.mp new]
      exact nearest r later

theorem merging_steps {idx : List Entry} (ordered : Ordered idx)
    (upto : ∀ p e, p ≤ lows.length → idx[p]? = some e → e.1 ≤ ip)
    (inside : lows.length < idx.length)
    (aboves : ∀ e ∈ ups, ip < e.1) (orderedUps : Ordered ups) :
    Steps ip limit idx (Merging ip limit idx ups lows.length) := by
  -- the entries to come below are farther than the one that the iterator is at
  have farther (p : Nat) (e : Entry) (low : p ≤ lows.length) (there : idx[p]? = some e)
      (r : Entry) (member : r ∈ idx.take p) : distance ip e ≤ distance ip r := by
    have cut : idx.take (p + 1) = idx.take p ++ [e] := by
      rw [List.take_add_one, there, Option.toList_some]
    have parts := ordered.sublist (List.take_sublist (p + 1) idx)
    rw [cut, List.pairwise_append] at parts
    have before := BitVec.lt_def.mp (parts.2.2 r member e List.mem_cons_self)
    have le := upto p e low there
    have le' : r.1 ≤ ip := BitVec.le_def.mpr (by have := BitVec.le_def.mp le; omega)
    rw [distance_below le, distance_below le']
    omega
  constructor
  · intro p next taken e now more there nearer
    have low := now.low
    have le := upto (p + 1) e low there
    have toCome : (e :: (ahead idx p ++ next)).Perm (ahead idx (p + 1) ++ next) := by
      rw [ahead_succ there, List.append_assoc, List.singleton_append]
      exact List.perm_middle.symm
    have nearest (r : Entry) (later : r ∈ ahead idx p ++ next) : distance ip e ≤ distance ip r := by
      rcases List.mem_append.mp later with below | above
      · exact farther (p + 1) e low there r (List.mem_of_mem_drop below)
      · cases next with
        | nil => cases above
        | cons n rest =>
            have mem_ups (x : Entry) (member : x ∈ n :: rest) : x ∈ ups :=
              now.above.subset member
            have first := (sub_lt_sub_iff le (aboves n (mem_ups n List.mem_cons_self))).mp
              (nearer n rfl)
            have sorted := ordered_above (orderedUps.sublist now.above.sublist)
              fun x member => aboves x (mem_ups x member)
            rcases List.mem_cons.mp above with rfl | later
            · exact first.le
            · exact first.le.trans ((List.pairwise_cons.mp sorted).1 r later)
    obtain ⟨moved, order, before⟩ := order_concat toCome now.order now.before nearest
    exact ⟨moved.trans now.perm, order, before, by rw [List.length_append]; exact more, now.above,
      by omega⟩
  · intro p e next taken now more nearer
    have low := now.low
    have mem_ups (x : Entry) (member : x ∈ e :: next) : x ∈ ups := now.above.subset member
    have sorted := ordered_above (orderedUps.sublist now.above.sublist)
      fun x member => aboves x (mem_ups x member)
    have toCome : (e :: (ahead idx p ++ next)).Perm (ahead idx p ++ e :: next) :=
      List.perm_middle.symm
    have nearest (r : Entry) (later : r ∈ ahead idx p ++ next) : distance ip e ≤ distance ip r := by
      rcases List.mem_append.mp later with below | above
      · cases p with
        | zero =>
            rw [ahead] at below
            have := List.length_pos_of_mem below
            rw [List.length_drop, List.length_take] at this
            omega
        | succ p =>
            have there : idx[p + 1]? = some idx[p + 1] :=
              List.getElem?_eq_getElem (by omega)
            have le := upto (p + 1) _ low there
            have near := nearer _ (Nat.succ_ne_zero p) there
            rw [sub_lt_sub_iff le (aboves e (mem_ups e List.mem_cons_self))] at near
            rw [ahead_succ there] at below
            rcases List.mem_append.mp below with below | at_
            · exact (Nat.not_lt.mp near).trans
                (farther (p + 1) _ low there r (List.mem_of_mem_drop below))
            · rw [List.mem_singleton.mp at_]
              exact Nat.not_lt.mp near
      · exact (List.pairwise_cons.mp sorted).1 r above
    obtain ⟨moved, order, before⟩ := order_concat toCome now.order now.before nearest
    exact ⟨moved.trans now.perm, order, before, by rw [List.length_append]; exact more,
      (List.suffix_cons e next).trans now.above, low⟩

theorem Closest.of_nearest {taken : List (Entry × TrackerPeerInfo)}
    (returned : s.closestEntries ip limit = some taken) (genuine : s.Genuine taken)
    (nearest : Nearest (distance ip) limit s.ipv4PeerIdx.toList (taken.map Prod.fst)) :
    s.Closest ip limit := by
  refine ⟨taken, returned, ?_, genuine, nearest⟩
  rw [findIpv4ClosestPeers, returned]
  rfl

variable (registered : ∀ e ∈ s.ipv4PeerIdx.toList, s.trackerPeerInfo.find e.2 ≠ none)

include registered

/-- The lowest entry is left out, and the others are gone through from near to far. -/
theorem closest_here (whole : s.ipv4PeerIdx.toList = lows ++ here :: ups)
    (belows : ∀ e ∈ lows, e.1 < ip) (same : here.1 = ip) (aboves : ∀ e ∈ ups, ip < e.1)
    {lowest : Entry} {rest : List Entry} (first : s.ipv4PeerIdx.toList = lowest :: rest) :
    s.Closest ip limit ↔ limit ≤ (within (distance ip) (distance ip lowest) rest).length := by
  have ordered := s.ordered_toList
  have nodup := ordered.nodup
  obtain ⟨lower, upper⟩ := bounds_here belows same aboves
  rw [← whole] at lower upper
  have behind : s.ipv4PeerIdx.toList.drop (lows.length + 1) = ups := by
    rw [whole, ← List.drop_drop, List.drop_left]
    rfl
  have inside : lows.length < s.ipv4PeerIdx.toList.length := by
    rw [whole, List.length_append, List.length_cons]
    omega
  constructor
  · rintro ⟨taken, returned, -, -, nearest⟩
    -- every entry that is visited is behind the lowest one
    have steps : Steps ip limit s.ipv4PeerIdx.toList
        fun _ next taken => (∀ t ∈ taken, t ∈ rest) ∧ ∀ e ∈ next, e ∈ rest := by
      constructor
      · rintro p next taken e ⟨old, further⟩ - there -
        rw [first, List.getElem?_cons_succ] at there
        refine ⟨fun t member => ?_, further⟩
        rcases List.mem_append.mp member with before | new
        · exact old t before
        · rw [List.mem_singleton.mp new]
          exact List.mem_of_getElem? there
      · rintro p e next taken ⟨old, further⟩ - -
        refine ⟨fun t member => ?_, fun e' later => further e' (List.mem_cons_of_mem e later)⟩
        rcases List.mem_append.mp member with before | new
        · exact old t before
        · rw [List.mem_singleton.mp new]
          exact further e List.mem_cons_self
    have start :
        ∀ e ∈ s.ipv4PeerIdx.toList.drop (upperBound ip s.ipv4PeerIdx.toList), e ∈ rest := by
      intro e member
      rw [upper, first, List.drop_succ_cons] at member
      exact List.mem_of_mem_drop member
    obtain ⟨taken', p, next, returned', -, ⟨visited, -⟩, -⟩ :=
      closestEntries_run registered steps rfl ⟨fun t member => (by cases member), start⟩
        (.inl (lower ▸ inside))
    rw [returned] at returned'
    cases returned'
    rw [first] at nodup nearest
    refine nearest.enough (List.Perm.refl _) fun member => ?_
    exact (List.nodup_cons.mp nodup).1 (visited lowest member)
  · intro enough
    have tail : s.ipv4PeerIdx.toList.tail = rest := by rw [first, List.tail_cons]
    have orderedUps : Ordered ups := behind ▸ ordered.sublist (List.drop_sublist _ _)
    have upto (p : Nat) (e : Entry) (low : p ≤ lows.length)
        (there : s.ipv4PeerIdx.toList[p]? = some e) : e.1 ≤ ip := by
      rw [whole] at there
      rcases Nat.lt_or_eq_of_le low with before | rfl
      · rw [List.getElem?_append_left before] at there
        exact BitVec.le_of_lt (belows e (List.mem_of_getElem? there))
      · rw [List.getElem?_append_right (Nat.le_refl _), Nat.sub_self] at there
        cases there
        exact same ▸ BitVec.le_refl _
    have steps := @merging_steps ip limit lows ups _ ordered upto inside aboves orderedUps
    have start : Merging ip limit s.ipv4PeerIdx.toList ups lows.length
        (lowerBound ip s.ipv4PeerIdx.toList)
        (s.ipv4PeerIdx.toList.drop (upperBound ip s.ipv4PeerIdx.toList)) [] := by
      rw [lower, upper]
      refine ⟨?_, List.Pairwise.nil, fun t member => (by cases member), Nat.zero_le _,
        behind ▸ List.suffix_refl _, Nat.le_refl _⟩
      have one : 1 ≤ (s.ipv4PeerIdx.toList.take (lows.length + 1)).length := by
        rw [List.length_take]
        omega
      rw [List.nil_append, ahead, ← List.drop_append_of_le_length one, List.take_append_drop,
        List.drop_one]
    obtain ⟨taken, p, next, returned, genuine, merged, stopped⟩ :=
      closestEntries_run registered steps rfl start (.inl (lower ▸ inside))
    have nearRest : Nearest (distance ip) limit rest (taken.map Prod.fst) := by
      refine nearest_of_perm (tail ▸ merged.perm) ?_ merged.order merged.before merged.most ?_
      · rw [first] at nodup
        exact (List.nodup_cons.mp nodup).2
      · rw [List.length_map]
        refine stopped.imp_right ?_
        rintro ⟨rfl, rfl⟩
        rw [List.append_nil, ahead]
        exact List.drop_eq_nil_of_le (List.length_take_le 1 _)
    apply Closest.of_nearest returned genuine
    rw [first] at nodup ⊢
    refine @Nearest.far _ _ _ _ _ _ nearRest (List.nodup_cons.mp nodup).2
      (enough.trans (within_le_length _ _)) [lowest] (List.Perm.refl _) fun f member => ?_
    rw [List.mem_singleton.mp member]
    exact enough

end Here

/-! ## Without `ip` in the index -/

section Absent

variable {s : TrackerStores} {ip : BitVec 32} {limit : Nat} {lows ups : List Entry}
  (registered : ∀ e ∈ s.ipv4PeerIdx.toList, s.trackerPeerInfo.find e.2 ≠ none)

include registered

/-- As long as `it_prev` stays where it is, the entries above are taken from near to far. -/
theorem upward_run (whole : s.ipv4PeerIdx.toList = lows ++ ups) (belows : ∀ e ∈ lows, e.1 < ip)
    (aboves : ∀ e ∈ ups, ip < e.1) (inside : ups ≠ [] ∨ lows = [])
    (stays : ∀ taken next e, taken ++ next = ups → taken.length < limit → lows ≠ [] →
      (lows ++ ups)[lows.length]? = some e → ¬ ∀ n ∈ next.head?, ip - e.1 < n.1 - ip)
    (few : lows = [] ∨ limit ≤ ups.length) :
    ∃ taken, s.closestEntries ip limit = some taken ∧ s.Genuine taken ∧
      Nearest (distance ip) limit ups (taken.map Prod.fst) := by
  have ordered : Ordered ups :=
    s.ordered_toList.sublist (whole ▸ List.sublist_append_right lows ups)
  obtain ⟨lower, upper⟩ := bounds_absent belows aboves
  rw [← whole] at lower upper
  have steps : Steps ip limit s.ipv4PeerIdx.toList
      fun p next taken => p = lows.length ∧ taken ++ next = ups ∧ taken.length ≤ limit := by
    constructor
    · rintro p next taken e ⟨here, parts, -⟩ more there nearer
      rw [here, whole] at there
      have nonempty : lows ≠ [] := by
        rintro rfl
        cases here
      exact absurd nearer (stays taken next e parts more nonempty there)
    · rintro p e next taken ⟨here, parts, -⟩ more -
      exact ⟨here, by rw [List.append_assoc, ← parts]; rfl, by rw [List.length_append]; exact more⟩
  have start : lowerBound ip s.ipv4PeerIdx.toList = lows.length ∧
      ([] : List Entry) ++ s.ipv4PeerIdx.toList.drop (upperBound ip s.ipv4PeerIdx.toList) = ups ∧
      ([] : List Entry).length ≤ limit := by
    refine ⟨lower, ?_, Nat.zero_le _⟩
    rw [upper, whole, List.nil_append, List.drop_left]
  have within_ : lowerBound ip s.ipv4PeerIdx.toList < s.ipv4PeerIdx.toList.length ∨
      lowerBound ip s.ipv4PeerIdx.toList = 0 := by
    rw [lower, whole, List.length_append]
    rcases inside with nonempty | rfl
    · have := List.length_pos_of_ne_nil nonempty
      exact .inl (by omega)
    · exact .inr rfl
  obtain ⟨taken, p, next, returned, genuine, ⟨here, parts, most⟩, stopped⟩ :=
    closestEntries_run registered steps rfl start within_
  have sorted := ordered_above ordered aboves
  rw [← parts, List.pairwise_append] at sorted
  refine ⟨taken, returned, genuine, ?_⟩
  refine nearest_of_perm (List.Perm.of_eq parts) ordered.nodup sorted.1 sorted.2.2 most ?_
  rw [List.length_map]
  exact stopped.imp_right And.right

/-- With all addresses above `ip` the entries are taken in their order. -/
theorem closest_above (above : ∀ e ∈ s.ipv4PeerIdx.toList, ip < e.1) : s.Closest ip limit := by
  obtain ⟨taken, returned, genuine, nearest⟩ := @upward_run s ip limit [] _ registered rfl
    (fun _ member => by cases member) above (.inr rfl)
    (fun _ _ _ _ _ nonempty => absurd rfl nonempty) (.inl rfl)
  exact Closest.of_nearest returned genuine nearest

/-- The entries below count only if the ones above that are as near do not suffice. -/
theorem closest_absent {last : Entry} (whole : s.ipv4PeerIdx.toList = lows ++ [last] ++ ups)
    (belows : ∀ e ∈ lows ++ [last], e.1 < ip) (aboves : ∀ e ∈ ups, ip < e.1)
    (positive : 0 < limit) :
    s.Closest ip limit ↔ limit ≤ (within (distance ip) (distance ip last) ups).length := by
  have all := s.ordered_toList
  rw [whole] at all
  have ordered : Ordered ups := all.sublist (List.sublist_append_right _ ups)
  have sorted := ordered_above ordered aboves
  have nonempty : lows ++ [last] ≠ [] := by simp
  have last_lt : last.1 < ip := belows last (by simp)
  have lastNear : distance ip last = ip.toNat - last.1.toNat :=
    distance_below (BitVec.le_of_lt last_lt)
  -- the entries further below are farther
  have further (f : Entry) (member : f ∈ lows) : distance ip last < distance ip f := by
    have before := (List.pairwise_append.mp (List.pairwise_append.mp all).1).2.2 f member last
      List.mem_cons_self
    have := BitVec.lt_def.mp before
    have := BitVec.lt_def.mp last_lt
    rw [lastNear, distance_below (BitVec.le_of_lt (belows f (List.mem_append_left _ member)))]
    omega
  constructor
  · rintro ⟨taken, returned, -, -, nearest⟩
    rw [whole] at nearest
    by_contra scarce
    -- the last entry below is needed
    have needed : last ∈ taken.map Prod.fst := by
      by_contra out
      have perm : (last :: (lows ++ ups)).Perm (lows ++ [last] ++ ups) := by
        rw [List.append_assoc]
        exact List.perm_middle.symm
      have enough := nearest.enough perm out
      have none : within (distance ip) (distance ip last) lows = [] := by
        rw [within, List.filter_eq_nil_iff]
        intro f member
        simpa using further f member
      rw [within, List.filter_append, ← within, ← within, none, List.nil_append] at enough
      exact scarce enough
    cases ups with
    | nil =>
        rw [List.append_nil] at whole
        have ended := closestEntries_end (whole ▸ nonempty) (whole ▸ belows) positive
        rw [returned] at ended
        cases ended
    | cons u rest =>
        have u_gt := aboves u List.mem_cons_self
        obtain ⟨lower, upper⟩ := bounds_absent belows aboves
        rw [← whole] at lower upper
        -- `it_prev` leaves its first entry only by taking it, too far or a second time
        have steps : Steps ip limit s.ipv4PeerIdx.toList fun p next taken =>
            p = (lows ++ [last]).length ∧ taken ++ next = u :: rest ∨ ¬ taken.Nodup ∨
              taken.head? = some u ∧ distance ip last < distance ip u := by
          have goesOn {taken : List Entry} (e : Entry) (broken : ¬ taken.Nodup ∨
              taken.head? = some u ∧ distance ip last < distance ip u) :
              ¬ (taken ++ [e]).Nodup ∨
                (taken ++ [e]).head? = some u ∧ distance ip last < distance ip u := by
            rcases broken with twice | ⟨head, far⟩
            · exact .inl fun nodup => twice (List.nodup_append.mp nodup).1
            · exact .inr ⟨by rw [List.head?_append, head]; rfl, far⟩
          constructor
          · intro p next taken e now more there nearer
            refine .inr ?_
            rcases now with ⟨here, parts⟩ | broken
            · rw [here, whole, List.getElem?_append_right (Nat.le_refl _), Nat.sub_self] at there
              cases there
              cases taken with
              | cons first taken =>
                  cases parts
                  exact .inl fun nodup => (List.nodup_append.mp nodup).2.2 u List.mem_cons_self u
                    (List.mem_singleton_self u) rfl
              | nil =>
                  rw [List.nil_append] at parts
                  refine .inr ⟨rfl, ?_⟩
                  have closer := BitVec.lt_def.mp (nearer u (by rw [parts]; rfl))
                  have above := BitVec.lt_def.mp u_gt
                  have top := u.1.isLt
                  rw [BitVec.toNat_sub, BitVec.toNat_sub_of_le (BitVec.le_of_lt u_gt)] at closer
                  rw [lastNear, distance_above u_gt]
                  omega
            · exact goesOn e broken
          · intro p e next taken now more nearer
            rcases now with ⟨here, parts⟩ | broken
            · exact .inl ⟨here, by rw [List.append_assoc, ← parts]; rfl⟩
            · exact .inr (goesOn e broken)
        have start : lowerBound ip s.ipv4PeerIdx.toList = (lows ++ [last]).length ∧
            ([] : List Entry) ++ s.ipv4PeerIdx.toList.drop (upperBound ip s.ipv4PeerIdx.toList) =
              u :: rest := by
          refine ⟨lower, ?_⟩
          rw [upper, whole, List.nil_append, List.drop_left]
        have within_ : lowerBound ip s.ipv4PeerIdx.toList < s.ipv4PeerIdx.toList.length := by
          have length : s.ipv4PeerIdx.toList.length =
              (lows ++ [last]).length + (u :: rest).length := by rw [whole, List.length_append]
          rw [lower, length, List.length_cons]
          omega
        obtain ⟨taken', p, next, returned', -, now, -⟩ :=
          closestEntries_run registered steps rfl (.inl start) (.inl within_)
        rw [returned] at returned'
        cases returned'
        rcases now with ⟨-, parts⟩ | twice | ⟨head, far⟩
        · have above : last ∈ u :: rest := parts ▸ List.mem_append_left next needed
          exact BitVec.lt_asymm last_lt (aboves last above)
        · exact twice nearest.nodup
        · have order := nearest.order
          cases list : taken.map Prod.fst with
          | nil =>
              rw [list] at needed
              cases needed
          | cons first others =>
              rw [list] at head needed order
              cases head
              rcases List.mem_cons.mp needed with rfl | later
              · omega
              · have := (List.pairwise_cons.mp order).1 last later
                omega
  · intro enough
    have few := enough.trans (within_le_length _ ups)
    have some_ : ups ≠ [] := by
      rintro rfl
      exact absurd few (Nat.not_le.mpr positive)
    -- the difference that wraps is never the smaller one
    have stays (taken next : List Entry) (e : Entry) (parts : taken ++ next = ups)
        (more : taken.length < limit) (_ : lows ++ [last] ≠ [])
        (there : (lows ++ [last] ++ ups)[(lows ++ [last]).length]? = some e) :
        ¬ ∀ n ∈ next.head?, ip - e.1 < n.1 - ip := by
      intro nearer
      rw [List.getElem?_append_right (Nat.le_refl _), Nat.sub_self] at there
      have inside : taken.length < ups.length := by omega
      have here : ups[taken.length]? = some ups[taken.length] := List.getElem?_eq_getElem inside
      have head : next.head? = some ups[taken.length] := by
        rw [← here, ← parts, List.getElem?_append_right (Nat.le_refl _), Nat.sub_self,
          List.head?_eq_getElem?]
      have closer := BitVec.lt_def.mp (nearer _ head)
      have near := distance_getElem_le sorted (Nat.lt_of_lt_of_le more enough) here
      have first := distance_getElem_le sorted (Nat.lt_of_lt_of_le positive enough) there
      have e_gt := aboves e (List.mem_of_getElem? there)
      have n_gt := aboves _ (List.getElem_mem inside)
      rw [distance_above n_gt] at near
      rw [distance_above e_gt] at first
      rw [BitVec.toNat_sub, BitVec.toNat_sub_of_le (BitVec.le_of_lt n_gt)] at closer
      have := BitVec.lt_def.mp e_gt
      have := BitVec.lt_def.mp n_gt
      have := ups[taken.length].1.isLt
      omega
    obtain ⟨taken, returned, genuine, nearest⟩ :=
      upward_run registered whole belows aboves (.inl some_) stays (.inr few)
    apply Closest.of_nearest returned genuine
    rw [whole]
    refine nearest.far ordered.nodup few (List.Perm.refl _) fun f member => enough.trans ?_
    have le : distance ip last ≤ distance ip f := by
      rcases List.mem_append.mp member with low | same
      · exact (further f low).le
      · rw [List.mem_singleton.mp same]
    exact (List.monotone_filter_right ups fun e close =>
      decide_eq_true ((of_decide_eq_true close).trans le)).length_le

end Absent

/-! ## The result -/

theorem closest_zero (s : TrackerStores) (ip : BitVec 32) : s.Closest ip 0 := by
  refine Closest.of_nearest (closestEntries_zero s ip) (fun r member => (by cases member)) ?_
  exact ⟨(Nat.zero_min _).symm, List.nodup_nil, fun a member => (by cases member),
    List.Pairwise.nil, fun a _ _ t member => (by cases member)⟩

/-- Of the entries around `ip`, those above it. -/
theorem filter_above {ip : BitVec 32} {lows ups : List Entry} (belows : ∀ e ∈ lows, e.1 < ip)
    (aboves : ∀ e ∈ ups, ip < e.1) : (lows ++ ups).filter (fun e => ip < e.1) = ups := by
  have none : lows.filter (fun e => ip < e.1) = [] := by
    rw [List.filter_eq_nil_iff]
    intro e member above
    exact BitVec.lt_asymm (belows e member) (of_decide_eq_true above)
  have all : ups.filter (fun e => ip < e.1) = ups := by
    rw [List.filter_eq_self]
    intro e member
    exact decide_eq_true (aboves e member)
  rw [List.filter_append, none, all, List.nil_append]

/-- **The closest peers are returned exactly if the entries passed over are not needed.** -/
theorem closest_iff (s : TrackerStores)
    (registered : ∀ (ip : BitVec 32) (id : PeerId512), s.ipv4PeerIdx[ip]? = some id →
      s.trackerPeerInfo.find id ≠ none) (ip : BitVec 32) (limit : Nat) :
    s.Closest ip limit ↔ Needless ip limit s.ipv4PeerIdx.toList := by
  have registered (e : Entry) (member : e ∈ s.ipv4PeerIdx.toList) :
      s.trackerPeerInfo.find e.2 ≠ none :=
    registered e.1 e.2 (ExtTreeMap.mem_toList_iff_getElem?_eq_some.mp member)
  rcases Nat.eq_zero_or_pos limit with rfl | positive
  · exact ⟨fun _ => .inl rfl, fun _ => closest_zero s ip⟩
  have ordered := s.ordered_toList
  obtain ⟨lows, rest, whole, belows, rest_⟩ := split_at ordered ip
  rcases rest_ with aboves | ⟨here, ups, rfl, same, aboves⟩
  · have absent (e : Entry) (member : e ∈ s.ipv4PeerIdx.toList) : e.1 ≠ ip := by
      rw [whole] at member
      rcases List.mem_append.mp member with low | up
      · exact (BitVec.ne_of_lt (belows e low))
      · exact (BitVec.ne_of_lt (aboves e up)).symm
    rcases List.eq_nil_or_concat lows with rfl | ⟨lows, last, rfl⟩
    · have above : ∀ e ∈ s.ipv4PeerIdx.toList, ip < e.1 := whole ▸ aboves
      exact ⟨fun _ => .inr (.inl above), fun _ => closest_above registered above⟩
    · rw [List.concat_eq_append] at whole belows
      have last_lt := belows last (by simp)
      have there : last ∈ s.ipv4PeerIdx.toList := by
        rw [whole]
        simp
      have highest (e : Entry) (member : e ∈ s.ipv4PeerIdx.toList) (below : e.1 < ip) :
          e.1 ≤ last.1 := by
        rw [whole] at member ordered
        rcases List.mem_append.mp member with low | up
        · rcases List.mem_append.mp low with before | same
          · exact BitVec.le_of_lt ((List.pairwise_append.mp (List.pairwise_append.mp ordered).1).2.2
              e before last List.mem_cons_self)
          · rw [List.mem_singleton.mp same]
            exact BitVec.le_refl _
        · exact absurd below (BitVec.lt_asymm (aboves e up))
      rw [closest_absent registered whole belows aboves positive]
      constructor
      · intro enough
        refine .inr (.inr (.inr ⟨last, there, last_lt, highest, absent, ?_⟩))
        rwa [whole, filter_above belows aboves]
      · rintro (zero | above | ⟨_, _, _, ⟨e, member, same⟩, _⟩ |
          ⟨last', there', lt, highest', _, enough⟩)
        · omega
        · exact absurd (above last there) (BitVec.lt_asymm last_lt)
        · exact absurd same (absent e member)
        · have near : distance ip last' = distance ip last := by
            have le := BitVec.le_antisymm (highest last' there' lt) (highest' last there last_lt)
            rw [distance, distance, le]
          rwa [whole, filter_above belows aboves, near] at enough
  · have there : here ∈ s.ipv4PeerIdx.toList := by
      rw [whole]
      simp
    obtain ⟨lowest, others, first⟩ : ∃ lowest others, s.ipv4PeerIdx.toList = lowest :: others :=
      List.exists_cons_of_ne_nil (List.ne_nil_of_mem there)
    rw [closest_here registered whole belows same aboves first]
    constructor
    · intro enough
      exact .inr (.inr (.inl ⟨lowest, others, first, ⟨here, there, same⟩, enough⟩))
    · rintro (zero | above | ⟨lowest', others', first', _, enough⟩ | ⟨_, _, _, _, absent, _⟩)
      · omega
      · have := above here there
        rw [same] at this
        exact absurd this (BitVec.lt_irrefl ip)
      · rw [first] at first'
        cases first'
        exact enough
      · exact absurd same (absent here there)

/-- One registered peer under one address. -/
def oneKey (key : BitVec 32) (id : PeerId512) : TrackerStores where
  removedPeers := ⟨[], List.nodup_nil⟩
  trackerPeerInfo := ⟨[(id, ⟨id, .UDPv4, ⟨key, 0⟩, []⟩)], List.nodup_singleton _⟩
  ipv4PeerIdx := (∅ : ExtTreeMap (BitVec 32) PeerId512).insert key id
  connForwardInfo := ⟨[]⟩

theorem getElem?_oneKey {key ip : BitVec 32} {id id' : PeerId512} :
    (oneKey key id).ipv4PeerIdx[ip]? = some id' ↔ ip = key ∧ id = id' := by
  rw [oneKey, OrderedMap.getElem?_insert]
  by_cases same : ip = key
  · simp [same]
  · simp [same]

theorem oneKey_registered (key : BitVec 32) (id : PeerId512) (ip : BitVec 32) (id' : PeerId512)
    (there : (oneKey key id).ipv4PeerIdx[ip]? = some id') :
    (oneKey key id).trackerPeerInfo.find id' ≠ none := by
  obtain ⟨-, rfl⟩ := getElem?_oneKey.mp there
  simp [oneKey, UnorderedMap.find]

theorem mem_oneKey {key : BitVec 32} {id : PeerId512} {e : Entry} :
    e ∈ (oneKey key id).ipv4PeerIdx.toList ↔ e = (key, id) := by
  obtain ⟨ip, id'⟩ := e
  rw [ExtTreeMap.mem_toList_iff_getElem?_eq_some, getElem?_oneKey, Prod.mk.injEq, @eq_comm _ id]

/-- The only address is above 3. -/
theorem closest_iff_above : (oneKey 5 0).Closest 3 1 := by
  refine (closest_iff (oneKey 5 0) (oneKey_registered 5 0) 3 1).mpr (.inr (.inl ?_))
  intro e member
  rw [mem_oneKey.mp member]
  decide

/-- **Refuted**: the only address is below 10, and the entry behind it is read. -/
theorem closest_refuted :
    ¬ ∀ (s : TrackerStores), (∀ (ip : BitVec 32) (id : PeerId512), s.ipv4PeerIdx[ip]? = some id →
      s.trackerPeerInfo.find id ≠ none) → ∀ (ip : BitVec 32) (limit : Nat), s.Closest ip limit := by
  intro always
  obtain ⟨taken, returned, -⟩ := always (oneKey 5 0) (oneKey_registered 5 0) 10 1
  have there : ((5, 0) : Entry) ∈ (oneKey 5 0).ipv4PeerIdx.toList := mem_oneKey.mpr rfl
  have below : ∀ e ∈ (oneKey 5 0).ipv4PeerIdx.toList, e.1 < (10 : BitVec 32) := by
    intro e member
    rw [mem_oneKey.mp member]
    decide
  rw [closestEntries_end (List.ne_nil_of_mem there) below Nat.one_pos] at returned
  cases returned

end TrackerStores

end UdpStuff.Tracker
