/-
# PacketQueue.RangeWalks — three loops over one range

`compute_range_size`, `find_missing_packets` and `copy_data` walk the same numbers and
resolve them in the same way.  The first two tell of a missing packet by `-1` and by the
numbers found, the third by its exception.  `-1` is no size: data packets have even sizes,
and so have their sums, also where these wrap.

`range_walks_agree`: the three tell the same of every range, and without a missing packet
the size is where `copy_data` ends.
-/
import UdpStuff.PacketQueue.Resolve

namespace UdpStuff.PacketQueue

open Theory Theory.Links

set_option autoImplicit false

namespace PacketRecvQueue

theorem lookup_of_acyclic {q : PacketRecvQueue} (acyclic : Acyclic q.redirect) (i : Seq) :
    ∃ found, q.lookup i = some found := by
  obtain ⟨seq, resolved⟩ := resolveSeq_of_ends (acyclic_iff.mp acyclic i)
  exact ⟨q.packets[seq]?, by rw [lookup, resolved, Option.map_some]⟩

theorem lookup_absent_iff {q : PacketRecvQueue} {i : Seq} :
    q.lookup i = some none ↔ ∃ seq, q.resolveSeq i = some seq ∧ q.packets[seq]? = none := by
  rw [lookup, Option.map_eq_some_iff]

/-! ## A number without a packet -/

theorem findMissingPacketsLoop_absent {q : PacketRecvQueue} {i : Seq}
    (looked : q.lookup i = some none) (rest missing : List Seq) :
    q.findMissingPacketsLoop (i :: rest) missing =
      q.findMissingPacketsLoop rest (missing ++ [i]) := by
  obtain ⟨seq, resolved, stored⟩ := lookup_eq_some looked
  simp only [findMissingPacketsLoop, resolved, stored]

theorem findMissingPacketsLoop_cons {q : PacketRecvQueue} {i : Seq} {p : PacketDescr}
    (looked : q.lookup i = some (some p)) (rest missing : List Seq) :
    q.findMissingPacketsLoop (i :: rest) missing = q.findMissingPacketsLoop rest missing := by
  obtain ⟨seq, resolved, stored⟩ := lookup_eq_some looked
  simp only [findMissingPacketsLoop, resolved, stored]

theorem computeRangeSizeLoop_absent {q : PacketRecvQueue} {i : Seq}
    (looked : q.lookup i = some none) (rest : List Seq) (size : BitVec 32) :
    q.computeRangeSizeLoop (i :: rest) size = some (-1) := by
  obtain ⟨seq, resolved, stored⟩ := lookup_eq_some looked
  simp only [computeRangeSizeLoop, resolved, stored]

theorem copyDataLoop_absent {q : PacketRecvQueue} {i : Seq} (looked : q.lookup i = some none)
    (rest : List Seq) (mem : Mem) (offset : BitVec 32) :
    q.copyDataLoop (i :: rest) mem offset = some ⟨mem, offset, some "Packet not found"⟩ := by
  obtain ⟨seq, resolved, stored⟩ := lookup_eq_some looked
  simp only [copyDataLoop, resolved, stored]

/-! ## What the loops find -/

/-- The numbers without a packet, appended in order. -/
theorem findMissingPacketsLoop_eq {q : PacketRecvQueue} (acyclic : Acyclic q.redirect)
    (range missing : List Seq) :
    q.findMissingPacketsLoop range missing =
      some (missing ++ range.filter fun i => q.lookup i = some none) := by
  induction range generalizing missing with
  | nil => rw [findMissingPacketsLoop, List.filter_nil, List.append_nil]
  | cons i rest ih =>
      obtain ⟨found, looked⟩ := lookup_of_acyclic acyclic i
      cases found with
      | none =>
          rw [findMissingPacketsLoop_absent looked, ih, List.filter_cons_of_pos (by simpa using looked),
            List.append_assoc, List.singleton_append]
      | some p =>
          rw [findMissingPacketsLoop_cons looked, ih, List.filter_cons_of_neg (by simp [looked])]

theorem size_even {p : PacketDescr} (data : p.isData = true) : p.size.toNat % 2 = 0 := by
  rw [p.size_toNat]
  exact p.isData_iff.mp data

/-- What a number with a packet adds to an even size is even. -/
theorem add_even {size : BitVec 32} (even : size.toNat % 2 = 0) (p : PacketDescr) :
    (if p.isData then size + p.size else size).toNat % 2 = 0 := by
  by_cases data : p.isData = true
  · have parity := size_even data
    rw [if_pos data, BitVec.toNat_add]
    omega
  · rw [if_neg data]
    exact even

/-- With all packets there, the two loops add up the same, to an even size. -/
theorem walks_present {q : PacketRecvQueue} {range : List Seq}
    (present : ∀ i ∈ range, ∃ p, q.lookup i = some (some p)) {size : BitVec 32}
    (even : size.toNat % 2 = 0) (mem : Mem) :
    ∃ total mem', total.toNat % 2 = 0 ∧ q.computeRangeSizeLoop range size = some total ∧
      q.copyDataLoop range mem size = some ⟨mem', total, none⟩ := by
  induction range generalizing size mem with
  | nil => exact ⟨size, mem, even, rfl, rfl⟩
  | cons i rest ih =>
      obtain ⟨p, looked⟩ := present i List.mem_cons_self
      have others (j : Seq) (member : j ∈ rest) := present j (List.mem_cons_of_mem _ member)
      have later := add_even even p
      rw [computeRangeSizeLoop_cons looked, copyDataLoop_cons looked]
      by_cases data : p.isData = true
      · rw [if_pos data] at later ⊢
        rw [if_pos data]
        exact ih others later _
      · rw [if_neg data] at later ⊢
        rw [if_neg data]
        exact ih others later _

/-- Where a packet is missing, the one returns `-1` and the other throws. -/
theorem walks_absent {q : PacketRecvQueue} (acyclic : Acyclic q.redirect) {range : List Seq}
    {i : Seq} (member : i ∈ range) (absent : q.lookup i = some none) (size : BitVec 32) (mem : Mem)
    (offset : BitVec 32) :
    q.computeRangeSizeLoop range size = some (-1) ∧
      ∃ mem' offset', q.copyDataLoop range mem offset =
        some ⟨mem', offset', some "Packet not found"⟩ := by
  induction range generalizing size mem offset with
  | nil => cases member
  | cons j rest ih =>
      obtain ⟨found, looked⟩ := lookup_of_acyclic acyclic j
      cases found with
      | none => exact ⟨computeRangeSizeLoop_absent looked _ _, _, _, copyDataLoop_absent looked _ _ _⟩
      | some p =>
          have later : i ∈ rest := by
            rcases List.mem_cons.mp member with rfl | later
            · rw [absent] at looked
              cases looked
            · exact later
          rw [computeRangeSizeLoop_cons looked, copyDataLoop_cons looked]
          refine ⟨(ih later _ mem offset).1, ?_⟩
          split
          · exact (ih later size _ _).2
          · exact (ih later size _ _).2

/-- **The three walks agree** on every range of a queue without cycles: `-1`, a number found
and the exception all mean a missing packet.  The numbers found are those without a packet, in
the order of the range, and without any the size is the final offset. -/
theorem range_walks_agree (q : PacketRecvQueue) (acyclic : Acyclic q.redirect) (start stop : Seq) :
    ∃ size found, q.computeRangeSize start stop = some size ∧
      (∀ missing, q.findMissingPackets start stop missing = some (missing ++ found)) ∧
      (∀ i, i ∈ found ↔ (i - start).toNat < (stop - start).toNat ∧
        ∃ seq, q.resolveSeq i = some seq ∧ q.packets[seq]? = none) ∧
      found.Pairwise (fun i j => (i - start).toNat < (j - start).toNat) ∧
      (size = 0xFFFFFFFF ↔ found ≠ []) ∧
      ∀ mem, ∃ result, q.copyData mem start stop = some result ∧
        (result.error ≠ none ↔ found ≠ []) ∧ (found = [] → size = result.offset) := by
  have order := (wrapRange_pairwise start stop).filter fun i => decide (q.lookup i = some none)
  have members (i : Seq) : i ∈ (wrapRange start stop).filter (fun i => q.lookup i = some none) ↔
      (i - start).toNat < (stop - start).toNat ∧
        ∃ seq, q.resolveSeq i = some seq ∧ q.packets[seq]? = none := by
    rw [List.mem_filter, mem_wrapRange, decide_eq_true_eq, lookup_absent_iff]
  have finds (missing : List Seq) := findMissingPacketsLoop_eq acyclic (wrapRange start stop) missing
  cases absent : (wrapRange start stop).filter fun i => q.lookup i = some none with
  | nil =>
      have present (i : Seq) (member : i ∈ wrapRange start stop) :
          ∃ p, q.lookup i = some (some p) := by
        obtain ⟨found, looked⟩ := lookup_of_acyclic acyclic i
        cases found with
        | none => exact absurd looked (by simpa using List.filter_eq_nil_iff.mp absent i member)
        | some p => exact ⟨p, looked⟩
      rw [absent] at order members finds
      obtain ⟨size, -, even, computed, -⟩ :=
        walks_present present (by decide : (0 : BitVec 32).toNat % 2 = 0) (fun _ => 0)
      refine ⟨size, [], computed, finds, members, order, ⟨?_, fun some => absurd rfl some⟩,
        fun mem => ?_⟩
      · rintro rfl
        cases even
      · obtain ⟨size', mem', -, computed', copied⟩ :=
          walks_present present (by decide : (0 : BitVec 32).toNat % 2 = 0) mem
        have same : size = size' := Option.some.inj (computed.symm.trans computed')
        exact ⟨_, copied, ⟨fun error => absurd rfl error, fun some => absurd rfl some⟩,
          fun _ => same⟩
  | cons i rest =>
      have first : i ∈ (wrapRange start stop).filter fun i => q.lookup i = some none := by
        rw [absent]
        exact List.mem_cons_self
      obtain ⟨inside, looked⟩ := List.mem_filter.mp first
      have walks := walks_absent acyclic inside (decide_eq_true_eq.mp looked) 0
      rw [absent] at order members finds
      refine ⟨_, i :: rest, (walks (fun _ => 0) 0).1, finds, members, order,
        ⟨fun _ => List.cons_ne_nil _ _, fun _ => rfl⟩, fun mem => ?_⟩
      obtain ⟨-, mem', offset', thrown⟩ := walks mem 0
      refine ⟨_, thrown, ⟨fun _ => List.cons_ne_nil _ _, fun _ none => ?_⟩, fun none => ?_⟩
      · cases none
      · cases none

/-- Number 2 is redirected to the only packet, number 3 has none. -/
def redirected : PacketRecvQueue where
  packets := (∅ : Std.ExtTreeMap Seq PacketDescr).insert 1 ⟨[7, 7], by decide⟩
  seqMapping := (∅ : Std.ExtTreeMap Seq Seq).insert 2 1

theorem redirected_acyclic : Acyclic redirected.redirect := by
  have at2 : Link redirected.redirect 2 1 := Std.ExtTreeMap.getElem?_insert_self
  have unlinked {i : Seq} (other : i ≠ 2) : redirected.redirect i = none := by
    have apart : ¬ compare (2 : Seq) i = .eq := by
      rw [Std.LawfulEqCmp.compare_eq_iff_eq]
      exact other.symm
    rw [redirect, redirected, Std.ExtTreeMap.getElem?_insert, if_neg apart]
    rfl
  rw [acyclic_iff]
  intro i
  by_cases two : i = 2
  · rw [two]
    exact ends_of_linked at2 (ends_of_unlinked (unlinked (by decide)))
  · exact ends_of_unlinked (unlinked two)

/-- The walks over 1, 2 and 3. -/
theorem range_walks_agree_redirected :
    ∃ size found, redirected.computeRangeSize 1 4 = some size ∧
      (∀ missing, redirected.findMissingPackets 1 4 missing = some (missing ++ found)) ∧
      (∀ i : Seq, i ∈ found ↔ (i - 1).toNat < ((4 : Seq) - 1).toNat ∧
        ∃ seq, redirected.resolveSeq i = some seq ∧ redirected.packets[seq]? = none) ∧
      found.Pairwise (fun i j : Seq => (i - 1).toNat < (j - 1).toNat) ∧
      (size = 0xFFFFFFFF ↔ found ≠ []) ∧
      ∀ mem, ∃ result, redirected.copyData mem 1 4 = some result ∧
        (result.error ≠ none ↔ found ≠ []) ∧ (found = [] → size = result.offset) :=
  range_walks_agree redirected redirected_acyclic 1 4

end PacketRecvQueue

end UdpStuff.PacketQueue
