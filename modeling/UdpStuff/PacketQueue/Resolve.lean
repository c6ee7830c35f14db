/-
# PacketQueue.Resolve — where `resolve_seq` ends

`resolve_seq` follows `seq_mapping` until a number is not in it.  Nothing says that it
gets there: the map is public, the class only erases from it, and a number that is mapped
to itself, directly or through others, keeps the loop going for good.

`resolve_terminates_iff`: it ends for a number exactly when the mapping does not lead
from there into a cycle, and the loops over ranges end for all arguments exactly when
there is no cycle at all.
-/
import UdpStuff.PacketQueue.RecvQueue
import UdpStuff.Theory.Links

namespace UdpStuff.PacketQueue

open Theory Theory.Links

set_option autoImplicit false

namespace PacketRecvQueue

/-- What `seq_mapping` makes of a number. -/
def redirect (q : PacketRecvQueue) (seq : Seq) : Option Seq := q.seqMapping[seq]?

theorem resolveFrom_eq (q : PacketRecvQueue) (fuel : Nat) (seq : Seq) :
    q.resolveFrom fuel seq = follow q.redirect fuel seq := by
  induction fuel generalizing seq with
  | zero => rfl
  | succ fuel ih =>
      rw [resolveFrom, follow, redirect]
      cases q.seqMapping[seq]? with
      | none => rfl
      | some next => exact ih next

/-- All sequence numbers. -/
def allSeqs : Finset Seq := (Finset.range (2 ^ 16)).image (BitVec.ofNat 16)

theorem mem_allSeqs (seq : Seq) : seq ∈ allSeqs :=
  Finset.mem_image.mpr ⟨seq.toNat, Finset.mem_range.mpr seq.isLt, BitVec.ofNat_toNat 16 seq⟩

theorem card_allSeqs : allSeqs.card ≤ 2 ^ 16 := by
  have image := @Finset.card_image_le _ _ (Finset.range (2 ^ 16)) (BitVec.ofNat 16) _
  rwa [Finset.card_range] at image

/-- The lookups that `resolveSeq` is given are enough. -/
theorem resolveSeq_of_ends {q : PacketRecvQueue} {seq : Seq} (ends : Ends q.redirect seq) :
    ∃ seq', q.resolveSeq seq = some seq' := by
  obtain ⟨seq', returns⟩ := follow_of_ends ends fun b _ => mem_allSeqs b
  refine ⟨seq', ?_⟩
  rw [resolveSeq, resolveFrom_eq]
  exact follow_mono (Nat.add_le_add_right card_allSeqs 1) returns

theorem ends_of_resolveSeq {q : PacketRecvQueue} {seq seq' : Seq}
    (returns : q.resolveSeq seq = some seq') : Ends q.redirect seq := by
  rw [resolveSeq, resolveFrom_eq] at returns
  exact ends_of_follow returns

/-- The loop ends, after some number of lookups. -/
def ResolveReturns (q : PacketRecvQueue) (seq : Seq) : Prop :=
  ∃ fuel seq', q.resolveFrom fuel seq = some seq'

theorem resolveReturns_iff (q : PacketRecvQueue) (seq : Seq) :
    q.ResolveReturns seq ↔ Ends q.redirect seq := by
  simp only [ResolveReturns, resolveFrom_eq]
  exact exists_follow_iff mem_allSeqs seq

/-! ## The loops over ranges -/

/-- The three loops over a range end. -/
structure RangeReturns (q : PacketRecvQueue) (start stop : Seq) : Prop where
  computeRangeSize : ∃ size, q.computeRangeSize start stop = some size
  findMissingPackets : ∀ missing, ∃ all, q.findMissingPackets start stop missing = some all
  copyData : ∀ mem, ∃ result, q.copyData mem start stop = some result

theorem computeRangeSizeLoop_returns {q : PacketRecvQueue} (acyclic : Acyclic q.redirect)
    (range : List Seq) (size : BitVec 32) : ∃ total, q.computeRangeSizeLoop range size = some total := by
  induction range generalizing size with
  | nil => exact ⟨size, rfl⟩
  | cons i rest ih =>
      obtain ⟨seq, resolved⟩ := resolveSeq_of_ends (acyclic_iff.mp acyclic i)
      rw [computeRangeSizeLoop, resolved]
      dsimp only
      cases q.packets[seq]? with
      | none => exact ⟨_, rfl⟩
      | some p => exact ih _

theorem findMissingPacketsLoop_returns {q : PacketRecvQueue} (acyclic : Acyclic q.redirect)
    (range missing : List Seq) : ∃ all, q.findMissingPacketsLoop range missing = some all := by
  induction range generalizing missing with
  | nil => exact ⟨missing, rfl⟩
  | cons i rest ih =>
      obtain ⟨seq, resolved⟩ := resolveSeq_of_ends (acyclic_iff.mp acyclic i)
      rw [findMissingPacketsLoop, resolved]
      dsimp only
      cases q.packets[seq]? with
      | none => exact ih _
      | some p => exact ih _

theorem copyDataLoop_returns {q : PacketRecvQueue} (acyclic : Acyclic q.redirect)
    (range : List Seq) (mem : Mem) (offset : BitVec 32) :
    ∃ result, q.copyDataLoop range mem offset = some result := by
  induction range generalizing mem offset with
  | nil => exact ⟨_, rfl⟩
  | cons i rest ih =>
      obtain ⟨seq, resolved⟩ := resolveSeq_of_ends (acyclic_iff.mp acyclic i)
      rw [copyDataLoop, resolved]
      dsimp only
      cases q.packets[seq]? with
      | none => exact ⟨_, rfl⟩
      | some p =>
          dsimp only
          split
          · exact ih _ _
          · exact ih _ _

theorem rangeReturns_of_acyclic {q : PacketRecvQueue} (acyclic : Acyclic q.redirect)
    (start stop : Seq) : q.RangeReturns start stop where
  computeRangeSize := computeRangeSizeLoop_returns acyclic _ _
  findMissingPackets missing := findMissingPacketsLoop_returns acyclic _ missing
  copyData mem := copyDataLoop_returns acyclic _ mem _

/-- A range of one number is as good as resolving it. -/
theorem ends_of_rangeReturns {q : PacketRecvQueue} {seq : Seq}
    (returns : q.RangeReturns seq (seq + 1)) : Ends q.redirect seq := by
  obtain ⟨size, computed⟩ := returns.computeRangeSize
  have one : wrapRange seq (seq + 1) = [seq] := by
    rw [wrapRange_cons (by simp), wrapRange_self]
  rw [computeRangeSize, one, computeRangeSizeLoop] at computed
  cases resolved : q.resolveSeq seq with
  | none =>
      rw [resolved] at computed
      cases computed
  | some seq' => exact ends_of_resolveSeq resolved

/-- **Resolving ends** for a number exactly when the mapping does not lead from it into a
cycle, and the loops over ranges end everywhere exactly when there is no cycle. -/
theorem resolve_terminates_iff (q : PacketRecvQueue) :
    (∀ seq, q.ResolveReturns seq ↔ Ends q.redirect seq) ∧
      ((∀ start stop, q.RangeReturns start stop) ↔ Acyclic q.redirect) := by
  refine ⟨q.resolveReturns_iff, fun returns => ?_, rangeReturns_of_acyclic⟩
  rw [acyclic_iff]
  exact fun seq => ends_of_rangeReturns (returns seq (seq + 1))

/-- **Refuted**: one number is mapped to itself. -/
theorem resolve_terminates_refuted : ¬ ∀ (q : PacketRecvQueue) (seq : Seq), q.ResolveReturns seq := by
  intro always
  let q : PacketRecvQueue := { seqMapping := (∅ : Std.ExtTreeMap Seq Seq).insert 1 1 }
  have link : Link q.redirect 1 1 := Std.ExtTreeMap.getElem?_insert_self
  exact (q.resolveReturns_iff 1).mp (always q 1) 1 .refl (.single link)

end PacketRecvQueue

end UdpStuff.PacketQueue
