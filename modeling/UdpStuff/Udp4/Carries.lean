/-
# Udp4.Carries — carries at the end and carries at once

`ChecksumCalculator` adds 16-bit words up in 32 bits and brings the carries in when it
finishes.  `addWord` is the addition that the rule for the checksum is written in: the
carry of each word comes back in at the low end before the next word.

`finish_words`: as long as the plain sum fits in 32 bits the two give the same word,
zero and all ones kept apart, and so it matters neither in which order the words are
added nor how they are cut into calls of `add`.
-/
import UdpStuff.Udp4.Checksum

namespace UdpStuff.Udp4

open Theory ByteOrder

set_option autoImplicit false

namespace ChecksumCalculator

/-- One's complement addition of words: a carry is added back. -/
def addWord (s w : BitVec 16) : BitVec 16 := if s.uaddOverflow w then s + w + 1 else s + w

/-- The words that `add` loads from whole words of data. -/
def loaded (order : ByteOrder) (data : Mem) (l : Nat) : List (BitVec 16) :=
  (List.range (l / 2)).map fun i => order.load 16 (block data (2 * i) 2)

/-- The sum after `add` was called for one piece of data after the other. -/
def addAll (order : ByteOrder) (pieces : List (Mem × Nat)) : BitVec 32 :=
  pieces.foldl (fun sum piece => add order sum piece.1 piece.2) 0

theorem toNat_addWord (s w : BitVec 16) :
    (addWord s w).toNat = addCarry 65535 s.toNat w.toNat := by
  have left := s.isLt
  have right := w.isLt
  unfold addWord addCarry
  simp only [BitVec.uaddOverflow, decide_eq_true_eq]
  split
  case isTrue carry =>
    rw [if_neg (by omega), BitVec.toNat_add, BitVec.toNat_add]
    show ((s.toNat + w.toNat) % 65536 + 1) % 65536 = _
    omega
  case isFalse fits =>
    rw [if_pos (by omega), BitVec.toNat_add]
    show (s.toNat + w.toNat) % 65536 = _
    omega

theorem toNat_foldl_addWord (ws : List (BitVec 16)) :
    (ws.foldl addWord 0).toNat = onesSum 65535 (ws.map BitVec.toNat) := by
  suffices from_any : ∀ s : BitVec 16,
      (ws.foldl addWord s).toNat = (ws.map BitVec.toNat).foldl (addCarry 65535) s.toNat from
    from_any 0
  induction ws with
  | nil =>
      intro s
      rfl
  | cons w ws ih =>
      intro s
      rw [List.foldl_cons, ih, toNat_addWord]
      rfl

/-- What one `add` of whole words adds, on a machine of either byte order. -/
theorem toNat_add_loaded (order : ByteOrder) (sum : BitVec 32) (data : Mem) {l : Nat}
    (two : 2 ≤ l) (even : l % 2 = 0) :
    (add order sum data l).toNat =
      (sum.toNat + ((loaded order data l).map BitVec.toNat).sum) % 2 ^ 32 := by
  have whole : max 1 (l / 2) = l / 2 := by omega
  have widen (v : BitVec 16) : (v.setWidth 32).toNat = v.toNat := by
    have fits := v.isLt
    rw [BitVec.toNat_setWidth, Nat.mod_eq_of_lt (by omega)]
  have loop := toNat_foldl_add
    (fun i => (order.load 16 (block data (2 * i) 2)).setWidth 32) (List.range (l / 2)) sum
  simp only [widen] at loop
  unfold add
  rw [whole, if_neg (by omega), loop, loaded, List.map_map]
  rfl

theorem toNat_addAll (order : ByteOrder) (pieces : List (Mem × Nat))
    (whole : ∀ piece ∈ pieces, 2 ≤ piece.2 ∧ piece.2 % 2 = 0) :
    (addAll order pieces).toNat =
      ((pieces.flatMap fun piece => loaded order piece.1 piece.2).map BitVec.toNat).sum
        % 2 ^ 32 := by
  suffices from_any : ∀ sum : BitVec 32,
      (pieces.foldl (fun sum piece => add order sum piece.1 piece.2) sum).toNat =
        (sum.toNat +
          ((pieces.flatMap fun piece => loaded order piece.1 piece.2).map BitVec.toNat).sum)
            % 2 ^ 32 by
    have start := from_any 0
    rwa [show (0 : BitVec 32).toNat = 0 from rfl, Nat.zero_add] at start
  induction pieces with
  | nil =>
      intro sum
      exact (Nat.mod_eq_of_lt sum.isLt).symm
  | cons piece pieces ih =>
      intro sum
      obtain ⟨two, even⟩ := whole piece List.mem_cons_self
      have later := ih (fun other member => whole other (List.mem_cons_of_mem _ member))
      rw [List.foldl_cons, later, toNat_add_loaded order sum piece.1 two even, Nat.mod_add_mod,
        List.flatMap_cons, List.map_append, List.sum_append, Nat.add_assoc]

/-- `finish` depends on the words through their plain sum only. -/
theorem finish_sum (ws : List (BitVec 16)) {sum : BitVec 32}
    (plain : sum.toNat = (ws.map BitVec.toNat).sum) :
    finish sum = ~~~ (ws.foldl addWord 0) := by
  obtain ⟨r, isSum, complement⟩ := finish_spec sum
  have bounded : ∀ w ∈ ws.map BitVec.toNat, w ≤ 65535 := by
    intro w member
    obtain ⟨v, -, rfl⟩ := List.mem_map.mp member
    have := v.isLt
    omega
  have atOnce := isSum_onesSum bounded
  rw [← plain, ← toNat_foldl_addWord] at atOnce
  apply BitVec.eq_of_toNat_eq
  rw [complement, isSum.unique atOnce, BitVec.toNat_not]

/-- **The carries may wait to the end**, and the words may come in any order, in any number
of calls. -/
theorem finish_words (order : ByteOrder) (ws : List (BitVec 16))
    (fits : (ws.map BitVec.toNat).sum < 2 ^ 32) :
    finish (BitVec.ofNat 32 (ws.map BitVec.toNat).sum) = ~~~ (ws.foldl addWord 0) ∧
      ∀ pieces : List (Mem × Nat), (∀ piece ∈ pieces, 2 ≤ piece.2 ∧ piece.2 % 2 = 0) →
        (pieces.flatMap fun piece => loaded order piece.1 piece.2).Perm ws →
          finish (addAll order pieces) = ~~~ (ws.foldl addWord 0) := by
  constructor
  · apply finish_sum
    rw [BitVec.toNat_ofNat, Nat.mod_eq_of_lt fits]
  · intro pieces whole permuted
    apply finish_sum
    rw [toNat_addAll order pieces whole, (permuted.map _).sum_eq, Nat.mod_eq_of_lt fits]

/-- Four words, read in two pieces and in another order; two carries come in. -/
theorem finish_words_wrapped :
    finish (addAll .little [(fun _ => 0xff, 4), (fun i => if i = 0 then 1 else 0, 4)]) = 0xfffe :=
  (finish_words .little [1, 0xffff, 0, 0xffff] (by decide)).2 _ (by decide) (by decide)

end ChecksumCalculator

end UdpStuff.Udp4
