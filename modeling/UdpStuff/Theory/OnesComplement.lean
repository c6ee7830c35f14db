/-
# Theory.OnesComplement — one's complement sums of machine words

Addition in one's complement brings a carry back in at the low end.  `IsSum M n r`
says what the words that add up to `n` come to: `r` is the residue of `n` modulo the
all-ones word `M`, written `0` for the empty sum only, otherwise `M`.  This fixes `r`
(`IsSum.unique`), so that the order of the words does not matter, nor when the
carries are folded in (`isSum_onesSum`, `IsSum.of_fold`).

A machine of the other byte order reads every word turned round, and so gets the sum
turned round (`IsSum.rotate`, `sum_words`).
-/
import Mathlib.Algebra.BigOperators.Group.List.Basic
import Mathlib.Algebra.GroupWithZero.Nat
import Mathlib.Data.Nat.ModEq
import UdpStuff.Theory.ByteOrder
import UdpStuff.Theory.Memory

namespace UdpStuff.Theory

set_option autoImplicit false

/-! ## Sums -/

/-- One's complement addition of words up to the all-ones word `M`. -/
def addCarry (M s t : Nat) : Nat := if s + t ≤ M then s + t else s + t - M

def onesSum (M : Nat) (ws : List Nat) : Nat := ws.foldl (addCarry M) 0

structure IsSum (M n r : Nat) : Prop where
  le : r ≤ M
  modEq : r ≡ n [MOD M]
  zero : r = 0 ↔ n = 0

namespace IsSum

variable {M n r : Nat}

theorem unique {r' : Nat} (h : IsSum M n r) (h' : IsSum M n r') : r = r' := by
  have same : r ≡ r' [MOD M] := h.modEq.trans h'.modEq.symm
  have zero : r = 0 ↔ r' = 0 := h.zero.trans h'.zero.symm
  have le := h.le
  have le' := h'.le
  by_cases top : r = M
  · by_cases top' : r' = M
    · rw [top, top']
    · have residue : r' = 0 := by
        have := same
        rw [top, Nat.ModEq, Nat.mod_self, Nat.mod_eq_of_lt (by omega)] at this
        exact this.symm
      omega
  · by_cases top' : r' = M
    · have residue : r = 0 := by
        have := same
        rwa [top', Nat.ModEq, Nat.mod_self, Nat.mod_eq_of_lt (by omega)] at this
      omega
    · exact same.eq_of_lt_of_lt (by omega) (by omega)

theorem self (le : n ≤ M) : IsSum M n n := ⟨le, .refl n, .rfl⟩

theorem congr {n' : Nat} (same : n ≡ n' [MOD M]) (zero : n = 0 ↔ n' = 0) (h : IsSum M n r) :
    IsSum M n' r :=
  ⟨h.le, h.modEq.trans same, h.zero.trans zero⟩

theorem addCarry (h : IsSum M n r) {t : Nat} (le : t ≤ M) : IsSum M (n + t) (addCarry M r t) := by
  have zero := h.zero
  have bound := h.le
  have added : r + t ≡ n + t [MOD M] := h.modEq.add_right t
  unfold Theory.addCarry
  split
  case isTrue fits => exact ⟨fits, added, by omega⟩
  case isFalse carries =>
    exact ⟨by omega, (Nat.sub_modulus_modEq_iff (by omega)).mpr added, by omega⟩

/-- The carries above the word may be added at any time. -/
theorem of_fold (h : IsSum M (n / (M + 1) + n % (M + 1)) r) : IsSum M n r := by
  have split : (M + 1) * (n / (M + 1)) + n % (M + 1) = n := Nat.div_add_mod n (M + 1)
  have residue : n / (M + 1) + n % (M + 1) ≡ n [MOD M] := by
    have whole : n / (M + 1) + n % (M + 1) + M * (n / (M + 1)) = n := by
      rw [Nat.succ_mul] at split
      omega
    have same := Nat.ModEq.refl (n / (M + 1) + n % (M + 1)) (n := M)
    rw [← Nat.modEq_add_modulus_mul_iff (c := n / (M + 1)), whole] at same
    exact same
  refine h.congr residue ⟨fun zero => ?_, fun zero => ?_⟩
  · obtain ⟨high, low⟩ := Nat.add_eq_zero_iff.mp zero
    rw [← split, high, low, Nat.mul_zero]
  · rw [zero, Nat.zero_div, Nat.zero_mod]

/-- Multiplication by `a` turns a word of `a * b` values round. -/
theorem rotate {a b : Nat} (pos : 0 < a) (pos' : 0 < b) (h : IsSum (a * b - 1) n r) :
    IsSum (a * b - 1) (a * n) (r % b * a + r / b) := by
  have all : 0 < a * b := Nat.mul_pos pos pos'
  have low : r % b < b := Nat.mod_lt r pos'
  have high : r / b < a := (Nat.div_lt_iff_lt_mul pos').mpr (by have := h.le; omega)
  have split : b * (r / b) + r % b = r := Nat.div_add_mod r b
  refine ⟨?_, ?_, ?_⟩
  · have room : (r % b + 1) * a ≤ b * a := Nat.mul_le_mul_right a low
    rw [Nat.succ_mul, Nat.mul_comm b a] at room
    omega
  · -- `a` times the word is a number of all-ones words more
    have whole : r % b * a + r / b + (a * b - 1) * (r / b) = a * r := by
      have turned : (a * b - 1) * (r / b) + r / b = a * (b * (r / b)) := by
        rw [← Nat.succ_mul, Nat.succ_eq_add_one, Nat.sub_add_cancel all, Nat.mul_assoc]
      have := congrArg (a * ·) split
      simp only [Nat.mul_add] at this
      rw [Nat.mul_comm (r % b) a]
      omega
    have same : r % b * a + r / b ≡ a * r [MOD a * b - 1] := by
      rw [← Nat.add_modulus_mul_modEq_iff, whole]
    exact same.trans (h.modEq.mul_left a)
  · rw [Nat.add_eq_zero_iff, Nat.mul_eq_zero, Nat.mul_eq_zero, ← h.zero]
    constructor
    · rintro ⟨zero | zero, zero'⟩
      · rw [zero, zero'] at split
        omega
      · omega
    · rintro (zero | zero)
      · omega
      · rw [zero, Nat.zero_mod, Nat.zero_div]
        exact ⟨.inl rfl, rfl⟩

end IsSum

theorem isSum_onesSum {M : Nat} {ws : List Nat} (le : ∀ w ∈ ws, w ≤ M) :
    IsSum M ws.sum (onesSum M ws) := by
  suffices later : ∀ n r, IsSum M n r → IsSum M (n + ws.sum) (ws.foldl (addCarry M) r) by
    have := later 0 0 (.self (Nat.zero_le M))
    rwa [Nat.zero_add] at this
  induction ws with
  | nil => exact fun n r h => h
  | cons w ws ih =>
      intro n r h
      have first : IsSum M (n + w) (addCarry M r w) := h.addCarry (le w List.mem_cons_self)
      rw [List.sum_cons, ← Nat.add_assoc]
      exact ih (fun v member => le v (List.mem_cons_of_mem w member)) _ _ first

theorem sum_le {M : Nat} {ws : List Nat} (le : ∀ w ∈ ws, w ≤ M) : ws.sum ≤ ws.length * M := by
  induction ws with
  | nil => exact Nat.zero_le _
  | cons w ws ih =>
      have first := le w List.mem_cons_self
      have later := ih fun v member => le v (List.mem_cons_of_mem w member)
      rw [List.sum_cons, List.length_cons, Nat.succ_mul]
      omega

/-! ## Words of bytes -/

namespace ByteOrder

/-- The 16-bit words that bytes make; a zero byte goes with the last of an odd number. -/
def words (order : ByteOrder) : List UInt8 → List Nat
  | [] => []
  | [a] => [ofLeBytes (order.arrange [a, 0])]
  | a :: b :: rest => ofLeBytes (order.arrange [a, b]) :: words order rest

variable (order : ByteOrder)

theorem words_append {xs : List UInt8} (even : xs.length % 2 = 0) (ys : List UInt8) :
    order.words (xs ++ ys) = order.words xs ++ order.words ys := by
  induction xs using words.induct with
  | case1 => rfl
  | case2 a => simp at even
  | case3 a b rest ih =>
      have even' : rest.length % 2 = 0 := by
        simp only [List.length_cons] at even
        omega
      show _ :: order.words (rest ++ ys) = _ :: (order.words rest ++ order.words ys)
      rw [ih even']

theorem length_words (bs : List UInt8) : (order.words bs).length = (bs.length + 1) / 2 := by
  induction bs using words.induct with
  | case1 => rfl
  | case2 a => simp [words]
  | case3 a b rest ih =>
      rw [words, List.length_cons, ih, List.length_cons, List.length_cons]
      omega

theorem word_le (a b : UInt8) : ofLeBytes (order.arrange [a, b]) ≤ 65535 := by
  have length : (order.arrange [a, b]).length = 2 := length_arrange order [a, b]
  have := ofLeBytes_lt (order.arrange [a, b])
  rw [length] at this
  omega

theorem words_le {bs : List UInt8} : ∀ w ∈ order.words bs, w ≤ 65535 := by
  induction bs using words.induct with
  | case1 => exact fun w member => absurd member List.not_mem_nil
  | case2 a =>
      intro w member
      obtain rfl := List.mem_singleton.mp member
      exact word_le order a 0
  | case3 a b rest ih =>
      intro w member
      rcases List.mem_cons.mp member with rfl | later
      · exact word_le order a b
      · exact ih w later

/-- A word read in the other order. -/
theorem word_big (a b : UInt8) : ∃ k,
    ofLeBytes (arrange .big [a, b]) + 65535 * k = 256 * ofLeBytes (arrange .little [a, b]) ∧
      k ≤ ofLeBytes (arrange .big [a, b]) := by
  refine ⟨b.toNat, ?_⟩
  simp only [arrange, List.reverse_cons, List.reverse_nil, List.nil_append, List.singleton_append,
    ofLeBytes]
  omega

/-- The words of the network and those of a little-endian machine. -/
theorem sum_words (bs : List UInt8) :
    256 * (words .little bs).sum ≡ (words .big bs).sum [MOD 65535] ∧
      (256 * (words .little bs).sum = 0 ↔ (words .big bs).sum = 0) := by
  suffices whole : ∃ k, (words .big bs).sum + 65535 * k = 256 * (words .little bs).sum ∧
      k ≤ (words .big bs).sum by
    obtain ⟨k, whole, less⟩ := whole
    refine ⟨?_, by omega⟩
    rw [← whole, Nat.add_modulus_mul_modEq_iff]
  induction bs using words.induct with
  | case1 => exact ⟨0, rfl, Nat.zero_le _⟩
  | case2 a =>
      obtain ⟨k, word, less⟩ := word_big a 0
      refine ⟨k, ?_⟩
      simp only [words, List.sum_cons, List.sum_nil]
      omega
  | case3 a b rest ih =>
      obtain ⟨k, word, less⟩ := word_big a b
      obtain ⟨later, words', less'⟩ := ih
      refine ⟨k + later, ?_⟩
      simp only [words, List.sum_cons]
      omega

/-- A little-endian machine gets the sum of the network with its bytes turned round. -/
theorem onesSum_words_big {bs : List UInt8} {r : Nat}
    (h : IsSum 65535 (words .little bs).sum r) :
    onesSum 65535 (words .big bs) = r % 256 * 256 + r / 256 := by
  have network : IsSum 65535 (words .big bs).sum (onesSum 65535 (words .big bs)) :=
    isSum_onesSum (words_le .big)
  have turned : IsSum 65535 (256 * (words .little bs).sum) (r % 256 * 256 + r / 256) :=
    @IsSum.rotate _ r 256 256 (by decide) (by decide) h
  obtain ⟨same, zero⟩ := sum_words bs
  exact network.unique (turned.congr same zero)

theorem toNat_htons_little (v : BitVec 16) :
    (htons .little v).toNat = v.toNat % 256 * 256 + v.toNat / 256 := by
  have fits := v.isLt
  have high : v.toNat / 256 % 256 = v.toNat / 256 := Nat.mod_eq_of_lt (by omega)
  have turned : v.toNat % 256 * 256 + v.toNat / 256 < 65536 := by omega
  have bytes : ofLeBytes (store .big v) = v.toNat / 256 % 256 + 256 * (v.toNat % 256) := by
    simp [store, arrange, leBytes, ofLeBytes]
  show ofLeBytes (store .big v) % 65536 = _
  rw [bytes, high, Nat.mod_eq_of_lt (by omega)]
  omega

/-- The words of a block of memory are those that the machine loads there. -/
theorem words_block (mem : Mem) (k : Nat) :
    order.words (block mem 0 (2 * k)) =
      (List.range k).map fun i => (order.load 16 (block mem (2 * i) 2)).toNat := by
  induction k with
  | zero => rfl
  | succ k ih =>
      have even : (block mem 0 (2 * k)).length % 2 = 0 := by
        rw [length_block]
        omega
      have word : order.words (block mem (2 * k) 2) =
          [(order.load 16 (block mem (2 * k) 2)).toNat] := by
        have fits : ofLeBytes (order.arrange (block mem (2 * k) 2)) ≤ 65535 := word_le order _ _
        rw [load, BitVec.toNat_ofNat, Nat.mod_eq_of_lt (by omega)]
        rfl
      rw [Nat.mul_succ, block_append, words_append order even, Nat.zero_add, ih, word,
        List.range_succ, List.map_append]
      rfl

end ByteOrder

end UdpStuff.Theory
