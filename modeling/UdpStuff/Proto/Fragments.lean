/-
# Proto.Fragments — a reader of part of a stream

`read_fragment` makes a reader of the elements behind the current one, as many bits
later as are left of that, and leaves the parent where it is.  So the fragment is not
what the parent would read next, and the parent reads the fragment's bits again: it
has more bits to give than a reader behind the fragment (`FragmentMeets.empty`).

`fragment_iff`: only a fragment of no bits is what it should be, and that only if it
can be made and a read of no bits, which returns the bit under the mask, returns the
same from both.
-/
import UdpStuff.Proto.ReaderAccounting
import UdpStuff.Proto.StreamReader

namespace UdpStuff.Proto

set_option autoImplicit false

namespace BitBufferReader

variable (Tn : ElemType)

/-- The element that the constructor of a fragment reads is one of the buffer, and it is
shifted by less than its width. -/
def FragmentDefined (r : BitBufferReader) (length : Nat) : Prop :=
  0 < length + r.curItemBits →
    r.itemsRead * Tn.bits < r.bitSize ∧ r.curItemBits < Tn.promoted

/-- The values read. -/
def values (result : Except ReadError (List Nat × BitBufferReader)) : Except ReadError (List Nat) :=
  result.map Prod.fst

/-- What a fragment of `length` bits is for: it gives the values that the parent would, stops
exactly where its bits end, and the parent goes on behind it. -/
structure FragmentMeets (r : BitBufferReader) (length : Nat) : Prop where
  defined : FragmentDefined Tn r length
  same : ∀ ns, ns.sum ≤ length → ∃ vs, values ((r.readFragment Tn length).readUints Tn ns) = .ok vs ∧
    values (r.readUints Tn ns) = .ok vs
  stops : ∀ ns, ¬ ns.sum ≤ length →
    (r.readFragment Tn length).readUints Tn ns = .error .bitStreamFinished
  continues : ∀ ns vs behind, ns.sum = length → r.readUints Tn ns = .ok (vs, behind) →
    ∀ ms, values (r.readUints Tn ms) = values (behind.readUints Tn ms)

variable {Tn}

/-! ## Bits one by one -/

/-- Single bits can be read to the end of the stream, with elements of any type. -/
theorem Accounts.readOnes {P c : Nat} {r : BitBufferReader} (accounts : Accounts Tn P c r)
    {k : Nat} (inside : c + k ≤ P) : ∃ vs last, r.readUints Tn (List.replicate k 1) = .ok (vs, last) := by
  induction k generalizing c r with
  | zero => exact ⟨[], r, rfl⟩
  | succ k ih =>
      rw [List.replicate_succ]
      rcases accounts.readUint 1 with ⟨v, next, first, -, later⟩ | ⟨-, beyond⟩ | ⟨-, -, more⟩
      · obtain ⟨vs, last, rest⟩ := ih later (by omega)
        exact ⟨v :: vs, last, (readUints_cons_ok Tn).mpr ⟨v, next, vs, first, rest, rfl⟩⟩
      · omega
      · omega

theorem Accounts.le {P c : Nat} {r : BitBufferReader} (accounts : Accounts Tn P c r) : c ≤ P := by
  have loaded := accounts.loaded
  omega

theorem values_eq_ok {result : Except ReadError (List Nat × BitBufferReader)} {vs : List Nat} :
    values result = .ok vs ↔ ∃ last, result = .ok (vs, last) := by
  rw [values]
  cases result with
  | error e => simp [Except.map]
  | ok pair => cases pair; simp [Except.map]

/-- **The parent does not go on behind the fragment**: if it seems to, that has no bits. -/
theorem FragmentMeets.empty {P c length : Nat} {r : BitBufferReader} (accounts : Accounts Tn P c r)
    (left : c + length ≤ P) (meets : FragmentMeets Tn r length) : length = 0 := by
  have within := accounts.le
  obtain ⟨vs, behind, read⟩ := accounts.readOnes left
  have ones (k : Nat) : (List.replicate k 1).sum = k := by simp
  obtain ⟨ws, last, whole⟩ := accounts.readOnes (by omega : c + (P - c) ≤ P)
  have goesOn := meets.continues _ vs behind (ones length) read (List.replicate (P - c) 1)
  rw [values_eq_ok.mpr ⟨last, whole⟩] at goesOn
  obtain ⟨other, again⟩ := values_eq_ok.mp goesOn.symm
  have bound := ((accounts.readUints read).readUints again).le
  rw [ones, ones] at bound
  omega

/-! ## Fragments of no bits -/

/-- A read of no bits returns the bit under the mask, and changes nothing. -/
theorem readUint_zero (r : BitBufferReader) : r.readUint Tn 0 = .ok (r.curItem % 2, r) := by
  have wide : 32 ≤ Tn.promoted := Nat.le_max_left 32 Tn.bits
  rw [readUint, readBits, if_pos (Nat.zero_le _), takeLow, if_pos (by omega)]
  have bit : r.curItem &&& (2 ^ (0 + 1) - 1) = r.curItem % 2 :=
    Nat.and_two_pow_sub_one_eq_mod r.curItem 1
  rw [bit]
  rfl

theorem readUints_zeros (r : BitBufferReader) (k : Nat) :
    r.readUints Tn (List.replicate k 0) = .ok (List.replicate k (r.curItem % 2), r) := by
  induction k with
  | zero => rfl
  | succ k ih =>
      rw [List.replicate_succ, readUints, readUint_zero]
      dsimp only
      rw [ih]
      rfl

/-- Widths that sum to nothing are zeros. -/
theorem eq_zeros {ns : List Nat} (none : ns.sum = 0) : ns = List.replicate ns.length 0 := by
  induction ns with
  | nil => rfl
  | cons n rest ih =>
      rw [List.sum_cons] at none
      rw [List.length_cons, List.replicate_succ, ← ih (by omega), (by omega : n = 0)]

/-- A reader without bits throws as soon as one is asked for. -/
theorem readUints_spent {r : BitBufferReader} (none : r.curItemBits = 0)
    (past : r.bitSize ≤ r.itemsRead * Tn.bits) {ns : List Nat} (some : ns.sum ≠ 0) :
    r.readUints Tn ns = .error .bitStreamFinished := by
  induction ns with
  | nil => exact absurd rfl some
  | cons n rest ih =>
      rw [readUints]
      rcases Nat.eq_zero_or_pos n with rfl | more
      · rw [List.sum_cons, Nat.zero_add] at some
        rw [readUint_zero]
        dsimp only
        rw [ih some]
      · have finished : r.readUint Tn n = .error .bitStreamFinished := by
          have item : r.readItem Tn = .error .bitStreamFinished := if_pos past
          rw [readUint, readBits, if_neg (by omega), item]
        rw [finished]

/-- The fragment of no bits has none left, and what it shows under the mask. -/
theorem readFragment_zero {r : BitBufferReader} (near : r.curItemBits ≤ Tn.bits) :
    (r.readFragment Tn 0).curItemBits = 0 ∧
      (r.readFragment Tn 0).bitSize ≤ (r.readFragment Tn 0).itemsRead * Tn.bits ∧
      (r.readFragment Tn 0).curItem =
        if r.curItemBits = 0 then 0 else r.buf r.itemsRead >>> r.curItemBits := by
  rw [readFragment, makeShifted, Nat.zero_add]
  rcases Nat.eq_zero_or_pos r.curItemBits with none | some
  · rw [none, if_neg (Nat.lt_irrefl 0), if_pos rfl]
    exact ⟨rfl, Nat.zero_le _, rfl⟩
  · rw [if_pos some, if_neg (Nat.pos_iff_ne_zero.mp some)]
    refine ⟨?_, by dsimp only; omega, rfl⟩
    dsimp only
    split <;> omega

/-- **A fragment is what it should be** if and only if it has no bits, can be made, and shows
the same bit under the mask as the parent. -/
theorem fragment_iff (Tn : ElemType) (buf : Nat → Nat) (P : Nat) {ns vs : List Nat}
    {r : BitBufferReader} (reached : (make Tn buf P).readUints Tn ns = .ok (vs, r)) {length : Nat}
    (left : ns.sum + length ≤ P) : FragmentMeets Tn r length ↔
      length = 0 ∧ FragmentDefined Tn r 0 ∧ r.curItem % 2 =
        (if r.curItemBits = 0 then 0 else r.buf r.itemsRead >>> r.curItemBits) % 2 := by
  have accounts := (@accounts_make Tn buf P).readUints reached
  rw [Nat.zero_add] at accounts
  have near : r.curItemBits ≤ Tn.bits := by
    have loaded := accounts.loaded
    have bound := accounts.near
    omega
  obtain ⟨none, past, shown⟩ := @readFragment_zero Tn r near
  rw [← shown]
  constructor
  · intro meets
    obtain rfl := meets.empty accounts left
    refine ⟨rfl, meets.defined, ?_⟩
    obtain ⟨ws, first, second⟩ := meets.same (List.replicate 1 0) (Nat.le_refl 0)
    rw [readUints_zeros] at first second
    have same : [r.curItem % 2] = [(r.readFragment Tn 0).curItem % 2] :=
      Except.ok.inj (second.trans first.symm)
    injection same
  · rintro ⟨rfl, defined, bit⟩
    refine ⟨defined, fun ms small => ?_, fun ms more => ?_, fun ms ws behind sum read => ?_⟩
    · have zeros := eq_zeros (Nat.eq_zero_of_le_zero small)
      rw [zeros, readUints_zeros, readUints_zeros, bit]
      exact ⟨_, rfl, rfl⟩
    · exact readUints_spent none past (by omega)
    · rw [eq_zeros sum, readUints_zeros] at read
      cases read
      exact fun _ => rfl

/-- Behind a whole byte, a fragment of no bits. -/
theorem fragment_empty : ∃ vs r, (make .uint8 (fun _ => 0) 16).readUints .uint8 [8] = .ok (vs, r) ∧
    FragmentMeets .uint8 r 0 := by
  have reached : (make .uint8 (fun _ => 0) 16).readUints .uint8 [8] =
      .ok ([0], ⟨fun _ => 0, 1, 16, 0, 0⟩) := rfl
  exact ⟨[0], _, reached, (fragment_iff .uint8 (fun _ => 0) 16 reached (by decide)).mpr
    ⟨rfl, fun some => absurd some (by decide), by decide⟩⟩

/-- **Refuted**: no fragment of one byte at the start of three is what it should be. -/
theorem fragment_refuted :
    ¬ ∀ (Tn : ElemType) (buf : Nat → Nat) (P : Nat) (ns vs : List Nat) (r : BitBufferReader),
      (∀ i, buf i < 2 ^ Tn.bits) → (make Tn buf P).readUints Tn ns = .ok (vs, r) →
      ∀ length, ns.sum + length ≤ P → FragmentMeets Tn r length := by
  intro always
  have meets := always .uint8 (fun i => if i = 0 then 1 else 0) 24 [] [] _
    (fun i => by split <;> decide) rfl 8 (by decide)
  exact absurd (meets.empty (accounts_make _ 24) (by decide)) (by decide)

end BitBufferReader

end UdpStuff.Proto
