/-
# Proto.Positions — `get_bit_pos` of the writer and of the reader

The writer counts the elements stored and the bits pending, which are the bits written.
The reader counts the elements fetched and the bits left of the last, where these are
still to be read: it is right where an element has just been used up, and nowhere else
(`positions_agree_iff`).

A read can also be undefined.  Its last piece is masked with one bit more than it has,
which elements of 32 and 64 bits have no room for from two bits below on.
-/
import UdpStuff.Proto.Fragments
import UdpStuff.Proto.WriterShifts

namespace UdpStuff.Proto

set_option autoImplicit false

open UdpStuff.Theory

namespace BitBufferReader

variable (Tn : ElemType)

/-- `get_bit_pos` -/
def getBitPos (r : BitBufferReader) : Nat := r.itemsRead * Tn.bits + r.curItemBits

/-- Reads from bit `c` on never shift by the width of the operand. -/
def ReadsDefined (c : Nat) : List Nat → Prop
  | [] => True
  | n :: rest => lastWidth Tn.bits (Tn.bits - c % Tn.bits) n + 1 < Tn.promoted ∧
      ReadsDefined (c + n) rest

/-- A reader which has fetched what it needed. -/
structure Lazy (P c : Nat) (r : BitBufferReader) : Prop extends Accounts Tn P c r where
  fetched : r.itemsRead = if P = 0 then 0 else max 1 ((c + Tn.bits - 1) / Tn.bits)

variable {Tn}

theorem lazy_make (buf : Nat → Nat) (P : Nat) : Lazy Tn P 0 (make Tn buf P) := by
  refine ⟨accounts_make buf P, ?_⟩
  have base := Tn.bits_pos
  have none : (0 + Tn.bits - 1) / Tn.bits = 0 := Nat.div_eq_of_lt (by omega)
  rw [make, none]
  by_cases empty : P = 0
  · rw [if_neg (by omega), if_pos empty]
  · rw [if_pos (by omega), if_neg empty]
    rfl

/-- The bits before an element's boundary. -/
theorem Accounts.room {P c : Nat} {r : BitBufferReader} (accounts : Accounts Tn P c r) :
    r.curItemBits ≤ Tn.bits - c % Tn.bits := by
  have loaded := accounts.loaded
  exact to_boundary Tn.bits_pos (by omega) accounts.near

/-- The next element has all bits that the stream has left for it. -/
theorem Accounts.readItem_fresh {P c : Nat} {r : BitBufferReader} (accounts : Accounts Tn P c r)
    (more : c + r.curItemBits < P) :
    ∃ next, r.readItem Tn = .ok next ∧ Accounts Tn P (c + r.curItemBits) next ∧
      next.curItemBits = min Tn.bits (P - (c + r.curItemBits)) ∧
      c + r.curItemBits = Tn.bits * r.itemsRead := by
  have loaded := accounts.loaded
  have boundary : c + r.curItemBits = Tn.bits * r.itemsRead := by omega
  rcases accounts.readItem with ⟨next, item, later, -⟩ | ⟨-, past⟩
  · have loaded' := later.loaded
    rw [(readItem_ok Tn item).2.2, Nat.mul_succ] at loaded'
    exact ⟨next, item, later, by omega, boundary⟩
  · omega

/-- A reader behind a piece has fetched no element that the piece is not in. -/
theorem Accounts.lazy {P c : Nat} {r : BitBufferReader} (accounts : Accounts Tn P c r)
    (some : 0 < c) (needed : Tn.bits * r.itemsRead < c + Tn.bits) : Lazy Tn P c r := by
  have base := Tn.bits_pos
  have loaded := accounts.loaded
  refine ⟨accounts, ?_⟩
  have positive : 0 < r.itemsRead := by
    rcases Nat.eq_zero_or_pos r.itemsRead with none | positive
    · rw [none, Nat.mul_zero] at loaded
      omega
    · exact positive
  have items : (c + Tn.bits - 1) / Tn.bits = r.itemsRead := by
    rw [Nat.div_eq_iff base]
    rw [Nat.mul_comm] at needed loaded
    omega
  rw [if_neg (by omega), items]
  omega

/-- What a read that is defined leaves behind. -/
def Reads (Tn : ElemType) (P c : Nat) (result : Except ReadError (Nat × BitBufferReader)) : Prop :=
  ∃ v next, result = .ok (v, next) ∧ Lazy Tn P c next

/-- The last piece of a read. -/
theorem Accounts.takeLow_iff {P c n : Nat} {r : BitBufferReader} (accounts : Accounts Tn P c r)
    (some : 0 < n) (inside : n ≤ r.curItemBits) :
    (n + 1 < Tn.promoted → Reads Tn P (c + n) (r.takeLow Tn n)) ∧
      (¬ n + 1 < Tn.promoted → r.takeLow Tn n = .error .undefinedShift) := by
  have loaded := accounts.loaded
  have near := accounts.near
  rw [BitBufferReader.takeLow]
  refine ⟨fun defined => ?_, fun undefined => if_neg undefined⟩
  rw [if_pos defined]
  refine ⟨_, _, rfl, Accounts.lazy ⟨accounts.bitSize, ?_, ?_⟩ (by omega) ?_⟩
  · dsimp only
    omega
  · dsimp only
    omega
  · dsimp only
    omega

/-- The pieces behind the first, from the boundary of an element on. -/
theorem Accounts.readPieces_iff {P c n acc : Nat} {r : BitBufferReader}
    (accounts : Accounts Tn P c r) (fresh : r.curItemBits = min Tn.bits (P - c)) (some : 0 < n)
    (fits : n ≤ 64) (inside : c + n ≤ P) :
    ((n - 1) % Tn.bits + 1 + 1 < Tn.promoted → Reads Tn P (c + n) (r.readPieces Tn acc n)) ∧
      (¬ (n - 1) % Tn.bits + 1 + 1 < Tn.promoted →
        r.readPieces Tn acc n = .error .undefinedShift) := by
  have base := Tn.bits_pos
  induction n using Nat.strongRecOn generalizing c acc r with
  | ind n ih =>
      by_cases long : r.curItemBits < n
      · -- the element is used up whole, and the field goes on
        have full : r.curItemBits = Tn.bits := by omega
        obtain ⟨next, item, later, fresh', -⟩ := accounts.readItem_fresh (by omega)
        rw [full] at later fresh'
        have rest := @ih (n - Tn.bits) (by omega) _ ((acc <<< Tn.bits) % 2 ^ 64 ||| r.curItem) _
          later fresh' (by omega) (by omega) (by omega)
        have last : (n - Tn.bits - 1) % Tn.bits = (n - 1) % Tn.bits := by
          have split : n - 1 = (n - Tn.bits - 1) + Tn.bits := by omega
          rw [split, Nat.add_mod_right]
        have position : c + Tn.bits + (n - Tn.bits) = c + n := by omega
        rw [last, position] at rest
        rw [readPieces_long long (by omega) item, full]
        exact rest
      · have short : n ≤ Tn.bits := by omega
        have last : (n - 1) % Tn.bits + 1 = n := by
          rw [Nat.mod_eq_of_lt (by omega)]
          omega
        have low := accounts.takeLow_iff some (Nat.le_of_not_lt long)
        rw [BitBufferReader.readPieces, if_neg long, last]
        refine ⟨fun defined => ?_, fun undefined => ?_⟩
        · obtain ⟨v, next, taken, after⟩ := low.1 defined
          rw [taken]
          exact ⟨_, next, rfl, after⟩
        · rw [low.2 undefined]

/-- **A read inside the stream**: it returns, and fetches no element too many, if its last piece
leaves room for the mask, and is undefined otherwise. -/
theorem Accounts.readUint_iff {P c n : Nat} {r : BitBufferReader} (accounts : Accounts Tn P c r)
    (some : 0 < n) (fits : n ≤ 64) (inside : c + n ≤ P) :
    (lastWidth Tn.bits (Tn.bits - c % Tn.bits) n + 1 < Tn.promoted →
        Reads Tn P (c + n) (r.readUint Tn n)) ∧
      (¬ lastWidth Tn.bits (Tn.bits - c % Tn.bits) n + 1 < Tn.promoted →
        r.readUint Tn n = .error .undefinedShift) := by
  have base := Tn.bits_pos
  have room := accounts.room
  have near := accounts.near
  rw [BitBufferReader.readUint, readBits]
  by_cases one : n ≤ r.curItemBits
  · have last : lastWidth Tn.bits (Tn.bits - c % Tn.bits) n = n := by
      rw [lastWidth, if_pos (Nat.le_trans one room)]
    rw [if_pos one, last]
    exact accounts.takeLow_iff some one
  · obtain ⟨next, item, later, fresh, boundary⟩ := accounts.readItem_fresh (by omega)
    have pieces := @Accounts.readPieces_iff Tn P _ (n - r.curItemBits) r.curItem next later fresh
      (by omega) (by omega) (by omega)
    have position : c + r.curItemBits + (n - r.curItemBits) = c + n := by omega
    have last : lastWidth Tn.bits (Tn.bits - c % Tn.bits) n =
        (n - r.curItemBits - 1) % Tn.bits + 1 := by
      rcases Nat.eq_or_lt_of_le room with whole | part
      · rw [lastWidth, if_neg (by omega), whole]
      · -- the element before the boundary is used up
        obtain ⟨none, aligned⟩ := at_boundary boundary part
        rw [aligned, none, Nat.sub_zero, Nat.sub_zero, lastWidth_aligned some]
    rw [position] at pieces
    rw [if_neg one, item, last]
    exact pieces

/-- Reads that stay inside the stream return if and only if they are defined. -/
theorem Lazy.readUints_iff {P c : Nat} {r : BitBufferReader} (lazy : Lazy Tn P c r) {ns : List Nat}
    (fits : ∀ n ∈ ns, 1 ≤ n ∧ n ≤ 64) (inside : c + ns.sum ≤ P) :
    (∃ vs last, r.readUints Tn ns = .ok (vs, last)) ↔ ReadsDefined Tn c ns := by
  induction ns generalizing c r with
  | nil => exact ⟨fun _ => trivial, fun _ => ⟨[], r, rfl⟩⟩
  | cons n rest ih =>
      obtain ⟨some, narrow⟩ := fits n List.mem_cons_self
      rw [List.sum_cons] at inside
      have first := lazy.readUint_iff some narrow (by omega)
      simp only [readUints_cons_ok, ReadsDefined]
      by_cases defined : lastWidth Tn.bits (Tn.bits - c % Tn.bits) n + 1 < Tn.promoted
      · obtain ⟨v, next, read, later⟩ := first.1 defined
        rw [and_iff_right defined,
          ← ih later (fun m member => fits m (List.mem_cons_of_mem _ member)) (by omega)]
        constructor
        · rintro ⟨vs, last, v', next', others, here, rest, -⟩
          cases read.symm.trans here
          exact ⟨others, last, rest⟩
        · rintro ⟨others, last, rest⟩
          exact ⟨v :: others, last, v, next, others, read, rest, rfl⟩
      · constructor
        · rintro ⟨vs, last, v, next, others, here, -⟩
          cases (first.2 defined).symm.trans here
        · rintro ⟨here, -⟩
          exact absurd here defined

/-- Reads that returned have fetched what they needed. -/
theorem Lazy.readUints {P c : Nat} {r last : BitBufferReader} (lazy : Lazy Tn P c r)
    {ns vs : List Nat} (fits : ∀ n ∈ ns, 1 ≤ n ∧ n ≤ 64) (inside : c + ns.sum ≤ P)
    (read : r.readUints Tn ns = .ok (vs, last)) : Lazy Tn P (c + ns.sum) last := by
  induction ns generalizing c r vs with
  | nil =>
      cases read
      exact lazy
  | cons n rest ih =>
      obtain ⟨some, narrow⟩ := fits n List.mem_cons_self
      rw [List.sum_cons] at inside
      have defined := ((lazy.readUints_iff fits (by rwa [List.sum_cons])).mp ⟨vs, last, read⟩).1
      obtain ⟨v, next, first, later⟩ := (lazy.readUint_iff some narrow (by omega)).1 defined
      obtain ⟨v', next', others, first', rest, -⟩ := (readUints_cons_ok Tn).mp read
      cases first.symm.trans first'
      rw [List.sum_cons, ← Nat.add_assoc]
      exact ih later (fun m member => fits m (List.mem_cons_of_mem _ member)) (by omega) rest

/-- **The reader's position** is right where its last element is used up. -/
theorem Lazy.getBitPos_iff {P c : Nat} {r : BitBufferReader} (lazy : Lazy Tn P c r) :
    r.getBitPos Tn = c ↔ Tn.bits ∣ c ∧ (c = 0 → P = 0) := by
  have base := Tn.bits_pos
  have loaded := lazy.loaded
  have fetched := lazy.fetched
  have comm := Nat.mul_comm r.itemsRead Tn.bits
  rw [getBitPos]
  constructor
  · intro right
    have multiple : c = Tn.bits * r.itemsRead := by omega
    refine ⟨⟨_, multiple⟩, fun none => ?_⟩
    by_contra some
    rw [if_neg some] at fetched
    have one : Tn.bits * 1 ≤ Tn.bits * r.itemsRead := Nat.mul_le_mul_left _ (by omega)
    omega
  · rintro ⟨⟨m, rfl⟩, start⟩
    rcases Nat.eq_zero_or_pos m with rfl | some
    · rw [if_pos (start (Nat.mul_zero _))] at fetched
      rw [fetched] at loaded ⊢
      omega
    · have items : (Tn.bits * m + Tn.bits - 1) / Tn.bits = m := by
        rw [Nat.div_eq_iff base, Nat.mul_comm]
        omega
      have positive := Nat.mul_le_mul_left Tn.bits some
      rw [items, if_neg (by omega), Nat.max_eq_right some] at fetched
      rw [fetched] at loaded ⊢
      rw [Nat.mul_comm]
      omega

end BitBufferReader

/-! ## Writer and reader -/

open BitBufferWriter BitBufferReader

/-- After the first `k` calls, and the first `k` reads of `P` bits that begin with the finished
stream, both are where these calls end. -/
def PositionsAgree (Tn : ElemType) (calls : List (Nat × Nat)) (P k : Nat) : Prop :=
  ∃ finished w vs r, writeUintsChecked Tn {} calls = .ok finished ∧
    writeUintsChecked Tn {} (calls.take k) = .ok w ∧
    (make Tn (fun i => finished.pickData.out.getD i 0) P).readUints Tn
      ((calls.take k).map Prod.snd) = .ok (vs, r) ∧
    w.getBitPos Tn = widths (calls.take k) ∧ r.getBitPos Tn = widths (calls.take k)

/-- Calls that are all defined are so up to any one. -/
theorem BitBufferWriter.Defined.take {Tn : ElemType} {P : Nat} {calls : List (Nat × Nat)}
    (defined : Defined Tn P calls) (k : Nat) : Defined Tn P (calls.take k) := by
  intro before c after split
  refine defined before c (after ++ calls.drop k) ?_
  rw [← List.cons_append, ← List.append_assoc, ← split, List.take_append_drop]

/-- **Positions agree** if and only if no shift is undefined and the calls end with an element:
not within one, and not before the first. -/
theorem positions_agree_iff (Tn : ElemType) {calls : List (Nat × Nat)}
    (fits : ∀ c ∈ calls, 1 ≤ c.2 ∧ c.2 ≤ 64) {P : Nat} (covers : widths calls ≤ P) (k : Nat) :
    PositionsAgree Tn calls P k ↔ Defined Tn 0 calls ∧
      ReadsDefined Tn 0 ((calls.take k).map Prod.snd) ∧
      Tn.bits ∣ widths (calls.take k) ∧ (widths (calls.take k) = 0 → P = 0) := by
  have fitsTake : ∀ n ∈ (calls.take k).map Prod.snd, 1 ≤ n ∧ n ≤ 64 := by
    intro n member
    obtain ⟨c, taken, rfl⟩ := List.mem_map.mp member
    exact fits c (List.mem_of_mem_take taken)
  have narrow : ∀ c ∈ calls, c.2 ≤ 64 := fun c member => (fits c member).2
  have narrowTake : ∀ c ∈ calls.take k, c.2 ≤ 64 :=
    fun c member => narrow c (List.mem_of_mem_take member)
  have inside : 0 + ((calls.take k).map Prod.snd).sum ≤ P := by
    have whole := widths_append (calls.take k) (calls.drop k)
    rw [List.take_append_drop] at whole
    rw [← widths]
    omega
  have written (w : BitBufferWriter) := @writeUintsChecked_iff Tn {} formed_fresh calls narrow w
  have writtenTake (w : BitBufferWriter) :=
    @writeUintsChecked_iff Tn {} formed_fresh (calls.take k) narrowTake w
  rw [getBitPos_start] at written writtenTake
  constructor
  · rintro ⟨finished, w, vs, r, all, front, read, -, right⟩
    have start := @lazy_make Tn (fun i => finished.pickData.out.getD i 0) P
    have there := start.readUints fitsTake inside read
    rw [Nat.zero_add] at there
    exact ⟨((written _).mp all).1, (start.readUints_iff fitsTake inside).mp ⟨vs, r, read⟩,
      there.getBitPos_iff.mp right⟩
  · rintro ⟨defined, readable, aligned⟩
    have start := @lazy_make Tn (fun i => (writeUints Tn {} calls).pickData.out.getD i 0) P
    obtain ⟨vs, r, read⟩ := (start.readUints_iff fitsTake inside).mpr readable
    have there := start.readUints fitsTake inside read
    rw [Nat.zero_add] at there
    exact ⟨_, _, vs, r, (written _).mpr ⟨defined, rfl⟩, (writtenTake _).mpr ⟨defined.take k, rfl⟩,
      read, getBitPos_fresh _, there.getBitPos_iff.mpr aligned⟩

/-- After the first of two bytes. -/
theorem positions_agree_byte : PositionsAgree .uint8 [(165, 8), (3, 3)] 11 1 := by
  refine (positions_agree_iff .uint8 (by decide) (by decide) 1).mpr ⟨?_, ⟨by decide, trivial⟩, ?_⟩
  · exact fun _ _ _ _ full => by cases full.1
  · decide

/-- **Refuted**: behind one bit, the writer is at 1 and the reader at 8. -/
theorem positions_agree_refuted : ¬ ∀ (Tn : ElemType) (calls : List (Nat × Nat)) (k : Nat),
    (∀ c ∈ calls, 1 ≤ c.2 ∧ c.2 ≤ 64) → k ≤ calls.length →
      PositionsAgree Tn calls (widths calls) k := by
  intro always
  have agree := always .uint8 [(1, 1)] 1 (by decide) (le_refl 1)
  obtain ⟨finished, w, vs, r, -, -, read, -, right⟩ := agree
  cases read
  simp [BitBufferReader.getBitPos, make, widths, ElemType.bits] at right

end UdpStuff.Proto
