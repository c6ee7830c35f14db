/-
# Theory.Memory — byte memory and block copies

A memory is a byte at every offset.  `memcpy` overwrites one block and leaves
every other byte alone; two copies to adjoining blocks are one copy of the joined
bytes (`memcpy_append`).  Pieces of a list copied each to its own place are the list
where they lie, in whatever order they come and however often (`putPieces_apply`).
-/
import Mathlib.Data.List.GetD

namespace UdpStuff.Theory

set_option autoImplicit false

abbrev Mem := Nat → UInt8

/-- Copy `bytes` to the block that starts at `offset`. -/
def memcpy (mem : Mem) (offset : Nat) (bytes : List UInt8) : Mem := fun i =>
  if offset ≤ i ∧ i < offset + bytes.length then bytes.getD (i - offset) 0 else mem i

@[simp] theorem memcpy_nil (mem : Mem) (offset : Nat) : memcpy mem offset [] = mem := by
  funext i
  simp only [memcpy, List.length_nil, Nat.add_zero]
  rw [if_neg (by omega)]

theorem memcpy_append (mem : Mem) (offset : Nat) (xs ys : List UInt8) :
    memcpy (memcpy mem offset xs) (offset + xs.length) ys = memcpy mem offset (xs ++ ys) := by
  funext i
  simp only [memcpy, List.length_append]
  by_cases second : offset + xs.length ≤ i ∧ i < offset + xs.length + ys.length
  · rw [if_pos second, if_pos (by omega), List.getD_append_right _ _ _ _ (by omega)]
    congr 1
    omega
  · rw [if_neg second]
    by_cases first : offset ≤ i ∧ i < offset + xs.length
    · rw [if_pos first, if_pos (by omega), List.getD_append _ _ _ _ (by omega)]
    · rw [if_neg first, if_neg (by omega)]

/-- The bytes of a block of memory. -/
def block (mem : Mem) (offset size : Nat) : List UInt8 :=
  (List.range size).map fun i => mem (offset + i)

@[simp] theorem length_block (mem : Mem) (offset size : Nat) :
    (block mem offset size).length = size := by
  simp [block]

theorem block_append (mem : Mem) (offset size size' : Nat) :
    block mem offset (size + size') = block mem offset size ++ block mem (offset + size) size' := by
  simp only [block, List.range_add, List.map_append, List.map_map, Function.comp_def,
    Nat.add_assoc]

/-- A block holds the bytes that memory has there. -/
theorem block_eq {mem : Mem} {offset : Nat} {bytes : List UInt8}
    (holds : ∀ i (inside : i < bytes.length), mem (offset + i) = bytes[i]) :
    block mem offset bytes.length = bytes := by
  apply List.ext_getElem (length_block _ _ _)
  intro i _ inside
  simpa [block] using holds i inside

/-- A block inside of what was copied. -/
theorem block_memcpy (mem : Mem) (base : Nat) {bytes : List UInt8} {offset size : Nat}
    (inside : offset + size ≤ bytes.length) :
    block (memcpy mem base bytes) (base + offset) size = (bytes.drop offset).take size := by
  have length : ((bytes.drop offset).take size).length = size := by
    rw [List.length_take, List.length_drop]
    omega
  refine (congrArg (block _ _) length.symm).trans (block_eq fun i below => ?_)
  rw [length] at below
  have there : offset + i < bytes.length := by omega
  have position : base + offset + i - base = offset + i := by omega
  rw [memcpy, if_pos ⟨by omega, by omega⟩, position, List.getElem_take, List.getElem_drop,
    List.getD_eq_getElem _ _ there]

/-! ## Pieces in their places -/

/-- Pieces of `bytes`, given by place and size, are copied to where they belong. -/
def putPieces (mem : Mem) (bytes : List UInt8) (pieces : List (Nat × Nat)) : Mem :=
  pieces.foldl (fun mem piece => memcpy mem piece.1 ((bytes.drop piece.1).take piece.2)) mem

/-- A byte that some piece covers is that of `bytes`, another one is as before. -/
theorem putPieces_apply (mem : Mem) {bytes : List UInt8} (pieces : List (Nat × Nat)) (x : Nat) :
    putPieces mem bytes pieces x =
      if x < bytes.length ∧ ∃ piece ∈ pieces, piece.1 ≤ x ∧ x < piece.1 + piece.2 then
        bytes.getD x 0
      else mem x := by
  induction pieces generalizing mem with
  | nil => simp [putPieces]
  | cons piece pieces ih =>
      have length : ((bytes.drop piece.1).take piece.2).length =
          min piece.2 (bytes.length - piece.1) := by
        rw [List.length_take, List.length_drop]
      rw [putPieces, List.foldl_cons]
      refine (ih _).trans ?_
      simp only [List.mem_cons, or_and_right, exists_or, exists_eq_left]
      by_cases later : x < bytes.length ∧ ∃ piece ∈ pieces, piece.1 ≤ x ∧ x < piece.1 + piece.2
      · rw [if_pos later, if_pos ⟨later.1, .inr later.2⟩]
      · rw [if_neg later, memcpy, length]
        by_cases here : x < bytes.length ∧ piece.1 ≤ x ∧ x < piece.1 + piece.2
        · rw [if_pos ⟨here.2.1, by omega⟩, if_pos ⟨here.1, .inl here.2⟩]
          have position : piece.1 + (x - piece.1) = x := by omega
          simp [List.getD_eq_getElem?_getD, List.getElem?_drop, position,
            show x - piece.1 < piece.2 by omega]
        · rw [if_neg (by omega), if_neg]
          rintro ⟨inside, this | others⟩
          · exact here ⟨inside, this⟩
          · exact later ⟨inside, others⟩

end UdpStuff.Theory
