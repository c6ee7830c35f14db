/-
# Theory.Gf256 — bytes as polynomials over two elements, and circulants of bytes

A byte stands for a polynomial over the field with two elements, modulo
`x⁸ + x⁴ + x³ + x + 1`.  Sums are exclusive ors, and a product goes through the bits of
its first factor.  Four bytes are a column, and a circulant matrix of bytes acts on
columns.  Such a map is additive and commutes with rotation, so that it is known once
it is known on the columns with one bit.
-/
import Mathlib.Data.BitVec
import Mathlib.Algebra.Group.Prod
import Mathlib.Algebra.BigOperators.Group.List.Basic
import Mathlib.Tactic.Abel

namespace UdpStuff.Theory

set_option autoImplicit false

structure Gf256 where
  bits : BitVec 8
  deriving DecidableEq, Repr

namespace Gf256

instance : Zero Gf256 := ⟨⟨0⟩⟩

instance : Add Gf256 := ⟨fun a b => ⟨a.bits ^^^ b.bits⟩⟩

instance : Neg Gf256 := ⟨id⟩

instance : AddCommGroup Gf256 where
  add_assoc a b c := congrArg mk (BitVec.xor_assoc a.bits b.bits c.bits)
  add_comm a b := congrArg mk (BitVec.xor_comm a.bits b.bits)
  zero_add a := congrArg mk BitVec.zero_xor
  add_zero a := congrArg mk BitVec.xor_zero
  neg_add_cancel a := congrArg mk BitVec.xor_self
  nsmul := nsmulRec
  zsmul := zsmulRec

theorem add_bits (a b : Gf256) : (a + b).bits = a.bits ^^^ b.bits := rfl

/-- The double, reduced. -/
def xtime (a : Gf256) : Gf256 := ⟨a.bits <<< 1 ^^^ if a.bits.msb then 0x1b else 0⟩

theorem xtime_add (a b : Gf256) : xtime (a + b) = xtime a + xtime b := by
  have carry : ∀ p q : Bool, (if (p ^^ q) then (0x1b : BitVec 8) else 0) =
      (if p then 0x1b else 0) ^^^ if q then 0x1b else 0 := by decide
  have parts : xtime (a + b) = (⟨a.bits <<< 1⟩ + ⟨b.bits <<< 1⟩) +
      (⟨if a.bits.msb then 0x1b else 0⟩ + ⟨if b.bits.msb then 0x1b else 0⟩) := by
    refine congrArg mk ?_
    rw [add_bits, BitVec.shiftLeft_xor_distrib, BitVec.msb_xor, carry]
    rfl
  rw [parts]
  exact add_add_add_comm _ _ _ _

/-- The product along the bits of the first factor, the highest one first. -/
def mulBits (b : Gf256) : List Bool → Gf256 → Gf256
  | [], acc => acc
  | bit :: bits, acc => mulBits b bits (xtime acc + if bit then b else 0)

theorem mulBits_add (b c : Gf256) (bits : List Bool) (acc acc' : Gf256) :
    mulBits (b + c) bits (acc + acc') = mulBits b bits acc + mulBits c bits acc' := by
  induction bits generalizing acc acc' with
  | nil => rfl
  | cons bit bits ih =>
      have term : (if bit then b + c else 0) = (if bit then b else 0) + if bit then c else 0 := by
        cases bit
        · exact (add_zero 0).symm
        · rfl
      rw [mulBits, mulBits, mulBits, ← ih, xtime_add, term, add_add_add_comm]

instance : Mul Gf256 := ⟨fun a b => mulBits b ((List.range 8).reverse.map a.bits.getLsbD) 0⟩

theorem mul_add' (a b c : Gf256) : a * (b + c) = a * b + a * c :=
  mulBits_add b c _ 0 0

theorem sum_bits : ∀ x : BitVec 8, (⟨x⟩ : Gf256) =
    ((List.range 8).map fun i => if x.getLsbD i then ⟨.twoPow 8 i⟩ else 0).sum := by
  decide +kernel

/-- An additive map is known on the eight bits. -/
theorem ext_of_bits {A : Type*} [AddMonoid A] {f g : Gf256 →+ A}
    (bit : ∀ i < 8, f ⟨.twoPow 8 i⟩ = g ⟨.twoPow 8 i⟩) : f = g := by
  ext x
  show f ⟨x.bits⟩ = g ⟨x.bits⟩
  rw [sum_bits x.bits, map_list_sum, map_list_sum, List.map_map, List.map_map]
  refine congrArg List.sum (List.map_congr_left fun i inside => ?_)
  show f (if x.bits.getLsbD i then ⟨.twoPow 8 i⟩ else 0) =
    g (if x.bits.getLsbD i then ⟨.twoPow 8 i⟩ else 0)
  split
  · exact bit i (List.mem_range.mp inside)
  · rw [map_zero, map_zero]

end Gf256

/-! ## Columns -/

abbrev Column := Gf256 × Gf256 × Gf256 × Gf256

namespace Column

/-- The matrix whose rows are `m0 m1 m2 m3` rotated, times a column. -/
def circulant (m0 m1 m2 m3 : Gf256) : Column → Column
  | (b0, b1, b2, b3) =>
    (m0 * b0 + m1 * b1 + m2 * b2 + m3 * b3,
     m3 * b0 + m0 * b1 + m1 * b2 + m2 * b3,
     m2 * b0 + m3 * b1 + m0 * b2 + m1 * b3,
     m1 * b0 + m2 * b1 + m3 * b2 + m0 * b3)

def rotate : Column → Column
  | (b0, b1, b2, b3) => (b3, b0, b1, b2)

variable (m0 m1 m2 m3 : Gf256)

theorem circulant_add (c d : Column) :
    circulant m0 m1 m2 m3 (c + d) = circulant m0 m1 m2 m3 c + circulant m0 m1 m2 m3 d := by
  obtain ⟨c0, c1, c2, c3⟩ := c
  obtain ⟨d0, d1, d2, d3⟩ := d
  simp only [circulant, Prod.mk_add_mk, Gf256.mul_add', Prod.mk.injEq]
  refine ⟨?_, ?_, ?_, ?_⟩ <;> abel

theorem circulant_rotate (c : Column) :
    circulant m0 m1 m2 m3 (rotate c) = rotate (circulant m0 m1 m2 m3 c) := by
  obtain ⟨c0, c1, c2, c3⟩ := c
  simp only [circulant, rotate, Prod.mk.injEq]
  refine ⟨?_, ?_, ?_, ?_⟩ <;> abel

/-- An additive map that commutes with rotation is known on the columns with one bit. -/
theorem ext_of_bit {f g : Column → Column} (fAdd : ∀ c d, f (c + d) = f c + f d)
    (gAdd : ∀ c d, g (c + d) = g c + g d) (fRotate : ∀ c, f (rotate c) = rotate (f c))
    (gRotate : ∀ c, g (rotate c) = rotate (g c))
    (bit : ∀ i < 8, f (⟨.twoPow 8 i⟩, 0, 0, 0) = g (⟨.twoPow 8 i⟩, 0, 0, 0)) (c : Column) : f c = g c := by
  have single : ∀ b, f (b, 0, 0, 0) = g (b, 0, 0, 0) := by
    intro b
    have homs : (AddMonoidHom.mk' f fAdd).comp (.inl Gf256 _) =
        (AddMonoidHom.mk' g gAdd).comp (.inl Gf256 _) := Gf256.ext_of_bits bit
    exact DFunLike.congr_fun homs b
  obtain ⟨b0, b1, b2, b3⟩ := c
  have split : ((b0, b1, b2, b3) : Column) = (b0, 0, 0, 0) + (rotate (b1, 0, 0, 0) +
      (rotate (rotate (b2, 0, 0, 0)) + rotate (rotate (rotate (b3, 0, 0, 0))))) := by
    simp [rotate]
  rw [split]
  simp only [fAdd, gAdd, fRotate, gRotate, single]

/-- A circulant that takes another one back on the eight bits takes it back. -/
theorem circulant_cancel {n0 n1 n2 n3 : Gf256}
    (bit : ∀ i < 8, circulant m0 m1 m2 m3 (circulant n0 n1 n2 n3 (⟨.twoPow 8 i⟩, 0, 0, 0)) =
      (⟨.twoPow 8 i⟩, 0, 0, 0)) (c : Column) :
    circulant m0 m1 m2 m3 (circulant n0 n1 n2 n3 c) = c := by
  refine ext_of_bit (f := fun c => circulant m0 m1 m2 m3 (circulant n0 n1 n2 n3 c))
    (g := fun c => c) ?_ (fun _ _ => rfl) ?_ (fun _ => rfl) bit c
  · intro c d
    rw [circulant_add, circulant_add]
  · intro c
    rw [circulant_rotate, circulant_rotate]

end Column

end UdpStuff.Theory
