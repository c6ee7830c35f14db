/-
# Proto.Bounds — how far a parse goes and what it throws

For each schema there is a number of bits that no parse of it goes beyond
(`boundedField`): a leaf has finitely many values, and an array has no more items
than its size field can say.

A parse throws something other than the end of the bits only for a union type that
has no variant.  `CoveredField` says that all numbers of all type fields inside have
one; then nothing is thrown (`quietField`).
-/
import UdpStuff.Proto.Outcome
import Mathlib.Data.Set.Finite.List
import Mathlib.Data.Set.Finite.Lattice
import Mathlib.Order.Interval.Finset.Nat
import Mathlib.Data.Int.Interval

namespace UdpStuff.Proto

set_option autoImplicit false

/-! ## How far a parse goes -/

/-- No parse that returns has gone further than some number of bits. -/
def Bounded (parse : Value → StreamReader → Parsed) : Prop :=
  ∃ most, ∀ (old : Value) (r next : StreamReader),
    (parse old r).rest = .ok next → next.pos ≤ r.pos + most

/-- A leaf has finitely many values. -/
theorem finite_fits (leaf : Leaf) : {a | leaf.Fits a}.Finite := by
  have numbers (bits : Nat) : {a | ∃ n < 2 ^ bits, a = Atom.number n}.Finite := by
    apply ((Set.finite_lt_nat (2 ^ bits)).image Atom.number).subset
    rintro a ⟨n, bound, rfl⟩
    exact ⟨n, bound, rfl⟩
  cases leaf with
  | bool =>
      apply (Set.finite_range Atom.bool).subset
      intro a fits
      cases a with
      | bool b => exact ⟨b, rfl⟩
      | _ => exact fits.elim
  | uint bits | float bits | enum bits =>
      apply (numbers bits).subset
      intro a fits
      cases a with
      | number n => exact ⟨n, fits, rfl⟩
      | _ => exact fits.elim
  | int bits =>
      apply ((Set.finite_Icc (-(2 ^ bits) : Int) (2 ^ bits)).image Atom.int).subset
      intro a fits
      cases a with
      | int z =>
          obtain ⟨least, most⟩ := fits
          have positive : (0 : Int) < 2 ^ bits := by positivity
          exact ⟨z, ⟨by omega, by omega⟩, rfl⟩
      | _ => exact fits.elim
  | string sizeBits =>
      have bytes : Finite UInt8 := Finite.of_injective UInt8.toFin fun _ _ => UInt8.toFin_inj.mp
      apply ((List.finite_length_lt UInt8 (2 ^ sizeBits)).image Atom.string).subset
      intro a fits
      cases a with
      | string s => exact ⟨s, fits, rfl⟩
      | _ => exact fits.elim

/-- The values of a leaf are read from a bounded number of bits. -/
theorem bounded_read (prim : Primitives) (leaf : Leaf) :
    ∃ most, ∀ left a k, prim.read leaf left = some (a, k) → k ≤ most := by
  obtain ⟨most, bound⟩ := ((finite_fits leaf).image fun a => (prim.write leaf a).length).bddAbove
  refine ⟨most, fun left a k read => ?_⟩
  obtain ⟨fits, rfl, -⟩ := (prim.read_iff _ _ _ _).mp read
  exact bound ⟨a, fits, rfl⟩

theorem boundedItems {parse : Value → StreamReader → Parsed} {most : Nat}
    (bound : ∀ (old : Value) (r next : StreamReader),
      (parse old r).rest = .ok next → next.pos ≤ r.pos + most)
    {olds : List Value} {r next : StreamReader} (parsed : (parseItems parse olds r).2 = .ok next) :
    next.pos ≤ r.pos + olds.length * most := by
  induction olds generalizing r with
  | nil =>
      cases parsed
      exact Nat.le_add_right _ _
  | cons old olds ih =>
      rw [parseItems] at parsed
      split at parsed
      case h_1 => cases parsed
      case h_2 v r' first =>
        have here := bound old r r' (by rw [first])
        have later := ih parsed
        rw [List.length_cons, Nat.succ_mul]
        omega

/-- Arrays of up to so many items. -/
theorem boundedArray {parse : Value → StreamReader → Parsed} (bounded : Bounded parse)
    (count : Nat) : ∃ most, ∀ n ≤ count, ∀ (old : Value) (r next : StreamReader),
      (parseArray parse n old r).rest = .ok next → next.pos ≤ r.pos + most := by
  obtain ⟨most, bound⟩ := bounded
  refine ⟨count * most, fun n few old r next parsed => ?_⟩
  have reached := boundedItems bound parsed
  have least := Nat.mul_le_mul_right most few
  rw [length_resize] at reached
  omega

theorem boundedSized (prim : Primitives) {parse : Value → StreamReader → Parsed}
    (bounded : Bounded parse) (length : Option Nat) : Bounded (parseSized prim length parse) := by
  cases length with
  | none => exact bounded
  | some bits =>
      refine ⟨bits, fun old r next parsed => ?_⟩
      rw [parseSized] at parsed
      split at parsed
      case h_1 n k number =>
        obtain ⟨-, -, -, rfl, -⟩ := prim.read_uint number
        dsimp only at parsed
        split at parsed
        case h_1 => cases parsed
        case h_2 =>
          cases parsed
          exact Nat.le_refl _
      case h_2 => cases parsed

variable (prim : Primitives)

mutual

theorem boundedField : ∀ f : FieldDescr, Bounded (parseField prim f)
  | .mk _ none kind => by
      obtain ⟨most, bound⟩ := boundedKind kind
      refine ⟨most, fun old r next parsed => ?_⟩
      rw [parseField] at parsed
      exact bound old r next parsed
  | .mk _ (some _) kind => by
      obtain ⟨most, bound⟩ := boundedKind kind
      refine ⟨1 + most, fun old r next parsed => ?_⟩
      rw [parseField, StreamReader.readFieldFlag] at parsed
      cases bits : r.left with
      | nil =>
          rw [bits] at parsed
          cases parsed
      | cons flag left =>
          rw [bits] at parsed
          cases flag with
          | false =>
              cases parsed
              rw [StreamReader.pos_advance]
              omega
          | true =>
              have reached := bound _ _ _ parsed
              rw [StreamReader.pos_advance] at reached
              omega

theorem boundedKind : ∀ kind : FieldKind, Bounded (parseKind prim kind)
  | .leaf leaf => by
      obtain ⟨most, bound⟩ := bounded_read prim leaf
      refine ⟨most, fun old r next parsed => ?_⟩
      rw [parseKind] at parsed
      split at parsed
      case h_1 => cases parsed
      case h_2 a k read =>
        cases parsed
        exact Nat.add_le_add_left (bound _ _ _ read) _
  | .array item (.counted sizeBits) => by
      obtain ⟨most, bound⟩ := boundedArray (boundedField item) (2 ^ sizeBits)
      refine ⟨sizeBits + most, fun old r next parsed => ?_⟩
      rw [parseKind] at parsed
      split at parsed
      case h_1 n k number =>
        obtain ⟨m, same, few, rfl, -⟩ := prim.read_uint number
        cases same
        have reached := bound n few.le _ _ _ parsed
        rw [StreamReader.pos_advance] at reached
        omega
      case h_2 => cases parsed
  | .array item (.const n) => by
      obtain ⟨most, bound⟩ := boundedArray (boundedField item) n
      refine ⟨most, fun old r next parsed => ?_⟩
      rw [parseKind] at parsed
      exact bound n n.le_refl _ _ _ parsed
  | .struct struct length => by
      obtain ⟨most, bound⟩ := boundedSized prim (boundedStruct struct) length
      refine ⟨most, fun old r next parsed => ?_⟩
      rw [parseKind] at parsed
      exact bound _ _ _ parsed
  | .union (.mk _ structs allowEmpty) typeBits length => by
      obtain ⟨most, bound⟩ := boundedStructs structs
      have variants (k : Nat) : ∃ most', ∀ (old : Value) (r next : StreamReader),
          (parseSized prim length (parseVariant prim structs k) old r).rest = .ok next →
            next.pos ≤ r.pos + most' :=
        boundedSized prim ⟨most, bound k⟩ length
      choose most' bound' using variants
      refine ⟨typeBits + (Finset.range (2 ^ typeBits)).sup fun t => most' (t - firstType allowEmpty),
        fun old r next parsed => ?_⟩
      rw [parseKind] at parsed
      split at parsed
      case h_1 t k number =>
        obtain ⟨m, same, few, rfl, -⟩ := prim.read_uint number
        cases same
        split at parsed
        case isTrue =>
          cases parsed
          rw [StreamReader.pos_advance]
          omega
        case isFalse =>
          have reached := bound' _ _ _ _ parsed
          have among := Finset.le_sup (f := fun t => most' (t - firstType allowEmpty))
            (Finset.mem_range.mpr few)
          rw [StreamReader.pos_advance] at reached
          omega
      case h_2 => cases parsed

theorem boundedStruct : ∀ struct : StructDescr, Bounded (parseStruct prim struct)
  | .mk _ fields => by
      obtain ⟨most, bound⟩ := boundedFields fields
      refine ⟨most, fun old r next parsed => ?_⟩
      rw [parseStruct] at parsed
      exact bound _ _ _ parsed

theorem boundedFields : ∀ fields : List FieldDescr,
    ∃ most, ∀ (olds : List Value) (r next : StreamReader),
      (parseFields prim fields olds r).2 = .ok next → next.pos ≤ r.pos + most
  | [] => by
      refine ⟨0, fun olds r next parsed => ?_⟩
      cases parsed
      exact Nat.le_refl _
  | f :: rest => by
      obtain ⟨most, bound⟩ := boundedField f
      obtain ⟨most', bound'⟩ := boundedFields rest
      refine ⟨most + most', fun olds r next parsed => ?_⟩
      rw [parseFields] at parsed
      split at parsed
      case h_1 => cases parsed
      case h_2 v r' first =>
        have here := bound _ r r' (by rw [first])
        have later := bound' _ _ _ parsed
        omega

/-- One bound for all variants of a union. -/
theorem boundedStructs : ∀ structs : List StructDescr,
    ∃ most, ∀ (k : Nat) (old : Value) (r next : StreamReader),
      (parseVariant prim structs k old r).rest = .ok next → next.pos ≤ r.pos + most
  | [] => ⟨0, fun _ _ _ _ parsed => by cases parsed⟩
  | struct :: rest => by
      obtain ⟨most, bound⟩ := boundedStruct struct
      obtain ⟨most', bound'⟩ := boundedStructs rest
      refine ⟨most + most', fun k old r next parsed => ?_⟩
      cases k with
      | zero =>
          rw [parseVariant] at parsed
          have reached := bound _ _ _ parsed
          omega
      | succ k =>
          rw [parseVariant] at parsed
          have reached := bound' _ _ _ _ parsed
          omega

end

/-! ## What a parse throws -/

mutual

/-- Every number of every type field inside has a variant. -/
def CoveredField : FieldDescr → Prop
  | .mk _ _ kind => CoveredKind kind

def CoveredKind : FieldKind → Prop
  | .leaf _ => True
  | .array item _ => CoveredField item
  | .struct struct _ => CoveredStruct struct
  | .union (.mk _ structs allowEmpty) typeBits _ =>
    2 ^ typeBits ≤ firstType allowEmpty + structs.length ∧ CoveredStructs structs

def CoveredStruct : StructDescr → Prop
  | .mk _ fields => CoveredFields fields

def CoveredFields : List FieldDescr → Prop
  | [] => True
  | f :: rest => CoveredField f ∧ CoveredFields rest

def CoveredStructs : List StructDescr → Prop
  | [] => True
  | struct :: rest => CoveredStruct struct ∧ CoveredStructs rest

end

/-- Nothing is thrown but the end of the bits. -/
def QuietParse (parse : Value → StreamReader → Parsed) : Prop :=
  ∀ (old : Value) (r : StreamReader), thrown (parse old r).rest = none

theorem quietItems {parse : Value → StreamReader → Parsed} (quiet : QuietParse parse)
    (olds : List Value) (r : StreamReader) : thrown (parseItems parse olds r).2 = none := by
  induction olds generalizing r with
  | nil => rfl
  | cons old olds ih =>
      have first := quiet old r
      rw [parseItems]
      split
      case h_1 failed =>
        rw [failed] at first
        exact first
      case h_2 next parsed => exact ih next

theorem quietSized {parse : Value → StreamReader → Parsed} (quiet : QuietParse parse)
    (length : Option Nat) : QuietParse (parseSized prim length parse) := by
  intro old r
  cases length with
  | none => exact quiet old r
  | some bits =>
      rw [parseSized]
      split
      case h_1 n k number =>
        have fragment := quiet old ((r.advance k).readFragment n)
        dsimp only
        split
        case h_1 failed =>
          rw [failed] at fragment
          exact fragment
        case h_2 => rfl
      case h_2 => rfl

mutual

theorem quietField : ∀ f : FieldDescr, CoveredField f → QuietParse (parseField prim f)
  | .mk _ none kind, covered => by
      intro old r
      rw [parseField]
      exact quietKind kind covered old r
  | .mk _ (some _) kind, covered => by
      intro old r
      rw [parseField]
      split
      case h_1 => rfl
      case h_2 => rfl
      case h_3 => exact quietKind kind covered old _

theorem quietKind : ∀ kind : FieldKind, CoveredKind kind → QuietParse (parseKind prim kind)
  | .leaf leaf, _ => by
      intro old r
      rw [parseKind]
      split <;> rfl
  | .array item (.counted sizeBits), covered => by
      intro old r
      rw [parseKind]
      split
      case h_1 => exact quietItems (quietField item covered) _ _
      case h_2 => rfl
  | .array item (.const n), covered => by
      intro old r
      rw [parseKind]
      exact quietItems (quietField item covered) _ _
  | .struct struct length, covered => by
      intro old r
      rw [parseKind]
      exact quietSized prim (quietStruct struct covered) length old r
  | .union (.mk _ structs allowEmpty) typeBits length, covered => by
      intro old r
      rw [parseKind]
      split
      case h_1 t k number =>
        obtain ⟨m, same, bound, -, -⟩ := prim.read_uint number
        cases same
        split
        case isTrue => rfl
        case isFalse other =>
          have there : t - firstType allowEmpty < structs.length := by
            have all := covered.1
            unfold firstType at all ⊢
            split at all
            case isTrue empty =>
              have positive : t ≠ 0 := fun none => other ⟨empty, none⟩
              rw [if_pos empty]
              omega
            case isFalse empty =>
              rw [if_neg empty]
              omega
          exact quietSized prim (quietVariant structs _ there covered.2) length _ _
      case h_2 => rfl

theorem quietStruct : ∀ struct : StructDescr, CoveredStruct struct →
    QuietParse (parseStruct prim struct)
  | .mk _ fields, covered => by
      intro old r
      rw [parseStruct]
      exact quietFields fields covered old.fields r

theorem quietFields : ∀ fields : List FieldDescr, CoveredFields fields →
    ∀ (olds : List Value) (r : StreamReader), thrown (parseFields prim fields olds r).2 = none
  | [], _, _, _ => rfl
  | f :: rest, covered, olds, r => by
      have first := quietField f covered.1 (olds.headD .blank) r
      rw [parseFields]
      split
      case h_1 failed =>
        rw [failed] at first
        exact first
      case h_2 next parsed => exact quietFields rest covered.2 olds.tail next

theorem quietVariant : ∀ (structs : List StructDescr) (k : Nat), k < structs.length →
    CoveredStructs structs → QuietParse (parseVariant prim structs k)
  | [], _, there, _ => absurd there (Nat.not_lt_zero _)
  | struct :: _, 0, _, covered => by
      intro old r
      rw [parseVariant]
      exact quietStruct struct covered.1 old r
  | _ :: rest, k + 1, there, covered => by
      intro old r
      rw [parseVariant]
      exact quietVariant rest k (Nat.lt_of_succ_lt_succ there) covered.2 old r

end

end UdpStuff.Proto
