/-
# Proto.Descr — schemas and the values they describe

The field descriptors of `descr.py`, with what the generated codecs read of them:
names, defaults, widths and prefixes.  The fields whose bits one primitive writes
and reads are the leaves.

A value is what the generated C++ type holds, without its type.  `blank` is memory
that nothing was put into.
-/
import Mathlib.Data.BitVec

namespace UdpStuff.Proto

set_option autoImplicit false

/-- The fields one primitive handles, each with its width; a string's is the width of
its size. -/
inductive Leaf where
  | bool
  | uint (bits : Nat)
  | int (bits : Nat)
  | float (bits : Nat)
  | enum (bits : Nat)
  | string (sizeBits : Nat)
deriving DecidableEq

/-- The value of a leaf; a float is its bit pattern and an enum member its number. -/
inductive Atom where
  | bool (b : Bool)
  | number (n : Nat)
  | int (z : Int)
  | string (s : List UInt8)
deriving DecidableEq

/-- A value of a generated type.  A union is its type variable and the variant that
it selects. -/
inductive Value where
  | atom (a : Atom)
  | array (items : List Value)
  | struct (fields : List Value)
  | union (type : Nat) (variant : Value)
  | blank

/-- How many items an array has: as many as its size field says, or a constant. -/
inductive ArraySize where
  | counted (sizeBits : Nat)
  | const (n : Nat)
deriving DecidableEq

mutual

/-- `FieldDescr` and, as its kind, the subclass. -/
inductive FieldDescr where
  | mk (name : String) (default : Option Value) (kind : FieldKind)

/-- The kinds of fields; `length` is the width of the length field, if there is one. -/
inductive FieldKind where
  | leaf (leaf : Leaf)
  | array (item : FieldDescr) (size : ArraySize)
  | struct (struct : StructDescr) (length : Option Nat)
  | union (union : UnionDescr) (typeBits : Nat) (length : Option Nat)

inductive StructDescr where
  | mk (name : String) (fields : List FieldDescr)

inductive UnionDescr where
  | mk (name : String) (structs : List StructDescr) (allowEmpty : Bool)

end

namespace StructDescr

def fields : StructDescr → List FieldDescr
  | .mk _ fields => fields

end StructDescr

/-- The number of the first variant in the union's enum, after the empty case if
there is one. -/
def firstType (allowEmpty : Bool) : Nat := if allowEmpty then 1 else 0

namespace Value

/-- The value as a leaf's. -/
def asAtom : Value → Atom
  | .atom a => a
  | _ => .bool false

/-- The items of an array. -/
def items : Value → List Value
  | .array vs => vs
  | _ => []

/-- The fields of a struct. -/
def fields : Value → List Value
  | .struct vs => vs
  | _ => []

/-- The type variable of a union. -/
def type : Value → Nat
  | .union t _ => t
  | _ => 0

/-- What a union holds for a type: nothing, unless it is the one selected. -/
def variant (t : Nat) : Value → Value
  | .union t' v => if t' = t then v else .blank
  | _ => .blank

@[simp] theorem asAtom_atom (a : Atom) : (atom a).asAtom = a := rfl

@[simp] theorem items_array (vs : List Value) : (array vs).items = vs := rfl

@[simp] theorem fields_struct (vs : List Value) : (struct vs).fields = vs := rfl

@[simp] theorem type_union (t : Nat) (v : Value) : (union t v).type = t := rfl

@[simp] theorem variant_union (t : Nat) (v : Value) : (union t v).variant t = v := if_pos rfl

end Value

/-- The value is one of the leaf's: its number or length fits the width. -/
def Leaf.Fits : Leaf → Atom → Prop
  | .bool, .bool _ => True
  | .uint bits, .number n => n < 2 ^ bits
  | .int bits, .int z => -(2 ^ bits : Int) ≤ 2 * z ∧ 2 * z < 2 ^ bits
  | .float bits, .number n => n < 2 ^ bits
  | .enum bits, .number n => n < 2 ^ bits
  | .string sizeBits, .string s => s.length < 2 ^ sizeBits
  | _, _ => False

end UdpStuff.Proto
