/-
# Proto.RenderWrite — the generated write functions

What `render_cc.py` generates for `write_<struct>`, as functions of the schema.  A
writer is the bits written so far.  A field with a default is written only where it
differs from the default, and nothing is written in its place otherwise.  A length
field is written as zero first and patched when its content is written.

The type variable of a union that is an array item is the item's own.
-/
import UdpStuff.Proto.Primitives

namespace UdpStuff.Proto

set_option autoImplicit false

/-- What a write function throws. -/
inductive WriteExc where
  | invalidArgument (descr : String)
  | runtimeError (descr : String)
deriving DecidableEq

/-- A writer after a call, or the exception that left it. -/
abbrev Written := Except WriteExc (List Bool)

/-- `write_uint_at`: the bits of a number in place of as many at a position. -/
def writeUintAt (prim : Primitives) (bitPos bits n : Nat) (writer : List Bool) : List Bool :=
  writer.take bitPos ++ prim.write (.uint bits) (.number n) ++ writer.drop (bitPos + bits)

/-- The loop over the items of an array. -/
def writeItems (writeItem : Value → List Bool → Written) : List Value → List Bool → Written
  | [], writer => .ok writer
  | v :: rest, writer =>
    match writeItem v writer with
    | .error e => .error e
    | .ok writer => writeItems writeItem rest writer

/-- A write between a length field and its patch. -/
def writeSized (prim : Primitives) (length : Option Nat) (write : List Bool → Written)
    (writer : List Bool) : Written :=
  match length with
  | none => write writer
  | some bits =>
    let writer := writer ++ prim.write (.uint bits) (.number 0)
    let structPos := writer.length
    match write writer with
    | .error e => .error e
    | .ok writer =>
      .ok (writeUintAt prim (structPos - bits) bits (writer.length - structPos) writer)

mutual

/-- `render_write_field` -/
def writeField (prim : Primitives) : FieldDescr → Value → List Bool → Written
  | .mk _ none kind, v, writer => writeKind prim kind v writer
  | .mk _ (some default) kind, v, writer =>
    if prim.differs v default then writeKind prim kind v writer else .ok writer

def writeKind (prim : Primitives) : FieldKind → Value → List Bool → Written
  | .leaf leaf, v, writer => .ok (writer ++ prim.write leaf v.asAtom)
  | .array item (.counted sizeBits), v, writer =>
    writeItems (writeField prim item) v.items
      (writer ++ prim.write (.uint sizeBits) (.number v.items.length))
  | .array item (.const n), v, writer =>
    if v.items.length ≠ n then
      .error (.invalidArgument ("Array size must be " ++ toString n))
    else writeItems (writeField prim item) v.items writer
  | .struct struct length, v, writer => writeSized prim length (writeStruct prim struct v) writer
  | .union (.mk _ structs allowEmpty) typeBits length, v, writer =>
    let writer := writer ++ prim.write (.uint typeBits) (.number v.type)
    if allowEmpty ∧ v.type = 0 then .ok writer
    else
      writeSized prim length
        (writeVariant prim structs (v.type - firstType allowEmpty) (v.variant v.type)) writer

/-- `render_write_struct` -/
def writeStruct (prim : Primitives) : StructDescr → Value → List Bool → Written
  | .mk _ fields, v, writer => writeFields prim fields v.fields writer

def writeFields (prim : Primitives) : List FieldDescr → List Value → List Bool → Written
  | [], _, writer => .ok writer
  | f :: rest, vs, writer =>
    match writeField prim f (vs.headD .blank) writer with
    | .error e => .error e
    | .ok writer => writeFields prim rest vs.tail writer

/-- The `switch` over the variants. -/
def writeVariant (prim : Primitives) : List StructDescr → Nat → Value → List Bool → Written
  | [], _, _, _ => .error (.runtimeError "Unknown union type")
  | struct :: _, 0, v, writer => writeStruct prim struct v writer
  | _ :: rest, k + 1, v, writer => writeVariant prim rest k v writer

end

end UdpStuff.Proto
