/-
# Proto.RenderParse — the generated parse functions

What `render_cc.py` generates for `parse_<struct>`, as functions of the schema and
of what the result held before.  A field with a default is parsed only where a
presence flag is set, and keeps what it held otherwise.  A length-delimited struct
is parsed by a reader of its own; the end of that reader's bits is caught, and the
parent goes on right after the length.

A parse gives the value as it stands when it returns or throws, and the reader
after it or the exception.
-/
import UdpStuff.Proto.Primitives
import UdpStuff.Proto.StreamReader

namespace UdpStuff.Proto

set_option autoImplicit false

/-- What a parse function throws. -/
inductive ParseExc where
  | bitStreamFinished
  | runtimeError (descr : String)
deriving DecidableEq

structure Parsed where
  value : Value
  rest : Except ParseExc StreamReader

/-- `resize`: the items there are, and blank ones after them. -/
def resize (items : List Value) (n : Nat) : List Value :=
  items.take n ++ List.replicate (n - items.length) .blank

/-- The loop over the items of an array, each parsed in place. -/
def parseItems (parseItem : Value → StreamReader → Parsed) :
    List Value → StreamReader → List Value × Except ParseExc StreamReader
  | [], r => ([], .ok r)
  | old :: olds, r =>
    match parseItem old r with
    | ⟨v, .error e⟩ => (v :: olds, .error e)
    | ⟨v, .ok r⟩ =>
      let later := parseItems parseItem olds r
      (v :: later.1, later.2)

/-- An array of `n` items over what was there. -/
def parseArray (parseItem : Value → StreamReader → Parsed) (n : Nat) (old : Value)
    (r : StreamReader) : Parsed :=
  let parsed := parseItems parseItem (resize old.items n) r
  ⟨.array parsed.1, parsed.2⟩

/-- A parse by the reader itself, or behind a length field by a fragment. -/
def parseSized (prim : Primitives) (length : Option Nat)
    (parse : Value → StreamReader → Parsed) (old : Value) (r : StreamReader) : Parsed :=
  match length with
  | none => parse old r
  | some bits =>
    match prim.read (.uint bits) r.left with
    | some (.number length, k) =>
      let r := r.advance k
      match parse old (r.readFragment length) with
      | ⟨v, .error (.runtimeError descr)⟩ => ⟨v, .error (.runtimeError descr)⟩
      | ⟨v, _⟩ => ⟨v, .ok r⟩
    | _ => ⟨old, .error .bitStreamFinished⟩

/-- What a parsed variant makes of a union. -/
def Parsed.asUnion (t : Nat) (parsed : Parsed) : Parsed := ⟨.union t parsed.value, parsed.rest⟩

mutual

/-- `render_parse_field` -/
def parseField (prim : Primitives) : FieldDescr → Value → StreamReader → Parsed
  | .mk _ none kind, old, r => parseKind prim kind old r
  | .mk _ (some _) kind, old, r =>
    match r.readFieldFlag with
    | none => ⟨old, .error .bitStreamFinished⟩
    | some (false, r) => ⟨old, .ok r⟩
    | some (true, r) => parseKind prim kind old r

def parseKind (prim : Primitives) : FieldKind → Value → StreamReader → Parsed
  | .leaf leaf, old, r =>
    match prim.read leaf r.left with
    | none => ⟨old, .error .bitStreamFinished⟩
    | some (a, k) => ⟨.atom a, .ok (r.advance k)⟩
  | .array item (.counted sizeBits), old, r =>
    match prim.read (.uint sizeBits) r.left with
    | some (.number n, k) => parseArray (parseField prim item) n old (r.advance k)
    | _ => ⟨old, .error .bitStreamFinished⟩
  | .array item (.const n), old, r => parseArray (parseField prim item) n old r
  | .struct struct length, old, r => parseSized prim length (parseStruct prim struct) old r
  | .union (.mk _ structs allowEmpty) typeBits length, old, r =>
    match prim.read (.uint typeBits) r.left with
    | some (.number t, k) =>
      if allowEmpty ∧ t = 0 then ⟨.union 0 .blank, .ok (r.advance k)⟩
      else
        (parseSized prim length (parseVariant prim structs (t - firstType allowEmpty))
          (old.variant t) (r.advance k)).asUnion t
    | _ => ⟨old, .error .bitStreamFinished⟩

/-- `render_parse_struct` -/
def parseStruct (prim : Primitives) : StructDescr → Value → StreamReader → Parsed
  | .mk _ fields, old, r =>
    let parsed := parseFields prim fields old.fields r
    ⟨.struct parsed.1, parsed.2⟩

def parseFields (prim : Primitives) :
    List FieldDescr → List Value → StreamReader → List Value × Except ParseExc StreamReader
  | [], _, r => ([], .ok r)
  | f :: rest, olds, r =>
    match parseField prim f (olds.headD .blank) r with
    | ⟨v, .error e⟩ => (v :: olds.tail, .error e)
    | ⟨v, .ok r⟩ =>
      let later := parseFields prim rest olds.tail r
      (v :: later.1, later.2)

/-- The `switch` over the variants. -/
def parseVariant (prim : Primitives) : List StructDescr → Nat → Value → StreamReader → Parsed
  | [], _, old, _ => ⟨old, .error (.runtimeError "Unknown union type")⟩
  | struct :: _, 0, old, r => parseStruct prim struct old r
  | _ :: rest, k + 1, old, r => parseVariant prim rest k old r

end

end UdpStuff.Proto
