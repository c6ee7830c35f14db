/-
# Proto.HeaderText — the text of the header

The generators of `render_cc.py`, item by item, and `FileOutput`, which puts the items into a file.
`get_type_name` raises at widths that no type has and at a field of no class.

`linesOf` is what a compiler reads of the items; the indentation is for readers only.
-/
import UdpStuff.Proto.Descr

namespace UdpStuff.Proto.HeaderText

set_option autoImplicit false

/-- What a generator yields. -/
inductive Item where
  | line (s : String)
  | identStart
  | identEnd
  | sep
deriving DecidableEq

/-! ## Descriptors -/

/-- A `UintField` that is a prefix, with its class where it is an `EnumField`. -/
structure UintField where
  bits : Nat
  enum : Option String := none

/-- A default, with what `str` makes of it and whether its length is zero. -/
structure Default where
  value : Value
  text : String
  empty : Bool := false

/-- A constant size is taken before a size field, and one of them is there. -/
inductive Size where
  | counted (size : UintField)
  | const (n : Nat)

mutual

/-- An empty description counts as none. -/
inductive FieldDescr where
  | mk (name : String) (description : Option String) (default : Option Default) (cls : FieldClass)

/-- The subclasses of `FieldDescr`, and the class itself (`plain`). -/
inductive FieldClass where
  | plain
  | bool
  | uint (bits : Nat)
  | int (bits : Nat)
  | float (bits : Nat)
  | enum (enum : String) (bits : Nat)
  | string (size : UintField)
  | array (item : FieldDescr) (size : Size)
  | struct (struct : StructDescr) (length : Option UintField)
  | union (union : UnionDescr) (typeField : UintField) (length : Option UintField)

inductive StructDescr where
  | mk (name : String) (description : Option String) (fields : List FieldDescr)

inductive UnionDescr where
  | mk (name : String) (description : Option String) (structs : List StructDescr)
    (allowEmpty : Bool)

end

def FieldDescr.name : FieldDescr → String
  | .mk name _ _ _ => name

def FieldDescr.default : FieldDescr → Option Default
  | .mk _ _ default _ => default

def FieldDescr.cls : FieldDescr → FieldClass
  | .mk _ _ _ cls => cls

def StructDescr.name : StructDescr → String
  | .mk name _ _ => name

def StructDescr.fields : StructDescr → List FieldDescr
  | .mk _ _ fields => fields

def UnionDescr.name : UnionDescr → String
  | .mk name _ _ _ => name

/-- The `ValueError`s. -/
inductive RenderError where
  | uintSize (bits : Nat)
  | intSize (bits : Nat)
  | floatSize (bits : Nat)
  | fieldType
deriving DecidableEq

abbrev Rendered := Except RenderError (List Item)

/-! ## Struct definitions -/

def uintType (bits : Nat) : Except RenderError String :=
  if bits ≤ 8 then .ok "uint8_t"
  else if bits ≤ 16 then .ok "uint16_t"
  else if bits ≤ 32 then .ok "uint32_t"
  else if bits ≤ 64 then .ok "uint64_t"
  else .error (.uintSize bits)

def intType (bits : Nat) : Except RenderError String :=
  if bits ≤ 8 then .ok "int8_t"
  else if bits ≤ 16 then .ok "int16_t"
  else if bits ≤ 32 then .ok "int32_t"
  else if bits ≤ 64 then .ok "int64_t"
  else .error (.intSize bits)

def floatType (bits : Nat) : Except RenderError String :=
  if bits ≤ 32 then .ok "float"
  else if bits ≤ 64 then .ok "double"
  else .error (.floatSize bits)

/-- `get_type_name` of a prefix. -/
def UintField.typeName (f : UintField) : Except RenderError String :=
  match f.enum with
  | some enum => .ok enum
  | none => uintType f.bits

mutual

/-- `get_type_name` -/
def getTypeName : FieldDescr → Except RenderError String
  | .mk _ _ _ cls => classTypeName cls
termination_by structural f => f

def classTypeName : FieldClass → Except RenderError String
  | .plain => .error .fieldType
  | .bool => .ok "bool"
  | .uint bits => uintType bits
  | .int bits => intType bits
  | .float bits => floatType bits
  | .enum enum _ => .ok enum
  | .string _ => .ok "std::string"
  | .array item _ => (getTypeName item).map fun type => s!"std::vector<{type}>"
  | .struct (.mk name _ _) _ => .ok name
  | .union (.mk name _ _ _) _ _ => .ok name
termination_by structural cls => cls

end

/-- The line of a description, if there is one. -/
def describe : Option String → List Item
  | none => []
  | some description => [.line s!"/* {description} */"]

/-- The members of a field. -/
def renderMember : FieldDescr → Rendered
  | .mk name description default cls => do
    let type ← getTypeName (.mk name description default cls)
    return describe description ++
      (match cls with
        | .union (.mk union _ _ _) _ _ => [.line s!"{union}_enum_class {name}_type;"]
        | _ => []) ++
      [.line s!"{type} {name};"]

def renderStruct : StructDescr → Rendered
  | .mk name description fields => do
    let members ← fields.mapM renderMember
    return describe description ++ [.line s!"typedef struct {name} \x7b", .identStart] ++
      members.flatten ++ [.identEnd, .line s!"\x7d {name};", .sep]

def variantMember : StructDescr → Item
  | .mk struct _ _ => .line s!"{struct} {struct}_variant;"

def renderUnion : UnionDescr → List Item
  | .mk name _ structs _ =>
    [.line s!"typedef union {name} \x7b", .identStart] ++ structs.map variantMember ++
      [.identEnd, .line s!"\x7d {name};", .sep]

/-- The enumerators, numbered from `n` on. -/
def renderVariants (n : Nat) : List StructDescr → List Item
  | [] => []
  | .mk struct _ _ :: rest => .line s!"{struct} = {n}," :: renderVariants (n + 1) rest

def renderUnionEnum : UnionDescr → List Item
  | .mk name _ structs allowEmpty =>
    [.line s!"enum class {name}_enum_class \x7b", .identStart] ++
      (if allowEmpty then [.line s!"{name}_empty = 0,"] else []) ++
      renderVariants (firstType allowEmpty) structs ++
      [.identEnd, .line "\x7d;", .sep]

/-! ## Read functions -/

/-- Items one deeper. -/
def indented (items : List Item) : List Item := [.identStart] ++ items ++ [.identEnd]

/-- `render_parse_array`, around the items of one item. -/
def renderParseArray (size : Size) (reader result : String) (item : List Item) : Rendered := do
  let front ← match size with
    | .const n => pure [Item.line s!"{result}.resize({n});"]
    | .counted size => do
      let sizeType ← size.typeName
      let bits := size.bits
      pure [.line s!"{sizeType} size;", .line s!"{reader}.read_uint({bits}, &size);",
        .line s!"{result}.resize(size);"]
  return [.line "\x7b", .identStart] ++ front ++
    [.line s!"for (auto &vec_item : {result}) \x7b", .identStart] ++ item ++
    [.identEnd, .line "\x7d", .identEnd, .line "\x7d"]

/-- `render_parse_struct_field` -/
def renderParseStructField (struct : String) (length : Option UintField) (reader result : String) :
    Rendered :=
  match length with
  | some length => do
    let lengthType ← length.typeName
    let bits := length.bits
    return [.line "\x7b", .identStart, .line s!"{lengthType} length;",
      .line s!"{reader}.read_uint({bits}, &length);",
      .line "auto struct_reader = reader.read_fragment(length);", .line "try \x7b", .identStart,
      .line s!"parse_{struct}(struct_reader, {result});", .identEnd,
      .line "\x7d catch (BitStreamFinished &e) \x7b", .line "\x7d", .identEnd, .line "\x7d"]
  | none => return [.line s!"parse_{struct}(reader, {result});"]

/-- The cases of the variants; what is parsed by `reader`. -/
def renderParseCases (union reader result : String) (structs : List StructDescr) : List Item :=
  structs.flatMap fun
    | .mk struct _ _ =>
      [.line s!"case {union}_enum_class::{struct}: \x7b", .identStart,
        .line s!"parse_{struct}({reader}, {result}.{struct}_variant);", .line "\x7d break;",
        .identEnd]

def unknownType : List Item :=
  [.line "default:", .identStart, .line "throw std::runtime_error(\"Unknown union type\");",
    .identEnd]

/-- `render_parse_union_field`.  Behind a length field the `try` is not followed by an
`IdentEnd`. -/
def renderParseUnionField (union : UnionDescr) (typeField : UintField) (length : Option UintField)
    (reader result typeVar : String) : Rendered :=
  match union with
  | .mk name _ structs allowEmpty => do
    let typeBits := typeField.bits
    let read := [Item.line s!"{reader}.read_uint({typeBits}, &{typeVar});"]
    match length with
    | some length => do
      let lengthType ← length.typeName
      let bits := length.bits
      return read ++
        (if allowEmpty then [.line s!"if ({typeVar} != {name}_empty) \x7b", .identStart] else []) ++
        [.line s!"{lengthType} length;", .line s!"{reader}.read_uint({bits}, &length);",
          .line "auto struct_reader = reader.read_fragment(length);", .line "try \x7b", .identStart,
          .line s!"switch ({typeVar}) \x7b", .identStart] ++
        renderParseCases name "struct_reader" result structs ++ unknownType ++
        [.line "\x7d", .identEnd, .line "\x7d catch (BitStreamFinished &e) \x7b", .line "\x7d"] ++
        (if allowEmpty then [.identEnd, .line "\x7d"] else [])
    | none =>
      return read ++ [.line s!"switch ({typeVar}) \x7b", .identStart] ++
        (if allowEmpty then
          [.line s!"case {name}_empty:", .identStart, .line "break;", .identEnd] else []) ++
        renderParseCases name "reader" result structs ++ unknownType ++ [.identEnd, .line "\x7d"]

mutual

def renderParseField : FieldDescr → String → String → Rendered
  | .mk _ _ default cls, reader, result => do
    let items ← renderParseClass cls reader result
    match default with
    | none => return items
    | some _ =>
      return [.line s!"if (read_field_flag({reader})) \x7b"] ++ indented items ++ [.line "\x7d"]
termination_by structural f => f

/-- `render_parse_field`, apart from the default. -/
def renderParseClass : FieldClass → String → String → Rendered
  | .plain, _, _ => .error .fieldType
  | .enum _ bits, _, result => return [.line s!"read_enum_field(reader, &{result}, {bits});"]
  | .uint bits, reader, result => return [.line s!"{reader}.read_uint({bits}, &{result});"]
  | .int bits, reader, result => return [.line s!"{reader}.read_int({bits}, &{result});"]
  | .float bits, reader, result => return [.line s!"{reader}.read_float({bits}, &{result});"]
  | .bool, reader, result => return [.line s!"{reader}.read_bool(&{result});"]
  | .string size, _, result =>
    let bits := size.bits
    return [.line s!"read_string_field(reader, &{result}, {bits});"]
  | .array item size, reader, result => do
    let items ← renderParseField item reader "vec_item"
    renderParseArray size reader result items
  | .struct (.mk name _ _) length, reader, result =>
    renderParseStructField name length reader result
  | .union union typeField length, reader, result =>
    renderParseUnionField union typeField length reader result s!"{result}_type"
termination_by structural cls => cls

end

def renderParseStruct : StructDescr → Rendered
  | .mk name _ fields => do
    let items ← fields.mapM fun f => renderParseField f "reader" ("result." ++ f.name)
    return [.line "template<class Treader>",
        .line s!"void parse_{name}(Treader &reader, {name} &result) \x7b", .identStart] ++
      items.flatten ++ [.identEnd, .line "\x7d", .sep]

/-! ## Write functions -/

/-- `render_write_array`, around the items of one item. -/
def renderWriteArray (size : Size) (writer value : String) (item : List Item) : List Item :=
  [.line "\x7b", .identStart] ++
    (match size with
      | .counted size =>
        let bits := size.bits
        [.line s!"{writer}.write_uint({bits}, {value}.size());"]
      | .const n =>
        [.line (s!"if ({value}.size() != {n}) " ++
          s!"throw std::invalid_argument(\"Array size must be {n}\");")]) ++
    [.line s!"for (const auto &vec_item : {value}) \x7b", .identStart] ++ item ++
    [.identEnd, .line "\x7d", .identEnd, .line "\x7d"]

/-- `render_write_struct_field` -/
def renderWriteStructField (struct : String) (length : Option UintField) (writer value : String) :
    List Item :=
  match length with
  | some length =>
    let bits := length.bits
    [.line "\x7b", .identStart, .line s!"{writer}.write_uint({bits}, 0);",
      .line s!"auto struct_pos = {writer}.get_bit_pos();",
      .line s!"write_{struct}(writer, {value});",
      .line s!"auto length = {writer}.get_bit_pos() - struct_pos;",
      .line s!"{writer}.write_uint_at(struct_pos - {bits}, {bits}, length);",
      .identEnd, .line "\x7d"]
  | none => [.line s!"write_{struct}(writer, {value});"]

def renderWriteCases (union writer value : String) (structs : List StructDescr) : List Item :=
  structs.flatMap fun
    | .mk struct _ _ =>
      [.line s!"case {union}_enum_class::{struct}:", .identStart,
        .line s!"write_{struct}({writer}, {value}.{struct}_variant);", .line "break;", .identEnd]

/-- `render_write_union_field` -/
def renderWriteUnionField (union : UnionDescr) (typeField : UintField) (length : Option UintField)
    (writer value typeVar : String) : List Item :=
  match union with
  | .mk name _ structs allowEmpty =>
    let typeBits := typeField.bits
    [.line "\x7b", .identStart, .line s!"{writer}.write_uint({typeBits}, {typeVar});"] ++
      (if allowEmpty then [.line s!"if ({typeVar} != {name}_empty) \x7b", .identStart] else []) ++
      (match length with
        | some length =>
          let bits := length.bits
          [.line s!"{writer}.write_uint({bits}, 0);",
            .line s!"auto struct_pos = {writer}.get_bit_pos();"]
        | none => []) ++
      [.line s!"switch ({typeVar}) \x7b", .identStart] ++
      renderWriteCases name "writer" value structs ++ unknownType ++
      [.identEnd, .line "\x7d"] ++
      (match length with
        | some length =>
          let bits := length.bits
          [.line s!"auto struct_length = {writer}.get_bit_pos() - struct_pos;",
            .line s!"{writer}.write_uint_at(struct_pos - {bits}, {bits}, struct_length);"]
        | none => []) ++
      (if allowEmpty then [.identEnd, .line "\x7d"] else []) ++
      [.identEnd, .line "\x7d"]

/-- `check_default`: of strings and arrays an empty default is compared by its length. -/
def checkDefault (default : Default) (cls : FieldClass) (value : String) : String :=
  let text := default.text
  match cls with
  | .string _ => if default.empty then s!"{value}.size() > 0" else s!"{value} != \"{text}\""
  | .array _ _ => if default.empty then s!"{value}.size() > 0" else s!"{value} != {text}"
  | _ => s!"{value} != {text}"

mutual

def renderWriteField : FieldDescr → String → String → Rendered
  | .mk _ _ default cls, writer, value => do
    let items ← renderWriteClass cls writer value
    match default with
    | none => return items
    | some default =>
      let test := checkDefault default cls value
      return [.line s!"if ({test}) \x7b"] ++ indented items ++ [.line "\x7d"]
termination_by structural f => f

/-- `render_write_field`, apart from the default. -/
def renderWriteClass : FieldClass → String → String → Rendered
  | .plain, _, _ => .error .fieldType
  | .enum _ bits, _, value => return [.line s!"write_enum_field(writer, {value}, {bits});"]
  | .uint bits, writer, value => return [.line s!"{writer}.write_uint({bits}, {value});"]
  | .int bits, writer, value => return [.line s!"{writer}.write_int({bits}, {value});"]
  | .float bits, writer, value => return [.line s!"{writer}.write_float({bits}, {value});"]
  | .bool, writer, value => return [.line s!"{writer}.write_bool({value});"]
  | .string size, _, value =>
    let bits := size.bits
    return [.line s!"write_string_field(writer, {value}, {bits});"]
  | .array item size, writer, value => do
    let items ← renderWriteField item writer "vec_item"
    return renderWriteArray size writer value items
  | .struct (.mk name _ _) length, writer, value =>
    return renderWriteStructField name length writer value
  | .union union typeField length, writer, value =>
    return renderWriteUnionField union typeField length writer value s!"{value}_type"
termination_by structural cls => cls

end

def renderWriteStruct : StructDescr → Rendered
  | .mk name _ fields => do
    let items ← fields.mapM fun f => renderWriteField f "writer" ("value." ++ f.name)
    return [.line "template<class Twriter>",
        .line s!"void write_{name}(Twriter &writer, const {name} &value) \x7b", .identStart] ++
      items.flatten ++ [.identEnd, .line "\x7d", .sep]

def renderHeaderBegin : List Item :=
  [.line "#pragma once", .sep, .line "#include <cstdint>", .line "#include <string>",
    .line "#include <vector>", .line "#include <stdexcept>", .sep]

/-! ## The file -/

/-- What `render_proto` puts into the header, of the objects in their order. -/
inductive HeaderObj where
  | struct (struct : StructDescr)
  | union (union : UnionDescr)
  | unionField (union : UnionDescr)

def renderObj : HeaderObj → Rendered
  | .struct struct => do
    return (← renderStruct struct) ++ (← renderParseStruct struct) ++ (← renderWriteStruct struct)
  | .union _ => return []
  | .unionField union => return renderUnionEnum union ++ renderUnion union

def renderHeader (orderedObjs : List HeaderObj) : Rendered := do
  let items ← orderedObjs.mapM renderObj
  return renderHeaderBegin ++ items.flatten

/-- `FileOutput`, with what it has written. -/
structure FileOutput where
  text : String := ""
  ident : Int := 0

/-- Four blanks for each step; a string times a number below zero is empty. -/
def blanks : Nat → String
  | 0 => ""
  | n + 1 => "    " ++ blanks n

namespace FileOutput

def putItem (out : FileOutput) : Item → FileOutput
  | .identStart => { out with ident := out.ident + 1 }
  | .identEnd => { out with ident := out.ident - 1 }
  | .sep => { out with text := out.text ++ "\n\n" }
  | .line s =>
    { out with text := out.text ++ (blanks out.ident.toNat ++ s ++ "\n") }

def put (out : FileOutput) (items : List Item) : FileOutput := items.foldl putItem out

end FileOutput

/-- The lines, without indentation. -/
def linesOf (items : List Item) : List String :=
  items.filterMap fun
    | .line s => some s
    | _ => none

end UdpStuff.Proto.HeaderText
