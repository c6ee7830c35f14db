/-
# Proto.HeaderPrograms — the functions of the header as programs

What the lines of the parse and write functions say, statement by statement.  The lines that
`render_cc.py` yields are those of the programs (`linesOf_parseStruct`, `linesOf_writeStruct`).

A length field, a size and a fragment are variables of the block that reads them.
-/
import UdpStuff.Theory.Statements
import UdpStuff.Proto.HeaderText

namespace UdpStuff.Proto.HeaderText

set_option autoImplicit false

open UdpStuff.Theory

/-! ## Programs -/

/-- The variable of a union's type, next to the union. -/
def typeVar : Expr → Expr
  | .name x => .name (x ++ "_type")
  | .member e field => .member e (field ++ "_type")
  | e => e

/-- Where a value stands: a variable, or a member of one. -/
def IsPlace : Expr → Prop
  | .name _ => True
  | .member _ _ => True
  | _ => False

/-- The type of a prefix, where there is one. -/
def UintField.type (f : UintField) : String := f.typeName.toOption.getD ""

def readNumber (reader : Expr) (bits : Nat) (place : Expr) : Expr :=
  .method reader "read_uint" [.number bits, .address place]

def writeNumber (writer : Expr) (bits : Nat) (value : Expr) : Expr :=
  .method writer "write_uint" [.number bits, value]

def unknownUnionType : Program :=
  .defaultLabel (.throw (.call "std::runtime_error" [.string "Unknown union type"]) .done)

/-- The name of an enumerator. -/
def enumerator (union struct : String) : Expr := .text (union ++ "_enum_class::" ++ struct)

def parseArrayProgram (size : Size) (reader result : Expr) (item : Program) : Program :=
  let items := .forEach "auto &" "vec_item" result item .done
  .block
    (match size with
      | .counted size =>
        .declare size.type "size" (.expr (readNumber reader size.bits (.name "size"))
          (.expr (.method result "resize" [.name "size"]) items))
      | .const n => .expr (.method result "resize" [.number n]) items) .done

/-- A parse by a reader of its own. -/
def parseFragment (length : UintField) (reader : Expr) (parse : Program) : Program :=
  .declare length.type "length" (.expr (readNumber reader length.bits (.name "length"))
    (.auto "struct_reader" (.method (.name "reader") "read_fragment" [.name "length"])
      (.tryCatch parse "BitStreamFinished &e" .done)))

def parseStructFieldProgram (struct : String) (length : Option UintField) (reader result : Expr) :
    Program :=
  match length with
  | some length =>
    .block (parseFragment length reader
      (.expr (.call ("parse_" ++ struct) [.name "struct_reader", result]) .done)) .done
  | none => .expr (.call ("parse_" ++ struct) [.name "reader", result]) .done

def parseCases (union : String) (reader result : Expr) : List StructDescr → Program
  | [] => unknownUnionType
  | .mk struct _ _ :: rest =>
    .caseBlock (enumerator union struct)
      (.expr (.call ("parse_" ++ struct) [reader, .member result (struct ++ "_variant")]) .done)
      (parseCases union reader result rest)

def parseUnionFieldProgram (union : UnionDescr) (typeField : UintField)
    (length : Option UintField) (reader result : Expr) : Program :=
  match union with
  | .mk name _ structs allowEmpty =>
    .expr (readNumber reader typeField.bits (typeVar result))
      (match length with
        | some length =>
          let fragment := parseFragment length reader
            (.switch (typeVar result) (parseCases name (.name "struct_reader") result structs)
              .done)
          if allowEmpty then
            .ifThen (.binary (typeVar result) "!=" (.name (name ++ "_empty"))) fragment .done
          else fragment
        | none =>
          let cases := parseCases name (.name "reader") result structs
          .switch (typeVar result)
            (if allowEmpty then .label (.name (name ++ "_empty")) (.leave cases) else cases) .done)

mutual

def parseFieldProgram : FieldDescr → Expr → Expr → Program
  | .mk _ _ none cls, reader, result => parseClassProgram cls reader result
  | .mk _ _ (some _) cls, reader, result =>
    .ifThen (.call "read_field_flag" [reader]) (parseClassProgram cls reader result) .done
termination_by structural f => f

def parseClassProgram : FieldClass → Expr → Expr → Program
  | .plain, _, _ => .done
  | .enum _ bits, _, result =>
    .expr (.call "read_enum_field" [.name "reader", .address result, .number bits]) .done
  | .uint bits, reader, result => .expr (readNumber reader bits result) .done
  | .int bits, reader, result =>
    .expr (.method reader "read_int" [.number bits, .address result]) .done
  | .float bits, reader, result =>
    .expr (.method reader "read_float" [.number bits, .address result]) .done
  | .bool, reader, result => .expr (.method reader "read_bool" [.address result]) .done
  | .string size, _, result =>
    .expr (.call "read_string_field" [.name "reader", .address result, .number size.bits]) .done
  | .array item size, reader, result =>
    parseArrayProgram size reader result (parseFieldProgram item reader (.name "vec_item"))
  | .struct (.mk name _ _) length, reader, result =>
    parseStructFieldProgram name length reader result
  | .union union typeField length, reader, result =>
    parseUnionFieldProgram union typeField length reader result
termination_by structural cls => cls

end

/-- The body of `parse_<struct>`. -/
def parseBody (fields : List FieldDescr) : Program :=
  fields.foldr (fun f p =>
    (parseFieldProgram f (.name "reader") (.member (.name "result") f.name)).append p) .done

def writeArrayProgram (size : Size) (writer value : Expr) (item : Program) : Program :=
  let items := .forEach "const auto &" "vec_item" value item .done
  .block
    (match size with
      | .counted size => .expr (writeNumber writer size.bits (.method value "size" [])) items
      | .const n =>
        .throwIf (.binary (.method value "size" []) "!=" (.number n))
          (.call "std::invalid_argument" [.string ("Array size must be " ++ toString n)])
          items) .done

/-- A write between a length field and its patch; `x` is the variable of the length. -/
def writeMeasured (length : UintField) (x : String) (writer : Expr) (write : Program) : Program :=
  .expr (writeNumber writer length.bits (.number 0))
    (.auto "struct_pos" (.method writer "get_bit_pos" [])
      (write.append
        (.auto x (.binary (.method writer "get_bit_pos" []) "-" (.name "struct_pos"))
          (.expr (.method writer "write_uint_at"
            [.binary (.name "struct_pos") "-" (.number length.bits), .number length.bits, .name x])
            .done))))

def writeStructFieldProgram (struct : String) (length : Option UintField) (writer value : Expr) :
    Program :=
  let write := .expr (.call ("write_" ++ struct) [.name "writer", value]) .done
  match length with
  | some length => .block (writeMeasured length "length" writer write) .done
  | none => write

def writeCases (union : String) (value : Expr) : List StructDescr → Program
  | [] => unknownUnionType
  | .mk struct _ _ :: rest =>
    .label (enumerator union struct)
      (.expr (.call ("write_" ++ struct) [.name "writer", .member value (struct ++ "_variant")])
        (.leave (writeCases union value rest)))

def writeUnionFieldProgram (union : UnionDescr) (typeField : UintField)
    (length : Option UintField) (writer value : Expr) : Program :=
  match union with
  | .mk name _ structs allowEmpty =>
    let variant := .switch (typeVar value) (writeCases name value structs) .done
    let content := match length with
      | some length => writeMeasured length "struct_length" writer variant
      | none => variant
    .block
      (.expr (writeNumber writer typeField.bits (typeVar value))
        (if allowEmpty then
          .ifThen (.binary (typeVar value) "!=" (.name (name ++ "_empty"))) content .done
        else content)) .done

/-- The test for a value that differs from its default. -/
def defaultTest (default : Default) (cls : FieldClass) (value : Expr) : Expr :=
  let differs := .binary value "!=" (.text default.text)
  let notEmpty := .binary (.method value "size" []) ">" (.number 0)
  match cls with
  | .string _ =>
    if default.empty then notEmpty else .binary value "!=" (.string default.text)
  | .array _ _ => if default.empty then notEmpty else differs
  | _ => differs

mutual

def writeFieldProgram : FieldDescr → Expr → Expr → Program
  | .mk _ _ none cls, writer, value => writeClassProgram cls writer value
  | .mk _ _ (some default) cls, writer, value =>
    .ifThen (defaultTest default cls value) (writeClassProgram cls writer value) .done
termination_by structural f => f

def writeClassProgram : FieldClass → Expr → Expr → Program
  | .plain, _, _ => .done
  | .enum _ bits, _, value =>
    .expr (.call "write_enum_field" [.name "writer", value, .number bits]) .done
  | .uint bits, writer, value => .expr (writeNumber writer bits value) .done
  | .int bits, writer, value => .expr (.method writer "write_int" [.number bits, value]) .done
  | .float bits, writer, value => .expr (.method writer "write_float" [.number bits, value]) .done
  | .bool, writer, value => .expr (.method writer "write_bool" [value]) .done
  | .string size, _, value =>
    .expr (.call "write_string_field" [.name "writer", value, .number size.bits]) .done
  | .array item size, writer, value =>
    writeArrayProgram size writer value (writeFieldProgram item writer (.name "vec_item"))
  | .struct (.mk name _ _) length, writer, value =>
    writeStructFieldProgram name length writer value
  | .union union typeField length, writer, value =>
    writeUnionFieldProgram union typeField length writer value
termination_by structural cls => cls

end

/-- The body of `write_<struct>`. -/
def writeBody (fields : List FieldDescr) : Program :=
  fields.foldr (fun f p =>
    (writeFieldProgram f (.name "writer") (.member (.name "value") f.name)).append p) .done

/-! ## The lines are those of the programs -/

@[simp] theorem linesOf_append (items later : List Item) :
    linesOf (items ++ later) = linesOf items ++ linesOf later := List.filterMap_append

@[simp] theorem linesOf_nil : linesOf [] = [] := rfl

@[simp] theorem linesOf_line (s : String) (items : List Item) :
    linesOf (.line s :: items) = s :: linesOf items := rfl

@[simp] theorem linesOf_identStart (items : List Item) :
    linesOf (.identStart :: items) = linesOf items := rfl

@[simp] theorem linesOf_identEnd (items : List Item) :
    linesOf (.identEnd :: items) = linesOf items := rfl

@[simp] theorem linesOf_sep (items : List Item) : linesOf (.sep :: items) = linesOf items := rfl

theorem toString_string (s : String) : toString s = s := rfl

theorem print_typeVar {e : Expr} (place : IsPlace e) : (typeVar e).print = e.print ++ "_type" := by
  cases e with
  | name x => rfl
  | member e field => simp [typeVar, String.append_assoc]
  | _ => exact place.elim

theorem type_of_typeName {f : UintField} {type : String} (made : f.typeName = .ok type) :
    f.type = type := by
  simp [UintField.type, made, Except.toOption]

theorem linesOf_parseCases (union : String) (reader result : Expr) (structs : List StructDescr) :
    linesOf (renderParseCases union reader.print result.print structs ++ unknownType) =
      (parseCases union reader result structs).lines := by
  induction structs with
  | nil =>
      simp [renderParseCases, unknownType, parseCases, unknownUnionType]
  | cons struct rest ih =>
      obtain ⟨name, description, fields⟩ := struct
      simp only [renderParseCases] at ih
      simp [renderParseCases, parseCases, enumerator, toString_string, String.append_assoc, ← ih]

theorem bind_eq_ok {α β : Type} {x : Except RenderError α} {f : α → Except RenderError β} {b : β} :
    (x >>= f) = .ok b ↔ ∃ a, x = .ok a ∧ f a = .ok b := by
  cases x with
  | error e => simp [bind, Except.bind]
  | ok a => simp [bind, Except.bind]

section Parse

variable {reader result : Expr} {all : List Item}

theorem linesOf_parseArray {size : Size} {items : List Item} {item : Program}
    (same : linesOf items = item.lines)
    (rendered : renderParseArray size reader.print result.print items = .ok all) :
    linesOf all = (parseArrayProgram size reader result item).lines := by
  cases size with
  | const n =>
      cases rendered
      simp [parseArrayProgram, toString_string, String.append_assoc, same]
  | counted size =>
      simp only [renderParseArray] at rendered
      obtain ⟨type, named, rest⟩ := bind_eq_ok.mp rendered
      cases rest
      simp [parseArrayProgram, readNumber, toString_string, String.append_assoc, same,
        type_of_typeName named]

theorem linesOf_parseStructField {struct : String} {length : Option UintField}
    (rendered : renderParseStructField struct length reader.print result.print = .ok all) :
    linesOf all = (parseStructFieldProgram struct length reader result).lines := by
  cases length with
  | none =>
      cases rendered
      simp [parseStructFieldProgram, toString_string, ← String.toList_inj]
  | some length =>
      obtain ⟨type, named, rest⟩ := bind_eq_ok.mp rendered
      cases rest
      simp [parseStructFieldProgram, parseFragment, readNumber, toString_string,
        type_of_typeName named, ← String.toList_inj]

theorem linesOf_parseUnionField {union : UnionDescr} {typeField : UintField}
    {length : Option UintField} (place : IsPlace result)
    (rendered : renderParseUnionField union typeField length reader.print result.print
      (result.print ++ "_type") = .ok all) :
    linesOf all = (parseUnionFieldProgram union typeField length reader result).lines := by
  obtain ⟨name, description, structs, allowEmpty⟩ := union
  rw [← print_typeVar place] at rendered
  cases length with
  | none =>
      cases rendered
      have cases := linesOf_parseCases name (.name "reader") result structs
      cases allowEmpty <;>
        simp [parseUnionFieldProgram, readNumber, toString_string, ← cases, ← String.toList_inj]
  | some length =>
      obtain ⟨type, named, rest⟩ := bind_eq_ok.mp rendered
      cases rest
      have cases := linesOf_parseCases name (.name "struct_reader") result structs
      cases allowEmpty <;>
        simp [parseUnionFieldProgram, parseFragment, readNumber, toString_string,
          type_of_typeName named, ← cases, ← String.toList_inj]

mutual

theorem linesOf_parseField (f : FieldDescr) {result : Expr} (place : IsPlace result)
    {all : List Item} (rendered : renderParseField f reader.print result.print = .ok all) :
    linesOf all = (parseFieldProgram f reader result).lines := by
  obtain ⟨name, description, default, cls⟩ := f
  rw [renderParseField] at rendered
  obtain ⟨items, inside, rest⟩ := bind_eq_ok.mp rendered
  have same := linesOf_parseClass cls place inside
  cases default with
  | none =>
      cases rest
      exact same
  | some default =>
      cases rest
      simp [parseFieldProgram, indented, toString_string, same, ← String.toList_inj]
termination_by structural f

theorem linesOf_parseClass (cls : FieldClass) {result : Expr} (place : IsPlace result)
    {all : List Item} (rendered : renderParseClass cls reader.print result.print = .ok all) :
    linesOf all = (parseClassProgram cls reader result).lines := by
  cases cls with
  | plain => cases rendered
  | array item size =>
      obtain ⟨items, inside, rest⟩ := bind_eq_ok.mp rendered
      have ofItem : IsPlace (.name "vec_item") := trivial
      exact linesOf_parseArray (linesOf_parseField item ofItem inside) rest
  | struct struct length =>
      obtain ⟨name, description, fields⟩ := struct
      exact linesOf_parseStructField rendered
  | union union typeField length => exact linesOf_parseUnionField place rendered
  | _ =>
      cases rendered
      simp [parseClassProgram, readNumber, toString_string, ← String.toList_inj]
termination_by structural cls

end

end Parse

section Write

variable {writer value : Expr}

theorem linesOf_writeArray {size : Size} {items : List Item} {item : Program}
    (same : linesOf items = item.lines) :
    linesOf (renderWriteArray size writer.print value.print items) =
      (writeArrayProgram size writer value item).lines := by
  cases size <;>
    simp [renderWriteArray, writeArrayProgram, writeNumber, toString_string, same,
      ← String.toList_inj]

/-- The lines of a write between a length field and its patch. -/
theorem lines_writeMeasured (length : UintField) (x : String) (write : Program) :
    (writeMeasured length x writer write).lines =
      [writer.print ++ ".write_uint(" ++ toString length.bits ++ ", 0);",
        "auto struct_pos = " ++ writer.print ++ ".get_bit_pos();"] ++ write.lines ++
        ["auto " ++ x ++ " = " ++ writer.print ++ ".get_bit_pos() - struct_pos;",
          writer.print ++ ".write_uint_at(struct_pos - " ++ toString length.bits ++ ", " ++
            toString length.bits ++ ", " ++ x ++ ");"] := by
  simp [writeMeasured, writeNumber, ← String.toList_inj]

theorem linesOf_writeStructField (struct : String) (length : Option UintField) :
    linesOf (renderWriteStructField struct length writer.print value.print) =
      (writeStructFieldProgram struct length writer value).lines := by
  cases length <;>
    simp [renderWriteStructField, writeStructFieldProgram, lines_writeMeasured, toString_string,
      ← String.toList_inj]

theorem linesOf_writeCases (union : String) (structs : List StructDescr) :
    linesOf (renderWriteCases union "writer" value.print structs ++ unknownType) =
      (writeCases union value structs).lines := by
  induction structs with
  | nil =>
      simp [renderWriteCases, unknownType, writeCases, unknownUnionType]
  | cons struct rest ih =>
      obtain ⟨name, description, fields⟩ := struct
      simp only [renderWriteCases] at ih
      simp [renderWriteCases, writeCases, enumerator, toString_string, ← ih, ← String.toList_inj]

theorem linesOf_writeUnionField (union : UnionDescr) (typeField : UintField)
    (length : Option UintField) (place : IsPlace value) :
    linesOf (renderWriteUnionField union typeField length writer.print value.print
        (value.print ++ "_type")) =
      (writeUnionFieldProgram union typeField length writer value).lines := by
  obtain ⟨name, description, structs, allowEmpty⟩ := union
  rw [← print_typeVar place]
  have cases := @linesOf_writeCases value name structs
  cases length <;> cases allowEmpty <;>
    simp [renderWriteUnionField, writeUnionFieldProgram, lines_writeMeasured, writeNumber,
      toString_string, ← cases, ← String.toList_inj]

theorem print_defaultTest (default : Default) (cls : FieldClass) :
    (defaultTest default cls value).print = checkDefault default cls value.print := by
  cases cls <;>
    simp [defaultTest, checkDefault, toString_string, String.append_assoc]
  all_goals
    split <;> simp [← String.toList_inj]

mutual

theorem linesOf_writeField (f : FieldDescr) {value : Expr} (place : IsPlace value)
    {all : List Item} (rendered : renderWriteField f writer.print value.print = .ok all) :
    linesOf all = (writeFieldProgram f writer value).lines := by
  obtain ⟨name, description, default, cls⟩ := f
  rw [renderWriteField] at rendered
  obtain ⟨items, inside, rest⟩ := bind_eq_ok.mp rendered
  have same := linesOf_writeClass cls place inside
  cases default with
  | none =>
      cases rest
      exact same
  | some default =>
      cases rest
      simp [writeFieldProgram, indented, toString_string, same, print_defaultTest,
        String.append_assoc]
termination_by structural f

theorem linesOf_writeClass (cls : FieldClass) {value : Expr} (place : IsPlace value)
    {all : List Item} (rendered : renderWriteClass cls writer.print value.print = .ok all) :
    linesOf all = (writeClassProgram cls writer value).lines := by
  cases cls with
  | plain => cases rendered
  | array item size =>
      obtain ⟨items, inside, rest⟩ := bind_eq_ok.mp rendered
      cases rest
      have ofItem : IsPlace (.name "vec_item") := trivial
      exact linesOf_writeArray (linesOf_writeField item ofItem inside)
  | struct struct length =>
      obtain ⟨name, description, fields⟩ := struct
      cases rendered
      exact linesOf_writeStructField name length
  | union union typeField length =>
      cases rendered
      exact linesOf_writeUnionField union typeField length place
  | _ =>
      cases rendered
      simp [writeClassProgram, writeNumber, toString_string, ← String.toList_inj]
termination_by structural cls

end

end Write

/-! ## Functions -/

theorem linesOf_mapM {render : FieldDescr → Rendered} {program : FieldDescr → Program}
    (each : ∀ f all, render f = .ok all → linesOf all = (program f).lines)
    {fields : List FieldDescr} {items : List (List Item)}
    (rendered : fields.mapM render = .ok items) :
    linesOf items.flatten = (fields.foldr (fun f p => (program f).append p) .done).lines := by
  induction fields generalizing items with
  | nil =>
      cases rendered
      rfl
  | cons f rest ih =>
      rw [List.mapM_cons] at rendered
      obtain ⟨all, first, behind⟩ := bind_eq_ok.mp rendered
      obtain ⟨later, others, made⟩ := bind_eq_ok.mp behind
      cases made
      simp [each f all first, ih others]

/-- The lines of a parse function. -/
theorem linesOf_parseStruct {name : String} {description : Option String}
    {fields : List FieldDescr} {all : List Item}
    (rendered : renderParseStruct (.mk name description fields) = .ok all) :
    linesOf all = "template<class Treader>" ::
      ("void parse_" ++ name ++ "(Treader &reader, " ++ name ++ " &result) \x7b") ::
        (parseBody fields).lines ++ ["\x7d"] := by
  have each (f : FieldDescr) (all : List Item)
      (rendered : renderParseField f "reader" ("result." ++ f.name) = .ok all) :
      linesOf all =
        (parseFieldProgram f (.name "reader") (.member (.name "result") f.name)).lines := by
    have place : IsPlace (.member (.name "result") f.name) := trivial
    exact linesOf_parseField f place rendered
  obtain ⟨items, inside, made⟩ := bind_eq_ok.mp rendered
  have body := linesOf_mapM each inside
  cases made
  simp [body, parseBody, toString_string]

/-- The lines of a write function. -/
theorem linesOf_writeStruct {name : String} {description : Option String}
    {fields : List FieldDescr} {all : List Item}
    (rendered : renderWriteStruct (.mk name description fields) = .ok all) :
    linesOf all = "template<class Twriter>" ::
      ("void write_" ++ name ++ "(Twriter &writer, const " ++ name ++ " &value) \x7b") ::
        (writeBody fields).lines ++ ["\x7d"] := by
  have each (f : FieldDescr) (all : List Item)
      (rendered : renderWriteField f "writer" ("value." ++ f.name) = .ok all) :
      linesOf all =
        (writeFieldProgram f (.name "writer") (.member (.name "value") f.name)).lines := by
    have place : IsPlace (.member (.name "value") f.name) := trivial
    exact linesOf_writeField f place rendered
  obtain ⟨items, inside, made⟩ := bind_eq_ok.mp rendered
  have body := linesOf_mapM each inside
  cases made
  simp [body, writeBody, toString_string]

end UdpStuff.Proto.HeaderText
