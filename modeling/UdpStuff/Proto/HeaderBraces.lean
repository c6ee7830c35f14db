/-
# Proto.HeaderBraces — every header closes its braces

`header_balanced`: whatever the objects, as long as no name and no text of theirs has a brace, the
braces of the header are nested, and all are closed.  The indentation is not: behind the `try` of a
union with a length field there is no `IdentEnd`, and from there on the file stands one step to the
right of where it should.
-/
import UdpStuff.Proto.HeaderPrograms

namespace UdpStuff.Proto.HeaderText

set_option autoImplicit false

open UdpStuff.Theory

/-! ## Texts without braces -/

def UintField.Plain (f : UintField) : Prop := ∀ enum ∈ f.enum, Braceless enum

def Size.Plain : Size → Prop
  | .counted size => size.Plain
  | .const _ => True

def DescriptionPlain (description : Option String) : Prop :=
  ∀ text ∈ description, Braceless text

mutual

def FieldDescr.Plain : FieldDescr → Prop
  | .mk name description default cls =>
    Braceless name ∧ DescriptionPlain description ∧ (∀ d ∈ default, Braceless d.text) ∧ cls.Plain
termination_by structural f => f

def FieldClass.Plain : FieldClass → Prop
  | .enum enum _ => Braceless enum
  | .array item size => item.Plain ∧ size.Plain
  | .struct (.mk name _ _) length => Braceless name ∧ ∀ f ∈ length, f.Plain
  | .union (.mk name _ structs _) _ length =>
    Braceless name ∧ (∀ struct ∈ structs, Braceless struct.name) ∧ ∀ f ∈ length, f.Plain
  | _ => True
termination_by structural cls => cls

end

def HeaderObj.Plain : HeaderObj → Prop
  | .struct (.mk name description fields) =>
    Braceless name ∧ DescriptionPlain description ∧ ∀ f ∈ fields, f.Plain
  | .union _ => True
  | .unionField (.mk name _ structs _) =>
    Braceless name ∧ ∀ struct ∈ structs, Braceless struct.name

theorem plain_uintType {bits : Nat} {type : String} (made : uintType bits = .ok type) :
    Braceless type := by
  unfold uintType at made
  split at made
  · cases made; decide
  split at made
  · cases made; decide
  split at made
  · cases made; decide
  split at made
  · cases made; decide
  · cases made

theorem plain_type {f : UintField} (plain : f.Plain) : Braceless f.type := by
  unfold UintField.type UintField.typeName
  cases enum : f.enum with
  | some e => exact plain e enum
  | none =>
      cases made : uintType f.bits with
      | error e => exact (by decide : Braceless "")
      | ok type => exact plain_uintType made

theorem plain_typeVar {e : Expr} (plain : Braceless e.print) : Braceless (typeVar e).print := by
  cases e with
  | name x =>
      have ofName : Braceless x := plain
      simp +decide [typeVar, ofName]
  | member e field =>
      obtain ⟨⟨ofPlace, -⟩, ofField⟩ : (Braceless e.print ∧ Braceless ".") ∧ Braceless field := by
        simpa using plain
      simp +decide [typeVar, ofPlace, ofField]
  | _ => exact plain

/-! ## Programs -/

section Programs

open Program

theorem plain_append {p q : Program} (first : p.Plain) (second : q.Plain) : (p.append q).Plain := by
  induction p <;> simp_all [append]

theorem plain_parseCases {union : String} {reader result : Expr} {structs : List StructDescr}
    (ofUnion : Braceless union) (ofReader : Braceless reader.print)
    (ofResult : Braceless result.print) (each : ∀ struct ∈ structs, Braceless struct.name) :
    (parseCases union reader result structs).Plain := by
  induction structs with
  | nil =>
      simp +decide [parseCases, unknownUnionType]
  | cons struct rest ih =>
      obtain ⟨name, description, fields⟩ := struct
      have ofName : Braceless name := each _ List.mem_cons_self
      have others := ih fun struct there => each struct (List.mem_cons_of_mem _ there)
      simp +decide [parseCases, enumerator, *]

theorem plain_writeCases {union : String} {value : Expr} {structs : List StructDescr}
    (ofUnion : Braceless union) (ofValue : Braceless value.print)
    (each : ∀ struct ∈ structs, Braceless struct.name) :
    (writeCases union value structs).Plain := by
  induction structs with
  | nil =>
      simp +decide [writeCases, unknownUnionType]
  | cons struct rest ih =>
      obtain ⟨name, description, fields⟩ := struct
      have ofName : Braceless name := each _ List.mem_cons_self
      have others := ih fun struct there => each struct (List.mem_cons_of_mem _ there)
      simp +decide [writeCases, enumerator, *]

theorem plain_parseFragment {length : UintField} {reader : Expr} {parse : Program}
    (ofLength : length.Plain) (ofReader : Braceless reader.print) (inside : parse.Plain) :
    (parseFragment length reader parse).Plain := by
  simp +decide [parseFragment, readNumber, plain_type ofLength, *]

theorem plain_writeMeasured {length : UintField} {x : String} {writer : Expr} {write : Program}
    (ofName : Braceless x) (ofWriter : Braceless writer.print) (inside : write.Plain) :
    (writeMeasured length x writer write).Plain := by
  simp +decide [writeMeasured, writeNumber, ofWriter]
  apply plain_append inside
  simp +decide [*]

mutual

theorem plain_parseField (f : FieldDescr) (plain : f.Plain) {reader result : Expr}
    (ofReader : Braceless reader.print) (ofResult : Braceless result.print) :
    (parseFieldProgram f reader result).Plain := by
  obtain ⟨name, description, default, cls⟩ := f
  obtain ⟨-, -, -, inside⟩ := plain
  have body := plain_parseClass cls inside ofReader ofResult
  cases default with
  | none => exact body
  | some default =>
      simp +decide [parseFieldProgram, *]
termination_by structural f

theorem plain_parseClass (cls : FieldClass) (plain : cls.Plain) {reader result : Expr}
    (ofReader : Braceless reader.print) (ofResult : Braceless result.print) :
    (parseClassProgram cls reader result).Plain := by
  cases cls with
  | array item size =>
      have ofItem : Braceless (Expr.name "vec_item").print := by decide
      have body := plain_parseField item plain.1 ofReader ofItem
      cases size with
      | counted size =>
          have ofType := plain_type plain.2
          simp +decide [parseClassProgram, parseArrayProgram, readNumber, *]
      | const n =>
          simp +decide [parseClassProgram, parseArrayProgram, *]
  | struct struct length =>
      obtain ⟨name, description, fields⟩ := struct
      obtain ⟨ofName, ofLength⟩ := plain
      cases length with
      | none =>
          simp +decide [parseClassProgram, parseStructFieldProgram, *]
      | some length =>
          have body : (Program.expr (.call ("parse_" ++ name)
              [.name "struct_reader", result]) .done).Plain := by
            simp +decide [*]
          exact ⟨plain_parseFragment (ofLength length rfl) ofReader body, trivial⟩
  | union union typeField length =>
      obtain ⟨name, description, structs, allowEmpty⟩ := union
      obtain ⟨ofName, each, ofLength⟩ := plain
      have ofType := plain_typeVar ofResult
      cases length with
      | none =>
          have inside : (parseCases name (.name "reader") result structs).Plain :=
            plain_parseCases ofName (by decide) ofResult each
          cases allowEmpty <;>
            simp +decide [parseClassProgram, parseUnionFieldProgram, readNumber, *]
      | some length =>
          have inside : (parseCases name (.name "struct_reader") result structs).Plain :=
            plain_parseCases ofName (by decide) ofResult each
          have fragment : (parseFragment length reader (.switch (typeVar result)
              (parseCases name (.name "struct_reader") result structs) .done)).Plain :=
            plain_parseFragment (ofLength length rfl) ofReader ⟨ofType, inside, trivial⟩
          cases allowEmpty <;>
            simp +decide [parseClassProgram, parseUnionFieldProgram, readNumber, *]
  | _ =>
      simp +decide [parseClassProgram, readNumber, *]
termination_by structural cls

end

theorem plain_defaultTest {default : Default} {cls : FieldClass} {value : Expr}
    (ofText : Braceless default.text) (ofValue : Braceless value.print) :
    Braceless (defaultTest default cls value).print := by
  have quote : Braceless "\"" := by decide
  cases cls <;> simp +decide [defaultTest, *]
  all_goals
    split <;> simp +decide [*]

mutual

theorem plain_writeField (f : FieldDescr) (plain : f.Plain) {writer value : Expr}
    (ofWriter : Braceless writer.print) (ofValue : Braceless value.print) :
    (writeFieldProgram f writer value).Plain := by
  obtain ⟨name, description, default, cls⟩ := f
  obtain ⟨-, -, texts, inside⟩ := plain
  have body := plain_writeClass cls inside ofWriter ofValue
  cases default with
  | none => exact body
  | some default => exact ⟨plain_defaultTest (texts default rfl) ofValue, body, trivial⟩
termination_by structural f

theorem plain_writeClass (cls : FieldClass) (plain : cls.Plain) {writer value : Expr}
    (ofWriter : Braceless writer.print) (ofValue : Braceless value.print) :
    (writeClassProgram cls writer value).Plain := by
  cases cls with
  | array item size =>
      have ofItem : Braceless (Expr.name "vec_item").print := by decide
      have body := plain_writeField item plain.1 ofWriter ofItem
      cases size <;> simp +decide [writeClassProgram, writeArrayProgram, writeNumber, *]
  | struct struct length =>
      obtain ⟨name, description, fields⟩ := struct
      obtain ⟨ofName, -⟩ := plain
      have body : (Program.expr (.call ("write_" ++ name)
          [.name "writer", value]) .done).Plain := by
        simp +decide [*]
      cases length with
      | none => exact body
      | some length => exact ⟨plain_writeMeasured (by decide) ofWriter body, trivial⟩
  | union union typeField length =>
      obtain ⟨name, description, structs, allowEmpty⟩ := union
      obtain ⟨ofName, each, -⟩ := plain
      have ofType := plain_typeVar ofValue
      have inside : (writeCases name value structs).Plain := plain_writeCases ofName ofValue each
      have variant : (Program.switch (typeVar value) (writeCases name value structs) .done).Plain :=
        ⟨ofType, inside, trivial⟩
      cases length with
      | none =>
          cases allowEmpty <;>
            simp +decide [writeClassProgram, writeUnionFieldProgram, writeNumber, *]
      | some length =>
          have ofLength : Braceless "struct_length" := by decide
          have content := @plain_writeMeasured length _ _ _ ofLength ofWriter variant
          cases allowEmpty <;>
            simp +decide [writeClassProgram, writeUnionFieldProgram, writeNumber, *]
  | _ => simp +decide [writeClassProgram, writeNumber, *]
termination_by structural cls

end

theorem plain_parseBody {fields : List FieldDescr} (plain : ∀ f ∈ fields, f.Plain) :
    (parseBody fields).Plain := by
  induction fields with
  | nil => trivial
  | cons f rest ih =>
      have ofField := plain f List.mem_cons_self
      have ofName : Braceless (Expr.member (.name "result") f.name).print := by
        obtain ⟨name, description, default, cls⟩ := f
        simp +decide [FieldDescr.name, ofField.1]
      apply plain_append (plain_parseField f ofField (by decide) ofName)
      exact ih fun other there => plain other (List.mem_cons_of_mem f there)

theorem plain_writeBody {fields : List FieldDescr} (plain : ∀ f ∈ fields, f.Plain) :
    (writeBody fields).Plain := by
  induction fields with
  | nil => trivial
  | cons f rest ih =>
      have ofField := plain f List.mem_cons_self
      have ofName : Braceless (Expr.member (.name "value") f.name).print := by
        obtain ⟨name, description, default, cls⟩ := f
        simp +decide [FieldDescr.name, ofField.1]
      apply plain_append (plain_writeField f ofField (by decide) ofName)
      exact ih fun other there => plain other (List.mem_cons_of_mem f there)

end Programs

/-! ## Definitions -/

/-- Lines without braces. -/
def PlainLines (lines : List String) : Prop := ∀ s ∈ lines, Braceless s

theorem PlainLines.balanced {lines : List String} (plain : PlainLines lines) :
    Balanced brace (letters lines) :=
  Shifts.flatMap fun s there => (plain s there).shifts

/-- Lines in a block, and what comes after it. -/
theorem PlainLines.block {lines later : List String} {first last : String}
    (plain : PlainLines lines) (front : Braceless first) (back : Braceless last)
    (behind : Balanced brace (letters later)) :
    Balanced brace (letters ((first ++ "\x7b") :: lines ++ ("\x7d" ++ last) :: later)) :=
  balanced_block front.opens plain.balanced back.closes behind

theorem balanced_nil : Balanced brace (letters []) := Shifts.nil

theorem balanced_both {lines later : List String} (first : Balanced brace (letters lines))
    (second : Balanced brace (letters later)) : Balanced brace (letters (lines ++ later)) := by
  rw [letters_append]
  exact first.append second

theorem plain_intType {bits : Nat} {type : String} (made : intType bits = .ok type) :
    Braceless type := by
  unfold intType at made
  split at made
  · cases made; decide
  split at made
  · cases made; decide
  split at made
  · cases made; decide
  split at made
  · cases made; decide
  · cases made

theorem plain_floatType {bits : Nat} {type : String} (made : floatType bits = .ok type) :
    Braceless type := by
  unfold floatType at made
  split at made
  · cases made; decide
  split at made
  · cases made; decide
  · cases made

mutual

theorem plain_typeName (f : FieldDescr) (plain : f.Plain) {type : String}
    (made : getTypeName f = .ok type) : Braceless type := by
  obtain ⟨name, description, default, cls⟩ := f
  exact plain_classTypeName cls plain.2.2.2 made
termination_by structural f

theorem plain_classTypeName (cls : FieldClass) (plain : cls.Plain) {type : String}
    (made : classTypeName cls = .ok type) : Braceless type := by
  cases cls with
  | plain => cases made
  | bool => cases made; decide
  | uint bits => exact plain_uintType made
  | int bits => exact plain_intType made
  | float bits => exact plain_floatType made
  | enum enum bits => cases made; exact plain
  | string size => cases made; decide
  | array item size =>
      rw [classTypeName] at made
      cases inside : getTypeName item with
      | error e => rw [inside] at made; cases made
      | ok inner =>
          rw [inside] at made
          cases made
          have ofItem := plain_typeName item plain.1 inside
          simp +decide [toString_string, ofItem]
  | struct struct length =>
      obtain ⟨name, description, fields⟩ := struct
      cases made
      exact plain.1
  | union union typeField length =>
      obtain ⟨name, description, structs, allowEmpty⟩ := union
      cases made
      exact plain.1
termination_by structural cls

end

theorem plain_describe {description : Option String} (plain : DescriptionPlain description) :
    PlainLines (linesOf (describe description)) := by
  cases description with
  | none => exact fun s there => absurd there List.not_mem_nil
  | some text =>
      have ofText := plain text rfl
      simp +decide [PlainLines, describe, toString_string, ofText]

theorem plain_member {f : FieldDescr} (plain : f.Plain) {items : List Item}
    (made : renderMember f = .ok items) : PlainLines (linesOf items) := by
  obtain ⟨name, description, default, cls⟩ := f
  obtain ⟨type, named, rest⟩ := bind_eq_ok.mp made
  have ofType := plain_typeName _ plain named
  obtain ⟨ofName, ofDescription, -, inside⟩ := plain
  cases rest
  intro s there
  rw [linesOf_append, linesOf_append, List.mem_append, List.mem_append] at there
  rcases there with (front | enumClass) | last
  · exact plain_describe ofDescription s front
  · cases cls with
    | union union typeField length =>
        obtain ⟨union, description, structs, allowEmpty⟩ := union
        obtain rfl := List.mem_singleton.mp enumClass
        have ofUnion := inside.1
        simp +decide [toString_string, ofUnion, ofName]
    | _ => cases enumClass
  · obtain rfl := List.mem_singleton.mp last
    simp +decide [toString_string, ofType, ofName]

theorem mapM_ok {α β : Type} {f : α → Except RenderError β} {P : β → Prop} {as : List α}
    {bs : List β} (each : ∀ a ∈ as, ∀ b, f a = .ok b → P b) (made : as.mapM f = .ok bs) :
    ∀ b ∈ bs, P b := by
  induction as generalizing bs with
  | nil =>
      cases made
      exact fun b there => absurd there List.not_mem_nil
  | cons a rest ih =>
      rw [List.mapM_cons] at made
      obtain ⟨b, first, behind⟩ := bind_eq_ok.mp made
      obtain ⟨later, others, same⟩ := bind_eq_ok.mp behind
      cases same
      rw [List.forall_mem_cons]
      refine ⟨each a List.mem_cons_self b first, ih ?_ others⟩
      exact fun other there => each other (List.mem_cons_of_mem a there)

theorem mem_linesOf_flatten {s : String} {items : List (List Item)} :
    s ∈ linesOf items.flatten ↔ ∃ block ∈ items, s ∈ linesOf block := by
  induction items with
  | nil => simp
  | cons block rest ih => simp [ih]

section Objects

variable {name : String} {description : Option String} {all : List Item}

theorem balanced_struct {fields : List FieldDescr} (ofName : Braceless name)
    (ofDescription : DescriptionPlain description) (each : ∀ f ∈ fields, f.Plain)
    (made : renderStruct (.mk name description fields) = .ok all) :
    Balanced brace (letters (linesOf all)) := by
  obtain ⟨members, inside, rest⟩ := bind_eq_ok.mp made
  have plain : PlainLines (linesOf members.flatten) := by
    intro s there
    obtain ⟨block, member, line⟩ := mem_linesOf_flatten.mp there
    have ofBlock : PlainLines (linesOf block) :=
      mapM_ok (fun f ofFields items => plain_member (each f ofFields)) inside block member
    exact ofBlock s line
  cases rest
  have same : linesOf (describe description ++
        [.line s!"typedef struct {name} \x7b", .identStart] ++ members.flatten ++
        [.identEnd, .line s!"\x7d {name};", .sep]) =
      linesOf (describe description) ++ (("typedef struct " ++ name ++ " " ++ "\x7b") ::
        linesOf members.flatten ++ ("\x7d" ++ (" " ++ name ++ ";")) :: []) := by
    simp [toString_string, ← String.toList_inj]
  rw [same]
  apply balanced_both (plain_describe ofDescription).balanced
  apply plain.block _ _ balanced_nil <;> simp +decide [ofName]

theorem balanced_union {structs : List StructDescr} {allowEmpty : Bool} (ofName : Braceless name)
    (each : ∀ struct ∈ structs, Braceless struct.name) :
    Balanced brace (letters (linesOf (renderUnion (.mk name description structs allowEmpty)))) := by
  have members : linesOf (structs.map variantMember) =
      structs.map fun struct => struct.name ++ " " ++ struct.name ++ "_variant;" := by
    induction structs with
    | nil => rfl
    | cons struct rest ih =>
        obtain ⟨name, description, fields⟩ := struct
        have others := ih fun struct there => each struct (List.mem_cons_of_mem _ there)
        rw [List.map_cons, List.map_cons, variantMember, linesOf_line, others]
        rfl
  have plain : PlainLines
      (structs.map fun struct => struct.name ++ " " ++ struct.name ++ "_variant;") := by
    intro s there
    obtain ⟨struct, member, rfl⟩ := List.mem_map.mp there
    simp +decide [each struct member]
  have same : linesOf (renderUnion (.mk name description structs allowEmpty)) =
      ("typedef union " ++ name ++ " " ++ "\x7b") ::
        (structs.map fun struct => struct.name ++ " " ++ struct.name ++ "_variant;") ++
          ("\x7d" ++ (" " ++ name ++ ";")) :: [] := by
    simp [renderUnion, members, toString_string, ← String.toList_inj]
  rw [same]
  apply plain.block _ _ balanced_nil <;> simp +decide [ofName]

theorem plain_variants {structs : List StructDescr} (n : Nat)
    (each : ∀ struct ∈ structs, Braceless struct.name) :
    PlainLines (linesOf (renderVariants n structs)) := by
  induction structs generalizing n with
  | nil => exact fun s there => absurd there List.not_mem_nil
  | cons struct rest ih =>
      obtain ⟨name, description, fields⟩ := struct
      have ofName : Braceless name := each _ List.mem_cons_self
      rw [renderVariants, linesOf_line, PlainLines, List.forall_mem_cons]
      refine ⟨?_, ih (n + 1) fun struct there => each struct (List.mem_cons_of_mem _ there)⟩
      simp +decide [toString_string, ofName]

theorem balanced_unionEnum {structs : List StructDescr} {allowEmpty : Bool}
    (ofName : Braceless name) (each : ∀ struct ∈ structs, Braceless struct.name) :
    Balanced brace
      (letters (linesOf (renderUnionEnum (.mk name description structs allowEmpty)))) := by
  have plain : PlainLines ((if allowEmpty then [name ++ "_empty = 0,"] else []) ++
      linesOf (renderVariants (firstType allowEmpty) structs)) := by
    intro s there
    rcases List.mem_append.mp there with empty | variant
    · cases allowEmpty with
      | false => cases empty
      | true =>
          obtain rfl := List.mem_singleton.mp empty
          simp +decide [ofName]
    · exact plain_variants _ each s variant
  have same : linesOf (renderUnionEnum (.mk name description structs allowEmpty)) =
      ("enum class " ++ name ++ "_enum_class " ++ "\x7b") ::
        ((if allowEmpty then [name ++ "_empty = 0,"] else []) ++
          linesOf (renderVariants (firstType allowEmpty) structs)) ++ ("\x7d" ++ ";") :: [] := by
    cases allowEmpty <;> simp [renderUnionEnum, toString_string, ← String.toList_inj]
  rw [same]
  apply plain.block _ (by decide) balanced_nil
  simp +decide [ofName]

theorem balanced_function {lines : List String} {template sign : String} {body : Program}
    (plain : body.Plain) (ofTemplate : Braceless template) (ofSign : Braceless sign)
    (same : lines = template :: (sign ++ "\x7b") :: body.lines ++ ["\x7d"]) :
    Balanced brace (letters lines) := by
  rw [same]
  apply balanced_line ofTemplate
  exact balanced_block ofSign.opens (Program.balanced_lines plain) (Shifts.closes rfl) balanced_nil

end Objects

theorem balanced_obj {o : HeaderObj} (plain : o.Plain) {all : List Item}
    (made : renderObj o = .ok all) : Balanced brace (letters (linesOf all)) := by
  cases o with
  | union union =>
      cases made
      exact Shifts.nil
  | unionField union =>
      obtain ⟨name, description, structs, allowEmpty⟩ := union
      cases made
      rw [linesOf_append]
      exact balanced_both (balanced_unionEnum plain.1 plain.2) (balanced_union plain.1 plain.2)
  | struct struct =>
      obtain ⟨name, description, fields⟩ := struct
      obtain ⟨ofName, ofDescription, each⟩ := plain
      obtain ⟨definition, first, rest⟩ := bind_eq_ok.mp made
      obtain ⟨parse, second, rest⟩ := bind_eq_ok.mp rest
      obtain ⟨write, third, rest⟩ := bind_eq_ok.mp rest
      cases rest
      have parseLines : linesOf parse = "template<class Treader>" ::
          ("void parse_" ++ name ++ "(Treader &reader, " ++ name ++ " &result) " ++ "\x7b") ::
            (parseBody fields).lines ++ ["\x7d"] := by
        simp [linesOf_parseStruct second, ← String.toList_inj]
      have writeLines : linesOf write = "template<class Twriter>" ::
          ("void write_" ++ name ++ "(Twriter &writer, const " ++ name ++ " &value) " ++ "\x7b") ::
            (writeBody fields).lines ++ ["\x7d"] := by
        simp [linesOf_writeStruct third, ← String.toList_inj]
      rw [linesOf_append, linesOf_append]
      apply balanced_both (balanced_both (balanced_struct ofName ofDescription each first) _) _
      · apply balanced_function (plain_parseBody each) (by decide) _ parseLines
        simp +decide [ofName]
      · apply balanced_function (plain_writeBody each) (by decide) _ writeLines
        simp +decide [ofName]

theorem balanced_header {objs : List HeaderObj} (plain : ∀ o ∈ objs, o.Plain) {all : List Item}
    (made : renderHeader objs = .ok all) : Balanced brace (letters (linesOf all)) := by
  obtain ⟨blocks, inside, rest⟩ := bind_eq_ok.mp made
  have each : ∀ block ∈ blocks, Balanced brace (letters (linesOf block)) :=
    mapM_ok (fun o there block => balanced_obj (plain o there)) inside
  cases rest
  rw [linesOf_append]
  have front : PlainLines (linesOf renderHeaderBegin) :=
    (by decide : ∀ s ∈ linesOf renderHeaderBegin, Braceless s)
  apply balanced_both front.balanced
  clear inside made
  induction blocks with
  | nil => exact balanced_nil
  | cons block rest ih =>
      rw [List.flatten_cons, linesOf_append]
      rw [List.forall_mem_cons] at each
      exact balanced_both each.1 (ih each.2)

/-! ## The file -/

/-- The steps to the right that items leave behind. -/
@[simp] def Item.step : Item → Int
  | .identStart => 1
  | .identEnd => -1
  | _ => 0

def steps (items : List Item) : Int := (items.map Item.step).sum

@[simp] theorem steps_nil : steps [] = 0 := rfl

@[simp] theorem steps_cons (item : Item) (items : List Item) :
    steps (item :: items) = item.step + steps items := List.sum_cons

@[simp] theorem steps_append (items later : List Item) :
    steps (items ++ later) = steps items + steps later := by
  induction items with
  | nil => simp
  | cons item rest ih => simp [ih, add_assoc]

namespace FileOutput

theorem ident_put (out : FileOutput) (items : List Item) :
    (out.put items).ident = out.ident + steps items := by
  induction items generalizing out with
  | nil => simp [put, steps]
  | cons item rest ih =>
      have later := ih (out.putItem item)
      rw [put, List.foldl_cons, ← put, later, steps_cons]
      cases item <;> simp only [putItem, Item.step] <;> omega

theorem plain_blanks (n : Nat) : Braceless (blanks n) := by
  induction n with
  | zero => decide
  | succ n ih => simp +decide [blanks, ih]

/-- Texts without braces around another do not matter to the braces. -/
theorem scan_between {front back : String} (ofFront : Braceless front) (ofBack : Braceless back)
    (s : String) (depth : Nat) :
    scan brace depth (front ++ s ++ back).toList = scan brace depth s.toList := by
  rw [String.toList_append, String.toList_append, scan_append, scan_append]
  rw [ofFront.scan, Option.bind_some]
  cases scan brace depth s.toList with
  | none => rfl
  | some d => exact ofBack.scan d

/-- Indentation and line ends do not matter to the braces. -/
theorem scan_put (out : FileOutput) (items : List Item) (depth : Nat) :
    scan brace depth (out.put items).text.toList =
      (scan brace depth out.text.toList).bind fun d => scan brace d (letters (linesOf items)) := by
  induction items generalizing out with
  | nil =>
      show scan brace depth out.text.toList = _
      cases scan brace depth out.text.toList <;> rfl
  | cons item rest ih =>
      rw [put, List.foldl_cons, ← put, ih]
      cases item with
      | identStart => rfl
      | identEnd => rfl
      | sep =>
          have ofSep : Braceless "\n\n" := by decide
          have same := scan_between (by decide : Braceless "") ofSep out.text depth
          rw [String.empty_append] at same
          rw [putItem, same]
          rfl
      | line s =>
          rw [putItem, linesOf_line, letters_cons, String.toList_append, scan_append,
            Option.bind_assoc]
          have same := scan_between (plain_blanks out.ident.toNat) (by decide : Braceless "\n") s
          simp only [same, scan_append]

end FileOutput

/-! ## Unions behind a length field -/

mutual

/-- The unions with a length field that a field's parse reads. -/
def FieldDescr.measured : FieldDescr → Nat
  | .mk _ _ _ cls => cls.measured
termination_by structural f => f

def FieldClass.measured : FieldClass → Nat
  | .array item _ => item.measured
  | .union _ _ (some _) => 1
  | _ => 0
termination_by structural cls => cls

end

def HeaderObj.measured : HeaderObj → Nat
  | .struct (.mk _ _ fields) => (fields.map FieldDescr.measured).sum
  | _ => 0

theorem steps_parseCases (union reader result : String) (structs : List StructDescr) :
    steps (renderParseCases union reader result structs) = 0 := by
  induction structs with
  | nil => rfl
  | cons struct rest ih =>
      obtain ⟨name, description, fields⟩ := struct
      rw [renderParseCases] at ih
      simp [renderParseCases, ih]

theorem steps_writeCases (union writer value : String) (structs : List StructDescr) :
    steps (renderWriteCases union writer value structs) = 0 := by
  induction structs with
  | nil => rfl
  | cons struct rest ih =>
      obtain ⟨name, description, fields⟩ := struct
      rw [renderWriteCases] at ih
      simp [renderWriteCases, ih]

mutual

theorem steps_parseField (f : FieldDescr) {reader result : String} {all : List Item}
    (made : renderParseField f reader result = .ok all) : steps all = f.measured := by
  obtain ⟨name, description, default, cls⟩ := f
  rw [renderParseField] at made
  obtain ⟨items, inside, rest⟩ := bind_eq_ok.mp made
  have same := steps_parseClass cls inside
  cases default with
  | none =>
      cases rest
      exact same
  | some default =>
      cases rest
      simp [indented, same, FieldDescr.measured]
termination_by structural f

theorem steps_parseClass (cls : FieldClass) {reader result : String} {all : List Item}
    (made : renderParseClass cls reader result = .ok all) : steps all = cls.measured := by
  cases cls with
  | plain => cases made
  | array item size =>
      obtain ⟨items, inside, rest⟩ := bind_eq_ok.mp made
      have same := steps_parseField item inside
      cases size with
      | const n =>
          cases rest
          simp only [steps_append, steps_cons, steps_nil, Item.step, same, FieldClass.measured]
          omega
      | counted size =>
          obtain ⟨type, -, made⟩ := bind_eq_ok.mp rest
          cases made
          simp only [steps_append, steps_cons, steps_nil, Item.step, same, FieldClass.measured]
          omega
  | struct struct length =>
      obtain ⟨name, description, fields⟩ := struct
      cases length with
      | none =>
          cases made
          rfl
      | some length =>
          obtain ⟨type, -, rest⟩ := bind_eq_ok.mp made
          cases rest
          rfl
  | union union typeField length =>
      obtain ⟨name, description, structs, allowEmpty⟩ := union
      cases length with
      | none =>
          cases made
          cases allowEmpty <;> simp [steps_parseCases, unknownType, FieldClass.measured]
      | some length =>
          obtain ⟨type, -, rest⟩ := bind_eq_ok.mp made
          cases rest
          cases allowEmpty <;> simp [steps_parseCases, unknownType, FieldClass.measured]
  | _ =>
      cases made
      rfl
termination_by structural cls

end

mutual

theorem steps_writeField (f : FieldDescr) {writer value : String} {all : List Item}
    (made : renderWriteField f writer value = .ok all) : steps all = 0 := by
  obtain ⟨name, description, default, cls⟩ := f
  rw [renderWriteField] at made
  obtain ⟨items, inside, rest⟩ := bind_eq_ok.mp made
  have same := steps_writeClass cls inside
  cases default with
  | none =>
      cases rest
      exact same
  | some default =>
      cases rest
      simp [indented, same]
termination_by structural f

theorem steps_writeClass (cls : FieldClass) {writer value : String} {all : List Item}
    (made : renderWriteClass cls writer value = .ok all) : steps all = 0 := by
  cases cls with
  | plain => cases made
  | array item size =>
      obtain ⟨items, inside, rest⟩ := bind_eq_ok.mp made
      have same := steps_writeField item inside
      cases rest
      cases size <;> simp [renderWriteArray, same]
  | struct struct length =>
      obtain ⟨name, description, fields⟩ := struct
      cases made
      cases length <;> rfl
  | union union typeField length =>
      obtain ⟨name, description, structs, allowEmpty⟩ := union
      cases made
      cases length <;> cases allowEmpty <;>
        simp [renderWriteUnionField, steps_writeCases, unknownType]
  | _ =>
      cases made
      rfl
termination_by structural cls

end

theorem steps_mapM {α : Type} {render : α → Rendered} {count : α → Nat}
    (each : ∀ a all, render a = .ok all → steps all = count a) {as : List α}
    {items : List (List Item)} (made : as.mapM render = .ok items) :
    steps items.flatten = (as.map count).sum := by
  induction as generalizing items with
  | nil =>
      cases made
      rfl
  | cons a rest ih =>
      rw [List.mapM_cons] at made
      obtain ⟨all, first, behind⟩ := bind_eq_ok.mp made
      obtain ⟨later, others, same⟩ := bind_eq_ok.mp behind
      cases same
      simp [each a all first, ih others]

theorem steps_variants (n : Nat) (structs : List StructDescr) :
    steps (renderVariants n structs) = 0 := by
  induction structs generalizing n with
  | nil => rfl
  | cons struct rest ih =>
      obtain ⟨name, description, fields⟩ := struct
      simp [renderVariants, ih]

theorem steps_describe (description : Option String) : steps (describe description) = 0 := by
  cases description <;> rfl

theorem steps_member {f : FieldDescr} {items : List Item} (made : renderMember f = .ok items) :
    steps items = 0 := by
  obtain ⟨name, description, default, cls⟩ := f
  obtain ⟨type, -, rest⟩ := bind_eq_ok.mp made
  cases rest
  cases cls with
  | union union typeField length =>
      obtain ⟨union, description, structs, allowEmpty⟩ := union
      simp [steps_describe]
  | _ => simp [steps_describe]

theorem steps_obj {o : HeaderObj} {all : List Item} (made : renderObj o = .ok all) :
    steps all = o.measured := by
  cases o with
  | union union =>
      cases made
      rfl
  | unionField union =>
      obtain ⟨name, description, structs, allowEmpty⟩ := union
      cases made
      have members : steps (structs.map variantMember) = 0 := by
        induction structs with
        | nil => rfl
        | cons struct rest ih =>
            obtain ⟨name, description, fields⟩ := struct
            simp [variantMember, ih]
      cases allowEmpty <;>
        simp [renderUnionEnum, renderUnion, steps_variants, members, HeaderObj.measured]
  | struct struct =>
      obtain ⟨name, description, fields⟩ := struct
      obtain ⟨definition, first, rest⟩ := bind_eq_ok.mp made
      obtain ⟨parse, second, rest⟩ := bind_eq_ok.mp rest
      obtain ⟨write, third, rest⟩ := bind_eq_ok.mp rest
      cases rest
      obtain ⟨members, defined, rest⟩ := bind_eq_ok.mp first
      cases rest
      obtain ⟨parses, parsed, rest⟩ := bind_eq_ok.mp second
      cases rest
      obtain ⟨writes, written, rest⟩ := bind_eq_ok.mp third
      cases rest
      have ofMembers : steps members.flatten = ((fields.map fun _ => 0).sum : Nat) :=
        steps_mapM (fun f items => steps_member) defined
      have ofParses := steps_mapM (fun f items => steps_parseField f) parsed
      have ofWrites : steps writes.flatten = ((fields.map fun _ => 0).sum : Nat) :=
        steps_mapM (fun f items => steps_writeField f) written
      simp [ofMembers, ofParses, ofWrites, steps_describe, HeaderObj.measured]

/-- **Every header closes its braces**, of any objects with texts without braces.  The file is left
to the right by one step for every union with a length field. -/
theorem header_balanced {objs : List HeaderObj} (plain : ∀ o ∈ objs, o.Plain) {items : List Item}
    (made : renderHeader objs = .ok items) :
    Balanced brace (({} : FileOutput).put items).text.toList ∧
      (({} : FileOutput).put items).ident = (objs.map HeaderObj.measured).sum := by
  constructor
  · intro depth
    rw [FileOutput.scan_put]
    exact balanced_header plain made depth
  · obtain ⟨blocks, inside, rest⟩ := bind_eq_ok.mp made
    have ofBlocks := steps_mapM (fun o all => steps_obj) inside
    cases rest
    rw [FileOutput.ident_put, steps_append, ofBlocks]
    simp [renderHeaderBegin]

/-- A struct without fields, a union of it, and a struct with a field of this union behind a length
field. -/
def measuredSample : List HeaderObj :=
  let empty := .mk "Empty" none []
  let union := .mk "Body" none [empty] false
  [.struct empty, .unionField union,
    .struct (.mk "Frame" none [.mk "body" none none (.union union ⟨1, none⟩ (some ⟨8, none⟩))])]

theorem header_balanced_measured : ∃ items, renderHeader measuredSample = .ok items ∧
    Balanced brace (({} : FileOutput).put items).text.toList ∧
      (({} : FileOutput).put items).ident = (1 : Nat) := by
  have plain : ∀ o ∈ measuredSample, o.Plain := by
    simp +decide [measuredSample, HeaderObj.Plain, DescriptionPlain, FieldDescr.Plain,
      FieldClass.Plain, UintField.Plain, StructDescr.name]
  exact ⟨_, rfl, header_balanced plain rfl⟩

end UdpStuff.Proto.HeaderText
