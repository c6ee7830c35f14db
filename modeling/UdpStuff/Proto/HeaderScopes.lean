/-
# Proto.HeaderScopes — when the functions of the header declare their names

A parse or write function of the header is compiled only if every name it uses is declared around
it, and none twice in one block.  Three things are in the way: a union as the item of an array has
no variable for its type; the empty case of a union is named without its class; and the variables
of a length stand in the block of the field, which for a union without a default is the function.

`functions_scoped_iff`: nothing else is.
-/
import UdpStuff.Proto.HeaderPrograms

namespace UdpStuff.Proto.HeaderText

set_option autoImplicit false

open UdpStuff.Theory

def FieldClass.IsUnion : FieldClass → Prop
  | .union _ _ _ => True
  | _ => False

mutual

/-- No union in the field is the item of an array or has an empty case. -/
def FieldDescr.Named : FieldDescr → Prop
  | .mk _ _ _ cls => cls.Named
termination_by structural f => f

def FieldClass.Named : FieldClass → Prop
  | .array item _ => ¬ item.cls.IsUnion ∧ item.Named
  | .union (.mk _ _ _ allowEmpty) _ _ => allowEmpty = false
  | _ => True
termination_by structural cls => cls

end

/-- The parse declares the variables of a length in the block where it stands. -/
def FieldClass.bare : FieldClass → Bool
  | .union (.mk _ _ _ false) _ (some _) => true
  | _ => false

/-- A default has a block of its own. -/
def FieldDescr.bare : FieldDescr → Bool
  | .mk _ _ none cls => cls.bare
  | _ => false

/-- The names that parse functions declare. -/
def parseNames : List String :=
  ["reader", "result", "size", "length", "struct_reader", "vec_item"]

theorem empty_not_declared (union : String) : union ++ "_empty" ∉ parseNames := by
  intro there
  have last : (union ++ "_empty").toList.getLast? = some 'y' := by simp
  simp only [parseNames, List.mem_cons, List.not_mem_nil, or_false] at there
  rcases there with same | same | same | same | same | same <;> rw [same] at last <;> simp at last

section Parse

variable {visible here : List String}

theorem scoped_unknown : unknownUnionType.Scoped visible here := by
  simp [unknownUnionType]

theorem scoped_parseCases {union : String} {reader result : Expr} {structs : List StructDescr}
    (ofReader : reader.names ⊆ visible) (ofResult : result.names ⊆ visible) :
    (parseCases union reader result structs).Scoped visible here := by
  induction structs with
  | nil => exact scoped_unknown
  | cons struct rest ih =>
      obtain ⟨name, description, fields⟩ := struct
      simp [parseCases, enumerator, ih, ofReader, ofResult]

theorem scoped_parseFragment {length : UintField} {parse : Program}
    (ofReader : "reader" ∈ visible)
    (inside : parse.Scoped ("struct_reader" :: "length" :: visible) []) :
    (parseFragment length (.name "reader") parse).Scoped visible here ↔
      "length" ∉ here ∧ "struct_reader" ∉ here := by
  simp [parseFragment, readNumber, ofReader, inside]

/-- What the parse of a class needs. -/
structure FieldClass.ParseScoped (cls : FieldClass) (result : Expr) (visible here : List String) :
    Prop where
  named : cls.Named
  typed : cls.IsUnion → (typeVar result).names ⊆ visible
  bare : cls.bare = true → "length" ∉ here ∧ "struct_reader" ∉ here

theorem scoped_parseUnion {union : UnionDescr} {typeField : UintField} {length : Option UintField}
    {result : Expr} (known : visible ⊆ parseNames) (ofReader : "reader" ∈ visible)
    (ofResult : result.names ⊆ visible) :
    (parseUnionFieldProgram union typeField length (.name "reader") result).Scoped visible here ↔
      (FieldClass.union union typeField length).ParseScoped result visible here := by
  obtain ⟨name, description, structs, allowEmpty⟩ := union
  have empty : name ++ "_empty" ∉ visible := fun there => empty_not_declared name (known there)
  cases allowEmpty with
  | true =>
      constructor
      · intro fits
        exfalso
        cases length <;> simp [parseUnionFieldProgram, readNumber, empty] at fits
      · intro needs
        exact absurd needs.named (by simp [FieldClass.Named])
  | false =>
      cases length with
      | none =>
          have cases : (parseCases name (.name "reader") result structs).Scoped visible [] :=
            scoped_parseCases (by simpa using ofReader) ofResult
          constructor
          · intro fits
            simp [parseUnionFieldProgram, readNumber, ofReader, cases] at fits
            exact ⟨rfl, fun _ => fits, nofun⟩
          · intro needs
            simp [parseUnionFieldProgram, readNumber, ofReader, cases, needs.typed trivial]
      | some length =>
          have deeper {names : List String} (there : names ⊆ visible) :
              names ⊆ "struct_reader" :: "length" :: visible :=
            fun x inside => List.mem_cons_of_mem _ (List.mem_cons_of_mem _ (there inside))
          have cases : (parseCases name (.name "struct_reader") result structs).Scoped
              ("struct_reader" :: "length" :: visible) [] :=
            scoped_parseCases (by simp) (deeper ofResult)
          constructor
          · intro fits
            simp [parseUnionFieldProgram, parseFragment, readNumber, ofReader, cases] at fits
            exact ⟨rfl, fun _ => fits.1, fun _ => ⟨fits.2.1, fits.2.2.1⟩⟩
          · intro needs
            have typed := needs.typed trivial
            have bare := needs.bare rfl
            simp [parseUnionFieldProgram, parseFragment, readNumber, ofReader, cases, typed, bare,
              deeper typed]

theorem bare_isUnion {cls : FieldClass} (bare : cls.bare = true) : cls.IsUnion := by
  cases cls with
  | union union typeField length => trivial
  | _ => cases bare

/-- A class that is no union needs nothing of the block it stands in. -/
theorem parseScoped_of_other {cls : FieldClass} {result : Expr} (other : ¬ cls.IsUnion)
    (named : cls.Named) : cls.ParseScoped result visible here :=
  ⟨named, fun isUnion => absurd isUnion other, fun bare => absurd (bare_isUnion bare) other⟩

/-- An item has no variable for a type. -/
theorem parseScoped_item {f : FieldDescr} (known : visible ⊆ parseNames) :
    f.cls.ParseScoped (.name "vec_item") visible here ↔ ¬ f.cls.IsUnion ∧ f.Named := by
  obtain ⟨name, description, default, cls⟩ := f
  constructor
  · intro needs
    refine ⟨fun isUnion => ?_, needs.named⟩
    have there : "vec_item_type" ∈ parseNames := known (needs.typed isUnion List.mem_cons_self)
    exact absurd there (by decide)
  · rintro ⟨other, named⟩
    exact parseScoped_of_other other named

mutual

theorem scoped_parseField (f : FieldDescr) {visible here : List String} {result : Expr}
    (known : visible ⊆ parseNames) (ofReader : "reader" ∈ visible)
    (ofResult : result.names ⊆ visible) :
    (parseFieldProgram f (.name "reader") result).Scoped visible here ↔
      f.cls.ParseScoped result visible (if f.default.isNone then here else []) := by
  obtain ⟨name, description, default, cls⟩ := f
  cases default with
  | none => exact scoped_parseClass cls known ofReader ofResult
  | some default =>
      have inside : (parseClassProgram cls (.name "reader") result).Scoped visible [] ↔ _ :=
        scoped_parseClass cls known ofReader ofResult
      simp [parseFieldProgram, ofReader, inside, FieldDescr.cls, FieldDescr.default]
termination_by structural f

theorem scoped_parseClass (cls : FieldClass) {visible here : List String} {result : Expr}
    (known : visible ⊆ parseNames) (ofReader : "reader" ∈ visible)
    (ofResult : result.names ⊆ visible) :
    (parseClassProgram cls (.name "reader") result).Scoped visible here ↔
      cls.ParseScoped result visible here := by
  cases cls with
  | array item size =>
      have other : ¬ (FieldClass.array item size).IsUnion := id
      have whole : (FieldClass.array item size).ParseScoped result visible here ↔
          ¬ item.cls.IsUnion ∧ item.Named :=
        ⟨fun needs => needs.named, parseScoped_of_other other⟩
      have inside {deeper : List String} (ofNames : deeper ⊆ parseNames)
          (ofVisible : visible ⊆ deeper) (own : "vec_item" ∈ deeper) :
          (parseFieldProgram item (.name "reader") (.name "vec_item")).Scoped deeper ["vec_item"] ↔
            ¬ item.cls.IsUnion ∧ item.Named := by
        rw [scoped_parseField item ofNames (ofVisible ofReader) (by simpa using own)]
        exact parseScoped_item ofNames
      rw [whole]
      have ofItem : "vec_item" :: visible ⊆ parseNames := List.cons_subset.mpr ⟨by decide, known⟩
      cases size with
      | const n =>
          have items := inside ofItem (by simp) (by simp)
          simp [parseClassProgram, parseArrayProgram, ofResult, items]
      | counted size =>
          have ofSize : "vec_item" :: "size" :: visible ⊆ parseNames :=
            List.cons_subset.mpr ⟨by decide, List.cons_subset.mpr ⟨by decide, known⟩⟩
          have items := inside ofSize (fun x there => by simp [there]) (by simp)
          have deeper : result.names ⊆ "size" :: visible :=
            fun x there => List.mem_cons_of_mem _ (ofResult there)
          simp [parseClassProgram, parseArrayProgram, readNumber, ofReader, deeper, items]
  | struct struct length =>
      obtain ⟨name, description, fields⟩ := struct
      have needs : (FieldClass.struct (.mk name description fields) length).ParseScoped result
          visible here := ⟨trivial, nofun, nofun⟩
      cases length with
      | none => simp [parseClassProgram, parseStructFieldProgram, ofReader, ofResult, needs]
      | some length =>
          have deeper : result.names ⊆ "struct_reader" :: "length" :: visible :=
            fun x inside => List.mem_cons_of_mem _ (List.mem_cons_of_mem _ (ofResult inside))
          simp [parseClassProgram, parseStructFieldProgram, parseFragment, readNumber, ofReader,
            deeper, needs]
  | union union typeField length => exact scoped_parseUnion known ofReader ofResult
  | plain => exact ⟨fun _ => parseScoped_of_other id trivial, fun _ => trivial⟩
  | _ =>
      refine ⟨fun _ => parseScoped_of_other id trivial, fun _ => ?_⟩
      simp [parseClassProgram, readNumber, ofReader, ofResult]
termination_by structural cls

end

end Parse

/-! ## Parse functions -/

/-- The names that write functions declare. -/
def writeNames : List String :=
  ["writer", "value", "vec_item", "struct_pos", "length", "struct_length"]

theorem empty_not_written (union : String) : union ++ "_empty" ∉ writeNames := by
  intro there
  have last : (union ++ "_empty").toList.getLast? = some 'y' := by simp
  simp only [writeNames, List.mem_cons, List.not_mem_nil, or_false] at there
  rcases there with same | same | same | same | same | same <;> rw [same] at last <;> simp at last

section Write

variable {visible here : List String}

theorem scoped_writeCases {union : String} {value : Expr} {structs : List StructDescr}
    (ofWriter : "writer" ∈ visible) (ofValue : value.names ⊆ visible) :
    (writeCases union value structs).Scoped visible here := by
  induction structs with
  | nil => exact scoped_unknown
  | cons struct rest ih =>
      obtain ⟨name, description, fields⟩ := struct
      simp [writeCases, enumerator, ih, ofWriter, ofValue]

theorem scoped_writeMeasured {length : UintField} {x : String} {write : Program}
    (ofWriter : "writer" ∈ visible) (other : x ≠ "struct_pos") (notWriter : x ≠ "writer")
    (nothing : write.declared = []) :
    (writeMeasured length x (.name "writer") write).Scoped visible [] ↔
      write.Scoped ("struct_pos" :: visible) ["struct_pos"] := by
  simp [writeMeasured, writeNumber, Program.scoped_append, nothing, ofWriter, other, notWriter]

theorem names_defaultTest (default : Default) (cls : FieldClass) (value : Expr) :
    (defaultTest default cls value).names = value.names := by
  cases cls <;> simp [defaultTest]
  all_goals
    split <;> simp

/-- The position of a struct is no variable of a type. -/
theorem typed_deeper {value : Expr} (ofValue : value.names ⊆ visible) :
    (typeVar value).names ⊆ "struct_pos" :: visible ↔ (typeVar value).names ⊆ visible := by
  cases value with
  | name x =>
      have other : x ++ "_type" ≠ "struct_pos" := by
        intro same
        have last : (x ++ "_type").toList.getLast? = some 'e' := by simp
        rw [same] at last
        exact absurd last (by decide)
      simp [typeVar, other]
  | _ =>
      have deeper := List.Subset.trans ofValue (List.subset_cons_self "struct_pos" visible)
      exact ⟨fun _ => ofValue, fun _ => deeper⟩

theorem scoped_writeUnion {union : UnionDescr} {typeField : UintField} {length : Option UintField}
    {value : Expr} (known : visible ⊆ writeNames) (ofWriter : "writer" ∈ visible)
    (ofValue : value.names ⊆ visible) :
    (writeUnionFieldProgram union typeField length (.name "writer") value).Scoped visible here ↔
      (FieldClass.union union typeField length).Named ∧ (typeVar value).names ⊆ visible := by
  obtain ⟨name, description, structs, allowEmpty⟩ := union
  have empty : name ++ "_empty" ∉ visible := fun there => empty_not_written name (known there)
  cases allowEmpty with
  | true =>
      cases length <;> simp [writeUnionFieldProgram, writeNumber, FieldClass.Named, empty]
  | false =>
      cases length with
      | none =>
          have cases : (writeCases name value structs).Scoped visible [] :=
            scoped_writeCases ofWriter ofValue
          simp [writeUnionFieldProgram, writeNumber, FieldClass.Named, ofWriter, cases]
      | some length =>
          have deeper : value.names ⊆ "struct_pos" :: visible :=
            fun x there => List.mem_cons_of_mem _ (ofValue there)
          have cases : (writeCases name value structs).Scoped ("struct_pos" :: visible) [] :=
            scoped_writeCases (by simp [ofWriter]) deeper
          have measured : (writeMeasured length "struct_length" (.name "writer")
              (.switch (typeVar value) (writeCases name value structs) .done)).Scoped visible [] ↔
                _ :=
            scoped_writeMeasured ofWriter (by decide) (by decide) rfl
          simp [writeUnionFieldProgram, writeNumber, FieldClass.Named, ofWriter, measured, cases,
            typed_deeper ofValue]

mutual

theorem scoped_writeField (f : FieldDescr) {visible here : List String} {value : Expr}
    (known : visible ⊆ writeNames) (ofWriter : "writer" ∈ visible)
    (ofValue : value.names ⊆ visible) :
    (writeFieldProgram f (.name "writer") value).Scoped visible here ↔
      f.Named ∧ (f.cls.IsUnion → (typeVar value).names ⊆ visible) := by
  obtain ⟨name, description, default, cls⟩ := f
  cases default with
  | none => exact scoped_writeClass cls known ofWriter ofValue
  | some default =>
      have inside : (writeClassProgram cls (.name "writer") value).Scoped visible [] ↔ _ :=
        scoped_writeClass cls known ofWriter ofValue
      simp [writeFieldProgram, names_defaultTest, ofValue, inside, FieldDescr.Named, FieldDescr.cls]
termination_by structural f

theorem scoped_writeClass (cls : FieldClass) {visible here : List String} {value : Expr}
    (known : visible ⊆ writeNames) (ofWriter : "writer" ∈ visible)
    (ofValue : value.names ⊆ visible) :
    (writeClassProgram cls (.name "writer") value).Scoped visible here ↔
      cls.Named ∧ (cls.IsUnion → (typeVar value).names ⊆ visible) := by
  cases cls with
  | array item size =>
      have ofItem : "vec_item" :: visible ⊆ writeNames := List.cons_subset.mpr ⟨by decide, known⟩
      have untyped : ¬ (typeVar (.name "vec_item")).names ⊆ "vec_item" :: visible := by
        intro there
        exact absurd (ofItem (there List.mem_cons_self)) (by decide)
      have inside : (writeFieldProgram item (.name "writer") (.name "vec_item")).Scoped
          ("vec_item" :: visible) ["vec_item"] ↔ _ :=
        scoped_writeField item ofItem (by simp [ofWriter]) (by simp)
      cases size <;>
        simp [writeClassProgram, writeArrayProgram, writeNumber, ofWriter, ofValue, inside, untyped,
          FieldClass.Named, FieldClass.IsUnion, and_comm]
  | struct struct length =>
      obtain ⟨name, description, fields⟩ := struct
      cases length with
      | none =>
          simp [writeClassProgram, writeStructFieldProgram, ofWriter, ofValue, FieldClass.Named,
            FieldClass.IsUnion]
      | some length =>
          have deeper : value.names ⊆ "struct_pos" :: visible :=
            fun x there => List.mem_cons_of_mem _ (ofValue there)
          have measured : (writeMeasured length "length" (.name "writer")
              (.expr (.call ("write_" ++ name) [.name "writer", value]) .done)).Scoped visible [] ↔
                _ :=
            scoped_writeMeasured ofWriter (by decide) (by decide) rfl
          simp [writeClassProgram, writeStructFieldProgram, ofWriter, deeper, measured,
            FieldClass.Named, FieldClass.IsUnion]
  | union union typeField length =>
      simp only [writeClassProgram, scoped_writeUnion known ofWriter ofValue, FieldClass.IsUnion,
        true_implies]
  | plain => simp [writeClassProgram, FieldClass.Named, FieldClass.IsUnion]
  | _ =>
      simp [writeClassProgram, writeNumber, FieldClass.Named, FieldClass.IsUnion, ofWriter, ofValue]
termination_by structural cls

end

end Write

end UdpStuff.Proto.HeaderText
