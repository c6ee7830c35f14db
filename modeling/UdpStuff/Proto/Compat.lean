/-
# Proto.Compat — the check of one release against the next

`validate_struct` of `compat.py` compares the fields two structs share, class by
class, and, unless a length field stands before the struct, their number.  It raises
at the first difference.  The descriptors here have what the checker looks at: a
prefix is a field of its own, and an array may have a size field and a constant size.
Names are compared only for a warning, which is left out.

`isinstance(f, BITS_FIELDS)` is given a set, which Python refuses; `Reading` leaves
open whether it is taken so or as membership of the listed classes.

`AgreeStruct` says without errors and paths what passes (`validateStruct_ok_iff`).
-/
import UdpStuff.Proto.Descr

namespace UdpStuff.Proto.Compat

set_option autoImplicit false

/-! ## Descriptors -/

/-- A `UintField` where it is a prefix; `enum` where it is an `EnumField`. -/
structure UintField where
  name : String
  default : Option Value := none
  bits : Nat
  enum : Bool := false

mutual

/-- `FieldDescr`, with its class. -/
inductive FieldDescr where
  | mk (name : String) (default : Option Value) (cls : FieldClass)

/-- The subclasses of `FieldDescr`, and the class itself (`plain`). -/
inductive FieldClass where
  | plain
  | bool
  | uint (bits : Nat)
  | int (bits : Nat)
  | float (bits : Nat)
  | enum (bits : Nat)
  | string (size : UintField)
  | array (item : FieldDescr) (size : Option UintField) (constSize : Option Nat)
  | struct (struct : StructDescr) (length : Option UintField)
  | union (union : UnionDescr) (typeField : UintField) (length : Option UintField)

inductive StructDescr where
  | mk (name : String) (fields : List FieldDescr)

inductive UnionDescr where
  | mk (name : String) (structs : List StructDescr) (allowEmpty : Bool)

end

def FieldDescr.name : FieldDescr → String
  | .mk name _ _ => name

def StructDescr.name : StructDescr → String
  | .mk name _ => name

def UnionDescr.name : UnionDescr → String
  | .mk name _ _ => name

def StructDescr.fields : StructDescr → List FieldDescr
  | .mk _ fields => fields

/-- `type(f)` -/
inductive TypeName where
  | fieldDescr
  | boolField
  | uintField
  | intField
  | floatField
  | enumField
  | stringField
  | arrayField
  | structField
  | unionField
deriving DecidableEq

def FieldClass.type : FieldClass → TypeName
  | .plain => .fieldDescr
  | .bool => .boolField
  | .uint _ => .uintField
  | .int _ => .intField
  | .float _ => .floatField
  | .enum _ => .enumField
  | .string _ => .stringField
  | .array _ _ _ => .arrayField
  | .struct _ _ => .structField
  | .union _ _ _ => .unionField

/-- The class is one of `BITS_FIELDS`. -/
def FieldClass.isBits : FieldClass → Bool
  | .bool | .uint _ | .int _ | .float _ | .enum _ => true
  | _ => false

/-- The attribute `bits`, of the classes that have it. -/
def FieldClass.bits : FieldClass → Option Nat
  | .uint bits | .int bits | .float bits | .enum bits => some bits
  | _ => none

/-- The class of a prefix. -/
def UintField.cls (f : UintField) : FieldClass := if f.enum then .enum f.bits else .uint f.bits

/-! ## The checks -/

/-- What `isinstance(f, BITS_FIELDS)` does: it raises, or tells the listed classes. -/
inductive Reading where
  | literal
  | membership
deriving DecidableEq

/-- What is raised, with what its message shows. -/
inductive CompatError where
  | typeError
  | attributeError (attr : String)
  | bitSizeMismatch (path : List String) (bits1 bits2 : Nat)
  | incompatibleFieldTypes (path : List String) (type1 type2 : TypeName)
  | fieldTypeMismatch (path : List String) (type1 type2 : TypeName)
  | fieldLengthMismatch (path : List String) (length1 length2 : Option UintField)
  | allowEmptyMismatch (path : List String) (allowEmpty1 allowEmpty2 : Bool)
  | structCountMismatch (path : List String) (count1 count2 : Nat)
  | removedFromUnion (path : List String) (count1 count2 : Nat)
  | structSizeMismatch (path : List String) (size1 : Nat) (fields2 : List FieldDescr)

abbrev Check := Except CompatError Unit

/-- One check after the other. -/
def Check.andThen (first second : Check) : Check :=
  match first with
  | .error e => .error e
  | .ok () => second

@[simp] theorem Check.andThen_ok_iff (first second : Check) :
    first.andThen second = .ok () ↔ first = .ok () ∧ second = .ok () := by
  cases first with
  | error e => simp [andThen]
  | ok u => simp [andThen]

/-- A comparison that raises if it fails. -/
def require (holds : Prop) [Decidable holds] (e : CompatError) : Check :=
  if holds then .ok () else .error e

@[simp] theorem require_ok_iff (holds : Prop) [Decidable holds] (e : CompatError) :
    require holds e = .ok () ↔ holds := by
  unfold require
  split <;> simp [*]

variable (reading : Reading)

/-- The comparison of `bits`, of two classes that are both listed. -/
def compareBits (c1 c2 : FieldClass) (path : List String) : Check :=
  match c1.bits, c2.bits with
  | some bits1, some bits2 =>
    (require (bits1 = bits2) (.bitSizeMismatch path bits1 bits2)).andThen
      (require (¬ (c1.type ≠ c2.type ∧ (c1.type = .floatField ∨ c2.type = .floatField)))
        (.incompatibleFieldTypes path c1.type c2.type))
  | _, _ => .error (.attributeError "bits")

/-- `validate_field` up to the comparison of the types. -/
def compareTypes (c1 c2 : FieldClass) (path : List String) : Check :=
  match reading with
  | .literal => .error .typeError
  | .membership =>
    (if c1.isBits ∧ c2.isBits then compareBits c1 c2 path else .ok ()).andThen
      (require (c1.type = c2.type) (.fieldTypeMismatch path c1.type c2.type))

/-- `validate_field` on two prefixes. -/
def validateUint (f1 f2 : UintField) (path : List String) : Check :=
  compareTypes reading f1.cls f2.cls path

/-- `validate_field` on the sizes of two arrays; `None` has no name. -/
def validateSize (size1 size2 : Option UintField) (path : List String) : Check :=
  match size1, size2 with
  | some f1, some f2 => validateUint reading f1 f2 path
  | _, _ =>
    match reading with
    | .literal => .error .typeError
    | .membership => .error (.attributeError "name")

/-- The lengths of two structs or unions. -/
def validateLength (length1 length2 : Option UintField) (path : List String) : Check :=
  match length1, length2 with
  | some f1, some f2 => validateUint reading f1 f2 (path ++ ["length"])
  | none, none => .ok ()
  | _, _ => .error (.fieldLengthMismatch path length1 length2)

mutual

def validateField : FieldDescr → FieldDescr → List String → Check
  | .mk _ _ c1, .mk _ _ c2, path =>
    (compareTypes reading c1 c2 path).andThen (validateClass c1 c2 path)
termination_by structural f1 => f1

/-- `validate_field` behind the comparison of the types. -/
def validateClass : FieldClass → FieldClass → List String → Check
  | .string size1, .string size2, path => validateUint reading size1 size2 (path ++ ["size"])
  | .array item1 size1 _, .array item2 size2 _, path =>
    (validateField item1 item2 (path ++ ["item"])).andThen
      (validateSize reading size1 size2 (path ++ ["size"]))
  | .union union1 type1 length1, .union union2 type2 length2, path =>
    (validateUint reading type1 type2 (path ++ ["type_field"])).andThen
      ((validateLength reading length1 length2 path).andThen
        (validateUnion union1 union2 (path ++ [union1.name]) length1.isNone))
  | .struct struct1 length1, .struct struct2 length2, path =>
    (validateLength reading length1 length2 path).andThen
      (validateStruct struct1 struct2 (path ++ [struct1.name]) length1.isNone)
  | _, _, _ => .ok ()
termination_by structural c1 => c1

def validateUnion : UnionDescr → UnionDescr → List String → Bool → Check
  | .mk _ structs1 allowEmpty1, .mk _ structs2 allowEmpty2, path, matchLength =>
    (require (allowEmpty1 = allowEmpty2)
      (.allowEmptyMismatch path allowEmpty1 allowEmpty2)).andThen
      ((if matchLength then
          require (structs1.length = structs2.length)
            (.structCountMismatch path structs1.length structs2.length)
        else
          require (structs1.length ≤ structs2.length)
            (.removedFromUnion path structs1.length structs2.length)).andThen
        (validateStructs structs1 structs2 path matchLength))
termination_by structural u1 => u1

def validateStructs : List StructDescr → List StructDescr → List String → Bool → Check
  | s1 :: rest1, s2 :: rest2, path, matchLength =>
    (validateStruct s1 s2 (path ++ [s1.name]) matchLength).andThen
      (validateStructs rest1 rest2 path matchLength)
  | _, _, _, _ => .ok ()
termination_by structural ss1 => ss1

def validateStruct : StructDescr → StructDescr → List String → Bool → Check
  | .mk _ fields1, .mk _ fields2, path, matchLength =>
    (validateFields fields1 fields2 path).andThen
      (require (matchLength = true → fields1.length = fields2.length)
        (.structSizeMismatch path fields1.length fields2))
termination_by structural s1 => s1

/-- The loop over the fields that both structs have. -/
def validateFields : List FieldDescr → List FieldDescr → List String → Check
  | f1 :: rest1, f2 :: rest2, path =>
    (validateField f1 f2 (path ++ [f1.name])).andThen (validateFields rest1 rest2 path)
  | _, _, _ => .ok ()
termination_by structural fs1 => fs1

end

/-! ## What passes -/

/-- Prefixes of one class and width. -/
def UintField.Agrees (f1 f2 : UintField) : Prop := f1.enum = f2.enum ∧ f1.bits = f2.bits

/-- Both have a size field, and these agree. -/
def SizesAgree : Option UintField → Option UintField → Prop
  | some f1, some f2 => f1.Agrees f2
  | _, _ => False

/-- Both have a length field, and these agree, or neither has. -/
def LengthsAgree : Option UintField → Option UintField → Prop
  | some f1, some f2 => f1.Agrees f2
  | none, none => True
  | _, _ => False

mutual

/-- Fields of one class with equal widths, agreeing prefixes and agreeing insides; two
`BoolField`s have no widths to compare.  Where `isinstance` raises, none agree. -/
def AgreeField : FieldDescr → FieldDescr → Prop
  | .mk _ _ c1, .mk _ _ c2 => reading = .membership ∧ AgreeClass c1 c2
termination_by structural f1 => f1

def AgreeClass : FieldClass → FieldClass → Prop
  | .plain, .plain => True
  | .uint bits1, .uint bits2 => bits1 = bits2
  | .int bits1, .int bits2 => bits1 = bits2
  | .float bits1, .float bits2 => bits1 = bits2
  | .enum bits1, .enum bits2 => bits1 = bits2
  | .string size1, .string size2 => size1.Agrees size2
  | .array item1 size1 _, .array item2 size2 _ => AgreeField item1 item2 ∧ SizesAgree size1 size2
  | .union union1 type1 length1, .union union2 type2 length2 =>
    type1.Agrees type2 ∧ LengthsAgree length1 length2 ∧ AgreeUnion length1.isNone union1 union2
  | .struct struct1 length1, .struct struct2 length2 =>
    LengthsAgree length1 length2 ∧ AgreeStruct length1.isNone struct1 struct2
  | _, _ => False
termination_by structural c1 => c1

/-- With a length field the second union may have more structs. -/
def AgreeUnion (matchLength : Bool) : UnionDescr → UnionDescr → Prop
  | .mk _ structs1 allowEmpty1, .mk _ structs2 allowEmpty2 =>
    allowEmpty1 = allowEmpty2 ∧
      (if matchLength then structs1.length = structs2.length
        else structs1.length ≤ structs2.length) ∧
      AgreeStructs matchLength structs1 structs2
termination_by structural u1 => u1

def AgreeStructs (matchLength : Bool) : List StructDescr → List StructDescr → Prop
  | s1 :: rest1, s2 :: rest2 => AgreeStruct matchLength s1 s2 ∧ AgreeStructs matchLength rest1 rest2
  | _, _ => True
termination_by structural ss1 => ss1

/-- The fields both have agree, and without a length field none has more. -/
def AgreeStruct (matchLength : Bool) : StructDescr → StructDescr → Prop
  | .mk _ fields1, .mk _ fields2 =>
    AgreeFields fields1 fields2 ∧ (matchLength = true → fields1.length = fields2.length)
termination_by structural s1 => s1

def AgreeFields : List FieldDescr → List FieldDescr → Prop
  | f1 :: rest1, f2 :: rest2 => AgreeField f1 f2 ∧ AgreeFields rest1 rest2
  | _, _ => True
termination_by structural fs1 => fs1

end

theorem compareTypes_ok_iff (c1 c2 : FieldClass) (path : List String) :
    compareTypes reading c1 c2 path = .ok () ↔
      reading = .membership ∧ c1.type = c2.type ∧
        (c1.isBits = true → c1.bits.isSome ∧ c1.bits = c2.bits) := by
  cases reading with
  | literal => simp [compareTypes]
  | membership =>
      cases c1 <;> cases c2 <;>
        simp [compareTypes, compareBits, FieldClass.type, FieldClass.isBits, FieldClass.bits]

theorem validateUint_ok_iff (f1 f2 : UintField) (path : List String) :
    validateUint reading f1 f2 path = .ok () ↔ reading = .membership ∧ f1.Agrees f2 := by
  rw [validateUint, compareTypes_ok_iff]
  unfold UintField.cls UintField.Agrees
  cases f1.enum <;> cases f2.enum <;>
    simp [FieldClass.type, FieldClass.isBits, FieldClass.bits]

theorem validateSize_ok_iff (size1 size2 : Option UintField) (path : List String) :
    validateSize reading size1 size2 path = .ok () ↔
      reading = .membership ∧ SizesAgree size1 size2 := by
  cases size1 <;> cases size2 <;> cases reading <;>
    simp [validateSize, SizesAgree, validateUint_ok_iff]

theorem validateLength_ok_iff (length1 length2 : Option UintField) (path : List String) :
    validateLength .membership length1 length2 path = .ok () ↔ LengthsAgree length1 length2 := by
  cases length1 <;> cases length2 <;>
    simp [validateLength, LengthsAgree, validateUint_ok_iff]

variable {reading}

/-! What a class agrees with is of the same class. -/

theorem agreeClass_array {item1 : FieldDescr} {size1 : Option UintField} {constSize1 : Option Nat}
    {c2 : FieldClass} (agree : AgreeClass reading (.array item1 size1 constSize1) c2) :
    ∃ item2 size2 constSize2, c2 = .array item2 size2 constSize2 ∧
      AgreeField reading item1 item2 ∧ SizesAgree size1 size2 := by
  cases c2 with
  | array item2 size2 constSize2 => exact ⟨_, _, _, rfl, agree⟩
  | _ => exact agree.elim

theorem agreeClass_struct {struct1 : StructDescr} {length1 : Option UintField} {c2 : FieldClass}
    (agree : AgreeClass reading (.struct struct1 length1) c2) :
    ∃ struct2 length2, c2 = .struct struct2 length2 ∧
      LengthsAgree length1 length2 ∧ AgreeStruct reading length1.isNone struct1 struct2 := by
  cases c2 with
  | struct struct2 length2 => exact ⟨_, _, rfl, agree⟩
  | _ => exact agree.elim

theorem agreeClass_union {name1 : String} {structs1 : List StructDescr} {allowEmpty1 : Bool}
    {type1 : UintField} {length1 : Option UintField} {c2 : FieldClass}
    (agree : AgreeClass reading (.union (.mk name1 structs1 allowEmpty1) type1 length1) c2) :
    ∃ name2 structs2 allowEmpty2 type2 length2,
      c2 = .union (.mk name2 structs2 allowEmpty2) type2 length2 ∧ type1.Agrees type2 ∧
        LengthsAgree length1 length2 ∧ allowEmpty1 = allowEmpty2 ∧
        (if length1.isNone then structs1.length = structs2.length
          else structs1.length ≤ structs2.length) ∧
        AgreeStructs reading length1.isNone structs1 structs2 := by
  cases c2 with
  | union union2 type2 length2 =>
      obtain ⟨name2, structs2, allowEmpty2⟩ := union2
      exact ⟨_, _, _, _, _, rfl, agree⟩
  | _ => exact agree.elim

theorem agreeClass_string {size1 : UintField} {c2 : FieldClass}
    (agree : AgreeClass reading (.string size1) c2) :
    ∃ size2, c2 = .string size2 ∧ size1.Agrees size2 := by
  cases c2 with
  | string size2 => exact ⟨_, rfl, agree⟩
  | _ => exact agree.elim

/-- A class with nothing inside and no prefix. -/
def FieldClass.isNumber : FieldClass → Bool
  | .uint _ | .int _ | .float _ | .enum _ => true
  | _ => false

theorem agreeClass_number {c1 c2 : FieldClass} (number : c1.isNumber = true)
    (agree : AgreeClass reading c1 c2) : c2 = c1 := by
  cases c1 with
  | uint bits1 =>
      cases c2 with
      | uint bits2 => exact congrArg _ (Eq.symm agree)
      | _ => exact agree.elim
  | int bits1 =>
      cases c2 with
      | int bits2 => exact congrArg _ (Eq.symm agree)
      | _ => exact agree.elim
  | float bits1 =>
      cases c2 with
      | float bits2 => exact congrArg _ (Eq.symm agree)
      | _ => exact agree.elim
  | enum bits1 =>
      cases c2 with
      | enum bits2 => exact congrArg _ (Eq.symm agree)
      | _ => exact agree.elim
  | _ => cases number

mutual

theorem validateField_ok_iff : ∀ (f1 f2 : FieldDescr) (path : List String),
    validateField reading f1 f2 path = .ok () ↔ AgreeField reading f1 f2
  | .mk _ _ c1, .mk _ _ c2, path => by
      rw [validateField, AgreeField, Check.andThen_ok_iff, compareTypes_ok_iff, and_assoc,
        and_congr_right_iff]
      intro member
      exact validateClass_ok_iff member c1 c2 path
termination_by structural x => x

theorem validateClass_ok_iff (member : reading = .membership) :
    ∀ (c1 c2 : FieldClass) (path : List String),
      ((c1.type = c2.type ∧ (c1.isBits = true → c1.bits.isSome ∧ c1.bits = c2.bits)) ∧
        validateClass reading c1 c2 path = .ok ()) ↔ AgreeClass reading c1 c2
  | .plain, c2, path => by
      cases c2 <;> simp [validateClass, AgreeClass, FieldClass.type, FieldClass.isBits]
  | .bool, c2, path => by
      cases c2 <;> simp [AgreeClass, FieldClass.type, FieldClass.isBits, FieldClass.bits]
  | .uint _, c2, path => by
      cases c2 <;> simp [validateClass, AgreeClass, FieldClass.type, FieldClass.isBits,
        FieldClass.bits]
  | .int _, c2, path => by
      cases c2 <;> simp [validateClass, AgreeClass, FieldClass.type, FieldClass.isBits,
        FieldClass.bits]
  | .float _, c2, path => by
      cases c2 <;> simp [validateClass, AgreeClass, FieldClass.type, FieldClass.isBits,
        FieldClass.bits]
  | .enum _, c2, path => by
      cases c2 <;> simp [validateClass, AgreeClass, FieldClass.type, FieldClass.isBits,
        FieldClass.bits]
  | .string size1, c2, path => by
      cases c2 <;> simp [validateClass, AgreeClass, FieldClass.type, FieldClass.isBits,
        validateUint_ok_iff, member]
  | .array item1 size1 _, c2, path => by
      cases c2 with
      | array item2 size2 _ =>
          have items := validateField_ok_iff item1 item2 (path ++ ["item"])
          subst member
          simp [validateClass, AgreeClass, FieldClass.type, FieldClass.isBits, items,
            validateSize_ok_iff]
      | _ => simp [AgreeClass, FieldClass.type]
  | .union union1 type1 length1, c2, path => by
      cases c2 with
      | union union2 type2 length2 =>
          have unions := validateUnion_ok_iff union1 union2 (path ++ [union1.name]) length1.isNone
          subst member
          simp [validateClass, AgreeClass, FieldClass.type, FieldClass.isBits, unions,
            validateUint_ok_iff, validateLength_ok_iff]
      | _ => simp [AgreeClass, FieldClass.type]
  | .struct struct1 length1, c2, path => by
      cases c2 with
      | struct struct2 length2 =>
          have structs := validateStruct_ok_iff struct1 struct2 (path ++ [struct1.name])
            length1.isNone
          subst member
          simp [validateClass, AgreeClass, FieldClass.type, FieldClass.isBits, structs,
            validateLength_ok_iff]
      | _ => simp [AgreeClass, FieldClass.type]
termination_by structural x => x

theorem validateUnion_ok_iff : ∀ (u1 u2 : UnionDescr) (path : List String) (matchLength : Bool),
    validateUnion reading u1 u2 path matchLength = .ok () ↔ AgreeUnion reading matchLength u1 u2
  | .mk _ structs1 _, .mk _ structs2 _, path, matchLength => by
      have structs := validateStructs_ok_iff structs1 structs2 path matchLength
      cases matchLength <;> simp [validateUnion, AgreeUnion, structs]
termination_by structural x => x

theorem validateStructs_ok_iff : ∀ (ss1 ss2 : List StructDescr) (path : List String)
    (matchLength : Bool), validateStructs reading ss1 ss2 path matchLength = .ok () ↔
      AgreeStructs reading matchLength ss1 ss2
  | [], _, _, _ => by simp [validateStructs, AgreeStructs]
  | _ :: _, [], _, _ => by simp [validateStructs, AgreeStructs]
  | s1 :: rest1, s2 :: rest2, path, matchLength => by
      rw [validateStructs, AgreeStructs, Check.andThen_ok_iff, validateStruct_ok_iff s1 s2,
        validateStructs_ok_iff rest1 rest2]
termination_by structural x => x

/-- **What `validate_struct` accepts.** -/
theorem validateStruct_ok_iff : ∀ (s1 s2 : StructDescr) (path : List String) (matchLength : Bool),
    validateStruct reading s1 s2 path matchLength = .ok () ↔ AgreeStruct reading matchLength s1 s2
  | .mk _ fields1, .mk _ fields2, path, matchLength => by
      rw [validateStruct, AgreeStruct, Check.andThen_ok_iff, validateFields_ok_iff fields1 fields2,
        require_ok_iff]
termination_by structural x => x

theorem validateFields_ok_iff : ∀ (fs1 fs2 : List FieldDescr) (path : List String),
    validateFields reading fs1 fs2 path = .ok () ↔ AgreeFields reading fs1 fs2
  | [], _, _ => by simp [validateFields, AgreeFields]
  | _ :: _, [], _ => by simp [validateFields, AgreeFields]
  | f1 :: rest1, f2 :: rest2, path => by
      rw [validateFields, AgreeFields, Check.andThen_ok_iff, validateField_ok_iff f1 f2,
        validateFields_ok_iff rest1 rest2]
termination_by structural x => x

end

end UdpStuff.Proto.Compat
