/-
# Proto.Generated — the schemas of the generated code, and what the check says of them

`generatedStruct` keeps of a descriptor what the generated parse function reads: the
defaults of fields and the widths of prefixes, not their names or classes.  There is
none where the generator raises, at a field of no class or at a number too wide for
a type.

`MatchStruct` compares two such schemas as far as `validate_struct` does
(`matchStruct_of_accepted`).  Defaults and constant sizes of arrays are left out.
-/
import UdpStuff.Proto.Compat

namespace UdpStuff.Proto

set_option autoImplicit false

/-! ## What the generated code reads -/

namespace Compat

/-- The width of a prefix that has a variable of its own; `get_type_name` knows enums and
numbers of up to 64 bits. -/
def generatedPrefix (f : UintField) : Option Nat :=
  if f.enum ∨ f.bits ≤ 64 then some f.bits else none

/-- A number, of a type that `get_type_name` knows. -/
def generatedNumber (leaf : Nat → Leaf) (bits : Nat) : Option FieldKind :=
  if bits ≤ 64 then some (.leaf (leaf bits)) else none

/-- A constant size is taken before a size field. -/
def generatedSize (size : Option UintField) (constSize : Option Nat) : Option ArraySize :=
  match constSize, size with
  | some n, _ => some (.const n)
  | none, some f => (generatedPrefix f).map .counted
  | none, none => none

def generatedLength : Option UintField → Option (Option Nat)
  | none => some none
  | some f => (generatedPrefix f).map some

mutual

/-- The field as `render_parse_field` reads it. -/
def generatedField : FieldDescr → Option Proto.FieldDescr
  | .mk name default cls => (generatedClass cls).map fun kind => .mk name default kind
termination_by structural f => f

def generatedClass : FieldClass → Option FieldKind
  | .plain => none
  | .bool => some (.leaf .bool)
  | .uint bits => generatedNumber .uint bits
  | .int bits => generatedNumber .int bits
  | .float bits => generatedNumber .float bits
  | .enum bits => some (.leaf (.enum bits))
  | .string size => some (.leaf (.string size.bits))
  | .array item size constSize =>
    match generatedField item, generatedSize size constSize with
    | some item, some size => some (.array item size)
    | _, _ => none
  | .struct struct length =>
    match generatedStruct struct, generatedLength length with
    | some struct, some length => some (.struct struct length)
    | _, _ => none
  | .union union typeField length =>
    match generatedUnion union, generatedLength length with
    | some union, some length => some (.union union typeField.bits length)
    | _, _ => none
termination_by structural cls => cls

def generatedStruct : StructDescr → Option Proto.StructDescr
  | .mk name fields => (generatedFields fields).map fun fields => .mk name fields
termination_by structural struct => struct

def generatedUnion : UnionDescr → Option Proto.UnionDescr
  | .mk name structs allowEmpty =>
    (generatedStructs structs).map fun structs => .mk name structs allowEmpty
termination_by structural union => union

def generatedFields : List FieldDescr → Option (List Proto.FieldDescr)
  | [] => some []
  | f :: rest =>
    match generatedField f, generatedFields rest with
    | some f, some rest => some (f :: rest)
    | _, _ => none
termination_by structural fields => fields

def generatedStructs : List StructDescr → Option (List Proto.StructDescr)
  | [] => some []
  | struct :: rest =>
    match generatedStruct struct, generatedStructs rest with
    | some struct, some rest => some (struct :: rest)
    | _, _ => none
termination_by structural structs => structs

end

end Compat

/-! ## What the check compares of it -/

mutual

/-- Fields of one kind with equal widths, prefixes and insides. -/
def MatchField : FieldDescr → FieldDescr → Prop
  | .mk _ _ kind1, .mk _ _ kind2 => MatchKind kind1 kind2
termination_by structural f1 => f1

def MatchKind : FieldKind → FieldKind → Prop
  | .leaf leaf1, .leaf leaf2 => leaf1 = leaf2
  | .array item1 _, .array item2 _ => MatchField item1 item2
  | .struct struct1 length1, .struct struct2 length2 =>
    length1 = length2 ∧ MatchStruct length1.isNone struct1 struct2
  | .union (.mk _ structs1 allowEmpty1) typeBits1 length1,
    .union (.mk _ structs2 allowEmpty2) typeBits2 length2 =>
    typeBits1 = typeBits2 ∧ length1 = length2 ∧ allowEmpty1 = allowEmpty2 ∧
      (if length1.isNone then structs1.length = structs2.length
        else structs1.length ≤ structs2.length) ∧
      MatchStructs length1.isNone structs1 structs2
  | _, _ => False
termination_by structural kind1 => kind1

def MatchStruct (bare : Bool) : StructDescr → StructDescr → Prop
  | .mk _ fields1, .mk _ fields2 =>
    MatchFields fields1 fields2 ∧ (bare = true → fields1.length = fields2.length)
termination_by structural struct1 => struct1

def MatchFields : List FieldDescr → List FieldDescr → Prop
  | f1 :: rest1, f2 :: rest2 => MatchField f1 f2 ∧ MatchFields rest1 rest2
  | _, _ => True
termination_by structural fields1 => fields1

def MatchStructs (bare : Bool) : List StructDescr → List StructDescr → Prop
  | struct1 :: rest1, struct2 :: rest2 =>
    MatchStruct bare struct1 struct2 ∧ MatchStructs bare rest1 rest2
  | _, _ => True
termination_by structural structs1 => structs1

end

namespace Compat

/-- Agreeing lengths are generated alike. -/
theorem generatedLength_agree {length1 length2 : Option UintField}
    {made1 made2 : Option Nat} (agree : LengthsAgree length1 length2)
    (one : generatedLength length1 = some made1) (two : generatedLength length2 = some made2) :
    made1 = made2 ∧ made1.isNone = length1.isNone := by
  match length1, length2 with
  | none, none =>
      cases one
      cases two
      exact ⟨rfl, rfl⟩
  | some f1, some f2 =>
      have bits : f1.bits = f2.bits := agree.2
      simp only [generatedLength, generatedPrefix, Option.map_eq_some_iff] at one two
      obtain ⟨b1, made, rfl⟩ := one
      obtain ⟨b2, made', rfl⟩ := two
      split at made
      case isTrue =>
        split at made'
        case isTrue =>
          cases made
          cases made'
          exact ⟨congrArg some bits, rfl⟩
        case isFalse => cases made'
      case isFalse => cases made
  | none, some _ => exact agree.elim
  | some _, none => exact agree.elim

theorem generatedNumber_some {leaf : Nat → Leaf} {bits : Nat} {kind : FieldKind}
    (made : generatedNumber leaf bits = some kind) : kind = .leaf (leaf bits) := by
  unfold generatedNumber at made
  split at made
  case isTrue => exact (Option.some.inj made).symm
  case isFalse => cases made

/-! What is generated of an array, a struct or a union is made of what is inside. -/

theorem generatedClass_array {item : FieldDescr} {size : Option UintField}
    {constSize : Option Nat} {kind : FieldKind}
    (made : generatedClass (.array item size constSize) = some kind) :
    ∃ madeItem madeSize, kind = .array madeItem madeSize ∧
      generatedField item = some madeItem := by
  rw [generatedClass] at made
  split at made
  case h_1 inside _ => exact ⟨_, _, (Option.some.inj made).symm, inside⟩
  case h_2 => cases made

theorem generatedClass_struct {struct : StructDescr} {length : Option UintField}
    {kind : FieldKind} (made : generatedClass (.struct struct length) = some kind) :
    ∃ madeStruct madeLength, kind = .struct madeStruct madeLength ∧
      generatedStruct struct = some madeStruct ∧ generatedLength length = some madeLength := by
  rw [generatedClass] at made
  split at made
  case h_1 inside front => exact ⟨_, _, (Option.some.inj made).symm, inside, front⟩
  case h_2 => cases made

theorem generatedClass_union {name : String} {structs : List StructDescr} {allowEmpty : Bool}
    {typeField : UintField} {length : Option UintField} {kind : FieldKind}
    (made : generatedClass (.union (.mk name structs allowEmpty) typeField length) = some kind) :
    ∃ madeStructs madeLength,
      kind = .union (.mk name madeStructs allowEmpty) typeField.bits madeLength ∧
        generatedStructs structs = some madeStructs ∧
        generatedLength length = some madeLength := by
  rw [generatedClass] at made
  split at made
  case h_1 whole front =>
    rw [generatedUnion, Option.map_eq_some_iff] at whole
    obtain ⟨madeStructs, inside, rfl⟩ := whole
    exact ⟨_, _, (Option.some.inj made).symm, inside, front⟩
  case h_2 => cases made

theorem generatedFields_cons {f : FieldDescr} {rest : List FieldDescr}
    {made : List Proto.FieldDescr} (all : generatedFields (f :: rest) = some made) :
    ∃ first others, made = first :: others ∧ generatedField f = some first ∧
      generatedFields rest = some others := by
  rw [generatedFields] at all
  split at all
  case h_1 one more => exact ⟨_, _, (Option.some.inj all).symm, one, more⟩
  case h_2 => cases all

theorem generatedStructs_cons {struct : StructDescr} {rest : List StructDescr}
    {made : List Proto.StructDescr} (all : generatedStructs (struct :: rest) = some made) :
    ∃ first others, made = first :: others ∧ generatedStruct struct = some first ∧
      generatedStructs rest = some others := by
  rw [generatedStructs] at all
  split at all
  case h_1 one more => exact ⟨_, _, (Option.some.inj all).symm, one, more⟩
  case h_2 => cases all

theorem length_generatedFields {fields : List FieldDescr} {made : List Proto.FieldDescr}
    (one : generatedFields fields = some made) : made.length = fields.length := by
  induction fields generalizing made with
  | nil =>
      cases one
      rfl
  | cons f rest ih =>
      obtain ⟨first, others, rfl, -, more⟩ := generatedFields_cons one
      rw [List.length_cons, List.length_cons, ih more]

theorem length_generatedStructs {structs : List StructDescr} {made : List Proto.StructDescr}
    (one : generatedStructs structs = some made) : made.length = structs.length := by
  induction structs generalizing made with
  | nil =>
      cases one
      rfl
  | cons struct rest ih =>
      obtain ⟨first, others, rfl, -, more⟩ := generatedStructs_cons one
      rw [List.length_cons, List.length_cons, ih more]

/-- A leaf and itself. -/
theorem matchKind_number {cls : FieldClass} (number : cls.isNumber = true)
    {made1 made2 : FieldKind} (one : generatedClass cls = some made1)
    (two : generatedClass cls = some made2) : MatchKind made1 made2 := by
  have same : made1 = made2 := Option.some.inj (one.symm.trans two)
  subst same
  cases cls with
  | uint bits | int bits | float bits =>
      rw [generatedNumber_some one, MatchKind]
  | enum bits =>
      cases one
      rw [MatchKind]
  | _ => cases number

variable {reading : Reading}

mutual

theorem matchField_of_agree : ∀ (f1 f2 : FieldDescr), AgreeField reading f1 f2 →
    ∀ made1 made2, generatedField f1 = some made1 → generatedField f2 = some made2 →
      MatchField made1 made2
  | .mk _ _ cls1, .mk _ _ cls2, agree, made1, made2, one, two => by
      rw [AgreeField] at agree
      rw [generatedField, Option.map_eq_some_iff] at one two
      obtain ⟨kind1, one, rfl⟩ := one
      obtain ⟨kind2, two, rfl⟩ := two
      rw [MatchField]
      exact matchClass_of_agree cls1 cls2 agree.2 kind1 kind2 one two
termination_by structural x => x

theorem matchClass_of_agree : ∀ (cls1 cls2 : FieldClass), AgreeClass reading cls1 cls2 →
    ∀ made1 made2, generatedClass cls1 = some made1 → generatedClass cls2 = some made2 →
      MatchKind made1 made2
  | .plain, _, _, _, _, one, _ => by
      rw [generatedClass] at one
      cases one
  | .bool, cls2, agree, made1, made2, one, two => by
      cases cls2 <;> exact agree.elim
  | .uint bits, cls2, agree, made1, made2, one, two => by
      rw [agreeClass_number rfl agree] at two
      exact matchKind_number rfl one two
  | .int bits, cls2, agree, made1, made2, one, two => by
      rw [agreeClass_number rfl agree] at two
      exact matchKind_number rfl one two
  | .float bits, cls2, agree, made1, made2, one, two => by
      rw [agreeClass_number rfl agree] at two
      exact matchKind_number rfl one two
  | .enum bits, cls2, agree, made1, made2, one, two => by
      rw [agreeClass_number rfl agree] at two
      exact matchKind_number rfl one two
  | .string size, cls2, agree, made1, made2, one, two => by
      obtain ⟨size2, rfl, same⟩ := agreeClass_string agree
      rw [generatedClass] at one two
      cases one
      cases two
      rw [same.2, MatchKind]
  | .array item1 size1 constSize1, cls2, agree, made1, made2, one, two => by
      obtain ⟨item2, size2, constSize2, rfl, items, -⟩ := agreeClass_array agree
      obtain ⟨madeItem1, madeSize1, rfl, inside1⟩ := generatedClass_array one
      obtain ⟨madeItem2, madeSize2, rfl, inside2⟩ := generatedClass_array two
      rw [MatchKind]
      exact matchField_of_agree item1 item2 items _ _ inside1 inside2
  | .struct struct1 length1, cls2, agree, made1, made2, one, two => by
      obtain ⟨struct2, length2, rfl, lengths, structs⟩ := agreeClass_struct agree
      obtain ⟨madeStruct1, madeLength1, rfl, inside1, front1⟩ := generatedClass_struct one
      obtain ⟨madeStruct2, madeLength2, rfl, inside2, front2⟩ := generatedClass_struct two
      obtain ⟨same, bare⟩ := generatedLength_agree lengths front1 front2
      rw [MatchKind, bare]
      exact ⟨same, matchStruct_of_agree _ struct1 struct2 structs _ _ inside1 inside2⟩
  | .union (.mk _ structs1 allowEmpty1) type1 length1, cls2, agree, made1, made2, one, two => by
      obtain ⟨name2, structs2, allowEmpty2, type2, length2, rfl, types, lengths, empty, count,
        structs⟩ := agreeClass_union agree
      obtain ⟨madeStructs1, madeLength1, rfl, inside1, front1⟩ := generatedClass_union one
      obtain ⟨madeStructs2, madeLength2, rfl, inside2, front2⟩ := generatedClass_union two
      obtain ⟨same, bare⟩ := generatedLength_agree lengths front1 front2
      rw [MatchKind, bare, length_generatedStructs inside1, length_generatedStructs inside2]
      exact ⟨types.2, same, empty, count,
        matchStructs_of_agree _ structs1 structs2 structs _ _ inside1 inside2⟩
termination_by structural x => x

theorem matchStruct_of_agree (matchLength : Bool) : ∀ (s1 s2 : StructDescr),
    AgreeStruct reading matchLength s1 s2 →
    ∀ made1 made2, generatedStruct s1 = some made1 → generatedStruct s2 = some made2 →
      MatchStruct matchLength made1 made2
  | .mk _ fields1, .mk _ fields2, agree, made1, made2, one, two => by
      rw [AgreeStruct] at agree
      rw [generatedStruct, Option.map_eq_some_iff] at one two
      obtain ⟨fs1, one, rfl⟩ := one
      obtain ⟨fs2, two, rfl⟩ := two
      rw [MatchStruct, length_generatedFields one, length_generatedFields two]
      exact ⟨matchFields_of_agree fields1 fields2 agree.1 fs1 fs2 one two, agree.2⟩
termination_by structural x => x

theorem matchFields_of_agree : ∀ (fields1 fields2 : List FieldDescr),
    AgreeFields reading fields1 fields2 →
    ∀ made1 made2, generatedFields fields1 = some made1 →
      generatedFields fields2 = some made2 → MatchFields made1 made2
  | [], _, _, made1, made2, one, _ => by
      cases one
      simp [MatchFields]
  | _ :: _, [], _, made1, made2, _, two => by
      cases two
      cases made1 <;> simp [MatchFields]
  | f1 :: rest1, f2 :: rest2, agree, made1, made2, one, two => by
      rw [AgreeFields] at agree
      obtain ⟨first1, others1, rfl, front1, back1⟩ := generatedFields_cons one
      obtain ⟨first2, others2, rfl, front2, back2⟩ := generatedFields_cons two
      rw [MatchFields]
      exact ⟨matchField_of_agree f1 f2 agree.1 _ _ front1 front2,
        matchFields_of_agree rest1 rest2 agree.2 _ _ back1 back2⟩
termination_by structural x => x

theorem matchStructs_of_agree (matchLength : Bool) : ∀ (structs1 structs2 : List StructDescr),
    AgreeStructs reading matchLength structs1 structs2 →
    ∀ made1 made2, generatedStructs structs1 = some made1 →
      generatedStructs structs2 = some made2 → MatchStructs matchLength made1 made2
  | [], _, _, made1, made2, one, _ => by
      cases one
      simp [MatchStructs]
  | _ :: _, [], _, made1, made2, _, two => by
      cases two
      cases made1 <;> simp [MatchStructs]
  | s1 :: rest1, s2 :: rest2, agree, made1, made2, one, two => by
      rw [AgreeStructs] at agree
      obtain ⟨first1, others1, rfl, front1, back1⟩ := generatedStructs_cons one
      obtain ⟨first2, others2, rfl, front2, back2⟩ := generatedStructs_cons two
      rw [MatchStructs]
      exact ⟨matchStruct_of_agree matchLength s1 s2 agree.1 _ _ front1 front2,
        matchStructs_of_agree matchLength rest1 rest2 agree.2 _ _ back1 back2⟩
termination_by structural x => x

end

end Compat

end UdpStuff.Proto
