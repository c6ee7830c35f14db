/-
# Proto.SelfCompat — a release against itself

`validate_struct` of a schema with itself.  Where `isinstance` is given a set, no
field passes at all.  Read as membership, a `BoolField` is one of the listed classes
and has no `bits`, and an array of constant size has no size field to look into;
everything else passes (`validateStruct_self_iff`).
-/
import UdpStuff.Proto.Compat

namespace UdpStuff.Proto.Compat

set_option autoImplicit false

mutual

/-- Nothing that the checker cannot look into. -/
def CheckableField : FieldDescr → Prop
  | .mk _ _ cls => CheckableClass cls
termination_by structural f => f

def CheckableClass : FieldClass → Prop
  | .bool => False
  | .array item size _ => CheckableField item ∧ size.isSome
  | .struct struct _ => CheckableStruct struct
  | .union (.mk _ structs _) _ _ => CheckableStructs structs
  | _ => True
termination_by structural cls => cls

def CheckableStruct : StructDescr → Prop
  | .mk _ fields => CheckableFields fields
termination_by structural s => s

def CheckableFields : List FieldDescr → Prop
  | [] => True
  | f :: rest => CheckableField f ∧ CheckableFields rest
termination_by structural fields => fields

def CheckableStructs : List StructDescr → Prop
  | [] => True
  | s :: rest => CheckableStruct s ∧ CheckableStructs rest
termination_by structural structs => structs

end

/-! ## Agreement with itself -/

theorem UintField.agrees_self (f : UintField) : f.Agrees f := ⟨rfl, rfl⟩

theorem sizesAgree_self (size : Option UintField) : SizesAgree size size ↔ size.isSome := by
  cases size <;> simp [SizesAgree, UintField.agrees_self]

theorem lengthsAgree_self (length : Option UintField) : LengthsAgree length length := by
  cases length with
  | none => trivial
  | some f => exact f.agrees_self

mutual

theorem agreeField_self : ∀ f : FieldDescr, AgreeField .membership f f ↔ CheckableField f
  | .mk _ _ cls => by
      rw [AgreeField, CheckableField, agreeClass_self cls]
      exact and_iff_right rfl
termination_by structural x => x

theorem agreeClass_self : ∀ cls : FieldClass, AgreeClass .membership cls cls ↔ CheckableClass cls
  | .plain | .bool | .uint _ | .int _ | .float _ | .enum _ => by simp [AgreeClass, CheckableClass]
  | .string size => by simp [AgreeClass, CheckableClass, size.agrees_self]
  | .array item size _ => by
      rw [AgreeClass, CheckableClass, agreeField_self item, sizesAgree_self]
  | .struct struct length => by
      rw [AgreeClass, CheckableClass, agreeStruct_self struct]
      exact and_iff_right (lengthsAgree_self length)
  | .union (.mk _ structs _) type length => by
      have counts : (if length.isNone = true then structs.length = structs.length
          else structs.length ≤ structs.length) := by
        split
        · rfl
        · exact le_refl _
      rw [AgreeClass, CheckableClass, AgreeUnion, agreeStructs_self structs]
      constructor
      · rintro ⟨-, -, -, -, inside⟩
        exact inside
      · intro inside
        exact ⟨type.agrees_self, lengthsAgree_self length, rfl, counts, inside⟩
termination_by structural x => x

theorem agreeStruct_self : ∀ (s : StructDescr) {matchLength : Bool},
    AgreeStruct .membership matchLength s s ↔ CheckableStruct s
  | .mk _ fields, _ => by
      rw [AgreeStruct, CheckableStruct, agreeFields_self fields]
      exact and_iff_left fun _ => rfl
termination_by structural x => x

theorem agreeFields_self : ∀ fields : List FieldDescr,
    AgreeFields .membership fields fields ↔ CheckableFields fields
  | [] => by simp [AgreeFields, CheckableFields]
  | f :: rest => by rw [AgreeFields, CheckableFields, agreeField_self f, agreeFields_self rest]
termination_by structural x => x

theorem agreeStructs_self : ∀ (structs : List StructDescr) {matchLength : Bool},
    AgreeStructs .membership matchLength structs structs ↔ CheckableStructs structs
  | [], _ => by simp [AgreeStructs, CheckableStructs]
  | s :: rest, _ => by
      rw [AgreeStructs, CheckableStructs, agreeStruct_self s, agreeStructs_self rest]
termination_by structural x => x

end

/-- Where `isinstance` raises, it raises at the first field. -/
theorem agreeStruct_self_literal (s : StructDescr) {matchLength : Bool} :
    AgreeStruct .literal matchLength s s ↔ s.fields = [] := by
  obtain ⟨name, fields⟩ := s
  cases fields with
  | nil => simp [AgreeStruct, AgreeFields, StructDescr.fields]
  | cons f rest =>
      obtain ⟨fieldName, default, cls⟩ := f
      simp [AgreeStruct, AgreeFields, AgreeField, StructDescr.fields]

/-- **A schema passes against itself** if and only if it has no field at all, or, with
membership, nothing in it that the checker cannot look into. -/
theorem validateStruct_self_iff (reading : Reading) (s : StructDescr) (path : List String)
    (matchLength : Bool) : validateStruct reading s s path matchLength = .ok () ↔
      match reading with
      | .literal => s.fields = []
      | .membership => CheckableStruct s := by
  rw [validateStruct_ok_iff]
  cases reading with
  | literal => exact agreeStruct_self_literal s
  | membership => exact agreeStruct_self s

/-- **Refuted**, however `isinstance` is taken, by a struct of one flag. -/
theorem validateStruct_self_refuted :
    ¬ ∃ reading : Reading, ∀ (s : StructDescr) (path : List String) (matchLength : Bool),
      validateStruct reading s s path matchLength = .ok () := by
  rintro ⟨reading, always⟩
  have passes := always (.mk "s" [.mk "flag" none .bool]) ["s"] true
  rw [validateStruct_ok_iff] at passes
  cases reading with
  | literal => cases (agreeStruct_self_literal _).mp passes
  | membership => exact ((agreeStruct_self _).mp passes).1

end UdpStuff.Proto.Compat
