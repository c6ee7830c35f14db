/-
# Proto.Releases — the check over three releases

A struct may lose its last fields in one release and get others in the next; each
release is compared with the one before it only.  `GapsAgreeStruct` looks at the
fields that the first and the third release have and the second, being shorter, has
not, here and in all structs compared inside.

`compatible_trans_iff`: of three releases accepted pairwise, the first and the third
are accepted exactly if these agree.
-/
import UdpStuff.Proto.Compat

namespace UdpStuff.Proto.Compat

set_option autoImplicit false

variable (reading : Reading)

mutual

/-- The gaps of the second field's insides agree. -/
def GapsAgreeField : FieldDescr → FieldDescr → FieldDescr → Prop
  | .mk _ _ c1, .mk _ _ c2, .mk _ _ c3 => GapsAgreeClass c1 c2 c3
termination_by structural f1 => f1

def GapsAgreeClass : FieldClass → FieldClass → FieldClass → Prop
  | .array item1 _ _, .array item2 _ _, .array item3 _ _ => GapsAgreeField item1 item2 item3
  | .union (.mk _ structs1 _) _ _, .union (.mk _ structs2 _) _ _, .union (.mk _ structs3 _) _ _ =>
    GapsAgreeStructs structs1 structs2 structs3
  | .struct struct1 _, .struct struct2 _, .struct struct3 _ =>
    GapsAgreeStruct struct1 struct2 struct3
  | _, _, _ => True
termination_by structural c1 => c1

def GapsAgreeStructs : List StructDescr → List StructDescr → List StructDescr → Prop
  | s1 :: rest1, s2 :: rest2, s3 :: rest3 =>
    GapsAgreeStruct s1 s2 s3 ∧ GapsAgreeStructs rest1 rest2 rest3
  | _, _, _ => True
termination_by structural ss1 => ss1

def GapsAgreeStruct : StructDescr → StructDescr → StructDescr → Prop
  | .mk _ fields1, .mk _ fields2, .mk _ fields3 => GapsAgreeFields fields1 fields2 fields3
termination_by structural s1 => s1

/-- Where the second release has no more fields, those of the other two agree. -/
def GapsAgreeFields : List FieldDescr → List FieldDescr → List FieldDescr → Prop
  | f1 :: rest1, f2 :: rest2, f3 :: rest3 =>
    GapsAgreeField f1 f2 f3 ∧ GapsAgreeFields rest1 rest2 rest3
  | fields1, [], fields3 => AgreeFields reading fields1 fields3
  | _, _, _ => True
termination_by structural fs1 => fs1

end

/-! ## Transitivity -/

theorem UintField.Agrees.trans {f1 f2 f3 : UintField} (first : f1.Agrees f2)
    (second : f2.Agrees f3) : f1.Agrees f3 :=
  ⟨first.1.trans second.1, first.2.trans second.2⟩

theorem SizesAgree.trans {size1 size2 size3 : Option UintField} (first : SizesAgree size1 size2)
    (second : SizesAgree size2 size3) : SizesAgree size1 size3 := by
  match size1, size2, size3 with
  | some _, some _, some _ => exact UintField.Agrees.trans first second
  | none, _, _ => exact first.elim
  | some _, none, _ => exact first.elim
  | some _, some _, none => exact second.elim

theorem LengthsAgree.trans {length1 length2 length3 : Option UintField}
    (first : LengthsAgree length1 length2) (second : LengthsAgree length2 length3) :
    LengthsAgree length1 length3 := by
  match length1, length2, length3 with
  | some _, some _, some _ => exact UintField.Agrees.trans first second
  | none, none, none => trivial
  | none, some _, _ => exact first.elim
  | some _, none, _ => exact first.elim
  | none, none, some _ => exact second.elim
  | some _, some _, none => exact second.elim

/-- Both have a length field or neither has. -/
theorem LengthsAgree.isNone {length1 length2 : Option UintField}
    (agree : LengthsAgree length1 length2) : length1.isNone = length2.isNone := by
  match length1, length2 with
  | some _, some _ => rfl
  | none, none => rfl
  | none, some _ => exact agree.elim
  | some _, none => exact agree.elim

variable {reading}

mutual

theorem agreeField_trans_iff : ∀ (f1 f2 f3 : FieldDescr), AgreeField reading f1 f2 →
    AgreeField reading f2 f3 → (AgreeField reading f1 f3 ↔ GapsAgreeField reading f1 f2 f3)
  | .mk _ _ c1, .mk _ _ c2, .mk _ _ c3, first, second => by
      rw [AgreeField] at first second
      rw [AgreeField, GapsAgreeField, and_iff_right first.1]
      exact agreeClass_trans_iff c1 c2 c3 first.2 second.2
termination_by structural x => x

theorem agreeClass_trans_iff : ∀ (c1 c2 c3 : FieldClass), AgreeClass reading c1 c2 →
    AgreeClass reading c2 c3 → (AgreeClass reading c1 c3 ↔ GapsAgreeClass reading c1 c2 c3)
  | .array item1 size1 _, c2, c3, first, second => by
      obtain ⟨item2, size2, constSize2, rfl, items, sizes⟩ := agreeClass_array first
      obtain ⟨item3, size3, constSize3, rfl, items', sizes'⟩ := agreeClass_array second
      rw [AgreeClass, GapsAgreeClass, and_iff_left (sizes.trans sizes')]
      exact agreeField_trans_iff item1 item2 item3 items items'
  | .union (.mk _ structs1 _) type1 length1, c2, c3, first, second => by
      obtain ⟨name2, structs2, allowEmpty2, type2, length2, rfl, types, lengths, empty, count,
        structs⟩ := agreeClass_union first
      obtain ⟨name3, structs3, allowEmpty3, type3, length3, rfl, types', lengths', empty', count',
        structs'⟩ := agreeClass_union second
      rw [← lengths.isNone] at count' structs'
      have counts : if length1.isNone then structs1.length = structs3.length
          else structs1.length ≤ structs3.length := by
        split at count
        case isTrue bare => rw [if_pos bare] at count' ⊢; exact count.trans count'
        case isFalse bare => rw [if_neg bare] at count' ⊢; exact count.trans count'
      have covered : structs1.length ≤ structs2.length := by
        split at count
        case isTrue => exact count.le
        case isFalse => exact count
      rw [AgreeClass, AgreeUnion, GapsAgreeClass, and_iff_right (types.trans types'),
        and_iff_right (lengths.trans lengths'), and_iff_right (empty.trans empty'),
        and_iff_right counts]
      exact agreeStructs_trans_iff length1.isNone structs1 structs2 structs3 structs structs'
        covered
  | .struct struct1 length1, c2, c3, first, second => by
      obtain ⟨struct2, length2, rfl, lengths, structs⟩ := agreeClass_struct first
      obtain ⟨struct3, length3, rfl, lengths', structs'⟩ := agreeClass_struct second
      rw [← lengths.isNone] at structs'
      rw [AgreeClass, GapsAgreeClass, and_iff_right (lengths.trans lengths')]
      exact agreeStruct_trans_iff length1.isNone struct1 struct2 struct3 structs structs'
  | .string size1, c2, c3, first, second => by
      obtain ⟨size2, rfl, same⟩ := agreeClass_string first
      obtain ⟨size3, rfl, same'⟩ := agreeClass_string second
      exact iff_of_true (by rw [AgreeClass]; exact same.trans same') (by simp [GapsAgreeClass])
  | .plain, c2, c3, first, second => by
      cases c2 <;> cases c3 <;> simp_all [AgreeClass, GapsAgreeClass]
  | .bool, c2, c3, first, second => by
      cases c2 <;> exact first.elim
  | .uint _, c2, c3, first, second => by
      obtain rfl := agreeClass_number rfl first
      obtain rfl := agreeClass_number rfl second
      exact iff_of_true (by rw [AgreeClass]) (by simp [GapsAgreeClass])
  | .int _, c2, c3, first, second => by
      obtain rfl := agreeClass_number rfl first
      obtain rfl := agreeClass_number rfl second
      exact iff_of_true (by rw [AgreeClass]) (by simp [GapsAgreeClass])
  | .float _, c2, c3, first, second => by
      obtain rfl := agreeClass_number rfl first
      obtain rfl := agreeClass_number rfl second
      exact iff_of_true (by rw [AgreeClass]) (by simp [GapsAgreeClass])
  | .enum _, c2, c3, first, second => by
      obtain rfl := agreeClass_number rfl first
      obtain rfl := agreeClass_number rfl second
      exact iff_of_true (by rw [AgreeClass]) (by simp [GapsAgreeClass])
termination_by structural x => x

/-- The second union has all structs of the first, so that there is no gap between. -/
theorem agreeStructs_trans_iff (matchLength : Bool) : ∀ (ss1 ss2 ss3 : List StructDescr),
    AgreeStructs reading matchLength ss1 ss2 → AgreeStructs reading matchLength ss2 ss3 →
    ss1.length ≤ ss2.length →
    (AgreeStructs reading matchLength ss1 ss3 ↔ GapsAgreeStructs reading ss1 ss2 ss3)
  | [], _, _, _, _, _ => by simp [AgreeStructs, GapsAgreeStructs]
  | _ :: _, [], _, _, _, covered => absurd covered (Nat.not_succ_le_zero _)
  | _ :: _, _ :: _, [], _, _, _ => by simp [AgreeStructs, GapsAgreeStructs]
  | s1 :: rest1, s2 :: rest2, s3 :: rest3, first, second, covered => by
      rw [AgreeStructs] at first second
      rw [AgreeStructs, GapsAgreeStructs,
        agreeStruct_trans_iff matchLength s1 s2 s3 first.1 second.1,
        agreeStructs_trans_iff matchLength rest1 rest2 rest3 first.2 second.2
          (Nat.le_of_succ_le_succ covered)]
termination_by structural x => x

theorem agreeStruct_trans_iff (matchLength : Bool) : ∀ (s1 s2 s3 : StructDescr),
    AgreeStruct reading matchLength s1 s2 → AgreeStruct reading matchLength s2 s3 →
    (AgreeStruct reading matchLength s1 s3 ↔ GapsAgreeStruct reading s1 s2 s3)
  | .mk _ fields1, .mk _ fields2, .mk _ fields3, first, second => by
      rw [AgreeStruct] at first second
      have sizes : matchLength = true → fields1.length = fields3.length := fun bare =>
        (first.2 bare).trans (second.2 bare)
      rw [AgreeStruct, GapsAgreeStruct, and_iff_left sizes]
      exact agreeFields_trans_iff fields1 fields2 fields3 first.1 second.1
termination_by structural x => x

theorem agreeFields_trans_iff : ∀ (fs1 fs2 fs3 : List FieldDescr),
    AgreeFields reading fs1 fs2 → AgreeFields reading fs2 fs3 →
    (AgreeFields reading fs1 fs3 ↔ GapsAgreeFields reading fs1 fs2 fs3)
  | [], [], _, _, _ => by rw [GapsAgreeFields]
  | [], _ :: _, _, _, _ => by simp [AgreeFields, GapsAgreeFields]
  | _ :: _, [], _, _, _ => by rw [GapsAgreeFields]
  | _ :: _, _ :: _, [], _, _ => by simp [AgreeFields, GapsAgreeFields]
  | f1 :: rest1, f2 :: rest2, f3 :: rest3, first, second => by
      rw [AgreeFields] at first second
      rw [AgreeFields, GapsAgreeFields, agreeField_trans_iff f1 f2 f3 first.1 second.1,
        agreeFields_trans_iff rest1 rest2 rest3 first.2 second.2]
termination_by structural x => x

end

/-- **Of three releases accepted one after the other, the third is accepted after the first
exactly if the fields they share and the second lacks agree.** -/
theorem compatible_trans_iff {a b c : StructDescr} {path : List String}
    (ab : validateStruct reading a b path false = .ok ())
    (bc : validateStruct reading b c path false = .ok ()) :
    validateStruct reading a c path false = .ok () ↔ GapsAgreeStruct reading a b c := by
  rw [validateStruct_ok_iff] at ab bc ⊢
  exact agreeStruct_trans_iff false a b c ab bc

/-- A field that is taken back and comes again. -/
theorem compatible_trans_again :
    let one : StructDescr := .mk "s" [.mk "x" none (.uint 8), .mk "y" none (.uint 16)]
    let two : StructDescr := .mk "s" [.mk "x" none (.uint 8)]
    validateStruct .membership one one ["s"] false = .ok () ↔
      GapsAgreeStruct .membership one two one :=
  compatible_trans_iff rfl rfl

/-- **Refuted**, for either reading: a field is removed and replaced by another. -/
theorem compatible_trans_refuted :
    ¬ ∃ reading, ∀ (a b c : StructDescr) (path : List String),
      validateStruct reading a b path false = .ok () →
      validateStruct reading b c path false = .ok () →
      validateStruct reading a c path false = .ok () := by
  rintro ⟨reading, always⟩
  have accepted := always (.mk "s" [.mk "x" none (.uint 8)]) (.mk "s" [])
    (.mk "s" [.mk "x" none (.int 8)]) ["s"] rfl rfl
  cases reading <;> cases accepted

end UdpStuff.Proto.Compat
