/-
# Proto.Definitions — the types that a header of `render_proto` defines

The header has one block for each object of the order: a struct's defines the struct, a
union field's the enum class and the union of its union, a union's nothing.  Objects are
told apart by their names, which for a union field is the field's.

`defined_once_iff`: a type is defined twice if a union is in fields of two names, and if
a struct or a union has the name of another union's enum class.  Nothing else repeats.
-/
import Mathlib.Data.List.Pairwise
import UdpStuff.Proto.RenderAll

namespace UdpStuff.Proto.RenderAll

set_option autoImplicit false

open UdpStuff.Theory UdpStuff.Theory.References

variable {Data : Type}

/-- The names that `render_struct`, or `render_union_enum` and `render_union`, define. -/
def definedTypes : DescrObj Data → List String
  | .struct struct => [getName (.struct struct)]
  | .union _ => []
  | .unionField _ _ union => [getName (.union union) ++ "_enum_class", getName (.union union)]

/-- The definitions of `render_proto`'s header. -/
def headerTypes (orderedObjs : List (DescrObj Data)) : List String :=
  orderedObjs.flatMap definedTypes

/-- What different names of objects do not settle. -/
structure DefinedApart (startObjs : List (DescrObj Data)) : Prop where
  /-- All fields of a union have one name. -/
  fields : ∀ name1 data1 union1 name2 data2 union2,
    Reachable startObjs (.unionField name1 data1 union1) →
    Reachable startObjs (.unionField name2 data2 union2) →
    getName (.union union1) = getName (.union union2) → name1 = name2
  /-- No struct is named like an enum class. -/
  structs : ∀ name data union struct, Reachable startObjs (.unionField name data union) →
    Reachable startObjs (.struct struct) →
    getName (.struct struct) ≠ getName (.union union) ++ "_enum_class"
  /-- No union of a field is named like an enum class. -/
  unions : ∀ name1 data1 union1 name2 data2 union2,
    Reachable startObjs (.unionField name1 data1 union1) →
    Reachable startObjs (.unionField name2 data2 union2) →
    getName (.union union2) ≠ getName (.union union1) ++ "_enum_class"

theorem ne_enumClass (name : String) : name ≠ name ++ "_enum_class" := by
  intro same
  have longer := congrArg String.length same
  rw [String.length_append] at longer
  exact absurd longer (by simp)

theorem definedTypes_nodup (o : DescrObj Data) : (definedTypes o).Nodup := by
  cases o with
  | struct struct => exact List.nodup_singleton _
  | union union => exact List.nodup_nil
  | unionField name data union =>
      simp [definedTypes]

/-- No type is defined twice if no two objects define it. -/
theorem headerTypes_nodup_iff {startObjs order : List (DescrObj Data)}
    (all : (descrs Data).Reached startObjs order) :
    (headerTypes order).Nodup ↔ ∀ o c type, Reachable startObjs o → Reachable startObjs c →
      type ∈ definedTypes o → type ∈ definedTypes c → o = c := by
  have each : ∀ o ∈ order, (definedTypes o).Nodup := fun o _ => definedTypes_nodup o
  rw [headerTypes, List.nodup_flatMap]
  constructor
  · rintro ⟨-, apart⟩ o c type first second inside also
    have symmetric : Std.Symm (Function.onFun List.Disjoint (definedTypes : DescrObj Data → _)) :=
      ⟨fun _ _ disjoint => disjoint.symm⟩
    by_contra differ
    exact apart.forall ((all.mem_iff o).mpr first) ((all.mem_iff c).mpr second) differ inside also
  · intro once
    refine ⟨each, all.nodup.pairwise_of_forall_ne fun o first c second differ type inside also => ?_⟩
    exact differ (once o c type ((all.mem_iff o).mp first) ((all.mem_iff c).mp second) inside also)

/-- The union of a field is reached with it. -/
theorem reachable_union {startObjs : List (DescrObj Data)} {name : String} {data : Data}
    {union : UnionDescr Data} (field : Reachable startObjs (.unionField name data union)) :
    Reachable startObjs (.union union) :=
  .child field (List.mem_singleton.mpr rfl)

/-- If no two objects define a type, they are apart. -/
theorem definedApart_of_once {startObjs : List (DescrObj Data)}
    (once : ∀ o c type, Reachable startObjs o → Reachable startObjs c →
      type ∈ definedTypes o → type ∈ definedTypes c → o = c) : DefinedApart startObjs where
  fields name1 data1 union1 name2 data2 union2 first second same := by
    have one := once _ _ (getName (.union union1)) first second (by simp [definedTypes])
      (by simp [definedTypes, same])
    exact congrArg getName one
  structs name data union struct first second same := by
    have one := once _ _ (getName (.struct struct)) first second (by simp [definedTypes, same])
      (by simp [definedTypes])
    cases one
  unions name1 data1 union1 name2 data2 union2 first second same := by
    have one := once _ _ (getName (.union union2)) first second (by simp [definedTypes, same])
      (by simp [definedTypes])
    cases one
    exact ne_enumClass _ same

/-- Two union fields that define a type are one, if they are apart. -/
theorem unionField_eq {startObjs order : List (DescrObj Data)}
    (all : (descrs Data).Reached startObjs order) (apart : DefinedApart startObjs)
    {name1 name2 type : String} {data1 data2 : Data} {union1 union2 : UnionDescr Data}
    (first : Reachable startObjs (.unionField name1 data1 union1))
    (second : Reachable startObjs (.unionField name2 data2 union2))
    (inside : type ∈ definedTypes (.unionField name1 data1 union1))
    (also : type ∈ definedTypes (.unionField name2 data2 union2)) :
    DescrObj.unionField name1 data1 union1 = .unionField name2 data2 union2 := by
  have one (same : getName (.union union1) = getName (.union union2)) :
      DescrObj.unionField name1 data1 union1 = .unionField name2 data2 union2 :=
    all.eq_of_key ((all.mem_iff _).mpr first) ((all.mem_iff _).mpr second)
      (apart.fields _ _ _ _ _ _ first second same)
  simp only [definedTypes, List.mem_cons, List.not_mem_nil, or_false] at inside also
  rcases inside with rfl | rfl
  · rcases also with enums | other
    · exact one ((String.append_left_inj _).mp enums)
    · exact absurd other.symm (apart.unions _ _ _ _ _ _ first second)
  · rcases also with other | unions
    · exact absurd other (apart.unions _ _ _ _ _ _ second first)
    · exact one unions

/-- A struct has neither name that a union field defines. -/
theorem struct_not_defined {startObjs order : List (DescrObj Data)}
    (all : (descrs Data).Reached startObjs order) (apart : DefinedApart startObjs)
    {name type : String} {data : Data} {union : UnionDescr Data} {struct : StructDescr Data}
    (field : Reachable startObjs (.unionField name data union))
    (other : Reachable startObjs (.struct struct))
    (inside : type ∈ definedTypes (.unionField name data union)) :
    type ∉ definedTypes (.struct struct) := by
  intro also
  rw [definedTypes, List.mem_singleton] at also
  simp only [definedTypes, List.mem_cons, List.not_mem_nil, or_false] at inside
  rcases inside with enums | unions
  · exact apart.structs _ _ _ _ field other (also.symm.trans enums)
  · have same := all.eq_of_key ((all.mem_iff _).mpr other)
      ((all.mem_iff _).mpr (reachable_union field)) (also.symm.trans unions)
    cases same

theorem once_of_definedApart {startObjs order : List (DescrObj Data)}
    (all : (descrs Data).Reached startObjs order) (apart : DefinedApart startObjs)
    (o c : DescrObj Data) (type : String) (first : Reachable startObjs o)
    (second : Reachable startObjs c) (inside : type ∈ definedTypes o)
    (also : type ∈ definedTypes c) : o = c := by
  cases o with
  | union union => exact absurd inside List.not_mem_nil
  | struct struct =>
      cases c with
      | union union => exact absurd also List.not_mem_nil
      | struct other =>
          rw [definedTypes, List.mem_singleton] at inside also
          exact all.eq_of_key ((all.mem_iff _).mpr first) ((all.mem_iff _).mpr second)
            (inside.symm.trans also)
      | unionField name data union =>
          exact absurd inside (struct_not_defined all apart second first also)
  | unionField name data union =>
      cases c with
      | union union => exact absurd also List.not_mem_nil
      | struct struct => exact absurd also (struct_not_defined all apart first second inside)
      | unionField name2 data2 union2 => exact unionField_eq all apart first second inside also

/-- **One definition for each type**: the header of accepted heads has it if and only if a union's
fields have one name and no struct or union is named like an enum class. -/
theorem defined_once_iff [DecidableEq Data] {headDescrs : List (DescrObj Data)}
    (accepted : validateDuplicates headDescrs = .ok ()) :
    ∃ orderedObjs, orderDescrs headDescrs (countEntries headDescrs) = .ok orderedObjs ∧
      ((headerTypes orderedObjs).Nodup ↔ DefinedApart headDescrs) := by
  obtain ⟨order, ordered, all, -⟩ := orderDescrs_reached accepted
  refine ⟨order, ordered, (headerTypes_nodup_iff all).trans ⟨definedApart_of_once, ?_⟩⟩
  exact once_of_definedApart all

/-- A union in two fields, under the same name in both structs. -/
theorem defined_once_two_structs :
    let union : UnionDescr Unit := .mk "either" () [.mk "leaf" () []]
    let heads : List (DescrObj Unit) := [.struct (.mk "one" () [.mk "u" () (.union union)]),
      .struct (.mk "two" () [.mk "u" () (.union union)])]
    ∃ orderedObjs, orderDescrs heads (countEntries heads) = .ok orderedObjs ∧
      ((headerTypes orderedObjs).Nodup ↔ DefinedApart heads) :=
  defined_once_iff (by
    simp [validateDuplicates, validateLoop, getChildren, getName, yieldChild,
      unwrapArray, DescrObj.same, sameUnion, sameFields, sameStruct, sameStructs])

/-- One struct with a union in two fields. -/
def twoFields : List (DescrObj Unit) :=
  let union : UnionDescr Unit := .mk "either" () [.mk "leaf" () []]
  [.struct (.mk "pair" () [.mk "a" () (.union union), .mk "b" () (.union union)])]

/-- **Refuted**: the fields have different names, and each defines the union. -/
theorem defined_once_refuted : ¬ ∀ headDescrs orderedObjs : List (DescrObj Unit),
    validateDuplicates headDescrs = .ok () →
    orderDescrs headDescrs (countEntries headDescrs) = .ok orderedObjs →
    (headerTypes orderedObjs).Nodup := by
  intro always
  have accepted : validateDuplicates twoFields = .ok () := by
    simp [validateDuplicates, validateLoop, twoFields, getChildren, getName, yieldChild,
      unwrapArray, DescrObj.same, sameUnion, sameFields, sameStruct, sameStructs]
  obtain ⟨order, ordered, all, -⟩ := orderDescrs_reached accepted
  have apart := definedApart_of_once ((headerTypes_nodup_iff all).mp (always _ order accepted ordered))
  have top : Reachable twoFields (.struct _) := .head (List.mem_singleton.mpr rfl)
  have first : Reachable twoFields (.unionField "a" () _) :=
    .child top (List.mem_cons_self)
  have second : Reachable twoFields (.unionField "b" () _) :=
    .child top (List.mem_cons_of_mem _ List.mem_cons_self)
  exact absurd (apart.fields _ _ _ _ _ _ first second rfl) (by decide)

end UdpStuff.Proto.RenderAll
