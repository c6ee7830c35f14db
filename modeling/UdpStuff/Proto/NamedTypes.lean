/-
# Proto.NamedTypes — the types that struct definitions name

`get_type_name` looks through arrays of any depth, `get_children` through one.  And an
`Enum` class is yielded like a descriptor, but has no `name` to `get_name`, which asks
`isinstance` for a member of an enum where it is given the class.  (A class that has a
member of the name `name` is left out.)

Here a field's `data` says whether the field is an `EnumField` (`enumOf`).  The check is
modelled with enums; behind a check that passes there are none, and counting and ordering
are those of `RenderAll`.

`nothing_missing`: without enums, and with all that arrays in arrays hold also below their
struct by another way, every type that is named stands before the definition.
-/
import UdpStuff.Proto.DuplicateNames
import Mathlib.Algebra.GroupWithZero.Nat

namespace UdpStuff.Proto.RenderAll

set_option autoImplicit false

open UdpStuff.Theory UdpStuff.Theory.References

variable {Data Enum : Type}

/-- What `get_children` yields. -/
inductive Node (Data Enum : Type) where
  | descr (o : DescrObj Data)
  | enum (e : Enum)

/-- What the walk raises. -/
inductive CollectError (Data : Type) where
  | attributeError
  | differentByName (d : DifferentByName Data)
  | keyError (e : KeyError)

variable (enumOf : Data → Option Enum)

/-! ## Children -/

/-- What a field that is no array yields. -/
def yieldNode : FieldDescr Data → Option (Node Data Enum)
  | .mk _ data .other => (enumOf data).map .enum
  | f => (yieldChild f).map .descr

/-- `get_children` -/
def nodeChildren : DescrObj Data → List (Node Data Enum)
  | .struct (.mk _ _ fields) => fields.filterMap fun f => yieldNode enumOf (unwrapArray f)
  | .union (.mk _ _ structs) => structs.map fun struct => .descr (.struct struct)
  | .unionField _ _ union => [.descr (.union union)]

noncomputable def Node.size : Node Data Enum → Nat
  | .descr o => o.size
  | .enum _ => 1

noncomputable def nodesSize (nodes : List (Node Data Enum)) : Nat := (nodes.map Node.size).sum

/-- A node that is yielded, as the enum or the descriptor that it is. -/
theorem yieldNode_some {f : FieldDescr Data} {n : Node Data Enum}
    (yields : yieldNode enumOf f = some n) :
    (∃ name data e, f = .mk name data .other ∧ enumOf data = some e ∧ n = .enum e) ∨
      ∃ o, yieldChild f = some o ∧ n = .descr o := by
  obtain ⟨name, data, cls⟩ := f
  cases cls with
  | other =>
      obtain ⟨e, enum, rfl⟩ := Option.map_eq_some_iff.mp yields
      exact .inl ⟨name, data, e, rfl, enum, rfl⟩
  | array item => cases yields
  | struct struct => cases yields; exact .inr ⟨_, rfl, rfl⟩
  | union union => cases yields; exact .inr ⟨_, rfl, rfl⟩

theorem yieldNode_descr {f : FieldDescr Data} {o : DescrObj Data} :
    yieldNode enumOf f = some (.descr o) ↔ yieldChild f = some o := by
  constructor
  · intro yields
    rcases yieldNode_some enumOf yields with ⟨_, _, _, _, _, other⟩ | ⟨c, child, same⟩
    · cases other
    · cases same
      exact child
  · intro child
    obtain ⟨name, data, cls⟩ := f
    cases cls with
    | struct struct => cases child; rfl
    | union union => cases child; rfl
    | _ => cases child

theorem mem_nodeChildren {o c : DescrObj Data} :
    Node.descr c ∈ nodeChildren enumOf o ↔ c ∈ getChildren o := by
  match o with
  | .struct (.mk _ _ fields) =>
      simp only [nodeChildren, getChildren, List.mem_filterMap, yieldNode_descr]
  | .union (.mk _ _ structs) =>
      simp [nodeChildren, getChildren]
  | .unionField _ _ union =>
      simp [nodeChildren, getChildren]

theorem sizeOf_unwrapArray (f : FieldDescr Data) : sizeOf (unwrapArray f) ≤ sizeOf f := by
  obtain ⟨name, data, cls⟩ := f
  cases cls with
  | array item =>
      simp only [unwrapArray, FieldDescr.mk.sizeOf_spec, FieldClass.array.sizeOf_spec]
      omega
  | _ => exact le_refl _

theorem size_yieldNode {f : FieldDescr Data} {n : Node Data Enum}
    (yields : yieldNode enumOf (unwrapArray f) = some n) : n.size < sizeOf f := by
  rcases yieldNode_some enumOf yields with ⟨name, data, e, shape, -, rfl⟩ | ⟨o, child, rfl⟩
  · have inside := sizeOf_unwrapArray f
    rw [shape, FieldDescr.mk.sizeOf_spec, FieldClass.other.sizeOf_spec] at inside
    rw [Node.size]
    omega
  · exact size_yieldChild child

theorem nodesSize_cons (n : Node Data Enum) (nodes : List (Node Data Enum)) :
    nodesSize (n :: nodes) = n.size + nodesSize nodes := by
  rw [nodesSize, List.map_cons, List.sum_cons, ← nodesSize]

theorem nodesSize_fields (fields : List (FieldDescr Data)) :
    nodesSize (fields.filterMap fun f => yieldNode enumOf (unwrapArray f)) < sizeOf fields := by
  induction fields with
  | nil => simp [nodesSize]
  | cons f rest ih =>
      rw [List.filterMap_cons]
      split
      case h_1 =>
        rw [List.cons.sizeOf_spec]
        omega
      case h_2 n yields =>
        have first := size_yieldNode enumOf yields
        rw [nodesSize_cons, List.cons.sizeOf_spec]
        omega

/-- As without enums, children are smaller than their object, together. -/
theorem nodesSize_nodeChildren (o : DescrObj Data) :
    nodesSize (nodeChildren enumOf o) < o.size := by
  have others (objs : List (DescrObj Data)) :
      nodesSize (objs.map (@Node.descr Data Enum)) = stackSize objs := by
    induction objs with
    | nil => rfl
    | cons o objs ih => rw [List.map_cons, nodesSize_cons, stackSize_cons, ih, Node.size]
  match o with
  | .struct (.mk name data fields) =>
      have inside := nodesSize_fields enumOf fields
      rw [nodeChildren, DescrObj.size, StructDescr.mk.sizeOf_spec]
      omega
  | .union (.mk name data structs) =>
      have inside := stackSize_getChildren (.union (.mk name data structs))
      rw [getChildren, ← others, List.map_map] at inside
      exact inside
  | .unionField name data union =>
      have inside := stackSize_getChildren (.unionField name data union)
      rw [getChildren, ← others] at inside
      exact inside

theorem nodesSize_pushed {o : DescrObj Data} (objsStack : List (Node Data Enum)) :
    nodesSize ((nodeChildren enumOf o).reverse ++ objsStack) <
      nodesSize (Node.descr o :: objsStack) := by
  have inside := nodesSize_nodeChildren enumOf o
  rw [nodesSize_cons, nodesSize, List.map_append, List.sum_append, List.map_reverse,
    List.sum_reverse, ← nodesSize, ← nodesSize, Node.size]
  omega

/-! ## The check with enums -/

section Comparison

variable [DecidableEq Data]

/-- `validate_duplicates`: the first enum that it comes to has no name. -/
def validateNodes : (objsStack : List (Node Data Enum)) → (objsByName : List (DescrObj Data)) →
    Except (CollectError Data) Unit
  | [], _ => .ok ()
  | .enum _ :: _, _ => .error .attributeError
  | .descr o :: objsStack, objsByName =>
    match objsByName.find? fun other => getName other = getName o with
    | some other =>
      if ¬ o.same other then .error (.differentByName ⟨getName o, o, other⟩)
      else validateNodes objsStack objsByName
    | none => validateNodes ((nodeChildren enumOf o).reverse ++ objsStack) (o :: objsByName)
termination_by objsStack => nodesSize objsStack
decreasing_by
  · have positive := size_pos o
    rw [nodesSize_cons, Node.size]
    omega
  · exact nodesSize_pushed enumOf objsStack

/-- The order of `render_proto`. -/
def collect (headDescrs : List (DescrObj Data)) : Except (CollectError Data) (List (DescrObj Data)) :=
  match validateNodes enumOf (headDescrs.map .descr).reverse [] with
  | .error e => .error e
  | .ok () =>
    match orderDescrs headDescrs (countEntries headDescrs) with
    | .error e => .error (.keyError e)
    | .ok order => .ok order

end Comparison

/-! ## Named types -/

/-- The struct, union or enum of a field's type, which `get_type_name` names. -/
def namedType : FieldDescr Data → Option (Node Data Enum)
  | .mk _ data .other => (enumOf data).map .enum
  | .mk _ _ (.array item) => namedType item
  | .mk _ _ (.struct struct) => some (.descr (.struct struct))
  | .mk _ _ (.union union) => some (.descr (.union union))

/-- The field whose enum class stands before a union field's type. -/
def namedEnumClass : FieldDescr Data → Option (Node Data Enum)
  | .mk name data (.union union) => some (.descr (.unionField name data union))
  | _ => none

def fieldNames (f : FieldDescr Data) : List (Node Data Enum) :=
  (namedEnumClass f).toList ++ (namedType enumOf f).toList

/-- What the definition of `render_struct` names. -/
def namedTypes : DescrObj Data → List (Node Data Enum)
  | .struct (.mk _ _ fields) => fields.flatMap (fieldNames enumOf)
  | _ => []

/-- An array of arrays. -/
def NestedArray : FieldDescr Data → Prop
  | .mk _ _ (.array (.mk _ _ (.array _))) => True
  | _ => False

/-! ## What the check finds -/

noncomputable def nodes : References (Node Data Enum) (Option String) where
  key
    | .descr o => some (getName o)
    | .enum _ => none
  children
    | .descr o => nodeChildren enumOf o
    | .enum _ => []
  size := Node.size
  smaller := by
    intro n c member
    cases n with
    | enum e => cases member
    | descr o =>
        have inside := nodesSize_nodeChildren enumOf o
        change c ∈ nodeChildren enumOf o at member
        obtain ⟨front, back, here⟩ := List.append_of_mem member
        rw [here, nodesSize, List.map_append, List.sum_append, List.map_cons,
          List.sum_cons] at inside
        simp only [Node.size] at inside ⊢
        omega

/-- Descriptors are reached as they are without enums. -/
theorem reachable_descr {startObjs : List (DescrObj Data)} {o : DescrObj Data} :
    (nodes enumOf).Reachable (startObjs.map .descr) (.descr o) ↔ Reachable startObjs o := by
  constructor
  · intro reached
    obtain ⟨n, same⟩ : ∃ n, n = @Node.descr Data Enum o := ⟨_, rfl⟩
    rw [← same] at reached
    induction reached generalizing o with
    | head member =>
        subst same
        obtain ⟨c, head, same⟩ := List.mem_map.mp member
        cases same
        exact .head head
    | @child p c parent member ih =>
        subst same
        cases p with
        | enum e => cases member
        | descr q => exact .child (ih rfl) ((mem_nodeChildren enumOf).mp member)
  · intro reached
    induction reached with
    | head member => exact .head (List.mem_map_of_mem member)
    | child parent member ih => exact .child ih ((mem_nodeChildren enumOf).mpr member)

/-- An enum is reached from a descriptor that yields it. -/
theorem reachable_enum {startObjs : List (DescrObj Data)} {e : Enum}
    (reached : (nodes enumOf).Reachable (startObjs.map .descr) (.enum e)) :
    ∃ o, Reachable startObjs o ∧ .enum e ∈ nodeChildren enumOf o := by
  cases reached with
  | head member =>
      obtain ⟨c, -, same⟩ := List.mem_map.mp member
      cases same
  | @child p _ parent member =>
      cases p with
      | enum e => cases member
      | descr o => exact ⟨o, (reachable_descr enumOf).mp parent, member⟩

section Comparison

variable [DecidableEq Data]

/-- A check that passes has found descriptors only, and one that does not has come to an enum,
or to a clash. -/
theorem validateNodes_outcome {startObjs : List (DescrObj Data)}
    (objsStack : List (Node Data Enum)) (objsByName : List (DescrObj Data))
    (state : (nodes enumOf).Collecting (startObjs.map .descr) objsStack (objsByName.map .descr)) :
    match validateNodes enumOf objsStack objsByName with
    | .ok () => ∃ found : List (DescrObj Data),
      (nodes enumOf).Reached (startObjs.map .descr) (found.map .descr)
    | .error _ => (∃ e, (nodes enumOf).Reachable (startObjs.map .descr) (.enum e)) ∨
      NameClash startObjs := by
  induction objsStack, objsByName using validateNodes.induct enumOf with
  | case1 objsByName =>
      rw [validateNodes]
      exact ⟨objsByName, state.finish⟩
  | case2 objsByName e objsStack =>
      rw [validateNodes]
      exact .inl ⟨e, state.sound _ (.inr List.mem_cons_self)⟩
  | case3 o objsStack objsByName other found differs =>
      have here := state.sound _ (.inr List.mem_cons_self)
      have there := state.sound _ (.inl (List.mem_map_of_mem (List.mem_of_find?_eq_some found)))
      rw [validateNodes, found]
      dsimp only
      rw [if_pos differs]
      exact .inr ⟨o, other, (reachable_descr enumOf).mp here, (reachable_descr enumOf).mp there,
        differ_of_found found differs⟩
  | case4 o objsStack objsByName other found same ih =>
      rw [validateNodes, found]
      dsimp only
      rw [if_neg same]
      exact ih (state.skip (List.mem_map_of_mem (mem_of_found_same found same)))
  | case5 o objsStack objsByName missing ih =>
      have new : some (getName o) ∉ (objsByName.map .descr).map (nodes enumOf).key := by
        simpa [nodes] using missing
      rw [validateNodes, missing]
      exact ih (state.expand new (List.reverse_perm (nodeChildren enumOf o)))

/-- **The walk succeeds** if and only if it comes to no enum and to no clash; the order is then
that of all descriptors, children first. -/
theorem collect_ok_iff {startObjs : List (DescrObj Data)} :
    (∃ order, collect enumOf startObjs = .ok order) ↔
      (∀ e, ¬ (nodes enumOf).Reachable (startObjs.map .descr) (.enum e)) ∧
        ¬ NameClash startObjs := by
  have start : (nodes enumOf).Collecting (startObjs.map .descr) (startObjs.map .descr).reverse
      (([] : List (DescrObj Data)).map .descr) := .start (List.reverse_perm _)
  have checked := validateNodes_outcome enumOf _ _ start
  rw [collect]
  cases outcome : validateNodes enumOf (startObjs.map .descr).reverse [] with
  | error e =>
      rw [outcome] at checked
      constructor
      · rintro ⟨order, failed⟩
        cases failed
      · rintro ⟨enums, none⟩
        rcases checked with ⟨enum, reached⟩ | clash
        · exact absurd reached (enums enum)
        · exact absurd clash none
  | ok =>
      rw [outcome] at checked
      obtain ⟨found, all⟩ := checked
      have enums (e : Enum) : ¬ (nodes enumOf).Reachable (startObjs.map .descr) (.enum e) := by
        intro reached
        obtain ⟨o, -, same⟩ := List.mem_map.mp ((all.mem_iff _).mpr reached)
        cases same
      have none : ¬ NameClash startObjs := by
        rintro ⟨o, other, here, there, same, differ⟩
        have equal := all.eq_of_key ((all.mem_iff _).mpr ((reachable_descr enumOf).mpr here))
          ((all.mem_iff _).mpr ((reachable_descr enumOf).mpr there)) (congrArg some same)
        cases equal
        exact differ rfl
      obtain ⟨order, ordered, -⟩ := orderDescrs_reached (validateDuplicates_of_no_clash none)
      rw [ordered]
      exact ⟨fun _ => ⟨enums, none⟩, fun _ => ⟨order, rfl⟩⟩

theorem collect_order {startObjs order : List (DescrObj Data)}
    (collected : collect enumOf startObjs = .ok order) :
    (descrs Data).Reached startObjs order ∧
      ∀ before o after, order = before ++ o :: after → ∀ c ∈ getChildren o, c ∈ before := by
  have none := ((collect_ok_iff enumOf).mp ⟨order, collected⟩).2
  obtain ⟨same, ordered, all, first⟩ :=
    orderDescrs_reached (validateDuplicates_of_no_clash none)
  rw [collect, ordered] at collected
  split at collected
  · cases collected
  · cases collected
    exact ⟨all, first⟩

end Comparison

/-! ## Named types below their struct -/

/-- A field that is no array of arrays names what it yields, or the union of that. -/
theorem yieldChild_of_named {f : FieldDescr Data} (flat : ¬ NestedArray f) {c : DescrObj Data}
    (named : namedType enumOf f = some (.descr c)) :
    ∃ o, yieldChild (unwrapArray f) = some o ∧ (c = o ∨ c ∈ getChildren o) := by
  have whole {f : FieldDescr Data} (named : namedType enumOf f = some (.descr c))
      (other : ∀ name data item, f ≠ .mk name data (.array item)) :
      ∃ o, yieldChild f = some o ∧ (c = o ∨ c ∈ getChildren o) := by
    obtain ⟨name, data, cls⟩ := f
    cases cls with
    | other =>
        obtain ⟨e, -, same⟩ := Option.map_eq_some_iff.mp named
        cases same
    | array item => exact absurd rfl (other name data item)
    | struct struct =>
        cases named
        exact ⟨_, rfl, .inl rfl⟩
    | union union =>
        cases named
        exact ⟨_, rfl, .inr (List.mem_singleton.mpr rfl)⟩
  obtain ⟨name, data, cls⟩ := f
  cases cls with
  | array item =>
      refine whole named fun name data inner same => flat ?_
      subst same
      trivial
  | _ => exact whole named fun _ _ _ same => nomatch same

/-- A field that yields an enum names it. -/
theorem namedType_of_yieldNode {f : FieldDescr Data} {e : Enum}
    (yields : yieldNode enumOf (unwrapArray f) = some (.enum e)) :
    namedType enumOf f = some (.enum e) := by
  rcases yieldNode_some enumOf yields with ⟨name, data, e, shape, enum, same⟩ | ⟨o, -, other⟩
  · cases same
    have inner : namedType enumOf (FieldDescr.mk name data .other) = some (.enum e) := by
      rw [namedType, enum]
      rfl
    obtain ⟨outerName, outerData, cls⟩ := f
    cases cls with
    | array item =>
        rw [unwrapArray] at shape
        rw [namedType, shape, inner]
    | other =>
        rw [unwrapArray] at shape
        · rw [shape, inner]
        · intro _ _ _ same
          cases same
    | struct struct => cases shape
    | union union => cases shape
  · cases other

theorem named_of_child {o : DescrObj Data} {e : Enum} (child : .enum e ∈ nodeChildren enumOf o) :
    .enum e ∈ namedTypes enumOf o := by
  match o with
  | .struct (.mk name data fields) =>
      obtain ⟨f, member, yields⟩ := List.mem_filterMap.mp child
      refine List.mem_flatMap.mpr ⟨f, member, List.mem_append_right _ ?_⟩
      rw [namedType_of_yieldNode enumOf yields]
      exact List.mem_singleton.mpr rfl
  | .union (.mk name data structs) =>
      obtain ⟨struct, -, same⟩ := List.mem_map.mp child
      cases same
  | .unionField name data union => cases List.mem_singleton.mp child

/-- No enums, and nothing that only arrays in arrays hold. -/
structure NamedBelow (startObjs : List (DescrObj Data)) : Prop where
  enums : ∀ o e, Reachable startObjs o → .enum e ∉ namedTypes enumOf o
  nested : ∀ name data fields, Reachable startObjs (.struct (.mk name data fields)) →
    ∀ f ∈ fields, NestedArray f → ∀ c, namedType enumOf f = some (.descr c) →
      Reachable (getChildren (.struct (.mk name data fields))) c

variable {enumOf}

theorem NamedBelow.below {startObjs : List (DescrObj Data)} (named : NamedBelow enumOf startObjs)
    {o : DescrObj Data} (reached : Reachable startObjs o) {n : Node Data Enum}
    (member : n ∈ namedTypes enumOf o) : ∃ c, n = .descr c ∧ Reachable (getChildren o) c := by
  cases n with
  | enum e => exact absurd member (named.enums o e reached)
  | descr c =>
      refine ⟨c, rfl, ?_⟩
      match o with
      | .union _ => exact absurd member List.not_mem_nil
      | .unionField _ _ _ => exact absurd member List.not_mem_nil
      | .struct (.mk name data fields) =>
          obtain ⟨f, field, inside⟩ := List.mem_flatMap.mp member
          rcases List.mem_append.mp inside with enumClass | type
          · -- the field itself is a child
            obtain ⟨fieldName, fieldData, cls⟩ := f
            cases cls with
            | union union =>
                cases List.mem_singleton.mp enumClass
                exact .head (List.mem_filterMap.mpr ⟨_, field, rfl⟩)
            | _ => exact absurd enumClass List.not_mem_nil
          · rw [Option.mem_toList] at type
            by_cases nested : NestedArray f
            · exact named.nested name data fields reached f field nested c type
            · obtain ⟨o, yields, here⟩ := yieldChild_of_named enumOf nested type
              have child : o ∈ getChildren (.struct (.mk name data fields)) :=
                List.mem_filterMap.mpr ⟨f, field, yields⟩
              rcases here with rfl | below
              · exact .head child
              · exact .child (.head child) below

/-- What is below an object stands before it. -/
theorem before_of_below {order : List (DescrObj Data)}
    (first : ∀ before o after, order = before ++ o :: after → ∀ c ∈ getChildren o, c ∈ before)
    {before after : List (DescrObj Data)} {o c : DescrObj Data}
    (here : order = before ++ o :: after) (below : Reachable (getChildren o) c) : c ∈ before := by
  induction below with
  | head member => exact first before o after here _ member
  | @child p c parent member ih =>
      obtain ⟨front, back, split⟩ := List.append_of_mem ih
      have earlier := first front p (back ++ o :: after)
        (by rw [here, split, List.append_assoc, List.cons_append]) c member
      rw [split]
      exact List.mem_append_left _ earlier

/-! ## Nothing is missing -/

variable (enumOf) [DecidableEq Data]

/-- Unless names clash, there is an order, with every type that a struct names before it. -/
def Complete (startObjs : List (DescrObj Data)) : Prop :=
  NameClash startObjs ∨ ∃ order, collect enumOf startObjs = .ok order ∧
    ∀ before o after, order = before ++ o :: after →
      ∀ n ∈ namedTypes enumOf o, ∃ c ∈ before, n = .descr c

theorem NamedBelow.complete {startObjs : List (DescrObj Data)}
    (named : NamedBelow enumOf startObjs) : Complete enumOf startObjs := by
  by_cases clash : NameClash startObjs
  · exact .inl clash
  · have enums (e : Enum) : ¬ (nodes enumOf).Reachable (startObjs.map .descr) (.enum e) := by
      intro reached
      obtain ⟨o, there, child⟩ := reachable_enum enumOf reached
      exact named.enums o e there (named_of_child enumOf child)
    obtain ⟨order, collected⟩ := (collect_ok_iff enumOf).mpr ⟨enums, clash⟩
    obtain ⟨all, first⟩ := collect_order enumOf collected
    refine .inr ⟨order, collected, fun before o after here n member => ?_⟩
    have there : o ∈ order := by
      rw [here]
      exact List.mem_append_right _ List.mem_cons_self
    obtain ⟨c, same, below⟩ := named.below ((all.mem_iff o).mp there) member
    exact ⟨c, before_of_below first here below, same⟩

theorem Complete.reachable {startObjs : List (DescrObj Data)} (complete : Complete enumOf startObjs) :
    NameClash startObjs ∨ ∀ o, Reachable startObjs o → ∀ n ∈ namedTypes enumOf o,
      ∃ c, n = .descr c ∧ Reachable startObjs c := by
  rcases complete with clash | ⟨order, collected, named⟩
  · exact .inl clash
  · obtain ⟨all, -⟩ := collect_order enumOf collected
    refine .inr fun o reached n member => ?_
    obtain ⟨before, after, here⟩ := List.append_of_mem ((all.mem_iff o).mpr reached)
    obtain ⟨c, there, same⟩ := named before o after here n member
    refine ⟨c, same, (all.mem_iff c).mp ?_⟩
    rw [here]
    exact List.mem_append_left _ there

/-- **Nothing that is named is missing** if no enum is named and what arrays in arrays hold is
also below their struct by another way.  Where nothing is missing, no enum is named, and
what arrays in arrays hold is reached from somewhere. -/
theorem nothing_missing (startObjs : List (DescrObj Data)) :
    (NamedBelow enumOf startObjs → Complete enumOf startObjs) ∧
      (Complete enumOf startObjs → NameClash startObjs ∨ ∀ o, Reachable startObjs o →
        ∀ n ∈ namedTypes enumOf o, ∃ c, n = .descr c ∧ Reachable startObjs c) :=
  ⟨NamedBelow.complete enumOf, Complete.reachable enumOf⟩

/-- **Refuted**: a struct in an array in an array is not collected. -/
theorem nothing_missing_refuted : ¬ ∀ (enumOf : Unit → Option Unit) (struct : StructDescr Unit),
    Complete enumOf [.struct struct] := by
  intro always
  let inner : StructDescr Unit := .mk "inner" () []
  let outer : StructDescr Unit := .mk "outer" ()
    [.mk "rows" () (.array (.mk "row" () (.array (.mk "cell" () (.struct inner)))))]
  have only {o : DescrObj Unit} (reached : Reachable [.struct outer] o) : o = .struct outer := by
    induction reached with
    | head member => exact List.mem_singleton.mp member
    | child parent member ih =>
        subst ih
        cases member
  rcases (always (fun _ => none) outer).reachable with ⟨o, other, here, there, -, differ⟩ | all
  · exact differ ((only here).trans (only there).symm)
  · obtain ⟨c, same, reached⟩ := all (.struct outer) (.head (List.mem_singleton.mpr rfl))
      (.descr (.struct inner)) (by simp [outer, namedTypes, fieldNames, namedEnumClass, namedType])
    cases same
    exact absurd (congrArg getName (only reached)) (by simp [inner, outer, getName])

end UdpStuff.Proto.RenderAll
