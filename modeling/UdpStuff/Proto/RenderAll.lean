/-
# Proto.RenderAll — the order in which `render_all.py` puts out descriptors

The objects are structs, unions and fields that hold a union; an object's children are
what it is built from.  `validate_duplicates`, `count_entries` and `order_descrs` each
work a stack down; all three end because children are smaller than what they are in.

Of an object only the name and what is inside are looked into, everything else (its
class, its widths and prefixes, the default, the description) only compared: `Data`.
Fields of enums are left out; an `Enum` class has no `name`.

`order_descrs_children_first`: heads that pass the check are put out with everything
below them, each name once and after its children.
-/
import UdpStuff.Theory.CountedOrder

namespace UdpStuff.Proto.RenderAll

set_option autoImplicit false

open UdpStuff.Theory UdpStuff.Theory.References

/-! ## Descriptors -/

mutual

inductive FieldDescr (Data : Type) where
  | mk (name : String) (data : Data) (cls : FieldClass Data)

/-- The classes with a descriptor inside, and the others. -/
inductive FieldClass (Data : Type) where
  | other
  | array (item : FieldDescr Data)
  | struct (struct : StructDescr Data)
  | union (union : UnionDescr Data)

inductive StructDescr (Data : Type) where
  | mk (name : String) (data : Data) (fields : List (FieldDescr Data))

inductive UnionDescr (Data : Type) where
  | mk (name : String) (data : Data) (structs : List (StructDescr Data))

end

/-- `DescrObjType`, and the `UnionField`s. -/
inductive DescrObj (Data : Type) where
  | struct (struct : StructDescr Data)
  | union (union : UnionDescr Data)
  | unionField (name : String) (data : Data) (union : UnionDescr Data)

variable {Data : Type}

def getName : DescrObj Data → String
  | .struct (.mk name _ _) => name
  | .union (.mk name _ _) => name
  | .unionField name _ _ => name

/-- `f.item`, of an array. -/
def unwrapArray : FieldDescr Data → FieldDescr Data
  | .mk _ _ (.array item) => item
  | f => f

/-- What a field that is no array yields. -/
def yieldChild : FieldDescr Data → Option (DescrObj Data)
  | .mk _ _ (.struct struct) => some (.struct struct)
  | .mk name data (.union union) => some (.unionField name data union)
  | _ => none

def getChildren : DescrObj Data → List (DescrObj Data)
  | .struct (.mk _ _ fields) => fields.filterMap fun f => yieldChild (unwrapArray f)
  | .union (.mk _ _ structs) => structs.map .struct
  | .unionField _ _ union => [.union union]

/-! ## Sizes -/

noncomputable def DescrObj.size : DescrObj Data → Nat
  | .struct s => sizeOf s
  | .union u => sizeOf u
  | .unionField _ _ u => 1 + sizeOf u

/-- What is left to be worked down. -/
noncomputable def stackSize : List (DescrObj Data) → Nat
  | [] => 0
  | o :: objsStack => o.size + stackSize objsStack

theorem stackSize_cons (o : DescrObj Data) (objsStack : List (DescrObj Data)) :
    stackSize (o :: objsStack) = o.size + stackSize objsStack := by
  rw [stackSize]

theorem stackSize_append (objs objsStack : List (DescrObj Data)) :
    stackSize (objs ++ objsStack) = stackSize objs + stackSize objsStack := by
  induction objs with
  | nil => simp [stackSize]
  | cons o objs ih => rw [List.cons_append, stackSize_cons, stackSize_cons, ih, Nat.add_assoc]

theorem stackSize_perm {objs others : List (DescrObj Data)} (same : objs.Perm others) :
    stackSize objs = stackSize others := by
  induction same with
  | nil => rfl
  | cons o _ ih => rw [stackSize_cons, stackSize_cons, ih]
  | swap o o' objs =>
      simp only [stackSize_cons]
      exact Nat.add_left_comm _ _ _
  | trans _ _ first second => exact first.trans second

theorem size_yieldChild {f : FieldDescr Data} {o : DescrObj Data}
    (yields : yieldChild (unwrapArray f) = some o) : o.size < sizeOf f := by
  have whole {f : FieldDescr Data} (yields : yieldChild f = some o) : o.size < sizeOf f := by
    obtain ⟨name, data, cls⟩ := f
    cases cls with
    | struct struct =>
        cases yields
        simp only [DescrObj.size, FieldDescr.mk.sizeOf_spec, FieldClass.struct.sizeOf_spec]
        omega
    | union union =>
        cases yields
        simp only [DescrObj.size, FieldDescr.mk.sizeOf_spec, FieldClass.union.sizeOf_spec]
        omega
    | _ => cases yields
  obtain ⟨name, data, cls⟩ := f
  cases cls with
  | array item =>
      have inside : o.size < sizeOf item := whole yields
      simp only [FieldDescr.mk.sizeOf_spec, FieldClass.array.sizeOf_spec]
      omega
  | _ => exact whole yields

theorem stackSize_fields (fields : List (FieldDescr Data)) :
    stackSize (fields.filterMap fun f => yieldChild (unwrapArray f)) < sizeOf fields := by
  induction fields with
  | nil => simp [stackSize]
  | cons f rest ih =>
      rw [List.filterMap_cons]
      split
      case h_1 =>
        rw [List.cons.sizeOf_spec]
        omega
      case h_2 o yields =>
        have first := size_yieldChild yields
        rw [stackSize_cons, List.cons.sizeOf_spec]
        omega

theorem stackSize_structs (structs : List (StructDescr Data)) :
    stackSize (structs.map DescrObj.struct) < sizeOf structs := by
  induction structs with
  | nil => simp [stackSize]
  | cons struct rest ih =>
      rw [List.map_cons, stackSize_cons, DescrObj.size, List.cons.sizeOf_spec]
      omega

/-- All children of an object are smaller than the object, together. -/
theorem stackSize_getChildren (o : DescrObj Data) : stackSize (getChildren o) < o.size := by
  match o with
  | .struct (.mk name data fields) =>
      have inside := stackSize_fields fields
      rw [getChildren, DescrObj.size, StructDescr.mk.sizeOf_spec]
      omega
  | .union (.mk name data structs) =>
      have inside := stackSize_structs structs
      rw [getChildren, DescrObj.size, UnionDescr.mk.sizeOf_spec]
      omega
  | .unionField name data union =>
      simp [getChildren, stackSize, DescrObj.size]

theorem size_child (o c : DescrObj Data) (member : c ∈ getChildren o) : c.size < o.size := by
  have inside := stackSize_getChildren o
  obtain ⟨front, back, here⟩ := List.append_of_mem member
  rw [here, stackSize_append, stackSize_cons] at inside
  omega

/-- Children pushed in place of their object. -/
theorem stackSize_pushed {o : DescrObj Data} {pushed : List (DescrObj Data)}
    (same : pushed.Perm (getChildren o)) (objsStack : List (DescrObj Data)) :
    stackSize (pushed ++ objsStack) < stackSize (o :: objsStack) := by
  have inside := stackSize_getChildren o
  rw [stackSize_append, stackSize_cons, stackSize_perm same]
  omega

theorem size_pos (o : DescrObj Data) : 0 < o.size :=
  lt_of_le_of_lt (Nat.zero_le _) (stackSize_getChildren o)

theorem stackSize_popped (o : DescrObj Data) (objsStack : List (DescrObj Data)) :
    stackSize objsStack < stackSize (o :: objsStack) := by
  have positive := size_pos o
  rw [stackSize_cons]
  omega

/-! ## Comparison -/

section Comparison

variable [DecidableEq Data]

mutual

/-- `==` on models compares their attributes. -/
def sameField : FieldDescr Data → FieldDescr Data → Bool
  | .mk name1 data1 cls1, .mk name2 data2 cls2 =>
    name1 = name2 && data1 = data2 && sameClass cls1 cls2
termination_by structural f1 => f1

def sameClass : FieldClass Data → FieldClass Data → Bool
  | .other, .other => true
  | .array item1, .array item2 => sameField item1 item2
  | .struct struct1, .struct struct2 => sameStruct struct1 struct2
  | .union union1, .union union2 => sameUnion union1 union2
  | _, _ => false
termination_by structural cls1 => cls1

def sameStruct : StructDescr Data → StructDescr Data → Bool
  | .mk name1 data1 fields1, .mk name2 data2 fields2 =>
    name1 = name2 && data1 = data2 && sameFields fields1 fields2
termination_by structural struct1 => struct1

def sameUnion : UnionDescr Data → UnionDescr Data → Bool
  | .mk name1 data1 structs1, .mk name2 data2 structs2 =>
    name1 = name2 && data1 = data2 && sameStructs structs1 structs2
termination_by structural union1 => union1

def sameFields : List (FieldDescr Data) → List (FieldDescr Data) → Bool
  | [], [] => true
  | f1 :: rest1, f2 :: rest2 => sameField f1 f2 && sameFields rest1 rest2
  | _, _ => false
termination_by structural fields1 => fields1

def sameStructs : List (StructDescr Data) → List (StructDescr Data) → Bool
  | [], [] => true
  | struct1 :: rest1, struct2 :: rest2 => sameStruct struct1 struct2 && sameStructs rest1 rest2
  | _, _ => false
termination_by structural structs1 => structs1

end

def DescrObj.same : DescrObj Data → DescrObj Data → Bool
  | .struct s1, .struct s2 => sameStruct s1 s2
  | .union u1, .union u2 => sameUnion u1 u2
  | .unionField name1 data1 union1, .unionField name2 data2 union2 =>
    name1 = name2 && data1 = data2 && sameUnion union1 union2
  | _, _ => false

mutual

theorem sameField_iff : ∀ f1 f2 : FieldDescr Data, sameField f1 f2 = true ↔ f1 = f2
  | .mk _ _ cls1, .mk _ _ cls2 => by
      rw [sameField]
      simp [sameClass_iff cls1 cls2, and_assoc]
termination_by structural x => x

theorem sameClass_iff : ∀ cls1 cls2 : FieldClass Data, sameClass cls1 cls2 = true ↔ cls1 = cls2
  | .other, cls2 => by cases cls2 <;> simp [sameClass]
  | .array item1, cls2 => by
      cases cls2 with
      | array item2 => simp [sameClass, sameField_iff item1 item2]
      | _ => simp [sameClass]
  | .struct struct1, cls2 => by
      cases cls2 with
      | struct struct2 => simp [sameClass, sameStruct_iff struct1 struct2]
      | _ => simp [sameClass]
  | .union union1, cls2 => by
      cases cls2 with
      | union union2 => simp [sameClass, sameUnion_iff union1 union2]
      | _ => simp [sameClass]
termination_by structural x => x

theorem sameStruct_iff : ∀ struct1 struct2 : StructDescr Data,
    sameStruct struct1 struct2 = true ↔ struct1 = struct2
  | .mk _ _ fields1, .mk _ _ fields2 => by
      rw [sameStruct]
      simp [sameFields_iff fields1 fields2, and_assoc]
termination_by structural x => x

theorem sameUnion_iff : ∀ union1 union2 : UnionDescr Data,
    sameUnion union1 union2 = true ↔ union1 = union2
  | .mk _ _ structs1, .mk _ _ structs2 => by
      rw [sameUnion]
      simp [sameStructs_iff structs1 structs2, and_assoc]
termination_by structural x => x

theorem sameFields_iff : ∀ fields1 fields2 : List (FieldDescr Data),
    sameFields fields1 fields2 = true ↔ fields1 = fields2
  | [], fields2 => by cases fields2 <;> simp [sameFields]
  | f1 :: rest1, [] => by simp [sameFields]
  | f1 :: rest1, f2 :: rest2 => by
      simp [sameFields, sameField_iff f1 f2, sameFields_iff rest1 rest2]
termination_by structural x => x

theorem sameStructs_iff : ∀ structs1 structs2 : List (StructDescr Data),
    sameStructs structs1 structs2 = true ↔ structs1 = structs2
  | [], structs2 => by cases structs2 <;> simp [sameStructs]
  | struct1 :: rest1, [] => by simp [sameStructs]
  | struct1 :: rest1, struct2 :: rest2 => by
      simp [sameStructs, sameStruct_iff struct1 struct2, sameStructs_iff rest1 rest2]
termination_by structural x => x

end

theorem DescrObj.same_iff (o c : DescrObj Data) : o.same c = true ↔ o = c := by
  cases o <;> cases c <;>
    simp [DescrObj.same, sameStruct_iff, sameUnion_iff, and_assoc]

/-- The `ValueError` for two objects of one name. -/
structure DifferentByName (Data : Type) where
  name : String
  o : DescrObj Data
  other : DescrObj Data

/-- `objs_by_name` is the list of its objects, which have its keys as names. -/
def validateLoop : (objsStack objsByName : List (DescrObj Data)) →
    Except (DifferentByName Data) Unit
  | [], _ => .ok ()
  | o :: objsStack, objsByName =>
    match objsByName.find? fun other => getName other = getName o with
    | some other =>
      if ¬ o.same other then .error ⟨getName o, o, other⟩
      else validateLoop objsStack objsByName
    | none => validateLoop ((getChildren o).reverse ++ objsStack) (o :: objsByName)
termination_by objsStack => stackSize objsStack
decreasing_by
  · exact stackSize_popped o objsStack
  · exact stackSize_pushed (List.reverse_perm _) objsStack

def validateDuplicates (startObjs : List (DescrObj Data)) : Except (DifferentByName Data) Unit :=
  validateLoop startObjs.reverse []

/-! What the check finds under a name. -/

theorem mem_of_found_same {objsByName : List (DescrObj Data)} {o other : DescrObj Data}
    (found : objsByName.find? (fun other => getName other = getName o) = some other)
    (same : ¬ ¬ o.same other = true) : o ∈ objsByName := by
  have equal : o = other := (DescrObj.same_iff o other).mp (not_not.mp same)
  exact equal ▸ List.mem_of_find?_eq_some found

theorem differ_of_found {objsByName : List (DescrObj Data)} {o other : DescrObj Data}
    (found : objsByName.find? (fun other => getName other = getName o) = some other)
    (differs : ¬ o.same other = true) : getName o = getName other ∧ o ≠ other := by
  have same : getName other = getName o := by simpa using List.find?_some found
  exact ⟨same.symm, fun equal => differs ((DescrObj.same_iff o other).mpr equal)⟩

end Comparison

theorem new_of_not_found {objsByName : List (DescrObj Data)} {o : DescrObj Data}
    (missing : objsByName.find? (fun other => getName other = getName o) = none) :
    getName o ∉ objsByName.map getName := by
  simpa using missing

/-! ## Counting and ordering -/

/-- A dict from names to counts. -/
abbrev Counts := String → Option Int

def countLoop : (objsStack : List (DescrObj Data)) → (visited : List String) →
    (entriesCount : Counts) → Counts
  | [], _, entriesCount => entriesCount
  | o :: objsStack, visited, entriesCount =>
    let entriesCount := Function.update entriesCount (getName o)
      (some ((entriesCount (getName o)).getD 0 + 1))
    if getName o ∈ visited then countLoop objsStack visited entriesCount
    else countLoop ((getChildren o).reverse ++ objsStack) (getName o :: visited) entriesCount
termination_by objsStack => stackSize objsStack
decreasing_by
  · exact stackSize_popped o objsStack
  · exact stackSize_pushed (List.reverse_perm _) objsStack

def countEntries (startObjs : List (DescrObj Data)) : Counts :=
  countLoop startObjs.reverse [] fun _ => none

/-- `sorted(…, key=get_name)` -/
def sortedByName (objs : List (DescrObj Data)) : List (DescrObj Data) :=
  objs.mergeSort fun o c => getName o ≤ getName c

/-- The key of a `KeyError`. -/
structure KeyError where
  key : String

def orderLoop : (objsStack : List (DescrObj Data)) → (entriesCount : Counts) →
    (order : List (DescrObj Data)) → Except KeyError (List (DescrObj Data))
  | [], _, order => .ok order
  | o :: objsStack, entriesCount, order =>
    match entriesCount (getName o) with
    | none => .error ⟨getName o⟩
    | some count =>
      let entriesCount := Function.update entriesCount (getName o) (some (count - 1))
      if count - 1 ≠ 0 then orderLoop objsStack entriesCount order
      else
        orderLoop ((sortedByName (getChildren o)).reverse ++ objsStack) entriesCount (order ++ [o])
termination_by objsStack => stackSize objsStack
decreasing_by
  · exact stackSize_popped o objsStack
  · exact stackSize_pushed ((List.reverse_perm _).trans (List.mergeSort_perm _ _)) objsStack

def orderDescrs (startObjs : List (DescrObj Data)) (entriesCount : Counts) :
    Except KeyError (List (DescrObj Data)) :=
  (orderLoop startObjs.reverse entriesCount []).map List.reverse

/-! ## What they do -/

/-- The objects by name, with their children. -/
noncomputable def descrs (Data : Type) : References (DescrObj Data) String where
  key := getName
  children := getChildren
  size := DescrObj.size
  smaller := size_child

/-- Yielded by `get_children`, from the heads on. -/
abbrev Reachable (startObjs : List (DescrObj Data)) : DescrObj Data → Prop :=
  (descrs Data).Reachable startObjs

/-- A check that passes has found everything, under different names. -/
theorem validateLoop_ok [DecidableEq Data] {startObjs : List (DescrObj Data)}
    (objsStack objsByName : List (DescrObj Data))
    (state : (descrs Data).Collecting startObjs objsStack objsByName)
    (passed : validateLoop objsStack objsByName = .ok ()) :
    ∃ reached, (descrs Data).Reached startObjs reached := by
  induction objsStack, objsByName using validateLoop.induct with
  | case1 objsByName => exact ⟨objsByName, state.finish⟩
  | case2 o objsStack objsByName other found differs =>
      rw [validateLoop, found] at passed
      simp [differs] at passed
  | case3 o objsStack objsByName other found same ih =>
      rw [validateLoop, found] at passed
      simp only [same, if_false] at passed
      exact ih (state.skip (mem_of_found_same found same)) passed
  | case4 o objsStack objsByName missing ih =>
      rw [validateLoop, missing] at passed
      exact ih (state.expand (new_of_not_found missing) (List.reverse_perm _)) passed

theorem validateDuplicates_ok [DecidableEq Data] {startObjs : List (DescrObj Data)}
    (accepted : validateDuplicates startObjs = .ok ()) :
    ∃ reached, (descrs Data).Reached startObjs reached :=
  validateLoop_ok _ _ (.start (List.reverse_perm _)) accepted

/-- The dict has the names counted, with their counts. -/
def Shows (entriesCount : Counts) (count : String → Nat) : Prop :=
  ∀ name, entriesCount name = if count name = 0 then none else some (count name : Int)

theorem Shows.increment {entriesCount : Counts} {count : String → Nat}
    (shows : Shows entriesCount count) (name : String) :
    Shows (Function.update entriesCount name (some ((entriesCount name).getD 0 + 1)))
      (Function.update count name (count name + 1)) := by
  intro other
  by_cases same : other = name
  · subst same
    rw [Function.update_self, Function.update_self, shows other]
    split <;> simp [*]
  · rw [Function.update_of_ne same, Function.update_of_ne same]
    exact shows other

theorem countLoop_counts {startObjs reached : List (DescrObj Data)}
    (all : (descrs Data).Reached startObjs reached) (objsStack : List (DescrObj Data))
    (visited : List String) (entriesCount : Counts) :
    ∀ (found : List (DescrObj Data)) (count : String → Nat), found.map getName = visited →
      Shows entriesCount count → (descrs Data).Counting startObjs objsStack found count →
      Shows (countLoop objsStack visited entriesCount) fun name =>
        (descrs Data).occurrences name startObjs +
          (descrs Data).occurrences name (reached.flatMap getChildren) := by
  induction objsStack, visited, entriesCount using countLoop.induct with
  | case1 visited entriesCount =>
      intro found count names shows state
      rw [countLoop]
      have total : count = fun name => (descrs Data).occurrences name startObjs +
          (descrs Data).occurrences name (reached.flatMap getChildren) :=
        funext fun name => state.finish all name
      rw [← total]
      exact shows
  | case2 o objsStack visited entriesCount entriesCount' seen ih =>
      intro found count names shows state
      rw [countLoop, if_pos seen]
      have again := state.toCollecting.mem_of_key all (by rw [← names] at seen; exact seen)
      exact ih found _ names (shows.increment _) (state.skip again)
  | case3 o objsStack visited entriesCount entriesCount' new ih =>
      intro found count names shows state
      rw [countLoop, if_neg new]
      have first : getName o ∉ found.map getName := by rw [names]; exact new
      exact ih (o :: found) _ (by rw [List.map_cons, names]) (shows.increment _)
        (state.expand first (List.reverse_perm _))

theorem countEntries_counts {startObjs reached : List (DescrObj Data)}
    (all : (descrs Data).Reached startObjs reached) :
    Shows (countEntries startObjs) fun name => (descrs Data).occurrences name startObjs +
      (descrs Data).occurrences name (reached.flatMap getChildren) :=
  countLoop_counts all _ _ _ [] _ rfl (fun _ => rfl) (.start (List.reverse_perm _))

/-- Taking a count down, in the dict and in the counts. -/
theorem counted_update {reached : List (DescrObj Data)} {entriesCount : Counts}
    {count : String → Nat} {o : DescrObj Data} {n : Int}
    (counted : ∀ c ∈ reached, entriesCount (getName c) = some (count (getName c) : Int))
    (same : n = (count (getName o) : Int)) (positive : 0 < count (getName o)) :
    ∀ c ∈ reached, Function.update entriesCount (getName o) (some (n - 1)) (getName c) =
      some (Function.update count (getName o) (count (getName o) - 1) (getName c) : Int) := by
  intro c member
  by_cases this : getName c = getName o
  · rw [this, Function.update_self, Function.update_self, same]
    congr 1
    omega
  · rw [Function.update_of_ne this, Function.update_of_ne this]
    exact counted c member

/-- The dict has what is left of the object on top, which is something. -/
theorem counted_top {reached : List (DescrObj Data)} {entriesCount : Counts}
    {count : String → Nat} {o : DescrObj Data} {objsStack order waiting : List (DescrObj Data)}
    {n : Int}
    (counted : ∀ c ∈ reached, entriesCount (getName c) = some (count (getName c) : Int))
    (state : (descrs Data).Placing reached (o :: objsStack) order waiting count)
    (found : entriesCount (getName o) = some n) :
    n = (count (getName o) : Int) ∧ 0 < count (getName o) := by
  have there := counted o (state.stacked o List.mem_cons_self)
  exact ⟨Option.some.inj (found.symm.trans there), state.unplaced o state.waits⟩

theorem orderLoop_ok {startObjs reached : List (DescrObj Data)}
    (all : (descrs Data).Reached startObjs reached) (objsStack : List (DescrObj Data))
    (entriesCount : Counts) (order : List (DescrObj Data)) :
    ∀ (waiting : List (DescrObj Data)) (count : String → Nat),
      (∀ o ∈ reached, entriesCount (getName o) = some (count (getName o) : Int)) →
      (descrs Data).Placing reached objsStack order waiting count →
      ∃ order' waiting' count', orderLoop objsStack entriesCount order = .ok order' ∧
        (descrs Data).Placing reached [] order' waiting' count' := by
  induction objsStack, entriesCount, order using orderLoop.induct with
  | case1 entriesCount order =>
      intro waiting count counted state
      exact ⟨order, waiting, count, by rw [orderLoop], state⟩
  | case2 o objsStack entriesCount order missing =>
      intro waiting count counted state
      have there := counted o (state.stacked o List.mem_cons_self)
      rw [missing] at there
      cases there
  | case3 o objsStack entriesCount order n found entriesCount' more ih =>
      intro waiting count counted state
      obtain ⟨same, positive⟩ := counted_top counted state found
      rw [orderLoop, found]
      dsimp only
      rw [if_pos more]
      exact ih waiting _ (counted_update counted same positive) (state.pass (by
        change count (getName o) - 1 ≠ 0
        omega))
  | case4 o objsStack entriesCount order n found entriesCount' last ih =>
      intro waiting count counted state
      obtain ⟨same, positive⟩ := counted_top counted state found
      rw [orderLoop, found]
      dsimp only
      rw [if_neg last]
      have zero : count (getName o) - 1 = 0 := by omega
      obtain ⟨waiting', placed⟩ := state.place all zero
        ((List.reverse_perm _).trans (List.mergeSort_perm _ _))
      exact ih waiting' _ (counted_update counted same positive) placed

/-- The order lists what can be reached, children first. -/
theorem orderDescrs_reached [DecidableEq Data] {startObjs : List (DescrObj Data)}
    (accepted : validateDuplicates startObjs = .ok ()) :
    ∃ order, orderDescrs startObjs (countEntries startObjs) = .ok order ∧
      (descrs Data).Reached startObjs order ∧
      ∀ before o after, order = before ++ o :: after → ∀ c ∈ getChildren o, c ∈ before := by
  obtain ⟨reached, all⟩ := validateDuplicates_ok accepted
  have start := Placing.start all (List.reverse_perm startObjs) fun name => rfl
  have counted (o : DescrObj Data) (member : o ∈ reached) :=
    (countEntries_counts all (getName o)).trans
      (if_neg (Nat.pos_iff_ne_zero.mp (start.unplaced o member)))
  obtain ⟨order, waiting, count, ordered, placed⟩ := orderLoop_ok all startObjs.reverse
    (countEntries startObjs) [] reached _ counted start
  have same := placed.perm all
  refine ⟨order.reverse, ?_, ⟨fun o => ?_, ?_⟩, fun before o after here c child => ?_⟩
  · rw [orderDescrs, ordered]
    rfl
  · exact same.mem_iff.trans (all.mem_iff o)
  · exact (same.map getName).nodup_iff.mpr all.keys
  · exact placed.childrenFirst all here child

/-- **Dependency order.**  Heads that pass `validate_duplicates` are ordered: everything that can
be reached from them is put out, each name once, and after all its children. -/
theorem order_descrs_children_first [DecidableEq Data] {startObjs : List (DescrObj Data)}
    (accepted : validateDuplicates startObjs = .ok ()) :
    ∃ order, orderDescrs startObjs (countEntries startObjs) = .ok order ∧
      (∀ o, o ∈ order ↔ Reachable startObjs o) ∧ (order.map getName).Nodup ∧
      ∀ before o after, order = before ++ o :: after →
        ∀ c ∈ getChildren o, c ∈ before := by
  obtain ⟨order, ordered, all, childrenFirst⟩ := orderDescrs_reached accepted
  exact ⟨order, ordered, all.mem_iff, all.keys, childrenFirst⟩

/-- Two structs that share a third, which one has in an array, and that one again. -/
def sharingHeads : List (DescrObj Unit) :=
  let leaf : StructDescr Unit := .mk "leaf" () [.mk "x" () .other]
  let one : StructDescr Unit := .mk "one" () [.mk "a" () (.struct leaf), .mk "b" () (.struct leaf)]
  let two : StructDescr Unit := .mk "two" () [.mk "c" () (.array (.mk "item" () (.struct leaf))),
    .mk "u" () (.union (.mk "either" () [one, leaf]))]
  [.struct two, .struct one, .struct two]

theorem order_descrs_sharing :
    ∃ order, orderDescrs sharingHeads (countEntries sharingHeads) = .ok order ∧
      (∀ o, o ∈ order ↔ Reachable sharingHeads o) ∧ (order.map getName).Nodup ∧
      ∀ before o after, order = before ++ o :: after →
        ∀ c ∈ getChildren o, c ∈ before :=
  order_descrs_children_first (by
    simp [validateDuplicates, validateLoop, sharingHeads, getChildren, getName, yieldChild,
      unwrapArray, DescrObj.same, sameStruct, sameField, sameFields, sameClass, sameUnion,
      sameStructs])

end UdpStuff.Proto.RenderAll
