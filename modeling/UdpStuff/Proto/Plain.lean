/-
# Proto.Plain — values the two generated codes agree on

A value is plain where the generated code meets no field with a default in it, and
no length field with content behind it (`Plain…`).  A plain value is found wherever
its layout stands (`found_of_layout`), and the reader goes over exactly that.

In other values the reader goes over the presence flags, which are not written, and
not over the content behind a length field, which is.  A schema with only one of the
two kinds therefore leaves the reader where the writer stopped on plain values alone
(`Counts.even`).
-/
import UdpStuff.Proto.Found

namespace UdpStuff.Proto

set_option autoImplicit false

variable (prim : Primitives)

/-- There is no length field, or nothing behind it. -/
def Undelimited (length : Option Nat) (content : List Bool) : Prop :=
  length = none ∨ content = []

mutual

def PlainField : FieldDescr → Value → Prop
  | .mk _ none kind, v => PlainKind kind v
  | .mk _ (some _) _, _ => False

def PlainKind : FieldKind → Value → Prop
  | .leaf _, _ => True
  | .array item _, v => ∀ x ∈ v.items, PlainField item x
  | .struct struct length, v =>
    PlainStruct struct v ∧ Undelimited length (layoutStruct prim struct v)
  | .union (.mk _ structs allowEmpty) _ length, v =>
    allowEmpty ∧ v.type = 0 ∨
      PlainVariant structs (v.type - firstType allowEmpty) (v.variant v.type) ∧
        Undelimited length
          (layoutVariant prim structs (v.type - firstType allowEmpty) (v.variant v.type))

def PlainStruct : StructDescr → Value → Prop
  | .mk _ fields, v => PlainFields fields v.fields

def PlainFields : List FieldDescr → List Value → Prop
  | [], _ => True
  | f :: rest, vs => PlainField f (vs.headD .blank) ∧ PlainFields rest vs.tail

def PlainVariant : List StructDescr → Nat → Value → Prop
  | [], _, _ => True
  | struct :: _, 0, v => PlainStruct struct v
  | _ :: rest, k + 1, v => PlainVariant rest k v

end

variable {prim}

/-! ## Plain values are found where they are written -/

/-- The reader finds the value where its layout stands, and goes over the layout. -/
def FoundAt (found : StreamReader → Prop) (taken : Nat) (layout : List Bool) : Prop :=
  taken = layout.length ∧ ∀ r : StreamReader, layout <+: r.left → found r

/-- After the front of a layout stands the rest of it. -/
theorem prefix_advance {front later : List Bool} {r : StreamReader}
    (here : front ++ later <+: r.left) :
    front <+: r.left ∧ later <+: (r.advance front.length).left := by
  obtain ⟨rest, here⟩ := here
  rw [List.append_assoc] at here
  exact ⟨⟨_, here⟩, ⟨rest, (StreamReader.left_of_append here.symm).symm⟩⟩

theorem foundAt_items {found : Value → StreamReader → Prop} {taken : Value → Nat}
    {layout : Value → List Bool} {vs : List Value}
    (each : ∀ v ∈ vs, FoundAt (found v) (taken v) (layout v)) :
    FoundAt (FoundItems found taken vs) (vs.map taken).sum (vs.flatMap layout) := by
  induction vs with
  | nil => exact ⟨rfl, fun _ _ => trivial⟩
  | cons v rest ih =>
      obtain ⟨first, here⟩ := each v List.mem_cons_self
      obtain ⟨others, later⟩ := ih fun x member => each x (List.mem_cons_of_mem _ member)
      rw [List.flatMap_cons]
      refine ⟨?_, fun r stands => ?_⟩
      · rw [List.map_cons, List.sum_cons, first, others, List.length_append]
      · obtain ⟨front, back⟩ := prefix_advance stands
        exact ⟨here r front, later _ (first ▸ back)⟩

/-- Nothing behind a length field is found in any fragment. -/
theorem foundAt_sized (prim : Primitives) {found : StreamReader → Prop} {taken : Nat}
    {content : List Bool} (here : FoundAt found taken content) {length : Option Nat}
    (plain : Undelimited length content) :
    FoundAt (FoundSized prim length found) (takenSized length taken)
      (sized prim length content) := by
  cases length with
  | none => exact here
  | some bits =>
      obtain none | rfl := plain
      · cases none
      · rw [sized, List.append_nil]
        refine ⟨(prim.length_uint bits 0).symm, fun r stands => ?_⟩
        exact ⟨0, Nat.two_pow_pos bits, stands, here.2 _ (List.nil_prefix)⟩

mutual

theorem plainField_found : ∀ (f : FieldDescr) (v : Value), PlainField prim f v →
    FoundAt (FoundField prim f v) (takenField prim f v) (layoutField prim f v)
  | .mk _ none kind, v, plain => by
      rw [layoutField, takenField]
      exact plainKind_found kind v plain
  | .mk _ (some _) _, _, plain => plain.elim

theorem plainKind_found : ∀ (kind : FieldKind) (v : Value), PlainKind prim kind v →
    FoundAt (FoundKind prim kind v) (takenKind prim kind v) (layoutKind prim kind v)
  | .leaf leaf, v, _ => by
      rw [layoutKind, takenKind]
      exact ⟨rfl, fun r stands => stands⟩
  | .array item (.counted sizeBits), v, plain => by
      obtain ⟨taken, here⟩ := foundAt_items fun x member => plainField_found item x (plain x member)
      have size := prim.length_uint sizeBits v.items.length
      rw [layoutKind, takenKind]
      refine ⟨?_, fun r stands => ?_⟩
      · rw [List.length_append, size, taken]
      · obtain ⟨front, back⟩ := prefix_advance stands
        rw [size] at back
        exact ⟨front, here _ back⟩
  | .array item (.const _), v, plain => by
      rw [layoutKind, takenKind]
      exact foundAt_items fun x member => plainField_found item x (plain x member)
  | .struct struct length, v, plain => by
      rw [layoutKind, takenKind]
      exact foundAt_sized prim (plainStruct_found struct v plain.1) plain.2
  | .union (.mk _ structs allowEmpty) typeBits length, v, plain => by
      have type := prim.length_uint typeBits v.type
      rw [layoutKind, takenKind]
      by_cases empty : allowEmpty ∧ v.type = 0
      · rw [if_pos empty, if_pos empty, List.append_nil]
        exact ⟨type.symm, fun r stands => ⟨stands, .inl empty⟩⟩
      · obtain ⟨chosen, undelimited⟩ := plain.resolve_left empty
        obtain ⟨taken, here⟩ := foundAt_sized prim (plainVariant_found structs _ _ chosen)
          undelimited
        rw [if_neg empty, if_neg empty]
        refine ⟨?_, fun r stands => ?_⟩
        · rw [List.length_append, type, taken]
        · obtain ⟨front, back⟩ := prefix_advance stands
          rw [type] at back
          exact ⟨front, .inr (here _ back)⟩

theorem plainStruct_found : ∀ (struct : StructDescr) (v : Value), PlainStruct prim struct v →
    FoundAt (FoundStruct prim struct v) (takenStruct prim struct v) (layoutStruct prim struct v)
  | .mk _ fields, v, plain => by
      rw [layoutStruct, takenStruct]
      exact plainFields_found fields v.fields plain

theorem plainFields_found : ∀ (fields : List FieldDescr) (vs : List Value),
    PlainFields prim fields vs →
    FoundAt (FoundFields prim fields vs) (takenFields prim fields vs)
      (layoutFields prim fields vs)
  | [], _, _ => ⟨rfl, fun _ _ => trivial⟩
  | f :: rest, vs, plain => by
      obtain ⟨first, here⟩ := plainField_found f (vs.headD .blank) plain.1
      obtain ⟨others, later⟩ := plainFields_found rest vs.tail plain.2
      rw [layoutFields, takenFields]
      refine ⟨?_, fun r stands => ?_⟩
      · rw [first, others, List.length_append]
      · obtain ⟨front, back⟩ := prefix_advance stands
        exact ⟨here r front, later _ (first ▸ back)⟩

theorem plainVariant_found : ∀ (structs : List StructDescr) (k : Nat) (v : Value),
    PlainVariant prim structs k v →
    FoundAt (FoundVariant prim structs k v) (takenVariant prim structs k v)
      (layoutVariant prim structs k v)
  | [], _, _, _ => ⟨rfl, fun _ _ => trivial⟩
  | struct :: _, 0, v, plain => by
      rw [layoutVariant, takenVariant]
      exact plainStruct_found struct v plain
  | _ :: rest, k + 1, v, plain => by
      rw [layoutVariant, takenVariant]
      exact plainVariant_found rest k v plain

end

/-! ## Where the reader stops -/

mutual

/-- Fields have defaults, and structs and unions have lengths, only where that is
allowed. -/
def AllowsField (defaults lengths : Bool) : FieldDescr → Prop
  | .mk _ default kind => (default.isSome → defaults) ∧ AllowsKind defaults lengths kind

def AllowsKind (defaults lengths : Bool) : FieldKind → Prop
  | .leaf _ => True
  | .array item _ => AllowsField defaults lengths item
  | .struct struct length => (length.isSome → lengths) ∧ AllowsStruct defaults lengths struct
  | .union (.mk _ structs _) _ length =>
    (length.isSome → lengths) ∧ AllowsStructs defaults lengths structs

def AllowsStruct (defaults lengths : Bool) : StructDescr → Prop
  | .mk _ fields => AllowsFields defaults lengths fields

def AllowsFields (defaults lengths : Bool) : List FieldDescr → Prop
  | [] => True
  | f :: rest => AllowsField defaults lengths f ∧ AllowsFields defaults lengths rest

def AllowsStructs (defaults lengths : Bool) : List StructDescr → Prop
  | [] => True
  | struct :: rest => AllowsStruct defaults lengths struct ∧ AllowsStructs defaults lengths rest

end

/-- How far the reader goes, beside how much is written: with defaults alone too far,
with lengths alone not far enough, and then as far only if the value is plain. -/
structure Counts (defaults lengths : Bool) (taken written : Nat) (plain : Prop) : Prop where
  least : lengths = false → written ≤ taken
  most : defaults = false → taken ≤ written
  even : defaults = false ∨ lengths = false → taken = written → plain

namespace Counts

variable {defaults lengths : Bool}

theorem same {plain : Prop} (n : Nat) (always : plain) : Counts defaults lengths n n plain :=
  ⟨fun _ => Nat.le_refl n, fun _ => Nat.le_refl n, fun _ _ => always⟩

theorem add {m k m' k' : Nat} {first later : Prop} (one : Counts defaults lengths m k first)
    (two : Counts defaults lengths m' k' later) :
    Counts defaults lengths (m + m') (k + k') (first ∧ later) where
  least without := Nat.add_le_add (one.least without) (two.least without)
  most without := Nat.add_le_add (one.most without) (two.most without)
  even without total := by
    have each : m = k ∧ m' = k' := by
      rcases without with none | none
      · have := one.most none
        have := two.most none
        omega
      · have := one.least none
        have := two.least none
        omega
    exact ⟨one.even without each.1, two.even without each.2⟩

/-- A prefix that is read as it is written. -/
theorem after {m k : Nat} {plain : Prop} (n : Nat) (rest : Counts defaults lengths m k plain) :
    Counts defaults lengths (n + m) (n + k) plain where
  least without := Nat.add_le_add_left (rest.least without) n
  most without := Nat.add_le_add_left (rest.most without) n
  even without total := rest.even without (Nat.add_left_cancel total)

theorem items {taken : Value → Nat} {layout : Value → List Bool} {plain : Value → Prop}
    (each : ∀ v, Counts defaults lengths (taken v) (layout v).length (plain v))
    (vs : List Value) :
    Counts defaults lengths (vs.map taken).sum (vs.flatMap layout).length
      (∀ v ∈ vs, plain v) := by
  induction vs with
  | nil => exact same 0 (fun _ none => absurd none List.not_mem_nil)
  | cons v rest ih =>
      rw [List.map_cons, List.sum_cons, List.flatMap_cons, List.length_append]
      have both := (each v).add ih
      exact ⟨both.least, both.most, fun without total =>
        List.forall_mem_cons.mpr (both.even without total)⟩

theorem sized (prim : Primitives) {taken : Nat} {content : List Bool} {plain : Prop} {length : Option Nat}
    (allowed : length.isSome → lengths)
    (counts : Counts defaults lengths taken content.length plain) :
    Counts defaults lengths (takenSized length taken) (sized prim length content).length
      (plain ∧ Undelimited length content) := by
  cases length with
  | none => exact ⟨counts.least, counts.most, fun without total =>
      ⟨counts.even without total, .inl rfl⟩⟩
  | some bits =>
      have lengthsAllowed : lengths = true := allowed rfl
      rw [Proto.sized, List.length_append, prim.length_uint]
      refine ⟨fun none => ?_, fun _ => Nat.le_add_right _ _, fun without total => ?_⟩
      · rw [lengthsAllowed] at none
        cases none
      · rcases without with none | none
        · have empty : content = [] := List.eq_nil_of_length_eq_zero (Nat.add_eq_left.mp total.symm)
          have least := counts.most none
          rw [empty, List.length_nil] at least
          refine ⟨counts.even (.inl none) ?_, .inr empty⟩
          rw [empty, List.length_nil]
          exact Nat.le_zero.mp least
        · rw [lengthsAllowed] at none
          cases none

end Counts

variable (prim)

mutual

theorem countsField {defaults lengths : Bool} : ∀ (f : FieldDescr),
    AllowsField defaults lengths f → ∀ v : Value,
    Counts defaults lengths (takenField prim f v) (layoutField prim f v).length
      (PlainField prim f v)
  | .mk _ none kind, allows, v => by
      rw [takenField, layoutField]
      exact countsKind kind allows.2 v
  | .mk _ (some default) kind, allows, v => by
      have defaultsAllowed : defaults = true := allows.1 rfl
      have kindCounts := countsKind kind allows.2 v
      have short : lengths = false →
          (if prim.differs v default then layoutKind prim kind v else []).length ≤
            takenKind prim kind v := by
        intro without
        split
        case isTrue => exact kindCounts.least without
        case isFalse => exact Nat.zero_le _
      rw [takenField, layoutField]
      refine ⟨fun without => ?_, fun none => ?_, fun without total => ?_⟩
      · have := short without
        omega
      · rw [defaultsAllowed] at none
        cases none
      · -- the presence flag alone makes the reader go further
        rcases without with none | none
        · rw [defaultsAllowed] at none
          cases none
        · have := short none
          omega

theorem countsKind {defaults lengths : Bool} : ∀ (kind : FieldKind),
    AllowsKind defaults lengths kind → ∀ v : Value,
    Counts defaults lengths (takenKind prim kind v) (layoutKind prim kind v).length
      (PlainKind prim kind v)
  | .leaf leaf, _, v => by
      rw [takenKind, layoutKind]
      exact .same _ trivial
  | .array item (.counted sizeBits), allows, v => by
      rw [takenKind, layoutKind, List.length_append, prim.length_uint]
      exact (Counts.items (countsField item allows) v.items).after sizeBits
  | .array item (.const _), allows, v => by
      rw [takenKind, layoutKind]
      exact Counts.items (countsField item allows) v.items
  | .struct struct length, allows, v => by
      rw [takenKind, layoutKind]
      exact (countsStruct struct allows.2 v).sized prim allows.1
  | .union (.mk _ structs allowEmpty) typeBits length, allows, v => by
      rw [takenKind, layoutKind, List.length_append, prim.length_uint]
      by_cases empty : allowEmpty ∧ v.type = 0
      · rw [if_pos empty, if_pos empty]
        exact .same _ (.inl empty)
      · rw [if_neg empty, if_neg empty]
        have chosen := ((countsVariant structs allows.2 (v.type - firstType allowEmpty)
          (v.variant v.type)).sized prim allows.1).after typeBits
        exact ⟨chosen.least, chosen.most, fun without total => .inr (chosen.even without total)⟩

theorem countsStruct {defaults lengths : Bool} : ∀ (struct : StructDescr),
    AllowsStruct defaults lengths struct → ∀ v : Value,
    Counts defaults lengths (takenStruct prim struct v) (layoutStruct prim struct v).length
      (PlainStruct prim struct v)
  | .mk _ fields, allows, v => by
      rw [takenStruct, layoutStruct]
      exact countsFields fields allows v.fields

theorem countsFields {defaults lengths : Bool} : ∀ (fields : List FieldDescr),
    AllowsFields defaults lengths fields → ∀ vs : List Value,
    Counts defaults lengths (takenFields prim fields vs) (layoutFields prim fields vs).length
      (PlainFields prim fields vs)
  | [], _, _ => .same 0 trivial
  | f :: rest, allows, vs => by
      rw [takenFields, layoutFields, List.length_append]
      exact (countsField f allows.1 (vs.headD .blank)).add (countsFields rest allows.2 vs.tail)

theorem countsVariant {defaults lengths : Bool} : ∀ (structs : List StructDescr),
    AllowsStructs defaults lengths structs → ∀ (k : Nat) (v : Value),
    Counts defaults lengths (takenVariant prim structs k v) (layoutVariant prim structs k v).length
      (PlainVariant prim structs k v)
  | [], _, _, _ => .same 0 trivial
  | struct :: _, allows, 0, v => by
      rw [takenVariant, layoutVariant]
      exact countsStruct struct allows.1 v
  | _ :: rest, allows, k + 1, v => by
      rw [takenVariant, layoutVariant]
      exact countsVariant rest allows.2 k v

end

end UdpStuff.Proto
